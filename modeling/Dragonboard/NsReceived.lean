/-
What the bytes of a packet leave open.

`ctrl_port_fn` only asks for four bytes, and the handlers read up to twenty from the receive buffer. A
packet that is too short is filled up with what was received before it.

A word of which some bytes have arrived can be each of the words that begin so (`Fits`), and nothing
else is known of it. So a packet that has arrived in part can be taken for each packet of its type whose
words fit, and for no others (`Datagram.completes`, `Completes.exists_stale`). With that the
contents of the buffer are out of the way: two runs that differ in them are two packets that
the same bytes can be taken for (`determined_iff`).
-/
import Dragonboard.MapLawful
import Dragonboard.NsMachine

set_option autoImplicit false

namespace Dragonboard.Ns

open Dragonboard.Memory Dragonboard.MapApi
open Dragonboard.QrtrMap (Map)

/-! ## Words that have arrived in part

`recvfrom` stores what the datagram has, and the handler reads words. Of a word that arrives in
part the rest is what the buffer held before, so it can be any word with the given first bytes. -/

/-- The bytes that have arrived of the word at an offset are those of `w`. -/
def Fits (bytes : List UInt8) (offset : ℕ) (w : UInt32) : Prop :=
  ∀ i < 4, offset + i < bytes.length → bytes.getD (offset + i) 0 = (le32 w).getD i 0

instance (bytes : List UInt8) (offset : ℕ) (w : UInt32) : Decidable (Fits bytes offset w) :=
  inferInstanceAs (Decidable (∀ i < 4, offset + i < bytes.length →
    bytes.getD (offset + i) 0 = (le32 w).getD i 0))

theorem le32_length (w : UInt32) : (le32 w).length = 4 := leBytes_length 4 _

theorem le32_injective : Function.Injective le32 := by
  intro w w' h
  have hnat := congrArg leNat h
  rw [le32, le32, leNat_leBytes 4 _ w.toNat_lt, leNat_leBytes 4 _ w'.toNat_lt] at hnat
  exact UInt32.toNat_inj.mp hnat

/-- A word in memory is its four bytes. -/
theorem le32_wordAt (m : Mem) (offset : ℕ) : le32 (wordAt m offset) = bytesAt m offset 4 := by
  have hlt : leNat (bytesAt m offset 4) < UInt32.size := by
    have h := leNat_lt (bytesAt m offset 4)
    rwa [bytesAt_length] at h
  rw [le32, wordAt, UInt32.toNat_ofNat_of_lt' hlt]
  have h := leBytes_leNat (bytesAt m offset 4)
  rwa [bytesAt_length] at h

theorem le32_getD_wordAt (m : Mem) (offset : ℕ) {i : ℕ} (hi : i < 4) :
    (le32 (wordAt m offset)).getD i 0 = m (offset + i) := by
  rw [le32_wordAt, List.getD_eq_getElem _ _ (by rwa [bytesAt_length]), bytesAt_getElem]

theorem writeAt_received {stale : Mem} {bytes : List UInt8} {a : ℕ} (h : a < bytes.length) :
    writeAt stale 0 bytes a = bytes.getD a 0 := by
  rw [writeAt, if_pos (by omega), Nat.sub_zero]

/-- A word that was read fits what has arrived of it. -/
theorem fits_wordAt (stale : Mem) (bytes : List UInt8) (offset : ℕ) :
    Fits bytes offset (wordAt (writeAt stale 0 bytes) offset) := by
  intro i hi hlen
  rw [le32_getD_wordAt _ _ hi, writeAt_received hlen]

/-- A word that fits is read, if the buffer holds the rest of it. -/
theorem wordAt_of_fits {stale : Mem} {bytes : List UInt8} {offset : ℕ} {w : UInt32}
    (h : Fits bytes offset w) (hstale : ∀ i < 4, stale (offset + i) = (le32 w).getD i 0) :
    wordAt (writeAt stale 0 bytes) offset = w := by
  refine wordAt_of_holds ?_
  refine List.ext_getElem (by simp) fun i h1 h2 => ?_
  rw [bytesAt_getElem]
  have hi : i < 4 := by rwa [le32_length] at h2
  rw [← List.getD_eq_getElem (le32 w) 0 h2]
  by_cases harrived : offset + i < bytes.length
  · rw [writeAt_received harrived, h i hi harrived]
  · rw [writeAt_of_ge (by omega), hstale i hi]

theorem exists_fits (bytes : List UInt8) (offset : ℕ) : ∃ w, Fits bytes offset w :=
  ⟨_, fits_wordAt (fun _ => 0) bytes offset⟩

/-- One word fits if all of it has arrived. -/
theorem Fits.eq {bytes : List UInt8} {offset : ℕ} {w w' : UInt32} (h : Fits bytes offset w)
    (h' : Fits bytes offset w') (hlen : offset + 4 ≤ bytes.length) : w = w' := by
  refine le32_injective (List.ext_getElem (by rw [le32_length, le32_length]) fun i hi hi' => ?_)
  have hlt : i < 4 := by rwa [le32_length] at hi
  rw [← List.getD_eq_getElem (le32 w) 0 hi, ← List.getD_eq_getElem (le32 w') 0 hi',
    ← h i hlt (by omega), ← h' i hlt (by omega)]

/-- As long as it has not, words with any last byte fit. -/
theorem exists_fits_top {bytes : List UInt8} {offset : ℕ} (hlen : bytes.length < offset + 4)
    (c : UInt8) : ∃ w, Fits bytes offset w ∧ (le32 w).getD 3 0 = c := by
  refine ⟨_, fits_wordAt (fun _ => c) bytes offset, ?_⟩
  rw [le32_getD_wordAt _ _ (by omega), writeAt_of_ge (by omega)]

/-- Two words fit, neither of them zero. -/
theorem exists_fits_two {bytes : List UInt8} {offset : ℕ} (hlen : bytes.length < offset + 4) :
    ∃ w w', Fits bytes offset w ∧ Fits bytes offset w' ∧ w ≠ w' ∧ w ≠ 0 ∧ w' ≠ 0 := by
  obtain ⟨w, hw, htop⟩ := exists_fits_top hlen 1
  obtain ⟨w', hw', htop'⟩ := exists_fits_top hlen 2
  have hzero : (le32 0).getD 3 0 = 0 := by decide
  refine ⟨w, w', hw, hw', ?_, ?_, ?_⟩
  · rintro rfl
    rw [htop] at htop'
    exact absurd htop' (by decide)
  · rintro rfl
    rw [hzero] at htop
    exact absurd htop (by decide)
  · rintro rfl
    rw [hzero] at htop'
    exact absurd htop' (by decide)

/-- Another word than a given one fits, and it is not zero. -/
theorem exists_fits_ne {bytes : List UInt8} {offset : ℕ} (hlen : bytes.length < offset + 4)
    (w : UInt32) : ∃ w', Fits bytes offset w' ∧ w' ≠ w ∧ w' ≠ 0 := by
  obtain ⟨a, b, ha, hb, hne, ha0, hb0⟩ := exists_fits_two hlen
  by_cases haw : a = w
  · exact ⟨b, hb, fun hbw => hne (haw.trans hbw.symm), hb0⟩
  · exact ⟨a, ha, haw, ha0⟩

/-! ## Packets that have arrived in part

The words of a packet are completed independently of each other, except for the command word: a
packet that is handled has all of it. -/

/-- A packet of a type that the bytes can be taken for, if the buffer holds the rest of it. -/
structure Completes (bytes : List UInt8) (type : QrtrType) (pkt : QrtrCtrlPkt) : Prop where
  cmd : pkt.cmd = type.code
  service : Fits bytes 4 pkt.service
  instance_ : Fits bytes 8 pkt.instance_
  node : Fits bytes 12 pkt.node
  port : Fits bytes 16 pkt.port

theorem completes_of_fits {bytes : List UInt8} (type : QrtrType)
    {service instance_ node port : UInt32} (hservice : Fits bytes 4 service)
    (hinstance : Fits bytes 8 instance_) (hnode : Fits bytes 12 node) (hport : Fits bytes 16 port) :
    Completes bytes type ⟨type.code, service, instance_, node, port⟩ :=
  ⟨rfl, hservice, hinstance, hnode, hport⟩

theorem QrtrType.eq_code {cmd : UInt32} {type : QrtrType} (h : QrtrType.ofCode cmd = some type) :
    cmd = type.code := by
  have hcode := List.find?_some h
  exact (of_decide_eq_true hcode).symm

/-- Whole packets have arrived in one way. -/
theorem Completes.eq {bytes : List UInt8} {type : QrtrType} {pkt pkt' : QrtrCtrlPkt}
    (h : Completes bytes type pkt) (h' : Completes bytes type pkt') (hlen : 20 ≤ bytes.length) :
    pkt = pkt' := by
  obtain ⟨cmd, service, instance_, node, port⟩ := pkt
  obtain ⟨cmd', service', instance', node', port'⟩ := pkt'
  rw [QrtrCtrlPkt.mk.injEq]
  exact ⟨h.cmd.trans h'.cmd.symm, h.service.eq h'.service (by omega),
    h.instance_.eq h'.instance_ (by omega), h.node.eq h'.node (by omega),
    h.port.eq h'.port (by omega)⟩

section Packets

variable {sq : SockaddrQrtr} {data : List UInt8}

/-- The type of a packet does not depend on the buffer. -/
theorem Datagram.type_stale (sq : SockaddrQrtr) (data : List UInt8) (stale stale' : Mem) :
    (⟨sq, data, stale⟩ : Datagram).type = (⟨sq, data, stale'⟩ : Datagram).type := by
  unfold Datagram.type
  by_cases hlen : 4 ≤ (⟨sq, data, stale⟩ : Datagram).received.length
  · have hlen' : 4 ≤ (⟨sq, data, stale'⟩ : Datagram).received.length := hlen
    rw [if_pos hlen, if_pos hlen']
    refine congrArg QrtrType.ofCode ?_
    exact (fits_wordAt stale _ 0).eq (fits_wordAt stale' _ 0) hlen
  · have hlen' : ¬ 4 ≤ (⟨sq, data, stale'⟩ : Datagram).received.length := hlen
    rw [if_neg hlen, if_neg hlen']

/-- What the handler reads is a packet that the bytes can be taken for. -/
theorem Datagram.completes {d : Datagram} {type : QrtrType} (htype : d.type = some type) :
    Completes d.received type d.msg := by
  refine ⟨?_, fits_wordAt _ _ 4, fits_wordAt _ _ 8, fits_wordAt _ _ 12, fits_wordAt _ _ 16⟩
  unfold Datagram.type at htype
  split at htype
  · exact QrtrType.eq_code htype
  · cases htype

/-- And each of these packets is read, over some contents of the buffer. -/
theorem Completes.exists_stale {type : QrtrType}
    (htype : (⟨sq, data, fun _ => 0⟩ : Datagram).type = some type) {pkt : QrtrCtrlPkt}
    (h : Completes (⟨sq, data, fun _ => 0⟩ : Datagram).received type pkt) :
    ∃ stale, (⟨sq, data, stale⟩ : Datagram).msg = pkt := by
  refine ⟨writeAt (fun _ => 0) 0 pkt.bytes, ?_⟩
  -- the buffer holds the packet itself
  have hread := QrtrCtrlPkt.read_of_holds (holds_writeAt (fun _ => 0) 0 pkt.bytes)
  generalize writeAt (fun _ => 0) 0 pkt.bytes = stale at hread
  have hword : ∀ offset w, wordAt stale offset = w →
      Fits (⟨sq, data, fun _ => 0⟩ : Datagram).received offset w →
      wordAt (⟨sq, data, stale⟩ : Datagram).buf offset = w := by
    intro offset w hw hfits
    refine wordAt_of_fits hfits fun i hi => ?_
    rw [← hw, le32_getD_wordAt _ _ hi]
  have hcmd : Fits (⟨sq, data, fun _ => 0⟩ : Datagram).received 0 pkt.cmd := by
    have hfirst := fits_wordAt (fun _ => 0) (⟨sq, data, fun _ => 0⟩ : Datagram).received 0
    rwa [h.cmd, ← (Datagram.completes htype).cmd]
  subst hread
  rw [Datagram.msg, QrtrCtrlPkt.read, hword 0 _ rfl hcmd, hword 4 _ rfl h.service,
    hword 8 _ rfl h.instance_, hword 12 _ rfl h.node, hword 16 _ rfl h.port]
  rfl

end Packets

/-! ## Packets with one outcome

The state of the server is compared without `time`, which counts the calls to the system and is no
state of the code. -/

/-- A state, apart from the number of calls to the system that were made. -/
def Context.untimed (s : Context Map) : Context Map := { s with time := 0 }

/-- A packet has one outcome in a state, whatever the receive buffer and the stack held before it, and
whatever the calls to the system return. -/
def Determined (local_node : UInt32) (s : Context Map) (sq : SockaddrQrtr) (data : List UInt8) : Prop :=
  ∀ (sys : Sys) (stale stale' : Mem) (stack stack' : ℕ → UInt32 × UInt32),
    (ctrl_port_fn { sys with stack := stack } local_node s ⟨sq, data, stale⟩).untimed =
      (ctrl_port_fn { sys with stack := stack' } local_node s ⟨sq, data, stale'⟩).untimed

/-- A handler comes to the same state on all packets that the bytes can be taken for, and over every
stack. -/
def Settled (bytes : List UInt8) (type : QrtrType) (handler : Sys → QrtrCtrlPkt → Context Map) : Prop :=
  ∀ (sys : Sys) (stack stack' : ℕ → UInt32 × UInt32) (pkt pkt' : QrtrCtrlPkt),
    Completes bytes type pkt → Completes bytes type pkt' →
      (handler { sys with stack := stack } pkt).untimed =
        (handler { sys with stack := stack' } pkt').untimed

variable {local_node : UInt32} {s : Context Map} {sq : SockaddrQrtr} {data : List UInt8}

/-- A packet without a type is not handled. -/
theorem determined_untyped (htype : (⟨sq, data, fun _ => 0⟩ : Datagram).type = none) :
    Determined local_node s sq data := by
  intro sys stale stale' stack stack'
  have huntyped := fun m => (Datagram.type_stale sq data m fun _ => 0).trans htype
  rw [ctrl_port_fn_untyped _ _ _ _ (huntyped stale), ctrl_port_fn_untyped _ _ _ _ (huntyped stale')]
  rfl

/-- **A packet of a type has one outcome if its handler has.** -/
theorem determined_iff {type : QrtrType}
    (htype : (⟨sq, data, fun _ => 0⟩ : Datagram).type = some type) :
    Determined local_node s sq data ↔
      Settled (⟨sq, data, fun _ => 0⟩ : Datagram).received type fun sys pkt =>
        (ctrl_port_fn.dispatch sys local_node s sq (⟨sq, data, fun _ => 0⟩ : Datagram).received
          pkt).2 := by
  have htyped := fun m => (Datagram.type_stale sq data m fun _ => 0).trans htype
  have hrun := fun sys m => (ctrl_port_fn_dispatch sys local_node ⟨sq, data, m⟩ s (htyped m)).1
  constructor
  · intro hdet sys stack stack' pkt pkt' h h'
    obtain ⟨stale, rfl⟩ := h.exists_stale htype
    obtain ⟨stale', rfl⟩ := h'.exists_stale htype
    have hsame := hdet sys stale stale' stack stack'
    rwa [hrun, hrun] at hsame
  · intro hsettled sys stale stale' stack stack'
    rw [hrun, hrun]
    exact hsettled sys stack stack' _ _ (Datagram.completes (htyped stale))
      (Datagram.completes (htyped stale'))

/-- Two packets that are told apart. -/
theorem Settled.same {bytes : List UInt8} {type : QrtrType} {handler : Sys → QrtrCtrlPkt → Context Map}
    (h : Settled bytes type handler) {pkt pkt' : QrtrCtrlPkt} (hpkt : Completes bytes type pkt)
    (hpkt' : Completes bytes type pkt') :
    (handler allWell pkt).untimed = (handler allWell pkt').untimed :=
  h allWell allWell.stack allWell.stack pkt pkt' hpkt hpkt'

end Dragonboard.Ns
