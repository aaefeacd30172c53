/-
Publishing and looking up: `qcom/qrtr/lib/qrtr.c` on one side of the name server and on the other.

`qrtr_new_server` and `qrtr_new_lookup` put the version and the instance into one word, the version in
the low byte. The name server compares the word as it is, and 0 is any. `qrtr_decode` takes the low
byte for the version and the rest for the instance.

The version is a 16-bit argument, and what does not fit in the low byte is added to the
instance. So the identity of a service survives the way exactly if its version is below
256 (`identity_survives_iff`). Version 256 of instance 0 is read as version 0 of instance 1, and is
found by who looks for that.
-/
import Dragonboard.Qrtr
import Dragonboard.NsLookups
import Dragonboard.NsObserver
import Dragonboard.NsPeers

set_option autoImplicit false

namespace Dragonboard.Qrtr

open Dragonboard.Memory Dragonboard.Ns Dragonboard.MapApi
open Dragonboard.QrtrMap (Map)

/-! ## The client

libqrtr packs the version and the instance of a service into one word of the packet, and unpacks
that word from announcements. -/

/-- What a service goes by. There is no service 0. -/
@[ext]
structure Identity where
  service : UInt32
  version : UInt16
  instance_ : UInt16
  service_ne : service ≠ 0

/-- `instance << 8 | version`. -/
def Identity.word (p : Identity) : UInt32 := p.instance_.toUInt32 <<< 8 ||| p.version.toUInt32

/-- `qrtr_new_server`: the packet, as it comes to the name server from the socket with the given
name. -/
def qrtr_new_server (sq : SockaddrQrtr) (p : Identity) (stale : Mem) : Datagram :=
  ⟨sq, (QrtrCtrlPkt.mk QrtrType.new_server.code p.service p.word 0 0).bytes, stale⟩

/-- `qrtr_new_lookup`. -/
def qrtr_new_lookup (sq : SockaddrQrtr) (p : Identity) (stale : Mem) : Datagram :=
  ⟨sq, (QrtrCtrlPkt.mk QrtrType.new_lookup.code p.service p.word 0 0).bytes, stale⟩

/-- The record a client asks for. -/
def Identity.record (p : Identity) (sq : SockaddrQrtr) : Server :=
  ⟨p.service, p.word, sq.sq_node, sq.sq_port⟩

/-- `qrtr_decode` makes of a packet of the name server a NEW_SERVER of this identity at this
address. -/
def Identity.ReadFrom (p : Identity) (sq : SockaddrQrtr) (data : List UInt8) : Prop :=
  ∀ (dest : QrtrPacket) (node : UInt32), ∃ d,
    qrtr_decode dest data ⟨node, QRTR_PORT_CTRL⟩ = .ok d ∧ d.type = QrtrType.new_server.code ∧
      d.node = sq.sq_node ∧ d.port = sq.sq_port ∧ d.service = p.service ∧
      d.version = p.version.toUInt32 ∧ d.instance_ = p.instance_.toUInt32

/-! ## The word

Eight bits are for the version. A larger one is or-ed into the instance. -/

theorem Identity.word_toNat (p : Identity) :
    p.word.toNat = p.instance_.toNat <<< 8 ||| p.version.toNat := by
  have hinst : p.instance_.toNat <<< 8 < 2 ^ 32 := by
    have hlt := p.instance_.toNat_lt
    rw [Nat.shiftLeft_eq]
    omega
  rw [Identity.word, UInt32.toNat_or, UInt32.toNat_shiftLeft, UInt16.toNat_toUInt32,
    UInt16.toNat_toUInt32]
  change p.instance_.toNat <<< 8 % 2 ^ 32 ||| p.version.toNat = _
  rw [Nat.mod_eq_of_lt hinst]

/-- A version of one byte is found in the low byte, and the instance above it. -/
theorem Identity.word_split {p : Identity} (h : p.version < 256) :
    p.word &&& 0xff = p.version.toUInt32 ∧ p.word >>> 8 = p.instance_.toUInt32 := by
  have hversion : p.version.toNat < 2 ^ 8 := h
  have hword : p.word.toNat = p.instance_.toNat * 2 ^ 8 + p.version.toNat := by
    rw [p.word_toNat, ← Nat.shiftLeft_add_eq_or_of_lt hversion, Nat.shiftLeft_eq]
  constructor
  · apply UInt32.toNat_inj.mp
    have hmask : (0xff : UInt32).toNat = 2 ^ 8 - 1 := rfl
    rw [UInt32.toNat_and, hmask, Nat.and_two_pow_sub_one_eq_mod, hword, UInt16.toNat_toUInt32]
    omega
  · apply UInt32.toNat_inj.mp
    rw [UInt32.toNat_shiftRight, UInt16.toNat_toUInt32]
    change p.word.toNat >>> 8 = _
    rw [Nat.shiftRight_eq_div_pow, hword]
    omega

/-- The word is all that is split so. -/
theorem Identity.word_of_split {p : Identity} (h : p.version < 256) {w : UInt32}
    (hversion : w &&& 0xff = p.version.toUInt32) (hinstance : w >>> 8 = p.instance_.toUInt32) :
    w = p.word := by
  obtain ⟨hv, hi⟩ := Identity.word_split h
  rw [← hv] at hversion
  rw [← hi] at hinstance
  have hmask : (0xff : UInt32).toNat = 2 ^ 8 - 1 := rfl
  have hlow := congrArg UInt32.toNat hversion
  rw [UInt32.toNat_and, UInt32.toNat_and, hmask, Nat.and_two_pow_sub_one_eq_mod,
    Nat.and_two_pow_sub_one_eq_mod] at hlow
  have hhigh := congrArg UInt32.toNat hinstance
  rw [UInt32.toNat_shiftRight, UInt32.toNat_shiftRight] at hhigh
  change w.toNat >>> 8 = p.word.toNat >>> 8 at hhigh
  rw [Nat.shiftRight_eq_div_pow, Nat.shiftRight_eq_div_pow] at hhigh
  apply UInt32.toNat_inj.mp
  omega

/-- What is read as a version is one byte. -/
theorem Identity.version_lt {p : Identity} (h : p.word &&& 0xff = p.version.toUInt32) :
    p.version < 256 := by
  have hnat := congrArg UInt32.toNat h
  have hmask : (0xff : UInt32).toNat = 2 ^ 8 - 1 := rfl
  rw [UInt32.toNat_and, hmask, Nat.and_two_pow_sub_one_eq_mod, UInt16.toNat_toUInt32] at hnat
  show p.version.toNat < 256
  omega

theorem Identity.word_inj {p q : Identity} (hp : p.version < 256) (hq : q.version < 256)
    (h : p.word = q.word) : p.version = q.version ∧ p.instance_ = q.instance_ := by
  obtain ⟨hpv, hpi⟩ := Identity.word_split hp
  obtain ⟨hqv, hqi⟩ := Identity.word_split hq
  constructor
  · apply UInt16.toNat_inj.mp
    rw [← UInt16.toNat_toUInt32, ← hpv, h, hqv, UInt16.toNat_toUInt32]
  · apply UInt16.toNat_inj.mp
    rw [← UInt16.toNat_toUInt32, ← hpi, h, hqi, UInt16.toNat_toUInt32]

/-- Only version 0 of instance 0 is any instance. -/
theorem Identity.word_ne_zero {p : Identity} (h : p.version ≠ 0 ∨ p.instance_ ≠ 0) : p.word ≠ 0 := by
  intro hzero
  have hnat := congrArg UInt32.toNat hzero
  rw [p.word_toNat, UInt32.toNat_zero, Nat.or_eq_zero_iff, Nat.shiftLeft_eq_zero_iff] at hnat
  rcases h with hne | hne
  · exact hne (UInt16.toNat_inj.mp hnat.2)
  · exact hne (UInt16.toNat_inj.mp hnat.1)

/-! ## The name server

The name server keeps the word as the instance of the record, and does not unpack it. -/

/-- A state the name server reaches while sends and allocations succeed. -/
def Arises (sys : Sys) (local_node : UInt32) (s : Context Map) : Prop :=
  sys.Delivers ∧ sys.Allocates ∧ ∃ ds, s = main.run sys local_node ds

/-- The packets sent on the way from one state to another. -/
def sentSince (s s' : Context Map) : List Sent := s'.sent.drop s.sent.length

/-- What comes of it when local clients publish and look up some identities. -/
structure Survives (used : Set Identity) : Prop where
  /-- The record is created, and every lookup it matches gets one packet, which is read as the
  identity. -/
  reported : ∀ p ∈ used, ∀ {sys : Sys} {local_node : UInt32} {s : Context Map},
    Arises sys local_node s → ∀ (sq : SockaddrQrtr) (stale : Mem),
      sq.sq_node = local_node → sq.sq_port ≠ 0 →
      p.record sq ∈ registry (ctrl_port_fn sys local_node s (qrtr_new_server sq p stale)).reg ∧
        ∀ l ∈ s.lookups, l.Matches (p.record sq) →
          ∃ x, (sentSince s (ctrl_port_fn sys local_node s (qrtr_new_server sq p stale))).filter
              (·.lookup = some l.id) = [x] ∧ x.dest = l.sq ∧ p.ReadFrom sq x.data
  /-- No two versions and instances have the same word. -/
  distinct : ∀ p ∈ used, ∀ q ∈ used,
    (p.version, p.instance_) ≠ (q.version, q.instance_) → p.word ≠ q.word
  /-- A lookup that is registered hears of a publication exactly if it is of what it looks for. -/
  awaited : ∀ p ∈ used, p.version ≠ 0 ∨ p.instance_ ≠ 0 → ∀ q ∈ used,
    ∀ {sys : Sys} {local_node : UInt32} {s : Context Map}, Arises sys local_node s →
      ∀ l ∈ s.lookups, l.service = p.service → l.instance_ = p.word →
        ∀ (sq : SockaddrQrtr) (stale : Mem), sq.sq_node = local_node → sq.sq_port ≠ 0 →
          ((sentSince s (ctrl_port_fn sys local_node s (qrtr_new_server sq q stale))).filter
            (·.lookup = some l.id) ≠ [] ↔ q = p)
  /-- A new lookup is registered with its word, and is told of the record of a publication
  exactly if it is of what it looks for. -/
  found : ∀ p ∈ used, p.version ≠ 0 ∨ p.instance_ ≠ 0 → ∀ q ∈ used,
    ∀ {sys : Sys} {local_node : UInt32} {s : Context Map}, Arises sys local_node s →
      ∀ (sq : SockaddrQrtr) (stale : Mem), sq.sq_node = local_node →
        ⟨s.time, p.service, p.word, sq⟩ ∈
            (ctrl_port_fn sys local_node s (qrtr_new_lookup sq p stale)).lookups ∧
          ∀ addr, q.record addr ∈ registry s.reg →
            ((∃ x ∈ sentSince s (ctrl_port_fn sys local_node s (qrtr_new_lookup sq p stale)),
              q.ReadFrom addr x.data) ↔ q = p)

/-- `qrtr_decode` on the announcement of a record. -/
theorem readFrom_iff (p : Identity) (sq : SockaddrQrtr) (srv : Server) :
    p.ReadFrom sq (srv.pkt .new_server).bytes ↔
      srv.node = sq.sq_node ∧ srv.port = sq.sq_port ∧ srv.service = p.service ∧
        srv.instance_ &&& 0xff = p.version.toUInt32 ∧ srv.instance_ >>> 8 = p.instance_.toUInt32 := by
  have hdecode : ∀ (dest : QrtrPacket) (node : UInt32),
      qrtr_decode dest (srv.pkt .new_server).bytes ⟨node, QRTR_PORT_CTRL⟩ =
        .ok { dest with
          type := QrtrType.new_server.code
          node := srv.node
          port := srv.port
          service := srv.service
          version := srv.instance_ &&& 0xff
          instance_ := srv.instance_ >>> 8 } := by
    intro dest node
    rw [qrtr_decode, if_pos rfl, QrtrCtrlPkt.bytes_length, if_neg (by decide), ctrl_bytes]
    rfl
  constructor
  · intro h
    obtain ⟨d, hd, -, hrest⟩ := h ⟨0, 0, 0, 0, 0, 0, []⟩ 0
    rw [hdecode] at hd
    obtain rfl := Except.ok.inj hd
    exact hrest
  · intro h dest node
    exact ⟨_, hdecode dest node, rfl, h⟩

/-- A record that was put is in the table. -/
theorem mem_records_reput {calloc : ℕ → Bool} {m : Map Server} {key : UInt32} {srv : Server}
    {old : Option Server} (h : (map_reput calloc m key srv).2 = .ok old) :
    srv ∈ records (map_reput calloc m key srv).1 := by
  have hmem : (key, srv) ∈ (map_reput calloc m key srv).1.entries := by
    rcases QrtrMap.map_reput_cases calloc m key srv with
      ⟨i, hl, -, hr⟩ | ⟨-, i, -, -, hl, hr⟩ | ⟨-, -, -, hr⟩
    · obtain ⟨A, B, hput, -⟩ := hl.entries srv
      simp only [StructMap.map_reput, hr, hput]
      exact List.mem_append_right A List.mem_cons_self
    · obtain ⟨A, B, hput, -⟩ := hl.entries srv
      simp only [StructMap.map_reput, hr, hput]
      exact List.mem_append_right A List.mem_cons_self
    · simp only [StructMap.map_reput, hr] at h
      cases h
  rw [records_eq]
  exact List.mem_map.mpr ⟨_, hmem, rfl⟩

section Calls

variable {sys : Sys} {local_node : UInt32} {s : Context Map} {sq : SockaddrQrtr} (p : Identity)
  (stale : Mem)

/-- **What a publication does**: the record is registered, and the news of it are sent. -/
theorem new_server_step (h : Arises sys local_node s) (hlocal : sq.sq_node = local_node)
    (hport : sq.sq_port ≠ 0) :
    p.record sq ∈ registry (ctrl_port_fn sys local_node s (qrtr_new_server sq p stale)).reg ∧
      sentSince s (ctrl_port_fn sys local_node s (qrtr_new_server sq p stale)) =
        news .new_server local_node s.lookups (p.record sq) := by
  obtain ⟨hdelivers, hallocates, ds, hs⟩ := h
  have hnodes : Nodes s := hs ▸ main_run_nodes sys local_node ds
  obtain ⟨hrun, hcode⟩ := ctrl_port_fn_dispatch sys local_node (qrtr_new_server sq p stale) s
    (Datagram.type_bytes sq .new_server _ rfl stale)
  have hmsg : (qrtr_new_server sq p stale).msg =
      ⟨QrtrType.new_server.code, p.service, p.word, 0, 0⟩ := (Datagram.msg_bytes sq _ stale).2
  have hclaimed : claimed local_node sq p.service p.word 0 = p.record sq := by
    rw [claimed, if_pos hlocal]
    rfl
  rw [hrun, ctrl_port_fn.dispatch, hcode, hmsg]
  have hnew := hnodes.ctrl_cmd_new_server sys local_node sq p.service p.word 0 0
  cases hacc : ctrl_cmd_new_server.accepted sys local_node s sq p.service p.word 0 0 with
  -- a local client with a service and a port is refused only for want of memory
  | none =>
    rw [hacc] at hnew
    rw [hclaimed] at hnew
    exact absurd hallocates (hnew.2 (.inl hlocal) p.service_ne hport)
  | some srv =>
    rw [hacc] at hnew
    obtain ⟨hsrv, -, -, u, old, o, t, hput, ho, -, hb⟩ := hnew
    obtain rfl : srv = p.record sq := hsrv.trans hclaimed
    have hreg := congrArg View.reg hb.view
    have hsent := congrArg View.sent hb.view
    simp only [Context.view_reg, Context.view_sent] at hreg hsent
    constructor
    · refine ⟨(p.record sq).node, ?_⟩
      show p.record sq ∈ records
        ((ctrl_cmd_new_server sys local_node s sq p.service p.word 0 0).2.reg _)
      rw [hreg, Function.update_self]
      exact mem_records_reput hput
    · show List.drop _ (ctrl_cmd_new_server sys local_node s sq p.service p.word 0 0).2.sent = _
      rw [hsent, List.drop_left, ho.all hdelivers]

/-- **What a lookup does**: it is registered, and told of the records that match. -/
theorem new_lookup_step (h : Arises sys local_node s) (hlocal : sq.sq_node = local_node) :
    (ctrl_port_fn sys local_node s (qrtr_new_lookup sq p stale)).lookups =
        s.lookups ++ [⟨s.time, p.service, p.word, sq⟩] ∧
      ∃ found, (∀ srv, srv ∈ found ↔
          Lookup.Matches ⟨s.time, p.service, p.word, sq⟩ srv ∧ srv ∈ registry s.reg) ∧
        sentSince s (ctrl_port_fn sys local_node s (qrtr_new_lookup sq p stale)) =
          replies ⟨s.time, p.service, p.word, sq⟩ found := by
  obtain ⟨hdelivers, hallocates, ds, hs⟩ := h
  have hnodes : Nodes s := hs ▸ main_run_nodes sys local_node ds
  obtain ⟨hrun, hcode⟩ := ctrl_port_fn_dispatch sys local_node (qrtr_new_lookup sq p stale) s
    (Datagram.type_bytes sq .new_lookup _ rfl stale)
  have hmsg : (qrtr_new_lookup sq p stale).msg =
      ⟨QrtrType.new_lookup.code, p.service, p.word, 0, 0⟩ := (Datagram.msg_bytes sq _ stale).2
  rw [hrun, ctrl_port_fn.dispatch, hcode, hmsg]
  have hlookups := ctrl_cmd_new_lookup_lookups sys local_node hnodes sq p.service p.word
  rw [if_neg (not_not.mpr hlocal), if_pos (hallocates _ _)] at hlookups
  refine ⟨hlookups, ?_⟩
  rcases hnodes.ctrl_cmd_new_lookup sys local_node sq p.service p.word with
    hnone | ⟨-, found, o, t, hfound, -, ho, -, hb⟩
  · -- it was registered, so this is not a refusal
    have hsame := hnone.reg.2
    rw [hlookups] at hsame
    have hlen := congrArg List.length hsame
    simp at hlen
  · refine ⟨found, ?_, ?_⟩
    · intro srv
      rw [hfound, Lookup.wants_iff]
      rfl
    · have hsent := congrArg View.sent hb.view
      simp only [Context.view_sent] at hsent
      show List.drop _ (ctrl_cmd_new_lookup sys local_node s sq p.service p.word).2.sent = _
      rw [hsent, List.drop_left, ho.all hdelivers]

end Calls

/-! ## Identities that survive

From the publication by one client to what another one reads in the reply to its lookup. -/

/-- Two identities of small versions whose words agree are the same. -/
theorem Identity.eq_of_word {p q : Identity} (hp : p.version < 256) (hq : q.version < 256)
    (hservice : p.service = q.service) (hword : p.word = q.word) : p = q := by
  obtain ⟨hversion, hinstance⟩ := Identity.word_inj hp hq hword
  exact Identity.ext hservice hversion hinstance

/-- A lookup of one identity matches the record of the same one. -/
theorem Identity.matches_iff {p q : Identity} (hp : p.version < 256) (hq : q.version < 256)
    (hne : p.version ≠ 0 ∨ p.instance_ ≠ 0) {l : Lookup} (hservice : l.service = p.service)
    (hinstance : l.instance_ = p.word) (addr : SockaddrQrtr) :
    l.Matches (q.record addr) ↔ q = p := by
  rw [Lookup.Matches, hservice, hinstance]
  constructor
  · rintro ⟨hs, hi⟩
    have hs' : p.service = q.service := hs.resolve_left p.service_ne
    have hi' : p.word = q.word := hi.resolve_left (Identity.word_ne_zero hne)
    exact (Identity.eq_of_word hp hq hs' hi').symm
  · rintro rfl
    exact ⟨.inr rfl, .inr rfl⟩

/-- The one packet a lookup gets of a publication. -/
theorem reported_to {sys : Sys} {local_node : UInt32} {s : Context Map}
    (h : Arises sys local_node s) {sq : SockaddrQrtr} (p : Identity) (stale : Mem)
    (hlocal : sq.sq_node = local_node) (hport : sq.sq_port ≠ 0) {l : Lookup} (hl : l ∈ s.lookups) :
    (sentSince s (ctrl_port_fn sys local_node s (qrtr_new_server sq p stale))).filter
        (·.lookup = some l.id) =
      if l.wants (p.record sq).service (p.record sq).instance_ then
        [⟨l.sq, ((p.record sq).pkt .new_server).bytes, some l.id⟩] else [] := by
  have hids : (s.lookups.map Lookup.id).Nodup := by
    obtain ⟨-, -, ds, rfl⟩ := h
    exact (main_run_sound sys local_node ds).ids
  rw [(new_server_step p stale h hlocal hport).2, news_filter _ _ hids hl]

/-- An identity that survives has a version of one byte: it is published to a client that looks
for it. -/
theorem Survives.version_lt {used : Set Identity} (h : Survives used) {p : Identity}
    (hp : p ∈ used) : p.version < 256 := by
  have hstart : Arises allWell 1 (main.run allWell 1 []) :=
    ⟨allWell_delivers, allWell_allocates, [], rfl⟩
  obtain ⟨hlookups, -⟩ :=
    new_lookup_step p (fun _ => 0) hstart (show (⟨1, 20⟩ : SockaddrQrtr).sq_node = 1 from rfl)
  have hsock : (main.run allWell 1 [] : Context Map).sock = true := rfl
  have hstep : ctrl_port_fn allWell 1 (main.run allWell 1 []) (qrtr_new_lookup ⟨1, 20⟩ p fun _ => 0) =
      (main.run allWell 1 [qrtr_new_lookup ⟨1, 20⟩ p fun _ => 0] : Context Map) := by
    have hrun : (main.run allWell 1 [qrtr_new_lookup ⟨1, 20⟩ p fun _ => 0] : Context Map) =
        main.step allWell 1 (main.run allWell 1 []) (qrtr_new_lookup ⟨1, 20⟩ p fun _ => 0) := rfl
    rw [hrun, main.step, if_pos hsock]
  rw [hstep] at hlookups
  have harises : Arises allWell 1 (main.run allWell 1 [qrtr_new_lookup ⟨1, 20⟩ p fun _ => 0]) :=
    ⟨allWell_delivers, allWell_allocates, _, rfl⟩
  have hport : (⟨1, 10⟩ : SockaddrQrtr).sq_port ≠ 0 := by decide
  obtain ⟨-, hreported⟩ := h.reported p hp harises ⟨1, 10⟩ (fun _ => 0) rfl hport
  -- the client that looks for it is told
  have hl := List.mem_append_right (main.run allWell 1 [] : Context Map).lookups
    (List.mem_singleton_self
      (⟨(main.run allWell 1 [] : Context Map).time, p.service, p.word, ⟨1, 20⟩⟩ : Lookup))
  rw [← hlookups] at hl
  obtain ⟨x, hx, -, hread⟩ := hreported _ hl ⟨.inr rfl, .inr rfl⟩
  rw [reported_to harises p _ rfl hport hl,
    if_pos ((Lookup.wants_iff _ _).mpr ⟨.inr rfl, .inr rfl⟩)] at hx
  obtain rfl := List.singleton_inj.mp hx
  exact Identity.version_lt ((readFrom_iff p _ _).mp hread).2.2.2.1

/-- **Identities survive publication exactly if their versions have one byte**: all that is
published and looked up under them is reported, read, told apart and found. -/
theorem identity_survives_iff (used : Set Identity) :
    Survives used ↔ ∀ p ∈ used, p.version < 256 := by
  refine ⟨fun h p hp => h.version_lt hp, fun hsmall => ⟨?_, ?_, ?_, ?_⟩⟩
  · intro p hp sys local_node s h sq stale hlocal hport
    refine ⟨(new_server_step p stale h hlocal hport).1, fun l hl hmatch => ?_⟩
    rw [reported_to h p stale hlocal hport hl, if_pos ((Lookup.wants_iff _ _).mpr hmatch)]
    refine ⟨_, rfl, rfl, ?_⟩
    exact (readFrom_iff p sq _).mpr ⟨rfl, rfl, rfl, Identity.word_split (hsmall p hp)⟩
  · intro p hp q hq hne hword
    obtain ⟨hversion, hinstance⟩ := Identity.word_inj (hsmall p hp) (hsmall q hq) hword
    exact hne (Prod.ext hversion hinstance)
  · intro p hp hne q hq sys local_node s h l hl hservice hinstance sq stale hlocal hport
    rw [reported_to h q stale hlocal hport hl,
      ← Identity.matches_iff (hsmall p hp) (hsmall q hq) hne hservice hinstance sq,
      ← Lookup.wants_iff]
    split
    · rename_i hwants
      exact ⟨fun _ => hwants, fun _ => List.cons_ne_nil _ _⟩
    · rename_i hwants
      exact ⟨fun hnil => absurd rfl hnil, fun hw => absurd hw hwants⟩
  · intro p hp hne q hq sys local_node s h sq stale hlocal
    obtain ⟨hlookups, found, hfound, hsent⟩ := new_lookup_step p stale h hlocal
    refine ⟨?_, fun addr hreg => ?_⟩
    · rw [hlookups]
      exact List.mem_append_right _ (List.mem_singleton_self _)
    rw [hsent, ← Identity.matches_iff (hsmall p hp) (hsmall q hq) hne
      (l := ⟨s.time, p.service, p.word, sq⟩) rfl rfl addr]
    constructor
    · rintro ⟨x, hx, hread⟩
      rcases List.mem_append.mp hx with hx | hx
      · obtain ⟨srv, hsrv, rfl⟩ := List.mem_map.mp hx
        obtain ⟨hnode, hport, hservice, hversion, hinstance⟩ := (readFrom_iff q addr srv).mp hread
        have hword := Identity.word_of_split (hsmall q hq) hversion hinstance
        obtain rfl : srv = q.record addr := by
          cases srv
          simp only at hnode hport hservice hword
          rw [hnode, hport, hservice, hword, Identity.record]
        exact ((hfound _).mp hsrv).1
      · -- the packet that ends the reply is of service 0
        rw [List.mem_singleton.mp hx] at hread
        have hservice := ((readFrom_iff q addr ⟨0, 0, 0, 0⟩).mp hread).2.2.1
        exact absurd hservice.symm q.service_ne
    · intro hmatch
      refine ⟨_, List.mem_append_left _ (List.mem_map.mpr ⟨_, (hfound _).mpr ⟨hmatch, hreg⟩, rfl⟩), ?_⟩
      exact (readFrom_iff q addr _).mpr ⟨rfl, rfl, rfl, Identity.word_split (hsmall q hq)⟩

theorem servreg_service_ne : (64 : UInt32) ≠ 0 := by decide

/-- **The service that pd-mapper publishes** has version 257, and instance 0. -/
theorem identity_lost : ¬ Survives {⟨64, 257, 0, servreg_service_ne⟩} := by
  intro h
  have hlt := h.version_lt (Set.mem_singleton _)
  exact absurd hlt (by decide)

end Dragonboard.Qrtr
