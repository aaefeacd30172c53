/-
Which packets of the modem get their answer.

A client of the rmtfs server tells the answers apart by their transaction ids, and waits for them. So every
packet with the header of a request should be answered once, with its own ids, and with a failure
if it cannot be decoded.

`qmi_decode_message` stores the transaction id only after it has looked at the type of the message, while
`handle_rmtfs` does not look at it at all. A packet of another type is answered with whatever was on the
stack. The other packets without an answer are those for which the handler does not come back (`Safe`), and those
with a path of 256 characters, which is decoded beyond its struct. `answers_match_iff` says that there
are no more of them.
-/
import Dragonboard.RmtfsResponses
import Dragonboard.RmtfsSafe

set_option autoImplicit false

namespace Dragonboard.Rmtfs

open Dragonboard.Memory Dragonboard.Qmi Dragonboard.Qrtr

/-! ## Requests that fit their struct

The one way in which a packet can make a handler store outside its struct is a path that fills its
field. The field is the last one of the struct, so its terminator falls behind it. -/

/-- A path of 256 characters is among the TLVs of a request that the decoder comes to. -/
def FullPath (r : Qmi.Request) (data : Mem) (data_len : ℕ) : Prop :=
  Meets (FullString r.ei data) (spans r.ei) data data_len (data_len - QMI_HEADER_SIZE) QMI_HEADER_SIZE 0

theorem inStruct_of_stays {size : ℕ} {x : Traced ℕ} (h : Stays (fun a => 0 ≤ a ∧ a < 0 + size) x) :
    InStruct size x.stores := by
  intro s hs hne
  have hpos := List.length_pos_iff.mpr hne
  have hlast := h (s.addr + (s.bytes.length - 1)) ⟨s, hs, by omega, by omega⟩
  omega

theorem InStruct.lt {size : ℕ} {stores : List Store} (h : InStruct size stores) {a : ℕ}
    (ha : Covers stores a) : a < size := by
  obtain ⟨s, hs, h1, h2⟩ := ha
  have hle := h s hs (by
    intro hnil
    rw [hnil, List.length_nil] at h2
    omega)
  omega

/-- The strings of the requests are at the end of their structs. -/
theorem request_strings (r : Qmi.Request) : ∀ g ∈ groupsOf r.message.ei, g.elem.data_type = .string →
    sizeof r.message.cstruct ≤ 0 + g.elem.offset + g.elem.elem_len := by
  cases r <;> decide +kernel

/-- The payload is decoded into the struct exactly if no path fills its field. -/
theorem inStruct_iff (r : Qmi.Request) (data : Mem) {data_len : ℕ} (hlen : QMI_HEADER_SIZE ≤ data_len) :
    InStruct (sizeof r.message.cstruct)
        (qmi_decode r.ei data 0 QMI_HEADER_SIZE (data_len - QMI_HEADER_SIZE) 1).stores ↔
      ¬ FullPath r data data_len := by
  have hend : data_len = QMI_HEADER_SIZE + (data_len - QMI_HEADER_SIZE) := by omega
  have hmeets : FullPath r data data_len ↔ Meets (FullString r.message.ei data) (spans r.message.ei) data
      (QMI_HEADER_SIZE + (data_len - QMI_HEADER_SIZE)) (data_len - QMI_HEADER_SIZE) QMI_HEADER_SIZE 0 := by
    rw [← hend]
    rfl
  rw [hmeets]
  constructor
  · intro hin hm
    obtain ⟨g, hg, hstring, hcov⟩ := meets_covers r.message 0 data QMI_HEADER_SIZE
      (data_len - QMI_HEADER_SIZE) (data_len - QMI_HEADER_SIZE) (.init QMI_HEADER_SIZE)
      (Nat.zero_le _) rfl hm
    have hlt := hin.lt hcov
    have hge := request_strings r g hg hstring
    omega
  · intro hm
    exact inStruct_of_stays ((qmi_decode_confined_iff r.message data 0 QMI_HEADER_SIZE _).mpr hm).2

/-! ## Packets that ask

A client sends a packet with the header of a request and waits for one with the same ids. Whether
it gets it may depend on what the stack of the server holds, so that is a variable of every
statement here. -/

/-- A packet from a client with the header of a request; its type is not looked at. -/
structure Asks (stack : Stack) (buf : List UInt8) (sq : Ns.SockaddrQrtr) (r : Qmi.Request) : Prop where
  data : sq.sq_port ≠ Ns.QRTR_PORT_CTRL
  header : qmi_decode_header (writeAt stack.buf 0 buf) buf.length = .ok r.id

/-- A message is a response for a packet, with its ids. The result is the first TLV of a response. -/
structure IsAnswer (stack : Stack) (buf : List UInt8) (sq : Ns.SockaddrQrtr) (r : Qmi.Request)
    (m : Send) : Prop where
  node : m.node = sq.sq_node
  port : m.port = sq.sq_port
  type : leNat (m.data.take 1) = QMI_RESPONSE
  txn_id : leNat ((m.data.drop 1).take 2) = leNat (bytesAt (writeAt stack.buf 0 buf) 1 2)
  msg_id : leNat ((m.data.drop 3).take 2) = leNat (bytesAt (writeAt stack.buf 0 buf) 3 2)
  /-- a payload that could not be decoded is answered with a failure -/
  failure : ∀ f, (decodeRequest r (writeAt stack.buf 0 buf) buf.length 0).result = .error f →
    leNat ((m.data.drop 10).take 2) = QMI_RMTFS_RESULT_FAILURE

section Step

variable {W : Type} (sys : Sys W) (cfg : Config) (dbgprintf_enabled : Bool)

/-- The packet is answered: exactly one message is sent, and that is its answer. -/
def AnsweredOnce (s : Server W) (stack : Stack) (buf : List UInt8) (fits : buf.length ≤ 4096)
    (sq : Ns.SockaddrQrtr) (r : Qmi.Request) : Prop :=
  ∃ h, handle_rmtfs sys cfg dbgprintf_enabled s stack (.packet buf fits sq) = some h ∧
    ∃ m, h.sent = [m] ∧ IsAnswer stack buf sq r m

/-- The packets that are answered. -/
structure Answerable (s : Server W) (stack : Stack) (buf : List UInt8) (sq : Ns.SockaddrQrtr)
    (r : Qmi.Request) : Prop where
  type : leNat (bytesAt (writeAt stack.buf 0 buf) 0 1) = QMI_REQUEST
  path : ¬ FullPath r (writeAt stack.buf 0 buf) buf.length
  quiet : r = .close_req → dbgprintf_enabled = false
  safe : ∀ rc, (decodeRequest r (writeAt stack.buf 0 buf) buf.length 0).result = .ok rc →
    Safe sys cfg s sq.sq_node stack.sector (commandOf (applyStores (fun _ => 0)
      (decodeRequest r (writeAt stack.buf 0 buf) buf.length 0).stores) r)

end Step

/-! ## One packet

A packet is answered if its handler comes back, and with the right ids if the transaction id was
stored. `qrtr_decode` and `qmi_decode_message` do the latter only for packets of the type of a
request. -/

theorem Asks.length {stack : Stack} {buf : List UInt8} {sq : Ns.SockaddrQrtr} {r : Qmi.Request}
    (h : Asks stack buf sq r) : QMI_HEADER_SIZE ≤ buf.length ∧
      leNat (bytesAt (writeAt stack.buf 0 buf) 3 2) = r.id := by
  have hheader := h.header
  unfold qmi_decode_header at hheader
  split at hheader
  · cases hheader
  · rename_i hlen
    refine ⟨by omega, ?_⟩
    injection hheader

theorem malformed_result (r : Qmi.Request) : (malformed r).result.result = QMI_RMTFS_RESULT_FAILURE := by
  cases r <;> rfl

/-- What a response says. -/
theorem respond_answers (stack : Stack) (pkt : QrtrPacket) (r : Qmi.Request) (txn : ℕ) (a : Answer) :
    ∃ m, respond stack pkt r.id txn a = [m] ∧ m.node = pkt.node ∧ m.port = pkt.port ∧
      leNat (m.data.take 1) = QMI_RESPONSE ∧ leNat ((m.data.drop 1).take 2) = txn % 2 ^ 16 ∧
      leNat ((m.data.drop 3).take 2) = r.id ∧
      leNat ((m.data.drop 10).take 2) = a.result.result % 2 ^ 16 := by
  obtain ⟨len, rest, hsent⟩ := respond_eq stack pkt r.id txn a
  have hmod : ∀ n, leNat (leBytes 2 n) = n % 2 ^ 16 := by
    intro n
    simp only [leBytes, leNat, UInt8.toNat_ofNat']
    omega
  have hid : r.id % 2 ^ 16 = r.id := by cases r <;> rfl
  refine ⟨_, hsent, rfl, rfl, rfl, ?_, ?_, ?_⟩
  · rw [← hmod txn]
    rfl
  · exact (hmod r.id).trans hid
  · rw [← hmod]
    rfl

section Step

variable {W : Type} {sys : Sys W} {cfg : Config} {dbgprintf_enabled : Bool} {s : Server W}
  {stack : Stack} {buf : List UInt8} {sq : Ns.SockaddrQrtr} {r : Qmi.Request}

/-- The packet as `qrtr_decode` leaves it. -/
def dataPkt (stack : Stack) (buf : List UInt8) (sq : Ns.SockaddrQrtr) : QrtrPacket :=
  { stack.pkt with type := Ns.QrtrType.data.code, node := sq.sq_node, port := sq.sq_port, data := buf }

/-- A packet that asks goes to its handler. -/
theorem Asks.handled (h : Asks stack buf sq r) (fits : buf.length ≤ 4096) :
    handle_rmtfs sys cfg dbgprintf_enabled s stack (.packet buf fits sq) =
      if r = .close_req ∧ dbgprintf_enabled = true then none
      else (handler sys cfg r s stack (dataPkt stack buf sq)).map fun p => ⟨0, p.1, p.2⟩ := by
  have hpkt : qrtr_decode stack.pkt buf sq = .ok (dataPkt stack buf sq) := by
    rw [qrtr_decode, if_neg h.data]
    rfl
  have hdispatch : handle_rmtfs.dispatch sys cfg dbgprintf_enabled s stack (dataPkt stack buf sq) r.id =
      if r = .close_req ∧ dbgprintf_enabled = true then none
      else handler sys cfg r s stack (dataPkt stack buf sq) := by
    cases r with
    | close_req => cases dbgprintf_enabled <;> rfl
    | _ => rfl
  have hheader : qmi_decode_header (writeAt stack.buf 0 (dataPkt stack buf sq).data)
      (dataPkt stack buf sq).data.length = .ok r.id := h.header
  rw [handle_rmtfs, hpkt]
  simp only
  rw [show Ns.QrtrType.ofCode (dataPkt stack buf sq).type = some .data from
    Ns.QrtrType.ofCode_code .data]
  simp only
  rw [hheader]
  simp only
  rw [hdispatch]
  split <;> rfl

/-- A packet of another type: the response has whatever was in `txn`. -/
theorem handler_other_type (h : Asks stack buf sq r)
    (htype : leNat (bytesAt (writeAt stack.buf 0 buf) 0 1) ≠ QMI_REQUEST) :
    handler sys cfg r s stack (dataPkt stack buf sq) =
      some (respond stack (dataPkt stack buf sq) r.id stack.txn.toNat (malformed r), s) := by
  have hlen := h.length.1
  have hdec : qmi_decode_message (writeAt stack.buf 0 buf) buf.length QMI_REQUEST r.id 0 r.ei =
      (none, Traced.fail (.errno EINVAL)) := by
    unfold QMI_HEADER_SIZE at hlen
    rw [qmi_decode_message, if_neg (by omega), if_pos htype]
  unfold handler
  have hin : InStruct (sizeof r.message.cstruct) (Traced.fail (.errno EINVAL) : Traced ℕ).stores :=
    fun _ hs => absurd hs List.not_mem_nil
  simp only [dataPkt, hdec, Option.getD_none, if_pos hin, Traced.fail_result]

/-- A packet of the type of a request. -/
theorem Asks.decoded (h : Asks stack buf sq r) (fits : buf.length ≤ 4096)
    (htype : leNat (bytesAt (writeAt stack.buf 0 buf) 0 1) = QMI_REQUEST) :
    qmi_decode_message (writeAt stack.buf 0 buf) buf.length QMI_REQUEST r.id 0 r.ei =
      (some (leNat (bytesAt (writeAt stack.buf 0 buf) 1 2)),
        decodeRequest r (writeAt stack.buf 0 buf) buf.length 0) ∧
    (InStruct (sizeof r.message.cstruct)
        (decodeRequest r (writeAt stack.buf 0 buf) buf.length 0).stores ↔
      ¬ FullPath r (writeAt stack.buf 0 buf) buf.length) := by
  obtain ⟨hlen, hid⟩ := h.length
  have hdec : qmi_decode_message (writeAt stack.buf 0 buf) buf.length QMI_REQUEST r.id 0 r.ei =
      (some (leNat (bytesAt (writeAt stack.buf 0 buf) 1 2)),
        qmi_decode r.ei (writeAt stack.buf 0 buf) 0 QMI_HEADER_SIZE (buf.length - QMI_HEADER_SIZE) 1) := by
    have hne : ¬ buf.length = 0 := by
      unfold QMI_HEADER_SIZE at hlen
      omega
    rw [qmi_decode_message, if_neg hne, if_neg (not_not.mpr htype), if_neg (not_not.mpr hid),
      wsub_of_le hlen (by omega)]
  refine ⟨?_, ?_⟩
  · rw [decodeRequest, hdec]
  · rw [decodeRequest, hdec]
    exact inStruct_iff r _ hlen

/-- The response to a request has its ids. -/
theorem Asks.isAnswer (h : Asks stack buf sq r) (a : Answer)
    (hfail : ∀ f, (decodeRequest r (writeAt stack.buf 0 buf) buf.length 0).result = .error f →
      a.result.result = QMI_RMTFS_RESULT_FAILURE) :
    ∃ m, respond stack (dataPkt stack buf sq) r.id
        (leNat (bytesAt (writeAt stack.buf 0 buf) 1 2)) a = [m] ∧ IsAnswer stack buf sq r m := by
  obtain ⟨m, hsent, hnode, hport, htype, htxn, hid, hresult⟩ := respond_answers stack
    (dataPkt stack buf sq) r (leNat (bytesAt (writeAt stack.buf 0 buf) 1 2)) a
  have hlt : leNat (bytesAt (writeAt stack.buf 0 buf) 1 2) < 2 ^ 16 := by
    simpa using leNat_lt (bytesAt (writeAt stack.buf 0 buf) 1 2)
  refine ⟨m, hsent, hnode, hport, htype, ?_, hid.trans h.length.2.symm, fun f hf => ?_⟩
  · rw [htxn, Nat.mod_eq_of_lt hlt]
  · rw [hresult, hfail f hf]
    rfl

/-- What the handler does with a request that stays in its struct. -/
theorem Asks.handler_eq (h : Asks stack buf sq r) (fits : buf.length ≤ 4096)
    (htype : leNat (bytesAt (writeAt stack.buf 0 buf) 0 1) = QMI_REQUEST)
    (hpath : ¬ FullPath r (writeAt stack.buf 0 buf) buf.length) :
    handler sys cfg r s stack (dataPkt stack buf sq) =
      match (decodeRequest r (writeAt stack.buf 0 buf) buf.length 0).result with
      | .error _ => some (respond stack (dataPkt stack buf sq) r.id
          (leNat (bytesAt (writeAt stack.buf 0 buf) 1 2)) (malformed r), s)
      | .ok _ => (command sys cfg s sq.sq_node stack.sector (commandOf (applyStores (fun _ => 0)
            (decodeRequest r (writeAt stack.buf 0 buf) buf.length 0).stores) r)).map
          fun a => (respond stack (dataPkt stack buf sq) r.id
            (leNat (bytesAt (writeAt stack.buf 0 buf) 1 2)) a.1, a.2) := by
  obtain ⟨hdec, hin⟩ := h.decoded fits htype
  cases hres : (decodeRequest r (writeAt stack.buf 0 buf) buf.length 0).result with
  | error f => simp only [handler, dataPkt, hdec, Option.getD_some, if_pos (hin.mpr hpath), hres]
  | ok rc => simp only [handler, dataPkt, hdec, Option.getD_some, if_pos (hin.mpr hpath), hres]

/-- **A packet that can be answered is answered.** -/
theorem Answerable.answered (hs : Blocks s.rmtfds) (h : Asks stack buf sq r)
    (fits : buf.length ≤ 4096) (ha : Answerable sys cfg dbgprintf_enabled s stack buf sq r) :
    AnsweredOnce sys cfg dbgprintf_enabled s stack buf fits sq r := by
  have hloud : ¬ (r = .close_req ∧ dbgprintf_enabled = true) := by
    rintro ⟨hr, hd⟩
    rw [ha.quiet hr] at hd
    cases hd
  rw [AnsweredOnce, h.handled, if_neg hloud, h.handler_eq fits ha.type ha.path]
  cases hres : (decodeRequest r (writeAt stack.buf 0 buf) buf.length 0).result with
  | error f =>
    obtain ⟨m, hsent, hm⟩ := h.isAnswer (malformed r) fun _ _ => malformed_result r
    exact ⟨_, rfl, m, hsent, hm⟩
  | ok rc =>
    have hsome := (command_isSome_iff hs sq.sq_node stack.sector _).mpr (ha.safe rc hres)
    obtain ⟨a, hcommand⟩ := Option.isSome_iff_exists.mp hsome
    obtain ⟨m, hsent, hm⟩ := h.isAnswer a.1 fun f hf => by
      rw [hres] at hf
      cases hf
    refine ⟨⟨0, respond stack (dataPkt stack buf sq) r.id
      (leNat (bytesAt (writeAt stack.buf 0 buf) 1 2)) a.1, a.2⟩, ?_, m, hsent, hm⟩
    simp only
    rw [hcommand]
    rfl

/-- Some value of `txn` is not the id. -/
theorem exists_other_txn (txn : ℕ) : ∃ t : UInt32, t.toNat % 2 ^ 16 ≠ txn := by
  by_cases h : txn = 0
  · refine ⟨1, ?_⟩
    rw [h]
    decide
  · exact ⟨0, fun heq => h heq.symm⟩

/-- **A packet that is answered whatever the stack holds** can be answered. -/
theorem answerable_of_answered (hs : Blocks s.rmtfds) (h : Asks stack buf sq r)
    (fits : buf.length ≤ 4096)
    (ha : ∀ txn, AnsweredOnce sys cfg dbgprintf_enabled s { stack with txn := txn } buf fits sq r) :
    Answerable sys cfg dbgprintf_enabled s stack buf sq r := by
  -- the type: with another `txn` on the stack the response would have another id
  have htype : leNat (bytesAt (writeAt stack.buf 0 buf) 0 1) = QMI_REQUEST := by
    by_contra hne
    obtain ⟨t, ht⟩ := exists_other_txn (leNat (bytesAt (writeAt stack.buf 0 buf) 1 2))
    have hask : Asks { stack with txn := t } buf sq r := ⟨h.data, h.header⟩
    obtain ⟨res, hres, m, hm, hans⟩ := ha t
    rw [hask.handled] at hres
    split at hres
    · cases hres
    rw [handler_other_type hask hne] at hres
    cases hres
    obtain ⟨m', hsent, -, -, -, htxn, -⟩ := respond_answers { stack with txn := t }
      (dataPkt { stack with txn := t } buf sq) r t.toNat (malformed r)
    simp only at hm
    rw [hsent] at hm
    cases hm
    exact ht (htxn.symm.trans hans.txn_id)
  obtain ⟨res, hres, -⟩ := ha stack.txn
  rw [h.handled] at hres
  split at hres
  · cases hres
  rename_i hloud
  obtain ⟨p, hp, -⟩ := Option.map_eq_some_iff.mp hres
  obtain ⟨hdec, hin⟩ := h.decoded fits htype
  have hpath : ¬ FullPath r (writeAt stack.buf 0 buf) buf.length := by
    intro hfull
    unfold handler at hp
    simp only [dataPkt, hdec, if_neg (fun hi => hin.mp hi hfull)] at hp
    cases hp
  refine ⟨htype, hpath, fun hr => ?_, fun rc hok => ?_⟩
  · cases hd : dbgprintf_enabled with
    | false => rfl
    | true => exact absurd ⟨hr, hd⟩ hloud
  · rw [h.handler_eq fits htype hpath, hok] at hp
    obtain ⟨a, hcommand, -⟩ := Option.map_eq_some_iff.mp hp
    rw [← command_isSome_iff hs, hcommand]
    rfl

end Step

/-! ## Runs

The state that a packet meets is the work of the packets before it. The condition on a run is
therefore the condition of each packet, in the state in which it arrives. -/

/-- A round of the main loop: what the stack holds, and what `recvfrom` returns. -/
structure Round where
  stack : Stack
  received : Received

section Runs

variable {W : Type} (sys : Sys W) (cfg : Config) (dbgprintf_enabled : Bool)

/-- Every packet of the run that asks is answered, whatever is left in `txn`. -/
def AllAnswered : List Round → Server W → Prop
  | [], _ => True
  | a :: rounds, s =>
    (∀ buf fits sq r, a.received = .packet buf fits sq → Asks a.stack buf sq r → ∀ txn,
      AnsweredOnce sys cfg dbgprintf_enabled s { a.stack with txn := txn } buf fits sq r) ∧
    ∀ h, handle_rmtfs sys cfg dbgprintf_enabled s a.stack a.received = some h →
      AllAnswered rounds h.server

/-- Every packet of the run that asks can be answered in the state it meets. -/
def AllAnswerable : List Round → Server W → Prop
  | [], _ => True
  | a :: rounds, s =>
    (∀ buf fits sq r, a.received = .packet buf fits sq → Asks a.stack buf sq r →
      Answerable sys cfg dbgprintf_enabled s a.stack buf sq r) ∧
    ∀ h, handle_rmtfs sys cfg dbgprintf_enabled s a.stack a.received = some h →
      AllAnswerable rounds h.server

end Runs

section Runs

variable {W : Type} {sys : Sys W} {cfg : Config} {dbgprintf_enabled : Bool}

theorem handler_blocks {r : Qmi.Request} {s : Server W} (hs : Blocks s.rmtfds) {stack : Stack}
    {pkt : QrtrPacket} {p : List Send × Server W} (h : handler sys cfg r s stack pkt = some p) :
    Blocks p.2.rmtfds := by
  unfold handler at h
  simp only at h
  split at h
  · split at h
    · cases h
      exact hs
    · obtain ⟨a, hcommand, hp⟩ := Option.map_eq_some_iff.mp h
      cases hp
      exact command_blocks hs hcommand
  · cases h

theorem handle_rmtfs_blocks {s : Server W} (hs : Blocks s.rmtfds) {stack : Stack} {rcv : Received}
    {h : Handled W} (hh : handle_rmtfs sys cfg dbgprintf_enabled s stack rcv = some h) :
    Blocks h.server.rmtfds := by
  cases rcv with
  | error errno =>
    cases hh
    exact hs
  | packet buf fits sq =>
    rw [handle_rmtfs] at hh
    split at hh
    · cases hh
      exact hs
    split at hh
    · split at hh
      · cases hh
        exact hs
      · obtain ⟨p, hp, hh⟩ := Option.map_eq_some_iff.mp hh
        cases hh
        unfold handle_rmtfs.dispatch at hp
        split at hp
        · exact handler_blocks hs hp
        · rw [Packet.rmtfs_close] at hp
          split at hp
          · cases hp
          · exact handler_blocks hs hp
        · exact handler_blocks hs hp
        · exact handler_blocks hs hp
        · exact handler_blocks hs hp
        · cases hp
          exact hs
    · cases hh
      exact hs

/-- A run from a server whose blocks hold their files. -/
theorem allAnswered_iff (rounds : List Round) {s : Server W} (hs : Blocks s.rmtfds) :
    AllAnswered sys cfg dbgprintf_enabled rounds s ↔
      AllAnswerable sys cfg dbgprintf_enabled rounds s := by
  -- on the rounds, with the blocks as the invariant
  induction rounds generalizing s with
  | nil => exact Iff.rfl
  | cons a rounds ih =>
    rw [AllAnswered, AllAnswerable]
    refine and_congr ⟨fun h buf fits sq r hrcv hask => ?_, fun h buf fits sq r hrcv hask txn => ?_⟩
      (forall₂_congr fun h hh => ih (handle_rmtfs_blocks hs hh))
    · exact answerable_of_answered hs hask fits (h buf fits sq r hrcv hask)
    · have ha := h buf fits sq r hrcv hask
      have hask' : Asks { a.stack with txn := txn } buf sq r := ⟨hask.data, hask.header⟩
      have ha' : Answerable sys cfg dbgprintf_enabled s { a.stack with txn := txn } buf sq r :=
        ⟨ha.type, ha.path, ha.quiet, ha.safe⟩
      exact ha'.answered hs hask' fits

end Runs

/-- **Every answer matches its question** exactly in the runs in which every packet can be answered.
From the state that `storage_init` leaves behind, in either mode and for any system below: each packet
that asks is answered once, at its sender, with its ids, and with a failure if it could not be decoded,
if and only if it has the type of a request, no path in it fills its field, `-v` is not given or it is
no CLOSE, and what it asks for is safe in the state that it meets. -/
theorem answers_match_iff {W : Type} (sys : Sys W) (root : Option String)
    (read_only use_partitions dbgprintf_enabled : Bool) (rmem : RmtfsMem) (w : W)
    (rounds : List Round) :
    AllAnswered sys (storage_init root read_only use_partitions).1 dbgprintf_enabled rounds
        ⟨(storage_init root read_only use_partitions).2, rmem, w⟩ ↔
      AllAnswerable sys (storage_init root read_only use_partitions).1 dbgprintf_enabled rounds
        ⟨(storage_init root read_only use_partitions).2, rmem, w⟩ :=
  allAnswered_iff rounds (blocks_init root read_only use_partitions)

/-- A stack of zeros. -/
def zeroStack : Stack := ⟨⟨0, 0, 0, 0, 0, 0, []⟩, fun _ => 0, 0, [], fun _ => 0⟩

/-- The header of an OPEN with transaction id 5, sent as a response. -/
def strayResponse : Round := ⟨zeroStack, .packet [2, 5, 0, 1, 0, 0, 0] (by decide) ⟨1, 7⟩⟩

/-- It is answered with what was on the stack. -/
theorem not_answers_match :
    ¬ AllAnswered oneByteFiles (storage_init none false false).1 false [strayResponse]
      ⟨(storage_init none false false).2, ⟨0, 0, none, 4⟩, ()⟩ := by
  intro h
  have hask : Asks zeroStack [2, 5, 0, 1, 0, 0, 0] ⟨1, 7⟩ .open_req := ⟨by decide, by decide +kernel⟩
  have hanswerable := answerable_of_answered (blocks_init none false false) hask (by decide)
    (h.1 _ _ _ _ rfl hask)
  have htype := hanswerable.type
  revert htype
  decide +kernel

end Dragonboard.Rmtfs
