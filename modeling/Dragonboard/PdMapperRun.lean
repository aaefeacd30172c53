/-
The pd-mapper over a whole run.

A request never does any harm: whatever a packet holds, the decoder stays in the request struct, so that
every round of the loop has an outcome. A name of 256 characters has its terminator in `offset_valid`,
and is then cut to 255. So the server goes on until `qrtr_poll` or `recvfrom` fails or a short control packet
comes (`serves_until`).

Every packet with the header of a request is answered once, in order (`replies_in_order`). A client that asks
for a service gets the domains that the table has for it (`lookup_answered`).
-/
import Mathlib.Data.List.Induction
import Mathlib.Algebra.Order.Group.Nat
import Dragonboard.PdMapperResponse
import Dragonboard.QmiOrder

set_option autoImplicit false

namespace Dragonboard.PdMapper

open Dragonboard.Memory Dragonboard.Qmi Dragonboard.Qrtr Dragonboard.Runs
open Dragonboard.Rmtfs (InStruct Received Send QMI_RESPONSE)

/-! ## The decoder stays in the request

The request has a name and an offset. A name is limited to 256 characters by its table. If it has all
of them its terminator is stored behind the array, but that is still in the struct, since the offset
comes there. -/

/-- The table of the request with its decoders. -/
abbrev reqTable : List (ElemInfo × Dec) :=
  resolve qmi_decode.table servreg_loc_get_domain_list_req_ei

/-- The name in the table. -/
def nameElem : ElemInfo := ⟨.string, 256, 1, .varLenArray, 1, 4, []⟩

/-- The flag of the offset in the table. -/
def offsetFlag : ElemInfo := ⟨.optFlag, 1, 1, .noArray, 16, 260, []⟩

/-- The offset in the table. -/
def offsetElem : ElemInfo := ⟨.unsigned4Byte, 1, 4, .noArray, 16, 264, []⟩

theorem reqTable_eq : reqTable = [(nameElem, qmi_decode []), (offsetFlag, qmi_decode []),
    (offsetElem, qmi_decode [])] := rfl

theorem find_name : find_ei reqTable 1 = some ((nameElem, qmi_decode []) ::
    [(offsetFlag, qmi_decode []), (offsetElem, qmi_decode [])]) := rfl

theorem find_offset : find_ei reqTable 16 =
    some [(offsetFlag, qmi_decode []), (offsetElem, qmi_decode [])] := rfl

theorem find_other {type : UInt8} (h1 : type ≠ 1) (h16 : type ≠ 16) : find_ei reqTable type = none := by
  have hname : ¬ nameElem.tlv_type = type := Ne.symm h1
  have hflag : ¬ offsetFlag.tlv_type = type := Ne.symm h16
  have helem : ¬ offsetElem.tlv_type = type := Ne.symm h16
  rw [reqTable_eq, find_ei, if_neg hname, find_ei, if_neg hflag, find_ei, if_neg helem, find_ei]

section Stays

variable {buf : Mem}

/-- A name with its terminator, of at most 256 characters. -/
theorem name_stays (dst p tlv_len : ℕ) :
    Stays (fun a => a < dst + 257) (qmi_decode_string_elem nameElem buf dst p tlv_len 1) := by
  unfold qmi_decode_string_elem qmi_decode_string_elem.len
  simp only [if_true, pure_bind, nameElem]
  split
  · exact .fail _
  · split
    · exact .fail _
    · refine ((basic_stays dst _ tlv_len 1).mono fun a ha => by omega).bind fun rc _ => ?_
      refine (Stays.store fun a _ ha => ?_).bind fun _ _ => .pure _
      simp only [List.length_singleton] at ha
      omega

theorem body_stays_name (st : DecState) (rest : List (ElemInfo × Dec)) :
    Stays (fun a => a < 268) (qmi_decode.body buf 0 1 ((nameElem, qmi_decode []) :: rest) st) := by
  refine (Stays.bind (.pure _) fun l hl => ?_)
  obtain rfl := Except.ok.inj hl
  refine (Stays.bind (.pure _) fun q hq => ?_)
  obtain rfl := Except.ok.inj hq
  refine (count_stays nameElem st.data_len_value).bind fun n _ => ?_
  exact ((name_stays 4 _ _).mono fun a ha => by omega).bind fun rc _ => .pure _

theorem body_stays_offset (st : DecState) :
    Stays (fun a => a < 268) (qmi_decode.body buf 0 1
      [(offsetFlag, qmi_decode []), (offsetElem, qmi_decode [])] st) := by
  refine (Stays.bind ?_ fun l hl => ?_)
  · refine (Stays.store fun a _ ha => ?_).bind fun _ _ => .pure _
    have hlen : a < 0 + 260 + 1 := ha
    omega
  obtain rfl := Except.ok.inj hl
  refine (Stays.bind (.pure _) fun q hq => ?_)
  obtain rfl := Except.ok.inj hq
  refine (Stays.pure 1).bind fun n hn => ?_
  obtain rfl := Except.ok.inj hn
  refine ((basic_stays (0 + 264) st.buf_src 1 4).mono fun a ha => ?_).bind fun rc _ => .pure _
  omega

theorem tlv_stays_req (st : DecState) :
    Stays (fun a => a < 268) (qmi_decode.tlv buf 0 reqTable st) := by
  rw [qmi_decode.tlv, qmi_decode.header, bind_assoc]
  refine Stays.read_bind ?_
  simp only [pure_bind]
  generalize (bytesAt buf st.buf_src TLV_SIZE).getD 0 0 = type
  by_cases h1 : type = 1
  · rw [h1, find_name]
    exact (body_stays_name _ _).bind fun _ _ => .pure _
  · by_cases h16 : type = 16
    · rw [h16, find_offset]
      exact (body_stays_offset _).bind fun _ _ => .pure _
    · rw [find_other h1 h16]
      dsimp only
      split
      · exact .fail _
      · exact .pure _

theorem loop_stays_req (in_buf_len n : ℕ) (st : DecState) :
    Stays (fun a => a < 268) (qmi_decode.tlv_loop buf 0 in_buf_len reqTable n st) := by
  induction n generalizing st with
  | zero => exact .pure _
  | succ n ih =>
    rw [qmi_decode.tlv_loop]
    split
    · exact (tlv_stays_req st).bind fun st' _ => ih st'
    · exact .pure _

/-- **No packet is decoded beyond the request struct.** -/
theorem request_inStruct (buf : Mem) (len : ℕ) :
    InStruct (sizeof servreg_loc_get_domain_list_req)
      (qmi_decode_message buf len QMI_REQUEST SERVREG_LOC_GET_DOMAIN_LIST 0
        servreg_loc_get_domain_list_req_ei).2.stores := by
  have hnone : ∀ f : Fault, InStruct (sizeof servreg_loc_get_domain_list_req)
      (Traced.fail f : Traced ℕ).stores := fun f s hs => absurd hs List.not_mem_nil
  rw [qmi_decode_message]
  split_ifs
  · exact hnone _
  · exact hnone _
  · exact hnone _
  · have hstays : Stays (fun a => a < 268) (qmi_decode servreg_loc_get_domain_list_req_ei buf 0
        QMI_HEADER_SIZE (wsub len QMI_HEADER_SIZE) 1) := by
      rw [qmi_decode, qmi_decode.table, if_pos rfl]
      exact loop_stays_req _ _ _
    intro s hs hne
    have hpos := List.length_pos_iff.mpr hne
    have hlast := hstays (s.addr + (s.bytes.length - 1)) ⟨s, hs, by omega, by omega⟩
    have hsize : sizeof servreg_loc_get_domain_list_req = 268 := by decide +kernel
    omega

end Stays

/-! ## Answers

An answer fits the struct of the response and the packet that it is encoded into, whatever was
asked for. -/

theorem malformed_ok : malformed.Ok := fun _ h => absurd h (Option.not_mem_none _)

theorem entriesOf_cases (name : List UInt8) : entriesOf pd_maps name = [] ∨
    entriesOf pd_maps name = [⟨cstr "msm/modem/wlan_pd", 1, 0, 0⟩] := by
  by_cases h : cstr "kernel/elf_loader" = name
  · right
    rw [entriesOf, pd_maps, List.filter_cons, if_pos (decide_eq_true h)]
    rfl
  · left
    rw [entriesOf, pd_maps, List.filter_cons, if_neg (by simpa using h)]
    rfl

/-- Whatever is asked for, the answer fits its struct and its packet. -/
theorem found_ok (name : List UInt8) :
    (found pd_maps name).Ok ∧ (found pd_maps name).wire.length ≤ 249 := by
  rcases entriesOf_cases name with h | h
  · have hfound : found pd_maps name = ⟨0, 0, some 0, some 1, none⟩ := by
      rw [found, h]
      rfl
    rw [hfound]
    exact ⟨fun _ hes => absurd hes (Option.not_mem_none _), by decide⟩
  · have hfound : found pd_maps name =
        ⟨0, 0, some 1, some 1, some [⟨cstr "msm/modem/wlan_pd", 1, 0, 0⟩]⟩ := by
      rw [found, h]
      rfl
    rw [hfound]
    refine ⟨fun es hes => ?_, by decide⟩
    obtain rfl := Option.some.inj hes
    refine ⟨by decide, fun e he => ?_⟩
    rw [List.mem_singleton.mp he]
    exact ⟨by decide, by decide⟩

/-- The answer to a packet in a buffer. -/
def answerTo (buf : Mem) (len : ℕ) : GetDomainListResp :=
  let dec := qmi_decode_message buf len QMI_REQUEST SERVREG_LOC_GET_DOMAIN_LIST 0
    servreg_loc_get_domain_list_req_ei
  match dec.2.result with
  | .error _ => malformed
  | .ok _ => found pd_maps (requestName (applyStores (fun _ => 0) dec.2.stores))

theorem answerTo_ok (buf : Mem) (len : ℕ) :
    (answerTo buf len).Ok ∧ (answerTo buf len).wire.length ≤ 249 := by
  rw [answerTo]
  split
  · exact ⟨malformed_ok, by decide⟩
  · exact found_ok _

/-- **The handler always answers.** -/
theorem handle_eq (locals : Locals) (buf : Mem) (pkt : QrtrPacket) :
    handle_get_domain_list locals buf pkt = some [⟨pkt.node, pkt.port,
      qmi_header QMI_RESPONSE ((qmi_decode_message buf pkt.data.length QMI_REQUEST
          SERVREG_LOC_GET_DOMAIN_LIST 0 servreg_loc_get_domain_list_req_ei).1.getD locals.txn.toNat)
        SERVREG_LOC_GET_DOMAIN_LIST (answerTo buf pkt.data.length).wire.length ++
        (answerTo buf pkt.data.length).wire⟩] := by
  obtain ⟨hok, hfits⟩ := answerTo_ok buf pkt.data.length
  rw [← respond_eq hok hfits locals, handle_get_domain_list, if_pos (request_inStruct _ _), answerTo]
  cases (qmi_decode_message buf pkt.data.length QMI_REQUEST SERVREG_LOC_GET_DOMAIN_LIST 0
    servreg_loc_get_domain_list_req_ei).2.result with
  | error _ => rfl
  | ok _ => rfl

/-! ## Rounds

One round of the loop, for each kind of packet. A packet of data is answered if its message id is
that of the request, and its type is not looked at. -/

/-- `main` returns in this round. -/
def Event.ends : Event → Bool
  | .interrupted => false
  | .poll_failed => true
  | .received _ (.error _) => true
  | .received _ (.packet data _ sq) => sq.sq_port = Ns.QRTR_PORT_CTRL ∧ data.length < 20

/-- The message id of a packet that has the header of a message. -/
def msgId (data : List UInt8) : Option ℕ :=
  if 7 ≤ data.length ∧ leNat ((data.drop 5).take 2) + 7 = data.length then
    some (leNat ((data.drop 3).take 2))
  else none

/-- The first bytes of the answer: the type, the transaction id and the message id. -/
def answerIds (locals : Locals) (data : List UInt8) : List UInt8 :=
  leBytes 1 QMI_RESPONSE ++ (if leNat (data.take 1) = QMI_REQUEST then (data.drop 1).take 2
    else leBytes 2 locals.txn.toNat) ++ leBytes 2 SERVREG_LOC_GET_DOMAIN_LIST

/-- The answer that a client has for a round, if it asks there. -/
def expected (client : Ns.SockaddrQrtr) : Event → Option (List UInt8)
  | .received locals (.packet data _ sq) =>
    if sq = client ∧ sq.sq_port ≠ Ns.QRTR_PORT_CTRL ∧ msgId data = some SERVREG_LOC_GET_DOMAIN_LIST then
      some (answerIds locals data)
    else none
  | _ => none

/-- A message goes to a client. -/
def goesTo (client : Ns.SockaddrQrtr) (m : Send) : Bool :=
  m.node = client.sq_node ∧ m.port = client.sq_port

theorem bytesAt_packet (m : Mem) {data : List UInt8} {p n : ℕ} (h : p + n ≤ data.length) :
    bytesAt (writeAt m 0 data) p n = (data.drop p).take n := by
  have hlen : n = ((data.drop p).take n).length := by
    rw [List.length_take, List.length_drop]
    omega
  refine List.ext_getElem (by rwa [bytesAt_length]) fun i hi hi' => ?_
  rw [bytesAt_length] at hi
  have hin : p + i < data.length := by omega
  have hbyte : writeAt m 0 data (0 + (p + i)) = data[p + i] := writeAt_inside hin
  rw [bytesAt_getElem, List.getElem_take, List.getElem_drop, ← hbyte, Nat.zero_add]

/-- The header does not depend on what lies behind the packet. -/
theorem decode_header_eq (m : Mem) (data : List UInt8) :
    qmi_decode_header (writeAt m 0 data) data.length =
      match msgId data with
      | some msg_id => .ok msg_id
      | none => .error (.errno EINVAL) := by
  rw [qmi_decode_header, msgId, QMI_HEADER_SIZE]
  by_cases hlen : 7 ≤ data.length
  · rw [bytesAt_packet m (show 5 + 2 ≤ data.length by omega),
      bytesAt_packet m (show 3 + 2 ≤ data.length by omega)]
    by_cases h : leNat ((data.drop 5).take 2) + 7 = data.length
    · rw [if_neg (not_not.mpr h), if_pos ⟨hlen, h⟩]
    · rw [if_pos h, if_neg fun hc => h hc.2]
  · rw [if_pos (by omega), if_neg fun hc => hlen hc.1]

/-- The transaction id that the decoder stores, for a packet with the message id of a request. -/
theorem decode_txn (m : Mem) {data : List UInt8}
    (h : msgId data = some SERVREG_LOC_GET_DOMAIN_LIST) :
    (qmi_decode_message (writeAt m 0 data) data.length QMI_REQUEST SERVREG_LOC_GET_DOMAIN_LIST 0
      servreg_loc_get_domain_list_req_ei).1 =
      if leNat (data.take 1) = QMI_REQUEST then some (leNat ((data.drop 1).take 2)) else none := by
  rw [msgId] at h
  obtain ⟨⟨hlen, -⟩, hid⟩ := Option.ite_none_right_eq_some.mp h
  have hid := Option.some.inj hid
  rw [qmi_decode_message, if_neg (by omega), bytesAt_packet m (show 0 + 1 ≤ data.length by omega),
    bytesAt_packet m (show 3 + 2 ≤ data.length by omega),
    bytesAt_packet m (show 1 + 2 ≤ data.length by omega), List.drop_zero]
  by_cases htype : leNat (data.take 1) = QMI_REQUEST
  · rw [if_neg (not_not.mpr htype), if_neg (not_not.mpr hid), if_pos htype]
  · rw [if_pos htype, if_neg htype]

section Steps

variable {s : Process} {locals : Locals} {data : List UInt8} {sq : Ns.SockaddrQrtr}

/-- The packet as `qrtr_decode` leaves it. -/
def dataPkt (s : Process) (data : List UInt8) (sq : Ns.SockaddrQrtr) : QrtrPacket :=
  { s.pkt with type := Ns.QrtrType.data.code, node := sq.sq_node, port := sq.sq_port, data := data }

/-- The transaction id of an answer. -/
def answerTxn (locals : Locals) (data : List UInt8) : ℕ :=
  if leNat (data.take 1) = QMI_REQUEST then leNat ((data.drop 1).take 2) else locals.txn.toNat

/-- A packet of another process goes to the switch. -/
theorem step_data (h : s.ret = none) (fits : data.length ≤ 4096)
    (hport : sq.sq_port ≠ Ns.QRTR_PORT_CTRL) :
    main.step s (.received locals (.packet data fits sq)) =
      if msgId data = some SERVREG_LOC_GET_DOMAIN_LIST then
        (handle_get_domain_list locals (writeAt s.buf 0 data) (dataPkt s data sq)).map fun sent =>
          ⟨dataPkt s data sq, writeAt s.buf 0 data, s.sent ++ sent, s.ret⟩
      else some ⟨dataPkt s data sq, writeAt s.buf 0 data, s.sent, s.ret⟩ := by
  have hdecode : qrtr_decode s.pkt data sq = .ok (dataPkt s data sq) := by
    rw [qrtr_decode, if_neg hport]
    rfl
  rw [main.step, if_pos h]
  dsimp only
  rw [hdecode]
  dsimp only
  rw [main.packet, show Ns.QrtrType.ofCode (dataPkt s data sq).type = some .data from
    Ns.QrtrType.ofCode_code .data]
  dsimp only
  rw [show (dataPkt s data sq).data = data from rfl, decode_header_eq]
  cases hid : msgId data with
  | none => rw [if_neg (by simp)]
  | some msg_id =>
    dsimp only
    by_cases hmsg : msg_id = SERVREG_LOC_GET_DOMAIN_LIST
    · rw [if_pos hmsg, if_pos (by rw [hmsg])]
    · rw [if_neg hmsg, if_neg fun hc => hmsg (Option.some.inj hc)]

/-- **A request is answered in its round.** -/
theorem step_asks (h : s.ret = none) (fits : data.length ≤ 4096)
    (hport : sq.sq_port ≠ Ns.QRTR_PORT_CTRL) (hid : msgId data = some SERVREG_LOC_GET_DOMAIN_LIST) :
    let a := answerTo (writeAt s.buf 0 data) data.length
    main.step s (.received locals (.packet data fits sq)) =
      some ⟨dataPkt s data sq, writeAt s.buf 0 data, s.sent ++ [⟨sq.sq_node, sq.sq_port,
        qmi_header QMI_RESPONSE (answerTxn locals data) SERVREG_LOC_GET_DOMAIN_LIST a.wire.length ++
          a.wire⟩], none⟩ := by
  have htxn : (qmi_decode_message (writeAt s.buf 0 data) (dataPkt s data sq).data.length QMI_REQUEST
      SERVREG_LOC_GET_DOMAIN_LIST 0 servreg_loc_get_domain_list_req_ei).1.getD locals.txn.toNat =
      answerTxn locals data := by
    rw [show (dataPkt s data sq).data = data from rfl, decode_txn s.buf hid, answerTxn]
    split <;> rfl
  rw [step_data h fits hport, if_pos hid, handle_eq, htxn, h]
  rfl

/-- The ids in front of an answer. -/
theorem answer_take (hid : msgId data = some SERVREG_LOC_GET_DOMAIN_LIST) (len : ℕ)
    (rest : List UInt8) :
    (qmi_header QMI_RESPONSE (answerTxn locals data) SERVREG_LOC_GET_DOMAIN_LIST len ++ rest).take 5 =
      answerIds locals data := by
  have hlen : 7 ≤ data.length := by
    rw [msgId] at hid
    exact (Option.ite_none_right_eq_some.mp hid).1.1
  have htxn : leBytes 2 (leNat ((data.drop 1).take 2)) = (data.drop 1).take 2 := by
    have hbytes := leBytes_leNat ((data.drop 1).take 2)
    rwa [List.length_take, List.length_drop, Nat.min_eq_left (by omega)] at hbytes
  have hids : leBytes 1 QMI_RESPONSE ++ leBytes 2 (answerTxn locals data) ++
      leBytes 2 SERVREG_LOC_GET_DOMAIN_LIST = answerIds locals data := by
    rw [answerTxn, answerIds]
    split
    · rw [htxn]
    · rfl
  rw [qmi_header, hids, List.append_assoc, List.take_left']
  rw [← hids]
  simp only [List.length_append, leBytes_length]

/-- What `qrtr_decode` makes of a control packet is no packet of data. -/
theorem qrtr_decode_ctrl (dest : QrtrPacket) (hport : sq.sq_port = Ns.QRTR_PORT_CTRL)
    (hlen : ¬ data.length < 20) :
    ∃ pkt, qrtr_decode dest data sq = .ok pkt ∧ Ns.QrtrType.ofCode pkt.type ≠ some .data := by
  rw [qrtr_decode, if_pos hport, if_neg hlen]
  dsimp only
  have hzero : Ns.QrtrType.ofCode 0 ≠ some .data := by decide
  cases htype : Ns.QrtrType.ofCode (ctrl data).cmd with
  | none => exact ⟨_, rfl, hzero⟩
  | some type =>
    have hne : ∀ t, some type = some t → t ≠ .data → Ns.QrtrType.ofCode (ctrl data).cmd ≠ some .data := by
      intro t ht hdata hc
      rw [htype, ht] at hc
      exact hdata (Option.some.inj hc)
    cases type with
    | bye => exact ⟨_, rfl, hne _ rfl (by decide)⟩
    | del_client => exact ⟨_, rfl, hne _ rfl (by decide)⟩
    | new_server => exact ⟨_, rfl, hne _ rfl (by decide)⟩
    | del_server => exact ⟨_, rfl, hne _ rfl (by decide)⟩
    | _ => exact ⟨_, rfl, hzero⟩

/-- A short control packet ends the loop, and every other control packet is passed over. -/
theorem step_ctrl (h : s.ret = none) (locals : Locals) (fits : data.length ≤ 4096)
    (hport : sq.sq_port = Ns.QRTR_PORT_CTRL) :
    ∃ s', main.step s (.received locals (.packet data fits sq)) = some s' ∧ s'.sent = s.sent ∧
      (s'.ret = none ↔ ¬ data.length < 20) := by
  rw [main.step, if_pos h]
  dsimp only
  by_cases hlen : data.length < 20
  · rw [qrtr_decode, if_pos hport, if_pos hlen]
    exact ⟨_, rfl, rfl, fun hc => absurd hc (by simp), fun hc => absurd hlen hc⟩
  · obtain ⟨pkt, hdecode, htype⟩ := qrtr_decode_ctrl s.pkt hport hlen
    rw [hdecode]
    refine ⟨{ s with buf := writeAt s.buf 0 data, pkt := pkt }, ?_, rfl, fun _ => hlen, fun _ => h⟩
    dsimp only
    rw [main.packet]
    split
    · next hdata => exact absurd hdata htype
    · rfl

/-- **A round**: it has an outcome, it ends the loop or not, and each client gets what it expects. -/
theorem step_spec (h : s.ret = none) (e : Event) :
    ∃ s' new, main.step s e = some s' ∧ s'.sent = s.sent ++ new ∧ (s'.ret = none ↔ e.ends = false) ∧
      ∀ client, (new.filter (goesTo client)).map (fun m => m.data.take 5) =
        (expected client e).toList := by
  cases e with
  | interrupted =>
    exact ⟨s, [], if_pos h, (List.append_nil _).symm, iff_of_true h rfl, fun _ => rfl⟩
  | poll_failed =>
    exact ⟨_, [], if_pos h, (List.append_nil _).symm, iff_of_false nofun nofun, fun _ => rfl⟩
  | received locals rcv =>
    cases rcv with
    | error errno =>
      exact ⟨_, [], if_pos h, (List.append_nil _).symm, iff_of_false nofun nofun, fun _ => rfl⟩
    | packet data fits sq =>
      by_cases hport : sq.sq_port = Ns.QRTR_PORT_CTRL
      · obtain ⟨s', hstep, hsent, hret⟩ := step_ctrl h locals fits hport
        refine ⟨s', [], hstep, by rw [hsent, List.append_nil], hret.trans ?_, fun client => ?_⟩
        · simp [Event.ends, hport]
        · simp [expected, hport]
      -- a packet of data is answered by its message id alone
      · by_cases hid : msgId data = some SERVREG_LOC_GET_DOMAIN_LIST
        · refine ⟨_, _, step_asks h fits hport hid, rfl, ?_, fun client => ?_⟩
          · simp [Event.ends, hport]
          · have hgoes : goesTo client ⟨sq.sq_node, sq.sq_port, qmi_header QMI_RESPONSE
                (answerTxn locals data) SERVREG_LOC_GET_DOMAIN_LIST
                (answerTo (writeAt s.buf 0 data) data.length).wire.length ++
                  (answerTo (writeAt s.buf 0 data) data.length).wire⟩ = decide (sq = client) := by
              rw [goesTo]
              exact decide_eq_decide.mpr ⟨fun hc => Ns.SockaddrQrtr.ext hc.1 hc.2, fun hc => hc ▸ ⟨rfl, rfl⟩⟩
            rw [List.filter_cons, hgoes, expected]
            -- one message goes out, and only to the client that asked
            by_cases hclient : sq = client
            · rw [if_pos (decide_eq_true hclient), if_pos ⟨hclient, hport, hid⟩, List.filter_nil,
                List.map_singleton, answer_take hid]
              rfl
            · rw [if_neg (by simpa using hclient), if_neg fun hc => hclient hc.1]
              rfl
        · refine ⟨⟨dataPkt s data sq, writeAt s.buf 0 data, s.sent, s.ret⟩, [],
            (step_data h fits hport).trans (if_neg hid), (List.append_nil _).symm, ?_, fun client => ?_⟩
          · simp [Event.ends, hport, h]
          · simp [expected, hid]

end Steps

/-! ## Requests on the wire

A request as a client writes it: TLVs in any order, with unknown optional ones among them. -/

/-- A TLV that a client may send: a name that fits its field, an offset, or an optional TLV that the table
does not have. -/
def Plain (t : Tlv) : Prop :=
  (t.type = 1 ∧ t.value.length ≤ 256) ∨ (t.type = 16 ∧ t.value.length = 4) ∨ 16 < t.type

instance (t : Tlv) : Decidable (Plain t) :=
  inferInstanceAs (Decidable ((t.type = 1 ∧ t.value.length ≤ 256) ∨
    (t.type = 16 ∧ t.value.length = 4) ∨ 16 < t.type))

/-- The service that a list of TLVs asks for: the last name, of which at most 255 characters are kept,
up to the first NUL. -/
def askedName (ts : List Tlv) : List UInt8 :=
  ts.foldl (fun name t => if t.type = 1 then (t.value.take 255).takeWhile fun b => b ≠ 0 else name) []

/-- A packet with a request. -/
def requestPacket (txn : ℕ) (ts : List Tlv) : List UInt8 :=
  qmi_header QMI_REQUEST txn SERVREG_LOC_GET_DOMAIN_LIST (wireOf ts).length ++ wireOf ts

section Requests

variable {buf : Mem} {st : DecState} {t : Tlv}

/-- What a TLV stores in the request. -/
def plainStores (t : Tlv) : List Store :=
  if t.type = 1 then [⟨4, t.value⟩, ⟨4 + t.value.length, [0]⟩]
  else if t.type = 16 then [⟨260, [1]⟩, ⟨264, t.value⟩]
  else []

/-- The header of a TLV in front of the cursor. -/
theorem tlv_head (h : Holds buf st.buf_src t.bytes) :
    (bytesAt buf st.buf_src TLV_SIZE).getD 0 0 = t.type ∧
      leNat ((bytesAt buf st.buf_src TLV_SIZE).drop 1) = t.value.length ∧
      bytesAt buf (st.buf_src + TLV_SIZE) t.value.length = t.value := by
  obtain ⟨htype, hlen⟩ := Tlv.holds_header h
  refine ⟨htype, hlen, ?_⟩
  have hvalue := h.right.bytesAt_eq rfl
  simpa [TLV_SIZE] using hvalue

/-- **A TLV that a client may send** is taken whole. -/
theorem tlv_plain (ht : Plain t) (h : Holds buf st.buf_src t.bytes) (hv : st.data_len_value ≤ 255) :
    (qmi_decode.tlv buf 0 reqTable st).stores = plainStores t ∧
      ∃ n, (qmi_decode.tlv buf 0 reqTable st).result = .ok ⟨n, t.value.length,
        st.buf_src + t.bytes.length, st.decoded_bytes + t.bytes.length⟩ ∧ n ≤ 255 := by
  obtain ⟨hhead, hdecl, hvalue⟩ := tlv_head h
  rw [qmi_decode.tlv, qmi_decode.header, bind_assoc, Traced.bind_of_ok (Traced.read_result _ _ _)]
  simp only [pure_bind, hhead, hdecl, Tlv.bytes_length]
  rcases ht with ⟨h1, hlen⟩ | ⟨h16, hlen⟩ | hopt
  · have hcount : ¬ st.data_len_value > 256 := by omega
    have hlong : ¬ t.value.length > 256 := not_lt.mpr hlen
    rw [plainStores, if_pos h1, h1, find_name]
    simp only [qmi_decode.body, qmi_decode.opt_flag, qmi_decode.data_len, nameElem, reduceCtorEq,
      if_false, pure_bind, qmi_decode.count, DecState.update, hcount, qmi_decode.elem,
      qmi_decode_string_elem, qmi_decode_string_elem.len, if_true, hlong, gt_iff_lt, lt_irrefl,
      qmi_decode_basic_elem, bind_assoc, Nat.mul_one, Nat.add_zero, Nat.zero_add]
    rw [Traced.bind_of_ok (Traced.read_result _ _ _), hvalue]
    exact ⟨rfl, st.data_len_value, by simp [Traced.bind_of_ok, Nat.add_assoc], hv⟩
  · have h1 : ¬ (16 : UInt8) = 1 := by decide
    rw [hlen] at hvalue
    rw [plainStores, h16, if_neg h1, if_pos rfl, find_offset, hlen]
    simp only [qmi_decode.body, qmi_decode.opt_flag, qmi_decode.data_len, offsetFlag, offsetElem,
      reduceCtorEq, if_true, if_false, pure_bind, qmi_decode.count, DecState.update, qmi_decode.elem,
      qmi_decode_basic_elem, bind_assoc, Nat.one_mul, Nat.zero_add]
    rw [Traced.bind_of_ok (Traced.store_result _ _), Traced.bind_of_ok (Traced.read_result _ _ _),
      hvalue]
    exact ⟨rfl, 1, by simp [Traced.bind_of_ok, Nat.add_assoc], by decide⟩
  · have h1 : t.type ≠ 1 := fun hc => absurd (hc ▸ hopt) (by decide)
    have h16 : t.type ≠ 16 := fun hc => absurd (hc ▸ hopt) (by decide)
    have hle : ¬ t.type < OPTIONAL_TLV_TYPE_START := UInt8.not_lt.mpr (UInt8.le_of_lt hopt)
    rw [plainStores, if_neg h1, if_neg h16, find_other h1 h16]
    simp only [if_neg hle]
    refine ⟨rfl, st.data_len_value, ?_, hv⟩
    simp [DecState.update, Nat.add_assoc]

theorem plain_steady (ht : Plain t) :
    Steady reqTable 0 t ∧ t.stores reqTable 0 = plainStores t := by
  have hmem : (qmi_decode.tlv t.mem 0 reqTable (.init 0)).stores = plainStores t :=
    (tlv_plain ht (holds_writeAt _ _ _) (Nat.zero_le _)).1
  refine ⟨fun buf st h hv => ?_, hmem⟩
  obtain ⟨hstores, n, hok, hn⟩ := tlv_plain ht h hv
  exact ⟨hstores.trans hmem.symm, _, hok, rfl, rfl, hn⟩

/-- The TLVs of a request are decoded one after the other. -/
theorem decode_plain {ts : List Tlv} (hts : ∀ t ∈ ts, Plain t) {p : ℕ} (h : Holds buf p (wireOf ts)) :
    (qmi_decode servreg_loc_get_domain_list_req_ei buf 0 p (wireOf ts).length 1).result =
        .ok (wireOf ts).length ∧
      (qmi_decode servreg_loc_get_domain_list_req_ei buf 0 p (wireOf ts).length 1).stores =
        ts.flatMap plainStores := by
  rw [qmi_decode, qmi_decode.table, if_pos rfl]
  obtain ⟨hres, hstores⟩ := loop_steady (fun t ht => (plain_steady (hts t ht)).1) (.init h)
  exact ⟨hres, hstores.trans (List.flatMap_congr fun t ht => (plain_steady (hts t ht)).2)⟩

/-! ### The name that is asked for -/

section Name

variable {m m' : Mem}

/-- The name does not depend on what lies outside its array. -/
theorem requestName_congr (h : ∀ a, 4 ≤ a → a < 260 → m' a = m a) : requestName m' = requestName m := by
  have hbytes : bytesAt (writeAt m' 259 [0]) 4 256 = bytesAt (writeAt m 259 [0]) 4 256 := by
    refine List.ext_getElem (by simp) fun i hi _ => ?_
    rw [bytesAt_length] at hi
    rw [bytesAt_getElem, bytesAt_getElem, writeAt, writeAt, h _ (by omega) (by omega)]
  show cstrAt (writeAt m' 259 [0]) 4 256 = cstrAt (writeAt m 259 [0]) 4 256
  rw [cstrAt, cstrAt, hbytes]

/-- A name that has been stored with its terminator is cut to 255 characters. -/
theorem requestName_stored (m : Mem) {name : List UInt8} (hlen : name.length ≤ 256) :
    requestName (writeAt (writeAt m 4 name) (4 + name.length) [0]) =
      (name.take 255).takeWhile fun b => b ≠ 0 := by
  show cstrAt (writeAt (writeAt (writeAt m 4 name) (4 + name.length) [0]) 259 [0]) 4 256 = _
  have hshort : (name.take 255).length < 256 := by
    rw [List.length_take]
    omega
  refine cstrAt_takeWhile ?_ hshort
  rw [writeAt_append]
  refine List.ext_getElem (bytesAt_length _ _ _) fun i _ hi => ?_
  rw [List.length_append, List.length_take, List.length_singleton] at hi
  rw [bytesAt_getElem]
  by_cases hlast : 4 + i = 259
  · -- the last character of the array
    have hi255 : i = 255 := by omega
    have hzero : writeAt (writeAt m 4 (name ++ [0])) 259 [0] (4 + i) = 0 := by
      rw [hlast]
      exact writeAt_inside (show 0 < ([0] : List UInt8).length by simp)
    have hk : (name.take 255).length ≤ i := by
      rw [List.length_take]
      omega
    rw [hzero, List.getElem_append_right hk, List.getElem_singleton]
  · have hbyte : writeAt (writeAt m 4 (name ++ [0])) 259 [0] (4 + i) =
        writeAt m 4 (name ++ [0]) (4 + i) := writeAt_of_lt (by omega)
    have hin : i < (name ++ [0]).length := by
      rw [List.length_append, List.length_singleton]
      omega
    rw [hbyte, writeAt_inside hin]
    by_cases hi' : i < name.length
    · have htake : i < (name.take 255).length := by
        rw [List.length_take]
        omega
      rw [List.getElem_append_left hi', List.getElem_append_left htake, List.getElem_take]
    · have htake : (name.take 255).length ≤ i := by
        rw [List.length_take]
        omega
      rw [List.getElem_append_right (by omega), List.getElem_append_right htake,
        List.getElem_singleton, List.getElem_singleton]

/-- **The name of a request** is the last one that was sent. -/
theorem requestName_plain {ts : List Tlv} (hts : ∀ t ∈ ts, Plain t) :
    requestName (applyStores (fun _ => 0) (ts.flatMap plainStores)) = askedName ts := by
  -- on the TLVs from the last one on, which decides if it is a name
  induction ts using List.reverseRecOn with
  | nil => decide +kernel
  | append_singleton ts t ih =>
    have ih := ih fun x hx => hts x (List.mem_append_left _ hx)
    rw [List.flatMap_append, applyStores_append, List.flatMap_singleton, askedName, List.foldl_append,
      List.foldl_cons, List.foldl_nil, ← askedName, ← ih]
    generalize applyStores (fun _ => 0) (ts.flatMap plainStores) = m
    rcases hts t (List.mem_append_right _ (List.mem_singleton.mpr rfl)) with ⟨h1, hlen⟩ | ⟨h16, hlen⟩ | hopt
    · rw [plainStores, if_pos h1, if_pos h1]
      exact requestName_stored m hlen
    · have h1 : ¬ t.type = 1 := by
        rw [h16]
        decide
      rw [plainStores, if_neg h1, if_pos h16, if_neg h1]
      refine requestName_congr fun a hlo hhi => ?_
      exact (writeAt_of_lt (show a < 264 by omega)).trans (writeAt_of_lt (show a < 260 by omega))
    · have h1 : ¬ t.type = 1 := fun hc => absurd (hc ▸ hopt) (by decide)
      have h16 : ¬ t.type = 16 := fun hc => absurd (hc ▸ hopt) (by decide)
      rw [plainStores, if_neg h1, if_neg h16, if_neg h1]
      rfl

end Name

end Requests

/-! ## Runs

The invariant of the loop: each client has got the answers to its requests so far, in order. -/

/-- After `main` has returned there are no rounds. -/
theorem step_alive {s t : Process} {e : Event} (h : main.step s e = some t) : s.ret = none := by
  cases e with
  | interrupted => exact (Option.ite_none_right_eq_some.mp h).1
  | poll_failed => exact (Option.ite_none_right_eq_some.mp h).1
  | received locals rcv =>
    cases rcv with
    | error errno => exact (Option.ite_none_right_eq_some.mp h).1
    | packet data fits sq => exact (Option.ite_none_right_eq_some.mp h).1

/-- What holds after some rounds: whether `main` has returned, and what each client has got. -/
structure Served (past : List Event) (s : Process) : Prop where
  alive : s.ret = none ↔ ∀ e ∈ past, e.ends = false
  replies : ∀ client, (s.sent.filter (goesTo client)).map (fun m => m.data.take 5) =
    past.filterMap (expected client)

theorem Served.step {past : List Event} {s t : Process} {e : Event} (h : Served past s)
    (hstep : main.step s e = some t) : Served (past ++ [e]) t := by
  have halive := step_alive hstep
  obtain ⟨t', new, hstep', hsent, hret, hnew⟩ := step_spec halive e
  obtain rfl := Option.some.inj (hstep'.symm.trans hstep)
  refine ⟨?_, fun client => ?_⟩
  · rw [hret, List.forall_mem_append, List.forall_mem_singleton]
    exact ⟨fun he => ⟨h.alive.mp halive, he⟩, fun hall => hall.2⟩
  · rw [hsent, List.filter_append, List.map_append, h.replies client, hnew client,
      List.filterMap_append]
    rfl

theorem served_run {pkt : QrtrPacket} {buf : Mem} {events : List Event} {s : Process}
    (hrun : run main.step (main.start pkt buf) events = some s) : Served events s := by
  refine run_history (fun _ _ _ _ h hstep => h.step hstep) ⟨?_, fun _ => rfl⟩ hrun
  exact iff_of_true rfl fun _ he => absurd he List.not_mem_nil

/-- **The server serves until its sockets fail.** On every run, whatever packets come and whatever the stack
holds, `main` has returned exactly if `qrtr_poll` or `recvfrom` failed or a control packet of less
than 20 bytes came. As long as it has not, every round has a defined outcome. -/
theorem serves_until (pkt : QrtrPacket) (buf : Mem) (events : List Event) (s : Process)
    (hrun : run main.step (main.start pkt buf) events = some s) :
    (s.ret = none ↔ ∀ e ∈ events, e.ends = false) ∧
      (s.ret = none → ∀ e, ∃ s', main.step s e = some s') := by
  refine ⟨(served_run hrun).alive, fun halive e => ?_⟩
  obtain ⟨s', -, hstep, -⟩ := step_spec halive e
  exact ⟨s', hstep⟩

/-- A poll that is interrupted, and a control packet without a byte. -/
theorem serves_until_short_control :
    ∃ s : Process,
      (s.ret = none ↔ ∀ e ∈ [Event.interrupted, .received ⟨0, fun _ => 0⟩
          (.packet [] (by decide) ⟨1, Ns.QRTR_PORT_CTRL⟩)], e.ends = false) ∧
      (s.ret = none → ∀ e, ∃ s', main.step s e = some s') := by
  have hrun : run main.step (main.start ⟨0, 0, 0, 0, 0, 0, []⟩ fun _ => 0)
      [.interrupted, .received ⟨0, fun _ => 0⟩ (.packet [] (by decide) ⟨1, Ns.QRTR_PORT_CTRL⟩)] =
      some ⟨⟨0, 0, 0, 0, 0, 0, []⟩, writeAt (fun _ => 0) 0 [], [], some (-90)⟩ := rfl
  exact ⟨_, serves_until _ _ _ _ hrun⟩

/-- **Every request is answered once, in order.** On every run the answers that a client gets are those
for its own packets with the header of a request, one for each, in the order in which they came, whatever the
other clients send. Each has the type of a response, the transaction id of its request, and its
message id. (A packet of another type is answered too, with the transaction id that the stack held.) -/
theorem replies_in_order (pkt : QrtrPacket) (buf : Mem) (events : List Event) (s : Process)
    (hrun : run main.step (main.start pkt buf) events = some s) (client : Ns.SockaddrQrtr) :
    (s.sent.filter (goesTo client)).map (fun m => m.data.take 5) =
      events.filterMap (expected client) :=
  (served_run hrun).replies client

/-- A packet with the header of a request, and nothing else. -/
def emptyRequest (txn : UInt8) : Event :=
  .received ⟨0, fun _ => 0⟩ (.packet [0, txn, 0, 33, 0, 0, 0] (Nat.le_of_ble_eq_true rfl) ⟨1, 7⟩)

/-- Two requests of a client, with a poll between them that is interrupted. -/
theorem replies_in_order_two : ∃ s : Process,
    (s.sent.filter (goesTo ⟨1, 7⟩)).map (fun m => m.data.take 5) = [[2, 5, 0, 33, 0], [2, 6, 0, 33, 0]] := by
  obtain ⟨s₁, -, hstep₁, -, hret₁, -⟩ :=
    step_spec (s := main.start ⟨0, 0, 0, 0, 0, 0, []⟩ fun _ => 0) rfl (emptyRequest 5)
  obtain ⟨s₂, -, hstep₂, -, hret₂, -⟩ := step_spec (hret₁.mpr rfl) .interrupted
  obtain ⟨s₃, -, hstep₃, -⟩ := step_spec (hret₂.mpr rfl) (emptyRequest 6)
  have hrun : run main.step (main.start ⟨0, 0, 0, 0, 0, 0, []⟩ fun _ => 0)
      [emptyRequest 5, .interrupted, emptyRequest 6] = some s₃ :=
    run_cons_iff.mpr ⟨s₁, hstep₁, run_cons_iff.mpr ⟨s₂, hstep₂, run_singleton hstep₃⟩⟩
  exact ⟨s₃, (replies_in_order _ _ _ s₃ hrun ⟨1, 7⟩).trans (by decide)⟩

/-! ## Lookups

From the packet of a client to what it reads from the answer, in any state of the server. -/

/-- A packet with the header of a request is answered, and the client reads the answer from the message. -/
theorem answer_read {s : Process} (h : s.ret = none) (locals : Locals) {data : List UInt8}
    (fits : data.length ≤ 4096) {sq : Ns.SockaddrQrtr} (hport : sq.sq_port ≠ Ns.QRTR_PORT_CTRL)
    (hid : msgId data = some SERVREG_LOC_GET_DOMAIN_LIST) (htype : leNat (data.take 1) = QMI_REQUEST) :
    ∃ s' m, main.step s (.received locals (.packet data fits sq)) = some s' ∧ s'.ret = none ∧
      s'.sent = s.sent ++ [m] ∧ m.node = sq.sq_node ∧ m.port = sq.sq_port ∧
      ∀ buf, ∃ dec, qmi_decode_message (writeAt buf 0 m.data) m.data.length QMI_RESPONSE
          SERVREG_LOC_GET_DOMAIN_LIST 0 servreg_loc_get_domain_list_resp_ei =
            (some (leNat ((data.drop 1).take 2)), dec) ∧
        dec.result = .ok (m.data.length - QMI_HEADER_SIZE) ∧
        respAt (applyStores (fun _ => 0) dec.stores) = answerTo (writeAt s.buf 0 data) data.length := by
  obtain ⟨hok, hfits⟩ := answerTo_ok (writeAt s.buf 0 data) data.length
  have htxn : answerTxn locals data = leNat ((data.drop 1).take 2) := if_pos htype
  have hlt : leNat ((data.drop 1).take 2) < 2 ^ 16 := by
    have htwo : ((data.drop 1).take 2).length ≤ 2 := List.length_take_le 2 _
    exact lt_of_lt_of_le (leNat_lt _) (Nat.pow_le_pow_right (show 0 < 256 by decide) htwo)
  refine ⟨_, _, step_asks h fits hport hid, rfl, rfl, rfl, rfl, fun buf => ?_⟩
  obtain ⟨dec, hdec, hres, hresp⟩ := client_reads hok hfits hlt (holds_writeAt buf 0 _)
  have hlen : ∀ txn len (wire : List UInt8), (qmi_header QMI_RESPONSE txn SERVREG_LOC_GET_DOMAIN_LIST len ++
      wire).length = QMI_HEADER_SIZE + wire.length := by
    intro txn len wire
    simp only [qmi_header, List.length_append, leBytes_length, QMI_HEADER_SIZE]
  refine ⟨dec, ?_, ?_, hresp⟩
  · simp only [htxn, hlen]
    exact hdec
  · rw [hlen, Nat.add_sub_cancel_left]
    exact hres

/-- The header of a request. -/
theorem requestPacket_header {txn : ℕ} (htxn : txn < 2 ^ 16) {ts : List Tlv}
    (fits : (requestPacket txn ts).length ≤ 4096) :
    msgId (requestPacket txn ts) = some SERVREG_LOC_GET_DOMAIN_LIST ∧
      leNat ((requestPacket txn ts).take 1) = QMI_REQUEST ∧
      leNat (((requestPacket txn ts).drop 1).take 2) = txn ∧
      (requestPacket txn ts).length = QMI_HEADER_SIZE + (wireOf ts).length := by
  have hlen : (requestPacket txn ts).length = QMI_HEADER_SIZE + (wireOf ts).length := by
    simp only [requestPacket, qmi_header, List.length_append, leBytes_length, QMI_HEADER_SIZE]
  have hseven : 7 ≤ (requestPacket txn ts).length := by
    rw [hlen]
    exact Nat.le_add_right 7 _
  have hshort : (wireOf ts).length < 2 ^ 16 := by
    rw [hlen] at fits
    omega
  obtain ⟨htype, hid, hmsg, hsize⟩ := holds_header (show QMI_REQUEST < 2 ^ 8 by decide)
    (show SERVREG_LOC_GET_DOMAIN_LIST < 2 ^ 16 by decide) htxn hshort
    (holds_writeAt (fun _ => 0) 0 (requestPacket txn ts)).left
  rw [bytesAt_packet _ (by omega)] at htype hid hmsg hsize
  refine ⟨?_, htype, hid, hlen⟩
  have hall : leNat (((requestPacket txn ts).drop 5).take 2) + 7 = (requestPacket txn ts).length := by
    rw [hsize, hlen, QMI_HEADER_SIZE, Nat.add_comm]
  rw [msgId, if_pos ⟨hseven, hall⟩, hmsg]

/-- **A client that asks gets the domains of the table.** Whatever the server has received before, a
request for a service, with its TLVs in any order and any optional ones between them, is answered with one
message to its client. The client decodes it to the transaction id and to the entries of the table
that have this service, with their number. -/
theorem lookup_answered (s : Process) (h : s.ret = none) (locals : Locals) (client : Ns.SockaddrQrtr)
    (hport : client.sq_port ≠ Ns.QRTR_PORT_CTRL) (txn : ℕ) (htxn : txn < 2 ^ 16) (ts : List Tlv)
    (hts : ∀ t ∈ ts, Plain t) (fits : (requestPacket txn ts).length ≤ 4096) :
    ∃ s' m, main.step s (.received locals (.packet (requestPacket txn ts) fits client)) = some s' ∧
      s'.ret = none ∧ s'.sent = s.sent ++ [m] ∧ m.node = client.sq_node ∧ m.port = client.sq_port ∧
      ∀ buf, ∃ dec, qmi_decode_message (writeAt buf 0 m.data) m.data.length QMI_RESPONSE
          SERVREG_LOC_GET_DOMAIN_LIST 0 servreg_loc_get_domain_list_resp_ei = (some txn, dec) ∧
        dec.result = .ok (m.data.length - QMI_HEADER_SIZE) ∧
        respAt (applyStores (fun _ => 0) dec.stores) = found pd_maps (askedName ts) := by
  obtain ⟨hid, htype, htxn', hlen⟩ := requestPacket_header htxn fits
  obtain ⟨s', m, hstep, hret, hsent, hnode, hmport, hread⟩ := answer_read h locals fits hport hid htype
  refine ⟨s', m, hstep, hret, hsent, hnode, hmport, fun buf => ?_⟩
  obtain ⟨dec, hdec, hres, hresp⟩ := hread buf
  rw [htxn'] at hdec
  refine ⟨dec, hdec, hres, hresp.trans ?_⟩
  -- the decoder of the server has the TLVs in front of it
  have hholds := holds_writeAt s.buf 0 (requestPacket txn ts)
  have hbody : Holds (writeAt s.buf 0 (requestPacket txn ts)) QMI_HEADER_SIZE (wireOf ts) := by
    simpa [requestPacket, qmi_header, QMI_HEADER_SIZE] using hholds.right
  obtain ⟨hok, hstores⟩ := decode_plain hts hbody
  have hseven : ¬ (requestPacket txn ts).length = 0 := by
    rw [hlen, QMI_HEADER_SIZE]
    omega
  have hsub : wsub (requestPacket txn ts).length QMI_HEADER_SIZE = (wireOf ts).length := by
    rw [hlen, wsub_of_le (Nat.le_add_right _ _) (by omega), Nat.add_sub_cancel_left]
  have hmsg : leNat (((requestPacket txn ts).drop 3).take 2) = SERVREG_LOC_GET_DOMAIN_LIST := by
    rw [msgId] at hid
    exact Option.some.inj (Option.ite_none_right_eq_some.mp hid).2
  have hdecode : (qmi_decode_message (writeAt s.buf 0 (requestPacket txn ts))
      (requestPacket txn ts).length QMI_REQUEST SERVREG_LOC_GET_DOMAIN_LIST 0
      servreg_loc_get_domain_list_req_ei).2 = qmi_decode servreg_loc_get_domain_list_req_ei
        (writeAt s.buf 0 (requestPacket txn ts)) 0 QMI_HEADER_SIZE (wireOf ts).length 1 := by
    rw [qmi_decode_message, if_neg hseven, bytesAt_packet _ (by rw [hlen, QMI_HEADER_SIZE]; omega),
      bytesAt_packet _ (by rw [hlen, QMI_HEADER_SIZE]; omega), List.drop_zero,
      if_neg (not_not.mpr htype), if_neg (not_not.mpr hmsg), hsub]
  rw [answerTo, hdecode]
  simp only [hok, hstores, requestName_plain hts]

/-- A request for the domains of the ELF loader, behind an optional TLV. -/
def askElfLoader : List Tlv := [⟨32, [3, 9], by decide⟩, ⟨1, cstr "kernel/elf_loader", by decide⟩]

/-- Its answer has the domain of the modem. -/
theorem lookup_answered_elf_loader :
    ∃ s' m, main.step (main.start ⟨0, 0, 0, 0, 0, 0, []⟩ fun _ => 0)
        (.received ⟨0, fun _ => 0⟩ (.packet (requestPacket 5 askElfLoader) (by decide) ⟨1, 7⟩)) = some s' ∧
      s'.ret = none ∧ s'.sent = [m] ∧ m.node = 1 ∧ m.port = 7 ∧
      ∀ buf, ∃ dec, qmi_decode_message (writeAt buf 0 m.data) m.data.length QMI_RESPONSE
          SERVREG_LOC_GET_DOMAIN_LIST 0 servreg_loc_get_domain_list_resp_ei = (some 5, dec) ∧
        dec.result = .ok (m.data.length - QMI_HEADER_SIZE) ∧
        respAt (applyStores (fun _ => 0) dec.stores) =
          ⟨0, 0, some 1, some 1, some [⟨cstr "msm/modem/wlan_pd", 1, 0, 0⟩]⟩ :=
  lookup_answered (main.start ⟨0, 0, 0, 0, 0, 0, []⟩ fun _ => 0) rfl ⟨0, fun _ => 0⟩ ⟨1, 7⟩ (by decide) 5
    (by decide) askElfLoader (by decide) (by decide)

end Dragonboard.PdMapper
