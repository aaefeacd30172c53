/-
The responses of the rmtfs server on the wire.

All five tables have the result first, as a structure, and then at most one optional number. So a response
is encoded whatever it says, and it has the same bytes in front: the header, the TLV of the result, and the
result itself (`respond_eq`).
-/
import Dragonboard.QmiRoundTrip
import Dragonboard.RmtfsPackets

set_option autoImplicit false

namespace Dragonboard.Rmtfs

open Dragonboard.Memory Dragonboard.Qmi Dragonboard.Qrtr

/-! ## The response on the wire

All responses start with the result, as a structure of two words, and have at most one number
behind it. So one layout serves for all five. -/

/-- The result in a response. -/
def resultGroup : Group :=
  ⟨none, none, ⟨.struct, 1, sizeof rmtfs_qmi_result, .noArray, 2, 0, rmtfs_qmi_result_ei⟩⟩

/-- An optional number in a response. -/
def optGroup (type : ElemType) (size flag value : ℕ) : Group :=
  ⟨some ⟨.optFlag, 1, 1, .noArray, 16, flag, []⟩, none, ⟨type, 1, size, .noArray, 16, value, []⟩⟩

/-- What follows the result in the table of an answer. -/
def Answer.optional : Answer → List Group
  | .response (.open_ _ _) =>
    [optGroup .unsigned4Byte 4 (offsetof rmtfs_open_resp 1) (offsetof rmtfs_open_resp 2)]
  | .response (.close _) => []
  | .response (.rw_iovec _) => []
  | .response (.get_dev_error _ _) =>
    [optGroup .unsigned1Byte 1 (offsetof rmtfs_dev_error_resp 1) (offsetof rmtfs_dev_error_resp 2)]
  | .alloc_buf _ _ =>
    [optGroup .unsigned8Byte 8 (offsetof rmtfs_alloc_buf_resp 1) (offsetof rmtfs_alloc_buf_resp 2)]

theorem Answer.ei_eq (a : Answer) : a.ei = messageTable (resultGroup :: a.optional) := by
  rcases a with (_ | _ | _ | _) | _ <;> rfl

/-- The optional part is a number of at most eight bytes. -/
theorem Answer.optional_cases (a : Answer) : a.optional = [] ∨
    ∃ type size flag value, type.isBasic = true ∧ size ≤ 8 ∧
      a.optional = [optGroup type size flag value] := by
  rcases a with (_ | _ | _ | _) | _
  · exact .inr ⟨_, _, _, _, rfl, by decide, rfl⟩
  · exact .inl rfl
  · exact .inl rfl
  · exact .inr ⟨_, _, _, _, rfl, by decide, rfl⟩
  · exact .inr ⟨_, _, _, _, rfl, by decide, rfl⟩

section Table

variable (width : ElemInfo → ℕ)

theorem nestedOk_result : NestedOk width rmtfs_qmi_result_ei := by
  refine .single ⟨?_, ?_, ?_⟩ ?_ ?_ ?_ ?_ (.single ⟨?_, ?_, ?_⟩ ?_ ?_ ?_ ?_ .nil) <;>
    simp [ElemType.isBasic]

theorem resultGroup_ok : resultGroup.Ok width := by
  refine ⟨by decide, ?_, ?_, ⟨.inr (.inl rfl), ?_, ?_⟩, ?_, ?_, fun _ => nestedOk_result width⟩
  all_goals simp [resultGroup, rmtfs_qmi_result_ei]

theorem optGroup_ok {type : ElemType} (htype : type.isBasic = true) (size flag value : ℕ) :
    (optGroup type size flag value).Ok width := by
  have hne : type ≠ .struct ∧ type ≠ .string := by
    constructor
    all_goals
      rintro rfl
      cases htype
  have hscalar : ScalarOk ⟨.optFlag, 1, 1, .noArray, 16, flag, []⟩ := ⟨by simp, by simp⟩
  refine ⟨?_, ?_, ?_, ⟨.inl htype, ?_, fun h => absurd h hne.2⟩, ?_, fun h => absurd h hne.1,
    fun h => absurd h hne.1⟩
  all_goals simp [optGroup, Group.type, hscalar]

theorem Answer.messageOk (a : Answer) : MessageOk width (resultGroup :: a.optional) := by
  rcases a.optional_cases with h | ⟨type, size, flag, value, htype, -, h⟩
  · rw [h]
    refine ⟨?_, by decide⟩
    simpa using resultGroup_ok width
  · rw [h]
    refine ⟨?_, by simp [Group.type, resultGroup, optGroup]⟩
    simpa using ⟨resultGroup_ok width, optGroup_ok width htype size flag value⟩

/-- The TLV of the result. -/
theorem resultGroup_tlv (src : Mem) :
    resultGroup.tlv width src 0 = 2 :: leBytes 2 4 ++ bytesAt src 0 4 := by
  have hbody : resultGroup.body width src 0 = bytesAt src 0 4 := by
    rw [show (4 : ℕ) = 2 + 2 from rfl, bytesAt_add]
    rfl
  rw [Group.tlv, if_pos (show resultGroup.present src 0 = true from rfl), hbody, bytesAt_length]
  rfl

theorem optGroup_tlv_length (type : ElemType) (htype : type.isBasic = true) (size flag value : ℕ) (src : Mem) :
    ((optGroup type size flag value).tlv width src 0).length ≤ 3 + size := by
  have hbody : ((optGroup type size flag value).body width src 0).length = size := by
    cases type with
    | struct => cases htype
    | string => cases htype
    | _ => simp [optGroup, Group.body, wireItem, wireElem, itemCount]
  rw [Group.tlv]
  split
  · simp only [List.length_cons, List.length_append, leBytes_length, hbody]
    omega
  · exact Nat.zero_le _

end Table

theorem respStruct_result {s : List CType} (result : Result) (value : Option (List UInt8))
    (h0 : offsetof s 0 = 0) (h1 : 4 ≤ offsetof s 1) (h2 : 4 ≤ offsetof s 2) :
    bytesAt (respStruct s result value) 0 4 = leBytes 2 result.result ++ leBytes 2 result.error := by
  have hholds := holds_writeAt (fun _ => 0) 0 (leBytes 2 result.result ++ leBytes 2 result.error)
  have hkeep : ∀ i < 4, respStruct s result value i
      = writeAt (fun _ => 0) 0 (leBytes 2 result.result ++ leBytes 2 result.error) i := by
    intro i hi
    unfold respStruct
    simp only [h0]
    cases value with
    | none => rfl
    | some bytes =>
      simp only
      rw [writeAt_of_lt (by omega), writeAt_of_lt (by omega)]
  rw [← hholds.bytesAt_eq (n := 4) (by simp)]
  refine List.ext_getElem (by simp) fun i hi hi' => ?_
  rw [bytesAt_length] at hi
  rw [bytesAt_getElem, bytesAt_getElem, hkeep _ (by omega)]

theorem respStruct_flag {s : List CType} (result : Result) (value : Option (List UInt8))
    (h1 : offsetof s 0 + 4 ≤ offsetof s 1) (h2 : offsetof s 1 < offsetof s 2) :
    respStruct s result value (offsetof s 1) = 0 ∨ respStruct s result value (offsetof s 1) = 1 := by
  unfold respStruct
  cases value with
  | none => exact .inl (writeAt_of_ge (by simpa using h1))
  | some bytes =>
    right
    simp only
    rw [writeAt_of_lt h2]
    exact writeAt_inside (show 0 < ([1] : List UInt8).length by simp)

/-- The result of an answer in its struct. -/
theorem Answer.cstruct_result (a : Answer) :
    bytesAt a.cstruct 0 4 = leBytes 2 a.result.result ++ leBytes 2 a.result.error := by
  rcases a with (_ | _ | _ | _) | _
  · exact respStruct_result _ _ rfl (by decide) (by decide)
  · exact holds_writeAt _ _ _
  · exact holds_writeAt _ _ _
  · exact respStruct_result _ _ rfl (by decide) (by decide)
  · exact respStruct_result _ _ rfl (by decide) (by decide)

/-- The flag of an answer is 0 or 1. -/
theorem Answer.cstruct_flag (a : Answer) {type : ElemType} {size flag value : ℕ}
    (h : a.optional = [optGroup type size flag value]) : a.cstruct flag = 0 ∨ a.cstruct flag = 1 := by
  rcases a with (_ | _ | _ | _) | _
  · cases h
    exact respStruct_flag _ _ (by decide) (by decide)
  · cases h
  · cases h
  · cases h
    exact respStruct_flag _ _ (by decide) (by decide)
  · cases h
    exact respStruct_flag _ _ (by decide) (by decide)

theorem Answer.messageValid (width : ElemInfo → ℕ) (a : Answer) :
    MessageValid width (resultGroup :: a.optional) a.cstruct 0 := by
  have hresult : ∀ src base, Valid width rmtfs_qmi_result_ei src base := by
    intro src base
    rw [valid_eq]
    intro it hit
    simp only [rmtfs_qmi_result_ei, List.map_cons, List.map_nil, items, reduceCtorEq, if_false,
      List.mem_cons, List.not_mem_nil, or_false] at hit
    rcases hit with rfl | rfl <;> simp [itemValid]
  intro g hg
  rcases List.mem_cons.mp hg with rfl | hg
  · simp [resultGroup, itemValid, hresult]
  rcases a.optional_cases with h | ⟨type, size, flag, value, htype, -, h⟩
  · rw [h] at hg
    cases hg
  · rw [h, List.mem_singleton] at hg
    subst hg
    refine ⟨?_, fun _ => ⟨by simp [optGroup], fun hs => ?_, fun hs => ?_⟩⟩
    · rintro f ⟨⟩
      simpa using a.cstruct_flag h
    · simp only [optGroup] at hs
      rw [hs] at htype
      cases htype
    · simp only [optGroup] at hs
      rw [hs] at htype
      cases htype

/-- **The response that is sent**: it goes to where the packet came from, and has a header with the
ids that were given, and the result of the answer. -/
theorem respond_eq (stack : Stack) (pkt : QrtrPacket) (msg_id txn : ℕ) (a : Answer) :
    ∃ len rest, respond stack pkt msg_id txn a = [⟨pkt.node, pkt.port,
      qmi_header QMI_RESPONSE txn msg_id len ++ (2 :: leBytes 2 4 ++
        (leBytes 2 a.result.result ++ leBytes 2 a.result.error) ++ rest)⟩] := by
  have hpayload : payload (fun _ => 4) (resultGroup :: a.optional) a.cstruct 0 = 2 :: leBytes 2 4 ++
      (leBytes 2 a.result.result ++ leBytes 2 a.result.error) ++
        payload (fun _ => 4) a.optional a.cstruct 0 := by
    rw [payload, List.flatMap_cons, resultGroup_tlv, a.cstruct_result]
    rfl
  have hrest : (payload (fun _ => 4) a.optional a.cstruct 0).length ≤ 11 := by
    rcases a.optional_cases with h | ⟨type, size, flag, value, htype, hsize, h⟩
    · rw [h]
      exact Nat.zero_le 11
    · have hlen := optGroup_tlv_length (fun _ => 4) type htype size flag value a.cstruct
      simp only [h, payload, List.flatMap_cons, List.flatMap_nil, List.append_nil]
      omega
  -- a response has 18 bytes at most, and its buffer 256
  have hlen : (payload (fun _ => 4) (resultGroup :: a.optional) a.cstruct 0).length ≤ 18 := by
    rw [hpayload]
    simp
    omega
  obtain ⟨hok, hplaces⟩ := qmi_encode_message_packet (a.messageOk fun _ => 4)
    (a.messageValid fun _ => 4) QMI_RESPONSE msg_id txn (show 256 < 2 ^ 32 by decide)
    (by unfold QMI_HEADER_SIZE; omega)
  rw [← a.ei_eq] at hok hplaces
  have hbytes := (holds_writeAt stack.resp_buf 0 _).bytesAt_eq (show (qmi_header QMI_RESPONSE txn msg_id
      (payload (fun _ => 4) (resultGroup :: a.optional) a.cstruct 0).length ++
        payload (fun _ => 4) (resultGroup :: a.optional) a.cstruct 0).length =
      QMI_HEADER_SIZE + (payload (fun _ => 4) (resultGroup :: a.optional) a.cstruct 0).length by
    simp only [qmi_header, List.length_append, leBytes_length, QMI_HEADER_SIZE])
  refine ⟨(payload (fun _ => 4) (resultGroup :: a.optional) a.cstruct 0).length,
    payload (fun _ => 4) a.optional a.cstruct 0, ?_⟩
  simp only [respond, hok, hplaces stack.resp_buf]
  rw [hbytes, ← hpayload]

end Dragonboard.Rmtfs
