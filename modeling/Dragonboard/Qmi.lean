/-
`qcom/qrtr/lib/qmi.c`: the table-driven QMI encoder and decoder.

A message is described by an array of `struct qmi_elem_info` ended by a
`QMI_EOTI` element. Here the array is the list of the elements before the
terminator, and a pointer into it is the rest of the list, so that the empty list is a
pointer to the terminator (whose other fields are zero). The C struct and the
message buffers are byte memories; the encoder and the decoder are traced
computations over them.

Both functions recurse through `ei_array`. `resolve` ties that knot once: every
element of a table is paired with the coder of its nested table, and the
loops below call it where the source calls `qmi_encode` or `qmi_decode` on
`temp_ei->ei_array`.

Sizes and cursors are natural numbers. The `uint32_t` operations that wrap within reach
are the subtraction of lengths (`wsub`) and the sums that the encoder compares with the room it
has (`wadd`); `size_t` has 64 bits. The counters of the decoder stay in range for every table
whose elements are not gigantic (`QmiExtent`).
-/
import Dragonboard.Memory

set_option autoImplicit false

namespace Dragonboard.Qmi

open Dragonboard.Memory

/-! ## Descriptor tables

A table is a list of elements without its `QMI_EOTI`, and an element of type `QMI_STRUCT` has a
table of its own, so tables are trees. Coders are recursive over them: a coder of the tree is
resolved from the leaves up, each element paired with the coder of its nested table. -/

/-- `enum qmi_elem_type`. -/
inductive ElemType where
  | eoti
  | optFlag
  | dataLen
  | unsigned1Byte
  | unsigned2Byte
  | unsigned4Byte
  | unsigned8Byte
  | signed1ByteEnum
  | signed2ByteEnum
  | signed4ByteEnum
  | struct
  | string
deriving DecidableEq, Repr

/-- The types the two switches treat as plain bytes. -/
def ElemType.isBasic : ElemType → Bool
  | .unsigned1Byte | .unsigned2Byte | .unsigned4Byte | .unsigned8Byte => true
  | .signed1ByteEnum | .signed2ByteEnum | .signed4ByteEnum => true
  | _ => false

/-- `enum qmi_array_type`. -/
inductive ArrayType where
  | noArray
  | staticArray
  | varLenArray
deriving DecidableEq, Repr

/-- `struct qmi_elem_info`. -/
structure ElemInfo where
  data_type : ElemType
  elem_len : ℕ
  elem_size : ℕ
  array_type : ArrayType
  tlv_type : UInt8
  offset : ℕ
  ei_array : List ElemInfo

section Resolve

variable {D : Type}

mutual

/-- An element with the coder of its nested table. -/
def resolveElem (table : List (ElemInfo × D) → D) : ElemInfo → ElemInfo × D
  | ⟨data_type, elem_len, elem_size, array_type, tlv_type, offset, ei_array⟩ =>
    (⟨data_type, elem_len, elem_size, array_type, tlv_type, offset, ei_array⟩,
      table (resolve table ei_array))
termination_by structural e => e

/-- A table whose elements carry the coders of their nested tables. -/
def resolve (table : List (ElemInfo × D) → D) : List ElemInfo → List (ElemInfo × D)
  | [] => []
  | e :: rest => resolveElem table e :: resolve table rest
termination_by structural l => l

end

/-- Every element is paired with the coder of its own `ei_array`. -/
theorem resolve_eq_map (table : List (ElemInfo × D) → D) (l : List ElemInfo) :
    resolve table l = l.map fun e => (e, table (resolve table e.ei_array)) := by
  induction l with
  | nil => rfl
  | cons e l ih =>
    rw [resolve, ih]
    cases e
    rfl

end Resolve

/-- Induction over tables: through the rest of the table and through the nested
table of its first element. -/
theorem table_induction {P : List ElemInfo → Prop} (nil : P [])
    (cons : ∀ e rest, P e.ei_array → P rest → P (e :: rest)) : ∀ l, P l
  | [] => nil
  | ⟨data_type, elem_len, elem_size, array_type, tlv_type, offset, ei_array⟩ :: rest =>
    cons ⟨data_type, elem_len, elem_size, array_type, tlv_type, offset, ei_array⟩ rest
      (table_induction nil cons ei_array) (table_induction nil cons rest)

/-! ## Errors and sizes

Helpers of the source that the encoder and the decoder share. Lengths that the source keeps in a
`uint32_t` are natural numbers here; where a sum can wrap the model says so (`wadd`, `wsub`). -/

/-- `EINVAL`. -/
def EINVAL : ℕ := 22

/-- `EFAULT`. -/
def EFAULT : ℕ := 14

/-- `EMSGSIZE`. -/
def EMSGSIZE : ℕ := 90

/-- `TLV_TYPE_SIZE + TLV_LEN_SIZE`. -/
def TLV_SIZE : ℕ := 3

/-- `OPTIONAL_TLV_TYPE_START`. -/
def OPTIONAL_TLV_TYPE_START : UInt8 := 0x10

/-- The bytes of a `QMI_DATA_LEN` on the wire, from its `elem_size`. -/
def data_len_sz (elem_size : ℕ) : ℕ := if elem_size = 1 then 1 else 2

/-- The bytes of a string's length in a nested structure, from its `elem_len`. -/
def string_len_sz (elem_len : ℕ) : ℕ := if elem_len ≤ 256 then 1 else 2

/-- The loop of `strlen`. -/
def strlen.loop (m : Mem) : ℕ → ℕ → ℕ
  | 0, _ => 0
  | n + 1, a => if m a = 0 then 0 else strlen.loop m n (a + 1) + 1

/-- `strlen`, for strings that fit the `uint32_t` its result is stored in. -/
def strlen (m : Mem) (a : ℕ) : ℕ := strlen.loop m (2 ^ 32) a

/-- The loop of `skip_to_next_elem` at level 1: while the next element has the same
`tlv_type`, go on. -/
def skip_to_next_elem.loop : List ElemInfo → Option ℕ
  | [] => none
  | [e] => if e.tlv_type = 0 then none else some 1
  | e :: e' :: rest =>
    if e.tlv_type = e'.tlv_type then (skip_to_next_elem.loop (e' :: rest)).map (· + 1) else some 1

/-- `skip_to_next_elem`: how many elements the pointer moves, `none` when that is
past the terminator. -/
def skip_to_next_elem (level : ℕ) (temp_ei : List ElemInfo) : Option ℕ :=
  if level > 1 then
    match temp_ei with
    | [] => none
    | _ :: _ => some 1
  else skip_to_next_elem.loop temp_ei

/-! ## `qmi_calc_min_msg_len`

A second walk of the table, without a struct: it adds up what a message of the type takes at
least. -/

/-- The loop of `qmi_calc_min_msg_len`; `k` counts elements still to be skipped. -/
def qmi_calc_min_msg_len.loop (level : ℕ) :
    List (ElemInfo × (ℕ → Option ℕ)) → ℕ → ℕ → Option ℕ
  | [], _, min_msg_len => some min_msg_len
  | _ :: rest, k + 1, min_msg_len => qmi_calc_min_msg_len.loop level rest k min_msg_len
  | e :: rest, 0, min_msg_len =>
    -- type and length are not prepended for elements of a nested structure
    let tlv := if level = 1 then TLV_SIZE else 0
    match e.1.data_type with
    | .optFlag =>
      -- optional elements do not count
      (skip_to_next_elem level (e.1 :: rest.map Prod.fst)).bind fun k =>
        qmi_calc_min_msg_len.loop level rest (k - 1) min_msg_len
    | .dataLen =>
      qmi_calc_min_msg_len.loop level rest 0 (min_msg_len + data_len_sz e.1.elem_size)
    | .struct =>
      (e.2 (level + 1)).bind fun n =>
        qmi_calc_min_msg_len.loop level rest 0 (min_msg_len + n + tlv)
    | .string =>
      let len_bytes := if level > 1 then string_len_sz e.1.elem_len else 0
      qmi_calc_min_msg_len.loop level rest 0
        (min_msg_len + len_bytes + e.1.elem_len * e.1.elem_size + tlv)
    | _ =>
      qmi_calc_min_msg_len.loop level rest 0 (min_msg_len + e.1.elem_len * e.1.elem_size + tlv)

/-- `qmi_calc_min_msg_len`. -/
def qmi_calc_min_msg_len (ei_array : List ElemInfo) (level : ℕ) : Option ℕ :=
  let table := fun tab level => qmi_calc_min_msg_len.loop level tab 0 0
  table (resolve table ei_array) level

/-! ## The encoder

`qmi_encode` and its three helpers, statement by statement. Stores go through `Traced`, so that
where they go is part of the result, also of an encoder that fails. Going on behind an array of
structs moves the element pointer, which the model counts as elements to pass over. -/

/-- The encoder of a table: C struct memory, `in_c_struct`, `out_buf`, `out_buf_len`
and `enc_level`, to the number of bytes encoded. -/
abbrev Enc : Type := Mem → ℕ → ℕ → ℕ → ℕ → Traced ℕ

/-- `qmi_encode_basic_elem`: the bytes of the elements, one after the other. -/
def qmi_encode_basic_elem (buf_dst : ℕ) (bytes : List UInt8) : Traced ℕ := do
  Traced.store buf_dst bytes
  pure bytes.length

/-- The loop of `qmi_encode_struct_elem` over the elements left. -/
def qmi_encode_struct_elem.loop (encode : Enc) (src : Mem) (elem_size out_buf_len enc_level : ℕ) :
    ℕ → ℕ → ℕ → ℕ → Traced ℕ
  | 0, _, _, encoded_bytes => pure encoded_bytes
  | n + 1, buf_dst, buf_src, encoded_bytes => do
    let rc ← encode src buf_src buf_dst (wsub out_buf_len encoded_bytes) enc_level
    qmi_encode_struct_elem.loop encode src elem_size out_buf_len enc_level n (buf_dst + rc)
      (buf_src + elem_size) (encoded_bytes + rc)

/-- `qmi_encode_struct_elem`. -/
def qmi_encode_struct_elem (encode : Enc) (src : Mem)
    (buf_dst buf_src elem_len elem_size out_buf_len enc_level : ℕ) : Traced ℕ :=
  qmi_encode_struct_elem.loop encode src elem_size out_buf_len enc_level elem_len buf_dst buf_src 0

/-- `qmi_encode_string_elem`. -/
def qmi_encode_string_elem (e : ElemInfo) (src : Mem)
    (buf_dst buf_src out_buf_len enc_level : ℕ) : Traced ℕ :=
  let string_len := strlen src buf_src
  if string_len > e.elem_len then Traced.fail (.errno EINVAL)
  else if enc_level = 1 then
    if string_len + TLV_SIZE > out_buf_len then Traced.fail (.errno EINVAL)
    else qmi_encode_basic_elem buf_dst (bytesAt src buf_src (string_len * e.elem_size))
  else
    if wadd string_len (string_len_sz e.elem_len) > out_buf_len then Traced.fail (.errno EINVAL)
    else do
      let rc ← qmi_encode_basic_elem buf_dst (leBytes (string_len_sz e.elem_len) string_len)
      let rc' ← qmi_encode_basic_elem (buf_dst + rc)
        (bytesAt src buf_src (string_len * e.elem_size))
      pure (rc + rc')

/-- The variables of `qmi_encode` that live across iterations. -/
structure EncState where
  data_len_value : ℕ
  buf_dst : ℕ
  tlv_pointer : ℕ
  tlv_len : ℕ
  encoded_bytes : ℕ
  encode_tlv : Bool

/-- `UPDATE_ENCODE_VARIABLES`, apart from the element pointer. -/
def EncState.update (st : EncState) (rc : ℕ) : EncState :=
  { st with
    buf_dst := st.buf_dst + rc
    encoded_bytes := st.encoded_bytes + rc
    tlv_len := st.tlv_len + rc
    encode_tlv := true }

/-- The number of elements to encode, as `qmi_encode` sets `data_len_value` before its
switch. -/
def qmi_encode.data_len (e : ElemInfo) (data_len_value : ℕ) : Traced ℕ :=
  match e.array_type with
  | .noArray => pure 1
  | .staticArray => pure e.elem_len
  | .varLenArray =>
    if data_len_value ≤ 0 ∨ e.elem_len < data_len_value then Traced.fail (.errno EINVAL)
    else pure data_len_value

/-- `skip_to_next_elem` inside the encoder. -/
def qmi_encode.skip (level : ℕ) (temp_ei : List ElemInfo) : Traced ℕ :=
  match skip_to_next_elem level temp_ei with
  | some k => pure k
  | none => Traced.fail .wild

/-- The switch of `qmi_encode` on the element `e`, followed in the table by `rest`: the
new state, and how far the element pointer moves. -/
def qmi_encode.elem (src : Mem) (in_c_struct out_buf_len enc_level : ℕ) (e : ElemInfo × Enc)
    (rest : List ElemInfo) (st : EncState) : Traced (EncState × ℕ) :=
  let buf_src := in_c_struct + e.1.offset
  match e.1.data_type with
  | .optFlag =>
    if src buf_src ≠ 0 then pure (st, 1)
    else do
      let k ← qmi_encode.skip enc_level (e.1 :: rest)
      pure (st, k)
  | .dataLen =>
    let data_len_value := patchLow st.data_len_value (bytesAt src buf_src e.1.elem_size)
    let sz := data_len_sz e.1.elem_size
    if wadd sz st.encoded_bytes + TLV_SIZE > out_buf_len then Traced.fail (.errno EINVAL)
    else do
      let rc ← qmi_encode_basic_elem st.buf_dst (leBytes sz data_len_value)
      let st' := { st with data_len_value := data_len_value }.update rc
      if data_len_value = 0 then do
        let k ← qmi_encode.skip enc_level rest
        pure (st', k + 1)
      else pure ({ st' with encode_tlv := false }, 1)
  | .unsigned1Byte | .unsigned2Byte | .unsigned4Byte | .unsigned8Byte
  | .signed1ByteEnum | .signed2ByteEnum | .signed4ByteEnum =>
    if wadd (st.data_len_value * e.1.elem_size) st.encoded_bytes + TLV_SIZE > out_buf_len then
      Traced.fail (.errno EINVAL)
    else do
      let rc ← qmi_encode_basic_elem st.buf_dst
        (bytesAt src buf_src (st.data_len_value * e.1.elem_size))
      pure (st.update rc, 1)
  | .struct => do
    let rc ← qmi_encode_struct_elem e.2 src st.buf_dst buf_src st.data_len_value e.1.elem_size
      (wsub out_buf_len st.encoded_bytes) (enc_level + 1)
    pure (st.update rc, 1)
  | .string => do
    let rc ← qmi_encode_string_elem e.1 src st.buf_dst buf_src (wsub out_buf_len st.encoded_bytes)
      enc_level
    pure (st.update rc, 1)
  | .eoti => Traced.fail (.errno EINVAL)

/-- The end of an iteration of `qmi_encode`: at level 1 a finished element gets its type and
length in front. -/
def qmi_encode.tlv (enc_level : ℕ) (tlv_type : UInt8) (st : EncState) : Traced EncState :=
  if st.encode_tlv ∧ enc_level = 1 then do
    Traced.store st.tlv_pointer (tlv_type :: leBytes 2 st.tlv_len)
    pure { st with
      encoded_bytes := st.encoded_bytes + TLV_SIZE
      tlv_pointer := st.buf_dst
      tlv_len := 0
      buf_dst := st.buf_dst + TLV_SIZE
      encode_tlv := false }
  else pure st

/-- The loop of `qmi_encode`; `k` counts the elements still to be passed over. -/
def qmi_encode.loop (src : Mem) (in_c_struct out_buf_len enc_level : ℕ) :
    List (ElemInfo × Enc) → ℕ → EncState → Traced ℕ
  | [], _, st => pure st.encoded_bytes
  | _ :: rest, k + 1, st => qmi_encode.loop src in_c_struct out_buf_len enc_level rest k st
  | e :: rest, 0, st => do
    let data_len_value ← qmi_encode.data_len e.1 st.data_len_value
    let (st', k) ← qmi_encode.elem src in_c_struct out_buf_len enc_level e (rest.map Prod.fst)
      { st with data_len_value := data_len_value }
    let st'' ← qmi_encode.tlv enc_level e.1.tlv_type st'
    qmi_encode.loop src in_c_struct out_buf_len enc_level rest (k - 1) st''

/-- The variables of `qmi_encode` before its loop. -/
def EncState.init (out_buf enc_level : ℕ) : EncState where
  data_len_value := 0
  buf_dst := if enc_level = 1 then out_buf + TLV_SIZE else out_buf
  tlv_pointer := out_buf
  tlv_len := 0
  encoded_bytes := 0
  encode_tlv := false

/-- `qmi_encode` over a table with resolved nested tables. -/
def qmi_encode.table (tab : List (ElemInfo × Enc)) : Enc :=
  fun src in_c_struct out_buf out_buf_len enc_level =>
    qmi_encode.loop src in_c_struct out_buf_len enc_level tab 0 (.init out_buf enc_level)

/-- `qmi_encode`. -/
def qmi_encode (ei_array : List ElemInfo) : Enc :=
  qmi_encode.table (resolve qmi_encode.table ei_array)

theorem qmi_encode_eq (ei_array : List ElemInfo) :
    qmi_encode ei_array =
      qmi_encode.table (ei_array.map fun e => (e, qmi_encode e.ei_array)) := by
  rw [qmi_encode, resolve_eq_map]
  rfl

/-! ## The decoder

`qmi_decode` and its three helpers. Every read of the message is recorded too. The loop at level 1
goes over the TLVs of the message and finds the element of each by its type; at other levels it
goes over the elements. -/

/-- The decoder of a table: message memory, `out_c_struct`, `in_buf`, `in_buf_len` and
`dec_level`, to the number of bytes decoded. -/
abbrev Dec : Type := Mem → ℕ → ℕ → ℕ → ℕ → Traced ℕ

/-- `qmi_decode_basic_elem`. -/
def qmi_decode_basic_elem (buf : Mem) (buf_dst buf_src elem_len elem_size : ℕ) : Traced ℕ := do
  let bytes ← Traced.read buf buf_src (elem_len * elem_size)
  Traced.store buf_dst bytes
  pure (elem_len * elem_size)

/-- The loop of `qmi_decode_struct_elem` over the elements left: the number of elements and
of bytes decoded. -/
def qmi_decode_struct_elem.loop (decode : Dec) (buf : Mem) (elem_size tlv_len dec_level : ℕ) :
    ℕ → ℕ → ℕ → ℕ → ℕ → Traced (ℕ × ℕ)
  | 0, _, _, i, decoded_bytes => pure (i, decoded_bytes)
  | n + 1, buf_dst, buf_src, i, decoded_bytes =>
    if decoded_bytes < tlv_len then do
      let rc ← decode buf buf_dst buf_src (tlv_len - decoded_bytes) dec_level
      qmi_decode_struct_elem.loop decode buf elem_size tlv_len dec_level n (buf_dst + elem_size)
        (buf_src + rc) (i + 1) (decoded_bytes + rc)
    else pure (i, decoded_bytes)

/-- `qmi_decode_struct_elem`. -/
def qmi_decode_struct_elem (decode : Dec) (buf : Mem)
    (buf_dst buf_src elem_len elem_size tlv_len dec_level : ℕ) : Traced ℕ := do
  let (i, decoded_bytes) ← qmi_decode_struct_elem.loop decode buf elem_size tlv_len dec_level
    elem_len buf_dst buf_src 0 0
  if (dec_level ≤ 2 ∧ decoded_bytes ≠ tlv_len) ∨
      (dec_level > 2 ∧ (i < elem_len ∨ decoded_bytes > tlv_len)) then
    Traced.fail (.errno EFAULT)
  else pure decoded_bytes

/-- The bytes of a string element in front of its characters, and its length: at level 1 the
length of the TLV, in a nested structure a length of its own. -/
def qmi_decode_string_elem.len (e : ElemInfo) (buf : Mem) (buf_src tlv_len dec_level : ℕ) :
    Traced (ℕ × ℕ) :=
  if dec_level = 1 then pure (0, tlv_len)
  else do
    let bytes ← Traced.read buf buf_src (string_len_sz e.elem_len)
    pure (string_len_sz e.elem_len, leNat bytes)

/-- `qmi_decode_string_elem`. -/
def qmi_decode_string_elem (e : ElemInfo) (buf : Mem) (buf_dst buf_src tlv_len dec_level : ℕ) :
    Traced ℕ := do
  let (decoded_bytes, string_len) ← qmi_decode_string_elem.len e buf buf_src tlv_len dec_level
  if string_len > e.elem_len then Traced.fail (.errno EINVAL)
  else if string_len > tlv_len then Traced.fail (.errno EFAULT)
  else do
    let rc ← qmi_decode_basic_elem buf buf_dst (buf_src + decoded_bytes) string_len e.elem_size
    Traced.store (buf_dst + string_len) [0]
    pure (decoded_bytes + rc)

/-- `find_ei`: the table from the first element of the given type on. -/
def find_ei {D : Type} : List (ElemInfo × D) → UInt8 → Option (List (ElemInfo × D))
  | [], _ => none
  | e :: rest, type => if e.1.tlv_type = type then some (e :: rest) else find_ei rest type

/-- The variables of `qmi_decode` that live across iterations. -/
structure DecState where
  data_len_value : ℕ
  tlv_len : ℕ
  buf_src : ℕ
  decoded_bytes : ℕ

/-- `UPDATE_DECODE_VARIABLES`. -/
def DecState.update (st : DecState) (rc : ℕ) : DecState :=
  { st with buf_src := st.buf_src + rc, decoded_bytes := st.decoded_bytes + rc }

/-- The `QMI_OPT_FLAG` step of `qmi_decode`. -/
def qmi_decode.opt_flag (out_c_struct : ℕ) :
    List (ElemInfo × Dec) → Traced (List (ElemInfo × Dec))
  | [] => pure []
  | e :: rest =>
    if e.1.data_type = .optFlag then do
      Traced.store (out_c_struct + e.1.offset) [1]
      pure rest
    else pure (e :: rest)

/-- The `QMI_DATA_LEN` step of `qmi_decode`. -/
def qmi_decode.data_len (buf : Mem) (out_c_struct : ℕ) (st : DecState) :
    List (ElemInfo × Dec) → Traced (List (ElemInfo × Dec) × DecState)
  | [] => pure ([], st)
  | e :: rest =>
    if e.1.data_type = .dataLen then do
      let sz := data_len_sz e.1.elem_size
      let bytes ← Traced.read buf st.buf_src sz
      let data_len_value := patchLow st.data_len_value bytes
      Traced.store (out_c_struct + e.1.offset) (leBytes 4 data_len_value)
      pure (rest, { st with data_len_value := data_len_value
                            tlv_len := wsub st.tlv_len sz }.update sz)
    else pure (e :: rest, st)

/-- The number of elements to decode, as `qmi_decode` sets `data_len_value` before its
switch. -/
def qmi_decode.count (e : ElemInfo) (data_len_value : ℕ) : Traced ℕ :=
  match e.array_type with
  | .noArray => pure 1
  | .staticArray => pure e.elem_len
  | .varLenArray =>
    if data_len_value > e.elem_len then Traced.fail (.errno EINVAL) else pure data_len_value

/-- The switch of `qmi_decode`: the bytes the element takes. -/
def qmi_decode.elem (buf : Mem) (out_c_struct dec_level : ℕ) (e : ElemInfo × Dec)
    (st : DecState) : Traced ℕ :=
  let buf_dst := out_c_struct + e.1.offset
  match e.1.data_type with
  | .unsigned1Byte | .unsigned2Byte | .unsigned4Byte | .unsigned8Byte
  | .signed1ByteEnum | .signed2ByteEnum | .signed4ByteEnum =>
    qmi_decode_basic_elem buf buf_dst st.buf_src st.data_len_value e.1.elem_size
  | .struct =>
    qmi_decode_struct_elem e.2 buf buf_dst st.buf_src st.data_len_value e.1.elem_size st.tlv_len
      (dec_level + 1)
  | .string => qmi_decode_string_elem e.1 buf buf_dst st.buf_src st.tlv_len dec_level
  | .eoti | .optFlag | .dataLen => Traced.fail (.errno EINVAL)

/-- One element, from the pointer `temp_ei` on: what follows the TLV header in an iteration of
`qmi_decode`. A pointer to the terminator falls through to the `default` of the switch. -/
def qmi_decode.body (buf : Mem) (out_c_struct dec_level : ℕ) (temp_ei : List (ElemInfo × Dec))
    (st : DecState) : Traced (List (ElemInfo × Dec) × DecState) := do
  let temp_ei ← qmi_decode.opt_flag out_c_struct temp_ei
  let (temp_ei, st) ← qmi_decode.data_len buf out_c_struct st temp_ei
  match temp_ei with
  | [] => Traced.fail (.errno EINVAL)
  | e :: rest => do
    let data_len_value ← qmi_decode.count e.1 st.data_len_value
    let st := { st with data_len_value := data_len_value }
    let rc ← qmi_decode.elem buf out_c_struct dec_level e st
    pure (rest, st.update rc)

/-- The TLV header at the cursor: type and length. -/
def qmi_decode.header (buf : Mem) (buf_src : ℕ) : Traced (UInt8 × ℕ) := do
  let bytes ← Traced.read buf buf_src TLV_SIZE
  pure (bytes.getD 0 0, leNat (bytes.drop 1))

/-- One iteration of the loop of `qmi_decode` at level 1: one TLV. -/
def qmi_decode.tlv (buf : Mem) (out_c_struct : ℕ) (tab : List (ElemInfo × Dec))
    (st : DecState) : Traced DecState := do
  let (tlv_type, tlv_len) ← qmi_decode.header buf st.buf_src
  let st := { st with tlv_len := tlv_len }.update TLV_SIZE
  match find_ei tab tlv_type with
  | none =>
    if tlv_type < OPTIONAL_TLV_TYPE_START then Traced.fail (.errno EINVAL)
    else pure (st.update tlv_len)
  | some temp_ei => do
    let r ← qmi_decode.body buf out_c_struct 1 temp_ei st
    pure r.2

/-- The loop of `qmi_decode` at level 1. Every iteration takes at least a header, so
`in_buf_len` iterations are enough. -/
def qmi_decode.tlv_loop (buf : Mem) (out_c_struct in_buf_len : ℕ)
    (tab : List (ElemInfo × Dec)) : ℕ → DecState → Traced ℕ
  | 0, st => pure st.decoded_bytes
  | n + 1, st =>
    if st.decoded_bytes < in_buf_len then do
      let st ← qmi_decode.tlv buf out_c_struct tab st
      qmi_decode.tlv_loop buf out_c_struct in_buf_len tab n st
    else pure st.decoded_bytes

/-- The loop of `qmi_decode` at a level of 2 or more, from the pointer `temp_ei` on. Every
iteration takes at least one element, so as many iterations as the table has elements are
enough. -/
def qmi_decode.elem_loop (buf : Mem) (out_c_struct in_buf_len dec_level : ℕ) :
    ℕ → List (ElemInfo × Dec) → DecState → Traced ℕ
  | 0, _, st => pure st.decoded_bytes
  | n + 1, temp_ei, st =>
    if st.decoded_bytes < in_buf_len then
      if temp_ei.isEmpty then pure st.decoded_bytes
      else do
        -- no length information in nested structures: use the remaining space
        let (temp_ei, st) ← qmi_decode.body buf out_c_struct dec_level temp_ei
          { st with tlv_len := in_buf_len - st.decoded_bytes }
        qmi_decode.elem_loop buf out_c_struct in_buf_len dec_level n temp_ei st
    else pure st.decoded_bytes

/-- The variables of `qmi_decode` before its loop. -/
def DecState.init (in_buf : ℕ) : DecState where
  data_len_value := 0
  tlv_len := 0
  buf_src := in_buf
  decoded_bytes := 0

/-- `qmi_decode` over a table with resolved nested tables. -/
def qmi_decode.table (tab : List (ElemInfo × Dec)) : Dec :=
  fun buf out_c_struct in_buf in_buf_len dec_level =>
    if dec_level = 1 then
      qmi_decode.tlv_loop buf out_c_struct in_buf_len tab in_buf_len (.init in_buf)
    else
      qmi_decode.elem_loop buf out_c_struct in_buf_len dec_level tab.length tab (.init in_buf)

/-- `qmi_decode`. -/
def qmi_decode (ei_array : List ElemInfo) : Dec :=
  qmi_decode.table (resolve qmi_decode.table ei_array)

theorem resolve_decode (ei_array : List ElemInfo) :
    resolve qmi_decode.table ei_array = ei_array.map fun e => (e, qmi_decode e.ei_array) :=
  resolve_eq_map _ _

theorem qmi_decode_eq (ei_array : List ElemInfo) :
    qmi_decode ei_array =
      qmi_decode.table (ei_array.map fun e => (e, qmi_decode e.ei_array)) := by
  rw [qmi_decode, resolve_decode]

/-! ## Messages

The two functions around the coders: the header of seven bytes, and the payload behind it. -/

/-- `sizeof(struct qmi_header)`. -/
def QMI_HEADER_SIZE : ℕ := 7

/-- `struct qmi_header`, packed and little-endian. -/
def qmi_header (type txn_id msg_id msg_len : ℕ) : List UInt8 :=
  leBytes 1 type ++ leBytes 2 txn_id ++ leBytes 2 msg_id ++ leBytes 2 msg_len

/-- `qmi_encode_message` into a packet buffer of `data_len` bytes: the new `data_len`. A null
`c_struct` is `none`. -/
def qmi_encode_message (data_len type msg_id txn_id : ℕ) (c_struct : Option (Mem × ℕ))
    (ei : List ElemInfo) : Traced ℕ :=
  match c_struct with
  | none =>
    if qmi_calc_min_msg_len ei 1 ≠ some 0 then Traced.fail (.errno EINVAL)
    else if data_len < QMI_HEADER_SIZE then Traced.fail (.errno EMSGSIZE)
    else do
      Traced.store 0 (qmi_header type txn_id msg_id 0)
      pure QMI_HEADER_SIZE
  | some (src, base) =>
    if data_len < QMI_HEADER_SIZE then Traced.fail (.errno EMSGSIZE)
    else do
      let msglen ← qmi_encode ei src base QMI_HEADER_SIZE (data_len - QMI_HEADER_SIZE) 1
      Traced.store 0 (qmi_header type txn_id msg_id msglen)
      pure (QMI_HEADER_SIZE + msglen)

/-- `qmi_decode_header`: the message id. The subtraction in the source is of `size_t`, so a
packet shorter than the header is refused by the same test. -/
def qmi_decode_header (data : Mem) (data_len : ℕ) : Except Fault ℕ :=
  if leNat (bytesAt data 5 2) + QMI_HEADER_SIZE ≠ data_len then .error (.errno EINVAL)
  else .ok (leNat (bytesAt data 3 2))

/-- `qmi_decode_message` into the struct at `c_struct`: the transaction id it stores, if it gets
that far, and the decoding. -/
def qmi_decode_message (data : Mem) (data_len type id c_struct : ℕ) (ei : List ElemInfo) :
    Option ℕ × Traced ℕ :=
  if data_len = 0 then (none, Traced.fail (.errno EINVAL))
  else if leNat (bytesAt data 0 1) ≠ type then (none, Traced.fail (.errno EINVAL))
  else if leNat (bytesAt data 3 2) ≠ id then (none, Traced.fail (.errno EINVAL))
  else (some (leNat (bytesAt data 1 2)),
    qmi_decode ei data c_struct QMI_HEADER_SIZE (wsub data_len QMI_HEADER_SIZE) 1)

end Dragonboard.Qmi
