/-
The counts in front of arrays.

`data_len_value` is one variable of `qmi_decode` for all TLVs of a message, and a count is copied over
its low end: one byte or two. What the TLV before left there stays in the other bytes. A single element leaves
a 1, an array of fixed length its length, an array with a count that count, and any other TLV what it
found (`carried`). So a count comes from the wire exactly if the value it meets fits into the bytes
that are copied over it.

The number of elements is then right for numbers. An array of structures ends with its TLV, whatever the count
says, so it also has to have as many as that.

The encoder has the same variable, and refuses a `VAR_LEN_ARRAY` that meets a 0. The requests that start
with a string are declared so, without a count, so they can be decoded but not encoded.
-/
import Mathlib.Data.List.Nodup
import Dragonboard.QmiEncode
import Dragonboard.QmiOrder

set_option autoImplicit false

namespace Dragonboard.Qmi

open Dragonboard.Memory

/-! ## The TLVs of a message

`data_len_value` is declared once in front of the loop of `qmi_decode` and never reset. A TLV with
a count copies the bytes of its count over the low bytes of it, on a little-endian machine, and so
the upper bytes are those of the TLV before. `FromWire` says of one TLV that the count it is
decoded with is the one that stands in its bytes. -/

/-- A group as tables have them: a count has one or two bytes and stands before an array of variable
length. -/
structure Group.Counted (g : Group) : Prop where
  shaped : g.Shaped
  size : ∀ l ∈ g.len, l.elem_size = 1 ∨ l.elem_size = 2
  array : g.len.isSome → g.elem.array_type = .varLenArray
  small : g.elem.elem_len < 2 ^ 32

/-- Such groups, each with a type of its own. -/
structure CountedMessage (gs : List Group) : Prop where
  groups : ∀ g ∈ gs, g.Counted
  types : (gs.map Group.type).Nodup

theorem CountedMessage.shaped {gs : List Group} (h : CountedMessage gs) : ∀ g ∈ gs, g.Shaped :=
  fun g hg => (h.groups g hg).shaped

/-- The states in which the loop of `qmi_decode` at level 1 comes to a TLV. -/
def tlvVisits (buf : Mem) (out_c_struct in_buf_len : ℕ) (tab : List (ElemInfo × Dec)) :
    ℕ → DecState → List DecState
  | 0, _ => []
  | n + 1, st =>
    if st.decoded_bytes < in_buf_len then
      st :: match (qmi_decode.tlv buf out_c_struct tab st).result with
        | .ok st' => tlvVisits buf out_c_struct in_buf_len tab n st'
        | .error _ => []
    else []

/-- The count at the start of the value of a TLV. -/
def wirePrefix (buf : Mem) (pos : ℕ) (l : ElemInfo) : ℕ :=
  leNat (bytesAt buf (pos + TLV_SIZE) (data_len_sz l.elem_size))

/-- The state behind the header and the count of a TLV. -/
def DecState.behindCount (st : DecState) (buf : Mem) (l : ElemInfo) : DecState where
  data_len_value := patchLow st.data_len_value
    (bytesAt buf (st.buf_src + TLV_SIZE) (data_len_sz l.elem_size))
  tlv_len := wsub (declaredLen buf st.buf_src) (data_len_sz l.elem_size)
  buf_src := st.buf_src + TLV_SIZE + data_len_sz l.elem_size
  decoded_bytes := st.decoded_bytes + TLV_SIZE + data_len_sz l.elem_size

/-- How many elements of an array are decoded: as many as are asked for, and of structures those
up to the end of the TLV. -/
def elemsDecoded (buf : Mem) (out_c_struct : ℕ) (e : ElemInfo) (st : DecState) : Except Fault ℕ :=
  match e.data_type with
  | .struct =>
    (qmi_decode_struct_elem.loop (qmi_decode e.ei_array) buf e.elem_size st.tlv_len 2
      st.data_len_value (out_c_struct + e.offset) st.buf_src 0 0).result.map Prod.fst
  | _ => .ok st.data_len_value

/-- A TLV with a count is decoded with the count that it has on the wire: behind the flag of
the group that count is stored, and so many elements are decoded. -/
structure FromWire (gs : List Group) (buf : Mem) (out_c_struct : ℕ) (g : Group) (l : ElemInfo)
    (st : DecState) : Prop where
  stored : (qmi_decode.tlv buf out_c_struct (resolve qmi_decode.table (messageTable gs))
      st).stores[g.flag.toList.length]?
    = some ⟨out_c_struct + l.offset, leBytes 4 (wirePrefix buf st.buf_src l)⟩
  decoded : g.elem.data_type ≠ .string →
    elemsDecoded buf out_c_struct g.elem (st.behindCount buf l) = .ok (wirePrefix buf st.buf_src l)

/-! ## What a count meets

Whether that is so depends on the value the count meets. This value can be told from the TLVs
before, without decoding: a TLV with a count leaves its count, a string leaves its length, and an
element of fixed length leaves what its table says. -/

/-- The value that the element of a group leaves for the next count. -/
def Group.leaves (g : Group) (buf : Mem) (pos v : ℕ) : ℕ :=
  match g.elem.array_type with
  | .noArray => 1
  | .staticArray => g.elem.elem_len
  | .varLenArray =>
    match g.len with
    | some l => wirePrefix buf pos l
    | none => v

/-- The value that a TLV leaves for the next count; an unknown one changes nothing. -/
def carried (gs : List Group) (buf : Mem) (pos v : ℕ) : ℕ :=
  (gs.find? fun g => g.type = buf pos).elim v fun g => g.leaves buf pos v

/-- A count meets a value that it covers, and a TLV of structures has as many as it says. -/
def CountFits (buf : Mem) (pos v : ℕ) (e l : ElemInfo) : Prop :=
  v < 256 ^ data_len_sz l.elem_size ∧
  (e.data_type = .struct → ∃ bytes,
    span.structs (fun p len => span.table (spans e.ei_array) buf p len 2)
      (pos + TLV_SIZE + data_len_sz l.elem_size)
      (wsub (declaredLen buf pos) (data_len_sz l.elem_size)) (wirePrefix buf pos l) (0, 0)
    = some (wirePrefix buf pos l, bytes))

/-- Every count of a message fits. The TLVs follow one another by what they take, from a position
and a value on; `n` bounds their number. -/
def CountsFit (gs : List Group) (buf : Mem) (limit : ℕ) : ℕ → ℕ → ℕ → Prop
  | 0, _, _ => True
  | n + 1, pos, v =>
    pos < limit →
      (∀ g ∈ gs, g.type = buf pos → ∀ l ∈ g.len, CountFits buf pos v g.elem l) ∧
      ∀ r, tlvSpan (spans (messageTable gs)) buf pos v = some r →
        CountsFit gs buf limit n (pos + TLV_SIZE + r.1) (carried gs buf pos v)

/-! ## One TLV

The steps of a TLV are followed one by one: the flag, the count, the elements. The count is the
bytes that were copied exactly if the upper bytes of the value it meets are zero, and that is what
`patchLow_eq_iff` says in numbers. -/

/-- A count is the bytes that were copied exactly if it met none above them. -/
theorem patchLow_eq_iff (v : ℕ) (bytes : List UInt8) :
    patchLow v bytes = leNat bytes ↔ v < 256 ^ bytes.length := by
  refine ⟨fun h => ?_, patchLow_of_lt⟩
  have hpos : 0 < 256 ^ bytes.length := Nat.pow_pos (by decide)
  rw [patchLow] at h
  -- what is left of the old value above the bytes
  have hzero : 256 ^ bytes.length * (v / 256 ^ bytes.length) = 0 := by omega
  rcases Nat.mul_eq_zero.mp hzero with hzero | hzero
  · omega
  · exact (Nat.div_eq_zero_iff_lt hpos).mp hzero

theorem leBytes_inj {k m n : ℕ} (hm : m < 256 ^ k) (hn : n < 256 ^ k)
    (h : leBytes k m = leBytes k n) : m = n := by
  rw [← leNat_leBytes k m hm, h, leNat_leBytes k n hn]

theorem find_type {gs : List Group} (htypes : (gs.map Group.type).Nodup) {g : Group} (hg : g ∈ gs) :
    (gs.find? fun g' => g'.type = g.type) = some g := by
  cases hfind : gs.find? fun g' => g'.type = g.type with
  | none => exact absurd (decide_eq_true rfl) (List.find?_eq_none.mp hfind g hg)
  | some g' =>
    have htype : g'.type = g.type := by simpa using List.find?_some hfind
    rw [List.inj_on_of_nodup_map htypes (List.mem_of_find?_eq_some hfind) hg htype]

section Tlv

variable {gs : List Group} {g : Group} {l : ElemInfo} {buf : Mem} {out : ℕ} {st : DecState}

/-- The flag step of a group. -/
theorem opt_flag_group (out : ℕ) (hg : g.Shaped) (rest : List ElemInfo) :
    qmi_decode.opt_flag out ((g.elems ++ rest).map fun e => (e, qmi_decode e.ei_array))
      = ⟨g.flag.toList.map fun f => ⟨out + f.offset, [1]⟩, 0,
        .ok ((g.len.toList ++ g.elem :: rest).map fun e => (e, qmi_decode e.ei_array))⟩ := by
  unfold Group.elems
  cases hf : g.flag with
  | some f =>
    simp only [Option.toList_some, List.cons_append, List.map_cons, qmi_decode.opt_flag]
    rw [if_pos (hg.flag f hf).1, Traced.bind_of_ok (Traced.store_result _ _)]
    simp
  | none =>
    cases hl : g.len with
    | none =>
      simp only [Option.toList_none, List.nil_append, List.cons_append, List.map_cons,
        qmi_decode.opt_flag]
      rw [if_neg hg.elem.1]
      rfl
    | some l =>
      have hne : l.data_type ≠ .optFlag := by
        rw [(hg.len l hl).1]
        decide
      simp only [Option.toList_none, Option.toList_some, List.nil_append, List.cons_append,
        List.map_cons, qmi_decode.opt_flag]
      rw [if_neg hne]
      rfl

/-- A TLV of a group, from its table entry on. -/
theorem tlv_group (out : ℕ) (hgs : CountedMessage gs) (hg : g ∈ gs) (htype : g.type = buf st.buf_src) :
    ∃ rest, qmi_decode.tlv buf out (resolve qmi_decode.table (messageTable gs)) st
      = Traced.read buf st.buf_src TLV_SIZE >>= fun _ =>
        qmi_decode.body buf out 1 ((g.elems ++ rest).map fun e => (e, qmi_decode e.ei_array))
          ({ st with tlv_len := declaredLen buf st.buf_src }.update TLV_SIZE) >>= fun r => pure r.2 := by
  rcases find_group hgs.shaped hgs.types (buf st.buf_src) with
    ⟨g', hg', htype', rest, -, hfind⟩ | ⟨hno, -⟩
  swap
  · exact absurd htype (hno g hg)
  -- types are distinct, so the lookup stops at this group
  obtain rfl : g' = g := List.inj_on_of_nodup_map hgs.types hg' hg (htype'.trans htype.symm)
  refine ⟨rest, ?_⟩
  have htlv : (bytesAt buf st.buf_src TLV_SIZE).getD 0 0 = buf st.buf_src := rfl
  have hlen : leNat ((bytesAt buf st.buf_src TLV_SIZE).drop 1) = declaredLen buf st.buf_src := rfl
  have hfind' := hfind Dec fun e => qmi_decode e.ei_array
  unfold qmi_decode.tlv qmi_decode.header
  rw [resolve_decode, bind_assoc, Traced.bind_of_ok (Traced.read_result _ _ _),
    Traced.bind_of_ok (Traced.read_result _ _ _), pure_bind]
  simp only [htlv, hlen, hfind']

/-- The count step of a group that has one. -/
theorem data_len_group (buf : Mem) (out : ℕ) (st : DecState) (hg : g.Shaped) (hl : l ∈ g.len)
    (rest : List ElemInfo) :
    (qmi_decode.data_len buf out ({ st with tlv_len := declaredLen buf st.buf_src }.update TLV_SIZE)
        ((g.len.toList ++ g.elem :: rest).map fun e => (e, qmi_decode e.ei_array))).stores
      = [⟨out + l.offset, leBytes 4 (st.behindCount buf l).data_len_value⟩] ∧
    (qmi_decode.data_len buf out ({ st with tlv_len := declaredLen buf st.buf_src }.update TLV_SIZE)
        ((g.len.toList ++ g.elem :: rest).map fun e => (e, qmi_decode e.ei_array))).result
      = .ok ((g.elem :: rest).map fun e => (e, qmi_decode e.ei_array), st.behindCount buf l) := by
  have hlist : g.len.toList = [l] := by rw [hl, Option.toList_some]
  rw [hlist, List.singleton_append, List.map_cons, qmi_decode.data_len, if_pos (hg.len l hl).1]
  exact ⟨rfl, rfl⟩

/-- What a TLV with a count stores behind its flag, and one thing it is refused for. -/
theorem tlv_counted (out : ℕ) (hgs : CountedMessage gs) (hg : g ∈ gs) (htype : g.type = buf st.buf_src)
    (hl : l ∈ g.len) :
    (qmi_decode.tlv buf out (resolve qmi_decode.table (messageTable gs))
        st).stores[g.flag.toList.length]?
      = some ⟨out + l.offset, leBytes 4 (st.behindCount buf l).data_len_value⟩ ∧
    ∀ st', (qmi_decode.tlv buf out (resolve qmi_decode.table (messageTable gs)) st).result = .ok st' →
      (st.behindCount buf l).data_len_value ≤ g.elem.elem_len := by
  obtain ⟨rest, htlv⟩ := tlv_group out hgs hg htype
  have hcounted := hgs.groups g hg
  have hflag := opt_flag_group out hcounted.shaped rest
  obtain ⟨hstores, hresult⟩ :=
    data_len_group buf out st hcounted.shaped hl rest
  have harray : g.elem.array_type = .varLenArray :=
    hcounted.array (Option.isSome_iff_exists.mpr ⟨l, hl⟩)
  -- header, flag and count succeed in this order, and then the element can fail
  rw [htlv, Traced.bind_of_ok (Traced.read_result _ _ _)]
  unfold qmi_decode.body
  rw [bind_assoc, Traced.bind_of_ok (congrArg Traced.result hflag), hflag, bind_assoc,
    Traced.bind_of_ok hresult, hstores]
  constructor
  · simp only [Traced.read_stores, List.nil_append, List.singleton_append]
    rw [List.getElem?_append_right (by simp)]
    simp
  · intro st' hok
    simp only [List.map_cons] at hok
    rw [Traced.bind_result_ok] at hok
    obtain ⟨r, hr, -⟩ := hok
    rw [Traced.bind_result_ok] at hr
    obtain ⟨n, hn, -⟩ := hr
    -- the test of `elem_len`, before any element
    rw [qmi_decode.count, harray] at hn
    simp only at hn
    split at hn
    · cases hn
    · rename_i hle
      exact Nat.not_lt.mp hle

/-- The structures that are decoded are those of the span. -/
theorem elemsDecoded_struct {e : ElemInfo} (he : e.data_type = .struct) (n : ℕ) :
    elemsDecoded buf out e st = .ok n ↔ ∃ bytes,
      span.structs (fun p len => span.table (spans e.ei_array) buf p len 2) st.buf_src st.tlv_len
        st.data_len_value (0, 0) = some (n, bytes) := by
  -- the decoder for structures fails and stops where the span does
  have hloop := struct_loop_span buf (table_span (paired_spans e.ei_array)) (Nat.le_refl 2)
    e.elem_size st.tlv_len st.buf_src st.data_len_value (out + e.offset) 0 0
  have hdec : qmi_decode e.ei_array = qmi_decode.table (resolve qmi_decode.table e.ei_array) := rfl
  rw [Nat.add_zero, ← hdec] at hloop
  unfold elemsDecoded
  rw [he]
  simp only
  cases hspan : span.structs (fun p len => span.table (spans e.ei_array) buf p len 2) st.buf_src
    st.tlv_len st.data_len_value (0, 0) with
  | none =>
    rw [hspan] at hloop
    obtain ⟨f, hf⟩ := hloop
    rw [hf]
    refine iff_of_false (fun h => by cases h) ?_
    rintro ⟨bytes, h⟩
    cases h
  | some r =>
    rw [hspan] at hloop
    obtain ⟨a, ha, rfl, -⟩ := hloop
    rw [ha]
    constructor
    · intro h
      exact ⟨a.2, by rw [← Except.ok.inj h]⟩
    · rintro ⟨bytes, h⟩
      cases h
      rfl

/-- A TLV that is accepted is decoded with its own count exactly if that count fits. -/
theorem fromWire_iff (hgs : CountedMessage gs) (hg : g ∈ gs) (htype : g.type = buf st.buf_src)
    (hl : l ∈ g.len) {st' : DecState}
    (hok : (qmi_decode.tlv buf out (resolve qmi_decode.table (messageTable gs)) st).result = .ok st') :
    FromWire gs buf out g l st ↔ CountFits buf st.buf_src st.data_len_value g.elem l := by
  obtain ⟨hstored, hle⟩ := tlv_counted out hgs hg htype hl
  have hsmall := lt_of_le_of_lt (hle st' hok) (hgs.groups g hg).small
  have hlen : (bytesAt buf (st.buf_src + TLV_SIZE) (data_len_sz l.elem_size)).length
      = data_len_sz l.elem_size := bytesAt_length _ _ _
  have hpatch : (st.behindCount buf l).data_len_value = wirePrefix buf st.buf_src l ↔
      st.data_len_value < 256 ^ data_len_sz l.elem_size := by
    have hiff := patchLow_eq_iff st.data_len_value
      (bytesAt buf (st.buf_src + TLV_SIZE) (data_len_sz l.elem_size))
    rwa [hlen] at hiff
  -- bytes that were kept only add to the count, so both sides of `leBytes_inj` fit into four bytes
  have hprefix : wirePrefix buf st.buf_src l ≤ (st.behindCount buf l).data_len_value :=
    Nat.le_add_right _ _
  constructor
  · rintro ⟨hfirst, hcount⟩
    rw [hstored, Option.some.injEq, Store.mk.injEq] at hfirst
    have heq : (st.behindCount buf l).data_len_value = wirePrefix buf st.buf_src l :=
      leBytes_inj hsmall (lt_of_le_of_lt hprefix hsmall) hfirst.2
    refine ⟨hpatch.mp heq, fun hstruct => ?_⟩
    -- with the right count, what is decoded is the span of so many structures
    have hdecoded := hcount (by rw [hstruct]; decide)
    rw [elemsDecoded_struct hstruct, heq] at hdecoded
    exact hdecoded
  · rintro ⟨hfits, hstructs⟩
    have heq := hpatch.mpr hfits
    refine ⟨by rw [hstored, heq], fun hstring => ?_⟩
    by_cases hstruct : g.elem.data_type = .struct
    · rw [elemsDecoded_struct hstruct, heq]
      exact hstructs hstruct
    · unfold elemsDecoded
      split
      · rename_i he
        exact absurd he hstruct
      · rw [heq]

/-- What a TLV leaves behind, if its count fits. -/
theorem carried_eq (hgs : CountedMessage gs) {pos v : ℕ} {r : ℕ × ℕ}
    (hr : tlvSpan (spans (messageTable gs)) buf pos v = some r)
    (hfits : ∀ g ∈ gs, g.type = buf pos → ∀ l ∈ g.len, CountFits buf pos v g.elem l) :
    r.2 = carried gs buf pos v := by
  rw [tlvSpan, spans, resolve_eq_map] at hr
  -- a known TLV or an unknown one, which is skipped
  rcases find_group hgs.shaped hgs.types (buf pos) with ⟨g, hg, htype, rest, -, hfind⟩ | ⟨hno, hfind⟩
  swap
  · have hnone : (gs.find? fun g => g.type = buf pos) = none :=
      List.find?_eq_none.mpr fun g hg => by simpa using hno g hg
    rw [hfind] at hr
    simp only at hr
    rw [carried, hnone]
    split at hr
    · cases hr
    · cases hr
      rfl
  have hshaped := (hgs.groups g hg).shaped
  have hcarried : (gs.find? fun g' => g'.type = buf pos) = some g := by
    rw [← htype]
    exact find_type hgs.types hg
  rw [hfind] at hr
  simp only [span.body, group_flag hshaped] at hr
  rw [carried, hcarried, Option.elim_some, Group.leaves]
  cases hlen : g.len with
  | none =>
    simp only [hlen, Option.toList_none, List.nil_append, List.map_cons, span.len, if_neg hshaped.elem.2,
      span.counted, Option.bind_eq_some_iff] at hr
    obtain ⟨b, ⟨n, hn, bytes, -, hb⟩, hr⟩ := hr
    cases hb
    cases hr
    unfold span.count at hn
    cases harray : g.elem.array_type with
    | noArray =>
      rw [harray] at hn
      cases hn
      rfl
    | staticArray =>
      rw [harray] at hn
      cases hn
      rfl
    | varLenArray =>
      rw [harray] at hn
      simp only at hn
      split at hn
      · cases hn
      · cases hn
        rfl
  | some l =>
    have harray := (hgs.groups g hg).array (Option.isSome_iff_exists.mpr ⟨l, hlen⟩)
    have hfit := (hfits g hg htype l hlen).1
    simp only [hlen, Option.toList_some, List.singleton_append, List.map_cons, span.len,
      if_pos (hshaped.len l hlen).1, span.counted, span.count, harray, Option.bind_eq_some_iff] at hr
    obtain ⟨b, ⟨n, hn, bytes, -, hb⟩, hr⟩ := hr
    cases hb
    cases hr
    rw [harray]
    split at hn
    · cases hn
    · cases hn
      apply patchLow_of_lt
      rw [bytesAt_length]
      exact hfit

/-! ## The message

The loop is an induction over the TLVs, with the value that is carried from one to the next as the
state. The messages behind the theorem show that both sides of the condition occur. -/

theorem qmi_decode_one (ei_array : List ElemInfo) (buf : Mem) (out_c_struct in_buf in_buf_len : ℕ) :
    qmi_decode ei_array buf out_c_struct in_buf in_buf_len 1
      = qmi_decode.tlv_loop buf out_c_struct in_buf_len (resolve qmi_decode.table ei_array) in_buf_len
        (.init in_buf) := rfl

/-- The loop, from a TLV on. -/
theorem visits_fromWire_iff (hgs : CountedMessage gs) (in_buf in_buf_len n : ℕ) (st : DecState)
    (hst : st.buf_src = in_buf + st.decoded_bytes) {m : ℕ}
    (hok : (qmi_decode.tlv_loop buf out in_buf_len (resolve qmi_decode.table (messageTable gs)) n
      st).result = .ok m) :
    (∀ st' ∈ tlvVisits buf out in_buf_len (resolve qmi_decode.table (messageTable gs)) n st,
      ∀ g ∈ gs, g.type = buf st'.buf_src → ∀ l ∈ g.len, FromWire gs buf out g l st') ↔
      CountsFit gs buf (in_buf + in_buf_len) n st.buf_src st.data_len_value := by
  induction n generalizing st with
  | zero => exact iff_of_true (fun st' h => absurd h List.not_mem_nil) trivial
  | succ n ih =>
    rw [qmi_decode.tlv_loop] at hok
    rw [tlvVisits, CountsFit]
    by_cases hlt : st.decoded_bytes < in_buf_len
    swap
    · rw [if_neg hlt]
      exact iff_of_true (fun st' h => absurd h List.not_mem_nil) fun h => by omega
    rw [if_pos hlt, Traced.bind_result_ok] at hok
    obtain ⟨st1, htlv, hok⟩ := hok
    -- the next TLV starts behind the span of this one
    obtain ⟨r, hspan, hv, hsrc, hdec, -⟩ :=
      (tlv_span buf out (paired_spans (messageTable gs)) st).of_ok htlv
    have hnext := ih st1 (by omega) hok
    have hpos : st.buf_src < in_buf + in_buf_len := by omega
    have hhere : ∀ g ∈ gs, g.type = buf st.buf_src → ∀ l ∈ g.len,
        (FromWire gs buf out g l st ↔ CountFits buf st.buf_src st.data_len_value g.elem l) :=
      fun g hg htype l hl => fromWire_iff hgs hg htype hl htlv
    rw [hsrc, hv] at hnext
    rw [if_pos hlt, htlv]
    simp only [List.forall_mem_cons]
    constructor
    · rintro ⟨hfirst, hrest⟩ -
      have hfits : ∀ g ∈ gs, g.type = buf st.buf_src → ∀ l ∈ g.len,
          CountFits buf st.buf_src st.data_len_value g.elem l :=
        fun g hg htype l hl => (hhere g hg htype l hl).mp (hfirst g hg htype l hl)
      refine ⟨hfits, fun r' hr' => ?_⟩
      rw [hspan] at hr'
      cases hr'
      -- `carried` assumes that the counts up to here fit, which the first TLV has just shown
      rw [← carried_eq hgs hspan hfits]
      exact hnext.mp hrest
    · intro h
      obtain ⟨hfits, hrest⟩ := h hpos
      refine ⟨fun g hg htype l hl => (hhere g hg htype l hl).mpr (hfits g hg htype l hl), ?_⟩
      apply hnext.mpr
      rw [carried_eq hgs hspan hfits]
      exact hrest r hspan

end Tlv

/-- An array of bytes with a count of so many bytes in front. -/
def byteArray (size : ℕ) (type : UInt8) (offset : ℕ) : Group where
  flag := none
  len := some ⟨.dataLen, 1, size, .noArray, type, offset, []⟩
  elem := ⟨.unsigned1Byte, 300, 1, .varLenArray, type, offset + 4, []⟩

/-- Two arrays of bytes, the first with a count of two bytes. -/
def twoArrays : List Group := [byteArray 2 1 0, byteArray 1 2 304]

theorem twoArrays_counted : CountedMessage twoArrays := by
  refine ⟨?_, by decide⟩
  intro g hg
  simp only [twoArrays, List.mem_cons, List.not_mem_nil, or_false] at hg
  rcases hg with rfl | rfl
  · refine ⟨⟨nofun, ?_, by decide⟩, ?_, fun _ => rfl, by decide⟩
    · rintro l ⟨⟩
      decide
    · rintro l ⟨⟩
      decide
  · refine ⟨⟨nofun, ?_, by decide⟩, ?_, fun _ => rfl, by decide⟩
    · rintro l ⟨⟩
      decide
    · rintro l ⟨⟩
      decide

/-- A message of TLVs at the start of memory. -/
def messageOf (ts : List Tlv) : Mem := writeAt (fun _ => 0) 0 (wireOf ts)

/-- One element in each array. -/
def oneEach : List Tlv := [⟨1, [1, 0, 7], by decide⟩, ⟨2, [1, 9], by decide⟩]

/-- Bytes that are repeated, behind some others, in a TLV. -/
theorem repeated_fits (bytes : List UInt8) (n : ℕ) (b : UInt8) (h : bytes.length + n < 2 ^ 16) :
    (bytes ++ List.replicate n b).length < 2 ^ 16 := by
  rw [List.length_append, List.length_replicate]
  exact h

theorem no_elements_fits : [(0 : UInt8)].length < 2 ^ 16 := by decide

/-- 256 elements in the first array and none in the second, and then a TLV that is not known. -/
def manyAndNone : List Tlv :=
  [⟨1, [0, 1] ++ List.replicate 256 7, repeated_fits [0, 1] 256 7 (by decide)⟩,
    ⟨2, [0], no_elements_fits⟩,
    ⟨32, List.replicate 253 9, repeated_fits [] 253 9 (by decide)⟩]

theorem oneEach_accepted :
    (qmi_decode (messageTable twoArrays) (messageOf oneEach) 0 0 11 1).result = .ok 11 := rfl

/-- A small value is covered by either count. -/
theorem twoArrays_fit (buf : Mem) (pos : ℕ) {v : ℕ} (hv : v < 256) :
    ∀ g ∈ twoArrays, g.type = buf pos → ∀ l ∈ g.len, CountFits buf pos v g.elem l := by
  intro g hg _ l _
  have helem : g.elem.data_type ≠ .struct := by
    simp only [twoArrays, List.mem_cons, List.not_mem_nil, or_false] at hg
    rcases hg with rfl | rfl <;> decide
  refine ⟨lt_of_lt_of_le hv ?_, fun h => absurd h helem⟩
  exact Nat.le_self_pow (Nat.ne_of_gt (data_len_sz_pos _)) 256

/-- The strings of a request, and what is optional in it, are the same in two structs. -/
structure SameRequest (ei : List ElemInfo) (src : Mem) (base : ℕ) (dst : Mem) (out : ℕ) : Prop where
  strings : ∀ e ∈ ei, e.data_type = .string →
    Holds dst (out + e.offset) (bytesAt src (base + e.offset) (strlen src (base + e.offset)) ++ [0])
  flags : ∀ f ∈ ei, f.data_type = .optFlag →
    (dst (out + f.offset) ≠ 0 ↔ src (base + f.offset) ≠ 0)
  optional : ∀ f ∈ ei, f.data_type = .optFlag → src (base + f.offset) ≠ 0 →
    ∀ e ∈ ei, e.tlv_type = f.tlv_type → e.data_type.isBasic →
      bytesAt dst (out + e.offset) (e.elem_len * e.elem_size)
        = bytesAt src (base + e.offset) (e.elem_len * e.elem_size)

/-- Into a packet that is large enough a request is encoded, and it is decoded to what it was. -/
def CanBeSent (m : Message) (type msg_id txn_id : ℕ) (src : Mem) (base : ℕ) : Prop :=
  ∃ size, ∀ data_len ≥ size, ∃ n,
    (qmi_encode_message data_len type msg_id txn_id (some (src, base)) m.ei).result = .ok n ∧
    ∀ out, (∃ rc, (qmi_decode_message (applyStores (fun _ => 0)
        (qmi_encode_message data_len type msg_id txn_id (some (src, base)) m.ei).stores)
        n type msg_id out m.ei).2.result = .ok rc) ∧
      SameRequest m.ei src base (applyStores (fun _ => 0) (qmi_decode_message
        (applyStores (fun _ => 0)
          (qmi_encode_message data_len type msg_id txn_id (some (src, base)) m.ei).stores)
        n type msg_id out m.ei).2.stores) out

/-- The requests that hold strings. -/
def stringRequests : List Message :=
  [.rmtfs_open_req, .servreg_loc_get_domain_list_req, .servreg_loc_pfr_req]

/-- They start with a string that has no count in front. -/
theorem stringRequests_ei {m : Message} (hm : m ∈ stringRequests) :
    ∃ e rest, m.ei = e :: rest ∧ e.array_type = .varLenArray := by
  simp only [stringRequests, List.mem_cons, List.not_mem_nil, or_false] at hm
  rcases hm with rfl | rfl | rfl
  · exact ⟨_, _, rfl, rfl⟩
  · exact ⟨_, _, rfl, rfl⟩
  · exact ⟨_, _, rfl, rfl⟩

/-- A table that starts with an array of variable length is not encoded: the count it meets is 0. -/
theorem qmi_encode_no_count {e : ElemInfo} (he : e.array_type = .varLenArray) (rest : List ElemInfo)
    (src : Mem) (base out_buf out_buf_len enc_level : ℕ) :
    (qmi_encode (e :: rest) src base out_buf out_buf_len enc_level).result = .error (.errno EINVAL) := by
  rw [qmi_encode_eq, List.map_cons, qmi_encode.table, qmi_encode.loop, qmi_encode.data_len, he]
  simp only [EncState.init, le_refl, true_or, if_true]
  rfl

theorem not_canBeSent {m : Message} (hm : m ∈ stringRequests) (type msg_id txn_id : ℕ) (src : Mem)
    (base : ℕ) : ¬ CanBeSent m type msg_id txn_id src base := by
  rintro ⟨size, h⟩
  obtain ⟨n, hn, -⟩ := h (size + QMI_HEADER_SIZE) (Nat.le_add_right _ _)
  obtain ⟨e, rest, hei, harray⟩ := stringRequests_ei hm
  have hfail := qmi_encode_no_count harray rest src base QMI_HEADER_SIZE size 1
  have hlarge : ¬ size + QMI_HEADER_SIZE < QMI_HEADER_SIZE := by omega
  rw [hei, qmi_encode_message] at hn
  simp only [if_neg hlarge, Nat.add_sub_cancel] at hn
  -- the size of the packet is not what it fails for
  rw [Traced.bind_of_error hfail] at hn
  cases hn

/-- **No string request can be sent**, whatever it holds. -/
theorem string_requests_not_sent :
    ∀ m ∈ stringRequests, ∀ (type msg_id txn_id : ℕ) (src : Mem) (base : ℕ),
      ¬ CanBeSent m type msg_id txn_id src base :=
  fun _ hm type msg_id txn_id src base => not_canBeSent hm type msg_id txn_id src base

/-- The request for a list of domains, with all its bytes 0. -/
theorem string_requests_not_sent_domains :
    .servreg_loc_get_domain_list_req ∈ stringRequests ∧
      ¬ CanBeSent .servreg_loc_get_domain_list_req 0 33 1 (fun _ => 0) 0 := by
  have hm : .servreg_loc_get_domain_list_req ∈ stringRequests := by decide
  exact ⟨hm, string_requests_not_sent _ hm 0 33 1 (fun _ => 0) 0⟩

/-- An open request for the path `a`. -/
def openA : Mem := fun i => if i = 4 then 97 else 0

/-- Its string ends in its array, and it cannot be sent. -/
theorem open_request_not_sent :
    (∀ e ∈ rmtfs_open_req_ei, e.data_type = .string → strlen openA (0 + e.offset) < 256) ∧
      ¬ CanBeSent .rmtfs_open_req 0 1 7 openA 0 := by
  refine ⟨?_, not_canBeSent List.mem_cons_self 0 1 7 openA 0⟩
  intro e he _
  rw [List.mem_singleton.mp he]
  have hend : ∃ i < 256, openA (4 + i) = 0 := ⟨1, by decide, rfl⟩
  exact (strlen_spec (by decide) hend).1

end Dragonboard.Qmi
