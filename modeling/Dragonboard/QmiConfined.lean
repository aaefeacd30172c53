/-
Which payloads make the decoder leave its fields.

For the messages of `qmi_rmtfs.c` and `servreg_loc.c` the tables leave one way out. Their arrays
are counted by one byte and hold what the count can say, and the domain names inside a
`domain_list` have a length of one byte in a field of 256. But a path, a service name or a
reason is a string of the message itself, with the length of its TLV, and 256 of its characters
are accepted into `char [256]`: the terminator goes into the byte behind, which in
`struct rmtfs_open_req` and `struct servreg_loc_pfr_req` is behind the struct.

`Confined` is the property, along the loop of `qmi_decode`. `Meets` follows the TLVs of a
payload as `Refused` does; the two are connected in `confined_iff`.
-/
import Mathlib.Data.List.Nodup
import Dragonboard.QmiFields

set_option autoImplicit false

namespace Dragonboard.Qmi

open Dragonboard.Memory

/-! ## The property

A table describes fields of a C struct, and each type of TLV has its own. Decoding is confined if
what a TLV stores stays in the fields of its type. The offsets are those of the tables, so what is
a field follows `qmi_element_info` and not the struct declaration; that the two agree on size is
`ei_fields`. -/

/-- The fields a table describes for a type of TLV: the flag, the field of the count, and the
`elem_len * elem_size` bytes of the element. -/
def describedFields (width : ElemInfo → ℕ) (ei_array : List ElemInfo) (base : ℕ) (t : UInt8) :
    List Region :=
  (ei_array.filter fun e => e.tlv_type = t).map fun e =>
    (base + e.offset,
      match e.data_type with
      | .optFlag => 1
      | .dataLen => width e
      | _ => e.elem_len * e.elem_size)

/-- The address lies in the fields of a type, and in no field of another type. -/
def Owns (fields : UInt8 → List Region) (t : UInt8) (a : ℕ) : Prop :=
  Within (fields t) a ∧ ∀ t', t' ≠ t → ¬ Within (fields t') a

/-- Along the loop of `qmi_decode` at level 1, every TLV is written into the fields of its type
and leaves all others alone. -/
def Confined (fields : UInt8 → List Region) (buf : Mem) (out_c_struct in_buf_len : ℕ)
    (tab : List (ElemInfo × Dec)) : ℕ → DecState → Prop
  | 0, _ => True
  | n + 1, st =>
    st.decoded_bytes < in_buf_len →
      Stays (Owns fields (buf st.buf_src)) (qmi_decode.tlv buf out_c_struct tab st) ∧
      ∀ st', (qmi_decode.tlv buf out_c_struct tab st).result = .ok st' →
        Confined fields buf out_c_struct in_buf_len tab n st'

/-- Some TLV of the message satisfies `P`. The TLVs follow one another by what they take, from a
position and a count on, up to `limit` and up to one that is refused; `n` bounds their number. -/
def Meets (P : ℕ → Prop) (tab : List (ElemInfo × Span)) (buf : Mem) (limit : ℕ) :
    ℕ → ℕ → ℕ → Prop
  | 0, _, _ => False
  | n + 1, pos, v =>
    pos < limit ∧
      (P pos ∨
        match tlvSpan tab buf pos v with
        | none => False
        | some r => Meets P tab buf limit n (pos + TLV_SIZE + r.1) r.2)

/-- The TLV at a position is a string as long as its field. -/
def FullString (ei_array : List ElemInfo) (buf : Mem) (pos : ℕ) : Prop :=
  ∃ e ∈ ei_array, e.tlv_type = buf pos ∧ e.data_type = .string ∧
    declaredLen buf pos = e.elem_len

instance (ei_array : List ElemInfo) (buf : Mem) (pos : ℕ) :
    Decidable (FullString ei_array buf pos) :=
  inferInstanceAs (Decidable (∃ e ∈ ei_array, e.tlv_type = buf pos ∧ e.data_type = .string ∧
    declaredLen buf pos = e.elem_len))

/-! ## The tables

The tables of the two services are fixed data, and everything the argument needs of them is
decided by going through them once: what groups they consist of, that a string of a message is no
part of a structure, and that the fields of different types are apart. -/

/-- The groups of a table; the flag and the count read so far are carried along. -/
def groupsOf.loop (flag len : Option ElemInfo) : List ElemInfo → List Group
  | [] => []
  | e :: rest =>
    match e.data_type with
    | .optFlag => groupsOf.loop (some e) none rest
    | .dataLen => groupsOf.loop flag (some e) rest
    | _ => ⟨flag, len, e⟩ :: groupsOf.loop none none rest

/-- The groups of a table. -/
def groupsOf (ei_array : List ElemInfo) : List Group := groupsOf.loop none none ei_array

namespace Message

/-- Every table is made of groups. -/
theorem ei_eq (m : Message) : m.ei = messageTable (groupsOf m.ei) := by
  cases m <;> rfl

/-- What the tables say about flags, counts and arrays. -/
theorem groups_shape (m : Message) : ∀ g ∈ groupsOf m.ei,
    g.type ≠ 0 ∧
    (∀ f ∈ g.flag, f.data_type = .optFlag ∧ f.tlv_type = g.type) ∧
    (∀ l ∈ g.len, l.data_type = .dataLen ∧ l.tlv_type = g.type ∧ l.elem_size = 1 ∧
      4 ≤ m.width l) ∧
    (g.elem.data_type.isBasic = true ∨ g.elem.data_type = .struct ∨ g.elem.data_type = .string) ∧
    (g.elem.array_type ≠ .noArray →
      g.elem.array_type = .varLenArray ∧ g.elem.data_type = .string ∨ g.elem.elem_len ≤ 255) ∧
    (g.elem.array_type = .varLenArray → g.elem.data_type ≠ .string → g.len.isSome) := by
  cases m <;> decide +kernel

/-- A string of a message is a group of its own, of up to 256 characters. -/
theorem groups_text (m : Message) : ∀ g ∈ groupsOf m.ei, g.elem.data_type = .string →
    g.elem.elem_len = 256 ∧ g.elem.elem_size = 1 ∧ g.flag = none ∧ g.len = none := by
  cases m <;> decide +kernel

/-- The structures inside the messages have no counts and no structures of their own, their
strings have up to 256 characters, and their fields lie in them. -/
theorem groups_nested (m : Message) : ∀ g ∈ groupsOf m.ei, g.elem.data_type = .struct →
    ∀ e ∈ g.elem.ei_array, e.data_type ≠ .struct ∧ e.data_type ≠ .dataLen ∧
      (e.data_type = .string → e.elem_len = 256 ∧ e.elem_size = 1) ∧
      e.offset + (field m.width 0 e).2 ≤ g.elem.elem_size := by
  cases m <;> decide +kernel

/-- The fields lie in the struct, and an element that is no array has an `elem_len` of 1. -/
theorem ei_fields (m : Message) : ∀ e ∈ m.ei,
    e.slots = e.elem_len ∧ e.offset + (field m.width 0 e).2 ≤ sizeof m.cstruct := by
  cases m <;> decide +kernel

/-- Fields of different types do not overlap. -/
theorem ei_disjoint (m : Message) : ∀ e ∈ m.ei, ∀ e' ∈ m.ei, e.tlv_type ≠ e'.tlv_type →
    e.offset + (field m.width 0 e).2 ≤ e'.offset ∨
      e'.offset + (field m.width 0 e').2 ≤ e.offset := by
  cases m <;> decide +kernel

/-- The messages fit for every width that has room for a count. -/
theorem fits_of (m : Message) {w : ElemInfo → ℕ} (hw : ∀ l, 4 ≤ m.width l → 4 ≤ w l) :
    MessageFits w (groupsOf m.ei) := by
  refine ⟨fun g hg => ?_, by cases m <;> decide +kernel⟩
  obtain ⟨h1, h2, h3, h4, h5, h6⟩ := m.groups_shape g hg
  have htext := m.groups_text g hg
  refine ⟨h1, h2, fun l hl => ?_, h4, h5, fun _ h => ?_, h6, fun h => (htext h).2.1, fun h => ?_⟩
  · obtain ⟨ht, htype, hsize, hwide⟩ := h3 l hl
    exact ⟨ht, htype, hsize, hw l hwide⟩
  · have := (htext h).1
    omega
  · rw [nestedFits_iff]
    intro e he
    obtain ⟨hs, hl, ht, hsize⟩ := m.groups_nested g hg h e he
    -- without counts the width does not matter
    have hfield : field w 0 e = field m.width 0 e := by
      unfold field
      split
      · rfl
      · contradiction
      · rfl
    rw [← hfield] at hsize
    exact ⟨⟨fun h => absurd h hl, fun h => (ht h).2⟩, hsize, fun h => absurd h hs⟩

theorem fits (m : Message) : MessageFits m.width (groupsOf m.ei) := m.fits_of fun _ => id

end Message

/-! ## Strings that are never full

`qmi_decode_string_elem` stores the characters and then a terminator behind them. A string that
fills its array has its terminator stored behind the array. For strings inside structures the
length on the wire has one byte, and their arrays have 256, so it is only the strings of a message
itself that can be full. -/

theorem structs_noneFull {nested : ℕ → ℕ → Option ℕ} {inner : ℕ → ℕ → List (ElemInfo × ℕ)}
    (h : ∀ p len, NoneFull (inner p len)) (buf_src tlv_len n bytes : ℕ) :
    NoneFull (strings.structs nested inner buf_src tlv_len n bytes) := by
  induction n generalizing bytes with
  | zero => simp [strings.structs, NoneFull]
  | succ n ih =>
    rw [strings.structs]
    split
    · rw [noneFull_append]
      refine ⟨h _ _, ?_⟩
      cases nested (buf_src + bytes) (tlv_len - bytes) with
      | none => simp [NoneFull]
      | some rc => exact ih _
    · simp [NoneFull]

section Nested

variable {buf : Mem} {level : ℕ} {rs : List (ElemInfo × Strings)}

/-- A length of one byte does not fill a field of 256 characters. -/
theorem elem_noneFull (hl : 2 ≤ level) {r : ElemInfo × Strings} (hs : r.1.data_type ≠ .struct)
    (ht : r.1.data_type = .string → r.1.elem_len = 256) (p tlv_len n : ℕ) :
    NoneFull (strings.elem buf level r p tlv_len n) := by
  unfold strings.elem
  cases h : r.1.data_type with
  | struct => exact absurd h hs
  | string =>
    have hlt := leNat_lt (bytesAt buf p (string_len_sz r.1.elem_len))
    have hsz : string_len_sz r.1.elem_len = 1 := if_pos (by rw [ht h])
    rw [bytesAt_length, hsz, pow_one] at hlt
    simp only [NoneFull, List.mem_singleton, forall_eq, if_neg (show level ≠ 1 by omega), hsz]
    rw [ht h]
    omega
  | _ => simp [NoneFull]

theorem elems_noneFull (hl : 2 ≤ level) (hs : ∀ r ∈ rs, r.1.data_type ≠ .struct)
    (ht : ∀ r ∈ rs, r.1.data_type = .string → r.1.elem_len = 256) (in_buf in_buf_len n : ℕ)
    (c : ℕ × ℕ) : NoneFull (strings.elems buf in_buf in_buf_len level n rs c) := by
  induction n generalizing rs c with
  | zero => simp [strings.elems, NoneFull]
  | succ n ih =>
    rw [strings.elems]
    split
    · rw [noneFull_append]
      have hsuf := (span_len_suffix buf (in_buf + c.1) c.2 (span.flag rs)).trans
        (span_flag_suffix rs)
      constructor
      · unfold strings.body strings.counted
        generalize span.len buf (in_buf + c.1) c.2 (span.flag rs) = l at hsuf ⊢
        obtain ⟨sz, v, rs'⟩ := l
        cases rs' with
        | nil => simp [NoneFull]
        | cons r rs' =>
          have hr : r ∈ rs := hsuf.subset List.mem_cons_self
          simp only
          cases span.count r.1 v with
          | none => simp [NoneFull]
          | some k => exact elem_noneFull hl (hs r hr) (ht r hr) _ _ _
      · cases span.body buf level (spans (rs.map Prod.fst)) (in_buf + c.1) (in_buf_len - c.1)
          c.2 with
        | none => simp [NoneFull]
        | some b =>
          have htail := (List.tail_suffix _).trans hsuf
          exact ih (fun r hr => hs r (htail.subset hr)) (fun r hr => ht r (htail.subset hr)) _
    · simp [NoneFull]

end Nested

section Payload

variable (m : Message) {buf : Mem} (out : ℕ)

/-- In a TLV of the two services only the string of a group of its own can be full. -/
theorem tlv_noneFull {pos v : ℕ} (hv : v ≤ 255) (hfull : ¬ FullString m.ei buf pos) :
    NoneFull (tlvStrings m.ei buf pos v) := by
  rw [tlvStrings, strings_eq, m.ei_eq]
  rcases find_group m.fits.shaped m.fits.types (buf pos) with ⟨g, hg, htype, rest, -, hfind⟩ | ⟨-, hfind⟩
  swap
  · rw [hfind]
    simp [NoneFull]
  rw [hfind, Option.elim_some, strings.body, group_flag (m.fits.groups g hg).shaped,
    group_len (m.fits.groups g hg) _ _ _ hv]
  simp only [strings.counted, List.map_cons]
  cases span.count g.elem (if g.len.isSome then (buf (pos + TLV_SIZE)).toNat else v) with
  | none => simp [NoneFull]
  | some n =>
    simp only [Option.elim_some, strings.elem]
    cases h : g.elem.data_type with
    | struct =>
      -- a nested string has its length in one byte, less than its 256 characters
      have hnested := m.groups_nested g hg h
      refine structs_noneFull (fun p len => ?_) _ _ _ _
      rw [strings.table, strings_eq]
      refine elems_noneFull (le_refl 2) ?_ ?_ _ _ _ _
      · rw [List.forall_mem_map]
        exact fun e he => (hnested e he).1
      · rw [List.forall_mem_map]
        exact fun e he ht => ((hnested e he).2.2.1 ht).1
    | string =>
      have hlen := (m.groups_text g hg h).2.2.2
      simp only [hlen, Option.toList_none, List.length_nil, if_true, NoneFull,
        List.mem_singleton, forall_eq]
      intro heq
      refine hfull ⟨g.elem, ?_, htype, h, heq⟩
      rw [m.ei_eq]
      exact List.mem_flatMap.mpr ⟨g, hg, by simp [Group.elems]⟩
    | _ => simp [NoneFull]

/-- A described field is the field of an element. -/
theorem within_described_iff {t : UInt8} {a : ℕ} :
    Within (describedFields m.width m.ei out t) a ↔
      ∃ e ∈ m.ei, e.tlv_type = t ∧ Within [field m.width out e] a := by
  have hfield : ∀ e ∈ m.ei, field m.width out e = (out + e.offset,
      match e.data_type with
      | .optFlag => 1
      | .dataLen => m.width e
      | _ => e.elem_len * e.elem_size) := by
    intro e he
    have hslots := (m.ei_fields e he).1
    exact congrArg (fun n => (out + e.offset, match e.data_type with
      | .optFlag => 1
      | .dataLen => m.width e
      | _ => n * e.elem_size)) hslots
  constructor
  · rintro ⟨r, hr, hra⟩
    obtain ⟨e, he, rfl⟩ := List.mem_map.mp hr
    obtain ⟨he, ht⟩ := List.mem_filter.mp he
    refine ⟨e, he, by simpa using ht, _, List.mem_singleton.mpr rfl, ?_⟩
    rw [hfield e he]
    exact hra
  · rintro ⟨e, he, ht, r, hr, hra⟩
    rw [List.mem_singleton.mp hr, hfield e he] at hra
    exact ⟨_, List.mem_map_of_mem (List.mem_filter.mpr ⟨he, by simpa using ht⟩), hra⟩

theorem owns_described {e : ElemInfo} (he : e ∈ m.ei) {a : ℕ}
    (ha : Within [field m.width out e] a) :
    Owns (describedFields m.width m.ei out) e.tlv_type a := by
  refine ⟨(within_described_iff m out).mpr ⟨e, he, rfl, ha⟩, fun t' hne h' => ?_⟩
  obtain ⟨e', he', rfl, r', hr', ha'⟩ := (within_described_iff m out).mp h'
  obtain ⟨r, hr, ha⟩ := ha
  rw [List.mem_singleton.mp hr] at ha
  rw [List.mem_singleton.mp hr'] at ha'
  have hlen : (field m.width out e).2 = (field m.width 0 e).2 := rfl
  have hlen' : (field m.width out e').2 = (field m.width 0 e').2 := rfl
  have hpos : (field m.width out e).1 = out + e.offset := rfl
  have hpos' : (field m.width out e').1 = out + e'.offset := rfl
  have := m.ei_disjoint e he e' he' fun h => hne h.symm
  omega

/-- Without a full string a TLV is written into the fields of its type. -/
theorem tlv_owned {st : DecState} (hv : st.data_len_value ≤ 255)
    (hfull : ¬ FullString m.ei buf st.buf_src) :
    Stays (Owns (describedFields m.width m.ei out) (buf st.buf_src))
      (qmi_decode.tlv buf out (resolve qmi_decode.table m.ei) st) := by
  have hnone := tlv_noneFull m hv hfull
  have hstay : Stays (fun a => ∃ g ∈ groupsOf m.ei, g.type = buf st.buf_src ∧
      Within (fieldsOf m.width out g.elems) a)
      (qmi_decode.tlv buf out (resolve qmi_decode.table m.ei) st) := by
    have := tlv_stays m.fits buf out st
    rw [← m.ei_eq] at this
    exact this hnone
  refine hstay.mono fun a ha => ?_
  obtain ⟨g, hg, htype, r, hr, hra⟩ := ha
  obtain ⟨e, he, rfl⟩ := List.mem_map.mp hr
  rw [← htype, ← (m.fits.groups g hg).tlv_type e he]
  refine owns_described m out ?_ ⟨_, List.mem_singleton.mpr rfl, hra⟩
  rw [m.ei_eq]
  exact List.mem_flatMap.mpr ⟨g, hg, he⟩

/-- The terminator of a full string is stored behind its field. -/
theorem string_full_covers (e : ElemInfo) (dst p : ℕ) :
    Covers (qmi_decode_string_elem e buf dst p e.elem_len 1).stores (dst + e.elem_len) := by
  unfold qmi_decode_string_elem qmi_decode_string_elem.len
  simp only [if_true, pure_bind, gt_iff_lt, lt_irrefl, if_false]
  rw [Traced.bind_of_ok (basic_elem_result _ _ _ _ _),
    Traced.bind_of_ok (Traced.store_result _ _)]
  refine covers_append.mpr (.inr (covers_append.mpr (.inl ?_)))
  rw [Traced.store_stores, covers_singleton]
  simp

theorem covers_bind {α β : Type} {x : Traced α} {f : α → Traced β} {a : α} {b : ℕ}
    (hx : x.result = .ok a) (hf : Covers (f a).stores b) : Covers (x >>= f).stores b := by
  rw [Traced.bind_of_ok hx]
  exact covers_append.mpr (.inr hf)

theorem covers_bind_left {α β : Type} {x : Traced α} (f : α → Traced β) {b : ℕ}
    (hx : Covers x.stores b) : Covers (x >>= f).stores b := by
  cases h : x.result with
  | ok a =>
    rw [Traced.bind_of_ok h]
    exact covers_append.mpr (.inl hx)
  | error e =>
    rw [Traced.bind_of_error h]
    exact hx

/-- A full string is a group of its own, and is decoded up to its terminator. -/
theorem tlv_full_covers {st : DecState} (hv : st.data_len_value ≤ 255)
    (hfull : FullString m.ei buf st.buf_src) :
    ∃ g ∈ groupsOf m.ei, g.type = buf st.buf_src ∧ g.elem.data_type = .string ∧
      Covers (qmi_decode.tlv buf out (resolve qmi_decode.table m.ei) st).stores
        (out + g.elem.offset + g.elem.elem_len) := by
  obtain ⟨e, he, htype, hstring, hlen⟩ := hfull
  rw [m.ei_eq] at he
  obtain ⟨g, hg, heg⟩ := List.mem_flatMap.mp he
  have hfit := m.fits.groups g hg
  obtain rfl : e = g.elem := by
    simp only [Group.elems, List.mem_append, Option.mem_toList, List.mem_singleton] at heg
    rcases heg with (heg | heg) | rfl
    · simp [(hfit.flag e heg).1] at hstring
    · simp [(hfit.len e heg).1] at hstring
    · rfl
  obtain ⟨h256, -, hflag, hnolen⟩ := m.groups_text g hg hstring
  refine ⟨g, hg, htype, hstring, ?_⟩
  have hdec : resolve qmi_decode.table m.ei =
      (messageTable (groupsOf m.ei)).map fun e => (e, qmi_decode e.ei_array) := by
    rw [← m.ei_eq]
    exact resolve_decode _
  rcases find_group m.fits.shaped m.fits.types (buf st.buf_src) with ⟨g', hg', htype', rest, -, hfind⟩ | ⟨hno, -⟩
  swap
  · exact absurd htype (hno g hg)
  obtain rfl : g' = g := List.inj_on_of_nodup_map m.fits.types hg' hg (htype'.trans htype.symm)
  have htlv : (bytesAt buf st.buf_src TLV_SIZE).getD 0 0 = buf st.buf_src := rfl
  have hdecl : leNat ((bytesAt buf st.buf_src TLV_SIZE).drop 1) = g'.elem.elem_len := hlen
  unfold qmi_decode.tlv qmi_decode.header
  rw [bind_assoc]
  refine covers_bind (Traced.read_result _ _ _) ?_
  simp only [pure_bind, htlv, hdecl, hdec, hfind]
  apply covers_bind_left
  -- no flag, no count, and a count left behind is at most 255
  have hcount : ∃ n, (qmi_decode.count g'.elem st.data_len_value).result = .ok n := by
    unfold qmi_decode.count
    cases g'.elem.array_type with
    | noArray => exact ⟨_, rfl⟩
    | staticArray => exact ⟨_, rfl⟩
    | varLenArray =>
      simp only
      rw [if_neg (by omega)]
      exact ⟨_, rfl⟩
  obtain ⟨n, hn⟩ := hcount
  simp only [Group.elems, hflag, hnolen, Option.toList_none, List.nil_append, List.cons_append,
    List.map_cons, qmi_decode.body, qmi_decode.opt_flag, qmi_decode.data_len, hstring,
    reduceCtorEq, if_false, pure_bind]
  refine covers_bind hn ?_
  apply covers_bind_left
  simp only [qmi_decode.elem, hstring]
  exact string_full_covers g'.elem _ _

/-- A full string is not kept inside its fields. -/
theorem tlv_not_owned {st : DecState} (hv : st.data_len_value ≤ 255)
    (hfull : FullString m.ei buf st.buf_src) :
    ¬ Stays (Owns (describedFields m.width m.ei out) (buf st.buf_src))
      (qmi_decode.tlv buf out (resolve qmi_decode.table m.ei) st) := by
  obtain ⟨g, hg, htype, hstring, hcov⟩ := tlv_full_covers m out hv hfull
  intro hstay
  obtain ⟨e, he, het, r, hr, ha⟩ := (within_described_iff m out).mp (hstay _ hcov).1
  rw [m.ei_eq] at he
  obtain ⟨g', hg', heg⟩ := List.mem_flatMap.mp he
  have htype' := (m.fits.groups g' hg').tlv_type e heg
  obtain rfl : g' = g := List.inj_on_of_nodup_map m.fits.types hg' hg
    (htype'.symm.trans (het.trans htype.symm))
  -- the only field of the group ends before the terminator
  obtain ⟨h256, hsize, hflag, hlen⟩ := m.groups_text g' hg' hstring
  simp only [Group.elems, hflag, hlen, Option.toList_none, List.nil_append,
    List.mem_singleton] at heg
  subst heg
  rw [List.mem_singleton.mp hr] at ha
  simp only [field, hstring, ElemInfo.slots, hsize, ne_eq, not_true_eq_false, and_false,
    if_false] at ha
  omega

/-- The loop at level 1 stays inside its fields exactly up to the first full string. -/
theorem confined_loop_iff (buf : Mem) (in_buf in_buf_len n : ℕ) (st : DecState)
    (hv : st.data_len_value ≤ 255) (hst : st.buf_src = in_buf + st.decoded_bytes) :
    Confined (describedFields m.width m.ei out) buf out in_buf_len
        (resolve qmi_decode.table m.ei) n st ↔
      ¬ Meets (FullString m.ei buf) (spans m.ei) buf (in_buf + in_buf_len) n st.buf_src
        st.data_len_value := by
  induction n generalizing st with
  | zero => simp [Confined, Meets]
  | succ n ih =>
    rw [Confined, Meets]
    by_cases hlt : st.decoded_bytes < in_buf_len
    swap
    · have hge : ¬ st.buf_src < in_buf + in_buf_len := by omega
      simp [hlt, hge]
    have hpos : st.buf_src < in_buf + in_buf_len := by omega
    by_cases hfull : FullString m.ei buf st.buf_src
    · -- both sides fail here
      refine ⟨fun h => absurd (h hlt).1 (tlv_not_owned m out hv hfull), fun h => ?_⟩
      exact absurd ⟨hpos, .inl hfull⟩ h
    have howned := tlv_owned m out hv hfull
    have hstep := tlv_span buf out (paired_spans m.ei) st
    cases hspan : tlvSpan (spans m.ei) buf st.buf_src st.data_len_value with
    | none =>
      -- refused: no TLV after it is decoded
      rw [hspan] at hstep
      obtain ⟨f, hf⟩ := hstep
      refine ⟨fun _ h => h.2.elim hfull id, fun _ _ => ⟨howned, fun st' hok => ?_⟩⟩
      rw [hf] at hok
      cases hok
    | some r =>
      rw [hspan] at hstep
      obtain ⟨st', hok, hv', hsrc, hdec, -⟩ := hstep
      have hle : st'.data_len_value ≤ 255 := by
        rw [m.ei_eq] at hspan
        rw [hv']
        exact tlvSpan_count_le m.fits hv hspan
      have hrec := ih st' hle (by omega)
      rw [hsrc, hv'] at hrec
      constructor
      · intro h hm
        exact hrec.mp ((h hlt).2 st' hok) (hm.2.resolve_left hfull)
      · refine fun h _ => ⟨howned, fun st'' hok' => ?_⟩
        rw [hok] at hok'
        cases hok'
        exact hrec.mpr fun hm => h ⟨hpos, .inr hm⟩

/-- A loop that stays inside its fields stays inside the struct. -/
theorem confined_stays {in_buf_len : ℕ} (n : ℕ) (st : DecState)
    (h : Confined (describedFields m.width m.ei out) buf out in_buf_len
      (resolve qmi_decode.table m.ei) n st) :
    Stays (fun a => out ≤ a ∧ a < out + sizeof m.cstruct)
      (qmi_decode.tlv_loop buf out in_buf_len (resolve qmi_decode.table m.ei) n st) := by
  induction n generalizing st with
  | zero => exact .pure _
  | succ n ih =>
    rw [qmi_decode.tlv_loop]
    split
    · obtain ⟨hown, hrest⟩ := h (by assumption)
      refine (hown.mono fun a ha => ?_).bind fun st' hok => ih st' (hrest st' hok)
      obtain ⟨e, he, -, r, hr, ha⟩ := (within_described_iff m out).mp ha.1
      rw [List.mem_singleton.mp hr] at ha
      have hsize := (m.ei_fields e he).2
      have hlen : (field m.width out e).2 = (field m.width 0 e).2 := rfl
      have hpos : (field m.width out e).1 = out + e.offset := rfl
      omega
    · exact .pure _

/-- A full string that the loop comes to is stored with its terminator. -/
theorem meets_covers (buf : Mem) (in_buf in_buf_len n : ℕ) (st : DecState)
    (hv : st.data_len_value ≤ 255) (hst : st.buf_src = in_buf + st.decoded_bytes)
    (h : Meets (FullString m.ei buf) (spans m.ei) buf (in_buf + in_buf_len) n st.buf_src
      st.data_len_value) :
    ∃ g ∈ groupsOf m.ei, g.elem.data_type = .string ∧
      Covers (qmi_decode.tlv_loop buf out in_buf_len (resolve qmi_decode.table m.ei) n st).stores
        (out + g.elem.offset + g.elem.elem_len) := by
  induction n generalizing st with
  | zero => exact absurd h id
  | succ n ih =>
    obtain ⟨hpos, h⟩ := h
    rw [qmi_decode.tlv_loop, if_pos (by omega)]
    -- the full string is this TLV, or one behind it
    by_cases hfull : FullString m.ei buf st.buf_src
    · obtain ⟨g, hg, -, hstring, hcov⟩ := tlv_full_covers m out hv hfull
      exact ⟨g, hg, hstring, covers_bind_left _ hcov⟩
    replace h := h.resolve_left hfull
    have hstep := tlv_span buf out (paired_spans m.ei) st
    cases hspan : tlvSpan (spans m.ei) buf st.buf_src st.data_len_value with
    | none =>
      rw [hspan] at h
      exact absurd h id
    | some r =>
      rw [hspan] at h hstep
      obtain ⟨st', hok, hv', hsrc, hdec, -⟩ := hstep
      have hle : st'.data_len_value ≤ 255 := by
        rw [m.ei_eq] at hspan
        rw [hv']
        exact tlvSpan_count_le m.fits hv hspan
      simp only at h
      rw [← hsrc, ← hv'] at h
      obtain ⟨g, hg, hstring, hcov⟩ := ih st' hle (by omega) h
      exact ⟨g, hg, hstring, covers_bind hok hcov⟩

end Payload

/-- **Decoding stays inside its fields exactly if no string of the payload fills its field.** For
every message of the two services and every payload: `qmi_decode` writes each TLV into the flag,
the count and the element described for its type, and so into no other field and not behind the
struct, if and only if no TLV it comes to is a string with as many characters as its field. -/
theorem qmi_decode_confined_iff (m : Message) (buf : Mem) (out_c_struct in_buf in_buf_len : ℕ) :
    (Confined (describedFields m.width m.ei out_c_struct) buf out_c_struct in_buf_len
        (resolve qmi_decode.table m.ei) in_buf_len (.init in_buf) ∧
      Stays (fun a => out_c_struct ≤ a ∧ a < out_c_struct + sizeof m.cstruct)
        (qmi_decode m.ei buf out_c_struct in_buf in_buf_len 1)) ↔
      ¬ Meets (FullString m.ei buf) (spans m.ei) buf (in_buf + in_buf_len) in_buf_len in_buf 0 := by
  have hiff := confined_loop_iff m out_c_struct buf in_buf in_buf_len in_buf_len
    (.init in_buf) (Nat.zero_le _) rfl
  refine ⟨fun h => hiff.mp h.1, fun h => ?_⟩
  exact ⟨hiff.mpr h, confined_stays m out_c_struct in_buf_len _ (hiff.mpr h)⟩

/-- A TLV of type 1 with 256 characters. -/
def longPath : Mem := fun a => if a = 0 then 1 else if a = 1 then 0 else if a = 2 then 1 else 65

/-- A path of 256 characters is accepted, and its terminator is written one byte behind
`struct rmtfs_open_req`. -/
theorem rmtfs_open_req_overrun :
    ¬ (Confined (describedFields Message.rmtfs_open_req.width Message.rmtfs_open_req.ei 0)
        longPath 0 259 (resolve qmi_decode.table Message.rmtfs_open_req.ei) 259 (.init 0) ∧
      Stays (fun a => 0 ≤ a ∧ a < 0 + sizeof Message.rmtfs_open_req.cstruct)
        (qmi_decode Message.rmtfs_open_req.ei longPath 0 0 259 1)) ∧
      (qmi_decode Message.rmtfs_open_req.ei longPath 0 0 259 1).result = .ok 259 ∧
      ⟨260, [0]⟩ ∈ (qmi_decode Message.rmtfs_open_req.ei longPath 0 0 259 1).stores ∧
      sizeof Message.rmtfs_open_req.cstruct = 260 := by
  have hmem : ⟨260, [0]⟩ ∈ (qmi_decode Message.rmtfs_open_req.ei longPath 0 0 259 1).stores := by
    decide +kernel
  have hsize : sizeof Message.rmtfs_open_req.cstruct = 260 := by decide +kernel
  refine ⟨fun h => ?_, by decide +kernel, hmem, hsize⟩
  have hcov : Covers (qmi_decode Message.rmtfs_open_req.ei longPath 0 0 259 1).stores 260 :=
    ⟨_, hmem, by decide, by decide⟩
  have := (h.2 260 hcov).2
  rw [hsize] at this
  omega

end Dragonboard.Qmi
