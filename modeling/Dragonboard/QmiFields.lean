/-
Where the decoder writes.

An element of a table describes a field of the C struct: the byte of a flag, the count in front
of an array, the elements themselves. While it decodes a TLV the decoder writes into the
fields of the elements of that TLV and nowhere else, whatever the message says, but for one
thing: `qmi_decode_string_elem` accepts a string as long as its field and then puts the
terminator behind it.

`strings` lists the strings the decoder meets, with their lengths, the way `span` lists bytes. If
none is as long as its field, an iteration of `qmi_decode` stays inside the fields
it uses (`body_stays`, `tlv_stays`). In the messages of the two services only a string at
level 1 can be long enough, so these messages stay inside their fields exactly if they do not
contain such a string (`confined_iff`).
-/
import Dragonboard.QmiSpan
import Dragonboard.QmiWire
import Dragonboard.QmiTables

set_option autoImplicit false

namespace Dragonboard.Qmi

open Dragonboard.Memory

/-! ## Strings of a message

The decoder ends a string with a zero behind its last character. A string that fills its field so
writes one byte past it, and whether a message has one is read off the message here, before it is
decoded. -/

/-- The strings of a nested table, with their lengths: message memory, `in_buf`, `in_buf_len` and
`dec_level`. -/
abbrev Strings : Type := Mem → ℕ → ℕ → ℕ → List (ElemInfo × ℕ)

/-- The strings of an array of structures. -/
def strings.structs (nested : ℕ → ℕ → Option ℕ) (inner : ℕ → ℕ → List (ElemInfo × ℕ))
    (buf_src tlv_len : ℕ) : ℕ → ℕ → List (ElemInfo × ℕ)
  | 0, _ => []
  | n + 1, bytes =>
    if bytes < tlv_len then
      inner (buf_src + bytes) (tlv_len - bytes) ++
        (nested (buf_src + bytes) (tlv_len - bytes)).elim [] fun rc =>
          strings.structs nested inner buf_src tlv_len n (bytes + rc)
    else []

/-- The strings of `n` elements. -/
def strings.elem (buf : Mem) (dec_level : ℕ) (e : ElemInfo × Strings) (buf_src tlv_len n : ℕ) :
    List (ElemInfo × ℕ) :=
  match e.1.data_type with
  | .struct =>
    strings.structs (fun p len => span.table (spans e.1.ei_array) buf p len (dec_level + 1))
      (fun p len => e.2 buf p len (dec_level + 1)) buf_src tlv_len n 0
  | .string =>
    [(e.1, if dec_level = 1 then tlv_len
      else leNat (bytesAt buf buf_src (string_len_sz e.1.elem_len)))]
  | _ => []

/-- The strings of the element behind a count `l`. -/
def strings.counted (buf : Mem) (dec_level buf_src tlv_len : ℕ)
    (l : ℕ × ℕ × List (ElemInfo × Strings)) : List (ElemInfo × ℕ) :=
  match l.2.2 with
  | [] => []
  | e :: _ =>
    (span.count e.1 l.2.1).elim [] fun n =>
      strings.elem buf dec_level e (buf_src + l.1)
        (if l.1 = 0 then tlv_len else wsub tlv_len l.1) n

/-- The strings of one element with its flag and count. -/
def strings.body (buf : Mem) (dec_level : ℕ) (temp_ei : List (ElemInfo × Strings))
    (buf_src tlv_len data_len_value : ℕ) : List (ElemInfo × ℕ) :=
  strings.counted buf dec_level buf_src tlv_len
    (span.len buf buf_src data_len_value (span.flag temp_ei))

/-- The strings of a nested structure, from a position and a count on. -/
def strings.elems (buf : Mem) (in_buf in_buf_len dec_level : ℕ) :
    ℕ → List (ElemInfo × Strings) → ℕ × ℕ → List (ElemInfo × ℕ)
  | 0, _, _ => []
  | n + 1, temp_ei, s =>
    if s.1 < in_buf_len ∧ ¬ temp_ei.isEmpty then
      strings.body buf dec_level temp_ei (in_buf + s.1) (in_buf_len - s.1) s.2 ++
        (span.body buf dec_level (spans (temp_ei.map Prod.fst)) (in_buf + s.1)
          (in_buf_len - s.1) s.2).elim [] fun r =>
            strings.elems buf in_buf in_buf_len dec_level n
              (span.len buf (in_buf + s.1) s.2 (span.flag temp_ei)).2.2.tail (s.1 + r.1, r.2.1)
    else []

/-- The strings of a nested table. -/
def strings.table (tab : List (ElemInfo × Strings)) : Strings :=
  fun buf in_buf in_buf_len dec_level =>
    strings.elems buf in_buf in_buf_len dec_level tab.length tab (0, 0)

/-- The table with the strings of every nested table. -/
def strings (ei_array : List ElemInfo) : List (ElemInfo × Strings) :=
  resolve strings.table ei_array

/-- The strings of the TLV at a position. -/
def tlvStrings (ei_array : List ElemInfo) (buf : Mem) (pos data_len_value : ℕ) :
    List (ElemInfo × ℕ) :=
  (find_ei (strings ei_array) (buf pos)).elim [] fun temp_ei =>
    strings.body buf 1 temp_ei (pos + TLV_SIZE) (declaredLen buf pos) data_len_value

/-- No string is as long as its field. A longer one is refused. -/
def NoneFull (l : List (ElemInfo × ℕ)) : Prop := ∀ s ∈ l, s.2 ≠ s.1.elem_len

theorem noneFull_append {l l' : List (ElemInfo × ℕ)} :
    NoneFull (l ++ l') ↔ NoneFull l ∧ NoneFull l' := by
  simp only [NoneFull, List.mem_append, or_imp, forall_and]

/-! ## Fields

Where an element may write: its own field in the struct, and for a struct element the fields of
the nested table inside it. The tables of the repository are checked against this by evaluation. -/

/-- The number of elements of a field: one, or the length of the array or string. -/
def ElemInfo.slots (e : ElemInfo) : ℕ :=
  if e.array_type = .noArray ∧ e.data_type ≠ .string then 1 else e.elem_len

section Width

variable (width : ElemInfo → ℕ)

/-- The field an element describes in the struct at `base`. -/
def field (base : ℕ) (e : ElemInfo) : Region :=
  (base + e.offset,
    match e.data_type with
    | .optFlag => 1
    | .dataLen => width e
    | _ => e.slots * e.elem_size)

/-- The fields of a list of elements. -/
def fieldsOf (base : ℕ) (l : List ElemInfo) : List Region := l.map (field width base)

/-- What a field must be for its type: a count has the four bytes the decoder stores, a string
consists of characters. -/
structure FieldOk (e : ElemInfo) : Prop where
  count : e.data_type = .dataLen → 4 ≤ width e
  string : e.data_type = .string → e.elem_size = 1

/-- The fields of a nested table lie in a structure of the given size. -/
def NestedFits.table (tab : List (ElemInfo × (ℕ → Prop))) : ℕ → Prop :=
  fun size => ∀ e ∈ tab, FieldOk width e.1 ∧
    e.1.offset + (field width 0 e.1).2 ≤ size ∧ (e.1.data_type = .struct → e.2 e.1.elem_size)

/-- The fields of a nested table lie in a structure of the given size. -/
def NestedFits (tab : List ElemInfo) : ℕ → Prop :=
  NestedFits.table width (resolve (NestedFits.table width) tab)

theorem nestedFits_iff {tab : List ElemInfo} {size : ℕ} :
    NestedFits width tab size ↔ ∀ e ∈ tab, FieldOk width e ∧
      e.offset + (field width 0 e).2 ≤ size ∧
      (e.data_type = .struct → NestedFits width e.ei_array e.elem_size) := by
  rw [NestedFits, resolve_eq_map, NestedFits.table, List.forall_mem_map]
  rfl

end Width

/-- The elements an iteration of the decoder uses: the count if there is one, and the element. -/
def touched.counted {D : Type} : List (ElemInfo × D) → List ElemInfo
  | [] => []
  | e :: rest =>
    if e.1.data_type = .dataLen then e.1 :: (rest.head?.map Prod.fst).toList else [e.1]

/-- The elements an iteration of the decoder uses: flag, count and element. -/
def touched {D : Type} : List (ElemInfo × D) → List ElemInfo
  | [] => []
  | e :: rest =>
    if e.1.data_type = .optFlag then e.1 :: touched.counted rest else touched.counted (e :: rest)

theorem mem_touched_counted {D : Type} {l : List (ElemInfo × D)} {e : ElemInfo}
    (he : e ∈ touched.counted l) : ∃ d ∈ l, d.1 = e := by
  cases l with
  | nil => simp [touched.counted] at he
  | cons d l =>
    rw [touched.counted] at he
    split at he
    · rcases List.mem_cons.mp he with rfl | he
      · exact ⟨d, List.mem_cons_self, rfl⟩
      · cases l with
        | nil => simp at he
        | cons d' l =>
          refine ⟨d', by simp, ?_⟩
          simp only [List.head?_cons, Option.map_some, Option.toList_some,
            List.mem_singleton] at he
          exact he.symm
    · exact ⟨d, List.mem_cons_self, (List.mem_singleton.mp he).symm⟩

theorem mem_touched {D : Type} {l : List (ElemInfo × D)} {e : ElemInfo} (he : e ∈ touched l) :
    ∃ d ∈ l, d.1 = e := by
  cases l with
  | nil => simp [touched] at he
  | cons d l =>
    rw [touched] at he
    split at he
    · rcases List.mem_cons.mp he with rfl | he
      · exact ⟨d, List.mem_cons_self, rfl⟩
      · obtain ⟨d', hd', h⟩ := mem_touched_counted he
        exact ⟨d', List.mem_cons_of_mem _ hd', h⟩
    · exact mem_touched_counted he

/-! ## Computations that write only where they may

The frame rule: `Stays P` says that every store goes to an address in `P`, and is kept by
sequencing. -/

/-- Every byte the computation stores satisfies `P`. -/
def Stays {α : Type} (P : ℕ → Prop) (x : Traced α) : Prop := ∀ a, Covers x.stores a → P a

section Stays

variable {α β : Type} {P Q : ℕ → Prop}

theorem Stays.of_nil {x : Traced α} (h : x.stores = []) : Stays P x := by
  intro a ha
  rw [h] at ha
  simp [Covers] at ha

theorem Stays.pure (a : α) : Stays P (pure a : Traced α) := .of_nil rfl

theorem Stays.fail (f : Fault) : Stays P (Traced.fail f : Traced α) := .of_nil rfl

theorem Stays.mono {x : Traced α} (h : Stays P x) (hPQ : ∀ a, P a → Q a) : Stays Q x :=
  fun a ha => hPQ a (h a ha)

theorem Stays.bind {x : Traced α} {f : α → Traced β} (hx : Stays P x)
    (hf : ∀ a, x.result = .ok a → Stays P (f a)) : Stays P (x >>= f) := by
  intro b hb
  cases h : x.result with
  | error e =>
    rw [Traced.bind_of_error h] at hb
    exact hx b hb
  | ok a =>
    rw [Traced.bind_of_ok h] at hb
    rcases covers_append.mp hb with hb | hb
    · exact hx b hb
    · exact hf a h b hb

theorem Stays.read_bind {buf : Mem} {p n : ℕ} {f : List UInt8 → Traced β}
    (hf : Stays P (f (bytesAt buf p n))) : Stays P (Traced.read buf p n >>= f) := by
  refine (Stays.of_nil rfl).bind fun bytes hbytes => ?_
  rw [Traced.read_result] at hbytes
  cases hbytes
  exact hf

theorem Stays.store {p : ℕ} {bs : List UInt8} (h : ∀ a, p ≤ a → a < p + bs.length → P a) :
    Stays P (Traced.store p bs) := by
  intro a ha
  rw [Traced.store_stores, covers_singleton] at ha
  exact h a ha.1 ha.2

end Stays

/-! ## Elements

Each helper of the decoder stays inside the field of its element, given that nested decoders stay
inside theirs and that no string is full. -/

/-- A nested decoder stays inside a structure of the given size, if no string it meets is
full. -/
def Inside (size : ℕ) (d : Dec) (r : Strings) : Prop :=
  ∀ buf out in_buf in_buf_len level, 2 ≤ level → NoneFull (r buf in_buf in_buf_len level) →
    Stays (fun a => out ≤ a ∧ a < out + size) (d buf out in_buf in_buf_len level)

/-- An element with its decoder, and with the strings of its nested table. -/
structure Kept (d : ElemInfo × Dec) (r : ElemInfo × Strings) : Prop where
  same : d.1 = r.1
  dec : d.2 = qmi_decode d.1.ei_array
  inside : d.1.data_type = .struct → Inside d.1.elem_size d.2 r.2

theorem takes_qmi_decode (tab : List ElemInfo) :
    Takes (qmi_decode tab) (span.table (spans tab)) := table_span (paired_spans tab)

section Elements

variable {buf : Mem} {level : ℕ}

theorem basic_stays (dst p n sz : ℕ) :
    Stays (fun a => dst ≤ a ∧ a < dst + n * sz) (qmi_decode_basic_elem buf dst p n sz) := by
  refine Stays.read_bind ((Stays.store fun a h1 h2 => ⟨h1, ?_⟩).bind fun _ _ => .pure _)
  rwa [bytesAt_length] at h2

theorem struct_loop_stays {size tlv_len buf_src : ℕ} {d : Dec} {s : Span} {r : Strings}
    (hin : Inside size d r) (hds : Takes d s) (hl : 2 ≤ level) (n dst i bytes : ℕ)
    (hnone : NoneFull (strings.structs (fun p len => s buf p len level)
      (fun p len => r buf p len level) buf_src tlv_len n bytes)) :
    Stays (fun a => dst ≤ a ∧ a < dst + n * size)
      (qmi_decode_struct_elem.loop d buf size tlv_len level n dst (buf_src + bytes) i bytes) := by
  induction n generalizing dst i bytes with
  | zero => exact .pure _
  | succ n ih =>
    rw [qmi_decode_struct_elem.loop]
    rw [strings.structs] at hnone
    by_cases hlt : bytes < tlv_len
    · rw [if_pos hlt] at hnone ⊢
      rw [noneFull_append] at hnone
      have hsize : (n + 1) * size = n * size + size := Nat.succ_mul n size
      refine ((hin buf dst _ _ level hl hnone.1).mono fun a ha => ?_).bind fun rc hrc => ?_
      · omega
      -- the next structure starts where the span of this one ends
      have hnext := hnone.2
      obtain ⟨b, hb, rfl, -⟩ := (hds buf dst (buf_src + bytes) (tlv_len - bytes) level hl).of_ok hrc
      rw [hb] at hnext
      rw [Nat.add_assoc]
      exact (ih (dst + size) (i + 1) (bytes + rc) hnext).mono fun a ha => by omega
    · rw [if_neg hlt]
      exact .pure _

theorem struct_stays {size tlv_len buf_src dst n : ℕ} {d : Dec} {s : Span} {r : Strings}
    (hin : Inside size d r) (hds : Takes d s) (hl : 2 ≤ level)
    (hnone : NoneFull (strings.structs (fun p len => s buf p len level)
      (fun p len => r buf p len level) buf_src tlv_len n 0)) :
    Stays (fun a => dst ≤ a ∧ a < dst + n * size)
      (qmi_decode_struct_elem d buf dst buf_src n size tlv_len level) := by
  unfold qmi_decode_struct_elem
  refine (struct_loop_stays hin hds hl n dst 0 0 hnone).bind fun ib _ => ?_
  obtain ⟨i, bytes⟩ := ib
  simp only
  split
  · exact .fail _
  · exact .pure _

theorem string_stays {e : ElemInfo} {dst buf_src tlv_len : ℕ} (hsize : e.elem_size = 1)
    (hnone : (if level = 1 then tlv_len
      else leNat (bytesAt buf buf_src (string_len_sz e.elem_len))) ≠ e.elem_len) :
    Stays (fun a => dst ≤ a ∧ a < dst + e.elem_len)
      (qmi_decode_string_elem e buf dst buf_src tlv_len level) := by
  -- the characters and the terminator, for a length of `sz` bytes and the value `len`
  have htail : ∀ sz len, len ≠ e.elem_len → Stays (fun a => dst ≤ a ∧ a < dst + e.elem_len)
      (if len > e.elem_len then Traced.fail (.errno EINVAL)
        else if len > tlv_len then Traced.fail (.errno EFAULT)
        else qmi_decode_basic_elem buf dst (buf_src + sz) len e.elem_size >>= fun rc =>
          Traced.store (dst + len) [0] >>= fun _ => pure (sz + rc) : Traced ℕ) := by
    intro sz len hlen
    split
    · exact .fail _
    split
    · exact .fail _
    rw [hsize]
    refine ((basic_stays dst _ len 1).mono fun a ha => by omega).bind fun rc _ => ?_
    refine (Stays.store fun a h1 h2 => ?_).bind fun _ _ => .pure _
    simp only [List.length_singleton] at h2
    omega
  unfold qmi_decode_string_elem qmi_decode_string_elem.len
  by_cases hl : level = 1
  · simp only [if_pos hl, pure_bind] at hnone ⊢
    exact htail 0 tlv_len hnone
  · simp only [if_neg hl, bind_assoc, pure_bind] at hnone ⊢
    exact Stays.read_bind (htail _ _ hnone)

theorem count_stays {P : ℕ → Prop} (e : ElemInfo) (v : ℕ) : Stays P (qmi_decode.count e v) := by
  unfold qmi_decode.count
  cases e.array_type with
  | noArray => exact .pure _
  | staticArray => exact .pure _
  | varLenArray =>
    simp only
    split
    · exact .fail _
    · exact .pure _

/-- The elements decoded are at most those of the field. -/
theorem count_le {e : ElemInfo} {v n : ℕ} (h : (qmi_decode.count e v).result = .ok n)
    (he : e.data_type ≠ .string) : n ≤ e.slots := by
  unfold qmi_decode.count at h
  unfold ElemInfo.slots
  cases harray : e.array_type with
  | noArray =>
    rw [harray] at h
    cases h
    rw [if_pos ⟨rfl, he⟩]
  | staticArray =>
    rw [harray] at h
    cases h
    rw [if_neg (by simp)]
  | varLenArray =>
    rw [harray] at h
    simp only at h
    split at h
    · cases h
    · cases h
      rw [if_neg (by simp)]
      omega

variable {width : ElemInfo → ℕ}

theorem elem_stays {d : ElemInfo × Dec} {r : ElemInfo × Strings} (h : Kept d r) (hl : 1 ≤ level)
    (hok : FieldOk width d.1) (out : ℕ) (st : DecState)
    (hn : d.1.data_type ≠ .string → st.data_len_value ≤ d.1.slots)
    (hnone : NoneFull (strings.elem buf level r st.buf_src st.tlv_len st.data_len_value)) :
    Stays (fun a => Within [field width out d.1] a) (qmi_decode.elem buf out level d st) := by
  -- numbers and structures fill as many slots as there are elements
  have hbasic : d.1.data_type ≠ .string → d.1.data_type ≠ .optFlag → d.1.data_type ≠ .dataLen →
      ∀ a, out + d.1.offset ≤ a ∧ a < out + d.1.offset + st.data_len_value * d.1.elem_size →
        Within [field width out d.1] a := by
    intro h1 h2 h3 a ha
    have hle := Nat.mul_le_mul_right d.1.elem_size (hn h1)
    refine ⟨_, List.mem_singleton.mpr rfl, ha.1, ?_⟩
    unfold field
    split
    · exact absurd (by assumption) h2
    · exact absurd (by assumption) h3
    · simp only
      omega
  unfold qmi_decode.elem
  unfold strings.elem at hnone
  rw [← h.same] at hnone
  cases ht : d.1.data_type with
  | struct =>
    rw [ht] at hnone hbasic
    have hin := h.inside ht
    rw [h.dec] at hin ⊢
    exact (struct_stays hin (takes_qmi_decode _) (by omega) hnone).mono
      (hbasic (by simp) (by simp) (by simp))
  | string =>
    -- not full, so that its terminator has a place
    rw [ht] at hnone
    simp only [NoneFull, List.mem_singleton, forall_eq] at hnone
    refine (string_stays (hok.string ht) hnone).mono fun a ha => ?_
    refine ⟨_, List.mem_singleton.mpr rfl, ha.1, ?_⟩
    simp only [field, ht, ElemInfo.slots, hok.string ht]
    rw [if_neg (by simp)]
    omega
  | eoti => exact .fail _
  | optFlag => exact .fail _
  | dataLen => exact .fail _
  | _ =>
    rw [ht] at hbasic
    exact (basic_stays _ _ _ _).mono (hbasic (by simp) (by simp) (by simp))

/-! ## Iterations

An iteration takes up to three elements of the table: flag, count, and the element itself. Its
stores are in the fields of those. -/

variable {ds : List (ElemInfo × Dec)} {rs : List (ElemInfo × Strings)}

theorem within_fieldsOf {out a : ℕ} {e : ElemInfo} {l : List ElemInfo} (he : e ∈ l)
    (h : Within [field width out e] a) : Within (fieldsOf width out l) a := by
  obtain ⟨r, hr, hra⟩ := h
  rw [List.mem_singleton.mp hr] at hra
  exact ⟨_, List.mem_map_of_mem he, hra⟩

/-- The flag step: the flag's byte, and what it leaves of the table. -/
theorem opt_flag_stays (width : ElemInfo → ℕ) (h : List.Forall₂ Kept ds rs) (out : ℕ) :
    ∃ ds', (qmi_decode.opt_flag out ds).result = .ok ds' ∧
      List.Forall₂ Kept ds' (span.flag rs) ∧ ds' <:+ ds ∧ (∀ e ∈ touched.counted ds', e ∈ touched ds) ∧
      Stays (fun a => Within (fieldsOf width out (touched ds)) a)
        (qmi_decode.opt_flag out ds) := by
  cases h with
  | nil => exact ⟨[], rfl, .nil, List.suffix_rfl, fun e he => he, .pure _⟩
  | @cons d r ds rs h1 h2 =>
    simp only [qmi_decode.opt_flag, span.flag, touched, ← h1.same]
    by_cases hf : d.1.data_type = .optFlag
    · simp only [if_pos hf]
      refine ⟨ds, rfl, h2, List.suffix_cons _ _, fun e he => List.mem_cons_of_mem _ he, ?_⟩
      refine (Stays.store fun a ha1 ha2 => ?_).bind fun _ _ => .pure _
      refine within_fieldsOf List.mem_cons_self ⟨_, List.mem_singleton.mpr rfl, ha1, ?_⟩
      simp only [field, hf]
      exact ha2
    · simp only [if_neg hf]
      exact ⟨d :: ds, rfl, .cons h1 h2, List.suffix_rfl, fun e he => he, .pure _⟩

/-- The count step: four bytes of the count's field, and what it leaves of the table. -/
theorem data_len_stays (buf : Mem) (h : List.Forall₂ Kept ds rs) (out : ℕ) (st : DecState)
    (hok : ∀ e ∈ touched.counted ds, FieldOk width e) :
    ∃ ds' st', (qmi_decode.data_len buf out st ds).result = .ok (ds', st') ∧
      (let l := span.len buf st.buf_src st.data_len_value rs
       List.Forall₂ Kept ds' l.2.2 ∧ st' = ⟨l.2.1,
        if l.1 = 0 then st.tlv_len else wsub st.tlv_len l.1, st.buf_src + l.1,
        st.decoded_bytes + l.1⟩) ∧
      ds' <:+ ds ∧ (∀ d ∈ ds'.head?, d.1 ∈ touched.counted ds) ∧
      Stays (fun a => Within (fieldsOf width out (touched.counted ds)) a)
        (qmi_decode.data_len buf out st ds) := by
  cases h with
  | nil => exact ⟨[], st, rfl, ⟨.nil, rfl⟩, List.suffix_rfl, by simp, .pure _⟩
  | @cons d r ds rs h1 h2 =>
    simp only [qmi_decode.data_len, span.len, ← h1.same]
    simp only [touched.counted] at hok ⊢
    by_cases hlen : d.1.data_type = .dataLen
    · simp only [if_pos hlen] at hok ⊢
      have hpos := data_len_sz_pos d.1.elem_size
      refine ⟨ds, _, rfl, ⟨h2, ?_⟩, List.suffix_cons _ _, ?_, ?_⟩
      · rw [if_neg (by omega)]
        rfl
      · intro d' hd'
        apply List.mem_cons_of_mem
        cases ds with
        | nil => simp at hd'
        | cons d'' ds =>
          simp only [List.head?_cons, Option.mem_def, Option.some.injEq] at hd'
          rw [hd']
          simp
      -- a count is stored in four bytes, and its field has room for them
      · refine Stays.read_bind ((Stays.store fun a ha1 ha2 => ?_).bind fun _ _ => .pure _)
        refine within_fieldsOf List.mem_cons_self ⟨_, List.mem_singleton.mpr rfl, ha1, ?_⟩
        have hwide := (hok d.1 List.mem_cons_self).count hlen
        rw [leBytes_length] at ha2
        simp only [field, hlen]
        omega
    · simp only [if_neg hlen]
      refine ⟨d :: ds, st, rfl, ⟨.cons h1 h2, rfl⟩, List.suffix_rfl, ?_, .pure _⟩
      simp

/-- One element with its flag and count stays inside their fields. -/
theorem body_stays (h : List.Forall₂ Kept ds rs) (hl : 1 ≤ level) (out : ℕ) (st : DecState)
    (hok : ∀ e ∈ touched ds, FieldOk width e)
    (hnone : NoneFull (strings.body buf level rs st.buf_src st.tlv_len st.data_len_value)) :
    Stays (fun a => Within (fieldsOf width out (touched ds)) a)
      (qmi_decode.body buf out level ds st) := by
  obtain ⟨ds1, hres1, h1, -, htouch1, hstay1⟩ := opt_flag_stays width h out
  refine hstay1.bind fun ds1' hres1' => ?_
  rw [hres1] at hres1'
  cases hres1'
  obtain ⟨ds2, st2, hres2, ⟨h2, hst2⟩, -, htouch2, hstay2⟩ :=
    data_len_stays buf h1 out st fun e he => hok e (htouch1 e he)
  refine (hstay2.mono fun a ha => ?_).bind fun p hres2' => ?_
  · obtain ⟨r, hr, hra⟩ := ha
    obtain ⟨e, he, rfl⟩ := List.mem_map.mp hr
    exact ⟨_, List.mem_map_of_mem (htouch1 e he), hra⟩
  rw [hres2] at hres2'
  cases hres2'
  simp only
  unfold strings.body strings.counted at hnone
  generalize span.len buf st.buf_src st.data_len_value (span.flag rs) = l at h2 hst2 hnone
  obtain ⟨sz, v, rs2⟩ := l
  simp only at h2 hst2 hnone
  cases h2 with
  | nil => exact .fail _
  | @cons d r ds2 rs2 hdr h3 =>
    have hd : d.1 ∈ touched ds := htouch1 _ (htouch2 d (by simp))
    refine (count_stays d.1 _).bind fun n hn => ?_
    -- the span counts as the decoder does
    rw [hst2] at hn ⊢
    obtain ⟨m, hcount, rfl, -⟩ := (count_span d.1 v).of_ok hn
    simp only [← hdr.same, hcount, Option.elim_some] at hnone
    refine ((elem_stays hdr hl (hok d.1 hd) out ⟨n, _, _, _⟩ (count_le hn) hnone).mono
      fun a ha => within_fieldsOf hd ha).bind fun _ _ => .pure _

/-- The elements left by an iteration. -/
theorem body_kept (h : List.Forall₂ Kept ds rs) (out : ℕ) (st : DecState)
    (hok : ∀ d ∈ ds, FieldOk width d.1) {ds' : List (ElemInfo × Dec)} {st' : DecState}
    (hres : (qmi_decode.body buf out level ds st).result = .ok (ds', st')) :
    List.Forall₂ Kept ds' (span.len buf st.buf_src st.data_len_value (span.flag rs)).2.2.tail ∧
      ds' <:+ ds := by
  obtain ⟨ds1, hres1, h1, hsuf1, -, -⟩ := opt_flag_stays width h out
  have hok1 : ∀ e ∈ touched.counted ds1, FieldOk width e := by
    intro e he
    obtain ⟨d, hd, rfl⟩ := mem_touched_counted he
    exact hok d (hsuf1.subset hd)
  obtain ⟨ds2, st2, hres2, ⟨h2, -⟩, hsuf2, -, -⟩ := data_len_stays buf h1 out st hok1
  obtain ⟨a, ha, hres⟩ := Traced.bind_result_ok.mp hres
  rw [hres1] at ha
  cases ha
  obtain ⟨a, ha, hres⟩ := Traced.bind_result_ok.mp hres
  rw [hres2] at ha
  cases ha
  simp only at hres h2
  generalize (span.len buf st.buf_src st.data_len_value (span.flag rs)).2.2 = rs2 at h2 ⊢
  cases h2 with
  | nil => cases hres
  | @cons d r ds2 rs2 hdr h3 =>
    obtain ⟨n, -, hres⟩ := Traced.bind_result_ok.mp hres
    obtain ⟨rc, -, hres⟩ := Traced.bind_result_ok.mp hres
    cases hres
    exact ⟨h3, (List.suffix_cons _ _).trans (hsuf2.trans hsuf1)⟩

theorem paired_of_kept (h : List.Forall₂ Kept ds rs) : Paired ds (spans (rs.map Prod.fst)) := by
  rw [spans, resolve_eq_map, List.map_map]
  induction h with
  | nil => exact .nil
  | cons h1 h2 ih =>
    refine .cons ⟨h1.same, ?_⟩ ih
    rw [h1.dec, h1.same]
    exact takes_qmi_decode _

/-- The loop over a nested structure stays inside it. -/
theorem elems_stays (hl : 2 ≤ level) (out in_buf in_buf_len size n : ℕ)
    (h : List.Forall₂ Kept ds rs)
    (hfit : ∀ d ∈ ds, FieldOk width d.1 ∧ d.1.offset + (field width 0 d.1).2 ≤ size)
    (st : DecState) (hst : st.buf_src = in_buf + st.decoded_bytes)
    (hnone : NoneFull (strings.elems buf in_buf in_buf_len level n rs
      (st.decoded_bytes, st.data_len_value))) :
    Stays (fun a => out ≤ a ∧ a < out + size)
      (qmi_decode.elem_loop buf out in_buf_len level n ds st) := by
  induction n generalizing ds rs st with
  | zero => exact .pure _
  | succ n ih =>
    have hempty : ds.isEmpty = rs.isEmpty := by cases h <;> rfl
    rw [qmi_decode.elem_loop, hempty]
    rw [strings.elems] at hnone
    by_cases hgo : st.decoded_bytes < in_buf_len ∧ ¬ rs.isEmpty
    · rw [if_pos hgo, noneFull_append, ← hst] at hnone
      rw [if_pos hgo.1, if_neg hgo.2]
      obtain ⟨hbody, hrest⟩ := hnone
      -- whatever element the iteration writes, its field is in the struct
      have htouch : ∀ e ∈ touched ds, FieldOk width e ∧ e.offset + (field width 0 e).2 ≤ size := by
        intro e he
        obtain ⟨d, hd, rfl⟩ := mem_touched he
        exact hfit d hd
      refine ((body_stays h (by omega) out { st with tlv_len := in_buf_len - st.decoded_bytes }
        (fun e he => (htouch e he).1) hbody).mono fun a ha => ?_).bind fun r hr => ?_
      · obtain ⟨r, hr, ha1, ha2⟩ := ha
        obtain ⟨e, he, rfl⟩ := List.mem_map.mp hr
        have := (htouch e he).2
        have hlen : (field width out e).2 = (field width 0 e).2 := rfl
        have hpos : (field width out e).1 = out + e.offset := rfl
        omega
      · obtain ⟨ds', st'⟩ := r
        obtain ⟨hkept, hsuf⟩ := body_kept h out _ (fun d hd => (hfit d hd).1) hr
        -- the iteration took its span, so the strings that follow are those of the rest
        obtain ⟨b, hb, -, hv, hsrc, hdec, -⟩ := (body_span buf (paired_of_kept h) (by omega) out
          { st with tlv_len := in_buf_len - st.decoded_bytes }).of_ok hr
        simp only at hb hv hsrc hdec
        rw [hb, Option.elim_some, ← hdec, ← hv] at hrest
        exact ih hkept (fun d hd => hfit d (hsuf.subset hd)) st' (by omega) hrest
    · by_cases hlt : st.decoded_bytes < in_buf_len
      · rw [if_pos hlt, if_pos (by simpa [hlt] using hgo)]
        exact .pure _
      · rw [if_neg hlt]
        exact .pure _

end Elements

/-- A nested decoder stays inside its structure if the fields of its table do. -/
theorem inside_nested {width : ElemInfo → ℕ} (tab : List ElemInfo) :
    ∀ e ∈ tab, ∀ size, NestedFits width e.ei_array size →
      Inside size (qmi_decode e.ei_array) (strings.table (strings e.ei_array)) := by
  induction tab using table_induction with
  | nil => simp
  | cons e rest ihe ih =>
    rw [List.forall_mem_cons]
    refine ⟨fun size hfit buf out in_buf in_buf_len level hl hnone => ?_, ih⟩
    rw [nestedFits_iff] at hfit
    rw [strings, resolve_eq_map, strings.table] at hnone
    rw [qmi_decode_eq, qmi_decode.table, if_neg (by omega)]
    have hfields : ∀ d ∈ e.ei_array.map fun e' => (e', qmi_decode e'.ei_array),
        FieldOk width d.1 ∧ d.1.offset + (field width 0 d.1).2 ≤ size := by
      rw [List.forall_mem_map]
      exact fun e' he' => ⟨(hfit e' he').1, (hfit e' he').2.1⟩
    simp only [List.length_map] at hnone ⊢
    refine elems_stays hl out in_buf in_buf_len size _ ?_ hfields (.init in_buf) rfl hnone
    rw [List.forall₂_map_left_iff, List.forall₂_map_right_iff, List.forall₂_same]
    exact fun e' he' => ⟨rfl, rfl, fun ht => ihe e' he' _ ((hfit e' he').2.2 ht)⟩

/-! ## Groups

At level 1 the elements that an iteration takes are those of one group, found by the type of the
TLV. So a TLV writes into the fields of its group, whatever else the message holds. -/

/-- A group whose elements are what their places say. -/
structure Group.Shaped (g : Group) : Prop where
  flag : ∀ f ∈ g.flag, f.data_type = .optFlag ∧ f.tlv_type = g.type
  len : ∀ l ∈ g.len, l.data_type = .dataLen ∧ l.tlv_type = g.type
  elem : g.elem.data_type ≠ .optFlag ∧ g.elem.data_type ≠ .dataLen

/-- A group the decoder can fill: its flag and count share its type, the count is one byte in
front of a field of at least four, an array has at most 255 elements and its count in front of
it, and a string needs no count if it may have 255 characters. -/
structure Group.Fits (width : ElemInfo → ℕ) (g : Group) : Prop where
  type_ne : g.type ≠ 0
  flag : ∀ f ∈ g.flag, f.data_type = .optFlag ∧ f.tlv_type = g.type
  len : ∀ l ∈ g.len, l.data_type = .dataLen ∧ l.tlv_type = g.type ∧ l.elem_size = 1 ∧ 4 ≤ width l
  kind : g.elem.data_type.isBasic = true ∨ g.elem.data_type = .struct ∨ g.elem.data_type = .string
  array : g.elem.array_type ≠ .noArray →
    g.elem.array_type = .varLenArray ∧ g.elem.data_type = .string ∨ g.elem.elem_len ≤ 255
  text : g.elem.array_type = .varLenArray → g.elem.data_type = .string → 255 ≤ g.elem.elem_len
  counted : g.elem.array_type = .varLenArray → g.elem.data_type ≠ .string → g.len.isSome
  string : g.elem.data_type = .string → g.elem.elem_size = 1
  nested : g.elem.data_type = .struct → NestedFits width g.elem.ei_array g.elem.elem_size

section Groups

variable {width : ElemInfo → ℕ} {g : Group} {D : Type} {f : ElemInfo → D}

theorem Group.Shaped.tlv_type (hg : g.Shaped) : ∀ e ∈ g.elems, e.tlv_type = g.type := by
  intro e he
  simp only [Group.elems, List.mem_append, Option.mem_toList, List.mem_singleton] at he
  rcases he with (he | he) | rfl
  · exact (hg.flag e he).2
  · exact (hg.len e he).2
  · rfl

theorem Group.Fits.kind_ne (hg : g.Fits width) :
    g.elem.data_type ≠ .optFlag ∧ g.elem.data_type ≠ .dataLen := by
  rcases hg.kind with h | h | h
  · constructor
    · intro he
      simp [he, ElemType.isBasic] at h
    · intro he
      simp [he, ElemType.isBasic] at h
  · simp [h]
  · simp [h]

theorem Group.Fits.shaped (hg : g.Fits width) : g.Shaped :=
  ⟨hg.flag, fun l hl => ⟨(hg.len l hl).1, (hg.len l hl).2.1⟩, hg.kind_ne⟩

theorem Group.Fits.tlv_type (hg : g.Fits width) : ∀ e ∈ g.elems, e.tlv_type = g.type :=
  hg.shaped.tlv_type

theorem Group.Fits.fieldOk (hg : g.Fits width) : ∀ e ∈ g.elems, FieldOk width e := by
  intro e he
  simp only [Group.elems, List.mem_append, Option.mem_toList, List.mem_singleton] at he
  rcases he with (he | he) | rfl
  · have ht := (hg.flag e he).1
    exact ⟨by simp [ht], by simp [ht]⟩
  · have ht := (hg.len e he).1
    exact ⟨fun _ => (hg.len e he).2.2.2, by simp [ht]⟩
  · exact ⟨fun h => absurd h hg.kind_ne.2, hg.string⟩

/-- Behind the flag of a group. -/
theorem group_flag (hg : g.Shaped) (rest : List ElemInfo) :
    span.flag ((g.elems ++ rest).map fun e => (e, f e)) =
      (g.len.toList ++ g.elem :: rest).map fun e => (e, f e) := by
  unfold Group.elems
  cases hf : g.flag with
  | some fl =>
    simp only [Option.toList_some, List.cons_append, List.map_cons, span.flag]
    rw [if_pos (hg.flag fl hf).1]
    simp
  | none =>
    cases hl : g.len with
    | none => simp [span.flag, hg.elem.1]
    | some l => simp [span.flag, (hg.len l hl).1]

/-- Behind the count of a group: one byte, which a smaller count before it cannot disturb. -/
theorem group_len (hg : g.Fits width) (rest : List ElemInfo) (buf : Mem) (p : ℕ) {v : ℕ}
    (hv : v ≤ 255) :
    span.len buf p v ((g.len.toList ++ g.elem :: rest).map fun e => (e, f e)) =
      (g.len.toList.length, if g.len.isSome then (buf p).toNat else v,
        (g.elem :: rest).map fun e => (e, f e)) := by
  cases hl : g.len with
  | none =>
    simp only [Option.toList_none, List.nil_append, List.map_cons, span.len]
    rw [if_neg hg.kind_ne.2]
    rfl
  | some l =>
    obtain ⟨ht, -, hsize, -⟩ := hg.len l hl
    simp only [Option.toList_some, List.singleton_append, List.map_cons, span.len]
    rw [if_pos ht]
    have hsz : data_len_sz l.elem_size = 1 := if_pos hsize
    rw [hsz, patchLow_of_lt (by simp; omega)]
    simp [bytesAt, leNat]

theorem touched_group (hg : g.Fits width) (rest : List ElemInfo) :
    touched ((g.elems ++ rest).map fun e => (e, f e)) = g.elems := by
  have hcounted : touched.counted ((g.len.toList ++ g.elem :: rest).map fun e => (e, f e)) =
      g.len.toList ++ [g.elem] := by
    cases hl : g.len with
    | none => simp [touched.counted, hg.kind_ne.2]
    | some l => simp [touched.counted, (hg.len l hl).1]
  unfold Group.elems
  cases hf : g.flag with
  | some fl =>
    simp only [Option.toList_some, List.cons_append, List.nil_append, List.append_assoc,
      List.map_cons, touched]
    rw [if_pos (hg.flag fl hf).1, hcounted]
  | none =>
    simp only [Option.toList_none, List.nil_append, List.append_assoc, List.cons_append]
    rw [← hcounted]
    cases hl : g.len with
    | none => simp [touched, hg.kind_ne.1]
    | some l => simp [touched, (hg.len l hl).1]

/-- The count a group leaves behind fits one byte. -/
theorem group_count_le (hg : g.Fits width) {v n : ℕ} {b : UInt8} (hv : v ≤ 255)
    (hn : span.count g.elem (if g.len.isSome then b.toNat else v) = some n) : n ≤ 255 := by
  have hb : (if g.len.isSome then b.toNat else v) ≤ 255 := by
    have := b.toNat_lt
    split <;> omega
  generalize (if g.len.isSome then b.toNat else v) = w at hn hb
  unfold span.count at hn
  cases harray : g.elem.array_type with
  | noArray =>
    rw [harray] at hn
    cases hn
    omega
  | staticArray =>
    rw [harray] at hn
    cases hn
    rcases hg.array (by simp [harray]) with ⟨h, -⟩ | h
    · rw [harray] at h
      cases h
    · exact h
  | varLenArray =>
    rw [harray] at hn
    simp only at hn
    split at hn
    · cases hn
    · cases hn
      exact hb

end Groups

/-- A TLV is of a group, and then every table over these elements is entered there, or of none. -/
theorem find_group {gs : List Group} (hgs : ∀ g ∈ gs, g.Shaped) (htypes : (gs.map Group.type).Nodup)
    (t : UInt8) :
    (∃ g ∈ gs, g.type = t ∧ ∃ rest, (∀ e ∈ rest, e ∈ messageTable gs) ∧
      ∀ (D : Type) (f : ElemInfo → D), find_ei ((messageTable gs).map fun e => (e, f e)) t =
        some ((g.elems ++ rest).map fun e => (e, f e))) ∨
      ((∀ g ∈ gs, g.type ≠ t) ∧ ∀ (D : Type) (f : ElemInfo → D),
        find_ei ((messageTable gs).map fun e => (e, f e)) t = none) := by
  have htype : ∀ g ∈ gs, ∀ e ∈ g.elems, e.tlv_type = g.type :=
    fun g hg => (hgs g hg).tlv_type
  by_cases h : ∃ g ∈ gs, g.type = t
  · obtain ⟨g, hg, rfl⟩ := h
    refine .inl ⟨g, hg, rfl, ?_⟩
    obtain ⟨gs₁, gs₂, rfl⟩ := List.append_of_mem hg
    refine ⟨messageTable gs₂, fun e he => ?_, fun D f => find_ei_group htype htypes⟩
    obtain ⟨g', hg', he⟩ := List.mem_flatMap.mp he
    exact List.mem_flatMap.mpr ⟨g', by simp [hg'], he⟩
  · refine .inr ⟨fun g hg hne => h ⟨g, hg, hne⟩, fun D f => find_ei_none htype ?_⟩
    exact fun g hg hne => h ⟨g, hg, hne⟩

/-- Groups that fit, each with a type of its own. -/
structure MessageFits (width : ElemInfo → ℕ) (gs : List Group) : Prop where
  groups : ∀ g ∈ gs, g.Fits width
  types : (gs.map Group.type).Nodup

section Messages

variable {width : ElemInfo → ℕ} {gs : List Group}

theorem MessageFits.shaped (hgs : MessageFits width gs) : ∀ g ∈ gs, g.Shaped :=
  fun g hg => (hgs.groups g hg).shaped

/-- The nested decoders of a message stay inside their structures. -/
theorem kept_elems (hgs : MessageFits width gs) {l : List ElemInfo}
    (hl : ∀ e ∈ l, e ∈ messageTable gs) :
    List.Forall₂ Kept (l.map fun e => (e, qmi_decode e.ei_array))
      (l.map fun e => (e, strings.table (strings e.ei_array))) := by
  rw [List.forall₂_map_left_iff, List.forall₂_map_right_iff, List.forall₂_same]
  refine fun e he => ⟨rfl, rfl, fun ht => ?_⟩
  change e.data_type = .struct at ht
  obtain ⟨g, hg, heg⟩ := List.mem_flatMap.mp (hl e he)
  have hfit := hgs.groups g hg
  -- flags and counts are not structures
  simp only [Group.elems, List.mem_append, Option.mem_toList, List.mem_singleton] at heg
  rcases heg with (heg | heg) | rfl
  · simp [(hfit.flag e heg).1] at ht
  · simp [(hfit.len e heg).1] at ht
  · exact inside_nested [g.elem] g.elem (by simp) _ (hfit.nested ht)

theorem strings_eq (tab : List ElemInfo) :
    strings tab = tab.map fun e => (e, strings.table (strings e.ei_array)) := by
  rw [strings, resolve_eq_map]
  rfl

theorem spans_eq (tab : List ElemInfo) :
    spans tab = tab.map fun e => (e, span.table (spans e.ei_array)) := by
  rw [spans, resolve_eq_map]
  rfl

/-- The count a TLV leaves behind fits one byte. -/
theorem tlvSpan_count_le (hgs : MessageFits width gs) {buf : Mem} {pos v : ℕ} (hv : v ≤ 255)
    {r : ℕ × ℕ} (hr : tlvSpan (spans (messageTable gs)) buf pos v = some r) : r.2 ≤ 255 := by
  rw [tlvSpan, spans_eq] at hr
  rcases find_group hgs.shaped hgs.types (buf pos) with ⟨g, hg, -, rest, -, hfind⟩ | ⟨-, hfind⟩
  · rw [hfind] at hr
    have hfit := hgs.groups g hg
    simp only [span.body, group_flag hfit.shaped, group_len hfit _ _ _ hv, span.counted, List.map_cons,
      Option.bind_eq_some_iff] at hr
    obtain ⟨b, ⟨n, hn, bytes, -, hb⟩, hr⟩ := hr
    cases hb
    cases hr
    exact group_count_le hfit hv hn
  · rw [hfind] at hr
    simp only at hr
    split at hr
    · cases hr
    · cases hr
      exact hv

/-- **A TLV in which no string is full writes into the fields of its group only.** -/
theorem tlv_stays (hgs : MessageFits width gs) (buf : Mem) (out : ℕ) (st : DecState)
    (hnone : NoneFull (tlvStrings (messageTable gs) buf st.buf_src st.data_len_value)) :
    Stays (fun a => ∃ g ∈ gs, g.type = buf st.buf_src ∧ Within (fieldsOf width out g.elems) a)
      (qmi_decode.tlv buf out (resolve qmi_decode.table (messageTable gs)) st) := by
  unfold qmi_decode.tlv qmi_decode.header
  rw [bind_assoc]
  refine Stays.read_bind ?_
  simp only [pure_bind]
  have htype : (bytesAt buf st.buf_src TLV_SIZE).getD 0 0 = buf st.buf_src := rfl
  have hlen : leNat ((bytesAt buf st.buf_src TLV_SIZE).drop 1) = declaredLen buf st.buf_src := rfl
  rw [htype, hlen, resolve_decode]
  rw [tlvStrings, strings_eq] at hnone
  rcases find_group hgs.shaped hgs.types (buf st.buf_src) with ⟨g, hg, ht, rest, hrest, hfind⟩ | ⟨-, hfind⟩
  · rw [hfind, Option.elim_some] at hnone
    rw [hfind]
    have hkept : List.Forall₂ Kept ((g.elems ++ rest).map fun e => (e, qmi_decode e.ei_array))
        ((g.elems ++ rest).map fun e => (e, strings.table (strings e.ei_array))) := by
      refine kept_elems hgs fun e he => ?_
      rcases List.mem_append.mp he with he | he
      · exact List.mem_flatMap.mpr ⟨g, hg, he⟩
      · exact hrest e he
    have htouch := touched_group (f := fun e => qmi_decode e.ei_array) (hgs.groups g hg) rest
    have hok := (hgs.groups g hg).fieldOk
    rw [← htouch] at hok
    have hbody := body_stays hkept (le_refl 1) out
      (DecState.update { st with tlv_len := declaredLen buf st.buf_src } TLV_SIZE) hok hnone
    rw [htouch] at hbody
    exact (hbody.mono fun a ha => ⟨g, hg, ht, ha⟩).bind fun _ _ => .pure _
  · rw [hfind]
    simp only
    split
    · exact .fail _
    · exact .pure _

end Messages

end Dragonboard.Qmi
