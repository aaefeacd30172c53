/-
What the decoder takes from a message, and when that is what the message declares.

`span` is the decoder with everything but its cursor removed: for a table and a position in a
message it says how many bytes the elements there take, or that they are refused.
It does not write, and it does not ask whether the bytes are there. The decoder takes
exactly its span and reads no further than it takes (`qmi_decode_span`).

A level-1 message is then a chain of TLVs, each with a type, a declared length, and the span
its table entry gives it. Nothing in `qmi_decode` compares the last two, except for a
structure, and nothing compares either of them with the end of the message: a header may be
cut off, a basic element may be longer or shorter than its TLV, and the count in front
of an array is taken off `tlv_len` even if `tlv_len` is smaller. So a message is
either refused at some TLV, or decoded as declared (`Declared`), or decoded with a
wrong length; the main result says that the first two are exactly the good cases. It is stated for
tables whose elements keep the counters below 2^31 (`QmiExtent`): an element of 2^32 bytes would
be read in full and counted as nothing.
-/
import Mathlib.Data.List.Forall2
import Dragonboard.QmiExtent

set_option autoImplicit false

namespace Dragonboard.Qmi

open Dragonboard.Memory

/-! ## Spans

How many bytes the decoder takes for an element is decided by the table, by the space that is left
and by the counts and lengths found in the bytes. The definitions below compute that number
without decoding anything, one for each step of `qmi_decode`; `none` stands for a message the step
refuses. -/

/-- The span of a nested table: message memory, `in_buf`, `in_buf_len` and `dec_level`. -/
abbrev Span : Type := Mem → ℕ → ℕ → ℕ → Option ℕ

/-- The elements of an array of structures, up to the end of the TLV: how many and their
bytes. -/
def span.structs (nested : ℕ → ℕ → Option ℕ) (buf_src tlv_len : ℕ) : ℕ → ℕ × ℕ → Option (ℕ × ℕ)
  | 0, r => some r
  | n + 1, (i, bytes) =>
    if bytes < tlv_len then
      (nested (buf_src + bytes) (tlv_len - bytes)).bind fun rc =>
        span.structs nested buf_src tlv_len n (i + 1, bytes + rc)
    else some (i, bytes)

/-- The bytes of an array of `n` structures. -/
def span.struct (nested : ℕ → ℕ → Option ℕ) (buf_src tlv_len n dec_level : ℕ) : Option ℕ :=
  (span.structs nested buf_src tlv_len n (0, 0)).bind fun r =>
    if (dec_level ≤ 2 ∧ r.2 ≠ tlv_len) ∨ (dec_level > 2 ∧ (r.1 < n ∨ r.2 > tlv_len)) then none
    else some r.2

/-- The bytes of a string; a nested one has its length in front. -/
def span.string (e : ElemInfo) (buf : Mem) (buf_src tlv_len dec_level : ℕ) : Option ℕ :=
  let sz := if dec_level = 1 then 0 else string_len_sz e.elem_len
  let len := if dec_level = 1 then tlv_len else leNat (bytesAt buf buf_src sz)
  if len > e.elem_len ∨ len > tlv_len then none else some (sz + len * e.elem_size)

/-- The bytes of `n` elements. -/
def span.elem (buf : Mem) (dec_level : ℕ) (e : ElemInfo × Span) (buf_src tlv_len n : ℕ) :
    Option ℕ :=
  match e.1.data_type with
  | .unsigned1Byte | .unsigned2Byte | .unsigned4Byte | .unsigned8Byte
  | .signed1ByteEnum | .signed2ByteEnum | .signed4ByteEnum => some (n * e.1.elem_size)
  | .struct =>
    span.struct (fun p len => e.2 buf p len (dec_level + 1)) buf_src tlv_len n (dec_level + 1)
  | .string => span.string e.1 buf buf_src tlv_len dec_level
  | .eoti | .optFlag | .dataLen => none

/-- The number of elements, from the count in front of them or in the table. -/
def span.count (e : ElemInfo) (data_len_value : ℕ) : Option ℕ :=
  match e.array_type with
  | .noArray => some 1
  | .staticArray => some e.elem_len
  | .varLenArray => if data_len_value > e.elem_len then none else some data_len_value

/-- The elements from the one at the pointer on, without its flag. -/
def span.flag {D : Type} : List (ElemInfo × D) → List (ElemInfo × D)
  | [] => []
  | e :: rest => if e.1.data_type = .optFlag then rest else e :: rest

/-- The count in front of an array: its bytes, its value, and the elements after it. -/
def span.len {D : Type} (buf : Mem) (buf_src data_len_value : ℕ) :
    List (ElemInfo × D) → ℕ × ℕ × List (ElemInfo × D)
  | [] => (0, data_len_value, [])
  | e :: rest =>
    if e.1.data_type = .dataLen then
      (data_len_sz e.1.elem_size,
        patchLow data_len_value (bytesAt buf buf_src (data_len_sz e.1.elem_size)), rest)
    else (0, data_len_value, e :: rest)

/-- The element behind a count `l`: the bytes with those of the count, the number of elements, and
the elements after it. -/
def span.counted (buf : Mem) (dec_level buf_src tlv_len : ℕ)
    (l : ℕ × ℕ × List (ElemInfo × Span)) : Option (ℕ × ℕ × List (ElemInfo × Span)) :=
  match l.2.2 with
  | [] => none
  | e :: rest =>
    -- the length of a TLV shorter than its count wraps
    let tlv_len := if l.1 = 0 then tlv_len else wsub tlv_len l.1
    (span.count e.1 l.2.1).bind fun n =>
      (span.elem buf dec_level e (buf_src + l.1) tlv_len n).bind fun bytes =>
        some (l.1 + bytes, n, rest)

/-- One element with its flag and count. -/
def span.body (buf : Mem) (dec_level : ℕ) (temp_ei : List (ElemInfo × Span))
    (buf_src tlv_len data_len_value : ℕ) : Option (ℕ × ℕ × List (ElemInfo × Span)) :=
  span.counted buf dec_level buf_src tlv_len
    (span.len buf buf_src data_len_value (span.flag temp_ei))

/-- A nested structure: its elements one after the other, up to the end of the table or of the
space. The bytes so far and the count are carried along. -/
def span.elems (buf : Mem) (in_buf in_buf_len dec_level : ℕ) :
    ℕ → List (ElemInfo × Span) → ℕ × ℕ → Option ℕ
  | 0, _, s => some s.1
  | n + 1, temp_ei, s =>
    if s.1 < in_buf_len ∧ ¬ temp_ei.isEmpty then
      (span.body buf dec_level temp_ei (in_buf + s.1) (in_buf_len - s.1) s.2).bind fun r =>
        span.elems buf in_buf in_buf_len dec_level n r.2.2 (s.1 + r.1, r.2.1)
    else some s.1

/-- The span of a nested table. -/
def span.table (tab : List (ElemInfo × Span)) : Span :=
  fun buf in_buf in_buf_len dec_level =>
    span.elems buf in_buf in_buf_len dec_level tab.length tab (0, 0)

/-- The table with the span of every nested table. -/
def spans (ei_array : List ElemInfo) : List (ElemInfo × Span) := resolve span.table ei_array

theorem span_flag_suffix {D : Type} (l : List (ElemInfo × D)) : span.flag l <:+ l := by
  cases l with
  | nil => exact List.suffix_rfl
  | cons e l =>
    rw [span.flag]
    split
    · exact List.suffix_cons _ _
    · exact List.suffix_rfl

theorem span_len_suffix {D : Type} (buf : Mem) (p v : ℕ) (l : List (ElemInfo × D)) :
    (span.len buf p v l).2.2 <:+ l := by
  cases l with
  | nil => exact List.suffix_rfl
  | cons e l =>
    rw [span.len]
    split
    · exact List.suffix_cons _ _
    · exact List.suffix_rfl

/-! ## The decoder takes its span

`Yields` relates a computation to what an optional value predicts for it; the relation also sees how
far the computation read. -/

section Yields

variable {α β γ δ : Type}

/-- The computation returns a value related to the predicted one, or stops if none is
predicted. -/
def Yields (R : α → β → ℕ → Prop) (x : Traced α) (r : Option β) : Prop :=
  match r with
  | some b => ∃ a, x.result = .ok a ∧ R a b x.reads
  | none => ∃ f, x.result = .error f

variable {R : α → β → ℕ → Prop}

theorem Yields.some {x : Traced α} {a : α} {b : β} (hx : x.result = .ok a) (hR : R a b x.reads) :
    Yields R x (some b) := ⟨a, hx, hR⟩

theorem Yields.fail (f : Fault) : Yields R (Traced.fail f : Traced α) (none : Option β) := ⟨f, rfl⟩

theorem Yields.bind {S : γ → δ → ℕ → Prop} {x : Traced α} {r : Option β} (hx : Yields R x r)
    {f : α → Traced γ} {g : β → Option δ}
    (hfg : ∀ a b, R a b x.reads → Yields (fun c d k => S c d (max x.reads k)) (f a) (g b)) :
    Yields S (x >>= f) (r.bind g) := by
  cases r with
  | none =>
    obtain ⟨e, he⟩ := hx
    exact ⟨e, by rw [Traced.bind_of_error he]⟩
  | some b =>
    obtain ⟨a, ha, hR⟩ := hx
    have := hfg a b hR
    rw [Traced.bind_of_ok ha, Option.bind_some]
    cases hg : g b with
    | none =>
      rw [hg] at this
      exact this
    | some d =>
      rw [hg] at this
      exact this

/-- A first part that only reads. -/
theorem Yields.read_bind {S : γ → δ → ℕ → Prop} {buf : Mem} {p n : ℕ}
    {f : List UInt8 → Traced γ} {r : Option δ}
    (hf : Yields (fun c d k => ∀ j ≤ p + n, S c d (max j k)) (f (bytesAt buf p n)) r) :
    Yields S (Traced.read buf p n >>= f) r := by
  have hread := Traced.read_reads_le buf p n
  rw [Traced.bind_of_ok (Traced.read_result _ _ _)]
  cases r with
  | none => exact hf
  | some d =>
    obtain ⟨c, hc, hS⟩ := hf
    exact ⟨c, hc, hS _ hread⟩

theorem Yields.mono {S : α → β → ℕ → Prop} {x : Traced α} {r : Option β} (hx : Yields R x r)
    (h : ∀ a b k, R a b k → S a b k) : Yields S x r := by
  cases r with
  | none => exact hx
  | some b =>
    obtain ⟨a, ha, hR⟩ := hx
    exact ⟨a, ha, h _ _ _ hR⟩

/-- What is known when the computation returned. -/
theorem Yields.of_ok {x : Traced α} {r : Option β} (hx : Yields R x r) {a : α}
    (ha : x.result = .ok a) : ∃ b, r = Option.some b ∧ R a b x.reads := by
  cases r with
  | none =>
    obtain ⟨f, hf⟩ := hx
    rw [ha] at hf
    cases hf
  | some b =>
    obtain ⟨a', ha', hR⟩ := hx
    rw [ha] at ha'
    cases ha'
    exact ⟨b, rfl, hR⟩

end Yields

/-- A nested decoder takes its span. -/
def Takes (d : Dec) (s : Span) : Prop :=
  ∀ buf out in_buf in_buf_len level, 2 ≤ level →
    Yields (fun a b k => a = b ∧ k ≤ in_buf + b) (d buf out in_buf in_buf_len level)
      (s buf in_buf in_buf_len level)

/-- Tables with the same elements, whose nested decoders take their spans. -/
abbrev Paired : List (ElemInfo × Dec) → List (ElemInfo × Span) → Prop :=
  List.Forall₂ fun d s => d.1 = s.1 ∧ Takes d.2 s.2

theorem basic_elem_reads (buf : Mem) (dst p n sz : ℕ) :
    (qmi_decode_basic_elem buf dst p n sz).reads ≤ p + n * sz := by
  have := Traced.read_reads_le buf p (n * sz)
  rw [qmi_decode_basic_elem, Traced.bind_of_ok (Traced.read_result _ _ _),
    Traced.bind_of_ok (Traced.store_result _ _)]
  simpa using this

theorem basic_elem_result (buf : Mem) (dst p n sz : ℕ) :
    (qmi_decode_basic_elem buf dst p n sz).result = .ok (n * sz) := by
  rfl

section Elements

variable (buf : Mem) {level : ℕ}

theorem struct_loop_span {d : Dec} {s : Span} (hds : Takes d s) (hl : 2 ≤ level)
    (elem_size tlv_len buf_src n dst i bytes : ℕ) :
    Yields (fun a b k => a = b ∧ bytes ≤ b.2 ∧ k ≤ buf_src + b.2)
      (qmi_decode_struct_elem.loop d buf elem_size tlv_len level n dst (buf_src + bytes) i bytes)
      (span.structs (fun p len => s buf p len level) buf_src tlv_len n (i, bytes)) := by
  induction n generalizing dst i bytes with
  | zero => exact .some rfl ⟨rfl, le_refl _, Nat.zero_le _⟩
  | succ n ih =>
    rw [qmi_decode_struct_elem.loop, span.structs]
    split
    · refine (hds buf dst (buf_src + bytes) (tlv_len - bytes) level hl).bind fun a b hab => ?_
      obtain ⟨rfl, hk⟩ := hab
      rw [Nat.add_assoc]
      refine (ih (dst + elem_size) (i + 1) (bytes + a)).mono fun c e k hc => ?_
      obtain ⟨rfl, h1, h2⟩ := hc
      exact ⟨rfl, by omega, by omega⟩
    · exact .some rfl ⟨rfl, le_refl _, Nat.zero_le _⟩

theorem struct_elem_span {d : Dec} {s : Span} (hds : Takes d s) (hl : 2 ≤ level)
    (elem_size tlv_len buf_src n dst : ℕ) :
    Yields (fun a b k => a = b ∧ k ≤ buf_src + b)
      (qmi_decode_struct_elem d buf dst buf_src n elem_size tlv_len level)
      (span.struct (fun p len => s buf p len level) buf_src tlv_len n level) := by
  have hloop := struct_loop_span buf hds hl elem_size tlv_len buf_src n dst 0 0
  rw [Nat.add_zero] at hloop
  refine hloop.bind fun a b hab => ?_
  obtain ⟨rfl, -, hk⟩ := hab
  obtain ⟨i, bytes⟩ := a
  simp only
  split
  · exact .fail _
  · exact .some rfl ⟨rfl, by simpa using hk⟩

theorem string_elem_span (e : ElemInfo) (buf_src tlv_len dst : ℕ) :
    Yields (fun a b k => a = b ∧ k ≤ buf_src + b)
      (qmi_decode_string_elem e buf dst buf_src tlv_len level)
      (span.string e buf buf_src tlv_len level) := by
  -- the part after the length, for a length of `sz` bytes and the value `len`
  have htail : ∀ sz len, Yields (fun a b k => a = b ∧ sz ≤ b ∧ k ≤ buf_src + b)
      (if len > e.elem_len then Traced.fail (.errno EINVAL)
        else if len > tlv_len then Traced.fail (.errno EFAULT)
        else qmi_decode_basic_elem buf dst (buf_src + sz) len e.elem_size >>= fun rc =>
          Traced.store (dst + len) [0] >>= fun _ => pure (sz + rc))
      (if len > e.elem_len ∨ len > tlv_len then none else some (sz + len * e.elem_size)) := by
    intro sz len
    split
    · rw [if_pos (by tauto)]
      exact .fail _
    split
    · rw [if_pos (by tauto)]
      exact .fail _
    · rw [if_neg (by tauto), Traced.bind_of_ok (basic_elem_result _ _ _ _ _)]
      have := basic_elem_reads buf dst (buf_src + sz) len e.elem_size
      refine .some rfl ⟨rfl, Nat.le_add_right _ _, ?_⟩
      rw [Traced.bind_of_ok (Traced.store_result _ _)]
      simpa [Nat.add_assoc] using this
  unfold qmi_decode_string_elem qmi_decode_string_elem.len span.string
  by_cases hl : level = 1
  · simp only [if_pos hl, pure_bind]
    exact (htail 0 tlv_len).mono fun a b k h => ⟨h.1, h.2.2⟩
  · simp only [if_neg hl, bind_assoc, pure_bind]
    refine Yields.read_bind ((htail _ _).mono fun a b k h => ?_)
    exact fun j hj => ⟨h.1, by omega⟩

theorem elem_span {d : ElemInfo × Dec} {s : ElemInfo × Span} (hds : d.1 = s.1 ∧ Takes d.2 s.2)
    (hl : 1 ≤ level) (out : ℕ) (st : DecState) :
    Yields (fun a b k => a = b ∧ k ≤ st.buf_src + b) (qmi_decode.elem buf out level d st)
      (span.elem buf level s st.buf_src st.tlv_len st.data_len_value) := by
  obtain ⟨hds1, htakes⟩ := hds
  have hbasic : Yields (fun a b k => a = b ∧ k ≤ st.buf_src + b)
      (qmi_decode_basic_elem buf (out + d.1.offset) st.buf_src st.data_len_value d.1.elem_size)
      (some (st.data_len_value * d.1.elem_size)) :=
    .some (basic_elem_result _ _ _ _ _) ⟨rfl, basic_elem_reads _ _ _ _ _⟩
  unfold qmi_decode.elem span.elem
  rw [← hds1]
  cases d.1.data_type
  case struct => exact struct_elem_span buf htakes (by omega) _ _ _ _ _
  case string => exact string_elem_span buf _ _ _ _
  case eoti => exact .fail _
  case optFlag => exact .fail _
  case dataLen => exact .fail _
  all_goals exact hbasic

theorem count_span (e : ElemInfo) (v : ℕ) :
    Yields (fun a b k => a = b ∧ k = 0) (qmi_decode.count e v) (span.count e v) := by
  unfold qmi_decode.count span.count
  cases e.array_type with
  | noArray => exact .some rfl ⟨rfl, rfl⟩
  | staticArray => exact .some rfl ⟨rfl, rfl⟩
  | varLenArray =>
    simp only
    split
    · exact .fail _
    · exact .some rfl ⟨rfl, rfl⟩

theorem flag_span {ds : List (ElemInfo × Dec)} {ss : List (ElemInfo × Span)}
    (h : Paired ds ss) (out : ℕ) :
    Yields (fun a b k => Paired a b ∧ k = 0) (qmi_decode.opt_flag out ds)
      (some (span.flag ss)) := by
  cases h with
  | nil => exact .some rfl ⟨.nil, rfl⟩
  | cons h1 h2 =>
    simp only [qmi_decode.opt_flag, span.flag, h1.1]
    split
    · exact .some rfl ⟨h2, rfl⟩
    · exact .some rfl ⟨.cons h1 h2, rfl⟩

theorem data_len_sz_pos (n : ℕ) : 0 < data_len_sz n := by
  unfold data_len_sz
  split <;> omega

/-- The count in front of an array, if there is one, is read and taken off the length. -/
theorem len_span {ds : List (ElemInfo × Dec)} {ss : List (ElemInfo × Span)} (h : Paired ds ss)
    (out : ℕ) (st : DecState) :
    Yields (fun a b k => Paired a.1 b.2.2 ∧ k ≤ st.buf_src + b.1 ∧
        a.2 = ⟨b.2.1, if b.1 = 0 then st.tlv_len else wsub st.tlv_len b.1, st.buf_src + b.1,
          st.decoded_bytes + b.1⟩)
      (qmi_decode.data_len buf out st ds)
      (some (span.len buf st.buf_src st.data_len_value ss)) := by
  cases h with
  | nil => exact .some rfl ⟨.nil, Nat.zero_le _, rfl⟩
  | @cons d s ds ss h1 h2 =>
    simp only [qmi_decode.data_len, span.len, h1.1]
    split
    · refine Yields.read_bind (.some rfl fun j hj => ⟨h2, ?_, ?_⟩)
      · rw [Traced.bind_of_ok (Traced.store_result _ _)]
        simpa using hj
      · have := data_len_sz_pos s.1.elem_size
        simp only [DecState.update]
        rw [if_neg (by omega)]
    · exact .some rfl ⟨.cons h1 h2, Nat.zero_le _, rfl⟩

theorem body_span {ds : List (ElemInfo × Dec)} {ss : List (ElemInfo × Span)} (h : Paired ds ss)
    (hl : 1 ≤ level) (out : ℕ) (st : DecState) :
    Yields (fun a b k => Paired a.1 b.2.2 ∧ a.2.data_len_value = b.2.1 ∧
        a.2.buf_src = st.buf_src + b.1 ∧ a.2.decoded_bytes = st.decoded_bytes + b.1 ∧
        k ≤ st.buf_src + b.1)
      (qmi_decode.body buf out level ds st)
      (span.body buf level ss st.buf_src st.tlv_len st.data_len_value) := by
  refine (flag_span h out).bind (g := fun ss' => span.counted buf level st.buf_src st.tlv_len
    (span.len buf st.buf_src st.data_len_value ss')) fun ds1 ss1 h1 => ?_
  refine (len_span buf h1.1 out st).bind (g := span.counted buf level st.buf_src st.tlv_len)
    fun r l h2 => ?_
  obtain ⟨ds2, st2⟩ := r
  obtain ⟨sz, v, ss2⟩ := l
  obtain ⟨hpair2, hk2, hst2⟩ := h2
  simp only at hpair2 hk2 hst2
  subst hst2
  cases hpair2 with
  -- a flag or a count with nothing behind it leaves the table
  | nil => exact .fail _
  | @cons d s ds ss hds h3 =>
    simp only [span.counted, hds.1]
    refine (count_span s.1 v).bind fun n m hnm => ?_
    obtain ⟨rfl, hk3⟩ := hnm
    refine (elem_span buf hds hl out ⟨n, if sz = 0 then st.tlv_len else wsub st.tlv_len sz,
      st.buf_src + sz, st.decoded_bytes + sz⟩).bind fun rc b hrc => ?_
    obtain ⟨rfl, hk4⟩ := hrc
    have hk1 := h1.2
    simp only at hk4
    refine .some rfl ⟨h3, rfl, ?_, ?_, ?_⟩
    · simp only [DecState.update]
      omega
    · simp only [DecState.update]
      omega
    · simp only [Traced.pure_reads]
      omega

theorem elems_span (hl : 2 ≤ level) (out in_buf in_buf_len n : ℕ)
    {ds : List (ElemInfo × Dec)} {ss : List (ElemInfo × Span)} (h : Paired ds ss)
    (st : DecState) (hst : st.buf_src = in_buf + st.decoded_bytes) :
    Yields (fun a b k => a = b ∧ st.decoded_bytes ≤ b ∧ k ≤ in_buf + b)
      (qmi_decode.elem_loop buf out in_buf_len level n ds st)
      (span.elems buf in_buf in_buf_len level n ss (st.decoded_bytes, st.data_len_value)) := by
  induction n generalizing ds ss st with
  | zero => exact .some rfl ⟨rfl, le_refl _, Nat.zero_le _⟩
  | succ n ih =>
    have hempty : ds.isEmpty = ss.isEmpty := by cases h <;> rfl
    rw [qmi_decode.elem_loop, span.elems, hempty]
    by_cases hgo : st.decoded_bytes < in_buf_len ∧ ¬ ss.isEmpty
    · rw [if_pos hgo, if_pos hgo.1, if_neg hgo.2, ← hst]
      refine (body_span buf h (by omega) out
        { st with tlv_len := in_buf_len - st.decoded_bytes }).bind fun a b hab => ?_
      obtain ⟨ds', st'⟩ := a
      obtain ⟨hpair, hv, hsrc, hdec, hk⟩ := hab
      simp only at hpair hv hsrc hdec hk
      have hrec := ih hpair st' (by omega)
      rw [hdec, hv] at hrec
      refine hrec.mono fun a c k hac => ⟨hac.1, by omega, by omega⟩
    · rw [if_neg hgo]
      refine .some ?_ ⟨rfl, le_refl _, ?_⟩
      · split
        · rw [if_pos (by simpa [*] using hgo)]
          rfl
        · rfl
      · split
        · rw [if_pos (by simpa [*] using hgo)]
          exact Nat.zero_le _
        · exact Nat.zero_le _

end Elements

theorem table_span {ds : List (ElemInfo × Dec)} {ss : List (ElemInfo × Span)}
    (h : Paired ds ss) : Takes (qmi_decode.table ds) (span.table ss) := by
  intro buf out in_buf in_buf_len level hl
  have := elems_span buf hl out in_buf in_buf_len ds.length h (.init in_buf) rfl
  unfold qmi_decode.table span.table
  rw [if_neg (by omega), ← h.length_eq]
  exact this.mono fun a b k h => ⟨h.1, h.2.2⟩

/-- Every nested decoder takes its span. -/
theorem paired_spans (tab : List ElemInfo) :
    Paired (resolve qmi_decode.table tab) (spans tab) := by
  rw [spans]
  induction tab using table_induction with
  | nil => exact .nil
  | cons e rest ihe ih =>
    rw [resolve_eq_map, resolve_eq_map] at ih ⊢
    exact .cons ⟨rfl, table_span ihe⟩ ih

/-! ## Messages

At level 1 the span of a TLV can be more or less than the length it declares. If it is more, the
decoder reads behind the TLV, and for the last one behind the message. The condition asks of every
TLV that the two agree, unless some TLV before it is refused. -/

/-- The declared length of the TLV at a position. -/
def declaredLen (buf : Mem) (pos : ℕ) : ℕ := leNat (bytesAt buf (pos + 1) 2)

/-- What the TLV at a position takes behind its header, and the count it leaves behind; `none` if
it is refused. An unknown optional TLV is skipped. -/
def tlvSpan (tab : List (ElemInfo × Span)) (buf : Mem) (pos data_len_value : ℕ) :
    Option (ℕ × ℕ) :=
  match find_ei tab (buf pos) with
  | none =>
    if buf pos < OPTIONAL_TLV_TYPE_START then none
    else some (declaredLen buf pos, data_len_value)
  | some temp_ei =>
    (span.body buf 1 temp_ei (pos + TLV_SIZE) (declaredLen buf pos) data_len_value).bind
      fun r => some (r.1, r.2.1)

/-- Some TLV of the message is refused. The TLVs follow one another by what they take, from a
position and a count on; `n` bounds their number. -/
def Refused (tab : List (ElemInfo × Span)) (buf : Mem) (in_buf_len : ℕ) : ℕ → ℕ → ℕ → Prop
  | 0, _, _ => False
  | n + 1, pos, v =>
    pos < in_buf_len ∧
      match tlvSpan tab buf pos v with
      | none => True
      | some r => Refused tab buf in_buf_len n (pos + TLV_SIZE + r.1) r.2

/-- Every TLV of the message takes what it declares, and lies inside the message. -/
def Declared (tab : List (ElemInfo × Span)) (buf : Mem) (in_buf_len : ℕ) : ℕ → ℕ → ℕ → Prop
  | 0, _, _ => True
  | n + 1, pos, v =>
    pos < in_buf_len →
      match tlvSpan tab buf pos v with
      | none => False
      | some r => r.1 = declaredLen buf pos ∧ pos + TLV_SIZE + r.1 ≤ in_buf_len ∧
          Declared tab buf in_buf_len n (pos + TLV_SIZE + r.1) r.2

/-- Along the loop of `qmi_decode` at level 1, every TLV of a known type moves the cursor by its
header and its declared length. -/
def Advances (buf : Mem) (out_c_struct in_buf_len : ℕ) (tab : List (ElemInfo × Dec)) :
    ℕ → DecState → Prop
  | 0, _ => True
  | n + 1, st =>
    st.decoded_bytes < in_buf_len → ∀ st', (qmi_decode.tlv buf out_c_struct tab st).result = .ok st' →
      ((find_ei tab (buf st.buf_src)).isSome →
        st'.buf_src = st.buf_src + TLV_SIZE + declaredLen buf st.buf_src) ∧
      Advances buf out_c_struct in_buf_len tab n st'

instance decidableDeclared (tab : List (ElemInfo × Span)) (buf : Mem) (in_buf_len : ℕ) :
    ∀ n pos v, Decidable (Declared tab buf in_buf_len n pos v)
  | 0, _, _ => .isTrue trivial
  | n + 1, pos, v =>
    match h : tlvSpan tab buf pos v with
    | none => decidable_of_iff (¬ pos < in_buf_len) (by simp [Declared, h])
    | some r =>
      have := decidableDeclared tab buf in_buf_len n (pos + TLV_SIZE + r.1) r.2
      decidable_of_iff (pos < in_buf_len → r.1 = declaredLen buf pos ∧
        pos + TLV_SIZE + r.1 ≤ in_buf_len ∧
        Declared tab buf in_buf_len n (pos + TLV_SIZE + r.1) r.2) (by simp only [Declared, h])

theorem find_ei_paired {ds : List (ElemInfo × Dec)} {ss : List (ElemInfo × Span)}
    (h : Paired ds ss) (t : UInt8) :
    (find_ei ds t = none ∧ find_ei ss t = none) ∨
      ∃ ds' ss', find_ei ds t = some ds' ∧ find_ei ss t = some ss' ∧ Paired ds' ss' := by
  induction h with
  | nil => exact .inl ⟨rfl, rfl⟩
  | @cons d s ds ss h1 h2 ih =>
    simp only [find_ei, h1.1]
    split
    · exact .inr ⟨_, _, rfl, rfl, .cons h1 h2⟩
    · exact ih

section Walk

variable (buf : Mem) (out : ℕ) {ds : List (ElemInfo × Dec)} {ss : List (ElemInfo × Span)}

/-- One TLV takes its span. -/
theorem tlv_span (h : Paired ds ss) (st : DecState) :
    Yields (fun a b k => a.data_len_value = b.2 ∧ a.buf_src = st.buf_src + TLV_SIZE + b.1 ∧
        a.decoded_bytes = st.decoded_bytes + TLV_SIZE + b.1 ∧ k ≤ st.buf_src + TLV_SIZE + b.1)
      (qmi_decode.tlv buf out ds st) (tlvSpan ss buf st.buf_src st.data_len_value) := by
  unfold qmi_decode.tlv qmi_decode.header
  simp only [bind_assoc, pure_bind]
  refine Yields.read_bind ?_
  have htype : (bytesAt buf st.buf_src TLV_SIZE).getD 0 0 = buf st.buf_src := rfl
  have hlen : leNat ((bytesAt buf st.buf_src TLV_SIZE).drop 1) = declaredLen buf st.buf_src := rfl
  rw [htype, hlen, tlvSpan]
  rcases find_ei_paired h (buf st.buf_src) with ⟨hd, hs⟩ | ⟨ds', ss', hd, hs, hpair⟩
  · rw [hd, hs]
    simp only
    split
    · exact .fail _
    · refine .some rfl fun j hj => ⟨rfl, rfl, rfl, ?_⟩
      simp only [Traced.pure_reads]
      omega
  · rw [hd, hs]
    refine (body_span buf hpair (le_refl 1) out ({ st with
      tlv_len := declaredLen buf st.buf_src }.update TLV_SIZE)).bind fun a b hab => ?_
    obtain ⟨-, hv, hsrc, hdec, hk⟩ := hab
    change _ ≤ st.buf_src + TLV_SIZE + b.1 at hk
    refine .some rfl fun j hj => ⟨hv, hsrc, hdec, ?_⟩
    simp only [Traced.pure_reads]
    omega

/-- A TLV of an unknown type takes what it declares. -/
theorem tlvSpan_unknown (h : Paired ds ss) {pos v : ℕ} {r : ℕ × ℕ}
    (hr : tlvSpan ss buf pos v = some r) (hknown : ¬ (find_ei ds (buf pos)).isSome) :
    r.1 = declaredLen buf pos := by
  rcases find_ei_paired h (buf pos) with ⟨-, hs⟩ | ⟨ds', ss', hd, -, -⟩
  · rw [tlvSpan, hs] at hr
    simp only at hr
    split at hr
    · cases hr
    · cases hr
      rfl
  · rw [hd] at hknown
    exact absurd rfl hknown

/-- The loop at level 1 stops with a fault exactly if it comes to a TLV that is refused. The
positions of `Refused` are those of the message memory. -/
theorem tlv_loop_refused (h : Paired ds ss) (in_buf in_buf_len n : ℕ) (st : DecState)
    (hst : st.buf_src = in_buf + st.decoded_bytes) :
    (∃ f, (qmi_decode.tlv_loop buf out in_buf_len ds n st).result = .error f) ↔
      Refused ss buf (in_buf + in_buf_len) n st.buf_src st.data_len_value := by
  induction n generalizing st with
  | zero => simp [qmi_decode.tlv_loop, Refused]
  | succ n ih =>
    rw [qmi_decode.tlv_loop, Refused]
    by_cases hlt : st.decoded_bytes < in_buf_len
    swap
    · have hge : ¬ st.buf_src < in_buf + in_buf_len := by omega
      simp [hlt, hge]
    have hpos : st.buf_src < in_buf + in_buf_len := by omega
    rw [if_pos hlt]
    have hstep := tlv_span buf out h st
    cases hspan : tlvSpan ss buf st.buf_src st.data_len_value with
    | none =>
      rw [hspan] at hstep
      obtain ⟨f, hf⟩ := hstep
      exact ⟨fun _ => ⟨hpos, trivial⟩, fun _ => ⟨f, by rw [Traced.bind_of_error hf]⟩⟩
    | some r =>
      rw [hspan] at hstep
      obtain ⟨st', hok, hv, hsrc, hdec, -⟩ := hstep
      have hrec := ih st' (by omega)
      rw [hsrc, hv] at hrec
      rw [Traced.bind_of_ok hok]
      exact hrec.trans ⟨fun h => ⟨hpos, h⟩, fun h => h.2⟩

/-- The loop at level 1 over a message that is not refused, from a position inside it on. -/
theorem tlv_loop_span (h : Paired ds ss) (in_buf_len n : ℕ) (st : DecState)
    (hst : st.buf_src = st.decoded_bytes)
    (hr : ¬ Refused ss buf in_buf_len n st.decoded_bytes st.data_len_value) :
    ∃ m, (qmi_decode.tlv_loop buf out in_buf_len ds n st).result = .ok m ∧
      (qmi_decode.tlv_loop buf out in_buf_len ds n st).reads ≤ m ∧ st.decoded_bytes ≤ m ∧
      (st.decoded_bytes ≤ in_buf_len → in_buf_len ≤ st.decoded_bytes + n →
        ((m = in_buf_len ∧ Advances buf out in_buf_len ds n st) ↔
          Declared ss buf in_buf_len n st.decoded_bytes st.data_len_value)) := by
  induction n generalizing st with
  | zero =>
    refine ⟨_, rfl, Nat.zero_le _, le_refl _, fun h1 h2 => ?_⟩
    simp only [Advances, Declared, and_true, iff_true]
    omega
  | succ n ih =>
    rw [Refused] at hr
    rw [qmi_decode.tlv_loop, Declared, Advances]
    by_cases hlt : st.decoded_bytes < in_buf_len
    swap
    · rw [if_neg hlt]
      refine ⟨_, rfl, Nat.zero_le _, le_refl _, fun h1 _ => ?_⟩
      exact ⟨fun _ h => absurd h hlt, fun _ => ⟨by omega, fun h => absurd h hlt⟩⟩
    rw [if_pos hlt]
    have hstep := tlv_span buf out h st
    rw [hst] at hstep
    cases hspan : tlvSpan ss buf st.decoded_bytes st.data_len_value with
    | none =>
      rw [hspan] at hr
      exact absurd ⟨hlt, trivial⟩ hr
    | some r =>
      rw [hspan] at hstep hr
      obtain ⟨st', hok, hv, hsrc, hdec, hk⟩ := hstep
      have hrest := ih st' (by omega)
      rw [hdec, hv] at hrest
      rw [Traced.bind_of_ok hok]
      obtain ⟨m, hm, hreads, hle, hiff⟩ := hrest fun h => hr ⟨hlt, h⟩
      refine ⟨m, hm, by simp only; omega, by omega, fun h1 h2 => ?_⟩
      -- known TLVs by `Advances`, unknown ones by the definition of their span
      constructor
      · rintro ⟨rfl, hadv⟩ -
        obtain ⟨hknown, hrest⟩ := hadv hlt st' hok
        have hdecl : r.1 = declaredLen buf st.decoded_bytes := by
          by_cases hf : (find_ei ds (buf st.decoded_bytes)).isSome
          · rw [hst] at hknown
            have := hknown hf
            omega
          · exact tlvSpan_unknown buf h hspan hf
        exact ⟨hdecl, hle, (hiff hle (by unfold TLV_SIZE; omega)).mp ⟨rfl, hrest⟩⟩
      · intro hdecl
        obtain ⟨hr1, hfit, hrest⟩ := hdecl hlt
        obtain ⟨hmN, hadv⟩ := (hiff hfit (by unfold TLV_SIZE; omega)).mpr hrest
        refine ⟨hmN, fun _ st'' hst'' => ?_⟩
        rw [hok] at hst''
        cases hst''
        refine ⟨fun _ => ?_, hadv⟩
        rw [hsrc, hr1, hst]

/-- An accepted message that is taken as declared moves over its TLVs so. -/
theorem advances_of_declared (h : Paired ds ss) (in_buf_len : ℕ) {m : ℕ}
    (hok : (qmi_decode.tlv_loop buf out in_buf_len ds in_buf_len (.init 0)).result = .ok m)
    (hdecl : Declared ss buf in_buf_len in_buf_len 0 0) :
    Advances buf out in_buf_len ds in_buf_len (.init 0) := by
  have hrefused := tlv_loop_refused buf out h 0 in_buf_len in_buf_len (.init 0) rfl
  rw [Nat.zero_add] at hrefused
  have hr : ¬ Refused ss buf in_buf_len in_buf_len 0 0 := by
    intro hr
    obtain ⟨f, hf⟩ := hrefused.mpr hr
    rw [hok] at hf
    cases hf
  obtain ⟨_, -, -, -, hiff⟩ := tlv_loop_span buf out h in_buf_len in_buf_len (.init 0) rfl hr
  exact ((hiff (Nat.zero_le _) (Nat.le_add_left _ _)).mpr hdecl).2

end Walk

/-- If `qmi_decode` at level 1 returns, it returns `in_buf_len`, has read only below it, and has
moved over every known TLV by the declared length. -/
def Framed (ei_array : List ElemInfo) (buf : Mem) (out_c_struct in_buf_len : ℕ) : Prop :=
  ∀ n, (qmi_decode ei_array buf out_c_struct 0 in_buf_len 1).result = .ok n →
    n = in_buf_len ∧ (qmi_decode ei_array buf out_c_struct 0 in_buf_len 1).reads ≤ in_buf_len ∧
      Advances buf out_c_struct in_buf_len (resolve qmi_decode.table ei_array) in_buf_len (.init 0)

/-- **The decoder keeps to the message exactly when the message is refused or taken as
declared**, that is, if and only if one of its TLVs is refused or all of them take what they
declare, inside the message. The table and the message are of a size for which every counter of
the decoder stays an `int`, on every path. -/
theorem qmi_decode_framed_iff (ei_array : List ElemInfo) (buf : Mem)
    (out_c_struct in_buf_len : ℕ) (hsize : in_buf_len + tlvExtent ei_array < 2 ^ 31) :
    Traced.Within (2 ^ 31 - 1) (qmi_decode ei_array buf out_c_struct 0 in_buf_len 1)
        (fun n => n < 2 ^ 31) ∧
      (Framed ei_array buf out_c_struct in_buf_len ↔
        (Refused (spans ei_array) buf in_buf_len in_buf_len 0 0 ∨
          Declared (spans ei_array) buf in_buf_len in_buf_len 0 0)) := by
  refine ⟨(qmi_decode_within ei_array buf out_c_struct 0 in_buf_len).mono (by omega)
    fun n hn => by omega, ?_⟩
  unfold Framed
  have hrefused := tlv_loop_refused buf out_c_struct (paired_spans ei_array) 0 in_buf_len
    in_buf_len (.init 0) rfl
  rw [Nat.zero_add] at hrefused
  have hdec : qmi_decode ei_array buf out_c_struct 0 in_buf_len 1 =
      qmi_decode.tlv_loop buf out_c_struct in_buf_len (resolve qmi_decode.table ei_array)
        in_buf_len (.init 0) := rfl
  rw [hdec]
  -- a refused message returns nothing, and otherwise the TLVs are moved over one by one
  by_cases hr : Refused (spans ei_array) buf in_buf_len in_buf_len 0 0
  · obtain ⟨f, hf⟩ := hrefused.mpr hr
    refine ⟨fun _ => .inl hr, fun _ n hn => ?_⟩
    rw [hf] at hn
    cases hn
  · obtain ⟨m, hm, hreads, -, hiff⟩ := tlv_loop_span buf out_c_struct (paired_spans ei_array)
      in_buf_len in_buf_len (.init 0) rfl hr
    have hiff := hiff (Nat.zero_le _) (Nat.le_add_left _ _)
    constructor
    · intro h
      obtain ⟨hmN, -, hadv⟩ := h m hm
      exact .inr (hiff.mp ⟨hmN, hadv⟩)
    · rintro (h | h) n hn
      · exact absurd h hr
      · obtain ⟨hmN, hadv⟩ := hiff.mpr h
        rw [hm] at hn
        cases hn
        exact ⟨hmN, by omega, hadv⟩

/-- A message with one 32-bit number in a TLV of type 1. -/
def oneNumber : List ElemInfo := [⟨.unsigned4Byte, 1, 4, .noArray, 1, 0, []⟩]

/-- The bytes `01 01 00` and zeros: a TLV of type 1 that declares a length of one. -/
def shortNumber : Mem := fun a => if a < 2 then 1 else 0

/-- The bytes `01 04 00` and four more: the number 7 in a TLV that declares its length. -/
def wholeNumber : Mem := fun a => [1, 4, 0, 7, 0, 0, 0].getD a 0

/-- A number in a TLV of its own length is decoded from the message. -/
theorem qmi_decode_framed_number : Framed oneNumber wholeNumber 0 7 :=
  (qmi_decode_framed_iff oneNumber wholeNumber 0 7 (by decide)).2.mpr (.inr (by decide))

/-- A number in a TLV of length one, in a message of four bytes, is decoded from four bytes: the
last three are behind the message, and 7 is returned. -/
theorem qmi_decode_past_message :
    (qmi_decode oneNumber shortNumber 0 0 4 1).result = .ok 7 ∧ ¬ Framed oneNumber shortNumber 0 4 := by
  refine ⟨rfl, fun h => ?_⟩
  have h7 : (qmi_decode oneNumber shortNumber 0 0 4 1).result = .ok 7 := rfl
  exact absurd (h 7 h7).1 (by decide)

end Dragonboard.Qmi
