/-
The decoder depends on the bytes it reads, and on nothing else.

`Views` are two places in two messages. `Local` compares a computation at the first with a
computation at the second: if the bytes behind the two places are the same, as far as the first
computation reads, then both store the same, and both return or stop with the same fault. The
relation is closed under sequencing, so the decoder is local because its reads are.

At level 1 one thing is carried from one TLV to the next, the count. A count of one byte
overwrites what is left of a count of at most 255, and a string without a count only
compares it with its `elem_len`; so in a message that fits, a TLV is decoded the same whatever
count was left behind (`tlv_local`).
-/
import Dragonboard.QmiFields

set_option autoImplicit false

namespace Dragonboard.Qmi

open Dragonboard.Memory

/-! ## Two places

To compare two decodings of one TLV, at different places of different messages, the computations
are run side by side. `Local` says that they are alike as long as the first one reads only bytes
the two places share; it is closed under `bind`, and each step of the decoder is shown to be local
in turn. -/

/-- A place in each of two messages. -/
structure Views where
  buf : Mem
  buf' : Mem
  p : ℕ
  p' : ℕ

/-- The bytes behind the two places are the same, up to an address of the first message. -/
def Views.Shared (w : Views) (limit : ℕ) : Prop :=
  ∀ i, w.p + i < limit → w.buf (w.p + i) = w.buf' (w.p' + i)

/-- The same distance behind the two places. -/
def Views.shift (w : Views) (k : ℕ) : Views := { w with p := w.p + k, p' := w.p' + k }

theorem Views.Shared.mono {w : Views} {m n : ℕ} (h : w.Shared n) (hmn : m ≤ n) : w.Shared m :=
  fun i hi => h i (by omega)

theorem Views.Shared.shift {w : Views} {n : ℕ} (h : w.Shared n) (k : ℕ) : (w.shift k).Shared n := by
  intro i hi
  change w.p + k + i < n at hi
  have := h (k + i) (by omega)
  rwa [← Nat.add_assoc, ← Nat.add_assoc] at this

section Alike

variable {α β γ δ : Type} {R : α → β → Prop} {S : γ → δ → Prop}

/-- The two computations store the same, and return related values or stop with the same fault. -/
def Alike (R : α → β → Prop) (x : Traced α) (y : Traced β) : Prop :=
  x.stores = y.stores ∧
    ((∃ a b, x.result = .ok a ∧ y.result = .ok b ∧ R a b) ∨
      ∃ f, x.result = .error f ∧ y.result = .error f)

/-- The two computations are alike if the first reads only bytes that the places share. -/
def Local (w : Views) (R : α → β → Prop) (x : Traced α) (y : Traced β) : Prop :=
  w.Shared x.reads → Alike R x y

variable {w : Views}

theorem Local.pure {a : α} {b : β} (h : R a b) : Local w R (pure a) (pure b) :=
  fun _ => ⟨rfl, .inl ⟨a, b, rfl, rfl, h⟩⟩

theorem Local.fail (f : Fault) : Local w R (Traced.fail f) (Traced.fail f) :=
  fun _ => ⟨rfl, .inr ⟨f, rfl, rfl⟩⟩

theorem Local.mono {R' : α → β → Prop} {x : Traced α} {y : Traced β} (h : Local w R x y)
    (hR : ∀ a b, R a b → R' a b) : Local w R' x y := by
  intro hs
  obtain ⟨hstores, hres⟩ := h hs
  refine ⟨hstores, hres.imp ?_ id⟩
  rintro ⟨a, b, ha, hb, hab⟩
  exact ⟨a, b, ha, hb, hR a b hab⟩

theorem Local.bind {x : Traced α} {y : Traced β} {f : α → Traced γ} {g : β → Traced δ}
    (hxy : Local w R x y) (hfg : ∀ a b, R a b → Local w S (f a) (g b)) :
    Local w S (x >>= f) (y >>= g) := by
  intro hs
  cases hx : x.result with
  | error e =>
    rw [Traced.bind_of_error hx] at hs ⊢
    obtain ⟨hstores, hres⟩ := hxy hs
    obtain ⟨a, -, ha, -⟩ | ⟨e', he, he'⟩ := hres
    · rw [hx] at ha
      cases ha
    · rw [hx] at he
      cases he
      rw [Traced.bind_of_error he']
      exact ⟨hstores, .inr ⟨e, rfl, rfl⟩⟩
  | ok a =>
    rw [Traced.bind_of_ok hx] at hs ⊢
    obtain ⟨hstores, hres⟩ := hxy (hs.mono (le_max_left _ _))
    obtain ⟨a', b, ha, hb, hab⟩ | ⟨e', he, -⟩ := hres
    · rw [hx] at ha
      cases ha
      obtain ⟨hstores', hres'⟩ := hfg a b hab (hs.mono (le_max_right _ _))
      rw [Traced.bind_of_ok hb]
      exact ⟨by simp only [hstores, hstores'], hres'⟩
    · rw [hx] at he
      cases he

/-- A place further on sees less. -/
theorem Local.of_shift {x : Traced α} {y : Traced β} {k : ℕ} (h : Local (w.shift k) R x y) :
    Local w R x y := fun hs => h (hs.shift k)

/-- A read of shared bytes. -/
theorem Local.read_bind {k n : ℕ} {f : List UInt8 → Traced γ} {g : List UInt8 → Traced δ}
    (h : ∀ bytes, bytes.length = n → Local w S (f bytes) (g bytes)) :
    Local w S (Traced.read w.buf (w.p + k) n >>= f) (Traced.read w.buf' (w.p' + k) n >>= g) := by
  refine Local.bind (R := fun a b => a = b ∧ a.length = n) (fun hs => ?_) ?_
  · refine ⟨rfl, .inl ⟨_, _, rfl, rfl, ?_, bytesAt_length _ _ _⟩⟩
    refine List.ext_getElem (by simp) fun i h1 h2 => ?_
    rw [bytesAt_length] at h1
    rw [bytesAt_getElem, bytesAt_getElem, Nat.add_assoc, Nat.add_assoc]
    refine hs (k + i) ?_
    unfold Traced.read
    simp only
    rw [if_neg (by omega)]
    omega
  · rintro a b ⟨rfl, hlen⟩
    exact h a hlen

theorem Local.store_bind (dst : ℕ) (bytes : List UInt8) {f : Unit → Traced γ}
    {g : Unit → Traced δ} (h : Local w S (f ()) (g ())) :
    Local w S (Traced.store dst bytes >>= f) (Traced.store dst bytes >>= g) :=
  Local.bind (R := fun _ _ => True) (fun _ => ⟨rfl, .inl ⟨(), (), rfl, rfl, trivial⟩⟩)
    fun _ _ _ => h

end Alike

/-! ## Elements

The states of the two decoders differ in the cursor and in the number of decoded bytes, and they
stay apart by the same amount. The count is the same, except for a string, whose own length
replaces it. -/

/-- The states of the two decoders: cursors and decoded bytes have moved by the same amount. -/
structure Moved (w : Views) (d d' : ℕ) (st st' : DecState) : Prop where
  len : st.tlv_len = st'.tlv_len
  cursor : ∃ k, st.buf_src = w.p + k ∧ st'.buf_src = w.p' + k ∧
    st.decoded_bytes = d + k ∧ st'.decoded_bytes = d' + k

/-- A nested decoder is local. -/
def LocalDec (d : Dec) : Prop :=
  ∀ (w : Views) (out in_buf_len level : ℕ), 2 ≤ level →
    Local w Eq (d w.buf out w.p in_buf_len level) (d w.buf' out w.p' in_buf_len level)

section Elements

variable {w : Views} {level : ℕ}

theorem basic_local (dst k n sz : ℕ) :
    Local w Eq (qmi_decode_basic_elem w.buf dst (w.p + k) n sz)
      (qmi_decode_basic_elem w.buf' dst (w.p' + k) n sz) :=
  Local.read_bind fun bytes _ => Local.store_bind dst bytes (.pure rfl)

theorem struct_loop_local {d : Dec} (hd : LocalDec d) (hl : 2 ≤ level) (size tlv_len n : ℕ)
    (dst k i bytes : ℕ) :
    Local w Eq (qmi_decode_struct_elem.loop d w.buf size tlv_len level n dst (w.p + k) i bytes)
      (qmi_decode_struct_elem.loop d w.buf' size tlv_len level n dst (w.p' + k) i bytes) := by
  induction n generalizing dst k i bytes with
  | zero => exact .pure rfl
  | succ n ih =>
    rw [qmi_decode_struct_elem.loop, qmi_decode_struct_elem.loop]
    split
    · refine Local.bind (hd (w.shift k) dst _ level hl).of_shift ?_
      rintro rc _ rfl
      rw [Nat.add_assoc, Nat.add_assoc]
      exact ih _ _ _ _
    · exact .pure rfl

theorem struct_local {d : Dec} (hd : LocalDec d) (hl : 2 ≤ level) (dst k n size tlv_len : ℕ) :
    Local w Eq (qmi_decode_struct_elem d w.buf dst (w.p + k) n size tlv_len level)
      (qmi_decode_struct_elem d w.buf' dst (w.p' + k) n size tlv_len level) := by
  unfold qmi_decode_struct_elem
  refine Local.bind (struct_loop_local hd hl size tlv_len n dst k 0 0) ?_
  rintro ⟨i, bytes⟩ _ rfl
  simp only
  split
  · exact .fail _
  · exact .pure rfl

theorem string_local (e : ElemInfo) (dst k tlv_len : ℕ) :
    Local w Eq (qmi_decode_string_elem e w.buf dst (w.p + k) tlv_len level)
      (qmi_decode_string_elem e w.buf' dst (w.p' + k) tlv_len level) := by
  -- the length is a constant or read from the message; what follows depends on it only
  have hlen : Local w Eq (qmi_decode_string_elem.len e w.buf (w.p + k) tlv_len level)
      (qmi_decode_string_elem.len e w.buf' (w.p' + k) tlv_len level) := by
    unfold qmi_decode_string_elem.len
    split
    · exact .pure rfl
    · exact Local.read_bind fun bytes _ => .pure rfl
  unfold qmi_decode_string_elem
  refine Local.bind hlen ?_
  rintro ⟨sz, len⟩ _ rfl
  simp only
  split
  · exact .fail _
  split
  · exact .fail _
  · rw [Nat.add_assoc, Nat.add_assoc]
    refine Local.bind (basic_local dst (k + sz) len e.elem_size) ?_
    rintro rc _ rfl
    exact Local.store_bind _ _ (.pure rfl)

variable {d d' : ℕ} {st st' : DecState}

/-- The switch of the decoder. A string does not look at the count. -/
theorem elem_local {e : ElemInfo × Dec} (he : e.1.data_type = .struct → LocalDec e.2)
    (hl : 1 ≤ level) (out : ℕ) (hst : Moved w d d' st st')
    (hn : e.1.data_type ≠ .string → st.data_len_value = st'.data_len_value) :
    Local w Eq (qmi_decode.elem w.buf out level e st)
      (qmi_decode.elem w.buf' out level e st') := by
  obtain ⟨hlen, k, hsrc, hsrc', -, -⟩ := hst
  unfold qmi_decode.elem
  rw [hsrc, hsrc', hlen]
  cases ht : e.1.data_type with
  | struct =>
    rw [hn (by simp [ht])]
    exact struct_local (he ht) (by omega) _ _ _ _ _
  | string => exact string_local e.1 _ _ _
  | eoti => exact .fail _
  | optFlag => exact .fail _
  | dataLen => exact .fail _
  | _ =>
    rw [hn (by simp [ht])]
    exact basic_local _ _ _ _

/-- The number of elements: the same from the same count, and for a string no matter from which
count within its length. Only a variable-length array looks at the count at all. -/
theorem count_local {e : ElemInfo} {v v' : ℕ} (h : e.array_type = .varLenArray →
      v = v' ∨ e.data_type = .string ∧ v ≤ e.elem_len ∧ v' ≤ e.elem_len) :
    Local w (fun n n' => (e.data_type ≠ .string → n = n') ∧ (v = v' → n = n'))
      (qmi_decode.count e v) (qmi_decode.count e v') := by
  unfold qmi_decode.count
  cases harray : e.array_type with
  | noArray => exact .pure ⟨fun _ => rfl, fun _ => rfl⟩
  | staticArray => exact .pure ⟨fun _ => rfl, fun _ => rfl⟩
  | varLenArray =>
    simp only
    rcases h harray with rfl | ⟨ht, hv, hv'⟩
    · split
      · exact .fail _
      · exact .pure ⟨fun _ => rfl, fun _ => rfl⟩
    · rw [if_neg (by omega), if_neg (by omega)]
      exact .pure ⟨fun h => absurd ht h, id⟩

/-! ## Iterations

The flag, the count and the element of an iteration are composed with `Local.bind`. For a nested
structure the table is the induction, as in the decoder itself. -/

theorem opt_flag_local (out : ℕ) (t : List (ElemInfo × Dec)) :
    Local w (fun a b => a = span.flag t ∧ b = span.flag t) (qmi_decode.opt_flag out t)
      (qmi_decode.opt_flag out t) := by
  cases t with
  | nil => exact .pure ⟨rfl, rfl⟩
  | cons e t =>
    rw [qmi_decode.opt_flag, span.flag]
    split
    · exact Local.store_bind _ _ (.pure ⟨rfl, rfl⟩)
    · exact .pure ⟨rfl, rfl⟩

/-- The count step, for a relation `C` between the counts of the two decoders. -/
theorem data_len_local {C : ℕ → ℕ → Prop} (out : ℕ) (t : List (ElemInfo × Dec))
    (hst : Moved w d d' st st')
    (hnone : (∀ e ∈ t.head?, e.1.data_type ≠ .dataLen) → C st.data_len_value st'.data_len_value)
    (hsome : ∀ e ∈ t.head?, e.1.data_type = .dataLen → ∀ bytes : List UInt8,
      bytes.length = data_len_sz e.1.elem_size →
        patchLow st.data_len_value bytes = patchLow st'.data_len_value bytes ∧
        C (patchLow st.data_len_value bytes) (patchLow st'.data_len_value bytes)) :
    Local w (fun a b => a.1 = (span.len w.buf st.buf_src st.data_len_value t).2.2 ∧
        b.1 = (span.len w.buf st.buf_src st.data_len_value t).2.2 ∧
        Moved w d d' a.2 b.2 ∧ C a.2.data_len_value b.2.data_len_value)
      (qmi_decode.data_len w.buf out st t) (qmi_decode.data_len w.buf' out st' t) := by
  cases t with
  | nil => exact .pure ⟨rfl, rfl, hst, hnone (by simp)⟩
  | cons e t =>
    rw [qmi_decode.data_len, qmi_decode.data_len, span.len]
    by_cases he : e.1.data_type = .dataLen
    · rw [if_pos he, if_pos he, if_pos he]
      obtain ⟨hlen, k, hsrc, hsrc', hdec, hdec'⟩ := hst
      rw [hsrc, hsrc']
      refine Local.read_bind fun bytes hbytes => ?_
      obtain ⟨hsame, hC⟩ := hsome e rfl he bytes hbytes
      simp only
      rw [hsame] at hC ⊢
      refine Local.store_bind _ _ (.pure ⟨rfl, rfl, ⟨?_, ?_⟩, hC⟩)
      · simp only [DecState.update, hlen]
      · refine ⟨k + data_len_sz e.1.elem_size, ?_⟩
        simp only [DecState.update, hdec, hdec']
        omega
    · rw [if_neg he, if_neg he, if_neg he]
      exact .pure ⟨rfl, rfl, hst, hnone (by simpa using he)⟩

/-- The element itself, behind flag and count. -/
theorem counted_local (out : ℕ) {e : ElemInfo × Dec} (rest : List (ElemInfo × Dec))
    (he : e.1.data_type = .struct → LocalDec e.2) (hl : 1 ≤ level) (hst : Moved w d d' st st')
    (hv : e.1.array_type = .varLenArray → st.data_len_value = st'.data_len_value ∨
      e.1.data_type = .string ∧ st.data_len_value ≤ e.1.elem_len ∧
        st'.data_len_value ≤ e.1.elem_len) :
    Local w (fun a b => a.1 = rest ∧ b.1 = rest ∧ Moved w d d' a.2 b.2 ∧
        (st.data_len_value = st'.data_len_value → a.2.data_len_value = b.2.data_len_value))
      (qmi_decode.count e.1 st.data_len_value >>= fun n =>
        qmi_decode.elem w.buf out level e { st with data_len_value := n } >>= fun rc =>
          pure (rest, { st with data_len_value := n }.update rc))
      (qmi_decode.count e.1 st'.data_len_value >>= fun n =>
        qmi_decode.elem w.buf' out level e { st' with data_len_value := n } >>= fun rc =>
          pure (rest, { st' with data_len_value := n }.update rc)) := by
  refine Local.bind (count_local hv) fun n n' hn => ?_
  refine Local.bind (elem_local he hl out ⟨hst.len, hst.cursor⟩ hn.1) ?_
  rintro rc _ rfl
  obtain ⟨hlen, k, hsrc, hsrc', hdec, hdec'⟩ := hst
  refine .pure ⟨rfl, rfl, ⟨hlen, k + rc, ?_⟩, hn.2⟩
  simp only [DecState.update, hsrc, hsrc', hdec, hdec']
  omega

/-- One iteration from the same count. -/
theorem body_local (out : ℕ) (t : List (ElemInfo × Dec))
    (ht : ∀ e ∈ t, e.1.data_type = .struct → LocalDec e.2) (hl : 1 ≤ level)
    (hst : Moved w d d' st st') (hv : st.data_len_value = st'.data_len_value) :
    Local w (fun a b => a.1 = b.1 ∧ a.1 <:+ t ∧ Moved w d d' a.2 b.2 ∧
        a.2.data_len_value = b.2.data_len_value)
      (qmi_decode.body w.buf out level t st) (qmi_decode.body w.buf' out level t st') := by
  unfold qmi_decode.body
  refine Local.bind (opt_flag_local out t) ?_
  rintro _ _ ⟨rfl, rfl⟩
  refine Local.bind (data_len_local (C := Eq) out (span.flag t) hst (fun _ => hv) ?_) ?_
  · rintro e - - bytes -
    rw [hv]
    exact ⟨rfl, rfl⟩
  rintro ⟨_, st2⟩ ⟨_, st2'⟩ ⟨rfl, rfl, hst2, hv2⟩
  have hsuf := (span_len_suffix w.buf st.buf_src st.data_len_value (span.flag t)).trans
    (span_flag_suffix t)
  generalize (span.len w.buf st.buf_src st.data_len_value (span.flag t)).2.2 = t2 at hsuf ⊢
  simp only at hst2 hv2 ⊢
  cases t2 with
  | nil => exact .fail _
  | cons e t2 =>
    have he := ht e (hsuf.subset List.mem_cons_self)
    refine (counted_local out t2 he hl hst2 fun _ => .inl hv2).mono ?_
    rintro a b ⟨ha, hb, hst3, hv3⟩
    refine ⟨ha.trans hb.symm, ?_, hst3, hv3 hv2⟩
    rw [ha]
    exact (List.suffix_cons _ _).trans hsuf

/-- The loop over a nested structure. -/
theorem elem_loop_local (out in_buf_len n : ℕ) (hl : 2 ≤ level) (t : List (ElemInfo × Dec))
    (ht : ∀ e ∈ t, e.1.data_type = .struct → LocalDec e.2) (hst : Moved w 0 0 st st')
    (hv : st.data_len_value = st'.data_len_value) :
    Local w Eq (qmi_decode.elem_loop w.buf out in_buf_len level n t st)
      (qmi_decode.elem_loop w.buf' out in_buf_len level n t st') := by
  induction n generalizing t st st' with
  | zero =>
    obtain ⟨-, k, -, -, hdec, hdec'⟩ := hst
    exact .pure (by omega)
  | succ n ih =>
    have hdec : st.decoded_bytes = st'.decoded_bytes := by
      obtain ⟨-, k, -, -, hdec, hdec'⟩ := hst
      omega
    rw [qmi_decode.elem_loop, qmi_decode.elem_loop, hdec]
    split
    · split
      · exact .pure rfl
      · -- both give the element the rest of the same space
        have hmoved : Moved w 0 0
            ⟨st.data_len_value, in_buf_len - st'.decoded_bytes, st.buf_src, st'.decoded_bytes⟩
            ⟨st'.data_len_value, in_buf_len - st'.decoded_bytes, st'.buf_src,
              st'.decoded_bytes⟩ := by
          refine ⟨rfl, ?_⟩
          rw [← hdec]
          obtain ⟨-, k, hsrc, hsrc', hk, -⟩ := hst
          exact ⟨k, hsrc, hsrc', hk, hk⟩
        refine Local.bind (body_local out t ht (by omega) hmoved hv) ?_
        rintro ⟨t1, st1⟩ ⟨_, st1'⟩ ⟨rfl, hsuf, hst1, hv1⟩
        exact ih t1 (fun e he => ht e (hsuf.subset he)) hst1 hv1
    · exact .pure rfl

end Elements

/-- Every nested decoder is local. -/
theorem localDec_nested (tab : List ElemInfo) : ∀ e ∈ tab, LocalDec (qmi_decode e.ei_array) := by
  induction tab using table_induction with
  | nil => simp
  | cons e rest ihe ih =>
    rw [List.forall_mem_cons]
    refine ⟨fun w out in_buf_len level hl => ?_, ih⟩
    rw [qmi_decode_eq]
    unfold qmi_decode.table
    rw [if_neg (by omega), if_neg (by omega)]
    refine elem_loop_local out in_buf_len _ hl _ ?_ ⟨rfl, 0, rfl, rfl, rfl, rfl⟩ rfl
    rw [List.forall_mem_map]
    exact fun e' he' _ => ihe e' he'

/-! ## TLVs

At level 1 the two decoders may also come with different counts, left behind by different TLVs.
For counts of one byte this does not matter, since a count in front of an array replaces all of
it. -/

section Tlvs

variable {w : Views} {width : ElemInfo → ℕ} {gs : List Group}

/-- One group, from counts of at most 255. -/
theorem group_local {g : Group} (hg : g.Fits width) (rest : List ElemInfo) (out : ℕ)
    {d d' : ℕ} {st st' : DecState} (hst : Moved w d d' st st') (hv : st.data_len_value ≤ 255)
    (hv' : st'.data_len_value ≤ 255) :
    Local w (fun a b => Moved w d d' a.2 b.2)
      (qmi_decode.body w.buf out 1 ((g.elems ++ rest).map fun e => (e, qmi_decode e.ei_array)) st)
      (qmi_decode.body w.buf' out 1 ((g.elems ++ rest).map fun e => (e, qmi_decode e.ei_array))
        st') := by
  unfold qmi_decode.body
  refine Local.bind (opt_flag_local out _) ?_
  rintro _ _ ⟨rfl, rfl⟩
  rw [group_flag hg.shaped]
  -- behind a count the two counts are equal; without one they are still at most 255
  refine Local.bind (data_len_local (C := fun v v' => (g.len.isSome → v = v') ∧ v ≤ 255 ∧ v' ≤ 255)
    out _ hst ?_ ?_) ?_
  · intro hhead
    refine ⟨fun hsome => ?_, hv, hv'⟩
    obtain ⟨l, hl⟩ := Option.isSome_iff_exists.mp hsome
    rw [hl] at hhead
    exact absurd (hg.len l hl).1 (hhead _ rfl)
  · intro e he hdata bytes hbytes
    have hsize : e.1.elem_size = 1 := by
      cases hl : g.len with
      | none =>
        rw [hl] at he
        cases he
        exact absurd hdata hg.kind_ne.2
      | some l =>
        rw [hl] at he
        cases he
        exact (hg.len l hl).2.2.1
    have hone : bytes.length = 1 := by rw [hbytes, data_len_sz, if_pos hsize]
    have hlt := leNat_lt bytes
    rw [hone, pow_one] at hlt
    rw [patchLow_of_lt (by rw [hone, pow_one]; omega), patchLow_of_lt (by rw [hone, pow_one]; omega)]
    exact ⟨rfl, fun _ => rfl, by omega, by omega⟩
  rintro ⟨_, st2⟩ ⟨_, st2'⟩ ⟨rfl, rfl, hst2, heq, hle, hle'⟩
  rw [group_len hg _ _ _ hv]
  simp only [List.map_cons] at hst2 heq hle hle' ⊢
  have hnested : LocalDec (qmi_decode g.elem.ei_array) :=
    localDec_nested [g.elem] g.elem (by simp)
  refine (counted_local (e := (g.elem, qmi_decode g.elem.ei_array)) out _ (fun _ => hnested)
    (le_refl 1) hst2 fun harray => ?_).mono fun a b hab => hab.2.2.1
  by_cases hs : g.elem.data_type = .string
  · have := hg.text harray hs
    exact .inr ⟨hs, by simp only; omega, by simp only; omega⟩
  · exact .inl (heq (hg.counted harray hs))

/-- **A TLV is decoded by its own bytes**: not by where it stands, nor by the count the TLV before
it left behind. -/
theorem tlv_local (hgs : MessageFits width gs) (out : ℕ) {st st' : DecState}
    (hsrc : st.buf_src = w.p) (hsrc' : st'.buf_src = w.p') (hv : st.data_len_value ≤ 255)
    (hv' : st'.data_len_value ≤ 255) :
    Local w (fun a b => ∃ k, a.buf_src = w.p + k ∧ b.buf_src = w.p' + k ∧
        b.decoded_bytes = st'.decoded_bytes + k)
      (qmi_decode.tlv w.buf out (resolve qmi_decode.table (messageTable gs)) st)
      (qmi_decode.tlv w.buf' out (resolve qmi_decode.table (messageTable gs)) st') := by
  unfold qmi_decode.tlv qmi_decode.header
  rw [bind_assoc, bind_assoc, hsrc, hsrc']
  refine Local.read_bind (k := 0) fun bytes _ => ?_
  simp only [pure_bind, resolve_decode]
  generalize bytes.getD 0 0 = t
  generalize leNat (bytes.drop 1) = len
  rcases find_group hgs.shaped hgs.types t with ⟨g, hg, -, rest, -, hfind⟩ | ⟨-, hfind⟩
  · rw [hfind]
    have hmoved : Moved w st.decoded_bytes st'.decoded_bytes
        (DecState.update ⟨st.data_len_value, len, w.p, st.decoded_bytes⟩ TLV_SIZE)
        (DecState.update ⟨st'.data_len_value, len, w.p', st'.decoded_bytes⟩ TLV_SIZE) :=
      ⟨rfl, TLV_SIZE, rfl, rfl, rfl, rfl⟩
    refine Local.bind (group_local (hgs.groups g hg) rest out hmoved hv hv') ?_
    · rintro ⟨t1, st1⟩ ⟨t1', st1'⟩ ⟨-, k, h1, h2, h3, h4⟩
      exact .pure ⟨k, h1, h2, h4⟩
  · rw [hfind]
    simp only
    split
    · exact .fail _
    · refine .pure ⟨TLV_SIZE + len, ?_⟩
      simp [DecState.update, Nat.add_assoc]

end Tlvs

end Dragonboard.Qmi
