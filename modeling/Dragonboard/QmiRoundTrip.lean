/-
Decoding what was encoded.

The decoder writes into a zeroed struct at the addresses the encoder read from, so the round trip
is a statement about stores: every store of the decoder puts back the bytes the original struct has
there (`Agrees`), and the stores reach every described byte that is not zero anyway. `Restores` is
that statement for a list of stores and a list of regions; it is closed under
concatenation, so it follows the structure of the table, item by item and level by level.

Nothing is assumed about where the fields lie. Stores that agree with one struct agree with
each other, so overlapping fields do no harm.
-/
import Dragonboard.QmiEncode

set_option autoImplicit false

namespace Dragonboard.Qmi

open Dragonboard.Memory

/-! ## Stores that restore regions

The decoder starts on a zeroed struct. To compare the result with the struct that was encoded it
is enough that the stores agree with it, stay inside the described regions, and reach every byte
of them that is not zero: the bytes nobody stores to are zero on both sides. -/

theorem within_append {rs rs' : List Region} {a : ℕ} :
    Within (rs ++ rs') a ↔ Within rs a ∨ Within rs' a := by
  simp only [Within, List.mem_append, or_and_right, exists_or]

theorem within_singleton {r : Region} {a : ℕ} : Within [r] a ↔ r.1 ≤ a ∧ a < r.1 + r.2 := by
  simp [Within]

/-- The stores agree with `src`, stay inside the regions, and reach every byte of them that is not
zero. -/
structure Restores (src : Mem) (stores : List Store) (rs : List Region) : Prop where
  agrees : Agrees src stores
  inside : ∀ a, Covers stores a → Within rs a
  reaches : ∀ a, Within rs a → Covers stores a ∨ src a = 0

section Restores

variable {src : Mem}

theorem Restores.nil (src : Mem) : Restores src [] [] :=
  ⟨agrees_nil _, by simp [Covers], by simp [Within]⟩

theorem Restores.append {s s' : List Store} {rs rs' : List Region} (h : Restores src s rs)
    (h' : Restores src s' rs') : Restores src (s ++ s') (rs ++ rs') := by
  refine ⟨agrees_append.mpr ⟨h.agrees, h'.agrees⟩, fun a ha => ?_, fun a ha => ?_⟩
  · rw [within_append]
    exact (covers_append.mp ha).imp (h.inside a) (h'.inside a)
  · rw [covers_append]
    rcases within_append.mp ha with ha | ha
    · have := h.reaches a ha
      tauto
    · have := h'.reaches a ha
      tauto

theorem Restores.store (src : Mem) (p n : ℕ) :
    Restores src [⟨p, bytesAt src p n⟩] [(p, n)] := by
  refine ⟨by simp, fun a ha => ?_, fun a ha => .inl ?_⟩
  · simpa [covers_singleton, within_singleton] using ha
  · simpa [covers_singleton, within_singleton] using ha

/-- The zeroed memory after the stores is `src` in the regions and zero outside. -/
theorem Restores.apply {stores : List Store} {rs : List Region} (h : Restores src stores rs)
    (a : ℕ) : (Within rs a → applyStores (fun _ => 0) stores a = src a) ∧
      (¬ Within rs a → applyStores (fun _ => 0) stores a = 0) := by
  obtain ⟨hcov, hnot⟩ := h.agrees.applyStores (fun _ => 0) a
  constructor
  · intro ha
    rcases h.reaches a ha with hc | h0
    · exact hcov hc
    · by_cases hc : Covers stores a
      · exact hcov hc
      · rw [hnot hc, h0]
  · exact fun ha => hnot fun hc => ha (h.inside a hc)

/-- A computation that returns `a` and restores the regions. -/
def Decodes {α : Type} (src : Mem) (x : Traced α) (a : α) (rs : List Region) : Prop :=
  x.result = .ok a ∧ Restores src x.stores rs

theorem Decodes.pure {α : Type} (src : Mem) (a : α) : Decodes src (pure a) a [] :=
  ⟨rfl, Restores.nil src⟩

theorem Decodes.bind {α β : Type} {x : Traced α} {f : α → Traced β} {a : α} {b : β}
    {r s : List Region} (hx : Decodes src x a r) (hf : Decodes src (f a) b s) :
    Decodes src (x >>= f) b (r ++ s) := by
  rw [Decodes, Traced.bind_of_ok hx.1]
  exact ⟨hf.1, hx.2.append hf.2⟩

theorem Decodes.bind_pure {α β : Type} {x : Traced α} {a : α} {rs : List Region}
    (hx : Decodes src x a rs) (f : α → β) : Decodes src (x >>= fun r => Pure.pure (f r)) (f a) rs := by
  have := hx.bind (f := fun r => Pure.pure (f r)) (Decodes.pure src (f a))
  rwa [List.append_nil] at this

theorem Decodes.read {α : Type} {buf : Mem} {p n : ℕ} {bs : List UInt8}
    {f : List UInt8 → Traced α} {a : α} {rs : List Region} (hbuf : Holds buf p bs)
    (hn : bs.length = n) (hf : Decodes src (f bs) a rs) :
    Decodes src (Traced.read buf p n >>= f) a rs := by
  rw [Decodes, Traced.bind_of_ok (Traced.read_result _ _ _), hbuf.bytesAt_eq hn]
  exact ⟨hf.1, by simpa using hf.2⟩

end Restores

/-! ## Elements

One lemma for each kind of element: what the encoder laid out for it is decoded to stores that
restore the region it came from. For arrays of structures this is an induction over the number of
elements, with the nested level as a hypothesis. -/

section Elements

variable {src buf : Mem} {base level : ℕ} {e : ElemInfo}

theorem decodes_basic {dst p n sz : ℕ} (h : Holds buf p (bytesAt src dst (n * sz))) :
    Decodes src (qmi_decode_basic_elem buf dst p n sz) (n * sz) [(dst, n * sz)] := by
  refine Decodes.read h (bytesAt_length _ _ _) ⟨rfl, ?_⟩
  exact Restores.store src dst (n * sz)

/-- A string and its terminator. -/
theorem Restores.string {dst len : ℕ} (h0 : src (dst + len) = 0) :
    Restores src [⟨dst, bytesAt src dst len⟩, ⟨dst + len, [0]⟩] [(dst, len + 1)] := by
  have hend : Restores src [⟨dst + len, [0]⟩] [(dst + len, 1)] := by
    have := Restores.store src (dst + len) 1
    rwa [bytesAt_succ, h0] at this
  obtain ⟨h1, h2, h3⟩ := (Restores.store src dst len).append hend
  have hiff : ∀ a, Within ([(dst, len)] ++ [(dst + len, 1)]) a ↔ Within [(dst, len + 1)] a := by
    intro a
    simp only [within_append, within_singleton]
    omega
  exact ⟨h1, fun a ha => (hiff a).mp (h2 a ha), fun a ha => h3 a ((hiff a).mpr ha)⟩

theorem decodes_string {p tlv_len len : ℕ} (hsize : e.elem_size = 1)
    (hlen : strlen src (base + e.offset) = len) (hlt : len < e.elem_len)
    (h0 : src (base + e.offset + len) = 0) (hshort : len < 2 ^ 16) (hle : len ≤ tlv_len)
    (htop : level = 1 → tlv_len = len)
    (h : Holds buf p ((if level = 1 then [] else leBytes (string_len_sz e.elem_len) len) ++
      bytesAt src (base + e.offset) len)) :
    Decodes src (qmi_decode_string_elem e buf (base + e.offset) p tlv_len level)
      ((if level = 1 then 0 else string_len_sz e.elem_len) + len)
      [(base + e.offset, len + 1)] := by
  -- the part behind the length
  have htail : ∀ sz, Holds buf (p + sz) (bytesAt src (base + e.offset) len) →
      Decodes src (if len > e.elem_len then Traced.fail (.errno EINVAL)
        else if len > tlv_len then Traced.fail (.errno EFAULT)
        else qmi_decode_basic_elem buf (base + e.offset) (p + sz) len e.elem_size >>= fun rc =>
          Traced.store (base + e.offset + len) [0] >>= fun _ => pure (sz + rc))
        (sz + len) [(base + e.offset, len + 1)] := by
    intro sz hbuf
    rw [if_neg (by omega), if_neg (by omega), hsize]
    rw [qmi_decode_basic_elem, bind_assoc]
    refine Decodes.read hbuf (by simp) ⟨by simp; rfl, ?_⟩
    exact Restores.string h0
  unfold qmi_decode_string_elem qmi_decode_string_elem.len
  by_cases hl : level = 1
  · simp only [if_pos hl, pure_bind, htop hl, List.nil_append] at h htail ⊢
    exact htail 0 h
  · simp only [if_neg hl, bind_assoc, pure_bind] at h ⊢
    have hfit : len < 256 ^ string_len_sz e.elem_len := by
      unfold string_len_sz
      split <;> omega
    refine Decodes.read h.left (leBytes_length _ _) ?_
    rw [leNat_leBytes _ _ hfit]
    exact htail _ (by simpa using h.right)

/-- A nested decoder restores the struct at `b` from its wire bytes. -/
def NestedDecodes (width : ElemInfo → ℕ) (src buf : Mem) (level : ℕ) (tab : List ElemInfo)
    (b : ℕ) : Prop :=
  1 ≤ (wire width tab src b).length ∧ ∀ p len, Holds buf p (wire width tab src b) →
    (wire width tab src b).length ≤ len → len < 2 ^ 16 →
    Decodes src (qmi_decode tab buf b p len level) (wire width tab src b).length
      (fields width tab src b)

variable {width : ElemInfo → ℕ} {len : Option ElemInfo}

theorem decodes_struct_loop {tab : List ElemInfo} {elem_size tlv_len p : ℕ}
    (htlv : tlv_len < 2 ^ 16) (dst n i bytes : ℕ)
    (hnest : ∀ j < n, NestedDecodes width src buf level tab (dst + j * elem_size))
    (hbuf : Holds buf (p + bytes)
      ((List.range n).flatMap fun j => wire width tab src (dst + j * elem_size)))
    (hfit : bytes +
      ((List.range n).flatMap fun j => wire width tab src (dst + j * elem_size)).length ≤ tlv_len) :
    Decodes src
      (qmi_decode_struct_elem.loop (qmi_decode tab) buf elem_size tlv_len level n dst (p + bytes) i
        bytes)
      (i + n, bytes +
        ((List.range n).flatMap fun j => wire width tab src (dst + j * elem_size)).length)
      ((List.range n).flatMap fun j => fields width tab src (dst + j * elem_size)) := by
  induction n generalizing dst i bytes with
  | zero => exact Decodes.pure src _
  | succ n ih =>
    -- the first structure is split off, and the others move up by one
    have hshift : ∀ {α : Type} (f : ℕ → List α),
        (List.range (n + 1)).flatMap (fun j => f (dst + j * elem_size)) =
          f dst ++ (List.range n).flatMap fun j => f (dst + elem_size + j * elem_size) := by
      intro α f
      rw [List.range_succ_eq_map, List.flatMap_cons, List.flatMap_map, Nat.zero_mul, Nat.add_zero]
      congr 1
      refine List.flatMap_congr fun j _ => ?_
      rw [Nat.succ_mul, Nat.add_assoc, Nat.add_comm elem_size]
    rw [hshift (wire width tab src)] at hbuf hfit ⊢
    rw [hshift (fields width tab src)]
    rw [List.length_append] at hfit ⊢
    obtain ⟨hpos, hdec⟩ := hnest 0 (by omega)
    rw [Nat.zero_mul, Nat.add_zero] at hpos hdec
    rw [qmi_decode_struct_elem.loop, if_pos (by omega)]
    refine (hdec (p + bytes) (tlv_len - bytes) hbuf.left (by omega) (by omega)).bind ?_
    have hrest := hbuf.right
    rw [Nat.add_assoc] at hrest ⊢
    have := ih (dst + elem_size) (i + 1) (bytes + (wire width tab src dst).length)
      (fun j hj => ?_) hrest (by omega)
    · rwa [Nat.add_assoc bytes, Nat.add_right_comm i 1 n, Nat.add_assoc i n 1] at this
    · have := hnest (j + 1) (by omega)
      rwa [Nat.succ_mul, Nat.add_comm (j * elem_size), ← Nat.add_assoc] at this

/-- The elements of an item, at a level with `tlv_len` bytes left; at level 1 that is all there
is. -/
theorem decodes_elem (he : ElemOk e) (st : DecState) (hl : 1 ≤ level) (htlv : st.tlv_len < 2 ^ 16)
    (hstr : e.data_type = .string → ∃ i < e.elem_len, src (base + e.offset + i) = 0)
    (hnest : e.data_type = .struct → ∀ i < st.data_len_value,
      NestedDecodes width src buf (level + 1) e.ei_array (base + e.offset + i * e.elem_size))
    (hbuf : Holds buf st.buf_src
      (wireElem (level == 1) src base st.data_len_value (e, wire width e.ei_array)))
    (hfit : (wireElem (level == 1) src base st.data_len_value
      (e, wire width e.ei_array)).length ≤ st.tlv_len)
    (htop : level = 1 → (wireElem (level == 1) src base st.data_len_value
      (e, wire width e.ei_array)).length = st.tlv_len) :
    Decodes src (qmi_decode.elem buf base level (e, qmi_decode e.ei_array) st)
      (wireElem (level == 1) src base st.data_len_value (e, wire width e.ei_array)).length
      (elemFields src base st.data_len_value (e, fields width e.ei_array)) := by
  -- a number, an array of structures, or a string
  rcases he.kind with hk | hk | hk
  · have hwire : wireElem (level == 1) src base st.data_len_value (e, wire width e.ei_array) =
        bytesAt src (base + e.offset) (st.data_len_value * e.elem_size) := by
      unfold wireElem
      cases hd : e.data_type <;> simp_all [ElemType.isBasic]
    rw [hwire] at hbuf ⊢
    rw [bytesAt_length]
    have := decodes_basic hbuf
    unfold qmi_decode.elem elemFields
    cases hd : e.data_type <;> simp_all [ElemType.isBasic]
  · simp only [wireElem, hk] at hbuf hfit htop ⊢
    simp only [qmi_decode.elem, elemFields, hk, qmi_decode_struct_elem]
    have hloop := decodes_struct_loop htlv _ st.data_len_value 0 0 (hnest hk) hbuf
      (by rw [Nat.zero_add]; exact hfit)
    rw [Nat.zero_add, Nat.zero_add] at hloop
    rw [← List.append_nil ((List.range st.data_len_value).flatMap fun i =>
      fields width e.ei_array src (base + e.offset + i * e.elem_size))]
    refine hloop.bind ?_
    simp only
    rw [if_neg (by omega)]
    exact Decodes.pure src _
  · obtain ⟨hsize, -, hlen⟩ := he.string hk
    obtain ⟨hlt, h0⟩ := strlen_spec hlen (hstr hk)
    simp only [wireElem, hk, beq_iff_eq] at hbuf hfit htop ⊢
    simp only [qmi_decode.elem, elemFields, hk]
    rw [List.length_append, bytesAt_length] at hfit htop ⊢
    -- a nested string has its length in front, that of a message is the length of its TLV
    have hlenBytes : (if level = 1 then [] else
        leBytes (string_len_sz e.elem_len) (strlen src (base + e.offset))).length =
        if level = 1 then 0 else string_len_sz e.elem_len := by
      split <;> simp
    rw [hlenBytes] at hfit htop ⊢
    refine decodes_string hsize rfl hlt h0 (by omega) (by omega) (fun h => ?_) hbuf
    have := htop h
    rw [if_pos h] at this
    omega

/-! ## Items

An item is what a table has under one type: an element with the flag or the count in front of it.
A valid count is what makes the decoder take as many elements as the encoder laid out. -/

/-- The bytes of a valid count field: the count in the first four, zeros behind. -/
theorem Restores.count (src : Mem) (base : ℕ) (e : ElemInfo) {l : ElemInfo} (hl : CountOk width l)
    (hcount : itemCount width src base (some l) e ≤ 255) :
    Restores src [⟨base + l.offset, leBytes 4 (itemCount width src base (some l) e)⟩]
      [(base + l.offset, width l)] := by
  generalize hc : itemCount width src base (some l) e = count at *
  have hwide := hl.wide
  have hsrc : bytesAt src (base + l.offset) (width l) = leBytes (width l) count := by
    have := leBytes_leNat (bytesAt src (base + l.offset) (width l))
    rw [bytesAt_length] at this
    rw [← hc]
    exact this.symm
  obtain ⟨j, hj⟩ := Nat.exists_eq_add_of_le hwide
  rw [hj, leBytes_of_small (by omega), bytesAt_add] at hsrc
  obtain ⟨h4, hzero⟩ := List.append_inj hsrc (by simp)
  have hstore := Restores.store src (base + l.offset) 4
  rw [h4] at hstore
  refine ⟨hstore.agrees, fun a ha => ?_, fun a ha => ?_⟩
  · have := hstore.inside a ha
    rw [within_singleton] at this ⊢
    simp only at this ⊢
    omega
  · rw [within_singleton] at ha
    simp only at ha
    by_cases h : a < base + l.offset + 4
    · exact .inl (by simpa [covers_singleton] using ⟨ha.1, h⟩)
    · refine .inr ?_
      obtain ⟨k, rfl⟩ : ∃ k, a = base + l.offset + 4 + k := ⟨a - (base + l.offset + 4), by omega⟩
      have hk : k < (bytesAt src (base + l.offset + 4) j).length := by
        rw [bytesAt_length]
        omega
      have := bytesAt_getElem src (base + l.offset + 4) j k hk
      rw [← this]
      simp [hzero]

theorem decodes_count_single (width : ElemInfo → ℕ) (src : Mem) (base : ℕ)
    (harray : e.array_type ≠ .varLenArray) (v : ℕ) :
    qmi_decode.count e v = pure (itemCount width src base none e) := by
  unfold qmi_decode.count itemCount
  cases h : e.array_type with
  | noArray => rfl
  | staticArray => rfl
  | varLenArray => exact absurd h harray

theorem elemOk_ne_optFlag (he : ElemOk e) : e.data_type ≠ .optFlag := by
  intro h
  rcases he.kind with hk | hk | hk <;> rw [h] at hk <;> simp [ElemType.isBasic] at hk

/-- What the decoder needs of an item: well-formed, with valid fields and nested structures that
decode. -/
structure ItemDecodes (width : ElemInfo → ℕ) (src buf : Mem) (base level : ℕ)
    (len : Option ElemInfo) (e : ElemInfo) : Prop where
  elem : ElemOk e
  counted : e.array_type = .varLenArray ↔ len.isSome
  count : ∀ l ∈ len, CountOk width l
  valid : itemValid width src base len (e, Valid width e.ei_array)
  nested : e.data_type = .struct → ∀ b, Valid width e.ei_array src b →
    NestedDecodes width src buf (level + 1) e.ei_array b

theorem ItemDecodes.count_lt (h : ItemDecodes width src buf base level len e) :
    itemCount width src base len e < 256 := by
  cases len with
  | none =>
    unfold itemCount
    simp only
    split
    · have := (h.elem.array (by simp_all)).2
      omega
    · omega
  | some l =>
    have h1 := h.valid.1 l rfl
    have h2 := (h.elem.array (by simp [h.counted.mpr rfl])).2
    simp only at h1
    omega

/-- The count in front of an array. -/
theorem decodes_data_len {l : ElemInfo} (hl : CountOk width l) (e : ElemInfo)
    (temp_ei : List (ElemInfo × Dec)) (st : DecState) (hv : st.data_len_value < 256)
    (hlt : itemCount width src base (some l) e < 256)
    (hbuf : Holds buf st.buf_src (leBytes 1 (itemCount width src base (some l) e))) :
    Decodes src (qmi_decode.data_len buf base st ((l, qmi_decode l.ei_array) :: temp_ei))
      (temp_ei, ⟨itemCount width src base (some l) e, wsub st.tlv_len 1, st.buf_src + 1,
        st.decoded_bytes + 1⟩)
      [(base + l.offset, width l)] := by
  have hrestore := Restores.count src base e hl (by omega)
  have hsz : data_len_sz l.elem_size = 1 := by rw [hl.size]; rfl
  generalize itemCount width src base (some l) e = count at *
  -- one byte overwrites all of a count below 256
  have hpatch : patchLow st.data_len_value (leBytes 1 count) = count := by
    rw [patchLow_of_lt (by simpa using hv), leNat_leBytes _ _ (by simpa using hlt)]
  simp only [qmi_decode.data_len, hl.type, if_true, hsz]
  refine Decodes.read hbuf (leBytes_length _ _) ?_
  rw [hpatch]
  exact ⟨rfl, hrestore⟩

/-- An item in front of the rest of the table. -/
theorem decodes_item (h : ItemDecodes width src buf base level len e)
    (rest : List ElemInfo) (st : DecState) (hl : 1 ≤ level) (hv : st.data_len_value < 256)
    (htlv : st.tlv_len < 2 ^ 16)
    (hbuf : Holds buf st.buf_src
      (wireItem width (level == 1) src base len (e, wire width e.ei_array)))
    (hfit : (wireItem width (level == 1) src base len (e, wire width e.ei_array)).length
      ≤ st.tlv_len)
    (htop : level = 1 →
      (wireItem width (level == 1) src base len (e, wire width e.ei_array)).length = st.tlv_len) :
    ∃ tlv_len, Decodes src
      (qmi_decode.body buf base level
        ((len.toList ++ e :: rest).map fun e => (e, qmi_decode e.ei_array)) st)
      (rest.map fun e => (e, qmi_decode e.ei_array),
        ⟨itemCount width src base len e, tlv_len,
          st.buf_src + (wireItem width (level == 1) src base len (e, wire width e.ei_array)).length,
          st.decoded_bytes +
            (wireItem width (level == 1) src base len (e, wire width e.ei_array)).length⟩)
      (itemFields width src base len (e, fields width e.ei_array)) := by
  have hlt := h.count_lt
  obtain ⟨hle, hstr, hsub⟩ := h.valid
  have hnest : e.data_type = .struct → ∀ i < itemCount width src base len e,
      NestedDecodes width src buf (level + 1) e.ei_array (base + e.offset + i * e.elem_size) :=
    fun hk i hi => h.nested hk _ (hsub hk i hi)
  cases len with
  | none =>
    have harray : e.array_type ≠ .varLenArray := by simpa using h.counted
    have hdl := elemOk_ne_dataLen h.elem
    have hof := elemOk_ne_optFlag h.elem
    simp only [wireItem, List.nil_append] at hbuf hfit htop ⊢
    refine ⟨st.tlv_len, ?_⟩
    simp only [qmi_decode.body, Option.toList_none, List.nil_append, List.map_cons,
      qmi_decode.opt_flag, qmi_decode.data_len, if_neg hdl, if_neg hof, pure_bind,
      decodes_count_single width src base harray]
    have helem := decodes_elem h.elem { st with
      data_len_value := itemCount width src base none e } hl htlv hstr hnest hbuf hfit htop
    simp only [itemFields, Option.toList_none, List.map_nil, List.nil_append]
    exact helem.bind_pure _
  | some l =>
    have harray : e.array_type = .varLenArray := by simpa using h.counted
    have hcl := h.count l rfl
    have hcount := hle l rfl
    have hof : l.data_type ≠ .optFlag := by simp [hcl.type]
    simp only [wireItem, List.length_append, leBytes_length] at hbuf hfit htop ⊢
    simp only [itemFields, Option.toList_some, List.map_cons, List.map_nil] at hcount ⊢
    have hdata := decodes_data_len hcl e ((e, qmi_decode e.ei_array) ::
      rest.map fun e => (e, qmi_decode e.ei_array)) st hv hlt hbuf.left
    generalize hc : itemCount width src base (some l) e = count at *
    refine ⟨wsub st.tlv_len 1, ?_⟩
    have hcnt : qmi_decode.count e count = pure count := by
      unfold qmi_decode.count
      rw [harray]
      simp only
      rw [if_neg (by omega)]
    -- the elements have what is left of the TLV
    have hwsub : wsub st.tlv_len 1 = st.tlv_len - 1 := wsub_of_le (by omega) (by omega)
    have hvalue := hbuf.right
    rw [leBytes_length] at hvalue
    have helem := decodes_elem h.elem
      ⟨count, wsub st.tlv_len 1, st.buf_src + 1, st.decoded_bytes + 1⟩ hl (by simp only; omega)
      hstr hnest hvalue (by simp only; omega) fun hl => by
        have := htop hl
        simp only
        omega
    simp only [qmi_decode.body, List.singleton_append, List.map_cons, qmi_decode.opt_flag,
      if_neg hof, pure_bind]
    have := helem.bind_pure fun rc => ((rest.map fun e => (e, qmi_decode e.ei_array)),
      (⟨count, wsub st.tlv_len 1, st.buf_src + 1, st.decoded_bytes + 1⟩ : DecState).update rc)
    simp only [DecState.update, Nat.add_assoc] at this
    refine hdata.bind (s := elemFields src base count (e, fields width e.ei_array)) ?_
    simpa only [hcnt, pure_bind, DecState.update, Nat.add_assoc] using this

/-! ## Nested structures

The induction is on the table of the structure. An item takes at least one byte, so that the
length that is left is never zero before the table ends; the loop would stop there and leave the
remaining fields untouched. -/

/-- An item of a nested structure takes at least one byte. -/
theorem wireItem_pos (h : ItemDecodes width src buf base level len e) (hsize : 0 < e.elem_size) :
    1 ≤ (wireItem width false src base len (e, wire width e.ei_array)).length := by
  cases len with
  | some l =>
    rw [wireItem, List.length_append, leBytes_length]
    omega
  | none =>
    have hcount : 1 ≤ itemCount width src base none e := by
      unfold itemCount
      simp only
      split
      · exact (h.elem.array (by simp_all)).1
      · exact le_refl 1
    rw [wireItem, List.nil_append]
    simp only
    have hfirst := fun hk => (h.nested hk _ (h.valid.2.2 hk 0 hcount)).1
    generalize itemCount width src base none e = n at hcount
    unfold wireElem
    rcases h.elem.kind with hk | hk | hk
    · have : 1 ≤ n * e.elem_size := Nat.mul_pos hcount hsize
      cases hd : e.data_type <;> simp_all [ElemType.isBasic]
    · obtain ⟨m, rfl⟩ : ∃ m, n = m + 1 := ⟨n - 1, by omega⟩
      have := hfirst hk
      simp only [hk, List.range_succ_eq_map, List.flatMap_cons, List.length_append] at this ⊢
      omega
    · have : 1 ≤ string_len_sz e.elem_len := by
        unfold string_len_sz
        split <;> omega
      simp only [hk, List.length_append, bytesAt_length, leBytes_length, Bool.false_eq_true,
        if_false]
      omega

/-- One iteration of the loop over a nested table. -/
theorem decodes_loop_item (h : ItemDecodes width src buf base level len e)
    (hsize : 0 < e.elem_size) (hl : 2 ≤ level) (rest : List ElemInfo) (n in_buf_len : ℕ)
    (hlen : in_buf_len < 2 ^ 16) (st : DecState) (hv : st.data_len_value < 256)
    {w : List UInt8} {rs : List Region}
    (hbuf : Holds buf st.buf_src
      (wireItem width false src base len (e, wire width e.ei_array) ++ w))
    (hfit : st.decoded_bytes +
      (wireItem width false src base len (e, wire width e.ei_array) ++ w).length ≤ in_buf_len)
    (hrest : ∀ st' : DecState, st'.data_len_value < 256 → Holds buf st'.buf_src w →
      st'.decoded_bytes + w.length ≤ in_buf_len →
      Decodes src (qmi_decode.elem_loop buf base in_buf_len level n
        (rest.map fun e => (e, qmi_decode e.ei_array)) st') (st'.decoded_bytes + w.length) rs) :
    Decodes src (qmi_decode.elem_loop buf base in_buf_len level (n + 1)
        ((len.toList ++ e :: rest).map fun e => (e, qmi_decode e.ei_array)) st)
      (st.decoded_bytes +
        (wireItem width false src base len (e, wire width e.ei_array) ++ w).length)
      (itemFields width src base len (e, fields width e.ei_array) ++ rs) := by
  have hpos := wireItem_pos h hsize
  have hne : ((len.toList ++ e :: rest).map fun e => (e, qmi_decode e.ei_array)).isEmpty
      = false := by
    cases len <;> rfl
  have hfalse : (level == 1) = false := by
    rw [beq_eq_false_iff_ne]
    omega
  rw [List.length_append] at hfit ⊢
  rw [qmi_decode.elem_loop, if_pos (by omega), hne]
  obtain ⟨tlv_len, hbody⟩ := decodes_item h rest
    { st with tlv_len := in_buf_len - st.decoded_bytes } (by omega) hv
    (by simp only; omega) (by rw [hfalse]; exact hbuf.left) (by rw [hfalse]; simp only; omega)
    (fun h1 => absurd h1 (by omega))
  rw [hfalse] at hbody
  refine hbody.bind ?_
  -- behind the item the loop stands in front of the rest of the table
  have := hrest ⟨itemCount width src base len e, tlv_len,
    st.buf_src + (wireItem width false src base len (e, wire width e.ei_array)).length,
    st.decoded_bytes + (wireItem width false src base len (e, wire width e.ei_array)).length⟩
    h.count_lt hbuf.right (by simp only; omega)
  rwa [Nat.add_assoc] at this

/-- A nested table decodes: its struct takes at least a byte, and the loop restores it from any
state that has the struct's bytes in front of it. -/
def LoopDecodes (width : ElemInfo → ℕ) (src buf : Mem) (tab : List ElemInfo) : Prop :=
  ∀ base level, 2 ≤ level → Valid width tab src base →
    (tab ≠ [] → 1 ≤ (wire width tab src base).length) ∧
    ∀ n in_buf_len (st : DecState), tab.length ≤ n → in_buf_len < 2 ^ 16 →
      st.data_len_value < 256 → Holds buf st.buf_src (wire width tab src base) →
      st.decoded_bytes + (wire width tab src base).length ≤ in_buf_len →
      Decodes src (qmi_decode.elem_loop buf base in_buf_len level n
          (tab.map fun e => (e, qmi_decode e.ei_array)) st)
        (st.decoded_bytes + (wire width tab src base).length) (fields width tab src base)

theorem LoopDecodes.nested {tab : List ElemInfo} (h : LoopDecodes width src buf tab)
    (hne : tab ≠ []) (hl : 2 ≤ level) {b : ℕ} (hvalid : Valid width tab src b) :
    NestedDecodes width src buf level tab b := by
  obtain ⟨hpos, hloop⟩ := h b level hl hvalid
  refine ⟨hpos hne, fun p len hbuf hfit hlen => ?_⟩
  have := hloop tab.length len (.init p) (le_refl _) hlen (by simp [DecState.init]) hbuf
    (by simpa [DecState.init] using hfit)
  rw [qmi_decode_eq, qmi_decode.table, if_neg (by omega), List.length_map]
  simpa [DecState.init] using this

theorem loopDecodes_nil : LoopDecodes width src buf [] := by
  refine fun base level hl _ => ⟨fun h => absurd rfl h, fun n in_buf_len st _ _ _ _ _ => ?_⟩
  cases n with
  | zero => exact Decodes.pure src _
  | succ n =>
    rw [List.map_nil, qmi_decode.elem_loop]
    split
    · exact Decodes.pure src _
    · exact Decodes.pure src _

/-- An item in front of a table that decodes. The equations say how `items` takes it off. -/
theorem loopDecodes_item (len : Option ElemInfo)
    (hitems : ∀ {D : Type} (f : ElemInfo → D) (rest : List ElemInfo),
      items ((len.toList ++ e :: rest).map fun e => (e, f e)) =
        (len, (e, f e)) :: items (rest.map fun e => (e, f e)))
    (he : ElemOk e) (hsize : 0 < e.elem_size) (hcounted : e.array_type = .varLenArray ↔ len.isSome)
    (hcount : ∀ l ∈ len, CountOk width l) (hne : e.data_type = .struct → e.ei_array ≠ [])
    (hnested : e.data_type = .struct → LoopDecodes width src buf e.ei_array)
    {rest : List ElemInfo} (hrest : LoopDecodes width src buf rest) :
    LoopDecodes width src buf (len.toList ++ e :: rest) := by
  intro base level hl hvalid
  rw [valid_eq, Valid.table, hitems, List.forall_mem_cons] at hvalid
  obtain ⟨hitem, hothers⟩ := hvalid
  have h : ItemDecodes width src buf base level len e :=
    ⟨he, hcounted, hcount, hitem, fun hk b hb => (hnested hk).nested (hne hk) (by omega) hb⟩
  have hwire : wire width (len.toList ++ e :: rest) src base =
      wireItem width false src base len (e, wire width e.ei_array) ++ wire width rest src base := by
    rw [wire_eq, wire.table, hitems, List.flatMap_cons, wire_eq width rest, wire.table]
  have hfields : fields width (len.toList ++ e :: rest) src base =
      itemFields width src base len (e, fields width e.ei_array) ++ fields width rest src base := by
    rw [fields_eq, fields.table, hitems, List.flatMap_cons, fields_eq width rest, fields.table]
  have hv : Valid width rest src base := by
    rw [valid_eq]
    exact hothers
  rw [hwire, hfields]
  have hpos := wireItem_pos h hsize
  refine ⟨fun _ => by rw [List.length_append]; omega, fun n in_buf_len st hn hlen hv' hbuf hfit => ?_⟩
  obtain ⟨m, rfl⟩ : ∃ m, n = m + 1 := ⟨n - 1, by
    rw [List.length_append, List.length_cons] at hn
    omega⟩
  refine decodes_loop_item h hsize hl rest m in_buf_len hlen st hv' hbuf hfit ?_
  intro st' hst' hbuf' hfit'
  refine (hrest base level hl hv).2 m in_buf_len st' ?_ hlen hst' hbuf' hfit'
  rw [List.length_append, List.length_cons] at hn
  omega

/-- Every well-formed nested table decodes. -/
theorem loopDecodes {tab : List ElemInfo} (h : NestedOk width tab) :
    LoopDecodes width src buf tab := by
  induction h with
  | nil => exact loopDecodes_nil
  | @single e rest he hsize harray hne hnested hrest ihe ih =>
    refine loopDecodes_item none (fun f rest => ?_) he hsize ?_ (by simp) hne ihe ih
    · exact items_single (elemOk_ne_dataLen he) _
    · simpa using harray
  | @counted l e rest hcl he hsize harray hne hnested hrest ihe ih =>
    refine loopDecodes_item (some l) (fun f rest => ?_) he hsize ?_ ?_ hne ihe ih
    · exact items_counted hcl.type _ _
    · simpa using harray
    · rintro l' ⟨⟩
      exact hcl

/-! ## Messages

The groups of the message are the TLVs, in the order of the table. A group whose flag is not set
is not in the payload and is restored by not being stored to. -/

/-- The decoder of a flag, in front of an item. -/
theorem body_flag (out : ℕ) {f : ElemInfo × Dec} (hf : f.1.data_type = .optFlag)
    {t : List (ElemInfo × Dec)} (ht : ∀ x ∈ t.head?, x.1.data_type ≠ .optFlag) (st : DecState) :
    qmi_decode.body buf out level (f :: t) st =
      Traced.store (out + f.1.offset) [1] >>= fun _ => qmi_decode.body buf out level t st := by
  have hnone : qmi_decode.opt_flag out t = pure t := by
    cases t with
    | nil => rfl
    | cons x t => rw [qmi_decode.opt_flag, if_neg (ht x rfl)]
  simp only [qmi_decode.body, hnone, pure_bind]
  simp only [qmi_decode.opt_flag, hf, if_true, bind_assoc, pure_bind]

/-- The regions of a group's flag. -/
def flagFields (base : ℕ) (g : Group) : List Region :=
  g.flag.toList.map fun f => (base + f.offset, 1)

variable {g : Group}

/-- A group that is present, in front of the rest of the table. -/
theorem decodes_group (hg : g.Ok width)
    (hflag : ∀ f ∈ g.flag, src (base + f.offset) = 0 ∨ src (base + f.offset) = 1)
    (hpres : g.present src base)
    (hvalid : itemValid width src base g.len (g.elem, Valid width g.elem.ei_array))
    (rest : List ElemInfo) (st : DecState) (hv : st.data_len_value < 256)
    (htlv : st.tlv_len < 2 ^ 16) (hbuf : Holds buf st.buf_src (g.body width src base))
    (hlen : (g.body width src base).length = st.tlv_len) :
    ∃ v < 256, ∃ tlv_len, Decodes src
      (qmi_decode.body buf base 1 ((g.elems ++ rest).map fun e => (e, qmi_decode e.ei_array)) st)
      (rest.map fun e => (e, qmi_decode e.ei_array),
        ⟨v, tlv_len, st.buf_src + (g.body width src base).length,
          st.decoded_bytes + (g.body width src base).length⟩)
      (flagFields base g ++
        itemFields width src base g.len (g.elem, fields width g.elem.ei_array)) := by
  have h : ItemDecodes width src buf base 1 g.len g.elem :=
    ⟨hg.elem, hg.counted, fun l hl => (hg.len l hl).1, hvalid,
      fun hk b hb => (loopDecodes (hg.nested hk)).nested (hg.nonempty hk) (le_refl 2) hb⟩
  obtain ⟨tlv_len, hitem⟩ := decodes_item h rest st (le_refl 1) hv htlv hbuf hlen.le fun _ => hlen
  refine ⟨itemCount width src base g.len g.elem, h.count_lt, tlv_len, ?_⟩
  have helems : g.elems ++ rest = g.flag.toList ++ (g.len.toList ++ g.elem :: rest) := by
    simp [Group.elems]
  rw [helems, flagFields]
  cases hf : g.flag with
  | none => exact hitem
  | some f =>
    -- the decoder sets the flag, and the source has it set
    obtain ⟨-, hopt, -⟩ := hg.flag f hf
    have hone : src (base + f.offset) = 1 := by
      have hne : src (base + f.offset) ≠ 0 := by simpa [Group.present, hf] using hpres
      exact (hflag f hf).resolve_left hne
    have hhead : ∀ x ∈ ((g.len.toList ++ g.elem :: rest).map
        fun e => (e, qmi_decode e.ei_array)).head?, x.1.data_type ≠ .optFlag := by
      cases hl : g.len with
      | none => simpa using elemOk_ne_optFlag hg.elem
      | some l => simp [(hg.len l hl).1.type]
    rw [Option.toList_some, List.singleton_append, List.map_cons, body_flag base hopt hhead]
    refine Decodes.bind (r := [(base + f.offset, 1)]) ⟨rfl, ?_⟩ hitem
    have := Restores.store src (base + f.offset) 1
    rwa [bytesAt_succ, hone] at this

theorem Group.tlv_length (width : ElemInfo → ℕ) (hpres : g.present src base) :
    (g.tlv width src base).length = TLV_SIZE + (g.body width src base).length := by
  rw [Group.tlv, if_pos hpres]
  simp [TLV_SIZE]
  omega

/-- One TLV of the message. -/
theorem decodes_tlv {gs₁ gs₂ : List Group} (hgs : MessageOk width (gs₁ ++ g :: gs₂))
    (hflag : ∀ f ∈ g.flag, src (base + f.offset) = 0 ∨ src (base + f.offset) = 1)
    (hpres : g.present src base)
    (hvalid : itemValid width src base g.len (g.elem, Valid width g.elem.ei_array))
    (st : DecState) (hv : st.data_len_value < 256)
    (hshort : (g.body width src base).length < 2 ^ 16)
    (hbuf : Holds buf st.buf_src (g.tlv width src base)) :
    ∃ v < 256, ∃ tlv_len, Decodes src
      (qmi_decode.tlv buf base
        ((messageTable (gs₁ ++ g :: gs₂)).map fun e => (e, qmi_decode e.ei_array)) st)
      ⟨v, tlv_len, st.buf_src + (g.tlv width src base).length,
        st.decoded_bytes + (g.tlv width src base).length⟩
      (flagFields base g ++
        itemFields width src base g.len (g.elem, fields width g.elem.ei_array)) := by
  have hbody := hbuf
  rw [Group.tlv, if_pos hpres] at hbody
  have hvalue := hbody.right
  rw [List.length_cons, leBytes_length] at hvalue
  obtain ⟨v, hv', tlv_len, hgroup⟩ := decodes_group (hgs.groups g (by simp)) hflag hpres hvalid
    (messageTable gs₂) ({ st with tlv_len := (g.body width src base).length }.update TLV_SIZE) hv
    hshort hvalue rfl
  refine ⟨v, hv', tlv_len, ?_⟩
  unfold qmi_decode.tlv qmi_decode.header
  rw [bind_assoc]
  refine Decodes.read hbody.left (by simp [TLV_SIZE]) ?_
  have hdecl : leNat ((g.type :: leBytes 2 (g.body width src base).length).drop 1) =
      (g.body width src base).length := leNat_leBytes _ _ (by simpa using hshort)
  simp only [pure_bind, List.getD_cons_zero, hdecl,
    find_ei_group (fun g' hg' => (hgs.groups g' hg').tlv_type) hgs.types]
  have := hgroup.bind_pure Prod.snd
  rw [g.tlv_length width hpres]
  simpa only [DecState.update, Nat.add_assoc] using this

/-- A flag that is not set is restored by leaving its byte alone. -/
theorem Restores.absent {rs : List Region} {stores : List Store} (h : Restores src stores rs)
    (hpres : ¬ g.present src base) : Restores src stores (flagFields base g ++ rs) := by
  refine Restores.append (s := []) ⟨agrees_nil _, by simp [Covers], fun a ha => .inr ?_⟩ h
  unfold flagFields at ha
  cases hf : g.flag with
  | none => simp [hf, Within] at ha
  | some f =>
    rw [hf, Option.toList_some, List.map_singleton, within_singleton] at ha
    have h0 : src (base + f.offset) = 0 := by simpa [Group.present, hf] using hpres
    obtain rfl : a = base + f.offset := by
      simp only at ha
      omega
    exact h0

/-- The loop over the TLVs of the groups left. -/
theorem decodes_tlv_loop (gs₁ : List Group) {gs₂ : List Group} (hgs : MessageOk width (gs₁ ++ gs₂))
    (hvalid : MessageValid width gs₂ src base) (in_buf_len n : ℕ) (hlen : in_buf_len < 2 ^ 16)
    (st : DecState) (hv : st.data_len_value < 256)
    (hbuf : Holds buf st.buf_src (payload width gs₂ src base))
    (hfit : st.decoded_bytes + (payload width gs₂ src base).length = in_buf_len)
    (hn : (payload width gs₂ src base).length ≤ n) :
    Decodes src (qmi_decode.tlv_loop buf base in_buf_len
        ((messageTable (gs₁ ++ gs₂)).map fun e => (e, qmi_decode e.ei_array)) n st)
      in_buf_len (messageFields width gs₂ src base) := by
  induction gs₂ generalizing gs₁ n st with
  | nil =>
    obtain rfl : st.decoded_bytes = in_buf_len := hfit
    cases n with
    | zero => exact Decodes.pure src _
    | succ n =>
      rw [qmi_decode.tlv_loop, if_neg (Nat.lt_irrefl _)]
      exact Decodes.pure src _
  | cons g gs₂ ih =>
    have happ : gs₁ ++ g :: gs₂ = (gs₁ ++ [g]) ++ gs₂ := by simp
    obtain ⟨⟨hflag, hitem⟩, hothers⟩ := List.forall_mem_cons.mp hvalid
    have hpayload : payload width (g :: gs₂) src base =
        g.tlv width src base ++ payload width gs₂ src base := rfl
    have hfields : messageFields width (g :: gs₂) src base = (flagFields base g ++
        if g.present src base then
          itemFields width src base g.len (g.elem, fields width g.elem.ei_array) else []) ++
        messageFields width gs₂ src base := rfl
    rw [hpayload] at hbuf hfit hn
    rw [hfields]
    by_cases hpres : g.present src base
    · have htlv := g.tlv_length width hpres
      unfold TLV_SIZE at htlv
      rw [List.length_append] at hfit hn
      obtain ⟨m, rfl⟩ : ∃ m, n = m + 1 := ⟨n - 1, by omega⟩
      obtain ⟨v, hv', tlv_len, htlvd⟩ := decodes_tlv hgs hflag hpres (hitem hpres) st hv (by omega)
        hbuf.left
      rw [qmi_decode.tlv_loop, if_pos (by omega), if_pos hpres]
      refine htlvd.bind ?_
      rw [happ]
      exact ih _ (by rwa [← happ]) hothers m ⟨v, tlv_len, _, _⟩ hv' hbuf.right
        (by simp only; omega) (by omega)
    · -- an absent group has no TLV, and its flag is still zero
      have hnone : g.tlv width src base = [] := by rw [Group.tlv, if_neg hpres]
      rw [hnone, List.nil_append] at hbuf hfit hn
      rw [if_neg hpres, List.append_nil, happ]
      obtain ⟨hres, hrest⟩ := ih _ (by rwa [← happ]) hothers n st hv hbuf hfit hn
      exact ⟨hres, hrest.absent hpres⟩

/-- The decoder restores a message from its payload. -/
theorem qmi_decode_payload {gs : List Group} (hgs : MessageOk width gs)
    (hvalid : MessageValid width gs src base) {p : ℕ}
    (hbuf : Holds buf p (payload width gs src base))
    (hlen : (payload width gs src base).length < 2 ^ 16) :
    Decodes src (qmi_decode (messageTable gs) buf base p (payload width gs src base).length 1)
      (payload width gs src base).length (messageFields width gs src base) := by
  rw [qmi_decode_eq, qmi_decode.table, if_pos rfl]
  exact decodes_tlv_loop [] hgs hvalid _ _ hlen (.init p) (by simp [DecState.init]) hbuf
    (Nat.zero_add _) (le_refl _)

/-- The encoder of messages puts the header in front of the payload. -/
theorem qmi_encode_message_packet {gs : List Group} (hgs : MessageOk width gs)
    (hvalid : MessageValid width gs src base) {data_len : ℕ} (type msg_id txn_id : ℕ)
    (hdata : data_len < 2 ^ 32)
    (hroom : QMI_HEADER_SIZE + (payload width gs src base).length ≤ data_len) :
    let enc := qmi_encode_message data_len type msg_id txn_id (some (src, base)) (messageTable gs)
    enc.result = .ok (QMI_HEADER_SIZE + (payload width gs src base).length) ∧
      Places 0 enc.stores (qmi_header type txn_id msg_id (payload width gs src base).length ++
        payload width gs src base) := by
  obtain ⟨hres, hplaces⟩ := qmi_encode_payload hgs hvalid QMI_HEADER_SIZE
    (data_len - QMI_HEADER_SIZE) (by omega) (by omega)
  simp only [qmi_encode_message]
  rw [if_neg (by omega), Traced.bind_of_ok hres, Traced.bind_of_ok (Traced.store_result _ _)]
  refine ⟨rfl, ?_⟩
  simp only [Traced.store_stores, Traced.pure_stores, List.append_nil]
  refine Places.header ?_
  simpa [qmi_header, QMI_HEADER_SIZE] using hplaces

/-- The fields of a header in front of a packet. -/
theorem holds_header {pkt : Mem} {type txn_id msg_id msg_len : ℕ} (htype : type < 2 ^ 8)
    (hmsg : msg_id < 2 ^ 16) (htxn : txn_id < 2 ^ 16) (hlen : msg_len < 2 ^ 16)
    (h : Holds pkt 0 (qmi_header type txn_id msg_id msg_len)) :
    leNat (bytesAt pkt 0 1) = type ∧ leNat (bytesAt pkt 1 2) = txn_id ∧
      leNat (bytesAt pkt 3 2) = msg_id ∧ leNat (bytesAt pkt 5 2) = msg_len := by
  have h1 := h.left.left.left.bytesAt_eq (leBytes_length 1 type)
  have h2 := h.left.left.right.bytesAt_eq (leBytes_length 2 txn_id)
  have h3 := h.left.right.bytesAt_eq (leBytes_length 2 msg_id)
  have h4 := h.right.bytesAt_eq (leBytes_length 2 msg_len)
  simp only [List.length_append, leBytes_length, Nat.zero_add] at h2 h3 h4
  exact ⟨by rw [h1, leNat_leBytes _ _ (by simpa using htype)],
    by rw [h2, leNat_leBytes _ _ (by simpa using htxn)],
    by rw [h3, leNat_leBytes _ _ (by simpa using hmsg)],
    by rw [h4, leNat_leBytes _ _ (by simpa using hlen)]⟩

end Elements

/-- **The QMI round trip.** A valid struct of a well-formed message, encoded into a packet buffer
with room for it, is a packet that `qmi_decode_header` accepts with the same message id and that
`qmi_decode_message` decodes whole: it returns the payload length and the transaction id, and a
zeroed struct becomes the original in every described field and stays zero elsewhere. -/
theorem qmi_round_trip (width : ElemInfo → ℕ) (gs : List Group) (src : Mem)
    (base data_len type msg_id txn_id : ℕ) (old : Mem) (hgs : MessageOk width gs)
    (hvalid : MessageValid width gs src base) (htype : type < 2 ^ 8) (hmsg : msg_id < 2 ^ 16)
    (htxn : txn_id < 2 ^ 16) (hdata : data_len < 2 ^ 32)
    (hroom : QMI_HEADER_SIZE + (payload width gs src base).length ≤ data_len)
    (hpayload : (payload width gs src base).length ≤ 65535) :
    let enc := qmi_encode_message data_len type msg_id txn_id (some (src, base)) (messageTable gs)
    let pkt := applyStores old enc.stores
    let pkt_len := QMI_HEADER_SIZE + (payload width gs src base).length
    let dec := qmi_decode_message pkt pkt_len type msg_id base (messageTable gs)
    enc.result = .ok pkt_len ∧
      qmi_decode_header pkt pkt_len = .ok msg_id ∧
      dec.1 = some txn_id ∧
      dec.2.result = .ok (payload width gs src base).length ∧
      ∀ a, (Within (messageFields width gs src base) a →
          applyStores (fun _ => 0) dec.2.stores a = src a) ∧
        (¬ Within (messageFields width gs src base) a →
          applyStores (fun _ => 0) dec.2.stores a = 0) := by
  intro enc pkt pkt_len dec
  obtain ⟨hres, hplaces⟩ :=
    qmi_encode_message_packet hgs hvalid type msg_id txn_id hdata hroom
  have hholds : Holds pkt 0 (qmi_header type txn_id msg_id (payload width gs src base).length ++
      payload width gs src base) := by
    simp only [pkt, enc, hplaces old]
    exact holds_writeAt _ _ _
  obtain ⟨h1, h2, h3, h4⟩ := holds_header htype hmsg htxn (by omega) hholds.left
  have hbody : Holds pkt QMI_HEADER_SIZE (payload width gs src base) := by
    simpa [qmi_header, QMI_HEADER_SIZE] using hholds.right
  have hsub : wsub pkt_len QMI_HEADER_SIZE = (payload width gs src base).length := by
    rw [wsub_of_le (by simp only [pkt_len]; omega) (by simp only [pkt_len, QMI_HEADER_SIZE]; omega)]
    simp only [pkt_len]
    omega
  have hdec : dec = (some txn_id, qmi_decode (messageTable gs) pkt base QMI_HEADER_SIZE
      (payload width gs src base).length 1) := by
    simp only [dec, qmi_decode_message, h1, h2, h3, hsub]
    simp [pkt_len, QMI_HEADER_SIZE]
  obtain ⟨hok, hrestores⟩ := qmi_decode_payload hgs hvalid hbody (by omega)
  refine ⟨hres, ?_, by rw [hdec], by rw [hdec]; exact hok, fun a => ?_⟩
  · simp only [qmi_decode_header, h3, h4, pkt_len]
    rw [if_neg (by omega)]
  · rw [hdec]
    exact hrestores.apply a

/-- An optional array of up to two records, each a number and a name, a mandatory label, and an
optional number. -/
def recordMessage : List Group :=
  [⟨some ⟨.optFlag, 1, 1, .noArray, 0x10, 0, []⟩, some ⟨.dataLen, 1, 1, .noArray, 0x10, 4, []⟩,
      ⟨.struct, 2, 8, .varLenArray, 0x10, 8,
        [⟨.unsigned2Byte, 1, 2, .noArray, 0, 0, []⟩, ⟨.string, 5, 1, .noArray, 0, 2, []⟩]⟩⟩,
    ⟨none, none, ⟨.string, 4, 1, .noArray, 1, 24, []⟩⟩,
    ⟨some ⟨.optFlag, 1, 1, .noArray, 0x11, 28, []⟩, none,
      ⟨.unsigned4Byte, 1, 4, .noArray, 0x11, 32, []⟩⟩]

/-- Two records, a label, and no number. -/
def recordStruct : Mem := fun a =>
  ([1, 0, 0, 0, 2, 0, 0, 0, 7, 1, 65, 66, 0, 0, 0, 0, 9, 2, 67, 0, 0, 0, 0, 0, 88, 89, 90, 0, 0] :
    List UInt8).getD a 0

theorem nestedOk_record : NestedOk (fun _ => 4)
    [⟨.unsigned2Byte, 1, 2, .noArray, 0, 0, []⟩, ⟨.string, 5, 1, .noArray, 0, 2, []⟩] := by
  refine .single ⟨?_, ?_, ?_⟩ ?_ ?_ ?_ ?_ (.single ⟨?_, ?_, ?_⟩ ?_ ?_ ?_ ?_ .nil) <;>
    simp [ElemType.isBasic]

theorem messageOk_record : MessageOk (fun _ => 4) recordMessage := by
  have hscalar : ∀ e : ElemInfo, e.array_type = .noArray → ScalarOk e :=
    fun e he => ⟨by simp [he], by simp [he]⟩
  refine ⟨?_, by decide⟩
  simp only [recordMessage, List.forall_mem_cons, List.not_mem_nil, false_imp_iff, implies_true,
    and_true]
  refine ⟨⟨by decide, ?_, ?_, ⟨?_, ?_, ?_⟩, ?_, ?_, fun _ => nestedOk_record⟩,
    ⟨by decide, ?_, ?_, ⟨?_, ?_, ?_⟩, ?_, ?_, ?_⟩, ⟨by decide, ?_, ?_, ⟨?_, ?_, ?_⟩, ?_, ?_, ?_⟩⟩
  case refine_2 =>
    rintro l ⟨⟩
    exact ⟨⟨hscalar _ rfl, rfl, rfl, le_refl 4⟩, rfl⟩
  all_goals simp [ElemType.isBasic, Group.type, hscalar]

theorem messageValid_record : MessageValid (fun _ => 4) recordMessage recordStruct 0 := by
  simp only [MessageValid, recordMessage, List.forall_mem_cons, List.not_mem_nil, false_imp_iff,
    implies_true, and_true]
  refine ⟨⟨?_, fun _ => ⟨?_, ?_, fun _ i hi => ?_⟩⟩, ⟨?_, fun _ => ⟨?_, fun _ => ?_, ?_⟩⟩,
    ⟨?_, fun h => absurd h (by decide)⟩⟩
  · rintro f ⟨⟩
    exact .inr rfl
  · rintro l ⟨⟩
    decide
  · simp
  · -- the names of both records end inside their fields
    rw [valid_eq]
    have hend : ∀ j < 2, ∃ k < 5, recordStruct (0 + 8 + j * 8 + 2 + k) = 0 := by decide
    intro it hit
    simp only [List.map_cons, List.map_nil, items] at hit
    simp at hit
    rcases hit with rfl | rfl
    · simp [itemValid]
    · simp only [itemValid]
      refine ⟨by simp, fun _ => hend i hi, by simp⟩
  · simp
  · simp
  · exact ⟨3, by decide, rfl⟩
  · simp
  · rintro f ⟨⟩
    exact .inl rfl

theorem qmi_round_trip_records :
    let enc := qmi_encode_message 64 2 33 7 (some (recordStruct, 0)) (messageTable recordMessage)
    let dec := qmi_decode_message (applyStores (fun _ => 0xff) enc.stores) 26 2 33 0
      (messageTable recordMessage)
    enc.result = .ok 26 ∧ dec.1 = some 7 ∧ dec.2.result = .ok 19 ∧
      ∀ a, Within (messageFields (fun _ => 4) recordMessage recordStruct 0) a →
        applyStores (fun _ => 0) dec.2.stores a = recordStruct a := by
  have h := qmi_round_trip (fun _ => 4) recordMessage recordStruct 0 64 2 33 7 (fun _ => 0xff)
    messageOk_record messageValid_record (by decide) (by decide) (by decide) (by decide)
    (by decide +kernel) (by decide +kernel)
  have hlen : (payload (fun _ => 4) recordMessage recordStruct 0).length = 19 := by decide +kernel
  rw [hlen] at h
  exact ⟨h.1, h.2.2.1, h.2.2.2.1, fun a ha => (h.2.2.2.2 a).1 ha⟩

end Dragonboard.Qmi
