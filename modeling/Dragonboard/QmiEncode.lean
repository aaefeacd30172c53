/-
The encoder produces the wire format.

For a well-formed table and a valid struct the layout has no place where the encoder
stops, and its pieces spell the bytes of `payload`. Placing them needs exactly as much room
as they have bytes, so a buffer that holds the payload is large enough: the stores of
`qmi_encode` put the payload into it and its length is returned (`qmi_encode_payload`).
-/
import Mathlib.Data.List.Basic
import Dragonboard.QmiLayout
import Dragonboard.QmiWire

set_option autoImplicit false

namespace Dragonboard.Qmi

open Dragonboard.Memory

/-! ## Pieces and their bytes

If there is room for all of them, pieces come out as their bytes one after the other, and the
header of a TLV ends up in front of its value. From here on the encoder is not mentioned any more.
-/

/-- The bytes of a piece. -/
def Piece.bytes : Piece → List UInt8
  | .plain _ bytes => bytes
  | .topString _ bytes => bytes
  | .string len_bytes _ bytes => len_bytes ++ bytes
  | .close _ | .stop _ => []

/-- A piece that is bytes and nothing else; a string is as long as it says. -/
def Piece.Sound : Piece → Prop
  | .plain _ _ => True
  | .topString len bytes => bytes.length = len
  | .string _ len bytes => bytes.length = len
  | .close _ | .stop _ => False

/-- Sound pieces are placed one after the other. -/
theorem place_sound (limit : ℕ) {ps : List Piece} (hps : ∀ p ∈ ps, p.Sound) (c : ℕ × ℕ)
    (hfit : c.1 + (ps.flatMap Piece.bytes).length ≤ limit) :
    ∃ stores, place limit ps c = ⟨stores, 0, .ok (c.1 + (ps.flatMap Piece.bytes).length, c.2)⟩ ∧
      Below limit stores ∧ Places c.1 stores (ps.flatMap Piece.bytes) := by
  induction ps generalizing c with
  | nil => exact ⟨[], rfl, below_nil _, Places.nil _⟩
  | cons p ps ih =>
    rw [List.flatMap_cons, List.length_append] at hfit
    obtain ⟨stores, hplace, hbelow, hplaces⟩ :=
      ih (fun q hq => hps q (List.mem_cons_of_mem _ hq)) (c.1 + p.bytes.length, c.2)
        (by simp only; omega)
    have hp := hps p List.mem_cons_self
    -- one piece: its own stores, then the others
    obtain ⟨own, hown, hownBelow, hownPlaces⟩ : ∃ own,
        place limit [p] c = ⟨own, 0, .ok (c.1 + p.bytes.length, c.2)⟩ ∧ Below limit own ∧
          Places c.1 own p.bytes := by
      cases p with
      | plain encoded_bytes bytes =>
        simp only [Piece.bytes] at hfit
        have hsum := wadd_le bytes.length encoded_bytes
        refine ⟨[⟨c.1, bytes⟩], ?_, ?_, Places.single _ _⟩
        · rw [place, if_neg (by omega)]
          rfl
        · rw [below_singleton]
          intro _
          simp only
          omega
      | topString len bytes =>
        simp only [Piece.bytes] at hfit
        simp only [Piece.Sound] at hp
        refine ⟨[⟨c.1, bytes⟩], ?_, ?_, Places.single _ _⟩
        · rw [place, if_neg (by omega)]
          rfl
        · rw [below_singleton]
          intro _
          simp only
          omega
      | string len_bytes len bytes =>
        simp only [Piece.bytes, List.length_append] at hfit
        simp only [Piece.Sound] at hp
        have hsum := wadd_le len len_bytes.length
        refine ⟨[⟨c.1, len_bytes⟩] ++ [⟨c.1 + len_bytes.length, bytes⟩], ?_, ?_,
          (Places.single _ _).append (Places.single _ _)⟩
        · rw [place, if_neg (by omega)]
          simp only [Piece.bytes, List.length_append, ← Nat.add_assoc]
          rfl
        · rw [below_append, below_singleton, below_singleton]
          simp only
          omega
      | close tlv_type => exact absurd hp id
      | stop fault => exact absurd hp id
    refine ⟨own ++ stores, ?_, below_append.mpr ⟨hownBelow, hbelow⟩, ?_⟩
    · rw [← List.singleton_append, place_append, hown, Traced.bind_of_ok rfl, hplace]
      simp [Nat.add_assoc]
    · rw [List.flatMap_cons]
      exact hownPlaces.append hplaces

/-- The bytes of closed TLVs. -/
def tlvBytes (gs : List (UInt8 × List Piece)) : List UInt8 :=
  gs.flatMap fun g => g.1 :: leBytes 2 (g.2.flatMap Piece.bytes).length ++
    g.2.flatMap Piece.bytes

/-- TLVs of sound pieces are placed one after the other, every header in front of its value. -/
theorem place_tlvs (limit : ℕ) {gs : List (UInt8 × List Piece)}
    (hgs : ∀ g ∈ gs, ∀ p ∈ g.2, p.Sound) (pos : ℕ) (hfit : pos + (tlvBytes gs).length ≤ limit) :
    ∃ stores, place limit (gs.flatMap fun g => g.2 ++ [.close g.1]) (pos + TLV_SIZE, pos) =
        ⟨stores, 0, .ok (pos + (tlvBytes gs).length + TLV_SIZE, pos + (tlvBytes gs).length)⟩ ∧
      Below limit stores ∧ Places pos stores (tlvBytes gs) := by
  induction gs generalizing pos with
  | nil => exact ⟨[], rfl, below_nil _, Places.nil _⟩
  | cons g gs ih =>
    obtain ⟨t, ps⟩ := g
    have hcons : tlvBytes ((t, ps) :: gs) = (t :: leBytes 2 (ps.flatMap Piece.bytes).length ++
        ps.flatMap Piece.bytes) ++ tlvBytes gs := by
      rw [tlvBytes, List.flatMap_cons]
      rfl
    have hlen : (tlvBytes ((t, ps) :: gs)).length =
        TLV_SIZE + (ps.flatMap Piece.bytes).length + (tlvBytes gs).length := by
      rw [hcons]
      simp only [List.length_append, List.length_cons, leBytes_length, TLV_SIZE]
    -- the value is placed behind the room for its header, which is stored when it ends
    obtain ⟨value, hvalue, hvalueBelow, hvaluePlaces⟩ :=
      place_sound limit (hgs (t, ps) List.mem_cons_self) (pos + TLV_SIZE, pos)
        (by simp only; omega)
    obtain ⟨stores, hstores, hbelow, hplaces⟩ :=
      ih (fun g hg => hgs g (List.mem_cons_of_mem _ hg))
        (pos + TLV_SIZE + (ps.flatMap Piece.bytes).length) (by omega)
    generalize hv : ps.flatMap Piece.bytes = v at *
    refine ⟨(value ++ [⟨pos, t :: leBytes 2 v.length⟩]) ++ stores, ?_, ?_, ?_⟩
    · rw [List.flatMap_cons, List.append_assoc, place_append, hvalue, Traced.bind_of_ok rfl,
        List.singleton_append, place, Traced.bind_of_ok (Traced.store_result _ _), hstores]
      have hcur : pos + TLV_SIZE + v.length - pos - TLV_SIZE = v.length := by omega
      simp only [Traced.store_stores, Traced.store_reads, hlen, List.append_assoc, hcur]
      simp only [Traced.mk.injEq, true_and, Except.ok.injEq, Prod.mk.injEq]
      omega
    · simp only [below_append, below_singleton, hvalueBelow, hbelow, true_and, and_true]
      intro _
      simp only [List.length_cons, leBytes_length]
      unfold TLV_SIZE at *
      omega
    · rw [hcons]
      refine Places.append (Places.header ?_) ?_
      · simpa [TLV_SIZE] using hvaluePlaces
      · simpa [TLV_SIZE, Nat.add_assoc, Nat.add_comm, Nat.add_left_comm] using hplaces

/-! ## Counts and strings

What validity of a struct means for the values that the encoder goes by: the low byte of a count
is the count, and `strlen` ends inside the field. -/

section Items

variable {width : ElemInfo → ℕ} {src : Mem}

/-- The count a nested or message item carries is the low byte of its field. -/
theorem patchLow_count (src : Mem) (base : ℕ) {v : ℕ} {l : ElemInfo} (e : ElemInfo) (hl : CountOk width l)
    (hv : v < 256) (hcount : itemCount width src base (some l) e ≤ 255) :
    patchLow v (bytesAt src (base + l.offset) l.elem_size) =
      itemCount width src base (some l) e := by
  have hwide := hl.wide
  simp only [itemCount] at hcount ⊢
  rw [hl.size, patchLow_of_lt (by simpa using hv)]
  obtain ⟨w, hw⟩ : ∃ w, width l = w + 1 := ⟨width l - 1, by omega⟩
  rw [hw, bytesAt_succ, leNat] at hcount
  rw [hw, bytesAt_succ src (base + l.offset) w, leNat,
    show bytesAt src (base + l.offset) 1 = [src (base + l.offset)] from rfl, leNat, leNat]
  omega

theorem strlen_loop_spec (a : ℕ) {n i : ℕ} (hi : i < n) (h0 : src (a + i) = 0) :
    strlen.loop src n a ≤ i ∧ src (a + strlen.loop src n a) = 0 := by
  induction n generalizing a i with
  | zero => omega
  | succ n ih =>
    rw [strlen.loop]
    by_cases ha : src a = 0
    · rw [if_pos ha]
      exact ⟨Nat.zero_le _, ha⟩
    · rw [if_neg ha]
      cases i with
      | zero => exact absurd h0 ha
      | succ i =>
        have h0' : src (a + 1 + i) = 0 := by rwa [Nat.add_assoc, Nat.add_comm 1]
        obtain ⟨h1, h2⟩ := ih (a + 1) (by omega) h0'
        refine ⟨by omega, ?_⟩
        rwa [Nat.add_assoc, Nat.add_comm 1] at h2

/-- A string that ends inside its field is shorter than the field, and ends with a zero. -/
theorem strlen_spec {a n : ℕ} (hn : n < 2 ^ 32) (h : ∃ i < n, src (a + i) = 0) :
    strlen src a < n ∧ src (a + strlen src a) = 0 := by
  obtain ⟨i, hi, h0⟩ := h
  have hi32 : i < 2 ^ 32 := by omega
  obtain ⟨h1, h2⟩ := strlen_loop_spec a hi32 h0
  exact ⟨Nat.lt_of_le_of_lt h1 hi, h2⟩

/-- The number of elements in the encoder, for an element without a count. -/
theorem data_len_single (width : ElemInfo → ℕ) (src : Mem) (base v : ℕ) {e : ElemInfo}
    (harray : e.array_type ≠ .varLenArray) :
    qmi_encode.data_len e v = pure (itemCount width src base none e) := by
  unfold qmi_encode.data_len itemCount
  cases h : e.array_type with
  | noArray => rfl
  | staticArray => rfl
  | varLenArray => exact absurd h harray

theorem data_len_scalar {e : ElemInfo} (he : ScalarOk e) (v : ℕ) :
    ∃ n < 256, qmi_encode.data_len e v = pure n := by
  unfold qmi_encode.data_len
  cases h : e.array_type with
  | noArray => exact ⟨1, by omega, rfl⟩
  | staticArray =>
    have := (he.static h).2
    exact ⟨e.elem_len, by omega, rfl⟩
  | varLenArray => exact absurd h he.scalar

theorem elemOk_ne_dataLen {e : ElemInfo} (he : ElemOk e) : e.data_type ≠ .dataLen := by
  intro h
  rcases he.kind with hk | hk | hk <;> rw [h] at hk <;> simp [ElemType.isBasic] at hk

/-! ## Layout of an item

By induction over the table, the layout of a nested struct has the wire bytes of the struct. An
array with its count takes two elements of the table, which is why the induction is over items. -/

/-- A nested table lays out a valid struct as its wire bytes. -/
def LaysOut (width : ElemInfo → ℕ) (src : Mem) (base level : ℕ) (tab : List ElemInfo) : Prop :=
  (∀ p ∈ layout tab src base level, p.Sound) ∧
    (layout tab src base level).flatMap Piece.bytes = wire width tab src base

variable {base : ℕ} (level : ℕ) {e : ElemInfo}

/-- The layout of `n` elements of one kind, in front of the rest of the table. -/
theorem layout_elem {v n : ℕ} (len : ℕ) (he : ElemOk e) (hn : qmi_encode.data_len e v = pure n)
    (hstr : e.data_type = .string → ∃ i < e.elem_len, src (base + e.offset + i) = 0)
    (hnest : e.data_type = .struct → ∀ i < n,
      LaysOut width src (base + e.offset + i * e.elem_size) (level + 1) e.ei_array) :
    ∃ ps len', (∀ rest, layout.loop src base level ((e, layout e.ei_array) :: rest) 0 v len =
        ps ++ (layout.close level e.tlv_type ++ layout.loop src base level rest 0 n len')) ∧
      (∀ p ∈ ps, p.Sound) ∧
      ps.flatMap Piece.bytes =
        wireElem (level == 1) src base n (e, wire width e.ei_array) := by
  rcases he.kind with hk | hk | hk
  · refine ⟨[.plain len (bytesAt src (base + e.offset) (n * e.elem_size))], _,
      fun rest => layout_loop_basic hn hk, by simp [Piece.Sound], ?_⟩
    unfold wireElem
    cases hd : e.data_type <;> simp_all [ElemType.isBasic, Piece.bytes]
  · refine ⟨_, _, fun rest => layout_loop_struct hn hk, ?_, ?_⟩
    · intro p hp
      obtain ⟨i, hi, hp⟩ := List.mem_flatMap.mp hp
      exact (hnest hk i (List.mem_range.mp hi)).1 p hp
    · simp only [wireElem, hk, List.flatMap_assoc]
      exact List.flatMap_congr fun i hi => (hnest hk i (List.mem_range.mp hi)).2
  · obtain ⟨hsize, -, hlen⟩ := he.string hk
    obtain ⟨hlt, -⟩ := strlen_spec hlen (hstr hk)
    refine ⟨[layout.string e src (base + e.offset) level], _,
      fun rest => layout_loop_string hn hk, ?_, ?_⟩
    · intro p hp
      rw [List.mem_singleton.mp hp, layout.string, if_neg (by omega), hsize]
      split <;> simp [Piece.Sound]
    · rw [layout.string, if_neg (by omega), hsize]
      simp only [wireElem, hk]
      by_cases hl : level = 1 <;> simp [hl, Piece.bytes]

theorem wireElem_zero (top : Bool) (he : ElemOk e) (harray : e.array_type = .varLenArray)
    (f : Mem → ℕ → List UInt8) : wireElem top src base 0 (e, f) = [] := by
  unfold wireElem
  rcases he.kind with hk | hk | hk
  · cases hd : e.data_type <;> simp_all [ElemType.isBasic]
  · simp [hk]
  · have := (he.string hk).2.1
    simp_all

/-- The layout of an array with its count. The element pointer moves to the array by itself, or
past it if the count is zero; for that, the next element must belong to another TLV. -/
theorem layout_counted {v : ℕ} (len : ℕ) {l : ElemInfo} (hl : CountOk width l) (he : ElemOk e)
    (harray : e.array_type = .varLenArray)
    (htype : level = 1 → l.tlv_type = e.tlv_type)
    (hvalid : itemValid width src base (some l) (e, Valid width e.ei_array))
    (hnest : e.data_type = .struct → ∀ i < itemCount width src base (some l) e,
      LaysOut width src (base + e.offset + i * e.elem_size) (level + 1) e.ei_array) :
    ∃ ps len', (∀ rest : List (ElemInfo × Lay),
        skip_to_next_elem level (e :: rest.map Prod.fst) = some 1 →
        layout.loop src base level ((l, layout l.ei_array) :: (e, layout e.ei_array) :: rest) 0 v
            len =
          ps ++ (layout.close level e.tlv_type ++
            layout.loop src base level rest 0 (itemCount width src base (some l) e) len')) ∧
      (∀ p ∈ ps, p.Sound) ∧
      ps.flatMap Piece.bytes =
        wireItem width (level == 1) src base (some l) (e, wire width e.ei_array) := by
  obtain ⟨hle, hstr, -⟩ := hvalid
  have hcount := hle l rfl
  have h255 := (he.array (by simp [harray])).2
  obtain ⟨n0, hn0, hdata⟩ := data_len_scalar hl.toScalarOk v
  simp only at hcount
  have hpatch := patchLow_count src base e hl hn0 (by omega)
  have hclose : layout.close level l.tlv_type = layout.close level e.tlv_type := by
    unfold layout.close
    split
    · rw [htype (by assumption)]
    · rfl
  have hsz : data_len_sz l.elem_size = 1 := by rw [hl.size]; rfl
  generalize hc : itemCount width src base (some l) e = count at *
  -- with a count of zero the array is skipped, and nothing but the count is laid out
  rcases Nat.eq_zero_or_pos count with rfl | hpos
  · refine ⟨[.plain len (leBytes 1 0)], len + 1 + sizes (layout.close level e.tlv_type),
      fun rest hskip => ?_, by simp [Piece.Sound], ?_⟩
    · rw [layout_loop_dataLen hdata hl.type]
      simp only [hpatch, hsz, if_true, List.map_cons, hskip, hclose]
      rfl
    · rw [wireItem, hc, wireElem_zero _ he harray]
      simp [Piece.bytes]
  · have hn : qmi_encode.data_len e count = pure count := by
      unfold qmi_encode.data_len
      rw [harray]
      simp only
      rw [if_neg (by omega)]
    obtain ⟨ps, len', hps, hsound, hbytes⟩ := layout_elem level (len + 1) he hn hstr hnest
    refine ⟨.plain len (leBytes 1 count) :: ps, len', fun rest hskip => ?_, ?_, ?_⟩
    · rw [layout_loop_dataLen hdata hl.type]
      simp only [hpatch, hsz]
      rw [if_neg (by omega), hps, List.cons_append]
    · intro p hp
      rcases List.mem_cons.mp hp with rfl | hp
      · trivial
      · exact hsound p hp
    · rw [wireItem, hc, List.flatMap_cons, hbytes]
      rfl

/-- A table that lays out valid items as their wire bytes lays out a valid struct so. -/
theorem laysOut_of_items {tab : List ElemInfo} {b level : ℕ} (hvalid : Valid width tab src b)
    (h : (∀ it ∈ items (tab.map fun e => (e, Valid width e.ei_array)),
        itemValid width src b it.1 it.2) →
      (∀ p ∈ layout.loop src b level (tab.map fun e => (e, layout e.ei_array)) 0 0 0, p.Sound) ∧
        (layout.loop src b level (tab.map fun e => (e, layout e.ei_array)) 0 0 0).flatMap Piece.bytes
          = (items (tab.map fun e => (e, wire width e.ei_array))).flatMap
            fun it => wireItem width false src b it.1 it.2) :
    LaysOut width src b level tab := by
  rw [valid_eq] at hvalid
  rw [LaysOut, layout_eq, wire_eq]
  exact h hvalid

/-- A nested table lays out a valid struct as its wire bytes, whatever count and length are
carried into it. -/
theorem layout_nested {tab : List ElemInfo} (h : NestedOk width tab) (base level v len : ℕ)
    (hl : 2 ≤ level)
    (hvalid : ∀ it ∈ items (tab.map fun e => (e, Valid width e.ei_array)),
      itemValid width src base it.1 it.2) :
    (∀ p ∈ layout.loop src base level (tab.map fun e => (e, layout e.ei_array)) 0 v len, p.Sound) ∧
      (layout.loop src base level (tab.map fun e => (e, layout e.ei_array)) 0 v len).flatMap
          Piece.bytes
        = (items (tab.map fun e => (e, wire width e.ei_array))).flatMap
          fun it => wireItem width false src base it.1 it.2 := by
  -- the induction is on the shape of the table: a single element or a counted one, and the rest
  induction h generalizing base level v len with
  | nil => simp [layout.loop, items]
  | @single e rest he hsize harray hne hnested hrest ihe ih =>
    have hdl : e.data_type ≠ .dataLen := elemOk_ne_dataLen he
    have hstruct : e.data_type = .struct → ∀ b, Valid width e.ei_array src b →
        LaysOut width src b (level + 1) e.ei_array :=
      fun hk b hb => laysOut_of_items hb (ihe hk b (level + 1) 0 0 (by omega))
    rw [List.map_cons, items_single hdl, List.forall_mem_cons] at hvalid
    obtain ⟨⟨-, hstr, hsub⟩, hothers⟩ := hvalid
    obtain ⟨ps, len', hps, hsound, hbytes⟩ := layout_elem level len he
      (data_len_single width src base v harray) hstr fun hk i hi => hstruct hk _ (hsub hk i hi)
    obtain ⟨hs, hb⟩ := ih base level (itemCount width src base none e) len' hl hothers
    rw [List.map_cons, List.map_cons, items_single hdl, hps, layout_close_nested (by omega),
      List.nil_append, List.flatMap_append, List.flatMap_cons, hbytes, hb]
    refine ⟨List.forall_mem_append.mpr ⟨hsound, hs⟩, ?_⟩
    simp [wireItem, show (level == 1) = false by simp; omega]
  | @counted l e rest hlen he hsize harray hne hnested hrest ihe ih =>
    have hstruct : e.data_type = .struct → ∀ b, Valid width e.ei_array src b →
        LaysOut width src b (level + 1) e.ei_array :=
      fun hk b hb => laysOut_of_items hb (ihe hk b (level + 1) 0 0 (by omega))
    rw [List.map_cons, List.map_cons, items_counted hlen.type, List.forall_mem_cons] at hvalid
    obtain ⟨hitem, hothers⟩ := hvalid
    obtain ⟨ps, len', hps, hsound, hbytes⟩ := layout_counted level (v := v) len hlen he harray
      (by omega) hitem fun hk i hi => hstruct hk _ (hitem.2.2 hk i hi)
    obtain ⟨hs, hb⟩ := ih base level (itemCount width src base (some l) e) len' hl hothers
    -- a nested table does not skip by type, only the array behind the count
    have hskip : skip_to_next_elem level
        (e :: (rest.map fun e => (e, layout e.ei_array)).map Prod.fst) = some 1 := by
      rw [skip_to_next_elem, if_pos (by omega)]
    rw [List.map_cons, List.map_cons, List.map_cons, List.map_cons, items_counted hlen.type,
      hps _ hskip, layout_close_nested (by omega), List.nil_append, List.flatMap_append,
      List.flatMap_cons, hbytes, hb]
    refine ⟨List.forall_mem_append.mpr ⟨hsound, hs⟩, ?_⟩
    rw [show (level == 1) = false by simp; omega]

theorem laysOut {tab : List ElemInfo} (h : NestedOk width tab) {b : ℕ} {level : ℕ}
    (hl : 2 ≤ level) (hvalid : Valid width tab src b) : LaysOut width src b level tab :=
  laysOut_of_items hvalid (layout_nested h b level 0 0 hl)

/-! ## Layout of a message

At level 1 a group is skipped as a whole if its flag is not set, and is one TLV otherwise.
Skipping goes by the type of the elements, so groups that stand next to each other must have
different types. -/

/-- The group's elements share its type. -/
theorem Group.Ok.tlv_type {g : Group} (hg : g.Ok width) : ∀ e ∈ g.elems, e.tlv_type = g.type := by
  intro e he
  simp only [Group.elems, List.mem_append, Option.mem_toList, List.mem_singleton] at he
  rcases he with (he | he) | rfl
  · exact (hg.flag e he).2.2
  · exact (hg.len e he).2
  · rfl

/-- Skipping from inside a group ends behind it, when what follows has another type. -/
theorem skip_loop_group {t : UInt8} (ht : t ≠ 0) {rest : List ElemInfo}
    (hrest : ∀ e ∈ rest.head?, e.tlv_type ≠ t) (es : List ElemInfo) (hne : es ≠ [])
    (hes : ∀ e ∈ es, e.tlv_type = t) :
    skip_to_next_elem.loop (es ++ rest) = some es.length := by
  induction es with
  | nil => exact absurd rfl hne
  | cons e es ih =>
    have he := hes e List.mem_cons_self
    cases es with
    | nil =>
      cases rest with
      | nil => simp [skip_to_next_elem.loop, he, ht]
      | cons r rest =>
        have := hrest r rfl
        rw [List.singleton_append, skip_to_next_elem.loop, he, if_neg (Ne.symm this)]
        rfl
    | cons e' es =>
      have he' := hes e' (by simp)
      have := ih (by simp) fun x hx => hes x (List.mem_cons_of_mem _ hx)
      rw [List.cons_append] at this
      rw [List.cons_append, List.cons_append, skip_to_next_elem.loop, he, he', if_pos rfl, this]
      rfl

section Group

variable {g : Group} {rest : List ElemInfo}

/-- The layout of a group present in the message, behind its flag. -/
theorem layout_group_item (hg : g.Ok width) (v len : ℕ)
    (hvalid : itemValid width src base g.len (g.elem, Valid width g.elem.ei_array))
    (hrest : ∀ e ∈ rest.head?, e.tlv_type ≠ g.type) :
    ∃ n len' ps, layout.loop src base 1
        ((g.len.toList ++ g.elem :: rest).map fun e => (e, layout e.ei_array)) 0 v len =
        (ps ++ [.close g.type]) ++
          layout.loop src base 1 (rest.map fun e => (e, layout e.ei_array)) 0 n len' ∧
      (∀ p ∈ ps, p.Sound) ∧ ps.flatMap Piece.bytes = g.body width src base := by
  have hstruct : g.elem.data_type = .struct → ∀ b, Valid width g.elem.ei_array src b →
      LaysOut width src b 2 g.elem.ei_array :=
    fun hk b hb => laysOut (hg.nested hk) (le_refl 2) hb
  have hcounted := hg.counted
  have hlen := hg.len
  obtain ⟨flag, len, e⟩ := g
  -- a group without a count is laid out as it is, one with a count behind it
  cases len with
  | none =>
    have harray : e.array_type ≠ .varLenArray := by simpa using hcounted
    obtain ⟨ps, len', hps, hsound, hbytes⟩ := layout_elem 1 len hg.elem
      (data_len_single width src base v harray) hvalid.2.1
      fun hk i hi => hstruct hk _ (hvalid.2.2 hk i hi)
    refine ⟨itemCount width src base none e, len', ps, ?_, hsound, ?_⟩
    · rw [Option.toList_none, List.nil_append, List.map_cons, hps, layout.close, if_pos rfl,
        List.append_assoc]
      rfl
    · rw [hbytes]
      rfl
  | some l =>
    have harray : e.array_type = .varLenArray := by simpa using hcounted
    obtain ⟨hl, hlt⟩ := hlen l rfl
    obtain ⟨ps, len', hps, hsound, hbytes⟩ := layout_counted 1 (v := v) len hl hg.elem harray
      (fun _ => hlt) hvalid fun hk i hi => hstruct hk _ (hvalid.2.2 hk i hi)
    have hskip : skip_to_next_elem 1 (e :: rest) = some 1 :=
      skip_loop_group hg.type_ne hrest [e] (by simp) (by simp [Group.type])
    refine ⟨itemCount width src base (some l) e, len', ps, ?_, hsound, hbytes⟩
    rw [Option.toList_some, List.singleton_append, List.map_cons, List.map_cons, hps,
      layout.close, if_pos rfl, List.append_assoc]
    · rfl
    · rw [List.map_map]
      exact (congrArg (fun t => skip_to_next_elem 1 (e :: t)) (List.map_id rest)).trans hskip

/-- Passing over elements. -/
theorem layout_loop_skip (src : Mem) (base : ℕ) (es rest : List ElemInfo) (level v len : ℕ) :
    layout.loop src base level ((es ++ rest).map fun e => (e, layout e.ei_array)) es.length v len =
      layout.loop src base level (rest.map fun e => (e, layout e.ei_array)) 0 v len := by
  induction es with
  | nil => rfl
  | cons e es ih => exact ih

/-- The layout of a group: one TLV, or nothing. -/
theorem layout_group (hg : g.Ok width) (v len : ℕ)
    (hvalid : g.present src base →
      itemValid width src base g.len (g.elem, Valid width g.elem.ei_array))
    (hrest : ∀ e ∈ rest.head?, e.tlv_type ≠ g.type) :
    ∃ n len' ps, layout.loop src base 1
        ((g.elems ++ rest).map fun e => (e, layout e.ei_array)) 0 v len =
        (if g.present src base then ps ++ [.close g.type] else []) ++
          layout.loop src base 1 (rest.map fun e => (e, layout e.ei_array)) 0 n len' ∧
      (∀ p ∈ ps, p.Sound) ∧
      (g.present src base → ps.flatMap Piece.bytes = g.body width src base) := by
  have helems : g.elems ++ rest = g.flag.toList ++ (g.len.toList ++ g.elem :: rest) := by
    simp [Group.elems]
  rw [helems]
  -- a group without a flag is always there
  cases hf : g.flag with
  | none =>
    have hp : g.present src base = true := by simp [Group.present, hf]
    obtain ⟨n, len', ps, hps, hsound, hbytes⟩ := layout_group_item hg v len (hvalid hp) hrest
    refine ⟨n, len', ps, ?_, hsound, fun _ => hbytes⟩
    rw [if_pos hp, Option.toList_none, List.nil_append, hps]
  | some f =>
    obtain ⟨hscalar, hflag, htype⟩ := hg.flag f hf
    obtain ⟨n0, -, hdata⟩ := data_len_scalar hscalar v
    have hpres : g.present src base = true ↔ src (base + f.offset) ≠ 0 := by
      simp [Group.present, hf]
    rw [Option.toList_some, List.singleton_append, List.map_cons, layout_loop_optFlag hdata hflag]
    by_cases hset : src (base + f.offset) ≠ 0
    · have hp := hpres.mpr hset
      obtain ⟨n, len', ps, hps, hsound, hbytes⟩ := layout_group_item hg n0 len (hvalid hp) hrest
      refine ⟨n, len', ps, ?_, hsound, fun _ => hbytes⟩
      rw [if_pos hset, if_pos hp, hps]
    · have hp : ¬ g.present src base = true := fun h => hset (hpres.mp h)
      refine ⟨n0, len, [], ?_, by simp, fun h => absurd h hp⟩
      -- the elements of the group are skipped, up to the next type
      have hskip : skip_to_next_elem 1 (f :: (g.len.toList ++ g.elem :: rest)) =
          some (g.len.toList ++ [g.elem]).length.succ := by
        have := skip_loop_group hg.type_ne hrest (f :: (g.len.toList ++ [g.elem])) (by simp) ?_
        · simpa [skip_to_next_elem] using this
        · intro e he
          refine hg.tlv_type e ?_
          simpa [Group.elems, hf] using he
      have hmap : ((g.len.toList ++ g.elem :: rest).map fun e => (e, layout e.ei_array)).map Prod.fst
          = g.len.toList ++ g.elem :: rest := by
        rw [List.map_map]
        exact List.map_id _
      rw [if_neg hset, if_neg hp, hmap, hskip]
      have := layout_loop_skip src base (g.len.toList ++ [g.elem]) rest 1 n0 len
      simpa using this

end Group

/-- The layout of a message: the TLVs of the groups present. -/
theorem layout_message {gs : List Group} (hgs : MessageOk width gs)
    (hvalid : MessageValid width gs src base) (v len : ℕ) :
    ∃ tlvs : List (UInt8 × List Piece),
      layout.loop src base 1 ((messageTable gs).map fun e => (e, layout e.ei_array)) 0 v len =
        (tlvs.flatMap fun t => t.2 ++ [.close t.1]) ∧
      (∀ t ∈ tlvs, ∀ p ∈ t.2, p.Sound) ∧ tlvBytes tlvs = payload width gs src base := by
  induction gs generalizing v len with
  | nil => exact ⟨[], rfl, by simp, rfl⟩
  | cons g gs ih =>
    obtain ⟨hg, hothers⟩ := List.forall_mem_cons.mp hgs.groups
    obtain ⟨hnotin, hnodup⟩ := List.nodup_cons.mp hgs.types
    obtain ⟨hvg, hvothers⟩ := List.forall_mem_cons.mp hvalid
    have hrest : ∀ e ∈ (messageTable gs).head?, e.tlv_type ≠ g.type := by
      intro e he htype
      obtain ⟨g', hg', heg⟩ := List.mem_flatMap.mp (List.mem_of_mem_head? he)
      rw [(hothers g' hg').tlv_type e heg] at htype
      exact hnotin (htype ▸ List.mem_map_of_mem hg')
    obtain ⟨n, len', ps, hps, hsound, hbytes⟩ := layout_group hg v len hvg.2 hrest
    obtain ⟨tlvs, htlvs, htsound, htbytes⟩ := ih ⟨hothers, hnodup⟩ hvothers n len'
    have htable : messageTable (g :: gs) = g.elems ++ messageTable gs := rfl
    have hpayload : payload width (g :: gs) src base =
        g.tlv width src base ++ payload width gs src base := rfl
    rw [htable, hps, hpayload, Group.tlv]
    by_cases hp : g.present src base
    · refine ⟨(g.type, ps) :: tlvs, ?_, List.forall_mem_cons.mpr ⟨hsound, htsound⟩, ?_⟩
      · rw [if_pos hp, htlvs, List.flatMap_cons]
      · rw [if_pos hp, ← htbytes, ← hbytes hp, tlvBytes, List.flatMap_cons]
        rfl
    · exact ⟨tlvs, by rw [if_neg hp, htlvs, List.nil_append], htsound, by
        rw [if_neg hp, htbytes, List.nil_append]⟩

/-- **The encoder produces the wire format**: a buffer that holds the payload is large enough, and
the stores put the payload into it. -/
theorem qmi_encode_payload {gs : List Group} (hgs : MessageOk width gs)
    (hvalid : MessageValid width gs src base) (out_buf out_buf_len : ℕ)
    (hlen : out_buf_len < 2 ^ 32) (hfit : (payload width gs src base).length ≤ out_buf_len) :
    (qmi_encode (messageTable gs) src base out_buf out_buf_len 1).result =
        .ok (payload width gs src base).length ∧
      Places out_buf (qmi_encode (messageTable gs) src base out_buf out_buf_len 1).stores
        (payload width gs src base) := by
  obtain ⟨tlvs, hlayout, hsound, hbytes⟩ := layout_message hgs hvalid 0 0
  obtain ⟨stores, hplace, hbelow, hplaces⟩ :=
    place_tlvs (out_buf + out_buf_len) hsound out_buf (by rw [hbytes]; omega)
  have hsame := qmi_encode_same (messageTable gs) src base out_buf out_buf_len hlen
  have heq : layout (messageTable gs) src base 1 = tlvs.flatMap fun t => t.2 ++ [.close t.1] := by
    rw [layout_eq]
    exact hlayout
  rw [heq, hplace, Traced.bind_of_ok rfl, hbytes] at hsame
  rw [hbytes] at hplaces
  simp only [Traced.pure_stores, List.append_nil, Traced.pure_result] at hsame
  rcases hsame with ⟨hs, hr⟩ | ⟨-, hno⟩
  · rw [hs, hr]
    refine ⟨congrArg Except.ok ?_, hplaces⟩
    omega
  · exact absurd hbelow hno

end Items

end Dragonboard.Qmi
