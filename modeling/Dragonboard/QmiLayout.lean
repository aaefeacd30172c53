/-
The wire layout of a message, and the encoder as its placement.

`layout` reads a C struct through a descriptor table and lists, in order, the
pieces of the message: counts and plain elements, strings, the ends of TLVs, and
the places where the encoder stops. There is no buffer in it. `place` puts such
a list into a buffer, one piece after the other at absolute positions, with the
space test that the encoder makes for each kind of piece. The sums in these tests are
of 32 bits, and the one for a plain piece counts from the structure that the piece belongs to,
so a plain piece carries the number of bytes in front of it there.

`qmi_encode_same` is the bridge: the encoder makes exactly the stores of `place`
and returns what it returns, as long as no store has gone past the end of the buffer.
The proviso is needed because a length that has overrun the buffer wraps in
`out_buf_len - encoded_bytes`, and from then on nothing can be said; what
matters below is only whether the first such store happens.

The invariant is one equation, `buf_dst + (out_buf_len - encoded_bytes) = limit + 3`:
at level 1 the three bytes are the header reserved in front of `buf_dst`, at the
nested levels they are that same header, still counted as room.
-/
import Dragonboard.Qmi

set_option autoImplicit false

namespace Dragonboard.Qmi

open Dragonboard.Memory

/-! ## Pieces

Between the encoder and the bytes stand pieces: bytes to store, a check without a store, and the
end of a TLV. A layout depends on the struct and the table alone, and `place` is all that depends
on the room. -/

/-- A piece of an encoded message. -/
inductive Piece where
  /-- a count, or elements of a basic type, behind `encoded_bytes` of the same structure -/
  | plain (encoded_bytes : ℕ) (bytes : List UInt8)
  /-- a string element of the message itself: its length and what is stored for it -/
  | topString (len : ℕ) (bytes : List UInt8)
  /-- a string in a nested structure, with the length in front of it -/
  | string (len_bytes : List UInt8) (len : ℕ) (bytes : List UInt8)
  /-- the end of a TLV -/
  | close (tlv_type : UInt8)
  /-- the encoder stops -/
  | stop (fault : Fault)
deriving DecidableEq, Repr

/-- The bytes by which a piece moves the cursor on. -/
def Piece.size : Piece → ℕ
  | .plain _ bytes => bytes.length
  | .topString _ bytes => bytes.length
  | .string len_bytes _ bytes => len_bytes.length + bytes.length
  | .close _ => TLV_SIZE
  | .stop _ => 0

/-- The bytes by which pieces move the cursor on. -/
def sizes (ps : List Piece) : ℕ := (ps.map Piece.size).sum

@[simp] theorem sizes_nil : sizes [] = 0 := rfl

@[simp] theorem sizes_cons (p : Piece) (ps : List Piece) : sizes (p :: ps) = p.size + sizes ps := by
  rw [sizes, List.map_cons, List.sum_cons, sizes]

@[simp] theorem sizes_append (ps qs : List Piece) : sizes (ps ++ qs) = sizes ps + sizes qs := by
  rw [sizes, List.map_append, List.sum_append, sizes, sizes]

/-- The layout of a nested table: C struct memory, `in_c_struct` and `enc_level`. -/
abbrev Lay : Type := Mem → ℕ → ℕ → List Piece

/-- An element at level 1 ends its TLV. -/
def layout.close (level : ℕ) (tlv_type : UInt8) : List Piece :=
  if level = 1 then [.close tlv_type] else []

/-- The pieces of a string element, the length check first. -/
def layout.string (e : ElemInfo) (src : Mem) (buf_src level : ℕ) : Piece :=
  let len := strlen src buf_src
  if len > e.elem_len then .stop (.errno EINVAL)
  else if level = 1 then .topString len (bytesAt src buf_src (len * e.elem_size))
  else .string (leBytes (string_len_sz e.elem_len) len) len
    (bytesAt src buf_src (len * e.elem_size))

/-- The pieces of a table from an element on; `k` elements are passed over first, and
`data_len_value` and `encoded_bytes` are the count and the bytes of the elements before. -/
def layout.loop (src : Mem) (in_c_struct level : ℕ) :
    List (ElemInfo × Lay) → ℕ → ℕ → ℕ → List Piece
  | [], _, _, _ => []
  | _ :: rest, k + 1, data_len_value, encoded_bytes =>
    layout.loop src in_c_struct level rest k data_len_value encoded_bytes
  | e :: rest, 0, data_len_value, encoded_bytes =>
    let buf_src := in_c_struct + e.1.offset
    match (qmi_encode.data_len e.1 data_len_value).result with
    | .error fault => [.stop fault]
    | .ok n =>
      match e.1.data_type with
      | .optFlag =>
        if src buf_src ≠ 0 then layout.loop src in_c_struct level rest 0 n encoded_bytes
        else
          match skip_to_next_elem level (e.1 :: rest.map Prod.fst) with
          | some k => layout.loop src in_c_struct level rest (k - 1) n encoded_bytes
          | none => [.stop .wild]
      | .dataLen =>
        let count := patchLow n (bytesAt src buf_src e.1.elem_size)
        let sz := data_len_sz e.1.elem_size
        .plain encoded_bytes (leBytes sz count) ::
          if count = 0 then
            match skip_to_next_elem level (rest.map Prod.fst) with
            | some k => layout.close level e.1.tlv_type ++
                layout.loop src in_c_struct level rest k count
                  (encoded_bytes + sz + sizes (layout.close level e.1.tlv_type))
            | none => [.stop .wild]
          else layout.loop src in_c_struct level rest 0 count (encoded_bytes + sz)
      | .unsigned1Byte | .unsigned2Byte | .unsigned4Byte | .unsigned8Byte
      | .signed1ByteEnum | .signed2ByteEnum | .signed4ByteEnum =>
        .plain encoded_bytes (bytesAt src buf_src (n * e.1.elem_size)) ::
          (layout.close level e.1.tlv_type ++ layout.loop src in_c_struct level rest 0 n
            (encoded_bytes + n * e.1.elem_size + sizes (layout.close level e.1.tlv_type)))
      | .struct =>
        let structs :=
          (List.range n).flatMap fun i => e.2 src (buf_src + i * e.1.elem_size) (level + 1)
        structs ++ (layout.close level e.1.tlv_type ++ layout.loop src in_c_struct level rest 0 n
          (encoded_bytes + sizes structs + sizes (layout.close level e.1.tlv_type)))
      | .string =>
        let string := layout.string e.1 src buf_src level
        string :: (layout.close level e.1.tlv_type ++ layout.loop src in_c_struct level rest 0 n
          (encoded_bytes + string.size + sizes (layout.close level e.1.tlv_type)))
      | .eoti => [.stop (.errno EINVAL)]

/-- The layout of a table with resolved nested tables. -/
def layout.table (tab : List (ElemInfo × Lay)) : Lay :=
  fun src in_c_struct level => layout.loop src in_c_struct level tab 0 0 0

/-- The layout of a C struct under a descriptor table. -/
def layout (ei_array : List ElemInfo) : Lay := layout.table (resolve layout.table ei_array)

theorem layout_eq (ei_array : List ElemInfo) :
    layout ei_array = layout.table (ei_array.map fun e => (e, layout e.ei_array)) := by
  rw [layout, resolve_eq_map]
  rfl

/-- Placing pieces into a buffer of `limit` bytes, from the position `c.1` on and with the
header of the current TLV at `c.2`. The tests are those of the encoder, in absolute positions:
where the encoder compares with the room of a structure that starts at `c.1 - encoded_bytes`, the
limit is moved to there. -/
def place (limit : ℕ) : List Piece → ℕ × ℕ → Traced (ℕ × ℕ)
  | [], c => pure c
  | .plain encoded_bytes bytes :: ps, c =>
    if c.1 + wadd bytes.length encoded_bytes > limit + encoded_bytes then
      Traced.fail (.errno EINVAL)
    else do
      Traced.store c.1 bytes
      place limit ps (c.1 + bytes.length, c.2)
  | .topString len bytes :: ps, c =>
    if c.1 + len > limit then Traced.fail (.errno EINVAL)
    else do
      Traced.store c.1 bytes
      place limit ps (c.1 + bytes.length, c.2)
  | .string len_bytes len bytes :: ps, c =>
    if c.1 + wadd len len_bytes.length > limit + TLV_SIZE then Traced.fail (.errno EINVAL)
    else do
      Traced.store c.1 len_bytes
      Traced.store (c.1 + len_bytes.length) bytes
      place limit ps (c.1 + len_bytes.length + bytes.length, c.2)
  | .close tlv_type :: ps, c => do
    Traced.store c.2 (tlv_type :: leBytes 2 (c.1 - c.2 - TLV_SIZE))
    place limit ps (c.1 + TLV_SIZE, c.1)
  | .stop fault :: _, _ => Traced.fail fault

/-! ## Equal up to the first store past the end

The encoder and `place` agree as long as they stay inside the buffer. Behind the first store past
the end they need not, since the encoder may then go on with a wrapped length; so the relation
only asks that both have got there. -/

/-- Two computations make the same stores and return the same, or both store past the
limit. -/
def Same {α : Type} (limit : ℕ) (x y : Traced α) : Prop :=
  (x.stores = y.stores ∧ x.result = y.result) ∨
    (¬ Below limit x.stores ∧ ¬ Below limit y.stores)

theorem Same.refl {α : Type} (limit : ℕ) (x : Traced α) : Same limit x x := .inl ⟨rfl, rfl⟩

section Same

variable {α β γ : Type} {limit : ℕ}

theorem not_below_bind {x : Traced α} (h : ¬ Below limit x.stores) (f : α → Traced β) :
    ¬ Below limit (x >>= f).stores := by
  cases hx : x.result with
  | ok a =>
    rw [Traced.bind_of_ok hx]
    exact fun hb => h (below_append.mp hb).1
  | error e =>
    rw [Traced.bind_of_error hx]
    exact h

/-- Sequencing: the second parts only have to match after a first part that stayed below the
limit. The results of the first parts may be related by a function `h`. -/
theorem Same.bind {x : Traced α} {y : Traced γ} {h : γ → α}
    (hxy : Same limit x (y >>= fun c => pure (h c))) {f : α → Traced β} {g : γ → Traced β}
    (hfg : ∀ c, y.result = .ok c → Below limit y.stores → Same limit (f (h c)) (g c)) :
    Same limit (x >>= f) (y >>= g) := by
  rcases hxy with ⟨hs, hr⟩ | ⟨hx, hy⟩
  · cases hyr : y.result with
    | error e =>
      rw [Traced.bind_of_error hyr] at hs hr
      rw [Traced.bind_of_error hr, Traced.bind_of_error hyr]
      exact .inl ⟨hs, rfl⟩
    | ok c =>
      rw [Traced.bind_of_ok hyr] at hs hr
      simp only [Traced.pure_stores, List.append_nil] at hs
      rw [Traced.bind_of_ok hr, Traced.bind_of_ok hyr, hs]
      by_cases hb : Below limit y.stores
      · rcases hfg c hyr hb with ⟨h1, h2⟩ | ⟨h1, h2⟩
        · exact .inl ⟨by simp only [h1], h2⟩
        · exact .inr ⟨fun h => h1 (below_append.mp h).2, fun h => h2 (below_append.mp h).2⟩
      · exact .inr ⟨fun h => hb (below_append.mp h).1, fun h => hb (below_append.mp h).1⟩
  · refine .inr ⟨not_below_bind hx f, not_below_bind (fun h => hy ?_) g⟩
    cases hyr : y.result with
    | error e => rwa [Traced.bind_of_error hyr]
    | ok c =>
      rw [Traced.bind_of_ok hyr]
      simpa using h

/-- The common case: the same first part on both sides. -/
theorem Same.bind_same (x : Traced α) {f g : α → Traced β}
    (hfg : ∀ a, x.result = .ok a → Below limit x.stores → Same limit (f a) (g a)) :
    Same limit (x >>= f) (x >>= g) := by
  refine Same.bind (h := id) ?_ hfg
  cases hx : x.result with
  | ok a => exact .inl ⟨by rw [Traced.bind_of_ok hx]; simp, by rw [Traced.bind_of_ok hx, hx]; rfl⟩
  | error e => exact .inl ⟨by rw [Traced.bind_of_error hx], by rw [Traced.bind_of_error hx, hx]⟩

end Same

/-! ## Placing pieces

Two positions go along: where the next byte goes, and where the header of the current TLV is to be
put. As long as nothing has been stored past the end they are where the encoder has them, and 32
bits are enough for every length (`InRoom`). -/

theorem place_append (limit : ℕ) (ps qs : List Piece) (c : ℕ × ℕ) :
    place limit (ps ++ qs) c = place limit ps c >>= place limit qs := by
  induction ps generalizing c with
  | nil => exact (pure_bind c (place limit qs)).symm
  | cons p ps ih =>
    cases p <;> simp only [List.cons_append, place, ih, bind_assoc]
    case stop fault => rfl
    all_goals
      split
      · rfl
      · simp only [bind_assoc]

/-- What holds of the two positions while nothing is stored past the end. The current TLV starts
inside the buffer, and its header may be the only part of it that is not. -/
structure InRoom (limit : ℕ) (c : ℕ × ℕ) : Prop where
  start_le : c.2 ≤ limit
  header_le : c.2 + TLV_SIZE ≤ c.1
  cursor_le : c.1 ≤ max (c.2 + TLV_SIZE) limit

theorem InRoom.le {limit : ℕ} {c : ℕ × ℕ} (h : InRoom limit c) : c.1 ≤ limit + TLV_SIZE := by
  have := h.start_le
  have := h.cursor_le
  omega

/-- A store of the next bytes that stays below the limit keeps the cursor in room. -/
theorem InRoom.store {limit : ℕ} {c : ℕ × ℕ} {bytes : List UInt8} (h : InRoom limit c)
    (hb : Below limit [⟨c.1, bytes⟩]) : InRoom limit (c.1 + bytes.length, c.2) := by
  rw [below_singleton] at hb
  obtain ⟨h1, h2, h3⟩ := h
  by_cases hn : bytes = []
  · subst hn
    exact ⟨h1, h2, h3⟩
  · have := hb hn
    exact ⟨h1, by simp only; omega, by simp only at this ⊢; omega⟩

/-- The header of a TLV that stays below the limit leaves room for the next one. -/
theorem InRoom.close {limit : ℕ} {c : ℕ × ℕ} {bytes : List UInt8} (h : InRoom limit c)
    (hlen : bytes.length = TLV_SIZE) (hb : Below limit [⟨c.2, bytes⟩]) :
    InRoom limit (c.1 + TLV_SIZE, c.1) := by
  rw [below_singleton] at hb
  have hn : bytes ≠ [] := by
    rintro rfl
    simp [TLV_SIZE] at hlen
  have := hb hn
  obtain ⟨h1, h2, h3⟩ := h
  simp only [hlen] at this
  exact ⟨by simp only; omega, le_refl _, by simp only; omega⟩

/-- Whether a piece ends a TLV. -/
def Piece.isClose : Piece → Bool
  | .close _ => true
  | _ => false

theorem place_one {limit : ℕ} {p : Piece} {c d : ℕ × ℕ} (hc : InRoom limit c)
    (hd : (place limit [p] c).result = .ok d) (hb : Below limit (place limit [p] c).stores) :
    InRoom limit d ∧ c.1 ≤ d.1 ∧ (p.isClose = false → d.2 = c.2) := by
  cases p with
  | plain encoded_bytes bytes =>
    simp only [place] at hd hb
    split at hd
    · simp at hd
    · rw [if_neg (by assumption)] at hb
      cases hd
      exact ⟨hc.store hb, Nat.le_add_right _ _, fun _ => rfl⟩
  | topString len bytes =>
    simp only [place] at hd hb
    split at hd
    · simp at hd
    · rw [if_neg (by assumption)] at hb
      cases hd
      exact ⟨hc.store hb, Nat.le_add_right _ _, fun _ => rfl⟩
  | string len_bytes len bytes =>
    simp only [place] at hd hb
    split at hd
    · simp at hd
    · rw [if_neg (by assumption)] at hb
      cases hd
      have hb' : Below limit ([⟨c.1, len_bytes⟩] ++ [⟨c.1 + len_bytes.length, bytes⟩]) := hb
      rw [below_append] at hb'
      have h1 := hc.store hb'.1
      exact ⟨h1.store hb'.2, by simp only; omega, fun _ => rfl⟩
  | close tlv_type =>
    cases hd
    exact ⟨hc.close (by simp [TLV_SIZE]) hb, Nat.le_add_right _ _,
      fun h => by simp [Piece.isClose] at h⟩
  | stop fault => simp [place] at hd

/-- While nothing is stored past the end, the cursor advances and stays in room, and pieces that
do not end a TLV leave its start alone. -/
theorem place_room {limit : ℕ} {ps : List Piece} {c d : ℕ × ℕ} (hc : InRoom limit c)
    (hd : (place limit ps c).result = .ok d) (hb : Below limit (place limit ps c).stores) :
    InRoom limit d ∧ c.1 ≤ d.1 ∧ ((∀ p ∈ ps, p.isClose = false) → d.2 = c.2) := by
  induction ps generalizing c with
  | nil =>
    cases hd
    exact ⟨hc, le_refl _, fun _ => rfl⟩
  | cons p ps ih =>
    rw [← List.singleton_append, place_append] at hd hb
    obtain ⟨x, hx, hrest⟩ := Traced.bind_result_ok.mp hd
    rw [Traced.bind_of_ok hx, below_append] at hb
    obtain ⟨h1, hle, h2⟩ := place_one hc hx hb.1
    obtain ⟨h3, hle', h4⟩ := ih h1 hrest hb.2
    refine ⟨h3, le_trans hle hle', fun h => ?_⟩
    rw [h4 fun q hq => h q (List.mem_cons_of_mem _ hq), h2 (h p List.mem_cons_self)]

/-- The cursor moves on by the sizes of the pieces. -/
theorem place_size {limit : ℕ} {ps : List Piece} {c d : ℕ × ℕ}
    (hd : (place limit ps c).result = .ok d) : d.1 = c.1 + sizes ps := by
  induction ps generalizing c with
  | nil =>
    cases hd
    rfl
  | cons p ps ih =>
    rw [← List.singleton_append, place_append] at hd
    obtain ⟨x, hx, hrest⟩ := Traced.bind_result_ok.mp hd
    -- an accepted piece moves the cursor by its size
    have hone : x.1 = c.1 + p.size := by
      cases p with
      | plain encoded_bytes bytes =>
        simp only [place] at hx
        split at hx
        · simp at hx
        · cases hx
          rfl
      | topString len bytes =>
        simp only [place] at hx
        split at hx
        · simp at hx
        · cases hx
          rfl
      | string len_bytes len bytes =>
        simp only [place] at hx
        split at hx
        · simp at hx
        · cases hx
          exact Nat.add_assoc _ _ _
      | close tlv_type =>
        cases hx
        rfl
      | stop fault => simp [place] at hx
    rw [ih hrest, hone, sizes_cons, Nat.add_assoc]

/-! ## Layouts, element by element

Equations of `layout.loop` for each kind of element, and the induction over a layout they give.
The proofs further down take a table apart with these and do not unfold the loop. -/

/-- The kinds of element the two coders tell apart. -/
theorem ElemType.kinds (t : ElemType) :
    t = .optFlag ∨ t = .dataLen ∨ t.isBasic = true ∨ t = .struct ∨ t = .string ∨ t = .eoti := by
  cases t <;> simp [ElemType.isBasic]

theorem data_len_cases (e : ElemInfo) (v : ℕ) :
    (∃ n, qmi_encode.data_len e v = pure n) ∨
      qmi_encode.data_len e v = Traced.fail (.errno EINVAL) := by
  unfold qmi_encode.data_len
  split
  · exact .inl ⟨_, rfl⟩
  · exact .inl ⟨_, rfl⟩
  · split
    · exact .inr rfl
    · exact .inl ⟨_, rfl⟩

section LayoutStep

variable {src : Mem} {base level n v len : ℕ} {e : ElemInfo × Lay} {rest : List (ElemInfo × Lay)}

theorem layout_loop_error (hn : qmi_encode.data_len e.1 v = Traced.fail (.errno EINVAL)) :
    layout.loop src base level (e :: rest) 0 v len = [.stop (.errno EINVAL)] := by
  rw [layout.loop, hn]
  rfl

theorem layout_loop_optFlag (hn : qmi_encode.data_len e.1 v = pure n)
    (he : e.1.data_type = .optFlag) :
    layout.loop src base level (e :: rest) 0 v len =
      if src (base + e.1.offset) ≠ 0 then layout.loop src base level rest 0 n len
      else
        match skip_to_next_elem level (e.1 :: rest.map Prod.fst) with
        | some k => layout.loop src base level rest (k - 1) n len
        | none => [.stop .wild] := by
  rw [layout.loop, hn, he]
  rfl

theorem layout_loop_dataLen (hn : qmi_encode.data_len e.1 v = pure n)
    (he : e.1.data_type = .dataLen) :
    layout.loop src base level (e :: rest) 0 v len =
      let count := patchLow n (bytesAt src (base + e.1.offset) e.1.elem_size)
      let sz := data_len_sz e.1.elem_size
      .plain len (leBytes sz count) ::
        if count = 0 then
          match skip_to_next_elem level (rest.map Prod.fst) with
          | some k => layout.close level e.1.tlv_type ++ layout.loop src base level rest k count
              (len + sz + sizes (layout.close level e.1.tlv_type))
          | none => [.stop .wild]
        else layout.loop src base level rest 0 count (len + sz) := by
  rw [layout.loop, hn, he]
  rfl

theorem layout_loop_basic (hn : qmi_encode.data_len e.1 v = pure n)
    (he : e.1.data_type.isBasic = true) :
    layout.loop src base level (e :: rest) 0 v len =
      .plain len (bytesAt src (base + e.1.offset) (n * e.1.elem_size)) ::
        (layout.close level e.1.tlv_type ++ layout.loop src base level rest 0 n
          (len + n * e.1.elem_size + sizes (layout.close level e.1.tlv_type))) := by
  rw [layout.loop, hn]
  cases hd : e.1.data_type <;> simp_all [ElemType.isBasic]

theorem layout_loop_struct (hn : qmi_encode.data_len e.1 v = pure n)
    (he : e.1.data_type = .struct) :
    layout.loop src base level (e :: rest) 0 v len =
      let structs :=
        (List.range n).flatMap fun i => e.2 src (base + e.1.offset + i * e.1.elem_size) (level + 1)
      structs ++ (layout.close level e.1.tlv_type ++ layout.loop src base level rest 0 n
        (len + sizes structs + sizes (layout.close level e.1.tlv_type))) := by
  rw [layout.loop, hn, he]
  rfl

theorem layout_loop_string (hn : qmi_encode.data_len e.1 v = pure n)
    (he : e.1.data_type = .string) :
    layout.loop src base level (e :: rest) 0 v len =
      let string := layout.string e.1 src (base + e.1.offset) level
      string :: (layout.close level e.1.tlv_type ++ layout.loop src base level rest 0 n
        (len + string.size + sizes (layout.close level e.1.tlv_type))) := by
  rw [layout.loop, hn, he]
  rfl

theorem layout_loop_eoti (hn : qmi_encode.data_len e.1 v = pure n)
    (he : e.1.data_type = .eoti) :
    layout.loop src base level (e :: rest) 0 v len = [.stop (.errno EINVAL)] := by
  rw [layout.loop, hn, he]
  rfl

end LayoutStep

theorem layout_close_nested {level : ℕ} (h : level ≠ 1) (tlv_type : UInt8) :
    layout.close level tlv_type = [] := if_neg h

/-- What holds of every piece a table can produce holds of every piece of its layout; TLVs end
at level 1 only. -/
theorem layout_loop_forall {Q : Piece → Prop} (hplain : ∀ len bytes, Q (.plain len bytes))
    (hstop : ∀ fault, Q (.stop fault)) (hstring : ∀ e src b l, Q (layout.string e src b l))
    (tab : List ElemInfo) (src : Mem) (base level k v len : ℕ)
    (hclose : level ≤ 1 → ∀ t, Q (.close t)) :
    ∀ p ∈ layout.loop src base level (tab.map fun e => (e, layout e.ei_array)) k v len, Q p := by
  induction tab using table_induction generalizing base level k v len with
  | nil => simp [layout.loop]
  | cons e rest ihe ih =>
    intro p hp
    have hend : p ∈ layout.close level e.tlv_type → Q p := by
      intro hp
      unfold layout.close at hp
      split at hp
      · rw [List.mem_singleton.mp hp]
        exact hclose (by omega) _
      · simp at hp
    have hwild : ∀ fault, p ∈ [Piece.stop fault] → Q p := by
      intro fault hp
      rw [List.mem_singleton.mp hp]
      exact hstop _
    cases k with
    | succ k => exact ih base level k v len hclose p hp
    | zero =>
    rw [List.map_cons] at hp
    -- a count above `elem_len` stops the encoder before it looks at the type
    obtain ⟨n, hn⟩ | hn := data_len_cases e v
    swap
    · rw [layout_loop_error hn] at hp
      exact hwild _ hp
    rcases ElemType.kinds e.data_type with he | he | he | he | he | he
    · rw [layout_loop_optFlag hn he] at hp
      split at hp
      · exact ih _ _ _ _ _ hclose p hp
      split at hp
      · exact ih _ _ _ _ _ hclose p hp
      · exact hwild _ hp
    · rw [layout_loop_dataLen hn he] at hp
      rcases List.mem_cons.mp hp with rfl | hp
      · exact hplain _ _
      split at hp
      · split at hp
        · rcases List.mem_append.mp hp with hp | hp
          · exact hend hp
          · exact ih _ _ _ _ _ hclose p hp
        · exact hwild _ hp
      · exact ih _ _ _ _ _ hclose p hp
    · rw [layout_loop_basic hn he] at hp
      rcases List.mem_cons.mp hp with rfl | hp
      · exact hplain _ _
      rcases List.mem_append.mp hp with hp | hp
      · exact hend hp
      · exact ih _ _ _ _ _ hclose p hp
    · rw [layout_loop_struct hn he] at hp
      rcases List.mem_append.mp hp with hp | hp
      · obtain ⟨i, -, hi⟩ := List.mem_flatMap.mp hp
        rw [layout_eq] at hi
        -- a nested level is above 1, so `hclose` is not asked for
        exact ihe _ (level + 1) 0 0 0 (fun h => hclose (by omega)) p hi
      rcases List.mem_append.mp hp with hp | hp
      · exact hend hp
      · exact ih _ _ _ _ _ hclose p hp
    · rw [layout_loop_string hn he] at hp
      rcases List.mem_cons.mp hp with rfl | hp
      · exact hstring _ _ _ _
      rcases List.mem_append.mp hp with hp | hp
      · exact hend hp
      · exact ih _ _ _ _ _ hclose p hp
    · rw [layout_loop_eoti hn he] at hp
      exact hwild _ hp

/-- Below the message itself no piece ends a TLV. -/
theorem layout_loop_isClose (tab : List ElemInfo) (src : Mem) (base level k v len : ℕ)
    (hl : 2 ≤ level) :
    ∀ p ∈ layout.loop src base level (tab.map fun e => (e, layout e.ei_array)) k v len,
      p.isClose = false := by
  refine layout_loop_forall (fun _ _ => rfl) (fun _ => rfl) (fun e src b l => ?_) tab src base
    level k v len fun h => by omega
  unfold layout.string
  simp only
  split
  · rfl
  · split <;> rfl

/-! ## The encoder places the layout

The simulation. `EncRel` relates the variables of `qmi_encode` to the two positions of `place`;
each helper of the encoder keeps it, and so does each iteration, from any element of a table on. -/

/-- The state of the encoder at a level with `out_buf_len` bytes of room, against the positions
of `place`. -/
structure EncRel (level limit out_buf_len : ℕ) (st : EncState) (c : ℕ × ℕ) : Prop where
  cursor : st.buf_dst = c.1
  room : c.1 + out_buf_len = limit + TLV_SIZE + st.encoded_bytes
  start : level = 1 → st.tlv_pointer = c.2
  tlv : level = 1 → st.tlv_len + c.2 + TLV_SIZE = c.1

section Simulation

variable {limit out_buf_len level : ℕ} {st : EncState} {c : ℕ × ℕ}

theorem EncRel.update (h : EncRel level limit out_buf_len st c) (rc : ℕ) :
    EncRel level limit out_buf_len (st.update rc) (c.1 + rc, c.2) := by
  obtain ⟨h1, h2, h3, h4⟩ := h
  refine ⟨?_, ?_, h3, fun hl => ?_⟩
  · simp only [EncState.update, h1]
  · simp only [EncState.update]
    omega
  · have := h4 hl
    simp only [EncState.update]
    omega

theorem EncRel.encoded_eq (h : EncRel level limit out_buf_len st c) :
    st.encoded_bytes = c.1 + out_buf_len - (limit + TLV_SIZE) := by
  have := h.room
  omega

/-- The room left, as the encoder passes it on to a nested structure or a string. -/
theorem EncRel.wsub_eq (h : EncRel level limit out_buf_len st c) (hc : InRoom limit c)
    (hM : out_buf_len < 2 ^ 32) :
    c.1 + wsub out_buf_len st.encoded_bytes = limit + TLV_SIZE := by
  have hle := hc.le
  have hroom := h.room
  rw [wsub_of_le (by omega) hM]
  omega

/-- The end of an iteration closes the TLV, at level 1. -/
theorem tlv_same (h : EncRel level limit out_buf_len st c) (hc : InRoom limit c)
    (htlv : st.encode_tlv = true) (tlv_type : UInt8) {f : EncState → Traced ℕ}
    {g : ℕ × ℕ → Traced ℕ}
    (hfg : ∀ st' d, EncRel level limit out_buf_len st' d → InRoom limit d →
      st'.data_len_value = st.data_len_value →
      st'.encoded_bytes = st.encoded_bytes + sizes (layout.close level tlv_type) →
      (level = 1 → st'.encode_tlv = false) → Same limit (f st') (g d)) :
    Same limit (qmi_encode.tlv level tlv_type st >>= f)
      (place limit (layout.close level tlv_type) c >>= g) := by
  by_cases hl : level = 1
  · subst hl
    have hstart := h.start rfl
    have hlen : st.tlv_len = c.1 - c.2 - TLV_SIZE := by
      have := h.tlv rfl
      omega
    have hclose : layout.close 1 tlv_type = [.close tlv_type] := if_pos rfl
    rw [hclose] at hfg ⊢
    rw [qmi_encode.tlv, if_pos ⟨htlv, rfl⟩]
    simp only [place, hstart, hlen, bind_assoc, pure_bind]
    refine Same.bind_same _ fun _ _ hb => ?_
    refine hfg _ _ ⟨?_, ?_, fun _ => h.cursor, fun _ => ?_⟩ (hc.close (by simp [TLV_SIZE]) hb) rfl
      rfl fun _ => rfl
    · simp only [h.cursor]
    · have := h.room
      simp only
      omega
    · simp only
      omega
  · rw [layout_close_nested hl] at hfg ⊢
    rw [qmi_encode.tlv, if_neg (fun h => hl h.2)]
    simp only [place, pure_bind]
    exact hfg st c h hc rfl rfl fun hl' => absurd hl' hl

/-- An iteration that finished no element leaves the TLV open. -/
theorem tlv_open (h : level = 1 → st.encode_tlv = false) (tlv_type : UInt8) :
    qmi_encode.tlv level tlv_type st = pure st := by
  rw [qmi_encode.tlv, if_neg]
  rintro ⟨ht, hl⟩
  rw [h hl] at ht
  cases ht

/-- Storing the bytes of an element and going on after it. -/
theorem basic_same (h : EncRel level limit out_buf_len st c) (hc : InRoom limit c)
    (bytes : List UInt8) (tlv_type : UInt8) {f : EncState → Traced ℕ} {g : ℕ × ℕ → Traced ℕ}
    (hfg : ∀ st' d, EncRel level limit out_buf_len st' d → InRoom limit d →
      st'.data_len_value = st.data_len_value →
      st'.encoded_bytes =
        st.encoded_bytes + bytes.length + sizes (layout.close level tlv_type) →
      (level = 1 → st'.encode_tlv = false) → Same limit (f st') (g d)) :
    Same limit (qmi_encode_basic_elem st.buf_dst bytes >>= fun rc =>
        qmi_encode.tlv level tlv_type (st.update rc) >>= f)
      (Traced.store c.1 bytes >>= fun _ =>
        place limit (layout.close level tlv_type) (c.1 + bytes.length, c.2) >>= g) := by
  rw [qmi_encode_basic_elem, h.cursor]
  simp only [bind_assoc, pure_bind]
  refine Same.bind_same _ fun _ _ hb => ?_
  exact tlv_same (h.update bytes.length) (hc.store hb) rfl tlv_type hfg

/-- An array of structures, when one structure places its layout. -/
theorem struct_same {encode : Enc} {lay : Lay} {src : Mem} {elem_size : ℕ}
    (hnest : ∀ b d M, InRoom limit d → M < 2 ^ 32 → d.1 + M = limit + TLV_SIZE →
      Same limit (encode src b d.1 M level)
        (place limit (lay src b level) d >>= fun x => pure (x.1 - d.1)))
    (hlay : ∀ b, ∀ p ∈ lay src b level, p.isClose = false) (hM : out_buf_len < 2 ^ 32)
    {f : ℕ → Traced ℕ} {g : ℕ × ℕ → Traced ℕ} (n : ℕ) (buf_src encoded_bytes : ℕ) (c : ℕ × ℕ)
    (hc : InRoom limit c) (hroom : c.1 + out_buf_len = limit + TLV_SIZE + encoded_bytes)
    (hfg : ∀ d, InRoom limit d → d.1 = c.1 + sizes ((List.range n).flatMap fun i =>
        lay src (buf_src + i * elem_size) level) → d.2 = c.2 →
      Same limit (f (encoded_bytes + (d.1 - c.1))) (g d)) :
    Same limit
      (qmi_encode_struct_elem.loop encode src elem_size out_buf_len level n c.1 buf_src
        encoded_bytes >>= f)
      (place limit ((List.range n).flatMap fun i => lay src (buf_src + i * elem_size) level) c
        >>= g) := by
  induction n generalizing buf_src encoded_bytes c with
  | zero =>
    have := hfg c hc rfl rfl
    rw [Nat.sub_self, Nat.add_zero] at this
    simpa only [qmi_encode_struct_elem.loop, List.range_zero, List.flatMap_nil, place, pure_bind]
      using this
  | succ n ih =>
    have hle := hc.le
    -- the first structure is split off on both sides
    have hlayout : (List.range (n + 1)).flatMap (fun i => lay src (buf_src + i * elem_size) level)
        = lay src buf_src level ++ (List.range n).flatMap
          fun i => lay src (buf_src + elem_size + i * elem_size) level := by
      rw [List.range_succ_eq_map, List.flatMap_cons, List.flatMap_map, Nat.zero_mul, Nat.add_zero]
      congr 1
      congr 1
      funext i
      rw [Nat.succ_mul]
      congr 1
      omega
    rw [qmi_encode_struct_elem.loop, hlayout, place_append]
    simp only [bind_assoc]
    refine Same.bind (hnest buf_src c (wsub out_buf_len encoded_bytes) hc ?_ ?_)
      fun d hd hb => ?_
    · unfold wsub
      omega
    · rw [wsub_of_le (by omega) hM]
      omega
    -- the rest is in step with the room that the first one has left
    · obtain ⟨hroom', hmono, hstart⟩ := place_room hc hd hb
      have hsize := place_size hd
      rw [hlayout, sizes_append] at hfg
      rw [show c.1 + (d.1 - c.1) = d.1 by omega]
      refine ih _ _ d hroom' (by omega) fun x hx hdx hx2 => ?_
      have := hfg x hx (by omega) (by rw [hx2, hstart (hlay buf_src)])
      rwa [show encoded_bytes + (d.1 - c.1) + (x.1 - d.1) = encoded_bytes + (x.1 - c.1) by omega]

theorem string_same (e : ElemInfo) (src : Mem) (buf_src : ℕ) {M : ℕ} (hc : InRoom limit c)
    (hroom : c.1 + M = limit + TLV_SIZE) {f : ℕ → Traced ℕ} {g : ℕ × ℕ → Traced ℕ}
    (hfg : ∀ d, InRoom limit d → d.1 = c.1 + (layout.string e src buf_src level).size →
      d.2 = c.2 → Same limit (f (d.1 - c.1)) (g d)) :
    Same limit (qmi_encode_string_elem e src c.1 buf_src M level >>= f)
      (place limit [layout.string e src buf_src level] c >>= g) := by
  unfold qmi_encode_string_elem
  unfold layout.string at hfg ⊢
  by_cases hlong : strlen src buf_src > e.elem_len
  · simp only [if_pos hlong]
    exact .refl _ _
  by_cases hl : level = 1
  · -- a string of the message itself
    simp only [if_neg hlong, if_pos hl] at hfg ⊢
    simp only [place]
    split
    · rw [if_pos (by omega)]
      exact .refl _ _
    rw [if_neg (by omega), qmi_encode_basic_elem]
    simp only [bind_assoc, pure_bind]
    refine Same.bind_same _ fun _ _ hb => ?_
    have := hfg _ (hc.store hb) rfl rfl
    rwa [Nat.add_sub_cancel_left] at this
  · -- a string of a nested structure: its length first
    simp only [if_neg hlong, if_neg hl] at hfg ⊢
    simp only [place, leBytes_length]
    split
    · rw [if_pos (by omega)]
      exact .refl _ _
    rw [if_neg (by omega)]
    simp only [qmi_encode_basic_elem, bind_assoc, pure_bind, leBytes_length]
    refine Same.bind_same _ fun _ _ hb => Same.bind_same _ fun _ _ hb' => ?_
    have h1 := hc.store hb
    rw [leBytes_length] at h1
    have := hfg _ (h1.store hb') (by simp only [Piece.size, leBytes_length]; omega) rfl
    simpa only [Nat.add_assoc, Nat.add_sub_cancel_left] using this

/-- The returned length, from the final cursor. -/
abbrev placeLen (limit out_buf_len : ℕ) (x : ℕ × ℕ) : Traced ℕ :=
  pure (x.1 + out_buf_len - (limit + TLV_SIZE))

theorem elem_basic {e : ElemInfo × Enc} (he : e.1.data_type.isBasic = true) (src : Mem)
    (base M : ℕ) (rest : List ElemInfo) (st : EncState) :
    qmi_encode.elem src base M level e rest st =
      if wadd (st.data_len_value * e.1.elem_size) st.encoded_bytes + TLV_SIZE > M then
        Traced.fail (.errno EINVAL)
      else
        qmi_encode_basic_elem st.buf_dst
          (bytesAt src (base + e.1.offset) (st.data_len_value * e.1.elem_size)) >>= fun rc =>
            pure (st.update rc, 1) := by
  unfold qmi_encode.elem
  cases hd : e.1.data_type <;> simp_all [ElemType.isBasic]

/-- The encoder `F` of the rest of a table places its layout `G`. -/
def TailSame (level limit out_buf_len : ℕ) (F : ℕ → EncState → Traced ℕ)
    (G : ℕ → ℕ → ℕ → List Piece) : Prop :=
  ∀ k st c, EncRel level limit out_buf_len st c → InRoom limit c →
    (level = 1 → st.encode_tlv = false) →
    Same limit (F k st)
      (place limit (G k st.data_len_value st.encoded_bytes) c >>= placeLen limit out_buf_len)

/-! One lemma for each kind of element: encoding it, ending its TLV and going on with the rest of
the table places its pieces and the layout of the rest. -/

section Kinds

variable {e : ElemInfo × Enc} {src : Mem} {base : ℕ} {rest : List ElemInfo}
  {F : ℕ → EncState → Traced ℕ} {G : ℕ → ℕ → ℕ → List Piece}

theorem optFlag_same (hrest : TailSame level limit out_buf_len F G)
    (h : EncRel level limit out_buf_len st c) (hc : InRoom limit c)
    (htlv : level = 1 → st.encode_tlv = false) (he : e.1.data_type = .optFlag) :
    Same limit
      (qmi_encode.elem src base out_buf_len level e rest st >>= fun p =>
        qmi_encode.tlv level e.1.tlv_type p.1 >>= F (p.2 - 1))
      (place limit
        (if src (base + e.1.offset) ≠ 0 then G 0 st.data_len_value st.encoded_bytes
        else
          match skip_to_next_elem level (e.1 :: rest) with
          | some k => G (k - 1) st.data_len_value st.encoded_bytes
          | none => [.stop .wild]) c >>= placeLen limit out_buf_len) := by
  simp only [qmi_encode.elem, he]
  split
  · simp only [pure_bind, tlv_open htlv]
    exact hrest 0 st c h hc htlv
  · simp only [qmi_encode.skip]
    cases skip_to_next_elem level (e.1 :: rest) with
    | some k =>
      simp only [pure_bind, tlv_open htlv]
      exact hrest _ st c h hc htlv
    | none => exact .refl _ _

theorem dataLen_same (hrest : TailSame level limit out_buf_len F G)
    (h : EncRel level limit out_buf_len st c) (hc : InRoom limit c)
    (he : e.1.data_type = .dataLen) :
    Same limit
      (qmi_encode.elem src base out_buf_len level e rest st >>= fun p =>
        qmi_encode.tlv level e.1.tlv_type p.1 >>= F (p.2 - 1))
      (place limit
        (let count := patchLow st.data_len_value (bytesAt src (base + e.1.offset) e.1.elem_size)
        let sz := data_len_sz e.1.elem_size
        .plain st.encoded_bytes (leBytes sz count) ::
          if count = 0 then
            match skip_to_next_elem level rest with
            | some k => layout.close level e.1.tlv_type ++
                G k count (st.encoded_bytes + sz + sizes (layout.close level e.1.tlv_type))
            | none => [.stop .wild]
          else G 0 count (st.encoded_bytes + sz)) c >>= placeLen limit out_buf_len) := by
  have hroom := h.room
  simp only [qmi_encode.elem, he, place, leBytes_length]
  generalize patchLow st.data_len_value (bytesAt src (base + e.1.offset) e.1.elem_size) = count
  by_cases hfit : wadd (data_len_sz e.1.elem_size) st.encoded_bytes + TLV_SIZE > out_buf_len
  · rw [if_pos hfit, if_pos (by omega)]
    exact .refl _ _
  rw [if_neg hfit, if_neg (by omega)]
  obtain ⟨st1, hst1⟩ : ∃ s : EncState, s = { st with data_len_value := count } := ⟨_, rfl⟩
  obtain rfl : count = st1.data_len_value := by rw [hst1]
  have hbytes : st.encoded_bytes = st1.encoded_bytes := by rw [hst1]
  rw [← hst1, hbytes]
  have h1 : EncRel level limit out_buf_len st1 c := by
    rw [hst1]
    exact ⟨h.cursor, h.room, h.start, h.tlv⟩
  rw [h.cursor]
  simp only [qmi_encode_basic_elem, bind_assoc, pure_bind, leBytes_length]
  refine Same.bind_same _ fun _ _ hb => ?_
  have h2 := h1.update (data_len_sz e.1.elem_size)
  have hc2 := hc.store hb
  rw [leBytes_length] at hc2
  split
  · -- a count of zero ends the element
    simp only [qmi_encode.skip]
    cases skip_to_next_elem level rest with
    | some k =>
      simp only [bind_assoc, pure_bind, place_append]
      refine tlv_same h2 hc2 rfl e.1.tlv_type fun st' d h' hd hv hlen ht => ?_
      have := hrest k st' d h' hd ht
      rw [hv, hlen] at this
      exact this
    | none => exact .refl _ _
  · have h3 : EncRel level limit out_buf_len
        { st1.update (data_len_sz e.1.elem_size) with encode_tlv := false }
        (c.1 + data_len_sz e.1.elem_size, c.2) := ⟨h2.cursor, h2.room, h2.start, h2.tlv⟩
    have hopen : qmi_encode.tlv level e.1.tlv_type
        { st1.update (data_len_sz e.1.elem_size) with encode_tlv := false } =
        pure { st1.update (data_len_sz e.1.elem_size) with encode_tlv := false } :=
      tlv_open (fun _ => rfl) e.1.tlv_type
    simp only [pure_bind, hopen]
    exact hrest _ _ _ h3 hc2 fun _ => rfl

/-- What follows an element that the rest of the table comes right after. -/
theorem TailSame.next (hrest : TailSame level limit out_buf_len F G) (v len : ℕ) (st' : EncState)
    (d : ℕ × ℕ) (h : EncRel level limit out_buf_len st' d) (hd : InRoom limit d)
    (hv : st'.data_len_value = v) (hlen : st'.encoded_bytes = len)
    (ht : level = 1 → st'.encode_tlv = false) :
    Same limit (F 0 st') (place limit (G 0 v len) d >>= placeLen limit out_buf_len) := by
  rw [← hv, ← hlen]
  exact hrest 0 st' d h hd ht

theorem basic_elem_same (hrest : TailSame level limit out_buf_len F G)
    (h : EncRel level limit out_buf_len st c) (hc : InRoom limit c)
    (he : e.1.data_type.isBasic = true) :
    Same limit
      (qmi_encode.elem src base out_buf_len level e rest st >>= fun p =>
        qmi_encode.tlv level e.1.tlv_type p.1 >>= F (p.2 - 1))
      (place limit
        (.plain st.encoded_bytes
            (bytesAt src (base + e.1.offset) (st.data_len_value * e.1.elem_size)) ::
          (layout.close level e.1.tlv_type ++ G 0 st.data_len_value
            (st.encoded_bytes + st.data_len_value * e.1.elem_size +
              sizes (layout.close level e.1.tlv_type)))) c >>=
        placeLen limit out_buf_len) := by
  have hroom := h.room
  rw [elem_basic he]
  simp only [place, bytesAt_length]
  by_cases hfit :
      wadd (st.data_len_value * e.1.elem_size) st.encoded_bytes + TLV_SIZE > out_buf_len
  · rw [if_pos hfit, if_pos (by omega)]
    exact .refl _ _
  · rw [if_neg hfit, if_neg (by omega), place_append]
    have := basic_same h hc
      (bytesAt src (base + e.1.offset) (st.data_len_value * e.1.elem_size)) e.1.tlv_type
      (hrest.next st.data_len_value _)
    simpa only [bind_assoc, pure_bind, bytesAt_length] using this

/-- Going on after an element that moved the cursor to `d`. -/
theorem TailSame.after (hrest : TailSame level limit out_buf_len F G)
    (h : EncRel level limit out_buf_len st c) (tlv_type : UInt8) {d : ℕ × ℕ}
    (hd : InRoom limit d) {size : ℕ} (hsize : d.1 = c.1 + size) (hstart : d.2 = c.2) :
    Same limit (qmi_encode.tlv level tlv_type (st.update (d.1 - c.1)) >>= F 0)
      (place limit (layout.close level tlv_type) d >>= fun x =>
        place limit (G 0 st.data_len_value
          (st.encoded_bytes + size + sizes (layout.close level tlv_type))) x >>=
        placeLen limit out_buf_len) := by
  have hnext := h.update (d.1 - c.1)
  rw [show c.1 + (d.1 - c.1) = d.1 by omega, ← hstart] at hnext
  have hgone : d.1 - c.1 = size := by omega
  rw [hgone] at hnext ⊢
  exact tlv_same hnext hd rfl tlv_type (hrest.next st.data_len_value _)

theorem struct_elem_same {lay : Lay} (hrest : TailSame level limit out_buf_len F G)
    (hnest : ∀ b d M, InRoom limit d → M < 2 ^ 32 → d.1 + M = limit + TLV_SIZE →
      Same limit (e.2 src b d.1 M (level + 1))
        (place limit (lay src b (level + 1)) d >>= fun x => pure (x.1 - d.1)))
    (hlay : ∀ b, ∀ p ∈ lay src b (level + 1), p.isClose = false) (hM : out_buf_len < 2 ^ 32)
    (h : EncRel level limit out_buf_len st c) (hc : InRoom limit c)
    (he : e.1.data_type = .struct) :
    Same limit
      (qmi_encode.elem src base out_buf_len level e rest st >>= fun p =>
        qmi_encode.tlv level e.1.tlv_type p.1 >>= F (p.2 - 1))
      (place limit
        (let structs := (List.range st.data_len_value).flatMap
            fun i => lay src (base + e.1.offset + i * e.1.elem_size) (level + 1)
        structs ++ (layout.close level e.1.tlv_type ++ G 0 st.data_len_value
          (st.encoded_bytes + sizes structs + sizes (layout.close level e.1.tlv_type)))) c >>=
        placeLen limit out_buf_len) := by
  have hw := h.wsub_eq hc hM
  simp only [qmi_encode.elem, he, qmi_encode_struct_elem, bind_assoc, pure_bind, place_append]
  rw [h.cursor]
  refine struct_same hnest hlay ?_ _ _ _ c hc (by omega) fun d hd hsize hstart => ?_
  · unfold wsub
    omega
  · rw [Nat.zero_add]
    exact hrest.after h e.1.tlv_type hd hsize hstart

theorem string_elem_same (hrest : TailSame level limit out_buf_len F G)
    (hM : out_buf_len < 2 ^ 32) (h : EncRel level limit out_buf_len st c) (hc : InRoom limit c)
    (he : e.1.data_type = .string) :
    Same limit
      (qmi_encode.elem src base out_buf_len level e rest st >>= fun p =>
        qmi_encode.tlv level e.1.tlv_type p.1 >>= F (p.2 - 1))
      (place limit
        (let string := layout.string e.1 src (base + e.1.offset) level
        string :: (layout.close level e.1.tlv_type ++ G 0 st.data_len_value
          (st.encoded_bytes + string.size + sizes (layout.close level e.1.tlv_type)))) c >>=
        placeLen limit out_buf_len) := by
  dsimp only
  rw [← List.singleton_append, place_append]
  simp only [qmi_encode.elem, he, bind_assoc, pure_bind, place_append]
  rw [h.cursor]
  exact string_same e.1 src _ hc (h.wsub_eq hc hM) fun d hd hsize hstart =>
    hrest.after h e.1.tlv_type hd hsize hstart

end Kinds

end Simulation

/-- The encoder of a table places its layout, from any element of the table on. -/
theorem encode_loop_same (tab : List ElemInfo) (src : Mem) (base level limit M k : ℕ)
    (st : EncState) (c : ℕ × ℕ) (hl : 1 ≤ level) (hM : M < 2 ^ 32)
    (h : EncRel level limit M st c) (hc : InRoom limit c)
    (htlv : level = 1 → st.encode_tlv = false) :
    Same limit
      (qmi_encode.loop src base M level (tab.map fun e => (e, qmi_encode e.ei_array)) k st)
      (place limit (layout.loop src base level (tab.map fun e => (e, layout e.ei_array)) k
        st.data_len_value st.encoded_bytes) c >>= placeLen limit M) := by
  -- the induction is on nested tables as well as along the table, since the encoder calls itself
  induction tab using table_induction generalizing base level M k st c with
  | nil =>
    simp only [List.map_nil, qmi_encode.loop, layout.loop, place, pure_bind, placeLen,
      h.encoded_eq]
    exact .refl _ _
  | cons e rest ihe ih =>
    cases k with
    | succ k => exact ih base level M k st c hl hM h hc htlv
    | zero =>
    simp only [List.map_cons]
    obtain ⟨n, hn⟩ | hn := data_len_cases e st.data_len_value
    -- a count that is refused stops both
    swap
    · rw [layout_loop_error hn, qmi_encode.loop, hn]
      exact .refl _ _
    rw [qmi_encode.loop, hn, pure_bind]
    -- what follows the element, whichever it is and wherever it ends
    have hrest : TailSame level limit M
        (qmi_encode.loop src base M level (rest.map fun e => (e, qmi_encode e.ei_array)))
        (layout.loop src base level (rest.map fun e => (e, layout e.ei_array))) :=
      fun k st c h hc htlv => ih base level M k st c hl hM h hc htlv
    have h0 : EncRel level limit M { st with data_len_value := n } c :=
      ⟨h.cursor, h.room, h.start, h.tlv⟩
    have hfst : ∀ D : Type, ∀ f : ElemInfo → D,
        (rest.map fun e => (e, f e)).map Prod.fst = rest := by
      intro D f
      rw [List.map_map]
      exact List.map_id rest
    rcases ElemType.kinds e.data_type with he | he | he | he | he | he
    · rw [layout_loop_optFlag hn he, hfst, hfst]
      exact optFlag_same hrest h0 hc htlv he
    · rw [layout_loop_dataLen hn he, hfst, hfst]
      exact dataLen_same hrest h0 hc he
    · rw [layout_loop_basic hn he]
      exact basic_elem_same hrest h0 hc he
    · rw [layout_loop_struct hn he]
      refine struct_elem_same hrest (fun b d M' hd hM' hdM => ?_) (fun b => ?_) hM h0 hc he
      · have hrel : EncRel (level + 1) limit M' (.init d.1 (level + 1)) d := by
          refine ⟨?_, hdM, fun h => absurd h (by omega), fun h => absurd h (by omega)⟩
          simp only [EncState.init]
          rw [if_neg (by omega)]
        have := ihe b (level + 1) M' 0 (.init d.1 (level + 1)) d (by omega) hM' hrel hd
          fun h => absurd h (by omega)
        rw [qmi_encode_eq, layout_eq]
        have hret : placeLen limit M' = fun x => pure (x.1 - d.1) := by
          funext x
          rw [placeLen, ← hdM]
          congr 1
          omega
        rwa [hret] at this
      · rw [layout_eq]
        exact layout_loop_isClose e.ei_array src b (level + 1) 0 0 0 (by omega)
    · rw [layout_loop_string hn he]
      exact string_elem_same hrest hM h0 hc he
    · rw [layout_loop_eoti hn he]
      simp only [qmi_encode.elem, he]
      exact .refl _ _

/-- `qmi_encode` at level 1 places the layout of the message. -/
theorem qmi_encode_same (tab : List ElemInfo) (src : Mem) (base out_buf out_buf_len : ℕ)
    (hM : out_buf_len < 2 ^ 32) :
    Same (out_buf + out_buf_len) (qmi_encode tab src base out_buf out_buf_len 1)
      (place (out_buf + out_buf_len) (layout tab src base 1) (out_buf + TLV_SIZE, out_buf) >>=
        fun c => pure (c.1 - (out_buf + TLV_SIZE))) := by
  have hrel : EncRel 1 (out_buf + out_buf_len) out_buf_len (.init out_buf 1)
      (out_buf + TLV_SIZE, out_buf) := by
    refine ⟨rfl, ?_, fun _ => rfl, fun _ => ?_⟩
    · simp only [EncState.init]
      omega
    · simp only [EncState.init]
      omega
  have hroom : InRoom (out_buf + out_buf_len) (out_buf + TLV_SIZE, out_buf) :=
    ⟨Nat.le_add_right _ _, le_refl _, le_max_left _ _⟩
  have := encode_loop_same tab src base 1 _ _ 0 _ _ (le_refl 1) hM hrel hroom fun _ => rfl
  rw [qmi_encode_eq, layout_eq]
  have hret : placeLen (out_buf + out_buf_len) out_buf_len =
      fun c => pure (c.1 - (out_buf + TLV_SIZE)) := by
    funext c
    rw [placeLen]
    congr 1
    omega
  rwa [hret] at this

end Dragonboard.Qmi
