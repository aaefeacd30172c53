/-
When the encoder stays inside its output buffer.

`qmi_encode` tests the room in four places. The tests for counts and for basic
elements are exact up to the range of their sums: `encoded_bytes` leaves out the header reserved
in front of `buf_dst`, and the tests add it back, at every level, but the size of an array is
added to `encoded_bytes` in 32 bits, and a sum that passes 2^32 looks small. The test for a
string in a nested structure does not add the header back, so such a string can end up to three
bytes past the end, and its sum may wrap too; a string whose `elem_size` is not 1 is tested by
its length and not by its bytes; and the header of a TLV is stored without a test, which matters
when nothing was put behind it.

`Contained` says that the message has none of these, walking its layout up to the piece
the encoder refuses. The main result is that this is exactly when the encoder keeps to
its buffer.
-/
import Dragonboard.QmiLayout

set_option autoImplicit false

namespace Dragonboard.Qmi

open Dragonboard.Memory

/-! ## Pieces that do not fit

The encoder tests the room for a piece against the position it has reached, and then writes the
piece. Two pieces escape that test: the string of a nested structure, whose length in front of it
is not part of what is tested, and an array whose size makes the sum of the test wrap. `Contained`
says that neither happens, in terms of the pieces of the message alone. -/

/-- A piece whose room test passes at the positions `c` and that ends past the limit all the
same. -/
def Piece.Overruns (limit : ℕ) (c : ℕ × ℕ) : Piece → Prop
  | .plain encoded_bytes bytes =>
    c.1 + wadd bytes.length encoded_bytes ≤ limit + encoded_bytes ∧
      bytes ≠ [] ∧ limit < c.1 + bytes.length
  | .topString len bytes => c.1 + len ≤ limit ∧ limit < c.1 + bytes.length
  | .string len_bytes len bytes =>
    c.1 + wadd len len_bytes.length ≤ limit + TLV_SIZE ∧
      limit < c.1 + len_bytes.length + bytes.length
  | .close _ => limit < c.2 + TLV_SIZE
  | .stop fault => fault = .wild

/-- The room test of a piece, as the encoder makes it. -/
def Piece.Accepted (limit : ℕ) (c : ℕ × ℕ) : Piece → Prop
  | .plain encoded_bytes bytes =>
    c.1 + wadd bytes.length encoded_bytes ≤ limit + encoded_bytes
  | .topString len _ => c.1 + len ≤ limit
  | .string len_bytes len _ => c.1 + wadd len len_bytes.length ≤ limit + TLV_SIZE
  | .close _ => True
  | .stop _ => False

/-- The positions after a piece. -/
def Piece.after (c : ℕ × ℕ) : Piece → ℕ × ℕ
  | .plain _ bytes | .topString _ bytes => (c.1 + bytes.length, c.2)
  | .string len_bytes _ bytes => (c.1 + len_bytes.length + bytes.length, c.2)
  | .close _ => (c.1 + TLV_SIZE, c.1)
  | .stop _ => c

instance (limit : ℕ) (c : ℕ × ℕ) (p : Piece) : Decidable (p.Overruns limit c) :=
  match p with
  | .plain encoded_bytes bytes =>
    inferInstanceAs (Decidable (c.1 + wadd bytes.length encoded_bytes ≤ limit + encoded_bytes ∧
      bytes ≠ [] ∧ limit < c.1 + bytes.length))
  | .topString len bytes =>
    inferInstanceAs (Decidable (c.1 + len ≤ limit ∧ limit < c.1 + bytes.length))
  | .string len_bytes len bytes =>
    inferInstanceAs (Decidable (c.1 + wadd len len_bytes.length ≤ limit + TLV_SIZE ∧
      limit < c.1 + len_bytes.length + bytes.length))
  | .close _ => inferInstanceAs (Decidable (limit < c.2 + TLV_SIZE))
  | .stop fault => inferInstanceAs (Decidable (fault = .wild))

instance (limit : ℕ) (c : ℕ × ℕ) (p : Piece) : Decidable (p.Accepted limit c) :=
  match p with
  | .plain encoded_bytes bytes =>
    inferInstanceAs (Decidable (c.1 + wadd bytes.length encoded_bytes ≤ limit + encoded_bytes))
  | .topString len _ => inferInstanceAs (Decidable (c.1 + len ≤ limit))
  | .string len_bytes len _ =>
    inferInstanceAs (Decidable (c.1 + wadd len len_bytes.length ≤ limit + TLV_SIZE))
  | .close _ => .isTrue trivial
  | .stop _ => .isFalse id

/-- No piece overruns the limit, up to the first one that is refused. -/
def Contained (limit : ℕ) : List Piece → ℕ × ℕ → Prop
  | [], _ => True
  | p :: ps, c => ¬ p.Overruns limit c ∧ (p.Accepted limit c → Contained limit ps (p.after c))

instance decidableContained (limit : ℕ) : ∀ ps c, Decidable (Contained limit ps c)
  | [], _ => .isTrue trivial
  | p :: ps, c =>
    have := decidableContained limit ps (p.after c)
    inferInstanceAs (Decidable (¬ p.Overruns limit c ∧
      (p.Accepted limit c → Contained limit ps (p.after c))))

/-! ## Placing contained pieces

`place` is the encoder on pieces, and so the containment is shown there: one lemma for a piece
that is refused, one for a piece that is accepted, and the induction over the pieces puts them
together. What was stored before a refusal has to stay below the limit too, since the encoder
leaves it in the buffer. -/

section Place

variable {limit : ℕ} {c : ℕ × ℕ}

/-- A piece is refused, and then nothing is stored for it, or accepted. -/
theorem place_refused {p : Piece} (hp : ¬ p.Accepted limit c) (ps : List Piece) :
    (place limit (p :: ps) c).stores = [] ∧
      ((place limit (p :: ps) c).result = .error .wild ↔ p = .stop .wild) := by
  cases p with
  | plain encoded_bytes bytes =>
    rw [place, if_pos (by simpa only [Piece.Accepted, Nat.not_le] using hp)]
    exact ⟨rfl, by simp⟩
  | topString len bytes =>
    rw [place, if_pos (by simpa only [Piece.Accepted, Nat.not_le] using hp)]
    exact ⟨rfl, by simp⟩
  | string len_bytes len bytes =>
    rw [place, if_pos (by simpa only [Piece.Accepted, Nat.not_le] using hp)]
    exact ⟨rfl, by simp⟩
  | close tlv_type => exact absurd trivial hp
  | stop fault => exact ⟨rfl, by simp [place]⟩

/-- An accepted piece is stored; it stays below the limit exactly if it does not overrun it. The
length of a nested string takes at least a byte, so its store is never empty. -/
theorem place_accepted {p : Piece} (hp : p.Accepted limit c)
    (hlen : ∀ lb n bs, p = .string lb n bs → lb ≠ []) :
    ∃ stores, place limit [p] c = ⟨stores, 0, .ok (p.after c)⟩ ∧
      (Below limit stores ↔ ¬ p.Overruns limit c) := by
  cases p with
  | plain encoded_bytes bytes =>
    refine ⟨[⟨c.1, bytes⟩], ?_, ?_⟩
    · rw [place, if_neg (by simpa only [Piece.Accepted, Nat.not_lt] using hp)]
      rfl
    · simp only [Piece.Accepted] at hp
      simp only [below_singleton, Piece.Overruns, not_and, Nat.not_lt]
      exact ⟨fun h _ hb => h hb, fun h hb => h hp hb⟩
  -- its test is for its own length, which may be none
  | topString len bytes =>
    refine ⟨[⟨c.1, bytes⟩], ?_, ?_⟩
    · rw [place, if_neg (by simpa only [Piece.Accepted, Nat.not_lt] using hp)]
      rfl
    · simp only [Piece.Accepted] at hp
      simp only [below_singleton, Piece.Overruns, not_and, Nat.not_lt]
      refine ⟨fun h _ => ?_, fun h _ => h hp⟩
      by_cases hb : bytes = []
      · subst hb
        simp only [List.length_nil]
        omega
      · exact h hb
  -- two stores, of which the second may leave the buffer
  | string len_bytes len bytes =>
    have hne := hlen _ _ _ rfl
    refine ⟨[⟨c.1, len_bytes⟩] ++ [⟨c.1 + len_bytes.length, bytes⟩], ?_, ?_⟩
    · rw [place, if_neg (by simpa only [Piece.Accepted, Nat.not_lt] using hp)]
      rfl
    · simp only [Piece.Accepted] at hp
      simp only [below_append, below_singleton, Piece.Overruns, not_and, Nat.not_lt]
      refine ⟨fun h _ => ?_, fun h => ⟨fun _ => ?_, fun _ => h hp⟩⟩
      · by_cases hb : bytes = []
        · subst hb
          exact h.1 hne
        · exact h.2 hb
      · have := h hp
        omega
  | close tlv_type =>
    refine ⟨[⟨c.2, tlv_type :: leBytes 2 (c.1 - c.2 - TLV_SIZE)⟩], rfl, ?_⟩
    simp [Piece.Overruns, TLV_SIZE]
  | stop fault => exact absurd hp id

/-- A refused piece overruns only by leaving the table. -/
theorem overruns_refused {p : Piece} (hp : ¬ p.Accepted limit c) :
    p.Overruns limit c ↔ p = .stop .wild := by
  cases p with
  | plain encoded_bytes bytes => exact ⟨fun h => absurd h.1 hp, by rintro ⟨⟩⟩
  | topString len bytes => exact ⟨fun h => absurd h.1 hp, by rintro ⟨⟩⟩
  | string len_bytes len bytes => exact ⟨fun h => absurd h.1 hp, by rintro ⟨⟩⟩
  | close tlv_type => exact absurd trivial hp
  | stop fault => simp [Piece.Overruns]

/-- Pieces stay below the limit exactly if they are contained. -/
theorem place_contained {ps : List Piece}
    (hps : ∀ p ∈ ps, ∀ lb n bs, p = .string lb n bs → lb ≠ []) :
    (Below limit (place limit ps c).stores ∧ (place limit ps c).result ≠ .error .wild) ↔
      Contained limit ps c := by
  induction ps generalizing c with
  | nil => simp [place, Contained]
  | cons p ps ih =>
    rw [Contained]
    by_cases hp : p.Accepted limit c
    · obtain ⟨stores, hplace, hbelow⟩ := place_accepted hp (hps p List.mem_cons_self)
      have hres : (place limit [p] c).result = .ok (p.after c) := by rw [hplace]
      rw [← List.singleton_append, place_append, Traced.bind_of_ok hres, hplace]
      simp only [below_append, hbelow, and_assoc]
      rw [ih fun q hq => hps q (List.mem_cons_of_mem _ hq)]
      exact and_congr_right fun _ => ⟨fun h _ => h, fun h => h hp⟩
    · obtain ⟨hstores, hres⟩ := place_refused hp ps
      rw [hstores, ne_eq, hres, overruns_refused hp]
      simp [hp]

end Place

/-- The strings of a layout carry at least one byte of length. -/
theorem layout_string_len (tab : List ElemInfo) (src : Mem) (base : ℕ) :
    ∀ p ∈ layout tab src base 1, ∀ lb n bs, p = .string lb n bs → lb ≠ [] := by
  rw [layout_eq]
  refine layout_loop_forall ?_ ?_ (fun e src b l => ?_) tab src base 1 0 0 0 ?_
  · rintro _ _ _ _ _ ⟨⟩
  · rintro _ _ _ _ ⟨⟩
  · intro lb n bs h
    unfold layout.string at h
    simp only at h
    split at h
    · cases h
    split at h
    · cases h
    · cases h
      intro hnil
      have := congrArg List.length hnil
      simp only [leBytes_length, List.length_nil, string_len_sz] at this
      split at this <;> omega
  · rintro _ _ _ _ _ ⟨⟩

/-! ## The encoder

The pieces of a message are those of its layout, so the condition carries over to `qmi_encode`.
The message at the end is the smallest one that leaves its buffer, with the room that just misses
it. -/

/-- **The encoder stays inside its buffer exactly when the message is contained in it**: nothing
is stored at or after `out_buf_len`, the table is not left, and the returned length is at
most `out_buf_len`. Below 2^31 every length up to there is an `int`, which is what the encoder
hands its lengths back in. -/
theorem qmi_encode_in_bounds_iff (ei_array : List ElemInfo) (src : Mem)
    (in_c_struct out_buf_len : ℕ) (hlen : out_buf_len < 2 ^ 31) :
    (Below out_buf_len (qmi_encode ei_array src in_c_struct 0 out_buf_len 1).stores ∧
      (qmi_encode ei_array src in_c_struct 0 out_buf_len 1).result ≠ .error .wild ∧
      ∀ n, (qmi_encode ei_array src in_c_struct 0 out_buf_len 1).result = .ok n →
        n ≤ out_buf_len) ↔
      Contained out_buf_len (layout ei_array src in_c_struct 1) (TLV_SIZE, 0) := by
  have hsame := qmi_encode_same ei_array src in_c_struct 0 out_buf_len (by omega)
  rw [Nat.zero_add, Nat.zero_add] at hsame
  have hroom : InRoom out_buf_len (TLV_SIZE, 0) :=
    ⟨Nat.zero_le _, le_refl _, le_max_left _ _⟩
  rw [← place_contained (layout_string_len ei_array src in_c_struct)]
  -- an accepted message ends inside the buffer if all of it was stored there
  have hret : ∀ c, (place out_buf_len (layout ei_array src in_c_struct 1) (TLV_SIZE, 0)).result
      = .ok c →
      Below out_buf_len
        (place out_buf_len (layout ei_array src in_c_struct 1) (TLV_SIZE, 0)).stores →
      c.1 - TLV_SIZE ≤ out_buf_len := by
    intro c hc hb
    have := (place_room hroom hc hb).1.le
    omega
  generalize place out_buf_len (layout ei_array src in_c_struct 1) (TLV_SIZE, 0) = y at *
  cases hy : y.result with
  | error fault =>
    rw [Traced.bind_of_error hy] at hsame
    rcases hsame with ⟨hs, hr⟩ | ⟨hx, hb⟩
    · rw [hs, hr]
      simp
    · exact ⟨fun h => absurd h.1 hx, fun h => absurd h.1 hb⟩
  | ok c =>
    rw [Traced.bind_of_ok hy] at hsame
    simp only [Traced.pure_stores, List.append_nil, Traced.pure_result] at hsame
    rcases hsame with ⟨hs, hr⟩ | ⟨hx, hb⟩
    · rw [hs, hr]
      refine ⟨fun h => ⟨h.1, by simp⟩, fun h => ⟨h.1, by simp, ?_⟩⟩
      intro n hn
      cases hn
      exact hret c hy h.1
    · exact ⟨fun h => absurd h.1 hx, fun h => absurd h.1 hb⟩

/-- A structure with one string of up to eight characters, in a TLV of type 1. -/
def stringInStruct : List ElemInfo :=
  [⟨.struct, 1, 8, .noArray, 1, 0, [⟨.string, 8, 1, .noArray, 0, 0, []⟩]⟩]

/-- The C struct of `stringInStruct` holding `"AAA"`. -/
def threeChars : Mem := fun a => if a < 3 then 65 else 0

/-- With room for four bytes, the string `"AAA"` of a nested structure is accepted and ends at
index 7. -/
theorem qmi_encode_overruns_nested_string :
    ¬ (Below 4 (qmi_encode stringInStruct threeChars 0 0 4 1).stores ∧
        (qmi_encode stringInStruct threeChars 0 0 4 1).result ≠ .error .wild ∧
        ∀ n, (qmi_encode stringInStruct threeChars 0 0 4 1).result = .ok n → n ≤ 4) ∧
      (qmi_encode stringInStruct threeChars 0 0 4 1).result = .ok 7 ∧
      ⟨4, [65, 65, 65]⟩ ∈ (qmi_encode stringInStruct threeChars 0 0 4 1).stores :=
  ⟨fun h => absurd h.1 (by decide +kernel), rfl, by decide +kernel⟩

/-- With room for seven bytes the same message is contained. -/
theorem qmi_encode_in_bounds_seven :
    Below 7 (qmi_encode stringInStruct threeChars 0 0 7 1).stores ∧
      (qmi_encode stringInStruct threeChars 0 0 7 1).result ≠ .error .wild ∧
      ∀ n, (qmi_encode stringInStruct threeChars 0 0 7 1).result = .ok n → n ≤ 7 :=
  (qmi_encode_in_bounds_iff stringInStruct threeChars 0 7 (by decide)).mpr (by decide +kernel)

end Dragonboard.Qmi
