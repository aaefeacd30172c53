/-
Linear probing in general: the first index along an orbit that satisfies a
test, and the orbit of the cyclic successor.

Nothing here knows what the slots of a table hold. A probe is a walk
`i, s i, s (s i), …` that stops at the first index where `stop` is true and
gives up after `n` steps; an open-addressing table uses it at the cyclic
successor `(i + 1) % n`, whose orbit visits each slot exactly once. The two
facts every table proof needs are `probe_eq_some_iff` (the answer is the
*first* stopping index, with everything before it passed over) and
`exists_offset` / `offset_inj` (each slot is at exactly one offset of the
walk).
-/
import Mathlib.Data.Nat.ModEq
import Mathlib.Logic.Function.Iterate

set_option autoImplicit false

namespace Dragonboard.Probe

/-! ## Probing along an orbit

Open addressing, whatever the hash and the table: go from index to index with a function `step`,
at most `n` times, and answer the first index that satisfies a predicate. -/

/-- The first of `i, step i, step (step i), …` (at most `n` of them) at which
`stop` holds. -/
def probe (stop : ℕ → Bool) (step : ℕ → ℕ) : ℕ → ℕ → Option ℕ
  | 0, _ => none
  | n + 1, i => if stop i then some i else probe stop step n (step i)

/-- A probe answers the first stopping index of its orbit. -/
theorem probe_eq_some_iff (stop : ℕ → Bool) (step : ℕ → ℕ) (n i j : ℕ) :
    probe stop step n i = some j ↔
      ∃ d < n, j = step^[d] i ∧ stop j = true ∧ ∀ d' < d, stop (step^[d'] i) = false := by
  induction n generalizing i with
  | zero => simp [probe]
  | succ n ih =>
    rw [probe]
    -- the probe stops at once, or the first stop of the rest is one step further on
    by_cases hs : stop i = true
    · rw [if_pos hs]
      constructor
      · intro h
        obtain rfl : i = j := by simpa using h
        exact ⟨0, Nat.succ_pos n, rfl, hs, fun d' hd' => absurd hd' (Nat.not_lt_zero d')⟩
      · rintro ⟨d, -, hj, -, hbefore⟩
        cases d with
        | zero => rw [hj]; rfl
        | succ d =>
          have h0 := hbefore 0 (Nat.succ_pos d)
          rw [Function.iterate_zero_apply, hs] at h0
          exact absurd h0 (by decide)
    · have hf : stop i = false := by simpa using hs
      rw [if_neg hs, ih]
      constructor
      · rintro ⟨d, hd, hj, hstop, hbefore⟩
        refine ⟨d + 1, by omega, hj, hstop, ?_⟩
        intro d' hd'
        cases d' with
        | zero => exact hf
        | succ d' => exact hbefore d' (by omega)
      · rintro ⟨d, hd, hj, hstop, hbefore⟩
        cases d with
        | zero =>
          rw [hj, Function.iterate_zero_apply, hf] at hstop
          exact absurd hstop (by decide)
        | succ d =>
          exact ⟨d, by omega, hj, hstop, fun d' hd' => hbefore (d' + 1) (by omega)⟩

/-- A probe gives up exactly when nothing on its orbit stops it. -/
theorem probe_eq_none_iff (stop : ℕ → Bool) (step : ℕ → ℕ) (n i : ℕ) :
    probe stop step n i = none ↔ ∀ d < n, stop (step^[d] i) = false := by
  induction n generalizing i with
  | zero => simp [probe]
  | succ n ih =>
    rw [probe]
    by_cases hs : stop i = true
    · rw [if_pos hs]
      refine ⟨fun h => absurd h (by simp), fun h => ?_⟩
      have h0 := h 0 (Nat.succ_pos n)
      rw [Function.iterate_zero_apply, hs] at h0
      exact absurd h0 (by decide)
    · rw [if_neg hs, ih]
      constructor
      · intro h d hd
        cases d with
        | zero => simpa using hs
        | succ d => exact h d (by omega)
      · intro h d hd
        exact h (d + 1) (by omega)

/-! ## The cyclic successor

The step of linear probing. Its orbit from any index is a permutation of the table. -/

/-- `d` steps of the cyclic successor from `i`. -/
theorem iterate_succ_mod (n : ℕ) (d i : ℕ) (hi : i < n) :
    (fun j => (j + 1) % n)^[d] i = (i + d) % n := by
  induction d with
  | zero => simp [Nat.mod_eq_of_lt hi]
  | succ d ih =>
    rw [Function.iterate_succ_apply', ih, Nat.mod_add_mod, Nat.add_assoc]

/-- Every index is reached, at some offset below `n`. -/
theorem exists_offset {n i j : ℕ} (hi : i < n) (hj : j < n) :
    ∃ d < n, (i + d) % n = j := by
  by_cases h : i ≤ j
  · exact ⟨j - i, by omega, by rw [Nat.add_sub_cancel' h, Nat.mod_eq_of_lt hj]⟩
  · refine ⟨n + j - i, by omega, ?_⟩
    rw [show i + (n + j - i) = n + j by omega, Nat.add_mod_left, Nat.mod_eq_of_lt hj]

/-- and at only one. -/
theorem offset_inj {n i d d' : ℕ} (hd : d < n) (hd' : d' < n)
    (h : (i + d) % n = (i + d') % n) : d = d' := by
  have h1 : d ≡ d' [MOD n] := Nat.ModEq.add_left_cancel' i h
  rwa [Nat.ModEq, Nat.mod_eq_of_lt hd, Nat.mod_eq_of_lt hd'] at h1

end Dragonboard.Probe
