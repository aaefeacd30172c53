/-
Paths resolved by their text alone.

A path is a list of steps from a directory, and one of the names means the parent. In a
tree without symbolic links that is all there is to it: `walk` follows the steps, and where it
ends depends on the steps only through their normal form (`reduce`), some climbs
and then some names. Whether a walk from below a directory ends below it can be
read off the normal form (`prefix_walk_iff`).
-/
import Mathlib.Data.List.Infix
import Mathlib.Data.List.DropRight

set_option autoImplicit false

namespace Dragonboard.LexicalPath

variable {ν : Type} [DecidableEq ν] (up : ν)

/-- One step from a directory. The parent of the root is the root. -/
def walk.step (dir : List ν) (name : ν) : List ν := if name = up then dir.dropLast else dir ++ [name]

/-- Where the steps lead from a directory. -/
def walk (dir steps : List ν) : List ν := steps.foldl (walk.step up) dir

/-- The normal form of one more step. -/
def reduce.step (r : ℕ × List ν) (name : ν) : ℕ × List ν :=
  if name = up then if r.2 = [] then (r.1 + 1, []) else (r.1, r.2.dropLast) else (r.1, r.2 ++ [name])

/-- The normal form of the steps: how far they climb, and what they name then. -/
def reduce (steps : List ν) : ℕ × List ν := steps.foldl (reduce.step up) (0, [])

@[simp] theorem walk_nil (dir : List ν) : walk up dir [] = dir := rfl

@[simp] theorem walk_append (dir steps steps' : List ν) :
    walk up dir (steps ++ steps') = walk up (walk up dir steps) steps' :=
  List.foldl_append

theorem reduce_append_singleton (steps : List ν) (name : ν) :
    reduce up (steps ++ [name]) = reduce.step up (reduce up steps) name := by
  rw [reduce, List.foldl_append]
  rfl

/-- Steps to names only are their own normal form. -/
theorem reduce_names {steps : List ν} (h : up ∉ steps) : reduce up steps = (0, steps) := by
  induction steps using List.reverseRecOn with
  | nil => rfl
  | append_singleton steps name ih =>
    rw [List.mem_append, not_or, List.mem_singleton] at h
    rw [reduce_append_singleton, ih h.1, reduce.step, if_neg (Ne.symm h.2)]

/-- **A walk leads where its normal form does.** -/
theorem walk_eq (dir steps : List ν) :
    walk up dir steps =
      dir.take (dir.length - (reduce up steps).1) ++ (reduce up steps).2 := by
  induction steps using List.reverseRecOn with
  | nil =>
    change dir = dir.take dir.length ++ []
    rw [List.take_length, List.append_nil]
  | append_singleton steps name ih =>
    rw [walk_append, ih, reduce_append_singleton]
    generalize reduce up steps = r
    change walk.step up _ name = _
    unfold walk.step reduce.step
    by_cases hup : name = up
    swap
    · rw [if_neg hup, if_neg hup, List.append_assoc]
    rw [if_pos hup, if_pos hup]
    by_cases hnil : r.2 = []
    · -- nothing named is left: one level more of the directory goes
      rw [if_pos hnil, hnil, List.append_nil, List.append_nil, List.dropLast_eq_take,
        List.take_take, List.length_take]
      congr 1
      omega
    · rw [if_neg hnil, List.dropLast_append_of_ne_nil hnil]

theorem walk_names (dir : List ν) {steps : List ν} (h : up ∉ steps) :
    walk up dir steps = dir ++ steps := by
  rw [walk_eq, reduce_names up h, Nat.sub_zero, List.take_length]

/-- Beginning with a list is beginning with the rest of it, after a part of it. -/
theorem prefix_take_append_iff {α : Type} (l d : List α) (n : ℕ) :
    l <+: l.take n ++ d ↔ l.drop n <+: d := by
  constructor
  · intro h
    have h' : l.take n ++ l.drop n <+: l.take n ++ d := by rwa [List.take_append_drop]
    exact (List.prefix_append_right_inj _).mp h'
  · intro h
    have h' := (List.prefix_append_right_inj (l.take n)).mpr h
    rwa [List.take_append_drop] at h'

/-- **When a walk from below a directory ends below it**: it does not climb out of it, or it names
the levels again that it has climbed. -/
theorem prefix_walk_iff (base sub steps : List ν) :
    base <+: walk up (base ++ sub) steps ↔
      (reduce up steps).1 ≤ sub.length ∨
        base.drop (base.length - ((reduce up steps).1 - sub.length)) <+: (reduce up steps).2 := by
  rw [walk_eq, List.length_append]
  generalize reduce up steps = r
  by_cases hle : r.1 ≤ sub.length
  · have hinside : base <+: (base ++ sub).take (base.length + sub.length - r.1) ++ r.2 := by
      rw [List.take_append, List.take_of_length_le (by omega), List.append_assoc]
      exact List.prefix_append _ _
    exact ⟨fun _ => .inl hle, fun _ => hinside⟩
  · have hcut : (base ++ sub).take (base.length + sub.length - r.1) =
        base.take (base.length - (r.1 - sub.length)) := by
      have hlen : base.length + sub.length - r.1 = base.length - (r.1 - sub.length) := by omega
      rw [hlen, List.take_append_of_le_length (by omega)]
    rw [hcut, prefix_take_append_iff]
    exact ⟨.inr, fun h => h.resolve_left hle⟩

end Dragonboard.LexicalPath
