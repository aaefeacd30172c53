/-
A partial map that is copied by sending its updates.

The updates are replayed, in order, on a copy. If the copy is a part of the original
now, it is a part of it after both have taken the same updates; and a snapshot, in which the
original sends all it has, makes the copy complete. `Tracks` is the invariant of such a copy
with updates under way, and there is one rule for each thing that can happen to it.
-/
import Mathlib.Logic.Function.Basic

set_option autoImplicit false

namespace Dragonboard.Replica

variable {K V : Type}

/-- A message to the copy; `nop` carries no update. -/
inductive Update (K V : Type) where
  | nop
  | put (key : K) (value : V)
  | erase (key : K)

/-- One map is a part of another. -/
def Part (m m' : K → Option V) : Prop := ∀ k, m k = none ∨ m k = m' k

theorem Part.none (m : K → Option V) : Part (fun _ => Option.none) m := fun _ => .inl rfl

variable [DecidableEq K]

/-- The map after an update. -/
def Update.apply (m : K → Option V) : Update K V → K → Option V
  | nop => m
  | put key value => Function.update m key (some value)
  | erase key => Function.update m key none

/-- The map after a list of updates. -/
def replay (m : K → Option V) (log : List (Update K V)) : K → Option V := log.foldl Update.apply m

@[simp] theorem replay_nil (m : K → Option V) : replay m [] = m := rfl

@[simp] theorem replay_cons (m : K → Option V) (u : Update K V) (log : List (Update K V)) :
    replay m (u :: log) = replay (u.apply m) log := rfl

theorem replay_append (m : K → Option V) (log us : List (Update K V)) :
    replay m (log ++ us) = replay (replay m log) us := List.foldl_append

theorem Part.update {m m' : K → Option V} (h : Part m m') (key : K) (value : Option V) :
    Part (Function.update m key value) (Function.update m' key value) := by
  intro k
  by_cases hk : k = key
  · subst hk
    rw [Function.update_self, Function.update_self]
    exact .inr rfl
  · rw [Function.update_of_ne hk, Function.update_of_ne hk]
    exact h k

theorem Part.apply {m m' : K → Option V} (h : Part m m') (u : Update K V) :
    Part (u.apply m) (u.apply m') := by
  cases u with
  | nop => exact h
  | put key value => exact h.update key _
  | erase key => exact h.update key _

theorem Part.replay {m m' : K → Option V} (h : Part m m') (us : List (Update K V)) :
    Part (replay m us) (replay m' us) := by
  induction us generalizing m m' with
  | nil => exact h
  | cons u us ih => exact ih (h.apply u)

/-- A map sends a snapshot of itself: every pair it has, and nothing else. -/
structure Snapshot (m : K → Option V) (us : List (Update K V)) : Prop where
  sound : ∀ u ∈ us, u = .nop ∨ ∃ k v, u = .put k v ∧ m k = some v
  complete : ∀ k v, m k = some v → Update.put k v ∈ us

/-- A map that takes a snapshot of itself stays as it is. -/
theorem Snapshot.replay_self {m : K → Option V} {us : List (Update K V)} (h : Snapshot m us) :
    replay m us = m := by
  have hsound := h.sound
  clear h
  induction us with
  | nil => rfl
  | cons u us ih =>
    have hu : u.apply m = m := by
      rcases hsound u List.mem_cons_self with rfl | ⟨k, v, rfl, hk⟩
      · rfl
      · rw [Update.apply, ← hk, Function.update_eq_self]
    rw [replay_cons, hu, ih fun u' hu' => hsound u' (List.mem_cons_of_mem _ hu')]

/-- What a part has taken of a snapshot it keeps. -/
theorem Snapshot.replay_put {m' : K → Option V} {k : K} {v : V} (hk : m' k = some v)
    {us : List (Update K V)} (hsound : ∀ u ∈ us, u = .nop ∨ ∃ k v, u = .put k v ∧ m' k = some v)
    {m : K → Option V} (h : m k = some v ∨ Update.put k v ∈ us) : replay m us k = some v := by
  induction us generalizing m with
  | nil => exact h.resolve_right List.not_mem_nil
  | cons u us ih =>
    refine ih (fun u' hu' => hsound u' (List.mem_cons_of_mem _ hu')) ?_
    -- an update at this key puts this value
    rcases hsound u List.mem_cons_self with rfl | ⟨k', v', rfl, hk'⟩
    · rcases h with h | h
      · exact .inl h
      · exact .inr ((List.mem_cons.mp h).resolve_left (by simp))
    · by_cases heq : k = k'
      · subst heq
        rw [hk] at hk'
        cases hk'
        exact .inl (Function.update_self ..)
      · rw [Update.apply, Function.update_of_ne heq]
        rcases h with h | h
        · exact .inl h
        · refine .inr ((List.mem_cons.mp h).resolve_left ?_)
          intro hput
          cases hput
          exact heq rfl

/-- **A snapshot completes a part.** -/
theorem Part.replay_snapshot {m m' : K → Option V} (h : Part m m') {us : List (Update K V)}
    (hus : Snapshot m' us) : Dragonboard.Replica.replay m us = m' := by
  have hpart := h.replay us
  rw [hus.replay_self] at hpart
  funext k
  cases hk : m' k with
  | none =>
    rcases hpart k with hnone | hsame
    · exact hnone
    · rw [hsame, hk]
  | some v => exact Snapshot.replay_put hk hus.sound (.inr (hus.complete k v hk))

/-- The copy `replica` of `primary`, with the updates `log` on their way to it: it is going to be a
part of the original, and the whole of it if it is meant to be `full`. -/
structure Tracks (full : Prop) (replica primary : K → Option V) (log : List (Update K V)) : Prop where
  part : Part (replay replica log) primary
  full : full → replay replica log = primary

section Tracks

variable {full : Prop} {replica primary : K → Option V} {log : List (Update K V)}

/-- Nothing copied yet. -/
theorem Tracks.empty (hfull : ¬ full) (primary : K → Option V) :
    Tracks full (fun _ => none) primary ([] : List (Update K V)) :=
  ⟨Part.none _, fun h => absurd h hfull⟩

/-- The original changes, and sends the changes. -/
theorem Tracks.send (h : Tracks full replica primary log) (us : List (Update K V)) :
    Tracks full replica (replay primary us) (log ++ us) := by
  refine ⟨?_, fun hfull => ?_⟩
  · rw [replay_append]
    exact h.part.replay us
  · rw [replay_append, h.full hfull]

/-- The copy takes the next update. -/
theorem Tracks.receive {u : Update K V} (h : Tracks full replica primary (u :: log)) :
    Tracks full (u.apply replica) primary log := ⟨h.part, h.full⟩

/-- The original sends a snapshot. -/
theorem Tracks.snapshot (h : Tracks full replica primary log) {us : List (Update K V)}
    (hus : Snapshot primary us) (full' : Prop) : Tracks full' replica primary (log ++ us) := by
  have heq : replay replica (log ++ us) = primary := by
    rw [replay_append]
    exact h.part.replay_snapshot hus
  refine ⟨fun k => .inr ?_, fun _ => heq⟩
  rw [heq]

end Tracks

end Dragonboard.Replica
