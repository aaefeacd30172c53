/-
Runs of a system that takes one event after the other.

A system is a partial function: `step s e` is the state after the event `e`, and there is none when `e`
does not come in `s`. What steps preserve, runs preserve (`run_invariant`, `run_invariant_of`). An
invariant may also speak of the events so far (`run_history`). A latch is set by some events
and undone by others, and nothing sets it twice without undoing it (`run_latch`).
-/
import Mathlib.Data.List.Basic

set_option autoImplicit false

namespace Dragonboard.Runs

variable {σ ε : Type*} {step : σ → ε → Option σ}

/-- The state after a list of events. -/
def run (step : σ → ε → Option σ) (s : σ) (events : List ε) : Option σ := events.foldlM step s

@[simp] theorem run_nil (s : σ) : run step s [] = some s := rfl

theorem run_cons_iff {s t : σ} {e : ε} {events : List ε} :
    run step s (e :: events) = some t ↔ ∃ s', step s e = some s' ∧ run step s' events = some t := by
  rw [run, List.foldlM_cons]
  exact Option.bind_eq_some_iff

theorem run_append_iff {s t : σ} {before after : List ε} :
    run step s (before ++ after) = some t ↔
      ∃ s', run step s before = some s' ∧ run step s' after = some t := by
  rw [run, List.foldlM_append]
  exact Option.bind_eq_some_iff

theorem run_singleton {s t : σ} {e : ε} (h : step s e = some t) : run step s [e] = some t :=
  run_cons_iff.mpr ⟨t, h, rfl⟩

/-! ## Invariants

A run is a list of events under a step that may refuse. What holds at the start and is kept by
each step holds at the end. -/

/-- What the steps of some events preserve, a run of such events preserves. -/
theorem run_invariant_of {P : σ → Prop} {allowed : ε → Prop}
    (hstep : ∀ s e t, allowed e → P s → step s e = some t → P t) {s t : σ} {events : List ε}
    (hevents : ∀ e ∈ events, allowed e) (h : P s) (hrun : run step s events = some t) : P t := by
  induction events generalizing s with
  | nil =>
      obtain rfl := Option.some.inj hrun
      exact h
  | cons e events ih =>
      obtain ⟨s', he, hrun⟩ := run_cons_iff.mp hrun
      have hs' : P s' := hstep s e s' (hevents e List.mem_cons_self) h he
      exact ih (fun e he => hevents e (List.mem_cons_of_mem _ he)) hs' hrun

/-- What every step preserves, a run preserves. -/
theorem run_invariant {P : σ → Prop} (hstep : ∀ s e t, P s → step s e = some t → P t) {s t : σ}
    {events : List ε} (h : P s) (hrun : run step s events = some t) : P t := by
  have hevents : ∀ e ∈ events, True := fun _ _ => trivial
  exact run_invariant_of (fun s e t _ => hstep s e t) hevents h hrun

/-- An invariant that also speaks of the events so far. -/
theorem run_history {P : List ε → σ → Prop}
    (hstep : ∀ past s e t, P past s → step s e = some t → P (past ++ [e]) t) {s t : σ}
    {events : List ε} (h : P [] s) (hrun : run step s events = some t) : P events t := by
  have key : ∀ past s, P past s → run step s events = some t → P (past ++ events) t := by
    clear h hrun
    intro past s h hrun
    induction events generalizing past s with
    | nil =>
        obtain rfl := Option.some.inj hrun
        rwa [List.append_nil]
    | cons e events ih =>
        obtain ⟨s', he, hrun⟩ := run_cons_iff.mp hrun
        have h' := ih (past ++ [e]) s' (hstep past s e s' h he) hrun
        rwa [List.append_assoc, List.singleton_append] at h'
  exact key [] s h hrun

/-! ## Latches

For a flag that is set once and guards against a second time. -/

/-- A latch: what sets it finds it open, and it stays shut until something undoes it. -/
structure Latch (step : σ → ε → Option σ) (shut : σ → Prop) (sets undoes : σ → ε → Prop) :
    Prop where
  set : ∀ s e t, step s e = some t → sets s e → shut t
  keep : ∀ s e t, step s e = some t → shut s → ¬ undoes s e → shut t
  free : ∀ s e, sets s e → ¬ shut s

/-- A run from a shut state to an open one undoes the latch. -/
theorem Latch.undone {shut : σ → Prop} {sets undoes : σ → ε → Prop}
    (hlatch : Latch step shut sets undoes) {s t : σ} {events : List ε} (h : shut s)
    (hrun : run step s events = some t) (ht : ¬ shut t) :
    ∃ before e after s', events = before ++ e :: after ∧ run step s before = some s' ∧
      undoes s' e := by
  induction events generalizing s with
  | nil =>
      obtain rfl := Option.some.inj hrun
      exact absurd h ht
  | cons e events ih =>
      obtain ⟨s', he, hrun⟩ := run_cons_iff.mp hrun
      by_cases hundoes : undoes s e
      · exact ⟨[], e, events, s, rfl, rfl, hundoes⟩
      · obtain ⟨before, e', after, s'', hevents, hbefore, hundoes⟩ :=
          ih (hlatch.keep s e s' he h hundoes) hrun
        refine ⟨e :: before, e', after, s'', ?_, run_cons_iff.mpr ⟨s', he, hbefore⟩, hundoes⟩
        rw [hevents, List.cons_append]

/-- Between two events that set a latch there is one that undoes it. -/
theorem run_latch {shut : σ → Prop} {sets undoes : σ → ε → Prop}
    (hlatch : Latch step shut sets undoes) {s s₁ s₂ : σ} {e e' : ε} {between : List ε}
    (hstep : step s e = some s₁) (hsets : sets s e) (hrun : run step s₁ between = some s₂)
    (hsets' : sets s₂ e') :
    ∃ before u after s', between = before ++ u :: after ∧ run step s₁ before = some s' ∧
      undoes s' u :=
  hlatch.undone (hlatch.set s e s₁ hstep hsets) hrun (hlatch.free s₂ e' hsets')

end Dragonboard.Runs
