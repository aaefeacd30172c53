/-
The `updated` flag of a ticket is a latch.

A wait sets the flag of a ticket whose callback it runs, and passes over a ticket whose flag is set. What
the program calls and what waits do may remove tickets and add others, but only
`waiter_ticket_clear` takes the flag back. `Later` says so of two states, once for every operation, and
the rule for latches gives the runs.
-/
import Mathlib.Algebra.Order.Group.Nat
import Dragonboard.Runs
import Dragonboard.Waiter

set_option autoImplicit false

namespace Dragonboard.Waiters

open Dragonboard.LinkedList

/-! ## Later states

What can have happened to a ticket between two states, as long as the program does not clear it. -/

/-- A later state: a ticket that is there is new, or it was there, and its flag is still set if it was,
unless it is one of those that were cleared. -/
structure Later (cleared : ℕ → Prop) (s s' : State) : Prop where
  made : s.made ≤ s'.made
  ticket : ∀ id t', s'.ticket id = some t' → (s.made ≤ id ∧ id < s'.made) ∨
    ∃ t, s.ticket id = some t ∧ (t.updated = true → t'.updated = true ∨ cleared id)

variable {cleared : ℕ → Prop} {s s' s'' : State}

theorem Later.of_eq (hmade : s'.made = s.made) (hticket : s'.ticket = s.ticket) :
    Later cleared s s' := by
  refine ⟨hmade.ge, fun id t' ht' => .inr ⟨t', ?_, .inl⟩⟩
  rw [← hticket]
  exact ht'

theorem Later.refl (s : State) : Later cleared s s := .of_eq rfl rfl

theorem Later.trans (h : Later cleared s s') (h' : Later cleared s' s'') : Later cleared s s'' := by
  refine ⟨h.made.trans h'.made, fun id t'' ht'' => ?_⟩
  rcases h'.ticket id t'' ht'' with ⟨hle, hlt⟩ | ⟨t', ht', hkeep'⟩
  · exact .inl ⟨h.made.trans hle, hlt⟩
  · rcases h.ticket id t' ht' with ⟨hle, hlt⟩ | ⟨t, ht, hkeep⟩
    · exact .inl ⟨hle, lt_of_lt_of_le hlt h'.made⟩
    · refine .inr ⟨t, ht, fun hupdated => ?_⟩
      rcases hkeep hupdated with hupdated' | hcleared
      · exact hkeep' hupdated'
      · exact .inr hcleared

theorem Later.modify (s : State) (id : ℕ) {f : WaiterTicket → WaiterTicket}
    (hf : ∀ t, s.ticket id = some t → t.updated = true → (f t).updated = true ∨ cleared id) :
    Later cleared s (s.modify id f) := by
  refine ⟨le_rfl, fun x t' ht' => .inr ?_⟩
  by_cases hx : x = id
  · subst hx
    rw [State.modify_self, Option.map_eq_some_iff] at ht'
    obtain ⟨t, ht, rfl⟩ := ht'
    exact ⟨t, ht, hf t ht⟩
  · rw [State.modify_of_ne hx] at ht'
    exact ⟨t', ht', .inl⟩

theorem Later.append (s : State) (ticket : WaiterTicket) : Later cleared s (s.append ticket) := by
  refine ⟨Nat.le_succ _, fun x t' ht' => ?_⟩
  by_cases hx : x = s.made
  · exact .inl ⟨hx.ge, hx ▸ Nat.lt_succ_self _⟩
  · rw [State.append_of_ne hx] at ht'
    exact .inr ⟨t', ht', .inl⟩

theorem Later.remove {id : ℕ} (h : s.remove id = some s') : Later cleared s s' := by
  obtain ⟨-, hticket, hmade, -⟩ := State.remove_eq_some h
  refine ⟨hmade.ge, fun x t' ht' => .inr ⟨t', ?_, .inl⟩⟩
  rw [hticket] at ht'
  by_cases hx : x = id
  · rw [hx, Function.update_self] at ht'
    cases ht'
  · rwa [Function.update_of_ne hx] at ht'

theorem Later.countUp (h : s.countUp = some s') : Later cleared s s' := by
  obtain rfl := State.countUp_eq_some h
  exact .of_eq rfl rfl

/-! ## What the program calls

Every call of the program but `waiter_ticket_clear` leads to a later state. -/

theorem Later.regrow {ok : Bool} (h : waiter_add_null.regrow s ok = some s') :
    Later cleared s s' := by
  rw [waiter_add_null.regrow] at h
  split at h
  · cases h
  · split at h
    · obtain rfl := Option.some.inj h
      exact .of_eq rfl rfl
    · obtain rfl := Option.some.inj h
      exact .of_eq rfl rfl

theorem Later.finish {id : ℕ} {r : Option ℕ × State}
    (h : waiter_add_null.finish s id = some r) : Later cleared s r.2 := by
  obtain ⟨s1, hcount, rfl⟩ := Option.map_eq_some_iff.mp h
  exact (Later.countUp hcount).trans (.modify _ _ fun _ _ => .inl)

theorem Later.waiter_add_null {a : Alloc} {r : Option ℕ × State}
    (h : waiter_add_null s a = some r) : Later cleared s r.2 := by
  rw [Waiters.waiter_add_null] at h
  split at h
  · refine (Later.append s { waiter := true }).trans ?_
    dsimp only at h
    split at h
    · split at h
      · cases h
      · next s1 hregrow =>
        refine (Later.regrow hregrow).trans ?_
        split at h
        · obtain rfl := Option.some.inj h
          exact .refl _
        · exact .finish h
    · exact .finish h
  · obtain rfl := Option.some.inj h
    exact .refl _

theorem Later.waiter_add {f : WaiterTicket → WaiterTicket} {a : Alloc} {r : Option ℕ × State}
    (h : waiter_add f s a = some r) (hf : ∀ t, (f t).updated = t.updated) :
    Later cleared s r.2 := by
  rw [Waiters.waiter_add] at h
  split at h
  · cases h
  · next s1 hadd =>
    obtain rfl := Option.some.inj h
    exact .waiter_add_null hadd
  · next id s1 hadd =>
    obtain rfl := Option.some.inj h
    refine (Later.waiter_add_null hadd).trans (.modify _ _ fun t _ hupdated => .inl ?_)
    rw [hf]
    exact hupdated

theorem Later.write {id : ℕ} {f : WaiterTicket → WaiterTicket} (h : s.write id f = some s')
    (hf : ∀ t, t.updated = true → (f t).updated = true ∨ cleared id) : Later cleared s s' := by
  rw [State.write, Option.ite_none_right_eq_some] at h
  obtain ⟨-, rfl⟩ := And.imp_right Option.some.inj h
  exact .modify s id fun t _ => hf t

theorem Later.delete {id : ℕ} (h : waiter_ticket_delete s id = some s') :
    Later cleared s s' := by
  rw [waiter_ticket_delete] at h
  split at h
  · cases h
  · exact .remove (Option.ite_none_right_eq_some.mp h).2

theorem Later.synchronize_loop {nodes : List ℕ}
    (h : waiter_synchronize.loop s nodes = some s') : Later cleared s s' := by
  induction nodes generalizing s with
  | nil =>
      obtain rfl := Option.some.inj h
      exact .refl s
  | cons node rest ih =>
      rw [waiter_synchronize.loop] at h
      split at h
      · cases h
      · dsimp only at h
        split at h
        · split at h
          · next onode honode =>
            have hlater := ih h
            refine Later.trans (Later.modify s onode ?_) hlater
            exact fun _ _ => .inl
          · exact ih h
        · exact ih h

/-- A call of the program. -/
theorem Later.call {m m' : Machine} {c : Call} (h : m.call c = some m') :
    Later (fun id => c = .waiter_ticket_clear id) m.state m'.state := by
  cases c with
  | waiter_add_null a =>
      obtain ⟨r, hr, rfl⟩ := Option.map_eq_some_iff.mp h
      exact .waiter_add_null hr
  | waiter_add_fd fd a =>
      obtain ⟨r, hr, rfl⟩ := Option.map_eq_some_iff.mp h
      exact .waiter_add hr fun _ => rfl
  | waiter_add_timeout ms time_ms a =>
      obtain ⟨r, hr, rfl⟩ := Option.map_eq_some_iff.mp h
      exact .waiter_add hr fun _ => rfl
  | waiter_ticket_clear id =>
      obtain ⟨s, hs, rfl⟩ := Option.map_eq_some_iff.mp h
      exact .write hs fun _ _ => .inr rfl
  | waiter_ticket_set_null id =>
      obtain ⟨s, hs, rfl⟩ := Option.map_eq_some_iff.mp h
      exact .write hs fun _ => .inl
  | waiter_ticket_set_fd id fd =>
      obtain ⟨s, hs, rfl⟩ := Option.map_eq_some_iff.mp h
      exact .write hs fun _ => .inl
  | waiter_ticket_set_timeout id ms time_ms =>
      obtain ⟨s, hs, rfl⟩ := Option.map_eq_some_iff.mp h
      exact .write hs fun _ => .inl
  | waiter_ticket_callback id cb_fn =>
      obtain ⟨s, hs, rfl⟩ := Option.map_eq_some_iff.mp h
      exact .write hs fun _ => .inl
  | waiter_ticket_delete id =>
      obtain ⟨s, hs, rfl⟩ := Option.map_eq_some_iff.mp h
      exact .delete hs
  | waiter_synchronize =>
      obtain ⟨s, hs, rfl⟩ := Option.map_eq_some_iff.mp h
      obtain ⟨nodes, -, hloop⟩ := Option.bind_eq_some_iff.mp hs
      exact .synchronize_loop hloop
  | waiter_wait =>
      obtain rfl := Option.some.inj h
      exact .refl _
  | waiter_wait_timeout ms time_ms =>
      obtain ⟨s, hs, rfl⟩ := Option.map_eq_some_iff.mp h
      exact (Later.append _ _).trans (.countUp hs)

/-! ## What waits do

The second loop of a wait runs a callback only when it sets the flag of its ticket. -/

theorem waiter_wait.fresh_updated {ps : ℕ} {rc : ℤ} {now : UInt64} {t : WaiterTicket}
    {r : Bool × WaiterTicket} (h : waiter_wait.fresh s ps rc now t = some r) :
    r.2.updated = t.updated ∧ (r.1 = true → t.updated = false) := by
  rw [waiter_wait.fresh] at h
  split at h
  · split at h
    · obtain rfl := Option.some.inj h
      exact ⟨rfl, fun hfresh => by simpa using hfresh⟩
    · obtain rfl := Option.some.inj h
      exact ⟨rfl, fun hfresh => by cases hfresh⟩
  · split at h
    · obtain rfl := Option.some.inj h
      exact ⟨rfl, fun hfresh => by cases hfresh⟩
    · obtain ⟨ps, -, rfl⟩ := Option.map_eq_some_iff.mp h
      exact ⟨rfl, fun hfresh => by simpa using (Bool.and_eq_true_iff.mp hfresh).2⟩
  · obtain rfl := Option.some.inj h
    exact ⟨rfl, fun hfresh => by cases hfresh⟩

theorem Later.visit {ps : ℕ} {rc : ℤ} {now : UInt64} {node : ℕ} {r : Bool × State}
    (h : waiter_wait.visit s ps rc now node = some r) : Later cleared s r.2 := by
  obtain ⟨t, ht, h⟩ := Option.bind_eq_some_iff.mp h
  obtain ⟨⟨fresh, t'⟩, hfresh, h⟩ := Option.bind_eq_some_iff.mp h
  have hupdated : t'.updated = t.updated := (waiter_wait.fresh_updated hfresh).1
  dsimp only at h
  split at h
  · obtain rfl := Option.some.inj h
    exact .modify s node fun _ _ _ => .inl rfl
  · obtain rfl := Option.some.inj h
    refine .modify s node fun told htold hset => .inl ?_
    rw [htold, Option.some.injEq] at ht
    rw [hupdated, ← ht]
    exact hset

/-- A round of the second loop sets the flag of a ticket whose callback is to run, which was not
set. -/
theorem waiter_wait.visit_sets {ps : ℕ} {rc : ℤ} {now : UInt64} {node : ℕ} {r : Bool × State}
    (h : waiter_wait.visit s ps rc now node = some r) (hcallback : r.1 = true) :
    (∃ t, s.ticket node = some t ∧ t.updated = false) ∧
      ∀ t', r.2.ticket node = some t' → t'.updated = true := by
  obtain ⟨t, ht, h⟩ := Option.bind_eq_some_iff.mp h
  obtain ⟨⟨fresh, t'⟩, hfresh, h⟩ := Option.bind_eq_some_iff.mp h
  have hopen := (waiter_wait.fresh_updated hfresh).2
  dsimp only at h hopen
  split at h
  · next htrue =>
    obtain rfl := Option.some.inj h
    refine ⟨⟨t, ht, hopen htrue⟩, fun t' ht' => ?_⟩
    rw [State.modify_self, ht, Option.map_some, Option.some.injEq] at ht'
    rw [← ht']
  · obtain rfl := Option.some.inj h
    cases hcallback

theorem Later.first {poll : Poll} {now : UInt64} {r : ℕ × ℤ × State}
    (h : waiter_wait.first s poll now = some r) : Later cleared s r.2.2 := by
  obtain ⟨p, -, h⟩ := Option.bind_eq_some_iff.mp h
  obtain ⟨ps, -, h⟩ := Option.bind_eq_some_iff.mp h
  obtain ⟨nodes, -, h⟩ := Option.bind_eq_some_iff.mp h
  obtain ⟨⟨ps', term_time⟩, -, h⟩ := Option.bind_eq_some_iff.mp h
  obtain rfl := Option.some.inj h
  exact .of_eq rfl rfl

theorem Later.go {m m' : Machine} (h : m.go = some m') : Later cleared m.state m'.state := by
  obtain ⟨s, stack⟩ := m
  cases stack with
  | nil => cases h
  | cons frame stack =>
      cases frame with
      | start => cases h
      | callback => cases h
      | check ps rc now node =>
          cases node with
          | none =>
              obtain rfl := Option.some.inj h
              exact .refl s
          | some node =>
              obtain ⟨r, hr, rfl⟩ := Option.map_eq_some_iff.mp h
              have hvisit : Later cleared s r.2 := .visit hr
              split
              · exact hvisit
              · exact hvisit
      | next ps rc now node =>
          simp only [Machine.go, Option.ite_none_right_eq_some] at h
          obtain ⟨-, rfl⟩ := And.imp_right Option.some.inj h
          exact .refl s
      | timeout id =>
          obtain ⟨r, hr, rfl⟩ := Option.map_eq_some_iff.mp h
          obtain ⟨t, -, hr⟩ := Option.bind_eq_some_iff.mp hr
          obtain ⟨s1, hremove, hr⟩ := Option.bind_eq_some_iff.mp hr
          obtain rfl := Option.some.inj hr
          exact .remove hremove

/-- **A step** goes to a later state, and only a call of `waiter_ticket_clear` clears. -/
theorem Later.step {m m' : Machine} {e : Event} (h : step m e = some m') :
    Later (fun id => e = .call (.waiter_ticket_clear id)) m.state m'.state := by
  cases e with
  | call c =>
      rw [Waiters.step, Option.ite_none_right_eq_some] at h
      have hcall := Later.call h.2
      refine ⟨hcall.made, fun id t' ht' => ?_⟩
      rcases hcall.ticket id t' ht' with hnew | ⟨t, ht, hkeep⟩
      · exact .inl hnew
      · exact .inr ⟨t, ht, fun hupdated => (hkeep hupdated).imp_right fun hc => by rw [hc]⟩
  | ret =>
      rw [Waiters.step] at h
      split at h
      · obtain rfl := Option.some.inj h
        exact .refl _
      · cases h
  | poll poll now later =>
      rw [Waiters.step] at h
      split at h
      · obtain ⟨⟨ps, rc, s⟩, hr, rfl⟩ := Option.map_eq_some_iff.mp h
        have hfirst : Later (fun id => Event.poll poll now later = .call (.waiter_ticket_clear id))
            m.state s := .first hr
        dsimp only
        split
        · exact hfirst
        · exact hfirst
      · cases h
  | go => exact .go h

/-! ## The latch

Between two runs of a callback its ticket was cleared. The flag is followed backwards from the
second one. -/

/-- The ticket whose callback a step begins to run. -/
def Machine.fires (m : Machine) (e : Event) : Option ℕ :=
  match e, m.stack with
  | .go, .check ps rc now (some node) :: _ =>
    (waiter_wait.visit m.state ps rc now node).bind fun r => if r.1 then some node else none
  | _, _ => none

theorem Machine.fires_eq_some {m : Machine} {e : Event} {id : ℕ} (h : m.fires e = some id) :
    ∃ ps rc now stack s, e = .go ∧ m.stack = .check ps rc now (some id) :: stack ∧
      waiter_wait.visit m.state ps rc now id = some (true, s) := by
  unfold Machine.fires at h
  split at h
  · next ps rc now node stack hstack =>
    obtain ⟨⟨cb, s⟩, hvisit, h⟩ := Option.bind_eq_some_iff.mp h
    obtain ⟨rfl, rfl⟩ := And.imp_right Option.some.inj (Option.ite_none_right_eq_some.mp h)
    exact ⟨ps, rc, now, stack, s, rfl, hstack, hvisit⟩
  · cases h

/-- A ticket whose flag is set, or that is gone for good. -/
def Shut (id : ℕ) (m : Machine) : Prop :=
  id < m.state.made ∧ ∀ t, m.state.ticket id = some t → t.updated = true

/-- The tickets that are there have been made. -/
def Born (s : State) : Prop := ∀ id t, s.ticket id = some t → id < s.made

theorem Later.born (h : Later cleared s s') (hs : Born s) : Born s' := by
  intro id t' ht'
  rcases h.ticket id t' ht' with ⟨-, hlt⟩ | ⟨t, ht, -⟩
  · exact hlt
  · exact lt_of_lt_of_le (hs id t ht) h.made

theorem run_born {events : List Event} {m : Machine} (h : run boot events = some m) :
    Born m.state :=
  Runs.run_invariant (P := fun m => Born m.state) (fun _ _ _ hs hs' => (Later.step hs').born hs)
    (fun _ _ ht => by cases ht) h

/-- The flag of a ticket is a latch: what runs the callback sets it, and `waiter_ticket_clear` undoes it. -/
theorem ticket_latch (id : ℕ) :
    Runs.Latch step (Shut id) (fun m e => m.fires e = some id ∧ id < m.state.made)
      (fun _ e => e = .call (.waiter_ticket_clear id)) where
  set := by
    rintro m e m' hstep ⟨hfires, hmade⟩
    refine ⟨lt_of_lt_of_le hmade (Later.step hstep).made, ?_⟩
    obtain ⟨ps, rc, now, stack, s, rfl, hstack, hvisit⟩ := Machine.fires_eq_some hfires
    simp only [Waiters.step, Machine.go, hstack, hvisit, Option.map_some, if_true] at hstep
    obtain rfl := Option.some.inj hstep
    exact (waiter_wait.visit_sets hvisit rfl).2
  keep := by
    rintro m e m' hstep ⟨hmade, hshut⟩ hclear
    have hlater := Later.step hstep
    refine ⟨lt_of_lt_of_le hmade hlater.made, fun t' ht' => ?_⟩
    rcases hlater.ticket id t' ht' with ⟨hle, -⟩ | ⟨t, ht, hkeep⟩
    · exact absurd hmade (not_lt.mpr hle)
    · exact (hkeep (hshut t ht)).resolve_right hclear
  free := by
    rintro m e ⟨hfires, -⟩ ⟨-, hshut⟩
    obtain ⟨ps, rc, now, stack, s, -, -, hvisit⟩ := Machine.fires_eq_some hfires
    obtain ⟨t, ht, hopen⟩ := (waiter_wait.visit_sets hvisit rfl).1
    rw [hshut t ht] at hopen
    cases hopen

/-- **A callback runs once for each clear.** In every run of a program, whatever its callbacks call, waits
within waits too, between two runs of the callback of one ticket there is a
`waiter_ticket_clear` of that ticket. -/
theorem fires_once (before between : List Event) (m m₁ m₂ : Machine) (e e' : Event) (id : ℕ)
    (hbefore : run boot before = some m) (hfires : m.fires e = some id) (hstep : step m e = some m₁)
    (hbetween : run m₁ between = some m₂) (hfires' : m₂.fires e' = some id) :
    Event.call (.waiter_ticket_clear id) ∈ between := by
  obtain ⟨ps, rc, now, stack, s, -, -, hvisit⟩ := Machine.fires_eq_some hfires
  obtain ⟨t, ht, -⟩ := (waiter_wait.visit_sets hvisit rfl).1
  have hmade : id < m.state.made := run_born hbefore id t ht
  have hmade₂ : id < m₂.state.made := by
    have hlater : m.state.made ≤ m₂.state.made :=
      Runs.run_invariant (P := fun m' => m.state.made ≤ m'.state.made)
        (fun _ _ _ hs hs' => hs.trans (Later.step hs').made) (Later.step hstep).made hbetween
    exact lt_of_lt_of_le hmade hlater
  obtain ⟨pre, u, post, m', rfl, -, rfl⟩ :=
    Runs.run_latch (ticket_latch id) hstep ⟨hfires, hmade⟩ hbetween ⟨hfires', hmade₂⟩
  exact List.mem_append_right _ List.mem_cons_self

/-- A descriptor that is always ready. -/
def readyPoll : Poll := fun _ _ => (1, fun _ => true)

/-- A ticket that is cleared in its callback, and found ready in the next wait too. -/
theorem fires_once_twice_ready :
    Event.call (.waiter_ticket_clear 0) ∈
      [Event.call (.waiter_ticket_clear 0), .ret, .go, .go, .call .waiter_wait,
        .poll readyPoll 0 0] :=
  fires_once
    [.call (.waiter_add_fd 3 ⟨true, true⟩), .call (.waiter_ticket_callback 0 true),
      .call .waiter_wait, .poll readyPoll 0 0]
    _ _ _ _ .go .go 0 rfl rfl rfl rfl rfl

end Dragonboard.Waiters
