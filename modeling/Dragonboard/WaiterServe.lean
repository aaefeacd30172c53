/-
What one `waiter_wait` does to all its tickets.

A wait looks at its tickets twice. The first loop asks `poll` for their descriptors, in the order of the list,
with the time to the earliest end of a timeout; of the answer only the first ready slot is kept, as
the descriptor that is served (`answer`). The second loop runs the callbacks: those of the tickets of this
descriptor and of the timeouts that are over, as far as their flags are not set
(`WaiterTicket.fires`), and leaves each ticket as `WaiterTicket.settle` says. Here a callback
clears its own ticket, as `ctrl_port_fn` of the name server does, and calls nothing else.
-/
import Mathlib.Algebra.Order.Group.Nat
import Mathlib.Algebra.Order.Group.Int
import Dragonboard.WaiterCapacity

set_option autoImplicit false

namespace Dragonboard.Waiters

open Dragonboard.LinkedList

/-! ## What is asked and answered

A wait without its memory and its poll set: what it asks `poll`, and what the answer means for
each ticket. -/

/-- The descriptors of some tickets, in order. -/
def fdsOf (s : State) (l : List ℕ) : List ℤ :=
  l.filterMap fun id => (s.ticket id).bind fun t => if t.type = .fd then some t.filedes else none

/-- The earliest end of a timeout, before an end that is known already. -/
def termOf (s : State) (l : List ℕ) (term_time : UInt64) : UInt64 :=
  l.foldl (fun term id => (s.ticket id).elim term fun t =>
    if t.type = .timeout ∧ t.due < term then t.due else term) term_time

/-- What a poll returns, with the descriptor of its first ready slot. -/
def served (poll : Poll) (fds : List ℤ) (ms : ℤ) : ℤ × Option ℤ :=
  let (rc, revents) := poll fds ms
  (rc, if rc ≤ 0 then none else ((List.range fds.length).find? revents).bind fun i => fds[i]?)

/-- What the poll of a wait returns, with the descriptor that is served. Where a timeout is over there is no
poll, and no descriptor is served. -/
def answer (poll : Poll) (fds : List ℤ) (term_time now : UInt64) : ℤ × Option ℤ :=
  if term_time = -1 then served poll fds (-1)
  else if term_time ≤ now then (0, none)
  else
    let delta := (term_time - now).toNat
    served poll fds (if 2147483647 < delta then 2147483647 else delta)

/-- Whether there is something for a ticket: its descriptor is served, or its time is over. -/
def WaiterTicket.hit (cause : Option ℤ) (now : UInt64) (t : WaiterTicket) : Bool :=
  match t.type with
  | .null => false
  | .fd => cause = some t.filedes
  | .timeout => t.due ≤ now

/-- Whether the callback of a ticket runs. -/
def WaiterTicket.fires (cause : Option ℤ) (now : UInt64) (t : WaiterTicket) : Bool :=
  t.hit cause now && !t.updated && t.callback

/-- A timeout that is over starts again. -/
def WaiterTicket.restart (now : UInt64) (t : WaiterTicket) : WaiterTicket :=
  if t.type = .timeout ∧ t.due ≤ now then { t with start := now } else t

/-- A ticket after a wait: a flag that has been set stays, except that a callback clears its own. -/
def WaiterTicket.settle (cause : Option ℤ) (now : UInt64) (t : WaiterTicket) : WaiterTicket :=
  let t' := t.restart now
  if t.hit cause now && !t.updated then { t' with updated := !t.callback } else t'

/-- What happens at a ticket: the wait comes to it, its callback may run, the wait goes on. -/
def round (cause : Option ℤ) (now : UInt64) (s : State) (id : ℕ) : List Event :=
  if (s.ticket id).any (WaiterTicket.fires cause now) then
    [.go, .call (.waiter_ticket_clear id), .ret, .go]
  else [.go, .go]

/-! ## Changes of tickets

Changing several tickets one after the other, each once. -/

section Modify

variable {s : State} {id : ℕ} {t : WaiterTicket} {f g : WaiterTicket → WaiterTicket}

theorem State.modify_modify : (s.modify id f).modify id g = s.modify id fun t => g (f t) := by
  rw [State.modify, State.modify_self, Option.map_map, State.modify, State.modify]
  simp only [Function.update_idem]
  rfl

/-- Only what becomes of the ticket that is there matters. -/
theorem State.modify_congr (ht : s.ticket id = some t) (hfg : f t = g t) :
    s.modify id f = s.modify id g := by
  rw [State.modify, State.modify, ht, Option.map_some, Option.map_some, hfg]

/-- Some tickets of a state changed, one after the other. -/
def State.modifyAll (s : State) (ids : List ℕ) (f : WaiterTicket → WaiterTicket) : State :=
  ids.foldl (fun s id => s.modify id f) s

theorem State.modifyAll_of_notMem {ids : List ℕ} (hid : id ∉ ids) :
    (s.modifyAll ids f).ticket id = s.ticket id := by
  induction ids generalizing s with
  | nil => rfl
  | cons x ids ih =>
      obtain ⟨hne, hid⟩ := List.ne_and_not_mem_of_not_mem_cons hid
      have hrest : ((s.modify x f).modifyAll ids f).ticket id = (s.modify x f).ticket id := ih hid
      exact hrest.trans (State.modify_of_ne hne)

theorem State.modifyAll_of_mem {ids : List ℕ} (hnodup : ids.Nodup) (hid : id ∈ ids) :
    (s.modifyAll ids f).ticket id = (s.ticket id).map f := by
  induction ids generalizing s with
  | nil => cases hid
  | cons x ids ih =>
      obtain ⟨hx, hnodup⟩ := List.nodup_cons.mp hnodup
      rcases List.mem_cons.mp hid with rfl | hid
      · exact (State.modifyAll_of_notMem hx).trans State.modify_self
      · have hne : id ≠ x := fun heq => hx (heq ▸ hid)
        have hrest := ih (s := s.modify x f) hnodup hid
        rw [State.modify_of_ne hne] at hrest
        exact hrest

end Modify

/-! ## The first loop

It collects the descriptors and the earliest end of a timeout. -/

/-- The first loop of a wait collects the descriptors and finds the earliest end. -/
theorem waiter_wait.gather_eq {s : State} {l : List ℕ}
    (hlive : ∀ id ∈ l, ∃ t, s.ticket id = some t) {ps : Pollset}
    (hroom : ps.nfds + (fdsOf s l).length ≤ ps.pfd.length) (term_time : UInt64) :
    ∃ ps', waiter_wait.gather s l ps term_time = some (ps', termOf s l term_time) ∧
      ps'.nfds = ps.nfds + (fdsOf s l).length ∧ ps'.cause = ps.cause ∧
      ps'.pfd.length = ps.pfd.length ∧
      ps'.pfd.take ps'.nfds = ps.pfd.take ps.nfds ++ fdsOf s l := by
  induction l generalizing ps term_time with
  | nil => exact ⟨ps, rfl, rfl, rfl, rfl, (List.append_nil _).symm⟩
  | cons node l ih =>
      obtain ⟨t, ht⟩ := hlive node List.mem_cons_self
      have hrest : ∀ id ∈ l, ∃ t, s.ticket id = some t :=
        fun id hid => hlive id (List.mem_cons_of_mem node hid)
      rw [waiter_wait.gather, ht]
      dsimp only
      cases htype : t.type with
      -- a ticket for nothing is passed over
      | null =>
          have hfds : fdsOf s (node :: l) = fdsOf s l := by simp [fdsOf, ht, htype]
          have hterm : termOf s (node :: l) term_time = termOf s l term_time := by
            simp [termOf, ht, htype]
          rw [hfds] at hroom ⊢
          rw [hterm]
          exact ih hrest hroom term_time
      -- a timeout takes no slot, and may end before those that were found
      | timeout =>
          have hfds : fdsOf s (node :: l) = fdsOf s l := by simp [fdsOf, ht, htype]
          have hterm : termOf s (node :: l) term_time =
              termOf s l (if t.due < term_time then t.due else term_time) := by
            simp [termOf, ht, htype]
          rw [hfds] at hroom ⊢
          rw [hterm]
          dsimp only
          by_cases hlt : t.due < term_time
          · rw [if_pos hlt, if_pos hlt]
            exact ih hrest hroom t.due
          · rw [if_neg hlt, if_neg hlt]
            exact ih hrest hroom term_time
      | fd =>
          have hfds : fdsOf s (node :: l) = t.filedes :: fdsOf s l := by simp [fdsOf, ht, htype]
          have hterm : termOf s (node :: l) term_time = termOf s l term_time := by
            simp [termOf, ht, htype]
          rw [hfds, List.length_cons] at hroom ⊢
          rw [hterm]
          have hlt : ps.nfds < ps.pfd.length := by omega
          -- a descriptor takes the next slot, which the room that is left has
          let ps₁ : Pollset := { ps with
            nfds := ps.nfds + 1, pfd := ps.pfd.set ps.nfds t.filedes }
          have hlen : ps₁.pfd.length = ps.pfd.length := List.length_set
          have hadd : pollset_add_fd ps t.filedes = some ps₁ := if_pos hlt
          have htake : ps₁.pfd.take ps₁.nfds = ps.pfd.take ps.nfds ++ [t.filedes] := by
            show (ps.pfd.set ps.nfds t.filedes).take (ps.nfds + 1) = _
            rw [List.take_add_one, List.getElem?_set_self hlt, List.take_set_of_le (Nat.le_refl _)]
            rfl
          have hroom₁ : ps₁.nfds + (fdsOf s l).length ≤ ps₁.pfd.length := by
            rw [hlen]
            show ps.nfds + 1 + _ ≤ _
            omega
          obtain ⟨ps', hgather, hnfds, hcause, hlen', htake'⟩ :=
            ih hrest hroom₁ term_time
          refine ⟨ps', ?_, ?_, hcause, hlen'.trans hlen, ?_⟩
          · dsimp only
            rw [hadd]
            exact hgather
          · rw [hnfds]
            show ps.nfds + 1 + _ = _
            omega
          · rw [htake', htake, List.append_assoc, List.singleton_append]

/-- What a poll leaves in the poll set says which descriptor is served. -/
theorem pollset_wait_served (poll : Poll) {ps : Pollset} {fds : List ℤ}
    (hnfds : ps.nfds = fds.length) (hfds : ps.pfd.take ps.nfds = fds) (ms : ℤ) :
    (pollset_wait poll ps ms).1 = (served poll fds ms).1 ∧
      ((served poll fds ms).1 ≤ 0 → (served poll fds ms).2 = none) ∧
      (0 < (served poll fds ms).1 → ∀ fd, pollset_cause_fd (pollset_wait poll ps ms).2 fd = true ↔
        (served poll fds ms).2 = some fd) := by
  rw [pollset_wait, served, hfds, hnfds]
  dsimp only
  obtain ⟨rc, revents⟩ := poll fds ms
  dsimp only
  by_cases hrc : rc ≤ 0
  · rw [if_pos hrc, if_pos hrc]
    exact ⟨rfl, fun _ => rfl, fun hpos => absurd hrc (not_le.mpr hpos)⟩
  · rw [if_neg hrc, if_neg hrc]
    cases hfind : (List.range fds.length).find? revents with
    | none =>
        refine ⟨rfl, fun _ => rfl, fun _ fd => ?_⟩
        simp [pollset_cause_fd]
    | some i =>
        have hi : i < fds.length := List.mem_range.mp (List.mem_of_find?_eq_some hfind)
        have hslot : ps.pfd[i]? = fds[i]? := by
          rw [← hfds, hnfds, List.getElem?_take_of_lt hi]
        refine ⟨rfl, fun hle => absurd hle hrc, fun _ fd => ?_⟩
        simp [pollset_cause_fd, hslot]

/-- The poll of a wait, and what it leaves. -/
theorem waiter_wait.poll_answer (poll : Poll) {ps : Pollset} {fds : List ℤ}
    (hnfds : ps.nfds = fds.length) (hfds : ps.pfd.take ps.nfds = fds) (term_time now : UInt64) :
    (waiter_wait.poll poll ps term_time now).1 = (answer poll fds term_time now).1 ∧
      ((answer poll fds term_time now).1 ≤ 0 → (answer poll fds term_time now).2 = none) ∧
      (0 < (answer poll fds term_time now).1 → ∀ fd,
        pollset_cause_fd (waiter_wait.poll poll ps term_time now).2 fd = true ↔
          (answer poll fds term_time now).2 = some fd) := by
  rw [waiter_wait.poll, answer]
  by_cases hnone : term_time = -1
  · rw [if_pos hnone, if_pos hnone]
    exact pollset_wait_served poll hnfds hfds (-1)
  · rw [if_neg hnone, if_neg hnone]
    by_cases hover : term_time ≤ now
    · rw [if_pos hover, if_pos hover]
      exact ⟨rfl, fun _ => rfl, fun hpos => absurd hpos (lt_irrefl 0)⟩
    · rw [if_neg hover, if_neg hover]
      exact pollset_wait_served poll hnfds hfds _

/-! ## The second loop

For callbacks that clear their own ticket and do nothing else, a round is a change of its ticket.
-/

/-- A state in the second loop of a wait: what the poll has left tells which descriptor is served. -/
def Tells (s : State) (p : ℕ) (rc : ℤ) (cause : Option ℤ) : Prop :=
  (rc = 0 → cause = none) ∧ (rc ≠ 0 → ∃ ps, s.block p = some ps ∧ ∀ fd,
    pollset_cause_fd ps fd = true ↔ cause = some fd)

section Round

variable {s : State} {p : ℕ} {rc : ℤ} {cause : Option ℤ} {later : UInt64} {id : ℕ} {t : WaiterTicket}
  {stack : List Frame} {q : Option ℕ}

theorem Tells.fresh (h : Tells s p rc cause) (t : WaiterTicket) :
    waiter_wait.fresh s p rc later t =
      some (t.hit cause later && !t.updated, t.restart later) := by
  rw [waiter_wait.fresh, WaiterTicket.hit, WaiterTicket.restart]
  cases htype : t.type with
  | null => rfl
  | timeout =>
      by_cases hdue : t.due ≤ later
      · simp [hdue]
      · simp [hdue]
  | fd =>
      by_cases hrc : rc = 0
      · simp [hrc, h.1 hrc]
      · obtain ⟨ps, hps, hcause⟩ := h.2 hrc
        have hcauses : pollset_cause_fd ps t.filedes = decide (cause = some t.filedes) :=
          Bool.eq_iff_iff.mpr ((hcause t.filedes).trans decide_eq_true_iff.symm)
        simp [hrc, hps, hcauses]

theorem WaiterTicket.restart_callback (t : WaiterTicket) :
    (t.restart later).callback = t.callback := by
  rw [WaiterTicket.restart]
  split <;> rfl

theorem WaiterTicket.restart_waiter (t : WaiterTicket) :
    (t.restart later).waiter = t.waiter := by
  rw [WaiterTicket.restart]
  split <;> rfl

/-- A ticket after the first lines of a round: its flag is set if there is something new for it. -/
def WaiterTicket.flagged (cause : Option ℤ) (now : UInt64) (t : WaiterTicket) : WaiterTicket :=
  if t.hit cause now && !t.updated then { t.restart now with updated := true } else t.restart now

theorem Tells.visit (h : Tells s p rc cause) (ht : s.ticket id = some t) :
    waiter_wait.visit s p rc later id =
      some (t.fires cause later, s.modify id (WaiterTicket.flagged cause later)) := by
  have hflagged : ∀ new, t.flagged cause later = new →
      s.modify id (fun _ => new) = s.modify id (WaiterTicket.flagged cause later) :=
    fun new hnew => (State.modify_congr ht hnew).symm
  rw [waiter_wait.visit, ht, Option.bind_eq_bind, Option.bind_some, h.fresh]
  simp only [Option.bind_eq_bind, Option.bind_some]
  by_cases hfresh : (t.hit cause later && !t.updated) = true
  · rw [if_pos hfresh, hflagged _ (if_pos hfresh), WaiterTicket.fires, hfresh, Bool.true_and,
      WaiterTicket.restart_callback]
  · rw [if_neg hfresh, hflagged _ (if_neg hfresh), WaiterTicket.fires,
      Bool.eq_false_iff.mpr hfresh]
    rfl

theorem Tells.go (h : Tells s p rc cause) (ht : s.ticket id = some t) (later : UInt64)
    (stack : List Frame) :
    step ⟨s, .check p rc later (some id) :: stack⟩ .go =
      some (if t.fires cause later then
        ⟨s.modify id (WaiterTicket.flagged cause later), .callback :: .next p rc later id :: stack⟩
      else ⟨s.modify id (WaiterTicket.flagged cause later), .next p rc later id :: stack⟩) := by
  rw [step, Machine.go]
  dsimp only
  rw [h.visit ht, Option.map_some]

/-- The callback clears its ticket. -/
theorem step_clear (ht : s.ticket id = some t) (hheld : t.waiter = true) (stack : List Frame) :
    step ⟨s, .callback :: stack⟩ (.call (.waiter_ticket_clear id)) =
      some ⟨s.modify id fun t => (waiter_ticket_clear t).2, .callback :: stack⟩ := by
  have hidle : Machine.idle ⟨s, .callback :: stack⟩ = true := rfl
  rw [step, if_pos hidle, Machine.call, State.write, ht, Option.any_some, if_pos hheld]
  rfl

theorem step_next (ht : s.ticket id = some t) (p : ℕ) (rc : ℤ) (later : UInt64)
    (stack : List Frame) :
    step ⟨s, .next p rc later id :: stack⟩ .go =
      some ⟨s, .check p rc later (s.heap id).next :: stack⟩ := by
  rw [step, Machine.go]
  dsimp only
  rw [ht]
  rfl

theorem WaiterTicket.settle_of_fires (hfires : t.fires cause later = true) :
    (waiter_ticket_clear (t.flagged cause later)).2 = t.settle cause later := by
  rw [WaiterTicket.fires, Bool.and_eq_true_iff] at hfires
  rw [WaiterTicket.flagged, WaiterTicket.settle, if_pos hfires.1, if_pos hfires.1, hfires.2]
  rfl

theorem WaiterTicket.settle_of_quiet (hfires : ¬ t.fires cause later = true) :
    t.flagged cause later = t.settle cause later := by
  rw [WaiterTicket.flagged, WaiterTicket.settle]
  by_cases hfresh : (t.hit cause later && !t.updated) = true
  · have hcb : t.callback = false := by
      rw [WaiterTicket.fires, hfresh, Bool.true_and] at hfires
      exact Bool.eq_false_iff.mpr hfires
    rw [if_pos hfresh, if_pos hfresh, hcb]
    rfl
  · rw [if_neg hfresh, if_neg hfresh]

theorem WaiterTicket.flagged_waiter (t : WaiterTicket) :
    (t.flagged cause later).waiter = t.waiter := by
  have hwaiter : (t.restart later).waiter = t.waiter := restart_waiter t
  rw [← hwaiter, WaiterTicket.flagged]
  split <;> rfl

/-- **A round** of the second loop leaves its ticket settled. -/
theorem run_round (h : Tells s p rc cause) (ht : s.ticket id = some t) (hheld : t.waiter = true) :
    run ⟨s, .check p rc later (some id) :: stack⟩ (round cause later s id) =
      some ⟨s.modify id (WaiterTicket.settle cause later),
        .check p rc later (s.heap id).next :: stack⟩ := by
  have hgo := h.go ht later stack
  have hflagged : (s.modify id (WaiterTicket.flagged cause later)).ticket id =
      some (t.flagged cause later) := by
    rw [State.modify_self, ht, Option.map_some]
  have hsettled : (s.modify id (WaiterTicket.settle cause later)).ticket id =
      some (t.settle cause later) := by
    rw [State.modify_self, ht, Option.map_some]
  rw [round, ht, Option.any_some]
  by_cases hfires : t.fires cause later = true
  · -- the callback runs, and clears what the round has set
    rw [if_pos hfires] at hgo ⊢
    have hclear := step_clear hflagged ((WaiterTicket.flagged_waiter t).trans hheld)
      (.next p rc later id :: stack)
    have hsettle : s.modify id (fun t => (waiter_ticket_clear (t.flagged cause later)).2) =
        s.modify id (WaiterTicket.settle cause later) :=
      State.modify_congr ht (WaiterTicket.settle_of_fires hfires)
    rw [State.modify_modify, hsettle] at hclear
    rw [run_cons hgo, run_cons hclear]
    exact (run_cons rfl _).trans (run_cons (step_next hsettled p rc later stack) _)
  · rw [if_neg hfires, State.modify_congr ht (WaiterTicket.settle_of_quiet hfires)] at hgo
    rw [if_neg hfires, run_cons hgo, run_cons (step_next hsettled p rc later stack)]
    rfl

/-- **The second loop**, from any of its tickets on. -/
theorem run_rounds {l : List ℕ} (hlinks : Segment s.heap q l none) (hnodup : l.Nodup)
    (hheld : ∀ id ∈ l, ∃ t, s.ticket id = some t ∧ t.waiter = true) (h : Tells s p rc cause) :
    run ⟨s, .check p rc later l.head? :: stack⟩ (l.flatMap (round cause later s) ++ [.go]) =
      some ⟨s.modifyAll l (WaiterTicket.settle cause later), stack⟩ := by
  induction l generalizing s q with
  | nil => exact run_cons rfl []
  | cons id l ih =>
      obtain ⟨hid, hnodup⟩ := List.nodup_cons.mp hnodup
      obtain ⟨t, ht, hwaiter⟩ := hheld id List.mem_cons_self
      have hother : ∀ x ∈ l, (s.modify id (WaiterTicket.settle cause later)).ticket x =
          s.ticket x := fun x hx => State.modify_of_ne fun heq => hid (heq ▸ hx)
      have hrounds : l.flatMap (round cause later s) =
          l.flatMap (round cause later (s.modify id (WaiterTicket.settle cause later))) := by
        refine List.flatMap_congr fun x hx => ?_
        rw [round, round, hother x hx]
      have hnext : (s.heap id).next = l.head? := by
        rw [hlinks.1, Option.or_none]
      rw [List.flatMap_cons, List.append_assoc, List.head?_cons, run_append,
        run_round h ht hwaiter, Option.bind_some, hnext, hrounds]
      refine ih hlinks.2 hnodup (fun x hx => ?_) h
      rw [hother x hx]
      exact hheld x (List.mem_cons_of_mem id hx)

end Round

/-! ## A wait

The two loops put together, from the call of `waiter_wait` to its return. -/

theorem fdsOf_length {s : State} {l : List ℕ} : (fdsOf s l).length = l.countP s.isFd := by
  rw [fdsOf, List.length_filterMap_eq_countP]
  refine List.countP_congr fun id _ => ?_
  rw [State.isFd]
  cases ht : s.ticket id with
  | none => rfl
  | some t =>
      by_cases htype : t.type = .fd
      · simp [htype]
      · simp [htype]

/-- The state with what a poll has left in a block. -/
def State.polled (s : State) (p : ℕ) (ps : Pollset) : State :=
  { s with block := Function.update s.block p (some ps) }

/-- A wait up to its second loop. -/
theorem run_first {s : State} {l : List ℕ} (hl : Linked s l) {p : ℕ} {ps : Pollset}
    (hp : s.w.pollset = some p) (hps : s.block p = some ps)
    (hroom : (fdsOf s l).length ≤ ps.pfd.length) (poll : Poll) (now later : UInt64)
    (stack : List Frame) :
    ∃ ps', ps'.pfd.length = ps.pfd.length ∧ run ⟨s, .start :: stack⟩ [.poll poll now later] =
        (let rc := (answer poll (fdsOf s l) (termOf s l (-1)) now).1
        if rc < 0 then some ⟨s.polled p ps', stack⟩
        else some ⟨s.polled p ps', .check p rc later s.w.tickets.head :: stack⟩) ∧
      (0 ≤ (answer poll (fdsOf s l) (termOf s l (-1)) now).1 →
        Tells (s.polled p ps') p (answer poll (fdsOf s l) (termOf s l (-1)) now).1
          (answer poll (fdsOf s l) (termOf s l (-1)) now).2) := by
  have hroom₀ : (pollset_reset ps).nfds + (fdsOf s l).length ≤ (pollset_reset ps).pfd.length := by
    rw [pollset_reset]
    simpa using hroom
  obtain ⟨ps₁, hgather, hnfds, -, hlength, htake⟩ :=
    waiter_wait.gather_eq (fun id hid => hl.ticket_of_mem hid) hroom₀ (-1)
  have hfds : ps₁.pfd.take ps₁.nfds = fdsOf s l := by
    rw [htake]
    rfl
  have hlen : ps₁.nfds = (fdsOf s l).length := by
    rw [hnfds, pollset_reset]
    exact Nat.zero_add _
  obtain ⟨hrc, hnone, hcause⟩ := waiter_wait.poll_answer poll hlen hfds (termOf s l (-1)) now
  have hfirst : waiter_wait.first s poll now =
      some (p, (answer poll (fdsOf s l) (termOf s l (-1)) now).1,
        s.polled p (waiter_wait.poll poll ps₁ (termOf s l (-1)) now).2) := by
    rw [waiter_wait.first, hp, Option.bind_eq_bind, Option.bind_some, hps]
    simp only [Option.bind_eq_bind, Option.bind_some, hl.walk_eq, hgather, hrc]
    rfl
  refine ⟨(waiter_wait.poll poll ps₁ (termOf s l (-1)) now).2, ?_, ?_, fun hle => ⟨?_, ?_⟩⟩
  · rw [waiter_wait.poll_pfd, hlength]
    rfl
  · have hstep : step ⟨s, .start :: stack⟩ (.poll poll now later) =
        (let rc := (answer poll (fdsOf s l) (termOf s l (-1)) now).1
        if rc < 0 then
          some ⟨s.polled p (waiter_wait.poll poll ps₁ (termOf s l (-1)) now).2, stack⟩
        else some ⟨s.polled p (waiter_wait.poll poll ps₁ (termOf s l (-1)) now).2,
          .check p rc later s.w.tickets.head :: stack⟩) := by
      rw [step]
      dsimp only
      rw [hfirst, Option.map_some]
      dsimp only
      split <;> rfl
    rw [← hstep, run, List.foldlM_cons]
    exact bind_pure _
  · exact fun hzero => hnone hzero.le
  · exact fun hne => ⟨_, Function.update_self .., hcause (lt_of_le_of_ne hle (Ne.symm hne))⟩

/-- What a wait does to the tickets of its list: nothing if the poll fails, and else the callbacks that
are due run in the order of the list, and every ticket is settled. -/
def Serves (m : Machine) (l : List ℕ) (poll : Poll) (now later : UInt64) : Prop :=
  let r := answer poll (fdsOf m.state l) (termOf m.state l (-1)) now
  (r.1 < 0 → ∃ s', run m [.call .waiter_wait, .poll poll now later] = some ⟨s', m.stack⟩ ∧
    s'.ticket = m.state.ticket) ∧
  (0 ≤ r.1 → ∃ s', run m (.call .waiter_wait :: .poll poll now later ::
      (l.flatMap (round r.2 later m.state) ++ [.go])) = some ⟨s', m.stack⟩ ∧
    ∀ id, s'.ticket id = (m.state.ticket id).map (WaiterTicket.settle r.2 later))

/-- **A wait serves one descriptor and all timeouts that are over.** After every run in which the
additions are careful and a ticket was added, a wait outside of callbacks goes through its list once. It runs
the callbacks of the tickets of the first descriptor found ready and of the timeouts that are over,
as far as their flags are not set, in the order of the list, and no others. -/
theorem wait_serves (before : List Event) (m : Machine) (hbefore : run boot before = some m)
    (hgranted : ∀ e ∈ before, e.Granted) (hcareful : Careful boot before) (hstack : m.stack = [])
    (hslots : slots m.state ≠ 0) (poll : Poll) (now later : UInt64) :
    ∃ l, walk m.state.heap m.state.made m.state.w.tickets.head = some l ∧
      Serves m l poll now later := by
  have hsound : Sound m.state (temps m.stack) :=
    Sound.run (m := boot) Sound.waiter_create hgranted hcareful hbefore
  obtain ⟨n, hn, hle⟩ := hsound.fds_le
  obtain ⟨l, hlisted, -⟩ := hsound
  obtain ⟨s, stack⟩ := m
  obtain rfl : stack = [] := hstack
  have hl : Linked s l := hlisted.toLinked
  have hcall : step ⟨s, []⟩ (.call .waiter_wait) = some ⟨s, [.start]⟩ := rfl
  obtain ⟨p, ps, hp, hps⟩ : ∃ p ps, s.w.pollset = some p ∧ s.block p = some ps := by
    unfold slots at hslots
    split at hslots
    · next ps hblock =>
      obtain ⟨p, hp, hps⟩ := Option.bind_eq_some_iff.mp hblock
      exact ⟨p, ps, hp, hps⟩
    · exact absurd rfl hslots
  -- the descriptors have slots, since no addition has stepped over the multiple
  have hroom : (fdsOf s l).length ≤ ps.pfd.length := by
    rw [fdTickets, hl.walk_eq, Option.map_some, Option.some.injEq] at hn
    rw [fdsOf_length, hn]
    have hslots' : slots s = ps.pfd.length := by simp [slots, hp, hps]
    exact hslots' ▸ hle
  obtain ⟨ps', -, hrun, htells⟩ := run_first hl hp hps hroom poll now later []
  refine ⟨l, hl.walk_eq, fun hneg => ?_, fun hpos => ?_⟩
  · dsimp only at hneg hrun
    rw [if_pos hneg] at hrun
    exact ⟨_, (run_cons hcall _).trans hrun, rfl⟩
  · dsimp only at hpos hrun
    rw [if_neg (not_lt.mpr hpos), hl.spells.head] at hrun
    have hheld : ∀ id ∈ l, ∃ t, s.ticket id = some t ∧ t.waiter = true := by
      intro id hid
      obtain ⟨t, ht⟩ := hl.ticket_of_mem hid
      exact ⟨t, ht, hlisted.held id t ht List.not_mem_nil⟩
    refine ⟨(s.polled p ps').modifyAll l
      (WaiterTicket.settle (answer poll (fdsOf s l) (termOf s l (-1)) now).2 later),
      (run_cons hcall _).trans ?_, fun id => ?_⟩
    -- the poll, and then a round for each ticket of the list
    · refine (run_append _ [.poll poll now later] _).trans ((congrArg (Option.bind · _) hrun).trans ?_)
      exact run_rounds (s := s.polled p ps') hl.spells.links hl.spells.nodup hheld (htells hpos)
    · by_cases hid : id ∈ l
      · exact State.modifyAll_of_mem hl.spells.nodup hid
      · have hgone : s.ticket id = none :=
          Option.not_isSome_iff_eq_none.mp fun hsome => hid ((hl.live id).mpr hsome)
        refine (State.modifyAll_of_notMem hid).trans ?_
        rw [hgone]
        exact hgone

/-- A waiter with a descriptor and a timeout. -/
def twoTickets : Machine :=
  (run boot [.call (.waiter_add_fd 3 ⟨true, true⟩), .call (.waiter_ticket_callback 0 true),
    .call (.waiter_add_timeout 1000 0 ⟨true, true⟩)]).getD boot

/-- The descriptor is ready and the timeout is over. -/
theorem wait_serves_two :
    ∃ l, walk twoTickets.state.heap twoTickets.state.made twoTickets.state.w.tickets.head = some l ∧
      Serves twoTickets l (fun _ _ => (1, fun _ => true)) 10 2000 :=
  wait_serves
    [.call (.waiter_add_fd 3 ⟨true, true⟩), .call (.waiter_ticket_callback 0 true),
      .call (.waiter_add_timeout 1000 0 ⟨true, true⟩)]
    twoTickets rfl (by decide) (by decide) rfl (by decide) _ _ _

end Dragonboard.Waiters
