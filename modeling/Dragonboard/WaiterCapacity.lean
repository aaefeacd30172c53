/-
The capacity of the poll set, over runs.

In a run where no addition steps over a multiple of 32, the file descriptor tickets of the list are
never more than the slots, whatever the callbacks do (`fdTickets_le_slots`), and no wait writes beyond
its block (`wait_polls`). An addition that steps over one takes the last slot, and from there the
program can go on to a wait that does not fit (`exceeds_of_skips`).
-/
import Dragonboard.WaiterRoom

set_option autoImplicit false

namespace Dragonboard.Waiters

/-! ## Runs

One lemma for each event, and the run lemma from them. -/

/-- What the allocations of an event give, if it adds a ticket. -/
def Event.alloc : Event → Option Alloc
  | .call (.waiter_add_null a) => some a
  | .call (.waiter_add_fd _ a) => some a
  | .call (.waiter_add_timeout _ _ a) => some a
  | _ => none

/-- All allocations succeed. -/
def Event.Granted (e : Event) : Prop := ∀ a ∈ e.alloc, a.ticket = true ∧ a.pollset = true

instance (e : Event) : Decidable e.Granted := inferInstanceAs (Decidable (∀ a ∈ e.alloc, _))

/-- No addition of a run steps over a multiple. -/
def Careful : Machine → List Event → Prop
  | _, [] => True
  | m, e :: events =>
    (e.alloc.isSome → ¬ Skips m) ∧ ∀ m' ∈ step m e, Careful m' events

instance Careful.decidable : (m : Machine) → (events : List Event) → Decidable (Careful m events)
  | _, [] => .isTrue trivial
  | m, e :: events =>
    have : ∀ m', Decidable (Careful m' events) := fun m' => Careful.decidable m' events
    inferInstanceAs (Decidable ((e.alloc.isSome → ¬ Skips m) ∧ ∀ m' ∈ step m e, Careful m' events))

/-- **A call of the program** keeps the room, unless it steps over the multiple. -/
theorem Sound.call {m m' : Machine} (h : Sound m.state (temps m.stack)) {c : Call}
    (hc : (Event.call c).Granted) (hskip : (Event.call c).alloc.isSome → ¬ Skips m)
    (hm' : m.call c = some m') : Sound m'.state (temps m'.stack) := by
  -- an addition is where room may be lost, and every other call only writes to tickets
  cases c with
  | waiter_add_null a =>
    obtain ⟨r, hr, rfl⟩ := Option.map_eq_some_iff.mp hm'
    exact (h.waiter_add_null (hskip rfl) (hc a rfl) hr).1
  | waiter_add_fd fd a =>
    obtain ⟨r, hr, rfl⟩ := Option.map_eq_some_iff.mp hm'
    exact h.waiter_add (hskip rfl) (hc a rfl) hr fun _ => rfl
  | waiter_add_timeout ms time_ms a =>
    obtain ⟨r, hr, rfl⟩ := Option.map_eq_some_iff.mp hm'
    exact h.waiter_add (hskip rfl) (hc a rfl) hr fun _ => rfl
  | waiter_ticket_set_null id =>
    obtain ⟨s, hs, rfl⟩ := Option.map_eq_some_iff.mp hm'
    exact h.write hs fun _ => rfl
  | waiter_ticket_set_fd id fd =>
    obtain ⟨s, hs, rfl⟩ := Option.map_eq_some_iff.mp hm'
    exact h.write hs fun _ => rfl
  | waiter_ticket_set_timeout id ms time_ms =>
    obtain ⟨s, hs, rfl⟩ := Option.map_eq_some_iff.mp hm'
    exact h.write hs fun _ => rfl
  | waiter_ticket_callback id cb_fn =>
    obtain ⟨s, hs, rfl⟩ := Option.map_eq_some_iff.mp hm'
    exact h.write hs fun _ => rfl
  | waiter_ticket_clear id =>
    obtain ⟨s, hs, rfl⟩ := Option.map_eq_some_iff.mp hm'
    exact h.write hs fun _ => rfl
  | waiter_ticket_delete id =>
    obtain ⟨s, hs, rfl⟩ := Option.map_eq_some_iff.mp hm'
    exact h.waiter_ticket_delete hs
  | waiter_synchronize =>
    obtain ⟨s, hs, rfl⟩ := Option.map_eq_some_iff.mp hm'
    exact h.waiter_synchronize hs
  | waiter_wait =>
    cases hm'
    exact h
  | waiter_wait_timeout ms time_ms =>
    obtain ⟨s, hs, rfl⟩ := Option.map_eq_some_iff.mp hm'
    exact h.enter hs

/-- The innermost call goes on, and adds nothing. -/
theorem Sound.go {m m' : Machine} (h : Sound m.state (temps m.stack)) (hm' : m.go = some m') :
    Sound m'.state (temps m'.stack) := by
  obtain ⟨s, stack⟩ := m
  cases stack with
  | nil => cases hm'
  | cons frame stack =>
    cases frame with
    | start => cases hm'
    | callback => cases hm'
    | check ps rc now node =>
      cases node with
      | none =>
        cases hm'
        exact h
      | some node =>
        obtain ⟨r, hr, rfl⟩ := Option.map_eq_some_iff.mp hm'
        have hvisit : Sound r.2 (temps stack) := h.visit hr
        split
        · exact hvisit
        · exact hvisit
    | next ps rc now node =>
      simp only [Machine.go] at hm'
      split at hm'
      · cases hm'
        exact h
      · cases hm'
    | timeout id =>
      obtain ⟨r, hr, rfl⟩ := Option.map_eq_some_iff.mp hm'
      exact Sound.leave h hr

theorem Sound.ret {m m' : Machine} (h : Sound m.state (temps m.stack)) (hm' : step m .ret = some m') :
    Sound m'.state (temps m'.stack) := by
  rw [step] at hm'
  split at hm'
  · rename_i stack heq
    cases hm'
    -- a callback has no ticket in the count
    rwa [heq] at h
  · cases hm'

theorem Sound.poll {m m' : Machine} (h : Sound m.state (temps m.stack)) {poll : Poll}
    {now later : UInt64} (hm' : step m (.poll poll now later) = some m') :
    Sound m'.state (temps m'.stack) := by
  rw [step] at hm'
  split at hm'
  · rename_i stack heq
    obtain ⟨⟨ps, rc, s⟩, hr, rfl⟩ := Option.map_eq_some_iff.mp hm'
    rw [heq] at h
    have hfirst : Sound s (temps stack) := h.first hr
    dsimp only
    split
    · exact hfirst
    · exact hfirst
  · cases hm'

/-- **A step** keeps the room, unless it steps over the multiple. -/
theorem Sound.step {m m' : Machine} (h : Sound m.state (temps m.stack)) {e : Event}
    (he : e.Granted) (hskip : e.alloc.isSome → ¬ Skips m) (hm' : step m e = some m') :
    Sound m'.state (temps m'.stack) := by
  cases e with
  | call c =>
    rw [Waiters.step] at hm'
    split at hm'
    · exact h.call he hskip hm'
    · cases hm'
  | ret => exact h.ret hm'
  | poll poll now later => exact h.poll hm'
  | go => exact h.go hm'

/-- **A run** keeps the room, if no addition steps over a multiple. -/
theorem Sound.run {m m' : Machine} {events : List Event} (h : Sound m.state (temps m.stack))
    (hgranted : ∀ e ∈ events, e.Granted) (hcareful : Careful m events)
    (hm' : run m events = some m') : Sound m'.state (temps m'.stack) := by
  induction events generalizing m with
  | nil =>
    cases hm'
    exact h
  | cons e events ih =>
    rw [Waiters.run, List.foldlM_cons] at hm'
    obtain ⟨m1, hm1, hm'⟩ := Option.bind_eq_some_iff.mp hm'
    obtain ⟨hskip, hrest⟩ := hcareful
    have h1 : Sound m1.state (temps m1.stack) :=
      h.step (hgranted e List.mem_cons_self) hskip hm1
    refine ih h1 ?_ (hrest m1 hm1) hm'
    intro e' he'
    exact hgranted e' (List.mem_cons_of_mem e he')

/-! ## What an addition that steps over costs

`waiter_wait_timeout` counts its own ticket while it waits. An addition in a callback at that
moment may step over the multiple at which the poll set would have grown. -/

/-- `waiter_add_null`, where it does not replace the poll set. -/
theorem Listed.step_add {m : Machine} {l : List ℕ} (hl : Listed m.state (temps m.stack) l)
    (hidle : m.idle = true) (hmod : m.state.w.count % 32 ≠ 0)
    (hmax : m.state.w.count < 2147483647) :
    ∃ s, step m (.call (.waiter_add_null ⟨true, true⟩)) = some ⟨s, m.stack⟩ ∧
      Listed s (temps m.stack) (l ++ [m.state.made]) ∧ s.w.count = m.state.w.count + 1 ∧
      slots s = slots m.state := by
  let s1 := m.state.append { waiter := true }
  have hl1 : Listed s1 (temps m.stack) (l ++ [m.state.made]) := hl.append rfl
  let s2 : State := { s1 with w := { s1.w with count := s1.w.count + 1 } }
  have hl2 : Listed s2 (temps m.stack) (l ++ [m.state.made]) := hl1.of_eq rfl rfl rfl rfl
  have hmod1 : s1.w.count % 32 ≠ 0 := hmod
  have hmax1 : s1.w.count < 2147483647 := hmax
  have hadd : waiter_add_null m.state ⟨true, true⟩ =
      some (some m.state.made, s2.modify m.state.made waiter_ticket_set_null) := by
    rw [Waiters.waiter_add_null, if_pos rfl]
    dsimp only
    rw [if_neg hmod1, waiter_add_null.finish, State.countUp, if_pos hmax1]
    rfl
  refine ⟨s2.modify m.state.made waiter_ticket_set_null, ?_, hl2.modify _ _ ?_, rfl, rfl⟩
  · rw [step, if_pos hidle, Machine.call, hadd]
    rfl
  · exact fun ticket _ => ⟨rfl, fun hmem => absurd hmem hl.made_notMem_temps⟩

/-- Some tickets become file descriptors, and no ticket ceases to be one. -/
theorem Listed.set_fds {m : Machine} {l : List ℕ} (hl : Listed m.state (temps m.stack) l)
    (hidle : m.idle = true) (ids : List ℕ) (hids : ∀ id ∈ ids, id ∈ l ∧ id ∉ temps m.stack) :
    ∃ s, run m (ids.map fun id => .call (.waiter_ticket_set_fd id 0)) = some ⟨s, m.stack⟩ ∧
      Listed s (temps m.stack) l ∧ slots s = slots m.state ∧
      ∀ id, id ∈ ids ∨ m.state.isFd id = true → s.isFd id = true := by
  induction ids generalizing m with
  | nil => exact ⟨m.state, rfl, hl, rfl, fun id hfd => by simpa using hfd⟩
  | cons id ids ih =>
    obtain ⟨hid, hown⟩ := hids id List.mem_cons_self
    obtain ⟨ticket, hticket⟩ := hl.ticket_of_mem hid
    have hheld : ticket.waiter = true := hl.held id ticket hticket hown
    let s1 := m.state.modify id (waiter_ticket_set_fd 0)
    have hl1 : Listed s1 (temps m.stack) l := by
      refine hl.modify id _ ?_
      exact fun _ _ => ⟨rfl, fun hmem => absurd hmem hown⟩
    have hstep : step m (.call (.waiter_ticket_set_fd id 0)) = some ⟨s1, m.stack⟩ := by
      rw [step, if_pos hidle, Machine.call, State.write, hticket, Option.any_some, if_pos hheld]
      rfl
    obtain ⟨s, hrun, hs, hslots, hfds⟩ :=
      ih (m := ⟨s1, m.stack⟩) hl1 hidle fun x hx => hids x (List.mem_cons_of_mem id hx)
    refine ⟨s, ?_, hs, hslots, ?_⟩
    · rw [List.map_cons, run_cons hstep]
      exact hrun
    · intro x hfd
      refine hfds x ?_
      by_cases hxid : x = id
      · right
        rw [hxid, State.isFd, State.modify_self, hticket]
        rfl
      · rw [State.isFd, State.modify_of_ne hxid, ← State.isFd]
        simpa [hxid] using hfd

/-- An addition that steps over the multiple takes the last slot: the program can go on to a wait with
more descriptors than slots. (Inside 31 waits the next addition is at the next multiple.) -/
theorem exceeds_of_skips {m : Machine} (h : Sound m.state (temps m.stack)) (hidle : m.idle = true)
    (hskip : Skips m) (hdepth : (temps m.stack).length % 32 ≠ 31)
    (hmax : m.state.w.count + 2 ≤ 2147483647) :
    ∃ events s n, run m (.call (.waiter_add_null ⟨true, true⟩) :: events) =
        some ⟨s, .start :: m.stack⟩ ∧
      (∀ e ∈ events, e.Granted) ∧ fdTickets s = some n ∧ slots s < n := by
  obtain ⟨l, hl, hcount, hroom⟩ := h
  obtain ⟨-, hmod, hfull⟩ := hskip
  -- two tickets more, for which the poll set is not replaced
  obtain ⟨s1, hstep1, hl1, hcount1, hslots1⟩ := hl.step_add hidle hmod (by omega)
  have hmod1 : s1.w.count % 32 ≠ 0 := by
    unfold Room at hroom
    omega
  obtain ⟨s2, hstep2, hl2, hcount2, hslots2⟩ :=
    Listed.step_add (m := ⟨s1, m.stack⟩) hl1 hidle hmod1 (by rw [hcount1]; omega)
  -- and all that are not temporary become descriptors
  let ids := (l ++ [m.state.made] ++ [s1.made]).filter fun id => id ∉ temps m.stack
  obtain ⟨s3, hset, hl3, hslots3, hfds⟩ := Listed.set_fds (m := ⟨s2, m.stack⟩) hl2 hidle ids
    (fun id hid => by simpa only [ids, List.mem_filter, decide_eq_true_eq] using hid)
  obtain ⟨n, hn, hle⟩ := hl3.le_fds fun id hid hown =>
    hfds id (.inl (List.mem_filter.mpr ⟨hid, by simpa using hown⟩))
  have hidle3 : Machine.idle ⟨s3, m.stack⟩ = true := hidle
  have hwait : step ⟨s3, m.stack⟩ (.call .waiter_wait) = some ⟨s3, .start :: m.stack⟩ := by
    rw [step, if_pos hidle3]
    rfl
  let sets : List Event := ids.map fun id => .call (.waiter_ticket_set_fd id 0)
  let events : List Event :=
    .call (.waiter_add_null ⟨true, true⟩) :: (sets ++ [.call .waiter_wait])
  refine ⟨events, s3, n, ?_, ?_, hn, ?_⟩
  · rw [run_cons hstep1, run_cons hstep2, run_append, hset, Option.bind_some, run_cons hwait]
    rfl
  · intro e he a ha
    simp only [events, sets, List.mem_cons, List.mem_append, List.mem_map, List.not_mem_nil,
      or_false] at he
    rcases he with rfl | ⟨id, -, rfl⟩ | rfl
    · cases ha
      exact ⟨rfl, rfl⟩
    · cases ha
    · cases ha
  · simp only [List.length_append, List.length_singleton] at hle
    have hslots : slots s3 = slots m.state := hslots3.trans (hslots2.trans hslots1)
    omega

/-! ## The descriptors and the slots

With room kept along the run, the descriptors of every wait have a slot. -/

/-- No wait of such a run writes beyond its block: each gets to its poll, if it has a poll set. -/
theorem wait_polls {events : List Event} {m : Machine} (hrun : run boot events = some m)
    (hgranted : ∀ e ∈ events, e.Granted) (hcareful : Careful boot events) {stack : List Frame}
    (hstart : m.stack = .start :: stack) (hslots : slots m.state ≠ 0) (poll : Poll)
    (now later : UInt64) : (step m (.poll poll now later)).isSome = true := by
  have hsound := Sound.run Sound.waiter_create hgranted hcareful hrun
  rw [step, hstart]
  dsimp only
  rw [Option.isSome_map]
  exact hsound.first_isSome hslots poll now

/-- **The descriptors fit**: in a run where the allocations succeed and no addition steps over a
multiple, the file descriptor tickets of the list are never more than the slots. -/
theorem fdTickets_le_slots (events : List Event) (m : Machine) (hrun : run boot events = some m)
    (hgranted : ∀ e ∈ events, e.Granted) (hcareful : Careful boot events) :
    ∃ n, fdTickets m.state = some n ∧ n ≤ slots m.state :=
  (Sound.run Sound.waiter_create hgranted hcareful hrun).fds_le

/-- A callback of a `waiter_wait_timeout` adds a ticket where there is room. -/
def roomy : List Event :=
  [.call (.waiter_add_fd 3 ⟨true, true⟩), .call (.waiter_ticket_callback 0 true),
    .call (.waiter_wait_timeout 100 0), .poll (fun _ _ => (1, fun slot => slot = 0)) 5 5, .go,
    .call (.waiter_add_fd 4 ⟨true, true⟩), .ret]

theorem fdTickets_le_slots_roomy :
    ∃ m, run boot roomy = some m ∧ ∃ n, fdTickets m.state = some n ∧ n ≤ slots m.state := by
  obtain ⟨m, hm⟩ : ∃ m, run boot roomy = some m :=
    Option.isSome_iff_exists.mp (by decide +kernel)
  exact ⟨m, hm, fdTickets_le_slots roomy m hm (by decide +kernel) (by decide +kernel)⟩

/-- There are 32 descriptors. The callback of the first adds one in a `waiter_wait_timeout`, and the
program adds one more after it. -/
def overrun : List Event :=
  let ok : Alloc := ⟨true, true⟩
  let adds : List Event := (List.range 32).map fun i => .call (.waiter_add_fd (3 + (i : ℤ)) ok)
  let wait : List Event :=
    [.call (.waiter_ticket_callback 0 true), .call (.waiter_wait_timeout 100 0),
      .poll (fun _ _ => (1, fun slot => slot = 0)) 5 5, .go, .call (.waiter_add_fd 35 ok), .ret]
  let more : List Event := [.call (.waiter_add_fd 36 ok), .call .waiter_wait]
  adds ++ wait ++ List.replicate 69 .go ++ more

theorem fdTickets_gt_slots :
    ∃ m, (∀ e ∈ overrun, e.Granted) ∧ run boot overrun = some m ∧ m.stack = [.start] ∧
      fdTickets m.state = some 34 ∧ slots m.state = 33 := by
  have hgranted : ∀ e ∈ overrun, e.Granted := by decide +kernel
  have hend : (run boot overrun).map (fun m => (m.stack, fdTickets m.state, slots m.state)) =
      some ([.start], some 34, 33) := by decide +kernel
  obtain ⟨m, hm, heq⟩ := Option.map_eq_some_iff.mp hend
  simp only [Prod.mk.injEq] at heq
  exact ⟨m, hgranted, hm, heq.1, heq.2.1, heq.2.2⟩

end Dragonboard.Waiters
