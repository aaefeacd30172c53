/-
`qcom/qrtr/src/waiter.c`: waiting for descriptors and for timeouts.

A waiter has a list of tickets, and a block of `struct pollfd` that `waiter_wait` fills with the
descriptors of the list. The callback of a ticket runs inside the `waiter_wait` that finds the ticket
fresh. It may call everything again, a second wait too, and so the calls that are in progress are
a stack (`Frame`). What the code does from one callback to the next is taken step by step.

Tickets and blocks have the turns of their allocations as names. A run ends where the code follows a
null pointer or a pointer to what was freed, writes beyond its block or overflows an `int`. Nothing
comes after `waiter_destroy`, which is left out.
-/
import Mathlib.Data.Int.Notation
import Dragonboard.LinkedList

set_option autoImplicit false

namespace Dragonboard.Waiters

open Dragonboard.LinkedList

/-! ## Poll sets

A poll set has a block of memory for a number of `struct pollfd`. Adding a descriptor beyond the
block is a step that C does not define. -/

/-- `struct pollset`, and the `fd` of each `struct pollfd` of its block. -/
structure Pollset where
  nfds : ℕ
  cause : ℤ
  pfd : List ℤ

/-- What `poll` answers for some descriptors and a time to wait: what it returns, and the slots where
it has set `POLLERR` or `POLLIN`. -/
abbrev Poll := List ℤ → ℤ → ℤ × (ℕ → Bool)

/-- `pollset_create`, when there is memory. -/
def pollset_create (count : ℤ) : Pollset := ⟨0, 0, List.replicate count.toNat 0⟩

/-- `pollset_reset`. -/
def pollset_reset (ps : Pollset) : Pollset := { ps with nfds := 0 }

/-- `pollset_add_fd`, or nothing if it writes beyond the block. -/
def pollset_add_fd (ps : Pollset) (fd : ℤ) : Option Pollset :=
  if ps.nfds < ps.pfd.length then
    some { ps with nfds := ps.nfds + 1, pfd := ps.pfd.set ps.nfds fd }
  else none

/-- `pollset_wait`. -/
def pollset_wait (poll : Poll) (ps : Pollset) (ms : ℤ) : ℤ × Pollset :=
  let (rc, revents) := poll (ps.pfd.take ps.nfds) ms
  if rc ≤ 0 then (rc, ps)
  else
    match (List.range ps.nfds).find? revents with
    | some i => (rc, { ps with cause := i })
    | none => (rc, { ps with cause := -1 })

/-- `pollset_cause_fd`. -/
def pollset_cause_fd (ps : Pollset) (fd : ℤ) : Bool :=
  decide (0 ≤ ps.cause ∧ ps.pfd[ps.cause.toNat]? = some fd)

/-! ## Tickets

A ticket is for nothing yet, for a descriptor or for a timeout. Its flag `updated` is set by a
wait and cleared by the program. -/

/-- `enum waiter_type`. -/
inductive WaiterType
  | null
  | fd
  | timeout
deriving DecidableEq, Repr

/-- `struct waiter_ticket`, as `calloc` and `memset` leave it. A ticket's type says which member of the
union was set last. Of `callback` and `waiter` it is kept whether they are set. -/
structure WaiterTicket where
  type : WaiterType := .null
  filedes : ℤ := 0
  interval : UInt32 := 0
  callback : Bool := false
  start : UInt64 := 0
  updated : Bool := false
  waiter : Bool := false

/-- `waiter_ticket_set_null`. -/
def waiter_ticket_set_null (ticket : WaiterTicket) : WaiterTicket := { ticket with type := .null }

/-- `waiter_ticket_set_fd`. -/
def waiter_ticket_set_fd (fd : ℤ) (ticket : WaiterTicket) : WaiterTicket :=
  { ticket with type := .fd, filedes := fd }

/-- `waiter_ticket_set_timeout`, at the time `time_ms` gives. -/
def waiter_ticket_set_timeout (ms : UInt32) (time_ms : UInt64) (ticket : WaiterTicket) :
    WaiterTicket :=
  { ticket with type := .timeout, interval := ms, start := time_ms }

/-- `waiter_ticket_callback`. -/
def waiter_ticket_callback (cb_fn : Bool) (ticket : WaiterTicket) : WaiterTicket :=
  { ticket with callback := cb_fn }

/-- `waiter_ticket_check`. -/
def waiter_ticket_check (ticket : WaiterTicket) : ℤ := if ticket.updated then 0 else -1

/-- `waiter_ticket_clear`. -/
def waiter_ticket_clear (ticket : WaiterTicket) : ℤ × WaiterTicket :=
  (waiter_ticket_check ticket, { ticket with updated := false })

/-- When a timeout is over. -/
def WaiterTicket.due (ticket : WaiterTicket) : UInt64 := ticket.start + ticket.interval.toUInt64

/-! ## Waiters

Tickets are in memory under an address and in the list of the waiter. `waiter_add_null` makes the
poll set larger at each multiple of a number of tickets. -/

/-- `struct waiter`. -/
structure Waiter where
  tickets : ListHead
  pollset : Option ℕ
  count : ℤ

/-- A waiter and the memory. -/
structure State where
  w : Waiter
  heap : Heap
  ticket : ℕ → Option WaiterTicket
  block : ℕ → Option Pollset
  made : ℕ
  blocks : ℕ

/-- `waiter_create`, when there is memory. -/
def waiter_create : State where
  w := ⟨list_init, none, 0⟩
  heap := fun _ => ⟨none, none⟩
  ticket := fun _ => none
  block := fun _ => none
  made := 0
  blocks := 0

/-- `w->count++`, or nothing if it overflows. -/
def State.countUp (s : State) : Option State :=
  if s.w.count < 2147483647 then some { s with w := { s.w with count := s.w.count + 1 } } else none

/-- A ticket comes into being, at the end of the list. -/
def State.append (s : State) (ticket : WaiterTicket) : State :=
  let (heap, tickets) := list_append s.heap s.w.tickets s.made
  { s with
    w := { s.w with tickets := tickets }
    heap := heap
    ticket := Function.update s.ticket s.made (some ticket)
    made := s.made + 1 }

/-- A ticket leaves the list and the count, and its memory is gone. -/
def State.remove (s : State) (id : ℕ) : Option State :=
  match list_remove s.heap s.w.tickets id with
  | none => none
  | some (heap, tickets) =>
    some { s with
      w := { s.w with tickets := tickets, count := s.w.count - 1 }
      heap := heap
      ticket := Function.update s.ticket id none }

/-- A ticket is written to. -/
def State.modify (s : State) (id : ℕ) (f : WaiterTicket → WaiterTicket) : State :=
  { s with ticket := Function.update s.ticket id ((s.ticket id).map f) }

section State

variable {s s' : State} {id x : ℕ} {ticket : WaiterTicket} {f : WaiterTicket → WaiterTicket}

theorem State.countUp_eq_some (h : s.countUp = some s') :
    s' = { s with w := { s.w with count := s.w.count + 1 } } := by
  rw [State.countUp] at h
  split at h
  · exact (Option.some.inj h).symm
  · cases h

@[simp] theorem State.append_made : (s.append ticket).made = s.made + 1 := rfl

@[simp] theorem State.append_count : (s.append ticket).w.count = s.w.count := rfl

@[simp] theorem State.append_self : (s.append ticket).ticket s.made = some ticket :=
  Function.update_self ..

theorem State.append_of_ne (h : x ≠ s.made) : (s.append ticket).ticket x = s.ticket x :=
  Function.update_of_ne h ..

/-- What a removal does. -/
theorem State.remove_eq_some (h : s.remove id = some s') :
    list_remove s.heap s.w.tickets id = some (s'.heap, s'.w.tickets) ∧
      s'.ticket = Function.update s.ticket id none ∧ s'.made = s.made ∧
      s'.w.count = s.w.count - 1 ∧ s'.w.pollset = s.w.pollset ∧ s'.block = s.block := by
  rw [State.remove] at h
  split at h
  · cases h
  · rename_i heap tickets hremove
    cases h
    exact ⟨hremove, rfl, rfl, rfl, rfl, rfl⟩

theorem State.modify_self : (s.modify id f).ticket id = (s.ticket id).map f :=
  Function.update_self ..

theorem State.modify_of_ne (h : x ≠ id) : (s.modify id f).ticket x = s.ticket x :=
  Function.update_of_ne h ..

end State

/-- What the two allocations of `waiter_add_null` give. -/
structure Alloc where
  ticket : Bool
  pollset : Bool

/-- The part of `waiter_add_null` that replaces the poll set. -/
def waiter_add_null.regrow (s : State) (ok : Bool) : Option State :=
  let block :=
    match s.w.pollset with
    | some p => Function.update s.block p none
    | none => s.block
  if 2147483647 < s.w.count + 33 then none
  else if ok then
    some { s with
      w := { s.w with pollset := some s.blocks }
      block := Function.update block s.blocks (some (pollset_create (s.w.count + 33)))
      blocks := s.blocks + 1 }
  else some { s with w := { s.w with pollset := none }, block := block }

/-- The last lines of `waiter_add_null`. -/
def waiter_add_null.finish (s : State) (id : ℕ) : Option (Option ℕ × State) :=
  s.countUp.map fun s => (some id, s.modify id waiter_ticket_set_null)

/-- `waiter_add_null`. A ticket that gets no poll set stays in the list, and is not counted. -/
def waiter_add_null (s : State) (a : Alloc) : Option (Option ℕ × State) :=
  if a.ticket then
    let id := s.made
    let s := s.append { waiter := true }
    if s.w.count % 32 = 0 then
      match waiter_add_null.regrow s a.pollset with
      | none => none
      | some s => if s.w.pollset = none then some (none, s) else waiter_add_null.finish s id
    else waiter_add_null.finish s id
  else some (none, s)

/-- A ticket is added and set. -/
def waiter_add (f : WaiterTicket → WaiterTicket) (s : State) (a : Alloc) :
    Option (Option ℕ × State) :=
  match waiter_add_null s a with
  | none => none
  | some (none, s) => some (none, s)
  | some (some id, s) => some (some id, s.modify id f)

/-- `waiter_add_fd`. -/
def waiter_add_fd (s : State) (fd : ℤ) (a : Alloc) : Option (Option ℕ × State) :=
  waiter_add (waiter_ticket_set_fd fd) s a

/-- `waiter_add_timeout`. -/
def waiter_add_timeout (s : State) (ms : UInt32) (time_ms : UInt64) (a : Alloc) :
    Option (Option ℕ × State) :=
  waiter_add (waiter_ticket_set_timeout ms time_ms) s a

/-- `waiter_ticket_delete`, or nothing if the ticket has no waiter. -/
def waiter_ticket_delete (s : State) (id : ℕ) : Option State :=
  match s.ticket id with
  | none => none
  | some ticket => if ticket.waiter then s.remove id else none

/-- The loop of `waiter_synchronize`: a timeout's start goes to the next timeout of its interval. -/
def waiter_synchronize.loop (s : State) : List ℕ → Option State
  | [] => some s
  | node :: rest =>
    match s.ticket node with
    | none => none
    | some ticket =>
      let same := fun onode =>
        (s.ticket onode).any fun oticket =>
          decide (oticket.type = .timeout ∧ oticket.interval = ticket.interval)
      if ticket.type = .timeout then
        match rest.find? same with
        | some onode =>
          waiter_synchronize.loop (s.modify onode fun t => { t with start := ticket.start }) rest
        | none => waiter_synchronize.loop s rest
      else waiter_synchronize.loop s rest

/-- `waiter_synchronize`. -/
def waiter_synchronize (s : State) : Option State :=
  (walk s.heap s.made s.w.tickets.head).bind (waiter_synchronize.loop s)

/-! ## Waiting

A wait polls between its two loops over the tickets. The second loop runs callbacks, which may
call the waiter again, so it is split at each callback. -/

/-- The first loop of `waiter_wait`: the descriptors, and the earliest end of a timeout. -/
def waiter_wait.gather (s : State) : List ℕ → Pollset → UInt64 → Option (Pollset × UInt64)
  | [], ps, term_time => some (ps, term_time)
  | node :: rest, ps, term_time =>
    match s.ticket node with
    | none => none
    | some ticket =>
      match ticket.type with
      | .timeout =>
        if ticket.due < term_time then waiter_wait.gather s rest ps ticket.due
        else waiter_wait.gather s rest ps term_time
      | .fd =>
        match pollset_add_fd ps ticket.filedes with
        | none => none
        | some ps => waiter_wait.gather s rest ps term_time
      | .null => waiter_wait.gather s rest ps term_time

/-- The poll of `waiter_wait`. -/
def waiter_wait.poll (poll : Poll) (ps : Pollset) (term_time now : UInt64) : ℤ × Pollset :=
  if term_time = -1 then pollset_wait poll ps (-1)
  else if term_time ≤ now then (0, ps)
  else
    let delta := (term_time - now).toNat
    pollset_wait poll ps (if 2147483647 < delta then 2147483647 else delta)

/-- `waiter_wait` up to what the poll returns, with the poll set it has used. -/
def waiter_wait.first (s : State) (poll : Poll) (now : UInt64) : Option (ℕ × ℤ × State) := do
  let p ← s.w.pollset
  let ps ← s.block p
  let nodes ← walk s.heap s.made s.w.tickets.head
  let (ps, term_time) ← waiter_wait.gather s nodes (pollset_reset ps) (-1)
  let r := waiter_wait.poll poll ps term_time now
  some (p, r.1, { s with block := Function.update s.block p (some r.2) })

/-- Whether a ticket is fresh in the second loop of `waiter_wait`. A timeout that is over starts again. -/
def waiter_wait.fresh (s : State) (ps : ℕ) (rc : ℤ) (now : UInt64) (ticket : WaiterTicket) :
    Option (Bool × WaiterTicket) :=
  match ticket.type with
  | .timeout =>
    if ticket.due ≤ now then some (!ticket.updated, { ticket with start := now })
    else some (false, ticket)
  | .fd =>
    if rc = 0 then some (false, ticket)
    else
      (s.block ps).map fun ps => (pollset_cause_fd ps ticket.filedes && !ticket.updated, ticket)
  | .null => some (false, ticket)

/-- A round of the second loop of `waiter_wait`, up to the callback, and whether there is one. -/
def waiter_wait.visit (s : State) (ps : ℕ) (rc : ℤ) (now : UInt64) (node : ℕ) :
    Option (Bool × State) := do
  let ticket ← s.ticket node
  let (fresh, ticket) ← waiter_wait.fresh s ps rc now ticket
  if fresh then
    some (ticket.callback, s.modify node fun _ => { ticket with updated := true })
  else some (false, s.modify node fun _ => ticket)

/-- `waiter_wait_timeout` before the wait. Its ticket has no waiter. -/
def waiter_wait_timeout.enter (s : State) (ms : UInt32) (time_ms : UInt64) : Option State :=
  (s.append (waiter_ticket_set_timeout ms time_ms {})).countUp

/-- `waiter_wait_timeout` after the wait, with what it returns. -/
def waiter_wait_timeout.leave (s : State) (id : ℕ) : Option (ℤ × State) := do
  let ticket ← s.ticket id
  let rc := waiter_ticket_check ticket
  let s ← s.remove id
  some (if rc = 0 then -1 else 0, s)

/-! ## Programs

A run of a program is a sequence of events, with the calls in progress on a stack. -/

/-- A call that is in progress: a `waiter_wait` that has just been called, one that comes to a
node of its second loop, one that leaves a node, a callback, and a `waiter_wait_timeout` with its
ticket. -/
inductive Frame
  | start
  | check (ps : ℕ) (rc : ℤ) (now : UInt64) (node : Option ℕ)
  | next (ps : ℕ) (rc : ℤ) (now : UInt64) (node : ℕ)
  | callback
  | timeout (id : ℕ)
deriving DecidableEq

/-- A waiter, and the calls in progress from the innermost out. -/
structure Machine where
  state : State
  stack : List Frame

/-- What a program calls, outside of all waits or in a callback. -/
inductive Call
  | waiter_add_null (a : Alloc)
  | waiter_add_fd (fd : ℤ) (a : Alloc)
  | waiter_add_timeout (ms : UInt32) (time_ms : UInt64) (a : Alloc)
  | waiter_ticket_set_null (id : ℕ)
  | waiter_ticket_set_fd (id : ℕ) (fd : ℤ)
  | waiter_ticket_set_timeout (id : ℕ) (ms : UInt32) (time_ms : UInt64)
  | waiter_ticket_callback (id : ℕ) (cb_fn : Bool)
  | waiter_ticket_clear (id : ℕ)
  | waiter_ticket_delete (id : ℕ)
  | waiter_synchronize
  | waiter_wait
  | waiter_wait_timeout (ms : UInt32) (time_ms : UInt64)

/-- What happens next: the program calls, a callback returns, the wait that was called polls, with
the two times it reads, or the innermost call goes on. -/
inductive Event
  | call (c : Call)
  | ret
  | poll (poll : Poll) (now later : UInt64)
  | go

/-- A program writes to a ticket that it holds. It holds no ticket of a `waiter_wait_timeout`. -/
def State.write (s : State) (id : ℕ) (f : WaiterTicket → WaiterTicket) : Option State :=
  if (s.ticket id).any WaiterTicket.waiter then some (s.modify id f) else none

/-- A call of the program. -/
def Machine.call (m : Machine) : Call → Option Machine
  | .waiter_add_null a => (waiter_add_null m.state a).map fun r => { m with state := r.2 }
  | .waiter_add_fd fd a => (waiter_add_fd m.state fd a).map fun r => { m with state := r.2 }
  | .waiter_add_timeout ms time_ms a =>
    (waiter_add_timeout m.state ms time_ms a).map fun r => { m with state := r.2 }
  | .waiter_ticket_set_null id =>
    (m.state.write id waiter_ticket_set_null).map fun s => { m with state := s }
  | .waiter_ticket_set_fd id fd =>
    (m.state.write id (waiter_ticket_set_fd fd)).map fun s => { m with state := s }
  | .waiter_ticket_set_timeout id ms time_ms =>
    (m.state.write id (waiter_ticket_set_timeout ms time_ms)).map fun s => { m with state := s }
  | .waiter_ticket_callback id cb_fn =>
    (m.state.write id (waiter_ticket_callback cb_fn)).map fun s => { m with state := s }
  | .waiter_ticket_clear id =>
    (m.state.write id fun ticket => (waiter_ticket_clear ticket).2).map fun s =>
      { m with state := s }
  | .waiter_ticket_delete id =>
    (waiter_ticket_delete m.state id).map fun s => { m with state := s }
  | .waiter_synchronize => (waiter_synchronize m.state).map fun s => { m with state := s }
  | .waiter_wait => some { m with stack := .start :: m.stack }
  | .waiter_wait_timeout ms time_ms =>
    (waiter_wait_timeout.enter m.state ms time_ms).map fun s =>
      ⟨s, .start :: .timeout m.state.made :: m.stack⟩

/-- Whether the program has control. -/
def Machine.idle (m : Machine) : Bool :=
  match m.stack with
  | [] => true
  | .callback :: _ => true
  | _ => false

/-- The innermost call goes on. -/
def Machine.go (m : Machine) : Option Machine :=
  match m.stack with
  | .check _ _ _ none :: stack => some { m with stack := stack }
  | .check ps rc now (some node) :: stack =>
    (waiter_wait.visit m.state ps rc now node).map fun r =>
      if r.1 then ⟨r.2, .callback :: .next ps rc now node :: stack⟩
      else ⟨r.2, .next ps rc now node :: stack⟩
  | .next ps rc now node :: stack =>
    if (m.state.ticket node).isSome then
      some { m with stack := .check ps rc now (m.state.heap node).next :: stack }
    else none
  | .timeout id :: stack =>
    (waiter_wait_timeout.leave m.state id).map fun r => ⟨r.2, stack⟩
  | _ => none

/-- What an event does, or nothing if it does not come now or the run ends. -/
def step (m : Machine) : Event → Option Machine
  | .call c => if m.idle then m.call c else none
  | .ret =>
    match m.stack with
    | .callback :: stack => some { m with stack := stack }
    | _ => none
  | .poll poll now later =>
    match m.stack with
    | .start :: stack =>
      (waiter_wait.first m.state poll now).map fun (ps, rc, s) =>
        if rc < 0 then ⟨s, stack⟩ else ⟨s, .check ps rc later s.w.tickets.head :: stack⟩
    | _ => none
  | .go => m.go

/-- A run. -/
def run (m : Machine) (events : List Event) : Option Machine := events.foldlM step m

theorem run_cons {m m' : Machine} {e : Event} (he : step m e = some m') (events : List Event) :
    run m (e :: events) = run m' events := by
  rw [run, List.foldlM_cons, he]
  rfl

theorem run_append (m : Machine) (events more : List Event) :
    run m (events ++ more) = (run m events).bind fun m' => run m' more :=
  List.foldlM_append

/-- A waiter that was just created. -/
def boot : Machine := ⟨waiter_create, []⟩

end Dragonboard.Waiters
