/-
`main` of `qcom/qrtr/src/ns.c` on the waiter: the loop that waits, and the callback it waits for.

`main.run` takes the datagrams one by one. The code gets each of them in `ctrl_port_fn`, which a
`waiter_wait` calls when it finds the socket ready. Here the two models are put together: `main.loop` is the
program of `main` on the machine of the waiter, and `Phase` is where it can stand. It reads one
datagram for each time that the socket is found ready, it never reads without that, and it does to
its context what `main.run` does.
-/
import Dragonboard.NsMachine
import Dragonboard.WaiterLatch
import Dragonboard.WaiterServe

set_option autoImplicit false

namespace Dragonboard.Ns

open Dragonboard.Waiters (Machine Frame Poll WaiterTicket Linked Tells served answer fdsOf termOf)
open Dragonboard.LinkedList Dragonboard.MapApi

variable {M : Type → Type} [StructMap M]

/-! ## The program

`main` with its waiter: it waits, the callback of the control socket receives one datagram, and it
waits again. -/

/-- The waiter and the context of `main`. -/
structure Loop (M : Type → Type) where
  machine : Machine
  ctx : Context M

/-- What happens next: `main` calls `waiter_wait`, the wait polls or goes on, or its callback
receives a datagram. -/
inductive Input
  | wait
  | poll (poll : Poll) (now later : UInt64)
  | go
  | recv (d : Datagram)

/-- `main` from its first wait on. The ticket of the control socket is the first of its waiter. -/
def main.loop (sys : Sys) (local_node : UInt32) (s : Loop M) : Input → Option (Loop M)
  | .wait =>
    -- while (ctx.sock >= 0)
    if s.machine.stack = [] ∧ s.ctx.sock then
      (Waiters.step s.machine (.call .waiter_wait)).map fun m => { s with machine := m }
    else none
  | .poll poll now later =>
    (Waiters.step s.machine (.poll poll now later)).map fun m => { s with machine := m }
  | .go => (Waiters.step s.machine .go).map fun m => { s with machine := m }
  | .recv d =>
    -- ctrl_port_fn, with waiter_ticket_clear in its last line
    match s.machine.stack with
    | .callback :: _ =>
      (Waiters.run s.machine [.call (.waiter_ticket_clear 0), .ret]).map fun m =>
        ⟨m, ctrl_port_fn sys local_node s.ctx d⟩
    | _ => none

/-- The waiter of `main`, when there is memory: the socket is added, and its callback set. -/
def main.waiter (fd : ℤ) : Option Machine :=
  Waiters.run Waiters.boot
    [.call (.waiter_add_fd fd ⟨true, true⟩), .call (.waiter_ticket_callback 0 true)]

/-- The datagrams that were received. -/
def received (inputs : List Input) : List Datagram :=
  inputs.filterMap fun
    | .recv d => some d
    | _ => none

/-- Whether a poll finds the socket ready. -/
def Input.ready (fd : ℤ) : Input → Bool
  | .poll answers _ _ => decide ((served answers [fd] (-1)).2 = some fd)
  | _ => false

/-! ## Where the program stands

The waiter has a single ticket, so there are few places a run can be at. `Phase` lists them with
all that is known there. -/

/-- The ticket of the control socket. -/
def socketTicket (fd : ℤ) (updated : Bool) : WaiterTicket :=
  { type := .fd, filedes := fd, callback := true, updated := updated, waiter := true }

/-- A waiter with the ticket of the control socket only. -/
structure OneTicket (fd : ℤ) (updated : Bool) (s : Waiters.State) : Prop where
  linked : Linked s [0]
  ticket : s.ticket 0 = some (socketTicket fd updated)
  pollset : ∃ p ps, s.w.pollset = some p ∧ s.block p = some ps ∧ 1 ≤ ps.pfd.length

/-- Where the program can stand: whether it has the socket still, and whether a socket that was found
ready has yet to be read. -/
inductive Phase (fd : ℤ) : Machine → Bool → ℕ → Prop
  | idle {s : Waiters.State} {sock : Bool} (h : OneTicket fd false s) : Phase fd ⟨s, []⟩ sock 0
  | start {s : Waiters.State} (h : OneTicket fd false s) : Phase fd ⟨s, [.start]⟩ true 0
  | check {s : Waiters.State} {p : ℕ} {rc : ℤ} {later : UInt64} {cause : Option ℤ}
      (h : OneTicket fd false s) (htells : Tells s p rc cause) :
      Phase fd ⟨s, [.check p rc later (some 0)]⟩ true (if cause = some fd then 1 else 0)
  | callback {s : Waiters.State} {p : ℕ} {rc : ℤ} {later : UInt64} (h : OneTicket fd true s) :
      Phase fd ⟨s, [.callback, .next p rc later 0]⟩ true 1
  | next {s : Waiters.State} {p : ℕ} {rc : ℤ} {later : UInt64} {sock : Bool}
      (h : OneTicket fd false s) : Phase fd ⟨s, [.next p rc later 0]⟩ sock 0
  | last {s : Waiters.State} {p : ℕ} {rc : ℤ} {later : UInt64} {sock : Bool}
      (h : OneTicket fd false s) : Phase fd ⟨s, [.check p rc later none]⟩ sock 0

section Phase

variable {fd : ℤ} {updated : Bool} {s : Waiters.State} {m m' : Machine} {sock : Bool} {due : ℕ}

theorem OneTicket.modify (h : OneTicket fd updated s) {f : WaiterTicket → WaiterTicket} {new : Bool}
    (hf : f (socketTicket fd updated) = socketTicket fd new) :
    OneTicket fd new (s.modify 0 f) := by
  refine ⟨h.linked.modify 0 f, ?_, h.pollset⟩
  rw [Waiters.State.modify_self, h.ticket, Option.map_some, hf]

theorem OneTicket.polled (h : OneTicket fd updated s) {p : ℕ} {ps' : Waiters.Pollset}
    (hp : s.w.pollset = some p) (hps' : 1 ≤ ps'.pfd.length) :
    OneTicket fd updated (s.polled p ps') :=
  ⟨⟨h.linked.spells, h.linked.made, h.linked.live⟩, h.ticket,
    p, ps', hp, Function.update_self .., hps'⟩

theorem OneTicket.fds_eq (h : OneTicket fd updated s) : fdsOf s [0] = [fd] := by
  simp [fdsOf, h.ticket, socketTicket]

theorem OneTicket.term_eq (h : OneTicket fd updated s) : termOf s [0] (-1) = -1 := by
  simp [termOf, h.ticket, socketTicket]

/-- With one descriptor, it is the one that is served if any is. -/
theorem served_one (poll : Poll) (fd ms : ℤ) :
    ((served poll [fd] ms).1 < 0 → (served poll [fd] ms).2 ≠ some fd) ∧
      ((served poll [fd] ms).2 = none ∨ (served poll [fd] ms).2 = some fd) := by
  rw [served]
  obtain ⟨rc, revents⟩ := poll [fd] ms
  dsimp only
  by_cases hrc : rc ≤ 0
  · rw [if_pos hrc]
    refine ⟨fun _ h => ?_, .inl rfl⟩
    cases h
  · rw [if_neg hrc]
    refine ⟨fun hneg => absurd hneg.le hrc, ?_⟩
    cases h0 : revents 0 with
    | false => exact .inl (by simp [h0])
    | true => exact .inr (by simp [h0])

/-- A poll, from the beginning of a wait. -/
theorem OneTicket.poll (h : OneTicket fd false s) (poll : Poll) (now later : UInt64) :
    ∃ m', Waiters.step ⟨s, [.start]⟩ (.poll poll now later) = some m' ∧
      Phase fd m' true (if (Input.poll poll now later).ready fd then 1 else 0) := by
  obtain ⟨p, ps, hp, hps, hroom⟩ := h.pollset
  obtain ⟨ps', hlen, hrun, htells⟩ := Waiters.run_first h.linked hp hps
    (by rw [h.fds_eq]; exact hroom) poll now later []
  have hone : OneTicket fd false (s.polled p ps') := h.polled hp (hlen ▸ hroom)
  have hanswer : answer poll (fdsOf s [0]) (termOf s [0] (-1)) now = served poll [fd] (-1) := by
    rw [h.fds_eq, h.term_eq, answer, if_pos rfl]
  rw [hanswer] at hrun htells
  rw [Waiters.run, List.foldlM_cons] at hrun
  replace hrun := (bind_pure _).symm.trans hrun
  rw [h.linked.spells.head] at hrun
  have hready : (Input.poll poll now later).ready fd = true ↔
      (served poll [fd] (-1)).2 = some fd := decide_eq_true_iff
  dsimp only at hrun
  by_cases hneg : (served poll [fd] (-1)).1 < 0
  · rw [if_pos hneg] at hrun
    rw [if_neg fun hr => (served_one poll fd (-1)).1 hneg (hready.mp hr)]
    exact ⟨_, hrun, .idle hone⟩
  · rw [if_neg hneg] at hrun
    have hphase : Phase fd ⟨s.polled p ps', [.check p (served poll [fd] (-1)).1 later (some 0)]⟩
        true (if (served poll [fd] (-1)).2 = some fd then 1 else 0) :=
      .check hone (htells (not_lt.mp hneg))
    refine ⟨_, hrun, ?_⟩
    by_cases hserved : (served poll [fd] (-1)).2 = some fd
    · rw [if_pos (hready.mpr hserved)]
      rwa [if_pos hserved] at hphase
    · rw [if_neg fun hr => hserved (hready.mp hr)]
      rwa [if_neg hserved] at hphase

/-- A wait begins. -/
theorem Phase.wait (h : Phase fd m sock due) (hstack : m.stack = []) :
    due = 0 ∧ Phase fd ⟨m.state, .start :: m.stack⟩ true 0 := by
  cases h with
  | idle h => exact ⟨rfl, .start h⟩
  | _ => cases hstack

/-- A poll comes at the beginning of a wait. -/
theorem Phase.poll (h : Phase fd m sock due) {poll : Poll} {now later : UInt64}
    (hm' : Waiters.step m (.poll poll now later) = some m') :
    sock = true ∧ due = 0 ∧
      Phase fd m' true (if (Input.poll poll now later).ready fd then 1 else 0) := by
  cases h with
  | start h =>
      obtain ⟨m'', hm'', hphase⟩ := h.poll poll now later
      obtain rfl := Option.some.inj (hm''.symm.trans hm')
      exact ⟨rfl, rfl, hphase⟩
  | _ => cases hm'

/-- The second loop of a wait goes on, up to the callback and from there. -/
theorem Phase.goes (h : Phase fd m sock due) (hgo : m.stack ≠ []) (hstart : m.stack ≠ [.start])
    (hcallback : m.stack.head? ≠ some .callback) :
    ∃ m', Waiters.step m .go = some m' ∧ Phase fd m' sock due := by
  cases h with
  | idle h => exact absurd rfl hgo
  | start h => exact absurd rfl hstart
  | callback h => exact absurd rfl hcallback
  | @check s p rc later cause h htells =>
      have hstep := htells.go h.ticket later []
      have hfires : (socketTicket fd false).fires cause later = true ↔ cause = some fd := by
        simp only [WaiterTicket.fires, WaiterTicket.hit, socketTicket, Bool.not_false, Bool.and_true]
        exact decide_eq_true_iff
      by_cases hcause : cause = some fd
      · rw [if_pos (hfires.mpr hcause)] at hstep
        rw [if_pos hcause]
        refine ⟨_, hstep, .callback (h.modify ?_)⟩
        simp [WaiterTicket.flagged, WaiterTicket.hit, WaiterTicket.restart, socketTicket, hcause]
      · rw [if_neg fun hf => hcause (hfires.mp hf)] at hstep
        rw [if_neg hcause]
        refine ⟨_, hstep, .next (h.modify ?_)⟩
        simp [WaiterTicket.flagged, WaiterTicket.hit, WaiterTicket.restart, socketTicket, hcause]
  | @next s p rc later sock h =>
      have hlinks : s.heap 0 = ⟨none, none⟩ := h.linked.spells.links.1
      have hstep := Waiters.step_next h.ticket p rc later []
      rw [hlinks] at hstep
      exact ⟨_, hstep, .last h⟩
  | last h => exact ⟨_, rfl, .idle h⟩

theorem Phase.go (h : Phase fd m sock due) (hm' : Waiters.step m .go = some m') :
    Phase fd m' sock due := by
  obtain ⟨m'', hm'', hphase⟩ : ∃ m', Waiters.step m .go = some m' ∧ Phase fd m' sock due := by
    refine h.goes (fun hgo => ?_) (fun hstart => ?_) fun hcallback => ?_
    · cases h with
      | idle h => cases hm'
      | _ => cases hgo
    · cases h with
      | start h => cases hm'
      | _ => cases hstart
    · cases h with
      | callback h => cases hm'
      | _ => cases hcallback
  obtain rfl := Option.some.inj (hm''.symm.trans hm')
  exact hphase

/-- The callback clears its ticket and returns. -/
theorem Phase.recv (h : Phase fd m sock due) (hcallback : m.stack.head? = some .callback)
    (sock' : Bool) :
    sock = true ∧ due = 1 ∧ ∃ m',
      Waiters.run m [.call (.waiter_ticket_clear 0), .ret] = some m' ∧ Phase fd m' sock' 0 := by
  cases h with
  | @callback s p rc later h =>
      have hclear := Waiters.step_clear h.ticket rfl [.next p rc later 0]
      refine ⟨rfl, rfl, _, Waiters.run_cons hclear [.ret], .next (h.modify ?_)⟩
      rfl
  | _ => cases hcallback

end Phase

/-! ## Runs of the program

The simulation: a step of the program is no step of `main.run`, or it is the one for the datagram
that is received in it. -/

section Runs

variable (sys : Sys) (local_node : UInt32)

/-- The program on its way: it stands somewhere, its context is what `main.run` makes of the datagrams
so far, and they are as many as the times that the socket was found ready, but for one that has
yet to be read. -/
structure Follows (fd : ℤ) (past : List Input) (s : Loop M) : Prop where
  ctx : s.ctx = main.run sys local_node (received past)
  phase : ∃ due, Phase fd s.machine s.ctx.sock due ∧
    (received past).length + due = past.countP (Input.ready fd)

theorem received_append (past : List Input) (i : Input) :
    received (past ++ [i]) = received past ++ received [i] := List.filterMap_append

/-- A step in which nothing is received. -/
theorem Follows.quiet {fd : ℤ} {past : List Input} {ctx : Context M} {m' : Machine} {due : ℕ}
    (hctx : ctx = main.run sys local_node (received past))
    (hdue : (received past).length + due = past.countP (Input.ready fd)) {i : Input}
    (hrecv : received [i] = []) (hphase : Phase fd m' ctx.sock (due + if i.ready fd then 1 else 0)) :
    Follows sys local_node fd (past ++ [i]) ⟨m', ctx⟩ := by
  refine ⟨?_, _, hphase, ?_⟩
  · rw [received_append, hrecv, List.append_nil]
    exact hctx
  · rw [received_append, hrecv, List.append_nil, List.countP_append, List.countP_singleton, ← hdue,
      Nat.add_assoc]

/-- **A step of the program** goes from one place to another, and receives what is due. -/
theorem Follows.step {fd : ℤ} {past : List Input} {s s' : Loop M} {i : Input}
    (h : Follows sys local_node fd past s) (hstep : main.loop sys local_node s i = some s') :
    Follows sys local_node fd (past ++ [i]) s' := by
  obtain ⟨hctx, due, hphase, hdue⟩ := h
  obtain ⟨m, ctx⟩ := s
  dsimp only at hctx hphase
  cases i with
  | wait =>
      simp only [main.loop, Option.ite_none_right_eq_some] at hstep
      obtain ⟨⟨hstack, hsock⟩, hstep⟩ := hstep
      obtain ⟨m', hm', rfl⟩ := Option.map_eq_some_iff.mp hstep
      obtain ⟨rfl, hwait⟩ := hphase.wait hstack
      have hidle : m.idle = true := by rw [Machine.idle, hstack]
      rw [Waiters.step, if_pos hidle] at hm'
      obtain rfl := Option.some.inj hm'
      refine Follows.quiet sys local_node hctx hdue rfl ?_
      rw [hsock]
      exact hwait
  | poll poll now later =>
      obtain ⟨m', hm', rfl⟩ := Option.map_eq_some_iff.mp hstep
      obtain ⟨hsock, rfl, hpolled⟩ := hphase.poll hm'
      refine Follows.quiet sys local_node hctx hdue rfl ?_
      rw [hsock, Nat.zero_add]
      exact hpolled
  | go =>
      obtain ⟨m', hm', rfl⟩ := Option.map_eq_some_iff.mp hstep
      exact Follows.quiet sys local_node hctx hdue rfl (hphase.go hm')
  -- the one step in which the context moves, as `main.step` says
  | recv d =>
      simp only [main.loop] at hstep
      split at hstep
      · next stack hstack =>
        obtain ⟨m', hm', rfl⟩ := Option.map_eq_some_iff.mp hstep
        have hcallback : m.stack.head? = some .callback := by rw [hstack]; rfl
        obtain ⟨hsock, rfl, m'', hm'', hphase⟩ :=
          hphase.recv hcallback (ctrl_port_fn sys local_node ctx d).sock
        obtain rfl := Option.some.inj (hm''.symm.trans hm')
        have hrecv : received (past ++ [.recv d]) = received past ++ [d] := received_append past _
        refine ⟨?_, 0, hphase, ?_⟩
        · rw [hrecv, main.run, List.foldl_append, ← main.run, ← hctx, List.foldl_cons,
            List.foldl_nil, main.step, if_pos hsock]
        · rw [hrecv, List.length_append, List.countP_append]
          exact hdue
      · cases hstep

/-- The waiter of `main`. -/
theorem main_waiter {fd : ℤ} {m : Machine} (hm : main.waiter fd = some m) :
    m.stack = [] ∧ OneTicket fd false m.state := by
  have hborn := Waiters.run_born hm
  obtain rfl := Option.some.inj hm
  refine ⟨rfl, ⟨⟨List.nodup_singleton 0, ⟨rfl, trivial⟩, rfl, rfl⟩, ?_, fun id => ⟨?_, ?_⟩⟩, rfl,
    0, _, rfl, rfl, Nat.le_of_ble_eq_true rfl⟩
  · intro id hid
    obtain rfl := List.mem_singleton.mp hid
    exact Nat.zero_lt_one
  · intro hid
    obtain rfl := List.mem_singleton.mp hid
    rfl
  · intro hsome
    obtain ⟨t, ht⟩ := Option.isSome_iff_exists.mp hsome
    exact List.mem_singleton.mpr (Nat.lt_one_iff.mp (hborn id t ht))

/-- The program at its first wait. -/
theorem follows_start {fd : ℤ} {m : Machine} (hm : main.waiter fd = some m) :
    Follows sys local_node fd [] (⟨m, main.start sys⟩ : Loop M) := by
  obtain ⟨hstack, hone⟩ := main_waiter hm
  obtain ⟨s, stack⟩ := m
  obtain rfl : stack = [] := hstack
  exact ⟨rfl, 0, .idle hone, rfl⟩

theorem follows_run {fd : ℤ} {m : Machine} (hm : main.waiter fd = some m) {inputs : List Input}
    {s : Loop M}
    (hrun : Runs.run (main.loop sys local_node) ⟨m, main.start sys⟩ inputs = some s) :
    Follows sys local_node fd inputs s :=
  Runs.run_history (fun _ _ _ _ h hstep => h.step sys local_node hstep)
    (follows_start sys local_node hm) hrun

/-- **The loop takes the datagrams one by one.** On every run of `main` the context is the one `main.run`
gives for the datagrams received so far; there have been no more of them than polls that found the
socket ready, and as many at the end of each wait. -/
theorem loop_refines (fd : ℤ) (m : Machine) (hm : main.waiter fd = some m) (inputs : List Input)
    (s : Loop M)
    (hrun : Runs.run (main.loop sys local_node) ⟨m, main.start sys⟩ inputs = some s) :
    s.ctx = main.run sys local_node (received inputs) ∧
      (received inputs).length ≤ inputs.countP (Input.ready fd) ∧
      (s.machine.stack = [] → (received inputs).length = inputs.countP (Input.ready fd)) := by
  obtain ⟨hctx, due, hphase, hdue⟩ := follows_run sys local_node hm hrun
  refine ⟨hctx, by omega, fun hstack => ?_⟩
  obtain ⟨rfl, -⟩ := hphase.wait hstack
  exact hdue

/-- A wait that finds the socket ready, and the packet that is read in it. -/
theorem loop_refines_once :
    ∃ s : Loop FinMap,
      s.ctx = main.run allWell 1 (received [.wait, .poll Waiters.readyPoll 0 0, .go,
        .recv (packet ⟨1, 10⟩ ⟨QrtrType.new_server.code, 5, 6, 1, 10⟩), .go, .go]) ∧
      (received [.wait, .poll Waiters.readyPoll 0 0, .go,
        .recv (packet ⟨1, 10⟩ ⟨QrtrType.new_server.code, 5, 6, 1, 10⟩), .go, .go]).length ≤
          [Input.wait, .poll Waiters.readyPoll 0 0, .go,
            .recv (packet ⟨1, 10⟩ ⟨QrtrType.new_server.code, 5, 6, 1, 10⟩), .go, .go].countP
              (Input.ready 3) ∧
      (s.machine.stack = [] → (received [.wait, .poll Waiters.readyPoll 0 0, .go,
        .recv (packet ⟨1, 10⟩ ⟨QrtrType.new_server.code, 5, 6, 1, 10⟩), .go, .go]).length =
          [Input.wait, .poll Waiters.readyPoll 0 0, .go,
            .recv (packet ⟨1, 10⟩ ⟨QrtrType.new_server.code, 5, 6, 1, 10⟩), .go, .go].countP
              (Input.ready 3)) :=
  ⟨_, loop_refines allWell 1 3 _ rfl _ _ rfl⟩

/-- Whether a place of the program lets an input come. -/
def Awaits (s : Loop M) : Input → Prop
  | .wait => s.machine.stack = [] ∧ s.ctx.sock = true
  | .poll _ _ _ => s.machine.stack = [.start]
  | .go => s.machine.stack ≠ [] ∧ s.machine.stack ≠ [.start] ∧
    s.machine.stack.head? ≠ some .callback
  | .recv _ => s.machine.stack.head? = some .callback

/-- **The loop does not break off.** Whatever the polls answer and whatever is received, the program goes on
from every place that it comes to, until the socket is closed and the wait is over: no call of
the waiter follows a null pointer or writes beyond the poll set. -/
theorem loop_goes_on (fd : ℤ) (m : Machine) (hm : main.waiter fd = some m) (inputs : List Input)
    (s : Loop M)
    (hrun : Runs.run (main.loop sys local_node) ⟨m, main.start sys⟩ inputs = some s) :
    (∀ i, Awaits s i → (main.loop sys local_node s i).isSome = true) ∧
      ((∀ i, ¬ Awaits s i) → s.machine.stack = [] ∧ s.ctx.sock = false) := by
  -- where the program stands says what can come next
  obtain ⟨-, due, hphase, -⟩ := follows_run sys local_node hm hrun
  obtain ⟨m, ctx⟩ := s
  dsimp only at hphase
  refine ⟨fun i hi => ?_, fun hnone => ?_⟩
  · cases i with
    | wait =>
        have hidle : m.idle = true := by rw [Machine.idle, show m.stack = [] from hi.1]
        have hwait : m.stack = [] ∧ ctx.sock = true := hi
        simp only [main.loop, hwait, and_self, if_true, Waiters.step, hidle]
        rfl
    | poll poll now later =>
        generalize ctx.sock = sock at hphase
        cases hphase with
        | start h =>
            obtain ⟨m', hm', -⟩ := h.poll poll now later
            rw [main.loop, hm']
            rfl
        | _ => cases hi
    | go =>
        obtain ⟨m', hm', -⟩ := hphase.goes hi.1 hi.2.1 hi.2.2
        rw [main.loop, hm']
        rfl
    | recv d =>
        obtain ⟨-, -, m', hm', -⟩ := hphase.recv hi true
        obtain ⟨stack, hstack⟩ : ∃ stack, m.stack = .callback :: stack := by
          cases hm : m.stack with
          | nil =>
              rw [Awaits, hm] at hi
              cases hi
          | cons frame stack =>
              rw [Awaits, hm] at hi
              exact ⟨stack, by rw [Option.some.inj hi]⟩
        simp only [main.loop, hstack, hm']
        rfl
  -- outside of a wait only the closed socket keeps the program from waiting again
  · have hstack : m.stack = [] := by
      by_contra hne
      have hgo := hnone .go
      have hstart := hnone (.poll (fun _ _ => (0, fun _ => false)) 0 0)
      have hcallback := hnone (.recv ⟨⟨0, 0⟩, [], fun _ => 0⟩)
      exact hgo ⟨hne, hstart, hcallback⟩
    exact ⟨hstack, Bool.eq_false_iff.mpr fun hsock => hnone .wait ⟨hstack, hsock⟩⟩

/-- The place after one wait. -/
theorem loop_goes_on_once :
    ∃ s : Loop FinMap, (∀ i, Awaits s i → (main.loop allWell 1 s i).isSome = true) ∧
      ((∀ i, ¬ Awaits s i) → s.machine.stack = [] ∧ s.ctx.sock = false) :=
  ⟨_, loop_goes_on allWell 1 3 _ rfl
    [.wait, .poll Waiters.readyPoll 0 0, .go,
      .recv (packet ⟨1, 10⟩ ⟨QrtrType.new_server.code, 5, 6, 1, 10⟩), .go, .go] _ rfl⟩

end Runs

end Dragonboard.Ns
