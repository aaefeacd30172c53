/-
The order of the words that `rmtfs` writes for the modem, and the signals that it does not hear.

`Stage` follows the one stop thread of a pass, so that nothing comes after the word `stop`. The last section
is about a signal that comes between the tests of `sig_int_count` and `select`: nothing tells
the loop of it, and it sleeps on (`Deaf`).
-/
import Dragonboard.RprocShutdown

set_option autoImplicit false

namespace Dragonboard.Rproc

open Dragonboard.Runs

variable {rprocfd : Bool} {s t : System} {e : Event} {past : List Event}

/-! ## The last word

After the first signal a pass has one stop thread. It is followed from its creation to the write
to the `state` file, against starts that may still be under way. -/

/-- Where the one stop thread of a pass stands, with what had been written before. -/
inductive Stage (file : List Word) : List StopThread → List Word → Prop
  | none : Stage file [] file
  | made : Stage file [.pwrite] file
  | told : Stage file [.write] (file ++ [.stop])
  | done : Stage file [] (file ++ [.stop])

/-- A pass whose start thread has written. -/
structure OnePass (file : List Word) (s : System) : Prop where
  starts : s.starts = 0
  stage : Stage file s.stops s.state_file
  before : s.sig_int_handled = false → s.stops = [] ∧ s.state_file = file

theorem Stage.pwrite {file file' : List Word} {stops : List StopThread} {thread : ℕ}
    (h : Stage file stops file') (hthread : stops[thread]? = some .pwrite) :
    Stage file (stops.set thread .write) (file' ++ [.stop]) := by
  cases h with
  | made =>
      obtain ⟨hlt, -⟩ := List.getElem?_eq_some_iff.mp hthread
      obtain rfl : thread = 0 := Nat.lt_one_iff.mp hlt
      exact .told
  | told =>
      obtain ⟨hlt, h⟩ := List.getElem?_eq_some_iff.mp hthread
      obtain rfl : thread = 0 := Nat.lt_one_iff.mp hlt
      cases h
  | _ => cases hthread

theorem Stage.write {file file' : List Word} {stops : List StopThread} {thread : ℕ}
    (h : Stage file stops file') (hthread : stops[thread]? = some .write) :
    Stage file (stops.eraseIdx thread) file' := by
  cases h with
  | made =>
      obtain ⟨hlt, h⟩ := List.getElem?_eq_some_iff.mp hthread
      obtain rfl : thread = 0 := Nat.lt_one_iff.mp hlt
      cases h
  | told =>
      obtain ⟨hlt, -⟩ := List.getElem?_eq_some_iff.mp hthread
      obtain rfl : thread = 0 := Nat.lt_one_iff.mp hlt
      exact .done
  | _ => cases hthread

theorem Stage.file_eq {file file' : List Word} {stops : List StopThread}
    (h : Stage file stops file') : file' = file ∨ file' = file ++ [.stop] := by
  cases h with
  | none => exact .inl rfl
  | made => exact .inl rfl
  | told => exact .inr rfl
  | done => exact .inr rfl

theorem OnePass.step {file : List Word} (h : OnePass file s) (hmove : Move rprocfd s e t)
    (hopened : e.isOpened = false) : OnePass file t := by
  cases hmove with
  | enter starts he =>
      rw [hopened] at he
      cases he
  | ask threads he hsignal hpoint hrproc hcount hhandled hthreads =>
      obtain ⟨hstops, hfile⟩ := h.before hhandled
      refine ⟨h.starts, ?_, fun hh => by cases hh⟩
      show Stage file (s.stops ++ threads) s.state_file
      rw [hstops, hfile]
      rcases hthreads with rfl | rfl
      · exact .none
      · exact .made
  | start he hsignal hexited hpos => exact absurd h.starts hpos.ne'
  | pwrite thread he hsignal hexited hthread =>
      refine ⟨h.starts, h.stage.pwrite hthread, fun hh => ?_⟩
      rw [(h.before hh).1] at hthread
      cases hthread
  | write thread he hsignal hexited hthread =>
      refine ⟨h.starts, h.stage.write hthread, fun hh => ?_⟩
      rw [(h.before hh).1] at hthread
      cases hthread
  | _ => exact ⟨h.starts, h.stage, h.before⟩

/-- Before a signal there are no stop threads, and only starts are written. -/
theorem Counted.unsignalled (h : Counted rprocfd past s) (hcount : s.sig_int_count = 0) :
    s.stops = [] ∧ s.pipe = [] ∧ ∀ w ∈ s.state_file, w = .start := by
  have hasked : s.asked = 0 := by
    by_contra hne
    exact absurd hcount (h.late (Nat.pos_of_ne_zero hne)).ne'
  obtain ⟨hfile, hstops⟩ := Nat.add_eq_zero_iff.mp hasked
  have hstop : .stop ∉ s.state_file := List.count_eq_zero.mp hfile
  refine ⟨List.eq_nil_iff_forall_not_mem.mpr fun thread hmem => ?_, ?_, fun w hw => ?_⟩
  · cases thread with
    | pwrite => exact List.count_eq_zero.mp hstops hmem
    | write => exact hstop (h.told (.inr hmem))
  · by_contra hpipe
    exact hstop (h.told (.inl hpipe))
  · cases w with
    | start => rfl
    | stop => exact absurd hw hstop

/-- **The last word is `stop`.** When all start threads have written before the first signal
and the server does not begin again after it, then in every order of the threads' steps no more
than one word is written, `stop`; and where the process ends without a failure or a second signal,
it has been. -/
theorem stop_is_last (rprocfd : Bool) (before after : List Event) (s t : System)
    (hbefore : run (step rprocfd) boot before = some s)
    (hsignal : before.countP Event.isSignal = 0) (hstarts : s.starts = 0)
    (hafter : run (step rprocfd) s after = some t) (hopened : ∀ e ∈ after, e.isOpened = false) :
    (∀ w ∈ s.state_file, w = .start) ∧
      (t.state_file = s.state_file ∨ t.state_file = s.state_file ++ [.stop]) ∧
      (t.point = .exited → (∀ e ∈ before ++ after, e.fails = false) →
        after.countP Event.isSignal < 2 → t.state_file = s.state_file ++ [.stop]) := by
  have hcounted := counted_run hbefore
  obtain ⟨hstops, -, hwords⟩ := hcounted.unsignalled (hcounted.signals.trans hsignal)
  have hpass : OnePass s.state_file s := ⟨hstarts, hstops ▸ .none, fun _ => ⟨hstops, rfl⟩⟩
  have hlast : OnePass s.state_file t :=
    run_invariant_of (fun _ _ _ he hs hstep => hs.step (step_moves hstep) he) hopened hpass hafter
  have hfile := hlast.stage.file_eq
  refine ⟨hwords, hfile, fun hexited hfails htwo => ?_⟩
  have hcounted' := counted_run (run_append_iff.mpr ⟨s, hbefore, hafter⟩)
  have hcount : t.sig_int_count = after.countP Event.isSignal := by
    rw [hcounted'.signals, List.countP_append, hsignal, Nat.zero_add]
  rcases hcounted'.ends hexited hfails with hmore | ⟨-, hstop⟩
  · omega
  · rcases hfile with hfile | hfile
    · rw [hfile] at hstop
      cases hwords _ hstop
    · exact hfile

/-- A server that has said `start`, and is then told to end. -/
theorem stop_is_last_once :
    (∀ w ∈ [Word.start], w = .start) ∧
      ([Word.start, .stop] = [Word.start] ∨ [Word.start, .stop] = [Word.start] ++ [.stop]) ∧
      (Point.exited = .exited → (∀ e ∈ [Event.opened true true true, .start, .go true, .go true,
          .go true] ++ [.signal true, .go true, .go true, .stop 0 true, .stop 0 true,
          .wake true false, .go true], e.fails = false) →
        [Event.signal true, .go true, .go true, .stop 0 true, .stop 0 true,
          .wake true false, .go true].countP Event.isSignal < 2 →
        [Word.start, .stop] = [Word.start] ++ [.stop]) :=
  stop_is_last true _ _ ⟨0, false, 0, .blocked, 0, [], [], [.start]⟩
    ⟨1, true, 1, .exited, 0, [], [], [.start, .stop]⟩ rfl rfl rfl rfl (by decide)

/-! ## A signal that is not heard

`run_rmtfs` tests `sig_int_count` before `select`. A signal in between ends no `select` and is not
tested again until something else wakes the loop. -/

/-- The loop goes to `select`, or is in it, with a signal that it has not seen; a second signal
ends it. -/
structure Deaf (s : System) : Prop where
  stops : s.stops = []
  pipe : s.pipe = []
  file : .stop ∉ s.state_file
  count : 1 ≤ s.sig_int_count
  point : s.point = .call ∨ s.point = .blocked ∨ s.point = .exited ∨
    (s.point = .first ∨ s.point = .second) ∧ 2 ≤ s.sig_int_count ∧ s.ret = -1

/-- Whether an event is that `select` finds something. -/
def Event.isWake : Event → Bool
  | .wake _ _ => true
  | _ => false

theorem Deaf.go (h : Deaf s) {created : Bool} (hgo : run_rmtfs.go rprocfd s created = some t) :
    Deaf t := by
  rcases h.point with hpoint | hpoint | hpoint | ⟨hpoint | hpoint, hcount, hret⟩
  · simp only [run_rmtfs.go, hpoint] at hgo
    obtain rfl := Option.some.inj hgo
    exact ⟨h.stops, h.pipe, h.file, h.count, .inr (.inl rfl)⟩
  · simp [run_rmtfs.go, hpoint] at hgo
  · simp [run_rmtfs.go, hpoint] at hgo
  · have hne : s.sig_int_count ≠ 1 := by omega
    simp only [run_rmtfs.go, hpoint, hne, false_and, and_false, if_false] at hgo
    obtain rfl := Option.some.inj hgo
    exact ⟨h.stops, h.pipe, h.file, h.count, .inr (.inr (.inr ⟨.inr rfl, hcount, hret⟩))⟩
  · simp only [run_rmtfs.go, hpoint] at hgo
    rw [if_pos (show 1 < s.sig_int_count from hcount), hret] at hgo
    obtain rfl := Option.some.inj hgo
    exact ⟨h.stops, h.pipe, h.file, h.count, .inr (.inr (.inl rfl))⟩

theorem Deaf.signal (h : Deaf s) {main : Bool} (hexited : s.point ≠ .exited)
    (hsignal : s.signal main = some t) : Deaf t := by
  have hcount : 1 ≤ s.sig_int_count + 1 := Nat.le_add_left 1 _
  have htaken : Deaf (sig_int_handler s) := by
    refine ⟨h.stops, h.pipe, h.file, hcount, ?_⟩
    rcases h.point with hpoint | hpoint | hpoint | ⟨hpoint, htwo, hret⟩
    · exact .inl hpoint
    · exact .inr (.inl hpoint)
    · exact absurd hpoint hexited
    · exact .inr (.inr (.inr ⟨hpoint, Nat.le_succ_of_le htwo, hret⟩))
  rw [System.signal] at hsignal
  split at hsignal
  · split at hsignal
    · obtain rfl := Option.some.inj hsignal
      exact ⟨h.stops, h.pipe, h.file, hcount,
        .inr (.inr (.inr ⟨.inl rfl, Nat.add_le_add_right h.count 1, rfl⟩))⟩
    · obtain rfl := Option.some.inj hsignal
      exact htaken
  · split at hsignal
    · cases hsignal
    · obtain rfl := Option.some.inj hsignal
      exact htaken

theorem Deaf.start (h : Deaf s) (hstart : do_rproc_start s = some t) : Deaf t := by
  rw [do_rproc_start, Option.ite_none_left_eq_some] at hstart
  obtain rfl := Option.some.inj hstart.2
  refine ⟨h.stops, h.pipe, fun hmem => ?_, h.count, h.point⟩
  rcases List.mem_append.mp hmem with hmem | hmem
  · exact h.file hmem
  · exact absurd (List.mem_singleton.mp hmem) (by decide)

theorem Deaf.step (h : Deaf s) (hwake : e.isWake = false)
    (hstep : Rproc.step rprocfd s e = some t) : Deaf t := by
  have hnot : s.point ≠ .opening ∧ s.point ≠ .handling := by
    rcases h.point with hpoint | hpoint | hpoint | ⟨hpoint | hpoint, -⟩
    all_goals
      rw [hpoint]
      decide
  cases e with
  | opened sock publish created =>
      rw [Rproc.step, if_neg hnot.1] at hstep
      cases hstep
  | go created =>
      rw [Rproc.step, Option.ite_none_left_eq_some] at hstep
      exact h.go hstep.2
  | wake => cases hwake
  | fail =>
      rw [Rproc.step, Option.ite_none_right_eq_some] at hstep
      obtain ⟨-, rfl⟩ := And.imp_right Option.some.inj hstep
      exact ⟨h.stops, h.pipe, h.file, h.count, .inr (.inr (.inl rfl))⟩
  | handled ret =>
      rw [Rproc.step, if_neg hnot.2] at hstep
      cases hstep
  | signal main =>
      rw [Rproc.step, Option.ite_none_left_eq_some] at hstep
      exact h.signal hstep.1 hstep.2
  | start =>
      rw [Rproc.step, Option.ite_none_left_eq_some] at hstep
      exact h.start hstep.2
  | stop thread written =>
      rw [Rproc.step, Option.ite_none_left_eq_some, do_rproc_stop, h.stops] at hstep
      cases hstep.2

/-- **A signal may go unheard.** If the first signal comes when the loop has tested `sig_int_count` and is
about to call `select`, then in every order of what follows, further signals too, the modem is not
told to stop until a datagram comes. The process ends only with a second signal or a failure. -/
theorem signal_unheard (rprocfd main : Bool) (before after : List Event) (s t : System)
    (hbefore : run (step rprocfd) boot before = some s)
    (hsignal : before.countP Event.isSignal = 0) (hpoint : s.point = .call)
    (hafter : run (step rprocfd) s (.signal main :: after) = some t)
    (hwake : ∀ e ∈ after, e.isWake = false) :
    .stop ∉ t.state_file ∧ t.stops = [] ∧
      (t.point = .exited →
        0 < after.countP Event.isSignal ∨ ∃ e ∈ before ++ after, e.fails = true) := by
  have hcounted := counted_run hbefore
  obtain ⟨hstops, hpipe, hwords⟩ := hcounted.unsignalled (hcounted.signals.trans hsignal)
  have hfile : .stop ∉ s.state_file := fun hmem => by cases hwords _ hmem
  obtain ⟨s', hstep, hrest⟩ := run_cons_iff.mp hafter
  -- the signal is counted, and the loop goes on to `select` all the same
  have hdeaf : Deaf s' := by
    rw [Rproc.step, Option.ite_none_left_eq_some, System.signal] at hstep
    rw [hpoint, if_neg (by decide : ¬ Point.call = .blocked)] at hstep
    have heq : sig_int_handler s = s' := by
      cases main with
      | true => exact Option.some.inj hstep.2
      | false =>
          have hother := hstep.2
          rw [if_neg Bool.false_ne_true, Option.ite_none_left_eq_some] at hother
          exact Option.some.inj hother.2
    rw [← heq]
    exact ⟨hstops, hpipe, hfile, Nat.le_add_left 1 _, .inl hpoint⟩
  -- nothing wakes it, so it stays deaf
  have hlast : Deaf t := run_invariant_of (fun _ _ _ he hs hs' => hs.step he hs') hwake hdeaf hrest
  refine ⟨hlast.file, hlast.stops, fun hexited => ?_⟩
  -- an end without a failure needs a second signal, or the stop that was never written
  by_contra hnone
  push Not at hnone
  obtain ⟨hzero, hfails⟩ := hnone
  have hends := counted_run (run_append_iff.mpr ⟨s, hbefore, hafter⟩)
  have hcount := hends.signals
  rw [List.countP_append, List.countP_cons, hsignal] at hcount
  have hone : (Event.signal main).isSignal = true := rfl
  rw [hone, if_pos rfl] at hcount
  have hnofail : ∀ e ∈ before ++ .signal main :: after, e.fails = false := by
    intro e he
    rcases List.mem_append.mp he with he | he
    · exact Bool.eq_false_iff.mpr (hfails e (List.mem_append_left _ he))
    · rcases List.mem_cons.mp he with rfl | he
      · rfl
      · exact Bool.eq_false_iff.mpr (hfails e (List.mem_append_right _ he))
  rcases hends.ends hexited hnofail with htwo | ⟨-, hstop⟩
  · omega
  · exact hlast.file hstop

/-- The second signal ends the server, and the modem goes on. -/
theorem signal_unheard_twice :
    Word.stop ∉ [Word.start] ∧ ([] : List StopThread) = [] ∧
      (Point.exited = .exited → 0 < [Event.go true, .signal true, .go true, .go true].countP
          Event.isSignal ∨
        ∃ e ∈ [Event.opened true true true, .start, .go true, .go true] ++
          [.go true, .signal true, .go true, .go true], e.fails = true) :=
  signal_unheard true true _ _ ⟨0, false, 0, .call, 0, [], [], [.start]⟩
    ⟨2, false, -1, .exited, 0, [], [], [.start]⟩ rfl rfl rfl rfl (by decide)

end Dragonboard.Rproc
