/-
What the threads of `rmtfs` do to the modem on every run.

A step of the process is one of nine kinds (`Move`), and `step_moves` says so once for all events. What
a kind does to the words, the threads and the count of signals is read off it, and `Counted` adds
that up along a run: it holds the state against the events so far.
-/
import Dragonboard.Rproc
import Mathlib.Data.List.Perm.Basic
import Mathlib.Order.Basic
import Mathlib.Algebra.Order.Group.Nat

set_option autoImplicit false

namespace Dragonboard.Rproc

open Dragonboard.Runs

variable {rprocfd : Bool} {s t : System} {e : Event} {past : List Event}

/-! ## Moves

There are many events but few kinds of moves. They are told apart once, with all they do, and the
invariants are proved move by move. -/

/-- Whether the main thread is in the loop of `run_rmtfs`. -/
def Point.inLoop : Point → Bool
  | .opening => false
  | .exited => false
  | _ => true

/-- Whether an event is a failure of a system call after which the process ends. -/
def Event.fails : Event → Bool
  | .opened sock publish _ => !(sock && publish)
  | .fail => true
  | .stop _ written => !written
  | _ => false

/-- Whether an event is a signal. -/
def Event.isSignal : Event → Bool
  | .signal _ => true
  | _ => false

/-- Whether an event is the beginning of a pass: `run_rmtfs` has its socket and comes to its loop. -/
def Event.isOpened : Event → Bool
  | .opened sock publish _ => sock && publish
  | _ => false

/-- Why `run_rmtfs` returns. -/
def Quits (rprocfd : Bool) (s : System) (e : Event) (point : Point) : Prop :=
  e.fails = true ∨ 1 < s.sig_int_count ∨ (rprocfd = true ∧ s.pipe ≠ []) ∨ point = .opening

/-- The kinds of steps. -/
inductive Move (rprocfd : Bool) (s : System) (e : Event) : System → Prop
  | enter (starts : ℕ) (he : e.isOpened = true) (hpoint : s.point = .opening) (hle : starts ≤ 1)
      (hrproc : starts = 0 ∨ rprocfd = true) :
      Move rprocfd s e { s with
        point := .first, ret := 0, sig_int_handled := false, starts := s.starts + starts }
  | ask (threads : List StopThread) (he : e.isOpened = false) (hsignal : e.isSignal = false)
      (hpoint : s.point = .first) (hrproc : rprocfd = true) (hcount : s.sig_int_count = 1)
      (hhandled : s.sig_int_handled = false) (hthreads : threads = [] ∨ threads = [.pwrite]) :
      Move rprocfd s e { s with
        stops := s.stops ++ threads, sig_int_handled := true, point := .call }
  | turn (point : Point) (ret : ℤ) (pipe : List Char) (he : e.isOpened = false)
      (hsignal : e.isSignal = false) (hpoint : s.point.inLoop = true)
      (hpoint' : point.inLoop = true) (hpipe : pipe <:+ s.pipe) :
      Move rprocfd s e { s with point := point, ret := ret, pipe := pipe }
  | quit (point : Point) (ret : ℤ) (pipe : List Char) (he : e.isOpened = false)
      (hsignal : e.isSignal = false) (hpoint : point.inLoop = false)
      (hpipe : pipe <:+ s.pipe) (hquits : Quits rprocfd s e point) :
      Move rprocfd s e { s with point := point, ret := ret, pipe := pipe }
  | signal (point : Point) (ret : ℤ) (he : e.isOpened = false) (hsignal : e.isSignal = true)
      (hpoint : point.inLoop = s.point.inLoop) (hexited : point ≠ .exited) :
      Move rprocfd s e { s with
        sig_int_count := s.sig_int_count + 1, ret := ret, point := point }
  | start (he : e.isOpened = false) (hsignal : e.isSignal = false) (hexited : s.point ≠ .exited)
      (hstarts : 0 < s.starts) :
      Move rprocfd s e { s with
        starts := s.starts - 1, state_file := s.state_file ++ [.start] }
  | pwrite (thread : ℕ) (he : e.isOpened = false) (hsignal : e.isSignal = false)
      (hexited : s.point ≠ .exited) (hthread : s.stops[thread]? = some .pwrite) :
      Move rprocfd s e { s with
        stops := s.stops.set thread .write, state_file := s.state_file ++ [.stop] }
  | write (thread : ℕ) (he : e.isOpened = false) (hsignal : e.isSignal = false)
      (hexited : s.point ≠ .exited) (hthread : s.stops[thread]? = some .write) :
      Move rprocfd s e { s with
        stops := s.stops.eraseIdx thread, pipe := s.pipe ++ ['Y'] }

theorem System.leave_eq (s : System) (ret : ℤ) :
    s.leave ret = { s with point := if ret = -ENETRESET then .opening else .exited } := by
  rw [System.leave]
  split <;> rfl

/-- A return of `run_rmtfs` is a move. -/
theorem Move.leave (ret ret' : ℤ) (pipe : List Char) (he : e.isOpened = false)
    (hsignal : e.isSignal = false) (hpipe : pipe <:+ s.pipe)
    (hquits : ret ≠ -ENETRESET → Quits rprocfd s e .exited) :
    Move rprocfd s e ({ s with ret := ret', pipe := pipe }.leave ret) := by
  rw [System.leave_eq]
  by_cases hret : ret = -ENETRESET
  · rw [if_pos hret]
    exact .quit .opening ret' pipe he hsignal rfl hpipe (.inr (.inr (.inr rfl)))
  · rw [if_neg hret]
    exact .quit .exited ret' pipe he hsignal rfl hpipe (hquits hret)

theorem opened_moves {sock publish created : Bool} (hpoint : s.point = .opening) :
    Move rprocfd s (.opened sock publish created)
      (run_rmtfs.open rprocfd s sock publish created) := by
  have hfails : (Event.opened sock publish created).isOpened = false →
      Move rprocfd s (.opened sock publish created) (s.leave (-1)) := by
    intro hopened
    refine Move.leave (-1) s.ret s.pipe hopened rfl List.suffix_rfl fun _ => .inl ?_
    rw [Event.fails]
    rw [Event.isOpened] at hopened
    rw [hopened]
    rfl
  rw [run_rmtfs.open]
  cases sock with
  | false => exact hfails rfl
  | true =>
      cases publish with
      | false => exact hfails rfl
      | true =>
          cases hr : rprocfd with
          | false => exact .enter 0 rfl hpoint (Nat.zero_le 1) (.inl rfl)
          | true =>
              cases created with
              | false => exact .enter 0 rfl hpoint (Nat.zero_le 1) (.inl rfl)
              | true => exact .enter 1 rfl hpoint le_rfl (.inr rfl)

theorem go_moves {created : Bool} (h : run_rmtfs.go rprocfd s created = some t) :
    Move rprocfd s (.go created) t := by
  -- most steps only turn from one place in the loop to another
  have hturn : ∀ point ret, s.point.inLoop = true → point.inLoop = true →
      Move rprocfd s (.go created) { s with point := point, ret := ret } := fun point ret hs hp =>
    .turn point ret s.pipe rfl rfl hs hp List.suffix_rfl
  cases hpoint : s.point with
  | first =>
      simp only [run_rmtfs.go, hpoint] at h
      split at h
      · next hask =>
        obtain ⟨hrproc, hcount, hhandled⟩ := hask
        obtain rfl := Option.some.inj h
        rw [Bool.not_eq_true'] at hhandled
        cases created with
        | false =>
            -- the thread may not have been created, and then nobody asks for the stop
            have hmove := Move.ask (e := .go false) [] rfl rfl hpoint hrproc hcount hhandled
              (.inl rfl)
            rwa [List.append_nil] at hmove
        | true => exact .ask [.pwrite] rfl rfl hpoint hrproc hcount hhandled (.inr rfl)
      · obtain rfl := Option.some.inj h
        exact hturn .second s.ret (by rw [hpoint]; rfl) rfl
  | second =>
      simp only [run_rmtfs.go, hpoint] at h
      split at h
      · next hcount =>
        obtain rfl := Option.some.inj h
        exact Move.leave s.ret s.ret s.pipe rfl rfl List.suffix_rfl
          fun _ => .inr (.inl hcount)
      · obtain rfl := Option.some.inj h
        exact hturn .call s.ret (by rw [hpoint]; rfl) rfl
  | call =>
      simp only [run_rmtfs.go, hpoint] at h
      obtain rfl := Option.some.inj h
      exact hturn .blocked s.ret (by rw [hpoint]; rfl) rfl
  | selected rproc rmtfs =>
      have hloop : s.point.inLoop = true := by rw [hpoint]; rfl
      have hnext : (if rmtfs = true then Point.handling else .first).inLoop = true := by
        cases rmtfs <;> rfl
      simp only [run_rmtfs.go, hpoint] at h
      split at h
      · next hready =>
        cases hpipe : s.pipe with
        | nil =>
            rw [hpipe] at h
            cases h
        | cons c pipe =>
            simp only [hpipe] at h
            have hsuffix : pipe <:+ s.pipe := ⟨[c], hpipe.symm⟩
            split at h
            · obtain rfl := Option.some.inj h
              -- the `Y` of a stop thread ends the loop
              refine Move.leave 1 1 pipe rfl rfl hsuffix fun _ => .inr (.inr (.inl ⟨hready.1, ?_⟩))
              rw [hpipe]
              exact List.cons_ne_nil c pipe
            · obtain rfl := Option.some.inj h
              exact .turn _ 1 pipe rfl rfl hloop hnext hsuffix
      · obtain rfl := Option.some.inj h
        exact hturn _ s.ret hloop hnext
  | _ => simp [run_rmtfs.go, hpoint] at h

theorem stop_moves {thread : ℕ} {written : Bool} (hexited : s.point ≠ .exited)
    (h : do_rproc_stop s thread written = some t) : Move rprocfd s (.stop thread written) t := by
  rw [do_rproc_stop] at h
  cases hthread : s.stops[thread]? with
  | none =>
      rw [hthread] at h
      cases h
  | some at_ =>
      rw [hthread] at h
      cases at_ with
      | pwrite =>
          obtain rfl := Option.some.inj h
          exact .pwrite thread rfl rfl hexited hthread
      | write =>
          cases written with
          | true =>
              obtain rfl := Option.some.inj h
              exact .write thread rfl rfl hexited hthread
          | false =>
              obtain rfl := Option.some.inj h
              exact .quit .exited s.ret s.pipe rfl rfl rfl List.suffix_rfl (.inl rfl)

theorem signal_moves {main : Bool} (hexited : s.point ≠ .exited)
    (h : s.signal main = some t) : Move rprocfd s (.signal main) t := by
  rw [System.signal] at h
  split at h
  · split at h
    · next hblocked =>
      obtain rfl := Option.some.inj h
      exact .signal .first (-1) rfl rfl (by rw [hblocked]; rfl) (by intro hc; cases hc)
    · obtain rfl := Option.some.inj h
      exact .signal s.point s.ret rfl rfl rfl hexited
  · split at h
    · cases h
    · obtain rfl := Option.some.inj h
      exact .signal s.point s.ret rfl rfl rfl hexited

/-- Every step is a move. -/
theorem step_moves (h : step rprocfd s e = some t) : Move rprocfd s e t := by
  -- an event that comes says where the threads stand, which is what its move asks for
  cases e with
  | opened sock publish created =>
      rw [step, Option.ite_none_right_eq_some] at h
      obtain ⟨hpoint, rfl⟩ := And.imp_right Option.some.inj h
      exact opened_moves hpoint
  | go created =>
      rw [step, Option.ite_none_left_eq_some] at h
      exact go_moves h.2
  | wake rproc rmtfs =>
      rw [step, Option.ite_none_right_eq_some] at h
      obtain ⟨⟨hpoint, -⟩, rfl⟩ := And.imp_right Option.some.inj h
      exact .turn _ _ s.pipe rfl rfl (by rw [hpoint]; rfl) rfl List.suffix_rfl
  | fail =>
      rw [step, Option.ite_none_right_eq_some] at h
      obtain ⟨-, rfl⟩ := And.imp_right Option.some.inj h
      exact Move.leave (-1) (-1) s.pipe rfl rfl List.suffix_rfl fun _ => .inl rfl
  | handled ret =>
      rw [step, Option.ite_none_right_eq_some] at h
      obtain ⟨hpoint, rfl⟩ := And.imp_right Option.some.inj h
      have hloop : s.point.inLoop = true := by rw [hpoint]; rfl
      rw [run_rmtfs.handled]
      split
      · next hret =>
        exact Move.leave ret ret s.pipe rfl rfl List.suffix_rfl fun hne => absurd hret hne
      · exact .turn .first ret s.pipe rfl rfl hloop rfl List.suffix_rfl
  | signal main =>
      rw [step, Option.ite_none_left_eq_some] at h
      exact signal_moves h.1 h.2
  | start =>
      rw [step, Option.ite_none_left_eq_some, do_rproc_start,
        Option.ite_none_left_eq_some] at h
      obtain ⟨hexited, hstarts, h⟩ := h
      obtain rfl := Option.some.inj h
      exact .start rfl rfl hexited (Nat.pos_of_ne_zero hstarts)
  | stop thread written =>
      rw [step, Option.ite_none_left_eq_some] at h
      exact stop_moves h.1 h.2

/-! ## What a run adds up to

The counters of the state against the events so far. One lemma for each counter says how a move
changes it. -/

/-- How many stop threads there have been, as far as they tell. -/
def System.asked (s : System) : ℕ := s.state_file.count .stop + s.stops.count .pwrite

/-- Whether a pass has yet to ask for a stop. -/
def System.unasked (s : System) : ℕ :=
  if s.point.inLoop = true ∧ s.sig_int_handled = false then 1 else 0

theorem System.unasked_of_not_inLoop (h : s.point.inLoop = false) : s.unasked = 0 := by
  rw [System.unasked, if_neg]
  rintro ⟨hloop, -⟩
  rw [h] at hloop
  cases hloop

/-- A stop thread that was found is one of the threads. -/
theorem perm_of_thread {thread : ℕ} {at_ : StopThread} {stops : List StopThread}
    (h : stops[thread]? = some at_) : stops.Perm (at_ :: stops.eraseIdx thread) := by
  obtain ⟨hlt, rfl⟩ := List.getElem?_eq_some_iff.mp h
  exact (List.getElem_cons_eraseIdx_perm hlt).symm

/-- A stop thread goes on, and the others are where they were. -/
theorem perm_of_set {thread : ℕ} {at_ : StopThread} (at' : StopThread) {stops : List StopThread}
    (h : stops[thread]? = some at_) :
    (stops.set thread at').Perm (at' :: stops.eraseIdx thread) := by
  obtain ⟨hlt, -⟩ := List.getElem?_eq_some_iff.mp h
  exact List.set_perm_cons_eraseIdx hlt at'

section Move

variable (h : Move rprocfd s e t)
include h

theorem Move.signals : t.sig_int_count = s.sig_int_count + if e.isSignal then 1 else 0 := by
  cases h with
  | enter starts he =>
      have hsignal : e.isSignal = false := by cases e <;> first | rfl | cases he
      rw [hsignal]
      rfl
  | signal point ret he hsignal => rw [hsignal, if_pos rfl]
  | _ => simp only [*, Bool.false_eq_true, if_false, Nat.add_zero]

theorem Move.begun : t.starts + t.state_file.count .start ≤
    s.starts + s.state_file.count .start + if e.isOpened then 1 else 0 := by
  cases h with
  | enter starts he hpoint hle =>
      rw [he, if_pos rfl]
      show s.starts + starts + s.state_file.count .start ≤ _
      omega
  | start he hsignal hexited hstarts =>
      rw [he]
      show s.starts - 1 + (s.state_file ++ [Word.start]).count .start ≤ _
      rw [List.count_append, List.count_singleton_self]
      omega
  | pwrite thread he =>
      rw [he]
      show s.starts + (s.state_file ++ [Word.stop]).count .start ≤ _
      rw [List.count_append, List.count_eq_zero_of_not_mem (l := [Word.stop]) (by decide)]
      omega
  | _ => exact Nat.le_add_right _ _

/-- A stop thread comes into being with the first signal. -/
theorem Move.asked : t.asked + t.unasked ≤ s.asked + s.unasked + (if e.isOpened then 1 else 0) ∧
    (0 < t.asked → 0 < s.asked ∨ s.sig_int_count = 1) := by
  cases h with
  | enter starts he hpoint =>
      rw [he, if_pos rfl, System.unasked_of_not_inLoop (s := s) (by rw [hpoint]; rfl)]
      exact ⟨le_rfl, .inl⟩
  | ask threads he hsignal hpoint hrproc hcount hhandled hthreads =>
      have hun : s.unasked = 1 := if_pos ⟨by rw [hpoint]; rfl, hhandled⟩
      -- one request is used up, and at most one thread comes of it
      have hcnt : threads.count .pwrite ≤ 1 := by
        rcases hthreads with rfl | rfl <;> decide
      refine ⟨?_, fun _ => .inr hcount⟩
      rw [hun]
      show s.state_file.count .stop + (s.stops ++ threads).count .pwrite + 0 ≤ _
      rw [List.count_append, System.asked]
      omega
  | turn point ret pipe he hsignal hpoint hpoint' =>
      have hun : System.unasked { s with point := point, ret := ret, pipe := pipe } = s.unasked := by
        rw [System.unasked, System.unasked, hpoint, hpoint']
      rw [hun]
      exact ⟨Nat.le_add_right _ _, .inl⟩
  | quit point ret pipe he hsignal hpoint =>
      rw [System.unasked_of_not_inLoop (s := { s with point := point, ret := ret, pipe := pipe })
        hpoint]
      exact ⟨le_trans (Nat.add_le_add_left (Nat.zero_le s.unasked) s.asked) (Nat.le_add_right _ _),
        .inl⟩
  | signal point ret he hsignal hpoint =>
      have hun : System.unasked { s with
          sig_int_count := s.sig_int_count + 1, ret := ret, point := point } = s.unasked := by
        rw [System.unasked, System.unasked, hpoint]
      rw [hun]
      exact ⟨Nat.le_add_right _ _, .inl⟩
  | start he =>
      have hasked : System.asked { s with
          starts := s.starts - 1, state_file := s.state_file ++ [.start] } = s.asked := by
        rw [System.asked, System.asked, List.count_append]
        rfl
      rw [hasked]
      exact ⟨Nat.le_add_right _ _, .inl⟩
  | pwrite thread he hsignal hexited hthread =>
      have hasked : System.asked { s with
          stops := s.stops.set thread .write
          state_file := s.state_file ++ [.stop] } = s.asked := by
        -- the thread goes over into the file
        rw [System.asked, System.asked, List.count_append, List.count_singleton_self,
          (perm_of_set .write hthread).count_eq, (perm_of_thread hthread).count_eq,
          List.count_cons_self, List.count_cons_of_ne (by decide)]
        omega
      rw [hasked]
      exact ⟨Nat.le_add_right _ _, .inl⟩
  | write thread he hsignal hexited hthread =>
      have hasked : System.asked { s with
          stops := s.stops.eraseIdx thread, pipe := s.pipe ++ ['Y'] } = s.asked := by
        rw [System.asked, System.asked, (perm_of_thread hthread).count_eq,
          List.count_cons_of_ne (by decide)]
      rw [hasked]
      exact ⟨Nat.le_add_right _ _, .inl⟩

theorem Move.told (hs : s.pipe ≠ [] ∨ .write ∈ s.stops → .stop ∈ s.state_file) :
    t.pipe ≠ [] ∨ .write ∈ t.stops → .stop ∈ t.state_file := by
  cases h with
  | ask threads he hsignal hpoint hrproc hcount hhandled hthreads =>
      rintro (hpipe | hmem)
      · exact hs (.inl hpipe)
      · rcases List.mem_append.mp hmem with hmem | hmem
        · exact hs (.inr hmem)
        · rcases hthreads with rfl | rfl
          · exact absurd hmem List.not_mem_nil
          · exact absurd (List.mem_singleton.mp hmem) (by decide)
  | turn point ret pipe he hsignal hpoint hpoint' hpipe =>
      rintro (hne | hmem)
      · exact hs (.inl fun hnil => hne (List.suffix_nil.mp (hnil ▸ hpipe)))
      · exact hs (.inr hmem)
  | quit point ret pipe he hsignal hpoint hpipe =>
      rintro (hne | hmem)
      · exact hs (.inl fun hnil => hne (List.suffix_nil.mp (hnil ▸ hpipe)))
      · exact hs (.inr hmem)
  | start => exact fun ht => List.mem_append_left _ (hs ht)
  | pwrite => exact fun _ => List.mem_append_right _ (List.mem_singleton_self _)
  | write thread he hsignal hexited hthread =>
      exact fun _ => hs (.inr (List.mem_of_getElem? hthread))
  | _ => exact hs

/-- Without `-s` there are no threads. -/
theorem Move.alone (hr : rprocfd = false)
    (hs : s.starts = 0 ∧ s.stops = [] ∧ s.pipe = [] ∧ s.state_file = []) :
    t.starts = 0 ∧ t.stops = [] ∧ t.pipe = [] ∧ t.state_file = [] := by
  obtain ⟨hstarts, hstops, hpipe, hfile⟩ := hs
  cases h with
  | enter starts he hpoint hle hrproc =>
      rcases hrproc with rfl | hrproc
      · exact ⟨hstarts, hstops, hpipe, hfile⟩
      · rw [hr] at hrproc
        cases hrproc
  | ask threads he hsignal hpoint hrproc =>
      rw [hr] at hrproc
      cases hrproc
  | turn point ret pipe he hsignal hpoint hpoint' hsuffix =>
      exact ⟨hstarts, hstops, List.suffix_nil.mp (hpipe ▸ hsuffix), hfile⟩
  | quit point ret pipe he hsignal hpoint hsuffix =>
      exact ⟨hstarts, hstops, List.suffix_nil.mp (hpipe ▸ hsuffix), hfile⟩
  | signal => exact ⟨hstarts, hstops, hpipe, hfile⟩
  | start he hsignal hexited hpos => exact absurd hstarts hpos.ne'
  | pwrite thread he hsignal hexited hthread =>
      rw [hstops] at hthread
      cases hthread
  | write thread he hsignal hexited hthread =>
      rw [hstops] at hthread
      cases hthread

/-- Where the process ends there is a reason. -/
theorem Move.ends (ht : t.point = .exited) :
    s.point = .exited ∨ e.fails = true ∨ 1 < s.sig_int_count ∨ rprocfd = true ∧ s.pipe ≠ [] := by
  cases h with
  | turn point ret pipe he hsignal hpoint hpoint' =>
      rw [show point = .exited from ht] at hpoint'
      cases hpoint'
  | quit point ret pipe he hsignal hpoint hpipe hquits =>
      rcases hquits with hfails | hcount | hpipe | hopening
      · exact .inr (.inl hfails)
      · exact .inr (.inr (.inl hcount))
      · exact .inr (.inr (.inr hpipe))
      · rw [show point = .exited from ht] at hopening
        cases hopening
  | signal point ret he hsignal hpoint hexited => exact absurd ht hexited
  | start => exact .inl ht
  | pwrite => exact .inl ht
  | write => exact .inl ht
  | _ => cases ht

/-- What has been written stays. -/
theorem Move.state_file : s.state_file <+: t.state_file := by
  cases h with
  | start => exact List.prefix_append _ _
  | pwrite => exact List.prefix_append _ _
  | _ => exact List.prefix_rfl

end Move

/-- The state against the events so far. -/
structure Counted (rprocfd : Bool) (past : List Event) (s : System) : Prop where
  signals : s.sig_int_count = past.countP Event.isSignal
  begun : s.starts + s.state_file.count .start ≤ past.countP Event.isOpened
  asked : s.asked + s.unasked ≤ past.countP Event.isOpened
  late : 0 < s.asked → 0 < s.sig_int_count
  told : s.pipe ≠ [] ∨ .write ∈ s.stops → .stop ∈ s.state_file
  alone : rprocfd = false → s.starts = 0 ∧ s.stops = [] ∧ s.pipe = [] ∧ s.state_file = []
  ends : s.point = .exited → (∀ e ∈ past, e.fails = false) →
    2 ≤ s.sig_int_count ∨ rprocfd = true ∧ .stop ∈ s.state_file

theorem counted_boot : Counted rprocfd [] boot where
  signals := rfl
  begun := le_rfl
  asked := le_rfl
  late := fun h => absurd h (lt_irrefl 0)
  told := by
    rintro (h | h)
    · exact absurd rfl h
    · exact absurd h List.not_mem_nil
  alone := fun _ => ⟨rfl, rfl, rfl, rfl⟩
  ends := fun h => by cases h

theorem Counted.step (h : Counted rprocfd past s) (hmove : Move rprocfd s e t) :
    Counted rprocfd (past ++ [e]) t where
  signals := by
    rw [hmove.signals, h.signals, List.countP_append, List.countP_singleton]
  begun := by
    rw [List.countP_append, List.countP_singleton]
    exact le_trans hmove.begun (Nat.add_le_add_right h.begun _)
  asked := by
    rw [List.countP_append, List.countP_singleton]
    exact le_trans hmove.asked.1 (Nat.add_le_add_right h.asked _)
  late := by
    intro hasked
    have hle : s.sig_int_count ≤ t.sig_int_count := by
      rw [hmove.signals]
      exact Nat.le_add_right _ _
    rcases hmove.asked.2 hasked with hs | hcount
    · exact lt_of_lt_of_le (h.late hs) hle
    · omega
  told := hmove.told h.told
  alone := fun hr => hmove.alone hr (h.alone hr)
  ends := by
    intro hexited hfails
    have hle : s.sig_int_count ≤ t.sig_int_count := by
      rw [hmove.signals]
      exact Nat.le_add_right _ _
    rcases hmove.ends hexited with hs | hfail | hcount | ⟨hr, hpipe⟩
    · rcases h.ends hs fun e he => hfails e (List.mem_append_left _ he) with hcount | ⟨hr, hstop⟩
      · exact .inl (le_trans hcount hle)
      · exact .inr ⟨hr, hmove.state_file.subset hstop⟩
    · rw [hfails e (List.mem_append_right _ (List.mem_singleton_self e))] at hfail
      cases hfail
    · exact .inl (le_trans hcount hle)
    · exact .inr ⟨hr, hmove.state_file.subset (h.told (.inl hpipe))⟩

theorem counted_run {events : List Event} (h : run (step rprocfd) boot events = some s) :
    Counted rprocfd events s :=
  run_history (fun _ _ _ _ hs he => hs.step (step_moves he)) counted_boot h

/-- **The modem is started and stopped in step with the passes of the server.** On every run there are
no more words `start` in the `state` file than times the server came to its loop, and no more
words `stop`; the first `stop` comes after a signal; and without `-s` nothing is written. -/
theorem words_in_step (rprocfd : Bool) (events : List Event) (s : System)
    (h : run (step rprocfd) boot events = some s) :
    s.state_file.count .start ≤ events.countP Event.isOpened ∧
      s.state_file.count .stop ≤ events.countP Event.isOpened ∧
      (.stop ∈ s.state_file → 0 < events.countP Event.isSignal) ∧
      (rprocfd = false → s.state_file = []) := by
  have hcounted := counted_run h
  refine ⟨le_trans (Nat.le_add_left _ _) hcounted.begun, ?_, ?_, fun hr => (hcounted.alone hr).2.2.2⟩
  · have hasked := hcounted.asked
    rw [System.asked] at hasked
    omega
  · intro hmem
    have hasked : 0 < s.asked := Nat.add_pos_left (List.count_pos_iff.mpr hmem) _
    rw [← hcounted.signals]
    exact hcounted.late hasked

/-- A signal before the first wait of the server, and a stop thread that has written its word. -/
theorem words_in_step_stopped :
    [Word.start, .stop].count .start ≤
        [Event.opened true true true, .start, .signal true, .go true, .stop 0 true].countP
          Event.isOpened ∧
      [Word.start, .stop].count .stop ≤
        [Event.opened true true true, .start, .signal true, .go true, .stop 0 true].countP
          Event.isOpened ∧
      (Word.stop ∈ [Word.start, .stop] →
        0 < [Event.opened true true true, .start, .signal true, .go true, .stop 0 true].countP
          Event.isSignal) ∧
      (true = false → [Word.start, .stop] = []) :=
  words_in_step true _ ⟨1, true, 0, .call, 0, [.write], [], [.start, .stop]⟩ rfl

/-- **The server ends for a reason.** A run that ends although none of its system calls failed had two
signals, or it had a signal and the modem was told to stop. Without `-s` it had two. -/
theorem ends_for_a_reason (rprocfd : Bool) (events : List Event) (s : System)
    (h : run (step rprocfd) boot events = some s) (hexited : s.point = .exited)
    (hfails : ∀ e ∈ events, e.fails = false) :
    2 ≤ events.countP Event.isSignal ∨
      (rprocfd = true ∧ .stop ∈ s.state_file ∧ events.countP Event.isSignal = 1) := by
  have hcounted := counted_run h
  rcases hcounted.ends hexited hfails with hcount | ⟨hr, hstop⟩
  · exact .inl (hcounted.signals ▸ hcount)
  · have hasked : 0 < s.asked := Nat.add_pos_left (List.count_pos_iff.mpr hstop) _
    have hpos := hcounted.late hasked
    rw [hcounted.signals] at hpos
    by_cases htwo : 2 ≤ events.countP Event.isSignal
    · exact .inl htwo
    · exact .inr ⟨hr, hstop, by omega⟩

/-- A run from the start to the end: the modem is started, a signal wakes the loop, the stop thread
does its two writes, and the loop reads the pipe. -/
theorem ends_for_a_reason_stopped :
    2 ≤ [Event.opened true true true, .start, .go true, .go true, .go true, .signal true, .go true,
        .go true, .stop 0 true, .stop 0 true, .wake true false, .go true].countP Event.isSignal ∨
      (true = true ∧ Word.stop ∈ [Word.start, .stop] ∧
        [Event.opened true true true, .start, .go true, .go true, .go true, .signal true, .go true,
          .go true, .stop 0 true, .stop 0 true, .wake true false, .go true].countP
            Event.isSignal = 1) :=
  ends_for_a_reason true _ ⟨1, true, 1, .exited, 0, [], [], [.start, .stop]⟩ rfl rfl (by decide)

end Dragonboard.Rproc
