/-
`qcom/rmtfs/rmtfs.c` (`main`, `run_rmtfs`, `sig_int_handler`) and `qcom/rmtfs/rproc.c`: how the server
has the modem started and stopped, and when it ends.

There is a main thread, a thread for each word that is to be written to the `state` file of the
modem, and a signal handler that runs in any of them. The threads meet in the pipe where a stop thread
says that it is done. A step of the model is what one of them does from one system call to the next,
in any order. `select` is split where it begins to wait, since a signal that comes before does
not end it.

What a request does is not a part of this: `handle_rmtfs` returns any value.
-/
import Mathlib.Data.Int.Notation
import Dragonboard.Runs

set_option autoImplicit false

namespace Dragonboard.Rproc

open Dragonboard.Runs

/-! ## The server

`main` and `run_rmtfs` as a step relation of three kinds of threads: the main thread, threads that
start the modem, and threads that stop it. The points of the main thread are its system calls and
the tests of `sig_int_count` between them, since a signal may come in between. -/

/-- `ENETRESET`. -/
def ENETRESET : ℤ := 102

/-- What is written to the `state` file. -/
inductive Word
  | start
  | stop
deriving DecidableEq, Repr

/-- The two writes of `do_rproc_stop`: to the `state` file, and to the pipe. -/
inductive StopThread
  | pwrite
  | write
deriving DecidableEq, Repr

/-- Where the main thread stands: in `run_rmtfs` before its loop, before each of the two tests of
`sig_int_count`, before `select`, in it, after it with what it has found, in `handle_rmtfs`, or
nowhere, as the process has ended. -/
inductive Point
  | opening
  | first
  | second
  | call
  | blocked
  | selected (rproc rmtfs : Bool)
  | handling
  | exited
deriving DecidableEq, Repr

/-- The process. Of the start threads only their number is kept, as each has one write to do. -/
structure System where
  sig_int_count : ℕ
  sig_int_handled : Bool
  ret : ℤ
  point : Point
  starts : ℕ
  stops : List StopThread
  pipe : List Char
  state_file : List Word
deriving Repr

/-- What happens next. `qrtr_open`, `qrtr_publish`, `pthread_create` and the `write` to the pipe succeed
or fail. -/
inductive Event
  | opened (sock publish created : Bool)
  | go (created : Bool)
  | wake (rproc rmtfs : Bool)
  | fail
  | handled (ret : ℤ)
  | signal (main : Bool)
  | start
  | stop (thread : ℕ) (written : Bool)
deriving DecidableEq, Repr

/-- The process at the `do` of `main`. -/
def boot : System := ⟨0, false, 0, .opening, 0, [], [], []⟩

/-- `run_rmtfs` returns, and `main` calls it again or ends the process. -/
def System.leave (s : System) (ret : ℤ) : System :=
  if ret = -ENETRESET then { s with point := .opening } else { s with point := .exited }

/-- `sig_int_handler`. -/
def sig_int_handler (s : System) : System := { s with sig_int_count := s.sig_int_count + 1 }

/-- `rproc_start`, when there is a thread. -/
def rproc_start (s : System) (created : Bool) : System :=
  if created then { s with starts := s.starts + 1 } else s

/-- `rproc_stop`, when there is a thread. -/
def rproc_stop (s : System) (created : Bool) : System :=
  if created then { s with stops := s.stops ++ [.pwrite] } else s

/-- The lines of `run_rmtfs` before its loop. The library answers -1 when it fails. -/
def run_rmtfs.open (rprocfd : Bool) (s : System) (sock publish created : Bool) : System :=
  if !sock then s.leave (-1)
  else if !publish then s.leave (-1)
  else
    let s := { s with point := .first, ret := 0, sig_int_handled := false }
    if rprocfd then rproc_start s created else s

/-- The loop of `run_rmtfs` from a test, or from what `select` has found, to the next system call. -/
def run_rmtfs.go (rprocfd : Bool) (s : System) (created : Bool) : Option System :=
  match s.point with
  | .first =>
    if rprocfd ∧ s.sig_int_count = 1 ∧ !s.sig_int_handled then
      some { rproc_stop s created with sig_int_handled := true, point := .call }
    else some { s with point := .second }
  | .second =>
    if 1 < s.sig_int_count then some (s.leave s.ret) else some { s with point := .call }
  | .call => some { s with point := .blocked }
  | .selected rproc rmtfs =>
    let point := if rmtfs then .handling else .first
    if rprocfd ∧ rproc then
      match s.pipe with
      | [] => none
      | c :: pipe =>
        let s := { s with ret := 1, pipe := pipe }
        if c = 'Y' then some (s.leave 1) else some { s with point := point }
    else some { s with point := point }
  | _ => none

/-- What `handle_rmtfs` returns to the loop. -/
def run_rmtfs.handled (s : System) (ret : ℤ) : System :=
  if ret = -ENETRESET then { s with ret := ret }.leave ret
  else { s with ret := ret, point := .first }

/-- What a stop thread does next. Where it cannot write to the pipe it ends the process. -/
def do_rproc_stop (s : System) (thread : ℕ) (written : Bool) : Option System :=
  match s.stops[thread]? with
  | none => none
  | some .pwrite =>
    some { s with
      stops := s.stops.set thread .write
      state_file := s.state_file ++ [.stop] }
  | some .write =>
    if written then some { s with stops := s.stops.eraseIdx thread, pipe := s.pipe ++ ['Y'] }
    else some { s with point := .exited }

/-- What a start thread does. -/
def do_rproc_start (s : System) : Option System :=
  if s.starts = 0 then none
  else some { s with starts := s.starts - 1, state_file := s.state_file ++ [.start] }

/-- A signal is taken by the main thread, and ends its `select`, or by another thread. -/
def System.signal (s : System) (main : Bool) : Option System :=
  if main then
    if s.point = .blocked then some { sig_int_handler s with ret := -1, point := .first }
    else some (sig_int_handler s)
  else if s.starts = 0 ∧ s.stops = [] then none
  else some (sig_int_handler s)

/-- What an event does, or nothing if it does not come now. `rprocfd` says whether the process
was given `-s`. The pipe is found readable when there is something in it. -/
def step (rprocfd : Bool) (s : System) : Event → Option System
  | .opened sock publish created =>
    if s.point = .opening then some (run_rmtfs.open rprocfd s sock publish created) else none
  | .go created => if s.point = .exited then none else run_rmtfs.go rprocfd s created
  | .wake rproc rmtfs =>
    if s.point = .blocked ∧ (rproc ∨ rmtfs) ∧ (rproc → rprocfd ∧ s.pipe ≠ []) then
      some { s with ret := rproc.toNat + rmtfs.toNat, point := .selected rproc rmtfs }
    else none
  | .fail => if s.point = .blocked then some ({ s with ret := -1 }.leave (-1)) else none
  | .handled ret => if s.point = .handling then some (run_rmtfs.handled s ret) else none
  | .signal main => if s.point = .exited then none else s.signal main
  | .start => if s.point = .exited then none else do_rproc_start s
  | .stop thread written => if s.point = .exited then none else do_rproc_stop s thread written

end Dragonboard.Rproc
