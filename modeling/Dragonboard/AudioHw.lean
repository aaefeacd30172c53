/-
The playback stream of `audio/audio_hw.c`.

The functions are those of one `alsa_stream_out`, from the `calloc` in
`adev_open_output_stream` to the `free` in `adev_close_output_stream`. What they ask of
tinyalsa is kept in order, and the calls asked so far tell which pcms are open: a pcm is
open from the `pcm_open` that returned it ready to the `pcm_close` that names it.
`pcm_open` returns a pcm that is ready or one that is not, as the driver likes, and so do
`pcm_mmap_write` and `pcm_get_htimestamp` their results.

The HAL is shipped for 32-bit processes only (`android.hardware.audio@4.0-impl:32` in
`device-common.mk`), so `size_t` is `UInt32`, as `unsigned int` and `useconds_t` are. The two
mutexes are left out (one call at a time), and so are the fields of the stream and of the device
that none of these functions reads.

The stream keeps what a caller may rely on exactly when every start of it gets a ready pcm,
it is closed in standby, and the device did not point to its block before it was opened, or it
plays at least once (`stream_sound_iff`). A start that fails closes the pcm and leaves the
pointer; closing the stream frees it with the pcm open and leaves `active_output` pointing to it,
and `calloc` may hand that address out again.
-/
import Mathlib.Data.List.Induction
import Mathlib.Algebra.Ring.Int.Defs
import Mathlib.Algebra.Group.Nat.Defs

set_option autoImplicit false

namespace Dragonboard.AudioHw

/-! ## The stream, the device and the driver

One stream of the HAL and what its device says of it. The driver is seen through the calls that
the stream makes of tinyalsa; a pcm is named by the `pcm_open` that returned it, so that a stale
pointer can be told from a live one. -/

def CODEC_BASE_FRAME_COUNT : ℕ := 32

def PERIOD_MULTIPLIER : ℕ := 32

def PERIOD_SIZE : ℕ := CODEC_BASE_FRAME_COUNT * PERIOD_MULTIPLIER

def PLAYBACK_PERIOD_COUNT : ℕ := 2

def PLAYBACK_PERIOD_START_THRESHOLD : ℕ := 2

def CODEC_SAMPLING_RATE : ℕ := 48000

def CHANNEL_STEREO : ℕ := 2

def ENODEV : ℤ := 19

def ENOSYS : ℤ := 38

def ENOMEM : ℤ := 12

inductive PcmFormat where
  | S16_LE
deriving DecidableEq, Repr

structure PcmConfig where
  channels : UInt32
  rate : UInt32
  format : PcmFormat
  period_size : UInt32
  period_count : UInt32
  start_threshold : UInt32
  avail_min : UInt32
deriving DecidableEq, Repr

/-- A pcm, named by the `pcm_open` that returned it: the first one is `0`. -/
abbrev Pcm := ℕ

/-- The address of a stream. -/
abbrev Stream := ℕ

/-- `struct alsa_stream_out`, less its methods. -/
structure AlsaStreamOut where
  config : PcmConfig
  pcm : Option Pcm
  unavailable : Bool
  standby : ℤ
  write_threshold : ℤ
  written : UInt32
deriving DecidableEq, Repr

/-- What the stream asks of tinyalsa and of the C library. A pointer that is NULL is
`none`. -/
inductive Call where
  | pcm_open (pcm : Pcm) (ready : Bool)
  | pcm_close (pcm : Option Pcm)
  | pcm_mmap_write (pcm : Option Pcm) (count : UInt32)
  | pcm_get_htimestamp (pcm : Option Pcm)
  | usleep (usec : UInt32)
  | free (stream : Stream)
deriving DecidableEq, Repr

/-- The pcms that are open after one more call. -/
def Call.opens (open_ : List Pcm) : Call → List Pcm
  | .pcm_open pcm true => pcm :: open_
  | .pcm_close (some pcm) => open_.filter (· ≠ pcm)
  | _ => open_

/-- The pcms that are open after some calls. -/
def opened (calls : List Call) : List Pcm := calls.foldl Call.opens []

/-- One stream with its device. `self` is the address of the stream, `pcms` counts the
`pcm_open`s. -/
structure State where
  self : Stream
  out : AlsaStreamOut
  active_output : Option Stream
  pcms : ℕ
  calls : List Call
deriving DecidableEq, Repr

def State.call (s : State) (c : Call) : State := { s with calls := s.calls ++ [c] }

/-! ## The functions

The functions of `audio_hw.c` that belong to an output stream. The HAL is built for 32 bits, so a
`size_t` has 32, and the arguments of calls are cut as their prototypes say. -/

/-- `audio_stream_out_frame_size` of a stream whose samples are 16 bits wide. -/
def audio_stream_out_frame_size (out : AlsaStreamOut) : UInt32 :=
  match out.config.format with
  | .S16_LE => out.config.channels * 2

def out_get_sample_rate (out : AlsaStreamOut) : UInt32 := out.config.rate

def start_output_stream (s : State) (ready : Bool) : ℤ × State :=
  if s.out.unavailable then
    (-ENODEV, s)
  else
    let s := { s with
      out.write_threshold := PLAYBACK_PERIOD_COUNT * PERIOD_SIZE
      out.config.start_threshold := .ofNat (PLAYBACK_PERIOD_START_THRESHOLD * PERIOD_SIZE)
      out.config.avail_min := .ofNat PERIOD_SIZE }
    let pcm := s.pcms
    let s := { s.call (.pcm_open pcm ready) with pcms := pcm + 1, out.pcm := some pcm }
    if !ready then
      -- closed, and `out->pcm` still points at it
      let s := s.call (.pcm_close s.out.pcm)
      (-ENODEV, { s with active_output := none, out.unavailable := true })
    else
      (0, { s with active_output := some s.self })

def do_output_standby (s : State) : ℤ × State :=
  if s.out.standby = 0 then
    let s := s.call (.pcm_close s.out.pcm)
    (0, { s with out.pcm := none, active_output := none, out.standby := 1 })
  else
    (0, s)

def out_standby (s : State) : ℤ × State := do_output_standby s

/-- The part of `out_write` that starts a stream in standby. -/
def out_write.start (s : State) (ready : Bool) : ℤ × State :=
  if s.out.standby ≠ 0 then
    let r := start_output_stream s ready
    -- a stream that does not start stays in standby
    if r.1 ≠ 0 then r else (0, { r.2 with out.standby := 0 })
  else
    (0, s)

/-- The part of `out_write` that hands the frames to tinyalsa. -/
def out_write.transfer (s : State) (bytes : UInt32) (ret : ℤ) : ℤ × State :=
  let frame_size := audio_stream_out_frame_size s.out
  let out_frames := bytes / frame_size
  let s := s.call (.pcm_mmap_write s.out.pcm (out_frames * frame_size))
  if ret = 0 then (ret, { s with out.written := s.out.written + out_frames })
  else (ret, s)

/-- `ready` is what `pcm_is_ready` says of the pcm that a start of the stream gets, `ret` what
`pcm_mmap_write` returns. -/
def out_write (s : State) (bytes : UInt32) (ready : Bool) (ret : ℤ) : Int32 × State :=
  let started := out_write.start s ready
  let wrote := if started.1 ≠ 0 then started else out_write.transfer started.2 bytes ret
  let s := wrote.2
  -- a failed write is hidden: it sleeps for as long as the sound would take, a time that is
  -- computed in an `int64_t` and cut to `useconds_t`
  if wrote.1 ≠ 0 then
    (bytes.toInt32, s.call (.usleep (.ofNat (bytes.toNat * 1000000
      / (audio_stream_out_frame_size s.out).toNat / (out_get_sample_rate s.out).toNat))))
  else
    (bytes.toInt32, s)

/-- `ret` and `avail` are what `pcm_get_htimestamp` returns and stores. The frame count is
computed in `size_t`, which has no sign, and only then widened to an `int64_t`; it is stored if
that is not negative. -/
def out_get_presentation_position (s : State) (ret : ℤ) (avail : UInt32) :
    ℤ × Option ℤ × State :=
  match s.out.pcm with
  | none => (-1, none, s)
  | some pcm =>
    let s := s.call (.pcm_get_htimestamp (some pcm))
    if ret = 0 then
      let kernel_buffer_size := s.out.config.period_size * s.out.config.period_count
      let signed_frames := ((s.out.written - kernel_buffer_size + avail).toNat : ℤ)
      if 0 ≤ signed_frames then (0, some signed_frames, s) else (-1, none, s)
    else
      (-1, none, s)

/-- `params` is whether `pcm_params_get` finds the card, `alloc` the block `calloc` returns.
The caller's configuration is left out: whatever it asks for, it is told what the stream
has, and the result is `0`. -/
def adev_open_output_stream (active_output : Option Stream) (params : Bool) (alloc : Option Stream) :
    ℤ × Option State :=
  if !params then (-ENOSYS, none)
  else
    match alloc with
    | none => (-ENOMEM, none)
    | some self =>
      (0, some
        { self
          out :=
            { config :=
                { channels := .ofNat CHANNEL_STEREO
                  rate := .ofNat CODEC_SAMPLING_RATE
                  format := .S16_LE
                  period_size := .ofNat PERIOD_SIZE
                  period_count := .ofNat PLAYBACK_PERIOD_COUNT
                  start_threshold := 0
                  avail_min := 0 }
              pcm := none
              unavailable := false
              standby := 1
              write_threshold := 0
              written := 0 }
          active_output
          pcms := 0
          calls := [] })

def adev_close_output_stream (s : State) : State := s.call (.free s.self)

/-! ## Runs

The framework opens a stream, writes to it, puts it in standby, asks for its position and closes
it, in any order. `Sound` is what it relies on. -/

/-- A call of the framework on the stream, with what the driver answers. -/
inductive Op where
  | write (bytes : UInt32) (ready : Bool) (ret : ℤ)
  | standby
  | position (ret : ℤ) (avail : UInt32)
deriving DecidableEq, Repr

def Op.isWrite : Op → Bool
  | .write .. => true
  | _ => false

def step (s : State) : Op → State
  | .write bytes ready ret => (out_write s bytes ready ret).2
  | .standby => (out_standby s).2
  | .position ret avail => (out_get_presentation_position s ret avail).2.2

def run (s : State) (ops : List Op) : State := ops.foldl step s

theorem run_append (s : State) (ops : List Op) (op : Op) :
    run s (ops ++ [op]) = step (run s ops) op := by
  simp only [run, List.foldl_append, List.foldl_cons, List.foldl_nil]

/-- `out->pcm` refers to a pcm that is open. -/
def State.PcmOpen (s : State) : Prop :=
  match s.out.pcm with
  | some pcm => pcm ∈ opened s.calls
  | none => False

instance (s : State) : Decidable s.PcmOpen :=
  match h : s.out.pcm with
  | some pcm => decidable_of_iff (pcm ∈ opened s.calls) (by rw [State.PcmOpen, h])
  | none => .isFalse (by rw [State.PcmOpen, h]; exact id)

/-- Between calls, `pcm` and `standby` tell whether the pcm is open. -/
def State.Tracks (s : State) : Prop :=
  (s.out.pcm.isSome ↔ s.PcmOpen) ∧ (s.out.standby = 0 ↔ s.PcmOpen)

instance (s : State) : Decidable s.Tracks := inferInstanceAs (Decidable (_ ∧ _))

/-- A position is only ever asked of an open pcm. -/
def QueriesOpen (calls : List Call) : Prop :=
  ∀ (pre : List Call) (pcm : Option Pcm) (post : List Call),
    calls = pre ++ .pcm_get_htimestamp pcm :: post → ∃ p ∈ pcm, p ∈ opened pre

/-- Nothing of the stream is left behind. -/
def State.Released (s : State) : Prop :=
  opened s.calls = [] ∧ s.active_output ≠ some s.self

/-- What the framework relies on, of a stream from its opening to its close. -/
structure Sound (s : State) (ops : List Op) : Prop where
  tracks : ∀ pre, pre <+: ops → (run s pre).Tracks
  queries : QueriesOpen (adev_close_output_stream (run s ops)).calls
  released : (adev_close_output_stream (run s ops)).Released

/-- Whether the last of the writes and standbys was a write. -/
def playing (ops : List Op) : Bool :=
  ops.foldl (fun b op => match op with
    | .write .. => true
    | .standby => false
    | .position .. => b) false

/-- Every write that starts the stream gets a pcm that is ready. -/
def StartsReady (ops : List Op) : Prop :=
  ∀ pre bytes ret, (pre ++ [.write bytes false ret]) <+: ops → playing pre = true

/-! ## What one call does

The invariant has two cases, standby and playing. A failed start leaves the first and never comes
to the second: `out->pcm` then points to a pcm that was closed. -/

@[simp] theorem opened_append (calls : List Call) (c : Call) :
    opened (calls ++ [c]) = c.opens (opened calls) := by
  simp only [opened, List.foldl_append, List.foldl_cons, List.foldl_nil]

theorem queriesOpen_append {calls : List Call} (h : QueriesOpen calls) {c : Call}
    (hc : ∀ pcm, c = .pcm_get_htimestamp pcm → ∃ p ∈ pcm, p ∈ opened calls) :
    QueriesOpen (calls ++ [c]) := by
  intro pre pcm post he
  rcases List.eq_nil_or_concat post with rfl | ⟨post, last, rfl⟩
  · -- the query is the last call
    obtain ⟨hpre, hlast⟩ := List.append_inj' he rfl
    rw [← hpre]
    exact hc pcm (List.cons.inj hlast).1
  · apply h pre pcm post
    rw [List.concat_eq_append, ← List.cons_append, ← List.append_assoc] at he
    exact List.append_inj_left' he rfl

/-- A call that is no query changes nothing about the queries. -/
theorem queriesOpen_call {calls : List Call} (h : QueriesOpen calls) {c : Call}
    (hc : ∀ pcm, c ≠ .pcm_get_htimestamp pcm) : QueriesOpen (calls ++ [c]) :=
  queriesOpen_append h fun pcm he => absurd he (hc pcm)

/-- A stream as it should be, in standby or playing. In standby nothing is said of
`active_output`: it may be what the device had before the stream was opened. -/
inductive Good : Bool → State → Prop where
  | standby {s : State} (hs : s.out.standby ≠ 0) (hp : s.out.pcm = none)
      (ha : s.out.unavailable = false) (ho : opened s.calls = [])
      (hq : QueriesOpen s.calls) : Good false s
  | playing {s : State} (pcm : Pcm) (hs : s.out.standby = 0) (hp : s.out.pcm = some pcm)
      (ha : s.out.unavailable = false) (ho : opened s.calls = [pcm])
      (hact : s.active_output = some s.self) (hq : QueriesOpen s.calls) : Good true s

theorem Good.queries {b : Bool} {s : State} (h : Good b s) : QueriesOpen s.calls := by
  cases h <;> assumption

theorem Good.tracks {b : Bool} {s : State} (h : Good b s) : s.Tracks := by
  cases h with
  | standby hs hp ha ho hq =>
    constructor <;> simp [State.PcmOpen, hp, hs]
  | playing pcm hs hp ha ho hact hq =>
    constructor <;> simp [State.PcmOpen, hp, hs, ho]

/-- A call that opens and closes no pcm and is no query. -/
def Call.Idle (c : Call) : Prop :=
  (∀ open_, c.opens open_ = open_) ∧ ∀ pcm, c ≠ .pcm_get_htimestamp pcm

theorem Good.call {b : Bool} {s : State} (h : Good b s) {c : Call} (hc : c.Idle) :
    Good b (s.call c) := by
  have ho : opened (s.call c).calls = opened s.calls := by
    rw [State.call, opened_append, hc.1]
  have hq : QueriesOpen (s.call c).calls := queriesOpen_call h.queries hc.2
  cases h with
  | standby hs hp ha ho' _ => exact .standby hs hp ha (ho.trans ho') hq
  | playing pcm hs hp ha ho' hact _ => exact .playing pcm hs hp ha (ho.trans ho') hact hq

theorem mmap_write_idle (pcm : Option Pcm) (count : UInt32) : (Call.pcm_mmap_write pcm count).Idle :=
  ⟨fun _ => rfl, fun _ he => by cases he⟩

theorem usleep_idle (usec : UInt32) : (Call.usleep usec).Idle :=
  ⟨fun _ => rfl, fun _ he => by cases he⟩

theorem transfer_good {s : State} (h : Good true s) (bytes : UInt32) (ret : ℤ) :
    Good true (out_write.transfer s bytes ret).2 := by
  have hw := h.call (mmap_write_idle s.out.pcm
    (bytes / audio_stream_out_frame_size s.out * audio_stream_out_frame_size s.out))
  unfold out_write.transfer
  simp only
  split
  · -- only `written` is counted up
    obtain _ | ⟨pcm, hs, hp, ha, ho, hact, hq⟩ := hw
    exact .playing pcm hs hp ha ho hact hq
  · exact hw

theorem start_output_stream_ready {s : State} (ha : s.out.unavailable = false) :
    ∃ s', start_output_stream s true = (0, s') ∧ s'.out.pcm = some s.pcms ∧
      s'.out.unavailable = false ∧ s'.active_output = some s'.self ∧
      s'.calls = s.calls ++ [.pcm_open s.pcms true] := by
  refine ⟨(start_output_stream s true).2, ?_⟩
  simp [start_output_stream, ha, State.call]

theorem start_output_stream_not_ready {s : State} (ha : s.out.unavailable = false) :
    ∃ s', start_output_stream s false = (-ENODEV, s') ∧ s'.out.pcm = some s.pcms ∧
      s'.calls = s.calls ++ [.pcm_open s.pcms false] ++ [.pcm_close (some s.pcms)] := by
  refine ⟨(start_output_stream s false).2, ?_⟩
  simp [start_output_stream, ha, State.call]

/-- A start that gets a ready pcm, or none that is needed. -/
theorem start_good {b ready : Bool} {s : State} (h : Good b s) (hr : ready = false → b = true) :
    ∃ s', out_write.start s ready = (0, s') ∧ Good true s' := by
  cases h with
  | standby hs hp ha ho hq =>
    have hready : ready = true := by simpa using hr
    subst hready
    obtain ⟨s', he, hp', ha', hact', hcalls⟩ := start_output_stream_ready ha
    refine ⟨{ s' with out.standby := 0 }, by simp [out_write.start, hs, he], ?_⟩
    refine .playing s.pcms rfl hp' ha' ?_ hact' ?_
    · show opened s'.calls = [s.pcms]
      rw [hcalls, opened_append, ho]
      rfl
    · show QueriesOpen s'.calls
      rw [hcalls]
      exact queriesOpen_call hq fun _ he => by cases he
  | playing pcm hs hp ha ho hact hq =>
    exact ⟨s, by simp [out_write.start, hs], .playing pcm hs hp ha ho hact hq⟩

theorem out_write_good {b ready : Bool} {s : State} (h : Good b s) (hr : ready = false → b = true)
    (bytes : UInt32) (ret : ℤ) : Good true (out_write s bytes ready ret).2 := by
  obtain ⟨s', he, hs'⟩ := start_good h hr
  have ht := transfer_good hs' bytes ret
  simp only [out_write, he, ne_eq, not_true_eq_false, if_false]
  split
  · exact ht.call (usleep_idle _)
  · exact ht

/-- A start that gets a pcm that is not ready closes it and leaves `out->pcm` pointing to
it. -/
theorem out_write_not_ready {s : State} (h : Good false s) (bytes : UInt32) (ret : ℤ) :
    ¬ (out_write s bytes false ret).2.Tracks := by
  obtain ⟨hs, hp, ha, ho, hq⟩ := h
  obtain ⟨s', he, hp', hcalls⟩ := start_output_stream_not_ready ha
  have hstart : out_write.start s false = (-ENODEV, s') := by
    simp [out_write.start, hs, he, ENODEV]
  have hopen : opened s'.calls = [] := by
    rw [hcalls, opened_append, opened_append, ho]
    rfl
  intro ht
  have hbad : (out_write s bytes false ret).2.PcmOpen := by
    apply ht.1.mp
    simp [out_write, hstart, ENODEV, State.call, hp']
  simp [out_write, hstart, ENODEV, State.PcmOpen, State.call, hp', Call.opens, hopen] at hbad

theorem standby_good {b : Bool} {s : State} (h : Good b s) : Good false (out_standby s).2 := by
  cases h with
  | standby hs hp ha ho hq =>
    rw [out_standby, do_output_standby, if_neg hs]
    exact .standby hs hp ha ho hq
  | playing pcm hs hp ha ho hact hq =>
    rw [out_standby, do_output_standby, if_pos hs]
    refine .standby Int.one_ne_zero rfl ha ?_ ?_
    · show opened (s.calls ++ [.pcm_close s.out.pcm]) = []
      rw [opened_append, ho, hp]
      simp [Call.opens]
    · exact queriesOpen_call hq fun _ he => by cases he

theorem position_good {b : Bool} {s : State} (h : Good b s) (ret : ℤ) (avail : UInt32) :
    Good b (out_get_presentation_position s ret avail).2.2 := by
  cases h with
  | standby hs hp ha ho hq =>
    simp only [out_get_presentation_position, hp]
    exact .standby hs hp ha ho hq
  | playing pcm hs hp ha ho hact hq =>
    have hs' : (out_get_presentation_position s ret avail).2.2
        = s.call (.pcm_get_htimestamp (some pcm)) := by
      simp only [out_get_presentation_position, hp]
      split
      · split <;> rfl
      · rfl
    rw [hs']
    refine .playing pcm hs hp ha ?_ hact ?_
    · rw [State.call, opened_append]
      exact ho
    · apply queriesOpen_append hq
      intro q he
      cases he
      exact ⟨pcm, rfl, by rw [ho]; exact List.mem_singleton.mpr rfl⟩

/-! ## What a run does

The condition is on the starts of the run, that is, on the writes made in standby. The converse
looks at the first start that goes wrong. -/

theorem playing_append (ops : List Op) (op : Op) :
    playing (ops ++ [op]) = match op with
      | .write .. => true
      | .standby => false
      | .position .. => playing ops := by
  simp only [playing, List.foldl_append, List.foldl_cons, List.foldl_nil]

theorem StartsReady.of_append {ops : List Op} {op : Op} (h : StartsReady (ops ++ [op])) :
    StartsReady ops :=
  fun pre bytes ret hpre => h pre bytes ret (hpre.trans (List.prefix_append ops [op]))

theorem step_good {ops : List Op} {s : State} (h : Good (playing ops) s) {op : Op}
    (hop : ∀ bytes ret, op = .write bytes false ret → playing ops = true) :
    Good (playing (ops ++ [op])) (step s op) := by
  rw [playing_append]
  cases op with
  | write bytes ready ret =>
    apply out_write_good h
    intro hr
    exact hop bytes ret (by rw [hr])
  | standby => exact standby_good h
  | position ret avail => exact position_good h ret avail

/-- The stream as `adev_open_output_stream` returns it. -/
theorem open_good {active_output : Option Stream} {self : Stream} {s : State}
    (hopen : adev_open_output_stream active_output true (some self) = (0, some s)) :
    Good false s := by
  cases hopen
  refine .standby Int.one_ne_zero rfl rfl rfl ?_
  intro pre pcm post he
  exact absurd he (by simp)

theorem run_good {s : State} (hs : Good false s) (ops : List Op) (h : StartsReady ops) :
    Good (playing ops) (run s ops) := by
  induction ops using List.reverseRecOn with
  | nil => exact hs
  | append_singleton ops op ih =>
    rw [run_append]
    apply step_good (ih h.of_append)
    intro bytes ret hop
    exact h ops bytes ret (hop ▸ List.prefix_refl _)

/-- A run that keeps track of the pcm throughout has only starts that get a ready pcm: the
first that does not would leave a stale pointer. -/
theorem startsReady_of_tracks {s : State} (hs : Good false s) (ops : List Op)
    (h : ∀ pre, pre <+: ops → (run s pre).Tracks) : StartsReady ops := by
  induction ops using List.reverseRecOn with
  | nil =>
    intro pre bytes ret hpre
    exact absurd (List.prefix_nil.mp hpre) (by simp)
  | append_singleton ops op ih =>
    have hready : StartsReady ops :=
      ih fun pre hpre => h pre (hpre.trans (List.prefix_append ops [op]))
    intro pre bytes ret hpre
    rcases List.prefix_concat_iff.mp hpre with hlast | hpre
    · obtain ⟨rfl, hop⟩ := List.append_inj' hlast rfl
      cases hop
      by_contra hidle
      have hgood := run_good hs pre hready
      rw [Bool.not_eq_true] at hidle
      rw [hidle] at hgood
      apply out_write_not_ready hgood bytes ret
      have ht := h _ (List.prefix_refl _)
      rw [run_append] at ht
      exact ht
    · exact hready pre bytes ret hpre

theorem isWrite_of_playing {ops : List Op} (h : playing ops = true) :
    ∃ op ∈ ops, op.isWrite = true := by
  induction ops using List.reverseRecOn with
  | nil => exact absurd h (by decide)
  | append_singleton ops op ih =>
    rw [playing_append] at h
    cases op with
    | write bytes ready ret => exact ⟨_, List.mem_concat_self, rfl⟩
    | standby => exact absurd h Bool.false_ne_true
    | position ret avail =>
      obtain ⟨op, hop, hw⟩ := ih h
      exact ⟨op, List.mem_append_left _ hop, hw⟩

/-- A stream in standby is the device's active one only if it was so when it was opened and
has never played: the standby of a stream that plays takes the pointer back. -/
theorem active_output_of_standby {s : State} (hs : Good false s) (ops : List Op)
    (h : StartsReady ops) (hidle : playing ops = false) :
    (run s ops).active_output = some (run s ops).self ↔
      s.active_output = some s.self ∧ ¬ ∃ op ∈ ops, op.isWrite = true := by
  induction ops using List.reverseRecOn with
  | nil =>
    rw [and_iff_left]
    · rfl
    · rintro ⟨op, hop, -⟩
      cases hop
  | append_singleton ops op ih =>
    have hgood := run_good hs ops h.of_append
    rw [playing_append] at hidle
    -- a call that is no write says nothing about whether there was one
    have hlast : ∀ op : Op, op.isWrite = false →
        ((∃ o ∈ ops ++ [op], o.isWrite = true) ↔ ∃ o ∈ ops, o.isWrite = true) := by
      intro op hop
      simp [or_and_right, exists_or, hop]
    rw [run_append]
    cases op with
    | write bytes ready ret => exact absurd hidle.symm Bool.false_ne_true
    | standby =>
      rw [hlast .standby rfl]
      by_cases hplays : playing ops = true
      · rw [hplays] at hgood
        obtain _ | ⟨pcm, hstandby, -⟩ := hgood
        refine iff_of_false ?_ fun hr => hr.2 (isWrite_of_playing hplays)
        simp [step, out_standby, do_output_standby, hstandby]
      · rw [Bool.not_eq_true] at hplays
        rw [hplays] at hgood
        obtain ⟨hstandby, -⟩ := hgood
        rw [step, out_standby, do_output_standby, if_neg hstandby]
        exact ih h.of_append hplays
    | position ret avail =>
      have hkeeps : (step (run s ops) (.position ret avail)).active_output
          = (run s ops).active_output ∧
          (step (run s ops) (.position ret avail)).self = (run s ops).self := by
        simp only [step, out_get_presentation_position]
        split
        · exact ⟨rfl, rfl⟩
        · split
          · split <;> exact ⟨rfl, rfl⟩
          · exact ⟨rfl, rfl⟩
      rw [hlast (.position ret avail) rfl, hkeeps.1, hkeeps.2]
      exact ih h.of_append hidle

theorem released_iff {b : Bool} {s : State} (h : Good b s) :
    (adev_close_output_stream s).Released ↔ b = false ∧ s.active_output ≠ some s.self := by
  have ho : opened (adev_close_output_stream s).calls = opened s.calls := opened_append _ _
  cases h with
  | standby hs hp ha ho' hq =>
    rw [and_iff_right rfl]
    exact ⟨fun hr => hr.2, fun hact => ⟨ho.trans ho', hact⟩⟩
  | playing pcm hs hp ha ho' hact hq =>
    exact iff_of_false (fun hr => hr.2 hact) fun hr => hr.2 hact

/-- A stream that was just opened keeps what the framework relies on exactly when every write
that starts it gets a ready pcm, it is closed in standby, and the device did not point to its
block when it was opened, or something is written. -/
theorem stream_sound_iff (active_output : Option Stream) (self : Stream) (s : State)
    (hopen : adev_open_output_stream active_output true (some self) = (0, some s))
    (ops : List Op) :
    Sound s ops ↔ StartsReady ops ∧ playing ops = false ∧
      (active_output = some self → ∃ op ∈ ops, op.isWrite = true) := by
  have hs := open_good hopen
  have hbefore : s.active_output = some s.self ↔ active_output = some self := by
    cases hopen
    rfl
  -- what is left in the device by a run that ends in standby
  have hleft : StartsReady ops → playing ops = false →
      ((run s ops).active_output ≠ some (run s ops).self ↔
        (active_output = some self → ∃ op ∈ ops, op.isWrite = true)) := by
    intro hready hidle
    rw [ne_eq, active_output_of_standby hs ops hready hidle, hbefore, not_and, not_not]
  constructor
  · intro h
    have hready := startsReady_of_tracks hs ops h.tracks
    obtain ⟨hidle, hact⟩ := (released_iff (run_good hs ops hready)).mp h.released
    exact ⟨hready, hidle, (hleft hready hidle).mp hact⟩
  · rintro ⟨hready, hidle, hwrites⟩
    have hgood := run_good hs ops hready
    refine ⟨?_, ?_, (released_iff hgood).mpr ⟨hidle, (hleft hready hidle).mpr hwrites⟩⟩
    · intro pre hpre
      apply (run_good hs pre _).tracks
      intro pre' bytes ret hpre'
      exact hready pre' bytes ret (hpre'.trans hpre)
    · apply queriesOpen_call hgood.queries
      intro pcm he
      cases he

/-- A stream that plays, tells its position and goes to standby is as it should be, also in the
block that a stream closed too early has left the device pointing to. -/
theorem stream_sound_played :
    ∃ s, adev_open_output_stream (some 1) true (some 1) = (0, some s) ∧
      Sound s [.write 4096 true 0, .position 0 16, .standby] := by
  refine ⟨_, rfl, (stream_sound_iff (some 1) 1 _ rfl _).mpr ⟨?_, by decide, fun _ => by decide⟩⟩
  intro pre bytes ret hpre
  have hmem : Op.write bytes false ret ∈ [Op.write 4096 true 0, .position 0 16, .standby] :=
    hpre.subset (List.mem_append_right pre (List.mem_singleton.mpr rfl))
  simp at hmem

/-- The first write gets a pcm that is not ready, and the position is asked of the closed
pcm; a stream that is closed while it plays leaves its pcm open; and one that is opened in the
block the device still points to, and closed at once, is left as the active one. -/
theorem stream_not_sound :
    (∃ s, adev_open_output_stream none true (some 1) = (0, some s) ∧
      ¬ QueriesOpen (run s [.write 4096 false 0, .position 0 16]).calls ∧
      ¬ Sound s [.write 4096 false 0, .position 0 16]) ∧
    (∃ s, adev_open_output_stream none true (some 1) = (0, some s) ∧
      opened (adev_close_output_stream (run s [.write 4096 true 0])).calls = [0] ∧
      ¬ Sound s [.write 4096 true 0]) ∧
    ∃ s, adev_open_output_stream (some 1) true (some 1) = (0, some s) ∧ ¬ Sound s [] := by
  refine ⟨⟨_, rfl, ?_, ?_⟩, ⟨_, rfl, by decide, ?_⟩, _, rfl, ?_⟩
  · intro h
    obtain ⟨p, -, hp⟩ := h [.pcm_open 0 false, .pcm_close (some 0), .usleep 21333] (some 0) [] (by decide)
    exact absurd hp (by simp [opened, Call.opens])
  · intro h
    exact absurd (h.tracks [.write 4096 false 0] (by decide)) (by decide)
  · intro h
    exact absurd h.released.1 (by decide)
  · intro h
    exact h.released.2 rfl

end Dragonboard.AudioHw
