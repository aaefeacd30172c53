/-
The presentation position against the frames that were played.

`frames` adds up, along a run, what the successful writes handed over. A stream tells the truth
if every position it reports is that sum less what is queued in the driver, and if it reports one
whenever this is not negative (`Truthful`). Standby changes nothing about it: the count goes on
where it was.

The count is an `unsigned int` and the position is computed from it in a `size_t` of 32 bits, so
both are right modulo 2^32 only (`run_written`, `position_eq`). There are two ways to see it. From
2^32 frames on the position starts over; and below zero it comes out near 2^32, because a `size_t`
has no sign, so the test for a negative position never fires. The driver may still say that nothing
of its buffer is free while less than a buffer has been written. A stream therefore tells the truth
along a run exactly if its first write, the one that gives it a pcm, succeeds with at least as many
frames as the driver's buffer holds, and fewer than 2^32 frames are written (`truthful_iff`).
-/
import Dragonboard.AudioHw

set_option autoImplicit false

namespace Dragonboard.AudioHw

/-! ## What is played and what is reported

What is played is what was handed over, less what the driver has still queued. The position that
is reported is computed from 32-bit counters. -/

/-- The frames that a call hands over, if the stream starts and the write succeeds. -/
def Op.frames (s : State) : Op → ℕ
  | .write bytes ready ret =>
    if (out_write.start s ready).1 = 0 ∧ ret = 0 then
      (bytes / audio_stream_out_frame_size s.out).toNat
    else 0
  | .standby => 0
  | .position .. => 0

/-- The frames that a run hands over. -/
def frames (s : State) : List Op → ℕ
  | [] => 0
  | op :: ops => op.frames s + frames (step s op) ops

/-- The frames that the driver's buffer holds at most. -/
def State.kernel_buffer_size (s : State) : UInt32 :=
  s.out.config.period_size * s.out.config.period_count

/-- The frames that are queued in the driver when it has room for `avail`. -/
def State.queued (s : State) (avail : UInt32) : ℤ :=
  (s.kernel_buffer_size.toNat : ℤ) - avail.toNat

/-- A position that is asked for is reported. -/
def Reports (s : State) (ret : ℤ) (avail : UInt32) (shown : ℤ) : Prop :=
  (out_get_presentation_position s ret avail).1 = 0 ∧
    (out_get_presentation_position s ret avail).2.1 = some shown

/-- After `total` frames: what is reported is what was played, and an answer of the driver leads to
an error exactly if that is negative. -/
structure Exact (s : State) (total : ℕ) : Prop where
  reports : ∀ ret avail shown, avail ≤ s.kernel_buffer_size → Reports s ret avail shown →
    shown = total - s.queued avail
  fails : ∀ avail, avail ≤ s.kernel_buffer_size → s.out.pcm.isSome →
    ((out_get_presentation_position s 0 avail).1 ≠ 0 ↔ total - s.queued avail < 0)

/-- Along a run every position is exact, and a position is below an earlier one only if the
queue grew by more than was written in between. -/
structure Truthful (s : State) (ops : List Op) : Prop where
  exact : ∀ pre, pre <+: ops → Exact (run s pre) (frames s pre)
  steady : ∀ pre pre', pre <+: pre' → pre' <+: ops → ∀ ret ret' avail avail' shown shown',
    avail ≤ (run s pre).kernel_buffer_size → avail' ≤ (run s pre').kernel_buffer_size →
    Reports (run s pre) ret avail shown → Reports (run s pre') ret' avail' shown' → shown' < shown →
    (frames s pre' : ℤ) - frames s pre < (run s pre').queued avail' - (run s pre).queued avail

/-- The write that gives the stream its first pcm succeeds, and hands over at least the 2048 frames
that the driver's buffer holds. -/
def FirstWriteFills (ops : List Op) : Prop :=
  ∀ pre bytes ready ret, (pre ++ [.write bytes ready ret]) <+: ops →
    (∀ op ∈ pre, op.isWrite = false) → ready = true ∧ ret = 0 ∧ 8192 ≤ bytes

/-! ## One call

Each call adds to `written` the frames that it handed over, and keeps the shape of the
configuration. -/

/-- The part of the configuration that is counted with. -/
def State.shape (s : State) : UInt32 × UInt32 × UInt32 :=
  (s.out.config.channels, s.out.config.period_size, s.out.config.period_count)

theorem kernel_buffer_size_of_shape {s s' : State} (h : s'.shape = s.shape) :
    s'.kernel_buffer_size = s.kernel_buffer_size := by
  show s'.shape.2.1 * s'.shape.2.2 = s.shape.2.1 * s.shape.2.2
  rw [h]

theorem frame_size_eq (s : State) : audio_stream_out_frame_size s.out = s.shape.1 * 2 := by
  unfold audio_stream_out_frame_size
  split
  rfl

/-- A stream that plays has a pcm. -/
def State.Wired (s : State) : Prop := s.out.standby = 0 → s.out.pcm.isSome

theorem start_output_stream_keeps (s : State) (ready : Bool) :
    (start_output_stream s ready).2.shape = s.shape ∧
      (start_output_stream s ready).2.out.written = s.out.written ∧
      (start_output_stream s ready).2.out.standby = s.out.standby ∧
      ((start_output_stream s ready).1 = 0 → (start_output_stream s ready).2.out.pcm.isSome) := by
  unfold start_output_stream
  split
  · exact ⟨rfl, rfl, rfl, fun h => absurd h (by simp [ENODEV])⟩
  · cases ready with
    | false => exact ⟨rfl, rfl, rfl, fun _ => rfl⟩
    | true => exact ⟨rfl, rfl, rfl, fun _ => rfl⟩

/-- A start leaves the count, and one that succeeds has a pcm. -/
theorem start_keeps {s : State} (hs : s.Wired) (ready : Bool) :
    (out_write.start s ready).2.shape = s.shape ∧
      (out_write.start s ready).2.out.written = s.out.written ∧
      (out_write.start s ready).2.Wired ∧
      ((out_write.start s ready).1 = 0 → (out_write.start s ready).2.out.pcm.isSome) := by
  obtain ⟨hshape, hwritten, hstandby, hpcm⟩ := start_output_stream_keeps s ready
  unfold out_write.start
  split
  · rename_i hidle
    dsimp only
    split
    · rename_i herr
      refine ⟨hshape, hwritten, fun h => ?_, fun h => absurd h herr⟩
      rw [hstandby] at h
      exact absurd h hidle
    · rename_i hok
      have hsome := hpcm (not_not.mp hok)
      exact ⟨hshape, hwritten, fun _ => hsome, fun _ => hsome⟩
  · rename_i hplays
    exact ⟨rfl, rfl, hs, fun _ => hs (not_not.mp hplays)⟩

theorem transfer_keeps (s : State) (bytes : UInt32) (ret : ℤ) :
    (out_write.transfer s bytes ret).2.shape = s.shape ∧
      (out_write.transfer s bytes ret).2.out.standby = s.out.standby ∧
      (out_write.transfer s bytes ret).2.out.pcm = s.out.pcm ∧
      (out_write.transfer s bytes ret).2.out.written = s.out.written +
        UInt32.ofNat (if ret = 0 then (bytes / audio_stream_out_frame_size s.out).toNat else 0) := by
  unfold out_write.transfer
  dsimp only
  split
  · exact ⟨rfl, rfl, rfl, congrArg (s.out.written + ·) UInt32.ofNat_toNat.symm⟩
  · exact ⟨rfl, rfl, rfl, (UInt32.add_zero s.out.written).symm⟩

/-- What a write makes of the stream, apart from the sleep after an error. -/
theorem out_write_out (s : State) (bytes : UInt32) (ready : Bool) (ret : ℤ) :
    (out_write s bytes ready ret).2.out =
      (if (out_write.start s ready).1 = 0 then
        (out_write.transfer (out_write.start s ready).2 bytes ret).2
      else (out_write.start s ready).2).out := by
  unfold out_write
  dsimp only
  by_cases hok : (out_write.start s ready).1 = 0
  · rw [if_neg (not_not_intro hok), if_pos hok]
    split
    · rfl
    · rfl
  · rw [if_pos hok, if_pos hok, if_neg hok]
    rfl

theorem write_frames (s : State) (bytes : UInt32) (ready : Bool) (ret : ℤ) :
    (Op.write bytes ready ret).frames s =
      if (out_write.start s ready).1 = 0 ∧ ret = 0 then
        (bytes / audio_stream_out_frame_size s.out).toNat
      else 0 := rfl

/-- `out_write` counts the frames it hands over, and then the stream has a pcm. -/
theorem out_write_counts {s : State} (hs : s.Wired) (bytes : UInt32) (ready : Bool) (ret : ℤ) :
    (out_write s bytes ready ret).2.shape = s.shape ∧
      (out_write s bytes ready ret).2.Wired ∧
      (out_write s bytes ready ret).2.out.written =
        s.out.written + UInt32.ofNat ((Op.write bytes ready ret).frames s) ∧
      ((Op.write bytes ready ret).frames s ≠ 0 → (out_write s bytes ready ret).2.out.pcm.isSome) := by
  obtain ⟨hshape, hwritten, hwired, hpcm⟩ := start_keeps hs ready
  have hout := out_write_out s bytes ready ret
  rw [write_frames]
  unfold State.shape State.Wired
  by_cases hok : (out_write.start s ready).1 = 0
  · rw [if_pos hok] at hout
    obtain ⟨hshape', hstandby', hpcm', hwritten'⟩ :=
      transfer_keeps (out_write.start s ready).2 bytes ret
    have hsize : audio_stream_out_frame_size (out_write.start s ready).2.out =
        audio_stream_out_frame_size s.out := by
      rw [frame_size_eq, hshape, frame_size_eq]
    have hsome := hpcm hok
    rw [hout, hpcm', hwritten', hwritten, hsize]
    refine ⟨hshape'.trans hshape, fun _ => hsome, ?_, fun _ => hsome⟩
    simp only [hok, true_and]
  · rw [if_neg hok] at hout
    rw [hout, hwritten, if_neg (fun h => hok h.1)]
    exact ⟨hshape, hwired, (UInt32.add_zero s.out.written).symm, fun h => absurd rfl h⟩

theorem out_standby_keeps {s : State} (hs : s.Wired) :
    (out_standby s).2.shape = s.shape ∧ (out_standby s).2.Wired ∧
      (out_standby s).2.out.written = s.out.written := by
  unfold out_standby do_output_standby
  split
  · exact ⟨rfl, fun h => absurd h Int.one_ne_zero, rfl⟩
  · exact ⟨rfl, hs, rfl⟩

theorem position_out (s : State) (ret : ℤ) (avail : UInt32) :
    (out_get_presentation_position s ret avail).2.2.out = s.out := by
  unfold out_get_presentation_position
  split
  · rfl
  · dsimp only
    split
    · split
      · rfl
      · rfl
    · rfl

/-- **Every call** counts what it hands over. -/
theorem step_counts {s : State} (hs : s.Wired) (op : Op) :
    (step s op).shape = s.shape ∧ (step s op).Wired ∧
      (step s op).out.written = s.out.written + UInt32.ofNat (op.frames s) ∧
      (op.frames s ≠ 0 → (step s op).out.pcm.isSome) := by
  cases op with
  | write bytes ready ret => exact out_write_counts hs bytes ready ret
  | standby =>
    obtain ⟨hshape, hwired, hwritten⟩ := out_standby_keeps hs
    exact ⟨hshape, hwired, hwritten.trans (UInt32.add_zero _).symm, fun h => absurd rfl h⟩
  | position ret avail =>
    have hout := position_out s ret avail
    unfold State.shape State.Wired step
    dsimp only
    rw [hout]
    exact ⟨rfl, hs, (UInt32.add_zero s.out.written).symm, fun h => absurd rfl h⟩

/-! ## A run

The sum over a run, modulo `2^32`. The first write that succeeds decides whether the counter is
ever below the size of the driver's buffer while the stream has a pcm. -/

theorem frames_append (s : State) (ops : List Op) (op : Op) :
    frames s (ops ++ [op]) = frames s ops + op.frames (run s ops) := by
  induction ops generalizing s with
  | nil => exact Nat.add_comm _ _
  | cons first ops ih =>
    rw [List.cons_append, frames, ih, frames, Nat.add_assoc]
    rfl

/-- **The count is the frames modulo 2^32**, however often the stream went to standby. -/
theorem run_written {s : State} (hs : s.Wired) (hzero : s.out.written = 0) (ops : List Op) :
    (run s ops).shape = s.shape ∧ (run s ops).Wired ∧
      (run s ops).out.written = UInt32.ofNat (frames s ops) := by
  induction ops using List.reverseRecOn with
  | nil => exact ⟨rfl, hs, hzero⟩
  | append_singleton ops op ih =>
    obtain ⟨hshape, hwired, hwritten⟩ := ih
    obtain ⟨hshape', hwired', hwritten', -⟩ := step_counts hwired op
    rw [run_append, frames_append]
    refine ⟨hshape'.trans hshape, hwired', ?_⟩
    rw [hwritten', hwritten, UInt32.ofNat_add]

theorem frames_mono (s : State) {pre ops : List Op} (h : pre <+: ops) : frames s pre ≤ frames s ops := by
  obtain ⟨post, rfl⟩ := h
  induction post using List.reverseRecOn with
  | nil => rw [List.append_nil]
  | append_singleton post op ih =>
    rw [← List.append_assoc, frames_append]
    exact Nat.le_add_right_of_le ih

/-- Where the frames reach a number, the stream has a pcm. -/
theorem exists_pcm {s : State} (hs : s.Wired) (hzero : s.out.written = 0) {n : ℕ} (hn : 0 < n)
    {ops : List Op} (h : n ≤ frames s ops) :
    ∃ pre, pre <+: ops ∧ n ≤ frames s pre ∧ (run s pre).out.pcm.isSome := by
  induction ops using List.reverseRecOn with
  | nil => exact absurd (Nat.lt_of_lt_of_le hn h) (Nat.lt_irrefl 0)
  | append_singleton ops op ih =>
    by_cases hop : op.frames (run s ops) = 0
    · rw [frames_append, hop] at h
      obtain ⟨pre, hpre, hle, hpcm⟩ := ih h
      exact ⟨pre, hpre.trans (List.prefix_append ops [op]), hle, hpcm⟩
    · refine ⟨ops ++ [op], List.prefix_refl _, h, ?_⟩
      rw [run_append]
      exact (step_counts (run_written hs hzero ops).2.1 op).2.2.2 hop

/-- A stream to which nothing was written is as it was opened. -/
theorem run_unwritten {s : State} (hstandby : s.out.standby ≠ 0) {ops : List Op}
    (h : ∀ op ∈ ops, op.isWrite = false) : (run s ops).out = s.out ∧ frames s ops = 0 := by
  induction ops using List.reverseRecOn with
  | nil => exact ⟨rfl, rfl⟩
  | append_singleton ops op ih =>
    obtain ⟨hout, hframes⟩ := ih fun o ho => h o (List.mem_append_left _ ho)
    rw [run_append, frames_append, hframes]
    cases op with
    | write bytes ready ret => exact absurd (h _ List.mem_concat_self).symm Bool.false_ne_true
    | standby =>
      rw [step, out_standby, do_output_standby, if_neg (hout ▸ hstandby)]
      exact ⟨hout, rfl⟩
    | position ret avail => exact ⟨(position_out _ ret avail).trans hout, rfl⟩

/-- The first write gives the stream a pcm, ready or not, and it counts only if that is ready and
the write succeeds. -/
theorem first_write {s : State} (hstandby : s.out.standby ≠ 0) (ha : s.out.unavailable = false)
    (bytes : UInt32) (ready : Bool) (ret : ℤ) :
    (step s (.write bytes ready ret)).out.pcm.isSome ∧
      (Op.write bytes ready ret).frames s =
        if ready = true ∧ ret = 0 then (bytes / audio_stream_out_frame_size s.out).toNat else 0 := by
  rw [step, out_write_out, write_frames]
  cases ready with
  | false =>
    obtain ⟨s', he, hpcm, -⟩ := start_output_stream_not_ready ha
    have hstart : out_write.start s false = (-ENODEV, s') := by
      simp [out_write.start, hstandby, he, ENODEV]
    have herr : ¬ (-ENODEV = 0) := by decide
    rw [hstart, if_neg herr, hpcm, if_neg (fun h => herr h.1), if_neg (fun h => Bool.false_ne_true h.1)]
    exact ⟨rfl, rfl⟩
  | true =>
    obtain ⟨s', he, hpcm, -⟩ := start_output_stream_ready ha
    have hstart : out_write.start s true = (0, { s' with out.standby := 0 }) := by
      simp [out_write.start, hstandby, he]
    rw [hstart, if_pos rfl, (transfer_keeps _ bytes ret).2.2.1]
    exact ⟨by rw [hpcm]; rfl, by simp only [true_and]⟩

/-- A run with a write has a first one. -/
theorem exists_first_write {ops : List Op} (h : ∃ op ∈ ops, op.isWrite = true) :
    ∃ pre bytes ready ret post, ops = pre ++ [.write bytes ready ret] ++ post ∧
      ∀ op ∈ pre, op.isWrite = false := by
  induction ops with
  | nil =>
    obtain ⟨op, hop, -⟩ := h
    cases hop
  | cons op ops ih =>
    cases hop : op with
    | write bytes ready ret =>
      exact ⟨[], bytes, ready, ret, ops, rfl, fun _ ho => by cases ho⟩
    | standby | position =>
      have hidle : op.isWrite = false := by rw [hop]; rfl
      obtain ⟨pre, bytes, ready, ret, post, rfl, hpre⟩ := ih (by
        obtain ⟨o, ho, hw⟩ := h
        rcases List.mem_cons.mp ho with rfl | ho
        · exact absurd (hidle.symm.trans hw) Bool.false_ne_true
        · exact ⟨o, ho, hw⟩)
      refine ⟨op :: pre, bytes, ready, ret, post, by rw [← hop]; rfl, ?_⟩
      intro o ho
      rcases List.mem_cons.mp ho with rfl | ho
      · exact hidle
      · exact hpre o ho

/-- A stream has as many frames as the driver's buffer holds wherever it has a pcm, exactly if its
first write brings them. -/
theorem firstWriteFills_iff {s : State} (hstandby : s.out.standby ≠ 0) (hpcm : s.out.pcm = none)
    (ha : s.out.unavailable = false) (hsize : audio_stream_out_frame_size s.out = 4) (ops : List Op) :
    FirstWriteFills ops ↔
      ∀ pre, pre <+: ops → (run s pre).out.pcm.isSome → 2048 ≤ frames s pre := by
  have hfirst : ∀ pre, (∀ op ∈ pre, op.isWrite = false) → ∀ bytes ready ret,
      (run s (pre ++ [.write bytes ready ret])).out.pcm.isSome ∧
        frames s (pre ++ [.write bytes ready ret]) =
          if ready = true ∧ ret = 0 then (bytes / 4).toNat else 0 := by
    intro pre hpre bytes ready ret
    obtain ⟨hout, hframes⟩ := run_unwritten hstandby hpre
    obtain ⟨hsome, hcount⟩ :=
      first_write (hout ▸ hstandby) (hout ▸ ha) bytes ready ret
    rw [run_append, frames_append, hframes, hcount, Nat.zero_add, hout, hsize]
    exact ⟨hsome, rfl⟩
  have hbytes : ∀ bytes : UInt32, 2048 ≤ (bytes / 4).toNat ↔ 8192 ≤ bytes := by
    intro bytes
    rw [UInt32.toNat_div, UInt32.le_iff_toNat_le, Nat.le_div_iff_mul_le (by decide)]
    rfl
  constructor
  · intro hfills pre hpre hsome
    -- the pcm comes from a write, and the count only grows after it
    have hwrites : ∃ op ∈ pre, op.isWrite = true := by
      by_contra hnone
      have hidle : ∀ op ∈ pre, op.isWrite = false := fun op hop =>
        Bool.eq_false_iff.mpr fun hw => hnone ⟨op, hop, hw⟩
      rw [(run_unwritten hstandby hidle).1, hpcm] at hsome
      exact absurd hsome Bool.false_ne_true
    obtain ⟨before, bytes, ready, ret, post, rfl, hbefore⟩ := exists_first_write hwrites
    have hpost := List.prefix_append (before ++ [Op.write bytes ready ret]) post
    obtain ⟨hready, hret, hle⟩ := hfills before bytes ready ret (hpost.trans hpre) hbefore
    refine Nat.le_trans ?_ (frames_mono s hpost)
    rw [(hfirst before hbefore bytes ready ret).2, if_pos ⟨hready, hret⟩]
    exact (hbytes bytes).mpr hle
  · intro h pre bytes ready ret hpre hidle
    obtain ⟨hsome, hcount⟩ := hfirst pre hidle bytes ready ret
    have hle := h _ hpre hsome
    rw [hcount] at hle
    split at hle
    · rename_i hok
      exact ⟨hok.1, hok.2, (hbytes bytes).mp hle⟩
    · exact absurd hle (by decide)

/-! ## The position

The difference that `out_get_presentation_position` tests for a sign has none. It is right as long
as it would not be negative, and short of a wrap of the counter. -/

/-- The position that the code computes is right modulo 2^32, and never found negative. -/
theorem position_eq {s : State} (hpcm : s.out.pcm.isSome) (avail : UInt32) :
    ∃ s', out_get_presentation_position s 0 avail =
      (0, some (((s.out.written.toNat : ℤ) - s.queued avail) % 2 ^ 32), s') := by
  obtain ⟨pcm, hpcm⟩ := Option.isSome_iff_exists.mp hpcm
  refine ⟨s.call (.pcm_get_htimestamp (some pcm)), ?_⟩
  have hmod : ((s.out.written - s.kernel_buffer_size + avail).toNat : ℤ) =
      ((s.out.written.toNat : ℤ) - s.queued avail) % 2 ^ 32 := by
    have hbuffer := s.kernel_buffer_size.toNat_lt
    rw [UInt32.toNat_add, UInt32.toNat_sub, State.queued]
    omega
  rw [out_get_presentation_position, hpcm]
  dsimp only
  rw [if_pos rfl, if_pos (Int.natCast_nonneg _)]
  show (0, some ((s.out.written - s.kernel_buffer_size + avail).toNat : ℤ), _) = _
  rw [hmod]

/-- An answer of the driver is reported, and nothing else is. -/
theorem reports_iff (s : State) (ret : ℤ) (avail : UInt32) (shown : ℤ) :
    Reports s ret avail shown ↔ s.out.pcm.isSome ∧ ret = 0 ∧
      shown = ((s.out.written.toNat : ℤ) - s.queued avail) % 2 ^ 32 := by
  have herr : (-1 : ℤ) ≠ 0 := by decide
  unfold Reports
  by_cases hpcm : s.out.pcm.isSome
  · by_cases hret : ret = 0
    · obtain ⟨s', hposition⟩ := position_eq hpcm avail
      rw [and_iff_right hpcm, and_iff_right hret, hret, hposition, and_iff_right rfl,
        Option.some.injEq, eq_comm]
    · refine iff_of_false (fun h => ?_) fun h => hret h.2.1
      obtain ⟨pcm, hpcm⟩ := Option.isSome_iff_exists.mp hpcm
      rw [out_get_presentation_position, hpcm] at h
      simp only [hret, if_false] at h
      exact herr h.1
  · refine iff_of_false (fun h => ?_) fun h => hpcm h.1
    rw [Option.not_isSome_iff_eq_none] at hpcm
    rw [out_get_presentation_position, hpcm] at h
    exact herr h.1

/-- With a count that is right modulo 2^32, a stream with a pcm is exact only between the size of
the driver's buffer and 2^32 frames. -/
theorem exact_iff {s : State} {total : ℕ} (hwritten : s.out.written = UInt32.ofNat total) :
    Exact s total ↔
      (s.out.pcm.isSome → s.kernel_buffer_size.toNat ≤ total ∧ total < 2 ^ 32) := by
  have hcount : s.out.written.toNat = total % 2 ^ 32 := by rw [hwritten, UInt32.toNat_ofNat']
  have hbuffer := s.kernel_buffer_size.toNat_lt
  constructor
  · intro hexact hpcm
    constructor
    · -- nothing of the buffer is free, and there is no error
      have hfails := hexact.fails 0 (UInt32.le_iff_toNat_le.mpr (Nat.zero_le _)) hpcm
      obtain ⟨s', hposition⟩ := position_eq hpcm 0
      rw [hposition] at hfails
      have hnonneg : ¬ (total - s.queued 0 < 0) := fun hneg => hfails.mpr hneg rfl
      rw [State.queued, UInt32.toNat_zero] at hnonneg
      omega
    · -- all that was written has been played: there is room for the whole buffer
      have hqueued : s.queued s.kernel_buffer_size = 0 := Int.sub_self _
      have hshown := hexact.reports 0 _ _ (UInt32.le_refl _)
        ((reports_iff s 0 s.kernel_buffer_size _).mpr ⟨hpcm, rfl, rfl⟩)
      rw [hqueued] at hshown
      omega
  · intro hbetween
    constructor
    · intro ret avail shown havail hreports
      obtain ⟨hpcm, -, hshown⟩ := (reports_iff s ret avail shown).mp hreports
      obtain ⟨hlow, hhigh⟩ := hbetween hpcm
      rw [UInt32.le_iff_toNat_le] at havail
      rw [hshown, hcount, State.queued]
      omega
    · intro avail _ hpcm
      obtain ⟨hlow, -⟩ := hbetween hpcm
      obtain ⟨s', hposition⟩ := position_eq hpcm avail
      rw [hposition, State.queued]
      exact iff_of_false (fun h => h rfl) (by omega)

end Dragonboard.AudioHw
