/-
The shadow buffer as a file.

In read-only mode the storage code keeps the partition in memory: reads and writes go to a heap
block of which the first `shadow_len` bytes count. It is meant to behave like a
file, and the abstract file here is a byte memory that is zero from its end on, so
that gaps and reads past the end need no cases.

The block agrees with the file as long as reads and writes start at or before `shadow_len`.
Past it the code goes wrong in two ways. A read computes `shadow_len - offset` in
unsigned arithmetic and copies from outside the block; a write grows the block and leaves
what `realloc` returned between the old end and the new bytes.
-/
import Dragonboard.Memory
import Dragonboard.Storage

set_option autoImplicit false

namespace Dragonboard.Rmtfs

open Dragonboard.Memory

/-! ## Runs on a handle

The shadow buffer and the plain file under the same calls, side by side. -/

/-- A call on the open handle, of one sector. -/
inductive ShadowOp where
  | pread (offset : ℕ)
  | pwrite (offset : ℕ) (bytes : List UInt8)

/-- The calls considered: offsets are those of an `off_t`, writes are sectors that end below the
maximal size. -/
def ShadowOp.Ok : ShadowOp → Prop
  | .pread offset => offset < 2 ^ 63
  | .pwrite offset bytes =>
    bytes.length = SECTOR_SIZE ∧ offset + SECTOR_SIZE < STORAGE_MAX_SIZE

/-- The offset of a call. -/
def ShadowOp.offset : ShadowOp → ℕ
  | .pread offset => offset
  | .pwrite offset _ => offset

section Runs

variable {W : Type} (sys : Sys W) (cfg : Config)

/-- The handle after a call, and the world. -/
def shadowStep (p : Rmtfd × W) : ShadowOp → Option (Rmtfd × W)
  | .pread offset =>
    (storage_pread sys cfg p.1 p.2 [] SECTOR_SIZE offset).map fun r => (p.1, r.2)
  | .pwrite offset bytes => some (storage_pwrite sys cfg p.1 p.2 bytes offset).2

/-- A run of calls. -/
def shadowRun : List ShadowOp → Rmtfd × W → Option (Rmtfd × W)
  | [], p => some p
  | op :: ops, p => (shadowStep sys cfg p op).bind (shadowRun ops)

/-- The plain file under the same call. -/
def fileStep (f : Mem) : ShadowOp → Mem
  | .pread _ => f
  | .pwrite offset bytes => writeAt f offset bytes

/-- The plain file that holds the given bytes. -/
def fileOf (content : List UInt8) : Mem := fun i => content.getD i 0

/-- A read gives the bytes of the file, and copies only from the first `shadow_len` bytes of the
buffer. -/
def ReadsFile (p : Rmtfd × W) (f : Mem) : ShadowOp → Prop
  | .pread offset =>
    (storage_pread sys cfg p.1 p.2 [] SECTOR_SIZE offset).map Prod.fst =
        some (bytesAt f offset SECTOR_SIZE) ∧
      (storage_pread.copied p.1.shadow_len SECTOR_SIZE offset = 0 ∨
        offset + storage_pread.copied p.1.shadow_len SECTOR_SIZE offset ≤ p.1.shadow_len)
  | .pwrite _ _ => True

/-- Every call of the run starts at or before the end it meets. -/
def StartsInside : List ShadowOp → Rmtfd × W → Prop
  | [], _ => True
  | op :: ops, p => op.offset ≤ p.1.shadow_len ∧
      ∀ q, shadowStep sys cfg p op = some q → StartsInside ops q

end Runs

/-! ## The shadow buffer holds the file

The relation between the two. It is kept as long as no call starts behind the end of the file:
there the buffer has no bytes, and the subtraction of the lengths wraps. -/

/-- The first `shadow_len` bytes of the block are the file, which is zero from there on. -/
structure Shadows (r : Rmtfd) (f : Mem) : Prop where
  small : r.shadow_len < 2 ^ 63
  block : ∃ buf, r.shadow_buf = some buf ∧ r.shadow_len ≤ buf.length ∧
    ∀ i, f i = if i < r.shadow_len then buf.getD i 0 else 0

theorem sizeSub_of_le {a b : ℕ} (h : b ≤ a) (ha : a < 2 ^ 64) : sizeSub a b = a - b := by
  unfold sizeSub
  omega

theorem copied_eq {len n offset : ℕ} (h : offset ≤ len) (hlen : len < 2 ^ 63) :
    storage_pread.copied len n offset = min n (len - offset) := by
  rw [storage_pread.copied, sizeSub_of_le h (by omega)]

/-- A read that starts inside the file. -/
theorem Shadows.pread {r : Rmtfd} {f : Mem} (h : Shadows r f) {n offset : ℕ}
    (hoff : offset ≤ r.shadow_len) :
    storage_pread.shadow r n offset = some (bytesAt f offset n) := by
  obtain ⟨buf, hbuf, hle, hf⟩ := h.block
  have hcopied := copied_eq (n := n) hoff h.small
  have hbytes : bytesAt f offset n = (buf.drop offset).take (min n (r.shadow_len - offset)) ++
      List.replicate (n - min n (r.shadow_len - offset)) 0 := by
    refine List.ext_getElem (by simp; omega) fun i h1 h2 => ?_
    rw [bytesAt_length] at h1
    rw [bytesAt_getElem, hf, List.getElem_append]
    by_cases hi : offset + i < r.shadow_len
    · have hlt : i < ((buf.drop offset).take (min n (r.shadow_len - offset))).length := by
        simp
        omega
      rw [if_pos hi, dif_pos hlt, List.getElem_take, List.getElem_drop,
        List.getD_eq_getElem _ _ (by omega)]
    · have hge : ¬ i < ((buf.drop offset).take (min n (r.shadow_len - offset))).length := by
        simp
        omega
      rw [if_neg hi, dif_neg hge, List.getElem_replicate]
  unfold storage_pread.shadow
  simp only [hcopied]
  by_cases h0 : min n (r.shadow_len - offset) = 0
  · rw [if_pos h0, hbytes, h0]
    simp
  · rw [if_neg h0, hbuf]
    simp only
    rw [if_pos (by omega), hbytes]

theorem getD_overwrite {buf bytes : List UInt8} {offset : ℕ}
    (h : offset + bytes.length ≤ buf.length) (i : ℕ) :
    (overwrite buf bytes offset).getD i 0 =
      if offset ≤ i ∧ i < offset + bytes.length then bytes.getD (i - offset) 0
      else buf.getD i 0 := by
  unfold overwrite
  rcases Nat.lt_or_ge i offset with hi | hi
  · rw [if_neg (by omega), List.append_assoc, List.getD_append _ _ _ _ (by simp; omega)]
    simp [List.getD_eq_getElem?_getD, hi]
  rcases Nat.lt_or_ge i (offset + bytes.length) with hi' | hi'
  · rw [if_pos ⟨hi, hi'⟩, List.getD_append _ _ _ _ (by simp; omega),
      List.getD_append_right _ _ _ _ (by simp; omega)]
    congr 1
    simp
    omega
  · rw [if_neg (by omega), List.getD_append_right _ _ _ _ (by simp; omega)]
    simp only [List.getD_eq_getElem?_getD, List.getElem?_drop, List.length_append,
      List.length_take]
    congr 2
    omega

theorem length_overwrite {buf bytes : List UInt8} {offset : ℕ}
    (h : offset + bytes.length ≤ buf.length) : (overwrite buf bytes offset).length = buf.length := by
  unfold overwrite
  simp
  omega

theorem getD_resize (buf : List UInt8) (fresh : ℕ → UInt8) {len i : ℕ} (h : i < len)
    (hbuf : i < buf.length) : (resize buf fresh len).getD i 0 = buf.getD i 0 := by
  unfold resize
  rw [List.getD_eq_getElem _ _ (by simpa using h), List.getD_eq_getElem _ _ hbuf]
  simp [hbuf]

/-- Bytes put into a block of which the first `len` bytes are the file, at or before `len`. -/
theorem file_overwrite (buf bytes : List UInt8) (f : Mem) {len offset : ℕ} (hoff : offset ≤ len)
    (hfit : offset + bytes.length ≤ buf.length)
    (hf : ∀ i, f i = if i < len then buf.getD i 0 else 0) (i : ℕ) :
    writeAt f offset bytes i =
      if i < max len (offset + bytes.length) then (overwrite buf bytes offset).getD i 0 else 0 := by
  rw [getD_overwrite hfit, writeAt]
  by_cases hin : offset ≤ i ∧ i < offset + bytes.length
  · rw [if_pos hin, if_pos (by omega), if_pos hin]
  · rw [if_neg hin, if_neg hin, hf]
    by_cases hi : i < len
    · rw [if_pos hi, if_pos (by omega)]
    · rw [if_neg hi, if_neg (by omega)]

section Writes

variable {W : Type} {sys : Sys W} {cfg : Config} {r : Rmtfd} {f : Mem}

/-- A write that starts inside the file. -/
theorem Shadows.pwrite (h : Shadows r f) (hro : cfg.storage_read_only = true)
    (halloc : ∀ w n, (sys.realloc w n).1.isSome) (w : W) {offset : ℕ} {bytes : List UInt8}
    (hoff : offset ≤ r.shadow_len) (hmax : offset + bytes.length < STORAGE_MAX_SIZE) :
    Shadows (storage_pwrite sys cfg r w bytes offset).2.1 (writeAt f offset bytes) := by
  obtain ⟨buf, hbuf, hle, hf⟩ := h.block
  have hsmall := h.small
  unfold storage_pwrite
  simp only [hro, Bool.not_true, Bool.false_eq_true, if_false]
  rw [if_neg (by omega)]
  by_cases hgrow : offset + bytes.length > r.shadow_len
  · rw [if_pos hgrow]
    have hsome := halloc w (offset + bytes.length)
    generalize sys.realloc w (offset + bytes.length) = a at hsome
    obtain ⟨fresh, w'⟩ := a
    obtain ⟨fresh, rfl⟩ := Option.isSome_iff_exists.mp hsome
    refine ⟨?_, _, rfl, ?_, fun i => ?_⟩
    · simp only [STORAGE_MAX_SIZE] at hmax ⊢
      omega
    · rw [length_overwrite (by simp [resize])]
      simp [resize]
    · rw [hbuf, Option.getD_some]
      -- growing the block does not touch the bytes that count
      have hgrown : ∀ j, f j = if j < r.shadow_len then
          (resize buf fresh (offset + bytes.length)).getD j 0 else 0 := by
        intro j
        rw [hf]
        by_cases hj : j < r.shadow_len
        · rw [if_pos hj, if_pos hj, getD_resize _ _ (by omega) (by omega)]
        · rw [if_neg hj, if_neg hj]
      have hwrite := file_overwrite _ bytes f hoff (by simp [resize]) hgrown i
      rwa [max_eq_right (by omega)] at hwrite
  · rw [if_neg hgrow]
    refine ⟨hsmall, overwrite buf bytes offset, by simp [hbuf], ?_, fun i => ?_⟩
    · rw [length_overwrite (by omega)]
      exact hle
    · have hwrite := file_overwrite buf bytes f hoff (by omega) hf i
      rwa [max_eq_left (by omega)] at hwrite

/-- A read that starts inside the file gives its bytes. -/
theorem Shadows.readsFile {p : Rmtfd × W} (h : Shadows p.1 f)
    (hro : cfg.storage_read_only = true) {op : ShadowOp} (hoff : op.offset ≤ p.1.shadow_len) :
    ReadsFile sys cfg p f op := by
  cases op with
  | pwrite offset bytes => trivial
  | pread offset =>
    have hoff' : offset ≤ p.1.shadow_len := hoff
    refine ⟨?_, .inr ?_⟩
    · rw [storage_pread, if_pos hro, h.pread hoff']
      simp only [Option.map_some]
    · rw [copied_eq hoff' h.small]
      omega

/-- A call that starts inside the file is carried out and keeps the buffer and the file
together. -/
theorem Shadows.step {p : Rmtfd × W} (h : Shadows p.1 f) (hro : cfg.storage_read_only = true)
    (halloc : ∀ w n, (sys.realloc w n).1.isSome) {op : ShadowOp} (hop : op.Ok)
    (hoff : op.offset ≤ p.1.shadow_len) :
    ∃ q, shadowStep sys cfg p op = some q ∧ Shadows q.1 (fileStep f op) := by
  cases op with
  | pread offset =>
    have hfile : ReadsFile sys cfg p f (.pread offset) := h.readsFile hro hoff
    have hread := hfile.1
    obtain ⟨r, hr, -⟩ := Option.map_eq_some_iff.mp hread
    refine ⟨(p.1, r.2), ?_, h⟩
    simp only [shadowStep, hr, Option.map_some]
  | pwrite offset bytes =>
    refine ⟨_, rfl, h.pwrite hro halloc p.2 hoff ?_⟩
    rw [hop.1]
    exact hop.2

/-- Along a run that starts every call inside the file, the two stay together, and the next call
starts inside the file too. -/
theorem Shadows.run {pre post : List ShadowOp} {op : ShadowOp} {p : Rmtfd × W}
    (h : Shadows p.1 f) (hro : cfg.storage_read_only = true)
    (halloc : ∀ w n, (sys.realloc w n).1.isSome) (hops : ∀ o ∈ pre, o.Ok)
    (hin : StartsInside sys cfg (pre ++ op :: post) p) :
    ∃ q, shadowRun sys cfg pre p = some q ∧ Shadows q.1 (pre.foldl fileStep f) ∧
      op.offset ≤ q.1.shadow_len := by
  induction pre generalizing p f with
  | nil => exact ⟨p, rfl, h, hin.1⟩
  | cons o pre ih =>
    obtain ⟨x, hx, hshadows⟩ := h.step hro halloc (hops o List.mem_cons_self) hin.1
    obtain ⟨q, hq, hrest⟩ :=
      ih hshadows (fun o ho => hops o (List.mem_cons_of_mem _ ho)) (hin.2 x hx)
    refine ⟨q, ?_, hrest⟩
    rw [shadowRun, hx, Option.bind_some, hq]

/-- The buffer as it is loaded holds the file. -/
theorem shadows_loaded {w w' : W} {file : String} {buf : List UInt8} {len : ℕ}
    (hload : storage_populate_shadow_buf sys w file = (some (buf, len), w'))
    (hsmall : buf.length < 2 ^ 63) (r : Rmtfd) :
    Shadows { r with shadow_buf := some buf, shadow_len := len } (fileOf (buf.take len)) := by
  have hlen : len ≤ buf.length := by
    unfold storage_populate_shadow_buf at hload
    split at hload
    · cases hload
    split at hload
    · cases hload
    split at hload
    · cases hload
    split at hload
    · cases hload
    · cases hload
      simp
  refine ⟨by simp only; omega, buf, rfl, hlen, fun i => ?_⟩
  simp only [fileOf, List.getD_eq_getElem?_getD, List.getElem?_take]
  split <;> simp

end Writes

/-- **The shadow buffer agrees with a plain file, as long as no call starts past its end.** Whatever
file was loaded, and whatever `realloc` leaves in new memory: if every call of a run starts at or
before the `shadow_len` it meets, then the run is carried out up to any of its calls, and that
call, if it is a read, returns the bytes of the file and copies only bytes that count. -/
theorem shadow_agrees_with_file {W : Type} (sys : Sys W) (cfg : Config)
    (hro : cfg.storage_read_only = true) (halloc : ∀ w n, (sys.realloc w n).1.isSome) (w w' : W)
    (file : String) (buf : List UInt8) (len : ℕ)
    (hload : storage_populate_shadow_buf sys w file = (some (buf, len), w'))
    (hsmall : buf.length < 2 ^ 63) (r : Rmtfd) (pre : List ShadowOp) (op : ShadowOp)
    (post : List ShadowOp) (hops : ∀ o ∈ pre ++ op :: post, o.Ok)
    (hin : StartsInside sys cfg (pre ++ op :: post)
      ({ r with shadow_buf := some buf, shadow_len := len }, w')) :
    ∃ q, shadowRun sys cfg pre ({ r with shadow_buf := some buf, shadow_len := len }, w') = some q ∧
      ReadsFile sys cfg q (pre.foldl fileStep (fileOf (buf.take len))) op := by
  obtain ⟨q, hq, hshadows, hoff⟩ := (shadows_loaded hload hsmall r).run
    (p := ({ r with shadow_buf := some buf, shadow_len := len }, w')) hro halloc
    (fun o ho => hops o (List.mem_append_left _ ho)) hin
  exact ⟨q, hq, hshadows.readsFile hro hoff⟩

/-- A system on which every file is one byte, 7, and new memory is filled with 255. -/
def oneByteFiles : Sys Unit where
  open_rdwr _ _ := (some 3, ())
  open_rdonly _ _ := (some 3, ())
  lseek_end _ _ := (some 1, ())
  read _ _ _ := (some [7], ())
  pread _ _ _ _ := (some [7], ())
  pwrite _ _ bytes _ := (some bytes.length, ())
  close _ _ := ()
  calloc _ _ := (true, ())
  realloc _ _ := (some fun _ => 255, ())

/-- The read-only configuration. -/
def readOnly : Config := (storage_init none true false).1

/-- A handle on which the one byte was loaded. -/
def oneByteHandle : Rmtfd × Unit := (⟨0, 1, none, 0, none, some [7], 1⟩, ())

/-- A sector of ones. -/
def ones : List UInt8 := List.replicate SECTOR_SIZE 1

/-- A sector of ones written over the one byte, and then read back. -/
theorem shadow_agrees_with_file_written :
    ∃ q, shadowRun oneByteFiles readOnly [.pwrite 0 ones] oneByteHandle = some q ∧
      ReadsFile oneByteFiles readOnly q ([.pwrite 0 ones].foldl fileStep (fileOf [7]))
        (.pread 0) := by
  have hops : ∀ o ∈ [ShadowOp.pwrite 0 ones] ++ [.pread 0], o.Ok := by
    intro o ho
    rw [List.singleton_append, List.mem_cons, List.mem_singleton] at ho
    rcases ho with rfl | rfl
    · exact ⟨List.length_replicate, by decide⟩
    · change 0 < 2 ^ 63
      decide
  exact shadow_agrees_with_file oneByteFiles readOnly rfl (fun _ _ => rfl) () () "" [7] 1 rfl
    (by decide) oneByteHandle.1 [.pwrite 0 ones] (.pread 0) [] hops
    ⟨Nat.zero_le _, fun q _ => ⟨Nat.zero_le _, fun _ _ => trivial⟩⟩

/-- Reading the second sector of the one-byte file copies 512 bytes from outside the block. -/
theorem shadow_read_past_end :
    storage_populate_shadow_buf oneByteFiles () "" = (some ([7], 1), ()) ∧
    ¬ ∀ pre op, (∀ o ∈ pre ++ [op], o.Ok) →
      ∃ q, shadowRun oneByteFiles readOnly pre oneByteHandle = some q ∧
        ReadsFile oneByteFiles readOnly q (pre.foldl fileStep (fileOf [7])) op := by
  refine ⟨rfl, fun hall => ?_⟩
  obtain ⟨q, hq, hread, -⟩ := hall [] (.pread 512) fun o ho => by
    rw [List.nil_append, List.mem_singleton] at ho
    subst ho
    change 512 < 2 ^ 63
    decide
  cases hq
  have hnone : storage_pread oneByteFiles readOnly oneByteHandle.1 () [] SECTOR_SIZE 512 = none := by
    decide +kernel
  have hnone' : storage_pread oneByteFiles readOnly oneByteHandle.1 oneByteHandle.2 []
      SECTOR_SIZE 512 = none := hnone
  rw [hnone', Option.map_none] at hread
  cases hread

end Dragonboard.Rmtfs
