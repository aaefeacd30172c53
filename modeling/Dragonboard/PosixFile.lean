/-
Files, and descriptors that stand somewhere in them.

A descriptor that was opened stands at the start of its file, and every `write` puts its bytes
where the descriptor stands and moves it behind them. The bytes of the file that are not
written over stay, unless the file was truncated when it was opened. What a descriptor does leaves
a file alone that it does not stand in (`Away`).
-/
import Mathlib.Data.List.Basic
import Mathlib.Logic.Function.Basic

set_option autoImplicit false

namespace Dragonboard.PosixFile

/-! ## Bytes in a file

Writing at an offset replaces what is there, and makes the file longer where it ends before that. -/

/-- The content of a file after bytes were put at an offset. -/
def splice (content : List UInt8) (offset : ℕ) (bytes : List UInt8) : List UInt8 :=
  content.take offset ++ bytes ++ content.drop (offset + bytes.length)

theorem splice_nil (content : List UInt8) (offset : ℕ) : splice content offset [] = content := by
  simp [splice]

theorem splice_zero (content bytes : List UInt8) :
    splice content 0 bytes = bytes ++ content.drop bytes.length := by
  simp [splice]

theorem le_length_splice {content : List UInt8} {offset : ℕ} (h : offset ≤ content.length)
    (bytes : List UInt8) : offset + bytes.length ≤ (splice content offset bytes).length := by
  simp only [splice, List.length_append, List.length_take, List.length_drop]
  omega

/-- Bytes put behind bytes are put there with them. -/
theorem splice_splice {content : List UInt8} {offset : ℕ} (h : offset ≤ content.length)
    (bytes more : List UInt8) :
    splice (splice content offset bytes) (offset + bytes.length) more
      = splice content offset (bytes ++ more) := by
  have hfront : (content.take offset ++ bytes).length = offset + bytes.length := by
    rw [List.length_append, List.length_take, Nat.min_eq_left h]
  have htake : (splice content offset bytes).take (offset + bytes.length)
      = content.take offset ++ bytes := List.take_left' hfront
  have hback : (splice content offset bytes).drop (offset + bytes.length)
      = content.drop (offset + bytes.length) := List.drop_left' hfront
  have hdrop : (splice content offset bytes).drop (offset + bytes.length + more.length)
      = content.drop (offset + (bytes ++ more).length) := by
    rw [← List.drop_drop, hback, List.drop_drop, List.length_append, Nat.add_assoc]
  rw [splice, htake, hdrop, splice]
  simp only [List.append_assoc]

/-! ## Descriptors

A descriptor stands in a file, and a write moves it on. -/

variable {Path : Type} [DecidableEq Path]

/-- The files, and for each open descriptor its file and where it stands. -/
structure Disk (Path : Type) where
  files : Path → Option (List UInt8)
  descriptors : ℕ → Option (Path × ℕ)

namespace Disk

/-- A file is made if there is none. -/
def open_ (d : Disk Path) (fd : ℕ) (path : Path) (truncate : Bool) : Disk Path where
  files := Function.update d.files path (some (if truncate then [] else (d.files path).getD []))
  descriptors := Function.update d.descriptors fd (some (path, 0))

def write (d : Disk Path) (fd : ℕ) (bytes : List UInt8) : Disk Path :=
  match d.descriptors fd with
  | none => d
  | some (path, offset) =>
    { files := Function.update d.files path ((d.files path).map fun content => splice content offset bytes)
      descriptors := Function.update d.descriptors fd (some (path, offset + bytes.length)) }

def close (d : Disk Path) (fd : ℕ) : Disk Path :=
  { d with descriptors := Function.update d.descriptors fd none }

/-- The descriptor stands at an offset of the file, and the file has this content. -/
structure Stands (d : Disk Path) (fd : ℕ) (path : Path) (offset : ℕ) (content : List UInt8) :
    Prop where
  file : d.files path = some content
  descriptor : d.descriptors fd = some (path, offset)
  inside : offset ≤ content.length

theorem stands_open (d : Disk Path) (fd : ℕ) (path : Path) :
    (d.open_ fd path false).Stands fd path 0 ((d.files path).getD []) where
  file := by simp [open_]
  descriptor := by simp [open_]
  inside := Nat.zero_le _

theorem Stands.write {d : Disk Path} {fd : ℕ} {path : Path} {offset : ℕ} {content : List UInt8}
    (h : d.Stands fd path offset content) (bytes : List UInt8) :
    (d.write fd bytes).Stands fd path (offset + bytes.length) (splice content offset bytes) where
  file := by simp [Disk.write, h.descriptor, h.file]
  descriptor := by simp [Disk.write, h.descriptor]
  inside := le_length_splice h.inside bytes

/-! ### Several descriptors -/

/-- What a file holds: nothing, if there is no such file. -/
def content (d : Disk Path) (path : Path) : List UInt8 := (d.files path).getD []

/-- The descriptor does not stand in the file. -/
def Away (d : Disk Path) (fd : ℕ) (path : Path) : Prop :=
  ∀ offset, d.descriptors fd ≠ some (path, offset)

section Several

variable {d : Disk Path} {fd fd' : ℕ} {path path' : Path} {offset : ℕ} {bytes : List UInt8}

omit [DecidableEq Path] in
theorem Stands.content (h : d.Stands fd path offset bytes) : d.content path = bytes := by
  rw [Disk.content, h.file, Option.getD_some]

theorem descriptors_open_of_ne (hfd : fd ≠ fd') (truncate : Bool) :
    (d.open_ fd' path' truncate).descriptors fd = d.descriptors fd :=
  Function.update_of_ne hfd _ _

omit [DecidableEq Path] in
theorem descriptors_close_of_ne (hfd : fd ≠ fd') : (d.close fd').descriptors fd = d.descriptors fd :=
  Function.update_of_ne hfd _ _

theorem descriptors_write_of_ne (hfd : fd ≠ fd') :
    (d.write fd' bytes).descriptors fd = d.descriptors fd := by
  unfold Disk.write
  split
  · rfl
  · exact Function.update_of_ne hfd _ _

theorem files_open_of_ne (hpath : path ≠ path') (truncate : Bool) :
    (d.open_ fd path' truncate).files path = d.files path :=
  Function.update_of_ne hpath _ _

/-- A file that is opened as it is keeps what it holds. -/
theorem content_open : (d.open_ fd path' false).content path = d.content path := by
  by_cases hpath : path = path'
  · simp [hpath, content, open_]
  · rw [content, files_open_of_ne hpath, content]

theorem away_open (hpath : path' ≠ path) (truncate : Bool) :
    (d.open_ fd path' truncate).Away fd path := by
  intro offset
  simp [open_, hpath]

theorem Away.open_ (h : d.Away fd path) (hfd : fd ≠ fd') (truncate : Bool) :
    (d.open_ fd' path' truncate).Away fd path := by
  intro offset
  rw [descriptors_open_of_ne hfd]
  exact h offset

omit [DecidableEq Path] in
theorem Away.close (h : d.Away fd path) : (d.close fd').Away fd path := by
  intro offset
  by_cases hfd : fd = fd'
  · simp [hfd, Disk.close]
  · rw [descriptors_close_of_ne hfd]
    exact h offset

/-- A descriptor moves, but it stays in its file. -/
theorem Away.write (h : d.Away fd path) : (d.write fd' bytes).Away fd path := by
  intro offset
  by_cases hfd : fd = fd'
  swap
  · rw [descriptors_write_of_ne hfd]
    exact h offset
  unfold Disk.write
  split
  · exact h offset
  · rename_i path' offset' hstands
    rw [← hfd] at hstands ⊢
    have hpath : path' ≠ path := by
      intro hpath
      exact h offset' (hpath ▸ hstands)
    simp [hpath]

/-- A descriptor elsewhere does not change the file. -/
theorem Away.files_write (h : d.Away fd path) : (d.write fd bytes).files path = d.files path := by
  unfold Disk.write
  split
  · rfl
  · rename_i path' offset hstands
    apply Function.update_of_ne
    intro hpath
    exact h offset (hpath ▸ hstands)

theorem Stands.open_ (h : d.Stands fd path offset bytes) (hfd : fd ≠ fd') :
    (d.open_ fd' path' false).Stands fd path offset bytes where
  file := by
    by_cases hpath : path = path'
    · simp [← hpath, Disk.open_, h.file]
    · rw [files_open_of_ne hpath]
      exact h.file
  descriptor := by
    rw [descriptors_open_of_ne hfd]
    exact h.descriptor
  inside := h.inside

omit [DecidableEq Path] in
theorem Stands.close (h : d.Stands fd path offset bytes) (hfd : fd ≠ fd') :
    (d.close fd').Stands fd path offset bytes where
  file := h.file
  descriptor := (descriptors_close_of_ne hfd).trans h.descriptor
  inside := h.inside

theorem Stands.write_away {more : List UInt8} (h : d.Stands fd path offset bytes)
    (haway : d.Away fd' path) : (d.write fd' more).Stands fd path offset bytes where
  file := haway.files_write.trans h.file
  descriptor := by
    have hfd : fd ≠ fd' := by
      intro hfd
      exact haway offset (hfd ▸ h.descriptor)
    rw [descriptors_write_of_ne hfd]
    exact h.descriptor
  inside := h.inside

end Several

end Disk

end Dragonboard.PosixFile
