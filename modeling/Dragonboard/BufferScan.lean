/-
Code that looks at a buffer, with the places it looks at.

A datagram fills the front of a buffer, and what lies behind it was not received. `Inside` says
of a list of accesses that each stays in what was received; the byte behind it may be
filled, where the buffer has it, and may be read from then on.
-/
import Mathlib.Data.List.Basic

set_option autoImplicit false

namespace Dragonboard.BufferScan

/-! ## Accesses

For the question whether a parser keeps to the bytes it was given, it is enough to record which
indices it reads and stores. Indices are integers because C pointers also move backwards. -/

/-- A byte of the buffer is read, or stored. -/
inductive Access where
  | read (i : ℕ)
  | store (i : ℕ)
deriving DecidableEq, Repr

/-- The accesses stay in the first `len` bytes of a buffer of `size` bytes. -/
def Inside (size : ℕ) : ℕ → List Access → Prop
  | _, [] => True
  | len, .read i :: accesses => i < len ∧ Inside size len accesses
  | len, .store i :: accesses => i ≤ len ∧ i < size ∧ Inside size (max len (i + 1)) accesses

instance decidableInside (size : ℕ) : ∀ len accesses, Decidable (Inside size len accesses)
  | _, [] => .isTrue trivial
  | len, .read i :: accesses =>
    have := decidableInside size len accesses
    inferInstanceAs (Decidable (i < len ∧ Inside size len accesses))
  | len, .store i :: accesses =>
    have := decidableInside size (max len (i + 1)) accesses
    inferInstanceAs (Decidable (i ≤ len ∧ i < size ∧ Inside size (max len (i + 1)) accesses))

/-- Some bytes are read. -/
def reads (indices : List ℕ) : List Access := indices.map .read

theorem inside_reads_append (size len : ℕ) (indices : List ℕ) (accesses : List Access) :
    Inside size len (reads indices ++ accesses)
      ↔ (∀ i ∈ indices, i < len) ∧ Inside size len accesses := by
  induction indices with
  | nil => simp [reads]
  | cons i indices ih =>
    rw [List.forall_mem_cons, and_assoc, ← ih]
    rfl

theorem inside_reads (size len : ℕ) (indices : List ℕ) :
    Inside size len (reads indices) ↔ ∀ i ∈ indices, i < len := by
  rw [← List.append_nil (reads indices), inside_reads_append]
  exact and_iff_left trivial

/-- A range of bytes that is not empty is read up to its last one. -/
theorem range'_lt_iff (start count len : ℕ) :
    (∀ i ∈ List.range' start (count + 1), i < len) ↔ start + count < len := by
  simp only [List.mem_range'_1]
  constructor
  · intro h
    exact h (start + count) ⟨by omega, by omega⟩
  · intro h i hi
    omega

/-! ## Computations

A computation without a result has stopped, as a C function that returns early. -/

/-- A result, if there is one, and the accesses that were made. -/
structure Scan (α : Type) where
  accesses : List Access
  value : Option α

namespace Scan

variable {α β : Type}

/-- What follows is not reached without a result. -/
def bind (x : Scan α) (f : α → Scan β) : Scan β :=
  match x.value with
  | none => ⟨x.accesses, none⟩
  | some v => ⟨x.accesses ++ (f v).accesses, (f v).value⟩

instance : Monad Scan where
  pure v := ⟨[], some v⟩
  bind := bind

@[simp] theorem value_pure (v : α) : (pure v : Scan α).value = some v := rfl

@[simp] theorem accesses_pure (v : α) : (pure v : Scan α).accesses = [] := rfl

@[simp] theorem value_bind (x : Scan α) (f : α → Scan β) :
    (x >>= f).value = x.value >>= fun v => (f v).value := by
  show (bind x f).value = _
  unfold bind
  cases x.value with
  | none => rfl
  | some v => rfl

@[simp] theorem value_ite (c : Prop) [Decidable c] (x y : Scan α) :
    (if c then x else y).value = if c then x.value else y.value := apply_ite _ ..

/-- What follows looks at nothing. -/
theorem accesses_bind_silent (x : Scan α) {f : α → Scan β} (hf : ∀ v, (f v).accesses = []) :
    (x >>= f).accesses = x.accesses := by
  show (bind x f).accesses = _
  unfold bind
  cases x.value with
  | none => rfl
  | some v =>
    simp only
    rw [hf, List.append_nil]

/-- After some reads. -/
theorem inside_bind {size len : ℕ} {x : Scan α} {indices : List ℕ} (hx : x.accesses = reads indices)
    (f : α → Scan β) :
    Inside size len (x >>= f).accesses ↔ (∀ i ∈ indices, i < len) ∧
      ∀ v, x.value = some v → Inside size len (f v).accesses := by
  show Inside size len (bind x f).accesses ↔ _
  unfold bind
  cases hv : x.value with
  | none =>
    simp only
    rw [hx, inside_reads]
    simp
  | some v =>
    simp only
    rw [hx, inside_reads_append]
    simp

end Scan

end Dragonboard.BufferScan
