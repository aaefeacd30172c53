/-
Byte memory, the stores a computation makes to it, and computations that leave a
trace of them.

A memory is a total function from addresses to bytes. A C function that copies
bytes around is modelled by a `Traced` computation: its result or the fault it
stops with, the stores it made on the way in order, and how far it read into its
input buffer. Stores made before a fault stay in the trace, so statements about
what is *never* written cover the failing runs as well.

`Places p stores bs` is the one way the stores of an encoder are summarised: they
turn any memory into the same memory with `bs` at `p`. It composes along
concatenation (`Places.append`), also when the header of a record is stored after
its body (`Places.header`).
-/
import Mathlib.Data.List.GetD
import Mathlib.Data.Nat.ModEq
import Mathlib.Order.Basic
import Mathlib.Tactic.Ring
import Mathlib.Tactic.Linarith

set_option autoImplicit false

namespace Dragonboard.Memory

/-! ## Memory

Addresses are natural numbers, so memory has no end and reading it never fails. What a program may
touch is a matter of the propositions about it. -/

/-- Byte memory. -/
abbrev Mem : Type := ℕ → UInt8

/-- The `n` bytes at `p`, the source of a `memcpy`. -/
def bytesAt (m : Mem) (p n : ℕ) : List UInt8 := (List.range n).map fun i => m (p + i)

@[simp] theorem bytesAt_length (m : Mem) (p n : ℕ) : (bytesAt m p n).length = n := by
  simp [bytesAt]

@[simp] theorem bytesAt_zero (m : Mem) (p : ℕ) : bytesAt m p 0 = [] := rfl

theorem bytesAt_getElem (m : Mem) (p n i : ℕ) (h : i < (bytesAt m p n).length) :
    (bytesAt m p n)[i] = m (p + i) := by
  simp [bytesAt]

theorem bytesAt_add (m : Mem) (p n k : ℕ) :
    bytesAt m p (n + k) = bytesAt m p n ++ bytesAt m (p + n) k := by
  unfold bytesAt
  rw [List.range_add, List.map_append, List.map_map]
  congr 1
  exact List.map_congr_left fun i _ => by simp [Nat.add_assoc]

theorem bytesAt_succ (m : Mem) (p n : ℕ) : bytesAt m p (n + 1) = m p :: bytesAt m (p + 1) n := by
  rw [Nat.add_comm, bytesAt_add]
  rfl

/-- Memory holds the bytes `bs` at `p`. -/
def Holds (m : Mem) (p : ℕ) (bs : List UInt8) : Prop := bytesAt m p bs.length = bs

theorem Holds.left {m : Mem} {p : ℕ} {a b : List UInt8} (h : Holds m p (a ++ b)) :
    Holds m p a := by
  rw [Holds, List.length_append, bytesAt_add] at h
  exact (List.append_inj h (bytesAt_length _ _ _)).1

theorem Holds.right {m : Mem} {p : ℕ} {a b : List UInt8} (h : Holds m p (a ++ b)) :
    Holds m (p + a.length) b := by
  rw [Holds, List.length_append, bytesAt_add] at h
  exact (List.append_inj h (bytesAt_length _ _ _)).2

theorem Holds.bytesAt_eq {m : Mem} {p n : ℕ} {bs : List UInt8} (h : Holds m p bs)
    (hn : bs.length = n) : bytesAt m p n = bs := by
  rw [← hn]
  exact h

/-- The bytes `bs` written at `p`. -/
def writeAt (m : Mem) (p : ℕ) (bs : List UInt8) : Mem :=
  fun a => if p ≤ a ∧ a < p + bs.length then bs.getD (a - p) 0 else m a

theorem writeAt_of_lt {m : Mem} {p a : ℕ} {bs : List UInt8} (h : a < p) :
    writeAt m p bs a = m a :=
  if_neg (by omega)

theorem writeAt_of_ge {m : Mem} {p a : ℕ} {bs : List UInt8} (h : p + bs.length ≤ a) :
    writeAt m p bs a = m a :=
  if_neg (by omega)

theorem writeAt_inside {m : Mem} {p i : ℕ} {bs : List UInt8} (h : i < bs.length) :
    writeAt m p bs (p + i) = bs[i] := by
  rw [writeAt, if_pos (by omega), Nat.add_sub_cancel_left, List.getD_eq_getElem _ _ h]

@[simp] theorem writeAt_nil (m : Mem) (p : ℕ) : writeAt m p [] = m := by
  funext a
  exact if_neg (by simp)

theorem holds_writeAt (m : Mem) (p : ℕ) (bs : List UInt8) : Holds (writeAt m p bs) p bs := by
  refine List.ext_getElem (by simp) fun i h1 h2 => ?_
  rw [bytesAt_getElem, writeAt_inside h2]

/-- Two writes next to each other are one write, in either order. -/
theorem writeAt_append (m : Mem) (p : ℕ) (a b : List UInt8) :
    writeAt (writeAt m p a) (p + a.length) b = writeAt m p (a ++ b) := by
  funext x
  unfold writeAt
  rw [List.length_append]
  rcases Nat.lt_or_ge x p with h | h
  · rw [if_neg (by omega), if_neg (by omega), if_neg (by omega)]
  rcases Nat.lt_or_ge x (p + a.length) with h1 | h1
  · rw [if_neg (by omega), if_pos (by omega), if_pos (by omega),
      List.getD_append _ _ _ _ (by omega)]
  rcases Nat.lt_or_ge x (p + a.length + b.length) with h2 | h2
  · rw [if_pos (by omega), if_pos (by omega), List.getD_append_right _ _ _ _ (by omega)]
    congr 1
    omega
  · rw [if_neg (by omega), if_neg (by omega), if_neg (by omega)]

theorem writeAt_append_left (m : Mem) (p : ℕ) (a b : List UInt8) :
    writeAt (writeAt m (p + a.length) b) p a = writeAt m p (a ++ b) := by
  rw [← writeAt_append]
  funext x
  unfold writeAt
  rcases Nat.lt_or_ge x (p + a.length) with h1 | h1
  · by_cases h : p ≤ x
    · rw [if_pos (by omega), if_neg (by omega), if_pos (by omega)]
    · rw [if_neg (by omega), if_neg (by omega), if_neg (by omega), if_neg (by omega)]
  · rw [if_neg (by omega)]
    by_cases h : x < p + a.length + b.length
    · rw [if_pos (by omega), if_pos (by omega)]
    · rw [if_neg (by omega), if_neg (by omega), if_neg (by omega)]

/-! ## Stores

A computation is compared with another one by what it stores. A list of stores can be applied to a
memory later, and what is said about it (`Below`, `Agrees`, `Covers`) does not mention any memory.
-/

/-- One store of some bytes. -/
structure Store where
  addr : ℕ
  bytes : List UInt8
deriving DecidableEq, Repr

/-- Memory after a list of stores, in order. -/
def applyStores (m : Mem) (l : List Store) : Mem := l.foldl (fun m s => writeAt m s.addr s.bytes) m

@[simp] theorem applyStores_nil (m : Mem) : applyStores m [] = m := rfl

theorem applyStores_append (m : Mem) (l l' : List Store) :
    applyStores m (l ++ l') = applyStores (applyStores m l) l' :=
  List.foldl_append

/-- Nothing is stored at or above `limit`. -/
def Below (limit : ℕ) (l : List Store) : Prop :=
  ∀ s ∈ l, s.bytes ≠ [] → s.addr + s.bytes.length ≤ limit

instance (limit : ℕ) (l : List Store) : Decidable (Below limit l) :=
  inferInstanceAs (Decidable (∀ s ∈ l, s.bytes ≠ [] → s.addr + s.bytes.length ≤ limit))

theorem below_append {limit : ℕ} {l l' : List Store} :
    Below limit (l ++ l') ↔ Below limit l ∧ Below limit l' := by
  simp only [Below, List.mem_append, or_imp, forall_and]

@[simp] theorem below_nil (limit : ℕ) : Below limit [] := by
  simp [Below]

@[simp] theorem below_singleton {limit : ℕ} {s : Store} :
    Below limit [s] ↔ (s.bytes ≠ [] → s.addr + s.bytes.length ≤ limit) := by
  simp [Below]

/-- The stores put exactly `bs` at `p`, whatever was there. -/
def Places (p : ℕ) (l : List Store) (bs : List UInt8) : Prop :=
  ∀ m, applyStores m l = writeAt m p bs

theorem Places.nil (p : ℕ) : Places p [] [] := fun m => by simp

theorem Places.single (p : ℕ) (bs : List UInt8) : Places p [⟨p, bs⟩] bs := fun _ => rfl

theorem Places.append {p : ℕ} {l l' : List Store} {a b : List UInt8} (h : Places p l a)
    (h' : Places (p + a.length) l' b) : Places p (l ++ l') (a ++ b) := by
  intro m
  rw [applyStores_append, h m, h' (writeAt m p a), writeAt_append]

/-- A header stored after the body it precedes. -/
theorem Places.header {p : ℕ} {l : List Store} {a b : List UInt8}
    (h : Places (p + a.length) l b) : Places p (l ++ [⟨p, a⟩]) (a ++ b) := by
  intro m
  rw [applyStores_append, h m]
  exact writeAt_append_left m p a b

/-- Every stored byte is the byte `src` has at its address. -/
def Agrees (src : Mem) (l : List Store) : Prop :=
  ∀ s ∈ l, bytesAt src s.addr s.bytes.length = s.bytes

theorem agrees_append {src : Mem} {l l' : List Store} :
    Agrees src (l ++ l') ↔ Agrees src l ∧ Agrees src l' := by
  simp only [Agrees, List.mem_append, or_imp, forall_and]

@[simp] theorem agrees_nil (src : Mem) : Agrees src [] := by
  simp [Agrees]

@[simp] theorem agrees_singleton {src : Mem} {s : Store} :
    Agrees src [s] ↔ bytesAt src s.addr s.bytes.length = s.bytes := by
  simp [Agrees]

/-- Some store of the list covers the address. -/
def Covers (l : List Store) (a : ℕ) : Prop :=
  ∃ s ∈ l, s.addr ≤ a ∧ a < s.addr + s.bytes.length

theorem not_covers_nil {a : ℕ} : ¬ Covers [] a := fun ⟨_, hs, _⟩ => List.not_mem_nil hs

theorem covers_append {l l' : List Store} {a : ℕ} :
    Covers (l ++ l') a ↔ Covers l a ∨ Covers l' a := by
  simp only [Covers, List.mem_append, or_and_right, exists_or]

theorem covers_singleton {s : Store} {a : ℕ} :
    Covers [s] a ↔ s.addr ≤ a ∧ a < s.addr + s.bytes.length := by
  simp [Covers]

/-- A byte that no store covers keeps its value. -/
theorem applyStores_of_not_covers {l : List Store} {a : ℕ} (m : Mem) (h : ¬ Covers l a) :
    applyStores m l a = m a := by
  induction l generalizing m with
  | nil => rfl
  | cons s l ih =>
    have hl : ¬ Covers l a := fun hc => h (covers_append.mpr (.inr hc) : Covers ([s] ++ l) a)
    have hs : ¬ Covers [s] a := fun hc => h (covers_append.mpr (.inl hc) : Covers ([s] ++ l) a)
    rw [covers_singleton] at hs
    show applyStores (writeAt m s.addr s.bytes) l a = m a
    rw [ih _ hl]
    exact if_neg hs

/-- A byte after some stores depends on the same byte before them only. -/
theorem applyStores_congr {m m' : Mem} {a : ℕ} (l : List Store) (h : m a = m' a) :
    applyStores m l a = applyStores m' l a := by
  induction l generalizing m m' with
  | nil => exact h
  | cons s l ih =>
    refine ih ?_
    simp only [writeAt, h]

/-- A byte that is stored does not depend on what was there. -/
theorem applyStores_of_covers {l : List Store} {a : ℕ} (h : Covers l a) (m m' : Mem) :
    applyStores m l a = applyStores m' l a := by
  induction l generalizing m m' with
  | nil =>
    obtain ⟨s, hs, -⟩ := h
    exact absurd hs List.not_mem_nil
  | cons s l ih =>
    rcases (covers_append.mp h : Covers [s] a ∨ Covers l a) with hs | hl
    · -- the first store decides, unless a later one does
      apply applyStores_congr l
      exact (if_pos (covers_singleton.mp hs)).trans (if_pos (covers_singleton.mp hs)).symm
    · exact ih hl _ _

/-- Stores to different bytes commute. -/
theorem applyStores_comm {l l' : List Store} (h : ∀ a, Covers l a → ¬ Covers l' a) (m : Mem) :
    applyStores (applyStores m l) l' = applyStores (applyStores m l') l := by
  funext a
  by_cases hl : Covers l a
  · rw [applyStores_of_not_covers _ (h a hl)]
    exact applyStores_congr l (applyStores_of_not_covers m (h a hl)).symm
  · rw [applyStores_of_not_covers (applyStores m l') hl]
    exact applyStores_congr l' (applyStores_of_not_covers m hl)

/-- Stores that agree with `src` leave `src`'s byte wherever they reach, and the
old byte elsewhere. -/
theorem Agrees.applyStores {src : Mem} {l : List Store} (h : Agrees src l) (m : Mem) (a : ℕ) :
    (Covers l a → applyStores m l a = src a) ∧
      (¬ Covers l a → Memory.applyStores m l a = m a) := by
  induction l generalizing m with
  | nil => simp [Covers]
  | cons s l ih =>
    rw [show s :: l = [s] ++ l from rfl, agrees_append] at h
    obtain ⟨hs, hl⟩ := h
    rw [agrees_singleton] at hs
    obtain ⟨h1, h2⟩ := ih hl (writeAt m s.addr s.bytes)
    have hcons : Memory.applyStores m (s :: l)
        = Memory.applyStores (writeAt m s.addr s.bytes) l := rfl
    rw [show s :: l = [s] ++ l from rfl, covers_append, covers_singleton,
      show [s] ++ l = s :: l from rfl, hcons]
    constructor
    · intro hc
      by_cases hcl : Covers l a
      · exact h1 hcl
      · rw [h2 hcl]
        obtain ⟨hlo, hhi⟩ : s.addr ≤ a ∧ a < s.addr + s.bytes.length := by tauto
        obtain ⟨i, rfl⟩ := Nat.exists_eq_add_of_le hlo
        rw [writeAt_inside (by omega)]
        have hi : i < (bytesAt src s.addr s.bytes.length).length := by
          rw [bytesAt_length]
          omega
        rw [← bytesAt_getElem src s.addr s.bytes.length i hi]
        simp only [hs]
    · intro hc
      rw [h2 (by tauto)]
      exact if_neg (by tauto)

/-! ## Stores in ascending order

A program that fills a buffer from front to back stores to each byte once, so everything it stored
is there at the end. -/

/-- The stores lie between `lo` and `hi`, and each begins where the one before it ends or later. -/
def Laid : ℕ → List Store → ℕ → Prop
  | lo, [], hi => lo ≤ hi
  | lo, s :: l, hi => lo ≤ s.addr ∧ Laid (s.addr + s.bytes.length) l hi

section Laid

variable {lo mid hi a : ℕ} {l l' : List Store}

@[simp] theorem laid_nil : Laid lo [] hi ↔ lo ≤ hi := Iff.rfl

@[simp] theorem laid_cons {s : Store} :
    Laid lo (s :: l) hi ↔ lo ≤ s.addr ∧ Laid (s.addr + s.bytes.length) l hi := Iff.rfl

theorem Laid.append (h : Laid lo l mid) (h' : Laid mid l' hi) : Laid lo (l ++ l') hi := by
  have hmono : ∀ x y, x ≤ y → Laid y l' hi → Laid x l' hi := by
    intro x y hxy hy
    cases l' with
    | nil => exact hxy.trans hy
    | cons s l' => exact ⟨hxy.trans hy.1, hy.2⟩
  induction l generalizing lo with
  | nil => exact hmono lo mid h h'
  | cons s l ih => exact ⟨h.1, ih h.2⟩

theorem Laid.covers (h : Laid lo l hi) (ha : Covers l a) : lo ≤ a ∧ a < hi := by
  induction l generalizing lo with
  | nil => exact absurd ha not_covers_nil
  | cons s l ih =>
    obtain ⟨hlo, h⟩ := h
    have hend : s.addr + s.bytes.length ≤ hi := by
      clear ih ha
      generalize s.addr + s.bytes.length = x at h
      induction l generalizing x with
      | nil => exact h
      | cons s' l ih => exact (h.1.trans (Nat.le_add_right _ _)).trans (ih _ h.2)
    rcases (covers_append.mp ha : Covers [s] a ∨ Covers l a) with hs | hl
    · have hs := covers_singleton.mp hs
      exact ⟨hlo.trans hs.1, lt_of_lt_of_le hs.2 hend⟩
    · have := ih h hl
      exact ⟨by omega, this.2⟩

/-- What was stored in ascending order is all there. -/
theorem Laid.holds (h : Laid lo l hi) {s : Store} (hs : s ∈ l) (m : Mem) :
    Holds (applyStores m l) s.addr s.bytes := by
  induction l generalizing lo m with
  | nil => exact absurd hs List.not_mem_nil
  | cons s' l ih =>
    rcases List.mem_cons.mp hs with rfl | hs
    · -- the later stores lie behind it
      refine List.ext_getElem (bytesAt_length _ _ _) fun i _ hi => ?_
      rw [bytesAt_getElem]
      have hfree : ¬ Covers l (s.addr + i) := fun hc => by
        have := (h.2.covers hc).1
        omega
      exact (applyStores_of_not_covers _ hfree).trans (writeAt_inside hi)
    · exact ih h.2 hs _

end Laid

/-! ## Little-endian numbers -/

/-- The number a list of bytes spells, least significant byte first. -/
def leNat : List UInt8 → ℕ
  | [] => 0
  | b :: bs => b.toNat + 256 * leNat bs

/-- The `k` low bytes of a number, least significant first. -/
def leBytes : ℕ → ℕ → List UInt8
  | 0, _ => []
  | k + 1, n => UInt8.ofNat n :: leBytes k (n / 256)

@[simp] theorem leBytes_length (k n : ℕ) : (leBytes k n).length = k := by
  induction k generalizing n with
  | zero => rfl
  | succ k ih => rw [leBytes, List.length_cons, ih]

theorem leNat_lt (bs : List UInt8) : leNat bs < 256 ^ bs.length := by
  induction bs with
  | nil => simp [leNat]
  | cons b bs ih =>
    have hb := b.toNat_lt
    rw [leNat, List.length_cons, pow_succ]
    omega

theorem leNat_leBytes (k n : ℕ) (h : n < 256 ^ k) : leNat (leBytes k n) = n := by
  induction k generalizing n with
  | zero =>
    rw [pow_zero] at h
    rw [leBytes, leNat]
    omega
  | succ k ih =>
    rw [pow_succ] at h
    rw [leBytes, leNat, ih (n / 256) (by omega), UInt8.toNat_ofNat']
    omega

theorem leBytes_leNat (bs : List UInt8) : leBytes bs.length (leNat bs) = bs := by
  induction bs with
  | nil => rfl
  | cons b bs ih =>
    have hb := b.toNat_lt
    rw [List.length_cons, leBytes, leNat, show (b.toNat + 256 * leNat bs) / 256 = leNat bs by omega,
      ih]
    congr 1
    apply UInt8.toNat_inj.mp
    rw [UInt8.toNat_ofNat']
    omega

/-- A number spelled with more bytes than it needs ends in zeros. -/
theorem leBytes_of_small {k j n : ℕ} (h : n < 256 ^ k) :
    leBytes (k + j) n = leBytes k n ++ List.replicate j 0 := by
  induction k generalizing n with
  | zero =>
    rw [pow_zero] at h
    obtain rfl : n = 0 := by omega
    rw [Nat.zero_add, leBytes, List.nil_append]
    induction j with
    | zero => rfl
    | succ j ih => rw [leBytes, Nat.zero_div, ih, List.replicate_succ]; rfl
  | succ k ih =>
    rw [pow_succ] at h
    rw [Nat.add_right_comm, leBytes, leBytes, ih (by omega)]
    rfl

/-- Copying bytes over the low end of a number. -/
def patchLow (n : ℕ) (bs : List UInt8) : ℕ :=
  leNat bs + 256 ^ bs.length * (n / 256 ^ bs.length)

theorem patchLow_of_lt {n : ℕ} {bs : List UInt8} (h : n < 256 ^ bs.length) :
    patchLow n bs = leNat bs := by
  rw [patchLow, Nat.div_eq_of_lt h, Nat.mul_zero, Nat.add_zero]

/-- `a - b` of two `uint32_t`. -/
def wsub (a b : ℕ) : ℕ := (a + 2 ^ 32 - b) % 2 ^ 32

theorem wsub_of_le {a b : ℕ} (h : b ≤ a) (ha : a < 2 ^ 32) : wsub a b = a - b := by
  unfold wsub
  omega

/-- `a + b` of two `uint32_t`. -/
def wadd (a b : ℕ) : ℕ := (a + b) % 2 ^ 32

theorem wadd_le (a b : ℕ) : wadd a b ≤ a + b := Nat.mod_le _ _

/-! ## Traced computations

The monad in which the codec is written. The stores and the reads of a computation are kept when
it stops with a fault: a C function that returns an error has still written what it wrote. -/

/-- What a C function can stop with: a negative `errno`, or leaving the array it
was walking, after which nothing is known. -/
inductive Fault where
  | errno (code : ℕ)
  | wild
deriving DecidableEq, Repr

/-- A computation with its trace: the stores it made, one past the highest input
index it read, and its result. -/
structure Traced (α : Type) where
  stores : List Store
  reads : ℕ
  result : Except Fault α

namespace Traced

variable {α β : Type}

/-- Sequencing: the second part runs only if the first returned. -/
def bind (x : Traced α) (f : α → Traced β) : Traced β :=
  match x.result with
  | .ok a => ⟨x.stores ++ (f a).stores, max x.reads (f a).reads, (f a).result⟩
  | .error e => ⟨x.stores, x.reads, .error e⟩

instance : Monad Traced where
  pure a := ⟨[], 0, .ok a⟩
  bind := bind

/-- Stop with a fault. -/
def fail (e : Fault) : Traced α := ⟨[], 0, .error e⟩

/-- Store bytes. -/
def store (p : ℕ) (bs : List UInt8) : Traced Unit := ⟨[⟨p, bs⟩], 0, .ok ()⟩

/-- Read `n` bytes of the input at `p`. -/
def read (m : Mem) (p n : ℕ) : Traced (List UInt8) :=
  ⟨[], if n = 0 then 0 else p + n, .ok (bytesAt m p n)⟩

@[simp] theorem pure_stores (a : α) : (pure a : Traced α).stores = [] := rfl
@[simp] theorem pure_reads (a : α) : (pure a : Traced α).reads = 0 := rfl
@[simp] theorem pure_result (a : α) : (pure a : Traced α).result = .ok a := rfl
@[simp] theorem fail_stores (e : Fault) : (fail e : Traced α).stores = [] := rfl
@[simp] theorem fail_reads (e : Fault) : (fail e : Traced α).reads = 0 := rfl
@[simp] theorem fail_result (e : Fault) : (fail e : Traced α).result = .error e := rfl
@[simp] theorem store_stores (p : ℕ) (bs : List UInt8) : (store p bs).stores = [⟨p, bs⟩] := rfl
@[simp] theorem store_reads (p : ℕ) (bs : List UInt8) : (store p bs).reads = 0 := rfl
@[simp] theorem store_result (p : ℕ) (bs : List UInt8) : (store p bs).result = .ok () := rfl
@[simp] theorem read_stores (m : Mem) (p n : ℕ) : (read m p n).stores = [] := rfl
@[simp] theorem read_result (m : Mem) (p n : ℕ) : (read m p n).result = .ok (bytesAt m p n) := rfl

theorem bind_eq (x : Traced α) (f : α → Traced β) : x >>= f = x.bind f := rfl

/-- The trace of a sequence whose first part returned. -/
theorem bind_of_ok {x : Traced α} {a : α} (h : x.result = .ok a) (f : α → Traced β) :
    x >>= f = ⟨x.stores ++ (f a).stores, max x.reads (f a).reads, (f a).result⟩ := by
  rw [bind_eq, bind, h]

/-- The trace of a sequence whose first part stopped. -/
theorem bind_of_error {x : Traced α} {e : Fault} (h : x.result = .error e) (f : α → Traced β) :
    x >>= f = ⟨x.stores, x.reads, .error e⟩ := by
  rw [bind_eq, bind, h]

@[simp] theorem fail_bind (e : Fault) (f : α → Traced β) : (fail e >>= f) = fail e := rfl

theorem bind_pure_self (x : Traced α) : (x >>= fun a => pure (id a)) = x := by
  cases h : x.result with
  | ok a =>
    rw [bind_of_ok h]
    simp [← h]
  | error e =>
    rw [bind_of_error h]
    simp [← h]

theorem pure_bind_self (a : α) (f : α → Traced β) : (pure a >>= f) = f a := by
  rw [bind_of_ok (pure_result a)]
  simp

theorem bind_bind {γ : Type} (x : Traced α) (f : α → Traced β) (g : β → Traced γ) :
    (x >>= f) >>= g = x >>= fun a => f a >>= g := by
  cases hx : x.result with
  | error e =>
    rw [bind_of_error hx, bind_of_error hx]
    exact bind_of_error rfl g
  | ok a =>
    rw [bind_of_ok hx, bind_of_ok hx]
    cases hf : (f a).result with
    | error e => rw [bind_of_error rfl, bind_of_error hf]
    | ok b => rw [bind_of_ok rfl, bind_of_ok hf, List.append_assoc, max_assoc]

instance : LawfulMonad Traced :=
  LawfulMonad.mk' Traced bind_pure_self pure_bind_self bind_bind

/-- A read ends where its bytes do. -/
theorem read_reads_le (m : Mem) (p n : ℕ) : (read m p n).reads ≤ p + n := by
  unfold read
  dsimp only
  split <;> omega

/-- A sequence returns when both parts do. -/
theorem bind_result_ok {x : Traced α} {f : α → Traced β} {b : β} :
    (x >>= f).result = .ok b ↔ ∃ a, x.result = .ok a ∧ (f a).result = .ok b := by
  cases h : x.result with
  | ok a => simp [bind_of_ok h]
  | error e => simp [bind_of_error h]

/-- The computation reads nothing from `k` on, and what it returns satisfies `Q`. -/
structure Within (k : ℕ) (x : Traced α) (Q : α → Prop) : Prop where
  reads : x.reads ≤ k
  returns : ∀ a, x.result = .ok a → Q a

namespace Within

variable {k : ℕ} {Q : α → Prop}

theorem pure {a : α} (h : Q a) : Within k (pure a : Traced α) Q :=
  ⟨Nat.zero_le k, by rintro b ⟨⟩; exact h⟩

theorem fail (e : Fault) : Within k (fail e : Traced α) Q := ⟨Nat.zero_le k, by rintro b ⟨⟩⟩

theorem store (p : ℕ) (bs : List UInt8) {Q : Unit → Prop} (h : Q ()) :
    Within k (store p bs) Q :=
  ⟨Nat.zero_le k, fun _ _ => h⟩

theorem read {m : Mem} {p n : ℕ} (h : p + n ≤ k) :
    Within k (read m p n) fun bs => bs = bytesAt m p n :=
  ⟨(read_reads_le m p n).trans h, by rintro b ⟨⟩; rfl⟩

theorem bind {x : Traced α} (hx : Within k x Q) {f : α → Traced β} {R : β → Prop}
    (hf : ∀ a, Q a → Within k (f a) R) : Within k (x >>= f) R := by
  cases h : x.result with
  | error e =>
    rw [bind_of_error h]
    exact ⟨hx.reads, by rintro b ⟨⟩⟩
  | ok a =>
    have hfa := hf a (hx.returns a h)
    rw [bind_of_ok h]
    exact ⟨max_le hx.reads hfa.reads, hfa.returns⟩

theorem mono {x : Traced α} (hx : Within k x Q) {k' : ℕ} (hk : k ≤ k') {R : α → Prop}
    (hQ : ∀ a, Q a → R a) : Within k' x R :=
  ⟨hx.reads.trans hk, fun a ha => hQ a (hx.returns a ha)⟩

end Within

end Traced

end Dragonboard.Memory
