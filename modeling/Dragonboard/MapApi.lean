/-
The interface of `qcom/qrtr/src/map.h`, and what its users may rely on.

The name server keeps its registry in two layers of `struct map`, and its handlers
are written here once, over any type of tables with the operations of `map.h`.
They are then read over two of them: the open-addressing table of `map.c`, and the
ideal finite map at the end of this file.

`LawfulMap` is what the two have in common. It is weaker than being a finite map: a
put is only described exactly for a key that is absent, since that is where the table
of `map.c` can be relied on.
-/
import Mathlib.Data.List.Perm.Basic
import Mathlib.Data.List.Nodup
import Mathlib.Data.List.Basic
import Mathlib.Order.Basic
import Mathlib.Data.Int.Notation

set_option autoImplicit false

namespace Dragonboard.MapApi

/-! ## The operations

The name server uses its tables through `map.h` only. Its model is generic over the class below,
so that each result says what it depends on: on the code of `map.c`, or just on the laws of a map.
-/

/-- The operations of `map.h` that the name server uses, on tables of items of any type. -/
class StructMap (M : Type → Type) where
  map_create {α : Type} : M α
  /-- The table, and `*old` or the negative return code. -/
  map_reput {α : Type} (calloc : ℕ → Bool) (map : M α) (key : UInt32) (value : α) :
    M α × Except ℤ (Option α)
  map_get {α : Type} (map : M α) (key : UInt32) : Option α
  map_remove {α : Type} (map : M α) (key : UInt32) : M α × ℤ
  /-- The first position at or after `start` that holds an item, and the item. -/
  map_iter_from {α : Type} (map : M α) (start : ℕ) : Option (ℕ × α)
  /-- A bound on the rounds of a walk. -/
  rounds {α : Type} (map : M α) : ℕ

export StructMap (map_create map_reput map_get map_remove map_iter_from rounds)

section Operations

variable {M : Type → Type} [StructMap M] {α σ : Type}

/-- `map_put`. -/
def map_put (calloc : ℕ → Bool) (map : M α) (key : UInt32) (value : α) : M α × Except ℤ Unit :=
  ((map_reput calloc map key value).1, (map_reput calloc map key value).2.map fun _ => ())

/-- The loop of `map_for_each` from position `i`, with a body that may change the state the table is
part of. -/
def map_for_each.loop (table : σ → M α) (body : σ → α → σ) : ℕ → ℕ → σ → σ
  | 0, _, s => s
  | n + 1, i, s =>
    match map_iter_from (table s) i with
    | none => s
    | some (j, item) => map_for_each.loop table body n (j + 1) (body s item)

/-- `map_for_each`. -/
def map_for_each (table : σ → M α) (body : σ → α → σ) (s : σ) : σ :=
  map_for_each.loop table body (rounds (table s)) 0 s

/-- What the body of a walk preserves, the walk preserves, from any position on. -/
theorem map_for_each.loop_induction {P : σ → Prop} {table : σ → M α} {body : σ → α → σ}
    (hbody : ∀ s item, P s → P (body s item)) (n i : ℕ) {s : σ} (h : P s) :
    P (map_for_each.loop table body n i s) := by
  induction n generalizing i s with
  | zero => exact h
  | succ n ih =>
    rw [map_for_each.loop]
    cases hit : map_iter_from (table s) i with
    | none => exact h
    | some r => exact ih (r.1 + 1) (hbody s r.2 h)

theorem map_for_each_induction {P : σ → Prop} {table : σ → M α} {body : σ → α → σ}
    (hbody : ∀ s item, P s → P (body s item)) {s : σ} (h : P s) :
    P (map_for_each table body s) :=
  map_for_each.loop_induction hbody _ 0 h

end Operations

/-! ## The laws

Tables of `map.c` keep two records of one port after certain histories, so the laws come in two
parts: those that hold of every table, and those for a key that is put while it is absent. -/

/-- What tables of every history do, and what they do as long as no key is put while it is
present. -/
class LawfulMap (M : Type → Type) [StructMap M] where
  /-- The invariant of a table no key of which was put while it was present. -/
  Good {α : Type} : M α → Prop
  /-- What a walk from a position on yields. -/
  rest {α : Type} : M α → ℕ → List (UInt32 × α)
  iter_from {α : Type} (m : M α) (i : ℕ) :
    match map_iter_from m i with
    | none => rest m i = []
    | some (j, v) => i ≤ j ∧ ∃ k, rest m i = (k, v) :: rest m (j + 1)
  rest_length {α : Type} (m : M α) : (rest m 0).length ≤ rounds m
  rest_create {α : Type} : rest (map_create : M α) 0 = []
  mem_of_get {α : Type} {m : M α} {k : UInt32} {v : α} (h : map_get m k = some v) :
    (k, v) ∈ rest m 0
  reput_error {α : Type} {calloc : ℕ → Bool} {m : M α} {k : UInt32} {v : α} {rc : ℤ}
    (h : (map_reput calloc m k v).2 = .error rc) :
    (map_reput calloc m k v).1 = m ∧ ∃ n, calloc n = false
  reput_subset {α : Type} (calloc : ℕ → Bool) (m : M α) (k : UInt32) (v : α) :
    rest (map_reput calloc m k v).1 0 ⊆ (k, v) :: rest m 0
  remove_subset {α : Type} (m : M α) (k : UInt32) : rest (map_remove m k).1 0 ⊆ rest m 0
  good_create {α : Type} : Good (map_create : M α)
  distinct {α : Type} {m : M α} (h : Good m) : ((rest m 0).map Prod.fst).Nodup
  get_of_mem {α : Type} {m : M α} (h : Good m) {k : UInt32} {v : α} (hv : (k, v) ∈ rest m 0) :
    map_get m k = some v
  reput_fresh {α : Type} {calloc : ℕ → Bool} {m : M α} (hm : Good m) {k : UInt32}
    (hk : map_get m k = none) {v : α} {old : Option α}
    (h : (map_reput calloc m k v).2 = .ok old) :
    Good (map_reput calloc m k v).1 ∧
      (rest (map_reput calloc m k v).1 0).Perm ((k, v) :: rest m 0)
  good_remove {α : Type} {m : M α} (h : Good m) (k : UInt32) : Good (map_remove m k).1
  rest_remove {α : Type} {m : M α} (h : Good m) (k : UInt32) (i : ℕ) :
    rest (map_remove m k).1 i = (rest m i).filter (·.1 ≠ k)

export LawfulMap (Good)

section Laws

variable {M : Type → Type} [StructMap M] [LawfulMap M] {α σ : Type}

open LawfulMap

/-- The items of a table in the order of a walk, with their keys. -/
def items (m : M α) : List (UInt32 × α) := rest m 0

@[simp] theorem items_create : items (map_create : M α) = [] := rest_create

theorem mem_items {m : M α} (h : Good m) {k : UInt32} {v : α} :
    (k, v) ∈ items m ↔ map_get m k = some v :=
  ⟨get_of_mem h, mem_of_get⟩

@[simp] theorem map_get_create (k : UInt32) : map_get (map_create : M α) k = none := by
  rw [Option.eq_none_iff_forall_ne_some]
  intro v hv
  rw [← mem_items good_create, items_create] at hv
  exact absurd hv List.not_mem_nil

/-- A put of an absent key. -/
theorem map_get_reput_fresh {calloc : ℕ → Bool} {m : M α} (hm : Good m) {k : UInt32}
    (hk : map_get m k = none) {v : α} {old : Option α}
    (h : (map_reput calloc m k v).2 = .ok old) (k' : UInt32) :
    map_get (map_reput calloc m k v).1 k' = if k' = k then some v else map_get m k' := by
  obtain ⟨hgood, hperm⟩ := reput_fresh hm hk h
  apply Option.ext
  intro w
  rw [← mem_items hgood, items, hperm.mem_iff, List.mem_cons, ← items, mem_items hm]
  by_cases hkk : k' = k
  · subst hkk
    rw [if_pos rfl, hk]
    simp [eq_comm]
  · rw [if_neg hkk]
    simp [hkk]

theorem items_remove {m : M α} (h : Good m) (k : UInt32) :
    items (map_remove m k).1 = (items m).filter (·.1 ≠ k) :=
  rest_remove h k 0

theorem map_get_remove {m : M α} (h : Good m) (k k' : UInt32) :
    map_get (map_remove m k).1 k' = if k' = k then none else map_get m k' := by
  apply Option.ext
  intro w
  rw [← mem_items (good_remove h k), items_remove h, List.mem_filter, mem_items h]
  by_cases hkk : k' = k
  · rw [if_pos hkk]
    simp [hkk]
  · rw [if_neg hkk]
    simp [hkk]

/-- **A walk visits what is there, each item once.** Its body may change the table, as long as it
leaves alone what is still to come. -/
theorem map_for_each_eq_foldl {P : σ → Prop} {table : σ → M α} {body : σ → α → σ}
    (hbody : ∀ s i j k v, P s → rest (table s) i = (k, v) :: rest (table s) (j + 1) →
      P (body s v) ∧ rest (table (body s v)) (j + 1) = rest (table s) (j + 1))
    {s : σ} (h : P s) :
    map_for_each table body s = (items (table s)).foldl (fun s e => body s e.2) s := by
  -- the induction is on what is left of the table, which the body may not touch
  have hloop : ∀ (n i : ℕ) (s : σ), P s → (rest (table s) i).length ≤ n →
      map_for_each.loop table body n i s =
        (rest (table s) i).foldl (fun s e => body s e.2) s := by
    intro n
    induction n with
    | zero =>
      intro i s _ hn
      rw [List.eq_nil_of_length_eq_zero (Nat.le_zero.mp hn)]
      rfl
    | succ n ih =>
      intro i s hs hn
      have hit := iter_from (table s) i
      rw [map_for_each.loop]
      cases hr : map_iter_from (table s) i with
      | none =>
        rw [hr] at hit
        simp only at hit
        rw [hit]
        rfl
      | some r =>
        rw [hr] at hit
        obtain ⟨-, k, hrest⟩ := hit
        obtain ⟨hP, hkeep⟩ := hbody s i r.1 k r.2 hs hrest
        have hlen : (rest (table (body s r.2)) (r.1 + 1)).length ≤ n := by
          rw [hkeep]
          rw [hrest, List.length_cons] at hn
          omega
        rw [hrest, List.foldl_cons, ← hkeep]
        exact ih (r.1 + 1) _ hP hlen
  exact hloop _ 0 s h (rest_length _)

/-- A walk that leaves the table alone. -/
theorem map_for_each_const (m : M α) (body : σ → α → σ) (s : σ) :
    map_for_each (fun _ => m) body s = (items m).foldl (fun s e => body s e.2) s := by
  refine map_for_each_eq_foldl (P := fun _ => True) ?_ trivial
  intro s i j k v _ _
  exact ⟨trivial, rfl⟩

end Laws

/-! ## The ideal finite map

The instance that has no slots, no probing and no allocation. Results about the name server on
finite maps are evaluated on it. -/

/-- A finite map on keys, as the list of its pairs in the order of the keys. -/
structure FinMap (α : Type) where
  pairs : List (UInt32 × α)
  sorted : pairs.Pairwise fun a b => a.1 < b.1

namespace FinMap

variable {α : Type}

/-- The value of a key. -/
def get (m : FinMap α) (key : UInt32) : Option α := (m.pairs.find? (·.1 = key)).map Prod.snd

/-- The key, and its value, taken out. -/
def remove (m : FinMap α) (key : UInt32) : FinMap α where
  pairs := m.pairs.filter (·.1 ≠ key)
  sorted := m.sorted.filter _

/-- A value put for a key. -/
def put (m : FinMap α) (key : UInt32) (value : α) : FinMap α where
  pairs := m.pairs.filter (·.1 < key) ++ (key, value) :: m.pairs.filter (key < ·.1)
  sorted := by
    rw [List.pairwise_append, List.pairwise_cons]
    refine ⟨m.sorted.filter _, ⟨?_, m.sorted.filter _⟩, ?_⟩
    · intro b hb
      simpa using (List.mem_filter.mp hb).2
    · intro a ha b hb
      have hak : a.1 < key := by simpa using (List.mem_filter.mp ha).2
      rcases List.mem_cons.mp hb with rfl | hb
      · exact hak
      · have hkb : key < b.1 := by simpa using (List.mem_filter.mp hb).2
        exact UInt32.lt_trans hak hkb

instance : StructMap FinMap where
  map_create := ⟨[], List.Pairwise.nil⟩
  map_reput _ m key value := (m.put key value, .ok (m.get key))
  map_get := get
  map_remove m key := (m.remove key, if (m.get key).isSome then 0 else 1)
  map_iter_from m start :=
    (m.pairs.find? fun e => start ≤ e.1.toNat).map fun e => (e.1.toNat, e.2)
  rounds m := m.pairs.length

theorem nodup (m : FinMap α) : (m.pairs.map Prod.fst).Nodup := by
  rw [List.Nodup, List.pairwise_map]
  exact m.sorted.imp fun h => UInt32.ne_of_lt h

theorem get_eq_some (m : FinMap α) {k : UInt32} {v : α} : m.get k = some v ↔ (k, v) ∈ m.pairs := by
  unfold get
  constructor
  · intro h
    obtain ⟨e, he, rfl⟩ := Option.map_eq_some_iff.mp h
    have hk : e.1 = k := by simpa using List.find?_some he
    have hmem := List.mem_of_find?_eq_some he
    rwa [← hk]
  · intro h
    cases hf : m.pairs.find? (·.1 = k) with
    | none => exact absurd (List.find?_eq_none.mp hf (k, v) h) (by simp)
    | some e =>
      have hk : e.1 = k := by simpa using List.find?_some hf
      have heq := List.inj_on_of_nodup_map m.nodup (List.mem_of_find?_eq_some hf) h hk
      rw [heq]
      rfl

/-- The value of a key after a put. -/
theorem get_put (m : FinMap α) (key : UInt32) (value : α) (k : UInt32) :
    (m.put key value).get k = if k = key then some value else m.get k := by
  apply Option.ext
  intro v
  rw [get_eq_some]
  simp only [put, List.mem_append, List.mem_cons, List.mem_filter, decide_eq_true_eq,
    Prod.mk.injEq]
  by_cases hk : k = key
  · subst hk
    simp [eq_comm]
  · rw [if_neg hk, get_eq_some]
    constructor
    · rintro (⟨h, -⟩ | ⟨h, -⟩ | ⟨h, -⟩)
      · exact h
      · exact absurd h hk
      · exact h
    · intro h
      rcases UInt32.lt_or_lt_of_ne hk with hlt | hgt
      · exact .inl ⟨h, hlt⟩
      · exact .inr (.inr ⟨h, hgt⟩)

theorem put_perm (m : FinMap α) {key : UInt32} (h : m.get key = none) (value : α) :
    (m.put key value).pairs.Perm ((key, value) :: m.pairs) := by
  refine List.perm_middle.trans (List.Perm.cons _ ?_)
  -- away from the key, being above it is not being below it
  have hsplit : m.pairs.filter (key < ·.1) = m.pairs.filter fun e => !decide (e.1 < key) := by
    refine List.filter_congr fun e he => ?_
    have hne : e.1 ≠ key := by
      intro heq
      have hmem : (key, e.2) ∈ m.pairs := by rwa [← heq]
      rw [← get_eq_some, h] at hmem
      cases hmem
    rw [← decide_not, decide_eq_decide]
    constructor
    · intro hlt
      exact UInt32.lt_asymm hlt
    · intro hle
      rcases UInt32.lt_or_lt_of_ne hne with hlt | hgt
      · exact absurd hlt hle
      · exact hgt
  rw [hsplit]
  exact List.filter_append_perm _ _

/-- What a walk of the pairs from a key on finds first. -/
theorem find_from {l : List (UInt32 × α)} (hl : l.Pairwise fun a b => a.1 < b.1) (i : ℕ) :
    match l.find? fun e => i ≤ e.1.toNat with
    | none => l.filter (fun e => i ≤ e.1.toNat) = []
    | some e => i ≤ e.1.toNat ∧
        l.filter (fun e => i ≤ e.1.toNat) = e :: l.filter (fun b => e.1.toNat + 1 ≤ b.1.toNat) := by
  induction l with
  | nil => rfl
  | cons a l ih =>
    rw [List.pairwise_cons] at hl
    have hrest := ih hl.2
    by_cases ha : i ≤ a.1.toNat
    · rw [List.find?_cons_of_pos (by simpa using ha)]
      refine ⟨ha, ?_⟩
      rw [List.filter_cons_of_pos (by simpa using ha), List.filter_cons_of_neg (by simp)]
      -- everything behind `a` has a greater key
      congr 1
      refine List.filter_congr fun b hb => ?_
      have hlt := UInt32.lt_iff_toNat_lt.mp (hl.1 b hb)
      rw [decide_eq_decide]
      omega
    · rw [List.find?_cons_of_neg (by simpa using ha), List.filter_cons_of_neg (by simpa using ha)]
      split at hrest
      · exact hrest
      · rename_i e _
        refine ⟨hrest.1, hrest.2.trans ?_⟩
        rw [List.filter_cons_of_neg (by simp; omega)]

theorem filter_from_zero (l : List (UInt32 × α)) : l.filter (fun e => 0 ≤ e.1.toNat) = l := by
  simp

theorem put_subset (m : FinMap α) (key : UInt32) (value : α) :
    (m.put key value).pairs ⊆ (key, value) :: m.pairs := by
  intro e he
  rcases List.mem_append.mp he with h | h
  · exact List.mem_cons_of_mem _ (List.mem_filter.mp h).1
  · rcases List.mem_cons.mp h with rfl | h
    · exact List.mem_cons_self
    · exact List.mem_cons_of_mem _ (List.mem_filter.mp h).1

instance : LawfulMap FinMap where
  Good _ := True
  rest m i := m.pairs.filter fun e => i ≤ e.1.toNat
  iter_from m i := by
    have h := find_from m.sorted i
    simp only [map_iter_from]
    cases hf : m.pairs.find? (fun e => i ≤ e.1.toNat) with
    | none =>
      rw [hf] at h
      exact h
    | some e =>
      rw [hf] at h
      exact ⟨h.1, e.1, h.2⟩
  rest_length m := List.length_filter_le _ _
  rest_create := rfl
  mem_of_get {α m k v} h := by
    rw [filter_from_zero]
    exact m.get_eq_some.mp h
  reput_error h := by cases h
  reput_subset {α} calloc m k v := by
    rw [filter_from_zero, filter_from_zero]
    exact m.put_subset k v
  remove_subset {α} m k := by
    rw [filter_from_zero, filter_from_zero]
    exact List.filter_sublist.subset
  good_create := trivial
  distinct {α m} _ := by
    rw [filter_from_zero]
    exact m.nodup
  get_of_mem {α m} _ {k v} hv := by
    rw [filter_from_zero] at hv
    exact m.get_eq_some.mpr hv
  reput_fresh {α calloc m} _ {k} hk {v old} _ := by
    rw [filter_from_zero, filter_from_zero]
    exact ⟨trivial, m.put_perm hk v⟩
  good_remove _ _ := trivial
  rest_remove {α m} _ k i := by
    simp only [map_remove, remove, List.filter_filter]
    exact List.filter_congr fun e _ => Bool.and_comm _ _

end FinMap

end Dragonboard.MapApi
