/-
`qcom/qrtr/src/list.h`: doubly linked lists through the items themselves.

Items are addresses, and a heap gives the two links of each. `Spells` says that the links from `head`
on, and back from `tail`, run through a list of addresses. `list_append` adds one at
the end and `list_remove` takes one out wherever it is. A `list_for_each_safe` loop that
removes the items it does not want leaves the others, in their order (`sweep_spells`).

The name server uses no other operation to change a list. The others are given as the source has
them; runs of all of them are in `LinkedListRun`.
-/
import Mathlib.Logic.Function.Basic
import Mathlib.Data.List.Nodup
import Mathlib.Data.List.Basic

set_option autoImplicit false

namespace Dragonboard.LinkedList

/-! ## The operations

The operations of `list.h` on links, as the source sets them. A null pointer that is followed is
`none`. -/

/-- `struct list_item`. A null pointer is `none`. -/
structure ListItem where
  next : Option ℕ
  prev : Option ℕ
deriving DecidableEq, Repr

/-- `struct list`. -/
structure ListHead where
  head : Option ℕ
  tail : Option ℕ
deriving DecidableEq, Repr

/-- The links at every address. -/
abbrev Heap := ℕ → ListItem

/-- `list_init`. -/
def list_init : ListHead := ⟨none, none⟩

/-- `list_append`. -/
def list_append (h : Heap) (list : ListHead) (item : ℕ) : Heap × ListHead :=
  let h := Function.update h item ⟨none, list.tail⟩
  match list.tail with
  | some t => (Function.update h t { h t with next := some item }, { list with tail := some item })
  | none => (h, ⟨some item, some item⟩)

/-- The first line of `list_remove`. -/
def list_remove.unlinkNext (h : Heap) (item : ℕ) : Heap :=
  match (h item).next with
  | some n => Function.update h n { h n with prev := (h item).prev }
  | none => h

/-- `list_remove`, or nothing if it follows a null pointer. -/
def list_remove (h : Heap) (list : ListHead) (item : ℕ) : Option (Heap × ListHead) :=
  let h := list_remove.unlinkNext h item
  if list.head = some item then
    let head := (h item).next
    let tail := if head = none then none else list.tail
    some (Function.update h item ⟨none, none⟩, ⟨head, tail⟩)
  else
    match (h item).prev with
    | none => none
    | some p =>
      let h := Function.update h p { h p with next := (h item).next }
      let tail := if list.tail = some item then (h item).prev else list.tail
      some (Function.update h item ⟨none, none⟩, { list with tail := tail })

/-- `list_prepend`. The item that was the first keeps its `prev`. -/
def list_prepend (h : Heap) (list : ListHead) (item : ℕ) : Heap × ListHead :=
  let h := Function.update h item ⟨list.head, none⟩
  let tail := if list.head = none then some item else list.tail
  (h, ⟨some item, tail⟩)

/-- The last link that `list_insert` sets, back from the item after the new one. -/
def list_insert.linkBack (h : Heap) (item : ℕ) : Heap :=
  match (h item).next with
  | some n => Function.update h n { h n with prev := some item }
  | none => h

/-- `list_insert`. A null `after` is the place before the first item. -/
def list_insert (h : Heap) (list : ListHead) (after : Option ℕ) (item : ℕ) : Heap × ListHead :=
  match after with
  | none => list_prepend h list item
  | some a =>
    let h := Function.update h item ⟨(h a).next, some a⟩
    let h := Function.update h a { h a with next := some item }
    let h := list_insert.linkBack h item
    let tail := if list.tail = some a then some item else list.tail
    (h, { list with tail := tail })

/-- `list_pop`, with the item it returns. -/
def list_pop (h : Heap) (list : ListHead) : Option (Option ℕ × Heap × ListHead) :=
  match list.head with
  | none => some (none, h, list)
  | some item => (list_remove h list item).map fun s => (some item, s)

/-- A `list_for_each_safe` loop from `iter` on that removes the items `drop` picks, for a number of
rounds. -/
def sweep (drop : ℕ → Bool) : ℕ → Option ℕ → Heap → ListHead → Option (Heap × ListHead)
  | _, none, h, list => some (h, list)
  | 0, some _, _, _ => none
  | n + 1, some item, h, list =>
    let bkup := (h item).next
    if drop item then
      match list_remove h list item with
      | none => none
      | some (h, list) => sweep drop n bkup h list
    else sweep drop n bkup h list

/-- The items a `list_for_each` loop from `iter` on visits, for a number of rounds. -/
def walk (h : Heap) : ℕ → Option ℕ → Option (List ℕ)
  | _, none => some []
  | 0, some _ => none
  | n + 1, some item => (walk h n (h item).next).map (item :: ·)

/-- The items on the way back from `iter`, for a number of rounds. -/
def walkBack (h : Heap) : ℕ → Option ℕ → Option (List ℕ)
  | _, none => some []
  | 0, some _ => none
  | n + 1, some item => (walkBack h n (h item).prev).map (item :: ·)

/-! ## Segments

A stretch of a list, with what it is linked to at both ends. An operation in the middle of a list
splits it into segments and joins them again. -/

/-- The links of a stretch of items, from the one before it to the one after it. -/
def Segment (h : Heap) : Option ℕ → List ℕ → Option ℕ → Prop
  | _, [], _ => True
  | prev, a :: l, after => h a = ⟨l.head?.or after, prev⟩ ∧ Segment h (some a) l after

theorem Segment.append {h : Heap} {A B : List ℕ} {p q : Option ℕ} :
    Segment h p (A ++ B) q ↔ Segment h p A (B.head?.or q) ∧ Segment h (A.getLast?.or p) B q := by
  induction A generalizing p with
  | nil => simp [Segment]
  | cons a A ih =>
    have hlast : (a :: A).getLast?.or p = A.getLast?.or (some a) := by
      cases A with
      | nil => rfl
      | cons b A => simp [List.getLast?_cons]
    rw [List.cons_append, Segment, Segment, ih, hlast, List.head?_append, Option.or_assoc, and_assoc]

/-- A segment does not depend on other items. -/
theorem Segment.frame {h : Heap} {l : List ℕ} {p q : Option ℕ} (hl : Segment h p l q) {x : ℕ}
    (hx : x ∉ l) (v : ListItem) : Segment (Function.update h x v) p l q := by
  induction l generalizing p with
  | nil => trivial
  | cons a l ih =>
    rw [List.mem_cons, not_or] at hx
    refine ⟨?_, ih hl.2 hx.2⟩
    rw [Function.update_of_ne (Ne.symm hx.1)]
    exact hl.1

/-- The link back from the first item set. -/
theorem Segment.set_prev {h : Heap} {b : ℕ} {l : List ℕ} {p q : Option ℕ}
    (hl : Segment h p (b :: l) q) (hb : b ∉ l) (p' : Option ℕ) :
    Segment (Function.update h b { h b with prev := p' }) p' (b :: l) q := by
  refine ⟨?_, hl.2.frame hb _⟩
  rw [Function.update_self, hl.1]

/-- The link on from the last item set. -/
theorem Segment.set_next {h : Heap} {a : ℕ} {l : List ℕ} {p q : Option ℕ}
    (hl : Segment h p (l ++ [a]) q) (ha : a ∉ l) (q' : Option ℕ) :
    Segment (Function.update h a { h a with next := q' }) p (l ++ [a]) q' := by
  obtain ⟨hinit, hlast⟩ := Segment.append.mp hl
  refine Segment.append.mpr ⟨hinit.frame ha _, ?_, trivial⟩
  rw [Function.update_self, hlast.1]
  rfl

/-- What is around an item of distinct ones. -/
theorem nodup_around {A B : List ℕ} {x : ℕ} (h : (A ++ x :: B).Nodup) :
    x ∉ A ∧ x ∉ B ∧ (A ++ B).Nodup := by
  have hmid := List.nodup_middle.mp h
  rw [List.nodup_cons, List.mem_append, not_or] at hmid
  exact ⟨hmid.1.1, hmid.1.2, hmid.2⟩

/-! ## Lists

A list is a segment from the head to the tail. Each operation is an operation on the sequence that
is spelled. -/

/-- A list of distinct addresses, linked both ways. -/
structure Spells (h : Heap) (list : ListHead) (l : List ℕ) : Prop where
  nodup : l.Nodup
  links : Segment h none l none
  head : list.head = l.head?
  tail : list.tail = l.getLast?

theorem Spells.init (h : Heap) : Spells h list_init [] := ⟨List.nodup_nil, trivial, rfl, rfl⟩

/-- **`list_append`** adds an item at the end. -/
theorem Spells.list_append {h : Heap} {list : ListHead} {l : List ℕ} (hl : Spells h list l) {x : ℕ}
    (hx : x ∉ l) : Spells (list_append h list x).1 (list_append h list x).2 (l ++ [x]) := by
  have hnodup : (l ++ [x]).Nodup := by
    rw [List.nodup_append]
    refine ⟨hl.nodup, List.nodup_singleton x, fun a ha b hb => ?_⟩
    rw [List.mem_singleton.mp hb]
    rintro rfl
    exact hx ha
  rcases List.eq_nil_or_concat l with rfl | ⟨L, b, rfl⟩
  · have htail : list.tail = none := hl.tail
    simp only [LinkedList.list_append, htail]
    refine ⟨hnodup, ⟨?_, trivial⟩, rfl, rfl⟩
    rw [Function.update_self]
    rfl
  · rw [List.concat_eq_append] at hl hx hnodup ⊢
    have htail : list.tail = some b := by rw [hl.tail, List.getLast?_concat]
    have hb : b ∉ L := (nodup_around hl.nodup).1
    have hxb : x ≠ b := by
      rintro rfl
      exact hx (by simp)
    simp only [LinkedList.list_append, htail]
    refine ⟨hnodup, Segment.append.mpr ⟨?_, ?_, trivial⟩, ?_, by simp⟩
    · exact (hl.links.frame hx _).set_next hb _
    · rw [Function.update_of_ne hxb, Function.update_self]
      simp
    · rw [hl.head]
      simp

/-- What the first line of `list_remove` does to the two sides of an item. -/
theorem unlinkNext_spec {h : Heap} {A B : List ℕ} {x : ℕ} (hl : Segment h none (A ++ x :: B) none)
    (hnodup : (A ++ x :: B).Nodup) :
    Segment (list_remove.unlinkNext h x) none A (some x) ∧
      Segment (list_remove.unlinkNext h x) A.getLast? B none ∧
      list_remove.unlinkNext h x x = ⟨B.head?, A.getLast?⟩ := by
  obtain ⟨hA, hx, hB⟩ := Segment.append.mp hl
  rw [Option.or_none, Option.or_none] at hx
  rw [List.head?_cons, Option.some_or] at hA
  obtain ⟨-, hxB, hAB⟩ := nodup_around hnodup
  cases B with
  | nil =>
    have hsame : list_remove.unlinkNext h x = h := by
      simp only [list_remove.unlinkNext, hx, List.head?_nil]
    rw [hsame]
    exact ⟨hA, trivial, hx⟩
  | cons b B =>
    have hset : list_remove.unlinkNext h x = Function.update h b { h b with prev := A.getLast? } := by
      simp only [list_remove.unlinkNext, hx, List.head?_cons]
    have hbx : x ≠ b := by
      rintro rfl
      exact hxB List.mem_cons_self
    obtain ⟨hbA, hbB, -⟩ := nodup_around hAB
    rw [hset]
    refine ⟨hA.frame hbA _, hB.set_prev hbB _, ?_⟩
    rw [Function.update_of_ne hbx, hx]

/-- **`list_remove`** takes an item out. -/
theorem Spells.list_remove {h : Heap} {list : ListHead} {A B : List ℕ} {x : ℕ}
    (hl : Spells h list (A ++ x :: B)) :
    ∃ h' list', list_remove h list x = some (h', list') ∧ Spells h' list' (A ++ B) := by
  obtain ⟨hA, hB, hx⟩ := unlinkNext_spec hl.links hl.nodup
  obtain ⟨hxA, hxB, hnodup⟩ := nodup_around hl.nodup
  have htail : list.tail = (x :: B).getLast? := by
    rw [hl.tail, List.getLast?_append_of_ne_nil _ (List.cons_ne_nil _ _)]
  rcases List.eq_nil_or_concat A with rfl | ⟨L, a, rfl⟩
  · -- the first item
    have hhead : list.head = some x := hl.head
    simp only [LinkedList.list_remove, if_pos hhead]
    refine ⟨_, _, rfl, ⟨hnodup, hB.frame hxB _, by rw [hx]; rfl, ?_⟩⟩
    rw [hx, htail]
    cases B with
    | nil => rfl
    | cons b B => simp [List.getLast?_cons]
  · rw [List.concat_eq_append] at *
    have hhead : list.head ≠ some x := by
      rw [hl.head]
      intro heq
      refine hxA (List.mem_of_mem_head? ?_)
      rw [List.head?_append] at heq
      cases hLa : (L ++ [a]).head? with
      | none => simp at hLa
      | some c =>
        rw [hLa] at heq
        exact heq
    have haL : a ∉ L := (nodup_around (List.Nodup.of_append_left hnodup)).1
    have haB : a ∉ B := by
      rw [← List.append_cons] at hnodup
      exact (nodup_around hnodup).2.1
    have hax : x ≠ a := by
      rintro rfl
      exact hxA (by simp)
    rw [List.getLast?_concat] at hx hB
    simp only [LinkedList.list_remove, if_neg hhead, hx]
    refine ⟨_, _, rfl, ⟨hnodup, Segment.append.mpr ⟨?_, ?_⟩, ?_, ?_⟩⟩
    · rw [Option.or_none]
      exact (hA.set_next haL _).frame hxA _
    · rw [List.getLast?_concat, Option.some_or]
      exact (hB.frame haB _).frame hxB _
    · rw [hl.head]
      simp
    · -- the new tail is the item before, if this was the last one
      rw [Function.update_of_ne hax, hx, htail]
      cases B with
      | nil => simp
      | cons b B =>
        have hlast : (x :: b :: B).getLast? = (b :: B).getLast? := by simp [List.getLast?_cons]
        have hne : (b :: B).getLast? ≠ some x := fun heq => hxB (List.mem_of_getLast? heq)
        rw [hlast, if_neg hne, List.getLast?_append_of_ne_nil _ (List.cons_ne_nil _ _)]

/-! ## Loops

The safe loop removes items while it goes on; the other one does not change the list. -/

/-- A loop that has kept `K` and has `R` still to visit. -/
theorem sweep_spells_from {drop : ℕ → Bool} {n : ℕ} {K R : List ℕ} {h : Heap} {list : ListHead}
    (hl : Spells h list (K ++ R)) (hn : R.length ≤ n) :
    ∃ h' list', sweep drop n R.head? h list = some (h', list') ∧
      Spells h' list' (K ++ R.filter fun x => !drop x) := by
  induction R generalizing n K h list with
  | nil =>
    refine ⟨h, list, ?_, hl⟩
    rw [List.head?_nil, sweep]
  | cons x R ih =>
    obtain ⟨m, rfl⟩ : ∃ m, n = m + 1 := Nat.exists_eq_succ_of_ne_zero (by simp at hn; omega)
    have hm : R.length ≤ m := by simpa using hn
    have hnext : (h x).next = R.head? := by
      have hx := (Segment.append.mp hl.links).2.1
      rw [hx, Option.or_none]
    rw [List.head?_cons, sweep, hnext]
    by_cases hdrop : drop x = true
    · obtain ⟨h', list', hremove, hl'⟩ := hl.list_remove
      rw [if_pos hdrop, hremove, List.filter_cons_of_neg (by simp [hdrop])]
      exact ih hl' hm
    · rw [if_neg hdrop, List.filter_cons_of_pos (by simpa using hdrop)]
      have hl' : Spells h list (K ++ [x] ++ R) := by rwa [List.append_assoc]
      have hrest := ih hl' hm
      rwa [List.append_assoc] at hrest

/-- **A `list_for_each_safe` loop** with a round for every item leaves those it does not remove. -/
theorem sweep_spells (drop : ℕ → Bool) {n : ℕ} {l : List ℕ} {h : Heap} {list : ListHead}
    (hl : Spells h list l) (hn : l.length ≤ n) :
    ∃ h' list', sweep drop n list.head h list = some (h', list') ∧
      Spells h' list' (l.filter fun x => !drop x) := by
  rw [hl.head]
  exact sweep_spells_from (K := []) hl hn

/-- **A `list_for_each` loop** visits the items in order. -/
theorem walk_spells {n : ℕ} {l : List ℕ} {h : Heap} {list : ListHead} (hl : Spells h list l)
    (hn : l.length ≤ n) : walk h n list.head = some l := by
  have hwalk : ∀ (n : ℕ) (l : List ℕ) (p : Option ℕ), Segment h p l none → l.length ≤ n →
      walk h n l.head? = some l := by
    intro n l
    induction l generalizing n with
    | nil => exact fun p _ _ => by rw [List.head?_nil, walk]
    | cons x l ih =>
      intro p hseg hlen
      obtain ⟨m, rfl⟩ : ∃ m, n = m + 1 := Nat.exists_eq_succ_of_ne_zero (by simp at hlen; omega)
      rw [List.head?_cons, walk, hseg.1, Option.or_none, ih m (some x) hseg.2 (by simpa using hlen)]
      rfl
  rw [hl.head]
  exact hwalk n l none hl.links hn

end Dragonboard.LinkedList
