/-
Runs of the operations of `qcom/qrtr/src/list.h` against sequences.

Each operation does to a sequence of items what its name says (`Op.spec`), and `Represents` says that
the two walks, on from `head` and back from `tail`, visit such a sequence. Four of the five operations
keep this wherever they work: at the ends, in between, on a single item.

`list_prepend` sets no link back from the item that was the first, where `list_append` sets the
link on from the last. The walk on does not see it; the walk back ends one item short. So a run
represents its sequence all along exactly if nothing is prepended to a list that has items
(`run_represents_iff`).
-/
import Dragonboard.LinkedList
import Mathlib.Data.List.Induction

set_option autoImplicit false

namespace Dragonboard.LinkedList

/-! ## Operations on sequences

What the operations are for, as operations on sequences of distinct items. -/

/-- A call of one of the operations. -/
inductive Op where
  | append (item : ℕ)
  | prepend (item : ℕ)
  | insert (after : Option ℕ) (item : ℕ)
  | remove (item : ℕ)
  | pop
deriving DecidableEq, Repr

/-- `x` right after `a`. -/
def insertAfter (a x : ℕ) : List ℕ → List ℕ
  | [] => []
  | b :: l => if b = a then b :: x :: l else b :: insertAfter a x l

/-- What a call makes of a sequence. -/
def Op.spec (l : List ℕ) : Op → List ℕ
  | .append x => l ++ [x]
  | .prepend x => x :: l
  | .insert none x => x :: l
  | .insert (some a) x => insertAfter a x l
  | .remove x => l.erase x
  | .pop => l.tail

/-- What a caller has to see to: a new item is not in the list, and what is named is. -/
def Op.Legal (l : List ℕ) : Op → Prop
  | .append x => x ∉ l
  | .prepend x => x ∉ l
  | .insert after x => x ∉ l ∧ ∀ a ∈ after, a ∈ l
  | .remove x => x ∈ l
  | .pop => True

/-- The calls that put an item before all others. -/
def Op.AtHead : Op → Prop
  | .prepend _ => True
  | .insert none _ => True
  | _ => False

/-- A call on the links. -/
def Op.step (h : Heap) (list : ListHead) : Op → Option (Heap × ListHead)
  | .append x => some (list_append h list x)
  | .prepend x => some (list_prepend h list x)
  | .insert after x => some (list_insert h list after x)
  | .remove x => list_remove h list x
  | .pop => (list_pop h list).map Prod.snd

/-- The sequence after some calls. -/
def specRun (l : List ℕ) (ops : List Op) : List ℕ :=
  ops.foldl Op.spec l

/-- Every call of a run is legal where it is made. -/
def LegalRun (l : List ℕ) : List Op → Prop
  | [] => True
  | op :: ops => op.Legal l ∧ LegalRun (op.spec l) ops

/-- The links after some calls, or nothing if one of them follows a null pointer. -/
def run (h : Heap) (list : ListHead) : List Op → Option (Heap × ListHead)
  | [] => some (h, list)
  | op :: ops =>
    match op.step h list with
    | none => none
    | some (h, list) => run h list ops

/-- The structure represents a sequence: both walks visit it, and it lies between the ends. -/
structure Represents (h : Heap) (list : ListHead) (l : List ℕ) : Prop where
  forward : walk h l.length list.head = some l
  backward : walkBack h l.length list.tail = some l.reverse
  head : list.head = l.head?
  tail : list.tail = l.getLast?

theorem insertAfter_middle {A : List ℕ} {a : ℕ} (ha : a ∉ A) (x : ℕ) (B : List ℕ) :
    insertAfter a x (A ++ a :: B) = A ++ a :: x :: B := by
  induction A with
  | nil =>
    rw [List.nil_append, insertAfter, if_pos rfl]
    rfl
  | cons b A ih =>
    rw [List.mem_cons, not_or] at ha
    rw [List.cons_append, insertAfter, if_neg (Ne.symm ha.1), ih ha.2]
    rfl

/-! ## The walk back

Only the walk back from the tail shows a missing `prev`. -/

/-- With a round for every item the walk back goes through a segment from its last item on. -/
theorem walkBack_segment {h : Heap} {l : List ℕ} {q : Option ℕ} {n : ℕ} (hl : Segment h none l q)
    (hn : l.length ≤ n) : walkBack h n l.getLast? = some l.reverse := by
  induction l using List.reverseRecOn generalizing q n with
  | nil => rw [List.getLast?_nil, walkBack, List.reverse_nil]
  | append_singleton l a ih =>
    obtain ⟨hinit, ha, -⟩ := Segment.append.mp hl
    rw [List.length_append, List.length_singleton] at hn
    obtain ⟨m, rfl⟩ : ∃ m, n = m + 1 := Nat.exists_eq_succ_of_ne_zero (by omega)
    rw [List.getLast?_concat, walkBack, ha, Option.or_none, ih hinit (by omega), List.reverse_concat]
    rfl

theorem Spells.represents {h : Heap} {list : ListHead} {l : List ℕ} (hl : Spells h list l) :
    Represents h list l := by
  refine ⟨walk_spells hl (Nat.le_refl _), ?_, hl.head, hl.tail⟩
  rw [hl.tail]
  exact walkBack_segment hl.links (Nat.le_refl _)

/-! ## One call

The operations that `LinkedList` does not have, and all of them as one step. `list_prepend` sets
no link back from the item that was the first. -/

/-- **`list_prepend`** to an empty list. -/
theorem Spells.list_prepend_nil {h : Heap} {list : ListHead} (hl : Spells h list []) (x : ℕ) :
    Spells (list_prepend h list x).1 (list_prepend h list x).2 [x] := by
  have hhead : list.head = none := hl.head
  simp only [list_prepend, hhead, if_true]
  refine ⟨List.nodup_singleton x, ⟨?_, trivial⟩, rfl, rfl⟩
  rw [Function.update_self]
  rfl

/-- **`list_prepend`** to a list with items: from the item that was the first there is no way
back. -/
theorem Spells.not_list_prepend {h : Heap} {list : ListHead} {l : List ℕ} (hl : Spells h list l)
    (hne : l ≠ []) {x : ℕ} (hx : x ∉ l) :
    ¬ Represents (list_prepend h list x).1 (list_prepend h list x).2 (x :: l) := by
  intro hrep
  have hhead : list.head ≠ none := by
    rw [hl.head, ne_eq, List.head?_eq_none_iff]
    exact hne
  have hback := hrep.backward
  simp only [list_prepend, if_neg hhead, hl.tail] at hback
  rw [walkBack_segment (hl.links.frame hx _) (by rw [List.length_cons]; omega), Option.some.injEq,
    List.reverse_inj] at hback
  exact absurd (congrArg List.length hback) (by rw [List.length_cons]; omega)

/-- The links around a new item: from the one before it, and back from the one after it. -/
theorem insert_links {h : Heap} {A B : List ℕ} {a x : ℕ} {h' : Heap}
    (hl : Segment h none (A ++ a :: B) none) (hnodup : (A ++ a :: B).Nodup) (hx : x ∉ A ++ a :: B)
    (hh' : Function.update (Function.update h x ⟨B.head?, some a⟩) a
      { Function.update h x ⟨B.head?, some a⟩ a with next := some x } = h') :
    Segment h' none (A ++ [a]) (some x) ∧ h' x = ⟨B.head?, some a⟩ ∧ Segment h' (some a) B none := by
  rw [List.mem_append, List.mem_cons, not_or, not_or] at hx
  obtain ⟨hxA, hxa, hxB⟩ := hx
  obtain ⟨haA, haB, -⟩ := nodup_around hnodup
  rw [List.append_cons] at hl
  obtain ⟨hA, hB⟩ := Segment.append.mp hl
  rw [List.getLast?_concat, Option.some_or] at hB
  have hxA' : x ∉ A ++ [a] := by
    rw [List.mem_append, List.mem_singleton, not_or]
    exact ⟨hxA, hxa⟩
  rw [← hh']
  refine ⟨(hA.frame hxA' _).set_next haA _, ?_, (hB.frame hxB _).frame haB _⟩
  rw [Function.update_of_ne hxa, Function.update_self]

/-- **`list_insert`** after an item. -/
theorem Spells.list_insert {h : Heap} {list : ListHead} {A B : List ℕ} {a x : ℕ}
    (hl : Spells h list (A ++ a :: B)) (hx : x ∉ A ++ a :: B) :
    Spells (list_insert h list (some a) x).1 (list_insert h list (some a) x).2
      (A ++ a :: x :: B) := by
  have hnext : (h a).next = B.head? := by
    rw [(Segment.append.mp hl.links).2.1, Option.or_none]
  simp only [LinkedList.list_insert, hnext]
  generalize hh' : Function.update (Function.update h x ⟨B.head?, some a⟩) a
    { Function.update h x ⟨B.head?, some a⟩ a with next := some x } = h'
  obtain ⟨hA, hxlink, hB⟩ := insert_links hl.links hl.nodup hx hh'
  rw [List.mem_append, List.mem_cons, not_or, not_or] at hx
  obtain ⟨hxA, hxa, hxB⟩ := hx
  obtain ⟨haA, haB, hAB⟩ := nodup_around hl.nodup
  have hnodup : (A ++ a :: x :: B).Nodup := by
    refine List.nodup_middle.mpr (List.nodup_cons.mpr ⟨?_, List.nodup_middle.mpr
      (List.nodup_cons.mpr ⟨?_, hAB⟩)⟩)
    · simp [haA, haB, Ne.symm hxa]
    · simp [hxA, hxB]
  have hhead : list.head = (A ++ a :: x :: B).head? := by
    rw [hl.head, List.head?_append, List.head?_append]
    rfl
  have htail : list.tail = (a :: B).getLast? := by
    rw [hl.tail, List.getLast?_append_of_ne_nil _ (List.cons_ne_nil _ _)]
  -- behind the last item there is no link back to set, and the tail moves
  cases B with
  | nil =>
    have hsame : list_insert.linkBack h' x = h' := by
      simp only [list_insert.linkBack, hxlink, List.head?_nil]
    rw [hsame]
    refine ⟨hnodup, ?_, hhead, by simp [htail]⟩
    rw [List.append_cons]
    refine Segment.append.mpr ⟨hA, ?_, trivial⟩
    rw [List.getLast?_concat]
    exact hxlink
  | cons b B =>
    rw [List.mem_cons, not_or] at haB hxB
    obtain ⟨hbA, hbB, -⟩ := nodup_around hAB
    have hbAa : b ∉ A ++ [a] := by
      rw [List.mem_append, List.mem_singleton, not_or]
      exact ⟨hbA, Ne.symm haB.1⟩
    have hne : (b :: B).getLast? ≠ some a := by
      intro heq
      rcases List.mem_cons.mp (List.mem_of_getLast? heq) with rfl | hmem
      · exact haB.1 rfl
      · exact haB.2 hmem
    have hlast : (a :: b :: B).getLast? = (b :: B).getLast? := by simp [List.getLast?_cons]
    rw [hlast] at htail
    -- else the link back is set in the first item of `B`
    have hset : list_insert.linkBack h' x = Function.update h' b { h' b with prev := some x } := by
      simp only [list_insert.linkBack, hxlink, List.head?_cons]
    rw [hset, htail, if_neg hne]
    refine ⟨hnodup, ?_, hhead, ?_⟩
    · rw [List.append_cons]
      refine Segment.append.mpr ⟨hA.frame hbAa _, ?_, hB.set_prev hbB (some x)⟩
      rw [List.getLast?_concat, Function.update_of_ne hxB.1]
      exact hxlink
    · simp [List.getLast?_cons]

/-- **`list_pop`** takes the first item out, and returns it. -/
theorem Spells.list_pop {h : Heap} {list : ListHead} {l : List ℕ} (hl : Spells h list l) :
    ∃ h' list', list_pop h list = some (l.head?, h', list') ∧ Spells h' list' l.tail := by
  have hhead : list.head = l.head? := hl.head
  cases l with
  | nil =>
    refine ⟨h, list, ?_, hl⟩
    rw [LinkedList.list_pop, hhead]
    rfl
  | cons a l =>
    have hremove := Spells.list_remove (A := []) hl
    obtain ⟨h', list', hremove, hl'⟩ := hremove
    refine ⟨h', list', ?_, hl'⟩
    rw [LinkedList.list_pop, hhead]
    simp only [List.head?_cons, hremove, Option.map_some]

/-- A call that is legal, and prepends to nothing but an empty list. -/
theorem Spells.step {h : Heap} {list : ListHead} {l : List ℕ} (hl : Spells h list l) {op : Op}
    (hlegal : op.Legal l) (hhead : op.AtHead → l = []) :
    ∃ h' list', op.step h list = some (h', list') ∧ Spells h' list' (op.spec l) := by
  cases op with
  | append x => exact ⟨_, _, rfl, hl.list_append hlegal⟩
  | prepend x =>
    obtain rfl := hhead trivial
    exact ⟨_, _, rfl, hl.list_prepend_nil x⟩
  | insert after x =>
    cases after with
    | none =>
      obtain rfl := hhead trivial
      exact ⟨_, _, rfl, hl.list_prepend_nil x⟩
    | some a =>
      -- the first place of the item in the list is its only one
      obtain ⟨A, B, rfl, ha⟩ := List.eq_append_cons_of_mem (hlegal.2 a rfl)
      rw [Op.spec, insertAfter_middle ha]
      exact ⟨_, _, rfl, hl.list_insert hlegal.1⟩
  | remove x =>
    obtain ⟨A, B, rfl, hx⟩ := List.eq_append_cons_of_mem hlegal
    rw [Op.spec, List.erase_append_right _ hx, List.erase_cons_head]
    exact hl.list_remove
  | pop =>
    obtain ⟨h', list', hpop, hl'⟩ := hl.list_pop
    refine ⟨h', list', ?_, hl'⟩
    rw [Op.step, hpop]
    rfl

/-- A call that prepends to items. -/
theorem Spells.not_step {h : Heap} {list : ListHead} {l : List ℕ} (hl : Spells h list l) {op : Op}
    (hlegal : op.Legal l) (hhead : op.AtHead) (hne : l ≠ []) :
    ¬ ∃ h' list', op.step h list = some (h', list') ∧ Represents h' list' (op.spec l) := by
  rintro ⟨h', list', hstep, hrep⟩
  cases op with
  | append x => exact hhead
  | prepend x =>
    cases hstep
    exact hl.not_list_prepend hne hlegal hrep
  | insert after x =>
    cases after with
    | none =>
      cases hstep
      exact hl.not_list_prepend hne hlegal.1 hrep
    | some a => exact hhead
  | remove x => exact hhead
  | pop => exact hhead

/-! ## Runs

The run lemma, and the shortest run that breaks the links. -/

/-- A run from any list of items. -/
theorem run_represents_from {ops : List Op} {h : Heap} {list : ListHead} {l : List ℕ}
    (hl : Spells h list l) (hlegal : LegalRun l ops) :
    (∀ pre, pre <+: ops → ∃ h' list', run h list pre = some (h', list') ∧
        Represents h' list' (specRun l pre)) ↔
      ∀ pre op, pre ++ [op] <+: ops → op.AtHead → specRun l pre = [] := by
  induction ops generalizing h list l with
  | nil =>
    refine iff_of_true (fun pre hpre => ?_) fun pre op hpre => ?_
    · rw [List.prefix_nil.mp hpre]
      exact ⟨h, list, rfl, hl.represents⟩
    · exact absurd (List.prefix_nil.mp hpre) (by simp)
  | cons op ops ih =>
    obtain ⟨hop, hrest⟩ := hlegal
    constructor
    · intro hrun
      -- a call that prepends to items would break the structure right away
      have hhead : op.AtHead → l = [] := by
        intro hhead
        by_contra hne
        obtain ⟨h', list', hstep, hrep⟩ := hrun [op] (by simp)
        refine hl.not_step hop hhead hne ⟨h', list', ?_, hrep⟩
        cases hs : op.step h list with
        | none =>
          rw [run, hs] at hstep
          cases hstep
        | some s =>
          rw [run, hs] at hstep
          exact hstep
      obtain ⟨h1, list1, hstep, hl1⟩ := hl.step hop hhead
      -- the calls that are left run from a list again
      have htail := (ih hl1 hrest).mp fun pre hpre => by
        obtain ⟨h', list', hrun', hrep⟩ := hrun (op :: pre) (by simpa using hpre)
        rw [run, hstep] at hrun'
        exact ⟨h', list', hrun', hrep⟩
      intro pre op' hpre
      cases pre with
      | nil =>
        obtain ⟨rfl, -⟩ := List.cons_prefix_cons.mp hpre
        exact hhead
      | cons _ pre =>
        obtain ⟨rfl, hpre'⟩ := List.cons_prefix_cons.mp hpre
        exact htail pre op' hpre'
    · intro hempty
      obtain ⟨h1, list1, hstep, hl1⟩ := hl.step hop (hempty [] op (by simp))
      have htail := (ih hl1 hrest).mpr fun pre op' hpre =>
        hempty (op :: pre) op' (by simpa using hpre)
      intro pre hpre
      cases pre with
      | nil => exact ⟨h, list, rfl, hl.represents⟩
      | cons _ pre =>
        obtain ⟨rfl, hpre'⟩ := List.cons_prefix_cons.mp hpre
        obtain ⟨h', list', hrun, hrep⟩ := htail pre hpre'
        refine ⟨h', list', ?_, hrep⟩
        rw [run, hstep]
        exact hrun

/-- **A run represents its sequence all along**, with no null pointer followed, exactly if every
item that is put before all others is put into an empty list. -/
theorem run_represents_iff (h : Heap) (ops : List Op) (hlegal : LegalRun [] ops) :
    (∀ pre, pre <+: ops → ∃ h' list', run h list_init pre = some (h', list') ∧
        Represents h' list' (specRun [] pre)) ↔
      ∀ pre op, pre ++ [op] <+: ops → op.AtHead → specRun [] pre = [] :=
  run_represents_from (Spells.init h) hlegal

/-- Items from everywhere: at the end, in between, and out again. -/
theorem run_represents_between :
    (∀ pre, pre <+: [Op.prepend 1, .append 3, .insert (some 1) 2, .pop] →
      ∃ h' list', run (fun _ => ⟨none, none⟩) list_init pre = some (h', list') ∧
        Represents h' list' (specRun [] pre)) ↔
      ∀ pre op, pre ++ [op] <+: [Op.prepend 1, .append 3, .insert (some 1) 2, .pop] → op.AtHead →
        specRun [] pre = [] :=
  run_represents_iff (fun _ => ⟨none, none⟩) _ (by simp [LegalRun, Op.Legal, Op.spec])

/-- **One item appended, one prepended**: the walk back from the tail visits one of them. -/
theorem prepend_not_represents :
    LegalRun [] [.append 1, .prepend 2] ∧
      ¬ ∃ h' list', run (fun _ => ⟨none, none⟩) list_init [.append 1, .prepend 2] = some (h', list') ∧
        Represents h' list' (specRun [] [.append 1, .prepend 2]) := by
  refine ⟨by simp [LegalRun, Op.Legal, Op.spec], ?_⟩
  rintro ⟨h', list', hrun, hrep⟩
  have hback := hrep.backward
  cases hrun
  exact absurd hback (by decide)

end Dragonboard.LinkedList
