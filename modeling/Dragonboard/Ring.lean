/-
`qcom/tqftpserv/list.h`: lists that run in a ring through their entries.

A list is the address of its head. A heap holds the links at each address that is allocated, with
the entry they are in, and an operation fails where it follows a pointer to anything else.
`Spells` says that the links run from the head through a list of addresses and back to the head, in
both directions. `list_add` puts an entry last, and `list_del` takes one out wherever it is.
A `list_for_each_entry_safe` loop reads the next link before its body runs. If the body removes
at most the entry it is given, the loop visits what was in the list at the start
(`each_entry_safe_eq`), also when the removed entries are freed.
-/
import Mathlib.Logic.Function.Basic
import Mathlib.Data.List.Nodup
import Mathlib.Data.List.Perm.Subperm

set_option autoImplicit false

namespace Dragonboard.Ring

variable {α : Type}

/-! ## Memory

A ring has no end: its head is a node like the others. A store to a node that is not allocated is
not defined. -/

/-- `struct list_head`, and the entry it is a member of. The head of a list is in none. -/
structure Node (α : Type) where
  prev : ℕ
  next : ℕ
  entry : Option α

/-- Nodes, with the addresses that are allocated. -/
structure Heap (α : Type) where
  nodes : ℕ → Node α
  live : List ℕ

/-- The node at an address, if the address is allocated. -/
def Heap.node (h : Heap α) (a : ℕ) : Option (Node α) :=
  if a ∈ h.live then some (h.nodes a) else none

/-- The link on from a node changed. -/
def Heap.linkNext (h : Heap α) (a next : ℕ) : Heap α :=
  { h with nodes := Function.update h.nodes a { h.nodes a with next := next } }

/-- The link back from a node changed. -/
def Heap.linkPrev (h : Heap α) (a prev : ℕ) : Heap α :=
  { h with nodes := Function.update h.nodes a { h.nodes a with prev := prev } }

/-- The store `a->next = next`. -/
def Heap.setNext (h : Heap α) (a next : ℕ) : Option (Heap α) :=
  if a ∈ h.live then some (h.linkNext a next) else none

/-- The store `a->prev = prev`. -/
def Heap.setPrev (h : Heap α) (a prev : ℕ) : Option (Heap α) :=
  if a ∈ h.live then some (h.linkPrev a prev) else none

/-- A new entry at an address, with null links. -/
def Heap.calloc (h : Heap α) (a : ℕ) (entry : α) : Heap α :=
  ⟨Function.update h.nodes a ⟨0, 0, some entry⟩, a :: h.live⟩

/-- `free`, which fails for an address that is not allocated. -/
def Heap.free (h : Heap α) (a : ℕ) : Option (Heap α) :=
  if a ∈ h.live then some { h with live := h.live.filter (· ≠ a) } else none

/-! ## The operations

The functions and macros of the circular list, as they are written. -/

/-- `list_init`. -/
def list_init (h : Heap α) (list : ℕ) : Option (Heap α) := do
  let h ← h.setNext list list
  h.setPrev list list

/-- `list_add`. -/
def list_add (h : Heap α) (list item : ℕ) : Option (Heap α) := do
  let head ← h.node list
  let h ← h.setNext item list
  let h ← h.setPrev item head.prev
  let h ← h.setPrev list item
  h.setNext head.prev item

/-- `list_del`. The links of the item itself stay. -/
def list_del (h : Heap α) (item : ℕ) : Option (Heap α) := do
  let node ← h.node item
  let h ← h.setNext node.prev node.next
  let node ← h.node item
  h.setPrev node.next node.prev

/-- `list_for_each_entry` from `item` on: the entries it visits, for a number of rounds. -/
def for_each_entry (h : Heap α) (list : ℕ) : ℕ → ℕ → Option (List ℕ)
  | 0, _ => none
  | n + 1, item =>
    if item = list then some []
    else do
      let node ← h.node item
      (for_each_entry h list n node.next).map (item :: ·)

/-- A `list_for_each_entry` loop. One that visits more nodes than there are does not end. -/
def entries (h : Heap α) (list : ℕ) : Option (List ℕ) := do
  let head ← h.node list
  for_each_entry h list h.live.length head.next

section Loop

variable {σ : Type} (heap : σ → Heap α) (list : ℕ) (body : ℕ → σ → Option σ)

/-- `list_for_each_entry_safe` from `item` on, with the entry after it already read, for a number
of rounds. -/
def for_each_entry_safe : ℕ → ℕ → ℕ → σ → Option σ
  | 0, _, _, _ => none
  | n + 1, item, next, s =>
    if item = list then some s
    else do
      let s ← body item s
      let node ← (heap s).node next
      for_each_entry_safe n next node.next s

/-- A `list_for_each_entry_safe` loop. In an empty list the second link read is the head's own. -/
def each_entry_safe (s : σ) : Option σ := do
  let head ← (heap s).node list
  let node ← (heap s).node head.next
  for_each_entry_safe heap list body (heap s).live.length head.next node.next s

end Loop

/-! ## Stores

What a store to a link changes, and what it leaves. -/

section Links

variable (h : Heap α) (a b c : ℕ)

@[simp] theorem Heap.linkNext_live : (h.linkNext a b).live = h.live := rfl

@[simp] theorem Heap.linkPrev_live : (h.linkPrev a b).live = h.live := rfl

@[simp] theorem Heap.linkNext_next :
    ((h.linkNext a b).nodes c).next = if c = a then b else (h.nodes c).next := by
  by_cases hc : c = a
  · simp [linkNext, hc]
  · simp [linkNext, hc]

@[simp] theorem Heap.linkNext_prev : ((h.linkNext a b).nodes c).prev = (h.nodes c).prev := by
  by_cases hc : c = a
  · simp [linkNext, hc]
  · simp [linkNext, hc]

@[simp] theorem Heap.linkPrev_prev :
    ((h.linkPrev a b).nodes c).prev = if c = a then b else (h.nodes c).prev := by
  by_cases hc : c = a
  · simp [linkPrev, hc]
  · simp [linkPrev, hc]

@[simp] theorem Heap.linkPrev_next : ((h.linkPrev a b).nodes c).next = (h.nodes c).next := by
  by_cases hc : c = a
  · simp [linkPrev, hc]
  · simp [linkPrev, hc]

@[simp] theorem Heap.calloc_self (entry : α) :
    (h.calloc a entry).nodes a = ⟨0, 0, some entry⟩ := Function.update_self ..

theorem Heap.calloc_of_ne {h : Heap α} {a b : ℕ} (hb : b ≠ a) (entry : α) :
    (h.calloc a entry).nodes b = h.nodes b := Function.update_of_ne hb ..

theorem Heap.node_of_live {h : Heap α} {a : ℕ} (ha : a ∈ h.live) : h.node a = some (h.nodes a) :=
  if_pos ha

end Links

/-- At most the links of these nodes are changed. -/
structure Relinks (h h' : Heap α) (nodes : List ℕ) : Prop where
  live : h'.live = h.live
  entry : ∀ a, (h'.nodes a).entry = (h.nodes a).entry
  same : ∀ a, a ∉ nodes → h'.nodes a = h.nodes a

theorem Relinks.linkNext (h : Heap α) (a b : ℕ) : Relinks h (h.linkNext a b) [a] where
  live := rfl
  entry c := by
    by_cases hc : c = a
    · simp [Heap.linkNext, hc]
    · simp [Heap.linkNext, hc]
  same c hc := Function.update_of_ne (fun he => hc (List.mem_singleton.mpr he)) ..

theorem Relinks.linkPrev (h : Heap α) (a b : ℕ) : Relinks h (h.linkPrev a b) [a] where
  live := rfl
  entry c := by
    by_cases hc : c = a
    · simp [Heap.linkPrev, hc]
    · simp [Heap.linkPrev, hc]
  same c hc := Function.update_of_ne (fun he => hc (List.mem_singleton.mpr he)) ..

theorem Relinks.mono {h h' : Heap α} {nodes nodes' : List ℕ} (hr : Relinks h h' nodes)
    (hsub : nodes ⊆ nodes') : Relinks h h' nodes' :=
  ⟨hr.live, hr.entry, fun a ha => hr.same a fun hin => ha (hsub hin)⟩

theorem Relinks.trans {h h' h'' : Heap α} {nodes nodes' : List ℕ} (hr : Relinks h h' nodes)
    (hr' : Relinks h' h'' nodes') : Relinks h h'' (nodes ++ nodes') where
  live := hr'.live.trans hr.live
  entry a := (hr'.entry a).trans (hr.entry a)
  same a ha := by
    rw [List.mem_append, not_or] at ha
    exact (hr'.same a ha.2).trans (hr.same a ha.1)

/-! ## Stretches

A stretch of links through some nodes, to reason about the part of a ring that an operation
touches. -/

/-- Two nodes in a row. -/
structure Edge (h : Heap α) (a b : ℕ) : Prop where
  left : a ∈ h.live
  right : b ∈ h.live
  next : (h.nodes a).next = b
  prev : (h.nodes b).prev = a

/-- The links from `a` through some nodes to `b`. -/
def Linked (h : Heap α) : ℕ → List ℕ → ℕ → Prop
  | a, [], b => Edge h a b
  | a, x :: l, b => Edge h a x ∧ Linked h x l b

theorem Linked.append {h : Heap α} {a x b : ℕ} {A B : List ℕ} :
    Linked h a (A ++ x :: B) b ↔ Linked h a A x ∧ Linked h x B b := by
  induction A generalizing a with
  | nil => rfl
  | cons y A ih => rw [List.cons_append, Linked, Linked, ih, and_assoc]

/-- The link on from each node but the last. -/
theorem Linked.out {h : Heap α} {a b : ℕ} {l : List ℕ} (hl : Linked h a l b) {u : ℕ}
    (hu : u ∈ a :: l) : Edge h u (h.nodes u).next ∧ (h.nodes u).next ∈ l ++ [b] := by
  induction l generalizing a with
  | nil =>
    rw [List.mem_singleton.mp hu, hl.next]
    exact ⟨hl, List.mem_singleton_self b⟩
  | cons x l ih =>
    rcases List.mem_cons.mp hu with rfl | hu
    · rw [hl.1.next]
      exact ⟨hl.1, List.mem_cons_self⟩
    · obtain ⟨hedge, hmem⟩ := ih hl.2 hu
      exact ⟨hedge, List.mem_cons_of_mem _ hmem⟩

/-- The link back from each node but the first. -/
theorem Linked.back {h : Heap α} {a b : ℕ} {l : List ℕ} (hl : Linked h a l b) {v : ℕ}
    (hv : v ∈ l ++ [b]) : Edge h (h.nodes v).prev v ∧ (h.nodes v).prev ∈ a :: l := by
  induction l generalizing a with
  | nil =>
    rw [List.mem_singleton.mp hv, Edge.prev hl]
    exact ⟨hl, List.mem_singleton_self a⟩
  | cons x l ih =>
    rcases List.mem_cons.mp hv with rfl | hv
    · rw [hl.1.prev]
      exact ⟨hl.1, List.mem_cons_self⟩
    · obtain ⟨hedge, hmem⟩ := ih hl.2 hv
      exact ⟨hedge, List.mem_cons_of_mem _ hmem⟩

/-- Nothing but the links between its nodes matters to a stretch. -/
theorem Linked.congr {h h' : Heap α} {a b : ℕ} {l : List ℕ} (hl : Linked h a l b)
    (hlive : ∀ u ∈ a :: (l ++ [b]), u ∈ h'.live)
    (hnext : ∀ u ∈ a :: l, (h'.nodes u).next = (h.nodes u).next)
    (hprev : ∀ v ∈ l ++ [b], (h'.nodes v).prev = (h.nodes v).prev) : Linked h' a l b := by
  induction l generalizing a with
  | nil =>
    exact ⟨hlive a (by simp), hlive b (by simp), (hnext a (by simp)).trans hl.next,
      (hprev b (by simp)).trans (Edge.prev hl)⟩
  | cons x l ih =>
    refine ⟨⟨hlive a (by simp), hlive x (by simp), (hnext a (by simp)).trans hl.1.next,
      (hprev x (by simp)).trans hl.1.prev⟩, ih hl.2 ?_ ?_ ?_⟩
    · exact fun u hu => hlive u (List.mem_cons_of_mem _ hu)
    · exact fun u hu => hnext u (List.mem_cons_of_mem _ hu)
    · exact fun v hv => hprev v (List.mem_cons_of_mem _ hv)

/-- The last link led to a new node before the end. -/
theorem Linked.extend {h h' : Heap α} {a b x : ℕ} {l : List ℕ} (hl : Linked h a l b) (hb : b ∉ l)
    (hlive : ∀ u ∈ a :: (l ++ [x, b]), u ∈ h'.live)
    (hnext : ∀ u ∈ a :: l, (h'.nodes u).next = if (h.nodes u).next = b then x else (h.nodes u).next)
    (hprev : ∀ v ∈ l, (h'.nodes v).prev = (h.nodes v).prev)
    (hx : (h'.nodes x).next = b ∧ (h'.nodes x).prev = (h.nodes b).prev)
    (hback : (h'.nodes b).prev = x) : Linked h' a (l ++ [x]) b := by
  induction l generalizing a with
  | nil =>
    have hfirst : (h'.nodes a).next = x := by rw [hnext a (by simp), if_pos hl.next]
    exact ⟨⟨hlive a (by simp), hlive x (by simp), hfirst, hx.2.trans (Edge.prev hl)⟩,
      hlive x (by simp), hlive b (by simp), hx.1, hback⟩
  | cons y l ih =>
    rw [List.mem_cons, not_or] at hb
    have hfirst : (h'.nodes a).next = y := by
      rw [hnext a (by simp), hl.1.next, if_neg (Ne.symm hb.1)]
    refine ⟨⟨hlive a (by simp), hlive y (by simp), hfirst, (hprev y (by simp)).trans hl.1.prev⟩,
      ih hl.2 hb.2 ?_ ?_ ?_⟩
    · exact fun u hu => hlive u (List.mem_cons_of_mem _ hu)
    · exact fun u hu => hnext u (List.mem_cons_of_mem _ hu)
    · exact fun v hv => hprev v (List.mem_cons_of_mem _ hv)

/-- The links to a node led past it. -/
theorem Linked.bypass {h h' : Heap α} {a b x : ℕ} {A B : List ℕ} (hl : Linked h a (A ++ x :: B) b)
    (hA : x ∉ a :: A) (hB : x ∉ B) (hb : x ≠ b) (hlive : ∀ u ∈ a :: (A ++ B ++ [b]), u ∈ h'.live)
    (hnext : ∀ u ∈ a :: (A ++ B), (h'.nodes u).next =
      if (h.nodes u).next = x then (h.nodes x).next else (h.nodes u).next)
    (hprev : ∀ v ∈ A ++ B ++ [b], (h'.nodes v).prev =
      if (h.nodes v).prev = x then (h.nodes x).prev else (h.nodes v).prev) :
    Linked h' a (A ++ B) b := by
  induction A generalizing a with
  | nil =>
    obtain ⟨hin, hout⟩ : Edge h a x ∧ Linked h x B b := hl
    have hfirst : (h'.nodes a).next = (h.nodes x).next := by rw [hnext a (by simp), if_pos hin.next]
    cases B with
    | nil =>
      refine ⟨hlive a (by simp), hlive b (by simp), hfirst.trans hout.next, ?_⟩
      rw [hprev b (by simp), if_pos (Edge.prev hout), hin.prev]
    | cons y B =>
      rw [List.mem_cons, not_or] at hB
      obtain ⟨hxy, hrest⟩ := hout
      have hsecond : (h'.nodes y).prev = a := by
        rw [hprev y (by simp), if_pos hxy.prev, hin.prev]
      refine ⟨⟨hlive a (by simp), hlive y (by simp), hfirst.trans hxy.next, hsecond⟩,
        hrest.congr ?_ ?_ ?_⟩
      · exact fun u hu => hlive u (List.mem_cons_of_mem _ hu)
      · -- no node behind leads to the one that goes
        intro u hu
        rw [hnext u (List.mem_cons_of_mem _ hu), if_neg]
        intro hto
        have hmem := (hrest.out hu).2
        rw [hto, List.mem_append, List.mem_singleton] at hmem
        exact hmem.elim hB.2 hb
      · intro v hv
        rw [hprev v (List.mem_cons_of_mem _ hv), if_neg]
        intro hfrom
        have hmem := (hrest.back hv).2
        rw [hfrom, List.mem_cons] at hmem
        exact hmem.elim hB.1 hB.2
  | cons y A ih =>
    rw [List.mem_cons, not_or] at hA
    have hfirst : (h'.nodes a).next = y := by
      rw [hnext a (by simp), hl.1.next, if_neg]
      rintro rfl
      exact hA.2 List.mem_cons_self
    have hsecond : (h'.nodes y).prev = a := by
      rw [hprev y (by simp), hl.1.prev, if_neg (Ne.symm hA.1)]
    refine ⟨⟨hlive a (by simp), hlive y (by simp), hfirst, hsecond⟩, ih hl.2 hA.2 ?_ ?_ ?_⟩
    · exact fun u hu => hlive u (List.mem_cons_of_mem _ hu)
    · exact fun u hu => hnext u (List.mem_cons_of_mem _ hu)
    · exact fun v hv => hprev v (List.mem_cons_of_mem _ hv)

/-! ## Rings

A ring spells the entries it goes through. Adding and deleting are proved on the stretch around
the head or the item. -/

/-- A list of distinct addresses, linked from the head and back to it. -/
structure Spells (h : Heap α) (list : ℕ) (l : List ℕ) : Prop where
  nodup : (list :: l).Nodup
  links : Linked h list l list

theorem Spells.live {h : Heap α} {list : ℕ} {l : List ℕ} (hl : Spells h list l) {a : ℕ}
    (ha : a ∈ list :: l) : a ∈ h.live := (hl.links.out ha).1.left

/-- There are more nodes than entries. -/
theorem Spells.length_lt {h : Heap α} {list : ℕ} {l : List ℕ} (hl : Spells h list l) :
    l.length < h.live.length :=
  (List.Nodup.subperm hl.nodup fun _ ha => hl.live ha).length_le

/-- A ring depends on its own nodes only. -/
theorem Spells.frame {h h' : Heap α} {list : ℕ} {l : List ℕ} (hl : Spells h list l)
    (hlive : ∀ a ∈ list :: l, a ∈ h'.live) (hsame : ∀ a ∈ list :: l, h'.nodes a = h.nodes a) :
    Spells h' list l := by
  have hback : ∀ v ∈ l ++ [list], v ∈ list :: l := by
    intro v hv
    rw [List.mem_append, List.mem_singleton] at hv
    exact hv.elim (List.mem_cons_of_mem _) fun hv => hv ▸ List.mem_cons_self
  refine ⟨hl.nodup, hl.links.congr ?_ ?_ ?_⟩
  · intro u hu
    rcases List.mem_cons.mp hu with rfl | hu
    · exact hlive u List.mem_cons_self
    · exact hlive u (hback u hu)
  · exact fun u hu => by rw [hsame u hu]
  · exact fun v hv => by rw [hsame v (hback v hv)]

theorem Spells.relinks {h h' : Heap α} {list : ℕ} {l nodes : List ℕ} (hl : Spells h list l)
    (hr : Relinks h h' nodes) (hapart : ∀ a ∈ list :: l, a ∉ nodes) : Spells h' list l :=
  hl.frame (fun _ ha => hr.live ▸ hl.live ha) fun a ha => hr.same a (hapart a ha)

theorem Spells.calloc {h : Heap α} {list : ℕ} {l : List ℕ} (hl : Spells h list l) {x : ℕ}
    (hx : x ∉ h.live) (entry : α) : Spells (h.calloc x entry) list l := by
  refine hl.frame (fun a ha => List.mem_cons_of_mem _ (hl.live ha)) fun a ha => ?_
  have hne : a ≠ x := by
    rintro rfl
    exact hx (hl.live ha)
  exact Heap.calloc_of_ne hne entry

theorem Spells.free {h h' : Heap α} {list : ℕ} {l : List ℕ} (hl : Spells h list l) {x : ℕ}
    (hx : x ∉ list :: l) (hfree : h.free x = some h') : Spells h' list l := by
  rw [Heap.free, Option.ite_none_right_eq_some, Option.some.injEq] at hfree
  obtain ⟨-, rfl⟩ := hfree
  refine hl.frame (fun a ha => ?_) fun a _ => rfl
  rw [List.mem_filter, decide_eq_true_eq]
  refine ⟨hl.live ha, ?_⟩
  rintro rfl
  exact hx ha

/-- `list_init`. -/
theorem Spells.init {h : Heap α} {list : ℕ} (hlist : list ∈ h.live) :
    ∃ h', list_init h list = some h' ∧ Spells h' list [] ∧ Relinks h h' [list] := by
  refine ⟨(h.linkNext list list).linkPrev list list, ?_, ⟨List.nodup_singleton list, hlist, hlist,
    by simp, by simp⟩, ((Relinks.linkNext h list list).trans (.linkPrev _ list list)).mono (by simp)⟩
  simp only [list_init, Heap.setNext, Heap.setPrev, Heap.linkNext_live, hlist, if_true,
    Option.bind_eq_bind, Option.bind_some]

/-- In a ring the links back undo the links on. -/
theorem Spells.next_eq_iff {h : Heap α} {list : ℕ} {l : List ℕ} (hl : Spells h list l) {u v : ℕ}
    (hu : u ∈ list :: l) (hv : v ∈ l ++ [list]) :
    (h.nodes u).next = v ↔ u = (h.nodes v).prev := by
  constructor
  · rintro rfl
    exact (hl.links.out hu).1.prev.symm
  · rintro rfl
    exact (hl.links.back hv).1.next

/-- **`list_add`** puts an entry last. -/
theorem Spells.list_add {h : Heap α} {list : ℕ} {l : List ℕ} (hl : Spells h list l) {x : ℕ}
    (hx : x ∈ h.live) (hnew : x ∉ list :: l) :
    ∃ h', list_add h list x = some h' ∧ Spells h' list (l ++ [x]) ∧
      Relinks h h' (x :: list :: l) := by
  have hlist : list ∈ h.live := hl.live List.mem_cons_self
  have hend : list ∈ l ++ [list] := List.mem_append_right l (List.mem_singleton_self list)
  obtain ⟨hlast, hmem⟩ := hl.links.back hend
  have hlead := fun u hu => hl.next_eq_iff (u := u) hu hend
  have hnodup := hl.nodup
  rw [List.nodup_cons] at hnodup
  have hnew' := hnew
  rw [List.mem_cons, not_or] at hnew'
  -- the node before the head is the last one
  generalize hp : (h.nodes list).prev = p at hlast hmem hlead
  have hpx : x ≠ p := by
    rintro rfl
    exact hnew hmem
  refine ⟨(((h.linkNext x list).linkPrev x p).linkPrev list x).linkNext p x, ?_, ⟨?_, ?_⟩, ?_⟩
  · simp only [Ring.list_add, Heap.node_of_live hlist, Heap.setNext, Heap.setPrev, hp,
      Heap.linkNext_live, Heap.linkPrev_live, hx, hlist, hlast.left, if_true, Option.bind_eq_bind,
      Option.bind_some]
  · rw [← List.cons_append, List.nodup_append]
    refine ⟨hl.nodup, List.nodup_singleton x, fun u hu v hv => ?_⟩
    rw [List.mem_singleton.mp hv]
    rintro rfl
    exact hnew hu
  -- the four stores put the new node between the last one and the head
  · refine hl.links.extend hnodup.1 ?_ ?_ ?_ ?_ ?_
    · intro u hu
      rw [List.mem_cons, List.mem_append] at hu
      rcases hu with rfl | hu | hu
      · exact hlist
      · exact hl.live (List.mem_cons_of_mem _ hu)
      · rcases List.mem_cons.mp hu with rfl | hu
        · exact hx
        · rw [List.mem_singleton.mp hu]
          exact hlist
    · intro u hu
      have hux : u ≠ x := by
        rintro rfl
        exact hnew hu
      simp [hux, hlead u hu]
    · intro v hv
      have hvx : v ≠ x := by
        rintro rfl
        exact hnew'.2 hv
      have hvl : v ≠ list := by
        rintro rfl
        exact hnodup.1 hv
      simp [hvx, hvl]
    · simp [hpx, hnew'.1, hp]
    · simp
  · refine (((Relinks.linkNext h x list).trans (.linkPrev _ x p)).trans (.linkPrev _ list x)).trans
      (.linkNext _ p x) |>.mono ?_
    simp [hmem]

/-- **`list_del`** takes an entry out. -/
theorem Spells.list_del {h : Heap α} {list : ℕ} {A B : List ℕ} {x : ℕ}
    (hl : Spells h list (A ++ x :: B)) :
    ∃ h', list_del h x = some h' ∧ Spells h' list (A ++ B) ∧
      Relinks h h' (list :: (A ++ B)) := by
  have hmid : x ∈ A ++ x :: B := List.mem_append_right A List.mem_cons_self
  have hnodup : (x :: (list :: A ++ B)).Nodup := List.nodup_middle.mp hl.nodup
  rw [List.nodup_cons, List.cons_append, List.mem_cons, List.mem_append, not_or, not_or] at hnodup
  obtain ⟨⟨hxlist, hxA, hxB⟩, hrest⟩ := hnodup
  obtain ⟨hbefore, hafter⟩ := Linked.append.mp hl.links
  -- the two neighbours are other nodes
  obtain ⟨hin, hp⟩ := hbefore.back (List.mem_append_right A (List.mem_singleton_self x))
  obtain ⟨hout, hn⟩ := hafter.out List.mem_cons_self
  have hlead := fun u hu => hl.next_eq_iff (u := u) hu (List.mem_append_left [list] hmid)
  have hcome := fun v hv => hl.next_eq_iff (v := v) (List.mem_cons_of_mem list hmid) hv
  generalize hpe : (h.nodes x).prev = p at hin hp hlead
  generalize hne : (h.nodes x).next = n at hout hn hcome
  have hxp : x ≠ p := by
    rintro rfl
    exact (List.mem_cons.mp hp).elim hxlist hxA
  have hold : ∀ u, u ∈ list :: (A ++ B) → u ∈ list :: (A ++ x :: B) := by
    intro u hu
    simp only [List.mem_cons, List.mem_append] at hu ⊢
    tauto
  have hpin : p ∈ list :: (A ++ B) := List.cons_append ▸ List.mem_append_left B hp
  have hnin : n ∈ list :: (A ++ B) := by
    simp only [List.mem_cons, List.mem_append, List.not_mem_nil, or_false] at hn ⊢
    tauto
  refine ⟨(h.linkNext p n).linkPrev n p, ?_, ⟨hrest, ?_⟩, ?_⟩
  · simp only [Ring.list_del, Heap.node, Heap.setNext, Heap.setPrev, Heap.linkNext_live,
      Heap.linkNext_next, Heap.linkNext_prev, hin.left, hin.right, hout.right, hxp, hpe, hne, if_true,
      if_false, Option.bind_eq_bind, Option.bind_some]
  · refine hl.links.bypass (List.not_mem_cons_of_ne_of_not_mem hxlist hxA) hxB hxlist ?_ ?_ ?_
    · intro u hu
      simp only [List.mem_cons, List.mem_append, List.not_mem_nil, or_false] at hu
      refine hl.live (hold u ?_)
      simp only [List.mem_cons, List.mem_append]
      tauto
    · intro u hu
      simp [hlead u (hold u hu), hne]
    · intro v hv
      have hv' : v ∈ A ++ x :: B ++ [list] := by
        simp only [List.mem_append, List.mem_cons] at hv ⊢
        tauto
      have hiff : v = n ↔ (h.nodes v).prev = x := by
        rw [eq_comm, hcome v hv', eq_comm]
      simp [hiff, hpe]
  · refine ((Relinks.linkNext h p n).trans (.linkPrev _ n p)).mono ?_
    simp [hpin, hnin]

/-! ## Loops

The safe loop reads the next entry before the body runs, so that the body may free the entry it is
given. The rule asks of the body that it keeps the ring apart from that. -/

/-- A stretch of a loop over a list that is not changed. -/
theorem for_each_entry_linked {h : Heap α} {list a : ℕ} {l : List ℕ} (hl : Linked h a l list)
    (hlist : list ∉ l) {n : ℕ} (hn : l.length < n) :
    for_each_entry h list n (h.nodes a).next = some l := by
  induction l generalizing a n with
  | nil =>
    obtain ⟨n, rfl⟩ := Nat.exists_eq_succ_of_ne_zero (Nat.ne_of_gt (Nat.zero_lt_of_lt hn))
    rw [for_each_entry, if_pos hl.next]
  | cons x l ih =>
    obtain ⟨n, rfl⟩ := Nat.exists_eq_succ_of_ne_zero (Nat.ne_of_gt (Nat.zero_lt_of_lt hn))
    rw [List.mem_cons, not_or] at hlist
    rw [for_each_entry, hl.1.next, if_neg (Ne.symm hlist.1), Heap.node_of_live hl.1.right,
      Option.bind_eq_bind, Option.bind_some, ih hl.2 hlist.2 (Nat.lt_of_succ_lt_succ hn)]
    rfl

/-- `list_for_each_entry` visits the entries in order. -/
theorem Spells.entries {h : Heap α} {list : ℕ} {l : List ℕ} (hl : Spells h list l) :
    entries h list = some l := by
  rw [Ring.entries, Heap.node_of_live (hl.live List.mem_cons_self), Option.bind_eq_bind,
    Option.bind_some]
  exact for_each_entry_linked hl.links (List.nodup_cons.mp hl.nodup).1 hl.length_lt

section Loop

variable {σ : Type} (heap : σ → Heap α) (list : ℕ) (body : ℕ → σ → Option σ)

/-- What holds of the state between two rounds, for the entries that were kept and those still to
come. The entry of a round is kept or removed, and the list spells what is left. -/
structure Rounds (I : List ℕ → List ℕ → σ → Prop) : Prop where
  spells : ∀ {K R s}, I K R s → Spells (heap s) list (K ++ R)
  round : ∀ {K x R s s'}, I K (x :: R) s → body x s = some s' → I (K ++ [x]) R s' ∨ I K R s'

/-- The node that a loop comes to next. -/
def first (R : List ℕ) : ℕ := R.head?.getD list

/-- The link on from the node that comes next. -/
theorem Spells.next_first {h : Heap α} {K R : List ℕ} {x : ℕ}
    (hl : Spells h list (K ++ x :: R)) : (h.nodes x).next = first list R := by
  have hout := (Linked.append.mp hl.links).2
  cases R with
  | nil => exact Edge.next hout
  | cons y R => exact hout.1.next

variable {heap list body}

theorem for_each_entry_safe_from {I : List ℕ → List ℕ → σ → Prop}
    (hI : Rounds heap list body I) {K R : List ℕ} {s : σ} (h : I K R s) {n : ℕ} (hn : R.length < n) :
    for_each_entry_safe heap list body n (first list R) ((heap s).nodes (first list R)).next s =
      R.foldlM (fun s x => body x s) s := by
  induction R generalizing K s n with
  | nil =>
    obtain ⟨n, rfl⟩ := Nat.exists_eq_succ_of_ne_zero (Nat.ne_of_gt (Nat.zero_lt_of_lt hn))
    rw [for_each_entry_safe, first, List.head?_nil, Option.getD_none, if_pos rfl]
    rfl
  | cons x R ih =>
    obtain ⟨n, rfl⟩ := Nat.exists_eq_succ_of_ne_zero (Nat.ne_of_gt (Nat.zero_lt_of_lt hn))
    have hspells := hI.spells h
    have hx : x ≠ list := by
      rintro rfl
      exact (List.nodup_cons.mp hspells.nodup).1 (List.mem_append_right K List.mem_cons_self)
    have hfirst : first list (x :: R) = x := rfl
    rw [hfirst, for_each_entry_safe, if_neg hx, List.foldlM_cons, hspells.next_first]
    cases hbody : body x s with
    | none => rfl
    | some s' =>
      -- in both cases the node that was read beforehand is still allocated
      have hrest : ∃ K', I K' R s' := (hI.round h hbody).elim (fun h => ⟨_, h⟩) fun h => ⟨_, h⟩
      obtain ⟨K', h'⟩ := hrest
      have hlive : first list R ∈ (heap s').live := by
        refine (hI.spells h').live ?_
        cases R with
        | nil => exact List.mem_cons_self
        | cons y R => exact List.mem_cons_of_mem _ (List.mem_append_right K' List.mem_cons_self)
      simp only [Option.bind_eq_bind, Option.bind_some, Heap.node_of_live hlive]
      exact ih h' (Nat.lt_of_succ_lt_succ hn)

/-- **`list_for_each_entry_safe`** visits what was in the list at the start, in order, whatever is
removed and freed on the way. -/
theorem each_entry_safe_eq {I : List ℕ → List ℕ → σ → Prop} (hI : Rounds heap list body I)
    {l : List ℕ} {s : σ} (h : I [] l s) :
    each_entry_safe heap list body s = l.foldlM (fun s x => body x s) s := by
  have hspells : Spells (heap s) list l := hI.spells h
  obtain ⟨-, hmem⟩ := hspells.links.out List.mem_cons_self
  have hnext : ((heap s).nodes list).next = first list l := by
    have hlinks := hspells.links
    cases l with
    | nil => exact Edge.next hlinks
    | cons x l => exact hlinks.1.next
  have hlive : first list l ∈ (heap s).live := by
    rw [hnext, List.mem_append, List.mem_singleton] at hmem
    refine hspells.live (hmem.elim (List.mem_cons_of_mem _) fun he => ?_)
    rw [he]
    exact List.mem_cons_self
  rw [each_entry_safe, Heap.node_of_live (hspells.live List.mem_cons_self), Option.bind_eq_bind,
    Option.bind_some, hnext, Heap.node_of_live hlive]
  exact for_each_entry_safe_from hI h hspells.length_lt

end Loop

end Dragonboard.Ring
