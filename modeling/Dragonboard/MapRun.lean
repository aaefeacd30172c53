/-
Whole runs of `map_put`, `map_reput` and `map_remove` on one table, against the
finite map they are meant to be.

Here the items are addresses, and the key is a field of the item: when an item is
put, every slot that holds its address sees the new key (`setKey`). A table is
then a finite map for as long as each put meets `PutOk`: the item is not already in
the table under another key, no slot left by a removal lies in front of the
entry of the key, and a full table has fewer than `2^31 - 256` slots. All three are
about the state before the put.

The second one is not a formality. A put stops at the first slot left by a
removal, where a lookup would go on, so re-putting a key that was displaced by a
collision leaves its old entry behind: `map_reput` reports no previous item, the
length counts the key twice, and a later removal uncovers the old item
(`map_run_stale_entry`).

The third one is where the `int` slot numbers of the source end. `map_rehash` copies
`(int)map->size` slots, which is nothing from `2^31` slots on. With it no table of the
run has that many (`Matches.size`), and the natural numbers of `Map.lean` are the
`int`s of the source.
-/
import Dragonboard.MapTable
import Mathlib.Data.Set.Card

set_option autoImplicit false

namespace Dragonboard.QrtrMap

variable {ι : Type}

/-! ## Runs

The items live outside the table, and a put writes the key into its item. An item that is put
under a second key therefore changes the slot it already has. -/

/-- One call on a table whose items are the addresses `ι`. -/
inductive MapOp (ι : Type) where
  | put (key : UInt32) (item : ι)
  | reput (key : UInt32) (item : ι)
  | remove (key : UInt32)

/-- `item->key = key`, seen from the table: it reaches every slot that points to
the item. -/
def setKey [DecidableEq ι] (item : ι) (key : UInt32) (m : Map ι) : Map ι :=
  { m with data := m.data.map fun
      | .item k x => .item (if x = item then key else k) x
      | e => e }

/-- One call with allocation succeeding: the table after it, and what a
`map_reput` returns (its code, or the item in `*old`). -/
def mapStep [DecidableEq ι] (m : Map ι) : MapOp ι → Map ι × List (Except ℤ (Option ι))
  | .put key item => (setKey item key (map_put (fun _ => true) m key (some item)).1, [])
  | .reput key item =>
    let r := map_reput (fun _ => true) m key (some item)
    (setKey item key r.1, [r.2])
  | .remove key => ((map_remove m key).1, [])

/-- A run from a table: the last table, and what the `map_reput`s returned. -/
def mapRun [DecidableEq ι] (m : Map ι) : List (MapOp ι) → Map ι × List (Except ℤ (Option ι))
  | [] => (m, [])
  | op :: ops =>
    let r := mapStep m op
    let r' := mapRun r.1 ops
    (r'.1, r.2 ++ r'.2)

/-- A `map_for_each` walk that collects what it visits. -/
def map_walk (m : Map ι) : List (UInt32 × ι) :=
  (map_for_each (fun s => s.1) (fun s e => (s.1, s.2 ++ [e])) (m, [])).2

/-! ## The finite map

What the table is for, said without slots. -/

/-- The same call on a finite map from keys to items. -/
def finStep (f : UInt32 → Option ι) :
    MapOp ι → (UInt32 → Option ι) × List (Except ℤ (Option ι))
  | .put key item => (Function.update f key (some item), [])
  | .reput key item => (Function.update f key (some item), [.ok (f key)])
  | .remove key => (Function.update f key none, [])

/-- The same run on a finite map: a key is mapped to the item of its latest put
that no removal followed. -/
def finRun (f : UInt32 → Option ι) :
    List (MapOp ι) → (UInt32 → Option ι) × List (Except ℤ (Option ι))
  | [] => (f, [])
  | op :: ops =>
    let r := finStep f op
    let r' := finRun r.1 ops
    (r'.1, r.2 ++ r'.2)

/-- The table behaves as the finite map `f`. -/
structure IsFinMap (m : Map ι) (f : UInt32 → Option ι) : Prop where
  get : ∀ k, map_get m k = f k
  length : map_length m = {k | f k ≠ none}.ncard
  walk_nodup : ((map_walk m).map Prod.fst).Nodup
  walk_mem : ∀ k x, (k, x) ∈ map_walk m ↔ f k = some x

/-! ## The condition on a run

Three things can go wrong with a put: its item may already be in the table under another key, a
slot left by a removal may come before the entry of its key, and the table may grow past the range
of `int`. The condition excludes them, each by what can be seen in the table at that moment. -/

/-- A put of `item` under `key` that the table can take: the item is not in it
under another key, no slot left by a removal lies in front of the entry of
`key`, and if the table is full it can grow. -/
structure PutOk (m : Map ι) (key : UInt32) (item : ι) : Prop where
  alone : ∀ k, (k, item) ∈ m.entries → k = key
  noStale : NoStale m key
  mayGrow : m.count = m.size → m.MayGrow

/-- The condition on one call. -/
def StepOk (m : Map ι) : MapOp ι → Prop
  | .put key item => PutOk m key item
  | .reput key item => PutOk m key item
  | .remove _ => True

/-- Every call of the run meets its condition in the table it finds. -/
def RunOk [DecidableEq ι] (m : Map ι) : List (MapOp ι) → Prop
  | [] => True
  | op :: ops => StepOk m op ∧ RunOk (mapStep m op).1 ops

theorem NoStale.of_absent {m : Map ι} {key : UInt32} (h : ∀ v, (key, v) ∉ m.entries) :
    NoStale m key :=
  fun v _ _ hv _ _ => absurd (Map.mem_entries.mpr ⟨_, hv⟩) (h v)

theorem RunOk.of_prefix [DecidableEq ι] {pre ops : List (MapOp ι)} {m : Map ι}
    (h : RunOk m ops) (hp : pre <+: ops) : RunOk m pre := by
  induction pre generalizing ops m with
  | nil => trivial
  | cons op pre ih =>
    obtain ⟨rest, rfl⟩ := hp
    exact ⟨h.1, ih h.2 ⟨rest, rfl⟩⟩

/-! ## One call

`Matches` is the refinement relation: the entries of the table are the pairs of the finite map, in
some order. -/

/-- The table and the finite map agree on their entries, and the table is
well formed, without duplicates and of fewer than `2^31` slots. -/
structure Matches (m : Map ι) (f : UInt32 → Option ι) : Prop where
  inv : Inv m
  distinct : Distinct m
  size : m.size < 2 ^ 31
  mem : ∀ k x, (k, x) ∈ m.entries ↔ f k = some x

theorem map_walk_eq_entries (m : Map ι) : map_walk m = m.entries := by
  have hfold : ∀ (l acc : List (UInt32 × ι)),
      (l.foldl (fun (s : Map ι × List (UInt32 × ι)) e => (s.1, s.2 ++ [e])) (m, acc)).2
        = acc ++ l := by
    intro l
    induction l with
    | nil => simp
    | cons e l ih =>
      intro acc
      rw [List.foldl_cons, ih]
      simp
  have hwalk := map_for_each_eq_foldl (fun s : Map ι × List (UInt32 × ι) => s.1)
    (fun s e => (s.1, s.2 ++ [e])) (fun _ _ => rfl) (m, [])
  rw [map_walk, hwalk, hfold]
  rfl

/-- A matching table is the finite map, in everything a caller can see. -/
theorem Matches.isFinMap {m : Map ι} {f : UInt32 → Option ι} (h : Matches m f) :
    IsFinMap m f where
  get := by
    intro k
    apply Option.ext
    intro x
    rw [map_get_eq_some h.inv h.distinct, h.mem]
  length := by
    have hkeys : {k | f k ≠ none} = (m.entries.map Prod.fst).toFinset := by
      ext k
      simp only [Set.mem_ofPred_eq, Finset.mem_coe, List.mem_toFinset, List.mem_map]
      constructor
      · intro hk
        obtain ⟨x, hx⟩ := Option.ne_none_iff_exists'.mp hk
        exact ⟨(k, x), (h.mem k x).mpr hx, rfl⟩
      · rintro ⟨⟨k', x⟩, hkx, rfl⟩
        rw [(h.mem k' x).mp hkx]
        simp
    rw [map_length, hkeys, Set.ncard_coe_finset, List.toFinset_card_of_nodup h.distinct,
      List.length_map, h.inv.count_eq]
  walk_nodup := by
    rw [map_walk_eq_entries]
    exact h.distinct
  walk_mem := by
    rw [map_walk_eq_entries]
    exact h.mem

/-- Writing the key of an item that the table holds under that key only (or not
at all) changes nothing. -/
theorem setKey_eq_self [DecidableEq ι] {m : Map ι} {item : ι} {key : UInt32}
    (h : ∀ k, (k, item) ∈ m.entries → k = key) : setKey item key m = m := by
  unfold setKey
  cases m with
  | mk count data =>
    simp only [Map.mk.injEq, true_and]
    conv_rhs => rw [← List.map_id data]
    rw [List.map_inj_left]
    intro e he
    cases e with
    | null => rfl
    | deleted => rfl
    | item k x =>
      by_cases hx : x = item
      · subst hx
        have := h k (List.mem_filterMap.mpr ⟨_, he, rfl⟩)
        simp [this]
      · simp [hx]

@[simp] theorem setKey_size [DecidableEq ι] (item : ι) (key : UInt32) (m : Map ι) :
    (setKey item key m).size = m.size := List.length_map _

theorem mem_upsert {l : List (UInt32 × ι)} {key k : UInt32} {item x : ι} :
    (k, x) ∈ upsert l (key, item) ↔ (k = key ∧ x = item) ∨ (k ≠ key ∧ (k, x) ∈ l) := by
  simp only [upsert, List.mem_cons, List.mem_filter, decide_eq_true_eq, Prod.mk.injEq]
  tauto

theorem Matches.upsert {m m' : Map ι} {f : UInt32 → Option ι} (h : Matches m f) {key : UInt32}
    {item : ι} (hinv : Inv m') (hd : Distinct m') (hsize : m'.size < 2 ^ 31)
    (hp : m'.entries.Perm (upsert m.entries (key, item))) :
    Matches m' (Function.update f key (some item)) := by
  refine ⟨hinv, hd, hsize, fun k x => ?_⟩
  rw [hp.mem_iff, mem_upsert, h.mem]
  by_cases hk : k = key
  · subst hk
    simp [eq_comm]
  · simp [hk]

/-- **A put that meets its condition** is a put of the finite map, and reports
the item it replaces. -/
theorem Matches.reput [DecidableEq ι] {m : Map ι} {f : UInt32 → Option ι} (h : Matches m f)
    {key : UInt32} {item : ι} (hok : PutOk m key item) :
    Matches (setKey item key (map_reput (fun _ => true) m key (some item)).1)
        (Function.update f key (some item)) ∧
      (map_reput (fun _ => true) m key (some item)).2 = .ok (f key) := by
  have hsize := map_reput_size_lt (fun _ => true) key (fun _ => h.inv.full_of_error)
    h.size hok.mayGrow item
  rcases map_reput_spec (fun _ => true) h.inv h.distinct hok.noStale item with
    ⟨m', hr, hinv, hd, hp⟩ | ⟨hc, -⟩
  · rw [hr] at hsize
    rw [hr]
    have hself : setKey item key m' = m' := by
      apply setKey_eq_self
      intro k hk
      rw [hp.mem_iff, mem_upsert] at hk
      rcases hk with ⟨rfl, -⟩ | ⟨-, hk⟩
      · rfl
      · exact hok.alone k hk
    refine ⟨by rw [hself]; exact h.upsert hinv hd hsize hp, ?_⟩
    simp only [h.isFinMap.get key]
  · exact absurd hc (by decide)

theorem Matches.remove {m : Map ι} {f : UInt32 → Option ι} (h : Matches m f) (key : UInt32) :
    Matches (map_remove m key).1 (Function.update f key none) := by
  obtain ⟨hinv, hd, hent⟩ := map_remove_spec h.inv h.distinct key
  refine ⟨hinv, hd, by rw [map_remove_size]; exact h.size, fun k x => ?_⟩
  rw [hent, List.mem_filter, h.mem]
  by_cases hk : k = key
  · subst hk
    simp
  · simp [hk]

/-- One call that meets its condition keeps table and finite map together, and
returns the same. -/
theorem Matches.step [DecidableEq ι] {m : Map ι} {f : UInt32 → Option ι} (h : Matches m f)
    (op : MapOp ι) (hok : StepOk m op) :
    Matches (mapStep m op).1 (finStep f op).1 ∧ (mapStep m op).2 = (finStep f op).2 := by
  cases op with
  | put key item => exact ⟨(h.reput hok).1, rfl⟩
  | reput key item =>
    refine ⟨(h.reput hok).1, ?_⟩
    simp only [mapStep, finStep, (h.reput hok).2]
  | remove key => exact ⟨h.remove key, rfl⟩

/-! ## Whole runs

The run lemma follows from the step lemma by induction over the calls. The two runs at the end
show that the condition can be met in the presence of collisions and removals, and what happens
without it. -/

theorem Matches.run [DecidableEq ι] {m : Map ι} {f : UInt32 → Option ι} (h : Matches m f)
    (ops : List (MapOp ι)) (hok : RunOk m ops) :
    Matches (mapRun m ops).1 (finRun f ops).1 ∧ (mapRun m ops).2 = (finRun f ops).2 := by
  induction ops generalizing m f with
  | nil => exact ⟨h, rfl⟩
  | cons op ops ih =>
    obtain ⟨hstep, hout⟩ := h.step op hok.1
    obtain ⟨hrun, houts⟩ := ih hstep hok.2
    exact ⟨hrun, by simp only [mapRun, finRun, hout, houts]⟩

theorem matches_create : Matches (map_create : Map ι) (fun _ => none) where
  inv := Inv.create
  distinct := List.nodup_nil
  size := Nat.two_pow_pos 31
  mem := by
    intro k x
    simp [map_create, Map.entries]

/-- **A run is a run of the finite map.** In every state reached by a run from a
fresh table whose puts meet `PutOk`, the table has fewer than `2^31` slots and behaves
as the finite map of the calls so far, and every `map_reput` so far has handed back
the item it replaced. -/
theorem map_run_refines [DecidableEq ι] (ops : List (MapOp ι)) (h : RunOk map_create ops)
    (pre : List (MapOp ι)) (hpre : pre <+: ops) :
    (mapRun map_create pre).1.size < 2 ^ 31 ∧
      IsFinMap (mapRun map_create pre).1 (finRun (fun _ => none) pre).1 ∧
      (mapRun map_create pre).2 = (finRun (fun _ => none) pre).2 := by
  have hstart : Matches (map_create : Map ι) (fun _ => none) := matches_create
  obtain ⟨hm, hout⟩ := hstart.run pre (h.of_prefix hpre)
  exact ⟨hm.size, hm.isFinMap, hout⟩

/-- A check of `PutOk` that can be evaluated: the item is not listed under another
key, the table has no removed slot at all or does not hold the key, and it is small. -/
theorem PutOk.of_check {m : Map ι} {key : UInt32} {item : ι}
    (hitem : ∀ e ∈ m.entries, e.2 = item → e.1 = key)
    (hs : (∀ e ∈ m.data, e ≠ .deleted) ∨ ∀ e ∈ m.entries, e.1 ≠ key)
    (hsize : m.data.length ≤ 256) : PutOk m key item := by
  have hmay : m.MayGrow := by
    unfold Map.MayGrow Map.size
    omega
  refine ⟨fun k hk => hitem (k, item) hk rfl, ?_, fun _ => hmay⟩
  rcases hs with hclean | habs
  · refine Clean.noStale (fun i hi => ?_) key
    by_cases hlt : i < m.data.length
    · rw [Map.entry, List.getD_eq_getElem _ _ hlt] at hi
      exact hclean _ (List.getElem_mem hlt) hi
    · rw [Map.entry_of_le (by unfold Map.size; omega)] at hi
      exact absurd hi (by simp)
  · exact NoStale.of_absent fun v hv => habs (key, v) hv rfl

/-- A run with a collision, a replacement, a removal and a put of the removed
key, all of which the table can take. -/
theorem map_run_refines_collision :
    RunOk (map_create : Map ℕ) [.put 0 1, .put 256 2, .reput 0 3, .remove 256, .put 256 4] ∧
      IsFinMap
        (mapRun (map_create : Map ℕ)
          [.put 0 1, .put 256 2, .reput 0 3, .remove 256, .put 256 4]).1
        (finRun (fun _ => none)
          [.put 0 1, .put 256 2, .reput 0 3, .remove 256, .put 256 4]).1 := by
  have hok : RunOk (map_create : Map ℕ)
      [.put 0 1, .put 256 2, .reput 0 3, .remove 256, .put 256 4] := by
    refine ⟨.of_check ?_ (.inl ?_) ?_, .of_check ?_ (.inl ?_) ?_, .of_check ?_ (.inl ?_) ?_,
      trivial, .of_check ?_ (.inr ?_) ?_, trivial⟩
    all_goals decide +kernel
  exact ⟨hok, (map_run_refines _ hok _ (List.prefix_refl _)).2.1⟩

/-- **A re-put behind a removed slot leaves the old entry in place.** Keys `0`
and `256` share their home slot. Once `0` is removed, the put of `256` stops at the
slot it left: no previous item is reported, and removing `256` uncovers item `2`
again, which the finite map has forgotten. -/
theorem map_run_stale_entry :
    ¬ (IsFinMap
          (mapRun (map_create : Map ℕ)
            [.put 0 1, .put 256 2, .remove 0, .reput 256 3, .remove 256]).1
          (finRun (fun _ => none)
            [.put 0 1, .put 256 2, .remove 0, .reput 256 3, .remove 256]).1 ∧
        (mapRun (map_create : Map ℕ)
          [.put 0 1, .put 256 2, .remove 0, .reput 256 3, .remove 256]).2 =
        (finRun (fun _ => none)
          [.put 0 1, .put 256 2, .remove 0, .reput 256 3, .remove 256]).2) := by
  rintro ⟨hfin, -⟩
  have hget : map_get
      (mapRun (map_create : Map ℕ)
        [.put 0 1, .put 256 2, .remove 0, .reput 256 3, .remove 256]).1 256 = some 2 := by
    decide +kernel
  rw [hfin.get 256] at hget
  exact absurd hget (by decide)

end Dragonboard.QrtrMap
