/-
Growth, and every table that can be reached.

`map_reput` asks `map_hash` for a slot and `map_rehash` for a larger table until it gets one, and
`map_rehash` puts every old entry through `map_put`, which is `map_reput` again. Here the calls
are written down (`map_reput.calls`). There are never two rehashes among them: a table that was just
built has room for all old entries and one more. What is behind it is that `count` never falls below the
number of live slots, in every table whatsoever that puts and removals lead to, also puts of
NULL and of an item that is in the table already.

If no NULL is put, then `count` is the number of live slots; and if no item is put that stands
under another key, no slot is empty between the home of a key and its entry (`probe_chains`). That
is said of the tables below `2^31` slots, which an `int` can number (`TableOp.Fits`).
-/
import Dragonboard.MapLawful
import Dragonboard.MapRun

set_option autoImplicit false

namespace Dragonboard.QrtrMap

variable {α : Type}

/-! ## A rehash

For a rehash by itself the table may be any table in which probing reaches every entry, and its
count may be any number: a rehash counts anew. -/

/-- No slot is empty between the home of a key and its entry, so that probing reaches it. -/
def Chained (m : Map α) : Prop :=
  ∀ (k : UInt32) (v : α) (d : ℕ), d < m.size → m.entry (m.slotAt k d) = .item k v →
    ∀ d' < d, m.entry (m.slotAt k d') ≠ .null

/-- The same slots with the count that goes with them. -/
def Map.counted (m : Map α) : Map α := { m with count := m.entries.length }

theorem Chained.inv {m : Map α} (h : Chained m) : Inv m.counted := ⟨rfl, h⟩

/-- A lookup does not read the count. -/
theorem map_get_counted (m : Map α) (key : UInt32) : map_get m.counted key = map_get m key := by
  have hfind : map_find m.counted key = map_find m key := by
    rw [map_find, map_find, map_find_loop_eq, map_find_loop_eq]
    rfl
  rw [map_get, map_get, hfind]
  rfl

theorem map_rehash_eq (calloc : ℕ → Bool) (m : Map α) :
    map_rehash calloc m = if calloc (m.size + 256) then (m.grown, .ok ()) else (m, .error (-1)) := by
  rw [map_rehash, map_rehashWith_eq calloc 0 m, Option.getD_some]

/-- **A rehash keeps the content.** The new table has 256 more slots and no removed ones, counts
its live entries, and every key is found as it was. -/
theorem map_rehash_preserves (calloc : ℕ → Bool) (m : Map α) (hdistinct : Distinct m)
    (hchained : Chained m) (hcalloc : calloc (m.size + 256) = true) :
    ∃ m', map_rehash calloc m = (m', .ok ()) ∧ m'.size = m.size + 256 ∧
      (∀ i, m'.entry i ≠ .deleted) ∧ m'.count = m'.entries.length ∧
      m'.count = m.entries.length ∧ ∀ key, map_get m' key = map_get m key := by
  obtain ⟨hroomy, hsize, -, -⟩ := grown_spec m
  have hperm : m.grown.entries.Perm m.entries := hdistinct.grown_perm
  refine ⟨m.grown, ?_, hsize, hroomy.clean, hroomy.inv.count_eq, ?_, ?_⟩
  · rw [map_rehash_eq, if_pos hcalloc]
  · rw [hroomy.inv.count_eq, hperm.length_eq]
  · intro key
    rw [← map_get_counted m]
    exact map_get_congr hroomy.inv hroomy.distinct hchained.inv hdistinct hperm key

/-- A table of three slots, one of them a removed one on the way to the only entry. -/
theorem map_rehash_preserves_tombstone :
    ∃ m', map_rehash (fun _ => true) (⟨1, [.null, .deleted, .item 4 7]⟩ : Map ℕ) = (m', .ok ()) ∧
      m'.size = 259 ∧ (∀ i, m'.entry i ≠ .deleted) ∧ m'.count = m'.entries.length ∧
      m'.count = 1 ∧ ∀ key, map_get m' key = map_get ⟨1, [.null, .deleted, .item 4 7]⟩ key := by
  apply map_rehash_preserves
  · exact List.nodup_singleton 4
  · intro k v d hd h d' hlt
    change d < 3 at hd
    change (List.getD [.null, .deleted, .item 4 7] ((k.toNat % 3 + d) % 3) .null : MapEntry ℕ) = _
      at h
    -- the entry is in slot 2, one further than its home
    have hslot : (k.toNat % 3 + d) % 3 = 2 := by
      have hmod : (k.toNat % 3 + d) % 3 = 0 ∨ (k.toNat % 3 + d) % 3 = 1 ∨
          (k.toNat % 3 + d) % 3 = 2 := by omega
      rcases hmod with hx | hx | hx
      · rw [hx] at h
        cases h
      · rw [hx] at h
        cases h
      · exact hx
    rw [hslot] at h
    cases h
    have hkey : (1 + d) % 3 = 2 := hslot
    obtain rfl : d' = 0 := by omega
    decide
  · rfl

/-! ## The calls of a put

How often a put grows the table cannot be seen from its result. The recursion is therefore written
once more with a record of its calls, and shown to be the same when the record is dropped. -/

/-- A call of `map_hash` or of `map_rehash`, with the table it finds. -/
inductive MapCall (α : Type) where
  | hash (m : Map α) (key : UInt32)
  | rehash (m : Map α)

/-- What a put comes to, with its calls in order. -/
abbrev Called (α β : Type) : Type := Option ((Map α × Except ℤ β) × List (MapCall α))

/-- The loop of `map_rehash`, with the calls that are made in it. -/
def map_rehash.calls.loop (put : Map α → UInt32 → α → Called α (Option α)) :
    List (MapEntry α) → Map α → Called α Unit
  | [], m => some ((m, .ok ()), [])
  | .item key value :: rest, m =>
    match put m key value with
    | none => none
    | some ((m', .error rc), cs) => some ((m', .error rc), cs)
    | some ((m', .ok _), cs) =>
      (map_rehash.calls.loop put rest m').map fun r => (r.1, cs ++ r.2)
  | _ :: rest, m => map_rehash.calls.loop put rest m

/-- `map_rehash`, with the calls that are made in it. -/
def map_rehash.calls (calloc : ℕ → Bool) (put : Map α → UInt32 → α → Called α (Option α))
    (m : Map α) : Called α Unit :=
  if calloc (m.size + 256) then
    map_rehash.calls.loop put m.data { count := 0, data := List.replicate (m.size + 256) .null }
  else some ((m, .error (-1)), [])

/-- `map_reput`, with the calls it makes. It may be entered anew, and go round its loop, so many
times as the bound says. -/
def map_reput.calls (calloc : ℕ → Bool) :
    ℕ → Map α → UInt32 → Option α → Called α (Option α)
  | 0, _, _, _ => none
  | n + 1, m, key, value =>
    match map_hash m key with
    | .ok (m', rc) =>
      let r := map_reput.store m' rc key value
      some ((r.1, .ok r.2), [.hash m key])
    | .error _ =>
      match map_rehash.calls calloc (fun m k v => map_reput.calls calloc n m k (some v)) m with
      | none => none
      | some ((m', .error rc), cs) => some ((m', .error rc), .hash m key :: .rehash m :: cs)
      | some ((m', .ok ()), cs) =>
        (map_reput.calls calloc n m' key value).map fun r =>
          (r.1, .hash m key :: .rehash m :: (cs ++ r.2))

theorem map_rehash_calls_loop_fst {put : Map α → UInt32 → α → Called α (Option α)}
    {put' : Map α → UInt32 → α → Option (Map α × Except ℤ (Option α))}
    (h : ∀ m k v, (put m k v).map Prod.fst = put' m k v) (l : List (MapEntry α)) (m : Map α) :
    (map_rehash.calls.loop put l m).map Prod.fst = map_rehash.loop put' l m := by
  induction l generalizing m with
  | nil => rfl
  | cons e l ih =>
    cases e with
    | null => exact ih m
    | deleted => exact ih m
    | item k v =>
      rw [map_rehash.calls.loop, map_rehash.loop, ← h m k v]
      rcases put m k v with _ | ⟨⟨m', rc | old⟩, cs⟩
      · rfl
      · rfl
      · simp only [Option.map_some, ← ih m', Option.map_map]
        rfl

/-- Without the calls this is `map_reput`. -/
theorem map_reput_calls_fst (calloc : ℕ → Bool) (n : ℕ) (m : Map α) (key : UInt32)
    (value : Option α) :
    (map_reput.calls calloc n m key value).map Prod.fst = map_reputN calloc n m key value := by
  induction n generalizing m key value with
  | zero => rfl
  | succ n ih =>
    have hrehash : (map_rehash.calls calloc
        (fun m k v => map_reput.calls calloc n m k (some v)) m).map Prod.fst
        = map_rehashWith calloc (fun m k v => map_reputN calloc n m k (some v)) m := by
      rw [map_rehash.calls, map_rehashWith]
      split
      · exact map_rehash_calls_loop_fst (fun m k v => ih m k (some v)) m.data _
      · rfl
    rw [map_reput.calls, map_reputN, ← hrehash]
    rcases map_hash m key with rc | ⟨m', rc⟩
    · rcases map_rehash.calls calloc (fun m k v => map_reput.calls calloc n m k (some v)) m with
        _ | ⟨⟨m', rc | u⟩, cs⟩
      · rfl
      · rfl
      · simp only [Option.map_some, ← ih m', Option.map_map]
        rfl
    · rfl

/-! ## Tables whose count leaves room

`count` includes slots that were claimed and then given a NULL item, and it may be less than the
number of used slots after removals. What the recursion needs is only that a table that is not
full by its count has a free slot. -/

/-- There are at most as many live slots as are counted, and at most as many are counted as
there are. -/
structure Covers (m : Map α) : Prop where
  live : m.entries.length ≤ m.count
  size : m.count ≤ m.size

theorem Inv.covers {m : Map α} (h : Inv m) : Covers m :=
  ⟨h.count_eq.ge, h.count_eq ▸ m.entries_length_le⟩

/-- `map_hash` finds a slot unless all are counted. -/
theorem Covers.full_of_error {m : Map α} (hm : Covers m) {key : UInt32} {rc : ℤ}
    (h : map_hash m key = .error rc) : m.count = m.size ∧ rc = -1 := by
  by_cases hfull : m.count = m.size
  · rw [map_hash, if_pos hfull] at h
    exact ⟨hfull, (Except.error.inj h).symm⟩
  · exfalso
    have hsize := hm.size
    obtain ⟨j, hj, hfree⟩ := Map.exists_free (m := m) (lt_of_le_of_lt hm.live (by omega))
    have hstop : hashStop key (m.entry j) = true := by
      cases he : m.entry j with
      | null => rfl
      | deleted => rfl
      | item k v =>
        rw [he] at hfree
        cases hfree
    obtain ⟨i, hi⟩ := map_hash_isOk hfull hj hstop
    rw [hi] at h
    cases h

/-- A call that is as it should be: `map_hash` does not run out of slots, and if it probes at
all there are some. -/
def MapCall.Fine : MapCall α → Prop
  | .hash m key => map_hash m key ≠ .error (-2) ∧ (m.count ≠ m.size → m.size ≠ 0)
  | .rehash _ => True

def MapCall.isRehash : MapCall α → Bool
  | .hash .. => false
  | .rehash _ => true

theorem Covers.fine {m : Map α} (hm : Covers m) (key : UInt32) : (MapCall.hash m key).Fine := by
  refine ⟨?_, ?_⟩
  · intro h
    exact absurd (hm.full_of_error h).2 (by decide)
  · intro hne hzero
    have hsize := hm.size
    omega

/-- The calls that put the old entries into the new table. -/
theorem map_rehash_calls_loop (calloc : ℕ → Bool) (l : List (MapEntry α)) (t : Map α)
    (ht : Roomy t (l.filterMap MapEntry.live).length) :
    ∃ cs, (∀ n, map_rehash.calls.loop
        (fun m k v => map_reput.calls calloc (n + 1) m k (some v)) l t =
          some (((l.filterMap MapEntry.live).foldl put1 t, .ok ()), cs)) ∧
      ∀ c ∈ cs, c.Fine ∧ c.isRehash = false := by
  induction l generalizing t with
  | nil => exact ⟨[], fun _ => rfl, fun c hc => absurd hc List.not_mem_nil⟩
  | cons e l ih =>
    cases e with
    | null => exact ih t ht
    | deleted => exact ih t ht
    | item k v =>
      have ht' : Roomy t ((l.filterMap MapEntry.live).length + 1) := by simpa using ht
      have hroom := ht'.room
      obtain ⟨i, hi, -⟩ := ht'.inv.lands (by omega) k
      obtain ⟨cs, hcs, hfine⟩ := ih (put1 t (k, v)) (ht'.put1 (k, v)).1
      rw [put1_eq (e := (k, v)) hi] at hcs
      refine ⟨.hash t k :: cs, ?_, ?_⟩
      · intro n
        have hput : map_reput.calls calloc (n + 1) t k (some v) =
            some ((t.putAt i k v, .ok ((t.entry i).live.map Prod.snd)), [.hash t k]) := by
          rw [map_reput.calls, hi]
          simp [map_reput.store, Map.putAt]
        rw [map_rehash.calls.loop, hput]
        simp only [hcs n, Option.map_some, List.filterMap_cons, MapEntry.live_item, List.foldl_cons,
          put1_eq (e := (k, v)) hi, List.singleton_append]
      · rw [List.forall_mem_cons]
        exact ⟨⟨ht'.inv.covers.fine k, rfl⟩, hfine⟩

/-- **The calls of a put.** It finds a slot; or it grows the table once and finds a slot there; or
the allocation fails, and the table is as it was. -/
theorem map_reput_calls (calloc : ℕ → Bool) {m : Map α} (hm : Covers m) (key : UInt32)
    (value : Option α) :
    ∃ cs, (∀ n, map_reput.calls calloc (n + 2) m key value =
        some (map_reput calloc m key value, cs)) ∧
      (∀ c ∈ cs, c.Fine) ∧ cs.countP MapCall.isRehash ≤ 1 ∧
      (0 < cs.countP MapCall.isRehash → calloc (m.size + 256) = false →
        map_reput calloc m key value = (m, .error (-1))) := by
  -- whatever the calls give within every bound is what `map_reput` gives
  have hresult : ∀ {r : Map α × Except ℤ (Option α)} {cs : List (MapCall α)},
      (∀ n, map_reput.calls calloc (n + 2) m key value = some (r, cs)) →
      map_reput calloc m key value = r := by
    intro r cs h
    have hfst := map_reput_calls_fst calloc 2 m key value
    rw [h 0] at hfst
    rw [map_reput, ← hfst]
    rfl
  cases hh : map_hash m key with
  | ok r =>
    obtain ⟨m', rc⟩ := r
    have hcalls : ∀ n, map_reput.calls calloc (n + 2) m key value =
        some (((map_reput.store m' rc key value).1, .ok (map_reput.store m' rc key value).2),
          [.hash m key]) := by
      intro n
      rw [map_reput.calls, hh]
    refine ⟨[.hash m key], ?_, ?_, Nat.zero_le 1, fun h => absurd h (Nat.lt_irrefl 0)⟩
    · rw [hresult hcalls]
      exact hcalls
    · rw [List.forall_mem_singleton]
      exact hm.fine key
  | error rc =>
    cases hcalloc : calloc (m.size + 256) with
    | false =>
      have hcalls : ∀ n, map_reput.calls calloc (n + 2) m key value =
          some ((m, .error (-1)), [.hash m key, .rehash m]) := by
        intro n
        rw [map_reput.calls, hh, map_rehash.calls, hcalloc]
        rfl
      refine ⟨[.hash m key, .rehash m], ?_, ?_, Nat.le_refl 1, fun _ _ => hresult hcalls⟩
      · rw [hresult hcalls]
        exact hcalls
      · rw [List.forall_mem_cons, List.forall_mem_singleton]
        exact ⟨hm.fine key, trivial⟩
    | true =>
      obtain ⟨hroomy, -, -, -⟩ := grown_spec m
      have hroom := hroomy.room
      obtain ⟨i, hi, -⟩ := hroomy.inv.lands (by omega) key
      have hle := m.entries_length_le
      obtain ⟨cs, hcs, hfine⟩ := map_rehash_calls_loop calloc m.data
        { count := 0, data := List.replicate (m.size + 256) .null }
        (roomy_fresh _ _ (by rw [← Map.entries]; omega))
      have hcalls : ∀ n, map_reput.calls calloc (n + 2) m key value =
          some (((map_reput.store (m.grown.claim i) i key value).1,
              .ok (map_reput.store (m.grown.claim i) i key value).2),
            .hash m key :: .rehash m :: (cs ++ [.hash m.grown key])) := by
        intro n
        have hgrown : map_reput.calls calloc (n + 1) m.grown key value =
            some (((map_reput.store (m.grown.claim i) i key value).1,
              .ok (map_reput.store (m.grown.claim i) i key value).2), [.hash m.grown key]) := by
          rw [map_reput.calls, hi]
        rw [map_reput.calls, hh, map_rehash.calls, hcalloc, if_pos rfl, hcs n]
        have hfold : (m.data.filterMap MapEntry.live).foldl put1
            { count := 0, data := List.replicate (m.size + 256) .null } = m.grown := rfl
        simp only [hfold, hgrown, Option.map_some]
      refine ⟨.hash m key :: .rehash m :: (cs ++ [.hash m.grown key]), ?_, ?_, ?_,
        fun _ h => absurd h.symm Bool.false_ne_true⟩
      · rw [hresult hcalls]
        exact hcalls
      · simp only [List.forall_mem_cons, List.forall_mem_append]
        exact ⟨hm.fine key, trivial, fun c hc => (hfine c hc).1,
          hroomy.inv.covers.fine key, fun c hc => absurd hc List.not_mem_nil⟩
      · have hnone : cs.countP MapCall.isRehash = 0 := by
          rw [List.countP_eq_zero]
          intro c hc
          rw [(hfine c hc).2]
          decide
        simp [List.countP_cons, hnone, MapCall.isRehash]

/-! ## What the operations leave

One lemma for each operation: the slots stay covered by the count, and chains stay unbroken. -/

/-- A put of an item or of NULL, for any table: a slot is claimed and stored to, in the
table or in the larger one, or nothing is done. -/
theorem map_reput_lands (calloc : ℕ → Bool) (m : Map α) (key : UInt32) (value : Option α) :
    (∃ t i, (t = m ∨ t = m.grown) ∧ t.count ≠ t.size ∧ Lands t key i ∧
      map_reput calloc m key value =
        ((t.claim i).store i (value.elim .null (.item key)), .ok ((t.entry i).live.map Prod.snd))) ∨
      map_reput calloc m key value = (m, .error (-1)) := by
  have hstore : ∀ {t : Map α} {r : Map α × ℕ} (n : ℕ), map_hash t key = .ok r →
      t.count ≠ t.size ∧ Lands t key r.2 ∧ map_reputN calloc (n + 1) t key value =
        some ((t.claim r.2).store r.2 (value.elim .null (.item key)),
          .ok ((t.entry r.2).live.map Prod.snd)) := by
    intro t r n h
    obtain ⟨hr, hlands⟩ := map_hash_ok h
    refine ⟨?_, hlands, ?_⟩
    · intro hfull
      rw [map_hash, if_pos hfull] at h
      cases h
    · rw [map_reputN, h, hr]
      simp [map_reput.store]
  cases hh : map_hash m key with
  | ok r =>
    left
    obtain ⟨hroom, hlands, hput⟩ := hstore 1 hh
    refine ⟨m, r.2, .inl rfl, hroom, hlands, ?_⟩
    rw [map_reput, hput, Option.getD_some]
  | error rc =>
    rw [map_reput, map_reputN, hh]
    simp only [map_rehashWith_eq calloc 0 m]
    cases hcalloc : calloc (m.size + 256) with
    | false => exact .inr rfl
    | true =>
      left
      obtain ⟨hroomy, -, -, -⟩ := grown_spec m
      have hroom := hroomy.room
      obtain ⟨i, hi, -⟩ := hroomy.inv.lands (by omega) key
      obtain ⟨hne, hlands, hput⟩ := hstore 0 hi
      refine ⟨m.grown, i, .inr rfl, hne, hlands, ?_⟩
      simp only [if_true, hput, Option.getD_some]

theorem Covers.create : Covers (map_create : Map α) := Inv.create.covers

/-- A slot that is claimed and stored to: the counter goes up as the live slots would
if an item was stored. -/
theorem Map.claim_store_length (m : Map α) {i : ℕ} (hi : i < m.size) (e : MapEntry α) :
    ((m.claim i).store i e).entries.length + m.count + 1 =
      m.entries.length + ((m.claim i).store i e).count + e.live.toList.length := by
  obtain ⟨A, B, hold, hnew⟩ := (m.claim i).entries_store i (by simpa using hi)
  rw [Map.claim_entries, Map.claim_entry] at hold
  rw [hnew e, hold, Map.count_store]
  cases hx : (m.entry i).live with
  | none =>
    simp only [Map.claim, hx, Option.isSome_none, Bool.false_eq_true, if_false, Option.toList_none,
      List.append_nil, List.length_append]
    omega
  | some x =>
    simp only [Map.claim, hx, Option.isSome_some, if_true, Option.toList_some, List.length_append,
      List.length_singleton]
    omega

/-- A claimed slot is counted, whatever is then stored to it. -/
theorem Covers.store {m : Map α} (hm : Covers m) (hroom : m.count ≠ m.size) {i : ℕ}
    (hi : i < m.size) (e : MapEntry α) : Covers ((m.claim i).store i e) := by
  have hlength := m.claim_store_length hi e
  have hlive := hm.live
  have hsize := hm.size
  have hone : e.live.toList.length ≤ 1 := by
    cases e.live with
    | none => exact Nat.zero_le 1
    | some x => exact Nat.le_refl 1
  refine ⟨?_, ?_⟩
  · omega
  · have hclaim : (m.claim i).count ≤ m.count + 1 := m.count_claim_le i
    rw [Map.count_store, Map.size_store, Map.claim_size]
    omega

theorem counted_store {m : Map α} (hm : m.count = m.entries.length) {i : ℕ} (hi : i < m.size)
    {key : UInt32} {x : α} :
    ((m.claim i).store i (.item key x)).count =
      ((m.claim i).store i (.item key x)).entries.length := by
  have hlength := m.claim_store_length hi (.item key x)
  rw [MapEntry.live_item, Option.toList_some, List.length_singleton] at hlength
  omega

theorem Covers.reput (calloc : ℕ → Bool) {m : Map α} (hm : Covers m) (key : UInt32)
    (value : Option α) : Covers (map_reput calloc m key value).1 := by
  rcases map_reput_lands calloc m key value with ⟨t, i, ht, hroom, hlands, hr⟩ | hr
  · rw [hr]
    refine Covers.store ?_ hroom hlands.lt_size _
    rcases ht with rfl | rfl
    · exact hm
    · exact (grown_spec m).1.inv.covers
  · rw [hr]
    exact hm

theorem Covers.remove {m : Map α} (hm : Covers m) (key : UInt32) : Covers (map_remove m key).1 := by
  rw [map_remove]
  cases hf : map_find m key with
  | none => exact hm
  | some i =>
    obtain ⟨w, hw⟩ := map_find_some hf
    obtain ⟨A, B, hold, hnew⟩ := m.entries_store i (Map.lt_size_of_item hw)
    have hlive := hm.live
    have hsize := hm.size
    rw [hold, hw, MapEntry.live_item, Option.toList_some] at hlive
    simp only [List.length_append, List.length_singleton] at hlive
    refine ⟨?_, ?_⟩
    · show (m.store i .deleted).entries.length ≤ m.count - 1
      rw [hnew .deleted]
      simp only [MapEntry.live_deleted, Option.toList_none, List.append_nil, List.length_append]
      omega
    · show m.count - 1 ≤ (m.store i .deleted).size
      rw [Map.size_store]
      omega

theorem Covers.rehash (calloc : ℕ → Bool) {m : Map α} (hm : Covers m) :
    Covers (map_rehash calloc m).1 := by
  rw [map_rehash_eq]
  split
  · exact (grown_spec m).1.inv.covers
  · exact hm

/-- An emptied table has nothing but NULL in it. -/
theorem map_clear_entry (m : Map α) (i : ℕ) : (map_clear m).1.entry i = .null := by
  simp only [map_clear, Map.entry, List.getD_eq_getElem?_getD, List.getElem?_map]
  cases m.data[i]? with
  | none => rfl
  | some e => rfl

theorem Inv.clear (m : Map α) : Inv (map_clear m).1 where
  count_eq := by
    have hnil : (map_clear m).1.entries = [] := by
      refine List.eq_nil_iff_forall_not_mem.mpr fun ⟨k, v⟩ hmem => ?_
      obtain ⟨i, hi⟩ := Map.mem_entries.mp hmem
      rw [map_clear_entry] at hi
      cases hi
    rw [hnil]
    rfl
  chain := by
    intro k v d _ h
    rw [map_clear_entry] at h
    cases h

theorem Inv.rehash (calloc : ℕ → Bool) {m : Map α} (hm : Inv m) : Inv (map_rehash calloc m).1 := by
  rw [map_rehash_eq]
  split
  · exact (grown_spec m).1.inv
  · exact hm

/-! ## Reachable tables

All tables that calls lead to, with an allocator that may fail at any time. Puts of NULL are among
the calls, since `map_put` does not refuse them. -/

section Runs

variable {ι : Type} [DecidableEq ι]

/-- A call on a table, with what the allocator does in it. A `map_put` is a `map_reput` whose previous
item is not asked for. -/
inductive TableOp (ι : Type) where
  | put (calloc : ℕ → Bool) (key : UInt32) (item : Option ι)
  | remove (key : UInt32)
  | rehash (calloc : ℕ → Bool)
  | clear

/-- The table after a call. A put that succeeds writes the key into its item. -/
def tableStep (m : Map ι) : TableOp ι → Map ι
  | .put calloc key item =>
    match map_reput calloc m key item with
    | (m', .ok _) => item.elim m' fun x => setKey x key m'
    | (m', .error _) => m'
  | .remove key => (map_remove m key).1
  | .rehash calloc => (map_rehash calloc m).1
  | .clear => (map_clear m).1

/-- The table after some calls on a new one. -/
def tableRun (ops : List (TableOp ι)) : Map ι := ops.foldl tableStep map_create

theorem tableRun_append (ops : List (TableOp ι)) (op : TableOp ι) :
    tableRun (ops ++ [op]) = tableStep (tableRun ops) op := by
  rw [tableRun, List.foldl_append, List.foldl_cons, List.foldl_nil, tableRun]

/-- A key that is written changes no slot to live or back. -/
theorem entries_setKey_length (m : Map ι) (item : ι) (key : UInt32) :
    (setKey item key m).entries.length = m.entries.length := by
  rw [Map.entries, Map.entries, List.length_filterMap_eq_countP, List.length_filterMap_eq_countP,
    setKey, List.countP_map]
  refine List.countP_congr fun e _ => ?_
  cases e <;> rfl

theorem Covers.setKey {m : Map ι} (hm : Covers m) (item : ι) (key : UInt32) :
    Covers (setKey item key m) := by
  refine ⟨?_, ?_⟩
  · rw [entries_setKey_length]
    exact hm.live
  · rw [setKey_size]
    exact hm.size

theorem Covers.step {m : Map ι} (hm : Covers m) (op : TableOp ι) : Covers (tableStep m op) := by
  cases op with
  | put calloc key item =>
    have hput := hm.reput calloc key item
    rw [tableStep]
    rcases hr : map_reput calloc m key item with ⟨m', rc | old⟩
    · rw [hr] at hput
      exact hput
    · rw [hr] at hput
      cases item with
      | none => exact hput
      | some x => exact hput.setKey x key
  | remove key => exact hm.remove key
  | rehash calloc => exact hm.rehash calloc
  | clear => exact (Inv.clear m).covers

theorem tableRun_covers (ops : List (TableOp ι)) : Covers (tableRun ops) := by
  induction ops using List.reverseRecOn with
  | nil => exact Covers.create
  | append_singleton ops op ih =>
    rw [tableRun_append]
    exact ih.step op

/-- **A put grows a table once at most.** In every table that calls lead to: `map_reput` comes
back after finitely many calls of `map_hash` and `map_rehash`, the same ones within every bound;
`map_hash` always finds a slot when there is one and never divides by 0; `map_rehash` is called once
at most, counting the puts inside it; and if its allocation fails the put fails and nothing has
changed. -/
theorem reput_grows_once (ops : List (TableOp ι)) (calloc : ℕ → Bool) (key : UInt32)
    (value : Option ι) :
    ∃ cs, (∀ n, map_reput.calls calloc (n + 2) (tableRun ops) key value =
        some (map_reput calloc (tableRun ops) key value, cs)) ∧
      (∀ c ∈ cs, c.Fine) ∧ cs.countP MapCall.isRehash ≤ 1 ∧
      (0 < cs.countP MapCall.isRehash → calloc ((tableRun ops).size + 256) = false →
        map_reput calloc (tableRun ops) key value = (tableRun ops, .error (-1))) :=
  map_reput_calls calloc (tableRun_covers ops) key value

/-- A call that puts no NULL. -/
def TableOp.Given : TableOp ι → Prop
  | .put _ _ none => False
  | _ => True

/-- A call that puts no item which the table holds under another key: an item has one key only,
and the put writes it. -/
def TableOp.Alone (m : Map ι) : TableOp ι → Prop
  | .put _ key (some item) => ∀ k, (k, item) ∈ m.entries → k = key
  | _ => True

theorem counted_setKey {m : Map ι} (hm : m.count = m.entries.length) (item : ι) (key : UInt32) :
    (setKey item key m).count = (setKey item key m).entries.length := by
  rw [entries_setKey_length]
  exact hm

/-- A NULL-free call keeps `count` the number of live slots, whatever items it puts. -/
theorem tableStep_counted {m : Map ι} (hm : m.count = m.entries.length) {op : TableOp ι}
    (hop : op.Given) : (tableStep m op).count = (tableStep m op).entries.length := by
  cases op with
  | put calloc key item =>
    cases item with
    | none => exact hop.elim
    | some x =>
      rw [tableStep]
      rcases map_reput_lands calloc m key (some x) with ⟨t, i, ht, -, hlands, hr⟩ | hr
      · rw [hr]
        -- the slot that was claimed is counted, and writing the key changes no slot to live
        apply counted_setKey
        refine counted_store ?_ hlands.lt_size
        rcases ht with rfl | rfl
        · exact hm
        · exact (grown_spec m).1.inv.count_eq
      · rw [hr]
        exact hm
  | remove key =>
    rw [tableStep, map_remove]
    cases hf : map_find m key with
    | none => exact hm
    | some i =>
      obtain ⟨w, hw⟩ := map_find_some hf
      obtain ⟨A, B, hold, hnew⟩ := m.entries_store i (Map.lt_size_of_item hw)
      show m.count - 1 = (m.store i .deleted).entries.length
      rw [hm, hold, hnew .deleted, hw]
      simp only [MapEntry.live_item, MapEntry.live_deleted, Option.toList_some, Option.toList_none,
        List.append_nil, List.length_append, List.length_singleton]
      omega
  | rehash calloc =>
    rw [tableStep, map_rehash_eq]
    split
    · exact (grown_spec m).1.inv.count_eq
    · exact hm
  | clear => exact (Inv.clear m).count_eq

theorem tableRun_counted (ops : List (TableOp ι)) (h : ∀ op ∈ ops, op.Given) :
    (tableRun ops).count = (tableRun ops).entries.length := by
  induction ops using List.reverseRecOn with
  | nil => rfl
  | append_singleton ops op ih =>
    rw [List.forall_mem_append, List.forall_mem_singleton] at h
    rw [tableRun_append]
    exact tableStep_counted (ih h.1) h.2

theorem Inv.step {m : Map ι} (hm : Inv m) {op : TableOp ι} (hgiven : op.Given)
    (halone : op.Alone m) : Inv (tableStep m op) := by
  cases op with
  | put calloc key item =>
    cases item with
    | none => exact hgiven.elim
    | some x =>
      have hput := hm.reput calloc key x
      have hsub := map_reput_subset calloc m key x
      rw [tableStep]
      rcases hr : map_reput calloc m key (some x) with ⟨m', rc | old⟩
      · rw [hr] at hput
        exact hput
      · rw [hr] at hput hsub
        -- the item stands under the new key alone, so that writing it changes nothing
        have hsame : setKey x key m' = m' := by
          apply setKey_eq_self
          intro k hk
          rcases List.mem_cons.mp (hsub hk) with heq | hold
          · exact congrArg Prod.fst heq
          · exact halone k hold
        simp only [Option.elim_some, hsame]
        exact hput
  | remove key => exact hm.remove key
  | rehash calloc => exact hm.rehash calloc
  | clear => exact Inv.clear m

theorem tableRun_inv (ops : List (TableOp ι)) (hgiven : ∀ op ∈ ops, op.Given)
    (halone : ∀ pre op, (pre ++ [op]) <+: ops → op.Alone (tableRun pre)) : Inv (tableRun ops) := by
  induction ops using List.reverseRecOn with
  | nil => exact Inv.create
  | append_singleton ops op ih =>
    rw [List.forall_mem_append, List.forall_mem_singleton] at hgiven
    rw [tableRun_append]
    apply Inv.step
    · apply ih hgiven.1
      intro pre op' hpre
      exact halone pre op' (hpre.trans (List.prefix_append ops [op]))
    · exact hgiven.2
    · exact halone ops op (List.prefix_refl _)

/-- A call that makes no table of `2^31` slots or more: a put may find a full table only if that can
grow, and a rehash grows it in any case. -/
def TableOp.Fits (m : Map ι) : TableOp ι → Prop
  | .put _ _ _ => m.count = m.size → m.MayGrow
  | .rehash _ => m.MayGrow
  | _ => True

/-- With calls that fit, every table has fewer than `2^31` slots, so that the `int` slot numbers of
the source are the natural numbers here. -/
theorem tableRun_size_lt (ops : List (TableOp ι)) (hgiven : ∀ op ∈ ops, op.Given)
    (hfits : ∀ pre op, (pre ++ [op]) <+: ops → op.Fits (tableRun pre)) :
    (tableRun ops).size < 2 ^ 31 := by
  induction ops using List.reverseRecOn with
  | nil => exact Nat.two_pow_pos 31
  | append_singleton ops op ih =>
    rw [List.forall_mem_append, List.forall_mem_singleton] at hgiven
    have hfit := hfits ops op (List.prefix_refl _)
    have hlt : (tableRun ops).size < 2 ^ 31 := by
      apply ih hgiven.1
      intro pre op' hpre
      exact hfits pre op' (hpre.trans (List.prefix_append ops [op]))
    rw [tableRun_append]
    cases op with
    | put calloc key item =>
      cases item with
      | none => exact hgiven.2.elim
      | some x =>
        -- only a put of an item or a rehash makes a table larger, and these fit
        have hput := map_reput_size_lt calloc key
          (fun _ h => ((tableRun_covers ops).full_of_error h).1) hlt hfit x
        rw [tableStep]
        rcases hr : map_reput calloc (tableRun ops) key (some x) with ⟨m', rc | old⟩
        · rw [hr] at hput
          exact hput
        · rw [hr] at hput
          simp only [Option.elim_some, setKey_size]
          exact hput
    | remove key =>
      rw [tableStep, map_remove_size]
      exact hlt
    | rehash calloc =>
      rw [tableStep, map_rehash_eq]
      split
      · obtain ⟨-, hsize, -, -⟩ := grown_spec (tableRun ops)
        rw [hsize]
        exact hfit
      · exact hlt
    | clear =>
      rw [tableStep, map_clear, Map.size, List.length_map]
      exact hlt

/-- **Probe chains.** In every table that NULL-free calls lead to while it stays below `2^31` slots,
`count` is the number of live slots. If no item is put that the table holds under another key, then
no slot is empty on the way from the home of a key to its entry, and so a key is found exactly if a
live slot has it. -/
theorem probe_chains (ops : List (TableOp ι)) (hgiven : ∀ op ∈ ops, op.Given)
    (hfits : ∀ pre op, (pre ++ [op]) <+: ops → op.Fits (tableRun pre)) :
    (tableRun ops).size < 2 ^ 31 ∧
      (tableRun ops).count = (tableRun ops).data.countP (fun e => e.live.isSome) ∧
      ((∀ pre op, (pre ++ [op]) <+: ops → op.Alone (tableRun pre)) →
        Chained (tableRun ops) ∧
          ∀ key, map_get (tableRun ops) key ≠ none ↔
            ∃ i v, (tableRun ops).entry i = .item key v) := by
  refine ⟨tableRun_size_lt ops hgiven hfits, ?_, fun halone => ?_⟩
  · rw [tableRun_counted ops hgiven, Map.entries, List.length_filterMap_eq_countP]
  have hinv := tableRun_inv ops hgiven halone
  refine ⟨hinv.chain, fun key => ?_⟩
  rw [ne_eq, map_get_eq_none hinv]
  push Not
  constructor
  · rintro ⟨v, hv⟩
    obtain ⟨i, hi⟩ := Map.mem_entries.mp hv
    exact ⟨i, v, hi⟩
  · rintro ⟨i, v, hi⟩
    exact ⟨v, Map.mem_entries.mpr ⟨i, hi⟩⟩

theorem probe_chains_removed :
    (tableRun [.put (fun _ => true) 5 (some 0), .remove 5] : Map ℕ).count =
        (tableRun [.put (fun _ => true) 5 (some 0), .remove 5] : Map ℕ).data.countP
          (fun e => e.live.isSome) ∧
      Chained (tableRun [.put (fun _ => true) 5 (some 0), .remove 5] : Map ℕ) ∧
      (map_get (tableRun [.put (fun _ => true) 5 (some 0), .remove 5] : Map ℕ) 5 ≠ none ↔
        ∃ i v, (tableRun [.put (fun _ => true) 5 (some 0), .remove 5] : Map ℕ).entry i =
          .item 5 v) := by
  have hgiven : ∀ op ∈ [TableOp.put (fun _ => true) 5 (some 0), .remove 5], op.Given := by
    simp [TableOp.Given]
  have hboth : ∀ pre op, (pre ++ [op]) <+: [TableOp.put (fun _ => true) 5 (some 0), .remove 5] →
      op.Fits (tableRun pre) ∧ op.Alone (tableRun pre) := by
    rintro pre op ⟨post, hpre⟩
    cases pre with
    | nil =>
      obtain rfl : op = .put (fun _ => true) 5 (some 0) := (List.cons.inj hpre).1
      refine ⟨fun _ => (by decide : (0 : ℕ) + 256 < 2 ^ 31), fun k hk => ?_⟩
      exact absurd hk List.not_mem_nil
    | cons op' pre =>
      have hmem : op ∈ [TableOp.remove 5] := by
        rw [← (List.cons.inj hpre).2]
        simp
      rw [List.mem_singleton.mp hmem]
      exact ⟨trivial, trivial⟩
  have halone := fun pre op hpre => (hboth pre op hpre).2
  obtain ⟨-, hcount, hchains⟩ := probe_chains _ hgiven fun pre op hpre => (hboth pre op hpre).1
  exact ⟨hcount, (hchains halone).1, (hchains halone).2 5⟩

/-- **An item under two keys.** The put of item `0` under key `6` also changes the key in the slot
that it has already: slot 5 is now behind the empty slots that follow slot 6. -/
theorem probe_chains_aliased :
    ¬ Chained (tableRun
      [.put (fun _ => true) 5 (some 0), .put (fun _ => true) 6 (some 0)] : Map ℕ) := by
  intro h
  exact h 6 0 255 (by decide +kernel) (by decide +kernel) 1 (by decide) (by decide +kernel)

end Runs

end Dragonboard.QrtrMap
