/-
The table of `map.c` behind the interface of `map.h`.

As long as no key is put while it is present, the table is a `LawfulMap`: its invariant
is the one of `MapTable.lean`, with distinct keys. Where a key can be put again the
table can end up with two entries for it, and only the weaker facts hold that are
stated here for every well-formed table.
-/
import Dragonboard.MapApi
import Dragonboard.MapTable

set_option autoImplicit false

namespace Dragonboard.QrtrMap

open Dragonboard.MapApi (StructMap LawfulMap)

variable {α : Type}

instance : StructMap Map where
  map_create := map_create
  map_reput calloc m key value := map_reput calloc m key (some value)
  map_get := map_get
  map_remove := map_remove
  map_iter_from m start :=
    (map_iter_from m start).bind fun i => (m.entry i).live.map fun e => (i, e.2)
  rounds := Map.size

/-- What a walk from slot `i` on yields. -/
def Map.rest (m : Map α) (i : ℕ) : List (UInt32 × α) := (m.data.drop i).filterMap MapEntry.live

@[simp] theorem Map.rest_zero (m : Map α) : m.rest 0 = m.entries := rfl

theorem Map.rest_sublist (m : Map α) (i : ℕ) : (m.rest i).Sublist m.entries :=
  (List.drop_sublist i m.data).filterMap _

theorem Map.rest_of_le {m : Map α} {i : ℕ} (h : m.size ≤ i) : m.rest i = [] := by
  rw [Map.rest, List.drop_eq_nil_of_le h, List.filterMap_nil]

theorem Map.iter_from_rest (m : Map α) (i : ℕ) :
    match MapApi.map_iter_from m i with
    | none => m.rest i = []
    | some (j, v) => i ≤ j ∧ ∃ k, m.rest i = (k, v) :: m.rest (j + 1) := by
  have h := map_iter_from_spec m i
  simp only [StructMap.map_iter_from]
  cases hit : map_iter_from m i with
  | none =>
    rw [hit] at h
    exact h
  | some j =>
    rw [hit] at h
    obtain ⟨hij, k, v, hentry, hrest⟩ := h
    rw [Option.bind_some, hentry]
    exact ⟨hij, k, hrest⟩

/-! ## Removal, slot by slot

`map_remove` removes one slot, also if the key is in the table twice. The laws of a removal are
about the walk of the table, so the walk is taken apart at each slot. -/

/-- An entry of `key` struck out. -/
def strike (key : UInt32) : MapEntry α → MapEntry α
  | .item k v => if k = key then .deleted else .item k v
  | e => e

theorem live_strike (key : UInt32) (e : MapEntry α) :
    (strike key e).live = e.live.filter (·.1 ≠ key) := by
  cases e with
  | null => rfl
  | deleted => rfl
  | item k v =>
    by_cases h : k = key
    · rw [strike, if_pos h, MapEntry.live_item, Option.filter_some_neg (by simpa using h)]
      rfl
    · rw [strike, if_neg h, MapEntry.live_item, Option.filter_some_pos (by simpa using h)]

/-- The other keys, from a slot on. -/
theorem Map.filter_rest (m : Map α) (key : UInt32) (i : ℕ) :
    (m.rest i).filter (·.1 ≠ key) = ((m.data.map (strike key)).drop i).filterMap MapEntry.live := by
  rw [Map.rest, ← List.map_drop, List.filterMap_map, List.filter_filterMap]
  refine List.filterMap_congr fun e _ => ?_
  rw [Function.comp_apply, live_strike]

/-- Removing a key leaves the other keys where they are, in every table. -/
theorem Map.rest_remove_filter (m : Map α) (key : UInt32) (i : ℕ) :
    ((map_remove m key).1.rest i).filter (·.1 ≠ key) = (m.rest i).filter (·.1 ≠ key) := by
  rw [Map.filter_rest, Map.filter_rest]
  cases hf : map_find m key with
  | none => rw [map_remove, hf]
  | some j =>
    obtain ⟨v, hv⟩ := map_find_some hf
    have hj : j < m.data.length := Map.lt_size_of_item hv
    have hentry : m.data[j] = .item key v := by
      rw [← hv, Map.entry, List.getD_eq_getElem _ _ hj]
    -- the slot struck out and the slot removed are the same
    have hstruck : (m.data.map (strike key))[j]? = some (strike key .deleted) := by
      rw [List.getElem?_map, List.getElem?_eq_getElem hj, hentry, Option.map_some, strike,
        if_pos rfl]
      rfl
    have hset : (m.store j .deleted).data.map (strike key) = m.data.map (strike key) := by
      rw [Map.store, List.map_set]
      refine List.ext_getElem? fun n => ?_
      rw [List.getElem?_set]
      by_cases hn : j = n
      · subst hn
        rw [if_pos rfl, hstruck, if_pos (by simpa using hj)]
      · rw [if_neg hn]
    rw [map_remove, hf]
    exact congrArg (fun l => (l.drop i).filterMap MapEntry.live) hset

/-- A key of a table without duplicates is in one slot. -/
theorem Distinct.slot_unique {m : Map α} (hd : Distinct m) {i j : ℕ} {k : UInt32} {v w : α}
    (hi : m.entry i = .item k v) (hj : m.entry j = .item k w) : i = j := by
  by_contra hne
  have hlt := Map.lt_size_of_item hi
  obtain ⟨A, B, hent, hset⟩ := m.entries_store i hlt
  -- with slot `i` struck out, the key is still there in slot `j`
  have hmem : (k, w) ∈ (m.store i .deleted).entries := by
    refine Map.mem_entries.mpr ⟨j, ?_⟩
    rw [Map.entry_store _ _ _ _ hlt, if_neg (Ne.symm hne), hj]
  rw [hset .deleted, MapEntry.live_deleted, Option.toList_none, List.append_nil] at hmem
  rw [hi, MapEntry.live_item, Option.toList_some, List.append_assoc, List.singleton_append] at hent
  have hnodup : ((A ++ (k, v) :: B).map Prod.fst).Nodup := hent ▸ hd
  rw [List.map_append, List.map_cons, List.nodup_middle, List.nodup_cons,
    ← List.map_append] at hnodup
  exact hnodup.1 (List.mem_map.mpr ⟨(k, w), hmem, rfl⟩)

/-- The search by hash and probing ends in the slot the key is in, so that is the one struck out. -/
theorem map_remove_slot {m : Map α} (hm : Inv m) (hd : Distinct m) {i : ℕ} {k : UInt32} {v : α}
    (hi : m.entry i = .item k v) :
    map_remove m k = ({ m.store i .deleted with count := m.count - 1 }, 0) := by
  cases hf : map_find m k with
  | none => exact absurd hi (map_find_none hm hf v i)
  | some j =>
    obtain ⟨w, hj⟩ := map_find_some hf
    obtain rfl := hd.slot_unique hi hj
    rw [map_remove, hf]

/-- Removing a key from a table without duplicates strikes it out everywhere. -/
theorem map_remove_data {m : Map α} (hm : Inv m) (hd : Distinct m) (key : UInt32) :
    (map_remove m key).1.data = m.data.map (strike key) := by
  -- if the key is not found no slot has it, and nothing is struck out
  cases hf : map_find m key with
  | none =>
    have hnone := map_find_none hm hf
    rw [map_remove, hf]
    symm
    refine (List.map_congr_left fun e he => ?_).trans (List.map_id _)
    obtain ⟨i, hi, rfl⟩ := List.getElem_of_mem he
    have hentry : m.entry i = m.data[i] := List.getD_eq_getElem _ _ hi
    cases hx : m.data[i] with
    | null => rfl
    | deleted => rfl
    | item k v =>
      rw [strike, if_neg]
      · rfl
      · rintro rfl
        exact hnone v i (hentry.trans hx)
  | some i =>
    obtain ⟨v, hv⟩ := map_find_some hf
    have hi : i < m.data.length := Map.lt_size_of_item hv
    rw [map_remove, hf]
    refine List.ext_getElem? fun n => ?_
    simp only [Map.store, List.getElem?_set, List.getElem?_map]
    by_cases hn : n < m.data.length
    · have hentry : m.entry n = m.data[n] := List.getD_eq_getElem _ _ hn
      rw [List.getElem?_eq_getElem hn, Option.map_some, ← hentry]
      -- the slot that was found is struck out, and no other slot has the key
      by_cases hin : i = n
      · subst hin
        rw [if_pos rfl, if_pos hi, hv, strike, if_pos rfl]
      · rw [if_neg hin]
        cases hx : m.entry n with
        | null => rfl
        | deleted => rfl
        | item k w =>
          rw [strike, if_neg]
          rintro rfl
          exact hin (hd.slot_unique hv hx)
    · rw [List.getElem?_eq_none (by omega), if_neg (by omega)]
      rfl

theorem Map.rest_remove {m : Map α} (hm : Inv m) (hd : Distinct m) (key : UInt32) (i : ℕ) :
    (map_remove m key).1.rest i = (m.rest i).filter (·.1 ≠ key) := by
  unfold Map.rest
  rw [map_remove_data hm hd, ← List.map_drop, List.filterMap_map, List.filter_filterMap]
  refine List.filterMap_congr fun e _ => ?_
  simp only [Function.comp_apply, live_strike]

/-- Reinserting pairs adds none. -/
theorem foldl_upsert_subset (l acc : List (UInt32 × α)) : l.foldl upsert acc ⊆ l ++ acc := by
  induction l generalizing acc with
  | nil => exact List.Subset.refl acc
  | cons e l ih =>
    intro x hx
    rcases List.mem_append.mp (ih (upsert acc e) hx) with h | h
    · exact List.mem_append_left _ (List.mem_cons_of_mem _ h)
    · rcases List.mem_cons.mp h with rfl | h
      · exact List.mem_append_left _ List.mem_cons_self
      · exact List.mem_append_right _ (List.mem_filter.mp h).1

theorem Map.grown_subset (m : Map α) : m.grown.entries ⊆ m.entries := by
  intro e he
  have h := foldl_upsert_subset m.entries [] ((grown_spec m).2.2.2.subset he)
  rwa [List.append_nil] at h

theorem Lands.subset {m : Map α} {key : UInt32} {i : ℕ} (h : Lands m key i) (v : α) :
    (m.putAt i key v).entries ⊆ (key, v) :: m.entries := by
  obtain ⟨A, B, hput, ⟨-, hm⟩ | ⟨w, -, hm⟩⟩ := h.entries v
  · rw [hput, hm]
    intro e he
    exact List.perm_middle.subset he
  · rw [hput, hm]
    intro e he
    rcases List.mem_cons.mp (List.perm_middle.subset he) with rfl | he
    · exact List.mem_cons_self
    · exact List.mem_cons_of_mem _ (List.perm_middle.symm.subset (List.mem_cons_of_mem _ he))

theorem map_reput_subset (calloc : ℕ → Bool) (m : Map α) (key : UInt32) (v : α) :
    (map_reput calloc m key (some v)).1.entries ⊆ (key, v) :: m.entries := by
  rcases map_reput_cases calloc m key v with ⟨i, hl, -, hr⟩ | ⟨-, i, -, -, hl, hr⟩ | ⟨-, -, -, hr⟩
  · rw [hr]
    exact hl.subset v
  · rw [hr]
    intro e he
    rcases List.mem_cons.mp (hl.subset v he) with rfl | he
    · exact List.mem_cons_self
    · exact List.mem_cons_of_mem _ (m.grown_subset he)
  · rw [hr]
    exact List.subset_cons_self _ _

/-- The other keys of a list that pairs are put into one after the other. -/
theorem foldl_upsert_filter (key : UInt32) (l acc : List (UInt32 × α)) :
    (l.foldl upsert acc).filter (·.1 ≠ key) =
      (l.filter (·.1 ≠ key)).foldl upsert (acc.filter (·.1 ≠ key)) := by
  induction l generalizing acc with
  | nil => rfl
  | cons e l ih =>
    rw [List.foldl_cons, ih]
    by_cases he : e.1 = key
    · -- a pair of the key itself leaves no trace
      rw [List.filter_cons_of_neg (by simpa using he), upsert,
        List.filter_cons_of_neg (by simpa using he), List.filter_filter]
      congr 1
      refine List.filter_congr fun x _ => ?_
      simp [he]
    · rw [List.filter_cons_of_pos (by simpa using he), List.foldl_cons, upsert, upsert,
        List.filter_cons_of_pos (by simpa using he), List.filter_filter, List.filter_filter]
      congr 2
      exact List.filter_congr fun x _ => Bool.and_comm _ _

/-- **Growth keeps the other keys exactly if none of them is there twice.** -/
theorem Map.grown_filter_perm (m : Map α) (key : UInt32) :
    (m.grown.entries.filter (·.1 ≠ key)).Perm (m.entries.filter (·.1 ≠ key)) ↔
      ((m.entries.filter (·.1 ≠ key)).map Prod.fst).Nodup := by
  obtain ⟨hroomy, -, -, hperm⟩ := grown_spec m
  constructor
  · intro h
    have hnodup : ((m.grown.entries.filter (·.1 ≠ key)).map Prod.fst).Nodup :=
      List.Nodup.sublist (List.filter_sublist.map _) hroomy.distinct
    exact (h.map Prod.fst).nodup_iff.mp hnodup
  · intro h
    have hfold := foldl_upsert_perm _ [] h fun _ _ _ => List.not_mem_nil
    rw [List.append_nil] at hfold
    have hfilter := hperm.filter (·.1 ≠ key)
    rw [foldl_upsert_filter, List.filter_nil] at hfilter
    exact hfilter.trans hfold

/-- A put keeps a table well formed, also one of a key that is present. -/
theorem Inv.reput (calloc : ℕ → Bool) {m : Map α} (hm : Inv m) (key : UInt32) (v : α) :
    Inv (map_reput calloc m key (some v)).1 := by
  rcases map_reput_cases calloc m key v with ⟨i, hl, -, hr⟩ | ⟨-, i, -, -, hl, hr⟩ | ⟨-, -, -, hr⟩
  · rw [hr]
    exact hm.put hl v
  · rw [hr]
    exact (grown_spec m).1.inv.put hl v
  · rw [hr]
    exact hm

theorem map_remove_sublist (m : Map α) (key : UInt32) :
    (map_remove m key).1.entries.Sublist m.entries := by
  cases hf : map_find m key with
  | none =>
    rw [map_remove, hf]
  | some i =>
    obtain ⟨v, hv⟩ := map_find_some hf
    obtain ⟨A, B, hent, hset⟩ := m.entries_store i (Map.lt_size_of_item hv)
    rw [map_remove, hf]
    change (m.store i .deleted).entries.Sublist m.entries
    rw [hset .deleted, hent, MapEntry.live_deleted, Option.toList_none, List.append_nil]
    exact (List.sublist_append_left A _).append (List.Sublist.refl B)

theorem Inv.remove {m : Map α} (hm : Inv m) (key : UInt32) : Inv (map_remove m key).1 := by
  cases hg : map_get m key with
  | none =>
    rw [map_remove_none hg]
    exact hm
  | some v =>
    obtain ⟨m', A, B, hr, hinv, -, -, -⟩ := map_remove_some hm hg
    rw [hr]
    exact hinv

/-- Removing a key that is there leaves fewer entries, also of those of keys other than `key`. -/
theorem map_remove_filter_lt {m : Map α} (hm : Inv m) {key k : UInt32} (hk : k ≠ key) {v : α}
    (hv : (k, v) ∈ m.entries) :
    ((map_remove m k).1.entries.filter (·.1 ≠ key)).length <
      (m.entries.filter (·.1 ≠ key)).length := by
  cases hg : map_get m k with
  | none => exact absurd hv ((map_get_eq_none hm).mp hg v)
  | some w =>
    obtain ⟨m', A, B, hr, -, -, hent, hent'⟩ := map_remove_some hm hg
    rw [hr, hent, hent']
    simp [List.filter_append, hk]

instance : LawfulMap Map where
  Good m := Inv m ∧ Distinct m
  rest := Map.rest
  iter_from := Map.iter_from_rest
  rest_length m := m.entries_length_le
  rest_create := rfl
  mem_of_get h := map_get_some_mem h
  reput_error {α calloc m k v rc} h := by
    simp only [StructMap.map_reput] at h ⊢
    rcases map_reput_cases calloc m k v with ⟨i, -, -, hr⟩ | ⟨-, i, -, -, -, hr⟩ | ⟨-, -, hc, hr⟩
    · rw [hr] at h
      cases h
    · rw [hr] at h
      cases h
    · rw [hr]
      exact ⟨rfl, _, hc⟩
  reput_subset calloc m k v := map_reput_subset calloc m k v
  remove_subset m k := (map_remove_sublist m k).subset
  good_create := ⟨Inv.create, List.nodup_nil⟩
  distinct h := h.2
  get_of_mem {α m} h {k v} hv := (map_get_eq_some h.1 h.2).mpr hv
  reput_fresh {α calloc m} hm {k} hk {v old} h := by
    simp only [StructMap.map_reput] at h ⊢
    have habsent := (map_get_eq_none hm.1).mp hk
    have hs : NoStale m k := fun w d _ hw => absurd (Map.mem_entries.mpr ⟨_, hw⟩) (habsent w)
    rcases map_reput_spec calloc hm.1 hm.2 hs v with ⟨m', hr, hinv, hdist, hperm⟩ | ⟨-, hr⟩
    · rw [hr]
      refine ⟨⟨hinv, hdist⟩, hperm.trans ?_⟩
      rw [upsert, List.filter_eq_self.mpr]
      · exact List.Perm.refl _
      · rintro ⟨k', w⟩ hw
        simp only [decide_eq_true_eq]
        rintro rfl
        exact habsent w hw
    · rw [hr] at h
      cases h
  good_remove h k := ⟨(map_remove_spec h.1 h.2 k).1, (map_remove_spec h.1 h.2 k).2.1⟩
  rest_remove h k i := Map.rest_remove h.1 h.2 k i

/-! ## Telling puts and removals apart

Two calls that leave the same table behind have done the same to it, unless what they put was there
already. That is so for every well-formed table, with removed slots and keys that are there twice. -/

/-- The table a put stores to: a full one is grown first. -/
def Map.ready (m : Map α) : Map α := if m.count = m.size then m.grown else m

/-- The item is where a put of it goes. -/
def Map.Rests (m : Map α) (key : UInt32) (v : α) : Prop :=
  ∃ i, Lands m key i ∧ m.entry i = .item key v

theorem Lands.unique {m : Map α} {key : UInt32} {i j : ℕ} (hi : Lands m key i)
    (hj : Lands m key j) : i = j := by
  obtain ⟨d, -, rfl, hstop, hbefore⟩ := hi
  obtain ⟨d', -, rfl, hstop', hbefore'⟩ := hj
  rcases Nat.lt_trichotomy d d' with hlt | rfl | hlt
  · rw [hbefore' d hlt] at hstop
    cases hstop
  · rfl
  · rw [hbefore d' hlt] at hstop'
    cases hstop'

/-- Storing what is there changes nothing. -/
theorem Map.putAt_self {m : Map α} {i : ℕ} {key : UInt32} {v : α} (h : m.entry i = .item key v) :
    m.putAt i key v = m := by
  have hi : i < m.data.length := Map.lt_size_of_item h
  have hclaim : m.claim i = m := by
    rw [Map.claim, h]
    rfl
  have hentry : m.data[i] = .item key v := by
    rw [← h, Map.entry, List.getD_eq_getElem _ _ hi]
  rw [Map.putAt, hclaim, Map.store, ← hentry, List.set_getElem_self]

/-- A put stores to the table that is ready, unless that takes memory that is not there. -/
theorem map_reput_ready (calloc : ℕ → Bool) {m : Map α} (hm : Inv m) (key : UInt32) (v : α) :
    if m.count = m.size ∧ calloc (m.size + 256) = false then
      map_reput calloc m key (some v) = (m, .error (-1))
    else ∃ i, Lands m.ready key i ∧ map_reput calloc m key (some v) =
      (m.ready.putAt i key v, .ok ((m.ready.entry i).live.map Prod.snd)) := by
  unfold Map.ready
  rcases map_reput_cases calloc m key v with ⟨i, hl, hc, hr⟩ | ⟨rc, i, herr, hc, hl, hr⟩ |
    ⟨rc, herr, hc, hr⟩
  · rw [if_neg fun hfull => hc hfull.1, if_neg hc]
    exact ⟨i, hl, hr⟩
  · rw [if_neg (by simp [hc]), if_pos (hm.full_of_error herr)]
    exact ⟨i, hl, hr⟩
  · rw [if_pos ⟨hm.full_of_error herr, hc⟩]
    exact hr

/-- A put of what is there leaves the table that is ready. -/
theorem map_reput_rests (calloc : ℕ → Bool) {m : Map α} (hm : Inv m) {key : UInt32} {v : α}
    (h : m.ready.Rests key v) :
    map_reput calloc m key (some v) =
      if m.count = m.size ∧ calloc (m.size + 256) = false then (m, .error (-1))
      else (m.ready, .ok (some v)) := by
  have hput := map_reput_ready calloc hm key v
  split at hput
  · rename_i hfull
    rw [if_pos hfull]
    exact hput
  · rename_i hfull
    obtain ⟨i, hl, hr⟩ := hput
    obtain ⟨j, hj, hentry⟩ := h
    obtain rfl := hl.unique hj
    rw [if_neg hfull, hr, Map.putAt_self hentry, hentry]
    rfl

/-- **Puts of different items leave the same table only if both are there.** -/
theorem rests_of_map_reput_eq {calloc : ℕ → Bool} (hcalloc : ∀ n, calloc n = true) {m : Map α}
    (hm : Inv m) {key key' : UInt32} {v v' : α} (hne : (key, v) ≠ (key', v'))
    (h : (map_reput calloc m key (some v)).1 = (map_reput calloc m key' (some v')).1) :
    key ≠ key' ∧ m.ready.Rests key v := by
  have hput := map_reput_ready calloc hm key v
  have hput' := map_reput_ready calloc hm key' v'
  rw [if_neg (by simp [hcalloc])] at hput hput'
  obtain ⟨i, hl, hr⟩ := hput
  obtain ⟨i', hl', hr'⟩ := hput'
  rw [hr, hr'] at h
  have hentry : (m.ready.putAt i key v).entry i = (m.ready.putAt i' key' v').entry i :=
    congrArg (Map.entry · i) h
  rw [Map.putAt_entry _ hl.lt_size, if_pos rfl, Map.putAt_entry _ hl'.lt_size] at hentry
  have hslot : i ≠ i' := by
    rintro rfl
    rw [if_pos rfl] at hentry
    obtain ⟨rfl, rfl⟩ := MapEntry.item.inj hentry
    exact hne rfl
  rw [if_neg hslot] at hentry
  refine ⟨?_, i, hl, hentry.symm⟩
  rintro rfl
  exact hslot (hl.unique hl')

/-- A full table has grown when it is ready. -/
theorem Map.ready_ne {m : Map α} (h : m.count = m.size) : m.ready ≠ m := by
  intro heq
  obtain ⟨-, hsize, -, -⟩ := grown_spec m
  rw [Map.ready, if_pos h] at heq
  rw [heq] at hsize
  omega

/-- **A removal of an item that is found is told from one of another key**, and from none. -/
theorem map_remove_ne {m : Map α} {key : UInt32} {v : α} (h : map_get m key = some v) :
    (map_remove m key).1 ≠ m ∧ ∀ key' ≠ key, (map_remove m key).1 ≠ (map_remove m key').1 := by
  obtain ⟨i, hf, hi⟩ := map_get_slot h
  have hgone : (map_remove m key).1.entry i = .deleted := by
    rw [map_remove, hf]
    exact (Map.entry_store m i i .deleted (Map.lt_size_of_item hi)).trans (if_pos rfl)
  refine ⟨fun heq => ?_, fun key' hne heq => ?_⟩
  · rw [heq, hi] at hgone
    cases hgone
  · rw [heq] at hgone
    cases hf' : map_find m key' with
    | none =>
      rw [map_remove, hf'] at hgone
      rw [hi] at hgone
      cases hgone
    | some j =>
      obtain ⟨w, hw⟩ := map_find_some hf'
      have hij : i ≠ j := by
        rintro rfl
        rw [hi] at hw
        exact hne (MapEntry.item.inj hw).1.symm
      rw [map_remove, hf'] at hgone
      have hkept := (Map.entry_store m j i .deleted (Map.lt_size_of_item hw)).trans (if_neg hij)
      change (m.store j .deleted).entry i = .deleted at hgone
      rw [hkept, hi] at hgone
      cases hgone

/-! ## Evaluation

For runs that are evaluated the walk is replaced by one that goes through the list of slots,
instead of looking up each index from the front. -/

/-- The first item at or after a slot, in one pass over the slots from there on. -/
def scanFrom : List (MapEntry α) → ℕ → Option (ℕ × α)
  | [], _ => none
  | .item _ value :: _, i => some (i, value)
  | .null :: rest, i => scanFrom rest (i + 1)
  | .deleted :: rest, i => scanFrom rest (i + 1)

theorem map_iter_from_loop_scan (m : Map α) {n i : ℕ} (hn : n = m.size - i) :
    (map_iter_from.loop m n i).bind (fun j => (m.entry j).live.map fun e => (j, e.2)) =
      scanFrom (m.data.drop i) i := by
  unfold Map.size at hn
  induction n generalizing i with
  | zero =>
    rw [List.drop_of_length_le (by omega)]
    rfl
  | succ n ih =>
    have hi : i < m.data.length := by omega
    have hentry : m.entry i = m.data[i] := List.getD_eq_getElem _ _ hi
    rw [List.drop_eq_getElem_cons hi, map_iter_from.loop, hentry]
    cases he : m.data[i] with
    | null => exact ih (by omega)
    | deleted => exact ih (by omega)
    | item key value =>
      simp only [MapEntry.live_item, Option.isSome_some, if_true, Option.bind_some, hentry, he,
        Option.map_some, scanFrom]

/-- The tables with walks that go through the slots once. The walks of the source look every slot up by
its index, which is slow where a run is evaluated. -/
@[reducible] def scanMap : StructMap Map where
  map_create := map_create
  map_reput calloc m key value := map_reput calloc m key (some value)
  map_get := map_get
  map_remove := map_remove
  map_iter_from m start := scanFrom (m.data.drop start) start
  rounds := Map.size

/-- They are the same tables. -/
theorem structMap_eq_scanMap : instStructMapMap = scanMap := by
  have hiter : ∀ (α : Type) (m : Map α) (start : ℕ),
      (map_iter_from m start).bind (fun i => (m.entry i).live.map fun e => (i, e.2)) =
        scanFrom (m.data.drop start) start := fun _ m _ => map_iter_from_loop_scan m rfl
  unfold instStructMapMap scanMap
  simp only [hiter]

end Dragonboard.QrtrMap
