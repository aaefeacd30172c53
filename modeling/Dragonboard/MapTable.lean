/-
What the operations of `Map.lean` do to a table, for every table.

The invariant is `Inv`: `count` is the number of live slots, and no `NULL` slot
lies between the home slot of a key and the slot that holds it. It is kept by
every operation whatever the history (`Inv.put`, `Inv.remove`, `Inv.grown`),
also when the table comes to hold one key twice.

That happens, and the reason is visible in the two probe tests below: a lookup
(`findStop`) passes over a slot left by a removal, a put (`hashStop`) stops at
it. So a put of a key that sits *behind* such a slot lands in front of its
entry instead of on it. `NoStale m k` says that this is not so for `k`, and under
it a put is the put of a finite map (`map_reput_spec`).

Growth is the other place where the two tests could part, and does not: the new
table has no removed slots at all, so reinserting the old entries in slot order
is `upsert` on their list (`grown_entries`), whose last entry for a key wins.
-/
import Dragonboard.Map
import Mathlib.Data.List.GetD
import Mathlib.Data.List.Perm.Lattice

set_option autoImplicit false

namespace Dragonboard.QrtrMap

open Dragonboard.Probe

variable {α : Type}

/-! ## Slots and entries

The probe path of a key visits `slotAt 0`, `slotAt 1` and so on, and every slot is on it. Storing
to a slot changes the walk of the table in one place only. -/

/-- The slot `d` steps from the home of `key`. -/
def Map.slotAt (m : Map α) (key : UInt32) (d : ℕ) : ℕ := (key.toNat % m.size + d) % m.size

theorem Map.slotAt_lt (m : Map α) (key : UInt32) (d : ℕ) (h : 0 < m.size) :
    m.slotAt key d < m.size := Nat.mod_lt _ h

@[simp] theorem Map.slotAt_store (m : Map α) (i : ℕ) (e : MapEntry α) (key : UInt32) (d : ℕ) :
    (m.store i e).slotAt key d = m.slotAt key d := by
  simp [Map.slotAt]

/-- Every slot is at some offset from the home of a key. -/
theorem Map.exists_slotAt (m : Map α) (key : UInt32) {i : ℕ} (hi : i < m.size) :
    ∃ d < m.size, m.slotAt key d = i :=
  exists_offset (Nat.mod_lt _ (by omega)) hi

theorem Map.entry_of_le {m : Map α} {i : ℕ} (h : m.size ≤ i) : m.entry i = .null :=
  List.getD_eq_default _ _ h

theorem Map.lt_size_of_item {m : Map α} {i : ℕ} {k : UInt32} {v : α}
    (h : m.entry i = .item k v) : i < m.size := by
  by_contra hi
  rw [Map.entry_of_le (by omega)] at h
  exact absurd h (by simp)

theorem Map.mem_entries {m : Map α} {k : UInt32} {v : α} :
    (k, v) ∈ m.entries ↔ ∃ i, m.entry i = .item k v := by
  unfold Map.entries
  rw [List.mem_filterMap]
  constructor
  · rintro ⟨e, he, hlive⟩
    obtain ⟨i, hi, rfl⟩ := List.getElem_of_mem he
    refine ⟨i, ?_⟩
    rw [Map.entry, List.getD_eq_getElem _ _ hi]
    exact MapEntry.live_eq_some.mp hlive
  · rintro ⟨i, hi⟩
    have hlt : i < m.data.length := Map.lt_size_of_item hi
    rw [Map.entry, List.getD_eq_getElem _ _ hlt] at hi
    exact ⟨m.data[i], List.getElem_mem hlt, MapEntry.live_eq_some.mpr hi⟩

/-- Storing to one slot replaces that slot's contribution to the walk and
leaves what comes before and after it alone. -/
theorem Map.entries_store (m : Map α) (i : ℕ) (hi : i < m.size) :
    ∃ A B, m.entries = A ++ (m.entry i).live.toList ++ B ∧
      ∀ e, (m.store i e).entries = A ++ e.live.toList ++ B := by
  have hi' : i < m.data.length := hi
  have hcut : ∀ e : MapEntry α, [e].filterMap MapEntry.live = e.live.toList := by
    intro e
    cases h : e.live <;> simp [h]
  refine ⟨(m.data.take i).filterMap MapEntry.live,
    (m.data.drop (i + 1)).filterMap MapEntry.live, ?_, ?_⟩
  · have hsplit : m.data = m.data.take i ++ [m.data[i]] ++ m.data.drop (i + 1) := by simp
    have hentry : m.entry i = m.data[i] := List.getD_eq_getElem _ _ hi'
    rw [Map.entries, hentry, ← hcut, ← List.filterMap_append, ← List.filterMap_append, ← hsplit]
  · intro e
    rw [Map.entries, Map.store, List.set_eq_take_append_cons_drop, if_pos hi', ← hcut,
      ← List.filterMap_append, ← List.filterMap_append]
    simp

theorem Map.entries_length_le (m : Map α) : m.entries.length ≤ m.size :=
  List.length_filterMap_le _ _

/-- A table with fewer live items than slots has a slot that is not live. -/
theorem Map.exists_free {m : Map α} (h : m.entries.length < m.size) :
    ∃ i < m.size, (m.entry i).live = none := by
  by_contra hall
  have hlen : m.entries.length = m.data.length := by
    unfold Map.entries
    rw [List.filterMap_length_eq_length]
    intro e he
    obtain ⟨i, hi, rfl⟩ := List.getElem_of_mem he
    rw [Option.isSome_iff_ne_none]
    intro hnone
    refine hall ⟨i, hi, ?_⟩
    rw [Map.entry, List.getD_eq_getElem _ _ hi, hnone]
  unfold Map.size at h
  omega

/-! ## The two probes

`map_hash` and `map_find` go along the same path with different conditions to stop. Both are
instances of `probe`, and what they answer follows from its two rules. -/

/-- The entries `map_hash` stops at. -/
def hashStop (key : UInt32) : MapEntry α → Bool
  | .null => true
  | .deleted => true
  | .item k _ => k == key

/-- The entries `map_find` stops at. -/
def findStop (key : UInt32) : MapEntry α → Bool
  | .null => true
  | .deleted => false
  | .item k _ => k == key

/-- The count after `map_hash` has chosen slot `i`: one more when it was free. -/
def Map.claim (m : Map α) (i : ℕ) : Map α :=
  if (m.entry i).live.isSome then m else { m with count := m.count + 1 }

@[simp] theorem Map.claim_size (m : Map α) (i : ℕ) : (m.claim i).size = m.size := by
  unfold Map.claim
  split <;> rfl

@[simp] theorem Map.claim_data (m : Map α) (i : ℕ) : (m.claim i).data = m.data := by
  unfold Map.claim
  split <;> rfl

@[simp] theorem Map.claim_entry (m : Map α) (i j : ℕ) : (m.claim i).entry j = m.entry j := by
  simp [Map.entry]

@[simp] theorem Map.claim_entries (m : Map α) (i : ℕ) : (m.claim i).entries = m.entries := by
  simp [Map.entries]

theorem map_hash_loop_eq (m : Map α) (key : UInt32) (n idx : ℕ) :
    map_hash.loop m key n idx =
      match probe (fun i => hashStop key (m.entry i)) (fun j => (j + 1) % m.size) n idx with
      | none => .error (-2)
      | some i => .ok (m.claim i, i) := by
  induction n generalizing idx with
  | zero => rfl
  | succ n ih =>
    rw [map_hash.loop, probe]
    cases he : m.entry idx with
    | null => simp [hashStop, Map.claim, he]
    | deleted => simp [hashStop, Map.claim, he]
    | item k v =>
      by_cases hk : k = key
      · simp [hashStop, Map.claim, he, hk]
      · simp only [hashStop, hk, if_false, ih, beq_iff_eq]

theorem map_find_loop_eq (m : Map α) (key : UInt32) (n idx : ℕ) :
    map_find.loop m key n idx =
      (probe (fun i => findStop key (m.entry i)) (fun j => (j + 1) % m.size) n idx).filter
        fun i => (m.entry i).live.isSome := by
  induction n generalizing idx with
  | zero => rfl
  | succ n ih =>
    rw [map_find.loop, probe]
    cases he : m.entry idx with
    | null => simp [findStop, Option.filter_some, he]
    | deleted => simp only [findStop, ih, Bool.false_eq_true, if_false]
    | item k v =>
      by_cases hk : k = key
      · simp [findStop, Option.filter_some, he, hk]
      · simp only [findStop, hk, if_false, ih, beq_iff_eq]

/-- Slot `i` is where a put of `key` lands: the first slot of its probe path
that is free or already holds `key`. -/
def Lands (m : Map α) (key : UInt32) (i : ℕ) : Prop :=
  ∃ d < m.size, i = m.slotAt key d ∧ hashStop key (m.entry i) = true ∧
    ∀ d' < d, hashStop key (m.entry (m.slotAt key d')) = false

theorem Lands.lt_size {m : Map α} {key : UInt32} {i : ℕ} (h : Lands m key i) : i < m.size := by
  obtain ⟨d, hd, rfl, -, -⟩ := h
  exact m.slotAt_lt key d (by omega)

private theorem iterate_slotAt (m : Map α) (key : UInt32) (d : ℕ) (h : 0 < m.size) :
    (fun j => (j + 1) % m.size)^[d] (key.toNat % m.size) = m.slotAt key d :=
  iterate_succ_mod _ _ _ (Nat.mod_lt _ h)

/-- What a successful `map_hash` answers. -/
theorem map_hash_ok {m : Map α} {key : UInt32} {r : Map α × ℕ} (h : map_hash m key = .ok r) :
    r = (m.claim r.2, r.2) ∧ Lands m key r.2 := by
  unfold map_hash at h
  split at h
  · exact absurd h (by simp)
  rw [map_hash_loop_eq] at h
  split at h
  · exact absurd h (by simp)
  · rename_i i hi
    obtain rfl : (m.claim i, i) = r := by simpa using h
    refine ⟨rfl, ?_⟩
    rw [probe_eq_some_iff] at hi
    obtain ⟨d, hd, hid, hstop, hbefore⟩ := hi
    have hpos : 0 < m.size := by omega
    rw [iterate_slotAt m key d hpos] at hid
    refine ⟨d, hd, hid, hstop, fun d' hd' => ?_⟩
    have := hbefore d' hd'
    rwa [iterate_slotAt m key d' hpos] at this

/-- `map_hash` succeeds as soon as `count` leaves room and some slot can take
the key. -/
theorem map_hash_isOk {m : Map α} {key : UInt32} (hc : m.count ≠ m.size) {j : ℕ}
    (hj : j < m.size) (hstop : hashStop key (m.entry j) = true) :
    ∃ i, map_hash m key = .ok (m.claim i, i) := by
  unfold map_hash
  rw [if_neg hc, map_hash_loop_eq]
  split
  · rename_i hnone
    exfalso
    rw [probe_eq_none_iff] at hnone
    obtain ⟨d, hd, rfl⟩ := m.exists_slotAt key hj
    have := hnone d hd
    rw [iterate_slotAt m key d (by omega), hstop] at this
    exact absurd this (by decide)
  · rename_i i hi
    exact ⟨i, rfl⟩

/-! ## Well-formed tables

Three properties that later results need separately. `Inv` holds of all tables of the name server.
`Distinct` and `NoStale` fail after a key was put again behind a removed slot, and say where the
table is a finite map. -/

/-- The invariant of every table the operations produce. -/
structure Inv (m : Map α) : Prop where
  /-- `count` is the number of live slots -/
  count_eq : m.count = m.entries.length
  /-- no `NULL` slot lies between the home of a key and its entry -/
  chain : ∀ (k : UInt32) (v : α) (d : ℕ), d < m.size → m.entry (m.slotAt k d) = .item k v →
    ∀ d' < d, m.entry (m.slotAt k d') ≠ .null

/-- The keys of the live slots are pairwise distinct. -/
def Distinct (m : Map α) : Prop := (m.entries.map Prod.fst).Nodup

/-- No slot left by a removal lies between the home of `key` and its entry. -/
def NoStale (m : Map α) (key : UInt32) : Prop :=
  ∀ (v : α) (d : ℕ), d < m.size → m.entry (m.slotAt key d) = .item key v →
    ∀ d' < d, m.entry (m.slotAt key d') ≠ .deleted

theorem Inv.create : Inv (map_create : Map α) where
  count_eq := rfl
  chain := by
    intro k v d hd
    exact absurd hd (Nat.not_lt_zero d)

/-- `map_find` answers a live slot of the key it was asked for. -/
theorem map_find_some {m : Map α} {key : UInt32} {i : ℕ} (h : map_find m key = some i) :
    ∃ v, m.entry i = .item key v := by
  unfold map_find at h
  split at h
  · exact absurd h (by simp)
  rw [map_find_loop_eq, Option.filter_eq_some_iff] at h
  obtain ⟨hp, hlive⟩ := h
  rw [probe_eq_some_iff] at hp
  obtain ⟨d, -, -, hstop, -⟩ := hp
  cases he : m.entry i with
  | null => simp [he] at hlive
  | deleted => simp [he] at hlive
  | item k v =>
    rw [he] at hstop
    obtain rfl : k = key := by simpa [findStop] using hstop
    exact ⟨v, rfl⟩

/-- and on a well-formed table it misses no key that is there. -/
theorem map_find_none {m : Map α} (hm : Inv m) {key : UInt32} (h : map_find m key = none)
    (v : α) (i : ℕ) : m.entry i ≠ .item key v := by
  intro hi
  have hlt := Map.lt_size_of_item hi
  have hpos : 0 < m.size := by omega
  unfold map_find at h
  rw [if_neg (by omega), map_find_loop_eq, Option.filter_eq_none_iff] at h
  obtain ⟨d, hd, rfl⟩ := m.exists_slotAt key hlt
  have hstop : findStop key (m.entry (m.slotAt key d)) = true := by simp [hi, findStop]
  cases hp : probe (fun i => findStop key (m.entry i)) (fun j => (j + 1) % m.size) m.size
      (key.toNat % m.size) with
  | none =>
    rw [probe_eq_none_iff] at hp
    have := hp d hd
    rw [iterate_slotAt m key d hpos, hstop] at this
    exact absurd this (by decide)
  | some j =>
    have hdead := h j hp
    rw [probe_eq_some_iff] at hp
    obtain ⟨d', hd', hj, hstop', hbefore⟩ := hp
    rw [iterate_slotAt m key d' hpos] at hj
    -- the probe stops at or before the entry, and before it there is no NULL
    have hle : d' ≤ d := by
      by_contra hgt
      have := hbefore d (by omega)
      rw [iterate_slotAt m key d hpos, hstop] at this
      exact absurd this (by decide)
    have hnull : m.entry j = .null := by
      cases he : m.entry j with
      | null => rfl
      | deleted => rw [he] at hstop'; exact absurd hstop' (by simp [findStop])
      | item k w => rw [he] at hdead; exact absurd rfl hdead
    rcases Nat.lt_or_ge d' d with hlt' | hge
    · exact hm.chain key v d hd hi d' hlt' (hj ▸ hnull)
    · obtain rfl : d' = d := by omega
      rw [← hj, hnull] at hi
      exact absurd hi (by simp)

/-- `map_get` answers from the slot that `map_find` stops at. -/
theorem map_get_slot {m : Map α} {key : UInt32} {v : α} (h : map_get m key = some v) :
    ∃ i, map_find m key = some i ∧ m.entry i = .item key v := by
  unfold map_get at h
  cases hf : map_find m key with
  | none => rw [hf] at h; exact absurd h (by simp)
  | some i =>
    obtain ⟨w, hw⟩ := map_find_some hf
    rw [hf] at h
    obtain rfl : w = v := by simpa [hw] using h
    exact ⟨i, rfl, hw⟩

/-- On a well-formed table `map_get` answers an item of the key, and `NULL` only
when there is none. -/
theorem map_get_some_mem {m : Map α} {key : UInt32} {v : α} (h : map_get m key = some v) :
    (key, v) ∈ m.entries := by
  obtain ⟨i, -, hi⟩ := map_get_slot h
  exact Map.mem_entries.mpr ⟨i, hi⟩

theorem map_get_eq_none {m : Map α} (hm : Inv m) {key : UInt32} :
    map_get m key = none ↔ ∀ v, (key, v) ∉ m.entries := by
  constructor
  · intro h v hv
    obtain ⟨i, hi⟩ := Map.mem_entries.mp hv
    cases hf : map_find m key with
    | none => exact map_find_none hm hf v i hi
    | some j =>
      obtain ⟨w, hw⟩ := map_find_some hf
      unfold map_get at h
      rw [hf] at h
      simp [hw] at h
  · intro h
    by_contra hne
    obtain ⟨v, hv⟩ := Option.ne_none_iff_exists'.mp hne
    exact h v (map_get_some_mem hv)

theorem Distinct.eq_of_mem {m : Map α} (hd : Distinct m) {k : UInt32} {v w : α}
    (hv : (k, v) ∈ m.entries) (hw : (k, w) ∈ m.entries) : v = w := by
  have h := List.inj_on_of_nodup_map hd hv hw rfl
  exact (Prod.mk.injEq .. ▸ h).2

/-- A table without duplicates is the finite map of its entries. -/
theorem map_get_eq_some {m : Map α} (hm : Inv m) (hd : Distinct m) {key : UInt32} {v : α} :
    map_get m key = some v ↔ (key, v) ∈ m.entries := by
  refine ⟨map_get_some_mem, fun hv => ?_⟩
  cases hg : map_get m key with
  | none => exact absurd hv ((map_get_eq_none hm).mp hg v)
  | some w => rw [hd.eq_of_mem (map_get_some_mem hg) hv]

/-! ## Storing an item where it lands

A put is split into finding the slot and storing to it. On the list of entries the store is
`upsert`, up to the order of the entries, unless a stale slot comes first. -/

/-- The table after a put of `key` has landed at slot `i`. -/
def Map.putAt (m : Map α) (i : ℕ) (key : UInt32) (v : α) : Map α :=
  (m.claim i).store i (.item key v)

@[simp] theorem Map.putAt_size (m : Map α) (i : ℕ) (key : UInt32) (v : α) :
    (m.putAt i key v).size = m.size := by
  simp [Map.putAt]

theorem Map.putAt_entry (m : Map α) {i : ℕ} (hi : i < m.size) (j : ℕ) (key : UInt32) (v : α) :
    (m.putAt i key v).entry j = if j = i then .item key v else m.entry j := by
  rw [Map.putAt, Map.entry_store _ _ _ _ (by simpa using hi), Map.claim_entry]

/-- The walk after a put: the slot it landed on was free, or held the same key. -/
theorem Lands.entries {m : Map α} {key : UInt32} {i : ℕ} (h : Lands m key i) (v : α) :
    ∃ A B, (m.putAt i key v).entries = A ++ (key, v) :: B ∧
      ((m.entry i).live = none ∧ m.entries = A ++ B ∨
        ∃ w, m.entry i = .item key w ∧ m.entries = A ++ (key, w) :: B) := by
  obtain ⟨A, B, hm, hset⟩ := (m.claim i).entries_store i (by simpa using h.lt_size)
  rw [Map.claim_entries, Map.claim_entry] at hm
  refine ⟨A, B, by simpa [Map.putAt] using hset (.item key v), ?_⟩
  obtain ⟨d, -, -, hstop, -⟩ := h
  cases he : m.entry i with
  | null => exact .inl ⟨rfl, by simpa [he] using hm⟩
  | deleted => exact .inl ⟨rfl, by simpa [he] using hm⟩
  | item k w =>
    rw [he] at hstop
    obtain rfl : k = key := by simpa [hashStop] using hstop
    exact .inr ⟨w, rfl, by simpa [he] using hm⟩

/-- The entries of every other key are where they were. -/
theorem Lands.entries_filter {m : Map α} {key : UInt32} {i : ℕ} (h : Lands m key i) (v : α) :
    (m.putAt i key v).entries.filter (·.1 ≠ key) = m.entries.filter (·.1 ≠ key) := by
  obtain ⟨A, B, hput, ⟨-, hm⟩ | ⟨w, -, hm⟩⟩ := h.entries v <;> rw [hput, hm] <;> simp

/-- A put keeps the invariant, wherever it lands: the slots it passed over are
not `NULL`, and it turns no slot into `NULL`. -/
theorem Inv.put {m : Map α} (hm : Inv m) {key : UInt32} {i : ℕ} (h : Lands m key i) (v : α) :
    Inv (m.putAt i key v) where
  count_eq := by
    obtain ⟨A, B, hput, hcase⟩ := h.entries v
    have hcount : (m.putAt i key v).count = (m.claim i).count := rfl
    rw [hcount, hput]
    rcases hcase with ⟨hfree, hent⟩ | ⟨w, hw, hent⟩
    · have hc := hm.count_eq
      simp only [hent, List.length_append] at hc
      simp only [Map.claim, hfree, List.length_append, List.length_cons]
      simp only [Option.isSome_none, Bool.false_eq_true, if_false]
      omega
    · have hc := hm.count_eq
      simp only [hent, List.length_append, List.length_cons] at hc
      simp only [Map.claim, hw, MapEntry.live_item, Option.isSome_some, if_true,
        List.length_append, List.length_cons]
      omega
  chain := by
    intro k w d hd hkw d' hd'
    have hi := h.lt_size
    rw [Map.putAt_size] at hd
    have hslot : ∀ e, (m.putAt i key v).slotAt k e = m.slotAt k e := by
      intro e
      simp [Map.slotAt]
    rw [hslot, Map.putAt_entry m hi] at hkw
    rw [hslot, Map.putAt_entry m hi]
    by_cases hj : m.slotAt k d' = i
    · rw [if_pos hj]
      simp
    rw [if_neg hj]
    by_cases hk : m.slotAt k d = i
    · -- the new entry itself: what the probe passed over does not stop it
      rw [if_pos hk] at hkw
      obtain ⟨rfl, -⟩ : key = k ∧ v = w := by simpa using hkw
      obtain ⟨e, he, rfl, -, hbefore⟩ := h
      obtain rfl : d = e := offset_inj hd he hk
      intro hnull
      have := hbefore d' hd'
      rw [hnull] at this
      exact absurd this (by simp [hashStop])
    · rw [if_neg hk] at hkw
      exact hm.chain k w d hd hkw d' hd'

/-- Under `NoStale` a put lands on the entry of its key if there is one. -/
theorem Lands.eq_item {m : Map α} (hm : Inv m) {key : UInt32} (hs : NoStale m key) {i : ℕ}
    (h : Lands m key i) {w : α} (hw : (key, w) ∈ m.entries) : ∃ w', m.entry i = .item key w' := by
  obtain ⟨j, hj⟩ := Map.mem_entries.mp hw
  obtain ⟨e, he, rfl⟩ := m.exists_slotAt key (Map.lt_size_of_item hj)
  obtain ⟨d, hd, rfl, hstop, hbefore⟩ := h
  have hle : d ≤ e := by
    by_contra hgt
    have := hbefore e (by omega)
    rw [hj] at this
    exact absurd this (by simp [hashStop])
  rcases Nat.lt_or_ge d e with hlt | hge
  · have hnull := hm.chain key w e he hj d hlt
    have hdel := hs w e he hj d hlt
    cases hent : m.entry (m.slotAt key d) with
    | null => exact absurd hent hnull
    | deleted => exact absurd hent hdel
    | item k w' =>
      rw [hent] at hstop
      obtain rfl : k = key := by simpa [hashStop] using hstop
      exact ⟨w', rfl⟩
  · obtain rfl : d = e := by omega
    exact ⟨w, hj⟩

/-- The list-level put: the new pair replaces every pair of its key. -/
def upsert (l : List (UInt32 × α)) (e : UInt32 × α) : List (UInt32 × α) :=
  e :: l.filter (·.1 ≠ e.1)

theorem upsert_perm {l l' : List (UInt32 × α)} (h : l.Perm l') (e : UInt32 × α) :
    (upsert l e).Perm (upsert l' e) :=
  (h.filter _).cons e

private theorem filter_ne_self {l : List (UInt32 × α)} {k : UInt32} (h : ∀ v, (k, v) ∉ l) :
    l.filter (·.1 ≠ k) = l := by
  rw [List.filter_eq_self]
  rintro ⟨k', v⟩ hkv
  simp only [decide_eq_true_eq]
  rintro rfl
  exact h v hkv

/-- **A put without stale slots is `upsert`.** -/
theorem Lands.entries_upsert {m : Map α} (hm : Inv m) (hd : Distinct m) {key : UInt32}
    (hs : NoStale m key) {i : ℕ} (h : Lands m key i) (v : α) :
    (m.putAt i key v).entries.Perm (upsert m.entries (key, v)) := by
  obtain ⟨A, B, hput, ⟨hfree, hent⟩ | ⟨w, -, hent⟩⟩ := h.entries v
  · have hnone : ∀ w, (key, w) ∉ m.entries := by
      intro w hw
      obtain ⟨w', hw'⟩ := h.eq_item hm hs hw
      rw [hw'] at hfree
      exact absurd hfree (by simp)
    rw [hput, upsert, filter_ne_self hnone, hent]
    exact List.perm_middle
  · have hnodup : ((A ++ (key, w) :: B).map Prod.fst).Nodup := hent ▸ hd
    rw [List.map_append, List.map_cons, List.nodup_middle, List.nodup_cons] at hnodup
    have hAB : ∀ x, (key, x) ∉ A ++ B := by
      intro x hx
      refine hnodup.1 ?_
      rw [← List.map_append]
      exact List.mem_map.mpr ⟨(key, x), hx, rfl⟩
    rw [hput, upsert, hent]
    simp only [List.filter_append, List.filter_cons, ne_eq, not_true, decide_false,
      Bool.false_eq_true, if_false]
    rw [← List.filter_append, filter_ne_self hAB]
    exact List.perm_middle

theorem distinct_upsert {l : List (UInt32 × α)} (h : (l.map Prod.fst).Nodup) (e : UInt32 × α) :
    ((upsert l e).map Prod.fst).Nodup := by
  rw [upsert, List.map_cons, List.nodup_cons]
  refine ⟨?_, h.sublist (List.filter_sublist.map _)⟩
  intro hmem
  obtain ⟨x, hx, hk⟩ := List.mem_map.mp hmem
  simp only [List.mem_filter, decide_eq_true_eq] at hx
  exact hx.2 hk

theorem Distinct.of_perm {m : Map α} {l : List (UInt32 × α)} (h : m.entries.Perm l)
    (hl : (l.map Prod.fst).Nodup) : Distinct m :=
  (h.map Prod.fst).nodup_iff.mpr hl

/-! ## Growth

A growth puts the old entries one after the other into a new table. While it lasts the new table
has room for what is still to come, which is what `Roomy` counts. -/

/-- No slot was left by a removal. -/
def Clean (m : Map α) : Prop := ∀ i, m.entry i ≠ .deleted

theorem Clean.noStale {m : Map α} (h : Clean m) (key : UInt32) : NoStale m key :=
  fun _ _ _ _ _ _ => h _

/-- The put `map_rehash` makes of one old entry. -/
def put1 (t : Map α) (e : UInt32 × α) : Map α :=
  match map_hash t e.1 with
  | .ok (t', i) => t'.store i (.item e.1 e.2)
  | .error _ => t

/-- The table `map_rehash` builds. -/
def Map.grown (m : Map α) : Map α :=
  m.entries.foldl put1 { count := 0, data := List.replicate (m.size + 256) .null }

/-- A table in the middle of a rehash, with room for `n` more puts and one. -/
structure Roomy (t : Map α) (n : ℕ) : Prop where
  inv : Inv t
  clean : Clean t
  distinct : Distinct t
  room : t.count + n < t.size

/-- A well-formed table that is not full takes any key. -/
theorem Inv.lands {t : Map α} (ht : Inv t) (hc : t.count < t.size) (key : UInt32) :
    ∃ i, map_hash t key = .ok (t.claim i, i) ∧ Lands t key i := by
  obtain ⟨j, hj, hfree⟩ := Map.exists_free (ht.count_eq ▸ hc)
  have hstop : hashStop key (t.entry j) = true := by
    cases he : t.entry j with
    | null => rfl
    | deleted => rfl
    | item k v => rw [he] at hfree; exact absurd hfree (by simp)
  obtain ⟨i, hi⟩ := map_hash_isOk (by omega) hj hstop
  exact ⟨i, hi, (map_hash_ok hi).2⟩

/-- On a well-formed table `map_hash` fails only when the table is full. -/
theorem Inv.full_of_error {t : Map α} (ht : Inv t) {key : UInt32} {rc : ℤ}
    (h : map_hash t key = .error rc) : t.count = t.size := by
  have hle : t.count ≤ t.size := ht.count_eq ▸ t.entries_length_le
  by_contra hne
  obtain ⟨i, hi, -⟩ := ht.lands (by omega) key
  rw [hi] at h
  exact absurd h (by simp)

theorem put1_eq {t : Map α} {e : UInt32 × α} {i : ℕ}
    (h : map_hash t e.1 = .ok (t.claim i, i)) : put1 t e = t.putAt i e.1 e.2 := by
  rw [put1, h]
  rfl

theorem Map.count_claim_le (m : Map α) (i : ℕ) : (m.claim i).count ≤ m.count + 1 := by
  unfold Map.claim
  split
  · exact Nat.le_succ _
  · exact Nat.le_refl _

/-- One put of a rehash: the list of entries is `upsert`ed and room for one put
is used. -/
theorem Roomy.put1 {t : Map α} {n : ℕ} (ht : Roomy t (n + 1)) (e : UInt32 × α) :
    Roomy (put1 t e) n ∧ (QrtrMap.put1 t e).size = t.size ∧
      (QrtrMap.put1 t e).count ≤ t.count + 1 ∧
      (QrtrMap.put1 t e).entries.Perm (upsert t.entries e) := by
  have hroom := ht.room
  obtain ⟨i, hi, hl⟩ := ht.inv.lands (by omega) e.1
  rw [put1_eq hi]
  have hperm := hl.entries_upsert ht.inv ht.distinct (ht.clean.noStale e.1) e.2
  have hcount : (t.putAt i e.1 e.2).count ≤ t.count + 1 := t.count_claim_le i
  refine ⟨⟨ht.inv.put hl e.2, ?_, ?_, ?_⟩, t.putAt_size i e.1 e.2, hcount, hperm⟩
  · intro j
    rw [Map.putAt_entry t hl.lt_size]
    split
    · simp
    · exact ht.clean j
  · exact Distinct.of_perm hperm (distinct_upsert ht.distinct e)
  · rw [Map.putAt_size]
    omega

/-- All puts of a rehash. -/
theorem Roomy.foldl {t : Map α} {l : List (UInt32 × α)} {n : ℕ} (ht : Roomy t (l.length + n)) :
    Roomy (l.foldl QrtrMap.put1 t) n ∧ (l.foldl QrtrMap.put1 t).size = t.size ∧
      (l.foldl QrtrMap.put1 t).count ≤ t.count + l.length ∧
      (l.foldl QrtrMap.put1 t).entries.Perm (l.foldl upsert t.entries) := by
  induction l generalizing t with
  | nil => exact ⟨by simpa using ht, rfl, Nat.le_refl _, List.Perm.refl _⟩
  | cons e l ih =>
    have ht' : Roomy t (l.length + n + 1) := by
      rwa [List.length_cons, Nat.add_right_comm] at ht
    obtain ⟨h1, hs1, hc1, hp1⟩ := ht'.put1 e
    obtain ⟨h2, hs2, hc2, hp2⟩ := ih h1
    simp only [List.foldl_cons, List.length_cons]
    refine ⟨h2, hs2.trans hs1, by omega, hp2.trans ?_⟩
    clear ht ht' h1 hs1 hc1 ih h2 hs2 hc2 hp2
    -- `upsert` respects permutation, so the fold does
    generalize (QrtrMap.put1 t e).entries = a at hp1
    generalize upsert t.entries e = b at hp1
    induction l generalizing a b with
    | nil => exact hp1
    | cons x l ihl => exact ihl _ _ (upsert_perm hp1 x)

theorem entries_fresh (n : ℕ) :
    ({ count := 0, data := List.replicate n .null } : Map α).entries = [] := by
  rw [Map.entries, List.filterMap_eq_nil_iff]
  intro e he
  rw [List.eq_of_mem_replicate he]
  rfl

/-- The empty table of a rehash. -/
theorem roomy_fresh (n k : ℕ) (h : k < n) :
    Roomy ({ count := 0, data := List.replicate n .null } : Map α) k := by
  have hnull : ∀ i, ({ count := 0, data := List.replicate n .null } : Map α).entry i = .null := by
    intro i
    simp only [Map.entry, List.getD_eq_getElem?_getD, List.getElem?_replicate]
    split <;> rfl
  refine ⟨⟨by rw [entries_fresh]; rfl, ?_⟩, ?_, ?_, ?_⟩
  · intro k v d _ h
    rw [hnull] at h
    exact absurd h (by simp)
  · intro i
    rw [hnull]
    simp
  · rw [Distinct, entries_fresh]
    exact List.nodup_nil
  · simpa [Map.size] using h

/-- **What growth gives.** A well-formed table of 256 more slots without removed
slots and without duplicates, whose entries are the old ones, the last one of a
key in slot order winning. -/
theorem grown_spec (m : Map α) :
    Roomy m.grown 0 ∧ m.grown.size = m.size + 256 ∧ m.grown.count ≤ m.entries.length ∧
      m.grown.entries.Perm (m.entries.foldl upsert []) := by
  have hle := m.entries_length_le
  have hf : Roomy ({ count := 0, data := List.replicate (m.size + 256) .null } : Map α)
      (m.entries.length + 0) := roomy_fresh _ _ (by omega)
  obtain ⟨h1, h2, h3, h4⟩ := hf.foldl
  refine ⟨h1, h2.trans (by simp [Map.size]), by simpa [Map.grown] using h3, ?_⟩
  rwa [entries_fresh] at h4

/-! ## The recursion budget

With enough room the inner puts never grow the table, so the mutual recursion unrolls once. -/

theorem map_reputN_hash (calloc : ℕ → Bool) (n : ℕ) {m : Map α} {key : UInt32} {i : ℕ}
    (h : map_hash m key = .ok (m.claim i, i)) (v : α) :
    map_reputN calloc (n + 1) m key (some v) =
      some (m.putAt i key v, .ok ((m.entry i).live.map Prod.snd)) := by
  rw [map_reputN, h]
  simp [map_reput.store, Map.putAt]

/-- The puts inside `map_rehash` never ask for a rehash again, so its loop is
the fold of `put1`. -/
theorem map_rehash_loop_eq (calloc : ℕ → Bool) (n : ℕ) (l : List (MapEntry α)) (t : Map α)
    (ht : Roomy t (l.filterMap MapEntry.live).length) :
    map_rehash.loop (fun m k v => map_reputN calloc (n + 1) m k (some v)) l t =
      some ((l.filterMap MapEntry.live).foldl put1 t, .ok ()) := by
  induction l generalizing t with
  | nil => rfl
  | cons e l ih =>
    cases e with
    | null => exact ih t ht
    | deleted => exact ih t ht
    | item k v =>
      have ht' : Roomy t ((l.filterMap MapEntry.live).length + 1) := by simpa using ht
      obtain ⟨i, hi, -⟩ := ht'.inv.lands (by have := ht'.room; omega) k
      have hrest := ih (put1 t (k, v)) (ht'.put1 (k, v)).1
      rw [put1_eq (e := (k, v)) hi] at hrest
      rw [map_rehash.loop, map_reputN_hash calloc n hi v]
      simp only [hrest, List.filterMap_cons, MapEntry.live_item, List.foldl_cons,
        put1_eq (e := (k, v)) hi]

theorem map_rehashWith_eq (calloc : ℕ → Bool) (n : ℕ) (m : Map α) :
    map_rehashWith calloc (fun m k v => map_reputN calloc (n + 1) m k (some v)) m =
      some (if calloc (m.size + 256) then (m.grown, .ok ()) else (m, .error (-1))) := by
  have hle := m.entries_length_le
  rw [map_rehashWith]
  split
  · rw [map_rehash_loop_eq]
    · rfl
    · exact roomy_fresh _ _ (by rw [← Map.entries]; omega)
  · rfl

/-- **`map_reput` in three cases**, for every table, key and allocator: it finds
a slot in the table as it is; it grows the table once and finds one there; or
the allocation fails and nothing has changed. -/
theorem map_reput_cases (calloc : ℕ → Bool) (m : Map α) (key : UInt32) (v : α) :
    (∃ i, Lands m key i ∧ m.count ≠ m.size ∧
        map_reput calloc m key (some v) =
          (m.putAt i key v, .ok ((m.entry i).live.map Prod.snd))) ∨
      (∃ rc i, map_hash m key = .error rc ∧ calloc (m.size + 256) = true ∧ Lands m.grown key i ∧
        map_reput calloc m key (some v) =
          (m.grown.putAt i key v, .ok ((m.grown.entry i).live.map Prod.snd))) ∨
      (∃ rc, map_hash m key = .error rc ∧ calloc (m.size + 256) = false ∧
        map_reput calloc m key (some v) = (m, .error (-1))) := by
  cases hh : map_hash m key with
  | ok r =>
    obtain ⟨hr, hl⟩ := map_hash_ok hh
    have hc : m.count ≠ m.size := by
      intro hfull
      rw [map_hash, if_pos hfull] at hh
      exact absurd hh (by simp)
    refine .inl ⟨r.2, hl, hc, ?_⟩
    rw [map_reput, map_reputN_hash calloc 1 (hr ▸ hh) v]
    rfl
  | error rc =>
    refine .inr ?_
    rw [map_reput, map_reputN, hh]
    simp only [map_rehashWith_eq calloc 0 m]
    obtain ⟨hroomy, hsize, -, -⟩ := grown_spec m
    obtain ⟨i, hi, hl⟩ := hroomy.inv.lands (by have := hroomy.room; omega) key
    cases hc : calloc (m.size + 256) with
    | true =>
      refine .inl ⟨rc, i, rfl, rfl, hl, ?_⟩
      simp only [if_true, map_reputN_hash calloc 0 hi v, Option.getD_some]
    | false => exact .inr ⟨rc, rfl, rfl, by simp⟩

/-! ## Tables without duplicates are finite maps

`Distinct` makes the order of the entries irrelevant, and `map_get` a function of the set of them.
-/

/-- Reinserting pairs with distinct keys only reorders them. -/
theorem foldl_upsert_perm (l acc : List (UInt32 × α)) (hl : (l.map Prod.fst).Nodup)
    (hdisj : ∀ e ∈ l, ∀ v, (e.1, v) ∉ acc) : (l.foldl upsert acc).Perm (l ++ acc) := by
  induction l generalizing acc with
  | nil => exact List.Perm.refl _
  | cons e l ih =>
    rw [List.map_cons, List.nodup_cons] at hl
    have he : upsert acc e = e :: acc := by
      rw [upsert, filter_ne_self (hdisj e List.mem_cons_self)]
    rw [List.foldl_cons, he]
    refine (ih (e :: acc) hl.2 ?_).trans List.perm_middle
    intro x hx v hv
    rcases List.mem_cons.mp hv with hxe | hacc
    · refine hl.1 (List.mem_map.mpr ⟨x, hx, ?_⟩)
      rw [← hxe]
    · exact hdisj x (List.mem_cons_of_mem _ hx) v hacc

/-- Growing a table without duplicates keeps its entries. -/
theorem Distinct.grown_perm {m : Map α} (hd : Distinct m) : m.grown.entries.Perm m.entries := by
  have h := foldl_upsert_perm m.entries [] hd (fun _ _ _ => List.not_mem_nil)
  rw [List.append_nil] at h
  exact (grown_spec m).2.2.2.trans h

/-- Tables with the same entries answer `map_get` alike. -/
theorem map_get_congr {m m' : Map α} (hm : Inv m) (hd : Distinct m) (hm' : Inv m')
    (hd' : Distinct m') (h : m.entries.Perm m'.entries) (key : UInt32) :
    map_get m key = map_get m' key := by
  apply Option.ext
  intro v
  rw [map_get_eq_some hm hd, map_get_eq_some hm' hd', h.mem_iff]

/-- What a put without stale slots finds in the slot it lands on is what
`map_get` answered before it. -/
theorem Lands.old {m : Map α} (hm : Inv m) (hd : Distinct m) {key : UInt32} (hs : NoStale m key)
    {i : ℕ} (h : Lands m key i) : (m.entry i).live.map Prod.snd = map_get m key := by
  cases hg : map_get m key with
  | some w =>
    obtain ⟨w', hw'⟩ := h.eq_item hm hs (map_get_some_mem hg)
    rw [hw', hd.eq_of_mem (Map.mem_entries.mpr ⟨i, hw'⟩) (map_get_some_mem hg)]
    rfl
  | none =>
    obtain ⟨-, -, -, hstop, -⟩ := h
    cases he : m.entry i with
    | null => rfl
    | deleted => rfl
    | item k w =>
      rw [he] at hstop
      obtain rfl : k = key := by simpa [hashStop] using hstop
      exact absurd (Map.mem_entries.mpr ⟨i, he⟩) ((map_get_eq_none hm).mp hg w)

/-- **`map_reput` is the put of a finite map**, on a table without duplicates
and for a key without stale slots in front of it: the previous item of the key
comes back through `*old` and its place in the finite map is taken. Only a
failed allocation keeps it from doing so, and then the table is as before. -/
theorem map_reput_spec (calloc : ℕ → Bool) {m : Map α} (hm : Inv m) (hd : Distinct m)
    {key : UInt32} (hs : NoStale m key) (v : α) :
    (∃ m', map_reput calloc m key (some v) = (m', .ok (map_get m key)) ∧ Inv m' ∧ Distinct m' ∧
        m'.entries.Perm (upsert m.entries (key, v))) ∨
      (calloc (m.size + 256) = false ∧ map_reput calloc m key (some v) = (m, .error (-1))) := by
  rcases map_reput_cases calloc m key v with ⟨i, hl, -, hr⟩ | ⟨-, i, -, -, hl, hr⟩ | ⟨-, -, hc, hr⟩
  · have hp := hl.entries_upsert hm hd hs v
    rw [hl.old hm hd hs] at hr
    exact .inl ⟨_, hr, hm.put hl v, .of_perm hp (distinct_upsert hd _), hp⟩
  · obtain ⟨hg, -, -, -⟩ := grown_spec m
    have hgs := hg.clean.noStale key
    have hp := hl.entries_upsert hg.inv hg.distinct hgs v
    rw [hl.old hg.inv hg.distinct hgs,
      map_get_congr hg.inv hg.distinct hm hd hd.grown_perm] at hr
    refine .inl ⟨_, hr, hg.inv.put hl v, .of_perm hp (distinct_upsert hg.distinct _), ?_⟩
    exact hp.trans (upsert_perm hd.grown_perm _)
  · exact .inr ⟨hc, hr⟩

/-! ## The size of a table

The source keeps a slot number in an `int` (`idx`, `o_size`), and an `unsigned` of `2^31` or more
does not fit in one. A table gets larger in `map_rehash` only, by 256 slots, and `map_reput` asks
for that only when every slot is counted: a table that is not full stays as large as it is. -/

/-- A growth ends below `2^31` slots. -/
def Map.MayGrow (m : Map α) : Prop := m.size + 256 < 2 ^ 31

/-- A put keeps a table below `2^31` slots if that is so whenever it grows the table. -/
theorem map_reput_size_lt (calloc : ℕ → Bool) {m : Map α} (key : UInt32)
    (hfull : ∀ rc, map_hash m key = .error rc → m.count = m.size) (hlt : m.size < 2 ^ 31)
    (hgrow : m.count = m.size → m.MayGrow) (v : α) :
    (map_reput calloc m key (some v)).1.size < 2 ^ 31 := by
  rcases map_reput_cases calloc m key v with ⟨i, -, -, hr⟩ | ⟨rc, i, herr, -, -, hr⟩ | ⟨-, -, -, hr⟩
  · rw [hr, Map.putAt_size]
    exact hlt
  · obtain ⟨-, hsize, -, -⟩ := grown_spec m
    rw [hr, Map.putAt_size, hsize]
    exact hgrow (hfull rc herr)
  · rw [hr]
    exact hlt

/-! ## Removal

A removal marks the slot as `deleted` and leaves the probe paths through it intact. -/

theorem map_remove_size (m : Map α) (key : UInt32) : (map_remove m key).1.size = m.size := by
  unfold map_remove
  split
  · rfl
  · exact m.size_store _ _

/-- `map_remove` takes out the entry `map_get` would have answered, and keeps
the invariant: the slot does not become `NULL`. -/
theorem map_remove_some {m : Map α} (hm : Inv m) {key : UInt32} {v : α}
    (h : map_get m key = some v) :
    ∃ m' A B, map_remove m key = (m', 0) ∧ Inv m' ∧ m'.size = m.size ∧
      m.entries = A ++ (key, v) :: B ∧ m'.entries = A ++ B := by
  obtain ⟨i, hf, hw⟩ := map_get_slot h
  have hi := Map.lt_size_of_item hw
  obtain ⟨A, B, hent, hset⟩ := m.entries_store i hi
  have hent' : m.entries = A ++ (key, v) :: B := by simpa [hw] using hent
  have hdel : (m.store i .deleted).entries = A ++ B := by simpa using hset .deleted
  refine ⟨{ m.store i .deleted with count := m.count - 1 }, A, B, ?_, ⟨?_, ?_⟩, ?_, hent', hdel⟩
  · rw [map_remove, hf]
  · have hc := hm.count_eq
    rw [hent', List.length_append, List.length_cons] at hc
    change m.count - 1 = (m.store i .deleted).entries.length
    rw [hdel, List.length_append]
    omega
  · intro k x d hd hkx d' hd'
    change (m.store i .deleted).entry ((m.store i .deleted).slotAt k d) = .item k x at hkx
    change (m.store i .deleted).entry ((m.store i .deleted).slotAt k d') ≠ .null
    rw [Map.slotAt_store, Map.entry_store m i _ _ hi] at hkx ⊢
    split at hkx
    · exact absurd hkx (by simp)
    · split
      · simp
      · exact hm.chain k x d (by simpa [Map.size, Map.store] using hd) hkx d' hd'
  · exact m.size_store i .deleted

theorem map_remove_none {m : Map α} {key : UInt32} (h : map_get m key = none) :
  map_remove m key = (m, 1) := by
  unfold map_get at h
  cases hf : map_find m key with
  | none => rw [map_remove, hf]
  | some i =>
  obtain ⟨w, hw⟩ := map_find_some hf
  rw [hf] at h
  simp [hw] at h

/-- On a table without duplicates `map_remove` is the removal of a finite map. -/
theorem map_remove_spec {m : Map α} (hm : Inv m) (hd : Distinct m) (key : UInt32) :
    Inv (map_remove m key).1 ∧ Distinct (map_remove m key).1 ∧
      (map_remove m key).1.entries = m.entries.filter (·.1 ≠ key) := by
  cases hg : map_get m key with
  | none =>
    rw [map_remove_none hg, filter_ne_self ((map_get_eq_none hm).mp hg)]
    exact ⟨hm, hd, rfl⟩
  | some v =>
    obtain ⟨m', A, B, hr, hm', -, hent, hent'⟩ := map_remove_some hm hg
    rw [hr]
    have hnodup : ((A ++ (key, v) :: B).map Prod.fst).Nodup := hent ▸ hd
    rw [List.map_append, List.map_cons, List.nodup_middle, List.nodup_cons,
      ← List.map_append] at hnodup
    refine ⟨hm', by rw [Distinct, hent']; exact hnodup.2, ?_⟩
    have hAB : ∀ x, (key, x) ∉ A ++ B := by
      intro x hx
      exact hnodup.1 (List.mem_map.mpr ⟨(key, x), hx, rfl⟩)
    rw [hent', hent]
    simp only [List.filter_append, List.filter_cons, ne_eq, not_true, decide_false,
      Bool.false_eq_true, if_false]
    rw [← List.filter_append, filter_ne_self hAB]

/-! ## Walking a table

`map_for_each` reads the table anew in every round. As long as the body leaves it alone it is a
fold over the entries; walks whose body deletes are the subject of `NsSweep`. -/

/-- `map_iter_from` answers the first live slot at or after its start. -/
theorem map_iter_from_spec (m : Map α) (i : ℕ) :
    match map_iter_from m i with
    | none => (m.data.drop i).filterMap MapEntry.live = []
    | some j => i ≤ j ∧ ∃ k v, m.entry j = .item k v ∧
        (m.data.drop i).filterMap MapEntry.live =
          (k, v) :: (m.data.drop (j + 1)).filterMap MapEntry.live := by
  unfold map_iter_from
  -- by induction on the slots that are left
  generalize hn : m.size - i = n
  induction n generalizing i with
  | zero =>
    rw [map_iter_from.loop]
    simp only
    rw [List.drop_eq_nil_of_le (by unfold Map.size at hn; omega), List.filterMap_nil]
  | succ n ih =>
    have hi : i < m.data.length := by unfold Map.size at hn; omega
    have hdrop : m.data.drop i = m.data[i] :: m.data.drop (i + 1) := List.drop_eq_getElem_cons hi
    have hentry : m.entry i = m.data[i] := List.getD_eq_getElem _ _ hi
    rw [map_iter_from.loop]
    cases he : m.entry i with
    | item k v =>
      simp only [MapEntry.live_item, Option.isSome_some, if_true]
      refine ⟨Nat.le_refl i, k, v, he, ?_⟩
      rw [hdrop, ← hentry, he]
      rfl
    | null | deleted =>
      have := ih (i + 1) (by omega)
      have hskip : (m.data.drop i).filterMap MapEntry.live =
          (m.data.drop (i + 1)).filterMap MapEntry.live := by
        rw [hdrop, ← hentry, he]
        rfl
      simp only [MapEntry.live_null, MapEntry.live_deleted, Option.isSome_none,
        Bool.false_eq_true, if_false, hskip]
      split at this
      · exact this
      · exact ⟨by omega, this.2⟩

/-- A walk whose body leaves the table alone visits the entries in slot order,
each once. -/
theorem map_for_each_eq_foldl {σ : Type} (table : σ → Map α) (body : σ → UInt32 × α → σ)
    (h : ∀ s e, table (body s e) = table s) (s : σ) :
    map_for_each table body s = (table s).entries.foldl body s := by
  have key : ∀ (n i : ℕ) (s : σ), (table s).size ≤ i + n →
      map_for_each.loop table body n (map_iter_from (table s) i) s =
        (((table s).data.drop i).filterMap MapEntry.live).foldl body s := by
    intro n
    induction n with
    | zero =>
      intro i s hn
      rw [List.drop_eq_nil_of_le (by unfold Map.size at hn; omega)]
      rfl
    | succ n ih =>
      intro i s hn
      have hspec := map_iter_from_spec (table s) i
      cases hit : map_iter_from (table s) i with
      | none =>
        rw [hit] at hspec
        simp only at hspec
        rw [hspec]
        rfl
      | some j =>
        rw [hit] at hspec
        obtain ⟨hij, k, v, hentry, hrest⟩ := hspec
        have hnext := ih (j + 1) (body s (k, v)) (by rw [h]; omega)
        rw [h] at hnext
        rw [hrest, List.foldl_cons, ← hnext, map_for_each.loop, hentry]
        simp only [map_iter_next, h]
  have := key (table s).size 0 s (by omega)
  rwa [List.drop_zero] at this

end Dragonboard.QrtrMap
