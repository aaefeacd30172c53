/-
Deleting servers while walking over them.

`ctrl_cmd_bye` walks the table of a node from slot to slot and calls `server_del` for the port of
each record it meets. `server_del` does not know the slot: it looks for the hash of the port from its
home slot on, around the end of the table if need be, and turns the slot it stops at into a
tombstone. If keys are distinct and no key is cut off from its home slot, it stops at
the slot the walk is at. So one round kills one slot, all slots the walk has passed are dead, and those
ahead of it are as they were.
-/
import Dragonboard.NsRegistry

set_option autoImplicit false

namespace Dragonboard.Ns

open Dragonboard.MapApi
open Dragonboard.QrtrMap (Map MapEntry Inv Distinct)

/-! ## Live slots

A walk of a table goes from one live slot to the next. The slots ahead of it are what it has still
to visit. -/

/-- The live slots of a table from a slot on. -/
def liveFrom (m : Map Server) (i : ℕ) : List ℕ :=
  (List.range' i (m.size - i)).filter fun j => (m.entry j).live.isSome

theorem mem_liveFrom {m : Map Server} {i j : ℕ} :
    j ∈ liveFrom m i ↔ i ≤ j ∧ ∃ k srv, m.entry j = .item k srv := by
  rw [liveFrom, List.mem_filter, List.mem_range'_1]
  constructor
  · rintro ⟨⟨hij, -⟩, hlive⟩
    obtain ⟨⟨k, srv⟩, he⟩ := Option.isSome_iff_exists.mp hlive
    exact ⟨hij, k, srv, MapEntry.live_eq_some.mp he⟩
  · rintro ⟨hij, k, srv, he⟩
    have hlt := QrtrMap.Map.lt_size_of_item he
    exact ⟨⟨hij, by omega⟩, by rw [he]; rfl⟩

/-- A table is empty if its slots are dead, those before a slot and those from it on. -/
theorem entries_nil {m : Map Server} {i : ℕ} (hbefore : ∀ l < i, (m.entry l).live = none)
    (hfrom : liveFrom m i = []) : m.entries = [] := by
  refine List.eq_nil_iff_forall_not_mem.mpr fun ⟨k, srv⟩ hmem => ?_
  obtain ⟨l, hl⟩ := QrtrMap.Map.mem_entries.mp hmem
  rcases Nat.lt_or_ge l i with hlt | hge
  · have hdead := hbefore l hlt
    rw [hl] at hdead
    cases hdead
  · have hlive : l ∈ liveFrom m i := mem_liveFrom.mpr ⟨hge, k, srv, hl⟩
    rw [hfrom] at hlive
    exact absurd hlive List.not_mem_nil

/-- The scan for the next live slot, with `n` slots left. -/
theorem liveFrom_scan (m : Map Server) (n i : ℕ) (hn : n = m.size - i) :
    (QrtrMap.map_iter_from.loop m n i = none ∧ liveFrom m i = []) ∨
      ∃ j k srv, QrtrMap.map_iter_from.loop m n i = some j ∧ m.entry j = .item k srv ∧
        liveFrom m i = j :: liveFrom m (j + 1) := by
  induction n generalizing i with
  | zero =>
    left
    rw [liveFrom, ← hn]
    exact ⟨rfl, rfl⟩
  | succ n ih =>
    have hsucc : m.size - i = m.size - (i + 1) + 1 := by omega
    have hrange : List.range' i (m.size - i) = i :: List.range' (i + 1) (m.size - (i + 1)) := by
      rw [hsucc, List.range'_succ]
    rw [QrtrMap.map_iter_from.loop, liveFrom, hrange, List.filter_cons]
    -- the scan stops at an item and skips a null or a tombstone, as the filter does
    cases he : m.entry i with
    | item k srv => exact .inr ⟨i, k, srv, rfl, he, rfl⟩
    | null => exact ih (i + 1) (by omega)
    | deleted => exact ih (i + 1) (by omega)

/-- A walk goes from a live slot to the next. -/
theorem liveFrom_iter (m : Map Server) (i : ℕ) :
    (MapApi.map_iter_from m i = none ∧ liveFrom m i = []) ∨
      ∃ j k srv, MapApi.map_iter_from m i = some (j, srv) ∧ m.entry j = .item k srv ∧
        liveFrom m i = j :: liveFrom m (j + 1) := by
  simp only [StructMap.map_iter_from, QrtrMap.map_iter_from]
  rcases liveFrom_scan m (m.size - i) i rfl with ⟨hnone, hlive⟩ | ⟨j, k, srv, hsome, he, hlive⟩
  · left
    rw [hnone]
    exact ⟨rfl, hlive⟩
  · right
    refine ⟨j, k, srv, ?_, he, hlive⟩
    rw [hsome, Option.bind_some, he]
    rfl

/-! ## The walk

`ctrl_cmd_bye` deletes the record it is at and goes on from the same slot number. The deletion
goes by hash and probing, and it must find this record and not another one: that is what the
hypotheses on the table give. -/

/-- One round of the walk: the slot it is at, the record there, and the table before and after. -/
structure Visit where
  slot : ℕ
  srv : Server
  before : Map Server
  after : Map Server

/-- The loop of `ctrl_cmd_bye`, with a record of its rounds. -/
def ctrl_cmd_bye.visits (sys : Sys) (local_node : UInt32) (node : ℕ) :
    ℕ → ℕ → Context Map → List Visit × Context Map
  | 0, _, s => ([], s)
  | n + 1, i, s =>
    match map_iter_from (s.services node) i with
    | none => ([], s)
    | some (j, srv) =>
      let s' := (server_del sys local_node s node srv.port).2
      let r := ctrl_cmd_bye.visits sys local_node node n (j + 1) s'
      (⟨j, srv, s.services node, s'.services node⟩ :: r.1, r.2)

section Walk

variable (sys : Sys) (local_node : UInt32) {node : ℕ}

/-- The record of the rounds does not change them. -/
theorem ctrl_cmd_bye.visits_eq (node n i : ℕ) (s : Context Map) :
    (ctrl_cmd_bye.visits sys local_node node n i s).2 =
      map_for_each.loop (fun s => s.services node)
        (fun s srv => (server_del sys local_node s node srv.port).2) n i s := by
  induction n generalizing i s with
  | zero => rfl
  | succ n ih =>
    rw [ctrl_cmd_bye.visits, map_for_each.loop]
    cases map_iter_from (s.services node) i with
    | none => rfl
    | some r => exact ih (r.1 + 1) _

/-- A table that can be walked over: keys are distinct, they are the hashes of the ports of their records,
and none is cut off from its home slot. -/
structure Walkable (m : Map Server) : Prop where
  inv : Inv m
  distinct : Distinct m
  keyed : ∀ e ∈ m.entries, e.1 = hash_u32 e.2.port

theorem Walkable.key {m : Map Server} (h : Walkable m) {j : ℕ} {k : UInt32} {srv : Server}
    (hj : m.entry j = .item k srv) : k = hash_u32 srv.port :=
  h.keyed _ (QrtrMap.Map.mem_entries.mpr ⟨j, hj⟩)

/-- The slot of a record struck out. -/
def strikeSlot (m : Map Server) (j : ℕ) : Map Server := { m.store j .deleted with count := m.count - 1 }

theorem strikeSlot_entry {m : Map Server} {j : ℕ} (hj : j < m.size) (l : ℕ) :
    (strikeSlot m j).entry l = if l = j then .deleted else m.entry l :=
  m.entry_store j l .deleted hj

/-- The slots ahead are as they were. -/
theorem liveFrom_strikeSlot {m : Map Server} {j : ℕ} (hj : j < m.size) :
    liveFrom (strikeSlot m j) (j + 1) = liveFrom m (j + 1) := by
  have hsize : (strikeSlot m j).size = m.size := m.size_store j .deleted
  rw [liveFrom, liveFrom, hsize]
  refine List.filter_congr fun l hl => ?_
  have hlt : j + 1 ≤ l := (List.mem_range'_1.mp hl).1
  -- the slot that was struck out lies before these
  rw [strikeSlot_entry hj, if_neg (by omega)]

/-- The slots behind the walk are dead, after one more round. -/
theorem strikeSlot_dead {m : Map Server} {i j : ℕ} (hj : j < m.size)
    (hbefore : ∀ l < i, (m.entry l).live = none) (hnext : liveFrom m i = j :: liveFrom m (j + 1)) :
    ∀ l < j + 1, ((strikeSlot m j).entry l).live = none := by
  intro l hl
  rw [strikeSlot_entry hj]
  by_cases hlj : l = j
  · rw [if_pos hlj]
    rfl
  rw [if_neg hlj]
  rcases Nat.lt_or_ge l i with hlt | hge
  · exact hbefore l hlt
  · -- between the two slots of the walk there is no live one
    rw [Option.eq_none_iff_forall_ne_some]
    rintro ⟨k, srv⟩ hlive
    have hmem : l ∈ liveFrom m i := mem_liveFrom.mpr ⟨hge, k, srv, MapEntry.live_eq_some.mp hlive⟩
    rw [hnext] at hmem
    rcases List.mem_cons.mp hmem with h | h
    · exact hlj h
    · have hle := (mem_liveFrom.mp h).1
      omega

theorem Walkable.remove {m : Map Server} (h : Walkable m) {j : ℕ} {k : UInt32} {srv : Server}
    (hj : m.entry j = .item k srv) :
    (QrtrMap.map_remove m (hash_u32 srv.port)).1 = strikeSlot m j ∧ Walkable (strikeSlot m j) := by
  have hremove : (QrtrMap.map_remove m (hash_u32 srv.port)).1 = strikeSlot m j := by
    rw [← h.key hj, QrtrMap.map_remove_slot h.inv h.distinct hj]
    rfl
  obtain ⟨hinv, hdistinct, hentries⟩ :=
    QrtrMap.map_remove_spec h.inv h.distinct (hash_u32 srv.port)
  rw [hremove] at hinv hdistinct hentries
  refine ⟨hremove, hinv, hdistinct, fun e he => ?_⟩
  rw [hentries] at he
  exact h.keyed e (List.mem_filter.mp he).1

/-- **One round.** `server_del` strikes out the slot the walk is at. -/
theorem server_del_slot {s : Context Map} (hnode : node < s.heap.length)
    (h : Walkable (s.services node)) {j : ℕ} {k : UInt32} {srv : Server}
    (hj : (s.services node).entry j = .item k srv) :
    (server_del sys local_node s node srv.port).2.services node = strikeSlot (s.services node) j ∧
      (server_del sys local_node s node srv.port).2.heap.length = s.heap.length := by
  have hget : map_get (s.services node) (hash_u32 srv.port) = some srv := by
    rw [← h.key hj]
    exact (QrtrMap.map_get_eq_some h.inv h.distinct).mpr (QrtrMap.Map.mem_entries.mpr ⟨j, hj⟩)
  have hheap := (server_del_quiet sys local_node s node srv.port).heap
  rw [hget, Option.isSome_some, if_pos rfl] at hheap
  constructor
  · rw [Context.services, hheap, ← (h.remove hj).1]
    simp only [Context.setServices, List.getElem?_modify, if_true]
    rw [List.getElem?_eq_getElem hnode]
    rfl
  · rw [hheap, Context.setServices, List.length_modify]

/-- What the walk does from slot `i` on, if everything before it is dead. -/
theorem ctrl_cmd_bye.visits_spec (n i : ℕ) {s : Context Map} (hnode : node < s.heap.length)
    (h : Walkable (s.services node)) (hn : (s.services node).size ≤ i + n)
    (hbefore : ∀ l < i, ((s.services node).entry l).live = none) :
    (ctrl_cmd_bye.visits sys local_node node n i s).1.map Visit.slot = liveFrom (s.services node) i ∧
    (∀ v ∈ (ctrl_cmd_bye.visits sys local_node node n i s).1,
      (s.services node).entry v.slot = .item (hash_u32 v.srv.port) v.srv ∧
      v.before.entry v.slot = .item (hash_u32 v.srv.port) v.srv ∧
      v.after = strikeSlot v.before v.slot) ∧
    Walkable ((ctrl_cmd_bye.visits sys local_node node n i s).2.services node) ∧
    ((ctrl_cmd_bye.visits sys local_node node n i s).2.services node).entries = [] := by
  -- the rounds left cover the slots left, and everything behind the walk is dead
  induction n generalizing i s with
  | zero =>
    have hnone : liveFrom (s.services node) i = [] := by
      rw [liveFrom, Nat.sub_eq_zero_of_le (by omega)]
      rfl
    exact ⟨hnone.symm, fun _ hv => absurd hv List.not_mem_nil, h, entries_nil hbefore hnone⟩
  | succ n ih =>
    rw [ctrl_cmd_bye.visits]
    rcases liveFrom_iter (s.services node) i with ⟨hr, hnone⟩ | ⟨j, k, srv, hr, hj, hnext⟩
    · rw [hr]
      exact ⟨hnone.symm, fun _ hv => absurd hv List.not_mem_nil, h, entries_nil hbefore hnone⟩
    · rw [hr]
      have hlt := QrtrMap.Map.lt_size_of_item hj
      obtain ⟨hslot, hlength⟩ := server_del_slot sys local_node hnode h hj
      have hkey := h.key hj
      simp only
      -- from here on it only matters that this slot was struck out
      generalize (server_del sys local_node s node srv.port).2 = s' at hslot hlength
      have hij : i ≤ j := (mem_liveFrom.mp (hnext ▸ List.mem_cons_self)).1
      have hsize : (s'.services node).size ≤ j + 1 + n := by
        rw [hslot]
        have hsame : (strikeSlot (s.services node) j).size = (s.services node).size :=
          (s.services node).size_store j .deleted
        omega
      obtain ⟨hslots, hvisits, hwalkable, hempty⟩ := ih (j + 1) (hlength ▸ hnode)
        (hslot ▸ (h.remove hj).2) hsize (hslot ▸ strikeSlot_dead hlt hbefore hnext)
      refine ⟨?_, fun v hv => ?_, hwalkable, hempty⟩
      · rw [List.map_cons, hslots, hslot, liveFrom_strikeSlot hlt, hnext]
      · rcases List.mem_cons.mp hv with rfl | hv
        · subst hkey
          exact ⟨hj, hj, hslot⟩
        · -- a later round is at a slot that was live before this one
          obtain ⟨hentry, hround⟩ := hvisits v hv
          refine ⟨?_, hround⟩
          rw [hslot, strikeSlot_entry hlt] at hentry
          by_cases hvj : v.slot = j
          · rw [if_pos hvj] at hentry
            cases hentry
          · rwa [if_neg hvj] at hentry

end Walk

/-- **Deleting while walking is complete.** Over every table that can be walked over, the loop of
`ctrl_cmd_bye` visits every live slot, once and in order. In each round it strikes out the slot it
visits and nothing else, and in the end no entry is left and none is counted. -/
theorem bye_walk_complete (sys : Sys) (local_node : UInt32) (s : Context Map) (node : ℕ)
    (hnode : node < s.heap.length) (h : Walkable (s.services node)) (visits : List Visit)
    (s' : Context Map)
    (hwalk : ctrl_cmd_bye.visits sys local_node node (s.services node).size 0 s = (visits, s')) :
    map_for_each (fun s => s.services node)
        (fun s srv => (server_del sys local_node s node srv.port).2) s = s' ∧
      visits.map Visit.slot =
        (List.range (s.services node).size).filter (fun j => ((s.services node).entry j).live.isSome) ∧
      (∀ v ∈ visits, (s.services node).entry v.slot = .item (hash_u32 v.srv.port) v.srv ∧
        v.before.entry v.slot = .item (hash_u32 v.srv.port) v.srv ∧
        v.after = strikeSlot v.before v.slot) ∧
      (s'.services node).entries = [] ∧ (s'.services node).count = 0 := by
  have hloop := ctrl_cmd_bye.visits_eq sys local_node node (s.services node).size 0 s
  obtain ⟨hslots, hvisits, hwalkable, hempty⟩ := ctrl_cmd_bye.visits_spec sys local_node
    (s.services node).size 0 hnode h (Nat.le_add_left _ _) fun l hl => absurd hl (Nat.not_lt_zero l)
  rw [hwalk] at hloop hslots hvisits hwalkable hempty
  refine ⟨hloop.symm, ?_, hvisits, hempty, ?_⟩
  · rw [hslots, liveFrom, Nat.sub_zero, List.range_eq_range']
  · rw [hwalkable.inv.count_eq, hempty]
    rfl

/-- Two servers of node 1, in two slots of its table. -/
theorem bye_walk_complete_two :
    ((map_for_each (fun s => s.services 0) (fun s srv => (server_del allWell 1 s 0 srv.port).2)
      (main.run allWell 1 [packet ⟨1, 10⟩ ⟨QrtrType.new_server.code, 5, 6, 1, 10⟩,
        packet ⟨1, 11⟩ ⟨QrtrType.new_server.code, 7, 8, 1, 11⟩] : Context Map)).services 0).count = 0 := by
  generalize hs : (main.run allWell 1 [packet ⟨1, 10⟩ ⟨QrtrType.new_server.code, 5, 6, 1, 10⟩,
        packet ⟨1, 11⟩ ⟨QrtrType.new_server.code, 7, 8, 1, 11⟩] : Context Map) = s
  have hnode : s.registered 1 = some 0 := by
    rw [← hs]
    decide +kernel
  have hlength : 0 < s.heap.length := by
    rw [← hs]
    decide +kernel
  have hwalkable : Walkable (s.services 0) := by
    refine ⟨?_, ?_, ?_⟩
    · rw [Context.services_eq hnode, ← hs]
      exact main_run_inv allWell 1 _ 1
    · rw [Distinct, ← hs]
      decide +kernel
    · rw [← hs]
      decide +kernel
  cases hwalk : ctrl_cmd_bye.visits allWell 1 0 (s.services 0).size 0 s with
  | mk visits s' =>
    obtain ⟨hend, -, -, -, hcount⟩ :=
      bye_walk_complete allWell 1 s 0 hlength hwalkable visits s' hwalk
    rw [hend]
    exact hcount

end Dragonboard.Ns
