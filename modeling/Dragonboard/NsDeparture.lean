/-
Departures: what a BYE of a node and a DEL_CLIENT of a client leave behind.

Both handlers take records out of the table they walk, tell the observers of each, and then tell
the services that are left on the local node. On finite maps the state after
them and the list of packets they send can be written down (`Nodes.ctrl_cmd_bye`,
`Nodes.ctrl_cmd_del_client`).

`ctrl_cmd_bye` creates the node it is going to empty, and gives up if it cannot. Then the
local services are not told either.
-/
import Dragonboard.NsMachine

set_option autoImplicit false

namespace Dragonboard.Ns

open Dragonboard.Memory Dragonboard.MapApi

/-! ## Walking a table and emptying it

On finite maps the walk of `ctrl_cmd_bye` is a fold over the records that were there when it
began, although each round takes one of them out. -/

theorem items_eq_pairs {α : Type} (m : FinMap α) : items m = m.pairs := FinMap.filter_from_zero _

/-- A map without items is the new one. -/
theorem eq_create_of_items {α : Type} {m : FinMap α} (h : items m = []) : m = map_create := by
  obtain ⟨pairs, sorted⟩ := m
  rw [items_eq_pairs] at h
  simp only at h
  subst h
  rfl

/-- The records of a table stand under the keys of their ports. -/
def Keyed (m : FinMap Server) : Prop := ∀ e ∈ items m, e.1 = hash_u32 e.2.port

theorem Keyed.get {m : FinMap Server} (h : Keyed m) {e : UInt32 × Server} (he : e ∈ items m) :
    map_get m (hash_u32 e.2.port) = some e.2 := by
  rw [← h e he]
  exact (mem_items (M := FinMap) trivial).mp he

theorem Keyed.remove {m : FinMap Server} (h : Keyed m) (key : UInt32) :
    Keyed (map_remove m key).1 := fun e he => h e (LawfulMap.remove_subset m key he)

/-- Nothing is taken out under a key that is absent. -/
theorem map_remove_absent {m : FinMap Server} {key : UInt32} (h : map_get m key = none) :
    (map_remove m key).1 = m := by
  obtain ⟨pairs, sorted⟩ := m
  have hpairs : pairs.filter (·.1 ≠ key) = pairs := by
    refine List.filter_eq_self.mpr fun e he => ?_
    simp only [decide_eq_true_eq]
    rintro rfl
    have hget : map_get (⟨pairs, sorted⟩ : FinMap Server) e.1 = some e.2 :=
      (FinMap.get_eq_some _).mpr he
    rw [hget] at h
    cases h
  simp only [map_remove, FinMap.remove, hpairs]

/-- The first record taken out. -/
theorem items_remove_head {m : FinMap Server} {e : UInt32 × Server} {l : List (UInt32 × Server)}
    (h : items m = e :: l) : items (map_remove m e.1).1 = l := by
  have hnodup : ((items m).map Prod.fst).Nodup := LawfulMap.distinct (M := FinMap) trivial
  rw [items_remove (M := FinMap) trivial, h, List.filter_cons_of_neg (by simp)]
  rw [h, List.map_cons, List.nodup_cons] at hnodup
  refine List.filter_eq_self.mpr fun e' he' => ?_
  simp only [decide_eq_true_eq]
  intro heq
  exact hnodup.1 (heq ▸ List.mem_map.mpr ⟨e', he', rfl⟩)

section Sweep

variable (sys : Sys) (local_node : UInt32) {x : UInt32} {i : ℕ}

/-- The records of a table deleted one after the other. -/
theorem Nodes.sweep (l : List (UInt32 × Server)) {s : Context FinMap} (h : Nodes s)
    (hi : s.registered x = some i) (hkeyed : Keyed (s.reg x)) (hl : items (s.reg x) = l) :
    ∃ o t, Took sys o (l.flatMap fun e => news .del_server local_node s.lookups e.2) ∧
      s.time ≤ t ∧ Becomes s (l.foldl (fun s e => (Ns.server_del sys local_node s i e.2.port).2) s)
        ⟨Function.update s.reg x map_create, s.lookups, s.sent ++ o, t⟩ := by
  induction l generalizing s with
  | nil =>
    refine ⟨[], s.time, .nil sys, le_rfl, ?_⟩
    rw [← eq_create_of_items hl, Function.update_eq_self, List.append_nil]
    exact .refl h
  | cons e l ih =>
    have he : e ∈ items (s.reg x) := by
      rw [hl]
      exact List.mem_cons_self
    have hdel := h.server_del sys local_node hi e.2.port
    rw [hkeyed.get he] at hdel
    obtain ⟨o, t, ho, ht, hb⟩ := hdel
    rw [← hkeyed e he] at hb
    -- the table without its first record
    have hreg := congrFun (congrArg View.reg hb.view) x
    simp only [Context.view_reg, Function.update_self] at hreg
    have hlookups : (Ns.server_del sys local_node s i e.2.port).2.lookups = s.lookups :=
      congrArg View.lookups hb.view
    obtain ⟨o', t', ho', ht', hb'⟩ := ih hb.nodes (hb.kept hi)
      (by rw [hreg]; exact hkeyed.remove _) (by rw [hreg]; exact items_remove_head hl)
    rw [hlookups] at ho' hb'
    have hall := hb.trans hb'
    have hregs : (Ns.server_del sys local_node s i e.2.port).2.reg =
        Function.update s.reg x (map_remove (s.reg x) e.1).1 := congrArg View.reg hb.view
    have hsent : (Ns.server_del sys local_node s i e.2.port).2.sent = s.sent ++ o :=
      congrArg View.sent hb.view
    have htime : (Ns.server_del sys local_node s i e.2.port).2.time = t := congrArg View.time hb.view
    rw [hregs, hsent, Function.update_idem, List.append_assoc] at hall
    refine ⟨o ++ o', t', ?_, by omega, hall⟩
    rw [List.flatMap_cons]
    exact ho.append ho'

/-- The walk of `ctrl_cmd_bye` is over the records that are there. -/
theorem Nodes.walk {s : Context FinMap} (h : Nodes s) (hi : s.registered x = some i)
    (hkeyed : Keyed (s.reg x)) :
    map_for_each (fun s => s.services i) (fun s srv => (Ns.server_del sys local_node s i srv.port).2) s =
      (items (s.reg x)).foldl (fun s e => (Ns.server_del sys local_node s i e.2.port).2) s := by
  rw [← Context.services_eq hi]
  refine map_for_each_eq_foldl (P := fun s => Nodes s ∧ s.registered x = some i ∧ Keyed (s.reg x)) ?_
    ⟨h, hi, hkeyed⟩
  rintro s j k key srv ⟨hs, hsi, hk⟩ hrest
  rw [Context.services_eq hsi] at hrest ⊢
  -- what the walk is still to meet are later records of the same table
  have hsub : ∀ n, (LawfulMap.rest (s.reg x) n).Sublist (items (s.reg x)) := by
    intro n
    rw [items_eq_pairs]
    exact List.filter_sublist
  have hmem : (key, srv) ∈ items (s.reg x) := by
    apply (hsub j).subset
    rw [hrest]
    exact List.mem_cons_self
  have hkey : key = hash_u32 srv.port := hk _ hmem
  have hdel := hs.server_del sys local_node hsi srv.port
  rw [hk.get hmem] at hdel
  obtain ⟨o, t, -, -, hb⟩ := hdel
  have hreg := congrFun (congrArg View.reg hb.view) x
  simp only [Context.view_reg, Function.update_self] at hreg
  refine ⟨⟨hb.nodes, hb.kept hsi, by rw [hreg]; exact hk.remove _⟩, ?_⟩
  have hnodup : ((LawfulMap.rest (s.reg x) j).map Prod.fst).Nodup :=
    (LawfulMap.distinct (M := FinMap) trivial).sublist ((hsub j).map Prod.fst)
  rw [hrest, List.map_cons, List.nodup_cons] at hnodup
  rw [Context.services_eq (hb.kept hsi), hreg, LawfulMap.rest_remove (M := FinMap) trivial]
  refine List.filter_eq_self.mpr fun e he => ?_
  simp only [decide_eq_true_eq]
  intro heq
  exact hnodup.1 (hkey ▸ heq ▸ List.mem_map.mpr ⟨e, he, rfl⟩)

end Sweep

/-- A change that cannot be seen. -/
theorem Sends.unseen {M : Type → Type} [StructMap M] [LawfulMap M] {sys : Sys} {s s' : Context M}
    (h : Sends sys s s' []) :
    s'.reg = s.reg ∧ s'.lookups = s.lookups ∧ s'.sent = s.sent ∧ Becomes s s' s'.view := by
  obtain ⟨o, t, ho, -, hb⟩ := h
  obtain rfl : o = [] := List.sublist_nil.mp ho.sublist
  refine ⟨congrArg View.reg hb.view, congrArg View.lookups hb.view, ?_, hb.nodes, rfl, hb.sock,
    hb.kept⟩
  exact (congrArg View.sent hb.view).trans (List.append_nil _)

/-! ## BYE

The tables of the node that leaves, the notices to lookups, and the packets to the local services,
as one change of the view. -/

/-- What the services on the local node are told of a departure. -/
def told (servers : List Server) (pkt : QrtrCtrlPkt) : List Sent :=
  servers.map fun srv => ⟨⟨srv.node, srv.port⟩, pkt.bytes, none⟩

/-- The services on the local node told, after some change. -/
theorem Becomes.advertise {M : Type → Type} [StructMap M] [LawfulMap M] (sys : Sys)
    (local_node : UInt32) {s s' : Context M} {v : View M} (h : Becomes s s' v)
    (pkt : ℕ → QrtrCtrlPkt) :
    ∃ o t t', Took sys o (told (records (v.reg local_node)) (pkt t)) ∧
      Becomes s (advertise_removal sys local_node s' pkt).2
        { v with sent := v.sent ++ o, time := t' } := by
  obtain ⟨t, hadv⟩ := h.nodes.advertise_removal sys local_node pkt
  have hleft := congrFun (congrArg View.reg h.view) local_node
  simp only [Context.view_reg] at hleft
  rw [hleft] at hadv
  obtain ⟨o, t', ho, -, hb⟩ := h.sends hadv
  exact ⟨o, t, t', ho, hb⟩

/-- The packet that names a node that has left. -/
def byePkt (n : UInt32) : QrtrCtrlPkt := ⟨QrtrType.bye.code, n, 0, 0, 0⟩

/-- **`ctrl_cmd_bye`** empties the table of the node and tells of every record, and then the local
services of the node. -/
theorem Nodes.ctrl_cmd_bye (sys : Sys) (local_node : UInt32) {s : Context FinMap} (h : Nodes s)
    {sq : SockaddrQrtr} (hkeyed : Keyed (s.reg sq.sq_node))
    (hnode : (Ns.node_get sys s sq.sq_node).1.isSome) :
    ∃ o t, Took sys o
        ((records (s.reg sq.sq_node)).flatMap (news .del_server local_node s.lookups) ++
          told (records (Function.update s.reg sq.sq_node map_create local_node))
            (byePkt sq.sq_node)) ∧
      Becomes s (ctrl_cmd_bye sys local_node s sq).2
        ⟨Function.update s.reg sq.sq_node map_create, s.lookups, s.sent ++ o, t⟩ := by
  obtain ⟨hget, hi⟩ := h.node_get sys sq.sq_node
  unfold Ns.ctrl_cmd_bye
  simp only
  obtain ⟨i, hr⟩ := Option.isSome_iff_exists.mp hnode
  rw [hr] at hi
  rw [hr]
  simp only at hi ⊢
  obtain ⟨hreg, hlookups, hsent, hidle⟩ := hget.unseen
  rw [hget.nodes.walk sys local_node hi (by rwa [hreg]), hreg]
  obtain ⟨o, t, ho, -, hb⟩ := hget.nodes.sweep sys local_node _ hi (by rwa [hreg]) (by rw [hreg])
  rw [hlookups] at ho
  rw [hreg, hlookups, hsent] at hb
  -- then the services that are left on the local node
  obtain ⟨o', -, t', ho', hb'⟩ := (hidle.trans hb).advertise sys local_node fun _ => byePkt sq.sq_node
  refine ⟨o ++ o', t', ?_, ?_⟩
  · rw [records_eq, List.flatMap_map]
    exact ho.append ho'
  · rw [← List.append_assoc]
    exact hb'

/-! ## DEL_CLIENT

The same for one client. Its lookups go first, then its server, and then the local services are
told. -/

section DelClient

variable {M : Type → Type} [StructMap M] [LawfulMap M]

/-- The tables when the record of a port is gone. -/
def removed (reg : UInt32 → M Server) (x port : UInt32) : UInt32 → M Server :=
  match map_get (reg x) (hash_u32 port) with
  | none => reg
  | some _ => Function.update reg x (map_remove (reg x) (hash_u32 port)).1

/-- `server_del`, whether there is a record or not. -/
theorem Nodes.server_del_toList (sys : Sys) (local_node : UInt32) {s : Context M} (h : Nodes s)
    {x : UInt32} {i : ℕ} (hi : s.registered x = some i) (port : UInt32) :
    ∃ o t, Took sys o ((map_get (s.reg x) (hash_u32 port)).toList.flatMap
        (news .del_server local_node s.lookups)) ∧
      Becomes s (Ns.server_del sys local_node s i port).2
        ⟨removed s.reg x port, s.lookups, s.sent ++ o, t⟩ := by
  have hdel := h.server_del sys local_node hi port
  unfold removed
  cases hg : map_get (s.reg x) (hash_u32 port) with
  | none =>
    rw [hg] at hdel
    simp only at hdel
    refine ⟨[], s.time, .nil sys, ?_⟩
    rw [hdel, List.append_nil]
    exact .refl h
  | some srv =>
    rw [hg] at hdel
    obtain ⟨o, t, ho, -, hb⟩ := hdel
    exact ⟨o, t, by simpa using ho, hb⟩

/-- The packet that names a client that has left. Its last two words are never assigned. -/
def delClientPkt (sys : Sys) (n port : UInt32) (t : ℕ) : QrtrCtrlPkt :=
  ⟨QrtrType.del_client.code, n, port, (sys.stack t).1, (sys.stack t).2⟩

/-- The lookups without those of a client. -/
def lookupsWithout (lookups : List Lookup) (n port : UInt32) : List Lookup :=
  lookups.filter fun l => !(l.sq.sq_node = n ∧ l.sq.sq_port = port)

/-- What a DEL_CLIENT that is accepted does before the local services are told of it. -/
def ctrl_cmd_del_client.forget (sys : Sys) (local_node : UInt32) (s : Context M)
    (node_id port : UInt32) : Context M :=
  let s := { s with lookups := lookupsWithout s.lookups node_id port }
  let r := node_get sys s node_id
  match r.1 with
  | none => r.2
  | some node => (server_del sys local_node r.2 node port).2

omit [LawfulMap M] in
theorem ctrl_cmd_del_client_accepted (sys : Sys) (local_node : UInt32) (s : Context M)
    {sq : SockaddrQrtr} {port : UInt32} (hport : sq.sq_node = local_node → sq.sq_port = port) :
    ctrl_cmd_del_client sys local_node s sq sq.sq_node port =
      advertise_removal sys local_node
        (ctrl_cmd_del_client.forget sys local_node s sq.sq_node port)
        (delClientPkt sys sq.sq_node port) := by
  have hguard : ¬ (sq.sq_node = local_node ∧ sq.sq_port ≠ port) := fun hg => hg.2 (hport hg.1)
  unfold Ns.ctrl_cmd_del_client
  rw [if_neg (not_not.mpr rfl), if_neg hguard]
  rfl

/-- The lookups of the client are forgotten, and its server is removed and told of. -/
theorem Nodes.forget (sys : Sys) (local_node : UInt32) {s : Context M} (h : Nodes s)
    (node_id port : UInt32) :
    ∃ o t, Took sys o ((map_get (s.reg node_id) (hash_u32 port)).toList.flatMap
        (news .del_server local_node (lookupsWithout s.lookups node_id port))) ∧
      Becomes s (ctrl_cmd_del_client.forget sys local_node s node_id port)
        ⟨removed s.reg node_id port, lookupsWithout s.lookups node_id port, s.sent ++ o, t⟩ := by
  unfold ctrl_cmd_del_client.forget
  simp only
  generalize hs1 : ({ s with lookups := lookupsWithout s.lookups node_id port } : Context M) = s1
  have hforget : Becomes s s1 ⟨s.reg, lookupsWithout s.lookups node_id port, s.sent, s.time⟩ := by
    subst hs1
    exact .of_same h rfl rfl rfl
  have hreg1 : s1.reg = s.reg := congrArg View.reg hforget.view
  have hlookups1 : s1.lookups = lookupsWithout s.lookups node_id port :=
    congrArg View.lookups hforget.view
  have hsent1 : s1.sent = s.sent := congrArg View.sent hforget.view
  obtain ⟨hget, hi⟩ := hforget.nodes.node_get sys node_id
  obtain ⟨hreg, hlookups, hsent, hidle⟩ := hget.unseen
  rw [hreg1] at hreg
  rw [hlookups1] at hlookups
  rw [hsent1] at hsent
  have hsame : Becomes s (Ns.node_get sys s1 node_id).2 ⟨s.reg,
      lookupsWithout s.lookups node_id port, s.sent, (Ns.node_get sys s1 node_id).2.time⟩ := by
    have hall := hforget.trans hidle
    rwa [Context.view, hreg, hlookups, hsent] at hall
  cases hr : (Ns.node_get sys s1 node_id).1 with
  | none =>
    -- no node, so no server to remove
    rw [hr] at hi
    have hg : map_get (s.reg node_id) (hash_u32 port) = none := by
      rw [← hreg1, Context.reg, hi.1, Option.map_none, Option.getD_none, map_get_create]
    simp only [removed, hg]
    refine ⟨[], (Ns.node_get sys s1 node_id).2.time, .nil sys, ?_⟩
    rw [List.append_nil]
    exact hsame
  | some i =>
    rw [hr] at hi
    obtain ⟨o, t, ho, hb⟩ := hget.nodes.server_del_toList sys local_node hi port
    rw [hreg, hlookups] at ho
    rw [hreg, hlookups, hsent] at hb
    exact ⟨o, t, ho, hsame.trans hb⟩

/-- **`ctrl_cmd_del_client`** forgets the lookups of the client, removes its server and tells of it,
and then tells the local services of the client. -/
theorem Nodes.ctrl_cmd_del_client (sys : Sys) (local_node : UInt32) {s : Context M} (h : Nodes s)
    {sq : SockaddrQrtr} {port : UInt32} (hport : sq.sq_node = local_node → sq.sq_port = port) :
    ∃ o t t', Took sys o
        ((map_get (s.reg sq.sq_node) (hash_u32 port)).toList.flatMap
            (news .del_server local_node (lookupsWithout s.lookups sq.sq_node port)) ++
          told (records (removed s.reg sq.sq_node port local_node))
            (delClientPkt sys sq.sq_node port t)) ∧
      Becomes s (ctrl_cmd_del_client sys local_node s sq sq.sq_node port).2
        ⟨removed s.reg sq.sq_node port, lookupsWithout s.lookups sq.sq_node port, s.sent ++ o, t'⟩ := by
  obtain ⟨o, t, ho, hb⟩ := h.forget sys local_node sq.sq_node port
  obtain ⟨o', t', t'', ho', hb'⟩ := hb.advertise sys local_node (delClientPkt sys sq.sq_node port)
  refine ⟨o ++ o', t', t'', ho.append ho', ?_⟩
  rw [ctrl_cmd_del_client_accepted sys local_node s hport, ← List.append_assoc]
  exact hb'

end DelClient

theorem removed_eq (reg : UInt32 → FinMap Server) (x port : UInt32) :
    removed reg x port = Function.update reg x (map_remove (reg x) (hash_u32 port)).1 := by
  unfold removed
  cases hg : map_get (reg x) (hash_u32 port) with
  | none => rw [map_remove_absent hg, Function.update_eq_self]
  | some _ => rfl

/-! ## Departures

Both handlers create the node of the sender if there is none, and a BYE that cannot is dropped
before anybody is told. The theorem is therefore about packets for which this allocation succeeds.
-/

/-- The address of a client that a DEL_CLIENT names, if the packet is accepted: it comes from the node
it names, and from the port too if that is the local node. -/
def departed (local_node : UInt32) (d : Datagram) : Option SockaddrQrtr :=
  if d.type = some .del_client ∧ d.sq.sq_node = d.msg.client_node ∧
      (d.sq.sq_node = local_node → d.sq.sq_port = d.msg.client_port) then
    some ⟨d.msg.client_node, d.msg.client_port⟩
  else none

/-- The records on one port are the record found under its key. -/
theorem Keyed.records_filter {m : FinMap Server} (h : Keyed m) (port : UInt32) :
    (records m).filter (fun srv => srv.port = port) = (map_get m (hash_u32 port)).toList := by
  have hnodup : ((items m).map Prod.fst).Nodup := LawfulMap.distinct (M := FinMap) trivial
  have hget : map_get m (hash_u32 port) = ((items m).find? (·.1 = hash_u32 port)).map Prod.snd := by
    rw [items_eq_pairs]
    rfl
  rw [hget, records_eq]
  have hkeyed : ∀ e ∈ items m, e.1 = hash_u32 e.2.port := h
  generalize items m = l at hnodup hkeyed
  induction l with
  | nil => rfl
  | cons e l ih =>
    rw [List.map_cons, List.nodup_cons] at hnodup
    have hkey := hkeyed e List.mem_cons_self
    have hrest := ih hnodup.2 fun e' he' => hkeyed e' (List.mem_cons_of_mem _ he')
    by_cases hp : e.2.port = port
    · -- no later record has the key
      have hnone : l.find? (·.1 = hash_u32 port) = none := by
        refine List.find?_eq_none.mpr fun e' he' => ?_
        simp only [decide_eq_true_eq]
        intro heq
        refine hnodup.1 (List.mem_map.mpr ⟨e', he', ?_⟩)
        rw [heq, hkey, hp]
      rw [hnone] at hrest
      rw [List.map_cons, List.filter_cons_of_pos (by simpa using hp), hrest,
        List.find?_cons_of_pos (by simp [hkey, hp])]
      rfl
    · rw [List.map_cons, List.filter_cons_of_neg (by simpa using hp), hrest,
        List.find?_cons_of_neg (by simp [hkey, hp])]

/-- The records that are left when the record of a port is taken out. -/
theorem Keyed.mem_records_remove {m : FinMap Server} (h : Keyed m) (port : UInt32) (srv : Server) :
    srv ∈ records (map_remove m (hash_u32 port)).1 ↔ srv ∈ records m ∧ srv.port ≠ port := by
  rw [records_eq, records_eq, items_remove (M := FinMap) trivial]
  simp only [List.mem_map, List.mem_filter, decide_eq_true_eq]
  constructor
  · rintro ⟨e, ⟨he, hne⟩, rfl⟩
    refine ⟨⟨e, he, rfl⟩, fun hp => hne ?_⟩
    rw [h e he, hp]
  · rintro ⟨⟨e, he, rfl⟩, hne⟩
    refine ⟨e, ⟨he, fun hkey => hne ?_⟩, rfl⟩
    rw [h e he] at hkey
    exact hash_u32_injective hkey

theorem Sound.keyed_reg {local_node : UInt32} {s : Context FinMap} (h : Sound local_node s.view)
    (x : UInt32) : Keyed (s.reg x) := fun e he => (h.keyed x e he).1

/-- **Departure is complete.** In every state the name server reaches on finite maps, with sends that
succeed.

A BYE of another node, for which a node is found or created: its records are gone, and the rest is
as it was. For each of them the observers that match get one DEL_SERVER, and every local
service gets one BYE.

An accepted DEL_CLIENT: the lookups of the client and its server are gone, and the rest is as it was.
For the server the observers that are left get one DEL_SERVER if they match, the other nodes get
one if it was local, and every local service that is left gets one DEL_CLIENT. -/
theorem departure_complete (sys : Sys) (hsends : sys.Delivers) (local_node : UInt32)
    (ds : List Datagram) (s s' : Context FinMap) (d : Datagram)
    (hs : s = main.run sys local_node ds) (hs' : s' = ctrl_port_fn sys local_node s d) :
    (d.type = some .bye → d.sq.sq_node ≠ local_node → (node_get sys s d.sq.sq_node).1.isSome →
      records (s'.reg d.sq.sq_node) = [] ∧ (∀ x, x ≠ d.sq.sq_node → s'.reg x = s.reg x) ∧
      s'.lookups = s.lookups ∧
      s'.sent = s.sent ++ ((records (s.reg d.sq.sq_node)).flatMap
          (news .del_server local_node s'.lookups) ++
        told (records (s'.reg local_node)) (byePkt d.sq.sq_node))) ∧
    ∀ sq, departed local_node d = some sq →
      (∀ srv, srv ∈ records (s'.reg sq.sq_node) ↔
        srv ∈ records (s.reg sq.sq_node) ∧ srv.port ≠ sq.sq_port) ∧
      (∀ x, x ≠ sq.sq_node → s'.reg x = s.reg x) ∧
      s'.lookups = s.lookups.filter (fun l => l.sq ≠ sq) ∧
      ∃ t, s'.sent = s.sent ++ (((records (s.reg sq.sq_node)).filter
          (fun srv => srv.port = sq.sq_port)).flatMap (news .del_server local_node s'.lookups) ++
        told (records (s'.reg local_node)) (delClientPkt sys sq.sq_node sq.sq_port t)) := by
  have hnodes : Nodes s := by
    rw [hs]
    exact main_run_nodes sys local_node ds
  have hsound : Sound local_node s.view := by
    rw [hs]
    exact main_run_sound sys local_node ds
  refine ⟨fun htype hremote hnode => ?_, fun sq hsq => ?_⟩
  · obtain ⟨hdispatch, hcode⟩ := ctrl_port_fn_dispatch sys local_node d s htype
    rw [hdispatch, ctrl_port_fn.dispatch, hcode] at hs'
    obtain ⟨o, t, ho, hb⟩ := hnodes.ctrl_cmd_bye sys local_node (hsound.keyed_reg _) hnode
    rw [ho.all hsends] at hb
    have hview := hb.view
    simp only at hs'
    rw [← hs'] at hview
    have hreg : s'.reg = Function.update s.reg d.sq.sq_node map_create := congrArg View.reg hview
    have hlookups : s'.lookups = s.lookups := congrArg View.lookups hview
    refine ⟨?_, fun x hx => ?_, hlookups, ?_⟩
    · rw [hreg, Function.update_self, records_create]
    · rw [hreg, Function.update_of_ne hx]
    · rw [hlookups, hreg]
      exact congrArg View.sent hview
  · -- an accepted DEL_CLIENT names the node it comes from
    unfold departed at hsq
    split at hsq
    swap
    · cases hsq
    rename_i hacc
    obtain ⟨htype, hnode, hport⟩ := hacc
    cases hsq
    obtain ⟨hdispatch, hcode⟩ := ctrl_port_fn_dispatch sys local_node d s htype
    rw [hdispatch, ctrl_port_fn.dispatch, hcode, ← hnode] at hs'
    simp only at hs' ⊢
    rw [← hnode]
    obtain ⟨o, t, t', ho, hb⟩ := hnodes.ctrl_cmd_del_client sys local_node hport
    rw [ho.all hsends, removed_eq] at hb
    have hview := hb.view
    rw [← hs'] at hview
    have hreg : s'.reg = Function.update s.reg d.sq.sq_node
        (map_remove (s.reg d.sq.sq_node) (hash_u32 d.msg.client_port)).1 := congrArg View.reg hview
    have hlookups : s'.lookups = lookupsWithout s.lookups d.sq.sq_node d.msg.client_port :=
      congrArg View.lookups hview
    have hkeyed := hsound.keyed_reg d.sq.sq_node
    refine ⟨fun srv => ?_, fun x hx => ?_, ?_, t, ?_⟩
    · rw [hreg, Function.update_self]
      exact hkeyed.mem_records_remove _ srv
    · rw [hreg, Function.update_of_ne hx]
    · -- `DEL_CLIENT` compares node and port one by one
      rw [hlookups, lookupsWithout]
      refine List.filter_congr fun l _ => ?_
      rw [← decide_not, decide_eq_decide, not_iff_not, SockaddrQrtr.ext_iff]
    · rw [hkeyed.records_filter, hlookups, hreg]
      exact congrArg View.sent hview

/-- A server of node 2 and one of node 1, whose port 20 looks for everything. -/
def crowd : List Datagram :=
  [packet ⟨1, 20⟩ ⟨QrtrType.new_lookup.code, 0, 0, 0, 0⟩,
    packet ⟨1, 10⟩ ⟨QrtrType.new_server.code, 5, 6, 1, 10⟩,
    packet ⟨2, QRTR_PORT_CTRL⟩ ⟨QrtrType.new_server.code, 7, 8, 2, 30⟩]

/-- Node 2 leaves. -/
theorem departure_complete_crowd :
    (ctrl_port_fn allWell 1 (main.run allWell 1 crowd : Context FinMap)
        (packet ⟨2, QRTR_PORT_CTRL⟩ ⟨QrtrType.bye.code, 0, 0, 0, 0⟩)).sent =
      (main.run allWell 1 crowd : Context FinMap).sent ++
        [⟨⟨1, 20⟩, (Server.pkt ⟨7, 8, 2, 30⟩ .del_server).bytes, some 1⟩,
          ⟨⟨1, 10⟩, (byePkt 2).bytes, none⟩] := by
  have hall := departure_complete allWell allWell_delivers 1 crowd _ _
    (packet ⟨2, QRTR_PORT_CTRL⟩ ⟨QrtrType.bye.code, 0, 0, 0, 0⟩) rfl rfl
  obtain ⟨-, -, -, hsent⟩ := hall.1 (by decide +kernel) (by decide) (by decide +kernel)
  rw [hsent]
  decide +kernel

/-- A system whose memory lasts for some calls. -/
def lasting (k : ℕ) : Sys := { allWell with calloc := fun t _ => t < k }

/-- Node 2 leaves before a node was created for it, and there is no memory to create one: port 10 of
node 1 is not told. -/
theorem bye_untold_without_memory :
    ¬ ∀ (sys : Sys), sys.Delivers → ∀ (local_node : UInt32) (ds : List Datagram) (d : Datagram),
      d.type = some .bye → d.sq.sq_node ≠ local_node → ∀ s s' : Context FinMap,
        s = main.run sys local_node ds → s' = ctrl_port_fn sys local_node s d →
          s'.sent = s.sent ++ ((records (s.reg d.sq.sq_node)).flatMap
            (news .del_server local_node s'.lookups) ++
              told (records (s'.reg local_node)) (byePkt d.sq.sq_node)) := by
  intro hall
  have h := hall (lasting 5) (fun _ _ _ => rfl) 1
    [packet ⟨1, 10⟩ ⟨QrtrType.new_server.code, 5, 6, 1, 10⟩]
    (packet ⟨2, QRTR_PORT_CTRL⟩ ⟨QrtrType.bye.code, 0, 0, 0, 0⟩) (by decide +kernel) (by decide)
    _ _ rfl rfl
  exact absurd h (by decide +kernel)

end Dragonboard.Ns
