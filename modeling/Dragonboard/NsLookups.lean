/-
The lookups of the name server, in memory and as subscriptions.

`ctx->lookups` is a linked list of `struct lookup`, and the handlers append to it and unlink from it
while they walk it. `LookupList` is that list, with the objects at their addresses; here it is run
along with the handlers, and the list `Ns` has in its place is what it spells out.

What the list is for is simpler: clients subscribe and unsubscribe. `subscriptions` says that, and the
list follows it entry by entry (`lookups_follow_subscriptions`). An entry for any instance is also
dropped by a DEL_LOOKUP for a particular one.
-/
import Dragonboard.LinkedList
import Dragonboard.MapLawful
import Dragonboard.NsDeparture

set_option autoImplicit false

namespace Dragonboard.Ns

open Dragonboard.Memory Dragonboard.MapApi Dragonboard.LinkedList
open Dragonboard.QrtrMap (Map)

/-! ## What a packet does to the lookups

Only three of the handlers touch `ctx->lookups`, and each by an operation on the list: append,
delete the first match, delete all matches of a client. -/

/-- The test of `ctrl_cmd_del_lookup`. -/
def Lookup.deletedBy (l : Lookup) (sq : SockaddrQrtr) (service instance_ : UInt32) : Bool :=
  l.sq.sq_node = sq.sq_node ∧ l.sq.sq_port = sq.sq_port ∧ l.service = service ∧
    ¬ (l.instance_ ≠ 0 ∧ l.instance_ ≠ instance_)

/-- The test of `ctrl_cmd_del_client`. -/
def Lookup.ownedBy (l : Lookup) (node_id port : UInt32) : Bool :=
  l.sq.sq_node = node_id ∧ l.sq.sq_port = port

/-- The change of the lookups on a packet. -/
inductive LookupOp where
  | keep
  | append (l : Lookup)
  | remove (drop : Lookup → Bool)

section Lookups

variable {M : Type → Type} [StructMap M]

/-- What a packet does to the lookups, by the guards of its handler. -/
def lookupOp (sys : Sys) (local_node : UInt32) (s : Context M) (d : Datagram) : LookupOp :=
  if s.sock then
    match d.type with
    | some .new_lookup =>
      if d.sq.sq_node ≠ local_node then .keep
      else if sys.calloc s.time 1 then .append ⟨s.time, d.msg.service, d.msg.instance_, d.sq⟩
      else .keep
    | some .del_lookup => .remove fun l => l.deletedBy d.sq d.msg.service d.msg.instance_
    | some .del_client =>
      if d.sq.sq_node ≠ d.msg.client_node then .keep
      else if d.sq.sq_node = local_node ∧ d.sq.sq_port ≠ d.msg.client_port then .keep
      else .remove fun l => l.ownedBy d.msg.client_node d.msg.client_port
    | _ => .keep
  else .keep

/-- The change on a list. -/
def LookupOp.apply (ls : List Lookup) : LookupOp → List Lookup
  | keep => ls
  | append l => ls ++ [l]
  | remove drop => ls.filter fun l => !drop l

variable [LawfulMap M]

theorem server_del_lookups (sys : Sys) (local_node : UInt32) {s : Context M} (h : Nodes s)
    {x : UInt32} {i : ℕ} (hi : s.registered x = some i) (port : UInt32) :
    Nodes (server_del sys local_node s i port).2 ∧
      (server_del sys local_node s i port).2.registered x = some i ∧
      (server_del sys local_node s i port).2.lookups = s.lookups := by
  have hdel := h.server_del sys local_node hi port
  cases hg : map_get (s.reg x) (hash_u32 port) with
  | none =>
    rw [hg] at hdel
    simp only at hdel
    rw [hdel]
    exact ⟨h, hi, rfl⟩
  | some srv =>
    rw [hg] at hdel
    obtain ⟨o, t, -, -, hb⟩ := hdel
    exact ⟨hb.nodes, hb.kept hi, congrArg View.lookups hb.view⟩

theorem ctrl_cmd_bye_lookups (sys : Sys) (local_node : UInt32) {s : Context M} (h : Nodes s)
    (sq : SockaddrQrtr) : (ctrl_cmd_bye sys local_node s sq).2.lookups = s.lookups := by
  obtain ⟨hget, hnode⟩ := h.node_get sys sq.sq_node
  unfold ctrl_cmd_bye
  simp only
  cases hr : (node_get sys s sq.sq_node).1 with
  | none => exact hget.reg.2
  | some i =>
    rw [hr] at hnode
    simp only at hnode ⊢
    -- no round of the walk touches them
    have hwalk : ∀ s1, s1 = map_for_each (fun s => s.services i)
        (fun s srv => (server_del sys local_node s i srv.port).2) (node_get sys s sq.sq_node).2 →
        Nodes s1 ∧ s1.registered sq.sq_node = some i ∧ s1.lookups = s.lookups := by
      rintro s1 rfl
      refine map_for_each_induction (P := fun s1 => Nodes s1 ∧
        s1.registered sq.sq_node = some i ∧ s1.lookups = s.lookups) ?_
        ⟨hget.nodes, hnode, hget.reg.2⟩
      rintro s1 srv ⟨hs1, hi, hls⟩
      obtain ⟨hs2, hi2, hls2⟩ := server_del_lookups sys local_node hs1 hi srv.port
      exact ⟨hs2, hi2, hls2.trans hls⟩
    obtain ⟨hs1, -, hls⟩ := hwalk _ rfl
    obtain ⟨t, hadv⟩ := hs1.advertise_removal sys local_node
      fun _ => ⟨QrtrType.bye.code, sq.sq_node, 0, 0, 0⟩
    rw [hadv.reg.2]
    exact hls

theorem ctrl_cmd_del_client_lookups (sys : Sys) (local_node : UInt32) {s : Context M} (h : Nodes s)
    (sq : SockaddrQrtr) (node_id port : UInt32) :
    (ctrl_cmd_del_client sys local_node s sq node_id port).2.lookups =
      if sq.sq_node ≠ node_id then s.lookups
      else if sq.sq_node = local_node ∧ sq.sq_port ≠ port then s.lookups
      else s.lookups.filter fun l => !l.ownedBy node_id port := by
  unfold ctrl_cmd_del_client
  split
  · rfl
  split
  · rfl
  simp only
  generalize hs1 : ({ s with lookups := s.lookups.filter fun l =>
    !(l.sq.sq_node = node_id ∧ l.sq.sq_port = port) } : Context M) = s1
  have hnodes : Nodes s1 := by
    subst hs1
    exact ⟨h.good, h.node⟩
  have hlookups : s1.lookups = s.lookups.filter fun l => !l.ownedBy node_id port := by
    subst hs1
    rfl
  obtain ⟨hget, hnode⟩ := hnodes.node_get sys node_id
  cases hr : (node_get sys s1 node_id).1 with
  | none =>
    obtain ⟨t, hadv⟩ := hget.nodes.advertise_removal sys local_node
      fun t => ⟨QrtrType.del_client.code, node_id, port, (sys.stack t).1, (sys.stack t).2⟩
    rw [hadv.reg.2, hget.reg.2, hlookups]
  | some i =>
    rw [hr] at hnode
    obtain ⟨hs2, -, hls2⟩ := server_del_lookups sys local_node hget.nodes hnode port
    obtain ⟨t, hadv⟩ := hs2.advertise_removal sys local_node
      fun t => ⟨QrtrType.del_client.code, node_id, port, (sys.stack t).1, (sys.stack t).2⟩
    rw [hadv.reg.2, hls2, hget.reg.2, hlookups]

theorem ctrl_cmd_new_server_lookups (sys : Sys) (local_node : UInt32) {s : Context M} (h : Nodes s)
    (sq : SockaddrQrtr) (service instance_ node_id port : UInt32) :
    (ctrl_cmd_new_server sys local_node s sq service instance_ node_id port).2.lookups =
      s.lookups := by
  have hnew := h.ctrl_cmd_new_server sys local_node sq service instance_ node_id port
  cases hacc : ctrl_cmd_new_server.accepted sys local_node s sq service instance_ node_id port with
  | none =>
    rw [hacc] at hnew
    exact hnew.1.reg.2
  | some srv =>
    rw [hacc] at hnew
    obtain ⟨-, -, -, u, old, o, t, -, -, -, hb⟩ := hnew
    exact congrArg View.lookups hb.view

theorem ctrl_cmd_del_server_lookups (sys : Sys) (local_node : UInt32) {s : Context M} (h : Nodes s)
    (sq : SockaddrQrtr) (service instance_ node_id port : UInt32) :
    (ctrl_cmd_del_server sys local_node s sq service instance_ node_id port).2.lookups =
      s.lookups := by
  rcases h.ctrl_cmd_del_server sys local_node sq service instance_ node_id port with
    ⟨-, -, hsame⟩ | ⟨q, -, hdel⟩
  · rw [hsame]
  · cases hg : map_get (s.reg sq.sq_node) (hash_u32 q) with
    | none =>
      rw [hg] at hdel
      exact hdel.reg.2
    | some srv =>
      rw [hg] at hdel
      obtain ⟨o, t, -, -, hb⟩ := hdel
      exact congrArg View.lookups hb.view

theorem ctrl_cmd_new_lookup_lookups (sys : Sys) (local_node : UInt32) {s : Context M} (h : Nodes s)
    (sq : SockaddrQrtr) (service instance_ : UInt32) :
    (ctrl_cmd_new_lookup sys local_node s sq service instance_).2.lookups =
      if sq.sq_node ≠ local_node then s.lookups
      else if sys.calloc s.time 1 then s.lookups ++ [⟨s.time, service, instance_, sq⟩]
      else s.lookups := by
  unfold ctrl_cmd_new_lookup
  split
  · rfl
  split
  swap
  · rfl
  simp only
  generalize hs1 : ({ s.tick with lookups := s.lookups ++ [⟨s.time, service, instance_, sq⟩] } :
    Context M) = s1
  have hnodes : Nodes s1 := by
    subst hs1
    exact ⟨h.good, h.node⟩
  have hlookups : s1.lookups = s.lookups ++ [⟨s.time, service, instance_, sq⟩] := by
    subst hs1
    rfl
  -- the replies only send
  have hreply := Sends.foldl (fun s1 srv (hs : Nodes s1) => hs.sendto sys sq
    (Server.pkt srv .new_server).bytes (some s.time)) (server_query s1 ⟨service, instance_, 0⟩).1
    hnodes
  have hend := hreply.nodes.sendto sys sq endMarker (some s.time)
  exact (hreply.trans hend).reg.2.trans hlookups

/-- **What a round of the main loop does to the lookups.** -/
theorem main_step_lookups (sys : Sys) (local_node : UInt32) {s : Context M} (h : Nodes s)
    (d : Datagram) :
    (main.step sys local_node s d).lookups = (lookupOp sys local_node s d).apply s.lookups := by
  unfold main.step lookupOp
  by_cases hsock : s.sock = true
  swap
  · rw [if_neg hsock, if_neg hsock]
    rfl
  rw [if_pos hsock, if_pos hsock]
  cases hcmd : d.type with
  | none =>
    rw [ctrl_port_fn_untyped sys local_node d s hcmd]
    split
    · rfl
    · rfl
  | some type =>
    obtain ⟨hdispatch, hcode⟩ := ctrl_port_fn_dispatch sys local_node d s hcmd
    rw [hdispatch, ctrl_port_fn.dispatch, hcode]
    cases type with
    | hello => exact (h.ctrl_cmd_hello sys local_node d.sq (Datagram.received_ne_nil hcmd)).reg.2
    | bye => exact ctrl_cmd_bye_lookups sys local_node h d.sq
    -- the guards of the handler are those of `lookupOp`
    | del_client =>
      simp only
      rw [ctrl_cmd_del_client_lookups sys local_node h]
      split
      · rfl
      split
      · rfl
      · rfl
    | new_server => exact ctrl_cmd_new_server_lookups sys local_node h _ _ _ _ _
    | del_server => exact ctrl_cmd_del_server_lookups sys local_node h _ _ _ _ _
    | new_lookup =>
      simp only
      rw [ctrl_cmd_new_lookup_lookups sys local_node h]
      split
      · rfl
      split
      · rfl
      · rfl
    | del_lookup => rfl
    | data | exit | ping | resume_tx => rfl

end Lookups

/-! ## The list in memory

The same operations on the list of `list.h`, with its links, side by side with the list of `Ns`. -/

/-- `ctx->lookups`: the list, its links, and the lookups at their addresses. -/
structure LookupList where
  heap : Heap
  list : ListHead
  object : ℕ → Lookup

/-- An empty list. -/
def LookupList.init : LookupList := ⟨fun _ => ⟨none, none⟩, list_init, fun _ => ⟨0, 0, 0, ⟨0, 0⟩⟩⟩

/-- The change on the list in memory, with `n` rounds for a walk. -/
def LookupList.update (ll : LookupList) (n : ℕ) : LookupOp → Option LookupList
  | .keep => some ll
  | .append l =>
    let r := list_append ll.heap ll.list l.id
    some ⟨r.1, r.2, Function.update ll.object l.id l⟩
  | .remove drop =>
    (sweep (fun a => drop (ll.object a)) n ll.list.head ll.heap ll.list).map fun r =>
      ⟨r.1, r.2, ll.object⟩

/-- The list in memory is a list of lookups. -/
structure LookupList.Holds (ll : LookupList) (ls : List Lookup) : Prop where
  spells : Spells ll.heap ll.list (ls.map Lookup.id)
  object : ∀ l ∈ ls, ll.object l.id = l

theorem LookupList.Holds.update {ll : LookupList} {ls : List Lookup} (h : ll.Holds ls) {n : ℕ}
    (hn : ls.length ≤ n) {op : LookupOp} (hop : ∀ l, op = .append l → l.id ∉ ls.map Lookup.id) :
    ∃ ll', ll.update n op = some ll' ∧ ll'.Holds (op.apply ls) := by
  cases op with
  | keep => exact ⟨ll, rfl, h⟩
  | append l =>
    have hfresh := hop l rfl
    refine ⟨_, rfl, ?_, fun l' hl' => ?_⟩
    · rw [LookupOp.apply, List.map_append]
      exact h.spells.list_append hfresh
    · rcases List.mem_append.mp hl' with hl' | hl'
      · -- an older lookup is at another address
        have hne : l'.id ≠ l.id := by
          intro heq
          exact hfresh (heq ▸ List.mem_map.mpr ⟨l', hl', rfl⟩)
        simp only [Function.update_of_ne hne]
        exact h.object l' hl'
      · rw [List.mem_singleton.mp hl']
        simp only [Function.update_self]
  | remove drop =>
    have hlen : (ls.map Lookup.id).length ≤ n := by rwa [List.length_map]
    obtain ⟨heap, list, hsweep, hspells⟩ := sweep_spells (fun a => drop (ll.object a)) h.spells hlen
    refine ⟨⟨heap, list, ll.object⟩, ?_, ?_, fun l hl => h.object l (List.mem_filter.mp hl).1⟩
    · simp only [LookupList.update, hsweep, Option.map_some]
    · rw [List.filter_map] at hspells
      have hsame : ls.filter ((fun a => !drop (ll.object a)) ∘ Lookup.id) =
          ls.filter fun l => !drop l := by
        refine List.filter_congr fun l hl => ?_
        simp only [Function.comp_apply, h.object l hl]
      rwa [hsame] at hspells

/-- What a walk of the list in memory reads. -/
def LookupList.read (ll : LookupList) (n : ℕ) : Option (List Lookup) :=
  (walk ll.heap n ll.list.head).map fun l => l.map ll.object

theorem LookupList.Holds.read {ll : LookupList} {ls : List Lookup} (h : ll.Holds ls) {n : ℕ}
    (hn : ls.length ≤ n) : ll.read n = some ls := by
  rw [LookupList.read, walk_spells h.spells (by rwa [List.length_map]), Option.map_some,
    List.map_map]
  congr 1
  rw [List.map_congr_left (g := id) fun l hl => ?_, List.map_id]
  exact h.object l hl

/-- The name server with the list in memory beside it; a walk has as many rounds as there are
lookups. -/
def main.stepLinked {M : Type → Type} [StructMap M] (sys : Sys) (local_node : UInt32)
    (p : Context M × Option LookupList) (d : Datagram) : Context M × Option LookupList :=
  (main.step sys local_node p.1 d,
    p.2.bind fun ll => ll.update p.1.lookups.length (lookupOp sys local_node p.1 d))

/-- The list in memory after a run. -/
def main.linked {M : Type → Type} [StructMap M] (sys : Sys) (local_node : UInt32)
    (ds : List Datagram) : Context M × Option LookupList :=
  ds.foldl (main.stepLinked sys local_node) (main.start sys, some .init)

/-! ## Subscriptions

What a client means by its packets: it subscribes to a service and instance, and takes that back.
An entry for any instance is covered by a DEL_LOOKUP for each instance, which is the rule of
`ctrl_cmd_del_lookup`. -/

/-- A client that asks for a service. -/
structure Subscription where
  client : SockaddrQrtr
  service : UInt32
  instance_ : UInt32
deriving DecidableEq, Repr

/-- What a packet does to the subscriptions; `covers` says which instances of an entry a DEL_LOOKUP
for some instance is about. -/
def subscriptionStep {M : Type → Type} (covers : UInt32 → UInt32 → Bool) (sys : Sys)
    (local_node : UInt32) (s : Context M) (subs : List Subscription) (d : Datagram) :
    List Subscription :=
  if s.sock then
    match d.type with
    | some .new_lookup =>
      if d.sq.sq_node = local_node ∧ sys.calloc s.time 1 then
        subs ++ [⟨d.sq, d.msg.service, d.msg.instance_⟩]
      else subs
    | some .del_lookup =>
      subs.filter fun e => ¬ (e.client = d.sq ∧ e.service = d.msg.service ∧
        covers e.instance_ d.msg.instance_)
    | some .del_client =>
      match departed local_node d with
      | some sq => subs.filter fun e => e.client ≠ sq
      | none => subs
    | _ => subs
  else subs

/-- The subscriptions after a run. -/
def subscriptions {M : Type → Type} [StructMap M] (covers : UInt32 → UInt32 → Bool) (sys : Sys)
    (local_node : UInt32) (ds : List Datagram) : List Subscription :=
  (ds.foldl (fun p d => (main.step sys local_node p.1 d,
    subscriptionStep covers sys local_node p.1 p.2 d)) ((main.start sys : Context M), [])).2

/-- The subscription a lookup stands for. -/
def Lookup.subscription (l : Lookup) : Subscription := ⟨l.sq, l.service, l.instance_⟩

/-- An entry for any instance is covered by every instance. -/
def wildcard (entry instance_ : UInt32) : Bool := entry = instance_ ∨ entry = 0

theorem Lookup.deletedBy_iff (l : Lookup) (sq : SockaddrQrtr) (service instance_ : UInt32) :
    l.deletedBy sq service instance_ = true ↔
      l.sq = sq ∧ l.service = service ∧ wildcard l.instance_ instance_ = true := by
  simp only [Lookup.deletedBy, wildcard, decide_eq_true_eq, SockaddrQrtr.ext_iff]
  constructor
  · rintro ⟨hnode, hport, hservice, hinst⟩
    refine ⟨⟨hnode, hport⟩, hservice, ?_⟩
    by_cases hzero : l.instance_ = 0
    · exact .inr hzero
    · exact .inl (by_contra fun hne => hinst ⟨hzero, hne⟩)
  · rintro ⟨⟨hnode, hport⟩, hservice, hinst⟩
    exact ⟨hnode, hport, hservice, fun hne => hinst.elim hne.2 hne.1⟩

theorem Lookup.ownedBy_iff (l : Lookup) (sq : SockaddrQrtr) :
    l.ownedBy sq.sq_node sq.sq_port = true ↔ l.sq = sq := by
  rw [Lookup.ownedBy, decide_eq_true_eq, SockaddrQrtr.ext_iff]

/-- A packet does to the lookups what it does to the subscriptions. -/
theorem lookupOp_subscription {M : Type → Type} [StructMap M] (sys : Sys) (local_node : UInt32)
    (s : Context M) (d : Datagram) (ls : List Lookup) :
    ((lookupOp sys local_node s d).apply ls).map Lookup.subscription =
      subscriptionStep wildcard sys local_node s (ls.map Lookup.subscription) d := by
  unfold lookupOp subscriptionStep
  by_cases hsock : s.sock = true
  swap
  · rw [if_neg hsock, if_neg hsock]
    rfl
  rw [if_pos hsock, if_pos hsock]
  cases hcmd : d.type with
  | none => rfl
  | some type =>
    -- three handlers change the lookups; the others leave both sides alone
    cases type with
    | new_lookup =>
      simp only
      by_cases hlocal : d.sq.sq_node = local_node
      swap
      · rw [if_pos hlocal, if_neg fun h => hlocal h.1]
        rfl
      rw [if_neg (not_not.mpr hlocal)]
      by_cases hcalloc : sys.calloc s.time 1 = true
      · rw [if_pos hcalloc, if_pos ⟨hlocal, hcalloc⟩, LookupOp.apply, List.map_append]
        rfl
      · rw [if_neg hcalloc, if_neg fun h => hcalloc h.2]
        rfl
    | del_lookup =>
      simp only [LookupOp.apply]
      rw [List.filter_map]
      congr 1
      refine List.filter_congr fun l _ => ?_
      rw [Bool.eq_iff_iff, Bool.not_eq_true', Bool.eq_false_iff, ne_eq, Lookup.deletedBy_iff]
      simp only [Function.comp_apply, decide_eq_true_eq]
      rfl
    | del_client =>
      simp only [departed, hcmd, true_and]
      by_cases hnode : d.sq.sq_node = d.msg.client_node
      swap
      · rw [if_pos hnode, if_neg fun h => hnode h.1]
        rfl
      rw [if_neg (not_not.mpr hnode)]
      by_cases hport : d.sq.sq_node = local_node ∧ d.sq.sq_port ≠ d.msg.client_port
      · rw [if_pos hport, if_neg fun h => hport.2 (h.2 hport.1)]
        rfl
      -- only the client itself may take its lookups back, if it is a local one
      · have hown : d.sq.sq_node = local_node → d.sq.sq_port = d.msg.client_port :=
          fun hlocal => by_contra fun hne => hport ⟨hlocal, hne⟩
        rw [if_neg hport, if_pos ⟨hnode, hown⟩, LookupOp.apply]
        simp only
        rw [List.filter_map]
        congr 1
        refine List.filter_congr fun l _ => ?_
        rw [Bool.eq_iff_iff, Bool.not_eq_true', Bool.eq_false_iff, ne_eq,
          Lookup.ownedBy_iff l ⟨d.msg.client_node, d.msg.client_port⟩]
        simp only [Function.comp_apply, decide_eq_true_eq]
        rfl
    | data | hello | bye | new_server | del_server | resume_tx | exit | ping => rfl

/-- The list in memory, the list of `Ns` and the subscriptions, side by side along a run. -/
theorem linked_run {M : Type → Type} [StructMap M] [LawfulMap M] (sys : Sys) (local_node : UInt32)
    (ds : List Datagram) {s : Context M} {ll : LookupList} {subs : List Subscription}
    (hnodes : Nodes s) (hsound : Sound local_node s.view) (hll : ll.Holds s.lookups)
    (hsubs : s.lookups.map Lookup.subscription = subs) :
    ∃ ll', ds.foldl (main.stepLinked sys local_node) (s, some ll) =
        (ds.foldl (main.step sys local_node) s, some ll') ∧
      ll'.Holds (ds.foldl (main.step sys local_node) s).lookups ∧
      (ds.foldl (main.step sys local_node) s).lookups.map Lookup.subscription =
        (ds.foldl (fun p d => (main.step sys local_node p.1 d,
          subscriptionStep wildcard sys local_node p.1 p.2 d)) (s, subs)).2 := by
  induction ds generalizing s ll subs with
  | nil => exact ⟨ll, rfl, hll, hsubs⟩
  | cons d ds ih =>
    have hperf := main_step_refines sys local_node hnodes d
    have hsound' : Sound local_node (main.step sys local_node s d).view :=
      hperf.induction (fun _ _ hv hdeed => hv.deed hdeed) hsound
    have hlookups := main_step_lookups sys local_node hnodes d
    -- a new lookup has the time for its number, and the others are older
    have hfresh : ∀ l, lookupOp sys local_node s d = .append l → l.id ∉ s.lookups.map Lookup.id := by
      intro l hop hmem
      obtain ⟨l', hl', hid⟩ := List.mem_map.mp hmem
      have hlt := hsound.older l' hl'
      have htime : l.id = s.time := by
        unfold lookupOp at hop
        split at hop
        · split at hop
          · split at hop
            · cases hop
            · split at hop
              · cases hop
                rfl
              · cases hop
          · cases hop
          · split at hop
            · cases hop
            · split at hop
              · cases hop
              · cases hop
          · cases hop
        · cases hop
      rw [Context.view_time] at hlt
      omega
    obtain ⟨ll1, hupdate, hll1⟩ := hll.update le_rfl hfresh
    rw [← hlookups] at hll1
    have hsubs1 : (main.step sys local_node s d).lookups.map Lookup.subscription =
        subscriptionStep wildcard sys local_node s subs d := by
      rw [hlookups, lookupOp_subscription, hsubs]
    have hstep : main.stepLinked sys local_node (s, some ll) d =
        (main.step sys local_node s d, some ll1) := by
      rw [main.stepLinked, Option.bind_some, hupdate]
    rw [List.foldl_cons, List.foldl_cons, List.foldl_cons, hstep]
    exact ih hperf.nodes hsound' hll1 hsubs1

/-- **Subscription bookkeeping.** After every run the list in memory is there, a walk of it reads the
lookups of the state in their order, and they are the subscriptions: a NEW_LOOKUP that is accepted
appends one, a DEL_LOOKUP removes those of its client for its service whose instance is the same or
zero, a DEL_CLIENT that is accepted removes those of its client, and no other packet changes
anything. -/
theorem lookups_follow_subscriptions (sys : Sys) (local_node : UInt32) (ds : List Datagram) :
    ∃ ll, (main.linked sys local_node ds : Context Map × Option LookupList) =
        (main.run sys local_node ds, some ll) ∧
      (∀ n, (main.run sys local_node ds : Context Map).lookups.length ≤ n →
        ll.read n = some (main.run sys local_node ds : Context Map).lookups) ∧
      (main.run sys local_node ds : Context Map).lookups.map Lookup.subscription =
        subscriptions (M := Map) wildcard sys local_node ds := by
  obtain ⟨hnodes, o, t, -, hview⟩ := main_start (M := Map) sys
  have hlookups : (main.start sys : Context Map).lookups = [] := congrArg View.lookups hview
  have hsound : Sound local_node (main.start sys : Context Map).view := by
    rw [hview]
    exact .start o t
  have hll : LookupList.init.Holds (main.start sys : Context Map).lookups := by
    rw [hlookups]
    exact ⟨.init _, fun l hl => absurd hl List.not_mem_nil⟩
  have hnone : (main.start sys : Context Map).lookups.map Lookup.subscription = [] := by
    rw [hlookups, List.map_nil]
  obtain ⟨ll, hlinked, hholds, hsubs⟩ := linked_run sys local_node ds hnodes hsound hll hnone
  exact ⟨ll, hlinked, fun n hn => hholds.read hn, hsubs⟩

/-- Port 20 of node 1 asks for any instance of service 5 and then takes back a lookup for instance 6,
which it never made: the first one is gone. -/
theorem del_lookup_drops_wildcard :
    ¬ ∀ ds, (main.run allWell 1 ds : Context Map).lookups.map Lookup.subscription =
      subscriptions (M := Map) (fun entry instance_ => entry = instance_) allWell 1 ds := by
  intro hall
  have h := hall [packet ⟨1, 20⟩ ⟨QrtrType.new_lookup.code, 5, 0, 0, 0⟩,
    packet ⟨1, 20⟩ ⟨QrtrType.del_lookup.code, 5, 6, 0, 0⟩]
  exact absurd h (by decide +kernel)

end Dragonboard.Ns
