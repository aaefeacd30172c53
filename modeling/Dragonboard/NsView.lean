/-
The registry the name server maintains, without the memory it maintains it in.

Clients see a table of servers for every node id, the list of lookups, and the packets that
are sent. `View` is just that: where the code has a map of pointers to nodes, it has a function
from node ids to tables, empty where there is no node. Whether a node was allocated
cannot be seen, and `node_get` changes nothing.

Every function of `ns.c` gets its specification here, as the view it leaves behind. Packets
are described by the list that goes out if every send succeeds; what does go out is
a sublist of it (`Took`).
-/
import Dragonboard.Ns
import Mathlib.Logic.Function.Basic
import Mathlib.Data.List.Basic

set_option autoImplicit false

namespace Dragonboard.Ns

open Dragonboard.Memory Dragonboard.MapApi

/-- Different ids have different keys: the multiplier of `hash_u32` is odd. -/
theorem hash_u32_injective : Function.Injective hash_u32 := by
  intro a b h
  have hinv : ∀ x, hash_u32 x * 244002641 = x := by
    intro x
    rw [hash_u32, UInt32.mul_assoc]
    exact UInt32.mul_one x
  rw [← hinv a, h, hinv b]

@[simp] theorem hash_u32_inj {a b : UInt32} : hash_u32 a = hash_u32 b ↔ a = b :=
  hash_u32_injective.eq_iff

/-! ## Packets in memory

Packets are sent as bytes and read as bytes. Different packets have different bytes, and a buffer
that begins with a packet is read as that packet. -/

theorem wordAt_of_holds {m : Mem} {offset : ℕ} {w : UInt32} (h : Holds m offset (le32 w)) :
    wordAt m offset = w := by
  have hlen : (le32 w).length = 4 := leBytes_length 4 _
  rw [Holds, hlen] at h
  rw [wordAt, h, le32, leNat_leBytes 4 _ w.toNat_lt]
  exact UInt32.ofNat_toNat

/-- A buffer that begins with the bytes of a packet is taken for it. -/
theorem QrtrCtrlPkt.read_of_holds {m : Mem} {pkt : QrtrCtrlPkt} (h : Holds m 0 pkt.bytes) :
    QrtrCtrlPkt.read m = pkt := by
  unfold QrtrCtrlPkt.bytes at h
  have h4 := wordAt_of_holds h.right
  have h3 := wordAt_of_holds h.left.right
  have h2 := wordAt_of_holds h.left.left.right
  have h1 := wordAt_of_holds h.left.left.left.right
  have h0 := wordAt_of_holds h.left.left.left.left
  simp only [List.length_append, le32, leBytes_length, Nat.zero_add, Nat.reduceAdd] at h1 h2 h3 h4
  rw [QrtrCtrlPkt.read, h0, h1, h2, h3, h4]

theorem QrtrCtrlPkt.bytes_injective : Function.Injective QrtrCtrlPkt.bytes := by
  intro pkt pkt' h
  have hholds := holds_writeAt (fun _ => 0) 0 pkt.bytes
  rw [← QrtrCtrlPkt.read_of_holds hholds]
  rw [h] at hholds ⊢
  exact QrtrCtrlPkt.read_of_holds hholds

@[simp] theorem QrtrCtrlPkt.bytes_length (pkt : QrtrCtrlPkt) : pkt.bytes.length = 20 := by
  simp [QrtrCtrlPkt.bytes, le32]

section View

variable {M : Type → Type} [StructMap M]

/-! ## The view

What the handlers do is described by what can be seen from outside: the tables of records, the
lookups, and what was sent. Struct nodes, their addresses and the calls to the system are left
out. -/

/-- The address of the node with an id. -/
def Context.registered (s : Context M) (node_id : UInt32) : Option ℕ :=
  map_get s.nodes (hash_u32 node_id)

/-- The table of servers of the node with an id. -/
def Context.reg (s : Context M) (node_id : UInt32) : M Server :=
  ((s.registered node_id).map s.services).getD map_create

/-- The servers in a table, in the order of a walk. -/
def records (services : M Server) : List Server :=
  map_for_each (fun _ => services) (fun l srv => l ++ [srv]) []

/-- What clients can see of the name server, and its clock. -/
structure View (M : Type → Type) where
  reg : UInt32 → M Server
  lookups : List Lookup
  sent : List Sent
  time : ℕ

/-- The view of a state. -/
def Context.view (s : Context M) : View M := ⟨s.reg, s.lookups, s.sent, s.time⟩

@[simp] theorem Context.view_reg (s : Context M) : s.view.reg = s.reg := rfl

@[simp] theorem Context.view_lookups (s : Context M) : s.view.lookups = s.lookups := rfl

@[simp] theorem Context.view_sent (s : Context M) : s.view.sent = s.sent := rfl

@[simp] theorem Context.view_time (s : Context M) : s.view.time = s.time := rfl

theorem Context.services_eq {s : Context M} {x : UInt32} {i : ℕ} (hi : s.registered x = some i) :
    s.services i = s.reg x := by
  rw [Context.reg, hi, Option.map_some, Option.getD_some]

variable [LawfulMap M]

open LawfulMap

theorem records_eq (m : M Server) : records m = (items m).map Prod.snd := by
  rw [records, map_for_each_const]
  have hfold : ∀ (l : List (UInt32 × Server)) (acc : List Server),
      l.foldl (fun a e => a ++ [e.2]) acc = acc ++ l.map Prod.snd := by
    intro l
    induction l with
    | nil => simp
    | cons e l ih =>
      intro acc
      rw [List.foldl_cons, ih]
      simp
  rw [hfold, List.nil_append]

@[simp] theorem records_create : records (map_create : M Server) = [] := by
  rw [records_eq, items_create, List.map_nil]

/-- The map of nodes leads to nodes with the right ids. -/
structure Nodes (s : Context M) : Prop where
  good : Good s.nodes
  node : ∀ {key : UInt32} {i : ℕ}, map_get s.nodes key = some i →
    ∃ n, s.heap[i]? = some n ∧ hash_u32 n.id = key

/-- A state whose view is `v`, reached from `s` without losing a node. -/
structure Becomes (s s' : Context M) (v : View M) : Prop where
  nodes : Nodes s'
  view : s'.view = v
  sock : s'.sock = s.sock
  kept : ∀ {x : UInt32} {i : ℕ}, s.registered x = some i → s'.registered x = some i

theorem Becomes.refl {s : Context M} (h : Nodes s) : Becomes s s s.view :=
  ⟨h, rfl, rfl, fun hx => hx⟩

theorem Becomes.trans {s s' s'' : Context M} {v w : View M} (h : Becomes s s' v)
    (h' : Becomes s' s'' w) : Becomes s s'' w :=
  ⟨h'.nodes, h'.view, h'.sock.trans h.sock, fun hx => h'.kept (h.kept hx)⟩

/-- A change that does not touch the nodes. -/
theorem Becomes.of_same {s s' : Context M} (h : Nodes s) (hheap : s'.heap = s.heap)
    (hnodes : s'.nodes = s.nodes) (hsock : s'.sock = s.sock) :
    Becomes s s' ⟨s.reg, s'.lookups, s'.sent, s'.time⟩ := by
  have hservices : s'.services = s.services := by
    funext i
    rw [Context.services, hheap, Context.services]
  have hreg : s'.reg = s.reg := by
    funext x
    simp only [Context.reg, Context.registered, hservices, hnodes]
  refine ⟨⟨by rw [hnodes]; exact h.good, ?_⟩, ?_, hsock, ?_⟩
  · intro key i hi
    rw [hnodes] at hi
    rw [hheap]
    exact h.node hi
  · rw [Context.view, hreg]
  · intro x i hx
    rwa [Context.registered, hnodes]

/-! ## Sending

Most of what a handler does is sending. `Sends` says that nothing else happens, and is closed
under composition and loops. -/

/-- Every send succeeds, with all of its bytes. -/
def Sys.Delivers (sys : Sys) : Prop := ∀ t dest data, sys.sendto t dest data = data.length

/-- Every allocation succeeds. -/
def Sys.Allocates (sys : Sys) : Prop := ∀ t n, sys.calloc t n = true

/-- Of the packets `out` those in `o` went out; all of them, if sends succeed. -/
structure Took (sys : Sys) (o out : List Sent) : Prop where
  sublist : o.Sublist out
  all : sys.Delivers → o = out

theorem Took.nil (sys : Sys) : Took sys [] [] := ⟨List.Sublist.refl [], fun _ => rfl⟩

theorem Took.append {sys : Sys} {o out o' out' : List Sent} (h : Took sys o out)
    (h' : Took sys o' out') : Took sys (o ++ o') (out ++ out') :=
  ⟨h.sublist.append h'.sublist, fun hd => by rw [h.all hd, h'.all hd]⟩

/-- A change that consists of sending. -/
def Sends (sys : Sys) (s s' : Context M) (out : List Sent) : Prop :=
  ∃ o t, Took sys o out ∧ s.time ≤ t ∧
    Becomes s s' { s.view with sent := s.sent ++ o, time := t }

/-- A change that cannot be seen, apart from the clock. -/
theorem Sends.idle {sys : Sys} {s s' : Context M} {t : ℕ} (ht : s.time ≤ t)
    (h : Becomes s s' { s.view with time := t }) : Sends sys s s' [] := by
  refine ⟨[], t, .nil sys, ht, ?_⟩
  rw [List.append_nil]
  exact h

theorem Sends.refl {sys : Sys} {s : Context M} (h : Nodes s) : Sends sys s s [] :=
  .idle le_rfl (.refl h)

/-- The tables and lookups stay. -/
theorem Sends.reg {sys : Sys} {s s' : Context M} {out : List Sent} (h : Sends sys s s' out) :
    s'.reg = s.reg ∧ s'.lookups = s.lookups := by
  obtain ⟨o, t, -, -, hb⟩ := h
  exact ⟨congrArg View.reg hb.view, congrArg View.lookups hb.view⟩

theorem Sends.nodes {sys : Sys} {s s' : Context M} {out : List Sent} (h : Sends sys s s' out) :
    Nodes s' := by
  obtain ⟨o, t, -, -, hb⟩ := h
  exact hb.nodes

/-- Sending after some change. -/
theorem Becomes.sends {sys : Sys} {s s' s'' : Context M} {v : View M} {out : List Sent}
    (h : Becomes s s' v) (h' : Sends sys s' s'' out) :
    ∃ o t, Took sys o out ∧ v.time ≤ t ∧
      Becomes s s'' { v with sent := v.sent ++ o, time := t } := by
  obtain ⟨o, t, ho, ht, hb⟩ := h'
  have hview := h.view
  subst hview
  exact ⟨o, t, ho, ht, h.trans hb⟩

theorem Sends.trans {sys : Sys} {s s' s'' : Context M} {out out' : List Sent}
    (h : Sends sys s s' out) (h' : Sends sys s' s'' out') : Sends sys s s'' (out ++ out') := by
  obtain ⟨o, t, ho, ht, hb⟩ := h
  obtain ⟨o', t', ho', ht', hb'⟩ := hb.sends h'
  refine ⟨o ++ o', t', ho.append ho', le_trans ht ht', ?_⟩
  rw [← List.append_assoc]
  exact hb'

/-- A loop whose body sends. -/
theorem Sends.foldl {sys : Sys} {β : Type} {f : Context M → β → Context M} {g : β → List Sent}
    (hf : ∀ s b, Nodes s → Sends sys s (f s b) (g b)) (l : List β) {s : Context M} (h : Nodes s) :
    Sends sys s (l.foldl f s) (l.flatMap g) := by
  induction l generalizing s with
  | nil => exact .refl h
  | cons b l ih =>
    rw [List.foldl_cons, List.flatMap_cons]
    exact (hf s b h).trans (ih (hf s b h).nodes)

/-! ## Nodes

`node_get` may allocate a struct node, which no client can see: its table is empty. -/

/-- A node is the node of one id. -/
theorem Nodes.injective {s : Context M} (h : Nodes s) {x y : UInt32} {i : ℕ}
    (hx : s.registered x = some i) (hy : s.registered y = some i) : x = y := by
  obtain ⟨n, hn, hkx⟩ := h.node hx
  obtain ⟨n', hn', hky⟩ := h.node hy
  rw [hn] at hn'
  cases hn'
  exact hash_u32_injective (hkx.symm.trans hky)

/-- Writing to the table of one node. -/
theorem Nodes.setServices {s : Context M} (h : Nodes s) {x : UInt32} {i : ℕ}
    (hi : s.registered x = some i) (m : M Server) :
    Becomes s (s.setServices i m) { s.view with reg := Function.update s.reg x m } := by
  obtain ⟨n, hn, hkey⟩ := h.node hi
  refine ⟨⟨h.good, ?_⟩, ?_, rfl, fun hx => hx⟩
  · intro key j hj
    obtain ⟨n', hn', hkey'⟩ := h.node hj
    simp only [Context.setServices, List.getElem?_modify]
    rw [hn', Option.map_eq_map, Option.map_some]
    by_cases hij : i = j
    · exact ⟨_, rfl, by rw [if_pos hij]; exact hkey'⟩
    · exact ⟨_, rfl, by rw [if_neg hij]; exact hkey'⟩
  · have hreg : (s.setServices i m).reg = Function.update s.reg x m := by
      funext y
      have hsame : (s.setServices i m).registered y = s.registered y := rfl
      rw [Context.reg, hsame]
      by_cases hxy : y = x
      · subst hxy
        rw [hi, Option.map_some, Option.getD_some, Function.update_self]
        simp only [Context.services, Context.setServices, List.getElem?_modify]
        rw [hn, Option.map_eq_map, Option.map_some, if_pos trivial]
        rfl
      · rw [Function.update_of_ne hxy, Context.reg]
        cases hy : s.registered y with
        | none => rfl
        | some j =>
          -- another node has another address
          have hij : i ≠ j := by
            rintro rfl
            exact hxy (h.injective hy hi)
          simp only [Option.map_some, Option.getD_some, Context.services, Context.setServices,
            List.getElem?_modify, if_neg hij, Option.map_eq_map, Option.map_id']
    rw [Context.view, hreg]
    rfl

/-- A node added to the map, with an empty table. -/
theorem Nodes.add {s : Context M} (h : Nodes s) {x : UInt32} (hx : s.registered x = none)
    {nodes : M ℕ} (hgood : Good nodes)
    (hget : ∀ key, map_get nodes key =
      if key = hash_u32 x then some s.heap.length else map_get s.nodes key) (t : ℕ) :
    Becomes s { s with nodes := nodes, heap := s.heap ++ [⟨x, map_create⟩], time := t }
      { s.view with time := t } := by
  -- the nodes that were there keep their addresses
  have hold : ∀ {key : UInt32} {i : ℕ}, map_get s.nodes key = some i →
      (s.heap ++ [⟨x, map_create⟩])[i]? = s.heap[i]? := by
    intro key i hi
    obtain ⟨n, hn, -⟩ := h.node hi
    exact List.getElem?_append_left (List.getElem?_eq_some_iff.mp hn).1
  refine ⟨⟨hgood, ?_⟩, ?_, rfl, ?_⟩
  · intro key i hi
    simp only at hi ⊢
    rw [hget] at hi
    by_cases hkey : key = hash_u32 x
    · rw [if_pos hkey] at hi
      cases hi
      exact ⟨⟨x, map_create⟩, by simp, hkey.symm⟩
    · rw [if_neg hkey] at hi
      rw [hold hi]
      exact h.node hi
  -- the new table is empty, as that of an id without a node
  · have hreg : ∀ y, Context.reg { s with
        nodes := nodes, heap := s.heap ++ [⟨x, map_create⟩], time := t } y = s.reg y := by
      intro y
      rw [Context.reg, Context.registered, hget, Context.reg, Context.registered]
      by_cases hyx : y = x
      · subst hyx
        rw [if_pos rfl, show map_get s.nodes (hash_u32 y) = none from hx, Option.map_some,
          Option.getD_some, Context.services, List.getElem?_concat_length]
        rfl
      · rw [if_neg (by simpa using hyx)]
        cases hy : map_get s.nodes (hash_u32 y) with
        | none => rfl
        | some j =>
          rw [Option.map_some, Option.getD_some, Context.services, hold hy]
          rfl
    rw [Context.view, funext hreg]
    rfl
  · intro y i hy
    change map_get nodes (hash_u32 y) = some i
    rw [hget, if_neg]
    · exact hy
    · intro heq
      rw [Context.registered, heq, show map_get s.nodes (hash_u32 x) = none from hx] at hy
      cases hy

theorem Becomes.setServices {s s' : Context M} {v : View M} (h : Becomes s s' v) {x : UInt32} {i : ℕ}
    (hi : s'.registered x = some i) (m : M Server) :
    Becomes s (s'.setServices i m) { v with reg := Function.update v.reg x m } := by
  have hview := h.view
  subst hview
  exact h.trans (h.nodes.setServices hi m)

theorem Becomes.tick {s s' : Context M} {v : View M} (h : Becomes s s' v) :
    Becomes s s'.tick { v with time := v.time + 1 } := by
  have hview := h.view
  subst hview
  exact h.trans (.of_same h.nodes rfl rfl rfl)

/-- **`node_get` cannot be seen.** It returns the node of the id, or null if there is none and
there is no memory for it. -/
theorem Nodes.node_get (sys : Sys) {s : Context M} (h : Nodes s) (x : UInt32) :
    Sends sys s (node_get sys s x).2 [] ∧
      match (node_get sys s x).1 with
      | some i => (node_get sys s x).2.registered x = some i
      | none => s.registered x = none ∧ ∃ t n, sys.calloc t n = false := by
  unfold Ns.node_get
  cases hx : map_get s.nodes (hash_u32 x) with
  | some i => exact ⟨.refl h, hx⟩
  | none =>
    simp only
    by_cases hc : sys.calloc s.time 1 = true
    · rw [if_pos hc, map_put]
      simp only
      cases hput : (map_reput (sys.calloc s.tick.time) s.nodes (hash_u32 x) s.heap.length).2 with
      | error rc =>
        simp only [Except.map]
        obtain ⟨hsame, n, hn⟩ := reput_error hput
        have htime : s.time ≤ s.tick.tick.time := by
          simp only [Context.tick]
          omega
        exact ⟨.idle htime (.of_same h rfl hsame rfl), hx, _, n, hn⟩
      | ok old =>
        simp only [Except.map]
        obtain ⟨hgood, -⟩ := reput_fresh h.good hx hput
        have hget := map_get_reput_fresh h.good hx hput
        refine ⟨.idle (by omega) (h.add hx hgood hget (s.time + 2)), ?_⟩
        simp only [Context.registered]
        rw [hget, if_pos rfl]
    · rw [if_neg hc]
      exact ⟨.idle (by simp [Context.tick]) (.of_same h rfl rfl rfl), hx, s.time, 1,
        by simpa using hc⟩

/-! ## Announcements

One theorem for each handler: the view it leaves, as a function of the view it finds and of the
packet. Later modules use these theorems only and never unfold a handler. -/

theorem Nodes.sendto (sys : Sys) {s : Context M} (h : Nodes s) (dest : SockaddrQrtr)
    (data : List UInt8) (lookup : Option ℕ) :
    Sends sys s (sendto sys s dest data lookup).2 [⟨dest, data, lookup⟩] := by
  unfold Ns.sendto
  by_cases hrc : sys.sendto s.time dest data < 0
  · refine ⟨[], s.time + 1, ⟨List.nil_sublist _, fun hd => ?_⟩, by omega, ?_⟩
    · have := hd s.time dest data
      omega
    · simp only [if_pos hrc, List.append_nil]
      exact .of_same h rfl rfl rfl
  · refine ⟨[⟨dest, data, lookup⟩], s.time + 1, ⟨List.Sublist.refl _, fun _ => rfl⟩, by omega, ?_⟩
    simp only [if_neg hrc]
    exact .of_same h rfl rfl rfl

/-- What the lookups are told of a server. -/
def notices (type : QrtrType) (lookups : List Lookup) (srv : Server) : List Sent :=
  lookups.flatMap fun l => if l.wants srv.service srv.instance_ then
    [⟨l.sq, (srv.pkt type).bytes, some l.id⟩] else []

theorem mem_notices {type : QrtrType} {ls : List Lookup} {srv : Server} {p : Sent}
    (h : p ∈ notices type ls srv) : ∃ l ∈ ls, p = ⟨l.sq, (srv.pkt type).bytes, some l.id⟩ := by
  obtain ⟨l, hl, hp⟩ := List.mem_flatMap.mp h
  refine ⟨l, hl, ?_⟩
  split at hp
  · exact List.mem_singleton.mp hp
  · exact absurd hp List.not_mem_nil

theorem Nodes.notify_lookups (sys : Sys) {s : Context M} (h : Nodes s) (srv : Server) (new : Bool) :
    Sends sys s (notify_lookups sys s srv new)
      (notices (if new then .new_server else .del_server) s.lookups srv) := by
  refine Sends.foldl (fun s l hs => ?_) s.lookups h
  by_cases hw : l.wants srv.service srv.instance_ = true
  · rw [if_pos hw, if_pos hw]
    exact hs.sendto sys _ _ _
  · rw [if_neg hw, if_neg hw]
    exact .refl hs

/-- What the services of a node are told of a departure. -/
theorem Nodes.propagate (sys : Sys) {s : Context M} (h : Nodes s) {x : UInt32} {i : ℕ}
    (hi : s.registered x = some i) (pkt : QrtrCtrlPkt) :
    Sends sys s (propagate sys s i pkt)
      ((records (s.reg x)).map fun srv => ⟨⟨srv.node, srv.port⟩, pkt.bytes, none⟩) := by
  unfold Ns.propagate
  rw [map_for_each_const, Context.services_eq hi, records_eq, List.map_map,
    List.map_eq_flatMap]
  refine Sends.foldl (fun s e hs => ?_) _ h
  exact hs.sendto sys _ _ _

/-- **`advertise_removal`** tells every local service. -/
theorem Nodes.advertise_removal (sys : Sys) (local_node : UInt32) {s : Context M} (h : Nodes s)
    (pkt : ℕ → QrtrCtrlPkt) :
    ∃ t, Sends sys s (advertise_removal sys local_node s pkt).2
      ((records (s.reg local_node)).map fun srv =>
        ⟨⟨srv.node, srv.port⟩, (pkt t).bytes, none⟩) := by
  obtain ⟨hget, hnode⟩ := h.node_get sys local_node
  refine ⟨(Ns.node_get sys s local_node).2.time, ?_⟩
  unfold Ns.advertise_removal
  simp only
  cases hr : (Ns.node_get sys s local_node).1 with
  | none =>
    rw [hr] at hnode
    rw [Context.reg, hnode.1, Option.map_none, Option.getD_none, records_create]
    exact hget
  | some i =>
    rw [hr] at hnode
    have hsend := hget.nodes.propagate sys hnode (pkt (Ns.node_get sys s local_node).2.time)
    rw [hget.reg.1] at hsend
    exact hget.trans hsend

/-- The local servers announced to one address. -/
def announcements (sq : SockaddrQrtr) (servers : List Server) : List Sent :=
  servers.map fun srv => ⟨sq, (srv.pkt .new_server).bytes, none⟩

/-- The walk of `annouce_servers`: it goes on after a send only if that has not failed. -/
theorem Sends.announce (sys : Sys) (sq : SockaddrQrtr) (l : List (UInt32 × Server))
    {r : ℤ × Context M} (h : Nodes r.2) (hrc : sys.Delivers → ¬ r.1 < 0) :
    Sends sys r.2 (l.foldl (fun r e => annouce_servers.body sys sq r e.2) r).2
      (announcements sq (l.map Prod.snd)) := by
  induction l generalizing r with
  | nil => exact .refl h
  | cons e l ih =>
    rw [List.foldl_cons]
    by_cases hneg : r.1 < 0
    · -- a send has failed before, so not all of them have to go out
      rw [annouce_servers.body, if_pos hneg]
      obtain ⟨o, t, ho, ht, hb⟩ := ih h hrc
      exact ⟨o, t, ⟨ho.sublist.trans (List.sublist_cons_self _ _), fun hd => absurd hneg (hrc hd)⟩,
        ht, hb⟩
    · have hsend : Sends sys r.2 (annouce_servers.body sys sq r e.2).2
          [⟨sq, (e.2.pkt .new_server).bytes, none⟩] := by
        rw [annouce_servers.body, if_neg hneg]
        exact h.sendto sys _ _ _
      have hok : sys.Delivers → ¬ (annouce_servers.body sys sq r e.2).1 < 0 := by
        intro hd
        have hlen := hd r.2.time sq (e.2.pkt .new_server).bytes
        simp only [annouce_servers.body, if_neg hneg, service_announce_new, Ns.sendto]
        rw [if_neg (by omega)]
        omega
      exact hsend.trans (ih hsend.nodes hok)

theorem Nodes.annouce_servers (sys : Sys) (local_node : UInt32) {s : Context M} (h : Nodes s)
    (sq : SockaddrQrtr) :
    Sends sys s (annouce_servers sys local_node s sq).2
      (announcements sq (records (s.reg local_node))) := by
  obtain ⟨hget, hnode⟩ := h.node_get sys local_node
  unfold Ns.annouce_servers
  simp only
  cases hr : (Ns.node_get sys s local_node).1 with
  | none =>
    rw [hr] at hnode
    rw [Context.reg, hnode.1]
    simp only [Option.map_none, Option.getD_none, records_create]
    exact hget
  | some i =>
    rw [hr] at hnode
    simp only at hnode ⊢
    rw [map_for_each_const, Context.services_eq hnode, hget.reg.1, records_eq]
    have hloop := Sends.announce sys sq (items (s.reg local_node))
      (r := (0, (Ns.node_get sys s local_node).2)) hget.nodes (fun _ => by simp)
    exact hget.trans hloop

/-- What goes out on a HELLO: the packet itself, and the local servers. -/
theorem Nodes.ctrl_cmd_hello (sys : Sys) (local_node : UInt32) {s : Context M} (h : Nodes s)
    (sq : SockaddrQrtr) {buf : List UInt8} (hbuf : buf ≠ []) :
    Sends sys s (ctrl_cmd_hello sys local_node s sq buf).2
      (⟨sq, buf, none⟩ :: announcements sq (records (s.reg local_node))) := by
  have hsend := h.sendto sys sq buf none
  unfold Ns.ctrl_cmd_hello
  simp only
  by_cases hrc : (Ns.sendto sys s sq buf none).1 > 0
  · rw [if_pos hrc]
    have hann := hsend.nodes.annouce_servers sys local_node sq
    rw [hsend.reg.1] at hann
    exact hsend.trans hann
  · rw [if_neg hrc]
    obtain ⟨o, t, ho, ht, hb⟩ := hsend
    refine ⟨o, t, ⟨ho.sublist.trans (List.singleton_sublist.mpr List.mem_cons_self), ?_⟩, ht, hb⟩
    intro hd
    have hlen := List.length_pos_iff.mpr hbuf
    rw [Ns.sendto, hd s.time sq buf] at hrc
    omega

/-- What goes out when a server has come or gone: a broadcast if it is local, and the notices. -/
def news (type : QrtrType) (local_node : UInt32) (lookups : List Lookup) (srv : Server) :
    List Sent :=
  (if srv.node = local_node then [⟨bcast_sq, (srv.pkt type).bytes, none⟩] else []) ++
    notices type lookups srv

/-- News are packets of one kind about one server. -/
theorem news_data {type : QrtrType} {local_node : UInt32} {ls : List Lookup} {srv : Server} {p : Sent}
    (hp : p ∈ news type local_node ls srv) : p.data = (srv.pkt type).bytes := by
  rcases List.mem_append.mp hp with hp | hp
  · split at hp
    · rw [List.mem_singleton.mp hp]
    · exact absurd hp List.not_mem_nil
  · obtain ⟨l, -, rfl⟩ := mem_notices hp
    rfl

/-- The broadcast of a local server, and then the notices. -/
theorem Nodes.spread (sys : Sys) (local_node : UInt32) {s : Context M} (h : Nodes s) (srv : Server)
    (new : Bool) :
    Sends sys s (Ns.notify_lookups sys (if srv.node = local_node then
        (Ns.sendto sys s bcast_sq (srv.pkt (if new then .new_server else .del_server)).bytes none).2
        else s) srv new)
      (news (if new then .new_server else .del_server) local_node s.lookups srv) := by
  unfold news
  by_cases hlocal : srv.node = local_node
  · rw [if_pos hlocal, if_pos hlocal]
    have hsend := h.sendto sys bcast_sq
      (srv.pkt (if new then .new_server else .del_server)).bytes none
    have hnotify := hsend.nodes.notify_lookups sys srv new
    rw [hsend.reg.2] at hnotify
    exact hsend.trans hnotify
  · rw [if_neg hlocal, if_neg hlocal, List.nil_append]
    exact h.notify_lookups sys srv new

/-- **`server_del`** takes out the record of the port, if there is one, and tells of it. -/
theorem Nodes.server_del (sys : Sys) (local_node : UInt32) {s : Context M} (h : Nodes s)
    {x : UInt32} {i : ℕ} (hi : s.registered x = some i) (port : UInt32) :
    match map_get (s.reg x) (hash_u32 port) with
    | none => (server_del sys local_node s i port).2 = s
    | some srv => ∃ o t, Took sys o (news .del_server local_node s.lookups srv) ∧ s.time ≤ t ∧
        Becomes s (server_del sys local_node s i port).2
          ⟨Function.update s.reg x (map_remove (s.reg x) (hash_u32 port)).1, s.lookups,
            s.sent ++ o, t⟩ := by
  unfold Ns.server_del
  rw [Context.services_eq hi]
  cases hg : map_get (s.reg x) (hash_u32 port) with
  | none => rfl
  | some srv =>
    simp only
    have hset := h.setServices hi (map_remove (s.reg x) (hash_u32 port)).1
    exact hset.sends (hset.nodes.spread sys local_node srv false)

/-- **`server_add`** puts the record into the table of its node, unless it is not one or there is no
memory. -/
theorem Nodes.server_add (sys : Sys) {s : Context M} (h : Nodes s)
    (service instance_ x port : UInt32) :
    match (server_add sys s service instance_ x port).1 with
    | none => Sends sys s (server_add sys s service instance_ x port).2 [] ∧
        (service ≠ 0 → port ≠ 0 → ∃ t n, sys.calloc t n = false)
    | some srv => srv = ⟨service, instance_, x, port⟩ ∧ service ≠ 0 ∧ port ≠ 0 ∧
        ∃ u old t, (map_reput (sys.calloc u) (s.reg x) (hash_u32 port) srv).2 = .ok old ∧
          s.time ≤ t ∧ Becomes s (server_add sys s service instance_ x port).2
            ⟨Function.update s.reg x (map_reput (sys.calloc u) (s.reg x) (hash_u32 port) srv).1,
              s.lookups, s.sent, t⟩ := by
  unfold Ns.server_add
  by_cases hzero : service = 0 ∨ port = 0
  · rw [if_pos hzero]
    refine ⟨.refl h, fun hs hp => ?_⟩
    rcases hzero with hz | hz
    · exact absurd hz hs
    · exact absurd hz hp
  rw [if_neg hzero]
  obtain ⟨hservice, hport⟩ := not_or.mp hzero
  by_cases hc : sys.calloc s.time 1 = true
  swap
  · rw [if_neg hc]
    exact ⟨.idle (by simp [Context.tick]) (.of_same h rfl rfl rfl),
      fun _ _ => ⟨s.time, 1, by simpa using hc⟩⟩
  rw [if_pos hc]
  have htick : Sends sys s s.tick [] := .idle (by simp [Context.tick]) (.of_same h rfl rfl rfl)
  obtain ⟨hget, hnode⟩ := htick.nodes.node_get sys x
  have hsends := htick.trans hget
  simp only
  cases hr : (Ns.node_get sys s.tick x).1 with
  | none =>
    rw [hr] at hnode
    exact ⟨hsends, fun _ _ => hnode.2⟩
  | some i =>
    rw [hr] at hnode
    simp only at hnode ⊢
    rw [Context.services_eq hnode, hsends.reg.1]
    obtain ⟨o, t, ho, ht, hb⟩ := hsends
    obtain rfl : o = [] := List.sublist_nil.mp ho.sublist
    rw [List.append_nil] at hb
    have hset := fun m => (hb.setServices hnode m).tick
    cases hput : (map_reput (sys.calloc (Ns.node_get sys s.tick x).2.time) (s.reg x)
        (hash_u32 port) (⟨service, instance_, x, port⟩ : Server)).2 with
    | error rc =>
      obtain ⟨hsame, n, hn⟩ := reput_error hput
      refine ⟨.idle (t := t + 1) (by omega) ?_, fun _ _ => ⟨_, n, hn⟩⟩
      -- a failed put writes back the table that was there
      have hdone := hset (s.reg x)
      simp only [Context.view_reg, Function.update_eq_self] at hdone
      rwa [hsame]
    | ok old => exact ⟨rfl, hservice, hport, _, old, t + 1, hput, by omega, hset _⟩

/-- The record a NEW_SERVER asks for. A local server has the address it sends from. -/
def claimed (local_node : UInt32) (sq : SockaddrQrtr) (service instance_ port : UInt32) : Server :=
  ⟨service, instance_, sq.sq_node, if sq.sq_node = local_node then sq.sq_port else port⟩

/-- The record a NEW_SERVER registers, if it is accepted. -/
def ctrl_cmd_new_server.accepted (sys : Sys) (local_node : UInt32) (s : Context M)
    (sq : SockaddrQrtr) (service instance_ node_id port : UInt32) : Option Server :=
  if sq.sq_node = local_node ∨ sq.sq_node = node_id then
    let srv := claimed local_node sq service instance_ port
    (Ns.server_add sys s srv.service srv.instance_ srv.node srv.port).1
  else none

/-- **`ctrl_cmd_new_server`** registers the record and tells of it, if it is accepted; and it is, if
it is a record of the sender's node and there is memory. -/
theorem Nodes.ctrl_cmd_new_server (sys : Sys) (local_node : UInt32) {s : Context M} (h : Nodes s)
    (sq : SockaddrQrtr) (service instance_ node_id port : UInt32) :
    match ctrl_cmd_new_server.accepted sys local_node s sq service instance_ node_id port with
    | none =>
      Sends sys s (ctrl_cmd_new_server sys local_node s sq service instance_ node_id port).2 [] ∧
        (sq.sq_node = local_node ∨ sq.sq_node = node_id → service ≠ 0 →
          (claimed local_node sq service instance_ port).port ≠ 0 → ¬ sys.Allocates)
    | some srv => srv = claimed local_node sq service instance_ port ∧
        srv.service ≠ 0 ∧ srv.port ≠ 0 ∧
        ∃ u old o t, (map_reput (sys.calloc u) (s.reg srv.node) (hash_u32 srv.port) srv).2 = .ok old ∧
          Took sys o (news .new_server local_node s.lookups srv) ∧ s.time ≤ t ∧
          Becomes s (ctrl_cmd_new_server sys local_node s sq service instance_ node_id port).2
            ⟨Function.update s.reg srv.node
                (map_reput (sys.calloc u) (s.reg srv.node) (hash_u32 srv.port) srv).1,
              s.lookups, s.sent ++ o, t⟩ := by
  unfold Ns.ctrl_cmd_new_server ctrl_cmd_new_server.accepted
  simp only
  by_cases hown : sq.sq_node = local_node ∨ sq.sq_node = node_id
  swap
  · obtain ⟨hlocal, hnode⟩ := not_or.mp hown
    rw [if_neg hown, if_neg hlocal, if_pos hnode]
    exact ⟨.refl h, fun h' => absurd h' hown⟩
  -- the guards leave the node of the sender
  have hsame : (if sq.sq_node = local_node then sq.sq_node else node_id) = sq.sq_node := by
    by_cases hlocal : sq.sq_node = local_node
    · rw [if_pos hlocal]
    · rw [if_neg hlocal]
      exact (hown.resolve_left hlocal).symm
  rw [hsame, if_pos hown, if_neg (not_not.mpr rfl)]
  have hadd := h.server_add sys service instance_ sq.sq_node
    (if sq.sq_node = local_node then sq.sq_port else port)
  simp only [claimed]
  generalize Ns.server_add sys s service instance_ sq.sq_node
    (if sq.sq_node = local_node then sq.sq_port else port) = r at hadd
  cases hr : r.1 with
  | none =>
    rw [hr] at hadd
    refine ⟨hadd.1, fun _ hservice hport hall => ?_⟩
    obtain ⟨t, n, hn⟩ := hadd.2 hservice hport
    rw [hall t n] at hn
    cases hn
  | some srv =>
    rw [hr] at hadd
    obtain ⟨hsrv, hservice, hport, u, old, t, hput, ht, hb⟩ := hadd
    have hp : srv.port = if sq.sq_node = local_node then sq.sq_port else port := by rw [hsrv]
    have hn : srv.node = sq.sq_node := by rw [hsrv]
    have hs : srv.service = service := by rw [hsrv]
    rw [← hp] at hport hput hb
    rw [← hn] at hput hb
    rw [← hs] at hservice
    refine ⟨hsrv, hservice, hport, u, old, ?_⟩
    simp only
    rw [apply_ite Prod.snd]
    have hnews := hb.nodes.spread sys local_node srv true
    have hlookups : r.2.lookups = s.lookups := congrArg View.lookups hb.view
    rw [hlookups] at hnews
    obtain ⟨o, t', ho, ht', hb'⟩ := hb.sends hnews
    exact ⟨o, t', hput, ho, le_trans ht ht', hb'⟩

/-- **`ctrl_cmd_del_server`** removes the record of the sender's node with the port of the packet, or
that of the sender itself if it is local. -/
theorem Nodes.ctrl_cmd_del_server (sys : Sys) (local_node : UInt32) {s : Context M} (h : Nodes s)
    (sq : SockaddrQrtr) (service instance_ node_id port : UInt32) :
    (sq.sq_node ≠ local_node ∧ sq.sq_node ≠ node_id ∧
        (ctrl_cmd_del_server sys local_node s sq service instance_ node_id port).2 = s) ∨
      ∃ q, q = (if sq.sq_node = local_node then sq.sq_port else port) ∧
        match map_get (s.reg sq.sq_node) (hash_u32 q) with
        | none =>
          Sends sys s (ctrl_cmd_del_server sys local_node s sq service instance_ node_id port).2 []
        | some srv => ∃ o t, Took sys o (news .del_server local_node s.lookups srv) ∧ s.time ≤ t ∧
            Becomes s (ctrl_cmd_del_server sys local_node s sq service instance_ node_id port).2
              ⟨Function.update s.reg sq.sq_node (map_remove (s.reg sq.sq_node) (hash_u32 q)).1,
                s.lookups, s.sent ++ o, t⟩ := by
  unfold Ns.ctrl_cmd_del_server
  simp only
  by_cases hown : sq.sq_node = local_node ∨ sq.sq_node = node_id
  swap
  · obtain ⟨hlocal, hnode⟩ := not_or.mp hown
    rw [if_neg hlocal, if_pos hnode]
    exact .inl ⟨hlocal, hnode, rfl⟩
  have hsame : (if sq.sq_node = local_node then sq.sq_node else node_id) = sq.sq_node := by
    by_cases hlocal : sq.sq_node = local_node
    · rw [if_pos hlocal]
    · rw [if_neg hlocal]
      exact (hown.resolve_left hlocal).symm
  refine .inr ⟨_, rfl, ?_⟩
  -- the second guard repeats the first: a local sender's port was just taken from its address
  have hguard : ¬ (sq.sq_node = local_node ∧
      sq.sq_port ≠ if sq.sq_node = local_node then sq.sq_port else port) := by
    rintro ⟨hlocal, hne⟩
    rw [if_pos hlocal] at hne
    exact hne rfl
  rw [hsame, if_neg (not_not.mpr rfl), if_neg hguard]
  generalize (if sq.sq_node = local_node then sq.sq_port else port) = q
  obtain ⟨hget, hnode⟩ := h.node_get sys sq.sq_node
  cases hr : (Ns.node_get sys s sq.sq_node).1 with
  | none =>
    rw [hr] at hnode
    have hnone : map_get (s.reg sq.sq_node) (hash_u32 q) = none := by
      rw [Context.reg, hnode.1, Option.map_none, Option.getD_none, map_get_create]
    rw [hnone]
    exact hget
  | some i =>
    rw [hr] at hnode
    simp only at hnode ⊢
    have hdel := hget.nodes.server_del sys local_node hnode q
    rw [hget.reg.1, hget.reg.2] at hdel
    cases hg : map_get (s.reg sq.sq_node) (hash_u32 q) with
    | none =>
      rw [hg] at hdel
      simp only at hdel ⊢
      rwa [hdel]
    | some srv =>
      rw [hg] at hdel
      obtain ⟨o, t, ho, ht, hb⟩ := hdel
      obtain ⟨o', t', ho', ht', hb'⟩ := hget
      obtain rfl : o' = [] := List.sublist_nil.mp ho'.sublist
      have hsent : (Ns.node_get sys s sq.sq_node).2.sent = s.sent ++ [] :=
        congrArg View.sent hb'.view
      have htime : (Ns.node_get sys s sq.sq_node).2.time = t' := congrArg View.time hb'.view
      rw [hsent, List.append_nil] at hb
      exact ⟨o, t, ho, by omega, hb'.trans hb⟩

/-! ## Lookups

The reply to a NEW_LOOKUP is put together from all tables, and ends with an empty packet. -/

/-- A lookup gets in its first reply what it gets later. -/
theorem server_match_eq_wants (srv : Server) (l : Lookup) :
    server_match srv ⟨l.service, l.instance_, 0⟩ = l.wants srv.service srv.instance_ := by
  unfold server_match Lookup.wants
  by_cases hservice : l.service ≠ 0 ∧ srv.service ≠ l.service
  · rw [if_pos hservice]
    simp [hservice.1, Ne.symm hservice.2]
  · rw [if_neg hservice]
    have hs : ¬ (l.service ≠ 0 ∧ l.service ≠ srv.service) := fun hne => hservice ⟨hne.1, hne.2.symm⟩
    by_cases hinst : l.instance_ = 0
    · simp [hs, hinst]
    · have hmask : srv.instance_ &&& 0xffffffff = srv.instance_ := UInt32.and_neg_one
      rw [if_pos ⟨rfl, hinst⟩]
      change (srv.instance_ &&& 0xffffffff == l.instance_) = _
      rw [hmask, Bool.eq_iff_iff]
      simp only [beq_iff_eq, Bool.and_eq_true, Bool.not_eq_true', decide_eq_false_iff_not]
      constructor
      · intro heq
        exact ⟨hs, fun hne => hne.2 heq.symm⟩
      · rintro ⟨-, hne⟩
        by_contra hdiff
        exact hne ⟨hinst, Ne.symm hdiff⟩

/-- The nodes of the map are the nodes of the ids. -/
theorem Nodes.mem_items {s : Context M} (h : Nodes s) {i : ℕ} :
    (∃ key, (key, i) ∈ items s.nodes) ↔ ∃ x, s.registered x = some i := by
  constructor
  · rintro ⟨key, hkey⟩
    have hget := (MapApi.mem_items h.good).mp hkey
    obtain ⟨n, -, hn⟩ := h.node hget
    refine ⟨n.id, ?_⟩
    rw [Context.registered, hn]
    exact hget
  · rintro ⟨x, hx⟩
    exact ⟨hash_u32 x, (MapApi.mem_items h.good).mpr hx⟩

omit [LawfulMap M] in
/-- A walk of one table that collects the records that match. -/
theorem server_query_walk (f : ServerFilter) (l : List (UInt32 × Server)) (r : List Server × ℕ) :
    (l.foldl (fun r e => if server_match e.2 f then (r.1 ++ [e.2], r.2 + 1) else r) r).1 =
      r.1 ++ (l.map Prod.snd).filter (server_match · f) := by
  induction l generalizing r with
  | nil => simp
  | cons e l ih =>
    rw [List.foldl_cons, ih, List.map_cons, List.filter_cons]
    by_cases he : server_match e.2 f = true
    · rw [if_pos he, if_pos he, List.append_assoc, List.singleton_append]
    · rw [if_neg he, if_neg he]

/-- `server_query` goes through the nodes, and through the records of each. -/
theorem server_query_eq (s : Context M) (f : ServerFilter) :
    (server_query s f).1 =
      (items s.nodes).flatMap fun e => (records (s.services e.2)).filter (server_match · f) := by
  have houter : ∀ (l : List (UInt32 × ℕ)) (r : List Server × ℕ),
      (l.foldl (fun r e => map_for_each (fun _ => s.services e.2)
        (fun r srv => if server_match srv f then (r.1 ++ [srv], r.2 + 1) else r) r) r).1 =
        r.1 ++ l.flatMap fun e => (records (s.services e.2)).filter (server_match · f) := by
    intro l
    induction l with
    | nil => simp
    | cons e l ih =>
      intro r
      rw [List.foldl_cons, ih, map_for_each_const, server_query_walk, List.flatMap_cons, records_eq,
        List.append_assoc]
  unfold Ns.server_query
  rw [map_for_each_const, houter, List.nil_append]

/-- **`server_query`** finds the records of the registry that match. -/
theorem Nodes.server_query {s : Context M} (h : Nodes s) (f : ServerFilter) (srv : Server) :
    srv ∈ (server_query s f).1 ↔ server_match srv f = true ∧ ∃ x, srv ∈ records (s.reg x) := by
  rw [server_query_eq, List.mem_flatMap]
  constructor
  · rintro ⟨⟨key, i⟩, hi, hsrv⟩
    obtain ⟨hmem, hmatch⟩ := List.mem_filter.mp hsrv
    obtain ⟨x, hx⟩ := h.mem_items.mp ⟨key, hi⟩
    refine ⟨hmatch, x, ?_⟩
    rwa [← Context.services_eq hx]
  · rintro ⟨hmatch, x, hx⟩
    -- a record is only in the table of an id that has a node
    cases hi : s.registered x with
    | none =>
      rw [Context.reg, hi, Option.map_none, Option.getD_none, records_create] at hx
      exact absurd hx List.not_mem_nil
    | some i =>
      obtain ⟨key, hkey⟩ := h.mem_items.mpr ⟨x, hi⟩
      refine ⟨(key, i), hkey, List.mem_filter.mpr ⟨?_, hmatch⟩⟩
      rwa [Context.services_eq hi]

/-- A table of one node has its records once, if no key was put in it while it was there. -/
theorem records_nodup {m : M Server} (hm : Good m)
    (hkeyed : ∀ e ∈ items m, e.1 = hash_u32 e.2.port) : (records m).Nodup := by
  rw [records_eq]
  refine List.Nodup.map_on (fun e he e' he' hsame => ?_) (List.Nodup.of_map _ (LawfulMap.distinct hm))
  refine Prod.ext ?_ hsame
  rw [hkeyed e he, hkeyed e' he', hsame]

/-- And so `server_query` finds each of them once: a record names its node. -/
theorem Nodes.server_query_nodup {s : Context M} (h : Nodes s)
    (hkeyed : ∀ x, ∀ e ∈ items (s.reg x), e.1 = hash_u32 e.2.port ∧ e.2.node = x)
    (hgood : ∀ x, Good (s.reg x)) (f : ServerFilter) : (Ns.server_query s f).1.Nodup := by
  -- the node of an entry, by its id
  have hnode : ∀ e ∈ items s.nodes, ∃ x, e.1 = hash_u32 x ∧ s.services e.2 = s.reg x := by
    rintro ⟨key, i⟩ hi
    have hget := (MapApi.mem_items h.good).mp hi
    obtain ⟨n, -, rfl⟩ := h.node hget
    exact ⟨n.id, rfl, Context.services_eq hget⟩
  rw [server_query_eq, List.nodup_flatMap]
  refine ⟨fun e he => ?_, ?_⟩
  · obtain ⟨x, -, hx⟩ := hnode e he
    rw [hx]
    exact (records_nodup (hgood x) fun e' he' => (hkeyed x e' he').1).filter _
  · have hkeys : (items s.nodes).Pairwise fun e e' => e.1 ≠ e'.1 :=
      List.pairwise_map.mp (LawfulMap.distinct h.good)
    refine hkeys.imp_of_mem fun {e e'} he he' hne => ?_
    intro srv hsrv hsrv'
    obtain ⟨x, hkey, hx⟩ := hnode e he
    obtain ⟨x', hkey', hx'⟩ := hnode e' he'
    have hmem := (List.mem_filter.mp hsrv).1
    have hmem' := (List.mem_filter.mp hsrv').1
    rw [hx, records_eq] at hmem
    rw [hx', records_eq] at hmem'
    obtain ⟨r, hr, rfl⟩ := List.mem_map.mp hmem
    obtain ⟨r', hr', hsame⟩ := List.mem_map.mp hmem'
    refine hne ?_
    rw [hkey, hkey', ← (hkeyed x r hr).2, ← (hkeyed x' r' hr').2, hsame]

/-- The packet that ends the first reply to a lookup. -/
def endMarker : List UInt8 := (lookup_notify.pkt none true).bytes

/-- The first reply to a lookup. -/
def replies (l : Lookup) (found : List Server) : List Sent :=
  (found.map fun srv => ⟨l.sq, (srv.pkt .new_server).bytes, some l.id⟩) ++
    [⟨l.sq, endMarker, some l.id⟩]

/-- **`ctrl_cmd_new_lookup`** appends the lookup and answers with the records that match. -/
theorem Nodes.ctrl_cmd_new_lookup (sys : Sys) (local_node : UInt32) {s : Context M} (h : Nodes s)
    (sq : SockaddrQrtr) (service instance_ : UInt32) :
    Sends sys s (ctrl_cmd_new_lookup sys local_node s sq service instance_).2 [] ∨
      sq.sq_node = local_node ∧ ∃ found o t,
        (∀ srv, srv ∈ found ↔ Lookup.wants ⟨s.time, service, instance_, sq⟩ srv.service
          srv.instance_ = true ∧ ∃ x, srv ∈ records (s.reg x)) ∧
        ((∀ x, ∀ e ∈ items (s.reg x), e.1 = hash_u32 e.2.port ∧ e.2.node = x) →
          (∀ x, Good (s.reg x)) → found.Nodup) ∧
        Took sys o (replies ⟨s.time, service, instance_, sq⟩ found) ∧ s.time < t ∧
        Becomes s (ctrl_cmd_new_lookup sys local_node s sq service instance_).2
          ⟨s.reg, s.lookups ++ [⟨s.time, service, instance_, sq⟩], s.sent ++ o, t⟩ := by
  unfold Ns.ctrl_cmd_new_lookup
  by_cases hlocal : sq.sq_node = local_node
  swap
  · rw [if_pos hlocal]
    exact .inl (.refl h)
  rw [if_neg (not_not.mpr hlocal)]
  by_cases hc : sys.calloc s.time 1 = true
  swap
  · rw [if_neg hc]
    exact .inl (.idle (by simp [Context.tick]) (.of_same h rfl rfl rfl))
  rw [if_pos hc]
  refine .inr ⟨hlocal, ?_⟩
  simp only
  generalize hs1 : ({ s.tick with lookups := s.lookups ++ [⟨s.time, service, instance_, sq⟩] } :
    Context M) = s1
  have hb : Becomes s s1 ⟨s.reg, s.lookups ++ [⟨s.time, service, instance_, sq⟩], s.sent,
      s.time + 1⟩ := by
    subst hs1
    exact .of_same h rfl rfl rfl
  have hreply := Sends.foldl (fun s1 srv (hs : Nodes s1) => hs.sendto sys sq
    (Server.pkt srv .new_server).bytes (some s.time)) (Ns.server_query s1 ⟨service, instance_, 0⟩).1
    hb.nodes
  have hend := hreply.nodes.sendto sys sq endMarker (some s.time)
  obtain ⟨o, t, ho, ht, hb'⟩ := hb.sends (hreply.trans hend)
  have hreg : s1.reg = s.reg := congrArg View.reg hb.view
  refine ⟨(Ns.server_query s1 ⟨service, instance_, 0⟩).1, o, t, ?_, ?_, ?_, ht, hb'⟩
  · intro srv
    rw [hb.nodes.server_query, hreg,
      ← server_match_eq_wants srv ⟨s.time, service, instance_, sq⟩]
  · intro hkeyed hgood
    rw [← hreg] at hkeyed hgood
    exact hb.nodes.server_query_nodup hkeyed hgood _
  · rw [replies, List.map_eq_flatMap]
    exact ho

end View

end Dragonboard.Ns
