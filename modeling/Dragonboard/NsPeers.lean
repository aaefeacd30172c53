/-
Two nodes, each with its name server.

The nodes are joined by two channels that deliver in order. A name server sends to the other
one by broadcast, or by answering a HELLO. Broadcasts are lost while the link is down, so
what the other node knows is only a part of the local servers, until a HELLO of it is answered with
all of them. From then on its table, with the packets that are still under way, is the local one
(`peers_agree`). A record that is refused for want of memory is not sent again.

The tables are the finite maps of `MapApi`. A greeting can be sent at any time and any number of
times; `main` sends one before its loop.
-/
import Dragonboard.NsMachine
import Dragonboard.Replica

set_option autoImplicit false

namespace Dragonboard.Ns

open Dragonboard.Memory Dragonboard.MapApi Dragonboard.Replica

/-! ## Packets between name servers

A name server tells the others of its own servers by broadcasts, and its table arrives there as a
sequence of updates. -/

/-- The packet of `say_hello`. -/
def helloPkt : QrtrCtrlPkt := ⟨QrtrType.hello.code, 0, 0, 0, 0⟩

/-- What a packet of node `x` is to the copy of its table. -/
inductive Carries (x : UInt32) : List UInt8 → Update UInt32 Server → Prop
  | hello : Carries x helloPkt.bytes .nop
  | new {srv : Server} (hnode : srv.node = x) (hservice : srv.service ≠ 0) (hport : srv.port ≠ 0) :
      Carries x (srv.pkt .new_server).bytes (.put (hash_u32 srv.port) srv)
  | del {srv : Server} (hnode : srv.node = x) :
      Carries x (srv.pkt .del_server).bytes (.erase (hash_u32 srv.port))

/-- The packets that reach the name server of node `peer`. -/
def crossing (peer : UInt32) (o : List Sent) : List (List UInt8) :=
  (o.filter fun p => p.dest = bcast_sq ∨ p.dest = ⟨peer, QRTR_PORT_CTRL⟩).map Sent.data

theorem crossing_append (peer : UInt32) (o o' : List Sent) :
    crossing peer (o ++ o') = crossing peer o ++ crossing peer o' := by
  rw [crossing, List.filter_append, List.map_append, crossing, crossing]

/-- Packets to addresses of the own node do not leave it. -/
theorem crossing_local {own peer : UInt32} (hbcast : own ≠ QRTR_NODE_BCAST) (hpeer : own ≠ peer)
    {o : List Sent} (ho : ∀ p ∈ o, p.dest.sq_node = own) : crossing peer o = [] := by
  rw [crossing, List.filter_eq_nil_iff.mpr, List.map_nil]
  intro p hp
  simp only [decide_eq_true_eq]
  rintro (hdest | hdest)
  · exact hbcast ((ho p hp).symm.trans (congrArg SockaddrQrtr.sq_node hdest))
  · exact hpeer ((ho p hp).symm.trans (congrArg SockaddrQrtr.sq_node hdest))

/-- A packet in the receive buffer is read as it was sent. -/
theorem Datagram.msg_bytes (sq : SockaddrQrtr) (pkt : QrtrCtrlPkt) (stale : Mem) :
    (⟨sq, pkt.bytes, stale⟩ : Datagram).received = pkt.bytes ∧
      (⟨sq, pkt.bytes, stale⟩ : Datagram).msg = pkt := by
  have hreceived : (⟨sq, pkt.bytes, stale⟩ : Datagram).received = pkt.bytes :=
    List.take_of_length_le (by simp)
  refine ⟨hreceived, ?_⟩
  rw [Datagram.msg, Datagram.buf, hreceived]
  exact QrtrCtrlPkt.read_of_holds (holds_writeAt _ _ _)

theorem Datagram.type_bytes (sq : SockaddrQrtr) (type : QrtrType) (pkt : QrtrCtrlPkt)
    (hcmd : pkt.cmd = type.code) (stale : Mem) :
    (⟨sq, pkt.bytes, stale⟩ : Datagram).type = some type := by
  obtain ⟨hreceived, hmsg⟩ := Datagram.msg_bytes sq pkt stale
  rw [Datagram.type, hreceived, hmsg, if_pos (by simp), hcmd, QrtrType.ofCode_code]

/-! ## What a name server does to its own table

Whatever a node does, the packets that leave it are the changes of its table of local servers, in
order. For a HELLO it is the whole table, as a snapshot. -/

section Own

variable {sys : Sys} {own peer : UInt32}

/-- A change in which the packets to the other node are the changes of the own table. -/
structure Acts (own peer : UInt32) (v v' : View FinMap) (us : List (Update UInt32 Server)) : Prop where
  sent : ∃ o, v'.sent = v.sent ++ o ∧ List.Forall₂ (Carries own) (crossing peer o) us
  table : map_get (v'.reg own) = Replica.replay (map_get (v.reg own)) us

theorem Acts.refl (v : View FinMap) : Acts own peer v v [] :=
  ⟨⟨[], (List.append_nil _).symm, .nil⟩, rfl⟩

theorem Acts.trans {v v' v'' : View FinMap} {us us' : List (Update UInt32 Server)}
    (h : Acts own peer v v' us) (h' : Acts own peer v' v'' us') : Acts own peer v v'' (us ++ us') := by
  obtain ⟨o, hsent, hus⟩ := h.sent
  obtain ⟨o', hsent', hus'⟩ := h'.sent
  refine ⟨⟨o ++ o', ?_, ?_⟩, ?_⟩
  · rw [hsent', hsent, List.append_assoc]
  · rw [crossing_append]
    exact List.rel_append hus hus'
  · rw [h'.table, h.table, Replica.replay_append]

/-- Packets that are no news of the own table. -/
theorem Sends.acts {s s' : Context FinMap} {out : List Sent} (h : Sends sys s s' out)
    (hsends : sys.Delivers) {us : List (Update UInt32 Server)}
    (hus : List.Forall₂ (Carries own) (crossing peer out) us)
    (hsame : Replica.replay (map_get (s.reg own)) us = map_get (s.reg own)) :
    Acts own peer s.view s'.view us := by
  obtain ⟨o, t, ho, -, hb⟩ := h
  rw [hb.view]
  refine ⟨⟨o, rfl, ?_⟩, hsame.symm⟩
  rwa [ho.all hsends]

/-- The news that reach the other node: those of local servers. -/
theorem crossing_news (hbcast : own ≠ QRTR_NODE_BCAST) (hpeer : own ≠ peer) {ls : List Lookup}
    (hls : ∀ l ∈ ls, l.sq.sq_node = own) (type : QrtrType) (srv : Server) :
    crossing peer (news type own ls srv) =
      if srv.node = own then [(srv.pkt type).bytes] else [] := by
  have hnotices : crossing peer (notices type ls srv) = [] := by
    refine crossing_local hbcast hpeer fun p hp => ?_
    obtain ⟨l, hl, rfl⟩ := mem_notices hp
    exact hls l hl
  rw [news, crossing_append, hnotices, List.append_nil]
  split
  · simp [crossing]
  · rfl

theorem map_get_put_eq (calloc : ℕ → Bool) (m : FinMap Server) (key : UInt32) (srv : Server) :
    map_get (map_reput calloc m key srv).1 = (Update.put key srv).apply (map_get m) := by
  funext k
  rw [Update.apply, Function.update_apply]
  exact m.get_put key srv k

theorem map_get_remove_eq (m : FinMap Server) (key : UInt32) :
    map_get (map_remove m key).1 = (Update.erase key).apply (map_get m) := by
  funext k
  rw [Update.apply, Function.update_apply]
  exact map_get_remove (M := FinMap) trivial key k

/-- A deed on a packet tells the other node what it does to the own table, and nothing else. The
answer to a HELLO of the other node is left out here. -/
theorem Deed.acts {d : Datagram} {v v' : View FinMap} (h : Deed sys own d v v') (hs : Sound own v)
    (hsends : sys.Delivers) (hbcast : own ≠ QRTR_NODE_BCAST) (hpeer : own ≠ peer)
    (hd : d.sq.sq_node = own ∨ d.type ≠ some .hello) :
    ∃ us, Acts own peer v v' us ∧ Update.nop ∉ us := by
  cases h with
  | @send out o t hout ho ht =>
    -- an answer to a local HELLO, or a word to a local service
    refine ⟨[], ⟨⟨o, rfl, ?_⟩, rfl⟩, List.not_mem_nil⟩
    rw [crossing_local hbcast hpeer fun p hp => ?_]
    · exact .nil
    · rcases (hout p (ho.sublist.subset hp)).2 with ⟨htype, hdest⟩ | ⟨srv, hsrv, hdest⟩
      · rw [hdest]
        exact hd.resolve_right (not_not.mpr htype)
      · rw [records_eq] at hsrv
        obtain ⟨e, he, rfl⟩ := List.mem_map.mp hsrv
        rw [hdest]
        exact (hs.keyed own e he).2.1
  | @del port srv o t hsrv hport ho ht =>
    obtain ⟨hp, hnode, -⟩ := hs.of_get hsrv
    have hcross := crossing_news hbcast hpeer hs.observers .del_server srv
    rw [← ho.all hsends] at hcross
    by_cases hlocal : d.sq.sq_node = own
    · rw [if_pos (hnode.trans hlocal)] at hcross
      refine ⟨[.erase (hash_u32 srv.port)], ⟨⟨o, rfl, ?_⟩, ?_⟩, by simp⟩
      · rw [hcross]
        exact .cons (.del (hnode.trans hlocal)) .nil
      · simp only [hlocal, Function.update_self, replay_cons, replay_nil, hp]
        exact map_get_remove_eq _ _
    · -- a record of another node is not told of, and is not in the own table
      rw [if_neg (by rwa [hnode])] at hcross
      refine ⟨[], ⟨⟨o, rfl, by rw [hcross]; exact .nil⟩, ?_⟩, List.not_mem_nil⟩
      simp only [Function.update_of_ne (Ne.symm hlocal), replay_nil]
  | @add srv u t old o htype hsrv hservice hport hput ho ht =>
    have hcross := crossing_news hbcast hpeer hs.observers .new_server srv
    rw [← ho.all hsends] at hcross
    by_cases hlocal : srv.node = own
    · rw [if_pos hlocal] at hcross
      refine ⟨[.put (hash_u32 srv.port) srv], ⟨⟨o, rfl, ?_⟩, ?_⟩, by simp⟩
      · rw [hcross]
        exact .cons (.new hlocal hservice hport) .nil
      · simp only [hlocal, Function.update_self, replay_cons, replay_nil]
        exact map_get_put_eq _ _ _ _
    · rw [if_neg hlocal] at hcross
      refine ⟨[], ⟨⟨o, rfl, by rw [hcross]; exact .nil⟩, ?_⟩, List.not_mem_nil⟩
      simp only [Function.update_of_ne (Ne.symm hlocal), replay_nil]
  | @lookup service instance_ found o t hlocal hfound ho ht =>
    refine ⟨[], ⟨⟨o, rfl, ?_⟩, rfl⟩, List.not_mem_nil⟩
    rw [crossing_local hbcast hpeer fun p hp => ?_]
    · exact .nil
    · rw [← hlocal]
      rcases List.mem_append.mp (ho.sublist.subset hp) with hp | hp
      · obtain ⟨srv, -, rfl⟩ := List.mem_map.mp hp
        rfl
      · rw [List.mem_singleton.mp hp]
  | forget hkeep =>
    exact ⟨[], ⟨⟨[], (List.append_nil _).symm, .nil⟩, rfl⟩, List.not_mem_nil⟩

/-- A packet that is not a HELLO of the other node. -/
theorem Performs.acts {d : Datagram} {s s' : Context FinMap} (h : Performs sys own d s s')
    (hs : Sound own s.view) (hsends : sys.Delivers) (hbcast : own ≠ QRTR_NODE_BCAST)
    (hpeer : own ≠ peer) (hd : d.sq.sq_node = own ∨ d.type ≠ some .hello) :
    ∃ us, Acts own peer s.view s'.view us ∧ Update.nop ∉ us := by
  refine (h.induction (P := fun v => Sound own v ∧
    ∃ us, Acts own peer s.view v us ∧ Update.nop ∉ us) ?_ ⟨hs, [], .refl _, List.not_mem_nil⟩).2
  rintro v v' ⟨hv, us, hacts, hus⟩ hdeed
  obtain ⟨us', hacts', hus'⟩ := hdeed.acts hv hsends hbcast hpeer hd
  refine ⟨hv.deed hdeed, us ++ us', hacts.trans hacts', ?_⟩
  rw [List.mem_append, not_or]
  exact ⟨hus, hus'⟩

/-- The updates in the answer to a HELLO. -/
def welcome (servers : List Server) : List (Update UInt32 Server) :=
  .nop :: servers.map fun srv => .put (hash_u32 srv.port) srv

theorem Sound.snapshot {v : View FinMap} (h : Sound own v) :
    Snapshot (map_get (v.reg own)) (welcome (records (v.reg own))) := by
  rw [records_eq]
  refine ⟨fun u hu => ?_, fun k srv hk => ?_⟩
  · rcases List.mem_cons.mp hu with rfl | hu
    · exact .inl rfl
    · obtain ⟨srv, hsrv, rfl⟩ := List.mem_map.mp hu
      obtain ⟨e, he, rfl⟩ := List.mem_map.mp hsrv
      refine .inr ⟨_, _, rfl, ?_⟩
      rw [← (h.keyed own e he).1]
      exact (mem_items (M := FinMap) trivial).mp he
  · have hmem := (mem_items (M := FinMap) trivial).mpr hk
    have hkey : k = hash_u32 srv.port := (h.keyed own _ hmem).1
    refine List.mem_cons_of_mem _ (List.mem_map.mpr ⟨srv, ?_, by rw [hkey]⟩)
    exact List.mem_map.mpr ⟨_, hmem, rfl⟩

/-- The answer to a HELLO of the other node: the HELLO, and a snapshot of the own table. -/
theorem acts_hello {s : Context FinMap} (hnodes : Nodes s) (hs : Sound own s.view)
    (hsock : s.sock = true) (hsends : sys.Delivers) (stale : Mem) :
    Acts own peer s.view
      (main.step sys own s ⟨⟨peer, QRTR_PORT_CTRL⟩, helloPkt.bytes, stale⟩).view
      (welcome (records (s.reg own))) := by
  have htype := Datagram.type_bytes ⟨peer, QRTR_PORT_CTRL⟩ .hello helloPkt rfl stale
  obtain ⟨hdispatch, hcode⟩ := ctrl_port_fn_dispatch sys own _ s htype
  have hreceived := (Datagram.msg_bytes ⟨peer, QRTR_PORT_CTRL⟩ helloPkt stale).1
  rw [main.step, if_pos hsock, hdispatch, ctrl_port_fn.dispatch, hcode, hreceived]
  have hbuf : helloPkt.bytes ≠ [] := by decide
  refine (hnodes.ctrl_cmd_hello sys own ⟨peer, QRTR_PORT_CTRL⟩ hbuf).acts hsends ?_
    hs.snapshot.replay_self
  -- every packet goes to the other node
  have hcross : crossing peer (⟨⟨peer, QRTR_PORT_CTRL⟩, helloPkt.bytes, none⟩ ::
      announcements ⟨peer, QRTR_PORT_CTRL⟩ (records (s.reg own))) = helloPkt.bytes ::
      (records (s.reg own)).map fun srv => (srv.pkt .new_server).bytes := by
    rw [crossing, List.filter_eq_self.mpr]
    · simp [announcements]
    · intro p hp
      rcases List.mem_cons.mp hp with rfl | hp
      · simp
      · obtain ⟨srv, -, rfl⟩ := List.mem_map.mp hp
        simp
  rw [hcross]
  refine .cons .hello ?_
  rw [List.forall₂_map_left_iff, List.forall₂_map_right_iff, List.forall₂_same]
  intro srv hsrv
  rw [records_eq] at hsrv
  obtain ⟨e, he, rfl⟩ := List.mem_map.mp hsrv
  obtain ⟨-, hnode, hservice, hport⟩ := hs.keyed own e he
  exact .new hnode hservice hport

end Own

/-! ## What a packet does to the table of its sender

On the other side each packet is applied to the copy. This needs memory for the node and the
record. -/

/-- A packet of the other node is an update of the table for it, if there is memory. -/
theorem main_step_carried {sys : Sys} {own x : UInt32} {s : Context FinMap} (hnodes : Nodes s)
    (hsock : s.sock = true) (hmemory : sys.Allocates) (hx : x ≠ own) {data : List UInt8}
    {u : Update UInt32 Server} (hu : Carries x data u) (stale : Mem) :
    map_get ((main.step sys own s ⟨⟨x, QRTR_PORT_CTRL⟩, data, stale⟩).reg x) =
      u.apply (map_get (s.reg x)) := by
  cases hu with
  | hello =>
    have htype := Datagram.type_bytes ⟨x, QRTR_PORT_CTRL⟩ .hello helloPkt rfl stale
    obtain ⟨hdispatch, hcode⟩ := ctrl_port_fn_dispatch sys own _ s htype
    rw [main.step, if_pos hsock, hdispatch, ctrl_port_fn.dispatch, hcode]
    have hsends := hnodes.ctrl_cmd_hello sys own ⟨x, QRTR_PORT_CTRL⟩
      (Datagram.received_ne_nil htype)
    simp only
    rw [hsends.reg.1]
    rfl
  | @new srv hnode hservice hport =>
    have htype := Datagram.type_bytes ⟨x, QRTR_PORT_CTRL⟩ .new_server (srv.pkt .new_server) rfl stale
    obtain ⟨hdispatch, hcode⟩ := ctrl_port_fn_dispatch sys own _ s htype
    have hmsg := (Datagram.msg_bytes ⟨x, QRTR_PORT_CTRL⟩ (srv.pkt .new_server) stale).2
    rw [main.step, if_pos hsock, hdispatch, ctrl_port_fn.dispatch, hcode, hmsg]
    have hclaimed : claimed own ⟨x, QRTR_PORT_CTRL⟩ srv.service srv.instance_ srv.port = srv := by
      rw [claimed, if_neg hx, ← hnode]
    have hadd := hnodes.ctrl_cmd_new_server sys own ⟨x, QRTR_PORT_CTRL⟩ srv.service srv.instance_
      srv.node srv.port
    cases hacc : ctrl_cmd_new_server.accepted sys own s ⟨x, QRTR_PORT_CTRL⟩ srv.service
        srv.instance_ srv.node srv.port with
    | none =>
      -- only for want of memory
      rw [hacc, hclaimed] at hadd
      exact absurd hmemory (hadd.2 (.inr hnode.symm) hservice hport)
    | some r =>
      rw [hacc, hclaimed] at hadd
      obtain ⟨rfl, -, -, u, old, o, t, -, -, -, hb⟩ := hadd
      have hreg := congrFun (congrArg View.reg hb.view) x
      simp only [Context.view_reg, hnode, Function.update_self] at hreg
      simp only [Server.pkt]
      rw [hnode, hreg]
      exact map_get_put_eq _ _ _ _
  | @del srv hnode =>
    have htype := Datagram.type_bytes ⟨x, QRTR_PORT_CTRL⟩ .del_server (srv.pkt .del_server) rfl stale
    obtain ⟨hdispatch, hcode⟩ := ctrl_port_fn_dispatch sys own _ s htype
    have hmsg := (Datagram.msg_bytes ⟨x, QRTR_PORT_CTRL⟩ (srv.pkt .del_server) stale).2
    rw [main.step, if_pos hsock, hdispatch, ctrl_port_fn.dispatch, hcode, hmsg]
    simp only [Server.pkt]
    rcases hnodes.ctrl_cmd_del_server sys own ⟨x, QRTR_PORT_CTRL⟩ srv.service srv.instance_ srv.node
      srv.port with ⟨-, hne, -⟩ | ⟨q, hq, hdel⟩
    · exact absurd hnode.symm hne
    · rw [if_neg hx] at hq
      subst hq
      cases hg : map_get (s.reg x) (hash_u32 srv.port) with
      | none =>
        -- erasing what is not there changes nothing
        rw [hg] at hdel
        rw [hdel.reg.1, Update.apply, ← hg, Function.update_eq_self]
      | some r =>
        rw [hg] at hdel
        obtain ⟨o, t, -, -, hb⟩ := hdel
        have hreg := congrFun (congrArg View.reg hb.view) x
        simp only [Context.view_reg, Function.update_self] at hreg
        rw [hreg]
        exact map_get_remove_eq _ _

/-! ## Two nodes

The copy, brought up to date with what is still in the channel, is the table. The invariant says
so in every state after the snapshot was requested, with the packets in flight taken into account.
-/

/-- The ids of two nodes. The broadcast address is not one. -/
structure Link where
  id : Bool → UInt32
  distinct : id false ≠ id true
  ne_bcast : ∀ i, id i ≠ QRTR_NODE_BCAST

theorem Link.id_ne (link : Link) (i : Bool) : link.id i ≠ link.id !i := by
  cases i with
  | false => exact link.distinct
  | true => exact link.distinct.symm

/-- Two name servers and what is between them: `chan i` are the packets on the way from node `i`, and
`greeted i` says that node `i` has processed a HELLO of the other one. -/
structure Net where
  ns : Bool → Context FinMap
  chan : Bool → List (List UInt8)
  linked : Bool
  greeted : Bool → Bool

/-- What can happen. Clients send what they like, but for an empty datagram, which closes the
socket. -/
inductive Event where
  | linkUp
  | greet (i : Bool)
  | client (i : Bool) (port : UInt32) (data : List UInt8) (h : data ≠ []) (stale : Mem)
  | deliver (i : Bool) (stale : Mem)

section Net

variable (link : Link) (sys : Bool → Sys)

/-- Before the link is up and any packet is sent. -/
def Net.init : Net := ⟨fun _ => Context.init, fun _ => [], false, fun _ => false⟩

/-- Node `i` moves on to the state `s`; what it has sent goes into its channel, if the link is up. -/
def Net.act (net : Net) (i : Bool) (s : Context FinMap) : Net :=
  { net with
    ns := Function.update net.ns i s
    chan := if net.linked then
        Function.update net.chan i
          (net.chan i ++ crossing (link.id !i) (s.sent.drop (net.ns i).sent.length))
      else net.chan }

/-- The first packet of a channel taken out. -/
def Net.pop (net : Net) (i : Bool) : Net :=
  { net with chan := Function.update net.chan i (net.chan i).tail }

/-- A packet from the name server of node `i`. -/
def fromPeer (i : Bool) (data : List UInt8) (stale : Mem) : Datagram :=
  ⟨⟨link.id i, QRTR_PORT_CTRL⟩, data, stale⟩

/-- One event. Packets are delivered to node `i` from the other one, in the order they were sent. -/
def Net.step (net : Net) : Event → Net
  | .linkUp => { net with linked := true }
  | .greet i => net.act link i (say_hello (sys i) (net.ns i)).2
  | .client i port data _ stale =>
    net.act link i (main.step (sys i) (link.id i) (net.ns i) ⟨⟨link.id i, port⟩, data, stale⟩)
  | .deliver i stale =>
    match net.chan !i with
    | [] => net
    | data :: _ =>
      { (net.pop !i).act link i
          (main.step (sys i) (link.id i) (net.ns i) (fromPeer link (!i) data stale)) with
        greeted := if (fromPeer link (!i) data stale).type = some .hello then
          Function.update net.greeted i true else net.greeted }

/-- The events so far. -/
def Net.run (events : List Event) : Net := events.foldl (Net.step link sys) Net.init

/-- The other node, once it has processed the packets that are on the way from node `b`. -/
def Net.arrived (net : Net) (b : Bool) (stale : Mem) : Context FinMap :=
  (net.chan b).foldl (fun s data =>
    main.step (sys !b) (link.id !b) s (fromPeer link b data stale)) (net.ns !b)

/-- The invariant of the channel from node `b`. -/
structure Synced (b : Bool) (net : Net) : Prop where
  nodes : ∀ i, Nodes (net.ns i)
  sound : ∀ i, Sound (link.id i) (net.ns i).view
  sock : ∀ i, (net.ns i).sock = true
  unlinked : net.linked = false → (∀ i, net.chan i = []) ∧ net.greeted b = false ∧
    map_get ((net.ns !b).reg (link.id b)) = fun _ => none
  back : ∃ us, List.Forall₂ (Carries (link.id !b)) (net.chan !b) us
  wire : ∃ log, List.Forall₂ (Carries (link.id b)) (net.chan b) log ∧
    Tracks (net.greeted b = true) (map_get ((net.ns !b).reg (link.id b)))
      (map_get ((net.ns b).reg (link.id b))) log

variable {link sys} {b : Bool} {net : Net}

/-- What an act puts into the channel. -/
theorem Acts.dropped {own peer : UInt32} {v v' : View FinMap} {us : List (Update UInt32 Server)}
    (h : Acts own peer v v' us) :
    List.Forall₂ (Carries own) (crossing peer (v'.sent.drop v.sent.length)) us := by
  obtain ⟨o, hsent, hus⟩ := h.sent
  rwa [hsent, List.drop_left]

/-- A node goes on to a state that its invariants hold of. -/
theorem update_ns {ns : Bool → Context FinMap} (hnodes : ∀ i, Nodes (ns i))
    (hsound : ∀ i, Sound (link.id i) (ns i).view) (hsock : ∀ i, (ns i).sock = true) (j : Bool)
    {s : Context FinMap} (hnodes' : Nodes s) (hsound' : Sound (link.id j) s.view)
    (hsock' : s.sock = true) :
    (∀ i, Nodes (Function.update ns j s i)) ∧
      (∀ i, Sound (link.id i) (Function.update ns j s i).view) ∧
      ∀ i, (Function.update ns j s i).sock = true := by
  refine ⟨?_, ?_, ?_⟩
  · exact (Function.forall_update_iff ns fun _ => Nodes).mpr ⟨hnodes', fun i _ => hnodes i⟩
  · exact (Function.forall_update_iff ns fun i s => Sound (link.id i) s.view).mpr
      ⟨hsound', fun i _ => hsound i⟩
  · exact (Function.forall_update_iff ns fun _ s => s.sock = true).mpr
      ⟨hsock', fun i _ => hsock i⟩

/-- Node `b` acts. -/
theorem Synced.sends (h : Synced link b net) {s : Context FinMap} (hnodes : Nodes s)
    (hsound : Sound (link.id b) s.view) (hsock : s.sock = true) {us : List (Update UInt32 Server)}
    (hacts : Acts (link.id b) (link.id !b) (net.ns b).view s.view us) {greeted : Bool → Bool}
    (hunlinked : net.linked = false → greeted b = false)
    (htracks : ∀ replica log, Tracks (net.greeted b = true) replica
      (map_get ((net.ns b).reg (link.id b))) log →
      Tracks (greeted b = true) replica (map_get (s.reg (link.id b))) (log ++ us)) :
    Synced link b { net.act link b s with greeted := greeted } := by
  have hother : (Function.update net.ns b s) (!b) = net.ns !b := Function.update_of_ne (by simp) _ _
  obtain ⟨hnodes', hsound', hsock'⟩ := update_ns h.nodes h.sound h.sock b hnodes hsound hsock
  refine ⟨hnodes', hsound', hsock', fun hl => ?_, ?_, ?_⟩
  · simp only [Net.act] at hl ⊢
    obtain ⟨hchan, -, htable⟩ := h.unlinked hl
    rw [hother, hl]
    exact ⟨hchan, hunlinked hl, htable⟩
  · have hback := h.back
    simp only [Net.act]
    split
    · rwa [Function.update_of_ne (by simp)]
    · exact hback
  · obtain ⟨log, hlog, htrack⟩ := h.wire
    simp only [Net.act, hother, Function.update_self]
    by_cases hl : net.linked = true
    · rw [if_pos hl, Function.update_self]
      exact ⟨log ++ us, List.rel_append hlog hacts.dropped, htracks _ _ htrack⟩
    · -- what is sent now is lost, and the other node knows nothing
      obtain ⟨hchan, -, htable⟩ := h.unlinked (Bool.eq_false_iff.mpr hl)
      rw [if_neg hl, hchan b, htable]
      exact ⟨[], .nil, .empty (by simp [hunlinked (Bool.eq_false_iff.mpr hl)]) _⟩

/-- The other node acts, perhaps on a packet of node `b`. -/
theorem Synced.peer_acts (h : Synced link b net) {rest : List (List UInt8)}
    {log : List (Update UInt32 Server)} (hlog : List.Forall₂ (Carries (link.id b)) rest log)
    {s : Context FinMap} (hnodes : Nodes s) (hsound : Sound (link.id !b) s.view)
    (hsock : s.sock = true) {us : List (Update UInt32 Server)}
    (hacts : Acts (link.id !b) (link.id b) (net.ns !b).view s.view us)
    (htracks : Tracks (net.greeted b = true) (map_get (s.reg (link.id b)))
      (map_get ((net.ns b).reg (link.id b))) log)
    (hunlinked : net.linked = false → rest = [] ∧ map_get (s.reg (link.id b)) = fun _ => none)
    {greeted : Bool → Bool} (hgreeted : greeted b = net.greeted b) :
    Synced link b
      { ({ net with chan := Function.update net.chan b rest } : Net).act link (!b) s with
        greeted := greeted } := by
  have hself : (Function.update net.ns (!b) s) b = net.ns b := Function.update_of_ne (by simp) _ _
  obtain ⟨hnodes', hsound', hsock'⟩ := update_ns h.nodes h.sound h.sock (!b) hnodes hsound hsock
  refine ⟨hnodes', hsound', hsock', fun hl => ?_, ?_, ?_⟩
  · simp only [Net.act] at hl ⊢
    obtain ⟨hchan, hgreet, -⟩ := h.unlinked hl
    obtain ⟨hrest, htable⟩ := hunlinked hl
    rw [hl, Function.update_self, hgreeted]
    refine ⟨?_, hgreet, htable⟩
    exact (Function.forall_update_iff net.chan fun _ c => c = []).mpr ⟨hrest, fun i _ => hchan i⟩
  -- what the other node says goes into its own channel, behind what is there
  · obtain ⟨us', hus'⟩ := h.back
    simp only [Net.act, Bool.not_not]
    split
    · rw [Function.update_self, Function.update_of_ne (by simp)]
      exact ⟨us' ++ us, List.rel_append hus' hacts.dropped⟩
    · rw [Function.update_of_ne (by simp)]
      exact ⟨us', hus'⟩
  · refine ⟨log, ?_, ?_⟩
    · simp only [Net.act]
      split
      · rw [Function.update_of_ne (by simp), Function.update_self]
        exact hlog
      · rw [Function.update_self]
        exact hlog
    · simp only [Net.act, hself, Function.update_self, hgreeted]
      exact htracks

/-- A packet of the other node is taken out of its channel. -/
theorem Synced.pop_back (h : Synced link b net) : Synced link b (net.pop !b) := by
  refine ⟨h.nodes, h.sound, h.sock, fun hl => ?_, ?_, ?_⟩
  · obtain ⟨hchan, hrest⟩ := h.unlinked hl
    refine ⟨?_, hrest⟩
    exact (Function.forall_update_iff net.chan fun _ c => c = []).mpr
      ⟨by rw [hchan]; rfl, fun i _ => hchan i⟩
  · obtain ⟨us, hus⟩ := h.back
    simp only [Net.pop, Function.update_self]
    generalize net.chan (!b) = packets at hus
    cases hus with
    | nil => exact ⟨[], .nil⟩
    | cons _ hrest => exact ⟨_, hrest⟩
  · simp only [Net.pop]
    rw [Function.update_of_ne (by simp)]
    exact h.wire

/-- The packets between name servers are of a known type. -/
theorem Carries.type {x : UInt32} {data : List UInt8} {u : Update UInt32 Server}
    (h : Carries x data u) (sq : SockaddrQrtr) (stale : Mem) :
    (⟨sq, data, stale⟩ : Datagram).received ≠ [] ∧
      ((⟨sq, data, stale⟩ : Datagram).type = some .hello → data = helloPkt.bytes) := by
  cases h with
  | hello =>
    exact ⟨Datagram.received_ne_nil (Datagram.type_bytes sq .hello _ rfl stale), fun _ => rfl⟩
  | @new srv =>
    have htype := Datagram.type_bytes sq .new_server (srv.pkt .new_server) rfl stale
    refine ⟨Datagram.received_ne_nil htype, fun hhello => ?_⟩
    rw [htype] at hhello
    cases hhello
  | @del srv =>
    have htype := Datagram.type_bytes sq .del_server (srv.pkt .del_server) rfl stale
    refine ⟨Datagram.received_ne_nil htype, fun hhello => ?_⟩
    rw [htype] at hhello
    cases hhello

/-- What every packet keeps of a name server. -/
theorem main_step_well (sys : Sys) {own : UInt32} {s : Context FinMap} (hnodes : Nodes s)
    (hsound : Sound own s.view) (hsock : s.sock = true) {d : Datagram} (hd : d.received ≠ []) :
    Nodes (main.step sys own s d) ∧ Sound own (main.step sys own s d).view ∧
      (main.step sys own s d).sock = true := by
  have hperf := main_step_refines sys own hnodes d
  exact ⟨hperf.nodes, hperf.induction (fun _ _ hv hdeed => hv.deed hdeed) hsound,
    (hperf.sock hd).trans hsock⟩

/-- A packet of the other name server. Only a HELLO is answered, with a snapshot. -/
theorem main_step_acts {sys : Sys} {own x : UInt32} {s : Context FinMap} (hnodes : Nodes s)
    (hsound : Sound own s.view) (hsock : s.sock = true) (hsends : sys.Delivers)
    (hbcast : own ≠ QRTR_NODE_BCAST) (hx : own ≠ x) {data : List UInt8} {u : Update UInt32 Server}
    (hu : Carries x data u) (stale : Mem) :
    ∃ us, Acts own x s.view (main.step sys own s ⟨⟨x, QRTR_PORT_CTRL⟩, data, stale⟩).view us ∧
      ((⟨⟨x, QRTR_PORT_CTRL⟩, data, stale⟩ : Datagram).type = some .hello →
        Snapshot (map_get (s.reg own)) us) := by
  by_cases htype : (⟨⟨x, QRTR_PORT_CTRL⟩, data, stale⟩ : Datagram).type = some .hello
  · obtain rfl := (hu.type _ stale).2 htype
    exact ⟨_, acts_hello hnodes hsound hsock hsends stale, fun _ => hsound.snapshot⟩
  · obtain ⟨us, hacts, -⟩ := (main_step_refines sys own hnodes _).acts hsound hsends hbcast hx
      (.inr htype)
    exact ⟨us, hacts, fun hhello => absurd hhello htype⟩

/-- A greeting. -/
theorem Nodes.say_hello (sys : Sys) {s : Context FinMap} (h : Nodes s) :
    Sends sys s (say_hello sys s).2 [⟨bcast_sq, helloPkt.bytes, none⟩] :=
  h.sendto sys bcast_sq helloPkt.bytes none

/-- What a name server does on its own account: it goes on well, tells the other node the changes of
its own table, and leaves the other tables. -/
structure Moves (own peer : UInt32) (s s' : Context FinMap) (us : List (Update UInt32 Server)) :
    Prop where
  nodes : Nodes s'
  sound : Sound own s'.view
  sock : s'.sock = true
  acts : Acts own peer s.view s'.view us
  others : ∀ x, x ≠ own → s'.reg x = s.reg x

theorem moves_greet {sys : Sys} {own : UInt32} (peer : UInt32) {s : Context FinMap}
    (hnodes : Nodes s) (hsound : Sound own s.view) (hsock : s.sock = true)
    (hsends : sys.Delivers) : Moves own peer s (say_hello sys s).2 [.nop] := by
  have hsay := hnodes.say_hello sys
  have hacts : Acts own peer s.view _ [.nop] := hsay.acts hsends (.cons .hello .nil) rfl
  obtain ⟨o, t, ho, ht, hb⟩ := hsay
  refine ⟨hb.nodes, ?_, hb.sock.trans hsock, hacts, fun x _ => ?_⟩
  · rw [hb.view]
    exact hsound.later _ ht
  · exact congrFun (congrArg View.reg hb.view) x

/-- A packet of a local client. -/
theorem moves_client {sys : Sys} {own peer : UInt32} {s : Context FinMap} (hnodes : Nodes s)
    (hsound : Sound own s.view) (hsock : s.sock = true) (hsends : sys.Delivers)
    (hbcast : own ≠ QRTR_NODE_BCAST) (hpeer : own ≠ peer) (port : UInt32) {data : List UInt8}
    (hdata : data ≠ []) (stale : Mem) :
    ∃ us, Moves own peer s (main.step sys own s ⟨⟨own, port⟩, data, stale⟩) us ∧
      Update.nop ∉ us := by
  have hreceived : (⟨⟨own, port⟩, data, stale⟩ : Datagram).received ≠ [] := by
    simp [Datagram.received, hdata]
  have hperf := main_step_refines sys own hnodes ⟨⟨own, port⟩, data, stale⟩
  obtain ⟨hnodes', hsound', hsock'⟩ := main_step_well sys hnodes hsound hsock hreceived
  obtain ⟨us, hacts, hus⟩ := hperf.acts hsound hsends hbcast hpeer (.inl rfl)
  exact ⟨us, ⟨hnodes', hsound', hsock', hacts, fun x hx => hperf.reg_eq hx⟩, hus⟩

/-- A node acts on its own account. -/
theorem Synced.acts (h : Synced link b net) (i : Bool) {s : Context FinMap}
    {us : List (Update UInt32 Server)} (hs : Moves (link.id i) (link.id !i) (net.ns i) s us) :
    Synced link b (net.act link i s) := by
  obtain ⟨hnodes, hsound, hsock, hacts, hreg⟩ := hs
  by_cases hi : i = b
  · subst hi
    refine h.sends hnodes hsound hsock hacts (fun hl => (h.unlinked hl).2.1) fun replica log ht => ?_
    have htable : map_get (s.reg (link.id i)) = Replica.replay (map_get ((net.ns i).reg (link.id i))) us :=
      hacts.table
    rw [htable]
    exact ht.send us
  · obtain rfl : i = !b := Bool.eq_not.mpr hi
    rw [Bool.not_not] at hacts
    obtain ⟨log, hlog, htrack⟩ := h.wire
    have hsame := hreg (link.id b) (link.id_ne b)
    have hdone := h.peer_acts hlog hnodes hsound hsock hacts (by rwa [hsame])
      (fun hl => ⟨(h.unlinked hl).1 b, by rw [hsame]; exact (h.unlinked hl).2.2⟩) rfl
    rwa [Function.update_eq_self] at hdone

/-- Node `b` receives the packet `data`. -/
theorem Synced.deliver_self (h : Synced link b net) (hsends : (sys b).Delivers) {data : List UInt8}
    {rest : List (List UInt8)} (hchan : net.chan (!b) = data :: rest) (stale : Mem) :
    Synced link b (net.step link sys (.deliver b stale)) := by
  obtain ⟨us', hback⟩ := h.back
  rw [hchan] at hback
  obtain ⟨u, us', hu, -, -⟩ := List.forall₂_cons_left_iff.mp hback
  have hlinked : net.linked = true := by
    by_contra hl
    have hnil := (h.unlinked (Bool.eq_false_iff.mpr hl)).1 !b
    rw [hchan] at hnil
    cases hnil
  obtain ⟨hnodes, hsound, hsock⟩ := main_step_well (sys b) (h.nodes b) (h.sound b) (h.sock b)
    (hu.type ⟨link.id !b, QRTR_PORT_CTRL⟩ stale).1
  obtain ⟨us, hacts, hsnap⟩ := main_step_acts (h.nodes b) (h.sound b) (h.sock b) hsends
    (link.ne_bcast b) (link.id_ne b) hu stale
  have htable : map_get ((main.step (sys b) (link.id b) (net.ns b)
      (fromPeer link (!b) data stale)).reg (link.id b)) =
        Replica.replay (map_get ((net.ns b).reg (link.id b))) us := hacts.table
  simp only [Net.step, hchan]
  refine h.pop_back.sends hnodes hsound hsock hacts
    (fun hl => absurd hlinked (Bool.eq_false_iff.mp hl)) fun replica log ht => ?_
  · rw [← fromPeer, htable]
    split
    · -- the snapshot makes the copy complete, whatever it was
      rename_i htype
      rw [(hsnap htype).replay_self]
      exact ht.snapshot (hsnap htype) _
    · exact ht.send us

/-- The other node receives the packet `data`. -/
theorem Synced.deliver_peer (h : Synced link b net) (hsends : (sys !b).Delivers)
    (hmemory : (sys !b).Allocates) {data : List UInt8} {rest : List (List UInt8)}
    (hchan : net.chan b = data :: rest) (stale : Mem) :
    Synced link b (net.step link sys (.deliver (!b) stale)) := by
  obtain ⟨log, hlog, htrack⟩ := h.wire
  rw [hchan] at hlog
  obtain ⟨u, log', hu, hrest, rfl⟩ := List.forall₂_cons_left_iff.mp hlog
  obtain ⟨hnodes, hsound, hsock⟩ := main_step_well (sys !b) (h.nodes !b) (h.sound !b) (h.sock !b)
    (hu.type ⟨link.id b, QRTR_PORT_CTRL⟩ stale).1
  obtain ⟨us, hacts, -⟩ := main_step_acts (h.nodes !b) (h.sound !b) (h.sock !b) hsends
    (link.ne_bcast !b) (link.id_ne b).symm hu stale
  have htable := main_step_carried (h.nodes !b) (h.sock !b) hmemory (link.id_ne b) hu stale
  simp only [Net.step, Net.pop, Bool.not_not, hchan, List.tail_cons]
  refine h.peer_acts hrest hnodes hsound hsock hacts ?_ (fun hl => ?_) ?_
  · have hreceive := htrack.receive
    rwa [← htable] at hreceive
  · have hnil := (h.unlinked hl).1 b
    rw [hchan] at hnil
    cases hnil
  · split
    · exact Function.update_of_ne (by simp) _ _
    · rfl

/-- **One event.** -/
theorem Synced.step (h : Synced link b net) (hsends : ∀ i, (sys i).Delivers)
    (hmemory : (sys !b).Allocates) (e : Event) : Synced link b (net.step link sys e) := by
  cases e with
  | linkUp =>
    refine ⟨h.nodes, h.sound, h.sock, fun hl => ?_, h.back, h.wire⟩
    cases hl
  | greet i =>
    exact h.acts i (moves_greet _ (h.nodes i) (h.sound i) (h.sock i) (hsends i))
  | client i port data hdata stale =>
    obtain ⟨us, hmoves, -⟩ := moves_client (h.nodes i) (h.sound i) (h.sock i) (hsends i)
      (link.ne_bcast i) (link.id_ne i) port hdata stale
    exact h.acts i hmoves
  | deliver i stale =>
    cases hchan : net.chan !i with
    | nil =>
      simp only [Net.step, hchan]
      exact h
    | cons data rest =>
      by_cases hi : i = b
      · subst hi
        exact h.deliver_self (hsends i) hchan stale
      · obtain rfl : i = !b := Bool.eq_not.mpr hi
        rw [Bool.not_not] at hchan
        exact h.deliver_peer (hsends !b) hmemory hchan stale

/-- **Every state two name servers reach.** -/
theorem Synced.run (hsends : ∀ i, (sys i).Delivers) (hmemory : (sys !b).Allocates)
    (events : List Event) : Synced link b (Net.run link sys events) := by
  have hfold : ∀ (events : List Event) (net : Net), Synced link b net →
      Synced link b (events.foldl (Net.step link sys) net) := by
    intro events
    induction events with
    | nil => exact fun net hnet => hnet
    | cons e events ih => exact fun net hnet => ih _ (hnet.step hsends hmemory e)
  -- nothing is known of anybody at the start
  have hview : (Context.init : Context FinMap).view = ⟨fun _ => map_create, [], [], 0⟩ := by
    rw [Context.view, funext reg_init]
    rfl
  have htable : map_get ((Context.init : Context FinMap).reg (link.id b)) = fun _ => none := by
    rw [reg_init]
    rfl
  refine hfold events _ ⟨fun _ => nodes_init, fun i => ?_, fun _ => rfl,
    fun _ => ⟨fun _ => rfl, rfl, htable⟩, ⟨[], .nil⟩, [], .nil, ?_⟩
  · simp only [Net.init]
    rw [hview]
    exact .start _ _
  · simp only [Net.init, htable]
    exact .empty (by simp) _

/-- The packets under way, processed by the other node. -/
theorem arrived_table {own x : UInt32} {sys : Sys} (hmemory : sys.Allocates) (hx : x ≠ own)
    (stale : Mem) {packets : List (List UInt8)} {log : List (Update UInt32 Server)}
    (h : List.Forall₂ (Carries x) packets log) {s : Context FinMap} (hnodes : Nodes s)
    (hsock : s.sock = true) :
    map_get ((packets.foldl (fun s data =>
      main.step sys own s ⟨⟨x, QRTR_PORT_CTRL⟩, data, stale⟩) s).reg x) =
        Replica.replay (map_get (s.reg x)) log := by
  induction h generalizing s with
  | nil => rfl
  | @cons data _ _ _ hu _ ih =>
    have hperf := main_step_refines sys own hnodes ⟨⟨x, QRTR_PORT_CTRL⟩, data, stale⟩
    rw [List.foldl_cons, ih hperf.nodes ((hperf.sock (hu.type _ stale).1).trans hsock), replay_cons,
      main_step_carried hnodes hsock hmemory hx hu stale]

theorem mem_records_iff {m : FinMap Server} {srv : Server} :
    srv ∈ records m ↔ ∃ key, map_get m key = some srv := by
  rw [records_eq]
  constructor
  · intro h
    obtain ⟨⟨key, r⟩, hmem, rfl⟩ := List.mem_map.mp h
    exact ⟨key, (mem_items (M := FinMap) trivial).mp hmem⟩
  · rintro ⟨key, hkey⟩
    exact List.mem_map.mpr ⟨_, LawfulMap.mem_of_get hkey, rfl⟩

end Net

/-- **Two name servers agree.** After any events, once node `b` has processed a HELLO of the other
node, which has memory: with the packets still under way processed, the records the other node has for
node `b` are the servers of node `b`. Without packets under way they are so at once. -/
theorem peers_agree (link : Link) (sys : Bool → Sys) (hsends : ∀ i, (sys i).Delivers) (b : Bool)
    (hmemory : (sys !b).Allocates) (events : List Event)
    (hgreeted : (Net.run link sys events).greeted b = true) (stale : Mem) :
    (∀ srv, srv ∈ records (((Net.run link sys events).arrived link sys b stale).reg (link.id b)) ↔
        srv ∈ records (((Net.run link sys events).ns b).reg (link.id b))) ∧
      ((Net.run link sys events).chan b = [] →
        ∀ srv, srv ∈ records (((Net.run link sys events).ns !b).reg (link.id b)) ↔
          srv ∈ records (((Net.run link sys events).ns b).reg (link.id b))) := by
  have h : Synced link b (Net.run link sys events) := .run hsends hmemory events
  generalize Net.run link sys events = net at h hgreeted
  obtain ⟨log, hlog, htrack⟩ := h.wire
  have harrived : ∀ srv, srv ∈ records ((net.arrived link sys b stale).reg (link.id b)) ↔
      srv ∈ records ((net.ns b).reg (link.id b)) := by
    intro srv
    have htable := arrived_table hmemory (link.id_ne b) stale hlog (h.nodes !b) (h.sock !b)
    rw [htrack.full hgreeted] at htable
    rw [mem_records_iff, mem_records_iff, ← htable]
    rfl
  refine ⟨harrived, fun hempty srv => ?_⟩
  rw [← harrived srv, Net.arrived, hempty, List.foldl_nil]

/-- Nodes 1 and 2. -/
def link12 : Link := ⟨fun i => if i then 2 else 1, by decide, by decide⟩

/-- Port 10 of node 1 registers a server, the link comes up, node 2 greets and is answered, and port
11 registers a server. -/
def meeting : List Event :=
  [.client false 10 (QrtrCtrlPkt.mk QrtrType.new_server.code 5 6 1 10).bytes (by decide) fun _ => 0,
    .linkUp, .greet true, .deliver false fun _ => 0,
    .client false 11 (QrtrCtrlPkt.mk QrtrType.new_server.code 5 7 1 11).bytes (by decide) fun _ => 0]

theorem peers_agree_meeting :
    ⟨5, 6, 1, 10⟩ ∈ records (((Net.run link12 (fun _ => allWell) meeting).arrived link12
      (fun _ => allWell) false fun _ => 0).reg 1) :=
  ((peers_agree link12 (fun _ => allWell) (fun _ => allWell_delivers) false allWell_allocates meeting
    (by decide +kernel) fun _ => 0).1 ⟨5, 6, 1, 10⟩).mpr (by decide +kernel)

/-- Node 1 has memory and node 2 has none. -/
def oneStarved (i : Bool) : Sys := if i then { allWell with calloc := fun _ _ => false } else allWell

theorem oneStarved_delivers (i : Bool) : (oneStarved i).Delivers := by
  cases i with
  | false => exact allWell_delivers
  | true => exact fun _ _ _ => rfl

/-- The copy that node 2 has of the table of node 1 stays empty. -/
theorem peers_disagree_without_memory :
    ¬ ∀ (link : Link) (sys : Bool → Sys), (∀ i, (sys i).Delivers) → ∀ (b : Bool) (events : List Event),
      (Net.run link sys events).greeted b = true → ∀ stale srv,
        srv ∈ records (((Net.run link sys events).arrived link sys b stale).reg (link.id b)) ↔
          srv ∈ records (((Net.run link sys events).ns b).reg (link.id b)) := by
  intro hall
  have hagree := hall link12 oneStarved oneStarved_delivers false meeting (by decide +kernel)
    (fun _ => 0) ⟨5, 6, 1, 10⟩
  have hlost : ⟨5, 6, 1, 10⟩ ∉ records (((Net.run link12 oneStarved meeting).arrived link12 oneStarved
      false fun _ => 0).reg (link12.id false)) := by decide +kernel
  exact hlost (hagree.mpr (by decide +kernel))

end Dragonboard.Ns
