/-
The registry is well formed.

The tables of `map.c` compare hashes and nothing else: a node is looked up by the hash of its id
and a server by the hash of its port, and what is found is taken for what was looked
for. This is right because `hash_u32` is injective and every item stands under the
hash of its own id or port. The packets keep it so: a record is put under the key
of its port, and a struct node is allocated only for an id that has none.

The all-zero NEW_SERVER that ends the first reply to a lookup is not mistaken for a record either,
since a record has a service.
-/
import Dragonboard.NsDeparture
import Dragonboard.NsIsolation
import Dragonboard.NsObserver

set_option autoImplicit false

namespace Dragonboard.Ns

open Dragonboard.Memory Dragonboard.MapApi
open Dragonboard.QrtrMap (Map structMap_eq_scanMap)

/-! ## Struct nodes

The registry consists of struct nodes with a table each, and the map that leads to them. That
every struct node is reached under its own id is kept by every function, because `node_get` is the
only one that allocates. -/

section Filing

variable {M : Type → Type}

/-- The ids of the struct nodes, in the order in which they were allocated. -/
def Context.ids (s : Context M) : List UInt32 := s.heap.map Node.id

/-- A change that does not touch the memory of the nodes. -/
structure Quiet (s s' : Context M) : Prop where
  heap : s'.heap = s.heap
  nodes : s'.nodes = s.nodes

theorem Quiet.refl (s : Context M) : Quiet s s := ⟨rfl, rfl⟩

theorem Quiet.trans {s s' s'' : Context M} (h : Quiet s s') (h' : Quiet s' s'') : Quiet s s'' :=
  ⟨h'.heap.trans h.heap, h'.nodes.trans h.nodes⟩

theorem Quiet.foldl {β : Type} {f : Context M → β → Context M} (hf : ∀ s b, Quiet s (f s b))
    (l : List β) (s : Context M) : Quiet s (l.foldl f s) := by
  induction l generalizing s with
  | nil => exact .refl s
  | cons b l ih => exact (hf s b).trans (ih (f s b))

variable (sys : Sys) (local_node : UInt32)

theorem Quiet.sendto (s : Context M) (dest : SockaddrQrtr) (data : List UInt8) (lookup : Option ℕ) :
    Quiet s (sendto sys s dest data lookup).2 := by
  unfold Ns.sendto
  simp only
  split
  · exact ⟨rfl, rfl⟩
  · exact ⟨rfl, rfl⟩

theorem Quiet.notify_lookups (s : Context M) (srv : Server) (new : Bool) :
    Quiet s (notify_lookups sys s srv new) := by
  refine Quiet.foldl (fun s l => ?_) s.lookups s
  split
  · exact .sendto sys s _ _ _
  · exact .refl s

variable [StructMap M]

/-- **`server_del`** writes the table of its node, if there is something to delete, and sends. -/
theorem server_del_quiet (s : Context M) (i : ℕ) (port : UInt32) :
    Quiet (if (map_get (s.services i) (hash_u32 port)).isSome then
        s.setServices i (map_remove (s.services i) (hash_u32 port)).1 else s)
      (server_del sys local_node s i port).2 := by
  unfold server_del
  cases map_get (s.services i) (hash_u32 port) with
  | none => exact .refl s
  | some srv =>
    simp only [Option.isSome_some, if_true]
    split
    · exact (Quiet.sendto sys _ _ _ _).trans (.notify_lookups sys _ _ _)
    · exact .notify_lookups sys _ _ _

theorem Quiet.propagate (s : Context M) (i : ℕ) (pkt : QrtrCtrlPkt) :
    Quiet s (propagate sys s i pkt) :=
  map_for_each_induction (P := Quiet s) (fun s' _ h => h.trans (.sendto sys s' _ _ _)) (.refl s)

variable [LawfulMap M]

/-- Every struct node is in the map of nodes, under the key of its id. -/
structure Filed (s : Context M) : Prop where
  good : Good s.nodes
  filed : ∀ {i : ℕ} {x : UInt32}, s.ids[i]? = some x → s.registered x = some i

/-- The tables and the rest of the state do not matter. -/
theorem Filed.of_ids {s s' : Context M} (h : Filed s) (hids : s'.ids = s.ids)
    (hnodes : s'.nodes = s.nodes) : Filed s' := by
  refine ⟨hnodes ▸ h.good, fun {i x} hi => ?_⟩
  rw [Context.registered, hnodes]
  exact h.filed (hids ▸ hi)

theorem Filed.quiet {s s' : Context M} (h : Filed s) (hq : Quiet s s') : Filed s' :=
  h.of_ids (congrArg (List.map Node.id) hq.heap) hq.nodes

theorem Filed.setServices {s : Context M} (h : Filed s) (i : ℕ) (m : M Server) :
    Filed (s.setServices i m) := by
  refine h.of_ids (List.ext_getElem? fun j => ?_) rfl
  simp only [Context.ids, Context.setServices, List.getElem?_map, List.getElem?_modify]
  cases s.heap[j]? with
  | none => rfl
  | some n =>
    by_cases hij : i = j
    · simp [hij]
    · simp [hij]

theorem Filed.server_del {s : Context M} (h : Filed s) (i : ℕ) (port : UInt32) :
    Filed (server_del sys local_node s i port).2 := by
  refine Filed.quiet ?_ (server_del_quiet sys local_node s i port)
  split
  · exact h.setServices i _
  · exact h

/-- **`node_get`** allocates a struct node only for an id that has none. -/
theorem Filed.node_get {s : Context M} (h : Filed s) (x : UInt32) :
    Filed (node_get sys s x).2 := by
  unfold Ns.node_get
  cases hx : map_get s.nodes (hash_u32 x) with
  | some i => exact h
  | none =>
    simp only
    by_cases hc : sys.calloc s.time 1 = true
    swap
    · rw [if_neg hc]
      exact h.quiet ⟨rfl, rfl⟩
    rw [if_pos hc, map_put]
    simp only
    cases hput : (map_reput (sys.calloc s.tick.time) s.nodes (hash_u32 x) s.heap.length).2 with
    | error rc =>
      obtain ⟨hsame, -⟩ := LawfulMap.reput_error hput
      exact h.quiet ⟨rfl, hsame⟩
    | ok old =>
      have hget := map_get_reput_fresh h.good hx hput
      refine ⟨(LawfulMap.reput_fresh h.good hx hput).1, fun {i y} hi => ?_⟩
      have hids : (s.ids ++ [x])[i]? = some y := by
        rw [← hi]
        simp only [Except.map, Context.ids, List.map_append, List.map_cons, List.map_nil]
      simp only [Context.registered, Except.map]
      rw [hget]
      rcases Nat.lt_or_ge i s.ids.length with hlt | hge
      · -- an older node: its id is not the new one, which had no node
        rw [List.getElem?_append_left hlt] at hids
        have hold := h.filed hids
        rw [Context.registered] at hold
        rw [if_neg, hold]
        intro hkey
        rw [hkey, hx] at hold
        cases hold
      · have hlast := (List.getElem?_eq_some_iff.mp hids).1
        rw [List.length_append, List.length_singleton] at hlast
        obtain rfl : i = s.ids.length := by omega
        rw [List.getElem?_concat_length] at hids
        cases hids
        rw [if_pos rfl, Context.ids, List.length_map]

theorem Filed.server_add {s : Context M} (h : Filed s) (service instance_ x port : UInt32) :
    Filed (server_add sys s service instance_ x port).2 := by
  unfold Ns.server_add
  split
  · exact h
  split
  swap
  · exact h.quiet ⟨rfl, rfl⟩
  have htick : Filed s.tick := h.quiet ⟨rfl, rfl⟩
  have hget := htick.node_get sys x
  simp only
  split
  · exact hget
  · -- the record is put, or the table is written back as it was
    split
    · exact (hget.setServices _ _).quiet ⟨rfl, rfl⟩
    · exact (hget.setServices _ _).quiet ⟨rfl, rfl⟩

theorem Filed.annouce_servers {s : Context M} (h : Filed s) (sq : SockaddrQrtr) :
    Filed (annouce_servers sys local_node s sq).2 := by
  have hget := h.node_get sys local_node
  unfold Ns.annouce_servers
  simp only
  split
  · exact hget
  · refine hget.quiet (map_for_each_induction (P := fun r : ℤ × Context M => Quiet _ r.2)
      (fun r srv hr => ?_) (.refl _))
    unfold annouce_servers.body
    split
    · exact hr
    · exact hr.trans (.sendto sys r.2 _ _ _)

theorem Filed.advertise_removal {s : Context M} (h : Filed s) (pkt : ℕ → QrtrCtrlPkt) :
    Filed (advertise_removal sys local_node s pkt).2 := by
  have hget := h.node_get sys local_node
  unfold Ns.advertise_removal
  simp only
  split
  · exact hget
  · exact hget.quiet (.propagate sys _ _ _)

theorem Filed.ctrl_cmd_hello {s : Context M} (h : Filed s) (sq : SockaddrQrtr) (buf : List UInt8) :
    Filed (ctrl_cmd_hello sys local_node s sq buf).2 := by
  have hsend : Filed (Ns.sendto sys s sq buf none).2 := h.quiet (.sendto sys s _ _ _)
  unfold Ns.ctrl_cmd_hello
  simp only
  split
  · exact hsend.annouce_servers sys local_node sq
  · exact hsend

theorem Filed.ctrl_cmd_bye {s : Context M} (h : Filed s) (sq : SockaddrQrtr) :
    Filed (ctrl_cmd_bye sys local_node s sq).2 := by
  have hget := h.node_get sys sq.sq_node
  unfold Ns.ctrl_cmd_bye
  simp only
  split
  · exact hget
  · refine Filed.advertise_removal sys local_node ?_ _
    exact map_for_each_induction (P := Filed) (fun _ _ h' => h'.server_del sys local_node _ _) hget

theorem Filed.ctrl_cmd_del_client {s : Context M} (h : Filed s) (sq : SockaddrQrtr)
    (node_id port : UInt32) :
    Filed (ctrl_cmd_del_client sys local_node s sq node_id port).2 := by
  unfold Ns.ctrl_cmd_del_client
  split
  · exact h
  split
  · exact h
  have hforget : Filed { s with lookups := s.lookups.filter fun l =>
      !(l.sq.sq_node = node_id ∧ l.sq.sq_port = port) } := h.quiet ⟨rfl, rfl⟩
  have hget := hforget.node_get sys node_id
  refine Filed.advertise_removal sys local_node ?_ _
  split
  · exact hget
  · exact hget.server_del sys local_node _ _

theorem Filed.ctrl_cmd_new_server {s : Context M} (h : Filed s) (sq : SockaddrQrtr)
    (service instance_ node_id port : UInt32) :
    Filed (ctrl_cmd_new_server sys local_node s sq service instance_ node_id port).2 := by
  unfold Ns.ctrl_cmd_new_server
  simp only
  generalize (if sq.sq_node = local_node then sq.sq_node else node_id) = x
  generalize (if sq.sq_node = local_node then sq.sq_port else port) = q
  have hadd := h.server_add sys service instance_ x q
  split
  · exact h
  split
  · exact hadd
  · simp only
    split
    · exact hadd.quiet ((Quiet.sendto sys _ _ _ _).trans (.notify_lookups sys _ _ _))
    · exact hadd.quiet (.notify_lookups sys _ _ _)

theorem Filed.ctrl_cmd_del_server {s : Context M} (h : Filed s) (sq : SockaddrQrtr)
    (service instance_ node_id port : UInt32) :
    Filed (ctrl_cmd_del_server sys local_node s sq service instance_ node_id port).2 := by
  unfold Ns.ctrl_cmd_del_server
  simp only
  generalize (if sq.sq_node = local_node then sq.sq_node else node_id) = x
  generalize (if sq.sq_node = local_node then sq.sq_port else port) = q
  have hget := h.node_get sys x
  split
  · exact h
  split
  · exact h
  split
  · exact hget
  · exact hget.server_del sys local_node _ _

theorem Filed.ctrl_cmd_new_lookup {s : Context M} (h : Filed s) (sq : SockaddrQrtr)
    (service instance_ : UInt32) :
    Filed (ctrl_cmd_new_lookup sys local_node s sq service instance_).2 := by
  unfold Ns.ctrl_cmd_new_lookup
  split
  · exact h
  split
  swap
  · exact h.quiet ⟨rfl, rfl⟩
  -- the lookup is appended, and the rest is sending
  refine Filed.quiet (s := { s.tick with
    lookups := s.lookups ++ [⟨s.time, service, instance_, sq⟩] }) (h.quiet ⟨rfl, rfl⟩) ?_
  exact (Quiet.foldl (fun s' _ => .sendto sys s' _ _ _) _ _).trans (.sendto sys _ _ _ _)

/-- **Every packet keeps the struct nodes filed.** -/
theorem Filed.ctrl_port_fn {s : Context M} (h : Filed s) (d : Datagram) :
    Filed (ctrl_port_fn sys local_node s d) := by
  unfold Ns.ctrl_port_fn
  split
  · exact h.quiet ⟨rfl, rfl⟩
  split
  · exact h
  unfold ctrl_port_fn.dispatch
  split
  · exact h.ctrl_cmd_hello sys local_node _ _
  · exact h.ctrl_cmd_bye sys local_node _
  · exact h.ctrl_cmd_del_client sys local_node _ _ _
  · exact h.ctrl_cmd_new_server sys local_node _ _ _ _ _
  · exact h.ctrl_cmd_del_server sys local_node _ _ _ _ _
  · exact h.ctrl_cmd_new_lookup sys local_node _ _ _
  · exact h.quiet ⟨rfl, rfl⟩
  all_goals exact h

theorem main_start_filed : Filed (main.start sys : Context M) := by
  have hinit : Filed (Context.init : Context M) := by
    refine ⟨LawfulMap.good_create, fun {i x} hi => ?_⟩
    simp [Context.ids, Context.init] at hi
  have hhello : Filed (say_hello sys Context.init : ℤ × Context M).2 :=
    hinit.quiet (.sendto sys _ _ _ _)
  unfold main.start
  simp only
  split
  · exact hhello.quiet ⟨rfl, rfl⟩
  · exact hhello

/-- In every state the name server reaches the struct nodes are filed. -/
theorem main_run_filed (ds : List Datagram) : Filed (main.run sys local_node ds : Context M) := by
  have hfold : ∀ (ds : List Datagram) (s : Context M), Filed s →
      Filed (ds.foldl (main.step sys local_node) s) := by
    intro ds
    induction ds with
    | nil => exact fun s hs => hs
    | cons d ds ih =>
      intro s hs
      refine ih _ ?_
      unfold main.step
      split
      · exact hs.ctrl_port_fn sys local_node d
      · exact hs
  exact hfold ds _ (main_start_filed sys)

end Filing

/-! ## The end marker

A client recognises the end of a reply by a NEW_SERVER with all fields zero. It is to be sent at
no other time, and a record with these fields would be taken for it. -/

/-- What goes out on a packet holds the end marker only at the end of the reply to an accepted
NEW_LOOKUP. -/
def MarksEnd (local_node : UInt32) (d : Datagram) (o : List Sent) : Prop :=
  ∀ p ∈ o, p.data = endMarker → d.type = some .new_lookup ∧ d.sq.sq_node = local_node ∧
    ∃ reply, o = reply ++ [p] ∧ p.dest = d.sq ∧ ∀ q ∈ reply, q.dest = d.sq ∧ q.data ≠ endMarker

/-- A packet of another type is not the end marker. -/
theorem bytes_ne_endMarker (type : QrtrType) {pkt : QrtrCtrlPkt} (hcmd : pkt.cmd = type.code)
    (htype : type ≠ .new_server) : pkt.bytes ≠ endMarker := by
  intro heq
  have hcode : type.code = QrtrType.new_server.code :=
    hcmd.symm.trans (congrArg QrtrCtrlPkt.cmd (QrtrCtrlPkt.bytes_injective heq))
  have hsame := congrArg QrtrType.ofCode hcode
  simp only [QrtrType.ofCode_code, Option.some.injEq] at hsame
  exact htype hsame

/-- Neither is a record. -/
theorem Server.bytes_ne_endMarker {srv : Server} (h : srv.service ≠ 0) (type : QrtrType) :
    (srv.pkt type).bytes ≠ endMarker :=
  fun heq => srv.pkt_ne_endMarker h type (QrtrCtrlPkt.bytes_injective heq)

/-- Nor is a HELLO, which is sent back as it came. -/
theorem Datagram.hello_ne_endMarker {d : Datagram} (h : d.type = some .hello) :
    d.received ≠ endMarker := by
  intro heq
  have hholds := holds_writeAt d.stale 0 d.received
  have hmsg : d.msg = lookup_notify.pkt none true := by
    refine QrtrCtrlPkt.read_of_holds ?_
    rw [Datagram.buf, ← endMarker, ← heq]
    exact hholds
  rw [Datagram.type, hmsg, heq, if_pos (by simp [endMarker])] at h
  exact absurd h (by decide)

section EndMarker

variable {M : Type → Type} {sys : Sys} {local_node : UInt32}

/-- A change on which no end marker is sent. -/
def Unmarked (s s' : Context M) : Prop := ∃ o, s'.sent = s.sent ++ o ∧ ∀ p ∈ o, p.data ≠ endMarker

theorem Unmarked.silent {s s' : Context M} (h : s'.sent = s.sent) : Unmarked s s' :=
  ⟨[], by rw [h, List.append_nil], fun _ hp => absurd hp List.not_mem_nil⟩

theorem Unmarked.trans {s s' s'' : Context M} (h : Unmarked s s') (h' : Unmarked s' s'') :
    Unmarked s s'' := by
  obtain ⟨o, hsent, ho⟩ := h
  obtain ⟨o', hsent', ho'⟩ := h'
  refine ⟨o ++ o', by rw [hsent', hsent, List.append_assoc], fun p hp => ?_⟩
  rcases List.mem_append.mp hp with hp | hp
  · exact ho p hp
  · exact ho' p hp

theorem Unmarked.marksEnd {s s' : Context M} (h : Unmarked s s') (d : Datagram) :
    ∃ o, s'.sent = s.sent ++ o ∧ MarksEnd local_node d o := by
  obtain ⟨o, hsent, ho⟩ := h
  exact ⟨o, hsent, fun p hp hend => absurd hend (ho p hp)⟩

theorem news_del_unmarked {ls : List Lookup} {srv : Server} :
    ∀ p ∈ news .del_server local_node ls srv, p.data ≠ endMarker := by
  intro p hp
  rw [news_data hp]
  exact bytes_ne_endMarker .del_server rfl (by decide)

theorem told_unmarked (type : QrtrType) {servers : List Server} {pkt : QrtrCtrlPkt}
    (hcmd : pkt.cmd = type.code) (htype : type ≠ .new_server) :
    ∀ p ∈ told servers pkt, p.data ≠ endMarker := by
  intro p hp
  obtain ⟨srv, -, rfl⟩ := List.mem_map.mp hp
  exact bytes_ne_endMarker type hcmd htype

variable [StructMap M] [LawfulMap M]

/-- A change of which it is known what goes out. -/
theorem Becomes.unmarked {s s' : Context M} {reg : UInt32 → M Server} {ls : List Lookup}
    {o out : List Sent} {t : ℕ} (h : Becomes s s' ⟨reg, ls, s.sent ++ o, t⟩) (ho : Took sys o out)
    (hout : ∀ p ∈ out, p.data ≠ endMarker) : Unmarked s s' :=
  ⟨o, congrArg View.sent h.view, fun p hp => hout p (ho.sublist.subset hp)⟩

theorem Sends.unmarked {s s' : Context M} {out : List Sent} (h : Sends sys s s' out)
    (hout : ∀ p ∈ out, p.data ≠ endMarker) : Unmarked s s' := by
  obtain ⟨o, t, ho, -, hb⟩ := h
  exact hb.unmarked ho hout

theorem unmarked_hello {s : Context M} (h : Nodes s) (hs : Sound local_node s.view) {d : Datagram}
    (htype : d.type = some .hello) :
    Unmarked s (ctrl_cmd_hello sys local_node s d.sq d.received).2 := by
  refine (h.ctrl_cmd_hello sys local_node d.sq (Datagram.received_ne_nil htype)).unmarked fun p hp => ?_
  rcases List.mem_cons.mp hp with rfl | hp
  · exact Datagram.hello_ne_endMarker htype
  · obtain ⟨srv, hsrv, rfl⟩ := List.mem_map.mp hp
    rw [records_eq] at hsrv
    obtain ⟨e, he, rfl⟩ := List.mem_map.mp hsrv
    exact e.2.bytes_ne_endMarker (hs.keyed local_node e he).2.2.1 _

theorem unmarked_bye {s : Context M} (h : Nodes s) (sq : SockaddrQrtr) :
    Unmarked s (ctrl_cmd_bye sys local_node s sq).2 := by
  obtain ⟨hget, hi⟩ := h.node_get sys sq.sq_node
  have hidle : Unmarked s (node_get sys s sq.sq_node).2 :=
    hget.unmarked fun _ hp => absurd hp List.not_mem_nil
  unfold ctrl_cmd_bye
  simp only
  cases hr : (node_get sys s sq.sq_node).1 with
  | none => exact hidle
  | some i =>
    rw [hr] at hi
    simp only at hi ⊢
    have hwalk : ∀ s1, s1 = map_for_each (fun s => s.services i)
        (fun s srv => (server_del sys local_node s i srv.port).2) (node_get sys s sq.sq_node).2 →
        Nodes s1 ∧ s1.registered sq.sq_node = some i ∧ Unmarked s s1 := by
      rintro s1 rfl
      refine map_for_each_induction (P := fun s1 => Nodes s1 ∧ s1.registered sq.sq_node = some i ∧
        Unmarked s s1) ?_ ⟨hget.nodes, hi, hidle⟩
      rintro s2 srv ⟨hnodes, hi2, hs2⟩
      obtain ⟨o, t, ho, hb⟩ := hnodes.server_del_toList sys local_node hi2 srv.port
      refine ⟨hb.nodes, hb.kept hi2, hs2.trans (hb.unmarked ho fun p hp => ?_)⟩
      obtain ⟨old, -, hp⟩ := List.mem_flatMap.mp hp
      exact news_del_unmarked p hp
    obtain ⟨hnodes, -, hs1⟩ := hwalk _ rfl
    obtain ⟨t, hsend⟩ := hnodes.advertise_removal sys local_node fun _ => byePkt sq.sq_node
    exact hs1.trans (hsend.unmarked (told_unmarked .bye rfl (by decide)))

theorem unmarked_del_client {s : Context M} (h : Nodes s) (sq : SockaddrQrtr)
    (node_id port : UInt32) :
    Unmarked s (ctrl_cmd_del_client sys local_node s sq node_id port).2 := by
  by_cases hnode : sq.sq_node = node_id
  swap
  · rw [ctrl_cmd_del_client, if_pos hnode]
    exact .silent rfl
  by_cases hspoof : sq.sq_node = local_node ∧ sq.sq_port ≠ port
  · rw [ctrl_cmd_del_client, if_neg (not_not.mpr hnode), if_pos hspoof]
    exact .silent rfl
  subst hnode
  have hport : sq.sq_node = local_node → sq.sq_port = port := by
    intro hlocal
    by_contra hne
    exact hspoof ⟨hlocal, hne⟩
  obtain ⟨o, t, t', ho, hb⟩ := h.ctrl_cmd_del_client sys local_node hport
  refine hb.unmarked ho fun p hp => ?_
  rcases List.mem_append.mp hp with hp | hp
  · obtain ⟨srv, -, hp⟩ := List.mem_flatMap.mp hp
    exact news_del_unmarked p hp
  · exact told_unmarked .del_client rfl (by decide) p hp

theorem unmarked_new_server {s : Context M} (h : Nodes s) (sq : SockaddrQrtr)
    (service instance_ node_id port : UInt32) :
    Unmarked s (ctrl_cmd_new_server sys local_node s sq service instance_ node_id port).2 := by
  have hnew := h.ctrl_cmd_new_server sys local_node sq service instance_ node_id port
  split at hnew
  · exact hnew.1.unmarked fun _ hp => absurd hp List.not_mem_nil
  · rename_i srv _
    obtain ⟨-, hservice, -, u, old, o, t, -, ho, -, hb⟩ := hnew
    refine hb.unmarked ho fun p hp => ?_
    rw [news_data hp]
    exact srv.bytes_ne_endMarker hservice _

theorem unmarked_del_server {s : Context M} (h : Nodes s) (sq : SockaddrQrtr)
    (service instance_ node_id port : UInt32) :
    Unmarked s (ctrl_cmd_del_server sys local_node s sq service instance_ node_id port).2 := by
  rcases h.ctrl_cmd_del_server sys local_node sq service instance_ node_id port with
    ⟨-, -, hsame⟩ | ⟨q, -, hdel⟩
  · exact .silent (congrArg Context.sent hsame)
  split at hdel
  · exact hdel.unmarked fun _ hp => absurd hp List.not_mem_nil
  · obtain ⟨o, t, ho, -, hb⟩ := hdel
    exact hb.unmarked ho news_del_unmarked

/-- The reply to a lookup: records, and then the end marker. -/
theorem marksEnd_new_lookup {s : Context M} (h : Nodes s) (hs : Sound local_node s.view) {d : Datagram}
    (htype : d.type = some .new_lookup) (service instance_ : UInt32) :
    ∃ o, (ctrl_cmd_new_lookup sys local_node s d.sq service instance_).2.sent = s.sent ++ o ∧
      MarksEnd local_node d o := by
  rcases h.ctrl_cmd_new_lookup sys local_node d.sq service instance_ with
    hidle | ⟨hlocal, found, o, t, hfound, -, ho, -, hb⟩
  · obtain ⟨o, hsent, ho⟩ := hidle.unmarked fun _ hp => absurd hp List.not_mem_nil
    exact ⟨o, hsent, fun p hp hend => absurd hend (ho p hp)⟩
  refine ⟨o, congrArg View.sent hb.view, fun p hp hend => ⟨htype, hlocal, ?_⟩⟩
  obtain ⟨reply, last, rfl, hreply, hlast⟩ := List.sublist_append_iff.mp ho.sublist
  have hrecords : ∀ q ∈ reply, q.dest = d.sq ∧ q.data ≠ endMarker := by
    intro q hq
    obtain ⟨srv, hsrv, rfl⟩ := List.mem_map.mp (hreply.subset hq)
    obtain ⟨-, x, hx⟩ := (hfound srv).mp hsrv
    rw [records_eq] at hx
    obtain ⟨e, he, rfl⟩ := List.mem_map.mp hx
    exact ⟨rfl, e.2.bytes_ne_endMarker (hs.keyed x e he).2.2.1 _⟩
  rcases List.mem_append.mp hp with hp | hp
  · exact absurd hend (hrecords p hp).2
  · -- the end marker is there, so it was sent
    rcases List.sublist_singleton.mp hlast with rfl | rfl
    · exact absurd hp List.not_mem_nil
    · rw [List.mem_singleton.mp hp]
      exact ⟨reply, rfl, rfl, hrecords⟩

/-- **The end marker ends the reply to a lookup, and is sent at no other time.** -/
theorem main_step_marksEnd {s : Context M} (h : Nodes s) (hs : Sound local_node s.view)
    (d : Datagram) :
    ∃ o, (main.step sys local_node s d).sent = s.sent ++ o ∧ MarksEnd local_node d o := by
  unfold main.step
  split
  swap
  · exact (Unmarked.silent rfl).marksEnd d
  cases hcmd : d.type with
  | none =>
    rw [ctrl_port_fn_untyped sys local_node d s hcmd]
    refine (Unmarked.silent ?_).marksEnd d
    split
    · rfl
    · rfl
  | some type =>
    obtain ⟨hdispatch, hcode⟩ := ctrl_port_fn_dispatch sys local_node d s hcmd
    rw [hdispatch, ctrl_port_fn.dispatch, hcode]
    cases type with
    | hello => exact (unmarked_hello h hs hcmd).marksEnd d
    | bye => exact (unmarked_bye h _).marksEnd d
    | del_client => exact (unmarked_del_client h _ _ _).marksEnd d
    | new_server => exact (unmarked_new_server h _ _ _ _ _).marksEnd d
    | del_server => exact (unmarked_del_server h _ _ _ _ _).marksEnd d
    | new_lookup => exact marksEnd_new_lookup h hs hcmd _ _
    | del_lookup | data | exit | ping | resume_tx => exact (Unmarked.silent rfl).marksEnd d

theorem main_start_unmarked (sys : Sys) :
    ∀ p ∈ (main.start sys : Context M).sent, p.data ≠ endMarker := by
  have hsend := (nodes_init (M := M)).sendto sys bcast_sq
    (QrtrCtrlPkt.mk QrtrType.hello.code 0 0 0 0).bytes none
  have hhello : ∀ p ∈ (say_hello sys Context.init : ℤ × Context M).2.sent, p.data ≠ endMarker := by
    obtain ⟨o, hsent, ho⟩ := hsend.unmarked fun p hp => by
      rw [List.mem_singleton.mp hp]
      exact bytes_ne_endMarker .hello rfl (by decide)
    intro p hp
    have hmem : p ∈ (Context.init : Context M).sent ++ o := hsent ▸ hp
    exact ho p (by simpa [Context.init] using hmem)
  unfold main.start
  simp only
  split
  · exact hhello
  · exact hhello

end EndMarker

/-! ## The registry on the tables of `map.c`

The parts are put together for the tables of `map.c`. They may hold two records of one port, and
so the number of records that one packet deletes has to be shown for them directly. -/

/-- Struct nodes, records and lookups are where they belong. -/
structure WellFormed (local_node : UInt32) (s : Context Map) : Prop where
  /-- an id has one struct node -/
  ids : (s.heap.map Node.id).Nodup
  /-- which is stored under the hash of the id -/
  stored : ∀ i n, s.heap[i]? = some n → map_get s.nodes (hash_u32 n.id) = some i
  /-- and the map of nodes holds nothing else, and no key twice -/
  nodes : ∀ e ∈ s.nodes.entries, ∃ n, s.heap[e.2]? = some n ∧ e.1 = hash_u32 n.id
  keys : (s.nodes.entries.map Prod.fst).Nodup
  /-- a record is in the table of its node, under the hash of its port -/
  records : ∀ n ∈ s.heap, ∀ e ∈ n.services.entries,
    e.2.node = n.id ∧ e.2.service ≠ 0 ∧ e.2.port ≠ 0 ∧ e.1 = hash_u32 e.2.port
  /-- lookups are those of local clients -/
  observers : ∀ l ∈ s.lookups, l.sq.sq_node = local_node

/-- What is found under the hash of a port is on that port. -/
theorem WellFormed.port_of_get {local_node : UInt32} {s : Context Map} (h : WellFormed local_node s)
    {n : Node Map} (hn : n ∈ s.heap) {port : UInt32} {srv : Server}
    (hget : map_get n.services (hash_u32 port) = some srv) : srv.port = port := by
  obtain ⟨-, -, -, hkey⟩ := h.records n hn _ (QrtrMap.map_get_some_mem hget)
  exact (hash_u32_injective hkey).symm

/-- `server_del` takes servers of one port of one node at most. -/
def DeletesOnly (sys : Sys) (local_node : UInt32) (s : Context Map) (i : ℕ) (port : UInt32) : Prop :=
  ∀ j n, s.heap[j]? = some n → ∃ services,
    (server_del sys local_node s i port).2.heap[j]? = some ⟨n.id, services⟩ ∧
      (j ≠ i → services = n.services) ∧
      services.entries.filter (·.2.port ≠ port) = n.services.entries.filter (·.2.port ≠ port)

theorem WellFormed.server_del {local_node : UInt32} {s : Context Map} (h : WellFormed local_node s)
    (sys : Sys) (i : ℕ) (port : UInt32) : DeletesOnly sys local_node s i port := by
  intro j n hn
  rw [(server_del_quiet sys local_node s i port).heap]
  split
  swap
  · exact ⟨n.services, hn, fun _ => rfl, rfl⟩
  simp only [Context.setServices, List.getElem?_modify, hn, Option.map_eq_map, Option.map_some]
  by_cases hij : i = j
  swap
  · rw [if_neg hij]
    exact ⟨n.services, rfl, fun _ => rfl, rfl⟩
  subst hij
  have hservices : s.services i = n.services := by
    rw [Context.services, hn, Option.map_some, Option.getD_some]
  rw [if_pos rfl, hservices]
  refine ⟨_, rfl, fun hne => absurd rfl hne, ?_⟩
  -- among records that stand under their ports, other ports are other keys
  have hkeys : ∀ l : List (UInt32 × Server), l ⊆ n.services.entries →
      l.filter (·.2.port ≠ port) = l.filter (·.1 ≠ hash_u32 port) := by
    intro l hl
    refine List.filter_congr fun e he => ?_
    obtain ⟨-, -, -, hkey⟩ := h.records n (List.mem_of_getElem? hn) e (hl he)
    simp [hkey]
  have hrest := Map.rest_remove_filter n.services (hash_u32 port) 0
  rw [Map.rest_zero, Map.rest_zero, ← hkeys _ (QrtrMap.map_remove_sublist _ _).subset,
    ← hkeys _ (List.Subset.refl _)] at hrest
  exact hrest

theorem main_run_wellFormed (sys : Sys) (local_node : UInt32) (ds : List Datagram) :
    WellFormed local_node (main.run sys local_node ds) := by
  have hnodes : Nodes (main.run sys local_node ds : Context Map) := main_run_nodes sys local_node ds
  have hsound : Sound local_node (main.run sys local_node ds : Context Map).view :=
    main_run_sound sys local_node ds
  have hfiled : Filed (main.run sys local_node ds : Context Map) := main_run_filed sys local_node ds
  generalize (main.run sys local_node ds : Context Map) = s at hnodes hsound hfiled
  have hstored : ∀ i n, s.heap[i]? = some n → s.registered n.id = some i := by
    intro i n hn
    refine hfiled.filed ?_
    rw [Context.ids, List.getElem?_map, hn, Option.map_some]
  -- two struct nodes of one id would be one item of the map
  refine ⟨?_, hstored, fun e he => ?_, hnodes.good.2, fun n hn e he => ?_, hsound.observers⟩
  · refine List.nodup_iff_getElem?_ne_getElem?.mpr fun i j hij hj heq => ?_
    obtain ⟨x, hx⟩ : ∃ x, s.ids[j]? = some x := ⟨_, List.getElem?_eq_getElem hj⟩
    have hi := hfiled.filed (heq.trans hx)
    rw [hfiled.filed hx] at hi
    cases hi
    exact absurd hij (Nat.lt_irrefl _)
  · obtain ⟨n, hn, hkey⟩ := hnodes.node ((MapApi.mem_items hnodes.good).mp he)
    exact ⟨n, hn, hkey.symm⟩
  · obtain ⟨i, hi⟩ := List.getElem?_of_mem hn
    have hreg : s.reg n.id = n.services := by
      rw [← Context.services_eq (hstored i n hi), Context.services, hi, Option.map_some,
        Option.getD_some]
    obtain ⟨hkey, hnode, hservice, hport⟩ := hsound.keyed n.id e (by rw [Context.view_reg, hreg]; exact he)
    exact ⟨hnode, hservice, hport, hkey⟩

/-- **The registry is well formed** in every state the name server reaches, on the tables of `map.c`.
So a look under the hash of a port finds nothing of another port, `server_del` takes nothing of
another port, and the end marker is sent at the end of the reply to a NEW_LOOKUP and at no other time. -/
theorem registry_well_formed (sys : Sys) (local_node : UInt32) (ds : List Datagram) :
    WellFormed local_node (main.run sys local_node ds) ∧
    (∀ n ∈ (main.run sys local_node ds : Context Map).heap, ∀ port srv,
      map_get n.services (hash_u32 port) = some srv → srv.port = port) ∧
    (∀ i port, DeletesOnly sys local_node (main.run sys local_node ds) i port) ∧
    (∀ p ∈ (main.start sys : Context Map).sent, p.data ≠ endMarker) ∧
    ∀ d, ∃ o, (main.step sys local_node (main.run sys local_node ds : Context Map) d).sent =
      (main.run sys local_node ds : Context Map).sent ++ o ∧ MarksEnd local_node d o := by
  have hwell := main_run_wellFormed sys local_node ds
  refine ⟨hwell, fun n hn port srv => hwell.port_of_get hn, fun i port => hwell.server_del sys i port,
    main_start_unmarked sys, fun d => ?_⟩
  exact main_step_marksEnd (main_run_nodes sys local_node ds) (main_run_sound sys local_node ds) d

end Dragonboard.Ns
