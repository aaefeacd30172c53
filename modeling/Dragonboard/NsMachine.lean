/-
What a control packet can do.

`Deed` lists the changes of the view one packet can bring about, with the guards under which
the handlers make them: packets are sent, a record of the sender's node is removed
or put, a lookup is registered, lookups are forgotten. Handling a packet is a
sequence of such deeds (`ctrl_port_fn_refines`), so an invariant of the
name server is proved once per deed, without looking at handlers, loops or memory.
-/
import Dragonboard.NsView
import Mathlib.Logic.Relation

set_option autoImplicit false

namespace Dragonboard.Ns

open Dragonboard.Memory Dragonboard.MapApi

/-- The packet in the receive buffer. -/
def Datagram.msg (d : Datagram) : QrtrCtrlPkt := .read d.buf

/-- The type of a packet that is long enough to have one. -/
def Datagram.type (d : Datagram) : Option QrtrType :=
  if 4 ≤ d.received.length then QrtrType.ofCode d.msg.cmd else none

theorem Datagram.received_ne_nil {d : Datagram} {type : QrtrType} (htype : d.type = some type) :
    d.received ≠ [] := by
  intro hnil
  rw [Datagram.type, hnil] at htype
  cases htype

/-- A packet that has a type is dispatched on it. -/
theorem ctrl_port_fn_dispatch {M : Type → Type} [StructMap M] (sys : Sys) (local_node : UInt32)
    (d : Datagram) (s : Context M) {type : QrtrType} (htype : d.type = some type) :
    ctrl_port_fn sys local_node s d =
        (ctrl_port_fn.dispatch sys local_node s d.sq d.received d.msg).2 ∧
      QrtrType.ofCode d.msg.cmd = some type := by
  unfold Datagram.type at htype
  split at htype
  · rename_i hlen
    refine ⟨?_, htype⟩
    unfold ctrl_port_fn
    rw [if_neg (by omega), if_neg (by omega)]
    rfl
  · cases htype

/-- A packet that has no type does nothing, or closes the socket if it is empty. -/
theorem ctrl_port_fn_untyped {M : Type → Type} [StructMap M] (sys : Sys) (local_node : UInt32)
    (d : Datagram) (s : Context M) (htype : d.type = none) :
    ctrl_port_fn sys local_node s d =
      if d.received = [] then { s with sock := false } else s := by
  unfold ctrl_port_fn
  by_cases hnil : d.received = []
  · rw [if_pos (by rw [hnil]; rfl), if_pos hnil]
  rw [if_neg (by simpa using hnil), if_neg hnil]
  split
  · rfl
  · rename_i hlen
    have hcode : QrtrType.ofCode d.msg.cmd = none := by
      rw [← htype, Datagram.type, if_pos (Nat.not_lt.mp hlen)]
    rw [← Datagram.msg, ctrl_port_fn.dispatch, hcode]

/-- A system on which everything succeeds. -/
def allWell : Sys where
  calloc _ _ := true
  sendto _ _ data := data.length
  stack _ := (0, 0)

/-- A packet from an address, in a buffer that was zero. -/
def packet (sq : SockaddrQrtr) (pkt : QrtrCtrlPkt) : Datagram := ⟨sq, pkt.bytes, fun _ => 0⟩

theorem allWell_delivers : allWell.Delivers := fun _ _ _ => rfl

theorem allWell_allocates : allWell.Allocates := fun _ _ => rfl

section Machine

variable {M : Type → Type} [StructMap M] [LawfulMap M]

open LawfulMap Relation

/-! ## Deeds

A packet may change the view in several steps, with things sent in between. A deed is one such
step; what every deed preserves is preserved by every handler, so an invariant of the registry
needs one case for each deed and none for the handlers. -/

/-- One change of the view on a packet. -/
inductive Deed (sys : Sys) (local_node : UInt32) (d : Datagram) (v : View M) : View M → Prop
  /-- packets to the sender of a HELLO, or to local services -/
  | send {out o : List Sent} {t : ℕ}
      (hout : ∀ p ∈ out, p.lookup = none ∧ (d.type = some .hello ∧ p.dest = d.sq ∨
        ∃ srv ∈ records (v.reg local_node), p.dest = ⟨srv.node, srv.port⟩))
      (ho : Took sys o out) (ht : v.time ≤ t) :
      Deed sys local_node d v { v with sent := v.sent ++ o, time := t }
  /-- a record of the sender's node removed; a local client names its own port, except in a BYE -/
  | del {port : UInt32} {srv : Server} {o : List Sent} {t : ℕ}
      (hsrv : map_get (v.reg d.sq.sq_node) (hash_u32 port) = some srv)
      (hport : d.sq.sq_node = local_node → port = d.sq.sq_port ∨ d.type = some .bye)
      (ho : Took sys o (news .del_server local_node v.lookups srv)) (ht : v.time ≤ t) :
      Deed sys local_node d v ⟨Function.update v.reg d.sq.sq_node
        (map_remove (v.reg d.sq.sq_node) (hash_u32 port)).1, v.lookups, v.sent ++ o, t⟩
  /-- a record of the sender's node put; a local client puts it under its own port -/
  | add {srv : Server} {u t : ℕ} {old : Option Server} {o : List Sent}
      (htype : d.type = some .new_server)
      (hsrv : srv = claimed local_node d.sq d.msg.service d.msg.instance_ d.msg.port)
      (hservice : srv.service ≠ 0) (hport : srv.port ≠ 0)
      (hput : (map_reput (sys.calloc u) (v.reg srv.node) (hash_u32 srv.port) srv).2 = .ok old)
      (ho : Took sys o (news .new_server local_node v.lookups srv)) (ht : v.time ≤ t) :
      Deed sys local_node d v ⟨Function.update v.reg srv.node
        (map_reput (sys.calloc u) (v.reg srv.node) (hash_u32 srv.port) srv).1, v.lookups,
          v.sent ++ o, t⟩
  /-- a lookup of a local client, and its first reply -/
  | lookup {service instance_ : UInt32} {found : List Server} {o : List Sent} {t : ℕ}
      (hlocal : d.sq.sq_node = local_node)
      (hfound : ∀ srv, srv ∈ found ↔ Lookup.wants ⟨v.time, service, instance_, d.sq⟩ srv.service
        srv.instance_ = true ∧ ∃ x, srv ∈ records (v.reg x))
      (ho : Took sys o (replies ⟨v.time, service, instance_, d.sq⟩ found)) (ht : v.time < t) :
      Deed sys local_node d v
        ⟨v.reg, v.lookups ++ [⟨v.time, service, instance_, d.sq⟩], v.sent ++ o, t⟩
  /-- lookups forgotten: of the sender, or of a client of its node if that is not the local one -/
  | forget {keep : Lookup → Bool}
      (hkeep : ∀ l, keep l = false → (d.type = some .del_lookup ∨ d.type = some .del_client) ∧
        (l.sq = d.sq ∨ l.sq.sq_node = d.sq.sq_node ∧ d.sq.sq_node ≠ local_node)) :
      Deed sys local_node d v { v with lookups := v.lookups.filter keep }

/-- A sequence of deeds, as the code makes it. -/
structure Performs (sys : Sys) (local_node : UInt32) (d : Datagram) (s s' : Context M) : Prop where
  deeds : ReflTransGen (Deed sys local_node d) s.view s'.view
  nodes : Nodes s'
  kept : ∀ {x : UInt32} {i : ℕ}, s.registered x = some i → s'.registered x = some i
  sock : d.received ≠ [] → s'.sock = s.sock

section Performs

variable {sys : Sys} {local_node : UInt32} {d : Datagram}

theorem Performs.refl {s : Context M} (h : Nodes s) : Performs sys local_node d s s :=
  ⟨.refl, h, fun hx => hx, fun _ => rfl⟩

theorem Performs.trans {s s' s'' : Context M} (h : Performs sys local_node d s s')
    (h' : Performs sys local_node d s' s'') : Performs sys local_node d s s'' :=
  ⟨h.deeds.trans h'.deeds, h'.nodes, fun hx => h'.kept (h.kept hx),
    fun hd => (h'.sock hd).trans (h.sock hd)⟩

theorem Performs.deed {s s' : Context M} {v : View M} (hb : Becomes s s' v)
    (hv : Deed sys local_node d s.view v) : Performs sys local_node d s s' :=
  ⟨.single (hb.view.symm ▸ hv), hb.nodes, hb.kept, fun _ => hb.sock⟩

theorem Sends.performs {s s' : Context M} {out : List Sent} (h : Sends sys s s' out)
    (hout : ∀ p ∈ out, p.lookup = none ∧ (d.type = some .hello ∧ p.dest = d.sq ∨
      ∃ srv ∈ records (s.reg local_node), p.dest = ⟨srv.node, srv.port⟩)) :
    Performs sys local_node d s s' := by
  obtain ⟨o, t, ho, ht, hb⟩ := h
  exact .deed hb (.send hout ho ht)

theorem Sends.performs_nil (local_node : UInt32) (d : Datagram) {s s' : Context M}
    (h : Sends sys s s' []) : Performs sys local_node d s s' :=
  h.performs fun _ hp => absurd hp List.not_mem_nil

end Performs

/-! ## Handlers as sequences of deeds

One lemma for each handler, from its theorem in `NsView`. -/

section Handlers

variable (sys : Sys) (local_node : UInt32) (d : Datagram) {s : Context M}

theorem performs_del (h : Nodes s) {i : ℕ} (hi : s.registered d.sq.sq_node = some i) (port : UInt32)
    (hport : d.sq.sq_node = local_node → port = d.sq.sq_port ∨ d.type = some .bye) :
    Performs sys local_node d s (server_del sys local_node s i port).2 := by
  have hdel := h.server_del sys local_node hi port
  cases hg : map_get (s.reg d.sq.sq_node) (hash_u32 port) with
  | none =>
    rw [hg] at hdel
    simp only at hdel
    rw [hdel]
    exact .refl h
  | some srv =>
    rw [hg] at hdel
    obtain ⟨o, t, ho, ht, hb⟩ := hdel
    exact .deed hb (.del hg hport ho ht)

theorem performs_advertise (h : Nodes s) (pkt : ℕ → QrtrCtrlPkt) :
    Performs sys local_node d s (advertise_removal sys local_node s pkt).2 := by
  obtain ⟨t, hsend⟩ := h.advertise_removal sys local_node pkt
  refine hsend.performs fun p hp => ?_
  obtain ⟨srv, hsrv, rfl⟩ := List.mem_map.mp hp
  exact ⟨rfl, .inr ⟨srv, hsrv, rfl⟩⟩

theorem performs_hello (h : Nodes s) (htype : d.type = some .hello) {buf : List UInt8}
    (hbuf : buf ≠ []) : Performs sys local_node d s (ctrl_cmd_hello sys local_node s d.sq buf).2 := by
  refine (h.ctrl_cmd_hello sys local_node d.sq hbuf).performs fun p hp => ?_
  rcases List.mem_cons.mp hp with rfl | hp
  · exact ⟨rfl, .inl ⟨htype, rfl⟩⟩
  · obtain ⟨srv, -, rfl⟩ := List.mem_map.mp hp
    exact ⟨rfl, .inl ⟨htype, rfl⟩⟩

theorem performs_bye (h : Nodes s) (htype : d.type = some .bye) :
    Performs sys local_node d s (ctrl_cmd_bye sys local_node s d.sq).2 := by
  obtain ⟨hget, hnode⟩ := h.node_get sys d.sq.sq_node
  have hidle := hget.performs_nil local_node d
  unfold ctrl_cmd_bye
  simp only
  cases hr : (node_get sys s d.sq.sq_node).1 with
  | none => exact hidle
  | some i =>
    rw [hr] at hnode
    simp only at hnode ⊢
    -- every round of the walk is a deletion in the same node
    have hwalk : ∀ s1, s1 = map_for_each (fun s => s.services i)
        (fun s srv => (server_del sys local_node s i srv.port).2) (node_get sys s d.sq.sq_node).2 →
        Performs sys local_node d s s1 ∧ s1.registered d.sq.sq_node = some i := by
      rintro s1 rfl
      refine map_for_each_induction (P := fun s1 => Performs sys local_node d s s1 ∧
        s1.registered d.sq.sq_node = some i) ?_ ⟨hidle, hnode⟩
      rintro s2 srv ⟨hperf, hi⟩
      have hdel := performs_del sys local_node d hperf.nodes hi srv.port fun _ => .inr htype
      exact ⟨hperf.trans hdel, hdel.kept hi⟩
    have hperf := (hwalk _ rfl).1
    exact hperf.trans (performs_advertise sys local_node d hperf.nodes _)

theorem performs_del_client (h : Nodes s) (htype : d.type = some .del_client)
    (node_id port : UInt32) :
    Performs sys local_node d s (ctrl_cmd_del_client sys local_node s d.sq node_id port).2 := by
  unfold ctrl_cmd_del_client
  by_cases hnode_id : d.sq.sq_node = node_id
  swap
  · rw [if_pos hnode_id]
    exact .refl h
  rw [if_neg (not_not.mpr hnode_id)]
  by_cases hspoof : d.sq.sq_node = local_node ∧ d.sq.sq_port ≠ port
  · rw [if_pos hspoof]
    exact .refl h
  rw [if_neg hspoof]
  subst hnode_id
  have hport : d.sq.sq_node = local_node → port = d.sq.sq_port := by
    intro hlocal
    by_contra hne
    exact hspoof ⟨hlocal, Ne.symm hne⟩
  simp only
  generalize hs1 : ({ s with lookups := s.lookups.filter fun l =>
    !(l.sq.sq_node = d.sq.sq_node ∧ l.sq.sq_port = port) } : Context M) = s1
  -- the lookups of the client go first: its own, or those of a client of another node
  have hforget : Performs sys local_node d s s1 := by
    subst hs1
    refine .deed (.of_same h rfl rfl rfl) (.forget fun l hl => ⟨.inr htype, ?_⟩)
    have hsq : l.sq.sq_node = d.sq.sq_node ∧ l.sq.sq_port = port := by simpa using hl
    by_cases hlocal : d.sq.sq_node = local_node
    · exact .inl (SockaddrQrtr.ext hsq.1 (hsq.2.trans (hport hlocal)))
    · exact .inr ⟨hsq.1, hlocal⟩
  obtain ⟨hget, hnode⟩ := hforget.nodes.node_get sys d.sq.sq_node
  have hidle := hforget.trans (hget.performs_nil local_node d)
  cases hr : (node_get sys s1 d.sq.sq_node).1 with
  | none => exact hidle.trans (performs_advertise sys local_node d hidle.nodes _)
  | some i =>
    rw [hr] at hnode
    have hdel := hidle.trans
      (performs_del sys local_node d hidle.nodes hnode port fun hlocal => .inl (hport hlocal))
    exact hdel.trans (performs_advertise sys local_node d hdel.nodes _)

theorem performs_new_server (h : Nodes s) (htype : d.type = some .new_server) :
    Performs sys local_node d s (ctrl_cmd_new_server sys local_node s d.sq d.msg.service
      d.msg.instance_ d.msg.node d.msg.port).2 := by
  have hnew := h.ctrl_cmd_new_server sys local_node d.sq d.msg.service d.msg.instance_ d.msg.node
    d.msg.port
  cases hacc : ctrl_cmd_new_server.accepted sys local_node s d.sq d.msg.service d.msg.instance_
      d.msg.node d.msg.port with
  | none =>
    rw [hacc] at hnew
    exact hnew.1.performs_nil local_node d
  | some srv =>
    rw [hacc] at hnew
    obtain ⟨hsrv, hservice, hport, u, old, o, t, hput, ho, ht, hb⟩ := hnew
    exact .deed hb (.add htype hsrv hservice hport hput ho ht)

theorem performs_del_server (h : Nodes s) (service instance_ node_id port : UInt32) :
    Performs sys local_node d s
      (ctrl_cmd_del_server sys local_node s d.sq service instance_ node_id port).2 := by
  rcases h.ctrl_cmd_del_server sys local_node d.sq service instance_ node_id port with
    ⟨-, -, hsame⟩ | ⟨q, hq, hdel⟩
  · rw [hsame]
    exact .refl h
  cases hg : map_get (s.reg d.sq.sq_node) (hash_u32 q) with
  | none =>
    rw [hg] at hdel
    exact hdel.performs_nil local_node d
  | some srv =>
    rw [hg] at hdel
    obtain ⟨o, t, ho, ht, hb⟩ := hdel
    refine .deed hb (.del hg (fun hlocal => .inl ?_) ho ht)
    rw [hq, if_pos hlocal]

theorem performs_new_lookup (h : Nodes s) (service instance_ : UInt32) :
    Performs sys local_node d s
      (ctrl_cmd_new_lookup sys local_node s d.sq service instance_).2 := by
  rcases h.ctrl_cmd_new_lookup sys local_node d.sq service instance_ with
    hidle | ⟨hlocal, found, o, t, hfound, -, ho, ht, hb⟩
  · exact hidle.performs_nil local_node d
  · exact .deed hb (.lookup hlocal hfound ho ht)

theorem performs_del_lookup (h : Nodes s) (htype : d.type = some .del_lookup)
    (service instance_ : UInt32) :
    Performs sys local_node d s (ctrl_cmd_del_lookup s d.sq service instance_).2 := by
  refine .deed (.of_same h rfl rfl rfl) (.forget fun l hl => ⟨.inl htype, .inl ?_⟩)
  rw [Bool.not_eq_false', decide_eq_true_eq] at hl
  exact SockaddrQrtr.ext hl.1 hl.2.1

/-- **Handling a packet is a sequence of deeds.** -/
theorem ctrl_port_fn_refines (h : Nodes s) :
    Performs sys local_node d s (ctrl_port_fn sys local_node s d) := by
  cases hcmd : d.type with
  | some type =>
    obtain ⟨hdispatch, hcode⟩ := ctrl_port_fn_dispatch sys local_node d s hcmd
    rw [hdispatch, ctrl_port_fn.dispatch, hcode]
    cases type with
    | hello => exact performs_hello sys local_node d h hcmd (Datagram.received_ne_nil hcmd)
    | bye => exact performs_bye sys local_node d h hcmd
    | del_client => exact performs_del_client sys local_node d h hcmd _ _
    | new_server => exact performs_new_server sys local_node d h hcmd
    | del_server => exact performs_del_server sys local_node d h _ _ _ _
    | new_lookup => exact performs_new_lookup sys local_node d h _ _
    | del_lookup => exact performs_del_lookup sys local_node d h hcmd _ _
    | data | exit | ping | resume_tx => exact .refl h
  | none =>
    -- nothing, too little, or a command of no known type
    rw [ctrl_port_fn_untyped sys local_node d s hcmd]
    split
    · rename_i hnil
      exact ⟨.refl, ⟨h.good, h.node⟩, fun hx => hx, fun hne => absurd hnil hne⟩
    · exact .refl h

end Handlers

/-! ## Runs

The main loop is a sequence of deeds too, and invariants are carried along it by induction. -/

section Runs

variable {sys : Sys} {local_node : UInt32}

theorem nodes_init : Nodes (Context.init : Context M) := by
  refine ⟨good_create, fun {key i} hi => ?_⟩
  rw [Context.init, map_get_create] at hi
  cases hi

theorem reg_init (x : UInt32) : (Context.init : Context M).reg x = map_create := by
  rw [Context.reg, Context.registered, Context.init, map_get_create]
  rfl

/-- The state before the main loop: no tables, no lookups, and perhaps a greeting sent. -/
theorem main_start (sys : Sys) :
    Nodes (main.start sys : Context M) ∧ ∃ o t, (∀ p ∈ o, p.dest = bcast_sq ∧ p.lookup = none) ∧
      (main.start sys : Context M).view = ⟨fun _ => map_create, [], o, t⟩ := by
  have hsend := nodes_init.sendto (M := M) sys bcast_sq
    (QrtrCtrlPkt.mk QrtrType.hello.code 0 0 0 0).bytes none
  obtain ⟨o, t, ho, -, hb⟩ := hsend
  have hstart : ∀ sock, Nodes ({ (say_hello sys Context.init : ℤ × Context M).2 with sock := sock }) :=
    fun _ => ⟨hb.nodes.good, hb.nodes.node⟩
  have hview : (say_hello sys Context.init : ℤ × Context M).2.view =
      ⟨fun _ => map_create, [], o, t⟩ := by
    refine hb.view.trans ?_
    rw [Context.view, funext reg_init]
    rfl
  have hout : ∀ p ∈ o, p.dest = bcast_sq ∧ p.lookup = none := by
    intro p hp
    obtain rfl := List.mem_singleton.mp (ho.sublist.subset hp)
    exact ⟨rfl, rfl⟩
  unfold main.start
  simp only
  split
  · exact ⟨hstart false, o, t, hout, hview⟩
  · exact ⟨hb.nodes, o, t, hout, hview⟩

/-- A round of the main loop is a sequence of deeds. -/
theorem main_step_refines (sys : Sys) (local_node : UInt32) {s : Context M} (h : Nodes s)
    (d : Datagram) : Performs sys local_node d s (main.step sys local_node s d) := by
  unfold main.step
  split
  · exact ctrl_port_fn_refines sys local_node d h
  · exact .refl h

theorem main_run_nodes (sys : Sys) (local_node : UInt32) (ds : List Datagram) :
    Nodes (main.run sys local_node ds : Context M) := by
  unfold main.run
  have hfold : ∀ (ds : List Datagram) (s : Context M), Nodes s →
      Nodes (ds.foldl (main.step sys local_node) s) := by
    intro ds
    induction ds with
    | nil => exact fun s hs => hs
    | cons d ds ih =>
      intro s hs
      exact ih _ (main_step_refines sys local_node hs d).nodes
  exact hfold ds _ (main_start sys).1

/-- What every deed preserves, a packet preserves. -/
theorem Performs.induction {P : View M → Prop} {d : Datagram} {s s' : Context M}
    (hdeed : ∀ v v', P v → Deed sys local_node d v v' → P v')
    (h : Performs sys local_node d s s') (hs : P s.view) : P s'.view := by
  have hdeeds := h.deeds
  generalize s'.view = w at hdeeds
  induction hdeeds with
  | refl => exact hs
  | tail _ hlast ih => exact hdeed _ _ ih hlast

omit [LawfulMap M] in
/-- A deed on a packet from node `m` leaves the other nodes alone. -/
theorem Deed.reg_eq {d : Datagram} {v v' : View M} (h : Deed sys local_node d v v') {n : UInt32}
    (hn : n ≠ d.sq.sq_node) : v'.reg n = v.reg n := by
  cases h with
  | send hout ho ht => rfl
  | del hsrv hport ho ht => exact Function.update_of_ne hn _ _
  | @add srv u t old o htype hsrv hservice hport hput ho ht =>
    have hnode : srv.node = d.sq.sq_node := by rw [hsrv, claimed]
    rw [← hnode] at hn
    exact Function.update_of_ne hn _ _
  | lookup hlocal hfound ho ht => rfl
  | forget hkeep => rfl

/-- The tables of the nodes a packet is not from. -/
theorem Performs.reg_eq {d : Datagram} {s s' : Context M} (h : Performs sys local_node d s s')
    {n : UInt32} (hn : n ≠ d.sq.sq_node) : s'.reg n = s.reg n :=
  h.induction (P := fun v => v.reg n = s.reg n) (fun _ _ hv hdeed => (hdeed.reg_eq hn).trans hv) rfl

/-- **What every deed preserves holds in every state the name server reaches.** -/
theorem main_run_induction {P : View M → Prop}
    (hstart : ∀ o t, (∀ p ∈ o, p.dest = bcast_sq ∧ p.lookup = none) →
      P ⟨fun _ => map_create, [], o, t⟩)
    (hdeed : ∀ d v v', P v → Deed sys local_node d v v' → P v') (ds : List Datagram) :
    P (main.run sys local_node ds : Context M).view := by
  have hfold : ∀ (ds : List Datagram) (s : Context M), Nodes s → P s.view →
      P (ds.foldl (main.step sys local_node) s).view := by
    intro ds
    induction ds with
    | nil => exact fun s _ hs => hs
    | cons d ds ih =>
      intro s hnodes hs
      have hstep := main_step_refines sys local_node hnodes d
      exact ih _ hstep.nodes (hstep.induction (hdeed d) hs)
  obtain ⟨hnodes, o, t, hout, hview⟩ := main_start (M := M) sys
  refine hfold ds _ hnodes ?_
  rw [hview]
  exact hstart o t hout

/-! ## The invariant of the registry

Records are found under the node and the port they name, and lookups belong to local clients. The
numbers of the lookups are increasing, so that each one has its own. -/

/-- Records are where they belong, and lookups are those of local clients, each with a number of its
own. -/
structure Sound (local_node : UInt32) (v : View M) : Prop where
  keyed : ∀ x, ∀ e ∈ items (v.reg x),
    e.1 = hash_u32 e.2.port ∧ e.2.node = x ∧ e.2.service ≠ 0 ∧ e.2.port ≠ 0
  observers : ∀ l ∈ v.lookups, l.sq.sq_node = local_node
  older : ∀ l ∈ v.lookups, l.id < v.time
  ids : (v.lookups.map Lookup.id).Nodup

/-- Nothing registered. -/
theorem Sound.start (o : List Sent) (t : ℕ) :
    Sound local_node (⟨fun _ => map_create, [], o, t⟩ : View M) := by
  refine ⟨fun x e he => ?_, ?_, ?_, List.nodup_nil⟩
  · simp only [items_create] at he
    exact absurd he List.not_mem_nil
  · exact fun l hl => absurd hl List.not_mem_nil
  · exact fun l hl => absurd hl List.not_mem_nil

/-- Packets sent, and time passing. -/
theorem Sound.later {v : View M} (h : Sound local_node v) (sent : List Sent) {t : ℕ}
    (ht : v.time ≤ t) : Sound local_node { v with sent := sent, time := t } :=
  ⟨h.keyed, h.observers, fun l hl => lt_of_lt_of_le (h.older l hl) ht, h.ids⟩

/-- A table replaced by one with no other records, and time passing. -/
theorem Sound.update {v : View M} (h : Sound local_node v) {x : UInt32} {m : M Server}
    (hm : ∀ e ∈ items m, e ∈ items (v.reg x) ∨
      e.1 = hash_u32 e.2.port ∧ e.2.node = x ∧ e.2.service ≠ 0 ∧ e.2.port ≠ 0)
    (sent : List Sent) {t : ℕ} (ht : v.time ≤ t) :
    Sound local_node ⟨Function.update v.reg x m, v.lookups, sent, t⟩ := by
  refine ⟨fun y e he => ?_, h.observers, fun l hl => lt_of_lt_of_le (h.older l hl) ht, h.ids⟩
  by_cases hyx : y = x
  · subst hyx
    simp only [Function.update_self] at he
    rcases hm e he with hold | hnew
    · exact h.keyed y e hold
    · exact hnew
  · simp only [Function.update_of_ne hyx] at he
    exact h.keyed y e he

/-- A record that is found under a port. -/
theorem Sound.of_get {v : View M} (h : Sound local_node v) {x port : UInt32} {srv : Server}
    (hsrv : map_get (v.reg x) (hash_u32 port) = some srv) :
    srv.port = port ∧ srv.node = x ∧ srv.service ≠ 0 ∧ srv.port ≠ 0 := by
  obtain ⟨hkey, hrest⟩ := h.keyed x _ (mem_of_get hsrv)
  exact ⟨(hash_u32_injective hkey).symm, hrest⟩

theorem Sound.deed {d : Datagram} {v v' : View M} (h : Sound local_node v)
    (hd : Deed sys local_node d v v') : Sound local_node v' := by
  cases hd with
  | send hout ho ht => exact h.later _ ht
  | del hsrv hport ho ht => exact h.update (fun e he => .inl (remove_subset _ _ he)) _ ht
  | @add srv u t old o htype hsrv hservice hport hput ho ht =>
    refine h.update (fun e he => ?_) _ ht
    rcases List.mem_cons.mp (reput_subset _ _ _ _ he) with rfl | hold
    · exact .inr ⟨rfl, rfl, hservice, hport⟩
    · exact .inl hold
  | lookup hlocal hfound ho ht =>
    -- the new number is the time, and the old ones are below it
    refine ⟨h.keyed, fun l hl => ?_, fun l hl => ?_, ?_⟩
    · rcases List.mem_append.mp hl with hl | hl
      · exact h.observers l hl
      · rw [List.mem_singleton.mp hl]
        exact hlocal
    · rcases List.mem_append.mp hl with hl | hl
      · exact lt_trans (h.older l hl) ht
      · rw [List.mem_singleton.mp hl]
        exact ht
    · rw [List.map_append, List.nodup_append]
      refine ⟨h.ids, List.nodup_singleton _, fun a ha b hb => ?_⟩
      obtain ⟨l, hl, rfl⟩ := List.mem_map.mp ha
      rw [List.mem_singleton.mp hb]
      exact ne_of_lt (h.older l hl)
  | forget hkeep =>
    refine ⟨h.keyed, fun l hl => h.observers l (List.mem_filter.mp hl).1,
      fun l hl => h.older l (List.mem_filter.mp hl).1, ?_⟩
    exact h.ids.sublist (List.filter_sublist.map _)

/-- Every state the name server reaches is sound. -/
theorem main_run_sound (sys : Sys) (local_node : UInt32) (ds : List Datagram) :
    Sound local_node (main.run sys local_node ds : Context M).view :=
  main_run_induction (fun o t _ => .start o t) (fun _ _ _ h => h.deed) ds

end Runs

end Machine

end Dragonboard.Ns
