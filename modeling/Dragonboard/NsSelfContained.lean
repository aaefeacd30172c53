/-
What the name server does on a packet, and what it should not depend on: the outcomes.

The conditions of `NsCovered.lean` are exact for DEL_SERVER and DEL_CLIENT too. A removal shows what has
not arrived in the record that goes, and in the node that `node_get` allocates for a sender that is not
known; an accepted DEL_CLIENT shows the stack to every local service that is left.
`self_contained_iff` puts the handlers together: in every state the name server reaches, a packet has
one outcome exactly if it meets the condition of its handler there.
-/
import Dragonboard.NsCovered

set_option autoImplicit false

namespace Dragonboard.Ns

open Dragonboard.Memory Dragonboard.MapApi
open Dragonboard.QrtrMap (Map structMap_eq_scanMap)

/-! ## DEL_SERVER

Only the node and the port are looked at. What shows them is the record that goes, and the node that is
allocated if there is none. -/

section DelServer

variable {local_node : UInt32} {s : Context Map} {sq : SockaddrQrtr} {bytes : List UInt8}

theorem del_server_local (sys : Sys) (hlocal : sq.sq_node = local_node)
    (service instance_ node_id port service' instance' node_id' port' : UInt32) :
    ctrl_cmd_del_server sys local_node s sq service instance_ node_id port =
      ctrl_cmd_del_server sys local_node s sq service' instance' node_id' port' := by
  unfold ctrl_cmd_del_server
  simp only [if_pos hlocal]

theorem del_server_refused (sys : Sys) {node_id : UInt32} (service instance_ port : UInt32)
    (hremote : sq.sq_node ≠ local_node) (hnode : sq.sq_node ≠ node_id) :
    (ctrl_cmd_del_server sys local_node s sq service instance_ node_id port).2 = s := by
  unfold ctrl_cmd_del_server
  simp only [if_neg hremote, if_pos hnode]

/-- A DEL_SERVER of another node that is accepted. -/
theorem del_server_accepted (sys : Sys) (hremote : sq.sq_node ≠ local_node)
    (service instance_ port : UInt32) {i : ℕ} (hi : (node_get sys s sq.sq_node).1 = some i) :
    ctrl_cmd_del_server sys local_node s sq service instance_ sq.sq_node port =
      server_del sys local_node (node_get sys s sq.sq_node).2 i port := by
  unfold ctrl_cmd_del_server
  simp only [ne_eq, not_true, if_false, hremote, false_and, hi]

/-- It takes the record of the port out of the table. -/
theorem del_server_reg (sys : Sys) (hnodes : Nodes s) (hremote : sq.sq_node ≠ local_node)
    (service instance_ port : UInt32) :
    (ctrl_cmd_del_server sys local_node s sq service instance_ sq.sq_node port).2.reg sq.sq_node =
      (map_remove (s.reg sq.sq_node) (hash_u32 port)).1 := by
  rcases hnodes.ctrl_cmd_del_server sys local_node sq service instance_ sq.sq_node port with
    ⟨-, hrefused, -⟩ | ⟨q, hq, hdone⟩
  · exact absurd rfl hrefused
  rw [if_neg hremote] at hq
  subst hq
  cases hg : map_get (s.reg sq.sq_node) (hash_u32 q) with
  | none =>
    rw [hg] at hdone
    rw [hdone.reg.1]
    exact (congrArg Prod.fst (QrtrMap.map_remove_none hg)).symm
  | some srv =>
    rw [hg] at hdone
    obtain ⟨o, t, -, -, hb⟩ := hdone
    exact (congrFun (congrArg View.reg hb.view) sq.sq_node).trans (Function.update_self _ _ _)

/-- A node that was asked for is there, if there is memory. -/
theorem node_get_known {sys : Sys} (hmemory : sys.Allocates) (hnodes : Nodes s) (x : UInt32) :
    ∃ i, (node_get sys s x).1 = some i ∧ (node_get sys s x).2.registered x = some i := by
  obtain ⟨-, hnode⟩ := hnodes.node_get sys x
  cases hr : (node_get sys s x).1 with
  | none =>
    rw [hr] at hnode
    obtain ⟨-, t, n, hn⟩ := hnode
    rw [hmemory t n] at hn
    cases hn
  | some i =>
    rw [hr] at hnode
    exact ⟨i, rfl, hnode⟩

/-- And if it is there already, nothing is done for it. -/
theorem node_get_registered (sys : Sys) {x : UInt32} {i : ℕ} (hi : s.registered x = some i) :
    node_get sys s x = (some i, s) := by
  unfold node_get
  rw [show map_get s.nodes (hash_u32 x) = some i from hi]

/-- A DEL_SERVER of a port without a server only allocates the node. -/
theorem del_server_unheld (sys : Sys) (hnodes : Nodes s) (hremote : sq.sq_node ≠ local_node)
    (service instance_ : UInt32) {port : UInt32}
    (hport : map_get (s.reg sq.sq_node) (hash_u32 port) = none) :
    (ctrl_cmd_del_server sys local_node s sq service instance_ sq.sq_node port).2 =
      (node_get sys s sq.sq_node).2 := by
  obtain ⟨hget, hnode⟩ := hnodes.node_get sys sq.sq_node
  cases hr : (node_get sys s sq.sq_node).1 with
  | none =>
    unfold ctrl_cmd_del_server
    simp only [ne_eq, not_true, if_false, hremote, false_and, hr]
  | some i =>
    rw [hr] at hnode
    have hdel := hget.nodes.server_del sys local_node hnode port
    rw [hget.reg.1, hport] at hdel
    rw [del_server_accepted sys hremote _ _ _ hr]
    exact hdel

/-- **The condition of a DEL_SERVER is exact.** -/
theorem del_server_settled (hnodes : Nodes s) :
    (Settled bytes .del_server fun sys pkt =>
        (ctrl_cmd_del_server sys local_node s sq pkt.service pkt.instance_ pkt.node pkt.port).2) ↔
      ctrl_cmd_del_server.Covered local_node s sq bytes := by
  obtain ⟨service, hservice⟩ := exists_fits bytes 4
  obtain ⟨i, hi⟩ := exists_fits bytes 8
  constructor
  · intro h
    by_contra hnot
    obtain ⟨hremote, hnot⟩ := not_or.mp hnot
    obtain ⟨hlen, hnot⟩ := not_or.mp hnot
    obtain ⟨hfits, hnot⟩ := not_or.mp hnot
    rw [not_not] at hfits
    refine hnot ⟨?_, fun port hport => ?_⟩
    · by_cases hlen16 : 16 ≤ bytes.length
      · exact .inl hlen16
      -- the packet can be refused, and then no node is allocated
      obtain ⟨node', hnode', hne, -⟩ :=
        exists_fits_ne (Nat.lt_of_not_le hlen16 : bytes.length < 12 + 4) sq.sq_node
      obtain ⟨port, hport⟩ := exists_fits bytes 16
      have hsame := congrArg (fun c : Context Map => c.registered sq.sq_node)
        (h.same (completes_of_fits _ hservice hi hfits hport)
          (completes_of_fits _ hservice hi hnode' hport))
      change (ctrl_cmd_del_server allWell local_node s sq service i sq.sq_node port).2.registered
          sq.sq_node =
        (ctrl_cmd_del_server allWell local_node s sq service i node' port).2.registered
          sq.sq_node at hsame
      rw [del_server_refused _ _ _ _ hremote hne.symm] at hsame
      obtain ⟨j, hj, hknown⟩ := node_get_known allWell_allocates hnodes sq.sq_node
      obtain ⟨hget, -⟩ := hnodes.node_get allWell sq.sq_node
      obtain ⟨o, t, -, hb⟩ := hget.nodes.server_del_toList allWell local_node hknown port
      rw [del_server_accepted allWell hremote _ _ _ hj] at hsame
      rw [← hsame, hb.kept hknown]
      exact .inr rfl
    · by_contra hne
      obtain ⟨srv, hsrv⟩ := Option.ne_none_iff_exists'.mp hne
      -- the record goes, or another one does
      obtain ⟨port', hport', hports, -⟩ :=
        exists_fits_ne (Nat.lt_of_not_le hlen : bytes.length < 16 + 4) port
      have hsame := congrArg (fun c : Context Map => c.reg sq.sq_node)
        (h.same (completes_of_fits _ hservice hi hfits hport)
          (completes_of_fits _ hservice hi hfits hport'))
      have hreg : ∀ p,
          (ctrl_cmd_del_server allWell local_node s sq service i sq.sq_node p).2.reg sq.sq_node =
            (map_remove (s.reg sq.sq_node) (hash_u32 p)).1 :=
        fun p => del_server_reg allWell hnodes hremote service i p
      have htables := (hreg port).symm.trans (hsame.trans (hreg port'))
      exact (QrtrMap.map_remove_ne hsrv).2 _ (fun heq => hports (hash_u32_injective heq)) htables
  · intro h sys stack stack' pkt pkt' hpkt hpkt'
    beta_reduce
    by_cases hlocal : sq.sq_node = local_node
    · rw [del_server_local _ hlocal _ _ _ _ pkt'.service pkt'.instance_ pkt'.node pkt'.port]
      rfl
    rcases h.resolve_left hlocal with hlen | hfits | ⟨hnode, hnone⟩
    · rw [hpkt.eq hpkt' hlen]
      rfl
    · rw [del_server_refused _ _ _ _ hlocal fun heq => hfits (heq ▸ hpkt.node),
        del_server_refused _ _ _ _ hlocal fun heq => hfits (heq ▸ hpkt'.node)]
    · by_cases hfits : Fits bytes 12 sq.sq_node
      swap
      · rw [del_server_refused _ _ _ _ hlocal fun heq => hfits (heq ▸ hpkt.node),
          del_server_refused _ _ _ _ hlocal fun heq => hfits (heq ▸ hpkt'.node)]
      rcases hnode with hlen | hknown
      · -- accepted, whatever has not arrived
        rw [hpkt.node.eq hfits hlen, hpkt'.node.eq hfits hlen,
          del_server_unheld _ hnodes hlocal _ _ (hnone _ hpkt.port),
          del_server_unheld _ hnodes hlocal _ _ (hnone _ hpkt'.port)]
        rfl
      · -- nothing happens, whether it is accepted or not
        obtain ⟨j, hj⟩ := Option.isSome_iff_exists.mp hknown
        have hkeep : ∀ sys p, Completes bytes .del_server p →
            (ctrl_cmd_del_server sys local_node s sq p.service p.instance_ p.node p.port).2 = s := by
          intro sys p hp
          by_cases hown : sq.sq_node = p.node
          · rw [← hown, del_server_unheld _ hnodes hlocal _ _ (hnone _ hp.port),
              node_get_registered sys hj]
          · exact del_server_refused _ _ _ _ hlocal hown
        rw [hkeep _ _ hpkt, hkeep _ _ hpkt']

end DelServer

/-! ## DEL_CLIENT

What is sent to the local services of the node holds two words of the stack, so there must be none left.
Apart from that, the port that has not arrived shows in the server that is removed. -/

section DelClient

variable {local_node : UInt32} {s : Context Map} {sq : SockaddrQrtr} {bytes : List UInt8}

theorem del_client_refused (sys : Sys) {node_id port : UInt32}
    (h : ¬ (sq.sq_node = node_id ∧ (sq.sq_node = local_node → sq.sq_port = port))) :
    (ctrl_cmd_del_client sys local_node s sq node_id port).2 = s := by
  unfold ctrl_cmd_del_client
  by_cases hnode : sq.sq_node = node_id
  · rw [if_neg (not_not.mpr hnode), if_pos]
    by_contra hport
    refine h ⟨hnode, fun hlocal => ?_⟩
    by_contra hne
    exact hport ⟨hlocal, hne⟩
  · rw [if_pos hnode]

/-- The table of a node when the record of a port is gone. -/
theorem removed_self (s : Context Map) (x port : UInt32) :
    removed s.reg x port x = (map_remove (s.reg x) (hash_u32 port)).1 := by
  unfold removed
  cases hg : map_get (s.reg x) (hash_u32 port) with
  | none => exact (congrArg Prod.fst (QrtrMap.map_remove_none hg)).symm
  | some srv => exact Function.update_self _ _ _

/-- The local table does not depend on the port of a client of another node. -/
theorem removed_local {port : UInt32} (hport : sq.sq_node = local_node → sq.sq_port = port) :
    removed s.reg sq.sq_node port local_node = removed s.reg sq.sq_node sq.sq_port local_node := by
  by_cases hlocal : sq.sq_node = local_node
  · rw [hport hlocal]
  · have hother : ∀ p, removed s.reg sq.sq_node p local_node = s.reg local_node := by
      intro p
      unfold removed
      cases map_get (s.reg sq.sq_node) (hash_u32 p) with
      | none => rfl
      | some srv => exact Function.update_of_ne (Ne.symm hlocal) _ _
    rw [hother, hother]

/-- Where there is no local service, nothing is told. -/
theorem advertise_removal_untold (sys : Sys) (hnodes : Nodes s)
    (hempty : records (s.reg local_node) = []) (pkt : ℕ → QrtrCtrlPkt) :
    (advertise_removal sys local_node s pkt).2 = (node_get sys s local_node).2 := by
  obtain ⟨hget, hnode⟩ := hnodes.node_get sys local_node
  unfold advertise_removal
  simp only
  cases hr : (node_get sys s local_node).1 with
  | none => rfl
  | some i =>
    rw [hr] at hnode
    rw [records_eq, List.map_eq_nil_iff] at hempty
    simp only
    rw [propagate, map_for_each_const, Context.services_eq hnode, hget.reg.1, hempty, List.foldl_nil]

/-- A DEL_CLIENT that is accepted, if no local service is left. -/
theorem del_client_untold (sys : Sys) (hnodes : Nodes s) {port : UInt32}
    (hport : sq.sq_node = local_node → sq.sq_port = port)
    (huntold : records (removed s.reg sq.sq_node sq.sq_port local_node) = []) :
    (ctrl_cmd_del_client sys local_node s sq sq.sq_node port).2 =
      (node_get sys (ctrl_cmd_del_client.forget sys local_node s sq.sq_node port) local_node).2 := by
  rw [ctrl_cmd_del_client_accepted sys local_node s hport]
  obtain ⟨o, t, -, hb⟩ := hnodes.forget sys local_node sq.sq_node port
  refine advertise_removal_untold sys hb.nodes ?_ _
  have hreg := congrFun (congrArg View.reg hb.view) local_node
  simp only [Context.view_reg] at hreg
  rw [hreg, removed_local hport, huntold]

/-- A client without lookups and without a server is forgotten with the node allocated. -/
theorem forget_unheld (sys : Sys) (hnodes : Nodes s) {port : UInt32}
    (hlookups : ∀ l ∈ s.lookups, l.sq ≠ ⟨sq.sq_node, port⟩)
    (hport : map_get (s.reg sq.sq_node) (hash_u32 port) = none) :
    ctrl_cmd_del_client.forget sys local_node s sq.sq_node port = (node_get sys s sq.sq_node).2 := by
  have hkeep : lookupsWithout s.lookups sq.sq_node port = s.lookups := by
    refine List.filter_eq_self.mpr fun l hl => ?_
    have hne := hlookups l hl
    rw [ne_eq, SockaddrQrtr.ext_iff] at hne
    simp only [Bool.not_eq_true', decide_eq_false_iff_not]
    exact hne
  unfold ctrl_cmd_del_client.forget
  rw [hkeep]
  obtain ⟨hget, hnode⟩ := hnodes.node_get sys sq.sq_node
  simp only
  cases hr : (node_get sys s sq.sq_node).1 with
  | none => rfl
  | some i =>
    rw [hr] at hnode
    have hdel := hget.nodes.server_del sys local_node hnode port
    rw [hget.reg.1, hport] at hdel
    exact hdel

/-- Both nodes are there after a DEL_CLIENT that is accepted, if there is memory. -/
theorem del_client_known {sys : Sys} (hmemory : sys.Allocates) (hnodes : Nodes s) {port : UInt32}
    (hport : sq.sq_node = local_node → sq.sq_port = port) :
    ((ctrl_cmd_del_client sys local_node s sq sq.sq_node port).2.registered sq.sq_node).isSome ∧
      ((ctrl_cmd_del_client sys local_node s sq sq.sq_node port).2.registered local_node).isSome := by
  rw [ctrl_cmd_del_client_accepted sys local_node s hport]
  obtain ⟨o, t, -, hb⟩ := hnodes.forget sys local_node sq.sq_node port
  -- the node of the client is created to look for its server
  have hclient : ∃ i, (ctrl_cmd_del_client.forget sys local_node s sq.sq_node port).registered
      sq.sq_node = some i := by
    unfold ctrl_cmd_del_client.forget
    simp only
    generalize hs1 : ({ s with lookups := lookupsWithout s.lookups sq.sq_node port } : Context Map) = s1
    have hnodes1 : Nodes s1 := by
      subst hs1
      exact ⟨hnodes.good, hnodes.node⟩
    obtain ⟨i, hi, hknown⟩ := node_get_known hmemory hnodes1 sq.sq_node
    obtain ⟨hget, -⟩ := hnodes1.node_get sys sq.sq_node
    obtain ⟨o', t', -, hb'⟩ := hget.nodes.server_del_toList sys local_node hknown port
    rw [hi]
    exact ⟨i, hb'.kept hknown⟩
  generalize ctrl_cmd_del_client.forget sys local_node s sq.sq_node port = s' at hb hclient
  obtain ⟨i, hi⟩ := hclient
  -- and the local one to tell its services
  obtain ⟨j, hj, hlocal⟩ := node_get_known hmemory hb.nodes local_node
  obtain ⟨t', o', t'', -, -, hadv⟩ := hb.nodes.advertise_removal sys local_node
    (delClientPkt sys sq.sq_node port)
  refine ⟨by rw [hadv.kept hi]; rfl, ?_⟩
  obtain ⟨hget, -⟩ := hb.nodes.node_get sys local_node
  obtain ⟨o'', t''', -, -, hprop⟩ := hget.nodes.propagate sys hlocal
    (delClientPkt sys sq.sq_node port (node_get sys s' local_node).2.time)
  unfold advertise_removal
  simp only [hj]
  rw [hprop.kept hlocal]
  rfl

/-- **A DEL_CLIENT that is silent has one outcome.** -/
theorem Silent.settled (hnodes : Nodes s) (hobservers : ∀ l ∈ s.lookups, l.sq.sq_node = local_node)
    (h : Silent local_node s sq bytes) (hfits : Fits bytes 4 sq.sq_node) :
    Settled bytes .del_client fun sys pkt =>
      (ctrl_cmd_del_client sys local_node s sq pkt.client_node pkt.client_port).2 := by
  intro sys stack stack' pkt pkt' hpkt hpkt'
  beta_reduce
  by_cases hlen : 12 ≤ bytes.length
  · -- the same client, or none, in both runs
    have hclient : pkt'.client_node = pkt.client_node :=
      hpkt'.service.eq hpkt.service (by omega)
    have hport : pkt'.client_port = pkt.client_port := hpkt'.instance_.eq hpkt.instance_ hlen
    rw [hclient, hport]
    by_cases hown : sq.sq_node = pkt.client_node ∧
        (sq.sq_node = local_node → sq.sq_port = pkt.client_port)
    · obtain ⟨hnode, hport⟩ := hown
      rw [← hnode, del_client_untold _ hnodes hport h.untold, del_client_untold _ hnodes hport h.untold]
      rfl
    · rw [del_client_refused _ hown, del_client_refused _ hown]
  have hunheld := h.unheld.resolve_left hlen
  -- a client of another node has no lookups
  have hlookups : ∀ q, (sq.sq_node = local_node → ∀ l ∈ s.lookups, l.sq ≠ ⟨sq.sq_node, q⟩) →
      ∀ l ∈ s.lookups, l.sq ≠ ⟨sq.sq_node, q⟩ := by
    intro q hq l hl heq
    have hlocal : sq.sq_node = local_node := by
      rw [← hobservers l hl, heq]
    exact hq hlocal l hl heq
  rcases h.accepted.resolve_left hlen with ⟨hlen8, hremote⟩ | ⟨hclient, hlocal, hnone⟩
  · have haccept : ∀ sys p, Completes bytes .del_client p →
        (ctrl_cmd_del_client sys local_node s sq p.client_node p.client_port).2 =
          (node_get sys (node_get sys s sq.sq_node).2 local_node).2 := by
      intro sys p hp
      have hnode : p.client_node = sq.sq_node := hp.service.eq hfits hlen8
      have hport : Fits bytes 8 p.client_port := hp.instance_
      rw [hnode, del_client_untold _ hnodes (fun hlocal => absurd hlocal hremote) h.untold,
        forget_unheld _ hnodes (hlookups _ fun hlocal => absurd hlocal hremote)
          (hunheld _ hport fun hlocal => absurd hlocal hremote)]
    rw [haccept _ _ hpkt, haccept _ _ hpkt']
    rfl
  · obtain ⟨i, hi⟩ := Option.isSome_iff_exists.mp hclient
    obtain ⟨j, hj⟩ := Option.isSome_iff_exists.mp hlocal
    have hkeep : ∀ sys p, Completes bytes .del_client p →
        (ctrl_cmd_del_client sys local_node s sq p.client_node p.client_port).2 = s := by
      intro sys p hp
      by_cases hown : sq.sq_node = p.client_node ∧
          (sq.sq_node = local_node → sq.sq_port = p.client_port)
      · obtain ⟨hnode, hport⟩ := hown
        have hfits : Fits bytes 8 p.client_port := hp.instance_
        have hown : sq.sq_node = local_node →
            ∀ l ∈ s.lookups, l.sq ≠ ⟨sq.sq_node, p.client_port⟩ := by
          intro hlocal l hl
          rw [← hport hlocal]
          exact hnone l hl
        rw [← hnode, del_client_untold _ hnodes hport h.untold,
          forget_unheld _ hnodes (hlookups _ hown)
            (hunheld _ hfits fun hlocal => (hport hlocal).symm),
          node_get_registered sys hi, node_get_registered sys hj]
      · exact del_client_refused _ hown
    rw [hkeep _ _ hpkt, hkeep _ _ hpkt']

end DelClient

section DelClientShown

variable {local_node : UInt32} {s : Context Map} {sq : SockaddrQrtr} {bytes : List UInt8}

/-- What is told of an accepted DEL_CLIENT shows the stack, if anybody is told. -/
theorem untold_of_settled (hnodes : Nodes s)
    (h : Settled bytes .del_client fun sys pkt =>
      (ctrl_cmd_del_client sys local_node s sq pkt.client_node pkt.client_port).2)
    (hfits : Fits bytes 4 sq.sq_node) {port : UInt32} (hport : Fits bytes 8 port)
    (hown : sq.sq_node = local_node → sq.sq_port = port) :
    records (removed s.reg sq.sq_node sq.sq_port local_node) = [] := by
  obtain ⟨node, hnode⟩ := exists_fits bytes 12
  obtain ⟨p, hp⟩ := exists_fits bytes 16
  have hpkt := completes_of_fits .del_client hfits hport hnode hp
  have hsent : ∀ w : UInt32, ∃ t, (ctrl_cmd_del_client { allWell with stack := fun _ => (w, 0) }
      local_node s sq sq.sq_node port).2.sent = s.sent ++
        ((map_get (s.reg sq.sq_node) (hash_u32 port)).toList.flatMap
            (news .del_server local_node (lookupsWithout s.lookups sq.sq_node port)) ++
          told (records (removed s.reg sq.sq_node port local_node))
            (delClientPkt { allWell with stack := fun _ => (w, 0) } sq.sq_node port t)) := by
    intro w
    obtain ⟨o, t, t', ho, hb⟩ := hnodes.ctrl_cmd_del_client
      { allWell with stack := fun _ => (w, 0) } local_node hown
    refine ⟨t, ?_⟩
    have hlist := congrArg View.sent hb.view
    rwa [ho.all fun _ _ _ => rfl] at hlist
  obtain ⟨t, h0⟩ := hsent 0
  obtain ⟨t', h1⟩ := hsent 1
  have hsame := congrArg Context.sent (h allWell (fun _ => (0, 0)) (fun _ => (1, 0)) _ _ hpkt hpkt)
  have htold := List.append_cancel_left (List.append_cancel_left (h0.symm.trans (hsame.trans h1)))
  rw [removed_local hown] at htold
  rw [List.eq_nil_iff_forall_not_mem]
  intro srv hsrv
  have hbytes := congrArg Sent.data (List.map_inj_left.mp htold srv hsrv)
  have hword : (0 : UInt32) = 1 := congrArg QrtrCtrlPkt.node (QrtrCtrlPkt.bytes_injective hbytes)
  exact absurd hword (by decide)

/-- A DEL_CLIENT that can be accepted and refused is accepted without effect. -/
theorem unforgotten_of_refused (hnodes : Nodes s)
    (hobservers : ∀ l ∈ s.lookups, l.sq.sq_node = local_node) {port : UInt32}
    (hown : sq.sq_node = local_node → sq.sq_port = port)
    (h : (ctrl_cmd_del_client allWell local_node s sq sq.sq_node port).2.untimed = s.untimed) :
    (s.registered sq.sq_node).isSome ∧ (s.registered local_node).isSome ∧
      ∀ l ∈ s.lookups, l.sq ≠ sq := by
  obtain ⟨hclient, hlocal⟩ := del_client_known allWell_allocates hnodes hown
  have hregistered : ∀ x, (ctrl_cmd_del_client allWell local_node s sq sq.sq_node port).2.registered x =
      s.registered x := by
    intro x
    have hsame := congrArg (fun c : Context Map => c.registered x) h
    exact hsame
  rw [hregistered] at hclient hlocal
  refine ⟨hclient, hlocal, fun l hl heq => ?_⟩
  obtain ⟨o, t, t', -, hb⟩ := hnodes.ctrl_cmd_del_client allWell local_node hown
  have hkept := congrArg Context.lookups h
  have hlookups : lookupsWithout s.lookups sq.sq_node port = s.lookups :=
    (congrArg View.lookups hb.view).symm.trans hkept
  rw [← hlookups] at hl
  obtain ⟨hmem, hother⟩ := List.mem_filter.mp hl
  -- a lookup of the sender is one of a local client, and then the port is the sender's
  have hnode : sq.sq_node = local_node := heq ▸ hobservers l hmem
  have hport := hown hnode
  subst heq
  simp [hport] at hother

/-- **The condition of a DEL_CLIENT is exact.** -/
theorem del_client_settled (hnodes : Nodes s)
    (hobservers : ∀ l ∈ s.lookups, l.sq.sq_node = local_node) :
    (Settled bytes .del_client fun sys pkt =>
        (ctrl_cmd_del_client sys local_node s sq pkt.client_node pkt.client_port).2) ↔
      ctrl_cmd_del_client.Covered local_node s sq bytes := by
  obtain ⟨node, hnode⟩ := exists_fits bytes 12
  obtain ⟨p, hp⟩ := exists_fits bytes 16
  constructor
  · intro h hfits hlocal
    obtain ⟨port, hport, hown⟩ : ∃ port, Fits bytes 8 port ∧
        (sq.sq_node = local_node → sq.sq_port = port) := by
      by_cases hnode : sq.sq_node = local_node
      · exact ⟨sq.sq_port, hlocal hnode, fun _ => rfl⟩
      · obtain ⟨port, hport⟩ := exists_fits bytes 8
        exact ⟨port, hport, fun hlocal => absurd hlocal hnode⟩
    -- two packets with the outcomes of their handlers
    have hsame : ∀ {a b a' b'}, Fits bytes 4 a → Fits bytes 8 b → Fits bytes 4 a' →
        Fits bytes 8 b' → (ctrl_cmd_del_client allWell local_node s sq a b).2.untimed =
          (ctrl_cmd_del_client allWell local_node s sq a' b').2.untimed :=
      fun ha hb ha' hb' => h.same (completes_of_fits _ ha hb hnode hp)
        (completes_of_fits _ ha' hb' hnode hp)
    refine ⟨?_, ?_, untold_of_settled hnodes h hfits hport hown⟩
    · by_contra hnot
      obtain ⟨hlen, hnot⟩ := not_or.mp hnot
      obtain ⟨hremote, hnot⟩ := not_or.mp hnot
      -- the packet can be refused
      obtain ⟨a, b, ha, hb, hrefused⟩ : ∃ a b, Fits bytes 4 a ∧ Fits bytes 8 b ∧
          (ctrl_cmd_del_client allWell local_node s sq a b).2 = s := by
        by_cases hlen8 : 8 ≤ bytes.length
        · have hnode : sq.sq_node = local_node := by
            by_contra hne
            exact hremote ⟨hlen8, hne⟩
          obtain ⟨b, hb, hne, -⟩ :=
            exists_fits_ne (Nat.lt_of_not_le hlen : bytes.length < 8 + 4) sq.sq_port
          exact ⟨sq.sq_node, b, hfits, hb,
            del_client_refused _ fun hacc => hne (hacc.2 hnode).symm⟩
        · obtain ⟨a, ha, hne, -⟩ :=
            exists_fits_ne (Nat.lt_of_not_le hlen8 : bytes.length < 4 + 4) sq.sq_node
          exact ⟨a, port, ha, hport, del_client_refused _ fun hacc => hne hacc.1.symm⟩
      have houtcome := hsame hfits hport ha hb
      rw [hrefused] at houtcome
      exact hnot (unforgotten_of_refused hnodes hobservers hown houtcome)
    · by_contra hnot
      obtain ⟨hlen, hnot⟩ := not_or.mp hnot
      simp only [not_forall] at hnot
      obtain ⟨q, hq, hqown, hheld⟩ := hnot
      obtain ⟨srv, hsrv⟩ := Option.ne_none_iff_exists'.mp hheld
      obtain ⟨hself, hother⟩ := QrtrMap.map_remove_ne hsrv
      obtain ⟨q', hq', hne, -⟩ := exists_fits_ne (Nat.lt_of_not_le hlen : bytes.length < 8 + 4) q
      have hreg : ∀ q, (sq.sq_node = local_node → sq.sq_port = q) →
          (ctrl_cmd_del_client allWell local_node s sq sq.sq_node q).2.reg sq.sq_node =
            (map_remove (s.reg sq.sq_node) (hash_u32 q)).1 := by
        intro q hq
        obtain ⟨o, t, t', -, hb⟩ := hnodes.ctrl_cmd_del_client allWell local_node hq
        exact (congrFun (congrArg View.reg hb.view) sq.sq_node).trans (removed_self _ _ _)
      have htable := congrArg (fun c : Context Map => c.reg sq.sq_node) (hsame hfits hq hfits hq')
      have hgone := (hreg q fun hlocal => (hqown hlocal).symm).symm.trans htable
      -- with the other port the record stays
      by_cases hlocal : sq.sq_node = local_node
      · refine hself (hgone.trans ?_)
        change (ctrl_cmd_del_client allWell local_node s sq sq.sq_node q').2.reg sq.sq_node = _
        rw [del_client_refused _ fun hacc => hne ((hacc.2 hlocal).symm.trans (hqown hlocal).symm)]
      · refine hother _ (fun heq => hne (hash_u32_injective heq)) (hgone.trans ?_)
        exact hreg q' fun hnode => absurd hnode hlocal
  · intro h
    by_cases haccept : Fits bytes 4 sq.sq_node ∧
        (sq.sq_node = local_node → Fits bytes 8 sq.sq_port)
    · exact (h haccept.1 haccept.2).settled hnodes hobservers haccept.1
    · -- refused, whatever has not arrived
      have hrefused : ∀ sys p, Completes bytes .del_client p →
          (ctrl_cmd_del_client sys local_node s sq p.client_node p.client_port).2 = s := by
        intro sys p hp
        refine del_client_refused _ fun hacc => haccept ⟨?_, fun hlocal => ?_⟩
        · rw [hacc.1]
          exact hp.service
        · rw [hacc.2 hlocal]
          exact hp.instance_
      intro sys stack stack' pkt pkt' hpkt hpkt'
      beta_reduce
      rw [hrefused _ _ hpkt, hrefused _ _ hpkt']

end DelClientShown

/-! ## All packets -/

theorem settled_congr {bytes : List UInt8} {type : QrtrType}
    {handler handler' : Sys → QrtrCtrlPkt → Context Map}
    (h : ∀ sys pkt, Completes bytes type pkt → handler sys pkt = handler' sys pkt) :
    Settled bytes type handler ↔ Settled bytes type handler' := by
  constructor
  · intro hs sys stack stack' pkt pkt' hpkt hpkt'
    rw [← h _ _ hpkt, ← h _ _ hpkt']
    exact hs sys stack stack' pkt pkt' hpkt hpkt'
  · intro hs sys stack stack' pkt pkt' hpkt hpkt'
    rw [h _ _ hpkt, h _ _ hpkt']
    exact hs sys stack stack' pkt pkt' hpkt hpkt'

/-- **In every state the name server reaches, a packet has one outcome exactly if it brings what its
handler goes by there.** -/
theorem self_contained_iff (sys : Sys) (local_node : UInt32) (ds : List Datagram)
    (sq : SockaddrQrtr) (data : List UInt8) :
    Determined local_node (main.run sys local_node ds) sq data ↔
      Covered local_node (main.run sys local_node ds) sq data := by
  have hnodes : Nodes (main.run sys local_node ds : Context Map) := main_run_nodes sys local_node ds
  have hsound : Sound local_node (main.run sys local_node ds : Context Map).view :=
    main_run_sound sys local_node ds
  have hobservers := hsound.observers
  have hinv := main_run_inv sys local_node ds
  generalize (main.run sys local_node ds : Context Map) = s at hnodes hobservers hinv
  unfold Covered
  simp only
  cases htype : (⟨sq, data, fun _ => 0⟩ : Datagram).type with
  | none => exact iff_of_true (determined_untyped htype) trivial
  -- the handler reads the command word as it was received, so the type is fixed
  | some type =>
    rw [determined_iff htype]
    generalize (⟨sq, data, fun _ => 0⟩ : Datagram).received = bytes
    have hdispatch : ∀ sys pkt, Completes bytes type pkt →
        ctrl_port_fn.dispatch sys local_node s sq bytes pkt =
          ctrl_port_fn.dispatch sys local_node s sq bytes { pkt with cmd := type.code } := by
      intro sys pkt hpkt
      rw [← hpkt.cmd]
    rw [settled_congr fun sys pkt hpkt => congrArg Prod.snd (hdispatch sys pkt hpkt)]
    simp only [ctrl_port_fn.dispatch, QrtrType.ofCode_code]
    cases type with
    | data | exit | ping | resume_tx =>
      exact iff_of_true (fun _ _ _ _ _ _ _ => rfl) trivial
    | hello => exact iff_of_true (fun _ _ _ _ _ _ _ => rfl) trivial
    | bye => exact iff_of_true (fun _ _ _ _ _ _ _ => rfl) trivial
    | new_lookup => exact new_lookup_settled hnodes
    | del_lookup => exact del_lookup_settled
    | new_server => exact new_server_settled hnodes hinv
    | del_server => exact del_server_settled hnodes
    | del_client => exact del_client_settled hnodes hobservers

/-- A local client on port 10 is told of a client of the same node with two words of the stack. -/
theorem del_client_tells_stack :
    ¬ ∀ (sys : Sys) (local_node : UInt32) (ds : List Datagram) (sq : SockaddrQrtr) (data : List UInt8),
      Determined local_node (main.run sys local_node ds) sq data := by
  intro h
  have hsame := congrArg Context.sent (h allWell 1
    [packet ⟨1, 10⟩ ⟨QrtrType.new_server.code, 1, 0, 1, 0⟩] ⟨1, 20⟩
    (QrtrCtrlPkt.mk QrtrType.del_client.code 1 20 0 0).bytes allWell (fun _ => 0) (fun _ => 0)
    (fun _ => (0, 0)) (fun _ => (1, 0)))
  unfold Context.untimed at hsame
  simp only at hsame
  rw [structMap_eq_scanMap] at hsame
  exact absurd hsame (by decide +kernel)

end Dragonboard.Ns
