/-
What the name server does on a packet, and what it should not depend on: the conditions.

A packet that is too short is filled up with what was received before it (`NsReceived.lean`), and
`ctrl_cmd_del_client` sends two words of its stack along. A packet has one outcome in a state
if neither can be told from the state that follows and the packets that go out.

Each handler has its condition, a relation between the sender, what has arrived and the registry: what
has not arrived is not looked at, or the packet is refused whatever it is, or nothing in the registry
makes a difference. Which fields matter depends on who sends: for a local client the node and port of a
server are taken from its address. This file states the conditions, and proves those of
NEW_LOOKUP, DEL_LOOKUP and NEW_SERVER to be exact.
-/
import Dragonboard.NsDeparture
import Dragonboard.NsIsolation
import Dragonboard.NsLookups
import Dragonboard.NsReceived

set_option autoImplicit false

namespace Dragonboard.Ns

open Dragonboard.Memory Dragonboard.MapApi
open Dragonboard.QrtrMap (Map Inv)

/-! ## The conditions

One for each handler, on what has arrived of the packet (`bytes`), its sender and the state it comes to.
Nothing in them is computed by the handler. -/

section Conditions

variable (local_node : UInt32) (s : Context Map) (sq : SockaddrQrtr) (bytes : List UInt8)

/-- A NEW_LOOKUP is refused, or it comes with service and instance. -/
def ctrl_cmd_new_lookup.Covered : Prop := sq.sq_node ≠ local_node ∨ 12 ≤ bytes.length

/-- A DEL_LOOKUP comes with what tells whether it means a lookup: with the service for each lookup of the
sender that it can be taken to mean, and with the instance too unless that lookup is for all. -/
def ctrl_cmd_del_lookup.Covered : Prop :=
  ∀ l ∈ s.lookups, l.sq = sq → Fits bytes 4 l.service →
    (l.instance_ = 0 ∨ Fits bytes 8 l.instance_) →
      8 ≤ bytes.length ∧ (l.instance_ = 0 ∨ 12 ≤ bytes.length)

/-- A record that a NEW_SERVER of another node can be taken to ask for. -/
structure Asked (srv : Server) : Prop where
  service : Fits bytes 4 srv.service
  instance_ : Fits bytes 8 srv.instance_
  node : srv.node = sq.sq_node
  port : Fits bytes 16 srv.port
  port_ne : srv.port ≠ 0

/-- All that is missing is a part of the port, and whatever it is, the record is there already, where a
put of it goes, and no lookup wants it. -/
structure Held : Prop where
  named : 12 ≤ bytes.length
  rests : ∀ srv, Asked sq bytes srv → (s.reg sq.sq_node).ready.Rests (hash_u32 srv.port) srv
  unwanted : ∀ srv, Asked sq bytes srv → ∀ l ∈ s.lookups, l.wants srv.service srv.instance_ = false
  /-- the put does not grow the table, or the packet is not refused either -/
  ready : (s.reg sq.sq_node).count ≠ (s.reg sq.sq_node).size ∨
    16 ≤ bytes.length ∧ ¬ Fits bytes 16 0

/-- A NEW_SERVER is refused for its service; or a local client is refused for its port, or sends service
and instance; or another node is refused for its node, or sends the whole packet, or asks for what is
there. -/
def ctrl_cmd_new_server.Covered : Prop :=
  8 ≤ bytes.length ∧ Fits bytes 4 0 ∨
    if sq.sq_node = local_node then sq.sq_port = 0 ∨ 12 ≤ bytes.length
    else 20 ≤ bytes.length ∨ ¬ Fits bytes 12 sq.sq_node ∨ Held s sq bytes

/-- A DEL_SERVER comes from a local client, or is refused for its node, or is whole; or there is no
server on a port it can be taken to name, and no node to be allocated for nothing. -/
def ctrl_cmd_del_server.Covered : Prop :=
  sq.sq_node = local_node ∨ 20 ≤ bytes.length ∨ ¬ Fits bytes 12 sq.sq_node ∨
    (16 ≤ bytes.length ∨ (s.registered sq.sq_node).isSome) ∧
      ∀ port, Fits bytes 16 port → map_get (s.reg sq.sq_node) (hash_u32 port) = none

/-- A DEL_CLIENT that does nothing that shows what has not arrived of it, and that nobody is told of. -/
structure Silent : Prop where
  /-- it is accepted whatever has not arrived, or there is nothing to allocate and to forget -/
  accepted : 12 ≤ bytes.length ∨ 8 ≤ bytes.length ∧ sq.sq_node ≠ local_node ∨
    (s.registered sq.sq_node).isSome ∧ (s.registered local_node).isSome ∧ ∀ l ∈ s.lookups, l.sq ≠ sq
  /-- it is whole, or there is no server on a port it can be taken to name -/
  unheld : 12 ≤ bytes.length ∨ ∀ port, Fits bytes 8 port →
    (sq.sq_node = local_node → port = sq.sq_port) →
      map_get (s.reg sq.sq_node) (hash_u32 port) = none
  /-- no local server is left -/
  untold : records (removed s.reg sq.sq_node sq.sq_port local_node) = []

/-- A DEL_CLIENT is refused, or silent. -/
def ctrl_cmd_del_client.Covered : Prop :=
  Fits bytes 4 sq.sq_node → (sq.sq_node = local_node → Fits bytes 8 sq.sq_port) →
    Silent local_node s sq bytes

end Conditions

/-- The condition of the handler of a packet. A HELLO is sent back as it is, and a BYE has no fields. -/
def Covered (local_node : UInt32) (s : Context Map) (sq : SockaddrQrtr) (data : List UInt8) : Prop :=
  let d : Datagram := ⟨sq, data, fun _ => 0⟩
  match d.type with
  | some .new_lookup => ctrl_cmd_new_lookup.Covered local_node sq d.received
  | some .del_lookup => ctrl_cmd_del_lookup.Covered s sq d.received
  | some .new_server => ctrl_cmd_new_server.Covered local_node s sq d.received
  | some .del_server => ctrl_cmd_del_server.Covered local_node s sq d.received
  | some .del_client => ctrl_cmd_del_client.Covered local_node s sq d.received
  | _ => True

/-! ## Lookups

A NEW_LOOKUP stores its service and instance. A DEL_LOOKUP shows its own only in the lookups that it takes
away, or does not. -/

section Lookups

variable {local_node : UInt32} {s : Context Map} {sq : SockaddrQrtr} {bytes : List UInt8}

theorem new_lookup_refused (sys : Sys) (service instance_ : UInt32) (hremote : sq.sq_node ≠ local_node) :
    (ctrl_cmd_new_lookup sys local_node s sq service instance_).2 = s := by
  unfold ctrl_cmd_new_lookup
  rw [if_pos hremote]

theorem new_lookup_settled (hnodes : Nodes s) :
    Settled bytes .new_lookup (fun sys pkt =>
        (ctrl_cmd_new_lookup sys local_node s sq pkt.service pkt.instance_).2) ↔
      ctrl_cmd_new_lookup.Covered local_node sq bytes := by
  constructor
  · intro h
    by_contra hnot
    obtain ⟨hlocal, hlen⟩ := not_or.mp hnot
    obtain ⟨service, hservice⟩ := exists_fits bytes 4
    obtain ⟨i, i', hi, hi', hne, -, -⟩ := exists_fits_two (Nat.lt_of_not_le hlen : bytes.length < 8 + 4)
    obtain ⟨node, hnode⟩ := exists_fits bytes 12
    obtain ⟨port, hport⟩ := exists_fits bytes 16
    have hsame := congrArg Context.lookups
      (h.same (completes_of_fits _ hservice hi hnode hport)
        (completes_of_fits _ hservice hi' hnode hport))
    simp only [Context.untimed] at hsame
    rw [ctrl_cmd_new_lookup_lookups allWell local_node hnodes, if_neg hlocal,
      ctrl_cmd_new_lookup_lookups allWell local_node hnodes, if_neg hlocal,
      if_pos (allWell_allocates _ _)] at hsame
    have hlookup := List.singleton_inj.mp (List.append_cancel_left hsame)
    exact hne (congrArg Lookup.instance_ hlookup)
  · rintro (hremote | hlen) sys stack stack' pkt pkt' hpkt hpkt'
    all_goals beta_reduce
    · rw [new_lookup_refused _ _ _ hremote, new_lookup_refused _ _ _ hremote]
    · rw [hpkt.service.eq hpkt'.service (by omega), hpkt.instance_.eq hpkt'.instance_ (by omega)]
      rfl

theorem del_lookup_settled :
    Settled bytes .del_lookup (fun _ pkt =>
        (ctrl_cmd_del_lookup s sq pkt.service pkt.instance_).2) ↔
      ctrl_cmd_del_lookup.Covered s sq bytes := by
  obtain ⟨node, hnode⟩ := exists_fits bytes 12
  obtain ⟨port, hport⟩ := exists_fits bytes 16
  constructor
  · intro h l hl hsq hservice hinst
    by_contra hnot
    -- the packet can be taken to mean the lookup
    obtain ⟨i, hi, hcover⟩ : ∃ i, Fits bytes 8 i ∧ wildcard l.instance_ i = true := by
      rcases hinst with hzero | hfits
      · obtain ⟨i, hi⟩ := exists_fits bytes 8
        exact ⟨i, hi, by simp [wildcard, hzero]⟩
      · exact ⟨l.instance_, hfits, by simp [wildcard]⟩
    -- and not to mean it
    obtain ⟨service', i', hservice', hi', hother⟩ : ∃ service' i', Fits bytes 4 service' ∧
        Fits bytes 8 i' ∧ l.deletedBy sq service' i' = false := by
      by_cases hlen : 8 ≤ bytes.length
      · obtain ⟨hzero, hlen'⟩ := not_or.mp fun hor => hnot ⟨hlen, hor⟩
        obtain ⟨i', hi', hne, -⟩ := exists_fits_ne (Nat.lt_of_not_le hlen' : bytes.length < 8 + 4)
          l.instance_
        refine ⟨l.service, i', hservice, hi', ?_⟩
        rw [Bool.eq_false_iff, ne_eq, Lookup.deletedBy_iff]
        rintro ⟨-, -, hcovers⟩
        rw [wildcard, decide_eq_true_eq] at hcovers
        exact hcovers.elim (fun heq => hne heq.symm) hzero
      · obtain ⟨service', hservice', hne, -⟩ :=
          exists_fits_ne (Nat.lt_of_not_le hlen : bytes.length < 4 + 4) l.service
        refine ⟨service', i, hservice', hi, ?_⟩
        rw [Bool.eq_false_iff, ne_eq, Lookup.deletedBy_iff]
        rintro ⟨-, heq, -⟩
        exact hne heq.symm
    have hsame := congrArg Context.lookups
      (h.same (completes_of_fits _ hservice hi hnode hport)
        (completes_of_fits _ hservice' hi' hnode hport))
    have hkept : l ∈ (ctrl_cmd_del_lookup s sq service' i').2.untimed.lookups :=
      List.mem_filter.mpr ⟨hl, by rw [← Lookup.deletedBy, hother]; rfl⟩
    rw [← hsame] at hkept
    have hleft : (!l.deletedBy sq l.service i) = true := (List.mem_filter.mp hkept).2
    rw [(Lookup.deletedBy_iff _ _ _ _).mpr ⟨hsq, rfl, hcover⟩] at hleft
    cases hleft
  · intro h sys stack stack' pkt pkt' hpkt hpkt'
    -- whether a packet means a lookup does not depend on what has not arrived
    have hmeans : ∀ l ∈ s.lookups, ∀ p p', Completes bytes .del_lookup p →
        Completes bytes .del_lookup p' → l.deletedBy sq p.service p.instance_ = true →
          l.deletedBy sq p'.service p'.instance_ = true := by
      intro l hl p p' hp hp' hdel
      obtain ⟨hsq, hservice, hcover⟩ := (Lookup.deletedBy_iff _ _ _ _).mp hdel
      rw [wildcard, decide_eq_true_eq] at hcover
      have hfits : l.instance_ = 0 ∨ Fits bytes 8 l.instance_ :=
        hcover.symm.imp_right fun heq => by
          rw [heq]
          exact hp.instance_
      obtain ⟨hlen, hwhole⟩ := h l hl hsq (hservice ▸ hp.service) hfits
      refine (Lookup.deletedBy_iff _ _ _ _).mpr
        ⟨hsq, hservice.trans (hp.service.eq hp'.service hlen), ?_⟩
      rw [wildcard, decide_eq_true_eq]
      rcases hcover with heq | hzero
      · rcases hwhole with hzero | hlen'
        · exact .inr hzero
        · exact .inl (heq.trans (hp.instance_.eq hp'.instance_ hlen'))
      · exact .inr hzero
    have hsame : ∀ l ∈ s.lookups, (!l.deletedBy sq pkt.service pkt.instance_) =
        !l.deletedBy sq pkt'.service pkt'.instance_ := by
      intro l hl
      congr 1
      exact Bool.eq_iff_iff.mpr ⟨hmeans l hl _ _ hpkt hpkt', hmeans l hl _ _ hpkt' hpkt⟩
    have hlookups : s.lookups.filter (fun l => !l.deletedBy sq pkt.service pkt.instance_) =
        s.lookups.filter fun l => !l.deletedBy sq pkt'.service pkt'.instance_ :=
      List.filter_congr hsame
    change Context.untimed { s with lookups := s.lookups.filter _ } =
      Context.untimed { s with lookups := s.lookups.filter _ }
    exact congrArg (fun ls => Context.untimed { s with lookups := ls }) hlookups

end Lookups

/-! ## NEW_SERVER

Two records that are put leave different tables, unless both are in the table already and the put finds
them there. A packet of another node that has all but a part of its port can so go unnoticed, and then
the lookups must not be told either. -/

section NewServer

variable {local_node : UInt32} {s : Context Map} {sq : SockaddrQrtr} {bytes : List UInt8}

/-- A server that is refused for its service or port. -/
theorem new_server_refused_record (sys : Sys) {service port : UInt32} (instance_ node_id : UInt32)
    (h : service = 0 ∨ (if sq.sq_node = local_node then sq.sq_port else port) = 0) :
    (ctrl_cmd_new_server sys local_node s sq service instance_ node_id port).2 = s := by
  have hrefused : ∀ node_id, server_add sys s service instance_ node_id
      (if sq.sq_node = local_node then sq.sq_port else port) = (none, s) := by
    intro node_id
    unfold server_add
    rw [if_pos h]
  unfold ctrl_cmd_new_server
  simp only [hrefused]
  rw [apply_ite Prod.snd, ite_self]

/-- A server that is refused for its node. -/
theorem new_server_refused_node (sys : Sys) {node_id : UInt32} (service instance_ port : UInt32)
    (hremote : sq.sq_node ≠ local_node) (hnode : sq.sq_node ≠ node_id) :
    (ctrl_cmd_new_server sys local_node s sq service instance_ node_id port).2 = s := by
  unfold ctrl_cmd_new_server
  simp only [if_neg hremote, if_pos hnode]

/-- The node and port of the packet do not matter for a local server. -/
theorem new_server_local (sys : Sys) (hlocal : sq.sq_node = local_node)
    (service instance_ node_id port node_id' port' : UInt32) :
    ctrl_cmd_new_server sys local_node s sq service instance_ node_id port =
      ctrl_cmd_new_server sys local_node s sq service instance_ node_id' port' := by
  unfold ctrl_cmd_new_server
  simp only [if_pos hlocal]

/-- What a NEW_SERVER that is accepted registers, and what it tells, if nothing fails. -/
theorem new_server_allWell (hnodes : Nodes s) {service instance_ node_id port : UInt32}
    (hown : sq.sq_node = local_node ∨ sq.sq_node = node_id) (hservice : service ≠ 0)
    (hport : (claimed local_node sq service instance_ port).port ≠ 0) :
    let srv := claimed local_node sq service instance_ port
    let s' := (ctrl_cmd_new_server allWell local_node s sq service instance_ node_id port).2
    s'.reg sq.sq_node = (map_reput (fun _ => true) (s.reg sq.sq_node) (hash_u32 srv.port) srv).1 ∧
      s'.sent = s.sent ++ news .new_server local_node s.lookups srv := by
  have hnew := hnodes.ctrl_cmd_new_server allWell local_node sq service instance_ node_id port
  cases hacc : ctrl_cmd_new_server.accepted allWell local_node s sq service instance_ node_id port with
  | none =>
    rw [hacc] at hnew
    exact absurd allWell_allocates (hnew.2 hown hservice hport)
  | some srv =>
    rw [hacc] at hnew
    obtain ⟨rfl, -, -, u, old, o, t, -, ho, -, hb⟩ := hnew
    have hreg := congrFun (congrArg View.reg hb.view) sq.sq_node
    have hsent := congrArg View.sent hb.view
    rw [ho.all allWell_delivers] at hsent
    refine ⟨?_, hsent⟩
    exact hreg.trans (Function.update_self _ _ _)

/-- Two records that are registered with the same outcome are there already, on different ports. -/
theorem rests_of_new_server (hnodes : Nodes s) (hinv : ∀ x, Inv (s.reg x))
    (h : Settled bytes .new_server fun sys pkt =>
      (ctrl_cmd_new_server sys local_node s sq pkt.service pkt.instance_ pkt.node pkt.port).2)
    {pkt pkt' : QrtrCtrlPkt} (hpkt : Completes bytes .new_server pkt)
    (hpkt' : Completes bytes .new_server pkt')
    (hown : ∀ p ∈ [pkt, pkt'], sq.sq_node = local_node ∨ sq.sq_node = p.node)
    (hservice : ∀ p ∈ [pkt, pkt'], p.service ≠ 0)
    (hport : ∀ p ∈ [pkt, pkt'], (claimed local_node sq p.service p.instance_ p.port).port ≠ 0)
    (hne : claimed local_node sq pkt.service pkt.instance_ pkt.port ≠
      claimed local_node sq pkt'.service pkt'.instance_ pkt'.port) :
    let srv := claimed local_node sq pkt.service pkt.instance_ pkt.port
    let srv' := claimed local_node sq pkt'.service pkt'.instance_ pkt'.port
    srv.port ≠ srv'.port ∧ (s.reg sq.sq_node).ready.Rests (hash_u32 srv.port) srv ∧
      news .new_server local_node s.lookups srv = news .new_server local_node s.lookups srv' := by
  intro srv srv'
  obtain ⟨hreg, hsent⟩ := new_server_allWell hnodes (hown pkt (by simp)) (hservice pkt (by simp))
    (hport pkt (by simp))
  obtain ⟨hreg', hsent'⟩ := new_server_allWell hnodes (hown pkt' (by simp)) (hservice pkt' (by simp))
    (hport pkt' (by simp))
  have hsame := h.same hpkt hpkt'
  have htable := congrArg (fun c : Context Map => c.reg sq.sq_node) hsame
  have hnews := congrArg Context.sent hsame
  have hputs : (map_reput (fun _ => true) (s.reg sq.sq_node) (hash_u32 srv.port) srv).1 =
      (map_reput (fun _ => true) (s.reg sq.sq_node) (hash_u32 srv'.port) srv').1 :=
    hreg.symm.trans (htable.trans hreg')
  obtain ⟨hkeys, hrests⟩ := QrtrMap.rests_of_map_reput_eq (fun _ => rfl) (hinv _)
    (fun heq => hne (Prod.ext_iff.mp heq).2) hputs
  exact ⟨fun heq => hkeys (congrArg hash_u32 heq), hrests,
    List.append_cancel_left (hsent.symm.trans (hnews.trans hsent'))⟩

/-- A node with records is there. -/
theorem registered_of_rests {x key : UInt32} {srv : Server}
    (h : (s.reg x).ready.Rests key srv) : ∃ i, s.registered x = some i := by
  rw [← Option.isSome_iff_exists]
  by_contra hnone
  rw [Option.not_isSome_iff_eq_none] at hnone
  obtain ⟨i, -, hentry⟩ := h
  have hcreate : s.reg x = map_create := by
    rw [Context.reg, hnone]
    rfl
  have hmem := QrtrMap.Map.mem_entries.mpr ⟨i, hentry⟩
  rw [hcreate] at hmem
  exact absurd (QrtrMap.Map.grown_subset _ hmem) List.not_mem_nil

theorem Context.setServices_self (s : Context Map) (i : ℕ) : s.setServices i (s.services i) = s := by
  have hheap : s.heap.modify i (fun n => { n with services := s.services i }) = s.heap := by
    refine List.ext_getElem? fun j => ?_
    rw [List.getElem?_modify]
    by_cases hij : i = j
    · subst hij
      rw [Context.services]
      cases s.heap[i]? with
      | none => rfl
      | some n => simp
    · simp [hij]
  rw [Context.setServices, hheap]

/-- Lookups that do not want a server are not told of it. -/
theorem notify_lookups_unwanted (sys : Sys) {s : Context Map} {srv : Server} (new : Bool)
    (h : ∀ l ∈ s.lookups, l.wants srv.service srv.instance_ = false) :
    notify_lookups sys s srv new = s := by
  have hloop : ∀ ls : List Lookup, (∀ l ∈ ls, l.wants srv.service srv.instance_ = false) →
      ls.foldl (fun s lookup => if lookup.wants srv.service srv.instance_ then
        (lookup_notify sys s lookup.id lookup.sq (some srv) new).2 else s) s = s := by
    intro ls
    induction ls with
    | nil => exact fun _ => rfl
    | cons l ls ih =>
      intro hls
      rw [List.foldl_cons, hls l List.mem_cons_self, if_neg (by decide)]
      exact ih fun l' hl' => hls l' (List.mem_cons_of_mem _ hl')
  exact hloop s.lookups h

/-- The record of a server that is there is replaced by itself, if there is memory for it. -/
theorem server_add_held (sys : Sys) (hinv : ∀ x, Inv (s.reg x)) {service instance_ x port : UInt32}
    {i : ℕ} (hi : s.registered x = some i) (hservice : service ≠ 0) (hport : port ≠ 0)
    (hrests : (s.reg x).ready.Rests (hash_u32 port) ⟨service, instance_, x, port⟩) :
    server_add sys s service instance_ x port =
      if sys.calloc s.time 1 = true then
        if (s.reg x).count = (s.reg x).size ∧
            sys.calloc (s.time + 1) ((s.reg x).size + 256) = false then (none, s.tick.tick)
        else (some ⟨service, instance_, x, port⟩, (s.tick.setServices i (s.reg x).ready).tick)
      else (none, s.tick) := by
  have hget : node_get sys s.tick x = (some i, s.tick) := by
    unfold node_get
    rw [show map_get s.tick.nodes (hash_u32 x) = some i from hi]
  have hservices : s.tick.services i = s.reg x := Context.services_eq hi
  have hself : s.tick.setServices i (s.reg x) = s.tick := by
    rw [← hservices, Context.setServices_self]
  have hput := QrtrMap.map_reput_rests (sys.calloc (s.time + 1)) (hinv x) hrests
  change map_reput (sys.calloc s.tick.time) (s.reg x) (hash_u32 port) _ = _ at hput
  unfold server_add
  rw [if_neg (not_or.mpr ⟨hservice, hport⟩)]
  by_cases hc : sys.calloc s.time 1 = true
  swap
  · rw [if_neg hc, if_neg hc]
  rw [if_pos hc, if_pos hc]
  simp only [hget, hservices]
  by_cases hfull : (s.reg x).count = (s.reg x).size ∧
      sys.calloc (s.time + 1) ((s.reg x).size + 256) = false
  · rw [if_pos hfull] at hput ⊢
    simp only [hput, hself]
  · rw [if_neg hfull] at hput ⊢
    simp only [hput]

/-- **A NEW_SERVER for what is there** only lets a full table grow. -/
theorem new_server_held (sys : Sys) (hinv : ∀ x, Inv (s.reg x)) {service instance_ port : UInt32}
    {i : ℕ} (hi : s.registered sq.sq_node = some i) (hremote : sq.sq_node ≠ local_node)
    (hservice : service ≠ 0) (hport : port ≠ 0)
    (hrests : (s.reg sq.sq_node).ready.Rests (hash_u32 port) ⟨service, instance_, sq.sq_node, port⟩)
    (hunwanted : ∀ l ∈ s.lookups, l.wants service instance_ = false) :
    (ctrl_cmd_new_server sys local_node s sq service instance_ sq.sq_node port).2.untimed =
      if sys.calloc s.time 1 = true ∧ ¬ ((s.reg sq.sq_node).count = (s.reg sq.sq_node).size ∧
          sys.calloc (s.time + 1) ((s.reg sq.sq_node).size + 256) = false) then
        (s.setServices i (s.reg sq.sq_node).ready).untimed
      else s.untimed := by
  have hadd := server_add_held sys hinv hi hservice hport hrests
  unfold ctrl_cmd_new_server
  simp only [if_neg hremote, ne_eq, not_true, if_false, hadd]
  by_cases hc : sys.calloc s.time 1 = true
  swap
  · rw [if_neg hc, if_neg fun h => hc h.1]
    rfl
  rw [if_pos hc]
  by_cases hfull : (s.reg sq.sq_node).count = (s.reg sq.sq_node).size ∧
      sys.calloc (s.time + 1) ((s.reg sq.sq_node).size + 256) = false
  · rw [if_pos hfull, if_neg fun h => h.2 hfull]
    rfl
  · rw [if_neg hfull, if_pos ⟨hc, hfull⟩]
    simp only [if_neg hremote]
    rw [notify_lookups_unwanted sys true hunwanted]
    rfl

/-- Such a packet leaves everything as it is if the table has room. -/
theorem new_server_held_ready (sys : Sys) (hinv : ∀ x, Inv (s.reg x))
    {service instance_ node_id port : UInt32}
    (hremote : sq.sq_node ≠ local_node)
    (hroom : (s.reg sq.sq_node).count ≠ (s.reg sq.sq_node).size)
    (hrests : port ≠ 0 →
      (s.reg sq.sq_node).ready.Rests (hash_u32 port) ⟨service, instance_, sq.sq_node, port⟩)
    (hunwanted : port ≠ 0 → ∀ l ∈ s.lookups, l.wants service instance_ = false) :
    (ctrl_cmd_new_server sys local_node s sq service instance_ node_id port).2.untimed = s.untimed := by
  by_cases hnode : sq.sq_node = node_id
  swap
  · rw [new_server_refused_node _ _ _ _ hremote hnode]
  subst hnode
  by_cases hzero : service = 0 ∨ (if sq.sq_node = local_node then sq.sq_port else port) = 0
  · rw [new_server_refused_record _ _ _ hzero]
  rw [if_neg hremote] at hzero
  obtain ⟨hservice, hport⟩ := not_or.mp hzero
  obtain ⟨i, hi⟩ := registered_of_rests (hrests hport)
  rw [new_server_held sys hinv hi hremote hservice hport (hrests hport) (hunwanted hport),
    QrtrMap.Map.ready, if_neg hroom, ← Context.services_eq hi, Context.setServices_self, ite_self]

/-- The packets that can be taken for a NEW_SERVER of another node for what is there have one outcome. -/
theorem Held.settled (hinv : ∀ x, Inv (s.reg x)) (hremote : sq.sq_node ≠ local_node)
    (hservice : ¬ (8 ≤ bytes.length ∧ Fits bytes 4 0)) (hfits : Fits bytes 12 sq.sq_node)
    (h : Held s sq bytes) :
    Settled bytes .new_server fun sys pkt =>
      (ctrl_cmd_new_server sys local_node s sq pkt.service pkt.instance_ pkt.node pkt.port).2 := by
  have hnamed := h.named
  intro sys stack stack' pkt pkt' hpkt hpkt'
  beta_reduce
  have hasked : ∀ p, Completes bytes .new_server p → p.port ≠ 0 →
      Asked sq bytes ⟨p.service, p.instance_, sq.sq_node, p.port⟩ :=
    fun p hp hne => ⟨hp.service, hp.instance_, rfl, hp.port, hne⟩
  have hrests : ∀ p, Completes bytes .new_server p → p.port ≠ 0 →
      (s.reg sq.sq_node).ready.Rests (hash_u32 p.port)
        ⟨p.service, p.instance_, sq.sq_node, p.port⟩ :=
    fun p hp hne => h.rests ⟨p.service, p.instance_, sq.sq_node, p.port⟩ (hasked p hp hne)
  rcases h.ready with hroom | ⟨hlen, hzero⟩
  · have hkeep : ∀ sys p, Completes bytes .new_server p →
        (ctrl_cmd_new_server sys local_node s sq p.service p.instance_ p.node p.port).2.untimed =
          s.untimed :=
      fun sys p hp => new_server_held_ready sys hinv hremote hroom
        (hrests p hp) fun hne => h.unwanted _ (hasked p hp hne)
    rw [hkeep _ _ hpkt, hkeep _ _ hpkt']
  · -- none of the packets is refused
    have hport : ∀ p, Completes bytes .new_server p → p.port ≠ 0 := by
      intro p hp hport
      have hfits := hp.port
      rw [hport] at hfits
      exact hzero hfits
    have hservice_ne : pkt.service ≠ 0 := by
      intro heq
      have hfits := hpkt.service
      rw [heq] at hfits
      exact hservice ⟨by omega, hfits⟩
    have hrests_pkt := hrests _ hpkt (hport _ hpkt)
    have hrests_pkt' := hrests _ hpkt' (hport _ hpkt')
    obtain ⟨i, hi⟩ := registered_of_rests hrests_pkt
    have hunwanted := h.unwanted _ (hasked _ hpkt (hport _ hpkt))
    rw [← hpkt.service.eq hpkt'.service (by omega), ← hpkt.instance_.eq hpkt'.instance_ hnamed]
      at hrests_pkt'
    rw [hpkt.node.eq hfits hlen, hpkt'.node.eq hfits hlen,
      ← hpkt.service.eq hpkt'.service (by omega), ← hpkt.instance_.eq hpkt'.instance_ hnamed,
      new_server_held _ hinv hi hremote hservice_ne (hport _ hpkt) hrests_pkt hunwanted,
      new_server_held _ hinv hi hremote hservice_ne (hport _ hpkt') hrests_pkt' hunwanted]

/-- A NEW_SERVER that brings enough. -/
theorem new_server_covered (hinv : ∀ x, Inv (s.reg x))
    (h : ctrl_cmd_new_server.Covered local_node s sq bytes) :
    Settled bytes .new_server fun sys pkt =>
      (ctrl_cmd_new_server sys local_node s sq pkt.service pkt.instance_ pkt.node pkt.port).2 := by
  by_cases hservice : 8 ≤ bytes.length ∧ Fits bytes 4 0
  · -- refused for its service
    intro sys stack stack' pkt pkt' hpkt hpkt'
    have hzero : ∀ p, Completes bytes .new_server p → p.service = 0 :=
      fun p hp => hp.service.eq hservice.2 hservice.1
    beta_reduce
    rw [new_server_refused_record _ _ _ (.inl (hzero _ hpkt)),
      new_server_refused_record _ _ _ (.inl (hzero _ hpkt'))]
  have h := h.resolve_left hservice
  by_cases hlocal : sq.sq_node = local_node
  · rw [if_pos hlocal] at h
    intro sys stack stack' pkt pkt' hpkt hpkt'
    beta_reduce
    rcases h with hport | hlen
    · rw [new_server_refused_record _ _ _ (.inr (by rw [if_pos hlocal, hport])),
        new_server_refused_record _ _ _ (.inr (by rw [if_pos hlocal, hport]))]
    · rw [hpkt.service.eq hpkt'.service (by omega), hpkt.instance_.eq hpkt'.instance_ hlen,
        new_server_local _ hlocal _ _ _ _ pkt'.node pkt'.port]
      rfl
  · rw [if_neg hlocal] at h
    rcases h with hlen | hfits | hheld
    · intro sys stack stack' pkt pkt' hpkt hpkt'
      rw [hpkt.eq hpkt' hlen]
      rfl
    · intro sys stack stack' pkt pkt' hpkt hpkt'
      beta_reduce
      rw [new_server_refused_node _ _ _ _ hlocal fun heq => hfits (heq ▸ hpkt.node),
        new_server_refused_node _ _ _ _ hlocal fun heq => hfits (heq ▸ hpkt'.node)]
    · by_cases hfits : Fits bytes 12 sq.sq_node
      · exact hheld.settled hinv hlocal hservice hfits
      · intro sys stack stack' pkt pkt' hpkt hpkt'
        beta_reduce
        rw [new_server_refused_node _ _ _ _ hlocal fun heq => hfits (heq ▸ hpkt.node),
          new_server_refused_node _ _ _ _ hlocal fun heq => hfits (heq ▸ hpkt'.node)]

theorem exists_fits_service (hservice : ¬ (8 ≤ bytes.length ∧ Fits bytes 4 0)) :
    ∃ service, Fits bytes 4 service ∧ service ≠ 0 := by
  by_cases hlen : 8 ≤ bytes.length
  · obtain ⟨service, hfits⟩ := exists_fits bytes 4
    refine ⟨service, hfits, ?_⟩
    rintro rfl
    exact hservice ⟨hlen, hfits⟩
  · obtain ⟨service, hfits, -, hne⟩ :=
      exists_fits_ne (Nat.lt_of_not_le hlen : bytes.length < 4 + 4) 0
    exact ⟨service, hfits, hne⟩

/-- A packet that is not refused, and the instance is missing. -/
theorem new_server_unnamed (hnodes : Nodes s) (hinv : ∀ x, Inv (s.reg x))
    (h : Settled bytes .new_server fun sys pkt =>
      (ctrl_cmd_new_server sys local_node s sq pkt.service pkt.instance_ pkt.node pkt.port).2)
    (hservice : ¬ (8 ≤ bytes.length ∧ Fits bytes 4 0)) {node port : UInt32}
    (hnode : Fits bytes 12 node) (hport : Fits bytes 16 port)
    (hown : sq.sq_node = local_node ∨ sq.sq_node = node)
    (hport_ne : (claimed local_node sq 0 0 port).port ≠ 0) : 12 ≤ bytes.length := by
  by_contra hlen
  obtain ⟨service, hs, hs_ne⟩ := exists_fits_service hservice
  obtain ⟨i, i', hi, hi', hne, -, -⟩ := exists_fits_two (Nat.lt_of_not_le hlen : bytes.length < 8 + 4)
  -- the two records have the same port
  refine (rests_of_new_server hnodes hinv h (completes_of_fits _ hs hi hnode hport)
    (completes_of_fits _ hs hi' hnode hport) ?_ ?_ ?_ ?_).1 rfl
  · simpa using hown
  · simpa using hs_ne
  · simpa [claimed] using hport_ne
  · exact fun heq => hne (congrArg Server.instance_ heq)

/-- A packet of another node that is not refused asks for what is there, or it is whole. -/
theorem held_of_settled (hnodes : Nodes s) (hinv : ∀ x, Inv (s.reg x))
    (h : Settled bytes .new_server fun sys pkt =>
      (ctrl_cmd_new_server sys local_node s sq pkt.service pkt.instance_ pkt.node pkt.port).2)
    (hservice : ¬ (8 ≤ bytes.length ∧ Fits bytes 4 0)) (hremote : sq.sq_node ≠ local_node)
    (hlen : bytes.length < 20) (hfits : Fits bytes 12 sq.sq_node) : Held s sq bytes := by
  have hclaim : ∀ service instance_ port, claimed local_node sq service instance_ port =
      ⟨service, instance_, sq.sq_node, port⟩ := by
    intro service instance_ port
    rw [claimed, if_neg hremote]
  obtain ⟨p, -, hp, -, -, hp_ne, -⟩ := exists_fits_two (hlen : bytes.length < 16 + 4)
  have hnamed : 12 ≤ bytes.length :=
    new_server_unnamed hnodes hinv h hservice hfits hp (.inr rfl) (by rwa [hclaim])
  have hservice_ne : ∀ srv, Asked sq bytes srv → srv.service ≠ 0 := by
    intro srv hsrv hzero
    have hfits := hsrv.service
    rw [hzero] at hfits
    exact hservice ⟨by omega, hfits⟩
  -- a record that is asked for, and another one on another port
  have htwo : ∀ srv, Asked sq bytes srv →
      (s.reg sq.sq_node).ready.Rests (hash_u32 srv.port) srv ∧
        ∃ port, port ≠ srv.port ∧ news .new_server local_node s.lookups srv =
          news .new_server local_node s.lookups ⟨srv.service, srv.instance_, sq.sq_node, port⟩ := by
    intro srv hsrv
    obtain ⟨port, hport, hport_ne, hport0⟩ := exists_fits_ne (hlen : bytes.length < 16 + 4) srv.port
    have hpair := rests_of_new_server hnodes hinv h
      (completes_of_fits _ hsrv.service hsrv.instance_ hfits hsrv.port)
      (completes_of_fits _ hsrv.service hsrv.instance_ hfits hport)
      (by simp) (by simpa using hservice_ne srv hsrv)
      (by simpa [hclaim] using ⟨hsrv.port_ne, hport0⟩)
      (by
        rw [hclaim, hclaim]
        exact fun heq => hport_ne (congrArg Server.port heq).symm)
    have hself : (⟨srv.service, srv.instance_, sq.sq_node, srv.port⟩ : Server) = srv := by
      rw [← hsrv.node]
    rw [hclaim, hclaim, hself] at hpair
    exact ⟨hpair.2.1, port, hport_ne, hpair.2.2⟩
  refine ⟨hnamed, fun srv hsrv => (htwo srv hsrv).1, ?_, ?_⟩
  · intro srv hsrv l hl
    rw [← Bool.not_eq_true]
    intro hwants
    -- the lookup is told of the port
    obtain ⟨-, port, hne, hnews⟩ := htwo srv hsrv
    have hmem : (⟨l.sq, (srv.pkt .new_server).bytes, some l.id⟩ : Sent) ∈
        news .new_server local_node s.lookups srv := by
      refine List.mem_append_right _ (List.mem_flatMap.mpr ⟨l, hl, ?_⟩)
      rw [if_pos hwants]
      exact List.mem_singleton.mpr rfl
    rw [hnews] at hmem
    have hpkt := QrtrCtrlPkt.bytes_injective (news_data hmem)
    exact hne (congrArg QrtrCtrlPkt.port hpkt).symm
  · by_contra hnot
    obtain ⟨hfull, hrefused⟩ := not_or.mp hnot
    rw [not_not] at hfull
    obtain ⟨service, hs⟩ := exists_fits bytes 4
    obtain ⟨i, hi⟩ := exists_fits bytes 8
    have hasked : Asked sq bytes ⟨service, i, sq.sq_node, p⟩ := ⟨hs, hi, rfl, hp, hp_ne⟩
    have hs_ne := hservice_ne _ hasked
    -- the packet can be refused too
    obtain ⟨node', port', hnode', hport', hrefuse⟩ : ∃ node' port', Fits bytes 12 node' ∧
        Fits bytes 16 port' ∧ (ctrl_cmd_new_server allWell local_node s sq service i node' port').2 =
          s := by
      by_cases hlen16 : 16 ≤ bytes.length
      · have hzero : Fits bytes 16 0 := by
          by_contra hne
          exact hrefused ⟨hlen16, hne⟩
        exact ⟨sq.sq_node, 0, hfits, hzero,
          new_server_refused_record _ _ _ (.inr (by rw [if_neg hremote]))⟩
      · obtain ⟨node', hnode', hne, -⟩ :=
          exists_fits_ne (Nat.lt_of_not_le hlen16 : bytes.length < 12 + 4) sq.sq_node
        exact ⟨node', p, hnode', hp, new_server_refused_node _ _ _ _ hremote hne.symm⟩
    have hsame := h.same (completes_of_fits _ hs hi hfits hp) (completes_of_fits _ hs hi hnode' hport')
    have htable := congrArg (fun c : Context Map => c.reg sq.sq_node) hsame
    have hport_ne : (claimed local_node sq service i p).port ≠ 0 := by rwa [hclaim]
    obtain ⟨hreg, -⟩ := new_server_allWell hnodes (.inr rfl) hs_ne hport_ne
    rw [hclaim] at hreg
    have hput := QrtrMap.map_reput_rests (fun _ => true) (hinv sq.sq_node) ((htwo _ hasked).1)
    rw [if_neg (by simp)] at hput
    have hgrown : (s.reg sq.sq_node).ready = s.reg sq.sq_node :=
      (congrArg Prod.fst hput).symm.trans (hreg.symm.trans (htable.trans (by
        change (ctrl_cmd_new_server allWell local_node s sq service i node' port').2.reg _ = _
        rw [hrefuse])))
    exact QrtrMap.Map.ready_ne hfull hgrown

/-- **The condition of a NEW_SERVER is exact.** -/
theorem new_server_settled (hnodes : Nodes s) (hinv : ∀ x, Inv (s.reg x)) :
    (Settled bytes .new_server fun sys pkt =>
        (ctrl_cmd_new_server sys local_node s sq pkt.service pkt.instance_ pkt.node pkt.port).2) ↔
      ctrl_cmd_new_server.Covered local_node s sq bytes := by
  refine ⟨fun h => ?_, new_server_covered hinv⟩
  by_contra hnot
  obtain ⟨hservice, hnot⟩ := not_or.mp hnot
  obtain ⟨port, hport⟩ := exists_fits bytes 16
  by_cases hlocal : sq.sq_node = local_node
  · rw [if_pos hlocal] at hnot
    obtain ⟨hport_ne, hlen⟩ := not_or.mp hnot
    obtain ⟨node, hnode⟩ := exists_fits bytes 12
    refine hlen (new_server_unnamed hnodes hinv h hservice hnode hport (.inl hlocal) ?_)
    rwa [claimed, if_pos hlocal]
  · rw [if_neg hlocal] at hnot
    obtain ⟨hlen, hnot⟩ := not_or.mp hnot
    obtain ⟨hfits, hheld⟩ := not_or.mp hnot
    exact hheld (held_of_settled hnodes hinv h hservice hlocal (Nat.lt_of_not_le hlen)
      (not_not.mp hfits))

end NewServer

end Dragonboard.Ns
