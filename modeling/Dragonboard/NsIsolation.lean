/-
Who can change what in the registry.

A packet from one node touches the records of that node only, and the lookups of its sender only.

Within the local node it is one port per client, with two exceptions. `ctrl_cmd_bye` has
no guard for local senders and removes the servers of every port. And a
registration that makes the table grow goes through `map_rehash`, which keeps one record
of a port that has two; the table of `map.c` can hold two records of a port after a
second registration of it.
-/
import Dragonboard.MapLawful
import Dragonboard.NsMachine

set_option autoImplicit false

namespace Dragonboard.Ns

open Dragonboard.Memory Dragonboard.MapApi
open Dragonboard.QrtrMap (Map structMap_eq_scanMap)

/-! ## Nodes

A packet from one node changes the table of this node and no other. Lookups are those of local
clients, so packets from elsewhere leave them alone. -/

section Nodes

variable {M : Type → Type} [StructMap M] [LawfulMap M] {sys : Sys} {local_node : UInt32}

/-- A deed leaves the lookups of everyone but the sender, since lookups are those of local clients. -/
theorem Deed.lookups_eq {d : Datagram} {v v' : View M} (h : Deed sys local_node d v v')
    (hs : Sound local_node v) :
    v'.lookups.filter (fun l => l.sq ≠ d.sq) = v.lookups.filter fun l => l.sq ≠ d.sq := by
  cases h with
  | send hout ho ht => rfl
  | del hsrv hport ho ht => rfl
  | add htype hsrv hservice hport hput ho ht => rfl
  | lookup hlocal hfound ho ht => simp
  | @forget keep hkeep =>
    rw [List.filter_filter]
    refine List.filter_congr fun l hl => ?_
    by_cases hsq : l.sq = d.sq
    · simp [hsq]
    · have hkept : keep l = true := by
        by_contra hdropped
        rcases (hkeep l (by simpa using hdropped)).2 with hsame | ⟨hnode, hremote⟩
        · exact hsq hsame
        · exact hremote (hnode.symm.trans (hs.observers l hl))
      simp [hsq, hkept]

end Nodes

/-- **Node isolation.** In every state the name server reaches, on the tables of `map.c`, and for
every datagram from `(m, p)`: the table of every other node is as before, and so are the
lookups of every other address. -/
theorem node_isolation (sys : Sys) (local_node : UInt32) (ds : List Datagram) (d : Datagram) :
    (∀ n, n ≠ d.sq.sq_node →
      (ctrl_port_fn sys local_node (main.run sys local_node ds : Context Map) d).reg n =
        (main.run sys local_node ds : Context Map).reg n) ∧
    (ctrl_port_fn sys local_node (main.run sys local_node ds : Context Map) d).lookups.filter
        (fun l => l.sq ≠ d.sq) =
      (main.run sys local_node ds : Context Map).lookups.filter fun l => l.sq ≠ d.sq := by
  have hsound : Sound local_node (main.run sys local_node ds : Context Map).view :=
    main_run_sound sys local_node ds
  have hperf := ctrl_port_fn_refines sys local_node d
    (main_run_nodes (M := Map) sys local_node ds)
  generalize (main.run sys local_node ds : Context Map) = s at hsound hperf
  refine ⟨fun n hn => hperf.reg_eq hn, ?_⟩
  -- the lookups stay together with the invariant that says whose they are
  have hkept := hperf.induction (P := fun v => Sound local_node v ∧
      v.lookups.filter (fun l => l.sq ≠ d.sq) = s.lookups.filter fun l => l.sq ≠ d.sq) ?_
    ⟨hsound, rfl⟩
  · exact hkept.2
  · rintro v v' ⟨hv, hlookups⟩ hdeed
    exact ⟨hv.deed hdeed, (hdeed.lookups_eq hv).trans hlookups⟩

/-! ## Ports of the local node

Between the ports of the local node there is no such wall. Two kinds of packets reach over: a BYE
from a local port, and a registration that makes a table grow in which a port has two records. -/

section Ports

open QrtrMap (Inv Lands)

variable {sys : Sys} {local_node : UInt32}

/-- Every table the name server reaches is well formed, whatever was registered how often. -/
theorem main_run_inv (sys : Sys) (local_node : UInt32) (ds : List Datagram) (x : UInt32) :
    Inv ((main.run sys local_node ds : Context Map).reg x) := by
  refine main_run_induction (P := fun v : View Map => ∀ x, Inv (v.reg x)) ?_ ?_ ds x
  · intro o t _ x
    exact Inv.create
  · intro d v v' hv hdeed x
    cases hdeed with
    | send hout ho ht => exact hv x
    | @del port srv o t hsrv hport ho ht =>
      by_cases hx : x = d.sq.sq_node
      · subst hx
        obtain ⟨m', A, B, hr, hinv, -, -, -⟩ := QrtrMap.map_remove_some (hv _) hsrv
        simp only [Function.update_self, StructMap.map_remove, hr]
        exact hinv
      · simp only [Function.update_of_ne hx]
        exact hv x
    | @add srv u t old o htype hsrv hservice hport hput ho ht =>
      by_cases hx : x = srv.node
      · subst hx
        simp only [Function.update_self]
        exact (hv _).reput _ _ _
      · simp only [Function.update_of_ne hx]
        exact hv x
    | lookup hlocal hfound ho ht => exact hv x
    | forget hkeep => exact hv x

/-- The servers of the local node on ports other than `p`. -/
def others (local_node : UInt32) (s : Context Map) (p : UInt32) : List Server :=
  (records (s.reg local_node)).filter fun srv => srv.port ≠ p

/-- A BYE from `p` while another port of the local node has a server. -/
def Sweeps (local_node : UInt32) (s : Context Map) (d : Datagram) (p : UInt32) : Prop :=
  d.type = some .bye ∧ ∃ srv ∈ records (s.reg local_node), srv.port ≠ p

/-- A registration from `p` that makes the table grow, while another port has two records. -/
def Collapses (sys : Sys) (local_node : UInt32) (s : Context Map) (d : Datagram) (p : UInt32) :
    Prop :=
  d.type = some .new_server ∧ d.msg.service ≠ 0 ∧ p ≠ 0 ∧
    (s.reg local_node).count = (s.reg local_node).size ∧
    sys.calloc s.time 1 = true ∧ sys.calloc (s.time + 1) ((s.reg local_node).size + 256) = true ∧
    ¬ ((others local_node s p).map Server.port).Nodup

/-- The other ports' servers are the other keys' entries. -/
theorem others_eq {s : Context Map} (h : Sound local_node s.view) (p : UInt32) :
    others local_node s p =
      ((s.reg local_node).entries.filter (·.1 ≠ hash_u32 p)).map Prod.snd := by
  rw [others, records_eq, List.filter_map]
  congr 1
  refine List.filter_congr fun e he => ?_
  obtain ⟨hkey, -⟩ := h.keyed local_node e he
  simp [hkey]

/-- Two states with the same entries under the other keys, in any order. -/
theorem others_perm {s s' : Context Map} (h : Sound local_node s.view)
    (h' : Sound local_node s'.view) {p : UInt32}
    (hperm : ((s'.reg local_node).entries.filter (·.1 ≠ hash_u32 p)).Perm
      ((s.reg local_node).entries.filter (·.1 ≠ hash_u32 p))) :
    (others local_node s' p).Perm (others local_node s p) := by
  rw [others_eq h, others_eq h']
  exact hperm.map _

/-- Everything but a BYE and a registration leaves the other ports alone. -/
theorem others_kept {s : Context Map} (h : Nodes s) (hs : Sound local_node s.view) {p : UInt32}
    {d : Datagram} (hsq : d.sq = ⟨local_node, p⟩) (hbye : d.type ≠ some .bye)
    (hnew : d.type ≠ some .new_server) :
    (others local_node (ctrl_port_fn sys local_node s d) p).Perm (others local_node s p) := by
  have hperf := ctrl_port_fn_refines sys local_node d h
  have hkept := hperf.induction (P := fun v => Sound local_node v ∧
      (v.reg local_node).entries.filter (·.1 ≠ hash_u32 p) =
        (s.reg local_node).entries.filter (·.1 ≠ hash_u32 p)) ?_ ⟨hs, rfl⟩
  · refine others_perm hs hkept.1 ?_
    rw [Context.view_reg] at hkept
    rw [hkept.2]
  · rintro v v' ⟨hv, hentries⟩ hdeed
    refine ⟨hv.deed hdeed, ?_⟩
    rw [← hentries]
    cases hdeed with
    | send hout ho ht => rfl
    | @del port srv o t hsrv hport ho ht =>
      have hnode : d.sq.sq_node = local_node := by rw [hsq]
      have hp : port = p := by
        rcases hport hnode with hport | hbye'
        · rw [hport, hsq]
        · exact absurd hbye' hbye
      simp only [hnode, hp, Function.update_self]
      exact Map.rest_remove_filter (v.reg local_node) (hash_u32 p) 0
    | add htype hsrv hservice hport hput ho ht => exact absurd htype hnew
    | lookup hlocal hfound ho ht => rfl
    | forget hkeep => rfl

/-! ## A registration

What the growth of a table does to other ports can be read off the list of entries: it loses one
where a key occurs twice. -/

/-- `server_add` for a node that is there. -/
theorem server_add_registered {s : Context Map} {x : UInt32} {i : ℕ} (hi : s.registered x = some i)
    {service port : UInt32} (hservice : service ≠ 0) (hport : port ≠ 0) (instance_ : UInt32)
    (hcalloc : sys.calloc s.time 1 = true) :
    (server_add sys s service instance_ x port).2 =
      (s.tick.setServices i (QrtrMap.map_reput (sys.calloc (s.time + 1)) (s.reg x) (hash_u32 port)
        (some ⟨service, instance_, x, port⟩)).1).tick := by
  have hget : node_get sys s.tick x = (some i, s.tick) := by
    unfold node_get
    have htick : map_get s.tick.nodes (hash_u32 x) = some i := hi
    rw [htick]
  have hservices : s.tick.services i = s.reg x := Context.services_eq hi
  unfold server_add
  rw [if_neg (not_or.mpr ⟨hservice, hport⟩), if_pos hcalloc]
  simp only [hget, hservices, StructMap.map_reput]
  split <;> rfl

/-- Among records under their keys, keys repeat where ports do. -/
theorem ports_nodup_iff {l : List (UInt32 × Server)} (hl : ∀ e ∈ l, e.1 = hash_u32 e.2.port) :
    ((l.map Prod.snd).map Server.port).Nodup ↔ (l.map Prod.fst).Nodup := by
  have hkeys : l.map Prod.fst = ((l.map Prod.snd).map Server.port).map hash_u32 := by
    rw [List.map_map, List.map_map]
    exact List.map_congr_left fun e he => hl e he
  rw [hkeys, List.nodup_map_iff hash_u32_injective]

/-- Growth keeps the servers of the other ports exactly if none of these ports has two. -/
theorem grown_perm_iff {m : Map Server} {x : UInt32}
    (hm : ∀ e ∈ m.entries,
      e.1 = hash_u32 e.2.port ∧ e.2.node = x ∧ e.2.service ≠ 0 ∧ e.2.port ≠ 0) (p : UInt32) :
    ((m.grown.entries.filter (·.1 ≠ hash_u32 p)).map Prod.snd).Perm
        ((m.entries.filter (·.1 ≠ hash_u32 p)).map Prod.snd) ↔
      (((m.entries.filter (·.1 ≠ hash_u32 p)).map Prod.snd).map Server.port).Nodup := by
  have hkeyed : ∀ e ∈ m.entries.filter (·.1 ≠ hash_u32 p), e.1 = hash_u32 e.2.port :=
    fun e he => (hm e (List.mem_filter.mp he).1).1
  constructor
  · intro hperm
    have hgrown : ((m.grown.entries.filter (·.1 ≠ hash_u32 p)).map Prod.fst).Nodup :=
      List.Nodup.sublist (List.filter_sublist.map _) (QrtrMap.grown_spec m).1.distinct
    rw [← ports_nodup_iff fun e he =>
      (hm e (m.grown_subset (List.mem_filter.mp he).1)).1] at hgrown
    exact (hperm.map Server.port).nodup_iff.mp hgrown
  · intro hnodup
    rw [ports_nodup_iff hkeyed] at hnodup
    exact ((m.grown_filter_perm (hash_u32 p)).mpr hnodup).map _

/-- A replacement keeps the servers of the other ports exactly if it does not make the table grow
while one of them has two. -/
theorem reput_perm_iff {m : Map Server} (hinv : Inv m) {x : UInt32}
    (hm : ∀ e ∈ m.entries,
      e.1 = hash_u32 e.2.port ∧ e.2.node = x ∧ e.2.service ≠ 0 ∧ e.2.port ≠ 0)
    (calloc : ℕ → Bool) (p : UInt32) (srv : Server) :
    (((QrtrMap.map_reput calloc m (hash_u32 p) (some srv)).1.entries.filter
          (·.1 ≠ hash_u32 p)).map Prod.snd).Perm
        ((m.entries.filter (·.1 ≠ hash_u32 p)).map Prod.snd) ↔
      ¬ (m.count = m.size ∧ calloc (m.size + 256) = true ∧
        ¬ (((m.entries.filter (·.1 ≠ hash_u32 p)).map Prod.snd).map Server.port).Nodup) := by
  rcases QrtrMap.map_reput_cases calloc m (hash_u32 p) srv with
    ⟨j, hl, hcount, hr⟩ | ⟨rc, j, hfull, hgrow, hl, hr⟩ | ⟨rc, -, hgrow, hr⟩
  · rw [hr, hl.entries_filter]
    refine iff_of_true (List.Perm.refl _) ?_
    rintro ⟨hcount', -⟩
    exact hcount hcount'
  · -- the table grows: all conditions but the last hold
    have hcount := hinv.full_of_error hfull
    rw [hr, hl.entries_filter, grown_perm_iff hm p]
    constructor
    · rintro hnodup ⟨-, -, hnot⟩
      exact hnot hnodup
    · intro hnot
      by_contra hnodup
      exact hnot ⟨hcount, hgrow, hnodup⟩
  · rw [hr]
    refine iff_of_true (List.Perm.refl _) ?_
    rintro ⟨-, hgrow', -⟩
    rw [hgrow] at hgrow'
    cases hgrow'

/-- The table of a node that is there after `server_add`. -/
theorem server_add_registered_reg {s : Context Map} (h : Nodes s) {x : UInt32} {i : ℕ}
    (hi : s.registered x = some i) {service port : UInt32} (hservice : service ≠ 0)
    (hport : port ≠ 0) (instance_ : UInt32) (hcalloc : sys.calloc s.time 1 = true) :
    (server_add sys s service instance_ x port).2.reg x =
      (QrtrMap.map_reput (sys.calloc (s.time + 1)) (s.reg x) (hash_u32 port)
        (some ⟨service, instance_, x, port⟩)).1 := by
  have htick : Becomes s s.tick { s.view with time := s.time + 1 } := .of_same h rfl rfl rfl
  have hset := (htick.setServices (htick.kept hi) (QrtrMap.map_reput (sys.calloc (s.time + 1))
    (s.reg x) (hash_u32 port) (some ⟨service, instance_, x, port⟩)).1).tick
  have hview := congrArg (fun v => v.reg x) hset.view
  rw [server_add_registered hi hservice hport _ hcalloc]
  simpa using hview

/-- What follows `server_add` in a local registration is sending. -/
theorem new_server_reg {s : Context Map} (h : Nodes s) (p service instance_ node_id port : UInt32) :
    (ctrl_cmd_new_server sys local_node s ⟨local_node, p⟩ service instance_ node_id port).2.reg =
      (server_add sys s service instance_ local_node p).2.reg := by
  have hadd := h.server_add sys service instance_ local_node p
  unfold ctrl_cmd_new_server
  simp only [if_true, ne_eq, not_true, if_false]
  generalize server_add sys s service instance_ local_node p = r at hadd
  cases hr : r.1 with
  | none => rfl
  | some srv =>
    rw [hr] at hadd
    obtain ⟨-, -, -, u, old, t, -, -, hb⟩ := hadd
    simp only
    rw [apply_ite Prod.snd]
    exact (hb.nodes.spread sys local_node srv true).reg.1

/-- `server_add` puts nothing into the table but its record. -/
theorem server_add_subset {s : Context Map} (h : Nodes s) (service instance_ x port : UInt32) :
    ∀ e ∈ ((server_add sys s service instance_ x port).2.reg x).entries,
      e.1 = hash_u32 port ∨ e ∈ (s.reg x).entries := by
  intro e he
  have hadd := h.server_add sys service instance_ x port
  cases hr : (server_add sys s service instance_ x port).1 with
  | none =>
    rw [hr] at hadd
    rw [hadd.1.reg.1] at he
    exact .inr he
  | some srv =>
    rw [hr] at hadd
    obtain ⟨-, -, -, u, old, t, -, -, hb⟩ := hadd
    have hreg := congrArg (fun v => v.reg x) hb.view
    simp only [Context.view_reg, Function.update_self] at hreg
    rw [hreg] at he
    rcases List.mem_cons.mp (QrtrMap.map_reput_subset _ _ _ _ he) with rfl | hold
    · exact .inl rfl
    · exact .inr hold

/-- After the first server of a node there are no other ports. -/
theorem server_add_first_entries {s : Context Map} (h : Nodes s) {x : UInt32}
    (hx : s.reg x = QrtrMap.map_create) (service instance_ port : UInt32) :
    ((server_add sys s service instance_ x port).2.reg x).entries.filter
      (·.1 ≠ hash_u32 port) = [] := by
  refine List.filter_eq_nil_iff.mpr fun e he => ?_
  have hkey := server_add_subset h _ _ _ _ e he
  rw [hx] at hkey
  rcases hkey with hkey | hkey
  · simp [hkey]
  · exact absurd hkey List.not_mem_nil

/-- A registration leaves the other ports alone exactly if it does not make the table grow while one
of them has two records. -/
theorem others_new_server {s : Context Map} (h : Nodes s) (hs : Sound local_node s.view)
    (hinv : Inv (s.reg local_node)) {p : UInt32} {d : Datagram} (hsq : d.sq = ⟨local_node, p⟩)
    (htype : d.type = some .new_server) :
    (others local_node (ctrl_port_fn sys local_node s d) p).Perm (others local_node s p) ↔
      ¬ Collapses sys local_node s d p := by
  have hsound := (ctrl_port_fn_refines sys local_node d h).induction (fun _ _ hv => hv.deed) hs
  have hreg : (ctrl_port_fn sys local_node s d).reg =
      (server_add sys s d.msg.service d.msg.instance_ local_node p).2.reg := by
    obtain ⟨hdispatch, hcode⟩ := ctrl_port_fn_dispatch sys local_node d s htype
    rw [hdispatch, ctrl_port_fn.dispatch, hcode, hsq]
    exact new_server_reg h p _ _ _ _
  generalize ctrl_port_fn sys local_node s d = s' at hsound hreg
  rw [others_eq hs, others_eq hsound, Collapses, others_eq hs, hreg]
  by_cases hzero : d.msg.service = 0 ∨ p = 0
  · rw [server_add, if_pos hzero]
    refine iff_of_true (List.Perm.refl _) ?_
    rintro ⟨-, hservice, hp, -⟩
    exact hzero.elim hservice hp
  obtain ⟨hservice, hp⟩ := not_or.mp hzero
  by_cases hc : sys.calloc s.time 1 = true
  swap
  · have hsame : (server_add sys s d.msg.service d.msg.instance_ local_node p).2.reg = s.reg := by
      rw [server_add, if_neg hzero, if_neg hc]
      rfl
    rw [hsame]
    refine iff_of_true (List.Perm.refl _) ?_
    rintro ⟨-, -, -, -, hc', -⟩
    exact hc hc'
  cases hi : s.registered local_node with
  | none =>
    -- the first local server: there are no others before and none after
    have hempty : s.reg local_node = QrtrMap.map_create := by
      rw [Context.reg, hi, Option.map_none, Option.getD_none]
      rfl
    rw [server_add_first_entries h hempty, hempty]
    exact iff_of_true (List.Perm.refl _) fun hcollapse => hcollapse.2.2.2.2.2.2 List.nodup_nil
  | some i =>
    rw [server_add_registered_reg h hi hservice hp _ hc,
      reput_perm_iff hinv (hs.keyed local_node)]
    refine not_congr ⟨?_, ?_⟩
    · rintro ⟨hcount, hgrow, hnodup⟩
      exact ⟨htype, hservice, hp, hcount, hc, hgrow, hnodup⟩
    · rintro ⟨-, -, -, hcount, -, hgrow, hnodup⟩
      exact ⟨hcount, hgrow, hnodup⟩

/-! ## A BYE

`ctrl_cmd_bye` deletes every server of the node its packet comes from, without asking whether that
is the local node. The walk is followed with a count of what is left on the other ports. -/

/-- A state in the middle of the walk of a local BYE, with the local node at `i`. -/
structure Walking (local_node : UInt32) (i : ℕ) (s : Context Map) : Prop where
  nodes : Nodes s
  node : s.registered local_node = some i
  sound : Sound local_node s.view
  inv : Inv (s.reg local_node)

/-- How many servers there are on other ports. -/
def othersCount (local_node p : UInt32) (s : Context Map) : ℕ :=
  ((s.reg local_node).entries.filter (·.1 ≠ hash_u32 p)).length

section Walk

variable {i : ℕ} {d : Datagram}

/-- One deletion of the walk. -/
theorem Walking.del (sys : Sys) {s : Context Map} (h : Walking local_node i s)
    (hnode : d.sq.sq_node = local_node) (htype : d.type = some .bye) (port : UInt32) :
    Walking local_node i (server_del sys local_node s i port).2 ∧
      (server_del sys local_node s i port).2.reg local_node =
        (QrtrMap.map_remove (s.reg local_node) (hash_u32 port)).1 := by
  have hreg : (server_del sys local_node s i port).2.reg local_node =
      (QrtrMap.map_remove (s.reg local_node) (hash_u32 port)).1 := by
    have hdel := h.nodes.server_del sys local_node h.node port
    cases hg : map_get (s.reg local_node) (hash_u32 port) with
    | none =>
      rw [hg] at hdel
      simp only at hdel
      rw [hdel, QrtrMap.map_remove_none hg]
    | some srv =>
      rw [hg] at hdel
      obtain ⟨o, t, -, -, hb⟩ := hdel
      have hview := congrArg (fun v => v.reg local_node) hb.view
      simp only [Context.view_reg, Function.update_self] at hview
      exact hview
  have hperf := performs_del sys local_node d h.nodes (hnode.symm ▸ h.node) port fun _ => .inr htype
  refine ⟨⟨hperf.nodes, hperf.kept h.node, hperf.induction (fun _ _ hv => hv.deed) h.sound, ?_⟩,
    hreg⟩
  rw [hreg]
  exact h.inv.remove _

theorem Walking.othersCount_le {s : Context Map} (h : Walking local_node i s)
    (hnode : d.sq.sq_node = local_node) (htype : d.type = some .bye) (p : UInt32) (n pos : ℕ) :
    othersCount local_node p (map_for_each.loop (fun s => s.services i)
      (fun s srv => (server_del sys local_node s i srv.port).2) n pos s) ≤
      othersCount local_node p s := by
  refine (map_for_each.loop_induction (P := fun s' => Walking local_node i s' ∧
    othersCount local_node p s' ≤ othersCount local_node p s) ?_ n pos ⟨h, le_rfl⟩).2
  rintro s' srv ⟨hs', hle⟩
  obtain ⟨hwalk, hreg⟩ := hs'.del sys hnode htype srv.port
  refine ⟨hwalk, le_trans ?_ hle⟩
  rw [othersCount, othersCount, hreg]
  exact ((QrtrMap.map_remove_sublist _ _).filter _).length_le

/-- The walk takes out a server of another port, if it still has one to come. -/
theorem Walking.othersCount_lt (hnode : d.sq.sq_node = local_node) (htype : d.type = some .bye)
    (p : UInt32) (n pos : ℕ) {s : Context Map} (h : Walking local_node i s)
    (hn : (s.reg local_node).size ≤ pos + n)
    (hcome : ∃ e ∈ (s.reg local_node).rest pos, e.1 ≠ hash_u32 p) :
    othersCount local_node p (map_for_each.loop (fun s => s.services i)
      (fun s srv => (server_del sys local_node s i srv.port).2) n pos s) <
      othersCount local_node p s := by
  obtain ⟨e, he, hep⟩ := hcome
  induction n generalizing pos s with
  | zero =>
    rw [Map.rest_of_le (by omega)] at he
    exact absurd he List.not_mem_nil
  | succ n ih =>
    have hit := (s.reg local_node).iter_from_rest pos
    rw [map_for_each.loop, Context.services_eq h.node]
    cases hr : MapApi.map_iter_from (s.reg local_node) pos with
    | none =>
      rw [hr] at hit
      simp only at hit
      rw [hit] at he
      exact absurd he List.not_mem_nil
    | some r =>
      rw [hr] at hit
      obtain ⟨hle, k, hrest⟩ := hit
      have hmem : (k, r.2) ∈ (s.reg local_node).entries :=
        ((s.reg local_node).rest_sublist pos).subset (hrest ▸ List.mem_cons_self)
      have hkey : k = hash_u32 r.2.port := (h.sound.keyed local_node _ hmem).1
      obtain ⟨hwalk, hreg⟩ := h.del sys hnode htype r.2.port
      simp only
      by_cases hkp : k = hash_u32 p
      · -- the sender's own server goes, and the other one is still to come
        have hcount : othersCount local_node p (server_del sys local_node s i r.2.port).2 =
            othersCount local_node p s := by
          rw [othersCount, othersCount, hreg, ← hkey, hkp]
          exact congrArg List.length (Map.rest_remove_filter _ _ 0)
        rw [← hcount]
        refine ih (r.1 + 1) hwalk ?_ ?_
        · rw [hreg, QrtrMap.map_remove_size]
          omega
        · rw [hrest] at he
          have htail : e ∈ (s.reg local_node).rest (r.1 + 1) := by
            rcases List.mem_cons.mp he with rfl | he
            · exact absurd hkp hep
            · exact he
          have hfilter : e ∈ ((s.reg local_node).rest (r.1 + 1)).filter (·.1 ≠ hash_u32 p) :=
            List.mem_filter.mpr ⟨htail, by simpa using hep⟩
          rw [← Map.rest_remove_filter, ← hkp, hkey, ← hreg] at hfilter
          exact (List.mem_filter.mp hfilter).1
      · -- this is one, and no later round puts it back
        refine lt_of_le_of_lt (hwalk.othersCount_le hnode htype p n _) ?_
        rw [othersCount, othersCount, hreg, ← hkey]
        exact QrtrMap.map_remove_filter_lt h.inv hkp hmem

/-- The walk of a local BYE. -/
theorem Walking.walk (sys : Sys) {s : Context Map} (h : Walking local_node i s)
    (hnode : d.sq.sq_node = local_node) (htype : d.type = some .bye) (p : UInt32) :
    ∃ s', map_for_each (fun s => s.services i)
        (fun s srv => (server_del sys local_node s i srv.port).2) s = s' ∧ Nodes s' ∧
      othersCount local_node p s' ≤ othersCount local_node p s ∧
      ((∃ e ∈ (s.reg local_node).entries, e.1 ≠ hash_u32 p) →
        othersCount local_node p s' < othersCount local_node p s) := by
  refine ⟨_, rfl, ?_, h.othersCount_le hnode htype p _ 0, fun hcome => ?_⟩
  · refine (map_for_each_induction (P := Walking local_node i) (fun s' srv hs' => ?_) h).nodes
    exact (hs'.del sys hnode htype srv.port).1
  · refine Walking.othersCount_lt hnode htype p _ 0 h ?_ hcome
    simp only [Context.services_eq h.node, Nat.zero_add]
    exact le_rfl

end Walk

/-- How many servers there are on other ports after a BYE. -/
theorem othersCount_bye (sys : Sys) {s : Context Map} (h : Nodes s) (hs : Sound local_node s.view)
    (hinv : Inv (s.reg local_node)) {p : UInt32} {d : Datagram} (hsq : d.sq = ⟨local_node, p⟩)
    (htype : d.type = some .bye) :
    othersCount local_node p (ctrl_cmd_bye sys local_node s d.sq).2 ≤ othersCount local_node p s ∧
      ((∃ e ∈ (s.reg local_node).entries, e.1 ≠ hash_u32 p) →
        othersCount local_node p (ctrl_cmd_bye sys local_node s d.sq).2 <
          othersCount local_node p s) := by
  have hnode : d.sq.sq_node = local_node := by rw [hsq]
  obtain ⟨hget, hi⟩ := h.node_get sys local_node
  have hcount : othersCount local_node p (node_get sys s local_node).2 =
      othersCount local_node p s := by
    rw [othersCount, othersCount, hget.reg.1]
  unfold ctrl_cmd_bye
  rw [hnode]
  simp only
  cases hr : (node_get sys s local_node).1 with
  | none =>
    -- no node and no memory for one: there are no local servers
    rw [hr] at hi
    refine ⟨le_of_eq hcount, ?_⟩
    rintro ⟨e, he, -⟩
    rw [Context.reg, hi.1, Option.map_none, Option.getD_none] at he
    exact absurd he List.not_mem_nil
  | some i =>
    rw [hr] at hi
    have hstart : Walking local_node i (node_get sys s local_node).2 := by
      refine ⟨hget.nodes, hi, ?_, ?_⟩
      · exact (hget.performs_nil local_node d).induction (fun _ _ hv => hv.deed) hs
      · rw [hget.reg.1]
        exact hinv
    obtain ⟨s1, hs1, hnodes1, hle, hlt⟩ := hstart.walk sys hnode htype p
    rw [hcount, hget.reg.1] at hlt
    rw [hcount] at hle
    simp only [hs1]
    -- what follows the walk is sending
    obtain ⟨t, hsend⟩ := hnodes1.advertise_removal sys local_node
      fun _ => ⟨QrtrType.bye.code, local_node, 0, 0, 0⟩
    have hlast : othersCount local_node p (advertise_removal sys local_node s1
        fun _ => ⟨QrtrType.bye.code, local_node, 0, 0, 0⟩).2 = othersCount local_node p s1 := by
      rw [othersCount, othersCount, hsend.reg.1]
    rw [hlast]
    exact ⟨hle, hlt⟩

/-- A BYE leaves the other ports alone exactly if none of them has a server. -/
theorem others_bye {s : Context Map} (h : Nodes s) (hs : Sound local_node s.view)
    (hinv : Inv (s.reg local_node)) {p : UInt32} {d : Datagram} (hsq : d.sq = ⟨local_node, p⟩)
    (htype : d.type = some .bye) :
    (others local_node (ctrl_port_fn sys local_node s d) p).Perm (others local_node s p) ↔
      ¬ Sweeps local_node s d p := by
  have hsound := (ctrl_port_fn_refines sys local_node d h).induction (fun _ _ hv => hv.deed) hs
  obtain ⟨hdispatch, hcode⟩ := ctrl_port_fn_dispatch sys local_node d s htype
  have hbye : ctrl_port_fn sys local_node s d = (ctrl_cmd_bye sys local_node s d.sq).2 := by
    rw [hdispatch, ctrl_port_fn.dispatch, hcode]
  obtain ⟨hle, hlt⟩ := othersCount_bye sys h hs hinv hsq htype
  rw [← hbye] at hle hlt
  have hlength : ∀ s : Context Map, Sound local_node s.view →
      (others local_node s p).length = othersCount local_node p s := by
    intro s hs
    rw [others_eq hs, List.length_map, othersCount]
  constructor
  · rintro hperm ⟨-, srv, hsrv, hport⟩
    rw [records_eq] at hsrv
    obtain ⟨e, he, rfl⟩ := List.mem_map.mp hsrv
    have hkey := (hs.keyed local_node e he).1
    have hless := hlt ⟨e, he, by rw [hkey]; simpa using hport⟩
    have hsame := hperm.length_eq
    rw [hlength s hs, hlength _ hsound] at hsame
    omega
  · intro hno
    -- nobody else is registered, so there are no others before and none after
    have hnone : others local_node s p = [] := by
      refine List.filter_eq_nil_iff.mpr fun srv hsrv => ?_
      simp only [decide_eq_true_eq, not_not]
      by_contra hport
      exact hno ⟨htype, srv, hsrv, hport⟩
    have hzero := hlength s hs
    rw [hnone, List.length_nil] at hzero
    have hnone' : others local_node (ctrl_port_fn sys local_node s d) p = [] := by
      refine List.eq_nil_of_length_eq_zero ?_
      rw [hlength _ hsound]
      omega
    rw [hnone, hnone']

/-- **Local port isolation, and where it ends.** In every state the name server reaches, on the tables
of `map.c`, and for every datagram from the local client `p`: the servers of the other local ports
are the same after it exactly if it is not a BYE while one of them has a server, and not a
registration that makes the table grow while one of them has two records. -/
theorem local_port_isolation (sys : Sys) (local_node : UInt32) (ds : List Datagram) (p : UInt32)
    (data : List UInt8) (stale : Mem) :
    (others local_node (ctrl_port_fn sys local_node (main.run sys local_node ds)
        ⟨⟨local_node, p⟩, data, stale⟩) p).Perm (others local_node (main.run sys local_node ds) p) ↔
      ¬ Sweeps local_node (main.run sys local_node ds) ⟨⟨local_node, p⟩, data, stale⟩ p ∧
        ¬ Collapses sys local_node (main.run sys local_node ds) ⟨⟨local_node, p⟩, data, stale⟩ p := by
  have hnodes : Nodes (main.run sys local_node ds : Context Map) := main_run_nodes sys local_node ds
  have hsound : Sound local_node (main.run sys local_node ds : Context Map).view :=
    main_run_sound sys local_node ds
  have hinv := main_run_inv sys local_node ds local_node
  generalize (main.run sys local_node ds : Context Map) = s at hnodes hsound hinv
  generalize hd : (⟨⟨local_node, p⟩, data, stale⟩ : Datagram) = d
  have hsq : d.sq = ⟨local_node, p⟩ := by rw [← hd]
  by_cases hbye : d.type = some .bye
  · have hno : ¬ Collapses sys local_node s d p := by
      rintro ⟨htype, -⟩
      rw [hbye] at htype
      cases htype
    rw [others_bye hnodes hsound hinv hsq hbye, and_iff_left hno]
  have hno : ¬ Sweeps local_node s d p := fun hsweeps => hbye hsweeps.1
  rw [and_iff_right hno]
  by_cases hnew : d.type = some .new_server
  · exact others_new_server hnodes hsound hinv hsq hnew
  · exact iff_of_true (others_kept hnodes hsound hsq hbye hnew) fun hcollapse => hnew hcollapse.1

/-- On node 1, port 10 registers a server and port 20 sends a BYE: the server is gone. -/
theorem local_bye_sweeps :
    ¬ ∀ (ds : List Datagram) (p : UInt32), p ≠ QRTR_PORT_CTRL → ∀ data stale,
      (others 1 (ctrl_port_fn allWell 1 (main.run allWell 1 ds) ⟨⟨1, p⟩, data, stale⟩) p).Perm
        (others 1 (main.run allWell 1 ds) p) := by
  intro hall
  have h := hall [packet ⟨1, 10⟩ ⟨QrtrType.new_server.code, 5, 6, 1, 10⟩] 20 (by decide)
    (QrtrCtrlPkt.mk QrtrType.bye.code 0 0 0 0).bytes fun _ => 0
  have hbefore : others 1 (main.run allWell 1
      [packet ⟨1, 10⟩ ⟨QrtrType.new_server.code, 5, 6, 1, 10⟩]) 20 = [⟨5, 6, 1, 10⟩] := by
    rw [others, structMap_eq_scanMap]
    decide +kernel
  have hafter : others 1 (ctrl_port_fn allWell 1 (main.run allWell 1
      [packet ⟨1, 10⟩ ⟨QrtrType.new_server.code, 5, 6, 1, 10⟩])
      ⟨⟨1, 20⟩, (QrtrCtrlPkt.mk QrtrType.bye.code 0 0 0 0).bytes, fun _ => 0⟩) 20 = [] := by
    rw [others, structMap_eq_scanMap]
    decide +kernel
  rw [hbefore, hafter] at h
  exact absurd h.length_eq (by decide)

end Ports

end Dragonboard.Ns
