/-
What an observer learns.

A lookup gets a first reply and then a notice whenever a server comes or goes. `replay`
takes the packets that were sent for one lookup, in order, and keeps the set
of servers they leave standing. As long as no record is replaced, that set is the part of the registry
the lookup asked for, in every state and for every lookup that is registered. These packets all go to
the client of the lookup (`Addressed`), so that it is the one that learns this.

A replaced record is where this ends: its observers are told of the new
record and never that the old one is gone.
-/
import Dragonboard.MapLawful
import Dragonboard.NsMachine
import Mathlib.Data.List.Induction
import Mathlib.Data.Set.Insert

set_option autoImplicit false

namespace Dragonboard.Ns

open Dragonboard.Memory Dragonboard.MapApi
open Dragonboard.QrtrMap (Map structMap_eq_scanMap)

/-! ## Replaying notices

A client that has sent a NEW_LOOKUP knows of servers only what it is told. `replay` computes that
from the packets sent to it for this lookup. -/

/-- The server a packet names. -/
def QrtrCtrlPkt.server (pkt : QrtrCtrlPkt) : Server :=
  ⟨pkt.service, pkt.instance_, pkt.node, pkt.port⟩

/-- The packet in the bytes that were sent. -/
def Sent.pkt (p : Sent) : QrtrCtrlPkt := .read (writeAt (fun _ => 0) 0 p.data)

/-- What an observer knows after one more packet. The end marker says nothing. -/
def hear (known : Set Server) (pkt : QrtrCtrlPkt) : Set Server :=
  if pkt = lookup_notify.pkt none true then known
  else
    match QrtrType.ofCode pkt.cmd with
    | some .new_server => insert pkt.server known
    | some .del_server => known \ {pkt.server}
    | _ => known

/-- What is known after the packets sent for one lookup. -/
def replay (log : List Sent) (id : ℕ) : Set Server :=
  ((log.filter (·.lookup = some id)).map Sent.pkt).foldl hear ∅

/-- A lookup asks for a server; zero stands for any service and any instance. -/
def Lookup.Matches (l : Lookup) (srv : Server) : Prop :=
  (l.service = 0 ∨ l.service = srv.service) ∧ (l.instance_ = 0 ∨ l.instance_ = srv.instance_)

theorem Lookup.wants_iff (l : Lookup) (srv : Server) :
    l.wants srv.service srv.instance_ = true ↔ l.Matches srv := by
  simp only [Lookup.wants, Lookup.Matches, Bool.and_eq_true, Bool.not_eq_true',
    decide_eq_false_iff_not, not_and_or, not_not, ne_eq]

theorem replay_append (log o : List Sent) (id : ℕ) :
    replay (log ++ o) id =
      ((o.filter (·.lookup = some id)).map Sent.pkt).foldl hear (replay log id) := by
  rw [replay, List.filter_append, List.map_append, List.foldl_append, ← replay]

/-- Packets that were sent for others are not heard. -/
theorem replay_append_of_others {log o : List Sent} {id : ℕ} (h : ∀ p ∈ o, p.lookup ≠ some id) :
    replay (log ++ o) id = replay log id := by
  have hnone : o.filter (·.lookup = some id) = [] :=
    List.filter_eq_nil_iff.mpr fun p hp => by simpa using h p hp
  rw [replay_append, hnone]
  rfl

theorem Sent.pkt_bytes (dest : SockaddrQrtr) (pkt : QrtrCtrlPkt) (lookup : Option ℕ) :
    Sent.pkt ⟨dest, pkt.bytes, lookup⟩ = pkt :=
  QrtrCtrlPkt.read_of_holds (holds_writeAt _ _ _)

theorem hear_endMarker (known : Set Server) :
    hear known (lookup_notify.pkt none true) = known := if_pos rfl

/-- A record is not the end marker: its service is not zero. -/
theorem Server.pkt_ne_endMarker {srv : Server} (h : srv.service ≠ 0) (type : QrtrType) :
    srv.pkt type ≠ lookup_notify.pkt none true := by
  intro heq
  exact h (congrArg QrtrCtrlPkt.service heq)

theorem hear_new {srv : Server} (h : srv.service ≠ 0) (known : Set Server) :
    hear known (srv.pkt .new_server) = insert srv known := by
  rw [hear, if_neg (srv.pkt_ne_endMarker h _), Server.pkt, QrtrType.ofCode_code]
  rfl

theorem hear_del {srv : Server} (h : srv.service ≠ 0) (known : Set Server) :
    hear known (srv.pkt .del_server) = known \ {srv} := by
  rw [hear, if_neg (srv.pkt_ne_endMarker h _), Server.pkt, QrtrType.ofCode_code]
  rfl

/-! ## The notices of one lookup

The notification loops go over all lookups; of what they send, one lookup hears at most one packet
for each change of the registry. -/

/-- A lookup gets one notice of a server it asked for, and none of another. -/
theorem notices_filter (type : QrtrType) {ls : List Lookup} (hids : (ls.map Lookup.id).Nodup)
    {l : Lookup} (hl : l ∈ ls) (srv : Server) :
    (notices type ls srv).filter (·.lookup = some l.id) =
      if l.wants srv.service srv.instance_ then [⟨l.sq, (srv.pkt type).bytes, some l.id⟩]
      else [] := by
  induction ls with
  | nil => exact absurd hl List.not_mem_nil
  | cons a ls ih =>
    rw [List.map_cons, List.nodup_cons] at hids
    rw [notices, List.flatMap_cons, List.filter_append, ← notices]
    rcases List.mem_cons.mp hl with rfl | hl
    · -- this is the lookup, and the others have other numbers
      have hrest : (notices type ls srv).filter (·.lookup = some l.id) = [] := by
        refine List.filter_eq_nil_iff.mpr fun p hp => ?_
        obtain ⟨l', hl', rfl⟩ := mem_notices hp
        simp only [Option.some.injEq, decide_eq_true_eq]
        intro heq
        exact hids.1 (heq ▸ List.mem_map.mpr ⟨l', hl', rfl⟩)
      rw [hrest, List.append_nil]
      split
      · simp
      · rfl
    · have hne : a.id ≠ l.id := by
        intro heq
        exact hids.1 (heq ▸ List.mem_map.mpr ⟨l, hl, rfl⟩)
      rw [ih hids.2 hl]
      split
      · simp [hne]
      · rfl

theorem news_filter (type : QrtrType) (local_node : UInt32) {ls : List Lookup}
    (hids : (ls.map Lookup.id).Nodup) {l : Lookup} (hl : l ∈ ls) (srv : Server) :
    (news type local_node ls srv).filter (·.lookup = some l.id) =
      if l.wants srv.service srv.instance_ then [⟨l.sq, (srv.pkt type).bytes, some l.id⟩]
      else [] := by
  rw [news, List.filter_append, notices_filter type hids hl]
  split
  · simp
  · rfl

/-! ## The registry

The records of all nodes together. As long as no record is replaced, a NEW_SERVER adds one to them
and a DEL_SERVER takes one out. -/

section Registry

variable {M : Type → Type} [StructMap M] [LawfulMap M] {sys : Sys} {local_node : UInt32}

open LawfulMap

/-- The records of all nodes. -/
def registry (reg : UInt32 → M Server) : Set Server := { srv | ∃ x, srv ∈ records (reg x) }

/-- A view in which no record was ever replaced, and the numbers of all lookups lie in the past. -/
structure Calm (local_node : UInt32) (v : View M) : Prop where
  sound : Sound local_node v
  good : ∀ x, Good (v.reg x)
  tags : ∀ p ∈ v.sent, ∀ id, p.lookup = some id → id < v.time

/-- In such a view a record is found under its node and port. -/
theorem Calm.mem_registry {v : View M} (h : Calm local_node v) (srv : Server) :
    srv ∈ registry v.reg ↔ map_get (v.reg srv.node) (hash_u32 srv.port) = some srv := by
  constructor
  · rintro ⟨x, hx⟩
    rw [records_eq] at hx
    obtain ⟨⟨key, r⟩, hmem, rfl⟩ := List.mem_map.mp hx
    obtain ⟨hkey, hnode, -⟩ := h.sound.keyed x _ hmem
    simp only at hkey hnode ⊢
    rw [hnode, ← hkey]
    exact (mem_items (h.good x)).mp hmem
  · intro hget
    refine ⟨srv.node, ?_⟩
    rw [records_eq]
    exact List.mem_map.mpr ⟨_, mem_of_get hget, rfl⟩

/-- The record that is removed is the one that leaves the registry. -/
theorem Calm.registry_del {v w : View M} (h : Calm local_node v) (hw : Calm local_node w)
    {x port : UInt32} {srv : Server} (hsrv : map_get (v.reg x) (hash_u32 port) = some srv)
    (hreg : w.reg = Function.update v.reg x (map_remove (v.reg x) (hash_u32 port)).1) :
    registry w.reg = registry v.reg \ {srv} := by
  obtain ⟨hkey, hnode, -⟩ := h.sound.keyed x _ (mem_of_get hsrv)
  have hport : port = srv.port := hash_u32_injective hkey
  simp only at hnode
  ext r
  rw [hw.mem_registry, hreg, Set.mem_sdiff, Set.mem_singleton_iff, h.mem_registry]
  by_cases hx : r.node = x
  · rw [hx, Function.update_self, map_get_remove (h.good x)]
    by_cases hp : r.port = port
    · -- the only record there is the one removed
      rw [if_pos (by rw [hp]), hp, hsrv]
      constructor
      · intro hnone
        cases hnone
      · rintro ⟨hsame, hne⟩
        exact absurd (Option.some.inj hsame).symm hne
    · rw [if_neg (by simpa using hp)]
      refine ⟨fun hr => ⟨hr, ?_⟩, fun hr => hr.1⟩
      rintro rfl
      exact hp hport.symm
  · rw [Function.update_of_ne hx]
    refine ⟨fun hr => ⟨hr, ?_⟩, fun hr => hr.1⟩
    rintro rfl
    exact hx hnode

/-- A record that is put where none was joins the registry. -/
theorem Calm.registry_add {v w : View M} (h : Calm local_node v) (hw : Calm local_node w)
    {srv : Server} {calloc : ℕ → Bool} {old : Option Server}
    (hfresh : map_get (v.reg srv.node) (hash_u32 srv.port) = none)
    (hput : (map_reput calloc (v.reg srv.node) (hash_u32 srv.port) srv).2 = .ok old)
    (hreg : w.reg = Function.update v.reg srv.node
      (map_reput calloc (v.reg srv.node) (hash_u32 srv.port) srv).1) :
    registry w.reg = insert srv (registry v.reg) := by
  ext r
  rw [hw.mem_registry, hreg, Set.mem_insert_iff, h.mem_registry]
  by_cases hx : r.node = srv.node
  · rw [hx, Function.update_self, map_get_reput_fresh (h.good _) hfresh hput]
    by_cases hp : r.port = srv.port
    · rw [if_pos (by rw [hp]), hp, hfresh]
      simp [eq_comm]
    · rw [if_neg (by simpa using hp)]
      refine ⟨.inr, fun hr => hr.resolve_left ?_⟩
      rintro rfl
      exact hp rfl
  · rw [Function.update_of_ne hx]
    refine ⟨.inr, fun hr => hr.resolve_left ?_⟩
    rintro rfl
    exact hx rfl

/-! ## Agreement

The invariant that is carried along a run: for each lookup, the replayed notices are the records
it asks for. Every deed keeps it, and a registration does so because the port had no record
before. -/

/-- What a lookup has heard is what it asked for. -/
def Agrees (v : View M) (l : Lookup) : Prop :=
  replay v.sent l.id = { srv | srv ∈ registry v.reg ∧ l.Matches srv }

/-- What was sent for a lookup was sent to its client. -/
def Addressed (v : View M) (l : Lookup) : Prop :=
  ∀ p ∈ v.sent, p.lookup = some l.id → p.dest = l.sq

/-- The invariant: every lookup agrees, and its packets went to its client. -/
structure Watched (local_node : UInt32) (v : View M) : Prop extends Calm local_node v where
  agrees : ∀ l ∈ v.lookups, Agrees v l
  addressed : ∀ l ∈ v.lookups, Addressed v l

omit [StructMap M] [LawfulMap M] in
/-- News for a lookup go to its client: no other lookup has its number. -/
theorem Addressed.news {v w : View M} {l : Lookup} (h : Addressed v l)
    (hids : (v.lookups.map Lookup.id).Nodup) (hl : l ∈ v.lookups) {type : QrtrType} {srv : Server}
    {o : List Sent} (ho : Took sys o (news type local_node v.lookups srv))
    (hsent : w.sent = v.sent ++ o) : Addressed w l := by
  intro p hp hid
  rw [hsent] at hp
  rcases List.mem_append.mp hp with hp | hp
  · exact h p hp hid
  · rcases List.mem_append.mp (ho.sublist.subset hp) with hp | hp
    · split at hp
      · rw [List.mem_singleton.mp hp] at hid
        cases hid
      · exact absurd hp List.not_mem_nil
    · obtain ⟨l', hl', rfl⟩ := mem_notices hp
      rw [List.inj_on_of_nodup_map hids hl' hl (Option.some.inj hid)]

theorem Calm.news_tags {v : View M} (h : Calm local_node v) {type : QrtrType} {srv : Server}
    {o : List Sent} (ho : Took sys o (news type local_node v.lookups srv)) {t : ℕ}
    (ht : v.time ≤ t) : ∀ p ∈ v.sent ++ o, ∀ id, p.lookup = some id → id < t := by
  intro p hp id hid
  rcases List.mem_append.mp hp with hp | hp
  · exact lt_of_lt_of_le (h.tags p hp id hid) ht
  · rcases List.mem_append.mp (ho.sublist.subset hp) with hp | hp
    · -- the broadcast is for nobody in particular
      split at hp
      · rw [List.mem_singleton.mp hp] at hid
        cases hid
      · exact absurd hp List.not_mem_nil
    · obtain ⟨l, hl, rfl⟩ := mem_notices hp
      cases hid
      exact lt_of_lt_of_le (h.sound.older l hl) ht

/-- The news of a record that has gone, as one lookup hears it. -/
theorem Watched.agrees_del {v w : View M} (h : Watched local_node v) (hw : Calm local_node w)
    (hsends : sys.Delivers) {x port : UInt32} {srv : Server} {o : List Sent}
    (hsrv : map_get (v.reg x) (hash_u32 port) = some srv)
    (ho : Took sys o (news .del_server local_node v.lookups srv))
    (hreg : w.reg = Function.update v.reg x (map_remove (v.reg x) (hash_u32 port)).1)
    (hsent : w.sent = v.sent ++ o) {l : Lookup} (hl : l ∈ v.lookups) : Agrees w l := by
  have hservice : srv.service ≠ 0 := (h.sound.keyed x _ (mem_of_get hsrv)).2.2.1
  rw [Agrees, hsent, replay_append, ho.all hsends, news_filter _ _ h.sound.ids hl,
    h.toCalm.registry_del hw hsrv hreg, h.agrees l hl]
  by_cases hwants : l.wants srv.service srv.instance_ = true
  · rw [if_pos hwants, List.map_cons, List.map_nil, Sent.pkt_bytes, List.foldl_cons, List.foldl_nil,
      hear_del hservice]
    ext r
    simp only [Set.mem_sdiff, Set.mem_ofPred_eq, Set.mem_singleton_iff]
    tauto
  · rw [if_neg hwants]
    ext r
    simp only [List.map_nil, List.foldl_nil, Set.mem_sdiff, Set.mem_ofPred_eq,
      Set.mem_singleton_iff]
    rw [Lookup.wants_iff] at hwants
    constructor
    · rintro ⟨hr, hmatch⟩
      refine ⟨⟨hr, ?_⟩, hmatch⟩
      rintro rfl
      exact hwants hmatch
    · rintro ⟨⟨hr, -⟩, hmatch⟩
      exact ⟨hr, hmatch⟩

/-- The news of a record that has come. -/
theorem Watched.agrees_add {v w : View M} (h : Watched local_node v) (hw : Calm local_node w)
    (hsends : sys.Delivers) {srv : Server} {calloc : ℕ → Bool} {old : Option Server} {o : List Sent}
    (hservice : srv.service ≠ 0) (hfresh : map_get (v.reg srv.node) (hash_u32 srv.port) = none)
    (hput : (map_reput calloc (v.reg srv.node) (hash_u32 srv.port) srv).2 = .ok old)
    (ho : Took sys o (news .new_server local_node v.lookups srv))
    (hreg : w.reg = Function.update v.reg srv.node
      (map_reput calloc (v.reg srv.node) (hash_u32 srv.port) srv).1)
    (hsent : w.sent = v.sent ++ o) {l : Lookup} (hl : l ∈ v.lookups) : Agrees w l := by
  rw [Agrees, hsent, replay_append, ho.all hsends, news_filter _ _ h.sound.ids hl,
    h.toCalm.registry_add hw hfresh hput hreg, h.agrees l hl]
  -- a lookup that wants the record is told of it once; for the others nothing has changed
  by_cases hwants : l.wants srv.service srv.instance_ = true
  · rw [if_pos hwants, List.map_cons, List.map_nil, Sent.pkt_bytes, List.foldl_cons, List.foldl_nil,
      hear_new hservice]
    rw [Lookup.wants_iff] at hwants
    ext r
    simp only [Set.mem_insert_iff, Set.mem_ofPred_eq]
    constructor
    · rintro (rfl | ⟨hr, hmatch⟩)
      · exact ⟨.inl rfl, hwants⟩
      · exact ⟨.inr hr, hmatch⟩
    · rintro ⟨rfl | hr, hmatch⟩
      · exact .inl rfl
      · exact .inr ⟨hr, hmatch⟩
  · rw [if_neg hwants]
    rw [Lookup.wants_iff] at hwants
    ext r
    simp only [List.map_nil, List.foldl_nil, Set.mem_insert_iff, Set.mem_ofPred_eq]
    constructor
    · rintro ⟨hr, hmatch⟩
      exact ⟨.inr hr, hmatch⟩
    · rintro ⟨rfl | hr, hmatch⟩
      · exact absurd hmatch hwants
      · exact ⟨hr, hmatch⟩

omit [StructMap M] [LawfulMap M] in
/-- Packets for others leave it as it is. -/
theorem Addressed.others {v w : View M} {l : Lookup} (h : Addressed v l) {o : List Sent}
    (ho : ∀ p ∈ o, p.lookup ≠ some l.id) (hsent : w.sent = v.sent ++ o) : Addressed w l := by
  intro p hp hid
  rw [hsent] at hp
  rcases List.mem_append.mp hp with hp | hp
  · exact h p hp hid
  · exact absurd hid (ho p hp)

theorem replies_dest {l : Lookup} {found : List Server} {p : Sent} (hp : p ∈ replies l found) :
    p.dest = l.sq := by
  rcases List.mem_append.mp hp with hp | hp
  · obtain ⟨srv, -, rfl⟩ := List.mem_map.mp hp
    rfl
  · rw [List.mem_singleton.mp hp]

theorem replies_lookup {l : Lookup} {found : List Server} {p : Sent} (hp : p ∈ replies l found) :
    p.lookup = some l.id := by
  rcases List.mem_append.mp hp with hp | hp
  · obtain ⟨srv, -, rfl⟩ := List.mem_map.mp hp
    rfl
  · rw [List.mem_singleton.mp hp]

/-- The first reply, heard by a lookup that has heard nothing before. -/
theorem hear_replies {found : List Server} (hfound : ∀ srv ∈ found, srv.service ≠ 0) (l : Lookup) :
    (((replies l found).filter (·.lookup = some l.id)).map Sent.pkt).foldl hear ∅ =
      { srv | srv ∈ found } := by
  have hall : (replies l found).filter (·.lookup = some l.id) = replies l found := by
    refine List.filter_eq_self.mpr fun p hp => ?_
    rw [decide_eq_true_eq]
    exact replies_lookup hp
  have hfold : ∀ (fs : List Server) (known : Set Server), (∀ srv ∈ fs, srv.service ≠ 0) →
      (fs.map fun srv => srv.pkt .new_server).foldl hear known = known ∪ { srv | srv ∈ fs } := by
    intro fs
    induction fs with
    | nil => simp
    | cons srv fs ih =>
      intro known hfs
      rw [List.map_cons, List.foldl_cons, hear_new (hfs srv List.mem_cons_self),
        ih _ fun r hr => hfs r (List.mem_cons_of_mem _ hr)]
      ext r
      simp only [Set.mem_union, Set.mem_insert_iff, Set.mem_ofPred_eq, List.mem_cons]
      tauto
  have hpkts : (replies l found).map Sent.pkt =
      (found.map fun srv => srv.pkt .new_server) ++ [lookup_notify.pkt none true] := by
    rw [replies, List.map_append, List.map_map, List.map_cons, List.map_nil, endMarker,
      Sent.pkt_bytes]
    refine congrArg (· ++ _) (List.map_congr_left fun srv _ => ?_)
    exact Sent.pkt_bytes _ _ _
  rw [hall, hpkts, List.foldl_append, List.foldl_cons, List.foldl_nil, hear_endMarker,
    hfold found ∅ hfound, Set.empty_union]

/-- A lookup that is made now has heard nothing yet: its number is the time, and all numbers in use
are below that. -/
theorem Calm.replay_fresh {v : View M} (h : Calm local_node v) : replay v.sent v.time = ∅ := by
  have hnone : v.sent.filter (·.lookup = some v.time) = [] := by
    refine List.filter_eq_nil_iff.mpr fun p hp => ?_
    simp only [decide_eq_true_eq]
    intro hid
    exact absurd (h.tags p hp _ hid) (lt_irrefl _)
  rw [replay, hnone]
  rfl

/-- Every deed but a registration keeps the lookups in agreement. -/
theorem Watched.deed {d : Datagram} {v v' : View M} (h : Watched local_node v)
    (hsends : sys.Delivers) (hd : Deed sys local_node d v v') (hnew : d.type ≠ some .new_server) :
    Watched local_node v' := by
  have hsound := h.sound.deed hd
  cases hd with
  | @send out o t hout ho ht =>
    -- a packet for no lookup
    have hnone : ∀ p ∈ o, p.lookup = none := fun p hp => (hout p (ho.sublist.subset hp)).1
    refine ⟨⟨hsound, h.good, fun p hp id hid => ?_⟩, fun l hl => ?_, fun l hl => ?_⟩
    · rcases List.mem_append.mp hp with hp | hp
      · exact lt_of_lt_of_le (h.tags p hp id hid) ht
      · rw [hnone p hp] at hid
        cases hid
    · rw [Agrees, replay_append_of_others fun p hp => by rw [hnone p hp]; simp]
      exact h.agrees l hl
    · exact (h.addressed l hl).others (fun p hp => by rw [hnone p hp]; simp) rfl
  | @del port srv o t hsrv hport ho ht =>
    have hcalm : Calm local_node (⟨Function.update v.reg d.sq.sq_node
        (map_remove (v.reg d.sq.sq_node) (hash_u32 port)).1, v.lookups, v.sent ++ o, t⟩ :
        View M) := by
      refine ⟨hsound, fun x => ?_, h.news_tags ho ht⟩
      by_cases hx : x = d.sq.sq_node
      · subst hx
        simp only [Function.update_self]
        exact good_remove (h.good _) _
      · simp only [Function.update_of_ne hx]
        exact h.good x
    exact ⟨hcalm, fun l hl => h.agrees_del hcalm hsends hsrv ho rfl rfl hl,
      fun l hl => (h.addressed l hl).news h.sound.ids hl ho rfl⟩
  | add htype => exact absurd htype hnew
  | @lookup service instance_ found o t hlocal hfound ho ht =>
    -- an older lookup hears nothing of the reply
    have hothers : ∀ l ∈ v.lookups, ∀ p ∈ o, p.lookup ≠ some l.id := by
      intro l hl p hp
      rw [replies_lookup (ho.sublist.subset hp)]
      simpa using Nat.ne_of_gt (h.sound.older l hl)
    refine ⟨⟨hsound, h.good, fun p hp id hid => ?_⟩, fun l hl => ?_, fun l hl => ?_⟩
    · rcases List.mem_append.mp hp with hp | hp
      · exact lt_trans (h.tags p hp id hid) ht
      · rw [replies_lookup (ho.sublist.subset hp)] at hid
        cases hid
        exact ht
    · rcases List.mem_append.mp hl with hl | hl
      · rw [Agrees, replay_append_of_others (hothers l hl)]
        exact h.agrees l hl
      · -- the new one has heard nothing else
        obtain rfl := List.mem_singleton.mp hl
        have hservice : ∀ srv ∈ found, srv.service ≠ 0 := by
          intro srv hsrv
          obtain ⟨-, x, hx⟩ := (hfound srv).mp hsrv
          rw [records_eq] at hx
          obtain ⟨e, he, rfl⟩ := List.mem_map.mp hx
          exact (h.sound.keyed x e he).2.2.1
        rw [Agrees, replay_append, ho.all hsends, h.toCalm.replay_fresh, hear_replies hservice]
        ext srv
        rw [Set.mem_ofPred_eq, hfound, Lookup.wants_iff, and_comm]
        rfl
    · rcases List.mem_append.mp hl with hl | hl
      · exact (h.addressed l hl).others (hothers l hl) rfl
      · obtain rfl := List.mem_singleton.mp hl
        intro p hp hid
        rcases List.mem_append.mp hp with hp | hp
        · exact absurd (h.tags p hp _ hid) (lt_irrefl _)
        · exact replies_dest (ho.sublist.subset hp)
  | forget hkeep =>
    exact ⟨⟨hsound, h.good, h.tags⟩, fun l hl => h.agrees l (List.mem_filter.mp hl).1,
      fun l hl => h.addressed l (List.mem_filter.mp hl).1⟩

/-- A registration of a port that has no record does too. -/
theorem Watched.add {d : Datagram} {v v' : View M} (h : Watched local_node v)
    (hsends : sys.Delivers) {srv : Server} {u : ℕ} {old : Option Server} {o : List Sent} {t : ℕ}
    (hfresh : map_get (v.reg srv.node) (hash_u32 srv.port) = none)
    (hservice : srv.service ≠ 0)
    (hput : (map_reput (sys.calloc u) (v.reg srv.node) (hash_u32 srv.port) srv).2 = .ok old)
    (ho : Took sys o (news .new_server local_node v.lookups srv)) (ht : v.time ≤ t)
    (hd : Deed sys local_node d v v')
    (hv' : v' = ⟨Function.update v.reg srv.node
      (map_reput (sys.calloc u) (v.reg srv.node) (hash_u32 srv.port) srv).1, v.lookups,
      v.sent ++ o, t⟩) : Watched local_node v' := by
  have hsound := h.sound.deed hd
  subst hv'
  have hcalm : Calm local_node (⟨Function.update v.reg srv.node
      (map_reput (sys.calloc u) (v.reg srv.node) (hash_u32 srv.port) srv).1, v.lookups,
      v.sent ++ o, t⟩ : View M) := by
    refine ⟨hsound, fun x => ?_, h.news_tags ho ht⟩
    by_cases hx : x = srv.node
    · subst hx
      simp only [Function.update_self]
      exact (reput_fresh (h.good _) hfresh hput).1
    · simp only [Function.update_of_ne hx]
      exact h.good x
  exact ⟨hcalm, fun l hl => h.agrees_add hcalm hsends hservice hfresh hput ho rfl rfl hl,
    fun l hl => (h.addressed l hl).news h.sound.ids hl ho rfl⟩

/-! ## Runs without replacements

A packet registers one record at most. The condition on the run is that no such record meets
another one on its port. -/

/-- The record a packet registers. -/
def registers (sys : Sys) (local_node : UInt32) (s : Context M) (d : Datagram) : Option Server :=
  if s.sock ∧ d.type = some .new_server then
    ctrl_cmd_new_server.accepted sys local_node s d.sq d.msg.service d.msg.instance_ d.msg.node
      d.msg.port
  else none

/-- No packet of the run registers a record for a node and port that has one. -/
def NeverReplaces (M : Type → Type) [StructMap M] (sys : Sys) (local_node : UInt32)
    (ds : List Datagram) : Prop :=
  ∀ (i : ℕ) (h : i < ds.length),
    ∀ srv ∈ registers sys local_node (main.run sys local_node (ds.take i) : Context M) ds[i],
      ∀ old ∈ records ((main.run sys local_node (ds.take i) : Context M).reg srv.node),
        old.port ≠ srv.port

instance {M : Type → Type} [StructMap M] (sys : Sys) (local_node : UInt32) (ds : List Datagram) :
    Decidable (NeverReplaces M sys local_node ds) :=
  inferInstanceAs (Decidable (∀ (i : ℕ) (h : i < ds.length),
    ∀ srv ∈ registers sys local_node (main.run sys local_node (ds.take i) : Context M) ds[i],
      ∀ old ∈ records ((main.run sys local_node (ds.take i) : Context M).reg srv.node),
        old.port ≠ srv.port))

omit [LawfulMap M] in
theorem registers_some {s : Context M} {d : Datagram} {srv : Server}
    (h : registers sys local_node s d = some srv) : s.sock = true ∧ d.type = some .new_server := by
  unfold registers at h
  split at h
  · assumption
  · cases h

/-- A NEW_SERVER puts the record it registers and tells of it, and does nothing else. -/
theorem Nodes.registers (sys : Sys) (local_node : UInt32) {s : Context M} (hnodes : Nodes s)
    {d : Datagram} (hsock : s.sock = true) (htype : d.type = some .new_server) :
    match Ns.registers sys local_node s d with
    | none => Sends sys s (main.step sys local_node s d) []
    | some srv => srv = claimed local_node d.sq d.msg.service d.msg.instance_ d.msg.port ∧
        srv.service ≠ 0 ∧ srv.port ≠ 0 ∧
        ∃ u old o t, (map_reput (sys.calloc u) (s.reg srv.node) (hash_u32 srv.port) srv).2 = .ok old ∧
          Took sys o (news .new_server local_node s.lookups srv) ∧ s.time ≤ t ∧
          Becomes s (main.step sys local_node s d)
            ⟨Function.update s.reg srv.node
                (map_reput (sys.calloc u) (s.reg srv.node) (hash_u32 srv.port) srv).1,
              s.lookups, s.sent ++ o, t⟩ := by
  obtain ⟨hdispatch, hcode⟩ := ctrl_port_fn_dispatch sys local_node d s htype
  have hacc : Ns.registers sys local_node s d = ctrl_cmd_new_server.accepted sys local_node s d.sq
      d.msg.service d.msg.instance_ d.msg.node d.msg.port := if_pos ⟨hsock, htype⟩
  rw [main.step, if_pos hsock, hdispatch, ctrl_port_fn.dispatch, hcode, hacc]
  have hreg := hnodes.ctrl_cmd_new_server sys local_node d.sq d.msg.service d.msg.instance_
    d.msg.node d.msg.port
  generalize ctrl_cmd_new_server.accepted sys local_node s d.sq d.msg.service d.msg.instance_
    d.msg.node d.msg.port = r at hreg
  cases r with
  | none => exact hreg.1
  | some srv => exact hreg

/-- A round of the main loop. -/
theorem Watched.step {s : Context M} (hnodes : Nodes s) (h : Watched local_node s.view)
    (hsends : sys.Delivers) (d : Datagram)
    (hfresh : ∀ srv, registers sys local_node s d = some srv →
      ∀ old ∈ records (s.reg srv.node), old.port ≠ srv.port) :
    Watched local_node (main.step sys local_node s d).view := by
  by_cases hnew : s.sock = true ∧ d.type = some .new_server
  · -- a registration is one deed, or nothing
    obtain ⟨hsock, htype⟩ := hnew
    have hreg := hnodes.registers sys local_node hsock htype
    cases hr : registers sys local_node s d with
    | none =>
      rw [hr] at hreg
      obtain ⟨o, t, ho, ht, hb⟩ := hreg
      obtain rfl : o = [] := List.sublist_nil.mp ho.sublist
      rw [hb.view, List.append_nil]
      exact ⟨⟨h.sound.later _ ht, h.good,
        fun p hp id hid => lt_of_lt_of_le (h.tags p hp id hid) ht⟩, h.agrees, h.addressed⟩
    | some srv =>
      rw [hr] at hreg
      obtain ⟨hsrv, hservice, hport, u, old, o, t, hput, ho, ht, hb⟩ := hreg
      have habsent : map_get (s.reg srv.node) (hash_u32 srv.port) = none := by
        by_contra hsome
        obtain ⟨r, hr'⟩ := Option.ne_none_iff_exists'.mp hsome
        have hmem := mem_of_get hr'
        have hkey := (h.sound.keyed srv.node _ hmem).1
        refine hfresh srv hr r ?_ (hash_u32_injective hkey).symm
        rw [records_eq]
        exact List.mem_map.mpr ⟨_, hmem, rfl⟩
      rw [hb.view]
      exact h.add hsends habsent hservice hput ho ht (d := d)
        (.add htype hsrv hservice hport hput ho ht) rfl
  · by_cases hsock : s.sock = true
    · have htype : d.type ≠ some .new_server := fun htype => hnew ⟨hsock, htype⟩
      exact (main_step_refines sys local_node hnodes d).induction
        (fun v v' hv hdeed => hv.deed hsends hdeed htype) h
    · rw [main.step, if_neg hsock]
      exact h

omit [LawfulMap M] in
theorem main_run_append (sys : Sys) (local_node : UInt32) (pre post : List Datagram) :
    (main.run sys local_node (pre ++ post) : Context M) =
      post.foldl (main.step sys local_node) (main.run sys local_node pre) := by
  rw [main.run, List.foldl_append, main.run]

/-- Every lookup agrees, in every state of a run without replacements. -/
theorem main_run_watched (hsends : sys.Delivers) (ds : List Datagram)
    (hrun : NeverReplaces M sys local_node ds) :
    Watched local_node (main.run sys local_node ds : Context M).view := by
  induction ds using List.reverseRecOn with
  | nil =>
    obtain ⟨-, o, t, hout, hview⟩ := main_start (M := M) sys
    rw [main.run, List.foldl_nil, hview]
    refine ⟨⟨.start o t, fun x => good_create, fun p hp id hid => ?_⟩, ?_, ?_⟩
    · rw [(hout p hp).2] at hid
      cases hid
    · exact fun l hl => absurd hl List.not_mem_nil
    · exact fun l hl => absurd hl List.not_mem_nil
  | append_singleton pre d ih =>
    have hpre : NeverReplaces M sys local_node pre := by
      intro i hi
      have hround := hrun i (by rw [List.length_append]; omega)
      rwa [List.take_append_of_le_length hi.le, List.getElem_append_left hi] at hround
    have hlast := hrun pre.length (by simp)
    rw [List.take_left, List.getElem_concat_length rfl] at hlast
    rw [main_run_append, List.foldl_cons, List.foldl_nil]
    exact (ih hpre).step (main_run_nodes sys local_node pre) hsends d hlast

/-! ## Lookups stay

A lookup disappears only on the packets that are meant to remove it. -/

/-- A lookup goes only on a DEL_LOOKUP or a DEL_CLIENT of its client. -/
theorem lookup_kept {l : Lookup} {d : Datagram}
    (hquiet : d.sq = l.sq → d.type ≠ some .del_lookup ∧ d.type ≠ some .del_client)
    {v v' : View M} (hsound : Sound local_node v) (hd : Deed sys local_node d v v')
    (hl : l ∈ v.lookups) : l ∈ v'.lookups := by
  cases hd with
  | send | del | add => exact hl
  | lookup => exact List.mem_append_left _ hl
  | @forget keep hkeep =>
    refine List.mem_filter.mpr ⟨hl, ?_⟩
    by_contra hgone
    obtain ⟨htype, howner⟩ := hkeep l (Bool.eq_false_iff.mpr hgone)
    -- the client is local, so no other node can speak for it
    have hsq : d.sq = l.sq := by
      rcases howner with hsq | ⟨hnode, hremote⟩
      · exact hsq.symm
      · exact absurd (hnode.symm.trans (hsound.observers l hl)) hremote
    obtain ⟨hlookup, hclient⟩ := hquiet hsq
    exact htype.elim hlookup hclient

theorem main_run_lookup_kept {l : Lookup} (pre post : List Datagram)
    (hl : l ∈ (main.run sys local_node pre : Context M).lookups)
    (hquiet : ∀ e ∈ post, e.sq = l.sq →
      e.type ≠ some .del_lookup ∧ e.type ≠ some .del_client) :
    l ∈ (main.run sys local_node (pre ++ post) : Context M).lookups := by
  induction post using List.reverseRecOn with
  | nil => rwa [List.append_nil]
  | append_singleton post e ih =>
    have hmem := ih fun e' he' => hquiet e' (List.mem_append_left _ he')
    have hstep := main_step_refines sys local_node
      (main_run_nodes (M := M) sys local_node (pre ++ post)) e
    have hboth : Sound local_node (main.run sys local_node (pre ++ post ++ [e]) : Context M).view ∧
        l ∈ (main.run sys local_node (pre ++ post ++ [e]) : Context M).view.lookups := by
      rw [main_run_append sys local_node (pre ++ post), List.foldl_cons, List.foldl_nil]
      refine hstep.induction (P := fun v => Sound local_node v ∧ l ∈ v.lookups) ?_
        ⟨main_run_sound sys local_node _, hmem⟩
      rintro v v' ⟨hv, hlv⟩ hdeed
      exact ⟨hv.deed hdeed, lookup_kept (hquiet e (by simp)) hv hdeed hlv⟩
    rw [← List.append_assoc]
    exact hboth.2

end Registry

/-- **Observer agreement.** In every run on which sends succeed and no record is replaced, for every
lookup `l` that a local client has registered by the end of `pre`, and if that client sends no
DEL_LOOKUP and no DEL_CLIENT in `post`: the packets sent for `l` have all gone to its client, and
replay to exactly the records of the registry that `l` asks for. -/
theorem observer_agreement (sys : Sys) (hsends : sys.Delivers) (local_node : UInt32)
    (pre post : List Datagram) (hrun : NeverReplaces Map sys local_node (pre ++ post)) (l : Lookup)
    (hl : l ∈ (main.run sys local_node pre : Context Map).lookups)
    (hquiet : ∀ e ∈ post, e.sq = l.sq →
      e.type ≠ some .del_lookup ∧ e.type ≠ some .del_client) :
    (∀ p ∈ (main.run sys local_node (pre ++ post) : Context Map).sent,
        p.lookup = some l.id → p.dest = l.sq) ∧
      replay (main.run sys local_node (pre ++ post) : Context Map).sent l.id =
        { srv | srv ∈ registry (main.run sys local_node (pre ++ post) : Context Map).reg ∧
          l.Matches srv } := by
  have hstill := main_run_lookup_kept pre post hl hquiet
  have hwatched := main_run_watched hsends _ hrun
  exact ⟨hwatched.addressed l hstill, hwatched.agrees l hstill⟩

/-- On node 1, port 20 looks for service 5 while port 10 offers it; then port 11 comes to offer it
and port 10 leaves. -/
theorem observer_agreement_two_servers :
    ⟨5, 7, 1, 11⟩ ∈ replay (main.run allWell 1
      ([packet ⟨1, 10⟩ ⟨QrtrType.new_server.code, 5, 6, 1, 10⟩,
        packet ⟨1, 20⟩ ⟨QrtrType.new_lookup.code, 5, 0, 0, 0⟩] ++
      [packet ⟨1, 11⟩ ⟨QrtrType.new_server.code, 5, 7, 1, 11⟩,
        packet ⟨1, 10⟩ ⟨QrtrType.del_server.code, 5, 6, 1, 10⟩]) : Context Map).sent 6 := by
  have hrun : NeverReplaces Map allWell 1
      ([packet ⟨1, 10⟩ ⟨QrtrType.new_server.code, 5, 6, 1, 10⟩,
        packet ⟨1, 20⟩ ⟨QrtrType.new_lookup.code, 5, 0, 0, 0⟩] ++
      [packet ⟨1, 11⟩ ⟨QrtrType.new_server.code, 5, 7, 1, 11⟩,
        packet ⟨1, 10⟩ ⟨QrtrType.del_server.code, 5, 6, 1, 10⟩]) := by
    rw [structMap_eq_scanMap]
    decide +kernel
  have hlookup : ⟨6, 5, 0, ⟨1, 20⟩⟩ ∈ (main.run allWell 1
      [packet ⟨1, 10⟩ ⟨QrtrType.new_server.code, 5, 6, 1, 10⟩,
        packet ⟨1, 20⟩ ⟨QrtrType.new_lookup.code, 5, 0, 0, 0⟩] : Context Map).lookups := by
    rw [structMap_eq_scanMap]
    decide +kernel
  have hagree :=
    (observer_agreement allWell allWell_delivers 1 _ _ hrun _ hlookup (by decide +kernel)).2
  rw [hagree]
  refine ⟨⟨1, ?_⟩, .inr rfl, .inl rfl⟩
  rw [structMap_eq_scanMap]
  decide +kernel

/-! ## A record replaced

`server_add` frees the record that its put has replaced without a word to the lookups. What is
sent is the NEW_SERVER of the new record, and so the condition is that no lookup has asked for the
old one. -/

/-- Every lookup that asks for the old record is sent a DEL_SERVER for it, before there is a NEW_SERVER
for the new one. -/
def RemovalAnnounced (ls : List Lookup) (old new : Server) (o : List Sent) : Prop :=
  ∀ l ∈ ls, l.Matches old → ∃ before after,
    o = before ++ ⟨l.sq, (old.pkt .del_server).bytes, some l.id⟩ :: after ∧
      ∀ p ∈ before, p.data ≠ (new.pkt .new_server).bytes

/-- A NEW_SERVER is not a DEL_SERVER. -/
theorem Server.new_ne_del (srv old : Server) :
    (srv.pkt .new_server).bytes ≠ (old.pkt .del_server).bytes := by
  intro heq
  have hcmd : QrtrType.new_server.code = QrtrType.del_server.code :=
    congrArg QrtrCtrlPkt.cmd (QrtrCtrlPkt.bytes_injective heq)
  exact absurd hcmd (by decide)

/-- **A replacement is not announced.** In every state the name server reaches, on the tables of
`map.c`, and for every packet that registers a record where there is one: the observers of the old
record are told that it is gone exactly if it has none. -/
theorem replacement_announced_iff (sys : Sys) (local_node : UInt32) (ds : List Datagram)
    (d : Datagram) (s s' : Context Map) (hs : s = main.run sys local_node ds)
    (hs' : s' = main.step sys local_node s d) (old new : Server)
    (hnew : registers sys local_node s d = some new)
    (hold : map_get (s.reg new.node) (hash_u32 new.port) = some old)
    (hother : old.service ≠ new.service ∨ old.instance_ ≠ new.instance_) :
    old ∈ registry s.reg ∧ old.node = new.node ∧ old.port = new.port ∧ old ≠ new ∧
      ∃ o, s'.sent = s.sent ++ o ∧
        (RemovalAnnounced s.lookups old new o ↔ ∀ l ∈ s.lookups, ¬ l.Matches old) := by
  have hnodes : Nodes s := hs ▸ main_run_nodes sys local_node ds
  have hsound : Sound local_node s.view := hs ▸ main_run_sound sys local_node ds
  obtain ⟨hport, hnode, -⟩ := hsound.of_get hold
  obtain ⟨hsock, htype⟩ := registers_some hnew
  have hreg := hnodes.registers sys local_node hsock htype
  rw [hnew] at hreg
  obtain ⟨-, -, -, u, prev, o, t, -, ho, -, hb⟩ := hreg
  have hmem : old ∈ registry s.reg := by
    refine ⟨new.node, ?_⟩
    rw [records_eq]
    exact List.mem_map.mpr ⟨_, LawfulMap.mem_of_get hold, rfl⟩
  have hne : old ≠ new := by
    rintro rfl
    rcases hother with h | h
    · exact h rfl
    · exact h rfl
  refine ⟨hmem, hnode, hport, hne, o, ?_, ?_⟩
  · rw [hs']
    exact congrArg View.sent hb.view
  constructor
  · -- all that goes out is news of the new record
    intro hannounced l hl hmatch
    obtain ⟨before, after, hsplit, -⟩ := hannounced l hl hmatch
    have hdel : ⟨l.sq, (old.pkt .del_server).bytes, some l.id⟩ ∈ o := by
      rw [hsplit]
      exact List.mem_append_right _ List.mem_cons_self
    exact new.new_ne_del old (news_data (ho.sublist.subset hdel)).symm
  · intro hnone l hl hmatch
    exact absurd hmatch (hnone l hl)

/-- Port 10 of node 1 offers service 5 while nobody looks for it, and then service 7. -/
theorem replacement_announced_unseen :
    let s : Context Map := main.run allWell 1 [packet ⟨1, 10⟩ ⟨QrtrType.new_server.code, 5, 6, 1, 10⟩]
    ∃ o, (main.step allWell 1 s (packet ⟨1, 10⟩ ⟨QrtrType.new_server.code, 7, 6, 1, 10⟩)).sent =
        s.sent ++ o ∧ RemovalAnnounced s.lookups ⟨5, 6, 1, 10⟩ ⟨7, 6, 1, 10⟩ o := by
  intro s
  have hnew : registers allWell 1 s (packet ⟨1, 10⟩ ⟨QrtrType.new_server.code, 7, 6, 1, 10⟩) =
      some ⟨7, 6, 1, 10⟩ := by
    simp only [s]
    decide +kernel
  have hold : map_get (s.reg 1) (hash_u32 10) = some ⟨5, 6, 1, 10⟩ := by
    simp only [s]
    decide +kernel
  have hnobody : s.lookups = [] := by
    simp only [s]
    decide +kernel
  obtain ⟨-, -, -, -, o, hsent, hiff⟩ := replacement_announced_iff allWell 1 _ _ s _ rfl rfl _ _ hnew
    hold (.inl (by decide))
  refine ⟨o, hsent, hiff.mpr fun l hl => ?_⟩
  rw [hnobody] at hl
  exact absurd hl List.not_mem_nil

/-- Port 20 looks for service 5 and hears of port 10, which then offers service 7 instead. -/
theorem replacement_unannounced :
    ¬ ∀ (ds : List Datagram) (d : Datagram) (s s' : Context Map), s = main.run allWell 1 ds →
      s' = main.step allWell 1 s d → ∀ old new, registers allWell 1 s d = some new →
        map_get (s.reg new.node) (hash_u32 new.port) = some old →
        (old.service ≠ new.service ∨ old.instance_ ≠ new.instance_) →
        ∃ o, s'.sent = s.sent ++ o ∧ RemovalAnnounced s.lookups old new o := by
  intro hall
  obtain ⟨o, hsent, hannounced⟩ := hall
    [packet ⟨1, 20⟩ ⟨QrtrType.new_lookup.code, 5, 0, 0, 0⟩,
      packet ⟨1, 10⟩ ⟨QrtrType.new_server.code, 5, 6, 1, 10⟩]
    (packet ⟨1, 10⟩ ⟨QrtrType.new_server.code, 7, 6, 1, 10⟩) _ _ rfl rfl ⟨5, 6, 1, 10⟩ ⟨7, 6, 1, 10⟩
    (by decide +kernel) (by decide +kernel) (.inl (by decide))
  obtain ⟨before, after, ho, -⟩ := hannounced ⟨1, 5, 0, ⟨1, 20⟩⟩ (by decide +kernel)
    ⟨.inr rfl, .inl rfl⟩
  have hmem : ⟨⟨1, 20⟩, (Server.pkt ⟨5, 6, 1, 10⟩ .del_server).bytes, some 1⟩ ∈
      (main.step allWell 1 (main.run allWell 1
        [packet ⟨1, 20⟩ ⟨QrtrType.new_lookup.code, 5, 0, 0, 0⟩,
          packet ⟨1, 10⟩ ⟨QrtrType.new_server.code, 5, 6, 1, 10⟩] : Context Map)
        (packet ⟨1, 10⟩ ⟨QrtrType.new_server.code, 7, 6, 1, 10⟩)).sent := by
    rw [hsent, ho]
    exact List.mem_append_right _ (List.mem_append_right _ List.mem_cons_self)
  exact absurd hmem (by decide +kernel)

end Dragonboard.Ns
