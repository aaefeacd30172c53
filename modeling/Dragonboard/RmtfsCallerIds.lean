/-
Which id an OPEN returns, and how long it stays that.

A slot is free for `storage_open` if it has neither a descriptor nor a shadow buffer, and that
is not the same as never opened or closed: a write to a slot that was closed, in shadow mode,
gives it a buffer. What holds in every state is less (`Unshared`): a slot that is not in
use has no partition, and no two slots in use have the same node and partition. A slot with a
buffer but without a partition is found by no OPEN and given out by none, so an id
belongs to the node and the path it was returned for until that node closes it.
-/
import Dragonboard.RmtfsHandles

set_option autoImplicit false

namespace Dragonboard.Rmtfs

/-! ## What a request does to the table

Of everything a request does, caller ids depend on three changes only: a slot is taken, a slot is
given back, or a transfer leaves the identity of all slots as it is. -/

/-- The change of the table on a request of a node. -/
inductive Change (node : UInt32) (request : Request) (t t' : Table) : Prop
  | nothing (h : t' = t)
  /-- a free slot put to use, for a partition the node has no slot for -/
  | opened (i : Fin MAX_CALLERS) (part : Partition) (hfree : (t i).inUse = false)
      (hfirst : ∀ j, (t j).inUse = true → (t j).node = node → (t j).partition ≠ some part)
      (huse : (t' i).inUse = true) (hnode : (t' i).node = node)
      (hpart : (t' i).partition = some part) (hid : (t' i).id = (t i).id)
      (hothers : ∀ j, j ≠ i → t' j = t j)
  /-- a slot of the node closed -/
  | closed (i : Fin MAX_CALLERS) (c : UInt32) (hclose : request = .close c) (hc : i.val = c.toNat)
      (hnode : (t i).node = node) (hidle : (t' i).inUse = false)
      (hpart : (t' i).partition = none) (hid : (t' i).id = (t i).id)
      (hothers : ∀ j, j ≠ i → t' j = t j)
  /-- a transfer, which may put a slot to use -/
  | moved (i : Fin MAX_CALLERS) (h : Transfers i t t')

section Changes

variable {W : Type} {sys : Sys W} {cfg : Config}

theorem storage_get_handle {t : Table} {node c : UInt32} {i : Fin MAX_CALLERS}
    (h : storage_get t node c = .handle i) : i.val = c.toNat ∧ (t i).node = node := by
  by_cases hlt : c.toNat < MAX_CALLERS
  · rw [storage_get_of_lt t node hlt] at h
    split at h
    · cases h
    · rename_i hnode
      cases h
      exact ⟨rfl, not_not.mp hnode⟩
  · by_cases hc : c.toNat < 2 ^ 31
    · rw [storage_get_of_ge t node (by omega) hc] at h
      cases h
    · rw [storage_get_negative t node (by omega)] at h
      cases h

/-- **Every request is one of the changes.** -/
theorem handle_change {s s' : Server W} {node : UInt32} {stack : List UInt8} {request : Request}
    {resp : Response} (h : handle sys cfg s node stack request = some (resp, s')) :
    Change node request s.rmtfds s'.rmtfds := by
  cases request with
  | open_ path =>
    rcases handle_open h with ⟨-, hsame, -⟩ | ⟨i, part, -, -, -, ⟨hsame, -⟩ |
      ⟨hfree, hfirst, huse, hnode, hpart, hid, hothers⟩⟩
    · exact .nothing hsame
    · exact .nothing hsame
    · exact .opened i part hfree hfirst huse hnode hpart hid hothers
  | close c =>
    simp only [handle, rmtfs_close] at h
    cases hget : storage_get s.rmtfds node c with
    | outside =>
      -- no answer: the slot is read outside the table
      rw [hget] at h
      cases h
    | null =>
      rw [hget] at h
      cases h
      exact .nothing rfl
    | handle i =>
      rw [hget] at h
      obtain ⟨hc, hnode⟩ := storage_get_handle hget
      cases h
      refine .closed i c rfl hc hnode ?_ ?_ ?_ fun j hj => Function.update_of_ne hj _ _
      · simp [storage_close, Rmtfd.inUse]
      · simp [storage_close]
      · simp [storage_close]
  | rw_iovec c direction iovec =>
    simp only [handle, rmtfs_iovec] at h
    cases hget : storage_get s.rmtfds node c with
    | outside =>
      rw [hget] at h
      cases h
    | null =>
      rw [hget] at h
      cases h
      exact .nothing rfl
    | handle i =>
      rw [hget] at h
      exact .moved i (transfer_transfers h)
  | get_dev_error c =>
    simp only [handle, rmtfs_get_dev_error] at h
    cases hget : storage_get s.rmtfds node c with
    | outside =>
      rw [hget] at h
      cases h
    | null =>
      rw [hget] at h
      cases h
    | handle i =>
      rw [hget] at h
      cases h
      exact .nothing rfl

end Changes

/-! ## The invariant

A node has at most one slot for a partition. `storage_open` searches for it before it takes a free
one, and that is all that keeps the invariant. -/

/-- Slots know their ids, those not in use have no partition, and a node has one slot in use for a
partition at most. -/
structure Unshared (t : Table) : Prop where
  id : ∀ i, (t i).id = i.val
  idle : ∀ i, (t i).inUse = false → (t i).partition = none
  unique : ∀ i j part, (t i).inUse = true → (t j).inUse = true → (t i).node = (t j).node →
    (t i).partition = some part → (t j).partition = some part → i = j

theorem unshared_init (root : Option String) (read_only use_partitions : Bool) :
    Unshared (storage_init root read_only use_partitions).2 :=
  ⟨fun _ => rfl, fun _ _ => rfl, fun i j part huse => by cases huse⟩

/-- A table that differs in one slot is unshared if no other slot has the node and partition of it. -/
theorem Unshared.at {t t' : Table} (h : Unshared t) (i : Fin MAX_CALLERS)
    (hothers : ∀ j, j ≠ i → t' j = t j) (hid : (t' i).id = (t i).id)
    (hidle : (t' i).inUse = false → (t' i).partition = none)
    (hfirst : ∀ j part, j ≠ i → (t' i).inUse = true → (t' i).partition = some part →
      (t j).inUse = true → (t j).node = (t' i).node → (t j).partition ≠ some part) :
    Unshared t' := by
  refine ⟨fun j => ?_, fun j hj => ?_, fun j k part hj hk hnode hpj hpk => ?_⟩
  · by_cases hji : j = i
    · subst hji
      rw [hid, h.id]
    · rw [hothers j hji, h.id]
  · by_cases hji : j = i
    · subst hji
      exact hidle hj
    · rw [hothers j hji] at hj ⊢
      exact h.idle j hj
  · by_cases hji : j = i
    · by_cases hki : k = i
      · rw [hji, hki]
      · subst hji
        rw [hothers k hki] at hk hnode hpk
        exact absurd hpk (hfirst k part hki hj hpj hk hnode.symm)
    · by_cases hki : k = i
      · subst hki
        rw [hothers j hji] at hj hnode hpj
        exact absurd hpj (hfirst j part hji hk hpk hj hnode)
      · rw [hothers j hji] at hj hnode hpj
        rw [hothers k hki] at hk hnode hpk
        exact h.unique j k part hj hk hnode hpj hpk

/-- Every change keeps the invariant. -/
theorem Unshared.change {t t' : Table} (h : Unshared t) {node : UInt32} {request : Request}
    (hc : Change node request t t') : Unshared t' := by
  cases hc with
  | nothing hsame => rwa [hsame]
  | opened i part hfree hfirst huse hnode hpart hid hothers =>
    refine h.at i hothers hid (fun hidle => ?_) fun j part' hj _ hpart' huse' hnode' => ?_
    · rw [huse] at hidle
      cases hidle
    · obtain rfl : part = part' := Option.some.inj (hpart.symm.trans hpart')
      exact hfirst j huse' (hnode'.trans hnode)
  | closed i c hclose hc hnode hidle hpart hid hothers =>
    refine h.at i hothers hid (fun _ => hpart) fun j part' hj huse => ?_
    rw [hidle] at huse
    cases huse
  | moved i htr =>
    -- a slot that was not in use has no partition, before and after
    have hbusy : ∀ part, (t' i).partition = some part → (t i).inUse = true := by
      intro part hpart
      by_contra hidle
      rw [htr.partition, h.idle i (by simpa using hidle)] at hpart
      cases hpart
    refine h.at i htr.others htr.id (fun hidle => ?_) fun j part hj _ hpart huse hnode hpart' => ?_
    · rw [htr.partition]
      by_contra hpart
      obtain ⟨part, hpart⟩ := Option.ne_none_iff_exists'.mp hpart
      rw [htr.inUse (hbusy part (htr.partition.trans hpart))] at hidle
      cases hidle
    · refine hj (h.unique j i part huse (hbusy part hpart) (hnode.trans htr.node) hpart' ?_)
      rw [← htr.partition, hpart]

/-! ## Ids

An id that was replied stays with its node and path until its node closes it, whatever others do.
-/

/-- Slot `i` is in use for a node and a partition. -/
structure Owned (t : Table) (i : Fin MAX_CALLERS) (n : UInt32) (part : Partition) : Prop where
  inUse : (t i).inUse = true
  node : (t i).node = n
  partition : (t i).partition = some part

/-- Only a CLOSE of its node takes a slot away. -/
theorem Owned.change {t t' : Table} {i : Fin MAX_CALLERS} {n : UInt32} {part : Partition}
    (h : Owned t i n part) {node : UInt32} {request : Request} (hc : Change node request t t')
    (hkeep : node = n → ∀ c, request = .close c → c.toNat ≠ i.val) : Owned t' i n part := by
  have hother : t' i = t i → Owned t' i n part := by
    intro hsame
    exact ⟨by rw [hsame, h.inUse], by rw [hsame, h.node], by rw [hsame, h.partition]⟩
  cases hc with
  | nothing hsame => exact hother (by rw [hsame])
  | opened j part' hfree hfirst huse hnode hpart hid hothers =>
    refine hother (hothers i ?_)
    rintro rfl
    rw [h.inUse] at hfree
    cases hfree
  | closed j c hclose hc hnode hidle hpart hid hothers =>
    refine hother (hothers i ?_)
    rintro rfl
    exact hkeep (hnode.symm.trans h.node) c hclose hc.symm
  | moved j htr =>
    by_cases hij : i = j
    · subst hij
      exact ⟨htr.inUse h.inUse, htr.node.trans h.node, htr.partition.trans h.partition⟩
    · exact hother (htr.others i hij)

section Ids

variable {W : Type} (sys : Sys W) (cfg : Config)

/-- An OPEN of a node for a path is answered with an id. -/
def Replies (s : Server W) (n : UInt32) (path : String) (c : ℕ) (s' : Server W) : Prop :=
  ∃ result, ∀ stack, handle sys cfg s n stack (.open_ path) = some (.open_ result (some c), s')

/-- The id `c` is that of a node and a path: its slot is theirs, an OPEN of them returns it, and no
other OPEN does. -/
structure Held (s : Server W) (n : UInt32) (path : String) (c : ℕ) : Prop where
  slot : ∃ i part, i.val = c ∧ part ∈ partition_table ∧ part.path = path ∧ Owned s.rmtfds i n part
  again : ∃ s', Replies sys cfg s n path c s'
  others : ∀ n' path' s', Replies sys cfg s n' path' c s' → n' = n ∧ path' = path

/-- The server after some requests. -/
def after : List Event → Server W → Option (Server W)
  | [], s => some s
  | ev :: evs, s =>
    (handle sys cfg s ev.node ev.stack ev.request).bind fun r => after evs r.2

variable {sys cfg}

/-- What an OPEN that returned an id has done. -/
theorem Replies.opened {s s' : Server W} (h : Unshared s.rmtfds) {n : UInt32} {path : String} {c : ℕ}
    (hopen : Replies sys cfg s n path c s') :
    ∃ i part, i.val = c ∧ part ∈ partition_table ∧ part.path = path ∧ Owned s'.rmtfds i n part ∧
      (Owned s.rmtfds i n part ∨ (s.rmtfds i).inUse = false) := by
  obtain ⟨result, hopen⟩ := hopen
  rcases handle_open (hopen []) with ⟨⟨_, hnone⟩, -⟩ | ⟨i, part, hsome, hmem, hpath, hcase⟩
  · cases hnone
  · cases hsome
    rcases hcase with ⟨hsame, huse, hnode, hpart⟩ | ⟨hfree, -, huse, hnode, hpart, hid, -⟩
    · rw [hsame]
      exact ⟨i, part, (h.id i).symm, hmem, hpath, ⟨huse, hnode, hpart⟩, .inl ⟨huse, hnode, hpart⟩⟩
    · exact ⟨i, part, (hid.trans (h.id i)).symm, hmem, hpath, ⟨huse, hnode, hpart⟩, .inr hfree⟩

/-- The id of a slot that is owned is held. -/
theorem Owned.held {s : Server W} (h : Unshared s.rmtfds) {i : Fin MAX_CALLERS} {n : UInt32}
    {part : Partition} (hmem : part ∈ partition_table) (hown : Owned s.rmtfds i n part) :
    Held sys cfg s n part.path i.val := by
  refine ⟨⟨i, part, rfl, hmem, rfl, hown⟩, ?_, fun n' path' s' hopen => ?_⟩
  · -- the OPEN does the same whatever the stack holds
    generalize hr : rmtfs_open sys cfg s n part.path = r
    obtain ⟨resp, s'⟩ := r
    have hreply : ∀ stack, handle sys cfg s n stack (.open_ part.path) = some (resp, s') :=
      fun stack => congrArg some hr
    rcases handle_open (hreply []) with ⟨-, -, hnoslot⟩ | ⟨j, part', rfl, hmem', hpath', hcase⟩
    · exact absurd hown.partition (hnoslot i part hmem rfl hown.inUse hown.node)
    · obtain rfl := partition_table_path hmem' hmem hpath'
      rcases hcase with ⟨hsame, huse, hnode, hpart⟩ | ⟨-, hfirst, -⟩
      · -- the slot that is found is the only one
        obtain rfl := h.unique j i part' huse hown.inUse (hnode.trans hown.node.symm) hpart
          hown.partition
        refine ⟨s', .success, fun stack => ?_⟩
        rw [hreply stack, hsame, h.id j]
      · exact absurd hown.partition (hfirst i hown.inUse hown.node)
  · obtain ⟨j, part', hj, hmem', hpath', -, hcase⟩ := hopen.opened h
    obtain rfl : j = i := Fin.ext hj
    rcases hcase with hown' | hfree
    · obtain rfl : part = part' := Option.some.inj (hown.partition.symm.trans hown'.partition)
      exact ⟨hown'.node.symm.trans hown.node, hpath'.symm⟩
    · rw [hown.inUse] at hfree
      cases hfree

theorem Unshared.after {evs : List Event} {s s' : Server W} (h : Unshared s.rmtfds)
    (hrun : Rmtfs.after sys cfg evs s = some s') : Unshared s'.rmtfds := by
  induction evs generalizing s with
  | nil =>
    cases hrun
    exact h
  | cons ev evs ih =>
    obtain ⟨⟨resp, s1⟩, hr, hrun⟩ := Option.bind_eq_some_iff.mp hrun
    exact ih (h.change (handle_change hr)) hrun

theorem Owned.after {evs : List Event} {s s' : Server W} {i : Fin MAX_CALLERS} {n : UInt32}
    {part : Partition} (h : Owned s.rmtfds i n part) (hrun : Rmtfs.after sys cfg evs s = some s')
    (hkeep : ∀ ev ∈ evs, ev.node = n → ∀ c, ev.request = .close c → c.toNat ≠ i.val) :
    Owned s'.rmtfds i n part := by
  induction evs generalizing s with
  | nil =>
    cases hrun
    exact h
  | cons ev evs ih =>
    obtain ⟨⟨resp, s1⟩, hr, hrun⟩ := Option.bind_eq_some_iff.mp hrun
    rw [List.forall_mem_cons] at hkeep
    exact ih (h.change (handle_change hr) hkeep.1) hrun hkeep.2

end Ids

/-- **Caller ids are stable and unshared.** In every state the server reaches, in either mode and
whatever the system below does: a node has one slot in use for a partition at most; an OPEN
that fails changes no slot; and an id that an OPEN returned is that of its node and path, until
the node sends a CLOSE for it. -/
theorem caller_ids_stable {W : Type} (sys : Sys W) (root : Option String)
    (read_only use_partitions : Bool) (rmem : RmtfsMem) (w : W) (evs : List Event) (s : Server W)
    (hrun : after sys (storage_init root read_only use_partitions).1 evs
      ⟨(storage_init root read_only use_partitions).2, rmem, w⟩ = some s) :
    (∀ n part i j, Owned s.rmtfds i n part → Owned s.rmtfds j n part → i = j) ∧
      (∀ n stack path result s', handle sys (storage_init root read_only use_partitions).1 s n stack
        (.open_ path) = some (.open_ result none, s') → s'.rmtfds = s.rmtfds) ∧
      ∀ n path c s1, Replies sys (storage_init root read_only use_partitions).1 s n path c s1 →
        ∀ later s2, after sys (storage_init root read_only use_partitions).1 later s1 = some s2 →
          (∀ ev ∈ later, ev.node = n → ∀ k, ev.request = .close k → k.toNat ≠ c) →
            Held sys (storage_init root read_only use_partitions).1 s2 n path c := by
  have hun : Unshared s.rmtfds :=
    (unshared_init root read_only use_partitions).after
      (s := ⟨(storage_init root read_only use_partitions).2, rmem, w⟩) hrun
  -- nothing else depends on the mode
  generalize (storage_init root read_only use_partitions).1 = cfg at hrun
  refine ⟨fun n part i j hi hj => ?_, fun n stack path result s' hr => ?_,
    fun n path c s1 hopen later s2 hlater hkeep => ?_⟩
  · exact hun.unique i j part hi.inUse hj.inUse (hi.node.trans hj.node.symm) hi.partition
      hj.partition
  · rcases handle_open hr with ⟨-, hsame, -⟩ | ⟨i, part, hsome, -⟩
    · exact hsame
    · cases hsome
  · obtain ⟨i, part, rfl, hmem, rfl, hown, -⟩ := hopen.opened hun
    obtain ⟨result, hreply⟩ := hopen
    have hun1 := hun.change (handle_change (hreply []))
    exact (hown.after hlater hkeep).held (hun1.after hlater) hmem

/-- Node 1 opens a partition, node 2 opens and closes another one, and the id of node 1 is still its
own. -/
theorem caller_ids_stable_two_nodes :
    ∃ s1 s2, Replies emptyFiles (storage_init none false false).1 freshServer.1 1
        "/boot/modem_fs1" 0 s1 ∧
      after emptyFiles (storage_init none false false).1
        [⟨2, [], .open_ "/boot/modem_fs2"⟩, ⟨2, [], .close 1⟩] s1 = some s2 ∧
      Held emptyFiles (storage_init none false false).1 s2 1 "/boot/modem_fs1" 0 := by
  have hreply : Replies emptyFiles (storage_init none false false).1 freshServer.1 1
      "/boot/modem_fs1" 0 _ := ⟨.success, fun _ => rfl⟩
  have hkeep : ∀ ev ∈ [(⟨2, [], .open_ "/boot/modem_fs2"⟩ : Event), ⟨2, [], .close 1⟩], ev.node = 1 →
      ∀ k, ev.request = .close k → k.toNat ≠ 0 := by
    intro ev hev hnode
    rcases List.mem_pair.mp hev with rfl | rfl
    · cases hnode
    · cases hnode
  have hstable := caller_ids_stable emptyFiles none false false ⟨0, 0, none, 0⟩ () [] _ rfl
  exact ⟨_, _, hreply, rfl, hstable.2.2 1 "/boot/modem_fs1" 0 _ hreply _ _ rfl hkeep⟩

end Dragonboard.Rmtfs
