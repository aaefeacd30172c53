/-
Which requests reach which handle.

The purpose of the handle table is an abstract one: a handle is open for a node from the OPEN that
returned it until the CLOSE that gave it back (`Handles`), and a request that names it is carried
out on it, or refused. The code keeps no such record. It looks at the `node` of the slot, which
starts as 0 and outlives a close, and not at whether the slot is in use; it compares the id as
an `int`; and `rmtfs_get_dev_error` tests the handle the wrong way round.

Before a CLOSE is answered its id is also printed for debugging, with a `%s`, which is harmless only
without `-v`.

So the table answers as it should as long as no request reaches one of these (`Sane`). Then
a slot is in use exactly if it is open for its node, and that is the invariant behind
the run theorem. Without the condition even the invariant fails: a write to a slot
that was closed, in shadow mode, allocates a buffer and makes the slot look open.
-/
import Dragonboard.Rmtfs

set_option autoImplicit false

namespace Dragonboard.Rmtfs

/-! ## `storage_get`

A caller id is a `uint32_t` on the wire and an `int` in `storage_get`, which is compared with the
number of handles and indexes the table. From `2^31` on it is negative and passes. -/

theorem toInt32_eq (c : UInt32) :
    c.toInt32.toInt = if 2 * c.toNat < 2 ^ 32 then (c.toNat : ℤ) else (c.toNat : ℤ) - 2 ^ 32 :=
  BitVec.toInt_eq_toNat_cond c.toBitVec

theorem toInt32_of_lt {c : UInt32} (h : c.toNat < 2 ^ 31) : c.toInt32.toInt = c.toNat := by
  rw [toInt32_eq, if_pos (by omega)]

theorem toInt32_of_ge {c : UInt32} (h : 2 ^ 31 ≤ c.toNat) : c.toInt32.toInt < 0 := by
  have hlt := c.toNat_lt
  rw [toInt32_eq, if_neg (by omega)]
  omega

/-- An id below the number of handles is looked up by the node of its slot. -/
theorem storage_get_of_lt (t : Table) (node : UInt32) {c : UInt32} (h : c.toNat < MAX_CALLERS) :
    storage_get t node c = if (t ⟨c.toNat, h⟩).node ≠ node then .null else .handle ⟨c.toNat, h⟩ := by
  have h10 : c.toNat < 10 := h
  have h31 : c.toNat < 2 ^ 31 := by omega
  have hid := toInt32_of_lt h31
  simp only [storage_get, hid]
  rw [if_neg (by simp only [MAX_CALLERS]; omega), dif_pos ⟨by omega, by simpa using h⟩]
  simp

theorem storage_get_ne_outside (t : Table) (node : UInt32) {c : UInt32} (h : c.toNat < MAX_CALLERS) :
    storage_get t node c ≠ .outside := by
  rw [storage_get_of_lt t node h]
  split <;> nofun

theorem storage_get_of_ge (t : Table) (node : UInt32) {c : UInt32} (h : MAX_CALLERS ≤ c.toNat)
    (hc : c.toNat < 2 ^ 31) : storage_get t node c = .null := by
  simp only [storage_get, toInt32_of_lt hc]
  rw [if_pos (by omega)]

/-- An id from 2^31 on is negative, and passes the test for a handle. -/
theorem storage_get_negative (t : Table) (node : UInt32) {c : UInt32} (hc : 2 ^ 31 ≤ c.toNat) :
    storage_get t node c = .outside := by
  have := toInt32_of_ge hc
  simp only [storage_get]
  rw [if_neg (by simp only [MAX_CALLERS]; omega), dif_neg (by omega)]

/-! ## What a transfer leaves alone

A write goes to one slot and may move its buffer. Its id, node and partition stay, and so do the
other slots. -/

/-- The table after a transfer on the handle `i`: other slots are the same, and the slot keeps its
id, its node, its partition, and being in use. -/
structure Transfers (i : Fin MAX_CALLERS) (t t' : Table) : Prop where
  others : ∀ j, j ≠ i → t' j = t j
  id : (t' i).id = (t i).id
  node : (t' i).node = (t i).node
  partition : (t' i).partition = (t i).partition
  inUse : (t i).inUse → (t' i).inUse

section Transfer

variable {W : Type} {sys : Sys W} {cfg : Config} {i : Fin MAX_CALLERS}

theorem Transfers.refl (t : Table) : Transfers i t t :=
  ⟨fun _ _ => rfl, rfl, rfl, rfl, fun h => h⟩

theorem Transfers.trans {t t' t'' : Table} (h : Transfers i t t') (h' : Transfers i t' t'') :
    Transfers i t t'' :=
  ⟨fun j hj => (h'.others j hj).trans (h.others j hj), h'.id.trans h.id, h'.node.trans h.node,
    h'.partition.trans h.partition, fun hu => h'.inUse (h.inUse hu)⟩

/-- A write keeps the identity of the handle, and a handle in use in use. -/
theorem storage_pwrite_handle (sys : Sys W) (cfg : Config) (r : Rmtfd) (w : W) (bytes : List UInt8) (offset : ℕ) :
    let r' := (storage_pwrite sys cfg r w bytes offset).2.1
    r'.id = r.id ∧ r'.node = r.node ∧ r'.partition = r.partition ∧ (r.inUse → r'.inUse) := by
  unfold storage_pwrite
  simp only
  split
  · split <;> exact ⟨rfl, rfl, rfl, id⟩
  split
  · exact ⟨rfl, rfl, rfl, id⟩
  split
  · split
    · exact ⟨rfl, rfl, rfl, id⟩
    · exact ⟨rfl, rfl, rfl, by simp [Rmtfd.inUse]⟩
  · exact ⟨rfl, rfl, rfl, by simp [Rmtfd.inUse]⟩

theorem sector_transfers {is_write : Bool} {phys pos : ℕ} {s : Server W} {buf : List UInt8}
    {r : Bool × Server W × List UInt8}
    (h : rmtfs_iovec.sector sys cfg i is_write phys pos s buf = some r) :
    Transfers i s.rmtfds r.2.1.rmtfds := by
  unfold rmtfs_iovec.sector at h
  split at h
  · split at h
    · cases h
      exact .refl _
    split at h
    · rename_i bytes w _ _
      have hkeep := storage_pwrite_handle sys cfg (s.rmtfds i) w bytes pos
      generalize storage_pwrite sys cfg (s.rmtfds i) w bytes pos = p at h hkeep
      obtain ⟨n, r', w'⟩ := p
      obtain ⟨h1, h2, h3, h4⟩ := hkeep
      cases h
      refine ⟨fun j hj => Function.update_of_ne hj _ _, ?_, ?_, ?_, ?_⟩
      · simpa using h1
      · simpa using h2
      · simpa using h3
      · simpa using h4
    · cases h
      exact .refl _
  · split at h
    · cases h
    · cases h
      exact .refl _

theorem sectors_transfers {is_write : Bool} {phys_base sector_base left j : ℕ} {s : Server W}
    {buf : List UInt8} {r : Bool × Server W × List UInt8}
    (h : rmtfs_iovec.sectors sys cfg i is_write phys_base sector_base left j s buf = some r) :
    Transfers i s.rmtfds r.2.1.rmtfds := by
  induction left generalizing j s buf with
  | zero =>
    cases h
    exact .refl _
  | succ left ih =>
    rw [rmtfs_iovec.sectors] at h
    split at h
    · cases h
    · rename_i hs
      cases h
      exact sector_transfers hs
    · rename_i hs
      split at h
      · cases h
      · exact (sector_transfers hs).trans (ih h)

theorem entries_transfers {is_write : Bool} {es : List IovecEntry} {s : Server W}
    {buf : List UInt8} {r : Bool × Server W}
    (h : rmtfs_iovec.entries sys cfg i is_write es s buf = some r) :
    Transfers i s.rmtfds r.2.rmtfds := by
  induction es generalizing s buf with
  | nil =>
    cases h
    exact .refl _
  | cons e es ih =>
    rw [rmtfs_iovec.entries] at h
    split at h
    · cases h
    · rename_i hs
      cases h
      exact sectors_transfers hs
    · rename_i hs
      exact (sectors_transfers hs).trans (ih h)

/-- A transfer touches no other slot. -/
theorem transfer_transfers {direction : UInt8} {iovec : List IovecEntry} {s s' : Server W}
    {stack : List UInt8} {resp : Response}
    (h : rmtfs_iovec.transfer sys cfg i direction iovec s stack = some (resp, s')) :
    Transfers i s.rmtfds s'.rmtfds := by
  unfold rmtfs_iovec.transfer at h
  obtain ⟨r, hr, hrs⟩ := Option.map_eq_some_iff.mp h
  cases hrs
  exact entries_transfers hr

end Transfer

/-! ## Open handles

`Handles` is the table as a client understands it: which ids are open, and for which node. The run
lemma says that requests are answered by it; the requests on which the code has no defined
behaviour or the opposite of the intended one are left out by `Sane`, one by one. -/

/-- The node a handle is open for. -/
abbrev Handles : Type := Fin MAX_CALLERS → Option UInt32

/-- The handles after a request and its response: an OPEN that returned an id opens the handle, a
successful CLOSE closes it. -/
def Handles.after (h : Handles) (node : UInt32) : Request → Response → Handles
  | .open_ _, .open_ _ (some id) => fun i => if i.val = id then some node else h i
  | .close caller_id, .close result =>
    if result = .success then fun i => if i.val = caller_id.toNat then none else h i else h
  | _, _ => h

/-- The handle a request names, if it is open for the node. -/
def Handles.named (h : Handles) (node caller_id : UInt32) : Option (Fin MAX_CALLERS) :=
  if hc : caller_id.toNat < MAX_CALLERS then
    if h ⟨caller_id.toNat, hc⟩ = some node then some ⟨caller_id.toNat, hc⟩ else none
  else none

/-- A request in a run: the node it comes from, and what the handler's local buffer happens to
hold. -/
structure Event where
  node : UInt32
  stack : List UInt8
  request : Request

section Runs

variable {W : Type} (sys : Sys W) (cfg : Config) (dbgprintf_enabled : Bool)

/-- The response and the server after one event, and the handles then open. -/
def step (p : Server W × Handles) (ev : Event) : Option (Server W × Handles) :=
  (handleLoud sys cfg dbgprintf_enabled p.1 ev.node ev.stack ev.request).map fun r =>
    (r.2, p.2.after ev.node ev.request r.1)

/-- A run of events. -/
def run : List Event → Server W × Handles → Option (Server W × Handles)
  | [], p => some p
  | ev :: evs, p => (step sys cfg dbgprintf_enabled p ev).bind (run evs)

/-- A request carried out on a handle. -/
def carriedOut (s : Server W) (i : Fin MAX_CALLERS) (stack : List UInt8) :
    Request → Option (Response × Server W)
  | .open_ _ => none
  | .close _ =>
    match storage_close sys s.rmtfds s.world i with
    | (t, w) => some (.close .success, { s with rmtfds := t, world := w })
  | .rw_iovec _ direction iovec => rmtfs_iovec.transfer sys cfg i direction iovec s stack
  | .get_dev_error _ =>
    some (.get_dev_error .success (some (storage_get_error (s.rmtfds i))), s)

/-- A failure with `QMI_RMTFS_ERR_INTERNAL`. -/
def internalError : Result := ⟨QMI_RMTFS_RESULT_FAILURE, QMI_RMTFS_ERR_INTERNAL⟩

/-- The refusal of a request. -/
def refused : Request → Response
  | .open_ _ => .open_ internalError none
  | .close _ => .close internalError
  | .rw_iovec _ _ _ => .rw_iovec internalError
  | .get_dev_error _ => .get_dev_error internalError none

/-- The caller id of a request. -/
def Request.caller_id : Request → Option UInt32
  | .open_ _ => none
  | .close caller_id => some caller_id
  | .rw_iovec caller_id _ _ => some caller_id
  | .get_dev_error caller_id => some caller_id

/-- A request that names a handle is answered as it should be: carried out on the handle if that is
open for the node, no other slot being touched; refused otherwise, and then the server is as
before. -/
def Answered (s : Server W) (h : Handles) (ev : Event) : Prop :=
  ∀ caller_id ∈ ev.request.caller_id,
    match h.named ev.node caller_id with
    | some i =>
      handleLoud sys cfg dbgprintf_enabled s ev.node ev.stack ev.request =
          carriedOut sys cfg s i ev.stack ev.request ∧
        ∀ resp s', handleLoud sys cfg dbgprintf_enabled s ev.node ev.stack ev.request =
            some (resp, s') → ∀ j, j ≠ i → s'.rmtfds j = s.rmtfds j
    | none =>
      handleLoud sys cfg dbgprintf_enabled s ev.node ev.stack ev.request =
        some (refused ev.request, s)

/-- The slot named by an id is the node's, and not in use. -/
def Stale (t : Table) (node caller_id : UInt32) : Prop :=
  ∃ hc : caller_id.toNat < MAX_CALLERS, (t ⟨caller_id.toNat, hc⟩).node = node ∧
    (t ⟨caller_id.toNat, hc⟩).inUse = false

/-- The requests on which the handlers do not go wrong. -/
def Sane (t : Table) (node : UInt32) : Request → Prop
  | .open_ _ => True
  | .close caller_id =>
    dbgprintf_enabled = false ∧ caller_id.toNat < 2 ^ 31 ∧ ¬ Stale t node caller_id
  | .rw_iovec caller_id _ _ => caller_id.toNat < 2 ^ 31 ∧ ¬ Stale t node caller_id
  | .get_dev_error caller_id => Stale t node caller_id

/-- Every request of the run is sane in the state it meets. -/
def RunSane : List Event → Server W × Handles → Prop
  | [], _ => True
  | ev :: evs, p => Sane dbgprintf_enabled p.1.rmtfds ev.node ev.request ∧
      ∀ p', step sys cfg dbgprintf_enabled p ev = some p' → RunSane evs p'

/-- The invariant of sane runs: the slots know their ids, and a slot is in use exactly if it is
open, for its node. -/
structure Tracked (t : Table) (h : Handles) : Prop where
  id : ∀ i, (t i).id = i.val
  open_iff : ∀ i, h i = if (t i).inUse then some (t i).node else none

theorem tracked_init (root : Option String) (read_only use_partitions : Bool) :
    Tracked (storage_init root read_only use_partitions).2 fun _ => none :=
  ⟨fun _ => rfl, fun _ => rfl⟩

end Runs

section Steps

variable {W : Type} {sys : Sys W} {cfg : Config} {dbgprintf_enabled : Bool} {s : Server W}
  {h : Handles}

@[simp] theorem handleLoud_false (node : UInt32) (stack : List UInt8) (request : Request) :
    handleLoud sys cfg false s node stack request = handle sys cfg s node stack request := by
  cases request <;> rfl

/-- Only a CLOSE prints what is no string. -/
theorem handleLoud_of_ne_close {node : UInt32} {stack : List UInt8} {request : Request}
    (hreq : ∀ c, request ≠ .close c) :
    handleLoud sys cfg dbgprintf_enabled s node stack request =
      handle sys cfg s node stack request := by
  cases request with
  | close c => exact absurd rfl (hreq c)
  | open_ path => cases dbgprintf_enabled <;> rfl
  | rw_iovec caller_id direction iovec => cases dbgprintf_enabled <;> rfl
  | get_dev_error caller_id => cases dbgprintf_enabled <;> rfl

/-- A sane request is handled as if nothing was printed. -/
theorem Sane.handleLoud {t : Table} {node : UInt32} {request : Request}
    (hs : Sane dbgprintf_enabled t node request) (stack : List UInt8) :
    Rmtfs.handleLoud sys cfg dbgprintf_enabled s node stack request =
      handle sys cfg s node stack request := by
  cases request with
  | close caller_id => rw [hs.1, handleLoud_false]
  | open_ path => exact handleLoud_of_ne_close fun _ => nofun
  | rw_iovec caller_id direction iovec => exact handleLoud_of_ne_close fun _ => nofun
  | get_dev_error caller_id => exact handleLoud_of_ne_close fun _ => nofun

/-- What `storage_get` finds for a sane request is what is open. -/
theorem Tracked.storage_get {t : Table} (ht : Tracked t h) {node c : UInt32}
    (hc : c.toNat < 2 ^ 31) (hs : ¬ Stale t node c) :
    Rmtfs.storage_get t node c =
      match h.named node c with
      | some i => .handle i
      | none => .null := by
  unfold Handles.named
  by_cases h10 : c.toNat < MAX_CALLERS
  · rw [dif_pos h10, storage_get_of_lt t node h10, ht.open_iff]
    by_cases hn : (t ⟨c.toNat, h10⟩).node = node
    · have huse : (t ⟨c.toNat, h10⟩).inUse = true := by
        by_contra hu
        exact hs ⟨h10, hn, by simpa using hu⟩
      rw [if_neg (by simpa using hn), if_pos huse, if_pos (by rw [hn])]
    · have hother : (if (t ⟨c.toNat, h10⟩).inUse then some (t ⟨c.toNat, h10⟩).node else none)
          ≠ some node := by
        split
        · simpa using hn
        · simp
      rw [if_pos hn, if_neg hother]
  · rw [dif_neg h10, storage_get_of_ge t node (by omega) hc]

theorem named_eq_some {node c : UInt32} {i : Fin MAX_CALLERS} (hi : h.named node c = some i) :
    i.val = c.toNat ∧ h i = some node := by
  unfold Handles.named at hi
  split at hi
  · split at hi
    · cases hi
      exact ⟨rfl, by assumption⟩
    · cases hi
  · cases hi

/-- A stale slot is not open. -/
theorem Tracked.named_stale {t : Table} (ht : Tracked t h) {node c : UInt32}
    (hs : Stale t node c) : h.named node c = none := by
  obtain ⟨hc, -, huse⟩ := hs
  rw [Handles.named, dif_pos hc, ht.open_iff, huse]
  rfl

/-- One sane request is answered as it should be. -/
theorem Tracked.answered (ht : Tracked s.rmtfds h) {ev : Event}
    (hs : Sane dbgprintf_enabled s.rmtfds ev.node ev.request) :
    Answered sys cfg dbgprintf_enabled s h ev := by
  intro c hc
  rw [hs.handleLoud]
  obtain ⟨node, stack, request⟩ := ev
  cases request with
  | open_ path => cases hc
  | close caller_id =>
    cases hc
    have hget := ht.storage_get hs.2.1 hs.2.2
    simp only [handle, rmtfs_close, hget]
    cases h.named node c with
    | none => rfl
    | some i =>
      refine ⟨rfl, fun resp s' heq j hj => ?_⟩
      cases heq
      exact Function.update_of_ne hj _ _
  | rw_iovec caller_id direction iovec =>
    cases hc
    have hget := ht.storage_get hs.1 hs.2
    simp only [handle, rmtfs_iovec, hget]
    cases h.named node c with
    | none => rfl
    | some i => exact ⟨rfl, fun resp s' heq j hj => (transfer_transfers heq).others j hj⟩
  | get_dev_error caller_id =>
    cases hc
    -- the test is the wrong way round: a stale slot is the one that is answered
    have hnone := ht.named_stale hs
    obtain ⟨h10, hnode, -⟩ := hs
    have hget : Rmtfs.storage_get s.rmtfds node c = .handle ⟨c.toNat, h10⟩ := by
      rw [storage_get_of_lt _ _ h10, if_neg (by simpa using hnode)]
    simp only [handle, rmtfs_get_dev_error, hget]
    simp only at hnone
    rw [hnone]
    rfl

/-- For CLOSE and GET_DEV_ERROR the condition is exact. -/
theorem Tracked.answered_iff (ht : Tracked s.rmtfds h) {ev : Event}
    (hkind : ∀ c d l, ev.request ≠ .rw_iovec c d l) :
    Answered sys cfg dbgprintf_enabled s h ev ↔
      Sane dbgprintf_enabled s.rmtfds ev.node ev.request := by
  refine ⟨fun ha => ?_, ht.answered⟩
  obtain ⟨node, stack, request⟩ := ev
  cases request with
  | open_ path => trivial
  | rw_iovec c d l => exact absurd rfl (hkind c d l)
  | close c =>
    have ha := ha c rfl
    by_contra hs
    have hquiet : dbgprintf_enabled = false := by
      cases dbgprintf_enabled with
      | false => rfl
      | true =>
        -- the message takes the reply with it
        simp only [handleLoud] at ha
        cases hn : h.named node c with
        | none =>
          rw [hn] at ha
          cases ha
        | some i =>
          rw [hn] at ha
          exact absurd ha.1 (by simp [carriedOut])
    rw [hquiet, handleLoud_false] at ha
    simp only [handle, rmtfs_close] at ha
    by_cases hc : c.toNat < 2 ^ 31
    · have hstale : Stale s.rmtfds node c := by
        by_contra hstale
        exact hs ⟨hquiet, hc, hstale⟩
      rw [ht.named_stale hstale] at ha
      obtain ⟨h10, hnode, -⟩ := hstale
      rw [storage_get_of_lt _ _ h10, if_neg (by simpa using hnode)] at ha
      have := congrArg (Option.map Prod.fst) ha
      exact absurd this (by simp [refused, Result.success, internalError,
        QMI_RMTFS_RESULT_SUCCESS, QMI_RMTFS_RESULT_FAILURE])
    · have hnone : h.named node c = none := dif_neg (by simp only [MAX_CALLERS]; omega)
      rw [hnone, storage_get_negative _ _ (by omega)] at ha
      cases ha
  | get_dev_error c =>
    have ha := ha c rfl
    rw [handleLoud_of_ne_close (fun _ => by simp)] at ha
    simp only [handle, rmtfs_get_dev_error] at ha
    by_contra hs
    by_cases h10 : c.toNat < MAX_CALLERS
    · rw [storage_get_of_lt _ _ h10] at ha
      by_cases hn : (s.rmtfds ⟨c.toNat, h10⟩).node = node
      · -- the handle is open, and the answer a failure
        have huse : (s.rmtfds ⟨c.toNat, h10⟩).inUse = true := by
          by_contra hu
          exact hs ⟨h10, hn, by simpa using hu⟩
        have hsome : h.named node c = some ⟨c.toNat, h10⟩ := by
          rw [Handles.named, dif_pos h10, ht.open_iff, if_pos huse, hn, if_pos rfl]
        rw [hsome, if_neg (by simpa using hn)] at ha
        have := congrArg (Option.map Prod.fst) ha.1
        exact absurd this (by simp [carriedOut, qmi_result_error, Result.success,
          QMI_RMTFS_RESULT_SUCCESS, QMI_RMTFS_RESULT_FAILURE])
      · have hnone : h.named node c = none := by
          rw [Handles.named, dif_pos h10, ht.open_iff, if_neg]
          split
          · simpa using hn
          · simp
        rw [hnone, if_pos hn] at ha
        cases ha
    · have hnone : h.named node c = none := dif_neg h10
      rw [hnone] at ha
      by_cases hc : c.toNat < 2 ^ 31
      · rw [storage_get_of_ge _ _ (by omega) hc] at ha
        cases ha
      · rw [storage_get_negative _ _ (by omega)] at ha
        cases ha

/-- A path is the path of one partition. -/
theorem partition_table_path {part part' : Partition} (h : part ∈ partition_table)
    (h' : part' ∈ partition_table) (hpath : part.path = part'.path) : part = part' := by
  have hall : ∀ p ∈ partition_table, ∀ q ∈ partition_table, p.path = q.path → p = q := by decide
  exact hall part h part' h' hpath

/-- **What `storage_open` does**: it fails and changes nothing, finds the slot the node has for the
partition, or puts a free slot to use for it. -/
theorem storage_open_change (sys : Sys W) (cfg : Config) (t : Table) (w : W) (node : UInt32)
    (path : String) :
    let r := storage_open sys cfg t w node path
    (r.1 = none ∧ r.2.1 = t ∧ ∀ j part, part ∈ partition_table → part.path = path →
        (t j).inUse = true → (t j).node = node → (t j).partition ≠ some part) ∨
      ∃ i part, r.1 = some i ∧ part ∈ partition_table ∧ part.path = path ∧
        ((r.2.1 = t ∧ (t i).inUse = true ∧ (t i).node = node ∧ (t i).partition = some part) ∨
          ((t i).inUse = false ∧
            (∀ j, (t j).inUse = true → (t j).node = node → (t j).partition ≠ some part) ∧
            (r.2.1 i).inUse = true ∧ (r.2.1 i).node = node ∧ (r.2.1 i).partition = some part ∧
            (r.2.1 i).id = (t i).id ∧ ∀ j, j ≠ i → r.2.1 j = t j)) := by
  unfold storage_open
  simp only
  split
  · rename_i hunknown
    refine .inl ⟨rfl, rfl, fun j part hmem hpath => ?_⟩
    exact absurd hpath (by simpa using List.find?_eq_none.mp hunknown part hmem)
  rename_i part hpart
  have hmem := List.mem_of_find?_eq_some hpart
  have hpath : part.path = path := by simpa using List.find?_some hpart
  split
  · rename_i i hi
    have htest := List.find?_some hi
    simp only [Bool.and_eq_true, beq_iff_eq] at htest
    exact .inr ⟨i, part, rfl, hmem, hpath, .inl ⟨rfl, htest.1.1, htest.1.2, htest.2⟩⟩
  rename_i hnone
  -- the first loop found no slot
  have hfirst : ∀ j, (t j).inUse = true → (t j).node = node → (t j).partition ≠ some part := by
    intro j huse hnode hj
    have htest := List.find?_eq_none.mp hnone j (List.mem_finRange j)
    simp [huse, hnode, hj] at htest
  have hnoslot : ∀ j part', part' ∈ partition_table → part'.path = path →
      (t j).inUse = true → (t j).node = node → (t j).partition ≠ some part' := by
    intro j part' hmem' hpath' huse hnode
    rw [partition_table_path hmem' hmem (hpath'.trans hpath.symm)]
    exact hfirst j huse hnode
  split
  · exact .inl ⟨rfl, rfl, hnoslot⟩
  rename_i i hfree
  have hidle : (t i).inUse = false := by simpa using List.find?_some hfree
  split
  · split
    · exact .inl ⟨rfl, rfl, hnoslot⟩
    · exact .inr ⟨i, part, rfl, hmem, hpath, .inr ⟨hidle, hfirst, by simp [Rmtfd.inUse], by simp,
        by simp, by simp, fun j hj => Function.update_of_ne hj _ _⟩⟩
  · split
    · exact .inl ⟨rfl, rfl, hnoslot⟩
    · exact .inr ⟨i, part, rfl, hmem, hpath, .inr ⟨hidle, hfirst, by simp [Rmtfd.inUse], by simp,
        by simp, by simp, fun j hj => Function.update_of_ne hj _ _⟩⟩

/-- **What an OPEN does**, with its reply: it is refused and changes no slot, or it replies the id of
the slot it found or put to use. -/
theorem handle_open {s s' : Server W} {node : UInt32} {stack : List UInt8} {path : String}
    {resp : Response} (hr : handle sys cfg s node stack (.open_ path) = some (resp, s')) :
    ((∃ result, resp = .open_ result none) ∧ s'.rmtfds = s.rmtfds ∧
        ∀ j part, part ∈ partition_table → part.path = path → (s.rmtfds j).inUse = true →
          (s.rmtfds j).node = node → (s.rmtfds j).partition ≠ some part) ∨
      ∃ i part, resp = .open_ .success (some (s'.rmtfds i).id) ∧ part ∈ partition_table ∧
        part.path = path ∧
        ((s'.rmtfds = s.rmtfds ∧ (s.rmtfds i).inUse = true ∧ (s.rmtfds i).node = node ∧
            (s.rmtfds i).partition = some part) ∨
          ((s.rmtfds i).inUse = false ∧
            (∀ j, (s.rmtfds j).inUse = true → (s.rmtfds j).node = node →
              (s.rmtfds j).partition ≠ some part) ∧
            (s'.rmtfds i).inUse = true ∧ (s'.rmtfds i).node = node ∧
            (s'.rmtfds i).partition = some part ∧ (s'.rmtfds i).id = (s.rmtfds i).id ∧
            ∀ j, j ≠ i → s'.rmtfds j = s.rmtfds j)) := by
  simp only [handle, rmtfs_open] at hr
  have hopen := storage_open_change sys cfg s.rmtfds s.world node path
  generalize storage_open sys cfg s.rmtfds s.world node path = r at hr hopen
  obtain ⟨found, t, w⟩ := r
  rcases hopen with ⟨hnone, hsame, hnoslot⟩ | ⟨i, part, hsome, hmem, hpath, hcase⟩
  · simp only at hnone hsame
    subst hnone hsame
    cases hr
    exact .inl ⟨⟨_, rfl⟩, rfl, hnoslot⟩
  · simp only at hsome hcase
    subst hsome
    cases hr
    exact .inr ⟨i, part, rfl, hmem, hpath, hcase⟩

/-- A table that agrees with a tracked one outside a slot is tracked if the slot is. -/
theorem Tracked.at {t t' : Table} {h' : Handles} (ht : Tracked t h) (i : Fin MAX_CALLERS)
    (hid : (t' i).id = (t i).id) (hi : h' i = if (t' i).inUse then some (t' i).node else none)
    (hother : ∀ j, j ≠ i → t' j = t j ∧ h' j = h j) : Tracked t' h' := by
  refine ⟨fun j => ?_, fun j => ?_⟩
  · by_cases hj : j = i
    · subst hj
      rw [hid, ht.id]
    · rw [(hother j hj).1, ht.id]
  · by_cases hj : j = i
    · subst hj
      exact hi
    · rw [(hother j hj).1, (hother j hj).2, ht.open_iff]

/-- Sane requests keep the table tracked. -/
theorem Tracked.step (ht : Tracked s.rmtfds h) {ev : Event}
    (hs : Sane dbgprintf_enabled s.rmtfds ev.node ev.request) {p : Server W × Handles}
    (hp : Rmtfs.step sys cfg dbgprintf_enabled (s, h) ev = some p) : Tracked p.1.rmtfds p.2 := by
  rw [Rmtfs.step, hs.handleLoud] at hp
  obtain ⟨⟨resp, s'⟩, hr, rfl⟩ := Option.map_eq_some_iff.mp hp
  obtain ⟨node, stack, request⟩ := ev
  simp only at hr hs ⊢
  cases request with
  | open_ path =>
    rcases handle_open hr with ⟨⟨result, rfl⟩, hsame, -⟩ |
      ⟨i, part, rfl, -, -, ⟨hsame, huse, hnode, -⟩ | ⟨-, -, huse, hnode, -, hid, hothers⟩⟩
    · -- refused
      rw [hsame]
      exact ht
    · -- the slot was the node's before
      rw [hsame]
      refine ht.at i rfl ?_ fun j hj => ⟨rfl, ?_⟩
      · simp [Handles.after, ht.id, huse, hnode]
      · have : j.val ≠ i.val := fun h => hj (Fin.ext h)
        simp [Handles.after, ht.id, this]
    · refine ht.at i hid ?_ fun j hj => ⟨hothers j hj, ?_⟩
      · simp [Handles.after, hid, ht.id, huse, hnode]
      · have : j.val ≠ i.val := fun h => hj (Fin.ext h)
        simp [Handles.after, hid, ht.id, this]
  | close caller_id =>
    have hget := ht.storage_get hs.2.1 hs.2.2
    simp only [handle, rmtfs_close, hget] at hr
    cases hnamed : h.named node caller_id with
    | none =>
      rw [hnamed] at hr
      cases hr
      exact ht
    | some i =>
      rw [hnamed] at hr
      cases hr
      have hi := (named_eq_some hnamed).1
      refine ht.at i (by simp [storage_close]) ?_ fun j hj => ⟨Function.update_of_ne hj _ _, ?_⟩
      · simp [Handles.after, storage_close, Rmtfd.inUse, hi]
      · have : j.val ≠ caller_id.toNat := fun h => hj (Fin.ext (h.trans hi.symm))
        simp [Handles.after, this]
  | rw_iovec caller_id direction iovec =>
    have hget := ht.storage_get hs.1 hs.2
    simp only [handle, rmtfs_iovec, hget] at hr
    cases hnamed : h.named node caller_id with
    | none =>
      rw [hnamed] at hr
      cases hr
      exact ht
    | some i =>
      rw [hnamed] at hr
      have htr := transfer_transfers hr
      have hopen := (named_eq_some hnamed).2
      have huse : (s.rmtfds i).inUse = true := by
        rw [ht.open_iff] at hopen
        by_contra hu
        rw [if_neg hu] at hopen
        cases hopen
      refine ht.at i htr.id ?_ fun j hj => ⟨htr.others j hj, rfl⟩
      rw [htr.inUse huse, htr.node]
      exact (ht.open_iff i).trans (by rw [huse])
  | get_dev_error caller_id =>
    obtain ⟨h10, hnode, -⟩ := hs
    have hget : Rmtfs.storage_get s.rmtfds node caller_id = .handle ⟨caller_id.toNat, h10⟩ := by
      rw [storage_get_of_lt _ _ h10, if_neg (by simpa using hnode)]
    simp only [handle, rmtfs_get_dev_error, hget] at hr
    cases hr
    exact ht

/-- Along a sane run the table stays tracked. -/
theorem Tracked.run {evs : List Event} {p p' : Server W × Handles} (ht : Tracked p.1.rmtfds p.2)
    (hs : RunSane sys cfg dbgprintf_enabled evs p)
    (hp : Rmtfs.run sys cfg dbgprintf_enabled evs p = some p') :
    Tracked p'.1.rmtfds p'.2 := by
  induction evs generalizing p with
  | nil =>
    cases hp
    exact ht
  | cons ev evs ih =>
    obtain ⟨q, hq, hrest⟩ := Option.bind_eq_some_iff.mp hp
    exact ih (ht.step hs.1 hq) (hs.2 q hq) hrest

theorem RunSane.split {pre post : List Event} {ev : Event} {p q : Server W × Handles}
    (hs : RunSane sys cfg dbgprintf_enabled (pre ++ ev :: post) p)
    (hp : Rmtfs.run sys cfg dbgprintf_enabled pre p = some q) :
    RunSane sys cfg dbgprintf_enabled pre p ∧
      Sane dbgprintf_enabled q.1.rmtfds ev.node ev.request := by
  induction pre generalizing p with
  | nil =>
    cases hp
    exact ⟨trivial, hs.1⟩
  | cons e pre ih =>
    obtain ⟨r, hr, hrest⟩ := Option.bind_eq_some_iff.mp hp
    obtain ⟨h1, h2⟩ := ih (hs.2 r hr) hrest
    refine ⟨⟨hs.1, fun r' hr' => ?_⟩, h2⟩
    rw [hr] at hr'
    cases hr'
    exact h1

end Steps

/-- A system on which every file opens as descriptor 3 and is empty. -/
def emptyFiles : Sys Unit where
  open_rdwr _ _ := (some 3, ())
  open_rdonly _ _ := (some 3, ())
  lseek_end _ _ := (some 0, ())
  read _ _ _ := (some [], ())
  pread _ _ _ _ := (some [], ())
  pwrite _ _ bytes _ := (some bytes.length, ())
  close _ _ := ()
  calloc _ _ := (true, ())
  realloc _ _ := (some fun _ => 0, ())

/-- A server in read-write mode, just started. -/
def freshServer : Server Unit × Handles :=
  (⟨(storage_init none false false).2, ⟨0, 0, none, 0⟩, ()⟩, fun _ => none)

end Dragonboard.Rmtfs
