/-
The sectors that an RW_IOVEC comes to.

The loops of `rmtfs_iovec` go through the sectors of the entries in order and end at the first one
that fails. A visit is a sector they come to, with the state they find there; the visits of a
request are listed here as the loops make them.

What goes wrong on the way is a failed read. `storage_pread` compares the -1 of a failed `pread` with
an unsigned number: the failure is not seen, and what the buffer held before goes into the shared
memory (`read_failures_reported_iff`).

The shared memory is the mapping, or, if there is none, whatever the memory device shows of the world
(`Server.memory`). What a read puts there is written down visit by visit (`Visit.put`), and the
memory after a request is the memory before it with all of that stored (`entries_memory`).
-/
import Dragonboard.RmtfsSafe

set_option autoImplicit false

namespace Dragonboard.Rmtfs

open Dragonboard.Memory (Mem Store writeAt applyStores)

/-! ## Visits

To say what happened to each sector, the loops are unfolded into the list of sectors they come to,
each with the state it was found in. A property of the states at all visits is proved by one
induction, from what a single sector keeps. -/

variable {W : Type}

/-- A sector of an entry that the loops come to, with the server and the local buffer they find. -/
structure Visit (W : Type) where
  entry : IovecEntry
  j : ℕ
  server : Server W
  buf : List UInt8

/-- The address in the shared memory. -/
def Visit.phys (v : Visit W) : ℕ := v.entry.phys_offset.toNat + v.j * SECTOR_SIZE

/-- The offset that `storage_pread` or `storage_pwrite` is given. -/
def Visit.pos (v : Visit W) : ℕ :=
  (v.entry.sector_addr * UInt32.ofNat SECTOR_SIZE).toNat + v.j * SECTOR_SIZE

section Visits

variable (sys : Sys W) (cfg : Config) (i : Fin MAX_CALLERS) (is_write : Bool)

/-- What the body of the inner loop does at a visit. -/
def Visit.outcome (v : Visit W) : Option (Bool × Server W × List UInt8) :=
  rmtfs_iovec.sector sys cfg i is_write v.phys v.pos v.server v.buf

/-- The visits of the inner loop, from the sector `j` on. -/
def sectorVisits (e : IovecEntry) : ℕ → ℕ → Server W → List UInt8 → List (Visit W)
  | 0, _, _, _ => []
  | left + 1, j, s, buf =>
    ⟨e, j, s, buf⟩ ::
      match Visit.outcome sys cfg i is_write ⟨e, j, s, buf⟩ with
      -- the loop goes on behind a sector that went well, as long as the counter can
      | some (true, s', buf') => if j + 1 = 2 ^ 31 then [] else sectorVisits e left (j + 1) s' buf'
      | _ => []

/-- The visits of the outer loop. -/
def entryVisits : List IovecEntry → Server W → List UInt8 → List (Visit W)
  | [], _, _ => []
  | e :: es, s, buf =>
    sectorVisits sys cfg i is_write e e.num_sector.toNat 0 s buf ++
      match rmtfs_iovec.sectors sys cfg i is_write e.phys_offset.toNat
        (e.sector_addr * UInt32.ofNat SECTOR_SIZE).toNat e.num_sector.toNat 0 s buf with
      | some (true, s', buf') => entryVisits es s' buf'
      | _ => []

end Visits

/-- The visits of a request. -/
def requestVisits (sys : Sys W) (cfg : Config) (s : Server W) (node caller_id : UInt32)
    (direction : UInt8) (iovec : List IovecEntry) (stack : List UInt8) : List (Visit W) :=
  match storage_get s.rmtfds node caller_id with
  | .handle i => entryVisits sys cfg i (direction != 0) iovec s stack
  | .null | .outside => []

section Loops

variable {sys : Sys W} {cfg : Config} {i : Fin MAX_CALLERS} {is_write : Bool}

/-- What holds of the state before an entry, and is kept by a sector that goes well, holds at every
visit of the entry. -/
theorem sectorVisits_invariant {P : Server W → List UInt8 → Prop} {e : IovecEntry}
    (hstep : ∀ v : Visit W, v.entry = e → P v.server v.buf → ∀ s' buf',
      v.outcome sys cfg i is_write = some (true, s', buf') → P s' buf') (left j : ℕ) (s : Server W)
    (buf : List UInt8) (h : P s buf) (hj : j < 2 ^ 31) :
    ∀ v ∈ sectorVisits sys cfg i is_write e left j s buf,
      v.entry = e ∧ v.j < j + left ∧ v.j < 2 ^ 31 ∧ P v.server v.buf := by
  induction left generalizing j s buf with
  | zero =>
    intro v hv
    exact absurd hv List.not_mem_nil
  | succ left ih =>
    intro v hv
    rw [sectorVisits, List.mem_cons] at hv
    rcases hv with rfl | hv
    · exact ⟨rfl, Nat.lt_add_of_pos_right (Nat.succ_pos left), hj, h⟩
    -- a later visit: this sector went well and the counter did not overflow
    · split at hv
      · rename_i s' buf' hok
        split at hv
        · exact absurd hv List.not_mem_nil
        · have hnext := ih (j + 1) s' buf' (hstep ⟨e, j, s, buf⟩ rfl h s' buf' hok) (by omega) v hv
          exact ⟨hnext.1, by omega, hnext.2.2⟩
      · exact absurd hv List.not_mem_nil

/-- An invariant of the sectors of an entry holds behind the entry. -/
theorem sectors_invariant {P : Server W → List UInt8 → Prop} {e : IovecEntry}
    (hstep : ∀ v : Visit W, v.entry = e → P v.server v.buf → ∀ s' buf',
      v.outcome sys cfg i is_write = some (true, s', buf') → P s' buf') (left j : ℕ) (s : Server W)
    (buf : List UInt8) (h : P s buf) {s' : Server W} {buf' : List UInt8}
    (hsectors : rmtfs_iovec.sectors sys cfg i is_write e.phys_offset.toNat
      (e.sector_addr * UInt32.ofNat SECTOR_SIZE).toNat left j s buf = some (true, s', buf')) :
    P s' buf' := by
  induction left generalizing j s buf with
  | zero =>
    cases hsectors
    exact h
  | succ left ih =>
    rw [rmtfs_iovec.sectors] at hsectors
    split at hsectors
    · cases hsectors
    · cases hsectors
    · rename_i s1 buf1 hok
      split at hsectors
      · cases hsectors
      · exact ih (j + 1) s1 buf1 (hstep ⟨e, j, s, buf⟩ rfl h s1 buf1 hok) hsectors

/-- The same for all visits of a request. -/
theorem entryVisits_invariant {P : Server W → List UInt8 → Prop}
    (hstep : ∀ v : Visit W, P v.server v.buf → ∀ s' buf',
      v.outcome sys cfg i is_write = some (true, s', buf') → P s' buf') (es : List IovecEntry)
    (s : Server W) (buf : List UInt8) (h : P s buf) :
    ∀ v ∈ entryVisits sys cfg i is_write es s buf,
      v.entry ∈ es ∧ v.j < v.entry.num_sector.toNat ∧ v.j < 2 ^ 31 ∧ P v.server v.buf := by
  induction es generalizing s buf with
  | nil =>
    intro v hv
    exact absurd hv List.not_mem_nil
  | cons e es ih =>
    intro v hv
    rw [entryVisits, List.mem_append] at hv
    rcases hv with hv | hv
    -- a sector of this entry
    · obtain ⟨rfl, hlt, hj, hP⟩ := sectorVisits_invariant (fun v _ => hstep v) _ 0 s buf h
        (Nat.two_pow_pos 31) v hv
      rw [Nat.zero_add] at hlt
      exact ⟨List.mem_cons_self, hlt, hj, hP⟩
    · split at hv
      -- one of a later entry, behind all sectors of this one
      · rename_i s' buf' hok
        obtain ⟨hmem, hrest⟩ :=
          ih s' buf' (sectors_invariant (fun v _ => hstep v) _ 0 s buf h hok) v hv
        exact ⟨List.mem_cons_of_mem e hmem, hrest⟩
      · exact absurd hv List.not_mem_nil

/-- A sector that fails ends the inner loop. -/
theorem sectors_of_failure {e : IovecEntry} (left j : ℕ) (s : Server W) (buf : List UInt8)
    {v : Visit W} (hv : v ∈ sectorVisits sys cfg i is_write e left j s buf) {s' : Server W}
    {buf' : List UInt8} (hfail : v.outcome sys cfg i is_write = some (false, s', buf')) :
    rmtfs_iovec.sectors sys cfg i is_write e.phys_offset.toNat
      (e.sector_addr * UInt32.ofNat SECTOR_SIZE).toNat left j s buf = some (false, s', buf') := by
  induction left generalizing j s buf with
  | zero => exact absurd hv List.not_mem_nil
  | succ left ih =>
    rw [sectorVisits, List.mem_cons] at hv
    rcases hv with rfl | hv
    · -- the sector the loop is at
      have hbody : rmtfs_iovec.sector sys cfg i is_write (e.phys_offset.toNat + j * SECTOR_SIZE)
          ((e.sector_addr * UInt32.ofNat SECTOR_SIZE).toNat + j * SECTOR_SIZE) s buf
          = some (false, s', buf') := hfail
      rw [rmtfs_iovec.sectors, hbody]
    · split at hv
      · rename_i s1 buf1 hok
        have hbody : rmtfs_iovec.sector sys cfg i is_write (e.phys_offset.toNat + j * SECTOR_SIZE)
            ((e.sector_addr * UInt32.ofNat SECTOR_SIZE).toNat + j * SECTOR_SIZE) s buf
            = some (true, s1, buf1) := hok
        rw [rmtfs_iovec.sectors, hbody]
        split at hv
        · exact absurd hv List.not_mem_nil
        · rename_i hcount
          simp only [if_neg hcount]
          exact ih (j + 1) s1 buf1 hv
      · exact absurd hv List.not_mem_nil

/-- And with it the request. -/
theorem entries_of_failure (es : List IovecEntry) (s : Server W) (buf : List UInt8)
    {v : Visit W} (hv : v ∈ entryVisits sys cfg i is_write es s buf) {s' : Server W}
    {buf' : List UInt8} (hfail : v.outcome sys cfg i is_write = some (false, s', buf')) :
    rmtfs_iovec.entries sys cfg i is_write es s buf = some (false, s') := by
  induction es generalizing s buf with
  | nil => exact absurd hv List.not_mem_nil
  | cons e es ih =>
    rw [entryVisits, List.mem_append] at hv
    rw [rmtfs_iovec.entries]
    rcases hv with hv | hv
    · rw [sectors_of_failure _ 0 s buf hv hfail]
    · split at hv
      · rename_i s1 buf1 hok
        rw [hok]
        exact ih s1 buf1 hv
      · exact absurd hv List.not_mem_nil

end Loops

/-! ## A server to try things on

Small enough that a request on it can be evaluated. -/

/-- A server in read-write mode with one handle, of node 1, and shared memory that starts at 0. -/
def oneHandle (w : W) (base : Option (ℕ → UInt8)) : Server W where
  rmtfds := fun i => ⟨i, 1, if i.val = 0 then some 3 else none, 0, none, none, 0⟩
  rmem := ⟨0, SECTOR_SIZE, base, 4⟩
  world := w

/-- The configuration in which the partitions are written. -/
def readWrite : Config := (storage_init none false false).1

theorem oneHandle_get (w : W) (base : Option (ℕ → UInt8)) :
    storage_get (oneHandle w base).rmtfds 1 0 = .handle ⟨0, by decide⟩ := rfl

/-! ## What a read puts into the shared memory

A visit has the state that the loops find at a sector, so what `pread` returns there, and what is then
put into the shared memory, are functions of it. Whether bytes are put there and whether they are
seen there afterwards are two things: stale bytes may be the ones that the memory held before. The
property below speaks of both. -/

/-- What the modem sees: the mapping, or what the memory device shows. -/
def Server.memory (view : W → Mem) (s : Server W) : Mem := s.rmem.base.getD (view s.world)

/-- The memory device `fd` shows `view`: no `pread` changes it, and a `pwrite` stores as many of the
bytes as it returns. -/
structure DeviceMemory (sys : Sys W) (fd : ℕ) (view : W → Mem) : Prop where
  pread : ∀ w fd' nbyte offset, view (sys.pread w fd' nbyte offset).2 = view w
  pwrite : ∀ w bytes offset, view (sys.pwrite w fd bytes offset).2 =
    writeAt (view w) offset (bytes.take ((sys.pwrite w fd bytes offset).1.getD 0))

section Reads

variable (sys : Sys W) (cfg : Config) (view : W → Mem) (i : Fin MAX_CALLERS)

/-- What `pread` returns for a sector that is read from a partition. A handle without a descriptor
has -1 for one. -/
def Visit.pread (v : Visit W) : Option (List UInt8) × W :=
  match (v.server.rmtfds i).fd with
  | none => (none, v.server.world)
  | some fd => sys.pread v.server.world fd SECTOR_SIZE v.pos

/-- The local buffer after `storage_pread` from a partition: a failed `pread` leaves it as it was. -/
def Visit.filled (v : Visit W) : List UInt8 :=
  match (v.pread sys i).1 with
  | none => v.buf
  | some bytes => bytes ++ List.replicate (SECTOR_SIZE - bytes.length) 0

/-- The bytes that are put into the shared memory for a sector that is read. If the memory is not
mapped, these are as many as `pwrite` takes. -/
def Visit.placed (v : Visit W) : List UInt8 :=
  match storage_pread sys cfg (v.server.rmtfds i) v.server.world v.buf SECTOR_SIZE v.pos with
  | none => []
  | some (bytes, w) =>
    match v.server.rmem.base with
    | some _ => if (rmtfs_mem_ptr v.server.rmem v.phys bytes.length).isSome then bytes else []
    | none =>
      bytes.take
        ((sys.pwrite w v.server.rmem.fd bytes (sizeSub v.phys v.server.rmem.address)).1.getD 0)

/-- Where in the shared memory they are put. -/
def Visit.place (v : Visit W) : ℕ :=
  match v.server.rmem.base with
  | some _ => v.phys - v.server.rmem.address
  | none => sizeSub v.phys v.server.rmem.address

/-- The store into the shared memory for a sector that is read. -/
def Visit.put (v : Visit W) : Store := ⟨v.place, v.placed sys cfg i⟩

/-- The shared memory takes at least a part of the sector: it lies in the window, or `pwrite` takes
some of the bytes in the buffer. -/
def Visit.Taken (v : Visit W) : Prop :=
  match v.server.rmem.base with
  | some _ => (rmtfs_mem_ptr v.server.rmem v.phys SECTOR_SIZE).isSome
  | none =>
    0 < ((sys.pwrite (v.pread sys i).2 v.server.rmem.fd v.buf
      (sizeSub v.phys v.server.rmem.address)).1.getD 0)

/-- The reads of a request: the memory afterwards is the one before with the stores of the sectors in
it; for a sector that is transferred that is what `pread` returned, with zeros behind it; for one that
it failed on nothing is stored, and the request fails. -/
structure ReadFailuresReported (s : Server W) (node caller_id : UInt32) (iovec : List IovecEntry)
    (stack : List UInt8) : Prop where
  memory : ∀ i, storage_get s.rmtfds node caller_id = .handle i → ∀ resp s',
    rmtfs_iovec sys cfg s node caller_id 0 iovec stack = some (resp, s') →
    s'.memory view = applyStores (s.memory view)
      ((entryVisits sys cfg i false iovec s stack).map (Visit.put sys cfg i))
  data : ∀ i, storage_get s.rmtfds node caller_id = .handle i →
    ∀ v ∈ entryVisits sys cfg i false iovec s stack, ∀ bytes, (v.pread sys i).1 = some bytes →
      (∃ s' buf', v.outcome sys cfg i false = some (true, s', buf')) →
      v.put sys cfg i = ⟨v.place, bytes ++ List.replicate (SECTOR_SIZE - bytes.length) 0⟩
  failure : ∀ i, storage_get s.rmtfds node caller_id = .handle i →
    ∀ v ∈ entryVisits sys cfg i false iovec s stack, (v.pread sys i).1 = none →
      (v.put sys cfg i).bytes = [] ∧
        ∃ s', rmtfs_iovec sys cfg s node caller_id 0 iovec stack = some (.rw_iovec internalError, s')

end Reads

section Stores

variable {sys : Sys W} {cfg : Config} {view : W → Mem} {i : Fin MAX_CALLERS}

/-- What a read puts into a memory that is mapped is there afterwards, and nothing else. -/
theorem Visit.placed_mapped {v : Visit W} {m : ℕ → UInt8} (hbase : v.server.rmem.base = some m)
    {ok : Bool} {s' : Server W} {buf' : List UInt8}
    (h : v.outcome sys cfg i false = some (ok, s', buf')) :
    s'.rmem.base
      = some (Memory.writeAt m (v.phys - v.server.rmem.address) (v.placed sys cfg i)) := by
  unfold Visit.outcome rmtfs_iovec.sector at h
  unfold Visit.placed
  rw [if_neg Bool.false_ne_true] at h
  generalize storage_pread sys cfg (v.server.rmtfds i) v.server.world v.buf SECTOR_SIZE v.pos = r at h ⊢
  obtain _ | ⟨bytes, w⟩ := r
  · cases h
  simp only [hbase, rmtfs_mem_write] at h ⊢
  cases hptr : rmtfs_mem_ptr v.server.rmem v.phys bytes.length with
  -- outside the window: nothing is placed
  | none =>
    rw [hptr] at h
    cases h
    rw [hbase, Option.isSome_none, if_neg Bool.false_ne_true]
    congr 1
    funext a
    exact (if_neg (by simp only [List.length_nil]; omega)).symm
  | some p =>
    rw [hptr] at h
    cases h
    have hp : p = v.phys - v.server.rmem.address := by
      unfold rmtfs_mem_ptr at hptr
      split at hptr
      · cases hptr
      · exact (Option.some.inj hptr).symm
    rw [Option.isSome_some, if_pos rfl, hp]
    rfl

/-- Reading a partition is nothing to the memory device. -/
theorem storage_pread_view {fd : ℕ} (hview : DeviceMemory sys fd view) {r : Rmtfd} {w w' : W}
    {buf bytes : List UInt8} {nbyte offset : ℕ}
    (h : storage_pread sys cfg r w buf nbyte offset = some (bytes, w')) : view w' = view w := by
  unfold storage_pread at h
  split at h
  · obtain ⟨_, -, heq⟩ := Option.map_eq_some_iff.mp h
    cases heq
    rfl
  split at h
  · cases h
    rfl
  · rename_i fd' _
    have hread := hview.pread w fd' nbyte offset
    rcases hcall : sys.pread w fd' nbyte offset with ⟨_ | bytes', w1⟩
    · rw [hcall] at h hread
      cases h
      exact hread
    · rw [hcall] at h hread
      cases h
      exact hread

/-- **What a visit puts into the shared memory is there afterwards**, and nothing else. -/
theorem Visit.outcome_memory {v : Visit W} (hview : DeviceMemory sys v.server.rmem.fd view) {ok : Bool}
    {s' : Server W} {buf' : List UInt8} (h : v.outcome sys cfg i false = some (ok, s', buf')) :
    s'.memory view = writeAt (v.server.memory view) v.place (v.placed sys cfg i) ∧
      s'.rmem.fd = v.server.rmem.fd := by
  cases hbase : v.server.rmem.base with
  | some m =>
    have hmapped := Visit.placed_mapped hbase h
    refine ⟨?_, ?_⟩
    · rw [Server.memory, Server.memory, hmapped, Visit.place, hbase]
      rfl
    · unfold Visit.outcome rmtfs_iovec.sector rmtfs_mem_write at h
      rw [if_neg Bool.false_ne_true, hbase] at h
      split at h
      · cases h
      · simp only at h
        split at h <;> cases h <;> rfl
  -- without a mapping the device takes the bytes, and what it shows is what it was given
  | none =>
    unfold Visit.outcome rmtfs_iovec.sector at h
    unfold Visit.placed Visit.place
    rw [if_neg Bool.false_ne_true] at h
    cases hread : storage_pread sys cfg (v.server.rmtfds i) v.server.world v.buf SECTOR_SIZE v.pos with
    | none =>
      rw [hread] at h
      cases h
    | some r =>
      obtain ⟨bytes, w⟩ := r
      have hworld := storage_pread_view hview hread
      have hwrite := hview.pwrite w bytes (sizeSub v.phys v.server.rmem.address)
      rw [hread] at h
      simp only [rmtfs_mem_write, hbase] at h ⊢
      cases h
      refine ⟨?_, rfl⟩
      simp only [Server.memory, hbase, Option.getD_none]
      rw [hwrite, hworld]

/-- The shared memory behind the inner loop. -/
theorem sectors_memory {e : IovecEntry} (left j : ℕ) {s : Server W} {buf : List UInt8}
    (hview : DeviceMemory sys s.rmem.fd view) {ok : Bool} {s' : Server W} {buf' : List UInt8}
    (h : rmtfs_iovec.sectors sys cfg i false e.phys_offset.toNat
      (e.sector_addr * UInt32.ofNat SECTOR_SIZE).toNat left j s buf = some (ok, s', buf')) :
    s'.memory view = applyStores (s.memory view)
        ((sectorVisits sys cfg i false e left j s buf).map (Visit.put sys cfg i)) ∧
      s'.rmem.fd = s.rmem.fd := by
  -- the stores of the visits are applied in order, up to the sector that failed
  induction left generalizing j s buf with
  | zero =>
    cases h
    exact ⟨rfl, rfl⟩
  | succ left ih =>
    have hbody : rmtfs_iovec.sector sys cfg i false (e.phys_offset.toNat + j * SECTOR_SIZE)
        ((e.sector_addr * UInt32.ofNat SECTOR_SIZE).toNat + j * SECTOR_SIZE) s buf
        = Visit.outcome sys cfg i false ⟨e, j, s, buf⟩ := rfl
    rw [rmtfs_iovec.sectors, hbody] at h
    rw [sectorVisits, List.map_cons]
    rcases hout : Visit.outcome sys cfg i false ⟨e, j, s, buf⟩ with _ | ⟨_ | _, s1, buf1⟩
    · rw [hout] at h
      cases h
    · rw [hout] at h
      cases h
      exact Visit.outcome_memory (v := ⟨e, j, s, buf⟩) hview hout
    · rw [hout] at h
      obtain ⟨hmem, hfd⟩ := Visit.outcome_memory (v := ⟨e, j, s, buf⟩) hview hout
      simp only at h hfd ⊢
      split at h
      · cases h
      · rename_i hcount
        rw [if_neg hcount]
        obtain ⟨hrest, hfd'⟩ := ih (j + 1) (by rwa [hfd]) h
        refine ⟨?_, hfd'.trans hfd⟩
        rw [hrest, hmem]
        rfl

/-- The shared memory behind the outer loop. -/
theorem entries_memory (es : List IovecEntry) {s : Server W} {buf : List UInt8}
    (hview : DeviceMemory sys s.rmem.fd view) {ok : Bool} {s' : Server W}
    (h : rmtfs_iovec.entries sys cfg i false es s buf = some (ok, s')) :
    s'.memory view = applyStores (s.memory view)
      ((entryVisits sys cfg i false es s buf).map (Visit.put sys cfg i)) := by
  induction es generalizing s buf with
  | nil =>
    cases h
    rfl
  | cons e es ih =>
    rw [rmtfs_iovec.entries] at h
    rw [entryVisits, List.map_append, Memory.applyStores_append]
    rcases hsectors : rmtfs_iovec.sectors sys cfg i false e.phys_offset.toNat
      (e.sector_addr * UInt32.ofNat SECTOR_SIZE).toNat e.num_sector.toNat 0 s buf with
      _ | ⟨_ | _, s1, buf1⟩
    · rw [hsectors] at h
      cases h
    · rw [hsectors] at h
      cases h
      exact (sectors_memory _ 0 hview hsectors).1
    · rw [hsectors] at h
      obtain ⟨hmem, hfd⟩ := sectors_memory _ 0 hview hsectors
      rw [← hmem]
      exact ih (by rwa [hfd]) h

end Stores

section ReadWrite

variable {sys : Sys W} {cfg : Config} {i : Fin MAX_CALLERS}
variable (hrw : cfg.storage_read_only = false)

include hrw in
/-- A failed `pread` is not told from one that went well. -/
theorem Visit.storage_pread_eq (v : Visit W) :
    storage_pread sys cfg (v.server.rmtfds i) v.server.world v.buf SECTOR_SIZE v.pos
      = some (v.filled sys i, (v.pread sys i).2) := by
  unfold storage_pread Visit.filled Visit.pread
  rw [hrw, if_neg Bool.false_ne_true]
  cases (v.server.rmtfds i).fd with
  | none => rfl
  | some fd =>
    simp only
    rcases sys.pread v.server.world fd SECTOR_SIZE v.pos with ⟨_ | bytes, w⟩ <;> rfl

variable (hpread : ∀ w fd nbyte offset bytes, (sys.pread w fd nbyte offset).1 = some bytes →
  bytes.length ≤ nbyte)

include hpread in
theorem Visit.pread_length {v : Visit W} {bytes : List UInt8}
    (h : (v.pread sys i).1 = some bytes) : bytes.length ≤ SECTOR_SIZE := by
  unfold Visit.pread at h
  split at h
  · cases h
  · exact hpread _ _ _ _ _ h

include hrw hpread in
/-- The local buffer is a sector before and after every visit. -/
theorem visits_buf_length (iovec : List IovecEntry) (s : Server W) {stack : List UInt8}
    (hstack : stack.length = SECTOR_SIZE) :
    ∀ v ∈ entryVisits sys cfg i false iovec s stack, v.buf.length = SECTOR_SIZE := by
  intro v hv
  refine (entryVisits_invariant (P := fun _ buf => buf.length = SECTOR_SIZE) ?_ iovec s stack hstack
    v hv).2.2.2
  intro v hbuf s' buf' h
  unfold Visit.outcome rmtfs_iovec.sector at h
  rw [if_neg Bool.false_ne_true, v.storage_pread_eq hrw] at h
  simp only [Option.some.injEq, Prod.mk.injEq] at h
  rw [← h.2.2, Visit.filled]
  cases hread : (v.pread sys i).1 with
  | none => exact hbuf
  | some bytes =>
    have hle := v.pread_length hpread hread
    simp only [List.length_append, List.length_replicate]
    omega

include hrw in
/-- For a sector that `pread` failed on, bytes are put into the memory exactly if it takes some. -/
theorem Visit.placed_of_failure {v : Visit W} (hbuf : v.buf.length = SECTOR_SIZE)
    (hfail : (v.pread sys i).1 = none) : v.placed sys cfg i = [] ↔ ¬ v.Taken sys i := by
  have hne : v.buf ≠ [] := by
    intro hnil
    rw [hnil] at hbuf
    cases hbuf
  -- the buffer is what the stack or the sector before left in it
  have hfilled : v.filled sys i = v.buf := by rw [Visit.filled, hfail]
  unfold Visit.placed Visit.Taken
  rw [v.storage_pread_eq hrw, hfilled]
  simp only
  cases v.server.rmem.base with
  | some m =>
    simp only [hbuf]
    cases (rmtfs_mem_ptr v.server.rmem v.phys SECTOR_SIZE).isSome with
    | true => simpa using hne
    | false => simp
  -- through the device as many bytes are placed as `pwrite` takes
  | none =>
    simp only [List.take_eq_nil_iff, hne, or_false]
    omega

include hrw in
/-- A sector that `pread` failed on and the memory does not take fails. -/
theorem Visit.outcome_of_refused {v : Visit W} (hbuf : v.buf.length = SECTOR_SIZE)
    (hfail : (v.pread sys i).1 = none) (hrefused : ¬ v.Taken sys i) :
    ∃ s', v.outcome sys cfg i false = some (false, s', v.buf) := by
  have hfilled : v.filled sys i = v.buf := by rw [Visit.filled, hfail]
  unfold Visit.outcome rmtfs_iovec.sector
  unfold Visit.Taken at hrefused
  rw [if_neg Bool.false_ne_true, v.storage_pread_eq hrw, hfilled]
  simp only [rmtfs_mem_write]
  cases hbase : v.server.rmem.base with
  | some m =>
    rw [hbase] at hrefused
    simp only [Bool.not_eq_true, Option.isSome_eq_false_iff, Option.isNone_iff_eq_none] at hrefused
    simp only [hbuf, hrefused]
    exact ⟨_, rfl⟩
  | none =>
    rw [hbase] at hrefused
    simp only [Nat.not_lt, Nat.le_zero] at hrefused
    -- `pwrite` took nothing, so it did not take a sector
    have hn : ((sys.pwrite (v.pread sys i).2 v.server.rmem.fd v.buf
        (sizeSub v.phys v.server.rmem.address)).1 == some SECTOR_SIZE) = false := by
      apply beq_eq_false_iff_ne.mpr
      intro hall
      rw [hall] at hrefused
      cases hrefused
    simp only [hn]
    exact ⟨_, rfl⟩

include hrw hpread in
/-- A sector that is transferred is put into the memory whole. -/
theorem Visit.placed_of_success {v : Visit W} {bytes : List UInt8}
    (hread : (v.pread sys i).1 = some bytes) {s' : Server W} {buf' : List UInt8}
    (h : v.outcome sys cfg i false = some (true, s', buf')) :
    v.placed sys cfg i = bytes ++ List.replicate (SECTOR_SIZE - bytes.length) 0 := by
  have hlen : (bytes ++ List.replicate (SECTOR_SIZE - bytes.length) 0).length = SECTOR_SIZE := by
    have hle := v.pread_length hpread hread
    simp only [List.length_append, List.length_replicate]
    omega
  have hfilled : v.filled sys i = bytes ++ List.replicate (SECTOR_SIZE - bytes.length) 0 := by
    rw [Visit.filled, hread]
  unfold Visit.outcome rmtfs_iovec.sector at h
  unfold Visit.placed
  rw [if_neg Bool.false_ne_true, v.storage_pread_eq hrw, hfilled] at h
  rw [v.storage_pread_eq hrw, hfilled]
  simp only [rmtfs_mem_write] at h ⊢
  cases hbase : v.server.rmem.base with
  | some m =>
    rw [hbase] at h
    simp only at h ⊢
    cases hptr : rmtfs_mem_ptr v.server.rmem v.phys
      (bytes ++ List.replicate (SECTOR_SIZE - bytes.length) 0).length with
    | none =>
      rw [hptr] at h
      cases h
    | some p => rw [Option.isSome_some, if_pos rfl]
  | none =>
    rw [hbase] at h
    simp only [Option.some.injEq, Prod.mk.injEq, beq_iff_eq] at h
    rw [h.1, Option.getD_some, List.take_of_length_le (Nat.le_of_eq hlen)]

end ReadWrite

/-- **Failed reads are reported exactly if the shared memory takes nothing of the sectors they are
for.** Whatever the handle table, the memory and the requests before, for every read request in
read-write mode. -/
theorem read_failures_reported_iff (sys : Sys W) (cfg : Config)
    (hrw : cfg.storage_read_only = false)
    (hpread : ∀ w fd nbyte offset bytes, (sys.pread w fd nbyte offset).1 = some bytes →
      bytes.length ≤ nbyte) (s : Server W) (view : W → Mem)
    (hview : DeviceMemory sys s.rmem.fd view) (node caller_id : UInt32) (iovec : List IovecEntry)
    (stack : List UInt8) (hstack : stack.length = SECTOR_SIZE) :
    ReadFailuresReported sys cfg view s node caller_id iovec stack ↔
      ∀ i, storage_get s.rmtfds node caller_id = .handle i →
        ∀ v ∈ entryVisits sys cfg i false iovec s stack, (v.pread sys i).1 = none →
          ¬ v.Taken sys i := by
  constructor
  · intro h i hget v hv hfail
    have hbuf := visits_buf_length hrw hpread iovec s hstack v hv
    exact (v.placed_of_failure hrw hbuf hfail).mp (h.failure i hget v hv hfail).1
  · intro h
    refine ⟨fun i hget resp s' hrun => ?_, fun i _ v _ bytes hread hok => ?_,
      fun i hget v hv hfail => ?_⟩
    · rw [rmtfs_iovec, hget] at hrun
      obtain ⟨r, hr, heq⟩ := Option.map_eq_some_iff.mp hrun
      cases heq
      exact entries_memory iovec hview hr
    · obtain ⟨s', buf', hok⟩ := hok
      rw [Visit.put, v.placed_of_success hrw hpread hread hok]
    · have hbuf := visits_buf_length hrw hpread iovec s hstack v hv
      have hrefused := h i hget v hv hfail
      obtain ⟨s', houtcome⟩ := v.outcome_of_refused hrw hbuf hfail hrefused
      refine ⟨(v.placed_of_failure hrw hbuf hfail).mpr hrefused, s', ?_⟩
      have hentries := entries_of_failure iovec s stack hv houtcome
      rw [rmtfs_iovec, hget]
      simp only [rmtfs_iovec.transfer, bne_self_eq_false, hentries, Option.map_some]
      rfl

/-- A read leaves the handles as they are. -/
theorem visits_rmtfds {sys : Sys W} {cfg : Config} {i : Fin MAX_CALLERS} (iovec : List IovecEntry)
    (s : Server W) (stack : List UInt8) :
    ∀ v ∈ entryVisits sys cfg i false iovec s stack, v.server.rmtfds = s.rmtfds := by
  intro v hv
  refine (entryVisits_invariant (P := fun s' _ => s'.rmtfds = s.rmtfds) ?_ iovec s stack rfl
    v hv).2.2.2
  intro v hsame s' buf' h
  unfold Visit.outcome rmtfs_iovec.sector at h
  rw [if_neg Bool.false_ne_true] at h
  split at h
  · cases h
  · simp only [Option.some.injEq, Prod.mk.injEq] at h
    rw [← h.2.1]
    exact hsame

/-- A system whose world is the memory device, descriptor 4. Every file reads as `content`. -/
def deviceFiles (content : Option (List UInt8)) : Sys Mem where
  open_rdwr m _ := (some 3, m)
  open_rdonly m _ := (some 3, m)
  lseek_end m _ := (some 1, m)
  read m _ len := (content.map (List.take len), m)
  pread m _ nbyte _ := (content.map (List.take nbyte), m)
  pwrite m fd bytes offset := (some bytes.length, if fd = 4 then writeAt m offset bytes else m)
  close m _ := m
  calloc m _ := (true, m)
  realloc m _ := (some fun _ => 0, m)

/-- Two entries are read to the memory device from a partition of one byte, 7: each sector is filled
up with zeros. -/
theorem read_failures_reported_short :
    ReadFailuresReported (deviceFiles (some [7])) readWrite id (oneHandle (fun _ => 1) none) 1 0
      [⟨0, 0, 2⟩, ⟨5, 2048, 1⟩] ones := by
  refine (read_failures_reported_iff (deviceFiles (some [7])) readWrite rfl ?_ _ id ?_ 1 0 _ ones
    List.length_replicate).mpr ?_
  · intro w fd nbyte offset bytes h
    cases h
    exact List.length_take_le ..
  · refine ⟨fun _ _ _ _ => rfl, fun m bytes offset => ?_⟩
    exact congrArg (writeAt m offset) (List.take_length (l := bytes)).symm
  · intro i hget v hv hfail
    rw [oneHandle_get] at hget
    cases hget
    unfold Visit.pread at hfail
    rw [visits_rmtfds _ _ _ v hv] at hfail
    cases hfail

/-- After a failed read the modem is given what the buffer held before. -/
theorem read_failure_unreported :
    ¬ ReadFailuresReported (deviceFiles none) readWrite id
      (oneHandle (fun _ => 0) (some fun _ => 0)) 1 0 [⟨0, 0, 1⟩] ones := by
  intro h
  have hvisit : (⟨⟨0, 0, 1⟩, 0, oneHandle (fun _ => 0) (some fun _ => 0), ones⟩ : Visit Mem) ∈
      entryVisits (deviceFiles none) readWrite ⟨0, by decide⟩ false [⟨0, 0, 1⟩]
        (oneHandle (fun _ => 0) (some fun _ => 0)) ones :=
    List.mem_append_left _ List.mem_cons_self
  obtain ⟨hput, -⟩ := h.failure _ (oneHandle_get _ _) _ hvisit rfl
  simp only [Visit.put] at hput
  exact (Visit.placed_of_failure rfl List.length_replicate rfl).mp hput rfl

end Dragonboard.Rmtfs
