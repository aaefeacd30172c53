/-
The offsets that an RW_IOVEC gives to the storage.

The loops of `rmtfs_iovec` are gone through once more, with each call of `storage_pread` and
`storage_pwrite` written down as it is made: for which sector it is, how many bytes, and from which
offset on. A sector that fails before its call, because the shared memory could not be read, has none.
Without what is written down these are the loops of `Rmtfs.lean` (`rmtfs_iovec_calls_snd`), also where
they do not come to an end.

The product of `sector_addr` and the sector size is formed in 32 bits before it is widened to an
`off_t`, so an address from `2 ^ 23` on is taken for a lower one. The offsets are those of the request
exactly if no call is for such an entry (`sector_addressing_iff`).
-/
import Dragonboard.RmtfsSectors

set_option autoImplicit false

namespace Dragonboard.Rmtfs

variable {W : Type}

/-! ## Calls

A call is written down by the function that makes it, with the very arguments that it passes on. The
loops only add which sector they are at. -/

/-- A call of `storage_pread` or of `storage_pwrite`. -/
structure StorageCall where
  nbyte : ℕ
  offset : ℕ
deriving DecidableEq, Repr

/-- A call for the sector `j` of an entry. -/
structure SectorCall where
  entry : IovecEntry
  j : ℕ
  call : StorageCall
deriving DecidableEq, Repr

section Calls

variable (sys : Sys W) (cfg : Config)

/-- `storage_pread`, and the call of it. -/
def storage_pread.call (r : Rmtfd) (w : W) (buf : List UInt8) (nbyte offset : ℕ) :
    List StorageCall × Option (List UInt8 × W) :=
  ([⟨nbyte, offset⟩], storage_pread sys cfg r w buf nbyte offset)

/-- `storage_pwrite`, and the call of it. -/
def storage_pwrite.call (r : Rmtfd) (w : W) (bytes : List UInt8) (offset : ℕ) :
    List StorageCall × (Option ℕ × Rmtfd × W) :=
  ([⟨bytes.length, offset⟩], storage_pwrite sys cfg r w bytes offset)

/-- The body of the inner loop, with its calls. -/
def rmtfs_iovec.sector.calls (i : Fin MAX_CALLERS) (is_write : Bool) (phys pos : ℕ) (s : Server W)
    (buf : List UInt8) : List StorageCall × Option (Bool × Server W × List UInt8) :=
  if is_write then
    match rmtfs_mem_read sys s.rmem s.world phys SECTOR_SIZE with
    | (none, w) => ([], some (false, { s with world := w }, buf))
    | (some bytes, w) =>
      if bytes.length = SECTOR_SIZE then
        match storage_pwrite.call sys cfg (s.rmtfds i) w bytes pos with
        | (calls, n, r, w) =>
          (calls, some (n == some SECTOR_SIZE,
            { s with rmtfds := Function.update s.rmtfds i r, world := w }, bytes))
      else ([], some (false, { s with world := w }, bytes ++ buf.drop bytes.length))
  else
    match storage_pread.call sys cfg (s.rmtfds i) s.world buf SECTOR_SIZE pos with
    | (calls, none) => (calls, none)
    | (calls, some (buf, w)) =>
      match rmtfs_mem_write sys s.rmem w phys buf with
      | (n, rmem, w) =>
        (calls, some (n == some SECTOR_SIZE, { s with rmem := rmem, world := w }, buf))

/-- The inner loop, with its calls. -/
def rmtfs_iovec.sectors.calls (i : Fin MAX_CALLERS) (is_write : Bool) (e : IovecEntry)
    (phys_base sector_base : ℕ) : ℕ → ℕ → Server W → List UInt8 →
      List SectorCall × Option (Bool × Server W × List UInt8)
  | 0, _, s, buf => ([], some (true, s, buf))
  | left + 1, j, s, buf =>
    match rmtfs_iovec.sector.calls sys cfg i is_write (phys_base + j * SECTOR_SIZE)
        (sector_base + j * SECTOR_SIZE) s buf with
    | (calls, none) => (calls.map (.mk e j), none)
    | (calls, some (false, s, buf)) => (calls.map (.mk e j), some (false, s, buf))
    | (calls, some (true, s, buf)) =>
      if j + 1 = 2 ^ 31 then (calls.map (.mk e j), none)
      else
        match rmtfs_iovec.sectors.calls i is_write e phys_base sector_base left (j + 1) s buf with
        | (later, r) => (calls.map (.mk e j) ++ later, r)

/-- The outer loop, with its calls. -/
def rmtfs_iovec.entries.calls (i : Fin MAX_CALLERS) (is_write : Bool) :
    List IovecEntry → Server W → List UInt8 → List SectorCall × Option (Bool × Server W)
  | [], s, _ => ([], some (true, s))
  | e :: es, s, buf =>
    match rmtfs_iovec.sectors.calls sys cfg i is_write e e.phys_offset.toNat
        (e.sector_addr * UInt32.ofNat SECTOR_SIZE).toNat e.num_sector.toNat 0 s buf with
    | (calls, none) => (calls, none)
    | (calls, some (false, s, _)) => (calls, some (false, s))
    | (calls, some (true, s, buf)) =>
      match rmtfs_iovec.entries.calls i is_write es s buf with
      | (later, r) => (calls ++ later, r)

/-- `rmtfs_iovec`, with the calls of the storage that it makes. -/
def rmtfs_iovec.calls (s : Server W) (node caller_id : UInt32) (direction : UInt8)
    (iovec : List IovecEntry) (stack : List UInt8) :
    List SectorCall × Option (Response × Server W) :=
  match storage_get s.rmtfds node caller_id with
  | .outside => ([], none)
  | .null => ([], some (.rw_iovec (qmi_result_error .success QMI_RMTFS_ERR_INTERNAL), s))
  | .handle i =>
    match rmtfs_iovec.entries.calls sys cfg i (direction != 0) iovec s stack with
    | (calls, r) => (calls, r.map fun r =>
        (.rw_iovec (if r.1 then .success else qmi_result_error .success QMI_RMTFS_ERR_INTERNAL),
          r.2))

end Calls

/-! ## The loops with their calls are the loops

The recording changes nothing: without the calls these are the functions of `Rmtfs`. -/

section Loops

variable {sys : Sys W} {cfg : Config} {i : Fin MAX_CALLERS} {is_write : Bool}

theorem sector_calls_snd (phys pos : ℕ) (s : Server W) (buf : List UInt8) :
    (rmtfs_iovec.sector.calls sys cfg i is_write phys pos s buf).2 =
      rmtfs_iovec.sector sys cfg i is_write phys pos s buf := by
  unfold rmtfs_iovec.sector.calls rmtfs_iovec.sector storage_pread.call storage_pwrite.call
  cases is_write with
  | true =>
    simp only [if_true]
    rcases rmtfs_mem_read sys s.rmem s.world phys SECTOR_SIZE with ⟨_ | bytes, w⟩
    · rfl
    · simp only
      split <;> rfl
  | false =>
    simp only [Bool.false_eq_true, if_false]
    cases storage_pread sys cfg (s.rmtfds i) s.world buf SECTOR_SIZE pos with
    | none => rfl
    | some r => rfl

theorem sectors_calls_snd (e : IovecEntry) (phys_base sector_base left j : ℕ) (s : Server W)
    (buf : List UInt8) :
    (rmtfs_iovec.sectors.calls sys cfg i is_write e phys_base sector_base left j s buf).2 =
      rmtfs_iovec.sectors sys cfg i is_write phys_base sector_base left j s buf := by
  induction left generalizing j s buf with
  | zero => rfl
  | succ left ih =>
    rw [rmtfs_iovec.sectors.calls, rmtfs_iovec.sectors, ← sector_calls_snd]
    rcases rmtfs_iovec.sector.calls sys cfg i is_write (phys_base + j * SECTOR_SIZE)
      (sector_base + j * SECTOR_SIZE) s buf with ⟨calls, _ | ⟨_ | _, s', buf'⟩⟩
    · rfl
    · rfl
    · simp only
      split
      · rfl
      · exact ih (j + 1) s' buf'

theorem entries_calls_snd (es : List IovecEntry) (s : Server W) (buf : List UInt8) :
    (rmtfs_iovec.entries.calls sys cfg i is_write es s buf).2 =
      rmtfs_iovec.entries sys cfg i is_write es s buf := by
  induction es generalizing s buf with
  | nil => rfl
  | cons e es ih =>
    rw [rmtfs_iovec.entries.calls, rmtfs_iovec.entries, ← sectors_calls_snd e]
    rcases rmtfs_iovec.sectors.calls sys cfg i is_write e e.phys_offset.toNat
      (e.sector_addr * UInt32.ofNat SECTOR_SIZE).toNat e.num_sector.toNat 0 s buf with
      ⟨calls, _ | ⟨_ | _, s', buf'⟩⟩
    · rfl
    · rfl
    · exact ih s' buf'

/-- Without the calls this is `rmtfs_iovec`. -/
theorem rmtfs_iovec_calls_snd (sys : Sys W) (cfg : Config) (s : Server W) (node caller_id : UInt32)
    (direction : UInt8) (iovec : List IovecEntry) (stack : List UInt8) :
    (rmtfs_iovec.calls sys cfg s node caller_id direction iovec stack).2 =
      rmtfs_iovec sys cfg s node caller_id direction iovec stack := by
  rw [rmtfs_iovec.calls, rmtfs_iovec]
  cases storage_get s.rmtfds node caller_id with
  | outside => rfl
  | null => rfl
  | handle i =>
    simp only [rmtfs_iovec.transfer]
    rw [← entries_calls_snd]

/-! ## The calls of a request

Where the storage is asked to read or write is computed from the entry once, before its sectors,
and advanced by a sector at a time. -/

/-- A sector is one call at most, for as many bytes as it has. -/
theorem sector_calls_spec (sys : Sys W) (cfg : Config) (i : Fin MAX_CALLERS) (is_write : Bool)
    (phys pos : ℕ) (s : Server W) (buf : List UInt8) :
    ∀ c ∈ (rmtfs_iovec.sector.calls sys cfg i is_write phys pos s buf).1, c = ⟨SECTOR_SIZE, pos⟩ := by
  intro c hc
  unfold rmtfs_iovec.sector.calls storage_pread.call storage_pwrite.call at hc
  cases is_write with
  | true =>
    simp only [if_true] at hc
    split at hc
    · exact absurd hc List.not_mem_nil
    · split at hc
      · rename_i hlen
        rw [List.mem_singleton.mp hc, hlen]
      · exact absurd hc List.not_mem_nil
  | false =>
    simp only [Bool.false_eq_true, if_false] at hc
    cases hread : storage_pread sys cfg (s.rmtfds i) s.world buf SECTOR_SIZE pos with
    | none =>
      rw [hread] at hc
      exact List.mem_singleton.mp hc
    | some r =>
      rw [hread] at hc
      exact List.mem_singleton.mp hc

/-- A call of the inner loop is for a sector of the entry, and starts as many sectors behind the
base. -/
theorem sectors_calls_spec (sys : Sys W) (cfg : Config) (i : Fin MAX_CALLERS) (is_write : Bool)
    (e : IovecEntry) (phys_base sector_base left j : ℕ) (s : Server W)
    (buf : List UInt8) :
    ∀ c ∈ (rmtfs_iovec.sectors.calls sys cfg i is_write e phys_base sector_base left j s buf).1,
      c.entry = e ∧ c.j < j + left ∧ c.call = ⟨SECTOR_SIZE, sector_base + c.j * SECTOR_SIZE⟩ := by
  induction left generalizing j s buf with
  | zero =>
    intro c hc
    exact absurd hc List.not_mem_nil
  | succ left ih =>
    intro c hc
    rw [rmtfs_iovec.sectors.calls] at hc
    have hspec := sector_calls_spec sys cfg i is_write
      (phys_base + j * SECTOR_SIZE) (sector_base + j * SECTOR_SIZE) s buf
    generalize rmtfs_iovec.sector.calls sys cfg i is_write (phys_base + j * SECTOR_SIZE)
      (sector_base + j * SECTOR_SIZE) s buf = r at hc hspec
    obtain ⟨calls, r⟩ := r
    -- the calls of this sector
    have hthis : c ∈ calls.map (SectorCall.mk e j) → c.entry = e ∧ c.j < j + (left + 1) ∧
        c.call = ⟨SECTOR_SIZE, sector_base + c.j * SECTOR_SIZE⟩ := by
      intro hmem
      obtain ⟨call, hcall, rfl⟩ := List.mem_map.mp hmem
      exact ⟨rfl, Nat.lt_add_of_pos_right (Nat.succ_pos left), hspec call hcall⟩
    rcases r with _ | ⟨_ | _, s', buf'⟩
    · exact hthis hc
    · exact hthis hc
    · simp only at hc
      split at hc
      · exact hthis hc
      · rcases List.mem_append.mp hc with hc | hc
        · exact hthis hc
        · obtain ⟨he, hj, hcall⟩ := ih (j + 1) s' buf' c hc
          exact ⟨he, by omega, hcall⟩

/-- **What a call is given.** The sectors of an entry lie one behind the other, from a base that was
cut to 32 bits. -/
theorem entries_calls_spec (es : List IovecEntry) (s : Server W) (buf : List UInt8) :
    ∀ c ∈ (rmtfs_iovec.entries.calls sys cfg i is_write es s buf).1,
      c.entry ∈ es ∧ c.j < c.entry.num_sector.toNat ∧
        c.call = ⟨SECTOR_SIZE,
          (c.entry.sector_addr * UInt32.ofNat SECTOR_SIZE).toNat + c.j * SECTOR_SIZE⟩ := by
  induction es generalizing s buf with
  | nil =>
    intro c hc
    exact absurd hc List.not_mem_nil
  | cons e es ih =>
    intro c hc
    rw [rmtfs_iovec.entries.calls] at hc
    have hspec := sectors_calls_spec sys cfg i is_write e
      e.phys_offset.toNat (e.sector_addr * UInt32.ofNat SECTOR_SIZE).toNat e.num_sector.toNat 0 s buf
    generalize rmtfs_iovec.sectors.calls sys cfg i is_write e e.phys_offset.toNat
      (e.sector_addr * UInt32.ofNat SECTOR_SIZE).toNat e.num_sector.toNat 0 s buf = r at hc hspec
    obtain ⟨calls, r⟩ := r
    -- the calls for this entry
    have hthis : c ∈ calls → c.entry ∈ e :: es ∧ c.j < c.entry.num_sector.toNat ∧
        c.call = ⟨SECTOR_SIZE,
          (c.entry.sector_addr * UInt32.ofNat SECTOR_SIZE).toNat + c.j * SECTOR_SIZE⟩ := by
      intro hmem
      obtain ⟨rfl, hj, hcall⟩ := hspec c hmem
      rw [Nat.zero_add] at hj
      exact ⟨List.mem_cons_self, hj, hcall⟩
    rcases r with _ | ⟨_ | _, s', buf'⟩
    · exact hthis hc
    · exact hthis hc
    · rcases List.mem_append.mp hc with hc | hc
      · exact hthis hc
      · obtain ⟨hmem, hrest⟩ := ih s' buf' c hc
        exact ⟨List.mem_cons_of_mem e hmem, hrest⟩

theorem rmtfs_iovec_calls_spec {s : Server W} {node caller_id : UInt32} {direction : UInt8}
    {iovec : List IovecEntry} {stack : List UInt8} {c : SectorCall}
    (hc : c ∈ (rmtfs_iovec.calls sys cfg s node caller_id direction iovec stack).1) :
    c.j < c.entry.num_sector.toNat ∧ c.call = ⟨SECTOR_SIZE,
      (c.entry.sector_addr * UInt32.ofNat SECTOR_SIZE).toNat + c.j * SECTOR_SIZE⟩ := by
  unfold rmtfs_iovec.calls at hc
  split at hc
  · exact absurd hc List.not_mem_nil
  · exact absurd hc List.not_mem_nil
  · exact (entries_calls_spec iovec s stack c hc).2

end Loops

/-! ## Where the sectors are

The base of an entry is a product of two `uint32_t`. It wraps from sector `2^23` on, and then two
entries for different sectors may come to the same place of the storage. -/

/-- The sector ranges that two entries name have no sector in common. -/
def IovecEntry.Apart (e e' : IovecEntry) : Prop :=
  e.sector_addr.toNat + e.num_sector.toNat ≤ e'.sector_addr.toNat ∨
    e'.sector_addr.toNat + e'.num_sector.toNat ≤ e.sector_addr.toNat

/-- The storage bytes of a call. -/
def StorageCall.Touches (c : StorageCall) (a : ℕ) : Prop := c.offset ≤ a ∧ a < c.offset + c.nbyte

/-- Every sector is asked for where the request says, whole, and sectors of ranges that are apart have
no byte in common. -/
structure SectorsExact (calls : List SectorCall) : Prop where
  exact_ : ∀ c ∈ calls, c.call = ⟨SECTOR_SIZE, (c.entry.sector_addr.toNat + c.j) * SECTOR_SIZE⟩
  apart : ∀ c ∈ calls, ∀ c' ∈ calls, c.entry.Apart c'.entry →
    ∀ a, ¬ (c.call.Touches a ∧ c'.call.Touches a)

/-- The product fits 32 bits up to `2 ^ 23` sectors. -/
theorem sector_base_eq_iff (sector_addr : UInt32) (j : ℕ) :
    (sector_addr * UInt32.ofNat SECTOR_SIZE).toNat + j * SECTOR_SIZE =
        (sector_addr.toNat + j) * SECTOR_SIZE ↔ sector_addr.toNat < 2 ^ 23 := by
  have hlt := sector_addr.toNat_lt
  have hbase : (sector_addr * UInt32.ofNat SECTOR_SIZE).toNat = sector_addr.toNat * 512 % 2 ^ 32 := by
    rw [UInt32.toNat_mul]
    rfl
  -- the product is reduced modulo `2 ^ 32` before the sector is added
  rw [hbase, SECTOR_SIZE]
  omega

/-- **The storage is asked for the sectors of the request exactly if their addresses are below
`2 ^ 23`**, those of the entries for which it is asked at all. -/
theorem sector_addressing_iff (sys : Sys W) (cfg : Config) (s : Server W) (node caller_id : UInt32)
    (direction : UInt8) (iovec : List IovecEntry) (stack : List UInt8) :
    (rmtfs_iovec.calls sys cfg s node caller_id direction iovec stack).2 =
        rmtfs_iovec sys cfg s node caller_id direction iovec stack ∧
      (SectorsExact (rmtfs_iovec.calls sys cfg s node caller_id direction iovec stack).1 ↔
        ∀ c ∈ (rmtfs_iovec.calls sys cfg s node caller_id direction iovec stack).1,
          c.entry.sector_addr.toNat < 2 ^ 23) := by
  refine ⟨rmtfs_iovec_calls_snd sys cfg s node caller_id direction iovec stack, ?_⟩
  constructor
  · intro h c hc
    have hoffset := congrArg StorageCall.offset ((rmtfs_iovec_calls_spec hc).2.symm.trans (h.exact_ c hc))
    exact (sector_base_eq_iff _ _).mp hoffset
  · intro h
    have hexact : ∀ c ∈ (rmtfs_iovec.calls sys cfg s node caller_id direction iovec stack).1,
        c.call = ⟨SECTOR_SIZE, (c.entry.sector_addr.toNat + c.j) * SECTOR_SIZE⟩ := by
      intro c hc
      rw [(rmtfs_iovec_calls_spec hc).2, (sector_base_eq_iff _ _).mpr (h c hc)]
    refine ⟨hexact, fun c hc c' hc' hapart a ha => ?_⟩
    have hj := (rmtfs_iovec_calls_spec hc).1
    have hj' := (rmtfs_iovec_calls_spec hc').1
    -- exact offsets lie in the sector ranges of their entries
    obtain ⟨⟨hlo, hhi⟩, hlo', hhi'⟩ := ha
    rw [hexact c hc] at hlo hhi
    rw [hexact c' hc'] at hlo' hhi'
    simp only [SECTOR_SIZE] at hlo hhi hlo' hhi'
    rcases hapart with hapart | hapart <;> omega

/-- Sector `2 ^ 23` is read from the start of the partition. -/
theorem sector_address_wraps :
    (rmtfs_iovec.calls oneByteFiles readWrite (oneHandle () (some fun _ => 0)) 1 0 0
        [⟨8388608, 0, 1⟩] ones).1 = [⟨⟨8388608, 0, 1⟩, 0, ⟨SECTOR_SIZE, 0⟩⟩] ∧
      ¬ SectorsExact (rmtfs_iovec.calls oneByteFiles readWrite (oneHandle () (some fun _ => 0)) 1 0 0
        [⟨8388608, 0, 1⟩] ones).1 := by
  have hcalls : (rmtfs_iovec.calls oneByteFiles readWrite (oneHandle () (some fun _ => 0)) 1 0 0
      [⟨8388608, 0, 1⟩] ones).1 = [⟨⟨8388608, 0, 1⟩, 0, ⟨SECTOR_SIZE, 0⟩⟩] := by
    decide +kernel
  refine ⟨hcalls, fun h => ?_⟩
  rw [hcalls] at h
  exact absurd (h.exact_ _ (List.mem_singleton_self _)) (by decide)

end Dragonboard.Rmtfs
