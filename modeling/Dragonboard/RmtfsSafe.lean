/-
Which requests the handlers carry out.

A handler has no defined behaviour for some requests (`none` in the model). Here these are said in terms of the
request and of the state it meets (`Safe`): the caller id is not negative; the handle whose error is
asked for is there, since that is the case in which `rmtfs_get_dev_error` does not use it; and a transfer follows
its own sectors. A sector that is read from a shadow buffer has to start at or before
`shadow_len`, or lie in the block by chance; and the counter of an entry must not overflow.

The block of a slot has at least the bytes of its shadow file (`Blocks`); that is the invariant behind
it.
-/
import Dragonboard.RmtfsCommands
import Dragonboard.ShadowFile

set_option autoImplicit false

namespace Dragonboard.Rmtfs

/-! ## Requests that are carried out

What a request must be so that its handler comes back is said without running it. Each of the
conditions is one place in the source: a negative id, a read behind the block, a counter that
overflows, the device error of a handle that is not there. -/

section Safe

variable {W : Type} (sys : Sys W) (cfg : Config)

/-- A read of a sector from a shadow buffer starts at or before `shadow_len`, or is one of the block
that was allocated for it. -/
def InBlock (r : Rmtfd) (pos : ℕ) : Prop :=
  pos ≤ r.shadow_len ∨ pos + SECTOR_SIZE ≤ (r.shadow_buf.getD []).length

/-- The sectors of an entry from the sector `j` on, up to the first one that fails: those that are
read from a shadow buffer are in its block, and there is no 2^31st. -/
def SectorsSafe (i : Fin MAX_CALLERS) (is_write : Bool) (phys_base sector_base : ℕ) :
    ℕ → ℕ → Server W → List UInt8 → Prop
  | 0, _, _, _ => True
  | left + 1, j, s, buf =>
    (is_write = false → cfg.storage_read_only = true →
      InBlock (s.rmtfds i) (sector_base + j * SECTOR_SIZE)) ∧
    ∀ s' buf', rmtfs_iovec.sector sys cfg i is_write (phys_base + j * SECTOR_SIZE)
        (sector_base + j * SECTOR_SIZE) s buf = some (true, s', buf') →
      j + 1 ≠ 2 ^ 31 ∧ SectorsSafe i is_write phys_base sector_base left (j + 1) s' buf'

/-- The same for the entries of a request. -/
def EntriesSafe (i : Fin MAX_CALLERS) (is_write : Bool) :
    List IovecEntry → Server W → List UInt8 → Prop
  | [], _, _ => True
  | e :: es, s, buf =>
    SectorsSafe sys cfg i is_write e.phys_offset.toNat
      (e.sector_addr * UInt32.ofNat SECTOR_SIZE).toNat e.num_sector.toNat 0 s buf ∧
    ∀ s' buf', rmtfs_iovec.sectors sys cfg i is_write e.phys_offset.toNat
        (e.sector_addr * UInt32.ofNat SECTOR_SIZE).toNat e.num_sector.toNat 0 s buf
        = some (true, s', buf') →
      EntriesSafe i is_write es s' buf'

/-- What a request must be for its handler to come back: an id is not negative; a read stays in the
block of its slot; and the handle whose error is asked for is one that the node has. -/
def Safe (s : Server W) (node : UInt32) (stack : List UInt8) : Command → Prop
  | .request (.open_ _) => True
  | .request (.close c) => c.toNat < 2 ^ 31
  | .request (.rw_iovec c direction iovec) => c.toNat < 2 ^ 31 ∧
    ∀ i, storage_get s.rmtfds node c = .handle i →
      EntriesSafe sys cfg i (direction != 0) iovec s stack
  | .request (.get_dev_error c) => ∃ h : c.toNat < MAX_CALLERS, (s.rmtfds ⟨c.toNat, h⟩).node = node
  | .alloc_buf _ _ => True

end Safe

section Defined

variable {W : Type} {sys : Sys W} {cfg : Config} {i : Fin MAX_CALLERS} {is_write : Bool}

/-- The block of a slot has at least the bytes of its shadow file. -/
def Blocks (t : Table) : Prop :=
  ∀ i, (t i).shadow_len ≤ ((t i).shadow_buf.getD []).length

theorem blocks_init (root : Option String) (read_only use_partitions : Bool) :
    Blocks (storage_init root read_only use_partitions).2 := fun _ => Nat.zero_le _

theorem Blocks.update {t : Table} (h : Blocks t) (i : Fin MAX_CALLERS) {r : Rmtfd}
    (hr : r.shadow_len ≤ (r.shadow_buf.getD []).length) : Blocks (Function.update t i r) := by
  apply (Function.forall_update_iff t
    fun _ r => r.shadow_len ≤ (r.shadow_buf.getD []).length).mpr
  exact ⟨hr, fun j _ => h j⟩

theorem storage_pwrite_block (sys : Sys W) (cfg : Config) {r : Rmtfd} (hr : r.shadow_len ≤ (r.shadow_buf.getD []).length) (w : W)
    (bytes : List UInt8) (offset : ℕ) :
    (storage_pwrite sys cfg r w bytes offset).2.1.shadow_len ≤
      ((storage_pwrite sys cfg r w bytes offset).2.1.shadow_buf.getD []).length := by
  unfold storage_pwrite
  simp only
  split
  · split <;> exact hr
  split
  · exact hr
  split
  · split
    · exact hr
    · simp only [Option.getD_some]
      -- the block was just made as long as what is written needs
      rw [length_overwrite (by simp [resize])]
      simp [resize]
  -- what is written lies in the block, whose length stays
  · rename_i hfits
    cases hbuf : r.shadow_buf with
    | none =>
      rw [hbuf] at hr
      exact hr
    | some buf =>
      rw [hbuf, Option.getD_some] at hr
      simp only [Option.map_some, Option.getD_some]
      rw [length_overwrite (by omega)]
      exact hr

theorem sector_blocks {phys pos : ℕ} {s : Server W} {buf : List UInt8} (hs : Blocks s.rmtfds)
    {r : Bool × Server W × List UInt8}
    (h : rmtfs_iovec.sector sys cfg i is_write phys pos s buf = some r) : Blocks r.2.1.rmtfds := by
  unfold rmtfs_iovec.sector at h
  split at h
  · split at h
    · cases h
      exact hs
    split at h
    · rename_i bytes w _ _
      have hblock := storage_pwrite_block sys cfg (hs i) w bytes pos
      cases h
      exact hs.update i hblock
    · cases h
      exact hs
  · split at h
    · cases h
    · cases h
      exact hs

theorem sectors_blocks {phys_base sector_base left j : ℕ} {s : Server W} {buf : List UInt8}
    (hs : Blocks s.rmtfds) {r : Bool × Server W × List UInt8}
    (h : rmtfs_iovec.sectors sys cfg i is_write phys_base sector_base left j s buf = some r) :
    Blocks r.2.1.rmtfds := by
  induction left generalizing j s buf with
  | zero =>
    cases h
    exact hs
  | succ left ih =>
    rw [rmtfs_iovec.sectors] at h
    split at h
    · cases h
    · rename_i hsector
      cases h
      exact sector_blocks hs hsector
    · rename_i hsector
      split at h
      · cases h
      · exact ih (sector_blocks hs hsector) h

theorem entries_blocks {es : List IovecEntry} {s : Server W} {buf : List UInt8}
    (hs : Blocks s.rmtfds) {r : Bool × Server W}
    (h : rmtfs_iovec.entries sys cfg i is_write es s buf = some r) : Blocks r.2.rmtfds := by
  induction es generalizing s buf with
  | nil =>
    cases h
    exact hs
  | cons e es ih =>
    rw [rmtfs_iovec.entries] at h
    split at h
    · cases h
    · rename_i hsectors
      cases h
      exact sectors_blocks hs hsectors
    · rename_i hsectors
      exact ih (sectors_blocks hs hsectors) h

theorem populate_block (w : W) (file : String) {buf : List UInt8} {len : ℕ} {w' : W}
    (h : storage_populate_shadow_buf sys w file = (some (buf, len), w')) : len ≤ buf.length := by
  unfold storage_populate_shadow_buf at h
  split at h
  · cases h
  split at h
  · cases h
  split at h
  · cases h
  split at h
  · cases h
  · cases h
    simp

theorem open_blocks {s : Server W} (hs : Blocks s.rmtfds) {node : UInt32} {stack : List UInt8}
    {path : String} {r : Response × Server W}
    (h : handle sys cfg s node stack (.open_ path) = some r) : Blocks r.2.rmtfds := by
  have hopen : Blocks (storage_open sys cfg s.rmtfds s.world node path).2.1 := by
    unfold storage_open
    split
    · exact hs
    split
    · exact hs
    split
    · exact hs
    split
    · split
      · exact hs
      · rename_i hload
        exact hs.update _ (populate_block s.world _ hload)
    · split
      · exact hs
      · exact hs.update _ (Nat.zero_le _)
  rw [handle, rmtfs_open] at h
  split at h
  · rename_i hr
    rw [hr] at hopen
    cases h
    exact hopen
  · rename_i hr
    rw [hr] at hopen
    cases h
    exact hopen

theorem command_blocks {s : Server W} (hs : Blocks s.rmtfds) {node : UInt32} {stack : List UInt8}
    {c : Command} {r : Answer × Server W} (h : command sys cfg s node stack c = some r) :
    Blocks r.2.rmtfds := by
  cases c with
  | alloc_buf c size =>
    cases h
    exact hs
  | request request =>
    rw [command, Option.map_eq_some_iff] at h
    obtain ⟨⟨response, s'⟩, h, rfl⟩ := h
    cases request with
    | open_ path => exact open_blocks hs h
    | close c =>
      rw [handle, rmtfs_close] at h
      split at h
      · cases h
      · cases h
        exact hs
      · cases h
        exact hs.update _ (Nat.zero_le _)
    | rw_iovec c direction iovec =>
      rw [handle, rmtfs_iovec] at h
      split at h
      · cases h
      · cases h
        exact hs
      · obtain ⟨r, hr, hs'⟩ := Option.map_eq_some_iff.mp h
        cases hs'
        exact entries_blocks hs hr
    | get_dev_error c =>
      rw [handle, rmtfs_get_dev_error] at h
      split at h
      · cases h
      · cases h
        exact hs
      · cases h

/-! ## Which requests are carried out

And the conditions are exact. -/

/-- A read from a shadow buffer copies from its block, or nothing. -/
theorem shadow_isSome_iff {r : Rmtfd} (hr : r.shadow_len ≤ (r.shadow_buf.getD []).length) {pos : ℕ}
    (hpos : pos < 2 ^ 63) :
    (storage_pread.shadow r SECTOR_SIZE pos).isSome ↔ InBlock r pos := by
  have hcopied : storage_pread.copied r.shadow_len SECTOR_SIZE pos ≤ SECTOR_SIZE := Nat.min_le_left _ _
  unfold storage_pread.shadow InBlock
  simp only
  by_cases hle : pos ≤ r.shadow_len
  -- up to the end of the shadow file, which is in the block by `Blocks`
  · have hend : pos + storage_pread.copied r.shadow_len SECTOR_SIZE pos ≤ r.shadow_len := by
      have hsub : sizeSub r.shadow_len pos ≤ r.shadow_len - pos := by
        unfold sizeSub
        omega
      have hmin : storage_pread.copied r.shadow_len SECTOR_SIZE pos ≤ sizeSub r.shadow_len pos :=
        Nat.min_le_right _ _
      omega
    refine ⟨fun _ => .inl hle, fun _ => ?_⟩
    split
    · rfl
    · rename_i hsome
      cases hbuf : r.shadow_buf with
      | none =>
        rw [hbuf] at hr
        have hzero : r.shadow_len = 0 := Nat.le_zero.mp hr
        omega
      | some buf =>
        rw [hbuf, Option.getD_some] at hr
        simp only
        rw [if_pos (by omega)]
        rfl
  · -- behind the end the difference wraps, and a whole sector is copied
    have hall : storage_pread.copied r.shadow_len SECTOR_SIZE pos = SECTOR_SIZE := by
      have hsub : SECTOR_SIZE ≤ sizeSub r.shadow_len pos := by
        unfold sizeSub SECTOR_SIZE
        omega
      exact Nat.min_eq_left hsub
    rw [hall, if_neg (by decide)]
    cases hbuf : r.shadow_buf with
    | none =>
      simp only [Option.isSome_none, Bool.false_eq_true, Option.getD_none, List.length_nil, false_iff]
      unfold SECTOR_SIZE
      omega
    | some buf =>
      simp only [Option.getD_some]
      split
      · rename_i hin
        exact ⟨fun _ => .inr hin, fun _ => rfl⟩
      · rename_i hout
        simp only [Option.isSome_none, Bool.false_eq_true, false_iff]
        omega

theorem sector_isSome_iff {phys pos : ℕ} {s : Server W} {buf : List UInt8} (hs : Blocks s.rmtfds)
    (hpos : pos < 2 ^ 63) :
    (rmtfs_iovec.sector sys cfg i is_write phys pos s buf).isSome ↔
      (is_write = false → cfg.storage_read_only = true → InBlock (s.rmtfds i) pos) := by
  unfold rmtfs_iovec.sector
  cases is_write with
  | true =>
    simp only [if_true, reduceCtorEq, false_imp_iff, iff_true]
    split
    · rfl
    · split <;> rfl
  | false =>
    simp only [Bool.false_eq_true, if_false, true_imp_iff]
    unfold storage_pread
    cases hro : cfg.storage_read_only with
    | true =>
      have hshadow := shadow_isSome_iff (hs i) hpos
      rw [if_pos rfl, ← hshadow]
      cases storage_pread.shadow (s.rmtfds i) SECTOR_SIZE pos with
      | none => exact ⟨fun h _ => h, fun h => h rfl⟩
      | some bytes => exact ⟨fun _ _ => rfl, fun _ => rfl⟩
    | false =>
      simp only [Bool.false_eq_true, if_false, false_imp_iff, iff_true]
      cases hfd : (s.rmtfds i).fd with
      | none => rfl
      | some fd =>
        simp only
        split <;> rename_i h <;> split at h <;> cases h <;> rfl

theorem sectors_isSome_iff {phys_base sector_base left j : ℕ} {s : Server W} {buf : List UInt8}
    (hs : Blocks s.rmtfds) (hbase : sector_base < 2 ^ 32) (hj : j < 2 ^ 31) :
    (rmtfs_iovec.sectors sys cfg i is_write phys_base sector_base left j s buf).isSome ↔
      SectorsSafe sys cfg i is_write phys_base sector_base left j s buf := by
  induction left generalizing j s buf with
  | zero => exact ⟨fun _ => trivial, fun _ => rfl⟩
  | succ left ih =>
    -- `sector_base` has 32 bits and `j` 31, so the offset is far from wrapping
    have hpos : sector_base + j * SECTOR_SIZE < 2 ^ 63 := by
      unfold SECTOR_SIZE
      omega
    rw [rmtfs_iovec.sectors, SectorsSafe, ← sector_isSome_iff hs hpos]
    cases hsector : rmtfs_iovec.sector sys cfg i is_write (phys_base + j * SECTOR_SIZE)
      (sector_base + j * SECTOR_SIZE) s buf with
    | none => simp
    | some r =>
      obtain ⟨ok, s', buf'⟩ := r
      cases ok with
      | false => simp
      | true =>
        have hs' := sector_blocks hs hsector
        -- the counter is an `int`: the sector that would overflow it ends the run
        by_cases hend : j + 1 = 2 ^ 31
        · simp [hend]
        · have hnext : (rmtfs_iovec.sectors sys cfg i is_write phys_base sector_base left (j + 1) s'
              buf').isSome ↔ SectorsSafe sys cfg i is_write phys_base sector_base left (j + 1) s' buf' :=
            ih hs' (by omega)
          simp only [hend, if_false, hnext, Option.isSome_some, true_and]
          constructor
          · intro h s'' buf'' heq
            cases heq
            exact ⟨hend, h⟩
          · intro h
            exact (h s' buf' rfl).2

theorem entries_isSome_iff {es : List IovecEntry} {s : Server W} {buf : List UInt8}
    (hs : Blocks s.rmtfds) :
    (rmtfs_iovec.entries sys cfg i is_write es s buf).isSome ↔
      EntriesSafe sys cfg i is_write es s buf := by
  induction es generalizing s buf with
  | nil => exact ⟨fun _ => trivial, fun _ => rfl⟩
  | cons e es ih =>
    have hbase : (e.sector_addr * UInt32.ofNat SECTOR_SIZE).toNat < 2 ^ 32 := UInt32.toNat_lt _
    rw [rmtfs_iovec.entries, EntriesSafe, ← sectors_isSome_iff hs hbase (Nat.two_pow_pos 31)]
    cases hsectors : rmtfs_iovec.sectors sys cfg i is_write e.phys_offset.toNat
      (e.sector_addr * UInt32.ofNat SECTOR_SIZE).toNat e.num_sector.toNat 0 s buf with
    | none => simp
    | some r =>
      obtain ⟨ok, s', buf'⟩ := r
      cases ok with
      | false => simp
      | true =>
        have hnext : (rmtfs_iovec.entries sys cfg i is_write es s' buf').isSome ↔
            EntriesSafe sys cfg i is_write es s' buf' := ih (sectors_blocks hs hsectors)
        simp only [hnext, Option.isSome_some, true_and]
        constructor
        · intro h s'' buf'' heq
          cases heq
          exact h
        · intro h
          exact h s' buf' rfl

/-- A caller id is looked up outside the table exactly if it is negative. -/
theorem storage_get_ne_outside_iff (t : Table) (node c : UInt32) :
    storage_get t node c ≠ .outside ↔ c.toNat < 2 ^ 31 := by
  constructor
  · intro h
    by_contra hc
    exact h (storage_get_negative t node (by omega))
  · intro hc
    by_cases h10 : c.toNat < MAX_CALLERS
    · exact storage_get_ne_outside t node h10
    · rw [storage_get_of_ge t node (by omega) hc]
      nofun

/-- **Which requests are carried out**: those that are safe. -/
theorem command_isSome_iff {s : Server W} (hs : Blocks s.rmtfds) (node : UInt32)
    (stack : List UInt8) (c : Command) :
    (command sys cfg s node stack c).isSome ↔ Safe sys cfg s node stack c := by
  cases c with
  | alloc_buf c size => exact ⟨fun _ => trivial, fun _ => rfl⟩
  | request request =>
    rw [command, Option.isSome_map]
    cases request with
    | open_ path => exact ⟨fun _ => trivial, fun _ => rfl⟩
    | close c =>
      rw [handle, rmtfs_close, Safe, ← storage_get_ne_outside_iff s.rmtfds node c]
      -- both a handle and null are answered
      cases storage_get s.rmtfds node c <;> simp
    | rw_iovec c direction iovec =>
      rw [handle, rmtfs_iovec, Safe, ← storage_get_ne_outside_iff s.rmtfds node c]
      cases storage_get s.rmtfds node c with
      | outside => simp
      | null => simp
      | handle i =>
        have hentries : (rmtfs_iovec.entries sys cfg i (direction != 0) iovec s stack).isSome ↔
            EntriesSafe sys cfg i (direction != 0) iovec s stack := entries_isSome_iff hs
        simp [rmtfs_iovec.transfer, hentries]
    | get_dev_error c =>
      rw [handle, rmtfs_get_dev_error, Safe]
      by_cases h10 : c.toNat < MAX_CALLERS
      · rw [storage_get_of_lt _ _ h10]
        by_cases hnode : (s.rmtfds ⟨c.toNat, h10⟩).node = node
        -- a handle of the node is not used, and that of another node is null and is
        · simp [hnode, h10]
        · simp [hnode, h10]
      · have hget : storage_get s.rmtfds node c = .null ∨ storage_get s.rmtfds node c = .outside := by
          by_cases hc : c.toNat < 2 ^ 31
          · exact .inl (storage_get_of_ge _ _ (by omega) hc)
          · exact .inr (storage_get_negative _ _ (by omega))
        rcases hget with h | h <;> simp [h, h10]

end Defined

end Dragonboard.Rmtfs
