/-
Read-only mode.

With `-r` the partitions are loaded into shadow buffers, and what the modem writes goes there. No
path of the handlers reaches a descriptor of a backing file for writing, and a transfer
stays in the slot of its caller (`Sealed`, `Confines`).

A read is the exception: one that starts behind `shadow_len` copies what lies behind the
block of the slot, whoever that belongs to. So the theorem about runs is for those in which every
sector that is read starts at or before the end of its shadow file (`EntriesInside`).

Of the system it is taken that its calls leave the files alone, but for a write to a descriptor
other than that of the shared memory, and that a file that is loaded is loaded whole.
-/
import Dragonboard.RmtfsCommands
import Dragonboard.ShadowFile

set_option autoImplicit false

namespace Dragonboard.Rmtfs

/-! ## Files

Read-only mode promises that the files of the partitions are never written. The system is a
parameter, so what its calls do to files has to be said. -/

variable {W : Type}

/-- What the code relies on of the system: `content` are the files in a world, and `memfd` is the
descriptor of the shared memory. -/
structure FileSystem (sys : Sys W) (content : W → String → Option (List UInt8)) (memfd : ℕ) :
    Prop where
  open_rdonly : ∀ w path, content (sys.open_rdonly w path).2 = content w
  lseek_end : ∀ w fd, content (sys.lseek_end w fd).2 = content w
  read : ∀ w fd len, content (sys.read w fd len).2 = content w
  pread : ∀ w fd nbyte offset, content (sys.pread w fd nbyte offset).2 = content w
  pwrite : ∀ w bytes offset, content (sys.pwrite w memfd bytes offset).2 = content w
  close : ∀ w fd, content (sys.close w fd) = content w
  calloc : ∀ w len, content (sys.calloc w len).2 = content w
  realloc : ∀ w len, content (sys.realloc w len).2 = content w
  /-- what is read of a file from its start is the whole file -/
  load : ∀ w path fd w1 len w2 w3 bytes w4, sys.open_rdonly w path = (some fd, w1) →
    sys.lseek_end w1 fd = (some len, w2) → sys.calloc w2 len = (true, w3) →
    sys.read w3 fd len = (some bytes, w4) → content w path = some bytes ∧ len = bytes.length
  /-- a file is not longer than an `off_t` -/
  small : ∀ w path bytes, content w path = some bytes → bytes.length < 2 ^ 63

/-! ## Sectors that are there

A read that starts behind the shadow file copies from behind the block in memory. What is said of
reads below is said of requests that do not. -/

/-- A sector can be put into the shared memory at an address. -/
def Stores (rmem : RmtfsMem) (phys : ℕ) : Prop :=
  rmem.base = none ∨ (rmtfs_mem_ptr rmem phys SECTOR_SIZE).isSome

/-- The sectors of an entry, up to the first one that is not stored, start in a file of `len` bytes,
and the counter does not overflow. -/
def SectorsInside (rmem : RmtfsMem) (len phys_base sector_base : ℕ) : ℕ → ℕ → Prop
  | 0, _ => True
  | left + 1, j => sector_base + j * SECTOR_SIZE ≤ len ∧
    (Stores rmem (phys_base + j * SECTOR_SIZE) →
      j + 1 ≠ 2 ^ 31 ∧ SectorsInside rmem len phys_base sector_base left (j + 1))

/-- The same for the entries of a request. -/
def EntriesInside (rmem : RmtfsMem) (len : ℕ) : List IovecEntry → Prop
  | [] => True
  | e :: es =>
    SectorsInside rmem len e.phys_offset.toNat (e.sector_addr * UInt32.ofNat SECTOR_SIZE).toNat
      e.num_sector.toNat 0 ∧
    ((∀ j < e.num_sector.toNat, Stores rmem (e.phys_offset.toNat + j * SECTOR_SIZE)) →
      EntriesInside rmem len es)

/-- A read stays in the shadow file of its slot. -/
def ReadsInside (s : Server W) (node : UInt32) : Command → Prop
  | .request (.rw_iovec caller_id direction iovec) => direction = 0 →
    ∀ i, storage_get s.rmtfds node caller_id = .handle i →
      EntriesInside s.rmem (s.rmtfds i).shadow_len iovec
  | _ => True

/-- Every read of a run does. -/
def RunInside (sys : Sys W) (cfg : Config) : List Arrival → Server W → Prop
  | [], _ => True
  | a :: arrivals, s => ReadsInside s a.node a.command ∧
    ∀ r, command sys cfg s a.node a.stack a.command = some r → RunInside sys cfg arrivals r.2

/-! ## What holds in every state

The invariant: there is no descriptor to write through, and what a slot holds is a copy of its
file together with what was written to it since. -/

/-- No slot has a descriptor, the files are as they were, and a slot's block is its shadow file. -/
structure Sealed (content : W → String → Option (List UInt8)) (memfd : ℕ)
    (files : String → Option (List UInt8)) (s : Server W) : Prop where
  fd : ∀ i, (s.rmtfds i).fd = none
  files : content s.world = files
  block : ∀ i, ((s.rmtfds i).shadow_buf.getD []).length = (s.rmtfds i).shadow_len
  small : ∀ i, (s.rmtfds i).shadow_len < 2 ^ 63
  memfd : s.rmem.fd = memfd

/-- The shared memory is where it was. -/
structure SameMap (rmem rmem' : RmtfsMem) : Prop where
  address : rmem'.address = rmem.address
  size : rmem'.size = rmem.size
  mapped : rmem'.base.isSome = rmem.base.isSome
  fd : rmem'.fd = rmem.fd

/-- A transfer on a slot changes at most its shadow file, and a read not even that. -/
structure Confines (i : Fin MAX_CALLERS) (is_write : Bool) (s s' : Server W) : Prop where
  others : ∀ j, j ≠ i → s'.rmtfds j = s.rmtfds j
  slot : ∃ buf len, s'.rmtfds i = { s.rmtfds i with shadow_buf := buf, shadow_len := len }
  read : is_write = false → s'.rmtfds = s.rmtfds
  mapping : SameMap s.rmem s'.rmem

theorem SameMap.refl (rmem : RmtfsMem) : SameMap rmem rmem := ⟨rfl, rfl, rfl, rfl⟩

theorem SameMap.trans {r r' r'' : RmtfsMem} (h : SameMap r r') (h' : SameMap r' r'') :
    SameMap r r'' :=
  ⟨h'.address.trans h.address, h'.size.trans h.size, h'.mapped.trans h.mapped, h'.fd.trans h.fd⟩

theorem SameMap.stores_iff {r r' : RmtfsMem} (h : SameMap r r') (phys : ℕ) :
    Stores r' phys ↔ Stores r phys := by
  have hbase : r'.base = none ↔ r.base = none := by
    rw [← Option.isNone_iff_eq_none, ← Option.isNone_iff_eq_none, ← Option.not_isSome,
      ← Option.not_isSome, h.mapped]
  rw [Stores, Stores, hbase, rmtfs_mem_ptr, rmtfs_mem_ptr, h.address, h.size]

theorem SameMap.sectorsInside_iff {r r' : RmtfsMem} (h : SameMap r r')
    (len phys_base sector_base left j : ℕ) :
    SectorsInside r' len phys_base sector_base left j ↔
      SectorsInside r len phys_base sector_base left j := by
  induction left generalizing j with
  | zero => exact Iff.rfl
  | succ left ih => rw [SectorsInside, SectorsInside, h.stores_iff, ih]

theorem SameMap.entriesInside_iff {r r' : RmtfsMem} (h : SameMap r r') (len : ℕ)
    (es : List IovecEntry) : EntriesInside r' len es ↔ EntriesInside r len es := by
  induction es with
  | nil => exact Iff.rfl
  | cons e es ih => simp only [EntriesInside, h.sectorsInside_iff, h.stores_iff, ih]

theorem Confines.refl (i : Fin MAX_CALLERS) (is_write : Bool) (s : Server W) :
    Confines i is_write s s :=
  ⟨fun _ _ => rfl, ⟨_, _, rfl⟩, fun _ => rfl, .refl _⟩

theorem Confines.trans {i : Fin MAX_CALLERS} {is_write : Bool} {s s' s'' : Server W}
    (h : Confines i is_write s s') (h' : Confines i is_write s' s'') :
    Confines i is_write s s'' := by
  obtain ⟨buf, len, hslot⟩ := h.slot
  obtain ⟨buf', len', hslot'⟩ := h'.slot
  refine ⟨fun j hj => (h'.others j hj).trans (h.others j hj), ⟨buf', len', ?_⟩,
    fun hr => (h'.read hr).trans (h.read hr), h.mapping.trans h'.mapping⟩
  rw [hslot', hslot]

/-! ## One sector

Both directions of a transfer, through the shared memory. -/

section Transfer

variable {sys : Sys W} {cfg : Config} {content : W → String → Option (List UInt8)} {memfd : ℕ}
  {files : String → Option (List UInt8)} {i : Fin MAX_CALLERS} {s : Server W}
  (hfs : FileSystem sys content memfd) (hro : cfg.storage_read_only = true)

include hfs hro in
/-- **What a write to a shadow file does**: it changes the file of its slot, if that stays small. -/
theorem storage_pwrite_sealed {r : Rmtfd}
    (hblock : (r.shadow_buf.getD []).length = r.shadow_len) (hsmall : r.shadow_len < 2 ^ 63) (w : W)
    (bytes : List UInt8) (offset : ℕ) :
    ∃ n buf len w', storage_pwrite sys cfg r w bytes offset
        = (n, { r with shadow_buf := buf, shadow_len := len }, w') ∧
      (buf.getD []).length = len ∧ len < 2 ^ 63 ∧ content w' = content w ∧
      (n.isSome → offset + bytes.length < STORAGE_MAX_SIZE) := by
  unfold storage_pwrite
  simp only [hro, Bool.not_true, Bool.false_eq_true, if_false]
  by_cases hmax : offset + bytes.length ≥ STORAGE_MAX_SIZE
  · rw [if_pos hmax]
    exact ⟨none, _, _, w, rfl, hblock, hsmall, rfl, nofun⟩
  have hfits : offset + bytes.length < STORAGE_MAX_SIZE := Nat.not_le.mp hmax
  rw [if_neg hmax]
  -- a write behind the end makes the block as long as it needs, one inside keeps its length
  by_cases hgrow : offset + bytes.length > r.shadow_len
  · rw [if_pos hgrow]
    have hkeep := hfs.realloc w (offset + bytes.length)
    generalize sys.realloc w (offset + bytes.length) = a at hkeep
    obtain ⟨fresh, w'⟩ := a
    cases fresh with
    | none => exact ⟨none, _, _, w', rfl, hblock, hsmall, hkeep, nofun⟩
    | some fresh =>
      refine ⟨_, _, _, w', rfl, ?_, ?_, hkeep, fun _ => hfits⟩
      · rw [Option.getD_some, length_overwrite (by simp [resize])]
        simp [resize]
      · simp only [STORAGE_MAX_SIZE] at hfits
        omega
  · rw [if_neg hgrow]
    refine ⟨_, _, _, w, rfl, ?_, hsmall, rfl, fun _ => hfits⟩
    cases hbuf : r.shadow_buf with
    | none =>
      rw [hbuf] at hblock
      exact hblock
    | some buf =>
      rw [hbuf, Option.getD_some] at hblock
      rw [Option.map_some, Option.getD_some, length_overwrite (by omega)]
      exact hblock

omit hfs hro in
/-- A read that starts in the shadow file is one of its block. -/
theorem shadow_read_defined {r : Rmtfd} (hblock : (r.shadow_buf.getD []).length = r.shadow_len)
    (hsmall : r.shadow_len < 2 ^ 63) (nbyte : ℕ) {offset : ℕ} (hoff : offset ≤ r.shadow_len) :
    ∃ bytes, storage_pread.shadow r nbyte offset = some bytes ∧ bytes.length = nbyte := by
  unfold storage_pread.shadow
  simp only [copied_eq hoff hsmall]
  split
  · exact ⟨_, rfl, List.length_replicate⟩
  · rename_i hpos
    cases hbuf : r.shadow_buf with
    | none =>
      rw [hbuf] at hblock
      have hzero : r.shadow_len = 0 := hblock.symm
      omega
    | some buf =>
      rw [hbuf, Option.getD_some] at hblock
      simp only
      rw [if_pos (by omega)]
      refine ⟨_, rfl, ?_⟩
      simp only [List.length_append, List.length_take, List.length_drop, List.length_replicate]
      omega

include hfs in
theorem rmtfs_mem_read_sealed (rmem : RmtfsMem) (w : W) (phys len : ℕ) :
    content (rmtfs_mem_read sys rmem w phys len).2 = content w := by
  unfold rmtfs_mem_read
  split
  · rfl
  · exact hfs.pread w _ _ _

include hfs in
theorem rmtfs_mem_write_sealed {rmem : RmtfsMem} (hmem : rmem.fd = memfd) (w : W) (phys : ℕ)
    (bytes : List UInt8) :
    ∃ n rmem' w', rmtfs_mem_write sys rmem w phys bytes = (n, rmem', w') ∧ SameMap rmem rmem' ∧
      content w' = content w ∧
      (n.isSome → rmem.base = none ∨ (rmtfs_mem_ptr rmem phys bytes.length).isSome) := by
  unfold rmtfs_mem_write
  cases hbase : rmem.base with
  | none =>
    have hkeep := hfs.pwrite w bytes (sizeSub phys rmem.address)
    rw [← hmem] at hkeep
    exact ⟨_, _, _, rfl, .refl rmem, hkeep, fun _ => .inl rfl⟩
  | some m =>
    simp only
    cases hptr : rmtfs_mem_ptr rmem phys bytes.length with
    | none => exact ⟨none, rmem, w, rfl, .refl rmem, rfl, nofun⟩
    | some p => exact ⟨_, _, w, rfl, ⟨rfl, rfl, by simp [hbase], rfl⟩, rfl, fun _ => .inr rfl⟩

omit hfs hro in
/-- A slot changed in a sealed server. -/
theorem Sealed.update (hs : Sealed content memfd files s) (i : Fin MAX_CALLERS) {r : Rmtfd}
    (hfd : r.fd = none) (hblock : (r.shadow_buf.getD []).length = r.shadow_len)
    (hsmall : r.shadow_len < 2 ^ 63) {w : W} (hw : content w = content s.world) :
    Sealed content memfd files { s with rmtfds := Function.update s.rmtfds i r, world := w } := by
  refine ⟨?_, hw.trans hs.files, ?_, ?_, hs.memfd⟩
  · apply (Function.forall_update_iff s.rmtfds fun _ r => r.fd = none).mpr
    exact ⟨hfd, fun j _ => hs.fd j⟩
  · apply (Function.forall_update_iff s.rmtfds
      fun _ r => (r.shadow_buf.getD []).length = r.shadow_len).mpr
    exact ⟨hblock, fun j _ => hs.block j⟩
  · apply (Function.forall_update_iff s.rmtfds fun _ r => r.shadow_len < 2 ^ 63).mpr
    exact ⟨hsmall, fun j _ => hs.small j⟩

include hfs hro in
/-- One sector of a transfer: it is carried out, and goes into the slot or out of it. -/
theorem sector_sealed (hs : Sealed content memfd files s) {is_write : Bool} (phys : ℕ) {pos : ℕ}
    (hread : is_write = false → pos ≤ (s.rmtfds i).shadow_len) (buf : List UInt8) :
    ∃ ok s' buf', rmtfs_iovec.sector sys cfg i is_write phys pos s buf = some (ok, s', buf') ∧
      Sealed content memfd files s' ∧ Confines i is_write s s' ∧
      (ok = true → is_write = true → pos < STORAGE_MAX_SIZE) ∧
      (ok = true → is_write = false → Stores s.rmem phys) := by
  unfold rmtfs_iovec.sector
  -- a write goes from the shared memory into the shadow buffer, a read the other way
  cases is_write with
  | true =>
    rw [if_pos rfl]
    have hkeep := rmtfs_mem_read_sealed hfs s.rmem s.world phys SECTOR_SIZE
    generalize rmtfs_mem_read sys s.rmem s.world phys SECTOR_SIZE = r at hkeep
    obtain ⟨bytes, w⟩ := r
    have hworld : ∀ w', content w' = content s.world →
        Sealed content memfd files { s with world := w' } :=
      fun w' hw => ⟨hs.fd, hw.trans hs.files, hs.block, hs.small, hs.memfd⟩
    cases bytes with
    | none =>
      refine ⟨false, _, _, rfl, hworld w hkeep, ?_, fun h => absurd h Bool.false_ne_true,
        fun h => absurd h Bool.false_ne_true⟩
      exact ⟨fun _ _ => rfl, ⟨_, _, rfl⟩, fun _ => rfl, .refl _⟩
    | some bytes =>
      simp only
      split
      · rename_i hlen
        obtain ⟨n, shadow, len, w', hwrite, hblock, hsmall, hkeep', hmax⟩ := storage_pwrite_sealed hfs hro
          (hs.block i) (hs.small i) w bytes pos
        rw [hwrite]
        refine ⟨_, _, _, rfl, ?_, ?_, ?_, fun _ h => absurd h.symm Bool.false_ne_true⟩
        · exact hs.update i (r := { s.rmtfds i with shadow_buf := shadow, shadow_len := len }) (hs.fd i)
            hblock hsmall (hkeep'.trans hkeep)
        · refine ⟨fun j hj => Function.update_of_ne hj _ _, ⟨shadow, len, ?_⟩,
            fun h => absurd h.symm Bool.false_ne_true, .refl _⟩
          exact Function.update_self ..
        · intro hok _
          have hsome : n = some SECTOR_SIZE := by simpa using hok
          -- what was stored ends below the maximum, so it starts there too
          have hle := hmax (by rw [hsome]; rfl)
          omega
      · refine ⟨false, _, _, rfl, hworld w hkeep, ?_, fun h => absurd h Bool.false_ne_true,
        fun h => absurd h Bool.false_ne_true⟩
        exact ⟨fun _ _ => rfl, ⟨_, _, rfl⟩, fun _ => rfl, .refl _⟩
  | false =>
    rw [if_neg Bool.false_ne_true]
    obtain ⟨bytes, hbytes, hlen⟩ := shadow_read_defined (hs.block i) (hs.small i) SECTOR_SIZE
      (hread rfl)
    obtain ⟨n, rmem', w', hwrite, hmap, hkeep, hstores⟩ := rmtfs_mem_write_sealed hfs hs.memfd s.world phys
      bytes
    have hpread : storage_pread sys cfg (s.rmtfds i) s.world buf SECTOR_SIZE pos
        = some (bytes, s.world) := by
      rw [storage_pread, if_pos hro, hbytes, Option.map_some]
    simp only [hpread, hwrite]
    refine ⟨_, _, _, rfl, ?_, ?_, fun _ h => absurd h Bool.false_ne_true, ?_⟩
    · exact ⟨hs.fd, hkeep.trans hs.files, hs.block, hs.small, hmap.fd.trans hs.memfd⟩
    · exact ⟨fun _ _ => rfl, ⟨_, _, rfl⟩, fun _ => rfl, hmap⟩
    · intro hok _
      have hsome : n = some SECTOR_SIZE := by simpa using hok
      -- the shared memory took all of it, so the sector fits
      have hput := hstores (by rw [hsome]; rfl)
      rwa [hlen] at hput

/-! ## A whole transfer

The loops over sectors and entries stop at the first sector that fails, and what was carried
before stays. -/

include hfs hro in
/-- The sectors of an entry. A write is refused long before the counter overflows. -/
theorem sectors_sealed (hs : Sealed content memfd files s) {is_write : Bool}
    {phys_base sector_base left j : ℕ}
    (hread : is_write = false →
      SectorsInside s.rmem (s.rmtfds i).shadow_len phys_base sector_base left j) (buf : List UInt8) :
    ∃ ok s' buf', rmtfs_iovec.sectors sys cfg i is_write phys_base sector_base left j s buf
        = some (ok, s', buf') ∧
      Sealed content memfd files s' ∧ Confines i is_write s s' ∧
      (ok = true → is_write = false → ∀ k < left, Stores s.rmem (phys_base + (j + k) * SECTOR_SIZE)) := by
  induction left generalizing j s buf with
  | zero =>
    exact ⟨true, s, buf, rfl, hs, .refl i is_write s, fun _ _ k hk => absurd hk (Nat.not_lt_zero k)⟩
  | succ left ih =>
    rw [rmtfs_iovec.sectors]
    obtain ⟨ok, s1, buf1, hsector, hs1, hconf, hmax, hstores⟩ := sector_sealed hfs hro hs
      (phys_base + j * SECTOR_SIZE) (fun hr => (hread hr).1) buf
    rw [hsector]
    cases ok with
    | false =>
      exact ⟨false, s1, buf1, rfl, hs1, hconf, fun h => absurd h Bool.false_ne_true⟩
    | true =>
      -- the counter stays in range: a write ends at the maximum, for a read it is assumed
      have hcount : j + 1 ≠ 2 ^ 31 := by
        cases is_write with
        | true =>
          have hpos := hmax rfl rfl
          simp only [STORAGE_MAX_SIZE, SECTOR_SIZE] at hpos
          omega
        | false => exact ((hread rfl).2 (hstores rfl rfl)).1
      simp only [if_neg hcount]
      obtain ⟨ok', s2, buf2, hrest, hs2, hconf', hstores'⟩ := ih (j := j + 1) hs1 (fun hr => by
        rw [hconf.mapping.sectorsInside_iff, hconf.read hr]
        exact ((hread hr).2 (hstores rfl hr)).2) buf1
      refine ⟨ok', s2, buf2, hrest, hs2, hconf.trans hconf', fun hok hr k hk => ?_⟩
      cases k with
      | zero => exact hstores rfl hr
      | succ k =>
        have hlater := hstores' hok hr k (Nat.lt_of_succ_lt_succ hk)
        rw [hconf.mapping.stores_iff] at hlater
        have hindex : j + (k + 1) = j + 1 + k := by omega
        rwa [hindex]

include hfs hro in
theorem entries_sealed (hs : Sealed content memfd files s) {is_write : Bool} {es : List IovecEntry}
    (hread : is_write = false → EntriesInside s.rmem (s.rmtfds i).shadow_len es) (buf : List UInt8) :
    ∃ ok s', rmtfs_iovec.entries sys cfg i is_write es s buf = some (ok, s') ∧
      Sealed content memfd files s' ∧ Confines i is_write s s' := by
  induction es generalizing s buf with
  | nil => exact ⟨true, s, rfl, hs, .refl i is_write s⟩
  | cons e es ih =>
    rw [rmtfs_iovec.entries]
    obtain ⟨ok, s1, buf1, hsectors, hs1, hconf, hstores⟩ := sectors_sealed hfs hro hs
      (fun hr => (hread hr).1) buf
    rw [hsectors]
    cases ok with
    | false => exact ⟨false, s1, rfl, hs1, hconf⟩
    | true =>
      obtain ⟨ok', s2, hrest, hs2, hconf'⟩ := ih hs1 (fun hr => by
        rw [hconf.mapping.entriesInside_iff, hconf.read hr]
        refine (hread hr).2 fun j hj => ?_
        have hput := hstores rfl hr j hj
        rwa [Nat.zero_add] at hput) buf1
      exact ⟨ok', s2, hrest, hs2, hconf.trans hconf'⟩

end Transfer

/-! ## Loading

`storage_populate_shadow_buf` reads the file and closes it again; that is the only time it is
opened. -/

section Requests

variable {sys : Sys W} {cfg : Config} {content : W → String → Option (List UInt8)} {memfd : ℕ}
  {files : String → Option (List UInt8)} {s : Server W}
  (hfs : FileSystem sys content memfd) (hro : cfg.storage_read_only = true)

include hfs in
/-- A shadow file is loaded from the file, or not at all. -/
theorem populate_sealed (w : W) (file : String) :
    ∃ loaded w', storage_populate_shadow_buf sys w file = (loaded, w') ∧ content w' = content w ∧
      ∀ buf len, loaded = some (buf, len) → content w file = some buf ∧ buf.length = len := by
  unfold storage_populate_shadow_buf
  have hopen := hfs.open_rdonly w file
  rcases hopen' : sys.open_rdonly w file with ⟨_ | fd, w1⟩
  · rw [hopen'] at hopen
    exact ⟨none, w1, rfl, hopen, nofun⟩
  rw [hopen'] at hopen
  simp only
  have hseek := hfs.lseek_end w1 fd
  rcases hseek' : sys.lseek_end w1 fd with ⟨_ | len, w2⟩
  · rw [hseek'] at hseek
    exact ⟨none, _, rfl, (hfs.close w2 fd).trans (hseek.trans hopen), nofun⟩
  rw [hseek'] at hseek
  simp only
  have halloc := hfs.calloc w2 len
  rcases halloc' : sys.calloc w2 len with ⟨_ | _, w3⟩
  · rw [halloc'] at halloc
    exact ⟨none, _, rfl, (hfs.close w3 fd).trans (halloc.trans (hseek.trans hopen)), nofun⟩
  rw [halloc'] at halloc
  simp only
  have hread := hfs.read w3 fd len
  rcases hread' : sys.read w3 fd len with ⟨_ | bytes, w4⟩
  · rw [hread'] at hread
    exact ⟨none, _, rfl, (hfs.close w4 fd).trans (hread.trans (halloc.trans (hseek.trans hopen))), nofun⟩
  rw [hread'] at hread
  refine ⟨_, _, rfl, (hfs.close w4 fd).trans (hread.trans (halloc.trans (hseek.trans hopen))), ?_⟩
  intro buf n hloaded
  obtain ⟨hfile, hlen⟩ := hfs.load w file fd w1 len w2 w3 bytes w4 hopen' hseek' halloc' hread'
  have htake : bytes.take len = bytes := List.take_of_length_le (Nat.le_of_eq hlen.symm)
  have hnone : len - bytes.length = 0 := by omega
  rw [htake, hnone, List.replicate_zero, List.append_nil] at hloaded
  cases hloaded
  exact ⟨hfile, rfl⟩

include hfs hro in
/-- An OPEN changes nothing, or loads the file into a slot that was free. -/
theorem storage_open_sealed (t : Table) (w : W) (node : UInt32) (path : String) :
    ∃ found t' w', storage_open sys cfg t w node path = (found, t', w') ∧ content w' = content w ∧
      (t' = t ∨ ∃ i part buf, part ∈ partition_table ∧ part.path = path ∧
        content w (storage_path cfg part) = some buf ∧ (t i).inUse = false ∧
        t' = Function.update t i { t i with
          shadow_buf := some buf, shadow_len := buf.length, node := node, partition := some part }) := by
  unfold storage_open
  split
  · exact ⟨none, t, w, rfl, rfl, .inl rfl⟩
  rename_i part hpart
  have hmem := List.mem_of_find?_eq_some hpart
  have hpath : part.path = path := by simpa using List.find?_some hpart
  split
  · exact ⟨_, t, w, rfl, rfl, .inl rfl⟩
  split
  · exact ⟨none, t, w, rfl, rfl, .inl rfl⟩
  rename_i i hfree
  have hidle : (t i).inUse = false := by simpa using List.find?_some hfree
  rw [if_pos hro]
  obtain ⟨loaded, w', hload, hkeep, hfile⟩ := populate_sealed hfs w (storage_path cfg part)
  rw [hload]
  cases loaded with
  | none => exact ⟨none, t, w', rfl, hkeep, .inl rfl⟩
  | some loaded =>
    obtain ⟨buf, len⟩ := loaded
    obtain ⟨hcontent, rfl⟩ := hfile buf len rfl
    exact ⟨_, _, w', rfl, hkeep, .inr ⟨i, part, buf, hmem, hpath, hcontent, hidle, rfl⟩⟩

end Requests

/-! ## Every request

One lemma for each request, and from them that every request is carried out under guard. -/

/-- What a request may do in read-only mode. -/
structure Guards (sys : Sys W) (cfg : Config) (content : W → String → Option (List UInt8))
    (s s' : Server W) (a : Arrival) : Prop where
  /-- the files do not change -/
  files : content s'.world = content s.world
  /-- no slot has a descriptor -/
  fd : ∀ i, (s'.rmtfds i).fd = none
  /-- a transfer changes the shadow file of its slot, and no other slot -/
  transfer : ∀ c direction iovec, a.command = .request (.rw_iovec c direction iovec) → ∀ i,
    (∃ buf len, s'.rmtfds i = { s.rmtfds i with shadow_buf := buf, shadow_len := len }) ∧
      (i.val ≠ c.toNat → s'.rmtfds i = s.rmtfds i ∧ ∀ w buf nbyte offset,
        storage_pread sys cfg (s'.rmtfds i) w buf nbyte offset
          = storage_pread sys cfg (s.rmtfds i) w buf nbyte offset)
  /-- a slot that is put to use by an OPEN holds the file -/
  fresh : ∀ path i, a.command = .request (.open_ path) → (s.rmtfds i).inUse = false →
    (s'.rmtfds i).inUse = true → ∃ part ∈ partition_table, part.path = path ∧
      ∃ buf, content s.world (storage_path cfg part) = some buf ∧
        (s'.rmtfds i).shadow_buf = some buf ∧ (s'.rmtfds i).shadow_len = buf.length

/-- A request is carried out under guard. Only a GET_DEV_ERROR without a handle ends the server. -/
def Guarded (sys : Sys W) (cfg : Config) (content : W → String → Option (List UInt8)) (s : Server W)
    (a : Arrival) : Prop :=
  match command sys cfg s a.node a.stack a.command with
  | none => ∃ c, a.command = .request (.get_dev_error c)
  | some r => Guards sys cfg content s r.2 a

section Steps

variable {sys : Sys W} {cfg : Config} {content : W → String → Option (List UInt8)} {memfd : ℕ}
  {files : String → Option (List UInt8)} {s : Server W}
  (hfs : FileSystem sys content memfd) (hro : cfg.storage_read_only = true)

/-- A request that changes nothing. -/
theorem Sealed.guards_self (hs : Sealed content memfd files s) {w : W}
    (hw : content w = content s.world) (a : Arrival) :
    Sealed content memfd files { s with world := w } ∧
      Guards sys cfg content s { s with world := w } a := by
  refine ⟨⟨hs.fd, hw.trans hs.files, hs.block, hs.small, hs.memfd⟩, hw, hs.fd, ?_, ?_⟩
  · intro c direction iovec _ i
    exact ⟨⟨_, _, rfl⟩, fun _ => ⟨rfl, fun _ _ _ _ => rfl⟩⟩
  · intro path i _ hidle huse
    simp only at huse
    rw [hidle] at huse
    cases huse

/-- A request that is carried out, and leaves the server sealed. -/
theorem guarded_of_some {a : Arrival} {r : Answer × Server W}
    (h : command sys cfg s a.node a.stack a.command = some r)
    (hr : Sealed content memfd files r.2 ∧ Guards sys cfg content s r.2 a) :
    Guarded sys cfg content s a ∧ ∀ r', command sys cfg s a.node a.stack a.command = some r' →
      Sealed content memfd files r'.2 := by
  refine ⟨?_, fun r' hr' => ?_⟩
  · rw [Guarded, h]
    exact hr.2
  · rw [h] at hr'
    cases hr'
    exact hr.1

include hfs hro in
theorem open_guarded (hs : Sealed content memfd files s) {a : Arrival} {path : String}
    (ha : a.command = .request (.open_ path)) :
    Guarded sys cfg content s a ∧ ∀ r, command sys cfg s a.node a.stack a.command = some r →
      Sealed content memfd files r.2 := by
  obtain ⟨found, t, w, hopen, hkeep, hcase⟩ :=
    storage_open_sealed hfs hro s.rmtfds s.world a.node path
  obtain ⟨answer, hanswer⟩ : ∃ answer, command sys cfg s a.node a.stack a.command
      = some (answer, { s with rmtfds := t, world := w }) := by
    rw [ha]
    simp only [command, handle, rmtfs_open, hopen]
    cases found with
    | none => exact ⟨_, rfl⟩
    | some i => exact ⟨_, rfl⟩
  apply guarded_of_some hanswer
  rcases hcase with rfl | ⟨i, part, buf, hmem, hpath, hcontent, hidle, rfl⟩
  · exact hs.guards_self hkeep a
  · have hsealed := hs.update i (r := { s.rmtfds i with
      shadow_buf := some buf, shadow_len := buf.length, node := a.node, partition := some part })
      (hs.fd i) rfl (hfs.small _ _ _ hcontent) hkeep
    refine ⟨hsealed, hkeep, hsealed.fd, fun c direction iovec h => ?_, fun path' j h hj huse => ?_⟩
    · rw [ha] at h
      cases h
    · rw [ha] at h
      cases h
      -- no other slot was put to use
      have hji : j = i := by
        by_contra hne
        simp only [Function.update_of_ne hne] at huse
        rw [hj] at huse
        cases huse
      subst hji
      simp only [Function.update_self]
      exact ⟨part, hmem, hpath, buf, hcontent, rfl, rfl⟩

include hfs hro in
theorem iovec_guarded (hs : Sealed content memfd files s) {a : Arrival} {c : UInt32}
    {direction : UInt8} {iovec : List IovecEntry}
    (ha : a.command = .request (.rw_iovec c direction iovec)) (hc : c.toNat < MAX_CALLERS)
    (hread : ReadsInside s a.node a.command) :
    Guarded sys cfg content s a ∧ ∀ r, command sys cfg s a.node a.stack a.command = some r →
      Sealed content memfd files r.2 := by
  cases hget : storage_get s.rmtfds a.node c with
  | outside => exact absurd hget (storage_get_ne_outside _ _ hc)
  | null =>
    refine guarded_of_some (r := (.response (.rw_iovec internalError), s)) ?_ (hs.guards_self rfl a)
    rw [ha]
    simp only [command, handle, rmtfs_iovec, hget, Option.map_some]
    rfl
  | handle i =>
    have hinside : (direction != 0) = false → EntriesInside s.rmem (s.rmtfds i).shadow_len iovec := by
      intro hd
      rw [ha] at hread
      exact hread (by simpa using hd) i hget
    obtain ⟨ok, s', hentries, hs', hconf⟩ := entries_sealed hfs hro hs hinside a.stack
    obtain ⟨answer, hanswer⟩ : ∃ answer, command sys cfg s a.node a.stack a.command
        = some (answer, s') := by
      rw [ha]
      simp only [command, handle, rmtfs_iovec, hget, rmtfs_iovec.transfer, hentries, Option.map_some]
      exact ⟨_, rfl⟩
    have hid := (storage_get_handle hget).1
    refine guarded_of_some hanswer ⟨hs', hs'.files.trans hs.files.symm, hs'.fd,
      fun c' direction' iovec' h j => ?_, fun path j h => ?_⟩
    · rw [ha] at h
      cases h
      by_cases hj : j = i
      · subst hj
        exact ⟨hconf.slot, fun hne => absurd hid hne⟩
      · rw [hconf.others j hj]
        exact ⟨⟨_, _, rfl⟩, fun _ => ⟨rfl, fun _ _ _ _ => rfl⟩⟩
    · rw [ha] at h
      cases h

/-- There is no descriptor to close: a CLOSE only empties its slot. -/
theorem close_guarded (hs : Sealed content memfd files s) {a : Arrival} {c : UInt32}
    (ha : a.command = .request (.close c)) (hc : c.toNat < MAX_CALLERS) :
    Guarded sys cfg content s a ∧ ∀ r, command sys cfg s a.node a.stack a.command = some r →
      Sealed content memfd files r.2 := by
  cases hget : storage_get s.rmtfds a.node c with
  | outside => exact absurd hget (storage_get_ne_outside _ _ hc)
  | null =>
    refine guarded_of_some (r := (.response (.close internalError), s)) ?_ (hs.guards_self rfl a)
    rw [ha]
    simp only [command, handle, rmtfs_close, hget, Option.map_some]
    rfl
  | handle i =>
    have hworld : (storage_close sys s.rmtfds s.world i).2 = s.world := by
      simp only [storage_close, hs.fd i]
    have hsealed := hs.update i (r := { s.rmtfds i with
      fd := none, shadow_buf := none, shadow_len := 0, partition := none }) (w := s.world)
      rfl rfl (Nat.two_pow_pos 63) rfl
    refine guarded_of_some (r := (.response (.close .success), _)) ?_ ⟨hsealed, rfl, hsealed.fd,
      fun c' direction' iovec' h => ?_, fun path j h => ?_⟩
    · rw [ha]
      simp only [command, handle, rmtfs_close, hget, Option.map_some, hworld]
      rfl
    · rw [ha] at h
      cases h
    · rw [ha] at h
      cases h

/-- A GET_DEV_ERROR is answered, or ends the server. -/
theorem get_dev_error_guarded (hs : Sealed content memfd files s) {a : Arrival} {c : UInt32}
    (ha : a.command = .request (.get_dev_error c)) :
    Guarded sys cfg content s a ∧ ∀ r, command sys cfg s a.node a.stack a.command = some r →
      Sealed content memfd files r.2 := by
  by_cases hget : ∃ i, storage_get s.rmtfds a.node c = .handle i
  · obtain ⟨i, hget⟩ := hget
    refine guarded_of_some (r := (.response (.get_dev_error internalError none), s)) ?_
      (hs.guards_self rfl a)
    rw [ha]
    simp only [command, handle, rmtfs_get_dev_error, hget, Option.map_some]
    rfl
  · have hnone : command sys cfg s a.node a.stack a.command = none := by
      rw [ha, command, handle, rmtfs_get_dev_error]
      cases hcase : storage_get s.rmtfds a.node c with
      | outside => rfl
      | null => rfl
      | handle i => exact absurd ⟨i, hcase⟩ hget
    rw [Guarded, hnone]
    refine ⟨⟨c, ha⟩, fun r hr => ?_⟩
    cases hr

include hfs hro in
/-- **Every request is carried out under guard**, and leaves the server sealed. -/
theorem command_guarded (hs : Sealed content memfd files s) (a : Arrival)
    (hids : ∀ c, a.command.caller_id = some c → c.toNat < MAX_CALLERS)
    (hread : ReadsInside s a.node a.command) :
    Guarded sys cfg content s a ∧ ∀ r, command sys cfg s a.node a.stack a.command = some r →
      Sealed content memfd files r.2 := by
  rcases ha : a.command with (path | c | ⟨c, direction, iovec⟩ | c) | ⟨c, size⟩
  · rw [← ha]
    exact open_guarded hfs hro hs ha
  · rw [← ha]
    exact close_guarded hs ha (hids c (by rw [ha]; rfl))
  · rw [← ha]
    exact iovec_guarded hfs hro hs ha (hids c (by rw [ha]; rfl)) hread
  · rw [← ha]
    exact get_dev_error_guarded hs ha
  · rw [← ha]
    refine guarded_of_some (r := (rmtfs_alloc_buf s size, s)) ?_ (hs.guards_self rfl a)
    rw [ha]
    rfl

include hfs hro in
/-- A run from a sealed server, in which every read stays inside: the server stays sealed, and the
next request is carried out under guard. -/
theorem Sealed.serve {pre post : List Arrival} {a : Arrival} {s' : Server W}
    (hs : Sealed content memfd files s)
    (hids : ∀ b ∈ pre ++ a :: post, ∀ c, b.command.caller_id = some c → c.toNat < MAX_CALLERS)
    (hin : RunInside sys cfg (pre ++ a :: post) s) (hrun : serve sys cfg pre s = some s') :
    Sealed content memfd files s' ∧ Guarded sys cfg content s' a := by
  -- on the requests before, with the server as the invariant
  induction pre generalizing s with
  | nil =>
    cases hrun
    exact ⟨hs, (command_guarded hfs hro hs a (hids a (by simp)) hin.1).1⟩
  | cons b pre ih =>
    rw [Rmtfs.serve] at hrun
    obtain ⟨r, hr, hrun⟩ := Option.bind_eq_some_iff.mp hrun
    have hb := command_guarded hfs hro hs b (hids b (by simp)) hin.1
    apply ih (hb.2 r hr) _ (hin.2 r hr) hrun
    intro b' hb'
    exact hids b' (List.mem_cons_of_mem b hb')

end Steps

/-! ## Runs

The invariant holds after `storage_init`, and is carried along the run. -/

/-- The table that `storage_init` leaves behind is sealed. -/
theorem sealed_init (content : W → String → Option (List UInt8)) (root : Option String)
    (read_only use_partitions : Bool) (rmem : RmtfsMem) (w : W) :
    Sealed content rmem.fd (content w) ⟨(storage_init root read_only use_partitions).2, rmem, w⟩ :=
  ⟨fun _ => rfl, rfl, fun _ => rfl, fun _ => Nat.two_pow_pos 63, rfl⟩

/-- **Read-only mode.** After `storage_init` with `read_only` set, and in every run in which the ids
are those of the table and no read starts behind its shadow file: the backing files are what they
were, no slot has a descriptor, and the next request is carried out under guard. -/
theorem read_only_guarded (sys : Sys W) (content : W → String → Option (List UInt8))
    (root : Option String) (use_partitions : Bool) (rmem : RmtfsMem) (w : W)
    (hfs : FileSystem sys content rmem.fd) (pre post : List Arrival) (a : Arrival)
    (hids : ∀ b ∈ pre ++ a :: post, ∀ c, b.command.caller_id = some c → c.toNat < MAX_CALLERS)
    (hin : RunInside sys (storage_init root true use_partitions).1 (pre ++ a :: post)
      ⟨(storage_init root true use_partitions).2, rmem, w⟩)
    (s : Server W)
    (hrun : serve sys (storage_init root true use_partitions).1 pre
      ⟨(storage_init root true use_partitions).2, rmem, w⟩ = some s) :
    content s.world = content w ∧ (∀ i, (s.rmtfds i).fd = none) ∧
      Guarded sys (storage_init root true use_partitions).1 content s a := by
  have hinit := sealed_init content root true use_partitions rmem w
  obtain ⟨hsealed, hguarded⟩ := hinit.serve hfs rfl hids hin hrun
  exact ⟨hsealed.files, hsealed.fd, hguarded⟩

/-- The file of `oneByteFiles`. -/
def oneByte (_ : Unit) (_ : String) : Option (List UInt8) := some [7]

theorem oneByteFiles_fileSystem (memfd : ℕ) : FileSystem oneByteFiles oneByte memfd where
  open_rdonly _ _ := rfl
  lseek_end _ _ := rfl
  read _ _ _ := rfl
  pread _ _ _ _ := rfl
  pwrite _ _ _ := rfl
  close _ _ := rfl
  calloc _ _ := rfl
  realloc _ _ := rfl
  load w path fd w1 len w2 w3 bytes w4 _ hlen _ hread := by
    cases hlen
    cases hread
    exact ⟨rfl, rfl⟩
  small w path bytes h := by
    cases h
    decide

/-- A shared memory of eight sectors, filled with ones. -/
def eightSectors : RmtfsMem := ⟨0, 4096, some fun _ => 1, 4⟩

/-- The server as it starts, in read-only mode. -/
def readOnlyServer : Server Unit := ⟨(storage_init none true false).2, eightSectors, ()⟩

/-- A node opens two partitions and writes a sector to the second. -/
def secondWritten : List Arrival :=
  [⟨1, [], .request (.open_ "/boot/modem_fs1")⟩, ⟨1, [], .request (.open_ "/boot/modem_fs2")⟩,
    ⟨1, [], .request (.rw_iovec 1 1 [⟨0, 0, 1⟩])⟩]

/-- Then it reads a sector of the first. -/
def readFirst (sector_addr : UInt32) : Arrival :=
  ⟨1, [], .request (.rw_iovec 0 0 [⟨sector_addr, 0, 1⟩])⟩

theorem secondWritten_served :
    (serve oneByteFiles (storage_init none true false).1 secondWritten readOnlyServer).isSome := by
  decide +kernel

theorem ids_secondWritten (sector_addr : UInt32) : ∀ b ∈ secondWritten ++ [readFirst sector_addr], ∀ c,
    b.command.caller_id = some c → c.toNat < MAX_CALLERS := by
  intro b hb c hc
  simp only [secondWritten, readFirst, List.cons_append, List.nil_append, List.mem_cons,
    List.not_mem_nil, or_false] at hb
  rcases hb with rfl | rfl | rfl | rfl
  · cases hc
  · cases hc
  · cases hc
    decide
  · cases hc
    decide

/-- The one byte and what was written to the other file are read apart. -/
theorem read_only_guarded_second_written :
    ∃ s, serve oneByteFiles (storage_init none true false).1 secondWritten readOnlyServer = some s ∧
      oneByte s.world = oneByte () ∧ (∀ i, (s.rmtfds i).fd = none) ∧
      Guarded oneByteFiles (storage_init none true false).1 oneByte s (readFirst 0) := by
  obtain ⟨s, hs⟩ := Option.isSome_iff_exists.mp secondWritten_served
  refine ⟨s, hs, read_only_guarded oneByteFiles oneByte none false eightSectors ()
    (oneByteFiles_fileSystem 4) secondWritten [] (readFirst 0) (ids_secondWritten 0) ?_ s hs⟩
  refine ⟨trivial, fun r _ => ⟨trivial, fun r _ => ⟨nofun, fun r _ => ⟨?_, ?_⟩⟩⟩⟩
  · intro _ i _
    exact ⟨⟨Nat.zero_le _, fun _ => ⟨by decide, trivial⟩⟩, fun _ => trivial⟩
  · intro _ _
    trivial

/-- The second sector of the first file lies behind its block, and the read of it copies what is
there, for instance the sector that was written. -/
theorem not_read_only_guarded :
    FileSystem oneByteFiles oneByte eightSectors.fd ∧
    ¬ ∀ pre a, (∀ b ∈ pre ++ [a], ∀ c, b.command.caller_id = some c → c.toNat < MAX_CALLERS) →
      ∀ s, serve oneByteFiles (storage_init none true false).1 pre readOnlyServer = some s →
        oneByte s.world = oneByte () ∧ (∀ i, (s.rmtfds i).fd = none) ∧
        Guarded oneByteFiles (storage_init none true false).1 oneByte s a := by
  refine ⟨oneByteFiles_fileSystem 4, fun hall => ?_⟩
  obtain ⟨s, hs⟩ := Option.isSome_iff_exists.mp secondWritten_served
  have hnone : (serve oneByteFiles (storage_init none true false).1 secondWritten readOnlyServer).bind
      (fun s => command oneByteFiles (storage_init none true false).1 s 1 []
        (readFirst 1).command) = none := by
    rw [← Option.isNone_iff_eq_none]
    decide +kernel
  rw [hs, Option.bind_some] at hnone
  obtain ⟨-, -, hguard⟩ := hall secondWritten (readFirst 1) (ids_secondWritten 1) s hs
  rw [Guarded, show command oneByteFiles _ s (readFirst 1).node (readFirst 1).stack
    (readFirst 1).command = none from hnone] at hguard
  obtain ⟨c, hc⟩ := hguard
  cases hc

end Dragonboard.Rmtfs
