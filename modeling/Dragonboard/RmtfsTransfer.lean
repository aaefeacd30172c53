/-
What an RW_IOVEC on a shadow file has done when it ends.

The two loops are one walk over the sectors of the request (`walk`): the counter of an entry does not
overflow, since the sectors that go well lie one behind the other in the window of the shared
memory, and that is smaller. The walk ends at the first sector that fails, and what it has done by
then is what the sectors before it say (`Carried`): a write has copied them from the shared memory to the
shadow file, a read the other way.

For a read this needs that every sector it comes to starts in the shadow file or lies in its
block. `storage_pread` copies from behind the block otherwise.
-/
import Dragonboard.RmtfsReadOnly
import Dragonboard.RmtfsSectors

set_option autoImplicit false

namespace Dragonboard.Rmtfs

open Dragonboard.Memory

variable {W : Type}

/-! ## The sectors of a request

The request names ranges of sectors. What it asks for is the list of all of them, in order,
whatever loops the code has for it. -/

/-- A sector of a request: where it is in the shared memory and in the partition. -/
structure Sector where
  phys : ℕ
  pos : ℕ
deriving DecidableEq, Repr

/-- The sectors that an entry names. -/
def IovecEntry.sectors (e : IovecEntry) : List Sector :=
  (List.range e.num_sector.toNat).map fun j =>
    ⟨e.phys_offset.toNat + j * SECTOR_SIZE, (e.sector_addr.toNat + j) * SECTOR_SIZE⟩

/-- The sectors of a request, in order. -/
def requestSectors (iovec : List IovecEntry) : List Sector := iovec.flatMap IovecEntry.sectors

/-- The shared memory is mapped, and the window is one of the address space. -/
structure Mapped (rmem : RmtfsMem) : Prop where
  base : rmem.base ≠ none
  fits : rmem.address + rmem.size < 2 ^ 64
  small : rmem.size < 2 ^ 40

/-- Some bytes are inside the window. -/
def InWindow (rmem : RmtfsMem) (phys : ℕ) : Prop :=
  rmem.address ≤ phys ∧ phys + SECTOR_SIZE ≤ rmem.address + rmem.size

/-- The sectors that a read comes to, up to the first one that the shared memory does not take, start
in the shadow file or lie in its block. -/
def ReadsBlock (rmem : RmtfsMem) (r : Rmtfd) (xs : List Sector) : Prop :=
  ∀ pre x post, xs = pre ++ x :: post → (∀ y ∈ pre, InWindow rmem y.phys) → InBlock r x.pos

/-! ## What was done

The memories afterwards are the memories before, with the stores of a list of sectors applied. For
a write these are stores into the shadow file, for a read into the shared memory. -/

/-- The shadow file of a slot as memory. -/
def Rmtfd.content (r : Rmtfd) : Mem := fun a => (r.shadow_buf.getD []).getD a 0

/-- A sector of the shared memory. -/
def RmtfsMem.sector (rmem : RmtfsMem) (phys : ℕ) : List UInt8 :=
  bytesAt (rmem.base.getD fun _ => 0) (phys - rmem.address) SECTOR_SIZE

/-- The store into the shadow file that copies a sector of the shared memory there. -/
def RmtfsMem.toStorage (rmem : RmtfsMem) (x : Sector) : Store := ⟨x.pos, rmem.sector x.phys⟩

/-- The store into the shared memory that copies a sector of the shadow file there. -/
def Rmtfd.toMemory (r : Rmtfd) (address : ℕ) (x : Sector) : Store :=
  ⟨x.phys - address, (storage_pread.shadow r SECTOR_SIZE x.pos).getD []⟩

/-- A slot after some stores into its shadow file: it reaches as far as they do, and the bytes of
the file before and those that were stored are as the stores left them. Bytes between an
old end and a new one are whatever `realloc` gave. -/
structure Stored (r r' : Rmtfd) (l : List Store) : Prop where
  slot : r' = { r with shadow_buf := r'.shadow_buf, shadow_len := r'.shadow_len }
  length : r'.shadow_len = l.foldl (fun n st => max n (st.addr + st.bytes.length)) r.shadow_len
  bytes : ∀ a, a < r.shadow_len ∨ Covers l a → r'.content a = applyStores r.content l a

/-- A transfer on a slot has carried exactly these sectors. -/
structure Carried (i : Fin MAX_CALLERS) (is_write : Bool) (s s' : Server W) (done : List Sector) :
    Prop where
  window : ∀ x ∈ done, InWindow s.rmem x.phys
  others : ∀ k, k ≠ i → s'.rmtfds k = s.rmtfds k
  write : is_write = true →
    s'.rmem = s.rmem ∧ Stored (s.rmtfds i) (s'.rmtfds i) (done.map s.rmem.toStorage)
  read : is_write = false → s'.rmtfds = s.rmtfds ∧
    s'.rmem = { s.rmem with
      base := s.rmem.base.map
        (applyStores · (done.map ((s.rmtfds i).toMemory s.rmem.address))) }

/-! ## One sector after the other

Carrying a list of sectors is carrying its parts, so that the walk can be followed sector by
sector. -/

theorem Stored.refl (r : Rmtfd) : Stored r r [] := ⟨rfl, rfl, fun _ _ => rfl⟩

theorem Stored.trans {r r' r'' : Rmtfd} {st : Store} {l : List Store} (h : Stored r r' [st])
    (h' : Stored r' r'' l) : Stored r r'' (st :: l) := by
  have hlen : r'.shadow_len = max r.shadow_len (st.addr + st.bytes.length) := h.length
  refine ⟨?_, ?_, fun a ha => ?_⟩
  · rw [h'.slot, h.slot]
  · rw [h'.length, hlen]
    rfl
  -- a later store has the last word
  by_cases hl : Covers l a
  · rw [h'.bytes a (.inr hl)]
    exact applyStores_of_covers hl _ _
  · -- only the first store may have reached the byte
    have hbefore : a < r.shadow_len ∨ Covers [st] a := by
      rcases ha with ha | ha
      · exact .inl ha
      · exact .inr ((covers_append.mp (ha : Covers ([st] ++ l) a)).resolve_right hl)
    have hin : a < r'.shadow_len := by
      rw [hlen]
      rcases hbefore with hbefore | hbefore
      · exact lt_of_lt_of_le hbefore (le_max_left _ _)
      · exact lt_of_lt_of_le (covers_singleton.mp hbefore).2 (le_max_right _ _)
    rw [h'.bytes a (.inl hin)]
    exact applyStores_congr l (h.bytes a hbefore)

theorem Carried.refl (i : Fin MAX_CALLERS) (is_write : Bool) {s s' : Server W}
    (hrmtfds : s'.rmtfds = s.rmtfds) (hrmem : s'.rmem = s.rmem) : Carried i is_write s s' [] := by
  refine ⟨fun x hx => absurd hx List.not_mem_nil, fun k _ => by rw [hrmtfds], fun _ => ⟨hrmem, ?_⟩,
    fun _ => ⟨hrmtfds, ?_⟩⟩
  · rw [hrmtfds]
    exact .refl _
  · rw [hrmem]
    generalize s.rmem = rmem
    rcases rmem with ⟨address, size, _ | m, fd⟩ <;> rfl

/-- Sectors carried after a first one. -/
theorem Carried.trans {i : Fin MAX_CALLERS} {is_write : Bool} {s s' s'' : Server W} {x : Sector}
    {xs : List Sector} (h : Carried i is_write s s' [x]) (h' : Carried i is_write s' s'' xs)
    (hmap : SameMap s.rmem s'.rmem) : Carried i is_write s s'' (x :: xs) := by
  refine ⟨?_, fun k hk => (h'.others k hk).trans (h.others k hk), fun hw => ?_, fun hr => ?_⟩
  · intro y hy
    rcases List.mem_cons.mp hy with rfl | hy
    · exact h.window y List.mem_cons_self
    · have hin := h'.window y hy
      unfold InWindow at hin ⊢
      rwa [hmap.address, hmap.size] at hin
  · obtain ⟨hmem, hstored⟩ := h.write hw
    obtain ⟨hmem', hstored'⟩ := h'.write hw
    rw [hmem] at hmem' hstored'
    exact ⟨hmem', hstored.trans hstored'⟩
  · obtain ⟨htable, hmem⟩ := h.read hr
    obtain ⟨htable', hmem'⟩ := h'.read hr
    refine ⟨htable'.trans htable, ?_⟩
    rw [hmem', htable, hmem]
    cases s.rmem.base with
    | none => rfl
    | some m => rfl

/-! ## What one sector does

A sector is carried whole or not at all, because both memories test the range before they copy. -/

/-- A pointer into the mapping is one into the window. -/
theorem rmtfs_mem_ptr_eq {rmem : RmtfsMem} (h : Mapped rmem) {phys : ℕ} (hphys : phys < 2 ^ 63) :
    rmtfs_mem_ptr rmem phys SECTOR_SIZE
      = if rmem.address ≤ phys ∧ phys + SECTOR_SIZE ≤ rmem.address + rmem.size then
          some (phys - rmem.address) else none := by
  have hfits := h.fits
  have hend : (phys + SECTOR_SIZE) % 2 ^ 64 = phys + SECTOR_SIZE := by
    apply Nat.mod_eq_of_lt
    unfold SECTOR_SIZE
    omega
  rw [rmtfs_mem_ptr, hend, Nat.mod_eq_of_lt hfits]
  by_cases hin : rmem.address ≤ phys ∧ phys + SECTOR_SIZE ≤ rmem.address + rmem.size
  · rw [if_pos hin, if_neg (by omega)]
  · rw [if_neg hin, if_pos (by omega)]

/-- A write of bytes to a shadow file stores them, or fails and does nothing. -/
theorem storage_pwrite_stored (sys : Sys W) {cfg : Config} (hro : cfg.storage_read_only = true)
    {r : Rmtfd} (hr : r.shadow_len ≤ (r.shadow_buf.getD []).length) (w : W) {bytes : List UInt8}
    (hbytes : bytes.length = SECTOR_SIZE) (pos : ℕ) :
    ((storage_pwrite sys cfg r w bytes pos).1 = some SECTOR_SIZE ∧
        Stored r (storage_pwrite sys cfg r w bytes pos).2.1 [⟨pos, bytes⟩]) ∨
      ((storage_pwrite sys cfg r w bytes pos).1 = none ∧
        (storage_pwrite sys cfg r w bytes pos).2.1 = r) := by
  have hpos : 0 < SECTOR_SIZE := by decide
  unfold storage_pwrite
  simp only [hro, Bool.not_true, Bool.false_eq_true, if_false, hbytes]
  -- too large: refused before anything is touched
  split
  · exact .inr ⟨rfl, rfl⟩
  split
  · rename_i hgrow
    rcases sys.realloc w (pos + SECTOR_SIZE) with ⟨_ | fresh, w'⟩
    · exact .inr ⟨rfl, rfl⟩
    · -- the block is grown up to the end of the sector
      have hfit : pos + bytes.length ≤
          (resize (r.shadow_buf.getD []) fresh (pos + SECTOR_SIZE)).length := by
        rw [hbytes]
        simp [resize]
      refine .inl ⟨rfl, rfl, ?_, fun a ha => ?_⟩
      · simp only [List.foldl_cons, List.foldl_nil, hbytes]
        omega
      · simp only [Rmtfd.content, Option.getD_some]
        rw [getD_overwrite hfit]
        change _ = if pos ≤ a ∧ a < pos + bytes.length then bytes.getD (a - pos) 0 else r.content a
        rw [covers_singleton] at ha
        by_cases hin : pos ≤ a ∧ a < pos + bytes.length
        · rw [if_pos hin, if_pos hin]
        · have hold : a < r.shadow_len := ha.resolve_right hin
          rw [if_neg hin, if_neg hin, getD_resize _ _ (by omega) (by omega), Rmtfd.content]
  -- the bytes lie in the file as it is, so there is a block
  · rename_i hinside
    cases hbuf : r.shadow_buf with
    | none =>
      rw [hbuf, Option.getD_none, List.length_nil] at hr
      omega
    | some buf =>
      rw [hbuf, Option.getD_some] at hr
      refine .inl ⟨rfl, rfl, ?_, fun a ha => ?_⟩
      · simp only [List.foldl_cons, List.foldl_nil, hbytes]
        omega
      · simp only [Rmtfd.content, Option.map_some, Option.getD_some]
        rw [getD_overwrite (by omega)]
        change _ = if pos ≤ a ∧ a < pos + bytes.length then bytes.getD (a - pos) 0 else r.content a
        rw [Rmtfd.content, hbuf, Option.getD_some]

section Steps

variable {sys : Sys W} {cfg : Config} {i : Fin MAX_CALLERS} {s : Server W} {x : Sector}

/-- A sector that is written: it is carried if it lies in the window and the storage takes it. -/
theorem sector_written (sys : Sys W) (hro : cfg.storage_read_only = true) (hmapped : Mapped s.rmem)
    (hblocks : Blocks s.rmtfds) (hphys : x.phys < 2 ^ 63) (buf : List UInt8) :
    ∃ ok s' buf', rmtfs_iovec.sector sys cfg i true x.phys x.pos s buf = some (ok, s', buf') ∧
      Carried i true s s' (if ok then [x] else []) := by
  obtain ⟨m, hbase⟩ := Option.ne_none_iff_exists'.mp hmapped.base
  unfold rmtfs_iovec.sector
  rw [if_pos rfl, rmtfs_mem_read, hbase, rmtfs_mem_ptr_eq hmapped hphys]
  simp only
  by_cases hin : s.rmem.address ≤ x.phys ∧ x.phys + SECTOR_SIZE ≤ s.rmem.address + s.rmem.size
  swap
  · rw [if_neg hin]
    exact ⟨false, _, _, rfl, .refl i true rfl rfl⟩
  rw [if_pos hin]
  have hsector : (List.range SECTOR_SIZE).map (fun k => m (x.phys - s.rmem.address + k))
      = s.rmem.sector x.phys := by
    rw [RmtfsMem.sector, hbase]
    rfl
  have hlen : (s.rmem.sector x.phys).length = SECTOR_SIZE := bytesAt_length _ _ _
  simp only [Option.map_some, hsector, hlen, if_true]
  -- the storage takes the sector whole or not at all
  rcases storage_pwrite_stored sys hro (hblocks i) s.world hlen x.pos with
    ⟨hn, hstored⟩ | ⟨hn, hsame⟩
  · rw [hn]
    refine ⟨true, _, _, rfl, ?_⟩
    rw [if_pos rfl]
    refine ⟨?_, fun k hk => Function.update_of_ne hk _ _, fun _ => ⟨rfl, ?_⟩,
      fun h => absurd h.symm Bool.false_ne_true⟩
    · intro y hy
      rw [List.mem_singleton.mp hy]
      exact hin
    · simp only [Function.update_self]
      exact hstored
  · rw [hn]
    refine ⟨false, _, _, rfl, ?_⟩
    rw [if_neg Bool.false_ne_true]
    apply Carried.refl
    · simp only [hsame, Function.update_eq_self]
    · rfl

/-- A read from a shadow buffer fills the buffer. -/
theorem shadow_length {r : Rmtfd} {pos : ℕ} {bytes : List UInt8}
    (h : storage_pread.shadow r SECTOR_SIZE pos = some bytes) : bytes.length = SECTOR_SIZE := by
  have hcopied : storage_pread.copied r.shadow_len SECTOR_SIZE pos ≤ SECTOR_SIZE := Nat.min_le_left _ _
  unfold storage_pread.shadow at h
  simp only at h
  split at h
  · cases h
    exact List.length_replicate
  split at h
  · cases h
  split at h
  · rename_i hfit
    cases h
    rw [List.length_append, List.length_take, List.length_drop, List.length_replicate]
    omega
  · cases h

/-- A sector that is read from the block: it is carried exactly if it lies in the window. -/
theorem sector_read (sys : Sys W) (hro : cfg.storage_read_only = true) (hmapped : Mapped s.rmem)
    (hphys : x.phys < 2 ^ 63) (buf : List UInt8) {bytes : List UInt8}
    (hbytes : storage_pread.shadow (s.rmtfds i) SECTOR_SIZE x.pos = some bytes) :
    ∃ ok s' buf', rmtfs_iovec.sector sys cfg i false x.phys x.pos s buf = some (ok, s', buf') ∧
      Carried i false s s' (if ok then [x] else []) ∧ (ok = true ↔ InWindow s.rmem x.phys) := by
  obtain ⟨m, hbase⟩ := Option.ne_none_iff_exists'.mp hmapped.base
  have hlen : bytes.length = SECTOR_SIZE := shadow_length hbytes
  unfold rmtfs_iovec.sector storage_pread
  rw [if_neg Bool.false_ne_true, if_pos hro, hbytes]
  simp only [Option.map_some]
  rw [rmtfs_mem_write, hbase, hlen, rmtfs_mem_ptr_eq hmapped hphys]
  simp only
  by_cases hin : s.rmem.address ≤ x.phys ∧ x.phys + SECTOR_SIZE ≤ s.rmem.address + s.rmem.size
  · rw [if_pos hin]
    refine ⟨true, _, _, rfl, ?_, iff_of_true rfl hin⟩
    rw [if_pos rfl]
    refine ⟨?_, fun k _ => rfl, fun h => absurd h Bool.false_ne_true, fun _ => ⟨rfl, ?_⟩⟩
    · intro y hy
      rw [List.mem_singleton.mp hy]
      exact hin
    · rw [hbase]
      simp only [List.map_cons, List.map_nil, Rmtfd.toMemory, hbytes, Option.getD_some, Option.map_some,
        applyStores, List.foldl_cons, List.foldl_nil]
      rw [← hlen]
      rfl
  · rw [if_neg hin]
    exact ⟨false, _, _, rfl, .refl i false rfl rfl, iff_of_false Bool.false_ne_true hin⟩

/-- What a sector has done, if it has done anything defined. -/
theorem sector_spec (hro : cfg.storage_read_only = true) (hmapped : Mapped s.rmem)
    (hblocks : Blocks s.rmtfds) (hphys : x.phys < 2 ^ 63) (hpos : x.pos < 2 ^ 63) {is_write : Bool}
    {buf buf' : List UInt8} {ok : Bool} {s' : Server W}
    (h : rmtfs_iovec.sector sys cfg i is_write x.phys x.pos s buf = some (ok, s', buf')) :
    Carried i is_write s s' (if ok then [x] else []) ∧
      (is_write = false → (ok = true ↔ InWindow s.rmem x.phys)) := by
  cases is_write with
  | true =>
    obtain ⟨ok', s1, buf1, hsector, hcarried⟩ :=
      sector_written sys hro hmapped hblocks hphys buf
    rw [h] at hsector
    cases hsector
    exact ⟨hcarried, fun hw => absurd hw.symm Bool.false_ne_true⟩
  | false =>
    have hsome : (rmtfs_iovec.sector sys cfg i false x.phys x.pos s buf).isSome := by
      rw [h]
      rfl
    -- a read that is defined is one from the block
    have hblock := (sector_isSome_iff hblocks hpos).mp hsome rfl hro
    obtain ⟨bytes, hbytes⟩ :=
      Option.isSome_iff_exists.mp ((shadow_isSome_iff (hblocks i) hpos).mpr hblock)
    obtain ⟨ok', s1, buf1, hsector, hcarried, hok⟩ :=
      sector_read sys hro hmapped hphys buf hbytes
    rw [h] at hsector
    cases hsector
    exact ⟨hcarried, fun _ => hok⟩

theorem rmtfs_mem_write_sameMap (sys : Sys W) (rmem : RmtfsMem) (w : W) (phys : ℕ) (bytes : List UInt8) :
    SameMap rmem (rmtfs_mem_write sys rmem w phys bytes).2.1 := by
  unfold rmtfs_mem_write
  split
  · rename_i hbase
    split
    · exact .refl _
    · refine ⟨rfl, rfl, ?_, rfl⟩
      rw [hbase]
      rfl
  · exact .refl _

/-- No sector moves the mapping. -/
theorem sector_sameMap {is_write : Bool} {phys pos : ℕ} {buf buf' : List UInt8} {ok : Bool}
    {s' : Server W} (h : rmtfs_iovec.sector sys cfg i is_write phys pos s buf = some (ok, s', buf')) :
    SameMap s.rmem s'.rmem := by
  unfold rmtfs_iovec.sector at h
  split at h
  · split at h
    · cases h
      exact .refl _
    split at h <;> cases h <;> exact .refl _
  split at h
  · cases h
  -- only a read writes to the shared memory, through the same mapping
  · rename_i buf w _
    have hmap := rmtfs_mem_write_sameMap sys s.rmem w phys buf
    cases h
    exact hmap

theorem Mapped.of_sameMap {rmem rmem' : RmtfsMem} (h : Mapped rmem) (hmap : SameMap rmem rmem') :
    Mapped rmem' := by
  refine ⟨?_, ?_, ?_⟩
  · have hbase := hmap.mapped
    rw [Option.isSome_iff_ne_none.mpr h.base] at hbase
    exact Option.isSome_iff_ne_none.mp hbase
  · rw [hmap.address, hmap.size]
    exact h.fits
  · rw [hmap.size]
    exact h.small

end Steps

/-! ## The walk

The two loops are one walk over the list of sectors, up to the first one that fails. It is easier
to reason about, and the next section says that it is what the code does. -/

section Walk

variable {sys : Sys W} {cfg : Config} {i : Fin MAX_CALLERS} {is_write : Bool}

/-- One sector after the other, up to the first that fails. -/
def walk (sys : Sys W) (cfg : Config) (i : Fin MAX_CALLERS) (is_write : Bool) :
    List Sector → Server W → List UInt8 → Option (Bool × Server W × List UInt8)
  | [], s, buf => some (true, s, buf)
  | x :: xs, s, buf =>
    match rmtfs_iovec.sector sys cfg i is_write x.phys x.pos s buf with
    | none => none
    | some (false, s, buf) => some (false, s, buf)
    | some (true, s, buf) => walk sys cfg i is_write xs s buf

theorem walk_append (xs ys : List Sector) (s : Server W) (buf : List UInt8) :
    walk sys cfg i is_write (xs ++ ys) s buf =
      match walk sys cfg i is_write xs s buf with
      | some (true, s', buf') => walk sys cfg i is_write ys s' buf'
      | r => r := by
  induction xs generalizing s buf with
  | nil => rfl
  | cons x xs ih =>
    rw [List.cons_append, walk, walk]
    cases rmtfs_iovec.sector sys cfg i is_write x.phys x.pos s buf with
    | none => rfl
    | some r =>
      obtain ⟨ok, s', buf'⟩ := r
      cases ok with
      | false => rfl
      | true => exact ih s' buf'

/-- The sectors of a request fit in an `off_t`. -/
def Sector.Fits (x : Sector) : Prop := x.phys < 2 ^ 63 ∧ x.pos < 2 ^ 63

theorem requestSectors_fit (iovec : List IovecEntry) : ∀ x ∈ requestSectors iovec, x.Fits := by
  intro x hx
  obtain ⟨e, -, hx⟩ := List.mem_flatMap.mp hx
  obtain ⟨j, hj, rfl⟩ := List.mem_map.mp hx
  have hnum := e.num_sector.toNat_lt
  have hphys := e.phys_offset.toNat_lt
  have haddr := e.sector_addr.toNat_lt
  have hlt := List.mem_range.mp hj
  constructor <;> simp only [SECTOR_SIZE] <;> omega

theorem readsBlock_nil (rmem : RmtfsMem) (r : Rmtfd) : ReadsBlock rmem r [] := by
  intro pre x post hsplit
  exact absurd hsplit.symm (List.append_ne_nil_of_right_ne_nil pre (List.cons_ne_nil x post))

theorem readsBlock_cons {rmem : RmtfsMem} {r : Rmtfd} {x : Sector} {xs : List Sector} :
    ReadsBlock rmem r (x :: xs) ↔
      InBlock r x.pos ∧ (InWindow rmem x.phys → ReadsBlock rmem r xs) := by
  constructor
  · intro h
    refine ⟨h [] x xs rfl fun y hy => absurd hy List.not_mem_nil, ?_⟩
    intro hin pre y post hsplit hpre
    apply h (x :: pre) y post (by rw [hsplit]; rfl)
    intro z hz
    rcases List.mem_cons.mp hz with rfl | hz
    · exact hin
    · exact hpre z hz
  · rintro ⟨hx, hxs⟩ pre y post hsplit hpre
    cases pre with
    | nil =>
      cases hsplit
      exact hx
    | cons z pre =>
      cases hsplit
      exact hxs (hpre x List.mem_cons_self) pre y post rfl fun w hw =>
        hpre w (List.mem_cons_of_mem x hw)

theorem readsBlock_of_sameMap {rmem rmem' : RmtfsMem} (h : SameMap rmem rmem') (r : Rmtfd)
    (xs : List Sector) : ReadsBlock rmem' r xs ↔ ReadsBlock rmem r xs := by
  unfold ReadsBlock InWindow
  rw [h.address, h.size]

/-- A walk has a defined end exactly if it is a write, or reads from the block only. -/
theorem walk_isSome_iff (hro : cfg.storage_read_only = true) {xs : List Sector}
    (hfits : ∀ x ∈ xs, x.Fits) {s : Server W} (hmapped : Mapped s.rmem) (hblocks : Blocks s.rmtfds)
    (buf : List UInt8) :
    (walk sys cfg i is_write xs s buf).isSome ↔
      (is_write = false → ReadsBlock s.rmem (s.rmtfds i) xs) := by
  induction xs generalizing s buf with
  | nil => exact iff_of_true rfl fun _ => readsBlock_nil _ _
  | cons x xs ih =>
    obtain ⟨hphys, hpos⟩ := hfits x List.mem_cons_self
    have hsome : (rmtfs_iovec.sector sys cfg i is_write x.phys x.pos s buf).isSome ↔
        (is_write = false → cfg.storage_read_only = true → InBlock (s.rmtfds i) x.pos) :=
      sector_isSome_iff hblocks hpos
    rw [walk, readsBlock_cons]
    cases hsector : rmtfs_iovec.sector sys cfg i is_write x.phys x.pos s buf with
    | none =>
      rw [hsector] at hsome
      refine iff_of_false Bool.false_ne_true fun h => ?_
      exact Bool.false_ne_true (hsome.mpr fun hw _ => (h hw).1)
    -- the sector was defined; whether the walk goes on depends on the window
    | some r =>
      obtain ⟨ok, s', buf'⟩ := r
      obtain ⟨hcarried, hok⟩ := sector_spec hro hmapped hblocks hphys hpos hsector
      have hmap := sector_sameMap hsector
      rw [hsector] at hsome
      have hblock := hsome.mp rfl
      cases ok with
      | false =>
        refine iff_of_true rfl fun hw => ⟨hblock hw hro, fun hin => ?_⟩
        exact absurd ((hok hw).mpr hin) Bool.false_ne_true
      | true =>
        have hnext : (walk sys cfg i is_write xs s' buf').isSome ↔
            (is_write = false → ReadsBlock s'.rmem (s'.rmtfds i) xs) :=
          ih (fun y hy => hfits y (List.mem_cons_of_mem x hy)) (hmapped.of_sameMap hmap)
            (sector_blocks hblocks hsector) buf'
        rw [hnext]
        apply forall_congr'
        intro hw
        -- the sector has changed neither the shadow file nor the window
        rw [(hcarried.read hw).1, readsBlock_of_sameMap hmap, and_iff_right (hblock hw hro)]
        exact (imp_iff_right ((hok hw).mp rfl)).symm

/-- What a walk has done at its end: the sectors of a prefix. -/
theorem walk_carried (hro : cfg.storage_read_only = true) {xs : List Sector}
    (hfits : ∀ x ∈ xs, x.Fits) {s : Server W} (hmapped : Mapped s.rmem) (hblocks : Blocks s.rmtfds)
    {buf buf' : List UInt8} {ok : Bool} {s' : Server W}
    (h : walk sys cfg i is_write xs s buf = some (ok, s', buf')) :
    ∃ done, done <+: xs ∧ (ok = true ↔ done = xs) ∧ Carried i is_write s s' done := by
  induction xs generalizing s buf with
  | nil =>
    cases h
    exact ⟨[], List.prefix_refl [], iff_of_true rfl rfl, .refl i is_write rfl rfl⟩
  | cons x xs ih =>
    obtain ⟨hphys, hpos⟩ := hfits x List.mem_cons_self
    rw [walk] at h
    split at h
    · cases h
    · rename_i hsector
      cases h
      have hcarried := (sector_spec hro hmapped hblocks hphys hpos hsector).1
      exact ⟨[], List.nil_prefix, iff_of_false Bool.false_ne_true (List.cons_ne_nil x xs).symm, hcarried⟩
    · rename_i s1 buf1 hsector
      have hcarried := (sector_spec hro hmapped hblocks hphys hpos hsector).1
      have hmap := sector_sameMap hsector
      obtain ⟨done, hprefix, hall, hdone⟩ :=
        ih (fun y hy => hfits y (List.mem_cons_of_mem x hy)) (hmapped.of_sameMap hmap)
          (sector_blocks hblocks hsector) h
      refine ⟨x :: done, List.prefix_cons_inj x |>.mpr hprefix, ?_, hcarried.trans hdone hmap⟩
      rw [hall, List.cons_inj_right]

/-- A walk leaves the shared memory where it is, and the blocks large enough. -/
theorem walk_keeps {xs : List Sector} {s : Server W} (hblocks : Blocks s.rmtfds)
    {buf buf' : List UInt8} {ok : Bool} {s' : Server W}
    (h : walk sys cfg i is_write xs s buf = some (ok, s', buf')) :
    SameMap s.rmem s'.rmem ∧ Blocks s'.rmtfds := by
  induction xs generalizing s buf with
  | nil =>
    cases h
    exact ⟨.refl _, hblocks⟩
  | cons x xs ih =>
    rw [walk] at h
    split at h
    · cases h
    · rename_i hsector
      cases h
      exact ⟨sector_sameMap hsector, sector_blocks hblocks hsector⟩
    · rename_i hsector
      obtain ⟨hmap, hblocks'⟩ := ih (sector_blocks hblocks hsector) h
      exact ⟨(sector_sameMap hsector).trans hmap, hblocks'⟩

/-! ## The loops are the walk

The inner loop counts its sectors in an `int`. The counter cannot overflow, because the sectors
that went well lie in the window of the shared memory. -/

/-- The inner loop. A sector that went well lies in the window, as do those before it, so the
counter is at most `size / SECTOR_SIZE`. -/
theorem sectors_eq_walk (hro : cfg.storage_read_only = true) {e : IovecEntry}
    (haddr : e.sector_addr.toNat < 2 ^ 23) (left j : ℕ) {s : Server W} (hmapped : Mapped s.rmem)
    (hblocks : Blocks s.rmtfds) (hnum : j + left ≤ e.num_sector.toNat) (hj : j < 2 ^ 31)
    (hfirst : j = 0 ∨ s.rmem.address ≤ e.phys_offset.toNat) (buf : List UInt8) :
    rmtfs_iovec.sectors sys cfg i is_write e.phys_offset.toNat
        (e.sector_addr * UInt32.ofNat SECTOR_SIZE).toNat left j s buf
      = walk sys cfg i is_write ((List.range' j left).map fun j =>
          ⟨e.phys_offset.toNat + j * SECTOR_SIZE, (e.sector_addr.toNat + j) * SECTOR_SIZE⟩) s buf := by
  induction left generalizing j s buf with
  | zero => rfl
  | succ left ih =>
    -- `sector_addr` is below `2 ^ 23`, so the base does not wrap in 32 bits
    have hpos : (e.sector_addr * UInt32.ofNat SECTOR_SIZE).toNat + j * SECTOR_SIZE
        = (e.sector_addr.toNat + j) * SECTOR_SIZE := by
      rw [UInt32.toNat_mul, Nat.mod_eq_of_lt, Nat.add_mul]
      · rfl
      · change e.sector_addr.toNat * 512 < 2 ^ 32
        omega
    rw [rmtfs_iovec.sectors, hpos, List.range'_succ, List.map_cons, walk]
    simp only
    cases hsector : rmtfs_iovec.sector sys cfg i is_write (e.phys_offset.toNat + j * SECTOR_SIZE)
      ((e.sector_addr.toNat + j) * SECTOR_SIZE) s buf with
    | none => rfl
    | some r =>
      obtain ⟨ok, s', buf'⟩ := r
      cases ok with
      | false => rfl
      | true =>
        have hphys := e.phys_offset.toNat_lt
        have hfits : (⟨e.phys_offset.toNat + j * SECTOR_SIZE,
            (e.sector_addr.toNat + j) * SECTOR_SIZE⟩ : Sector).Fits := by
          constructor <;> simp only [SECTOR_SIZE] <;> omega
        have hcarried := (sector_spec hro hmapped hblocks hfits.1 hfits.2 hsector).1
        have hmap := sector_sameMap hsector
        -- sectors `0` to `j` lie in the window, which is too small for `2 ^ 31` of them
        have hin := hcarried.window _ (List.mem_singleton_self _)
        simp only [InWindow, SECTOR_SIZE] at hin
        have hbase : s.rmem.address ≤ e.phys_offset.toNat := by
          rcases hfirst with rfl | hfirst
          · omega
          · exact hfirst
        have hsize := hmapped.small
        have hnext : j + 1 < 2 ^ 31 := by omega
        simp only [if_neg (Nat.ne_of_lt hnext)]
        apply ih (j + 1) (hmapped.of_sameMap hmap) (sector_blocks hblocks hsector) (by omega) hnext
        right
        rwa [hmap.address]

/-- The outer loop. -/
theorem entries_eq_walk (hro : cfg.storage_read_only = true) {iovec : List IovecEntry}
    (haddr : ∀ e ∈ iovec, e.sector_addr.toNat < 2 ^ 23) {s : Server W} (hmapped : Mapped s.rmem)
    (hblocks : Blocks s.rmtfds) (buf : List UInt8) :
    rmtfs_iovec.entries sys cfg i is_write iovec s buf
      = (walk sys cfg i is_write (requestSectors iovec) s buf).map fun r => (r.1, r.2.1) := by
  induction iovec generalizing s buf with
  | nil => rfl
  | cons e es ih =>
    have hsectors : rmtfs_iovec.sectors sys cfg i is_write e.phys_offset.toNat
        (e.sector_addr * UInt32.ofNat SECTOR_SIZE).toNat e.num_sector.toNat 0 s buf
        = walk sys cfg i is_write e.sectors s buf := by
      rw [sectors_eq_walk hro (haddr e List.mem_cons_self) _ 0 hmapped hblocks (by omega)
        (Nat.two_pow_pos 31) (.inl rfl), IovecEntry.sectors, List.range_eq_range']
    have hcons : requestSectors (e :: es) = e.sectors ++ requestSectors es := rfl
    rw [rmtfs_iovec.entries, hsectors, hcons, walk_append]
    cases hwalk : walk sys cfg i is_write e.sectors s buf with
    | none => rfl
    | some r =>
      obtain ⟨ok, s', buf'⟩ := r
      cases ok with
      | false => rfl
      | true =>
        obtain ⟨hmap, hblocks'⟩ := walk_keeps hblocks hwalk
        exact ih (fun e' he' => haddr e' (List.mem_cons_of_mem e he')) (hmapped.of_sameMap hmap)
          hblocks' buf'

end Walk

/-! ## A request

The theorem puts together what was carried, what was replied, and which bytes of the shared memory
were touched. -/

/-- A byte of the shared memory, by its address, that a visit may read or write: one behind the pointer
that `rmtfs_mem_ptr` gives. -/
def Visit.Shares (v : Visit W) (a : ℕ) : Prop :=
  ∃ p, rmtfs_mem_ptr v.server.rmem v.phys SECTOR_SIZE = some p ∧
    v.server.rmem.address + p ≤ a ∧ a < v.server.rmem.address + p + SECTOR_SIZE

/-- The visits of a request find the shared memory where it was. -/
theorem visits_sameMap {sys : Sys W} {cfg : Config} {i : Fin MAX_CALLERS} {is_write : Bool}
    (iovec : List IovecEntry) (s : Server W) (stack : List UInt8) :
    ∀ v ∈ entryVisits sys cfg i is_write iovec s stack,
      v.j < 2 ^ 31 ∧ SameMap s.rmem v.server.rmem := by
  intro v hv
  have h := entryVisits_invariant (P := fun s' _ => SameMap s.rmem s'.rmem)
    (fun v hmap s' buf' hok => hmap.trans (sector_sameMap hok)) iovec s stack (.refl _) v hv
  exact h.2.2

/-- What a transfer has to do: it shares no byte outside the window; it comes to an end, the counter of an
entry included; and then the sectors of a prefix of the request are carried, all of
them exactly if the response is a success. -/
structure TransfersPrefix (sys : Sys W) (cfg : Config) (i : Fin MAX_CALLERS) (s : Server W)
    (node caller_id : UInt32) (direction : UInt8) (iovec : List IovecEntry) (stack : List UInt8) :
    Prop where
  inside : ∀ v ∈ requestVisits sys cfg s node caller_id direction iovec stack, ∀ a, v.Shares a →
    s.rmem.address ≤ a ∧ a < s.rmem.address + s.rmem.size
  carried : ∃ result s' done,
    rmtfs_iovec sys cfg s node caller_id direction iovec stack = some (.rw_iovec result, s') ∧
    done <+: requestSectors iovec ∧ Carried i (direction != 0) s s' done ∧
    (result = .success ↔ done = requestSectors iovec)

theorem transfersPrefix_of_blocks {sys : Sys W} {cfg : Config} (hro : cfg.storage_read_only = true)
    {s : Server W} {node caller_id : UInt32} {i : Fin MAX_CALLERS}
    (hget : storage_get s.rmtfds node caller_id = .handle i) (hmapped : Mapped s.rmem)
    (hblocks : Blocks s.rmtfds) (direction : UInt8) {iovec : List IovecEntry}
    (haddr : ∀ e ∈ iovec, e.sector_addr.toNat < 2 ^ 23) (stack : List UInt8) :
    TransfersPrefix sys cfg i s node caller_id direction iovec stack ↔
      (direction = 0 → ReadsBlock s.rmem (s.rmtfds i) (requestSectors iovec)) := by
  have hfits := requestSectors_fit iovec
  have hdir : (direction != 0) = false ↔ direction = 0 := bne_eq_false_iff_eq
  have hsome : (walk sys cfg i (direction != 0) (requestSectors iovec) s stack).isSome ↔
      ((direction != 0) = false → ReadsBlock s.rmem (s.rmtfds i) (requestSectors iovec)) :=
    walk_isSome_iff hro hfits hmapped hblocks stack
  -- the handler is the walk over the sectors of the request
  have hrun : rmtfs_iovec sys cfg s node caller_id direction iovec stack
      = (walk sys cfg i (direction != 0) (requestSectors iovec) s stack).map fun r =>
        (.rw_iovec (if r.1 then .success else qmi_result_error .success QMI_RMTFS_ERR_INTERNAL),
          r.2.1) := by
    rw [rmtfs_iovec, hget]
    simp only
    rw [rmtfs_iovec.transfer, entries_eq_walk hro haddr hmapped hblocks, Option.map_map]
    rfl
  rw [hdir] at hsome
  rw [← hsome]
  constructor
  · rintro ⟨-, result, s', done, hresult, -⟩
    rw [hrun, Option.map_eq_some_iff] at hresult
    obtain ⟨r, hr, -⟩ := hresult
    rw [hr]
    rfl
  · intro h
    obtain ⟨⟨ok, s', buf'⟩, hwalk⟩ := Option.isSome_iff_exists.mp h
    obtain ⟨done, hprefix, hall, hcarried⟩ := walk_carried hro hfits hmapped hblocks hwalk
    refine ⟨?_, ?_⟩
    -- the pointer of a visit was checked against the window
    · rintro v hv a ⟨p, hp, hlo, hhi⟩
      rw [requestVisits, hget] at hv
      obtain ⟨hj, hmap⟩ := visits_sameMap iovec s stack v hv
      have hphys : v.phys < 2 ^ 63 := by
        have hbase := v.entry.phys_offset.toNat_lt
        simp only [Visit.phys, SECTOR_SIZE]
        omega
      rw [rmtfs_mem_ptr_eq (hmapped.of_sameMap hmap) hphys] at hp
      rw [hmap.address] at hp hlo hhi
      rw [hmap.size] at hp
      split at hp
      · rename_i hin
        cases hp
        omega
      · cases hp
    · rw [hwalk] at hrun
      refine ⟨_, s', done, hrun, hprefix, hcarried, ?_⟩
      rw [← hall]
      cases ok with
      | false =>
        have hfailure : qmi_result_error .success QMI_RMTFS_ERR_INTERNAL ≠ .success := by decide
        exact iff_of_false hfailure Bool.false_ne_true
      | true => exact iff_of_true rfl rfl

theorem serve_blocks {sys : Sys W} {cfg : Config} {pre : List Arrival} {s s' : Server W}
    (hs : Blocks s.rmtfds) (h : serve sys cfg pre s = some s') : Blocks s'.rmtfds := by
  induction pre generalizing s with
  | nil =>
    cases h
    exact hs
  | cons a pre ih =>
    obtain ⟨r, hr, h⟩ := Option.bind_eq_some_iff.mp h
    exact ih (command_blocks hs hr) h

/-- **An RW_IOVEC on a shadow file carries a prefix**: always if it is a write, and if it is a read exactly
when all sectors it comes to are ones of the block. -/
theorem transfers_prefix_iff (sys : Sys W) (root : Option String) (use_partitions : Bool)
    (rmem : RmtfsMem) (w : W) (pre : List Arrival) (s : Server W)
    (hreach : serve sys (storage_init root true use_partitions).1 pre
      ⟨(storage_init root true use_partitions).2, rmem, w⟩ = some s)
    (node caller_id : UInt32) (i : Fin MAX_CALLERS)
    (hget : storage_get s.rmtfds node caller_id = .handle i) (hmapped : Mapped s.rmem)
    (direction : UInt8) (iovec : List IovecEntry)
    (haddr : ∀ e ∈ iovec, e.sector_addr.toNat < 2 ^ 23) (stack : List UInt8) :
    TransfersPrefix sys (storage_init root true use_partitions).1 i s node caller_id direction iovec
        stack ↔
      (direction = 0 → ReadsBlock s.rmem (s.rmtfds i) (requestSectors iovec)) :=
  transfersPrefix_of_blocks rfl hget hmapped (serve_blocks (blocks_init root true use_partitions) hreach)
    direction haddr stack

/-- The slot that is opened first. -/
def firstSlot : Fin MAX_CALLERS := ⟨0, by decide⟩

/-- The server behind the OPEN of a one-byte file. -/
def oneByteServer : Server Unit :=
  { readOnlyServer with
    rmtfds := Function.update readOnlyServer.rmtfds firstSlot
      ⟨0, 1, none, 0, partition_table.head?, some [7], 1⟩ }

theorem oneByteServer_served :
    serve oneByteFiles readOnly [⟨1, [], .request (.open_ "/boot/modem_fs1")⟩] readOnlyServer
      = some oneByteServer := by
  rfl

theorem eightSectors_mapped : Mapped eightSectors := ⟨nofun, by decide, by decide⟩

/-- The first sector of the one-byte file is read three times, the second time to an address behind the
window: the transfer ends there, and only the first entry is carried. -/
theorem transfers_prefix_stops_at_window :
    TransfersPrefix oneByteFiles readOnly firstSlot oneByteServer 1 0 0
        [⟨0, 0, 1⟩, ⟨0, 4096, 1⟩, ⟨0, 512, 1⟩] [] ∧
      (rmtfs_iovec oneByteFiles readOnly oneByteServer 1 0 0
        [⟨0, 0, 1⟩, ⟨0, 4096, 1⟩, ⟨0, 512, 1⟩] []).map Prod.fst = some (.rw_iovec internalError) := by
  refine ⟨(transfers_prefix_iff oneByteFiles none false eightSectors () _ oneByteServer
    oneByteServer_served 1 0 firstSlot rfl eightSectors_mapped 0
    [⟨0, 0, 1⟩, ⟨0, 4096, 1⟩, ⟨0, 512, 1⟩] (by decide) []).mpr fun _ => ?_, by decide +kernel⟩
  -- every sector is at the start of the file
  intro pre x post hsplit _
  have hx : x ∈ requestSectors [⟨0, 0, 1⟩, ⟨0, 4096, 1⟩, ⟨0, 512, 1⟩] := by
    rw [hsplit]
    exact List.mem_append_right _ List.mem_cons_self
  have hpos : ∀ y ∈ requestSectors [⟨0, 0, 1⟩, ⟨0, 4096, 1⟩, ⟨0, 512, 1⟩], y.pos = 0 := by decide
  exact .inl (by rw [hpos x hx]; exact Nat.zero_le _)

/-- The read of the second one copies from behind the block. -/
theorem transfer_leaves_block :
    serve oneByteFiles readOnly [⟨1, [], .request (.open_ "/boot/modem_fs1")⟩] readOnlyServer
        = some oneByteServer ∧
      storage_get oneByteServer.rmtfds 1 0 = .handle firstSlot ∧ Mapped oneByteServer.rmem ∧
      ¬ TransfersPrefix oneByteFiles readOnly firstSlot oneByteServer 1 0 0 [⟨1, 0, 1⟩] [] := by
  refine ⟨oneByteServer_served, rfl, eightSectors_mapped, fun h => ?_⟩
  obtain ⟨result, s', done, hresult, -⟩ := h.carried
  have hnone : rmtfs_iovec oneByteFiles readOnly oneByteServer 1 0 0 [⟨1, 0, 1⟩] [] = none := by
    rw [← Option.isNone_iff_eq_none]
    decide +kernel
  rw [hnone] at hresult
  cases hresult

end Dragonboard.Rmtfs
