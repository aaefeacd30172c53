/-
`qcom/rmtfs/storage.c` and the access functions of `qcom/rmtfs/sharedmem.c`.

The handle table `rmtfds` is a function on its ten indices. An index that is not one of
them has no place in it: where the source would use such an index, or a null pointer, the
model says so (`Got.outside`, or `none` for a result) and nothing follows.

The system below is a parameter. `Sys W` lists the calls the storage code makes, over
a type `W` of world states of which nothing is assumed; a call returns what it returned
and the next world. File descriptors are natural numbers, and -1 is `none`: a
call on it fails and changes nothing. Memory given out by `realloc` is whatever the
world says it is.

In shadow mode a handle has a heap block, the list of its bytes, of which the first
`shadow_len` count as the file.
-/
import Mathlib.Algebra.Ring.Int.Defs
import Mathlib.Algebra.Group.Nat.Defs
import Mathlib.Data.List.Basic
import Mathlib.Data.Fin.Basic
import Mathlib.Order.Basic

set_option autoImplicit false

namespace Dragonboard.Rmtfs

/-! ## The system underneath

The storage code works on partitions through system calls. They are a parameter, over worlds of
any type. -/

/-- The system calls of the storage code. A `none` result is the call's -1, or a null
pointer. -/
structure Sys (W : Type) where
  /-- `open(path, O_RDWR)` -/
  open_rdwr : W → String → Option ℕ × W
  /-- `open(path, O_RDONLY)` -/
  open_rdonly : W → String → Option ℕ × W
  /-- `lseek(fd, 0, SEEK_END)` -/
  lseek_end : W → ℕ → Option ℕ × W
  /-- `read(fd, buf, len)` from the start of the file -/
  read : W → ℕ → ℕ → Option (List UInt8) × W
  /-- `pread(fd, buf, nbyte, offset)` -/
  pread : W → ℕ → ℕ → ℕ → Option (List UInt8) × W
  /-- `pwrite(fd, buf, nbyte, offset)` -/
  pwrite : W → ℕ → List UInt8 → ℕ → Option ℕ × W
  /-- `close(fd)` -/
  close : W → ℕ → W
  /-- `calloc(1, len)` -/
  calloc : W → ℕ → Bool × W
  /-- `realloc(buf, len)`: what the bytes beyond the old ones hold -/
  realloc : W → ℕ → Option (ℕ → UInt8) × W

/-! ## Handles

The table of the handles, and the configuration they are used under. A handle has a descriptor, or
a shadow buffer in read-only mode. -/

/-- `MAX_CALLERS`. -/
def MAX_CALLERS : ℕ := 10

/-- `STORAGE_MAX_SIZE`. -/
def STORAGE_MAX_SIZE : ℕ := 16 * 1024 * 1024

/-- `SECTOR_SIZE`. -/
def SECTOR_SIZE : ℕ := 512

/-- `BY_PARTLABEL_PATH`, as built for Android. -/
def BY_PARTLABEL_PATH : String := "/dev/block/platform/soc@0/1d84000.ufshc/by-name"

/-- `struct partition`. -/
structure Partition where
  path : String
  actual : String
  partlabel : String
deriving DecidableEq, Repr

/-- `partition_table`, without its end marker. -/
def partition_table : List Partition :=
  [⟨"/boot/modem_fs1", "modem_fs1", "modemst1"⟩,
    ⟨"/boot/modem_fs2", "modem_fs2", "modemst2"⟩,
    ⟨"/boot/modem_fsc", "modem_fsc", "fsc"⟩,
    ⟨"/boot/modem_fsg", "modem_fsg", "fsg"⟩]

/-- `struct rmtfd`. -/
structure Rmtfd where
  id : ℕ
  node : UInt32
  fd : Option ℕ
  dev_error : ℕ
  partition : Option Partition
  shadow_buf : Option (List UInt8)
  shadow_len : ℕ
deriving DecidableEq

/-- The test of `storage_open` for a handle in use. -/
def Rmtfd.inUse (r : Rmtfd) : Bool := r.fd.isSome || r.shadow_buf.isSome

/-- `rmtfds`. -/
abbrev Table : Type := Fin MAX_CALLERS → Rmtfd

/-- The configuration `storage_init` leaves behind. -/
structure Config where
  storage_dir : String
  storage_read_only : Bool
  storage_use_partitions : Bool

/-- `storage_init`: the configuration, and the table in static memory. -/
def storage_init (storage_root : Option String) (read_only use_partitions : Bool) :
    Config × Table :=
  (⟨if use_partitions then BY_PARTLABEL_PATH else storage_root.getD "/boot", read_only,
      use_partitions⟩,
    fun i => ⟨i, 0, none, 0, none, none, 0⟩)

section Calls

variable {W : Type} (sys : Sys W)

/-! ## Opening and closing

The functions of `storage.c` that take handles and give them back. -/

/-- `storage_populate_shadow_buf`: the block and the number of bytes read into it. -/
def storage_populate_shadow_buf (w : W) (file : String) : Option (List UInt8 × ℕ) × W :=
  match sys.open_rdonly w file with
  | (none, w) => (none, w)
  | (some fd, w) =>
    match sys.lseek_end w fd with
    | (none, w) => (none, sys.close w fd)
    | (some len, w) =>
      match sys.calloc w len with
      | (false, w) => (none, sys.close w fd)
      | (true, w) =>
        match sys.read w fd len with
        | (none, w) => (none, sys.close w fd)
        | (some bytes, w) =>
          (some (bytes.take len ++ List.replicate (len - bytes.length) 0, (bytes.take len).length),
            sys.close w fd)

/-- The file behind a partition. -/
def storage_path (cfg : Config) (part : Partition) : String :=
  cfg.storage_dir ++ "/" ++
    if cfg.storage_use_partitions then part.partlabel else part.actual

/-- `storage_open`: the handle, or `none`; the table; the world. -/
def storage_open (cfg : Config) (t : Table) (w : W) (node : UInt32) (path : String) :
    Option (Fin MAX_CALLERS) × Table × W :=
  match partition_table.find? (fun part => part.path = path) with
  | none => (none, t, w)
  | some part =>
    -- this node may have the partition open already
    match (List.finRange MAX_CALLERS).find? fun i =>
        (t i).inUse && (t i).node == node && (t i).partition == some part with
    | some i => (some i, t, w)
    | none =>
      match (List.finRange MAX_CALLERS).find? fun i => !(t i).inUse with
      | none => (none, t, w)
      | some i =>
        if cfg.storage_read_only then
          match storage_populate_shadow_buf sys w (storage_path cfg part) with
          | (none, w) => (none, t, w)
          | (some (buf, len), w) =>
            (some i, Function.update t i { t i with
              shadow_buf := some buf, shadow_len := len, node := node, partition := some part }, w)
        else
          match sys.open_rdwr w (storage_path cfg part) with
          | (none, w) => (none, t, w)
          | (some fd, w) =>
            (some i, Function.update t i { t i with
              fd := some fd, shadow_len := 0, node := node, partition := some part }, w)

/-- `storage_close`. -/
def storage_close (t : Table) (w : W) (i : Fin MAX_CALLERS) : Table × W :=
  (Function.update t i { t i with
      fd := none, shadow_buf := none, shadow_len := 0, partition := none },
    match (t i).fd with
    | some fd => sys.close w fd
    | none => w)

/-- What `storage_get` finds: no handle, a handle, or memory outside the table. -/
inductive Got where
  | null
  | handle (i : Fin MAX_CALLERS)
  | outside
deriving DecidableEq

/-- `storage_get`. The caller id of the message is a `uint32_t`, the parameter an `int`. -/
def storage_get (t : Table) (node caller_id : UInt32) : Got :=
  let id := caller_id.toInt32.toInt
  -- a negative id passes this test, and the slot is in front of the table
  if id ≥ MAX_CALLERS then .null
  else if h : 0 ≤ id ∧ id.toNat < MAX_CALLERS then
    if (t ⟨id.toNat, h.2⟩).node ≠ node then .null else .handle ⟨id.toNat, h.2⟩
  else .outside

/-- `storage_get_error`. -/
def storage_get_error (r : Rmtfd) : ℕ := r.dev_error

/-! ## Reading and writing

The functions that move sectors. In read-only mode they work on the shadow buffer, and the
differences of lengths there are `size_t`s. -/

/-- `a - b` of two `size_t`. -/
def sizeSub (a b : ℕ) : ℕ := (a + 2 ^ 64 - b) % 2 ^ 64

/-- How many bytes `storage_pread` copies out of the shadow buffer. -/
def storage_pread.copied (shadow_len nbyte offset : ℕ) : ℕ :=
  min nbyte (sizeSub shadow_len offset)

/-- `storage_pread` from a shadow buffer. Copying from a null pointer or from beyond the block is
undefined. -/
def storage_pread.shadow (r : Rmtfd) (nbyte offset : ℕ) : Option (List UInt8) :=
  let n := storage_pread.copied r.shadow_len nbyte offset
  if n = 0 then some (List.replicate nbyte 0)
  else
    match r.shadow_buf with
    | none => none
    | some buf =>
      -- `offset` may be behind `shadow_len`: then `n` is all of `nbyte`
      if offset + n ≤ buf.length then
        some ((buf.drop offset).take n ++ List.replicate (nbyte - n) 0)
      else none

/-- `storage_pread` into a buffer that holds `buf`: the bytes afterwards. It returns `nbyte`
whatever `pread` returned; after -1 the comparison with `nbyte` is of unsigned numbers, and the
buffer stays as it is. -/
def storage_pread (cfg : Config) (r : Rmtfd) (w : W) (buf : List UInt8) (nbyte offset : ℕ) :
    Option (List UInt8 × W) :=
  if cfg.storage_read_only then (storage_pread.shadow r nbyte offset).map fun bytes => (bytes, w)
  else
    match r.fd with
    | none => some (buf, w)
    | some fd =>
      match sys.pread w fd nbyte offset with
      -- -1 is not below `nbyte` as an unsigned number, so nothing is cleared
      | (none, w) => some (buf, w)
      | (some bytes, w) => some (bytes ++ List.replicate (nbyte - bytes.length) 0, w)

/-- A block after `realloc` to `len` bytes. -/
def resize (buf : List UInt8) (fresh : ℕ → UInt8) (len : ℕ) : List UInt8 :=
  (List.range len).map fun i => buf.getD i (fresh i)

/-- Bytes copied into a block. -/
def overwrite (buf bytes : List UInt8) (offset : ℕ) : List UInt8 :=
  buf.take offset ++ bytes ++ buf.drop (offset + bytes.length)

/-- `storage_pwrite`: the number of bytes written, or `none` for -1; the handle; the world. -/
def storage_pwrite (cfg : Config) (r : Rmtfd) (w : W) (bytes : List UInt8) (offset : ℕ) :
    Option ℕ × Rmtfd × W :=
  let new_len := offset + bytes.length
  if !cfg.storage_read_only then
    match r.fd with
    | none => (none, r, w)
    | some fd =>
      match sys.pwrite w fd bytes offset with
      | (n, w) => (n, r, w)
  -- from here on nothing goes to the partition
  else if new_len ≥ STORAGE_MAX_SIZE then (none, r, w)
  else if new_len > r.shadow_len then
    match sys.realloc w new_len with
    | (none, w) => (none, r, w)
    | (some fresh, w) =>
      (some bytes.length,
        { r with
          shadow_buf := some (overwrite (resize (r.shadow_buf.getD []) fresh new_len) bytes offset)
          shadow_len := new_len }, w)
  else
    (some bytes.length,
      { r with shadow_buf := r.shadow_buf.map fun buf => overwrite buf bytes offset }, w)

/-! ## Shared memory

The window of `sharedmem.c`: a mapping of the device if there is one, and else the device itself.
-/

/-- `struct rmtfs_mem`; the mapping, if there is one, with its contents. -/
structure RmtfsMem where
  address : ℕ
  size : ℕ
  base : Option (ℕ → UInt8)
  fd : ℕ

/-- `rmtfs_mem_ptr`: the offset in the mapping. -/
def rmtfs_mem_ptr (rmem : RmtfsMem) (phys_address len : ℕ) : Option ℕ :=
  if phys_address < rmem.address ∨
      (phys_address + len) % 2 ^ 64 > (rmem.address + rmem.size) % 2 ^ 64 then none
  else some (phys_address - rmem.address)

/-- `rmtfs_mem_read`: the bytes, or `none` for a negative result. -/
def rmtfs_mem_read (rmem : RmtfsMem) (w : W) (phys_address len : ℕ) :
    Option (List UInt8) × W :=
  match rmem.base with
  | some m =>
    ((rmtfs_mem_ptr rmem phys_address len).map fun p => (List.range len).map fun i => m (p + i), w)
  -- without a mapping the device itself is read
  | none => sys.pread w rmem.fd len (sizeSub phys_address rmem.address)

/-- `rmtfs_mem_write`: the number of bytes, or `none` for a negative result. -/
def rmtfs_mem_write (rmem : RmtfsMem) (w : W) (phys_address : ℕ) (bytes : List UInt8) :
    Option ℕ × RmtfsMem × W :=
  match rmem.base with
  | some m =>
    match rmtfs_mem_ptr rmem phys_address bytes.length with
    | none => (none, rmem, w)
    | some p =>
      (some bytes.length, { rmem with
        base := some fun a => if p ≤ a ∧ a < p + bytes.length then bytes.getD (a - p) 0 else m a }, w)
  | none =>
    match sys.pwrite w rmem.fd bytes (sizeSub phys_address rmem.address) with
    | (n, w) => (n, rmem, w)

end Calls

end Dragonboard.Rmtfs
