/-
`qcom/rmtfs/rmtfs.c`: the request handlers, from a decoded request to the response.

A handler takes the state of the server, the node the request came from and the fields of
the decoded request. Its result is `none` where the source has no defined behaviour:
an index outside the handle table, a null handle, a read outside a heap block, or the overflow of the
sector counter.
-/
import Dragonboard.Storage

set_option autoImplicit false

namespace Dragonboard.Rmtfs

/-! ## Messages

The requests and responses as the handlers see them, between decoding and encoding. Their bytes
are in `RmtfsPackets`. -/

/-- The result and error of a response. -/
structure Result where
  result : ℕ
  error : ℕ
deriving DecidableEq, Repr

/-- `QMI_RMTFS_RESULT_SUCCESS`. -/
def QMI_RMTFS_RESULT_SUCCESS : ℕ := 0

/-- `QMI_RMTFS_RESULT_FAILURE`. -/
def QMI_RMTFS_RESULT_FAILURE : ℕ := 1

/-- `QMI_RMTFS_ERR_NONE`. -/
def QMI_RMTFS_ERR_NONE : ℕ := 0

/-- `QMI_RMTFS_ERR_INTERNAL`. -/
def QMI_RMTFS_ERR_INTERNAL : ℕ := 1

/-- A result as the handlers start with it. -/
def Result.success : Result := ⟨QMI_RMTFS_RESULT_SUCCESS, QMI_RMTFS_ERR_NONE⟩

/-- `qmi_result_error`: only the first error is kept. -/
def qmi_result_error (r : Result) (error : ℕ) : Result :=
  if r.result = QMI_RMTFS_RESULT_FAILURE then r else ⟨QMI_RMTFS_RESULT_FAILURE, error⟩

/-- `struct rmtfs_iovec_entry`. -/
structure IovecEntry where
  sector_addr : UInt32
  phys_offset : UInt32
  num_sector : UInt32
deriving DecidableEq, Repr

/-- The requests that concern the handle table. -/
inductive Request where
  | open_ (path : String)
  | close (caller_id : UInt32)
  | rw_iovec (caller_id : UInt32) (direction : UInt8) (iovec : List IovecEntry)
  | get_dev_error (caller_id : UInt32)
deriving DecidableEq, Repr

/-- The responses; an optional field is absent if its `_valid` flag is not set. -/
inductive Response where
  | open_ (result : Result) (caller_id : Option ℕ)
  | close (result : Result)
  | rw_iovec (result : Result)
  | get_dev_error (result : Result) (status : Option ℕ)
deriving DecidableEq, Repr

/-- The server: handle table, shared memory, and the system. -/
structure Server (W : Type) where
  rmtfds : Table
  rmem : RmtfsMem
  world : W

section Handlers

variable {W : Type} (sys : Sys W) (cfg : Config)

/-! ## Handlers

The handlers of `rmtfs.c` on the server: handle table, shared memory and the system. `none` is a
step that C does not define, such as an index outside the table or a read that leaves its block. -/

/-- `rmtfs_open`. -/
def rmtfs_open (s : Server W) (node : UInt32) (path : String) : Response × Server W :=
  match storage_open sys cfg s.rmtfds s.world node path with
  | (none, t, w) =>
    (.open_ (qmi_result_error .success QMI_RMTFS_ERR_INTERNAL) none,
      { s with rmtfds := t, world := w })
  | (some i, t, w) =>
    (.open_ .success (some (t i).id), { s with rmtfds := t, world := w })

/-- `rmtfs_close`, up to its message for debugging (`handleLoud`). -/
def rmtfs_close (s : Server W) (node caller_id : UInt32) : Option (Response × Server W) :=
  match storage_get s.rmtfds node caller_id with
  | .outside => none
  | .null => some (.close (qmi_result_error .success QMI_RMTFS_ERR_INTERNAL), s)
  | .handle i =>
    match storage_close sys s.rmtfds s.world i with
    | (t, w) => some (.close .success, { s with rmtfds := t, world := w })

/-- The body of the inner loop of `rmtfs_iovec`: one sector, at the shared memory address `phys`
and the file offset `pos`. The boolean is `n == SECTOR_SIZE`; `buf` is the local buffer. -/
def rmtfs_iovec.sector (i : Fin MAX_CALLERS) (is_write : Bool) (phys pos : ℕ) (s : Server W)
    (buf : List UInt8) : Option (Bool × Server W × List UInt8) :=
  if is_write then
    match rmtfs_mem_read sys s.rmem s.world phys SECTOR_SIZE with
    | (none, w) => some (false, { s with world := w }, buf)
    | (some bytes, w) =>
      if bytes.length = SECTOR_SIZE then
        match storage_pwrite sys cfg (s.rmtfds i) w bytes pos with
        | (n, r, w) =>
          some (n == some SECTOR_SIZE,
            { s with rmtfds := Function.update s.rmtfds i r, world := w }, bytes)
      -- a short read of the memory device fills the front of the buffer
      else some (false, { s with world := w }, bytes ++ buf.drop bytes.length)
  else
    match storage_pread sys cfg (s.rmtfds i) s.world buf SECTOR_SIZE pos with
    | none => none
    | some (buf, w) =>
      match rmtfs_mem_write sys s.rmem w phys buf with
      | (n, rmem, w) => some (n == some SECTOR_SIZE, { s with rmem := rmem, world := w }, buf)

/-- The inner loop of `rmtfs_iovec`, from the sector `j` on with `left` sectors to go. The counter
is an `int`. -/
def rmtfs_iovec.sectors (i : Fin MAX_CALLERS) (is_write : Bool) (phys_base sector_base : ℕ) :
    ℕ → ℕ → Server W → List UInt8 → Option (Bool × Server W × List UInt8)
  | 0, _, s, buf => some (true, s, buf)
  | left + 1, j, s, buf =>
    match rmtfs_iovec.sector sys cfg i is_write (phys_base + j * SECTOR_SIZE)
        (sector_base + j * SECTOR_SIZE) s buf with
    | none => none
    | some (false, s, buf) => some (false, s, buf)
    | some (true, s, buf) =>
      -- one more would overflow the `int`
      if j + 1 = 2 ^ 31 then none
      else rmtfs_iovec.sectors i is_write phys_base sector_base left (j + 1) s buf

/-- The outer loop of `rmtfs_iovec`. The sector base is computed in 32 bits. -/
def rmtfs_iovec.entries (i : Fin MAX_CALLERS) (is_write : Bool) :
    List IovecEntry → Server W → List UInt8 → Option (Bool × Server W)
  | [], s, _ => some (true, s)
  | e :: es, s, buf =>
    match rmtfs_iovec.sectors sys cfg i is_write e.phys_offset.toNat
        (e.sector_addr * UInt32.ofNat SECTOR_SIZE).toNat e.num_sector.toNat 0 s buf with
    | none => none
    -- the first sector that fails ends both loops
    | some (false, s, _) => some (false, s)
    | some (true, s, buf) => rmtfs_iovec.entries i is_write es s buf

/-- The transfer of `rmtfs_iovec` on a handle, with its response. The local buffer starts as
`stack`. -/
def rmtfs_iovec.transfer (i : Fin MAX_CALLERS) (direction : UInt8) (iovec : List IovecEntry)
    (s : Server W) (stack : List UInt8) : Option (Response × Server W) :=
  (rmtfs_iovec.entries sys cfg i (direction != 0) iovec s stack).map fun r =>
    (.rw_iovec (if r.1 then .success else qmi_result_error .success QMI_RMTFS_ERR_INTERNAL), r.2)

/-- `rmtfs_iovec`. -/
def rmtfs_iovec (s : Server W) (node caller_id : UInt32) (direction : UInt8)
    (iovec : List IovecEntry) (stack : List UInt8) : Option (Response × Server W) :=
  match storage_get s.rmtfds node caller_id with
  | .outside => none
  | .null => some (.rw_iovec (qmi_result_error .success QMI_RMTFS_ERR_INTERNAL), s)
  | .handle i => rmtfs_iovec.transfer sys cfg i direction iovec s stack

/-- `rmtfs_get_dev_error`. The test for a missing handle is the wrong way round: a handle that is
found is answered with an error, and one that is not is used. -/
def rmtfs_get_dev_error (s : Server W) (node caller_id : UInt32) :
    Option (Response × Server W) :=
  match storage_get s.rmtfds node caller_id with
  | .outside => none
  -- a handle that is there is answered with an error
  | .handle _ =>
    some (.get_dev_error (qmi_result_error .success QMI_RMTFS_ERR_INTERNAL) none, s)
  -- and for one that is not `storage_get_error` reads through a null pointer
  | .null => none

/-- One request of a node. -/
def handle (s : Server W) (node : UInt32) (stack : List UInt8) :
    Request → Option (Response × Server W)
  | .open_ path => some (rmtfs_open sys cfg s node path)
  | .close caller_id => rmtfs_close sys s node caller_id
  | .rw_iovec caller_id direction iovec =>
    rmtfs_iovec sys cfg s node caller_id direction iovec stack
  | .get_dev_error caller_id => rmtfs_get_dev_error s node caller_id

/-- One request of a node, with what its handler prints for debugging before it replies. All that
matters of it is that `rmtfs_close` passes the caller id, a number, for a `%s`: with `-v` nothing is
defined from there on. -/
def handleLoud (dbgprintf_enabled : Bool) (s : Server W) (node : UInt32) (stack : List UInt8)
    (request : Request) : Option (Response × Server W) :=
  match dbgprintf_enabled, request with
  | true, .close _ => none
  | _, request => handle sys cfg s node stack request

end Handlers

end Dragonboard.Rmtfs
