/-
`qcom/rmtfs/rmtfs.c`: all five requests, in a run.

ALLOC_BUFF has no part in the handle table: the answer is the start of the shared memory, whatever
caller asks for it and however often, and `rmtfs_mem_free` does nothing.
-/
import Dragonboard.RmtfsCallerIds

set_option autoImplicit false

namespace Dragonboard.Rmtfs

/-- `rmtfs_mem_alloc`: the address, or `none` for a negative result. An address from `2 ^ 63` on is
one. -/
def rmtfs_mem_alloc (rmem : RmtfsMem) (alloc_size : ℕ) : Option ℕ :=
  if alloc_size > rmem.size then none
  else if rmem.address % 2 ^ 64 < 2 ^ 63 then some (rmem.address % 2 ^ 64)
  else none

/-- A decoded request. -/
inductive Command where
  | request (request : Request)
  | alloc_buf (caller_id buff_size : UInt32)
deriving DecidableEq, Repr

/-- The answer to a request. -/
inductive Answer where
  | response (response : Response)
  | alloc_buf (result : Result) (buff_address : Option ℕ)
deriving DecidableEq, Repr

/-- The result in an answer. -/
def Answer.result : Answer → Result
  | .response (.open_ result _) => result
  | .response (.close result) => result
  | .response (.rw_iovec result) => result
  | .response (.get_dev_error result _) => result
  | .alloc_buf result _ => result

/-- The caller id in a request. -/
def Command.caller_id : Command → Option UInt32
  | .request r => r.caller_id
  | .alloc_buf c _ => some c

section Commands

variable {W : Type} (sys : Sys W) (cfg : Config)

/-- `rmtfs_alloc_buf`. -/
def rmtfs_alloc_buf (s : Server W) (buff_size : UInt32) : Answer :=
  match rmtfs_mem_alloc s.rmem buff_size.toNat with
  | none => .alloc_buf (qmi_result_error .success QMI_RMTFS_ERR_INTERNAL) none
  | some address => .alloc_buf .success (some address)

/-- A request of a node carried out, with what the stack holds. -/
def command (s : Server W) (node : UInt32) (stack : List UInt8) :
    Command → Option (Answer × Server W)
  | .request request => (handle sys cfg s node stack request).map fun r => (.response r.1, r.2)
  | .alloc_buf _ buff_size => some (rmtfs_alloc_buf s buff_size, s)

/-- A request as it arrives. -/
structure Arrival where
  node : UInt32
  stack : List UInt8
  command : Command

/-- The server after some requests. -/
def serve : List Arrival → Server W → Option (Server W)
  | [], s => some s
  | a :: arrivals, s => (command sys cfg s a.node a.stack a.command).bind fun r => serve arrivals r.2

end Commands

end Dragonboard.Rmtfs
