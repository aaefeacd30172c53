/-
`qcom/rmtfs/rmtfs.c`: from a packet to the response that is sent.

The five handlers decode the packet into a request on their stack, carry it out, and encode a response
with the message id of the request. A request that cannot be decoded is answered with
`QMI_RMTFS_ERR_MALFORMED_MSG`. The transaction id of the response is that of the request, if
`qmi_decode_message` got as far as to store it; the variable is not initialised, so that otherwise it is
what the stack held (`Stack.txn`).

As for the other parts of the server, `none` is a packet for which the source has no defined behaviour.
To the cases of `command` come a request that was decoded beyond its struct, and the message that
`rmtfs_close` prints: it prints the caller id as a string. A read behind the bytes that were received is
no such case: the packet lies on the stack, and what the decoder finds behind it, in the buffer and
behind its 4096 bytes, is what the stack held (`Stack.buf`). Of what lies behind a block of the heap, on
the other hand, nothing is assumed, and reading it is `none`.
-/
import Dragonboard.QmiComplete
import Dragonboard.Qrtr
import Dragonboard.RmtfsCommands

set_option autoImplicit false

namespace Dragonboard.Rmtfs

open Dragonboard.Memory Dragonboard.Qmi Dragonboard.Qrtr

/-! ## Requests in memory

A handler decodes the packet into a struct on its stack, and reads the fields from there. -/

/-- A `uint32_t` in a struct. -/
def uint32At (m : Mem) (p : ℕ) : UInt32 := UInt32.ofNat (leNat (bytesAt m p 4))

/-- The string in a `char [n]`, as `strcmp` sees it. -/
def stringAt (m : Mem) (p n : ℕ) : String :=
  String.ofList (((bytesAt m p n).takeWhile fun b => b ≠ 0).map fun b => Char.ofNat b.toNat)

/-- The `struct rmtfs_iovec_entry` at an address. -/
def iovecEntryAt (m : Mem) (p : ℕ) : IovecEntry :=
  ⟨uint32At m (p + offsetof rmtfs_iovec_entry 0), uint32At m (p + offsetof rmtfs_iovec_entry 1),
    uint32At m (p + offsetof rmtfs_iovec_entry 2)⟩

/-- What a handler finds in its struct. -/
def commandOf (m : Mem) : Qmi.Request → Command
  | .open_req => .request (.open_ (stringAt m (offsetof rmtfs_open_req 1) 256))
  | .close_req => .request (.close (uint32At m (offsetof rmtfs_close_req 0)))
  | .iovec_req =>
    .request (.rw_iovec (uint32At m (offsetof rmtfs_iovec_req 0)) (m (offsetof rmtfs_iovec_req 1))
      ((List.range (iovec_len m 0)).map fun i =>
        iovecEntryAt m (offsetof rmtfs_iovec_req 3 + i * sizeof rmtfs_iovec_entry)))
  | .alloc_buf_req =>
    .alloc_buf (uint32At m (offsetof rmtfs_alloc_buf_req 0)) (uint32At m (offsetof rmtfs_alloc_buf_req 1))
  | .dev_error_req => .request (.get_dev_error (uint32At m (offsetof rmtfs_dev_error_req 0)))

/-! ## Responses in memory

The response is a struct too, filled by the handler and encoded with its table. -/

/-- `QMI_RMTFS_ERR_MALFORMED_MSG`. -/
def QMI_RMTFS_ERR_MALFORMED_MSG : ℕ := 2

/-- `QMI_RESPONSE`. -/
def QMI_RESPONSE : ℕ := 2

/-- The answer to a request that could not be decoded. -/
def malformed : Qmi.Request → Answer
  | .open_req => .response (.open_ (qmi_result_error .success QMI_RMTFS_ERR_MALFORMED_MSG) none)
  | .close_req => .response (.close (qmi_result_error .success QMI_RMTFS_ERR_MALFORMED_MSG))
  | .iovec_req => .response (.rw_iovec (qmi_result_error .success QMI_RMTFS_ERR_MALFORMED_MSG))
  | .alloc_buf_req => .alloc_buf (qmi_result_error .success QMI_RMTFS_ERR_MALFORMED_MSG) none
  | .dev_error_req =>
    .response (.get_dev_error (qmi_result_error .success QMI_RMTFS_ERR_MALFORMED_MSG) none)

/-- A struct that starts with a `struct rmtfs_qmi_result`, and may have an optional field behind. -/
def respStruct (s : List CType) (result : Result) (value : Option (List UInt8)) : Mem :=
  let m := writeAt (fun _ => 0) (offsetof s 0) (leBytes 2 result.result ++ leBytes 2 result.error)
  match value with
  | none => m
  | some bytes => writeAt (writeAt m (offsetof s 1) [1]) (offsetof s 2) bytes

/-- The struct of an answer. -/
def Answer.cstruct : Answer → Mem
  | .response (.open_ result caller_id) =>
    respStruct rmtfs_open_resp result (caller_id.map (leBytes 4))
  | .response (.close result) => respStruct rmtfs_close_resp result none
  | .response (.rw_iovec result) => respStruct rmtfs_iovec_resp result none
  | .response (.get_dev_error result status) =>
    respStruct rmtfs_dev_error_resp result (status.map (leBytes 1))
  | .alloc_buf result buff_address =>
    respStruct rmtfs_alloc_buf_resp result (buff_address.map (leBytes 8))

/-- The descriptor table of an answer. -/
def Answer.ei : Answer → List ElemInfo
  | .response (.open_ _ _) => rmtfs_open_resp_ei
  | .response (.close _) => rmtfs_close_resp_ei
  | .response (.rw_iovec _) => rmtfs_iovec_resp_ei
  | .response (.get_dev_error _ _) => rmtfs_dev_error_resp_ei
  | .alloc_buf _ _ => rmtfs_alloc_buf_resp_ei

/-! ## Handlers

The five handlers do the same around the request itself: decode, refuse what could not be decoded,
carry it out, reply. What can differ is the struct and what is printed. -/

/-- What the stack holds where the source does not initialise it. -/
structure Stack where
  /-- `struct qrtr_packet pkt` -/
  pkt : QrtrPacket
  /-- the buffer for the packet, and what lies behind its 4096 bytes -/
  buf : Mem
  txn : UInt32
  /-- the buffer for a sector -/
  sector : List UInt8
  resp_buf : Mem

/-- A call of `qrtr_sendto`. -/
structure Send where
  node : UInt32
  port : UInt32
  data : List UInt8
deriving DecidableEq, Repr

/-- The end of the handlers: the response is encoded and sent to where the packet came from. -/
def respond (stack : Stack) (pkt : QrtrPacket) (msg_id txn : ℕ) (a : Answer) : List Send :=
  let enc := qmi_encode_message 256 QMI_RESPONSE msg_id txn (some (a.cstruct, 0)) a.ei
  match enc.result with
  | .error _ => []
  | .ok data_len => [⟨pkt.node, pkt.port, bytesAt (applyStores stack.resp_buf enc.stores) 0 data_len⟩]

/-- No byte was stored behind a struct of `size` bytes. -/
def InStruct (size : ℕ) (stores : List Store) : Prop :=
  ∀ s ∈ stores, s.bytes ≠ [] → s.addr + s.bytes.length ≤ size

instance (size : ℕ) (stores : List Store) : Decidable (InStruct size stores) :=
  inferInstanceAs (Decidable (∀ s ∈ stores, s.bytes ≠ [] → s.addr + s.bytes.length ≤ size))

section Handlers

variable {W : Type} (sys : Sys W) (cfg : Config) (dbgprintf_enabled : Bool)

/-- The handler of a request. -/
def handler (r : Qmi.Request) (s : Server W) (stack : Stack) (pkt : QrtrPacket) :
    Option (List Send × Server W) :=
  let dec := qmi_decode_message (writeAt stack.buf 0 pkt.data) pkt.data.length QMI_REQUEST r.id 0 r.ei
  let txn := dec.1.getD stack.txn.toNat
  if InStruct (sizeof r.message.cstruct) dec.2.stores then
    match dec.2.result with
    | .error _ => some (respond stack pkt r.id txn (malformed r), s)
    | .ok _ =>
      (command sys cfg s pkt.node stack.sector
          (commandOf (applyStores (fun _ => 0) dec.2.stores) r)).map
        fun a => (respond stack pkt r.id txn a.1, a.2)
  else none

namespace Packet

/-- `rmtfs_open`. -/
def rmtfs_open := handler sys cfg .open_req

/-- `rmtfs_close`. Its message for debugging has the caller id as a `%s`. -/
def rmtfs_close (s : Server W) (stack : Stack) (pkt : QrtrPacket) : Option (List Send × Server W) :=
  if dbgprintf_enabled then none else handler sys cfg .close_req s stack pkt

/-- `rmtfs_iovec`. -/
def rmtfs_iovec := handler sys cfg .iovec_req

/-- `rmtfs_alloc_buf`. -/
def rmtfs_alloc_buf := handler sys cfg .alloc_buf_req

/-- `rmtfs_get_dev_error`. -/
def rmtfs_get_dev_error := handler sys cfg .dev_error_req

end Packet

/-! ## `handle_rmtfs`

One packet from the socket. What its return value means is up to the loop, in `Rproc`. -/

/-- What `recvfrom` returned: an error, or a packet, which is cut off at the size of the buffer. -/
inductive Received where
  | error (errno : ℕ)
  | packet (buf : List UInt8) (fits : buf.length ≤ 4096) (sq : Ns.SockaddrQrtr)

/-- What `handle_rmtfs` returned and sent, and the server afterwards. -/
structure Handled (W : Type) where
  ret : ℤ
  sent : List Send
  server : Server W

/-- The inner switch of `handle_rmtfs`. -/
def handle_rmtfs.dispatch (s : Server W) (stack : Stack) (pkt : QrtrPacket) :
    ℕ → Option (List Send × Server W)
  | 1 => Packet.rmtfs_open sys cfg s stack pkt
  | 2 => Packet.rmtfs_close sys cfg dbgprintf_enabled s stack pkt
  | 3 => Packet.rmtfs_iovec sys cfg s stack pkt
  | 4 => Packet.rmtfs_alloc_buf sys cfg s stack pkt
  | 5 => Packet.rmtfs_get_dev_error sys cfg s stack pkt
  | _ => some ([], s)

/-- `handle_rmtfs`. -/
def handle_rmtfs (s : Server W) (stack : Stack) : Received → Option (Handled W)
  | .error errno => some ⟨-errno, [], s⟩
  | .packet buf _ sq =>
    match qrtr_decode stack.pkt buf sq with
    | .error ret => some ⟨ret, [], s⟩
    | .ok pkt =>
      match Ns.QrtrType.ofCode pkt.type with
      | some .data =>
        match qmi_decode_header (writeAt stack.buf 0 pkt.data) pkt.data.length with
        | .error _ => some ⟨-EINVAL, [], s⟩
        | .ok msg_id =>
          (handle_rmtfs.dispatch sys cfg dbgprintf_enabled s stack pkt msg_id).map
            fun r => ⟨0, r.1, r.2⟩
      -- `rmtfs_bye` and `rmtfs_del_client` only print
      | _ => some ⟨0, [], s⟩

end Handlers

end Dragonboard.Rmtfs
