/-
`qcom/qrtr/lib/qrtr.c`: what the clients of the name server make of a packet.

`qrtr_decode` takes a packet from the control port for a `struct qrtr_ctrl_pkt`, and any other one for
data. Fields of the result that it does not assign keep what they held.
-/
import Dragonboard.NsView

set_option autoImplicit false

namespace Dragonboard.Qrtr

open Dragonboard.Memory Dragonboard.Ns

/-- `struct qrtr_packet`. -/
structure QrtrPacket where
  type : UInt32
  node : UInt32
  port : UInt32
  service : UInt32
  instance_ : UInt32
  version : UInt32
  data : List UInt8
deriving DecidableEq, Repr

/-- `EMSGSIZE`. -/
def EMSGSIZE : ℤ := 90

/-- The `struct qrtr_ctrl_pkt` at the start of a packet that is long enough for it. -/
def ctrl (buf : List UInt8) : QrtrCtrlPkt := .read (writeAt (fun _ => 0) 0 buf)

/-- `qrtr_decode`. -/
def qrtr_decode (dest : QrtrPacket) (buf : List UInt8) (sq : SockaddrQrtr) : Except ℤ QrtrPacket :=
  if sq.sq_port = QRTR_PORT_CTRL then
    if buf.length < 20 then .error (-EMSGSIZE)
    else
      let pkt := ctrl buf
      let dest := { dest with type := pkt.cmd }
      match QrtrType.ofCode pkt.cmd with
      | some .bye => .ok { dest with node := pkt.client_node }
      | some .del_client => .ok { dest with node := pkt.client_node, port := pkt.client_port }
      | some .new_server | some .del_server =>
        .ok { dest with
          node := pkt.node
          port := pkt.port
          service := pkt.service
          version := pkt.instance_ &&& 0xff
          instance_ := pkt.instance_ >>> 8 }
      | _ => .ok { dest with type := 0 }
  else .ok { dest with type := QrtrType.data.code, node := sq.sq_node, port := sq.sq_port, data := buf }

/-- A packet is read back as it was built. -/
theorem ctrl_bytes (pkt : QrtrCtrlPkt) : ctrl pkt.bytes = pkt :=
  QrtrCtrlPkt.read_of_holds (holds_writeAt _ _ _)

end Dragonboard.Qrtr
