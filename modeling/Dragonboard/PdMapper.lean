/-
`qcom/pd-mapper/pd-mapper.c`: the server that tells which protection domains offer a service.

A request has the name of a service, and the response lists the domains of `pd_maps` with that
name. A request that cannot be decoded is answered with `QMI_ERR_MALFORMED_MSG`. As in the
rmtfs server the transaction id of the response is not initialised before `qmi_decode_message` stores it.

`main` keeps its packet and its buffer from one round of the loop to the next, so that behind a packet
lie the bytes of longer ones before it. The rounds end when `main` returns.

`none` is a packet for which the source has no defined behaviour, as it is decoded beyond its struct.
-/
import Dragonboard.RmtfsPackets
import Dragonboard.Runs

set_option autoImplicit false

namespace Dragonboard.PdMapper

open Dragonboard.Memory Dragonboard.Qmi Dragonboard.Qrtr Dragonboard.Runs
open Dragonboard.Rmtfs (InStruct Received Send QMI_RESPONSE)

/-! ## The table of the domains

`pd_maps` of `pd-mapper.c`, as it stands there. -/

/-- The characters of a string. -/
def cstr (s : String) : List UInt8 := s.toList.map fun c => UInt8.ofNat c.toNat

/-- The string in a `char [n]`, without its terminator. -/
def cstrAt (m : Mem) (p n : ℕ) : List UInt8 := (bytesAt m p n).takeWhile fun b => b ≠ 0

/-- `struct pd_map`. The domain has to fit an entry of the response, terminator included. -/
structure PdMap where
  service : List UInt8
  domain : List UInt8
  instance_ : Int32
  service_ok : 0 ∉ service
  domain_ok : 0 ∉ domain ∧ domain.length < 256

/-- `pd_maps`. -/
def pd_maps : List PdMap :=
  [⟨cstr "kernel/elf_loader", cstr "msm/modem/wlan_pd", 1, by decide, by decide⟩]

/-! ## Responses

The response is a struct with an array of entries. Its strings are copied with their terminators,
and what is stored nowhere is zero. -/

/-- `struct servreg_loc_domain_list_entry`. The field `name_len` is the length of the name. -/
structure DomainListEntry where
  name : List UInt8
  instance_id : UInt32
  service_data_valid : UInt8
  service_data : UInt32
deriving DecidableEq, Repr

/-- `struct servreg_loc_get_domain_list_resp`, where an optional field is there if its flag is set. -/
structure GetDomainListResp where
  result : UInt16
  error : UInt16
  total_domains : Option UInt16
  db_revision : Option UInt16
  domain_list : Option (List DomainListEntry)
deriving DecidableEq, Repr

/-- What is stored for an entry at `p`. -/
def DomainListEntry.stores (p : ℕ) (e : DomainListEntry) : List Store :=
  [⟨p + offsetof servreg_loc_domain_list_entry 0, leBytes 4 e.name.length⟩,
   ⟨p + offsetof servreg_loc_domain_list_entry 1, e.name ++ [0]⟩,
   ⟨p + offsetof servreg_loc_domain_list_entry 2, leBytes 4 e.instance_id.toNat⟩,
   ⟨p + offsetof servreg_loc_domain_list_entry 3, [e.service_data_valid]⟩,
   ⟨p + offsetof servreg_loc_domain_list_entry 4, leBytes 4 e.service_data.toNat⟩]

/-- What is stored for an array of entries at `p`. -/
def entryStores (p : ℕ) : List DomainListEntry → List Store
  | [] => []
  | e :: es => e.stores p ++ entryStores (p + sizeof servreg_loc_domain_list_entry) es

/-- What is stored for a number of two bytes with its flag. -/
def optStores (flag value : ℕ) : Option UInt16 → List Store
  | none => []
  | some n => [⟨flag, [1]⟩, ⟨value, leBytes 2 n.toNat⟩]

/-- What is stored for a list of domains with its flag and its count. -/
def listStores : Option (List DomainListEntry) → List Store
  | none => []
  | some es =>
    ⟨offsetof servreg_loc_get_domain_list_resp 5, [1]⟩ ::
      ⟨offsetof servreg_loc_get_domain_list_resp 6, leBytes 4 es.length⟩ ::
        entryStores (offsetof servreg_loc_get_domain_list_resp 7) es

/-- What is stored for a response. -/
def GetDomainListResp.stores (r : GetDomainListResp) : List Store :=
  ⟨offsetof servreg_loc_get_domain_list_resp 0,
    leBytes 2 r.result.toNat ++ leBytes 2 r.error.toNat⟩ ::
  (optStores (offsetof servreg_loc_get_domain_list_resp 1)
      (offsetof servreg_loc_get_domain_list_resp 2) r.total_domains ++
    optStores (offsetof servreg_loc_get_domain_list_resp 3)
      (offsetof servreg_loc_get_domain_list_resp 4) r.db_revision ++
    listStores r.domain_list)

/-- The struct of a response. -/
def GetDomainListResp.cstruct (r : GetDomainListResp) : Mem := applyStores (fun _ => 0) r.stores

/-! ## `handle_get_domain_list`

The handler goes through the table and collects the domains of the service in the request. Where
the request cannot be decoded, the transaction id that it replies with is what the stack held. -/

/-- `SERVREG_LOC_GET_DOMAIN_LIST`. -/
def SERVREG_LOC_GET_DOMAIN_LIST : ℕ := 33

/-- `QMI_RESULT_FAILURE`. -/
def QMI_RESULT_FAILURE : UInt16 := 1

/-- `QMI_ERR_MALFORMED_MSG`. -/
def QMI_ERR_MALFORMED_MSG : UInt16 := 2

/-- The answer to a request that could not be decoded. -/
def malformed : GetDomainListResp := ⟨QMI_RESULT_FAILURE, QMI_ERR_MALFORMED_MSG, none, none, none⟩

/-- The entry for a domain of the table. -/
def PdMap.entry (m : PdMap) : DomainListEntry := ⟨m.domain, m.instance_.toUInt32, 0, 0⟩

/-- The entries for a service. -/
def entriesOf (maps : List PdMap) (name : List UInt8) : List DomainListEntry :=
  (maps.filter fun m => m.service = name).map PdMap.entry

/-- The answer to a request for a service. -/
def found (maps : List PdMap) (name : List UInt8) : GetDomainListResp :=
  let entries := entriesOf maps name
  { result := 0
    error := 0
    total_domains := some (UInt16.ofNat entries.length)
    db_revision := some 1
    domain_list := if entries.length = 0 then none else some entries }

/-- The name in a request, whose last character is overwritten. -/
def requestName (req : Mem) : List UInt8 :=
  cstrAt (writeAt req (offsetof servreg_loc_get_domain_list_req 1 + 255) [0])
    (offsetof servreg_loc_get_domain_list_req 1) 256

/-- What the stack of `handle_get_domain_list` holds where the source does not initialise it. -/
structure Locals where
  txn : UInt32
  resp_buf : Mem

/-- The end of `handle_get_domain_list`. -/
def respond (locals : Locals) (pkt : QrtrPacket) (txn : ℕ) (resp : GetDomainListResp) : List Send :=
  let enc := qmi_encode_message 256 QMI_RESPONSE SERVREG_LOC_GET_DOMAIN_LIST txn
    (some (resp.cstruct, 0)) servreg_loc_get_domain_list_resp_ei
  match enc.result with
  | .error _ => []
  | .ok data_len =>
    [⟨pkt.node, pkt.port, bytesAt (applyStores locals.resp_buf enc.stores) 0 data_len⟩]

/-- `handle_get_domain_list`, with the buffer of `main` that the packet points to. -/
def handle_get_domain_list (locals : Locals) (buf : Mem) (pkt : QrtrPacket) : Option (List Send) :=
  let dec := qmi_decode_message buf pkt.data.length QMI_REQUEST SERVREG_LOC_GET_DOMAIN_LIST 0
    servreg_loc_get_domain_list_req_ei
  let txn := dec.1.getD locals.txn.toNat
  if InStruct (sizeof servreg_loc_get_domain_list_req) dec.2.stores then
    match dec.2.result with
    | .error _ => some (respond locals pkt txn malformed)
    | .ok _ =>
      let name := requestName (applyStores (fun _ => 0) dec.2.stores)
      some (respond locals pkt txn (found pd_maps name))
  else none

/-! ## `main`

The loop of `main`. Its state are the packet and the buffer that it
reuses in every round, what it has sent, and whether it has returned. -/

/-- The process in the loop of `main`: its packet and buffer, what it has sent, and what `main` has
returned. -/
structure Process where
  pkt : QrtrPacket
  buf : Mem
  sent : List Send
  ret : Option ℤ

/-- A round of the loop: `qrtr_poll` is interrupted, or fails, or `recvfrom` returns. -/
inductive Event where
  | interrupted
  | poll_failed
  | received (locals : Locals) (rcv : Received)

/-- The switch of `main`, behind `qrtr_decode`. -/
def main.packet (locals : Locals) (s : Process) : Option Process :=
  match Ns.QrtrType.ofCode s.pkt.type with
  | some .data =>
    match qmi_decode_header s.buf s.pkt.data.length with
    | .error _ => some s
    | .ok msg_id =>
      if msg_id = SERVREG_LOC_GET_DOMAIN_LIST then
        (handle_get_domain_list locals s.buf s.pkt).map fun sent => { s with sent := s.sent ++ sent }
      -- `SERVREG_LOC_PFR` is only printed
      else some s
  | _ => some s

/-- A round of the loop of `main`. -/
def main.step (s : Process) : Event → Option Process
  | .interrupted => if s.ret = none then some s else none
  | .poll_failed => if s.ret = none then some { s with ret := some 0 } else none
  | .received _ (.error errno) => if s.ret = none then some { s with ret := some (-errno) } else none
  | .received locals (.packet data _ sq) =>
    if s.ret = none then
      let s := { s with buf := writeAt s.buf 0 data }
      match qrtr_decode s.pkt data sq with
      | .error ret => some { s with ret := some ret }
      | .ok pkt => main.packet locals { s with pkt := pkt }
    else none

/-- The process before the loop, with what its stack holds. -/
def main.start (pkt : QrtrPacket) (buf : Mem) : Process := ⟨pkt, buf, [], none⟩

end Dragonboard.PdMapper
