/-
`qcom/qrtr/src/ns.c`: the name server.

A handler takes the state of the server and returns its code and the next state. The
state holds what the globals and `struct context` hold: the list of lookups, the
`nodes` map, and the `struct node` objects its items are embedded in. A pointer to a node
is an index into the list of nodes that were allocated; nodes live until the
server exits. Servers and lookups are held by value. A lookup also has a number of its
own, which stands for its address.

The calls to the system below are numbered by `time`, and `Sys` says what each of them returns.
A packet that `sendto` took is appended to `sent`, with the lookup it was sent for, if
there is one.

The tables are any type with the operations of `map.h`. The host is little-endian.
-/
import Dragonboard.MapApi
import Dragonboard.Memory

set_option autoImplicit false

namespace Dragonboard.Ns

open Dragonboard.Memory Dragonboard.MapApi

/-! ## Packets

A control packet is five words; what the last four mean depends on the first. The server and the
client form of it share their places, as in the union of the source. -/

/-- `struct sockaddr_qrtr`. -/
@[ext]
structure SockaddrQrtr where
  sq_node : UInt32
  sq_port : UInt32
deriving DecidableEq, Repr

/-- `QRTR_NODE_BCAST`. -/
def QRTR_NODE_BCAST : UInt32 := 0xffffffff

/-- `QRTR_PORT_CTRL`. -/
def QRTR_PORT_CTRL : UInt32 := 0xfffffffe

/-- `enum qrtr_pkt_type`. -/
inductive QrtrType where
  | data
  | hello
  | bye
  | new_server
  | del_server
  | del_client
  | resume_tx
  | exit
  | ping
  | new_lookup
  | del_lookup
deriving DecidableEq, Repr

/-- The number of a packet type. -/
def QrtrType.code : QrtrType → UInt32
  | .data => 1
  | .hello => 2
  | .bye => 3
  | .new_server => 4
  | .del_server => 5
  | .del_client => 6
  | .resume_tx => 7
  | .exit => 8
  | .ping => 9
  | .new_lookup => 10
  | .del_lookup => 11

/-- The packet type a command word names, if it names one. -/
def QrtrType.ofCode (cmd : UInt32) : Option QrtrType :=
  [data, hello, bye, new_server, del_server, del_client, resume_tx, exit, ping, new_lookup,
    del_lookup].find? fun t => t.code = cmd

@[simp] theorem QrtrType.ofCode_code (t : QrtrType) : ofCode t.code = some t := by
  cases t <;> decide

/-- `struct qrtr_ctrl_pkt`, with the fields of `server`. -/
structure QrtrCtrlPkt where
  cmd : UInt32
  service : UInt32
  instance_ : UInt32
  node : UInt32
  port : UInt32
deriving DecidableEq, Repr

/-- `client.node`, at the place of `server.service`. -/
def QrtrCtrlPkt.client_node (pkt : QrtrCtrlPkt) : UInt32 := pkt.service

/-- `client.port`, at the place of `server.instance`. -/
def QrtrCtrlPkt.client_port (pkt : QrtrCtrlPkt) : UInt32 := pkt.instance_

/-- A word as it stands in memory. -/
def le32 (w : UInt32) : List UInt8 := leBytes 4 w.toNat

/-- The bytes of a packet. -/
def QrtrCtrlPkt.bytes (pkt : QrtrCtrlPkt) : List UInt8 :=
  le32 pkt.cmd ++ le32 pkt.service ++ le32 pkt.instance_ ++ le32 pkt.node ++ le32 pkt.port

/-- The word at an offset of a buffer. -/
def wordAt (buf : Mem) (offset : ℕ) : UInt32 := UInt32.ofNat (leNat (bytesAt buf offset 4))

/-- The packet a buffer is taken for. -/
def QrtrCtrlPkt.read (buf : Mem) : QrtrCtrlPkt where
  cmd := wordAt buf 0
  service := wordAt buf 4
  instance_ := wordAt buf 8
  node := wordAt buf 12
  port := wordAt buf 16

/-! ## State

Nodes, servers and lookups are kept under addresses where the source compares or frees pointers.
The system is a parameter: it tells for each numbered call whether memory is there and how many
bytes a send takes. -/

/-- `struct server`. -/
structure Server where
  service : UInt32
  instance_ : UInt32
  node : UInt32
  port : UInt32
deriving DecidableEq, Repr

/-- `struct server_filter`. -/
structure ServerFilter where
  service : UInt32
  instance_ : UInt32
  ifilter : UInt32

/-- `struct lookup`. -/
structure Lookup where
  id : ℕ
  service : UInt32
  instance_ : UInt32
  sq : SockaddrQrtr
deriving DecidableEq, Repr

/-- `struct node`. -/
structure Node (M : Type → Type) where
  id : UInt32
  services : M Server

/-- A packet that was sent, and the lookup it was sent for. -/
structure Sent where
  dest : SockaddrQrtr
  data : List UInt8
  lookup : Option ℕ
deriving DecidableEq, Repr

/-- What the numbered calls to the system return. -/
structure Sys where
  /-- whether an allocation of this many objects succeeds -/
  calloc : ℕ → ℕ → Bool
  /-- what `sendto` returns -/
  sendto : ℕ → SockaddrQrtr → List UInt8 → ℤ
  /-- what the two words of a packet hold that were never assigned -/
  stack : ℕ → UInt32 × UInt32

/-- `struct context` and `nodes`. `sock` says whether the socket is open. -/
structure Context (M : Type → Type) where
  sock : Bool
  lookups : List Lookup
  heap : List (Node M)
  nodes : M ℕ
  sent : List Sent
  time : ℕ

section Handlers

variable {M : Type → Type} [StructMap M]

/-- The state after a call to the system. -/
def Context.tick (s : Context M) : Context M := { s with time := s.time + 1 }

/-- The services of the node at an address. -/
def Context.services (s : Context M) (node : ℕ) : M Server := (s.heap[node]?.map Node.services).getD map_create

/-- The services of the node at an address replaced. -/
def Context.setServices (s : Context M) (node : ℕ) (services : M Server) : Context M :=
  { s with heap := s.heap.modify node fun n => { n with services := services } }

/-- `ENOENT`. -/
def ENOENT : ℤ := 2

/-- `EINVAL`. -/
def EINVAL : ℤ := 22

/-- `hash_u32`. -/
def hash_u32 (value : UInt32) : UInt32 := value * 2654435761

/-! ## Nodes and servers

The functions of `ns.c` from the look-up of a node to the announcement of a server, in its order.
-/

section System

variable (sys : Sys)

/-- `node_get`. A node that cannot be put into the map is freed again. -/
def node_get (s : Context M) (node_id : UInt32) : Option ℕ × Context M :=
  match map_get s.nodes (hash_u32 node_id) with
  | some node => (some node, s)
  | none =>
    if sys.calloc s.time 1 then
      let r := map_put (sys.calloc s.tick.time) s.nodes (hash_u32 node_id) s.heap.length
      match r.2 with
      | .ok () =>
        (some s.heap.length,
          { s.tick.tick with nodes := r.1, heap := s.heap ++ [⟨node_id, map_create⟩] })
      | .error _ => (none, { s.tick.tick with nodes := r.1 })
    else (none, s.tick)

/-- `server_match`. -/
def server_match (srv : Server) (f : ServerFilter) : Bool :=
  if f.service ≠ 0 ∧ srv.service ≠ f.service then false
  else
    -- an instance without a mask is compared in full
    let ifilter := if f.ifilter = 0 ∧ f.instance_ ≠ 0 then 0xffffffff else f.ifilter
    srv.instance_ &&& ifilter == f.instance_

/-- `server_query`: the list and the count. -/
def server_query (s : Context M) (f : ServerFilter) : List Server × ℕ :=
  map_for_each (fun _ => s.nodes)
    (fun r node => map_for_each (fun _ => s.services node)
      (fun r srv => if server_match srv f then (r.1 ++ [srv], r.2 + 1) else r) r) ([], 0)

/-- `sendto`, on behalf of a lookup or not. -/
def sendto (s : Context M) (dest : SockaddrQrtr) (data : List UInt8) (lookup : Option ℕ) : ℤ × Context M :=
  let rc := sys.sendto s.time dest data
  (rc, if rc < 0 then s.tick else { s.tick with sent := s.sent ++ [⟨dest, data, lookup⟩] })

/-- The packet that announces a server. -/
def Server.pkt (srv : Server) (type : QrtrType) : QrtrCtrlPkt :=
  ⟨type.code, srv.service, srv.instance_, srv.node, srv.port⟩

/-- `service_announce_new`. -/
def service_announce_new (s : Context M) (dest : SockaddrQrtr) (srv : Server) : ℤ × Context M :=
  sendto sys s dest (srv.pkt .new_server).bytes none

/-- `service_announce_del`. -/
def service_announce_del (s : Context M) (dest : SockaddrQrtr) (srv : Server) : ℤ × Context M :=
  sendto sys s dest (srv.pkt .del_server).bytes none

/-- The packet of `lookup_notify`; without a server its fields are zero. -/
def lookup_notify.pkt (srv : Option Server) (new : Bool) : QrtrCtrlPkt :=
  (srv.getD ⟨0, 0, 0, 0⟩).pkt (if new then .new_server else .del_server)

/-- `lookup_notify`, for the lookup with the given number. -/
def lookup_notify (s : Context M) (lookup : ℕ) (dest : SockaddrQrtr) (srv : Option Server) (new : Bool) :
    ℤ × Context M :=
  sendto sys s dest (lookup_notify.pkt srv new).bytes (some lookup)

/-- The test of the two notification loops. -/
def Lookup.wants (lookup : Lookup) (service instance_ : UInt32) : Bool :=
  !(lookup.service ≠ 0 ∧ lookup.service ≠ service) &&
    !(lookup.instance_ ≠ 0 ∧ lookup.instance_ ≠ instance_)

/-- The loop over the lookups that tells them of a server. -/
def notify_lookups (s : Context M) (srv : Server) (new : Bool) : Context M :=
  s.lookups.foldl (fun s lookup =>
    if lookup.wants srv.service srv.instance_ then
      (lookup_notify sys s lookup.id lookup.sq (some srv) new).2
    else s) s

/-- `server_add`: the record, or null. A record that was replaced is freed. -/
def server_add (s : Context M) (service instance_ node_id port : UInt32) : Option Server × Context M :=
  if service = 0 ∨ port = 0 then (none, s)
  else if sys.calloc s.time 1 then
    let srv : Server := ⟨service, instance_, node_id, port⟩
    let r := node_get sys s.tick node_id
    match r.1 with
    | none => (none, r.2)
    | some node =>
      let put := map_reput (sys.calloc r.2.time) (r.2.services node) (hash_u32 port) srv
      match put.2 with
      -- the record is freed, and the node stays, empty if it is new
      | .error _ => (none, (r.2.setServices node put.1).tick)
      | .ok _ => (some srv, (r.2.setServices node put.1).tick)
  else (none, s.tick)

variable (local_node : UInt32)

/-- `bcast_sq`. -/
def bcast_sq : SockaddrQrtr := ⟨QRTR_NODE_BCAST, QRTR_PORT_CTRL⟩

/-- The body of the walk of `annouce_servers`. After a failed send the walk goes on without effect,
as if it had returned. -/
def annouce_servers.body (sq : SockaddrQrtr) (r : ℤ × Context M) (srv : Server) : ℤ × Context M :=
  if r.1 < 0 then r
  else
    let sent := service_announce_new sys r.2 sq srv
    (if sent.1 < 0 then sent.1 else 0, sent.2)

/-- `annouce_servers`. -/
def annouce_servers (s : Context M) (sq : SockaddrQrtr) : ℤ × Context M :=
  let r := node_get sys s local_node
  match r.1 with
  | none => (0, r.2)
  | some node =>
    map_for_each (fun _ => r.2.services node) (annouce_servers.body sys sq) (0, r.2)

/-- `server_del`. The key of the record that was found is the key it was found under. -/
def server_del (s : Context M) (node : ℕ) (port : UInt32) : ℤ × Context M :=
  match map_get (s.services node) (hash_u32 port) with
  | none => (-ENOENT, s)
  | some srv =>
    let s := s.setServices node (map_remove (s.services node) (hash_u32 port)).1
    -- only servers of this node are announced, but lookups hear of all
    let s := if srv.node = local_node then (service_announce_del sys s bcast_sq srv).2 else s
    (0, notify_lookups sys s srv false)

/-! ## Control commands

One handler for each command, with the guards of the source. The packet they read is the receive
buffer, of which only the first bytes have been received; the rest is what it held before. -/

/-- `ctrl_cmd_hello`. -/
def ctrl_cmd_hello (s : Context M) (sq : SockaddrQrtr) (buf : List UInt8) : ℤ × Context M :=
  let r := sendto sys s sq buf none
  -- a HELLO that cannot be sent back is not followed by servers
  if r.1 > 0 then annouce_servers sys local_node r.2 sq else r

/-- The loop that tells the services of a node of a departure. -/
def propagate (s : Context M) (node : ℕ) (pkt : QrtrCtrlPkt) : Context M :=
  map_for_each (fun _ => s.services node)
    (fun s srv => (sendto sys s ⟨srv.node, srv.port⟩ pkt.bytes none).2) s

/-- The end of `ctrl_cmd_bye` and `ctrl_cmd_del_client`: the removal is advertised to all local
services. -/
def advertise_removal (s : Context M) (pkt : ℕ → QrtrCtrlPkt) : ℤ × Context M :=
  let r := node_get sys s local_node
  match r.1 with
  | none => (0, r.2)
  | some node => (0, propagate sys r.2 node (pkt r.2.time))

/-- `ctrl_cmd_bye`. -/
def ctrl_cmd_bye (s : Context M) (sq : SockaddrQrtr) : ℤ × Context M :=
  let r := node_get sys s sq.sq_node
  match r.1 with
  | none => (0, r.2)
  | some node =>
    -- the walk goes over the table it deletes from
    let s := map_for_each (fun s => s.services node)
      (fun s srv => (server_del sys local_node s node srv.port).2) r.2
    advertise_removal sys local_node s fun _ => ⟨QrtrType.bye.code, sq.sq_node, 0, 0, 0⟩

/-- `ctrl_cmd_del_client`. -/
def ctrl_cmd_del_client (s : Context M) (sq : SockaddrQrtr) (node_id port : UInt32) : ℤ × Context M :=
  if sq.sq_node ≠ node_id then (-EINVAL, s)
  -- local ports speak for themselves only
  else if sq.sq_node = local_node ∧ sq.sq_port ≠ port then (-EINVAL, s)
  else
    let s := { s with lookups := s.lookups.filter fun l =>
      !(l.sq.sq_node = node_id ∧ l.sq.sq_port = port) }
    let r := node_get sys s node_id
    let s := match r.1 with
      | none => r.2
      | some node => (server_del sys local_node r.2 node port).2
    -- the last two words of the packet are never assigned
    advertise_removal sys local_node s fun t =>
      ⟨QrtrType.del_client.code, node_id, port, (sys.stack t).1, (sys.stack t).2⟩

/-- `ctrl_cmd_new_server`. -/
def ctrl_cmd_new_server (s : Context M) (sq : SockaddrQrtr) (service instance_ node_id port : UInt32) :
    ℤ × Context M :=
  let node_id := if sq.sq_node = local_node then sq.sq_node else node_id
  let port := if sq.sq_node = local_node then sq.sq_port else port
  if sq.sq_node ≠ node_id then (-EINVAL, s)
  else
    let r := server_add sys s service instance_ node_id port
    match r.1 with
    | none => (-EINVAL, r.2)
    | some srv =>
      let sent := if srv.node = local_node then service_announce_new sys r.2 bcast_sq srv
        else (0, r.2)
      (sent.1, notify_lookups sys sent.2 srv true)

/-- `ctrl_cmd_del_server`. The service and instance of the packet are not looked at. -/
def ctrl_cmd_del_server (s : Context M) (sq : SockaddrQrtr) (_service _instance node_id port : UInt32) :
    ℤ × Context M :=
  let node_id := if sq.sq_node = local_node then sq.sq_node else node_id
  let port := if sq.sq_node = local_node then sq.sq_port else port
  if sq.sq_node ≠ node_id then (-EINVAL, s)
  else if sq.sq_node = local_node ∧ sq.sq_port ≠ port then (-EINVAL, s)
  else
    let r := node_get sys s node_id
    match r.1 with
    | none => (-ENOENT, r.2)
    | some node => server_del sys local_node r.2 node port

/-- `ctrl_cmd_new_lookup`. -/
def ctrl_cmd_new_lookup (s : Context M) (sq : SockaddrQrtr) (service instance_ : UInt32) : ℤ × Context M :=
  if sq.sq_node ≠ local_node then (-EINVAL, s)
  else if sys.calloc s.time 1 then
    let lookup : Lookup := ⟨s.time, service, instance_, sq⟩
    -- registered before it is answered, and it stays if the answer cannot be sent
    let s := { s.tick with lookups := s.lookups ++ [lookup] }
    let reply_list := (server_query s ⟨service, instance_, 0⟩).1
    let s := reply_list.foldl (fun s srv => (lookup_notify sys s lookup.id sq (some srv) true).2) s
    (0, (lookup_notify sys s lookup.id sq none true).2)
  else (-EINVAL, s.tick)

/-- `ctrl_cmd_del_lookup`. -/
def ctrl_cmd_del_lookup (s : Context M) (sq : SockaddrQrtr) (service instance_ : UInt32) : ℤ × Context M :=
  (0, { s with lookups := s.lookups.filter fun l =>
    !(l.sq.sq_node = sq.sq_node ∧ l.sq.sq_port = sq.sq_port ∧ l.service = service ∧
      ¬ (l.instance_ ≠ 0 ∧ l.instance_ ≠ instance_)) })

/-- A datagram on the control socket, and what the receive buffer held before it. -/
structure Datagram where
  sq : SockaddrQrtr
  data : List UInt8
  stale : Mem

/-- The bytes `recvfrom` stores. -/
def Datagram.received (d : Datagram) : List UInt8 := d.data.take 4096

/-- The receive buffer after `recvfrom`. -/
def Datagram.buf (d : Datagram) : Mem := writeAt d.stale 0 d.received

/-- The `switch` of `ctrl_port_fn`. -/
def ctrl_port_fn.dispatch (s : Context M) (sq : SockaddrQrtr) (buf : List UInt8) (msg : QrtrCtrlPkt) :
    ℤ × Context M :=
  match QrtrType.ofCode msg.cmd with
  | some .hello => ctrl_cmd_hello sys local_node s sq buf
  | some .bye => ctrl_cmd_bye sys local_node s sq
  | some .del_client => ctrl_cmd_del_client sys local_node s sq msg.client_node msg.client_port
  | some .new_server =>
    ctrl_cmd_new_server sys local_node s sq msg.service msg.instance_ msg.node msg.port
  | some .del_server =>
    ctrl_cmd_del_server sys local_node s sq msg.service msg.instance_ msg.node msg.port
  | some .new_lookup => ctrl_cmd_new_lookup sys local_node s sq msg.service msg.instance_
  | some .del_lookup => ctrl_cmd_del_lookup s sq msg.service msg.instance_
  -- what the switch has no case for
  | some .data | some .exit | some .ping | some .resume_tx | none => (0, s)

/-- `ctrl_port_fn`. The socket is closed if nothing was received; the code of the handler is only
logged. -/
def ctrl_port_fn (s : Context M) (d : Datagram) : Context M :=
  if d.received.length = 0 then { s with sock := false }
  else if d.received.length < 4 then s
  else (ctrl_port_fn.dispatch sys local_node s d.sq d.received (.read d.buf)).2

/-- `say_hello`. -/
def say_hello (s : Context M) : ℤ × Context M :=
  let r := sendto sys s bcast_sq (QrtrCtrlPkt.mk QrtrType.hello.code 0 0 0 0).bytes none
  (if r.1 < 0 then r.1 else 0, r.2)

/-! ## The main loop

One datagram after the other. The waiter that lies between them is left out here, and `NsLoop`
puts it back. -/

/-- The state in which `main` greets the other nodes. -/
def Context.init : Context M := ⟨true, [], [], map_create, [], 0⟩

/-- `main` up to its loop. If the greeting fails it exits. -/
def main.start : Context M :=
  let r := say_hello sys Context.init
  if r.1 < 0 then { r.2 with sock := false } else r.2

/-- One round of the main loop: nothing is received once the socket is closed. -/
def main.step (s : Context M) (d : Datagram) : Context M :=
  if s.sock then ctrl_port_fn sys local_node s d else s

/-- The main loop on the datagrams that arrive. -/
def main.run (ds : List Datagram) : Context M :=
  ds.foldl (main.step sys local_node) (main.start sys)

end System

end Handlers

end Dragonboard.Ns
