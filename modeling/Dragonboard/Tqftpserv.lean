/-
`qcom/tqftpserv/tqftpserv.c`: the file server of the remote processors.

A round of the main loop takes what `select` and the `recvfrom` calls return to the next state. The
state holds the two lists of transfers, the descriptors that are open and the calls that
were made, in order. What the system answers is given by `Sys`, by the number of the
call; a new descriptor is any number that is not in use.

A handler returns `none` where the code has no defined behaviour: it runs off the end of
the stack looking for a NUL, writes behind a buffer or through a null pointer,
or is still in its send loop after `Sys.fuel` rounds.

The plain `char` of the target is unsigned, and `size_t` has 64 bits.
-/
import Dragonboard.Qrtr
import Dragonboard.Translate

set_option autoImplicit false

namespace Dragonboard.Tqftpserv

open Dragonboard.Ns Dragonboard.Qrtr Dragonboard.Translate

/-! ## State

The two lists of transfers are lists here, and the calls that can be seen from outside are
recorded in order. `TqftpservLists` has the lists with their links. The system is a parameter that
answers the numbered calls. -/

/-- `OP_RRQ`. -/
def OP_RRQ : UInt16 := 1

/-- `OP_WRQ`. -/
def OP_WRQ : UInt16 := 2

/-- `OP_DATA`. -/
def OP_DATA : UInt16 := 3

/-- `OP_ACK`. -/
def OP_ACK : UInt16 := 4

/-- `OP_ERROR`. -/
def OP_ERROR : UInt16 := 5

/-- `OP_OACK`. -/
def OP_OACK : UInt16 := 6

/-- `struct tftp_client`. -/
structure TftpClient where
  sq : SockaddrQrtr
  sock : ℕ
  fd : ℕ
  blksize : UInt64
  rsize : UInt64
  wsize : UInt64
  timeoutms : UInt32
deriving DecidableEq, Repr

/-- `sizeof(struct tftp_client)`. -/
def sizeof_client : ℕ := 80

/-- The calls that can be seen from outside. -/
inductive Call where
  | open_ (fd : ℕ) (file : Opening)
  | connect (sock : ℕ) (sq : SockaddrQrtr)
  | send (sock : ℕ) (data : List UInt8)
  | write (fd : ℕ) (data : List UInt8)
  | close (fd : ℕ)
deriving DecidableEq, Repr

/-- What the numbered calls to the system return. -/
structure Sys where
  /-- whether `qrtr_open` succeeds -/
  qrtr_open : ℕ → Bool
  /-- whether `qrtr_publish` succeeds -/
  qrtr_publish : ℕ → Bool
  connect : ℕ → Bool
  /-- what `translate_open` meets -/
  os : ℕ → Os
  /-- a new descriptor is the first free one from here on -/
  pick : ℕ → ℕ
  /-- whether an allocation of this many bytes succeeds -/
  malloc : ℕ → ℕ → Bool
  /-- `st_size` after `fstat` -/
  fstat : ℕ → ℕ → ℤ
  /-- what `pread` reads, or nothing if it fails -/
  pread : ℕ → ℕ → UInt64 → UInt64 → Option (List UInt8)
  send : ℕ → ℕ → List UInt8 → ℤ
  write : ℕ → ℕ → List UInt8 → ℤ
  /-- a bound on the rounds of the send loop -/
  fuel : ℕ

/-- Whether the server is still in its loop. -/
inductive Status where
  | running
  | exited
  | crashed
deriving DecidableEq, Repr

/-- `readers` and `writers`, with what the server has done so far. -/
structure State where
  status : Status
  readers : List TftpClient
  writers : List TftpClient
  fds : List ℕ
  calls : List Call
  time : ℕ
deriving DecidableEq, Repr

/-- The state after a call to the system. -/
def State.tick (s : State) : State := { s with time := s.time + 1 }

/-- The first descriptor from `start` on that is not in use. -/
def free_fd (fds : List ℕ) (start : ℕ) : ℕ :=
  ((List.range' start (fds.length + 1)).find? (· ∉ fds)).getD 0

/-- `close`. -/
def State.close (s : State) (fd : ℕ) : State :=
  { s with fds := s.fds.filter (· ≠ fd), calls := s.calls ++ [.close fd] }

/-- The end of a transfer, as in `client_close_and_free`. -/
def client_close_and_free (s : State) (client : TftpClient) : State :=
  (s.close client.sock).close client.fd

/-! ## Strings in the receive buffer

Memory is listed from the start of the buffer to the end of the stack. -/

/-- The string at an index, if it ends. -/
def strAt (mem : List UInt8) (p : ℕ) : Option (List UInt8) :=
  if 0 ∈ mem.drop p then some ((mem.drop p).takeWhile (· ≠ 0)) else none

/-- A letter in lower case. -/
def tolower (c : UInt8) : UInt8 := if 0x41 ≤ c ∧ c ≤ 0x5a then c + 0x20 else c

/-- Whether `strcasecmp` finds the string at the start of memory equal to one in lower case. -/
def strcasecmp_eq : List UInt8 → List UInt8 → Option Bool
  | [], _ => none
  | x :: _, [] => some (x = 0)
  -- the first difference ends the comparison, so the rest need not end
  | x :: xs, c :: cs => if tolower x = c then strcasecmp_eq xs cs else some false

/-- The number at the start of a string of digits. -/
def digits : ℕ → List UInt8 → ℕ
  | n, [] => n
  | n, c :: cs => if 0x30 ≤ c ∧ c ≤ 0x39 then digits (10 * n + (c - 0x30).toNat) cs else n

/-- A number cut to `w` bits, with a sign. -/
def signed (w : ℕ) (n : ℤ) : ℤ := (n + 2 ^ (w - 1)) % 2 ^ w - 2 ^ (w - 1)

/-- `atoi`: what `strtol` makes of the string, cut to an `int`. -/
def atoi (s : List UInt8) : ℤ :=
  let s := s.dropWhile fun c => c = 0x20 ∨ 0x09 ≤ c ∧ c ≤ 0x0d
  let value : ℤ := match s with
    | 0x2d :: s => -digits 0 s
    | 0x2b :: s => digits 0 s
    | s => digits 0 s
  signed 32 (max (-2 ^ 63) (min (2 ^ 63 - 1) value))

/-- An `int` as a `size_t`. -/
def size_t (n : ℤ) : UInt64 := UInt64.ofNat (n % 2 ^ 64).toNat

/-- A number in decimal, as `sprintf` prints it. -/
def decimal (n : ℤ) : List UInt8 :=
  (if n < 0 then [0x2d] else []) ++
    (Nat.toDigits 10 n.natAbs).map fun c => UInt8.ofNat c.toNat

/-- Two bytes in network order. -/
def be16 (n : UInt16) : List UInt8 := [(n >>> 8).toUInt8, n.toUInt8]

/-- The 16-bit number at an index of a buffer. -/
def be16At (mem : List UInt8) (p : ℕ) : UInt16 :=
  (mem.getD p 0).toUInt16 <<< 8 ||| (mem.getD (p + 1) 0).toUInt16

section System

variable (sys : Sys)

/-! ## Packets

One function for each kind of packet that is sent. A packet is handed to `send` whole, so it is
enough to say which bytes it has. -/

/-- `send`. -/
def send (s : State) (sock : ℕ) (data : List UInt8) : ℤ × State :=
  let rc := sys.send s.time sock data
  (rc, if rc < 0 then s.tick else { s.tick with calls := s.calls ++ [.send sock data] })

/-- `tftp_send_data`. If `4 + blksize` wraps around the header does not fit the buffer. -/
def tftp_send_data (s : State) (client : TftpClient) (block : UInt32) (offset : UInt64) :
    Option (ℤ × State) :=
  let size := 4 + client.blksize
  if sys.malloc s.time size.toNat = false ∨ size < 4 then none
  else
    match sys.pread s.tick.time client.fd client.blksize offset with
    | none => some (-1, s.tick.tick)
    | some data =>
      let data := data.take client.blksize.toNat
      -- at the end of the file nothing is sent
      if data = [] then some (0, s.tick.tick)
      else some (send sys s.tick.tick client.sock (be16 OP_DATA ++ be16 block.toUInt16 ++ data))

/-- `tftp_send_ack`. -/
def tftp_send_ack (s : State) (sock : ℕ) (block : UInt16) : ℤ × State :=
  send sys s sock (be16 OP_ACK ++ be16 block)

/-- An option with its value, as `tftp_send_oack` writes them. -/
def tftp_send_oack.option (name : String) (value : Option ℤ) : List UInt8 :=
  match value with
  | none => []
  | some value => ascii name ++ [0] ++ decimal value ++ [0]

/-- `tftp_send_oack`. The values are printed as signed numbers. -/
def tftp_send_oack (s : State) (sock : ℕ) (blocksize tsize wsize timeoutms rsize : Option ℤ) :
    ℤ × State :=
  send sys s sock (be16 OP_OACK ++ tftp_send_oack.option "blksize" blocksize ++
    tftp_send_oack.option "timeoutms" timeoutms ++
    -- a size that was not asked for is -1
    tftp_send_oack.option "tsize" (tsize.filter (· ≠ -1)) ++
    tftp_send_oack.option "wsize" wsize ++ tftp_send_oack.option "rsize" rsize)

/-- `tftp_send_error`. -/
def tftp_send_error (s : State) (sock : ℕ) (code : UInt16) (msg : String) : ℤ × State :=
  let len := 4 + (ascii msg).length + 1
  if sys.malloc s.time len then
    send sys s.tick sock (be16 OP_ERROR ++ be16 code ++ ascii msg ++ [0])
  else (-1, s.tick)

/-! ## Descriptors

A descriptor is handed out by the system as the lowest free number. -/

/-- `qrtr_open`. -/
def qrtr_open (s : State) : Option ℕ × State :=
  if sys.qrtr_open s.time then
    let sock := free_fd s.fds (sys.pick s.time)
    (some sock, { s.tick with fds := s.fds ++ [sock] })
  else (none, s.tick)

/-- `connect`. -/
def connect (s : State) (sock : ℕ) (sq : SockaddrQrtr) : Bool × State :=
  if sys.connect s.time then (true, { s.tick with calls := s.calls ++ [.connect sock sq] })
  else (false, s.tick)

/-- `translate_open`, with the descriptor it returns. -/
def open_file (s : State) (filename : List UInt8) (flags : UInt32) : Option ℕ × State :=
  match translate_open (sys.os s.time) filename flags with
  | none => (none, s.tick)
  | some file =>
    let fd := free_fd s.fds (sys.pick s.time)
    (some fd, { s.tick with fds := s.fds ++ [fd], calls := s.calls ++ [.open_ fd file] })

/-! ## Requests

The handlers of the two requests, from the strings of the datagram to the new transfer. Where the
source returns without closing what it has opened, so does the model. -/

/-- The options of a read request, with their defaults. -/
structure RrqOptions where
  blksize : UInt64 := 512
  timeoutms : UInt32 := 1000
  tsize : ℤ := -1
  rsize : UInt64 := 0
  wsize : UInt64 := 0
deriving DecidableEq, Repr

/-- One option of a read request. An unknown option is ignored. -/
def RrqOptions.set (o : RrqOptions) (opt value : List UInt8) : RrqOptions :=
  if opt = ascii "blksize" then { o with blksize := size_t (atoi value) }
  -- the names are compared with their case
  else if opt = ascii "timeoutms" then { o with timeoutms := (size_t (atoi value)).toUInt32 }
  else if opt = ascii "tsize" then { o with tsize := atoi value }
  else if opt = ascii "rsize" then { o with rsize := size_t (atoi value) }
  else if opt = ascii "wsize" then { o with wsize := size_t (atoi value) }
  else o

/-- The option loop of `handle_rrq`: every round moves on by at least two bytes. -/
def handle_rrq.options (mem : List UInt8) (len : ℕ) : ℕ → ℕ → RrqOptions → Option RrqOptions
  | 0, _, o => some o
  | rounds + 1, p, o =>
    if p < len then do
      let opt ← strAt mem p
      let value ← strAt mem (p + opt.length + 1)
      handle_rrq.options mem len rounds (p + opt.length + 1 + value.length + 1) (o.set opt value)
    else some o

/-- What `handle_rrq` reads from a request: nothing if the mode is not `octet`, and otherwise the
file name, whether there are options, and the options. -/
def handle_rrq.parse (mem : List UInt8) (len : ℕ) :
    Option (Option (List UInt8 × Bool × RrqOptions)) := do
  let filename ← strAt mem 2
  let mode ← strAt mem (2 + filename.length + 1)
  if mode.map tolower = ascii "octet" then
    let p := 2 + filename.length + 1 + mode.length + 1
    let options ← handle_rrq.options mem len len p {}
    return some (filename, p < len, options)
  else return none

/-- The end of `handle_rrq`, with the file open. -/
def handle_rrq.begin (s : State) (sq : SockaddrQrtr) (sock fd : ℕ) (do_oack : Bool)
    (o : RrqOptions) : Option State :=
  let tsize := if o.tsize ≠ -1 then sys.fstat s.time fd else -1
  let s := if o.tsize ≠ -1 then s.tick else s
  if sys.malloc s.time sizeof_client then
    -- options are taken as they are, without a bound
    let client : TftpClient := ⟨sq, sock, fd, o.blksize, o.rsize, o.wsize, o.timeoutms⟩
    let s := { s.tick with readers := s.readers ++ [client] }
    if do_oack then
      some (tftp_send_oack sys s sock (some (signed 64 o.blksize.toNat))
        (if tsize ≠ 0 then some tsize else none)
        (if o.wsize ≠ 0 then some (signed 64 o.wsize.toNat) else none)
        (some (signed 32 o.timeoutms.toNat))
        (if o.rsize ≠ 0 then some (signed 64 o.rsize.toNat) else none)).2
    else (tftp_send_data sys s client 1 0).map Prod.snd
  else none

/-- `handle_rrq`. A socket that cannot be connected, or has no file, stays open. -/
def handle_rrq (s : State) (mem : List UInt8) (len : ℕ) (sq : SockaddrQrtr) : Option State := do
  match ← handle_rrq.parse mem len with
  | none => return s
  | some (filename, do_oack, o) =>
    match qrtr_open sys s with
    | (none, s) => return s
    | (some sock, s) =>
      match connect sys s sock sq with
      | (false, s) => return s
      | (true, s) =>
        match open_file sys s filename O_RDONLY with
        -- the only failure a client hears of
        | (none, s) => return (tftp_send_error sys s sock 1 "file not found").2
        | (some fd, s) => handle_rrq.begin sys s sq sock fd do_oack o

/-- What `handle_wrq` reads from a request: nothing if the mode is not `octet`. -/
def handle_wrq.parse (mem : List UInt8) : Option (Option (List UInt8)) := do
  let filename ← strAt mem 2
  if ← strcasecmp_eq (mem.drop (2 + filename.length + 1)) (ascii "octet") then
    return some filename
  else return none

/-- The end of `handle_wrq`, with the file open and a socket. -/
def handle_wrq.begin (s : State) (sq : SockaddrQrtr) (sock fd : ℕ) : Option State :=
  if sys.malloc s.time sizeof_client then
    let client : TftpClient := ⟨sq, sock, fd, 0, 0, 0, 0⟩
    let (ret, s) := tftp_send_ack sys s.tick sock 0
    -- no ACK, no transfer
    if ret < 0 then some ((s.close sock).close fd)
    else some { s with writers := s.writers ++ [client] }
  else none

/-- `handle_wrq`. A file that gets no socket, or none that can be connected, stays open. -/
def handle_wrq (s : State) (mem : List UInt8) (sq : SockaddrQrtr) : Option State := do
  match ← handle_wrq.parse mem with
  | none => return s
  | some filename =>
    match open_file sys s filename (O_WRONLY ||| O_CREAT) with
    | (none, s) => return s
    | (some fd, s) =>
      match qrtr_open sys s with
      | (none, s) => return s
      | (some sock, s) =>
        match connect sys s sock sq with
        | (false, s) => return s
        | (true, s) => handle_wrq.begin sys s sq sock fd

/-! ## Transfers

What a transfer does with a datagram on its own socket, and whether it goes on. -/

/-- What `recvfrom` returns: an error, or a datagram, with what memory holds behind it. -/
inductive Recv where
  | error
  | data (sq : SockaddrQrtr) (data rest : List UInt8)

/-- The send loop of `handle_reader`, from `block` on. -/
def handle_reader.loop (client : TftpClient) (last : UInt16) : ℕ → UInt16 → State → Option State
  | 0, _, _ => none
  | fuel + 1, block, s =>
    -- `block` has 16 bits and `wsize` 64, so the bound can lie beyond what `block` reaches
    if block.toUInt64 < last.toUInt64 + client.wsize then do
      let (n, s) ← tftp_send_data sys s client (block.toUInt32 + 1) (block.toUInt64 * client.blksize)
      if n ≤ 0 then return s
      else handle_reader.loop client last fuel (block + 1) s
    else some s

/-- `handle_reader`. The text of an ERROR is printed up to its NUL, which is put behind the packet. -/
def handle_reader (s : State) (client : TftpClient) (recv : Recv) : Option (ℤ × State) :=
  match recv with
  | .error => some (-1, s)
  | .data sq data rest =>
    let buf := data.take 128
    let mem := buf ++ rest
    -- a message of another sender ends the transfer
    if sq ≠ client.sq then some (-1, s)
    else if be16At mem 0 = OP_ERROR then
      if buf.length < 128 ∧ (strAt (mem.set buf.length 0) 4).isSome then some (-1, s) else none
    else if be16At mem 0 ≠ OP_ACK then some (-1, s)
    else (handle_reader.loop sys client (be16At mem 2) sys.fuel (be16At mem 2) s).map fun s => (1, s)

/-- `handle_writer`. The length of a short packet wraps around, and `write` refuses it. -/
def handle_writer (s : State) (client : TftpClient) (recv : Recv) : Option (ℤ × State) :=
  match recv with
  | .error => some (-1, s)
  | .data sq data rest =>
    let buf := data.take 516
    let mem := buf ++ rest
    if sq ≠ client.sq then some (-1, s)
    else if be16At mem 0 ≠ OP_DATA then
      some (-1, (tftp_send_error sys s client.sock 4 "Expected DATA opcode").2)
    else if buf.length < 4 then some (-1, s.tick)
    else
      let payload := buf.drop 4
      if sys.write s.time client.fd payload < 0 then some (-1, s.tick)
      else
        let s := { s.tick with calls := s.calls ++ [.write client.fd payload] }
        some (if payload.length = 512 then 1 else 0, (tftp_send_ack sys s client.sock (be16At mem 2)).2)

/-! ## The main loop

A round begins when `select` returns. Writers come first, then readers, and then the server
socket, as in the source. -/

/-- One of the two loops over the transfers: the state, and the transfers that go on. -/
def serve (handle : State → TftpClient → Recv → Option (ℤ × State)) (ready : ℕ → Option Recv) :
    List TftpClient → State → Option (State × List TftpClient)
  | [], s => some (s, [])
  | client :: clients, s =>
    match ready client.sock with
    | none => (serve handle ready clients s).map fun r => (r.1, client :: r.2)
    | some recv => do
      let (ret, s) ← handle s client recv
      -- done or failed: both are closed alike
      if ret ≤ 0 then serve handle ready clients (client_close_and_free s client)
      else (serve handle ready clients s).map fun r => (r.1, client :: r.2)

/-- The writers for which a test holds closed and removed. -/
def drop_writers (s : State) (test : TftpClient → Bool) : State :=
  let closed := (s.writers.filter test).foldl client_close_and_free s
  { closed with writers := s.writers.filter fun client => !test client }

/-- A control message. `memcmp` compares whole addresses. -/
def control (s : State) (sq : SockaddrQrtr) (buf : List UInt8) : State :=
  match qrtr_decode ⟨0, 0, 0, 0, 0, 0, []⟩ buf sq with
  | .error _ => { s with status := .exited }
  | .ok pkt =>
    -- readers stay: both cases go through the writers only
    if pkt.type = QrtrType.bye.code then
      drop_writers s fun client => client.sq.sq_node = sq.sq_node
    else if pkt.type = QrtrType.del_client.code then
      drop_writers s fun client => client.sq = sq
    else s

/-- The server socket. -/
def receive (s : State) (recv : Recv) : Option State :=
  match recv with
  | .error => some { s with status := .exited }
  | .data sq data rest =>
    let buf := data.take 4096
    let mem := buf ++ rest
    if sq.sq_port = QRTR_PORT_CTRL then some (control s sq buf)
    -- too short for an opcode
    else if buf.length < 2 then some s
    else if be16At mem 0 = OP_RRQ then handle_rrq sys s mem buf.length sq
    else if be16At mem 0 = OP_WRQ then handle_wrq sys s mem sq
    else some s

/-- What `select` returns: interrupted, failed, or the sockets that have something to receive. -/
inductive Round where
  | eintr
  | failed
  | ready (clients : ℕ → Option Recv) (server : Option Recv)

/-- The rest of a round: writers, readers, and then the server socket. -/
def main.round (s : State) (clients : ℕ → Option Recv) (server : Option Recv) : Option State := do
  let (s, writers) ← serve (handle_writer sys) clients s.writers s
  let s := { s with writers := writers }
  let (s, readers) ← serve (handle_reader sys) clients s.readers s
  let s := { s with readers := readers }
  match server with
  | none => return s
  | some recv => receive sys s recv

/-- A round of the main loop. -/
def main.step (s : State) (round : Round) : State :=
  if s.status = .running then
    match round with
    | .eintr => s
    | .failed => { s with status := .exited }
    | .ready clients server =>
      match main.round sys s clients server with
      | none => { s with status := .crashed }
      | some s => s
  else s

/-- `main` up to its loop. -/
def main.start : State :=
  match qrtr_open sys ⟨.running, [], [], [], [], 0⟩ with
  | (none, s) => { s with status := .exited }
  | (some _, s) => if sys.qrtr_publish s.time then s.tick else { s.tick with status := .exited }

/-- The main loop. -/
def main.run (rounds : List Round) : State := rounds.foldl (main.step sys) (main.start sys)

end System

end Dragonboard.Tqftpserv
