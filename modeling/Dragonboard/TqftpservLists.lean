/-
`tqftpserv` with its transfers in memory.

In `Tqftpserv` the readers and the writers are lists. Here they are what the source has: two
rings of `struct tftp_client` that are allocated when a transfer begins, and taken out and freed when
it ends, while `list_for_each_entry_safe` loops run over them. An access to memory that is not
allocated is a crash.

The two servers do the same on every run (`lists_in_memory`): the rings spell the lists, the
entries of the rings are all that is allocated, and no pointer is followed to a transfer that was freed.
-/
import Dragonboard.Ring
import Dragonboard.TqftpservFds

set_option autoImplicit false

namespace Dragonboard.TqftpservLists

open Dragonboard.Ns Dragonboard.Qrtr Dragonboard.Translate Dragonboard.Ring Dragonboard.Tqftpserv

/-! ## The server

The functions of `Tqftpserv` that touch `readers` and `writers`, with the lists as rings of
`list.h`. Everything else is used as it is. -/

/-- `readers`: where its head is. -/
def readers : ℕ := 1

/-- `writers`. -/
def writers : ℕ := 2

/-- The server, with its lists in memory: those of the state are not used. -/
structure Machine where
  s : State
  heap : Heap TftpClient

/-- The transfer at an address. -/
def Machine.client (m : Machine) (item : ℕ) : Option TftpClient :=
  (m.heap.node item).bind (·.entry)

/-- `client_close_and_free`. -/
def client_close_and_free (m : Machine) (item : ℕ) : Option Machine := do
  let heap ← list_del m.heap item
  let client ← Machine.client { m with heap := heap } item
  let heap ← heap.free item
  return ⟨(m.s.close client.sock).close client.fd, heap⟩

/-- The body of the loops over the transfers. -/
def serve.body (handle : State → TftpClient → Recv → Option (ℤ × State)) (ready : ℕ → Option Recv)
    (item : ℕ) (m : Machine) : Option Machine := do
  let client ← m.client item
  match ready client.sock with
  | none => return m
  | some recv => do
    let (ret, s) ← handle m.s client recv
    if ret ≤ 0 then client_close_and_free { m with s := s } item else return { m with s := s }

/-- The body of the loops of a control message. -/
def drop.body (test : TftpClient → Bool) (item : ℕ) (m : Machine) : Option Machine := do
  let client ← m.client item
  if test client then client_close_and_free m item else return m

/-- A control message. -/
def control (m : Machine) (sq : SockaddrQrtr) (buf : List UInt8) : Option Machine :=
  match qrtr_decode ⟨0, 0, 0, 0, 0, 0, []⟩ buf sq with
  | .error _ => some { m with s := { m.s with status := .exited } }
  | .ok pkt =>
    if pkt.type = QrtrType.bye.code then
      each_entry_safe Machine.heap writers (drop.body fun client => client.sq.sq_node = sq.sq_node) m
    else if pkt.type = QrtrType.del_client.code then
      each_entry_safe Machine.heap writers (drop.body fun client => client.sq = sq) m
    else some m

section System

variable (sys : Tqftpserv.Sys) (place : ℕ → ℕ)

/-- The end of `handle_rrq`. New memory is at the first free address from some place on. -/
def handle_rrq.begin (m : Machine) (sq : SockaddrQrtr) (sock fd : ℕ) (do_oack : Bool)
    (o : RrqOptions) : Option Machine :=
  let tsize := if o.tsize ≠ -1 then sys.fstat m.s.time fd else -1
  let s := if o.tsize ≠ -1 then m.s.tick else m.s
  if sys.malloc s.time sizeof_client then do
    let client : TftpClient := ⟨sq, sock, fd, o.blksize, o.rsize, o.wsize, o.timeoutms⟩
    let item := free_fd m.heap.live (place s.time)
    let heap ← list_add (m.heap.calloc item client) readers item
    let s := s.tick
    if do_oack then
      return ⟨(tftp_send_oack sys s sock (some (signed 64 o.blksize.toNat))
        (if tsize ≠ 0 then some tsize else none)
        (if o.wsize ≠ 0 then some (signed 64 o.wsize.toNat) else none)
        (some (signed 32 o.timeoutms.toNat))
        (if o.rsize ≠ 0 then some (signed 64 o.rsize.toNat) else none)).2, heap⟩
    else (tftp_send_data sys s client 1 0).map fun r => ⟨r.2, heap⟩
  else none

/-- `handle_rrq`. -/
def handle_rrq (m : Machine) (mem : List UInt8) (len : ℕ) (sq : SockaddrQrtr) : Option Machine := do
  match ← Tqftpserv.handle_rrq.parse mem len with
  | none => return m
  | some (filename, do_oack, o) =>
    match qrtr_open sys m.s with
    | (none, s) => return { m with s := s }
    | (some sock, s) =>
      match connect sys s sock sq with
      | (false, s) => return { m with s := s }
      | (true, s) =>
        match open_file sys s filename O_RDONLY with
        | (none, s) => return { m with s := (tftp_send_error sys s sock 1 "file not found").2 }
        | (some fd, s) => handle_rrq.begin sys place { m with s := s } sq sock fd do_oack o

/-- The end of `handle_wrq`. -/
def handle_wrq.begin (m : Machine) (sq : SockaddrQrtr) (sock fd : ℕ) : Option Machine :=
  if sys.malloc m.s.time sizeof_client then do
    let item := free_fd m.heap.live (place m.s.time)
    let heap := m.heap.calloc item ⟨sq, sock, fd, 0, 0, 0, 0⟩
    let (ret, s) := tftp_send_ack sys m.s.tick sock 0
    if ret < 0 then
      let heap ← heap.free item
      return ⟨(s.close sock).close fd, heap⟩
    else
      let heap ← list_add heap writers item
      return ⟨s, heap⟩
  else none

/-- `handle_wrq`. -/
def handle_wrq (m : Machine) (mem : List UInt8) (sq : SockaddrQrtr) : Option Machine := do
  match ← Tqftpserv.handle_wrq.parse mem with
  | none => return m
  | some filename =>
    match open_file sys m.s filename (O_WRONLY ||| O_CREAT) with
    | (none, s) => return { m with s := s }
    | (some fd, s) =>
      match qrtr_open sys s with
      | (none, s) => return { m with s := s }
      | (some sock, s) =>
        match connect sys s sock sq with
        | (false, s) => return { m with s := s }
        | (true, s) => handle_wrq.begin sys place { m with s := s } sq sock fd

/-- The server socket. -/
def receive (m : Machine) (recv : Recv) : Option Machine :=
  match recv with
  | .error => some { m with s := { m.s with status := .exited } }
  | .data sq data rest =>
    let buf := data.take 4096
    let mem := buf ++ rest
    if sq.sq_port = QRTR_PORT_CTRL then control m sq buf
    else if buf.length < 2 then some m
    else if be16At mem 0 = OP_RRQ then handle_rrq sys place m mem buf.length sq
    else if be16At mem 0 = OP_WRQ then handle_wrq sys place m mem sq
    else some m

/-- The sockets in `rfds`: the two loops before `select`. -/
def main.rfds (m : Machine) : Option (List ℕ) := do
  let items ← entries m.heap writers
  let items' ← entries m.heap readers
  let clients ← (items ++ items').mapM m.client
  return clients.map TftpClient.sock

/-- The rest of a round. Only a socket that was in `rfds` can be ready. -/
def main.round (m : Machine) (rfds : List ℕ) (clients : ℕ → Option Recv) (server : Option Recv) :
    Option Machine := do
  let ready sock := if sock ∈ rfds then clients sock else none
  let m ← each_entry_safe Machine.heap writers (serve.body (handle_writer sys) ready) m
  let m ← each_entry_safe Machine.heap readers (serve.body (handle_reader sys) ready) m
  match server with
  | none => return m
  | some recv => receive sys place m recv

/-- A round of the main loop. -/
def main.step (m : Machine) (round : Round) : Machine :=
  if m.s.status = .running then
    match main.rfds m with
    | none => { m with s := { m.s with status := .crashed } }
    | some rfds =>
      match round with
      | .eintr => m
      | .failed => { m with s := { m.s with status := .exited } }
      | .ready clients server =>
        match main.round sys place m rfds clients server with
        | none => { m with s := { m.s with status := .crashed } }
        | some m => m
  else m

/-- `main` up to its loop, with the heads as `LIST_INIT` leaves them. -/
def main.start : Machine :=
  ⟨Tqftpserv.main.start sys, ⟨fun a => ⟨a, a, none⟩, [readers, writers]⟩⟩

/-- The main loop. -/
def main.run (rounds : List Round) : Machine :=
  rounds.foldl (main.step sys place) (main.start sys)

end System

/-! ## The lists of the state

The calls of a transfer do not look at them, and leave them alone. -/

/-- The state with other lists. -/
def lists (r w : List TftpClient) (s : State) : State := { s with readers := r, writers := w }

section Lists

variable (sys : Tqftpserv.Sys) (r w : List TftpClient)

@[simp] theorem lists_lists (r' w' : List TftpClient) (s : State) :
    lists r w (lists r' w' s) = lists r w s := rfl

theorem lists_self (s : State) : lists s.readers s.writers s = s := rfl

@[simp] theorem lists_tick (s : State) : (lists r w s).tick = lists r w s.tick := rfl

@[simp] theorem lists_time (s : State) : (lists r w s).time = s.time := rfl

@[simp] theorem lists_close (s : State) (fd : ℕ) : (lists r w s).close fd = lists r w (s.close fd) := rfl

theorem send_lists (s : State) (sock : ℕ) (data : List UInt8) :
    send sys (lists r w s) sock data = Prod.map id (lists r w) (send sys s sock data) :=
  Prod.ext rfl (apply_ite (lists r w) (sys.send s.time sock data < 0) s.tick
    { s.tick with calls := s.calls ++ [.send sock data] }).symm

theorem tftp_send_error_lists (s : State) (sock : ℕ) (code : UInt16) (msg : String) :
    tftp_send_error sys (lists r w s) sock code msg =
      Prod.map id (lists r w) (tftp_send_error sys s sock code msg) := by
  unfold tftp_send_error
  by_cases hmalloc : sys.malloc s.time (4 + (ascii msg).length + 1) = true
  · have hmalloc' : sys.malloc (lists r w s).time (4 + (ascii msg).length + 1) = true := hmalloc
    rw [if_pos hmalloc, if_pos hmalloc', lists_tick, send_lists]
  · have hmalloc' : ¬ sys.malloc (lists r w s).time (4 + (ascii msg).length + 1) = true := hmalloc
    rw [if_neg hmalloc, if_neg hmalloc', lists_tick]
    rfl

theorem tftp_send_data_lists (s : State) (client : TftpClient) (block : UInt32) (offset : UInt64) :
    tftp_send_data sys (lists r w s) client block offset =
      (tftp_send_data sys s client block offset).map (Prod.map id (lists r w)) := by
  unfold tftp_send_data
  simp only [lists_time, lists_tick, send_lists]
  split
  · rfl
  · split
    · rfl
    · split
      · rfl
      · rfl

theorem handle_reader_loop_lists (client : TftpClient) (last : UInt16) (fuel : ℕ) (block : UInt16)
    (s : State) : handle_reader.loop sys client last fuel block (lists r w s) =
      (handle_reader.loop sys client last fuel block s).map (lists r w) := by
  induction fuel generalizing block s with
  | zero => rfl
  | succ fuel ih =>
    unfold handle_reader.loop
    split
    · rw [tftp_send_data_lists]
      cases tftp_send_data sys s client (block.toUInt32 + 1) (block.toUInt64 * client.blksize) with
      | none => rfl
      | some p =>
        simp only [Option.map_some, Option.bind_eq_bind, Option.bind_some, Prod.map, id]
        split
        · rfl
        · exact ih (block + 1) p.2
    · rfl

theorem tftp_send_ack_lists (s : State) (sock : ℕ) (block : UInt16) :
    tftp_send_ack sys (lists r w s) sock block =
      Prod.map id (lists r w) (tftp_send_ack sys s sock block) := send_lists sys r w ..

theorem tftp_send_oack_lists (s : State) (sock : ℕ) (blocksize tsize wsize timeoutms rsize : Option ℤ) :
    tftp_send_oack sys (lists r w s) sock blocksize tsize wsize timeoutms rsize =
      Prod.map id (lists r w) (tftp_send_oack sys s sock blocksize tsize wsize timeoutms rsize) :=
  send_lists sys r w ..

theorem qrtr_open_lists (s : State) :
    qrtr_open sys (lists r w s) = Prod.map id (lists r w) (qrtr_open sys s) := by
  unfold qrtr_open
  cases hopen : sys.qrtr_open s.time with
  | false =>
    have hopen' : sys.qrtr_open (lists r w s).time = false := hopen
    rw [hopen']
    rfl
  | true =>
    have hopen' : sys.qrtr_open (lists r w s).time = true := hopen
    rw [hopen']
    rfl

theorem connect_lists (s : State) (sock : ℕ) (sq : SockaddrQrtr) :
    connect sys (lists r w s) sock sq = Prod.map id (lists r w) (connect sys s sock sq) := by
  unfold connect
  cases hconn : sys.connect s.time with
  | false =>
    have hconn' : sys.connect (lists r w s).time = false := hconn
    rw [hconn']
    rfl
  | true =>
    have hconn' : sys.connect (lists r w s).time = true := hconn
    rw [hconn']
    rfl

theorem open_file_lists (s : State) (filename : List UInt8) (flags : UInt32) :
    open_file sys (lists r w s) filename flags =
      Prod.map id (lists r w) (open_file sys s filename flags) := by
  unfold open_file
  simp only [lists_time]
  cases translate_open (sys.os s.time) filename flags with
  | none => rfl
  | some file => rfl

/-- What the handlers have in common: the lists do not matter to them. -/
def Listless (handle : State → TftpClient → Recv → Option (ℤ × State)) : Prop :=
  ∀ r w s client recv, handle (lists r w s) client recv =
    (handle s client recv).map (Prod.map id (lists r w))

theorem handle_reader_listless : Listless (handle_reader sys) := by
  intro r w s client recv
  cases recv with
  | error => rfl
  | data sq data rest =>
    unfold handle_reader
    simp only [handle_reader_loop_lists]
    split
    · rfl
    split
    · split
      · rfl
      · rfl
    split
    · rfl
    · rw [Option.map_map, Option.map_map]
      rfl

theorem handle_writer_listless : Listless (handle_writer sys) := by
  intro r w s client recv
  cases recv with
  | error => rfl
  | data sq data rest =>
    unfold handle_writer
    simp only [tftp_send_error_lists]
    split
    · rfl
    split
    · rfl
    split
    · rfl
    by_cases hwrite : sys.write s.time client.fd ((data.take 516).drop 4) < 0
    · have hwrite' : sys.write (lists r w s).time client.fd ((data.take 516).drop 4) < 0 := hwrite
      rw [if_pos hwrite, if_pos hwrite']
      rfl
    · have hwrite' : ¬ sys.write (lists r w s).time client.fd ((data.take 516).drop 4) < 0 := hwrite
      have hack := send_lists sys r w
        { s.tick with calls := s.calls ++ [.write client.fd ((data.take 516).drop 4)] } client.sock
        (be16 OP_ACK ++ be16 (be16At (data.take 516 ++ rest) 2))
      rw [if_neg hwrite, if_neg hwrite']
      exact congrArg some (congrArg (Prod.mk _) (congrArg Prod.snd hack))

theorem serve_lists {handle : State → TftpClient → Recv → Option (ℤ × State)} (hhandle : Listless handle)
    (ready : ℕ → Option Recv) (clients : List TftpClient) (s : State) :
    serve handle ready clients (lists r w s) =
      (serve handle ready clients s).map (Prod.map (lists r w) id) := by
  induction clients generalizing s with
  | nil => rfl
  | cons client clients ih =>
    unfold serve
    cases ready client.sock with
    | none =>
      simp only [ih, Option.map_map]
      rfl
    | some recv =>
      simp only [hhandle r w, Option.bind_eq_bind]
      cases handle s client recv with
      | none => rfl
      | some p =>
        simp only [Option.map_some, Option.bind_some, Prod.map, id]
        by_cases hret : p.1 ≤ 0
        · simp only [if_pos hret]
          exact ih (Tqftpserv.client_close_and_free p.2 client)
        · simp only [if_neg hret, ih, Option.map_map]
          rfl

theorem close_all_lists (clients : List TftpClient) (s : State) :
    clients.foldl Tqftpserv.client_close_and_free (lists r w s) =
      lists r w (clients.foldl Tqftpserv.client_close_and_free s) := by
  induction clients generalizing s with
  | nil => rfl
  | cons client clients ih => exact ih (Tqftpserv.client_close_and_free s client)

end Lists

/-! ## The two rings

Both lists in one memory. They share no node, and nothing else is allocated, so that what is freed
and what is leaked can be told. -/

/-- A ring of transfers, with what is in them. -/
structure Holds (h : Heap TftpClient) (list : ℕ) (l : List (ℕ × TftpClient)) : Prop where
  spells : Spells h list (l.map Prod.fst)
  entry : ∀ p ∈ l, (h.nodes p.1).entry = some p.2

/-- Two rings that share nothing and are all that is allocated. -/
structure Two (h : Heap TftpClient) (list : ℕ) (l : List (ℕ × TftpClient)) (other : ℕ)
    (l' : List (ℕ × TftpClient)) : Prop where
  here : Holds h list l
  there : Holds h other l'
  apart : ∀ a ∈ list :: l.map Prod.fst, a ∉ other :: l'.map Prod.fst
  live : ∀ a, a ∈ h.live ↔ a ∈ list :: l.map Prod.fst ∨ a ∈ other :: l'.map Prod.fst

theorem Two.swap {h : Heap TftpClient} {list other : ℕ} {l l' : List (ℕ × TftpClient)}
    (ht : Two h list l other l') : Two h other l' list l :=
  ⟨ht.there, ht.here, fun a ha ha' => ht.apart a ha' ha, fun a => (ht.live a).trans Or.comm⟩

theorem Holds.relinks {h h' : Heap TftpClient} {list : ℕ} {l : List (ℕ × TftpClient)} {nodes : List ℕ}
    (hl : Holds h list l) (hr : Relinks h h' nodes)
    (hapart : ∀ a ∈ list :: l.map Prod.fst, a ∉ nodes) : Holds h' list l :=
  ⟨hl.spells.relinks hr hapart, fun p hp => (hr.entry p.1).trans (hl.entry p hp)⟩

theorem Holds.free {h h' : Heap TftpClient} {list : ℕ} {l : List (ℕ × TftpClient)} {x : ℕ}
    (hl : Holds h list l) (hx : x ∉ list :: l.map Prod.fst) (hfree : h.free x = some h') :
    Holds h' list l := by
  refine ⟨hl.spells.free hx hfree, fun p hp => ?_⟩
  rw [Heap.free, Option.ite_none_right_eq_some, Option.some.injEq] at hfree
  obtain ⟨-, rfl⟩ := hfree
  exact hl.entry p hp

/-- The transfer at an address of a ring. -/
theorem Holds.client {m : Machine} {list : ℕ} {l : List (ℕ × TftpClient)} (hl : Holds m.heap list l)
    {p : ℕ × TftpClient} (hp : p ∈ l) : m.client p.1 = some p.2 := by
  have hlive : p.1 ∈ m.heap.live :=
    hl.spells.live (List.mem_cons_of_mem _ (List.mem_map_of_mem hp))
  rw [Machine.client, Heap.node_of_live hlive, Option.bind_some, hl.entry p hp]

/-- **`client_close_and_free`** takes the transfer out of its ring and out of memory. -/
theorem Two.close {h : Heap TftpClient} {list other : ℕ} {k r l' : List (ℕ × TftpClient)}
    {p : ℕ × TftpClient} (ht : Two h list (k ++ p :: r) other l') :
    ∃ heap, (∀ s, client_close_and_free ⟨s, h⟩ p.1 =
        some ⟨Tqftpserv.client_close_and_free s p.2, heap⟩) ∧
      Two heap list (k ++ r) other l' := by
  have hspells := ht.here.spells
  rw [List.map_append, List.map_cons] at hspells
  obtain ⟨h₁, hdel, hspells₁, hr⟩ := hspells.list_del
  have hmem : p ∈ k ++ p :: r := List.mem_append_right k List.mem_cons_self
  have hp : p.1 ∈ list :: (k ++ p :: r).map Prod.fst :=
    List.mem_cons_of_mem _ (List.mem_map_of_mem hmem)
  have hlive : p.1 ∈ h₁.live := hr.live ▸ ht.here.spells.live hp
  have hclient : ∀ s, Machine.client ⟨s, h₁⟩ p.1 = some p.2 := by
    intro s
    rw [Machine.client, Heap.node_of_live hlive, Option.bind_some, hr.entry, ht.here.entry p hmem]
  obtain ⟨h₂, hfree⟩ : ∃ h₂, h₁.free p.1 = some h₂ := ⟨_, if_pos hlive⟩
  -- what is left of the ring is without the node
  rw [← List.map_append] at hspells₁ hr
  have hold : ∀ a, a ∈ list :: (k ++ p :: r).map Prod.fst ↔
      a = p.1 ∨ a ∈ list :: (k ++ r).map Prod.fst := by
    intro a
    simp only [List.map_append, List.map_cons, List.mem_cons, List.mem_append]
    tauto
  have hgone : p.1 ∉ list :: (k ++ r).map Prod.fst := by
    have hnodup : (p.1 :: (list :: k.map Prod.fst ++ r.map Prod.fst)).Nodup :=
      List.nodup_middle.mp hspells.nodup
    rw [List.nodup_cons, List.cons_append, ← List.map_append] at hnodup
    exact hnodup.1
  have hother : p.1 ∉ other :: l'.map Prod.fst := ht.apart p.1 hp
  have hthere : Holds h₁ other l' := by
    refine ht.there.relinks hr fun a ha hin => ?_
    exact ht.apart a ((hold a).mpr (.inr hin)) ha
  have hhere : Holds h₁ list (k ++ r) := by
    refine ⟨hspells₁, fun q hq => ?_⟩
    rw [hr.entry, ht.here.entry q]
    simp only [List.mem_append, List.mem_cons] at hq ⊢
    tauto
  refine ⟨h₂, ?_, hhere.free hgone hfree, hthere.free hother hfree, ?_, ?_⟩
  · intro s
    simp only [client_close_and_free, hdel, hclient, hfree, Option.bind_eq_bind, Option.bind_some]
    rfl
  · exact fun a ha => ht.apart a ((hold a).mpr (.inr ha))
  · intro a
    rw [Heap.free, Option.ite_none_right_eq_some, Option.some.injEq] at hfree
    obtain ⟨-, rfl⟩ := hfree
    rw [List.mem_filter, decide_eq_true_eq, hr.live, ht.live, hold]
    constructor
    · rintro ⟨(rfl | hin) | hin, hne⟩
      · exact absurd rfl hne
      · exact .inl hin
      · exact .inr hin
    · rintro (hin | hin)
      · exact ⟨.inl (.inr hin), fun he => hgone (he ▸ hin)⟩
      · exact ⟨.inr hin, fun he => hother (he ▸ hin)⟩

theorem Holds.calloc {h : Heap TftpClient} {list : ℕ} {l : List (ℕ × TftpClient)} {x : ℕ}
    (hl : Holds h list l) (hx : x ∉ h.live) (client : TftpClient) :
    Holds (h.calloc x client) list l := by
  refine ⟨hl.spells.calloc hx client, fun p hp => ?_⟩
  have hne : p.1 ≠ x := by
    rintro rfl
    exact hx (hl.spells.live (List.mem_cons_of_mem _ (List.mem_map_of_mem hp)))
  rw [Heap.calloc_of_ne hne, hl.entry p hp]

/-- **`list_add`** of new memory puts a transfer last. -/
theorem Two.add {h : Heap TftpClient} {list other : ℕ} {l l' : List (ℕ × TftpClient)}
    (ht : Two h list l other l') {x : ℕ} (hx : x ∉ h.live) (client : TftpClient) :
    ∃ heap, list_add (h.calloc x client) list x = some heap ∧
      Two heap list (l ++ [(x, client)]) other l' := by
  have hnew : x ∉ list :: l.map Prod.fst := fun hin => hx ((ht.live x).mpr (.inl hin))
  have hnew' : x ∉ other :: l'.map Prod.fst := fun hin => hx ((ht.live x).mpr (.inr hin))
  have hhere := ht.here.calloc hx client
  obtain ⟨heap, hadd, hspells, hr⟩ := hhere.spells.list_add (x := x) List.mem_cons_self hnew
  have hthere : Holds heap other l' := by
    refine (ht.there.calloc hx client).relinks hr fun a ha hin => ?_
    rcases List.mem_cons.mp hin with rfl | hin
    · exact hnew' ha
    · exact ht.apart a hin ha
  refine ⟨heap, hadd, ⟨?_, fun p hp => ?_⟩, hthere, fun a ha => ?_, fun a => ?_⟩
  · rw [List.map_append]
    exact hspells
  · rcases List.mem_append.mp hp with hin | hin
    · rw [hr.entry, hhere.entry p hin]
    · rw [List.mem_singleton.mp hin, hr.entry, Heap.calloc_self]
  · rw [List.map_append, ← List.cons_append, List.mem_append] at ha
    rcases ha with ha | ha
    · exact ht.apart a ha
    · rw [List.mem_singleton.mp ha]
      exact hnew'
  · rw [hr.live, Heap.calloc, List.mem_cons, ht.live]
    simp only [List.map_append, List.map_cons, List.map_nil, List.mem_cons, List.mem_append,
      List.not_mem_nil, or_false]
    tauto

/-- New memory that is freed again leaves the rings as they were. -/
theorem Two.undo {h : Heap TftpClient} {list other : ℕ} {l l' : List (ℕ × TftpClient)}
    (ht : Two h list l other l') {x : ℕ} (hx : x ∉ h.live) (client : TftpClient) :
    ∃ heap, (h.calloc x client).free x = some heap ∧ Two heap list l other l' := by
  obtain ⟨heap, hfree⟩ : ∃ heap, (h.calloc x client).free x = some heap :=
    ⟨_, if_pos List.mem_cons_self⟩
  have hnew : x ∉ list :: l.map Prod.fst := fun hin => hx ((ht.live x).mpr (.inl hin))
  have hnew' : x ∉ other :: l'.map Prod.fst := fun hin => hx ((ht.live x).mpr (.inr hin))
  refine ⟨heap, hfree, (ht.here.calloc hx client).free hnew hfree,
    (ht.there.calloc hx client).free hnew' hfree, ht.apart, fun a => ?_⟩
  rw [Heap.free, Option.ite_none_right_eq_some, Option.some.injEq] at hfree
  obtain ⟨-, rfl⟩ := hfree
  rw [List.mem_filter, decide_eq_true_eq, Heap.calloc, List.mem_cons, ← ht.live]
  constructor
  · rintro ⟨rfl | hin, hne⟩
    · exact absurd rfl hne
    · exact hin
  · exact fun hin => ⟨.inr hin, fun he => hx (he ▸ hin)⟩

/-! ## The loops

The loops over a ring delete the node they are at. They have taken its successor before, which the
deletion leaves alone. -/

theorem Rel.bind {α β γ δ : Type} {R : α → β → Prop} {S : γ → δ → Prop} {a : Option α} {b : Option β}
    {f : α → Option γ} {g : β → Option δ} (h : Option.Rel R a b)
    (hfg : ∀ x y, R x y → Option.Rel S (f x) (g y)) : Option.Rel S (a.bind f) (b.bind g) := by
  cases h with
  | none => exact .none
  | some h => exact hfg _ _ h

/-- What the loops have in common: the body decides whether a transfer goes on. -/
def visit (judge : State → TftpClient → Option (Bool × State)) (item : ℕ) (m : Machine) :
    Option Machine := do
  let client ← m.client item
  let (goes, s) ← judge m.s client
  if goes then return { m with s := s } else client_close_and_free { m with s := s } item

/-- The same on a list. -/
def prune (judge : State → TftpClient → Option (Bool × State)) :
    List TftpClient → State → Option (State × List TftpClient)
  | [], s => some (s, [])
  | client :: clients, s => do
    let (goes, s) ← judge s client
    if goes then (prune judge clients s).map fun r => (r.1, client :: r.2)
    else prune judge clients (Tqftpserv.client_close_and_free s client)

section Prune

variable (judge : State → TftpClient → Option (Bool × State)) {list other : ℕ}
  {l' : List (ℕ × TftpClient)}

/-- What a loop leaves: the state, and the ring with the transfers that go on. -/
def Left (list other : ℕ) (l' : List (ℕ × TftpClient)) (k : List TftpClient) (m : Machine)
    (r : State × List TftpClient) : Prop :=
  m.s = r.1 ∧ ∃ l, l.map Prod.snd = k ++ r.2 ∧ Two m.heap list l other l'

/-- One transfer is visited. -/
theorem visit_eq {m : Machine} {k r : List (ℕ × TftpClient)} {p : ℕ × TftpClient}
    (ht : Two m.heap list (k ++ p :: r) other l') :
    ∃ heap, Two heap list (k ++ r) other l' ∧
      visit judge p.1 m = (judge m.s p.2).map fun q => if q.1 then ⟨q.2, m.heap⟩
        else ⟨Tqftpserv.client_close_and_free q.2 p.2, heap⟩ := by
  obtain ⟨heap, hclose, ht'⟩ := ht.close
  refine ⟨heap, ht', ?_⟩
  rw [visit, ht.here.client (List.mem_append_right k List.mem_cons_self), Option.bind_eq_bind,
    Option.bind_some]
  rcases judge m.s p.2 with _ | ⟨goes, s⟩
  · rfl
  · cases goes with
    | true => rfl
    | false => exact hclose s

theorem visit_rounds : Rounds Machine.heap list (visit judge) fun K R m =>
    ∃ k r, k.map Prod.fst = K ∧ r.map Prod.fst = R ∧ Two m.heap list (k ++ r) other l' where
  spells := by
    rintro K R m ⟨k, r, rfl, rfl, ht⟩
    rw [← List.map_append]
    exact ht.here.spells
  round := by
    rintro K x R m m' ⟨k, r, rfl, hr, ht⟩ hvisit
    obtain ⟨p, r, rfl, rfl, rfl⟩ := List.map_eq_cons_iff.mp hr
    obtain ⟨heap, ht', he⟩ := visit_eq judge ht
    rw [he] at hvisit
    obtain ⟨⟨goes, s⟩, -, rfl⟩ := Option.map_eq_some_iff.mp hvisit
    cases goes with
    | true => exact .inl ⟨k ++ [p], r, List.map_append, rfl, by rwa [List.append_assoc]⟩
    | false => exact .inr ⟨k, r, rfl, rfl, ht'⟩

theorem fold_left {k r : List (ℕ × TftpClient)} {m : Machine}
    (ht : Two m.heap list (k ++ r) other l') :
    Option.Rel (Left list other l' (k.map Prod.snd))
      ((r.map Prod.fst).foldlM (fun m x => visit judge x m) m) (prune judge (r.map Prod.snd) m.s) := by
  induction r generalizing k m with
  | nil => exact .some ⟨rfl, k, (List.append_nil _).symm, by rwa [List.append_nil] at ht⟩
  | cons p r ih =>
    obtain ⟨heap, ht', he⟩ := visit_eq judge ht
    rw [List.map_cons, List.map_cons, List.foldlM_cons, prune, he]
    rcases judge m.s p.2 with _ | ⟨goes, s⟩
    · exact .none
    cases goes with
    | true =>
      -- the transfer joins those that were kept
      have hgoes := ih (k := k ++ [p]) (m := ⟨s, m.heap⟩) (by rwa [List.append_assoc])
      simp only [Option.map_some, Option.bind_eq_bind, Option.bind_some, if_true]
      generalize (r.map Prod.fst).foldlM (fun m x => visit judge x m) (⟨s, m.heap⟩ : Machine) = a
        at hgoes ⊢
      generalize prune judge (r.map Prod.snd) s = b at hgoes ⊢
      cases hgoes with
      | none => exact .none
      | some hleft =>
        obtain ⟨hs, l, hl, htwo⟩ := hleft
        exact .some ⟨hs, l, by rw [hl, List.map_append, List.append_assoc]; rfl, htwo⟩
    | false => exact ih (m := ⟨Tqftpserv.client_close_and_free s p.2, heap⟩) ht'

/-- **A loop over a ring** does what it does on a list. -/
theorem loop_left {l : List (ℕ × TftpClient)} {m : Machine} (ht : Two m.heap list l other l') :
    Option.Rel (Left list other l' []) (each_entry_safe Machine.heap list (visit judge) m)
      (prune judge (l.map Prod.snd) m.s) := by
  rw [each_entry_safe_eq (visit_rounds judge) ⟨[], l, rfl, rfl, ht⟩]
  exact fold_left judge (k := []) ht

end Prune

/-- The decision of the loops over the transfers. -/
def serve.judge (handle : State → TftpClient → Recv → Option (ℤ × State)) (ready : ℕ → Option Recv)
    (s : State) (client : TftpClient) : Option (Bool × State) :=
  match ready client.sock with
  | none => some (true, s)
  | some recv => (handle s client recv).map fun r => (0 < r.1, r.2)

theorem serve_body_eq (handle : State → TftpClient → Recv → Option (ℤ × State))
    (ready : ℕ → Option Recv) : serve.body handle ready = visit (serve.judge handle ready) := by
  funext item m
  rw [serve.body, visit]
  cases m.client item with
  | none => rfl
  | some client =>
    simp only [Option.bind_eq_bind, Option.bind_some, serve.judge]
    cases ready client.sock with
    | none => rfl
    | some recv =>
      dsimp only
      rcases handle m.s client recv with _ | ⟨ret, s⟩
      · rfl
      · by_cases hret : ret ≤ 0
        · simp [hret, not_lt.mpr hret]
        · simp [hret, not_le.mp hret]

theorem serve_eq_prune (handle : State → TftpClient → Recv → Option (ℤ × State))
    (ready : ℕ → Option Recv) (clients : List TftpClient) (s : State) :
    serve handle ready clients s = prune (serve.judge handle ready) clients s := by
  induction clients generalizing s with
  | nil => rfl
  | cons client clients ih =>
    rw [serve, prune, serve.judge]
    cases ready client.sock with
    | none => simp [ih]
    | some recv =>
      dsimp only
      rcases handle s client recv with _ | ⟨ret, s⟩
      · rfl
      · by_cases hret : ret ≤ 0
        · simp [hret, not_lt.mpr hret, ih]
        · simp [hret, not_le.mp hret, ih]

theorem drop_body_eq (test : TftpClient → Bool) :
    drop.body test = visit fun s client => some (!test client, s) := by
  funext item m
  rw [drop.body, visit]
  cases m.client item with
  | none => rfl
  | some client =>
    simp only [Option.bind_eq_bind, Option.bind_some]
    cases test client with
    | true => rfl
    | false => rfl

theorem prune_test (test : TftpClient → Bool) (clients : List TftpClient) (s : State) :
    prune (fun s client => some (!test client, s)) clients s =
      some ((clients.filter test).foldl Tqftpserv.client_close_and_free s,
        clients.filter fun client => !test client) := by
  induction clients generalizing s with
  | nil => rfl
  | cons client clients ih =>
    rw [prune]
    cases htest : test client with
    | true => simp [ih, htest]
    | false => simp [ih, htest]

/-! ## Requests

A request allocates a node and links it, or gives it back. -/

/-- The rings spell the lists of a state, and the rest is the same. -/
def Keeps (m : Machine) (s : State) : Prop :=
  m.s = lists [] [] s ∧ ∃ l l', l.map Prod.snd = s.readers ∧ l'.map Prod.snd = s.writers ∧
    Two m.heap readers l writers l'

theorem Keeps.works {m : Machine} {s s' : State} (hk : Keeps m s) (hsame : Same s s') :
    Keeps { m with s := lists [] [] s' } s' := by
  obtain ⟨-, l, l', hl, hl', ht⟩ := hk
  exact ⟨rfl, l, l', hl.trans hsame.1.symm, hl'.trans hsame.2.symm, ht⟩

section Requests

variable (sys : Tqftpserv.Sys) (place : ℕ → ℕ)

/-- The end of a read request. -/
theorem handle_rrq_begin_keeps {m : Machine} {s : State} (hk : Keeps m s) (sq : SockaddrQrtr)
    (sock fd : ℕ) (do_oack : Bool) (o : RrqOptions) :
    Option.Rel Keeps (handle_rrq.begin sys place m sq sock fd do_oack o)
      (Tqftpserv.handle_rrq.begin sys s sq sock fd do_oack o) := by
  obtain ⟨ms, heap⟩ := m
  obtain ⟨rfl, l, l', hl, hl', ht⟩ := hk
  obtain ⟨s₁, hs₁⟩ : ∃ s₁, s₁ = if o.tsize ≠ -1 then s.tick else s := ⟨_, rfl⟩
  have hsame : s₁.readers = s.readers ∧ s₁.writers = s.writers := by
    rw [hs₁]
    split
    · exact ⟨rfl, rfl⟩
    · exact ⟨rfl, rfl⟩
  have hlists : (if o.tsize ≠ -1 then (lists [] [] s).tick else lists [] [] s) = lists [] [] s₁ := by
    rw [hs₁, apply_ite (lists [] []), lists_tick]
  unfold handle_rrq.begin Tqftpserv.handle_rrq.begin
  simp only [hlists, ← hs₁]
  by_cases hmalloc : sys.malloc s₁.time sizeof_client = true
  swap
  · have hmalloc' : ¬ sys.malloc (lists [] [] s₁).time sizeof_client = true := hmalloc
    rw [if_neg hmalloc, if_neg hmalloc']
    exact .none
  have hmalloc' : sys.malloc (lists [] [] s₁).time sizeof_client = true := hmalloc
  rw [if_pos hmalloc, if_pos hmalloc']
  -- the new transfer is last in its ring, and last in the list
  obtain ⟨heap', hadd, ht'⟩ := ht.add (free_fd_not_mem heap.live (place s₁.time))
    ⟨sq, sock, fd, o.blksize, o.rsize, o.wsize, o.timeoutms⟩
  have hnew : ∀ s', Same { s₁.tick with readers := s₁.readers ++
      [⟨sq, sock, fd, o.blksize, o.rsize, o.wsize, o.timeoutms⟩] } s' →
      Keeps ⟨lists [] [] s', heap'⟩ s' := by
    intro s' hs'
    refine ⟨rfl, l ++ [(_, _)], l', ?_, ?_, ht'⟩
    · rw [List.map_append, hl, hs'.1, hsame.1]
      rfl
    · rw [hl', hs'.2]
      exact hsame.2.symm
  simp only [lists_time, hadd, Option.bind_eq_bind, Option.bind_some]
  have htick : (lists [] [] s₁).tick = lists [] [] { s₁.tick with readers := s₁.readers ++
      [⟨sq, sock, fd, o.blksize, o.rsize, o.wsize, o.timeoutms⟩] } := rfl
  rw [htick]
  generalize ({ s₁.tick with readers := s₁.readers ++ [_] } : State) = s₂ at hnew ⊢
  cases do_oack with
  | true =>
    rw [if_pos rfl, if_pos rfl, tftp_send_oack_lists]
    exact .some (hnew _ (send_works sys s₂ sock _).same)
  | false =>
    rw [if_neg Bool.false_ne_true, if_neg Bool.false_ne_true, tftp_send_data_lists]
    cases hdata : tftp_send_data sys s₂ ⟨sq, sock, fd, o.blksize, o.rsize, o.wsize, o.timeoutms⟩ 1 0 with
    | none => exact .none
    | some p => exact .some (hnew p.2 (tftp_send_data_works sys hdata).same)

/-- A read request. -/
theorem handle_rrq_keeps {m : Machine} {s : State} (hk : Keeps m s) (mem : List UInt8) (len : ℕ)
    (sq : SockaddrQrtr) : Option.Rel Keeps (handle_rrq sys place m mem len sq)
      (Tqftpserv.handle_rrq sys s mem len sq) := by
  unfold handle_rrq Tqftpserv.handle_rrq
  rcases Tqftpserv.handle_rrq.parse mem len with _ | _ | ⟨filename, do_oack, o⟩
  · exact .none
  · exact .some hk
  simp only [Option.bind_eq_bind, Option.bind_some, hk.1, qrtr_open_lists]
  rcases qrtr_open_cases sys s with ⟨-, he⟩ | ⟨-, sock, s₁, he, hopens, -, -⟩
  · rw [he]
    exact .some (hk.works (tick_works s).same)
  rw [he]
  simp only [Prod.map, id, connect_lists]
  rcases connect_cases sys s₁ sock sq with ⟨-, he⟩ | ⟨-, s₂, he, hconnect, -, -⟩
  · rw [he]
    exact .some (hk.works (hopens.same.trans (tick_works s₁).same))
  rw [he]
  simp only [Prod.map, id, open_file_lists]
  have hsame := hopens.same.trans hconnect.same
  rcases open_file_cases sys s₂ filename O_RDONLY with ⟨-, he⟩ | ⟨file, -, fd, s₃, he, hfile, -, -⟩
  · rw [he]
    simp only [Prod.map, id, tftp_send_error_lists]
    exact .some (hk.works ((hsame.trans (tick_works s₂).same).trans
      (tftp_send_error_works sys s₂.tick sock 1 "file not found").same))
  · rw [he]
    exact handle_rrq_begin_keeps sys place (hk.works (hsame.trans hfile.same)) sq sock fd do_oack o

/-- The end of a write request. -/
theorem handle_wrq_begin_keeps {m : Machine} {s : State} (hk : Keeps m s) (sq : SockaddrQrtr)
    (sock fd : ℕ) : Option.Rel Keeps (handle_wrq.begin sys place m sq sock fd)
      (Tqftpserv.handle_wrq.begin sys s sq sock fd) := by
  obtain ⟨ms, heap⟩ := m
  obtain ⟨rfl, l, l', hl, hl', ht⟩ := hk
  unfold handle_wrq.begin Tqftpserv.handle_wrq.begin
  by_cases hmalloc : sys.malloc s.time sizeof_client = true
  swap
  · have hmalloc' : ¬ sys.malloc (lists [] [] s).time sizeof_client = true := hmalloc
    rw [if_neg hmalloc, if_neg hmalloc']
    exact .none
  have hmalloc' : sys.malloc (lists [] [] s).time sizeof_client = true := hmalloc
  rw [if_pos hmalloc, if_pos hmalloc']
  have hitem := free_fd_not_mem heap.live (place s.time)
  simp only [lists_time, lists_tick, tftp_send_ack_lists, Prod.map, id, Option.bind_eq_bind]
  generalize free_fd heap.live (place s.time) = item at hitem ⊢
  have hack := send_works sys s.tick sock (be16 OP_ACK ++ be16 0)
  rw [← tftp_send_ack] at hack
  generalize tftp_send_ack sys s.tick sock 0 = p at hack ⊢
  by_cases hret : p.1 < 0
  · -- the new transfer is freed again
    rw [if_pos hret, if_pos hret]
    obtain ⟨heap', hfree, ht'⟩ := ht.undo hitem ⟨sq, sock, fd, 0, 0, 0, 0⟩
    rw [hfree, Option.bind_some]
    exact .some ⟨rfl, l, l', hl.trans hack.same.1.symm, hl'.trans hack.same.2.symm, ht'⟩
  · rw [if_neg hret, if_neg hret]
    obtain ⟨heap', hadd, ht'⟩ := ht.swap.add hitem ⟨sq, sock, fd, 0, 0, 0, 0⟩
    rw [hadd, Option.bind_some]
    refine .some ⟨rfl, l, l' ++ [(_, _)], hl.trans hack.same.1.symm, ?_, ht'.swap⟩
    rw [List.map_append, hl', hack.same.2]
    rfl

/-- A write request. -/
theorem handle_wrq_keeps {m : Machine} {s : State} (hk : Keeps m s) (mem : List UInt8)
    (sq : SockaddrQrtr) : Option.Rel Keeps (handle_wrq sys place m mem sq)
      (Tqftpserv.handle_wrq sys s mem sq) := by
  unfold handle_wrq Tqftpserv.handle_wrq
  rcases Tqftpserv.handle_wrq.parse mem with _ | _ | filename
  · exact .none
  · exact .some hk
  simp only [Option.bind_eq_bind, Option.bind_some, hk.1, open_file_lists]
  rcases open_file_cases sys s filename (O_WRONLY ||| O_CREAT) with
    ⟨-, he⟩ | ⟨file, -, fd, s₁, he, hfile, -, -⟩
  · rw [he]
    exact .some (hk.works (tick_works s).same)
  rw [he]
  simp only [Prod.map, id, qrtr_open_lists]
  rcases qrtr_open_cases sys s₁ with ⟨-, he⟩ | ⟨-, sock, s₂, he, hopens, -, -⟩
  · rw [he]
    exact .some (hk.works (hfile.same.trans (tick_works s₁).same))
  rw [he]
  simp only [Prod.map, id, connect_lists]
  have hsame := hfile.same.trans hopens.same
  rcases connect_cases sys s₂ sock sq with ⟨-, he⟩ | ⟨-, s₃, he, hconnect, -, -⟩
  · rw [he]
    exact .some (hk.works (hsame.trans (tick_works s₂).same))
  · rw [he]
    exact handle_wrq_begin_keeps sys place (hk.works (hsame.trans hconnect.same)) sq sock fd

omit sys place in
/-- A loop of a control message. -/
theorem drop_writers_keeps {m : Machine} {s : State} (hk : Keeps m s) (test : TftpClient → Bool) :
    Option.Rel Keeps (each_entry_safe Machine.heap writers (drop.body test) m)
      (some (drop_writers s test)) := by
  obtain ⟨hs, l, l', hl, hl', ht⟩ := hk
  have hloop := loop_left (fun s client => some (!test client, s)) ht.swap
  rw [prune_test, ← drop_body_eq, hl', hs, close_all_lists] at hloop
  generalize each_entry_safe Machine.heap writers (drop.body test) m = a at hloop ⊢
  cases hloop with
  | some hleft =>
    obtain ⟨hs', l₁, hl₁, ht'⟩ := hleft
    refine .some ⟨hs', l, l₁, ?_, hl₁, ht'.swap⟩
    rw [hl]
    exact ((close_all _ s).1).symm

omit sys place in
/-- A control message. -/
theorem control_keeps {m : Machine} {s : State} (hk : Keeps m s) (sq : SockaddrQrtr)
    (buf : List UInt8) : Option.Rel Keeps (control m sq buf) (some (Tqftpserv.control s sq buf)) := by
  unfold control Tqftpserv.control
  rcases qrtr_decode ⟨0, 0, 0, 0, 0, 0, []⟩ buf sq with e | pkt
  · exact .some ⟨congrArg (fun s => { s with status := .exited }) hk.1, hk.2⟩
  dsimp only
  by_cases hbye : pkt.type = QrtrType.bye.code
  · rw [if_pos hbye, if_pos hbye]
    exact drop_writers_keeps hk _
  rw [if_neg hbye, if_neg hbye]
  by_cases hdel : pkt.type = QrtrType.del_client.code
  · rw [if_pos hdel, if_pos hdel]
    exact drop_writers_keeps hk _
  · rw [if_neg hdel, if_neg hdel]
    exact .some hk

/-- The server socket. -/
theorem receive_keeps {m : Machine} {s : State} (hk : Keeps m s) (recv : Recv) :
    Option.Rel Keeps (receive sys place m recv) (Tqftpserv.receive sys s recv) := by
  cases recv with
  | error => exact .some ⟨congrArg (fun s => { s with status := .exited }) hk.1, hk.2⟩
  | data sq data rest =>
    unfold receive Tqftpserv.receive
    dsimp only
    by_cases hctrl : sq.sq_port = QRTR_PORT_CTRL
    · rw [if_pos hctrl, if_pos hctrl]
      exact control_keeps hk sq _
    rw [if_neg hctrl, if_neg hctrl]
    by_cases hshort : (data.take 4096).length < 2
    · rw [if_pos hshort, if_pos hshort]
      exact .some hk
    rw [if_neg hshort, if_neg hshort]
    by_cases hrrq : be16At (data.take 4096 ++ rest) 0 = OP_RRQ
    · rw [if_pos hrrq, if_pos hrrq]
      exact handle_rrq_keeps sys place hk _ _ sq
    rw [if_neg hrrq, if_neg hrrq]
    by_cases hwrq : be16At (data.take 4096 ++ rest) 0 = OP_WRQ
    · rw [if_pos hwrq, if_pos hwrq]
      exact handle_wrq_keeps sys place hk _ sq
    · rw [if_neg hwrq, if_neg hwrq]
      exact .some hk

end Requests

/-! ## Runs

The simulation, step by step and then along a run. -/

section Run

variable (sys : Tqftpserv.Sys) (place : ℕ → ℕ)

/-- The transfers in the nodes of a ring. -/
theorem Holds.clients {m : Machine} {list : ℕ} {l : List (ℕ × TftpClient)} (hl : Holds m.heap list l) :
    (l.map Prod.fst).mapM m.client = some (l.map Prod.snd) := by
  have hall : ∀ q ⊆ l, (q.map Prod.fst).mapM m.client = some (q.map Prod.snd) := by
    intro q hq
    induction q with
    | nil => rfl
    | cons p q ih =>
      obtain ⟨hp, hq⟩ := List.cons_subset.mp hq
      rw [List.map_cons, List.mapM_cons, hl.client hp, ih hq]
      rfl
  exact hall l fun _ hp => hp

/-- The sockets in `rfds` are those of the transfers. -/
theorem rfds_eq {m : Machine} {l l' : List (ℕ × TftpClient)} (ht : Two m.heap readers l writers l') :
    main.rfds m = some ((l' ++ l).map fun p => p.2.sock) := by
  simp only [main.rfds, ht.there.spells.entries, ht.here.spells.entries, List.mapM_append,
    ht.there.clients, ht.here.clients, Option.bind_eq_bind, Option.bind_some, Option.pure_def,
    ← List.map_append, List.map_map]
  rfl

/-- Only sockets of the transfers in the loop matter to it. -/
theorem serve_congr (handle : State → TftpClient → Recv → Option (ℤ × State))
    {ready ready' : ℕ → Option Recv} {clients : List TftpClient}
    (h : ∀ c ∈ clients, ready c.sock = ready' c.sock) (s : State) :
    serve handle ready clients s = serve handle ready' clients s := by
  induction clients generalizing s with
  | nil => rfl
  | cons client clients ih =>
    have hrest := ih fun c hc => h c (List.mem_cons_of_mem _ hc)
    simp only [serve, h client List.mem_cons_self, hrest]

/-- A loop over the transfers is the same in memory. -/
theorem loop_serve {handle : State → TftpClient → Recv → Option (ℤ × State)}
    (hlistless : Listless handle)
    (hworks : ∀ s client recv r, handle s client recv = some r → Works s r.2) {m : Machine} {s : State}
    (hs : m.s = lists [] [] s) {list other : ℕ} {l l' : List (ℕ × TftpClient)}
    (ht : Two m.heap list l other l') {ready clients : ℕ → Option Recv}
    (hready : ∀ p ∈ l, ready p.2.sock = clients p.2.sock) :
    Option.Rel (fun m' r => m'.s = lists [] [] r.1 ∧ Same s r.1 ∧
        ∃ l₁, l₁.map Prod.snd = r.2 ∧ Two m'.heap list l₁ other l')
      (each_entry_safe Machine.heap list (serve.body handle ready) m)
      (serve handle clients (l.map Prod.snd) s) := by
  have hloop := loop_left (serve.judge handle ready) ht
  have hclients : ∀ c ∈ l.map Prod.snd, ready c.sock = clients c.sock := by
    intro c hc
    obtain ⟨p, hp, rfl⟩ := List.mem_map.mp hc
    exact hready p hp
  have hcongr := serve_congr handle hclients
  rw [← serve_eq_prune, ← serve_body_eq, hs, serve_lists [] [] hlistless, hcongr] at hloop
  generalize each_entry_safe Machine.heap list (serve.body handle ready) m = a at hloop ⊢
  cases hserve : serve handle clients (l.map Prod.snd) s with
  | none =>
    rw [hserve] at hloop
    cases hloop
    exact .none
  | some r =>
    rw [hserve] at hloop
    cases hloop with
    | some hleft =>
      obtain ⟨hs', hl⟩ := hleft
      exact .some ⟨hs', (serve_sublist hworks clients _ s hserve).1, hl⟩

/-- **A round** is the same in memory. -/
theorem round_keeps {m : Machine} {s : State} (hk : Keeps m s) {rfds : List ℕ}
    (hrfds : main.rfds m = some rfds) (clients : ℕ → Option Recv) (server : Option Recv) :
    Option.Rel Keeps (main.round sys place m rfds clients server)
      (Tqftpserv.main.round sys s clients server) := by
  obtain ⟨hs, l, l', hl, hl', ht⟩ := hk
  have hin : ∀ p ∈ l' ++ l, (if p.2.sock ∈ rfds then clients p.2.sock else none) = clients p.2.sock := by
    intro p hp
    rw [rfds_eq ht, Option.some.injEq] at hrfds
    exact if_pos (hrfds ▸ List.mem_map_of_mem hp)
  unfold main.round Tqftpserv.main.round
  refine Rel.bind (hl' ▸ loop_serve (handle_writer_listless sys) (handle_writer_works sys) hs ht.swap
    fun p hp => hin p (List.mem_append_left l hp)) ?_
  rintro m₁ ⟨s₁, ws⟩ ⟨hs₁, hsame₁, l₁', rfl, ht₁⟩
  have hreaders : l.map Prod.snd = s₁.readers := hl.trans hsame₁.1.symm
  refine Rel.bind (hreaders ▸ loop_serve (s := { s₁ with writers := l₁'.map Prod.snd })
    (handle_reader_listless sys) (handle_reader_works sys) hs₁ ht₁.swap
    fun p hp => hin p (List.mem_append_right l' hp)) ?_
  rintro m₂ ⟨s₂, rs⟩ ⟨hs₂, hsame₂, l₂, rfl, ht₂⟩
  have hk₂ : Keeps m₂ { s₂ with readers := l₂.map Prod.snd } :=
    ⟨hs₂, l₂, l₁', rfl, hsame₂.2.symm, ht₂⟩
  cases server with
  | none => exact .some hk₂
  | some recv => exact receive_keeps sys place hk₂ recv

theorem step_keeps {m : Machine} {s : State} (hk : Keeps m s) (round : Round) :
    Keeps (main.step sys place m round) (Tqftpserv.main.step sys s round) := by
  have hstatus : m.s.status = s.status := by
    rw [hk.1]
    rfl
  unfold main.step Tqftpserv.main.step
  rw [hstatus]
  by_cases hrun : s.status = .running
  swap
  · rw [if_neg hrun, if_neg hrun]
    exact hk
  rw [if_pos hrun, if_pos hrun]
  have hset : ∀ status, Keeps { m with s := { m.s with status := status } }
      { s with status := status } :=
    fun status => ⟨congrArg (fun s => { s with status := status }) hk.1, hk.2⟩
  obtain ⟨-, l, l', -, -, ht⟩ := id hk
  have hrfds := rfds_eq ht
  rw [hrfds]
  cases round with
  | eintr => exact hk
  | failed => exact hset .exited
  | ready clients server =>
    have hround := round_keeps sys place hk hrfds clients server
    dsimp only
    generalize main.round sys place m _ clients server = a at hround ⊢
    generalize Tqftpserv.main.round sys s clients server = b at hround ⊢
    cases hround with
    | none => exact hset .crashed
    | some hk' => exact hk'

theorem start_lists : (Tqftpserv.main.start sys).readers = [] ∧
    (Tqftpserv.main.start sys).writers = [] := by
  unfold Tqftpserv.main.start
  rcases qrtr_open_cases sys ⟨.running, [], [], [], [], 0⟩ with ⟨-, he⟩ | ⟨-, sock, s₁, he, hopens, -, -⟩
  · rw [he]
    exact ⟨rfl, rfl⟩
  · rw [he]
    dsimp only
    split
    · exact hopens.same
    · exact hopens.same

/-- Both rings are empty at the start. -/
theorem start_keeps : Keeps (main.start sys) (Tqftpserv.main.start sys) := by
  obtain ⟨hreaders, hwriters⟩ := start_lists sys
  have hself := lists_self (Tqftpserv.main.start sys)
  rw [hreaders, hwriters] at hself
  have hempty : ∀ list ∈ [readers, writers], Holds (main.start sys).heap list [] := by
    intro list hlist
    exact ⟨⟨List.nodup_singleton list, hlist, hlist, rfl, rfl⟩, fun p hp => absurd hp List.not_mem_nil⟩
  refine ⟨hself.symm, [], [], hreaders.symm, hwriters.symm, hempty readers (by simp),
    hempty writers (by simp), fun a ha hb => ?_, fun a => ?_⟩
  · rw [List.map_nil, List.mem_singleton] at ha hb
    exact absurd (ha.symm.trans hb) (by decide)
  · simp [main.start]

/-- **The lists in memory are the lists.** On every run the server with its two rings in memory
does what the server with two lists does. -/
theorem run_keeps (rounds : List Round) :
    Keeps (main.run sys place rounds) (Tqftpserv.main.run sys rounds) := by
  induction rounds using List.reverseRecOn with
  | nil => exact start_keeps sys
  | append_singleton rounds round ih =>
    rw [main.run, List.foldl_append, ← main.run, Tqftpserv.main_run_append]
    exact step_keeps sys place ih round

/-- **The transfers in memory are the transfers.** On every run the server with its two rings in memory
makes the same calls as the server with two lists, and goes on as long. Its loops find
the transfers of the lists, in order, and what is allocated is the two heads and these transfers. -/
theorem lists_in_memory (rounds : List Round) : ∃ items items',
    entries (main.run sys place rounds).heap readers = some items ∧
    items.mapM (main.run sys place rounds).client = some (Tqftpserv.main.run sys rounds).readers ∧
    entries (main.run sys place rounds).heap writers = some items' ∧
    items'.mapM (main.run sys place rounds).client = some (Tqftpserv.main.run sys rounds).writers ∧
    (∀ a, a ∈ (main.run sys place rounds).heap.live ↔
      a = readers ∨ a = writers ∨ a ∈ items ∨ a ∈ items') ∧
    (items ++ items').Nodup ∧
    (main.run sys place rounds).s = lists [] [] (Tqftpserv.main.run sys rounds) := by
  obtain ⟨hs, l, l', hl, hl', ht⟩ := run_keeps sys place rounds
  refine ⟨l.map Prod.fst, l'.map Prod.fst, ht.here.spells.entries, hl ▸ ht.here.clients,
    ht.there.spells.entries, hl' ▸ ht.there.clients, fun a => ?_, ?_, hs⟩
  · rw [ht.live, List.mem_cons, List.mem_cons]
    tauto
  · refine List.nodup_append.mpr ⟨(List.nodup_cons.mp ht.here.spells.nodup).2,
      (List.nodup_cons.mp ht.there.spells.nodup).2, ?_⟩
    rintro a ha b hb rfl
    exact ht.apart a (List.mem_cons_of_mem _ ha) (List.mem_cons_of_mem _ hb)

end Run

end Dragonboard.TqftpservLists
