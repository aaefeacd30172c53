/-
What a read transfer delivers.

The peer acknowledges what it gets: 0 for an OACK, and otherwise the last block that came.
`handle_reader` answers with the blocks of the next window. An empty block is never sent, a
window that is not asked for has no blocks, and a window that reaches the end of the block
numbers does not end. So the file is delivered, with the block that ends it, exactly
if it is shorter than one block and not empty, or there is a window, the last block is not
empty, and the blocks can be numbered (`read_delivers_iff`).
-/
import Dragonboard.TqftpservWrite

set_option autoImplicit false

namespace Dragonboard.Tqftpserv

open Dragonboard.Ns Dragonboard.Qrtr Dragonboard.Translate

/-! ## The transfer

What the peer sees, stated without the server: a file is cut into blocks, and the peer answers
each batch of packets with the acknowledgement of the last of them. `Delivers` says in these terms
that the peer gets the file, on the calls to `send` that the model records. -/

/-- A block of a file, counted from 0. -/
def chunk (content : List UInt8) (blksize i : ℕ) : List UInt8 :=
  (content.drop (i * blksize)).take blksize

/-- The DATA packets of the blocks from `lo` up to `hi`. -/
def packets (content : List UInt8) (blksize lo hi : ℕ) : List (List UInt8) :=
  (List.range' lo (hi - lo)).map fun i => dataPacket (UInt16.ofNat (i + 1)) (chunk content blksize i)

/-- The packets of a whole transfer: the last block is shorter than the others. -/
def filePackets (content : List UInt8) (blksize : ℕ) : List (List UInt8) :=
  packets content blksize 0 (content.length / blksize + 1)

/-- What the peer acknowledges when it got some packets. -/
def answer (received : List (List UInt8)) : Option UInt16 :=
  match received.getLast? with
  | none => none
  | some packet =>
    if be16At packet 0 = OP_OACK then some 0
    else if be16At packet 0 = OP_DATA then some (be16At packet 2)
    else none

/-- The round in which an acknowledgement is received, with what memory holds behind it. -/
def ackRound (client : TftpClient) (rest : List UInt8) (block : UInt16) : Round :=
  .ready (only client.sock (.data client.sq (ackPacket block) rest)) none

/-- The peer answers, and gets what the server sends then. -/
def exchange (sys : Sys) (client : TftpClient) (rest : List UInt8) (received : List (List UInt8))
    (s : State) : List (List UInt8) × State :=
  match answer received with
  | none => ([], s)
  | some block =>
    let s' := main.step sys s (ackRound client rest block)
    (sentOn client.sock (newCalls s s'), s')

/-- Some answers, one after the other. -/
def exchanges (sys : Sys) (client : TftpClient) (rest : ℕ → List UInt8)
    (received : List (List UInt8)) (s : State) : ℕ → List (List UInt8) × State
  | 0 => (received, s)
  | n + 1 =>
    let r := exchanges sys client rest received s n
    exchange sys client (rest n) r.1 r.2

/-- The DATA packets that were sent on a socket. -/
def dataOn (sock : ℕ) (calls : List Call) : List (List UInt8) :=
  (sentOn sock calls).filter fun packet => be16At packet 0 = OP_DATA

/-- From some answer on, the peer has got the blocks of the file, in order, each once. -/
def Delivers (sys : Sys) (s s1 : State) (client : TftpClient) (rest : ℕ → List UInt8)
    (content : List UInt8) : Prop :=
  ∃ n, ∀ m ≥ n, dataOn client.sock
      (newCalls s (exchanges sys client rest (sentOn client.sock (newCalls s s1)) s1 m).2)
    = filePackets content client.blksize.toNat

/-! ## Packets

`packets content blksize lo hi` is used as an interval: it is empty, it has a first and a last
packet, and it can be cut in two. Nothing else about the list is needed below. -/

theorem packets_self (content : List UInt8) (blksize n : ℕ) : packets content blksize n n = [] := by
  simp [packets]

theorem packets_length (content : List UInt8) (blksize lo hi : ℕ) :
    (packets content blksize lo hi).length = hi - lo := by
  simp [packets]

theorem packets_append (content : List UInt8) (blksize : ℕ) {lo mid hi : ℕ} (h : lo ≤ mid)
    (h' : mid ≤ hi) :
    packets content blksize lo mid ++ packets content blksize mid hi
      = packets content blksize lo hi := by
  obtain ⟨a, rfl⟩ := Nat.exists_eq_add_of_le h
  obtain ⟨b, rfl⟩ := Nat.exists_eq_add_of_le h'
  have hlo : lo + a - lo = a := by omega
  have hmid : lo + a + b - (lo + a) = b := by omega
  have hhi : lo + a + b - lo = a + b := by omega
  have hrange : List.range' lo (a + b) = List.range' lo a ++ List.range' (lo + a) b := by
    simp [List.range'_append_1]
  rw [packets, packets, packets, hlo, hmid, hhi, hrange, List.map_append]

theorem packets_cons (content : List UInt8) (blksize : ℕ) {lo hi : ℕ} (h : lo < hi) :
    packets content blksize lo hi
      = dataPacket (UInt16.ofNat (lo + 1)) (chunk content blksize lo) ::
        packets content blksize (lo + 1) hi := by
  rw [← packets_append content blksize (Nat.le_succ lo) h]
  simp [packets]

theorem packets_concat (content : List UInt8) (blksize : ℕ) {lo hi : ℕ} (h : lo ≤ hi) :
    packets content blksize lo (hi + 1)
      = packets content blksize lo hi ++ [dataPacket (UInt16.ofNat (hi + 1)) (chunk content blksize hi)] := by
  rw [← packets_append content blksize h (Nat.le_succ hi)]
  simp [packets]

theorem dataPacket_opcode (block : UInt16) (payload : List UInt8) :
    be16At (dataPacket block payload) 0 = OP_DATA := be16At_zero ..

theorem dataPacket_block (block : UInt16) (payload : List UInt8) :
    be16At (dataPacket block payload) 2 = block := be16At_two ..

theorem packets_data (content : List UInt8) (blksize lo hi : ℕ) :
    ∀ packet ∈ packets content blksize lo hi, be16At packet 0 = OP_DATA := by
  intro packet hp
  obtain ⟨i, -, rfl⟩ := List.mem_map.mp hp
  exact dataPacket_opcode ..

/-- The last block that came is acknowledged. -/
theorem answer_packets (content : List UInt8) (blksize : ℕ) {lo hi : ℕ} (h : lo < hi) :
    answer (packets content blksize lo hi) = some (UInt16.ofNat hi) := by
  obtain ⟨k, rfl⟩ := Nat.exists_eq_add_of_lt h
  have hne : OP_DATA ≠ OP_OACK := by decide
  rw [answer, packets_concat content blksize (Nat.le_add_right lo k), List.getLast?_concat]
  simp only [dataPacket_opcode, if_neg hne, if_true, dataPacket_block]

/-! ## Blocks of a file

Which blocks are empty decides how a transfer ends, since `tftp_send_data` does not send an empty
one. `fileBlocks` counts the others; it falls short of the blocks of the transfer by one, exactly
if the file is made of full blocks. -/

theorem chunk_eq_nil_iff (content : List UInt8) {blksize : ℕ} (h : 0 < blksize) (i : ℕ) :
    chunk content blksize i = [] ↔ content.length ≤ i * blksize := by
  rw [chunk, List.take_eq_nil_iff, List.drop_eq_nil_iff]
  exact ⟨fun h' => h'.resolve_left (Nat.ne_of_gt h), .inr⟩

/-- The number of blocks that are not empty. -/
def fileBlocks (content : List UInt8) (blksize : ℕ) : ℕ := (content.length + blksize - 1) / blksize

theorem lt_fileBlocks_iff (content : List UInt8) {blksize : ℕ} (h : 0 < blksize) (i : ℕ) :
    i < fileBlocks content blksize ↔ i * blksize < content.length := by
  rw [fileBlocks, ← Nat.succ_le_iff, Nat.le_div_iff_mul_le h, Nat.succ_mul]
  omega

/-- The last block is empty if the file is made of full blocks. -/
theorem fileBlocks_eq_iff (content : List UInt8) {blksize : ℕ} (h : 0 < blksize) :
    fileBlocks content blksize = content.length / blksize + 1 ↔ content.length % blksize ≠ 0 := by
  have hdiv := Nat.div_add_mod content.length blksize
  have hle := lt_fileBlocks_iff content h (content.length / blksize)
  have hlt := lt_fileBlocks_iff content h (content.length / blksize + 1)
  have hmod := Nat.mod_lt content.length h
  rw [Nat.mul_comm] at hdiv
  rw [Nat.succ_mul] at hlt
  omega

theorem fileBlocks_le (content : List UInt8) {blksize : ℕ} (h : 0 < blksize) :
    fileBlocks content blksize ≤ content.length / blksize + 1 := by
  have hdiv := Nat.div_add_mod content.length blksize
  have hlt := lt_fileBlocks_iff content h (content.length / blksize + 1)
  have hmod := Nat.mod_lt content.length h
  rw [Nat.mul_comm] at hdiv
  rw [Nat.succ_mul] at hlt
  omega

theorem chunks_flatten (content : List UInt8) (blksize n : ℕ) :
    ((List.range n).map (chunk content blksize)).flatten = content.take (n * blksize) := by
  induction n with
  | zero => simp
  | succ n ih =>
    rw [List.range_succ, List.map_append, List.flatten_append, ih, Nat.succ_mul, List.take_add]
    simp [chunk]

/-- The blocks of a transfer are the file, and the last one is short. -/
theorem file_chunks (content : List UInt8) {blksize : ℕ} (h : 0 < blksize) :
    ((List.range (content.length / blksize + 1)).map (chunk content blksize)).flatten = content ∧
      (chunk content blksize (content.length / blksize)).length < blksize := by
  have hdiv := Nat.div_add_mod content.length blksize
  have hmod := Nat.mod_lt content.length h
  rw [Nat.mul_comm] at hdiv
  constructor
  · rw [chunks_flatten, List.take_of_length_le]
    rw [Nat.succ_mul]
    omega
  · rw [chunk, List.length_take, List.length_drop]
    omega

/-! ## The send loop

The loop counts blocks in a `uint16_t` up to a bound of type `size_t`. As long as the bound can be
reached, the loop sends the blocks below it; a larger one is never reached, since the counter
starts again behind 65535, and then the model runs out of fuel. -/

/-- The bound of the send loop: `last + wsize`, as a `size_t`. -/
def windowEnd (client : TftpClient) (last : UInt16) : ℕ := (last.toUInt64 + client.wsize).toNat

theorem windowEnd_of_small (client : TftpClient) (last : UInt16) (hw : client.wsize.toNat < 2 ^ 63) :
    windowEnd client last = last.toNat + client.wsize.toNat := by
  have hlast := last.toNat_lt
  rw [windowEnd, UInt64.toNat_add, UInt16.toNat_toUInt64, Nat.mod_eq_of_lt (by omega)]

theorem ofNat_lt_window (client : TftpClient) (last : UInt16) {i : ℕ} (hi : i ≤ 65535) :
    (UInt16.ofNat i).toUInt64 < last.toUInt64 + client.wsize ↔ i < windowEnd client last := by
  rw [UInt64.lt_iff_toNat_lt, UInt16.toNat_toUInt64,
    UInt16.toNat_ofNat_of_lt' (by rw [UInt16.size]; omega), windowEnd]

section Loop

variable (sys : Sys) {client : TftpClient} {content : List UInt8}
  (hmalloc : ∀ t size, sys.malloc t size = true)
  (hpread : ∀ t count offset, sys.pread t client.fd count offset
    = some ((content.drop offset.toNat).take count.toNat))
  (hsend : ∀ t data, sys.send t client.sock data = (data.length : ℤ))
  (hblk : 0 < client.blksize.toNat) (hblk' : client.blksize.toNat < 2 ^ 31)

/-- The calls that send some packets. -/
def sends (sock : ℕ) (data : List (List UInt8)) : List Call := data.map (Call.send sock)

theorem sentOn_sends (sock : ℕ) (data : List (List UInt8)) : sentOn sock (sends sock data) = data := by
  induction data with
  | nil => rfl
  | cons packet data ih =>
    simp only [sentOn, sends] at ih
    simp [sentOn, sends, ih]

include hmalloc hpread hsend hblk hblk' in
/-- One block: an empty one is not sent. -/
theorem send_chunk (s : State) {i : ℕ} (hi : i ≤ 65535) :
    ∃ t, tftp_send_data sys s client ((UInt16.ofNat i).toUInt32 + 1)
        ((UInt16.ofNat i).toUInt64 * client.blksize)
      = some (if content.length ≤ i * client.blksize.toNat then (0, s.did [] t)
        else (((dataPacket (UInt16.ofNat (i + 1)) (chunk content client.blksize.toNat i)).length : ℤ),
          s.did [.send client.sock
            (dataPacket (UInt16.ofNat (i + 1)) (chunk content client.blksize.toNat i))] t)) := by
  have hsize : ¬ 4 + client.blksize < 4 := by
    rw [UInt64.lt_iff_toNat_lt, UInt64.toNat_add]
    have h4 : UInt64.toNat 4 = 4 := rfl
    omega
  have hindex : (UInt16.ofNat i).toUInt64.toNat = i := by
    rw [UInt16.toNat_toUInt64, UInt16.toNat_ofNat_of_lt' (by rw [UInt16.size]; omega)]
  -- 65535 blocks of less than `2 ^ 31` bytes have offsets of 64 bits
  have hoffset : ((UInt16.ofNat i).toUInt64 * client.blksize).toNat = i * client.blksize.toNat := by
    rw [UInt64.toNat_mul, hindex, Nat.mod_eq_of_lt]
    have hle : i * client.blksize.toNat ≤ 65535 * 2 ^ 31 := Nat.mul_le_mul hi (Nat.le_of_lt hblk')
    omega
  -- on the wire a block is numbered from 1 on
  have hblock : ((UInt16.ofNat i).toUInt32 + 1).toUInt16 = UInt16.ofNat (i + 1) := by
    apply UInt16.toNat_inj.mp
    rw [UInt32.toNat_toUInt16, UInt32.toNat_add, UInt16.toNat_toUInt32,
      UInt16.toNat_ofNat_of_lt' (by rw [UInt16.size]; omega), UInt16.toNat_ofNat']
    have h1 : UInt32.toNat 1 = 1 := rfl
    omega
  have htake : ((content.drop (i * client.blksize.toNat)).take client.blksize.toNat).take
      client.blksize.toNat = chunk content client.blksize.toNat i := by
    rw [List.take_take, Nat.min_self, chunk]
  simp only [tftp_send_data, hmalloc, hsize, Bool.true_eq_false, or_self, if_false, hpread, hoffset,
    htake, chunk_eq_nil_iff content hblk, hblock]
  split
  · refine ⟨2, ?_⟩
    simp [State.did, State.tick]
  · refine ⟨3, ?_⟩
    have hpos : ∀ data : List UInt8, ¬ ((data.length : ℤ) < 0) := fun data => by omega
    simp only [send, hsend, hpos, if_false]
    simp [State.did, State.tick, dataPacket]

theorem ofNat_succ (i : ℕ) : UInt16.ofNat i + 1 = UInt16.ofNat (i + 1) := by
  rw [UInt16.ofNat_add]
  rfl

include hmalloc hpread hsend hblk hblk' in
/-- A window that ends before the block numbers do is sent up to its end, or that of the file. -/
theorem loop_sends {last : UInt16} {e : ℕ} (he : e ≤ 65535) (hwindow : e ≤ windowEnd client last)
    (hfile : ∀ i < e, i * client.blksize.toNat < content.length)
    (hend : e = windowEnd client last ∨ content.length ≤ e * client.blksize.toNat)
    (fuel k : ℕ) (hk : k ≤ e) (hfuel : e - k < fuel) (s : State) :
    ∃ t, handle_reader.loop sys client last fuel (UInt16.ofNat k) s
      = some (s.did (sends client.sock (packets content client.blksize.toNat k e)) t) := by
  induction fuel generalizing k s with
  | zero => omega
  | succ fuel ih =>
    obtain ⟨t, hchunk⟩ :=
      send_chunk sys hmalloc hpread hsend hblk hblk' s (Nat.le_trans hk he)
    rw [handle_reader.loop]
    simp only [ofNat_lt_window client last (Nat.le_trans hk he), hchunk, Option.bind_eq_bind, Option.bind_some]
    rcases Nat.lt_or_ge k e with hlt | hge
    · -- a block of the window
      have hsent : ¬ (((dataPacket (UInt16.ofNat (k + 1))
          (chunk content client.blksize.toNat k)).length : ℤ) ≤ 0) := by
        simp only [dataPacket, be16, List.length_append, List.length_cons]
        omega
      rw [if_pos (by omega), if_neg (Nat.not_le.mpr (hfile k hlt)), ofNat_succ]
      simp only [hsent, if_false]
      obtain ⟨t', hrest⟩ := ih (k + 1) hlt (by omega) (s.did [.send client.sock
        (dataPacket (UInt16.ofNat (k + 1)) (chunk content client.blksize.toNat k))] t)
      refine ⟨t + t', ?_⟩
      rw [hrest, State.did_did, packets_cons content client.blksize.toNat hlt]
      rfl
    · -- its end, or that of the file
      have hke : k = e := Nat.le_antisymm hk hge
      subst hke
      rw [packets_self]
      by_cases hin : k < windowEnd client last
      · have hover : content.length ≤ k * client.blksize.toNat := hend.resolve_left (by omega)
        rw [if_pos hin, if_pos hover]
        exact ⟨t, rfl⟩
      · rw [if_neg hin]
        exact ⟨0, by simp [State.did, sends]⟩

include hmalloc hpread hsend hblk hblk' in
/-- Any other window does not end: behind the last block number comes the first one. -/
theorem loop_diverges {last : UInt16} (hwindow : 65536 ≤ windowEnd client last)
    (hfile : 65535 * client.blksize.toNat < content.length) (fuel : ℕ) (block : UInt16) (s : State) :
    handle_reader.loop sys client last fuel block s = none := by
  induction fuel generalizing block s with
  | zero => rfl
  | succ fuel ih =>
    have hblock : block.toNat ≤ 65535 := Nat.le_of_lt_succ block.toNat_lt
    have hinside : block.toNat * client.blksize.toNat < content.length :=
      Nat.lt_of_le_of_lt (Nat.mul_le_mul_right _ hblock) hfile
    obtain ⟨t, hchunk⟩ := send_chunk sys hmalloc hpread hsend hblk hblk' s hblock
    have hlt := ofNat_lt_window client last hblock
    rw [UInt16.ofNat_toNat] at hchunk hlt
    have hsent : ¬ (((dataPacket (UInt16.ofNat (block.toNat + 1))
        (chunk content client.blksize.toNat block.toNat)).length : ℤ) ≤ 0) := by
      simp only [dataPacket, be16, List.length_append, List.length_cons]
      omega
    rw [handle_reader.loop]
    simp only [hlt, hchunk, Option.bind_eq_bind, Option.bind_some]
    rw [if_pos (by omega), if_neg (Nat.not_le.mpr hinside)]
    simp only [hsent, if_false, ih]

/-! ## An acknowledgement

The server from the receipt of an ACK to the end of the round: it is one run of the send loop,
from the block that is acknowledged. A loop that does not end is a round that does not end. -/

omit client in
theorem handle_reader_ack (client : TftpClient) (s : State) (block : UInt16) (rest : List UInt8) :
    handle_reader sys s client (.data client.sq (ackPacket block) rest)
      = (handle_reader.loop sys client block sys.fuel block s).map fun s => (1, s) := by
  have htake : (ackPacket block).take 128 = ackPacket block := rfl
  have hop : be16At (ackPacket block ++ rest) 0 = OP_ACK := be16At_zero ..
  have hblock : be16At (ackPacket block ++ rest) 2 = block := be16At_two ..
  have herror : OP_ACK ≠ OP_ERROR := by decide
  simp only [handle_reader, htake, hop, hblock, ne_eq, not_true_eq_false, if_false, herror]

theorem step_ack {server : ℕ} {s s' : State} (hs : Books server s) (hrun : s.status = .running)
    (hclient : client ∈ s.readers) {block : UInt16} (rest : List UInt8)
    (hloop : handle_reader.loop sys client block sys.fuel block s = some s') :
    main.step sys s (ackRound client rest block) = s' := by
  obtain ⟨before, after, hreaders⟩ := List.append_of_mem hclient
  have hhandle := handle_reader_ack sys client s block rest
  rw [hloop] at hhandle
  have hround := round_reader sys hs hreaders hhandle
  rw [if_neg (by decide)] at hround
  unfold main.step
  simp only [if_pos hrun, ackRound, hround]

/-- The server does not come back from a send loop that does not end. -/
theorem step_ack_diverges {server : ℕ} {s : State} (hs : Books server s) (hrun : s.status = .running)
    (hclient : client ∈ s.readers) {block : UInt16} (rest : List UInt8)
    (hloop : handle_reader.loop sys client block sys.fuel block s = none) :
    main.step sys s (ackRound client rest block) = { s with status := .crashed } := by
  obtain ⟨before, after, hreaders⟩ := List.append_of_mem hclient
  have hhandle := handle_reader_ack sys client s block rest
  rw [hloop] at hhandle
  unfold main.step
  simp only [if_pos hrun, ackRound, round_reader_stuck sys hs hreaders hhandle]

/-! ## Answer after answer

The induction over the answers of the peer. `Reading` is the invariant: the blocks up to some `m`
have been sent, each once, and the answer to the last of them is on its way unless the transfer
has stopped. It stops for good when there is no window, when the block numbers are used up, or at
the end of the file. -/

variable {server : ℕ} {s0 s1 : State}

/-- Where the transfer stands after `n` answers. The peer waits for nothing more, or the server
for the next answer. -/
structure Reading (client : TftpClient) (content : List UInt8) (s0 s1 : State) (m0 n m : ℕ)
    (received : List (List UInt8)) (s : State) : Prop where
  sent : dataOn client.sock (newCalls s0 s) = packets content client.blksize.toNat 0 m
  inFile : m ≤ fileBlocks content client.blksize.toNat
  numbered : m ≤ 65535
  waits : (answer received = some (UInt16.ofNat m) ∧ ∃ calls t, s = s1.did calls t) ∨
    (answer received = none ∧ (client.wsize.toNat = 0 ∨
      65535 < fileBlocks content client.blksize.toNat ∨ m = fileBlocks content client.blksize.toNat))
  progress : (client.wsize.toNat = 0 ∧ m = m0) ∨ (0 < client.wsize.toNat ∧
    (65535 < fileBlocks content client.blksize.toNat ∨
      min n (fileBlocks content client.blksize.toNat) ≤ m))

omit sys content in
theorem dataOn_append (sock : ℕ) (calls calls' : List Call) :
    dataOn sock (calls ++ calls') = dataOn sock calls ++ dataOn sock calls' := by
  rw [dataOn, sentOn, List.filterMap_append, List.filter_append]
  rfl

omit sys in
theorem dataOn_packets (blksize lo hi : ℕ) :
    dataOn client.sock (sends client.sock (packets content blksize lo hi))
      = packets content blksize lo hi := by
  rw [dataOn, sentOn_sends, List.filter_eq_self]
  intro packet hp
  exact decide_eq_true (packets_data _ _ _ _ packet hp)

omit sys client content in
theorem newCalls_did {s0 s : State} (h : s0.calls <+: s.calls) (calls : List Call) (t : ℕ) :
    newCalls s0 (s.did calls t) = newCalls s0 s ++ calls := by
  obtain ⟨before, hbefore⟩ := h
  rw [newCalls, newCalls, State.did]
  simp only
  rw [← hbefore, List.append_assoc, List.drop_left, List.drop_left]

/-- A window further, or up to the end of the file. -/
theorem window_progress {w n m m0 blocks : ℕ} (hin : m ≤ blocks)
    (h : (w = 0 ∧ m = m0) ∨ (0 < w ∧ (65535 < blocks ∨ min n blocks ≤ m))) :
    (w = 0 ∧ min (m + w) blocks = m0) ∨
      (0 < w ∧ (65535 < blocks ∨ min (n + 1) blocks ≤ min (m + w) blocks)) := by
  omega

include hmalloc hpread hsend hblk hblk' in
theorem exchange_reading (hw : client.wsize.toNat ≤ 65535) (hfuel : 65536 ≤ sys.fuel)
    (hs1 : Books server s1) (hrun : s1.status = .running) (hclient : client ∈ s1.readers)
    (hcalls : s0.calls <+: s1.calls) (rest : List UInt8) {m0 n m : ℕ} {received : List (List UInt8)}
    {s : State} (h : Reading client content s0 s1 m0 n m received s) :
    ∃ m', Reading client content s0 s1 m0 (n + 1) m' (exchange sys client rest received s).1
      (exchange sys client rest received s).2 := by
  have hnil : answer [] = none := rfl
  obtain ⟨hsent, hin, hnum, ⟨hanswer, calls, t, rfl⟩ | ⟨hanswer, hover⟩, hprogress⟩ := h
  swap
  · -- nothing came, and nothing is answered
    rw [exchange, hanswer]
    exact ⟨m, hsent, hin, hnum, .inr ⟨hnil, hover⟩, by omega⟩
  have hbooks : Books server (s1.did calls t) := did_books hs1 calls t
  have hlong : s0.calls <+: (s1.did calls t).calls := hcalls.trans (List.prefix_append _ _)
  have hlast : (UInt16.ofNat m).toNat = m :=
    UInt16.toNat_ofNat_of_lt' (by rw [UInt16.size]; omega)
  have hbound : windowEnd client (UInt16.ofNat m) = m + client.wsize.toNat := by
    rw [windowEnd_of_small client _ (by omega), hlast]
  have hfileIff := lt_fileBlocks_iff content hblk
  simp only [exchange, hanswer]
  by_cases hwrap : 0 < client.wsize.toNat ∧ 65535 < fileBlocks content client.blksize.toNat ∧
      65536 ≤ m + client.wsize.toNat
  · -- the window reaches the end of the block numbers
    obtain ⟨hpos, hlarge, hwindow⟩ := hwrap
    rw [← hbound] at hwindow
    have hloop := loop_diverges sys hmalloc hpread hsend hblk hblk' hwindow
      ((hfileIff 65535).mp hlarge) sys.fuel (UInt16.ofNat m) (s1.did calls t)
    rw [step_ack_diverges sys hbooks hrun hclient rest hloop]
    have hnew : newCalls (s1.did calls t) { s1.did calls t with status := .crashed } = [] :=
      List.drop_length
    rw [hnew]
    exact ⟨m, hsent, hin, hnum, .inr ⟨rfl, .inr (.inl hlarge)⟩, by omega⟩
  · -- the blocks of the window are sent, up to the end of the file
    obtain ⟨e, he⟩ : ∃ e, e = min (m + client.wsize.toNat) (fileBlocks content client.blksize.toNat) :=
      ⟨_, rfl⟩
    have hle : e ≤ 65535 := by omega
    have hme : m ≤ e := by omega
    have hinside : ∀ i < e, i * client.blksize.toNat < content.length := by
      intro i hi
      exact (hfileIff i).mp (by omega)
    have hend : e = windowEnd client (UInt16.ofNat m) ∨
        content.length ≤ e * client.blksize.toNat := by
      have hat := hfileIff e
      omega
    obtain ⟨t', hloop⟩ := loop_sends sys hmalloc hpread hsend hblk hblk' hle
      (by omega) hinside hend sys.fuel m hme (by omega) (s1.did calls t)
    rw [step_ack sys hbooks hrun hclient rest hloop, newCalls_did (List.prefix_refl _)]
    have hself : newCalls (s1.did calls t) (s1.did calls t) = [] := List.drop_length
    rw [hself, List.nil_append, sentOn_sends]
    refine ⟨e, ?_, ?_, hle, ?_, ?_⟩
    · rw [newCalls_did hlong, dataOn_append, hsent, dataOn_packets,
        packets_append content _ (Nat.zero_le m) hme]
    · rw [he]
      exact Nat.min_le_right _ _
    · rcases Nat.lt_or_ge m e with hlt | hge
      · exact .inl ⟨answer_packets content _ hlt, _, _, State.did_did ..⟩
      · have hsame : m = e := Nat.le_antisymm hme hge
        rw [← hsame, packets_self]
        exact .inr ⟨rfl, by omega⟩
    · rw [he]
      exact window_progress hin hprogress

include hmalloc hpread hsend hblk hblk' in
theorem exchanges_reading (hw : client.wsize.toNat ≤ 65535) (hfuel : 65536 ≤ sys.fuel)
    (hs1 : Books server s1) (hrun : s1.status = .running) (hclient : client ∈ s1.readers)
    (hcalls : s0.calls <+: s1.calls) (rest : ℕ → List UInt8) {m0 : ℕ} {received : List (List UInt8)}
    (h : Reading client content s0 s1 m0 0 m0 received s1) (n : ℕ) :
    ∃ m, Reading client content s0 s1 m0 n m (exchanges sys client rest received s1 n).1
      (exchanges sys client rest received s1 n).2 := by
  induction n with
  | zero => exact ⟨m0, h⟩
  | succ n ih =>
    obtain ⟨m, hm⟩ := ih
    exact exchange_reading sys hmalloc hpread hsend hblk hblk' hw hfuel hs1 hrun hclient hcalls
      (rest n) hm

omit sys client in
theorem packets_eq_iff (blksize m n : ℕ) :
    packets content blksize 0 m = packets content blksize 0 n ↔ m = n := by
  refine ⟨fun h => ?_, fun h => by rw [h]⟩
  have hlen := congrArg List.length h
  rwa [packets_length, packets_length, Nat.sub_zero, Nat.sub_zero] at hlen

include hmalloc hpread hsend hblk hblk' in
/-- The transfer is complete if the window is there to send the blocks, and they can be numbered, or
everything was sent at the start; and if the last block is not empty. -/
theorem delivers_iff (hw : client.wsize.toNat ≤ 65535) (hfuel : 65536 ≤ sys.fuel)
    (hs1 : Books server s1) (hrun : s1.status = .running) (hclient : client ∈ s1.readers)
    (hcalls : s0.calls <+: s1.calls) (rest : ℕ → List UInt8) {m0 : ℕ}
    (h : Reading client content s0 s1 m0 0 m0 (sentOn client.sock (newCalls s0 s1)) s1) :
    Delivers sys s0 s1 client rest content ↔
      (client.wsize.toNat = 0 ∧ m0 = content.length / client.blksize.toNat + 1) ∨
      (0 < client.wsize.toNat ∧ content.length % client.blksize.toNat ≠ 0 ∧
        content.length ≤ 65535 * client.blksize.toNat) := by
  have hreading := exchanges_reading sys hmalloc hpread hsend hblk hblk' hw hfuel hs1 hrun hclient
    hcalls rest h
  have hblocks := fileBlocks_eq_iff content hblk
  have hlarge := lt_fileBlocks_iff content hblk 65535
  have hbound := fileBlocks_le content hblk
  constructor
  · rintro ⟨n, hn⟩
    -- after so many answers nothing more is to come
    obtain ⟨m, hm⟩ := hreading (n + fileBlocks content client.blksize.toNat)
    have hall := hn (n + fileBlocks content client.blksize.toNat) (Nat.le_add_right ..)
    rw [hm.sent, filePackets, packets_eq_iff] at hall
    obtain ⟨-, hin, hnum, -, hprogress⟩ := hm
    omega
  · intro hcond
    refine ⟨fileBlocks content client.blksize.toNat, fun n hn => ?_⟩
    obtain ⟨m, hm⟩ := hreading n
    rw [hm.sent, filePackets, packets_eq_iff]
    obtain ⟨-, hin, hnum, -, hprogress⟩ := hm
    omega

end Loop

/-! ## The request

Where the induction starts: at the state in which `handle_rrq` leaves a transfer. With options the
peer has got an OACK, and without them the first block, if it is not empty. -/

/-- The numbers of the options are what `atoi` makes of them. -/
theorem atoi_range (str : List UInt8) : -2 ^ 31 ≤ atoi str ∧ atoi str < 2 ^ 31 := by
  simp only [atoi, signed]
  omega

theorem size_t_toNat {v : ℤ} (hlo : -2 ^ 31 ≤ v) (hhi : v < 2 ^ 31)
    (hpos : 0 < signed 64 (size_t v).toNat) : (size_t v).toNat = v.toNat ∧ 0 < v := by
  have hsize : ((size_t v).toNat : ℤ) = v % 2 ^ 64 := by
    rw [size_t, UInt64.toNat_ofNat']
    omega
  rw [hsize, signed] at hpos
  omega

theorem options_blksize (mem : List UInt8) (len rounds p : ℕ) {o o' : RrqOptions}
    (h : handle_rrq.options mem len rounds p o = some o')
    (ho : ∃ v, -2 ^ 31 ≤ v ∧ v < 2 ^ 31 ∧ o.blksize = size_t v) :
    ∃ v, -2 ^ 31 ≤ v ∧ v < 2 ^ 31 ∧ o'.blksize = size_t v := by
  induction rounds generalizing p o with
  | zero =>
    cases h
    exact ho
  | succ rounds ih =>
    rw [handle_rrq.options] at h
    split at h
    · obtain ⟨opt, -, h⟩ := Option.bind_eq_some_iff.mp h
      obtain ⟨value, -, h⟩ := Option.bind_eq_some_iff.mp h
      refine ih _ h ?_
      unfold RrqOptions.set
      split
      · exact ⟨_, (atoi_range value).1, (atoi_range value).2, rfl⟩
      · split_ifs <;> exact ho
    · cases h
      exact ho

theorem parse_options {mem : List UInt8} {len : ℕ} {filename : List UInt8} {do_oack : Bool}
    {o : RrqOptions} (h : handle_rrq.parse mem len = some (some (filename, do_oack, o))) :
    ∃ p rounds, do_oack = decide (p < len) ∧ handle_rrq.options mem len rounds p {} = some o := by
  unfold handle_rrq.parse at h
  obtain ⟨name, -, h⟩ := Option.bind_eq_some_iff.mp h
  obtain ⟨mode, -, h⟩ := Option.bind_eq_some_iff.mp h
  split at h
  · obtain ⟨o', ho, h⟩ := Option.bind_eq_some_iff.mp h
    cases h
    exact ⟨_, _, rfl, ho⟩
  · cases h

/-- A request without options has the defaults. -/
theorem parse_defaults {mem : List UInt8} {len : ℕ} {filename : List UInt8} {o : RrqOptions}
    (h : handle_rrq.parse mem len = some (some (filename, false, o))) : o = {} := by
  obtain ⟨p, rounds, hoack, hoptions⟩ := parse_options h
  cases rounds with
  | zero =>
    cases hoptions
    rfl
  | succ rounds =>
    rw [handle_rrq.options, if_neg (of_decide_eq_false hoack.symm)] at hoptions
    cases hoptions
    rfl

theorem parse_blksize {mem : List UInt8} {len : ℕ} {filename : List UInt8} {do_oack : Bool}
    {o : RrqOptions} (h : handle_rrq.parse mem len = some (some (filename, do_oack, o)))
    (hpos : 0 < signed 64 o.blksize.toNat) : 0 < o.blksize.toNat ∧ o.blksize.toNat < 2 ^ 31 := by
  obtain ⟨p, rounds, -, hoptions⟩ := parse_options h
  obtain ⟨v, hlo, hhi, hv⟩ := options_blksize _ _ _ _ hoptions ⟨512, by decide, by decide, rfl⟩
  rw [hv] at hpos ⊢
  obtain ⟨hnat, hv⟩ := size_t_toNat hlo hhi hpos
  rw [hnat]
  omega

/-- A transfer that was added to the readers is that of a read request that was granted. -/
theorem receive_granted (sys : Sys) {s s' : State} {sq : SockaddrQrtr} {data rest : List UInt8}
    {client : TftpClient} (h : receive sys s (.data sq data rest) = some s')
    (hclient : s'.readers = s.readers ++ [client]) :
    ∃ (filename : List UInt8) (do_oack : Bool) (o : RrqOptions) (s1 : State) (file : Opening),
      handle_rrq.parse (data.take 4096 ++ rest) (data.take 4096).length
        = some (some (filename, do_oack, o)) ∧
      s1.status = s.status ∧ s1.readers = s.readers ∧
      s1.calls = s.calls ++ [Call.connect client.sock sq, Call.open_ client.fd file] ∧
      client = ⟨sq, client.sock, client.fd, o.blksize, o.rsize, o.wsize, o.timeoutms⟩ ∧
      handle_rrq.begin sys s1 sq client.sock client.fd do_oack o = some s' := by
  have hadded : ¬ s'.readers.length ≤ s.readers.length := by
    rw [hclient, List.length_append, List.length_singleton]
    omega
  rcases receive_cases sys h with ⟨hreaders, -⟩ |
    ⟨sq', data', rest', filename, do_oack, o, sock, fd, s1, file, hrecv, hparse, hopens, hcalls, hbegin⟩ |
    ⟨sq', filename', fd, sock, s1, file, -, hopens, -, hbegin⟩
  · exact absurd (Nat.le_of_eq (congrArg List.length hreaders)) hadded
  · cases hrecv
    have hreaders := (handle_rrq_begin_adds sys hbegin).same.1
    simp only [hopens.same.1] at hreaders
    rw [hclient] at hreaders
    obtain ⟨-, hone⟩ := List.append_inj' hreaders rfl
    cases hone
    exact ⟨filename, do_oack, o, s1, file, hparse, hopens.status, hopens.same.1, hcalls, rfl, hbegin⟩
  · have hreaders : s'.readers = s.readers := by
      rcases handle_wrq_begin_adds sys hbegin with ⟨hadds, -⟩ | ⟨s2, hworks, rfl⟩
      · have hreaders := hadds.same.1
        simp only [hopens.same.1] at hreaders
        exact hreaders
      · exact (hopens.same.trans hworks.same).1
    exact absurd (Nat.le_of_eq (congrArg List.length hreaders)) hadded

/-- The same for a run that ends with the request. -/
theorem run_granted (sys : Sys) (rounds : List Round) {sq : SockaddrQrtr} {data rest : List UInt8}
    {client : TftpClient}
    (hclient : (main.run sys (rounds ++ [.ready (fun _ => none) (some (.data sq data rest))])).readers
      = (main.run sys rounds).readers ++ [client]) :
    (main.run sys rounds).status = .running ∧ ∃ filename do_oack o s1 file,
      handle_rrq.parse (data.take 4096 ++ rest) (data.take 4096).length
        = some (some (filename, do_oack, o)) ∧
      s1.status = (main.run sys rounds).status ∧ s1.readers = (main.run sys rounds).readers ∧
      s1.calls = (main.run sys rounds).calls ++ [Call.connect client.sock sq, Call.open_ client.fd file] ∧
      client = ⟨sq, client.sock, client.fd, o.blksize, o.rsize, o.wsize, o.timeoutms⟩ ∧
      handle_rrq.begin sys s1 sq client.sock client.fd do_oack o
        = some (main.run sys (rounds ++ [.ready (fun _ => none) (some (.data sq data rest))])) := by
  have hlonger : (main.run sys rounds).readers ≠ (main.run sys rounds).readers ++ [client] := by
    intro hsame
    have hlen := congrArg List.length hsame
    simp at hlen
  rw [main_run_append] at hclient ⊢
  unfold main.step at hclient ⊢
  split at hclient
  swap
  · exact absurd hclient hlonger
  rename_i hrun
  simp only [if_pos hrun, main_round_server] at hclient ⊢
  cases hreceive : receive sys (main.run sys rounds) (.data sq data rest) with
  | none =>
    rw [hreceive] at hclient
    exact absurd hclient hlonger
  | some s' =>
    rw [hreceive] at hclient
    exact ⟨hrun, receive_granted sys hreceive hclient⟩

theorem oack_opcode (tail : List UInt8) : be16At (be16 OP_OACK ++ tail) 0 = OP_OACK :=
  be16_halves OP_OACK

section Begin

variable (sys : Sys) {client : TftpClient} {content : List UInt8}
  (hmalloc : ∀ t size, sys.malloc t size = true)
  (hpread : ∀ t count offset, sys.pread t client.fd count offset
    = some ((content.drop offset.toNat).take count.toNat))
  (hsend : ∀ t data, sys.send t client.sock data = (data.length : ℤ))
  (hblk : 0 < client.blksize.toNat) (hblk' : client.blksize.toNat < 2 ^ 31)

include hsend in
theorem tftp_send_oack_calls (s : State) (blocksize tsize wsize timeoutms rsize : Option ℤ) :
    ∃ tail, (tftp_send_oack sys s client.sock blocksize tsize wsize timeoutms rsize).2.calls
      = s.calls ++ [.send client.sock (be16 OP_OACK ++ tail)] := by
  have hpos : ∀ data : List UInt8, ¬ ((data.length : ℤ) < 0) := fun data => by omega
  simp only [tftp_send_oack, send, hsend, hpos, if_false, List.append_assoc]
  exact ⟨_, rfl⟩

include hsend in
/-- With options, an OACK is sent. -/
theorem begin_oack {s s' : State} {sq : SockaddrQrtr} {o : RrqOptions}
    (h : handle_rrq.begin sys s sq client.sock client.fd true o = some s') :
    ∃ tail, s'.calls = s.calls ++ [.send client.sock (be16 OP_OACK ++ tail)] := by
  unfold handle_rrq.begin at h
  simp only at h
  generalize hs1 : (if o.tsize ≠ -1 then s.tick else s) = s1 at h
  have hcalls : s1.calls = s.calls := by
    rw [← hs1]
    split <;> rfl
  split at h
  swap
  · cases h
  rw [if_pos trivial] at h
  cases h
  rw [← hcalls]
  exact tftp_send_oack_calls sys hsend ..

include hmalloc hpread hsend hblk hblk' in
/-- Without, the first block, if it is not empty. -/
theorem begin_data {s s' : State} {o : RrqOptions}
    (hclient : client = ⟨client.sq, client.sock, client.fd, o.blksize, o.rsize, o.wsize, o.timeoutms⟩)
    (h : handle_rrq.begin sys s client.sq client.sock client.fd false o = some s') :
    s'.calls = s.calls ++ sends client.sock (packets content client.blksize.toNat 0
      (min 1 (fileBlocks content client.blksize.toNat))) := by
  unfold handle_rrq.begin at h
  simp only at h
  generalize hs1 : (if o.tsize ≠ -1 then s.tick else s) = s1 at h
  have hcalls : s1.calls = s.calls := by
    rw [← hs1]
    split <;> rfl
  rw [if_pos (hmalloc _ _), if_neg (by decide), ← hclient] at h
  obtain ⟨r, hr, rfl⟩ := Option.map_eq_some_iff.mp h
  obtain ⟨t, hchunk⟩ := send_chunk sys hmalloc hpread hsend hblk hblk'
    { s1.tick with readers := s1.readers ++ [client] } (Nat.zero_le 65535)
  have hblock : (UInt16.ofNat 0).toUInt32 + 1 = 1 := rfl
  have hoffset : (UInt16.ofNat 0).toUInt64 * client.blksize = 0 := UInt64.zero_mul
  rw [hblock, hoffset, hr, Option.some.injEq] at hchunk
  have hempty := lt_fileBlocks_iff content hblk 0
  by_cases hlen : content.length ≤ 0 * client.blksize.toNat
  · have hnone : min 1 (fileBlocks content client.blksize.toNat) = 0 := by omega
    rw [if_pos hlen] at hchunk
    rw [hchunk, hnone, packets_self]
    simp [State.did, State.tick, hcalls, sends]
  · have hone : min 1 (fileBlocks content client.blksize.toNat) = 1 := by omega
    rw [if_neg hlen] at hchunk
    rw [hchunk, hone]
    simp [State.did, State.tick, hcalls, sends, packets]

include hmalloc hpread hsend hblk hblk' in
/-- Where a transfer stands after its request. -/
theorem begin_reading {s s1 s' : State} {file : Opening} {do_oack : Bool} {o : RrqOptions}
    (hopened : s1.calls = s.calls ++ [.connect client.sock client.sq, .open_ client.fd file])
    (hclient : client = ⟨client.sq, client.sock, client.fd, o.blksize, o.rsize, o.wsize, o.timeoutms⟩)
    (hdefaults : do_oack = false → o = {})
    (h : handle_rrq.begin sys s1 client.sq client.sock client.fd do_oack o = some s') :
    s.calls <+: s'.calls ∧
    Reading client content s s' (if do_oack then 0 else min 1 (fileBlocks content client.blksize.toNat)) 0
      (if do_oack then 0 else min 1 (fileBlocks content client.blksize.toNat))
      (sentOn client.sock (newCalls s s')) s' := by
  have hself : ∃ calls t, s' = s'.did calls t := ⟨[], 0, by simp [State.did]⟩
  -- after an OACK no block has been sent yet, without one the first block goes out at once
  cases do_oack with
  | true =>
    obtain ⟨tail, hcalls⟩ := begin_oack sys hsend h
    rw [hopened, List.append_assoc] at hcalls
    have hsent : sentOn client.sock (newCalls s s') = [be16 OP_OACK ++ tail] := by
      rw [newCalls_of_append hcalls]
      simp [sentOn]
    have hdata : ¬ be16At (be16 OP_OACK ++ tail) 0 = OP_DATA := by
      rw [oack_opcode]
      decide
    refine ⟨⟨_, hcalls.symm⟩, ?_, Nat.zero_le _, Nat.zero_le _, .inl ⟨?_, hself⟩, ?_⟩
    · rw [dataOn, hsent, List.filter_singleton, if_pos rfl, packets_self, decide_eq_false hdata]
      rfl
    · rw [hsent, answer, List.getLast?_singleton]
      simp only [oack_opcode, if_true]
      rfl
    · rcases Nat.eq_zero_or_pos client.wsize.toNat with hw | hw
      · exact .inl ⟨hw, rfl⟩
      · exact .inr ⟨hw, .inr (by simp)⟩
  | false =>
    have hcalls := begin_data sys hmalloc hpread hsend hblk hblk' hclient h
    rw [hopened, List.append_assoc] at hcalls
    -- a request without options has the default window, which is none
    have hw : client.wsize = 0 := by
      rw [hclient, hdefaults rfl]
    have hw' : client.wsize.toNat = 0 := by
      rw [hw]
      rfl
    generalize hm : min 1 (fileBlocks content client.blksize.toNat) = m at hcalls
    have hsent : sentOn client.sock (newCalls s s') = packets content client.blksize.toNat 0 m := by
      rw [newCalls_of_append hcalls]
      have hsends := sentOn_sends client.sock (packets content client.blksize.toNat 0 m)
      simp only [sentOn] at hsends
      simp [sentOn, hsends]
    simp only [Bool.false_eq_true, if_false]
    refine ⟨⟨_, hcalls.symm⟩, ?_, by omega, by omega, ?_, .inl ⟨hw', rfl⟩⟩
    · rw [dataOn, hsent, List.filter_eq_self]
      intro packet hp
      exact decide_eq_true (packets_data _ _ _ _ packet hp)
    · rw [hsent]
      rcases Nat.eq_zero_or_pos m with hzero | hpos
      · rw [hzero, packets_self]
        exact .inr ⟨rfl, .inl hw'⟩
      · exact .inl ⟨answer_packets content _ hpos, hself⟩

/-- A reader right after its request, with what was sent for that: the transfer is at its start, and
`m0` blocks have gone out. -/
structure Begun (sys : Sys) (client : TftpClient) (content : List UInt8) (m0 : ℕ) (s s1 : State) :
    Prop where
  blksize_pos : 0 < client.blksize.toNat
  blksize_lt : client.blksize.toNat < 2 ^ 31
  books : Books (serverSock sys) s1
  running : s1.status = .running
  mem : client ∈ s1.readers
  calls : s.calls <+: s1.calls
  reading : Reading client content s s1 m0 0 m0 (sentOn client.sock (newCalls s s1)) s1

include hmalloc hpread hsend in
/-- A read request that was granted begins a transfer, without options one in blocks of 512 bytes
and without a window. -/
theorem run_begun (rounds : List Round) (hrun : (main.run sys rounds).status = .running)
    {sq : SockaddrQrtr} {data rest : List UInt8}
    (hclient : (main.run sys (rounds ++ [.ready (fun _ => none) (some (.data sq data rest))])).readers
      = (main.run sys rounds).readers ++ [client])
    {filename : List UInt8} {do_oack : Bool} {o : RrqOptions}
    (hparse : handle_rrq.parse (data.take 4096 ++ rest) (data.take 4096).length
      = some (some (filename, do_oack, o)))
    (hblksize : 0 < signed 64 client.blksize.toNat) :
    Begun sys client content
        (if do_oack then 0 else min 1 (fileBlocks content client.blksize.toNat))
        (main.run sys rounds)
        (main.run sys (rounds ++ [.ready (fun _ => none) (some (.data sq data rest))])) ∧
      (do_oack = false → client.blksize.toNat = 512 ∧ client.wsize.toNat = 0) := by
  -- the reader is the one of this request, so its fields are what was parsed
  obtain ⟨-, filename', do_oack', o', s', file, hparse', hstatus, -, hopened, hfields, hbegin⟩ :=
    run_granted sys rounds hclient
  rw [hparse] at hparse'
  cases hparse'
  generalize hs1 : main.run sys (rounds ++ [.ready (fun _ => none) (some (.data sq data rest))]) = s1
    at hclient hbegin ⊢
  have hadds := handle_rrq_begin_adds sys hbegin
  have hrunning : s1.status = .running := hadds.status.trans (hstatus.trans hrun)
  have hbooks : Books (serverSock sys) s1 := by
    rw [← hs1] at hrunning ⊢
    exact main_run_books sys _ hrunning
  have hmem : client ∈ s1.readers := by
    rw [hclient]
    exact List.mem_append_right _ List.mem_cons_self
  have hsq : client.sq = sq := by rw [hfields]
  have hblk : client.blksize = o.blksize := by rw [hfields]
  have hw : client.wsize = o.wsize := by rw [hfields]
  rw [← hsq] at hfields hopened hbegin
  have hdefaults : do_oack = false → o = {} := by
    rintro rfl
    exact parse_defaults hparse
  rw [hblk] at hblksize
  obtain ⟨hpos, hlt⟩ := parse_blksize hparse hblksize
  rw [← hblk] at hpos hlt
  -- what was sent on the request is the start of the transfer
  obtain ⟨hcalls, hreading⟩ := begin_reading sys hmalloc hpread hsend hpos hlt hopened hfields
    hdefaults hbegin
  refine ⟨⟨hpos, hlt, hbooks, hrunning, hmem, hcalls, hreading⟩, ?_⟩
  intro hno
  rw [hblk, hw, hdefaults hno]
  exact ⟨rfl, rfl⟩

include hmalloc hpread hsend in
/-- What a read request that was granted delivers, with the number of blocks that are sent before
the first answer. -/
theorem run_delivers (rounds : List Round) (hrun : (main.run sys rounds).status = .running)
    {sq : SockaddrQrtr} {data rest : List UInt8}
    (hclient : (main.run sys (rounds ++ [.ready (fun _ => none) (some (.data sq data rest))])).readers
      = (main.run sys rounds).readers ++ [client])
    {filename : List UInt8} {do_oack : Bool} {o : RrqOptions}
    (hparse : handle_rrq.parse (data.take 4096 ++ rest) (data.take 4096).length
      = some (some (filename, do_oack, o)))
    (hblksize : 0 < signed 64 client.blksize.toNat) (hwsize : client.wsize.toNat ≤ 65535)
    (hfuel : 65536 ≤ sys.fuel) (behind : ℕ → List UInt8) :
    0 < client.blksize.toNat ∧
    (do_oack = false → client.blksize.toNat = 512 ∧ client.wsize.toNat = 0) ∧
    (Delivers sys (main.run sys rounds)
        (main.run sys (rounds ++ [.ready (fun _ => none) (some (.data sq data rest))])) client behind
        content ↔
      (client.wsize.toNat = 0 ∧ (if do_oack then 0 else min 1 (fileBlocks content client.blksize.toNat))
        = content.length / client.blksize.toNat + 1) ∨
      (0 < client.wsize.toNat ∧ content.length % client.blksize.toNat ≠ 0 ∧
        content.length ≤ 65535 * client.blksize.toNat)) := by
  obtain ⟨h, hdefaults⟩ := run_begun sys hmalloc hpread hsend rounds hrun hclient hparse hblksize
  refine ⟨h.blksize_pos, hdefaults, ?_⟩
  exact delivers_iff sys hmalloc hpread hsend h.blksize_pos h.blksize_lt hwsize hfuel h.books h.running
    h.mem h.calls behind h.reading

end Begin

/-- A file is delivered exactly if it is shorter than one block and not empty, or, with options, if
there is a window, the last block is not empty, and the blocks can be numbered. -/
theorem read_delivers_iff (sys : Sys) (rounds : List Round)
    (hrun : (main.run sys rounds).status = .running) (sq : SockaddrQrtr) (data rest : List UInt8)
    (client : TftpClient)
    (hclient : (main.run sys (rounds ++ [.ready (fun _ => none) (some (.data sq data rest))])).readers
      = (main.run sys rounds).readers ++ [client])
    (filename : List UInt8) (do_oack : Bool) (o : RrqOptions)
    (hparse : handle_rrq.parse (data.take 4096 ++ rest) (data.take 4096).length
      = some (some (filename, do_oack, o)))
    (hblksize : 0 < signed 64 client.blksize.toNat) (hwsize : client.wsize.toNat ≤ 65535)
    (content : List UInt8) (hmalloc : ∀ t size, sys.malloc t size = true)
    (hpread : ∀ t count offset, sys.pread t client.fd count offset
      = some ((content.drop offset.toNat).take count.toNat))
    (hsend : ∀ t packet, sys.send t client.sock packet = (packet.length : ℤ))
    (hfuel : 65536 ≤ sys.fuel) (behind : ℕ → List UInt8) :
    Delivers sys (main.run sys rounds)
        (main.run sys (rounds ++ [.ready (fun _ => none) (some (.data sq data rest))])) client behind
        content ↔
      if do_oack then 0 < client.wsize.toNat ∧ content.length % client.blksize.toNat ≠ 0 ∧
        content.length ≤ 65535 * client.blksize.toNat
      else 0 < content.length ∧ content.length < 512 := by
  obtain ⟨hpos, hdefaults, hdelivers⟩ :=
    run_delivers sys hmalloc hpread hsend rounds hrun hclient hparse hblksize hwsize hfuel behind
  rw [hdelivers]
  cases do_oack with
  | true =>
    rw [if_pos rfl, if_pos rfl]
    exact ⟨fun h => h.resolve_left fun h' => Nat.succ_ne_zero _ h'.2.symm, .inr⟩
  | false =>
    -- the defaults: blocks of 512 bytes, and no window
    obtain ⟨h512, hzero⟩ := hdefaults rfl
    have hblocks := fileBlocks_eq_iff content hpos
    have hfirst := lt_fileBlocks_iff content hpos 0
    rw [h512] at hblocks hfirst ⊢
    simp only [Bool.false_eq_true, if_false]
    omega

/-- A system on which every file has this content. -/
def serving (content : List UInt8) : Sys :=
  { obliging with pread := fun _ _ count offset => some ((content.drop offset.toNat).take count.toNat) }

/-- A read request with options. -/
def readRequest (options : List UInt8) : List UInt8 :=
  be16 OP_RRQ ++ ascii "/readwrite/log" ++ [0] ++ ascii "octet" ++ [0] ++ options

/-- Blocks of two bytes, one at a time. -/
def twoByTwo : List UInt8 :=
  ascii "blksize" ++ [0] ++ ascii "2" ++ [0] ++ ascii "wsize" ++ [0] ++ ascii "1" ++ [0]

/-- The server after a read request. -/
def asked (content options : List UInt8) : State :=
  main.run (serving content)
    ([] ++ [.ready (fun _ => none) (some (.data ⟨5, 7⟩ (readRequest options) []))])

/-- Three bytes in blocks of two are delivered. -/
theorem read_delivers_three :
    Delivers (serving [1, 2, 3]) (main.run (serving [1, 2, 3]) []) (asked [1, 2, 3] twoByTwo)
      ⟨⟨5, 7⟩, 4, 5, 2, 0, 1, 1000⟩ (fun _ => []) [1, 2, 3] :=
  (read_delivers_iff (serving [1, 2, 3]) [] (by decide +kernel) ⟨5, 7⟩ (readRequest twoByTwo) []
    ⟨⟨5, 7⟩, 4, 5, 2, 0, 1, 1000⟩ (by decide +kernel) (ascii "/readwrite/log") true
    { blksize := 2, wsize := 1 } (by decide +kernel) (by decide) (by decide) [1, 2, 3] (fun _ _ => rfl)
    (fun _ _ _ => rfl) (fun _ _ => rfl) (by decide) (fun _ => [])).mpr (by decide)

theorem asked_delivers {content options : List UInt8} {client : TftpClient} {do_oack : Bool}
    {o : RrqOptions}
    (hparse : handle_rrq.parse ((readRequest options).take 4096 ++ [])
      ((readRequest options).take 4096).length = some (some (ascii "/readwrite/log", do_oack, o)))
    (hclient : (asked content options).readers = (main.run (serving content) []).readers ++ [client])
    (hblksize : 0 < signed 64 client.blksize.toNat) (hwsize : client.wsize.toNat ≤ 65535) :
    Delivers (serving content) (main.run (serving content) []) (asked content options) client
        (fun _ => []) content ↔
      (client.wsize.toNat = 0 ∧ (if do_oack then 0 else min 1 (fileBlocks content client.blksize.toNat))
        = content.length / client.blksize.toNat + 1) ∨
      (0 < client.wsize.toNat ∧ content.length % client.blksize.toNat ≠ 0 ∧
        content.length ≤ 65535 * client.blksize.toNat) :=
  (run_delivers (serving content) (fun _ _ => rfl) (fun _ _ _ => rfl) (fun _ _ => rfl) [] rfl hclient
    hparse hblksize hwsize (Nat.le_refl _) fun _ => []).2.2

/-- The block that ends a file of full blocks does not come, only one block comes without
options, and the last of 65536 blocks does not come: the first ones come again and again. -/
theorem not_read_delivers :
    ¬ Delivers (serving [1, 2]) (main.run (serving [1, 2]) []) (asked [1, 2] twoByTwo)
      ⟨⟨5, 7⟩, 4, 5, 2, 0, 1, 1000⟩ (fun _ => []) [1, 2] ∧
    ¬ Delivers (serving (List.replicate 513 7)) (main.run (serving (List.replicate 513 7)) [])
      (asked (List.replicate 513 7) []) ⟨⟨5, 7⟩, 4, 5, 512, 0, 0, 1000⟩ (fun _ => [])
      (List.replicate 513 7) ∧
    ¬ Delivers (serving (List.replicate 131071 7)) (main.run (serving (List.replicate 131071 7)) [])
      (asked (List.replicate 131071 7) twoByTwo) ⟨⟨5, 7⟩, 4, 5, 2, 0, 1, 1000⟩ (fun _ => [])
      (List.replicate 131071 7) := by
  have hplain : handle_rrq.parse ((readRequest []).take 4096 ++ []) ((readRequest []).take 4096).length
      = some (some (ascii "/readwrite/log", false, {})) := by
    decide +kernel
  have htwo : handle_rrq.parse ((readRequest twoByTwo).take 4096 ++ [])
      ((readRequest twoByTwo).take 4096).length
      = some (some (ascii "/readwrite/log", true, { blksize := 2, wsize := 1 })) := by
    decide +kernel
  refine ⟨?_, ?_, ?_⟩
  · rw [asked_delivers htwo (by decide +kernel) (by decide) (by decide)]
    decide
  · rw [asked_delivers hplain (by decide +kernel) (by decide) (by decide), List.length_replicate]
    rintro (⟨-, h⟩ | ⟨h, -⟩)
    · have htwice : 513 / UInt64.toNat 512 + 1 = 2 := by decide
      rw [if_neg (by decide), htwice] at h
      omega
    · exact absurd h (by decide)
  · rw [asked_delivers htwo (by decide +kernel) (by decide) (by decide), List.length_replicate]
    decide

end Dragonboard.Tqftpserv
