/-
What a write transfer leaves in its file.

The peer sends its blocks in order, each again as often as it likes until it sends the next, and
the block that is shorter than 512 bytes once, at the end. Every block that is received is
written where the descriptor stands, also one that was written before, and the file is opened
without `O_TRUNC`. So the file holds what was sent exactly if no block came twice and the file
was not longer before (`write_stores_iff`).

The calls of the server are read as what they do to the files (`Call.apply`).
-/
import Dragonboard.PosixFile
import Dragonboard.TqftpservFds

set_option autoImplicit false

namespace Dragonboard.Tqftpserv

open Dragonboard.Ns Dragonboard.Qrtr Dragonboard.Translate Dragonboard.PosixFile

/-! ## Calls and files

What the recorded calls do to the files, as the system would. -/

/-- `O_TRUNC`. -/
def O_TRUNC : UInt32 := 0o1000

/-- What a call does to the files. -/
def Call.apply (d : Disk (List (List UInt8))) : Call → Disk (List (List UInt8))
  | .open_ fd file => d.open_ fd file.file (file.flags &&& O_TRUNC ≠ 0)
  | .connect _ _ => d
  | .send _ _ => d
  | .write fd bytes => d.write fd bytes
  | .close fd => d.close fd

/-- The calls between two states. -/
def newCalls (s s' : State) : List Call := s'.calls.drop s.calls.length

theorem newCalls_of_append {s s' : State} {calls : List Call} (h : s'.calls = s.calls ++ calls) :
    newCalls s s' = calls := by
  rw [newCalls, h, List.drop_left]

/-- The files are opened as they are. -/
theorem translate_open_keeps {os : Os} {path : List UInt8} {file : Opening}
    (h : translate_open os path (O_WRONLY ||| O_CREAT) = some file) : file.flags &&& O_TRUNC = 0 := by
  unfold translate_open at h
  split at h
  · have hflags : file.flags = O_RDONLY := by
      unfold translate_readonly at h
      split at h
      · cases h
      · obtain ⟨de, -, hbody⟩ := List.exists_of_findSome?_eq_some h
        unfold translate_readonly.body at hbody
        split at hbody
        · cases hbody
        split at hbody
        · split at hbody
          · cases hbody
            rfl
          · cases hbody
        · cases hbody
    rw [hflags]
    decide
  split at h
  · unfold translate_readwrite at h
    split at h
    · cases h
      have hflags : (O_WRONLY ||| O_CREAT) &&& O_TRUNC = 0 := by decide
      exact hflags
    · cases h
  · cases h

/-! ## The transfer

An upload as its peer sees it: blocks in order, any of them more than once, a short one at the
end. -/

/-- A DATA packet. -/
def dataPacket (block : UInt16) (payload : List UInt8) : List UInt8 :=
  be16 OP_DATA ++ be16 block ++ payload

/-- An ACK packet. -/
def ackPacket (block : UInt16) : List UInt8 := be16 OP_ACK ++ be16 block

/-- The round in which a block is received, with what memory holds behind the packet. -/
def blockRound (client : TftpClient) (rest : List UInt8) (block : UInt16 × List UInt8) : Round :=
  .ready (only client.sock (.data client.sq (dataPacket block.1 block.2) rest)) none

/-- The blocks as they are received, numbered from `n` on: each payload once and as many times
again as the peer sends it. -/
def arrivals (n : ℕ) : List (List UInt8 × ℕ) → List (UInt16 × List UInt8)
  | [] => []
  | (payload, again) :: blocks =>
    List.replicate (again + 1) (UInt16.ofNat n, payload) ++ arrivals (n + 1) blocks

/-- All blocks as they are received, with the one that ends the transfer. -/
def transfer (blocks : List (List UInt8 × ℕ)) (last : List UInt8) : List (UInt16 × List UInt8) :=
  arrivals 1 blocks ++ [(UInt16.ofNat (blocks.length + 1), last)]

/-- What the peer sent. -/
def sentBytes (blocks : List (List UInt8 × ℕ)) (last : List UInt8) : List UInt8 :=
  (blocks.map (·.1)).flatten ++ last

/-- The packets that are sent on a socket. -/
def sentOn (sock : ℕ) (calls : List Call) : List (List UInt8) :=
  calls.filterMap fun
    | .send s data => if s = sock then some data else none
    | _ => none

/-- The transfer is over, the file holds what was sent, and every block that was received was
acknowledged with its number. -/
structure Stores (disk : Disk (List (List UInt8))) (s s' : State) (client : TftpClient)
    (path : List (List UInt8)) (blocks : List (List UInt8 × ℕ)) (last : List UInt8) : Prop where
  done : client ∉ s'.clients
  content : ((newCalls s s').foldl Call.apply disk).files path = some (sentBytes blocks last)
  acks : sentOn client.sock (newCalls s s')
    = ackPacket 0 :: (transfer blocks last).map fun block => ackPacket block.1

/-! ## What is received of a packet

A DATA packet in the receive buffer, taken apart again. -/

theorem be16_halves (a : UInt16) : (a >>> 8).toUInt8.toUInt16 <<< 8 ||| a.toUInt8.toUInt16 = a := by
  apply UInt16.toBitVec_inj.mp
  ext i hi
  simp only [UInt16.toBitVec_or, UInt16.toBitVec_shiftLeft, UInt8.toBitVec_toUInt16,
    UInt16.toBitVec_toUInt8, UInt16.toBitVec_shiftRight]
  by_cases h : i < 8
  · simp [h, BitVec.getLsbD_eq_getElem hi]
  · have hback : 8 + (i - 8) = i := by omega
    have hlt : i - 8 < 8 := by omega
    simp [h, hback, hlt, BitVec.getLsbD_eq_getElem hi]

theorem be16At_zero (a b : UInt16) (rest : List UInt8) : be16At (be16 a ++ be16 b ++ rest) 0 = a :=
  be16_halves a

theorem be16At_two (a b : UInt16) (rest : List UInt8) : be16At (be16 a ++ be16 b ++ rest) 2 = b :=
  be16_halves b

/-! ## One block

A block is appended and acknowledged. Its number is put into the ACK, and otherwise not looked at.
-/

/-- Some calls were made, and nothing else. -/
def State.did (s : State) (calls : List Call) (time : ℕ) : State :=
  { s with calls := s.calls ++ calls, time := s.time + time }

theorem State.did_did (s : State) (calls calls' : List Call) (time time' : ℕ) :
    (s.did calls time).did calls' time' = s.did (calls ++ calls') (time + time') := by
  simp [State.did, Nat.add_assoc]

theorem did_books {server : ℕ} {s : State} (h : Books server s) (calls : List Call) (time : ℕ) :
    Books server (s.did calls time) := by
  have haccounts : Accounts server s (s.did calls time) := .of_eq rfl rfl
  exact (haccounts h).1

section Transfer

variable (sys : Sys) {server : ℕ} {client : TftpClient}
  (hwrite : ∀ t bytes, sys.write t client.fd bytes = (bytes.length : ℤ))
  (hsend : ∀ t data, 0 ≤ sys.send t client.sock data)

/-- The calls for one block. -/
def blockCalls (client : TftpClient) (block : UInt16 × List UInt8) : List Call :=
  [.write client.fd block.2, .send client.sock (ackPacket block.1)]

include hwrite hsend in
theorem handle_writer_block (s : State) (block : UInt16) {payload : List UInt8}
    (hlen : payload.length ≤ 512) (rest : List UInt8) :
    handle_writer sys s client (.data client.sq (dataPacket block payload) rest)
      = some (if payload.length = 512 then 1 else 0, s.did (blockCalls client (block, payload)) 2) := by
  have htake : (dataPacket block payload).take 516 = dataPacket block payload := by
    apply List.take_of_length_le
    simp only [dataPacket, be16, List.length_append, List.length_cons, List.length_nil]
    omega
  have hop : be16At (dataPacket block payload ++ rest) 0 = OP_DATA := by
    rw [dataPacket, List.append_assoc]
    exact be16At_zero ..
  have hblock : be16At (dataPacket block payload ++ rest) 2 = block := by
    rw [dataPacket, List.append_assoc]
    exact be16At_two ..
  have hlong : ¬ (dataPacket block payload).length < 4 := by
    simp only [dataPacket, be16, List.length_append, List.length_cons, List.length_nil]
    omega
  have hpayload : (dataPacket block payload).drop 4 = payload := rfl
  have hstored : ¬ sys.write s.time client.fd payload < 0 := by
    rw [hwrite]
    omega
  have hacked : ∀ t data, ¬ sys.send t client.sock data < 0 := fun t data => by
    have hnonneg := hsend t data
    omega
  simp only [handle_writer, htake, ne_eq, not_true_eq_false, if_false, hop, hlong, hpayload, hstored,
    hblock, tftp_send_ack, send, hacked]
  simp only [State.did, State.tick, blockCalls, ackPacket, List.append_assoc, List.cons_append,
    List.nil_append]

include hwrite hsend in
/-- A block of full size is written and acknowledged. -/
theorem step_block {s : State} (hs : Books server s) (hrun : s.status = .running)
    (hclient : client ∈ s.writers) {block : UInt16 × List UInt8} (hfull : block.2.length = 512)
    (rest : List UInt8) :
    main.step sys s (blockRound client rest block) = s.did (blockCalls client block) 2 := by
  obtain ⟨before, after, hwriters⟩ := List.append_of_mem hclient
  have hhandle := handle_writer_block sys hwrite hsend s block.1 (Nat.le_of_eq hfull) rest
  rw [if_pos hfull] at hhandle
  have hround := round_writer sys hs hwriters hhandle
  rw [if_neg (by decide)] at hround
  unfold main.step
  simp only [if_pos hrun, blockRound, hround]

include hwrite hsend in
/-- A shorter one ends the transfer. -/
theorem step_last {s : State} (hs : Books server s) (hrun : s.status = .running)
    {before after : List TftpClient} (hwriters : s.writers = before ++ client :: after)
    {block : UInt16 × List UInt8} (hshort : block.2.length < 512) (rest : List UInt8) :
    main.step sys s (blockRound client rest block) =
      { client_close_and_free (s.did (blockCalls client block) 2) client with
        writers := before ++ after } := by
  have hhandle := handle_writer_block sys hwrite hsend s block.1 (Nat.le_of_lt hshort) rest
  rw [if_neg (Nat.ne_of_lt hshort)] at hhandle
  have hround := round_writer sys hs hwriters hhandle
  rw [if_pos (by decide)] at hround
  unfold main.step
  simp only [if_pos hrun, blockRound, hround]

include hwrite hsend in
theorem run_blocks {s : State} (hs : Books server s) (hrun : s.status = .running)
    (hclient : client ∈ s.writers) (blocks : List (UInt16 × List UInt8))
    (hfull : ∀ block ∈ blocks, block.2.length = 512) (rest : ℕ → List UInt8) :
    (blocks.mapIdx fun i => blockRound client (rest i)).foldl (main.step sys) s
      = s.did (blocks.flatMap (blockCalls client)) (2 * blocks.length) := by
  induction blocks generalizing s rest with
  | nil => simp [State.did]
  | cons block blocks ih =>
    rw [List.mapIdx_cons, List.foldl_cons,
      step_block sys hwrite hsend hs hrun hclient (hfull block List.mem_cons_self) (rest 0),
      ih (did_books hs _ _) hrun hclient (fun b hb => hfull b (List.mem_cons_of_mem _ hb))
        (fun i => rest (i + 1)),
      State.did_did, List.flatMap_cons, List.length_cons]
    congr 1
    omega

end Transfer

/-! ## The request

A write request adds a writer if it is granted its file and its socket. -/

theorem control_readers (s : State) (sq : SockaddrQrtr) (buf : List UInt8) :
    (control s sq buf).readers = s.readers ∧ (control s sq buf).writers.length ≤ s.writers.length := by
  have hdrop : ∀ test : TftpClient → Bool, (drop_writers s test).readers = s.readers ∧
      (drop_writers s test).writers.length ≤ s.writers.length := by
    intro test
    obtain ⟨hreaders, hwriters, -⟩ := drop_writers_spec s test
    rw [hwriters]
    exact ⟨hreaders, List.length_filter_le ..⟩
  unfold control
  split
  · exact ⟨rfl, Nat.le_refl _⟩
  split
  · exact hdrop _
  split
  · exact hdrop _
  · exact ⟨rfl, Nat.le_refl _⟩

/-- The server socket adds no transfer, or begins one that was granted its descriptors. -/
theorem receive_cases (sys : Sys) {s s' : State} {recv : Recv} (h : receive sys s recv = some s') :
    (s'.readers = s.readers ∧ s'.writers.length ≤ s.writers.length) ∨
    (∃ sq data rest filename do_oack o sock fd s1 file, recv = .data sq data rest ∧
      handle_rrq.parse (data.take 4096 ++ rest) (data.take 4096).length
        = some (some (filename, do_oack, o)) ∧
      Opens [sock, fd] s s1 ∧ s1.calls = s.calls ++ [.connect sock sq, .open_ fd file] ∧
      handle_rrq.begin sys s1 sq sock fd do_oack o = some s') ∨
    ∃ sq filename fd sock s1 file,
      translate_open (sys.os s.time) filename (O_WRONLY ||| O_CREAT) = some file ∧
      Opens [fd, sock] s s1 ∧ s1.calls = s.calls ++ [.open_ fd file, .connect sock sq] ∧
      handle_wrq.begin sys s1 sq sock fd = some s' := by
  have hsame : Same s s' → s'.readers = s.readers ∧ s'.writers.length ≤ s.writers.length :=
    fun hsame => ⟨hsame.1, by rw [hsame.2]⟩
  cases recv with
  | error =>
    cases h
    exact .inl (hsame ⟨rfl, rfl⟩)
  | data sq data rest =>
    simp only [receive] at h
    split at h
    · cases h
      -- a control message takes writers away and adds nothing
      exact .inl (control_readers s sq _)
    split at h
    · cases h
      exact .inl (hsame (.refl s))
    split at h
    · rcases handle_rrq_cases sys s (data.take 4096 ++ rest) (data.take 4096).length sq with
        ⟨-, he⟩ | ⟨-, he⟩ | ⟨filename, do_oack, o, hparse, hcases⟩
      · rw [he] at h
        cases h
      · rw [he] at h
        cases h
        exact .inl (hsame (.refl s))
      rcases hcases with ⟨-, s1, he, hworks⟩ | ⟨-, sock, s1, he, hopens⟩ |
        ⟨-, sock, fd, s1, hopens, ⟨file, hcalls⟩, he⟩
      · rw [he] at h
        cases h
        exact .inl (hsame hworks.same)
      · rw [he] at h
        cases h
        exact .inl (hsame hopens.same)
      · rw [he] at h
        -- the reader is granted, and what it sends first is left to `handle_rrq.begin`
        exact .inr (.inl ⟨sq, data, rest, filename, do_oack, o, sock, fd, s1, file, rfl, hparse, hopens,
          hcalls, h⟩)
    split at h
    · rcases handle_wrq_cases sys s (data.take 4096 ++ rest) sq with
        ⟨-, he⟩ | ⟨-, he⟩ | ⟨filename, -, hcases⟩
      · rw [he] at h
        cases h
      · rw [he] at h
        cases h
        exact .inl (hsame (.refl s))
      rcases hcases with ⟨-, s1, he, hworks⟩ | ⟨-, fd, new, s1, he, hopens⟩ |
        ⟨-, fd, sock, s1, hopens, ⟨file, hfile, hcalls⟩, he⟩
      · rw [he] at h
        cases h
        exact .inl (hsame hworks.same)
      · rw [he] at h
        cases h
        exact .inl (hsame hopens.same)
      · rw [he] at h
        -- and the writer with its ACK
        exact .inr (.inr ⟨sq, filename, fd, sock, s1, file, hfile, hopens, hcalls, h⟩)
    · cases h
      exact .inl (hsame (.refl s))

/-- A transfer that was added to the writers is that of a write request that was granted. -/
theorem receive_accepts (sys : Sys) {s s' : State} {recv : Recv} {client : TftpClient}
    (h : receive sys s recv = some s') (hclient : s'.writers = s.writers ++ [client]) :
    ∃ file, file.flags &&& O_TRUNC = 0 ∧ s'.status = s.status ∧
      s'.calls = s.calls ++ [.open_ client.fd file, .connect client.sock client.sq,
        .send client.sock (ackPacket 0)] := by
  have hadded : ¬ s'.writers.length ≤ s.writers.length := by
    rw [hclient, List.length_append, List.length_singleton]
    omega
  rcases receive_cases sys h with ⟨-, hle⟩ | ⟨sq, _, _, _, do_oack, o, sock, fd, s1, file, -, -, hopens, -, hbegin⟩ |
    ⟨sq, filename, fd, sock, s1, file, hfile, hopens, hcalls, hbegin⟩
  · exact absurd hle hadded
  · have hwriters := (handle_rrq_begin_adds sys hbegin).same.2
    simp only [hopens.same.2] at hwriters
    exact absurd (Nat.le_of_eq (congrArg List.length hwriters)) hadded
  rcases handle_wrq_begin_adds sys hbegin with ⟨hadds, hsent⟩ | ⟨s2, hworks, rfl⟩
  · have hwriters := hadds.same.2
    simp only [hopens.same.2] at hwriters
    rw [hclient] at hwriters
    obtain ⟨-, hone⟩ := List.append_inj' hwriters rfl
    cases hone
    refine ⟨file, translate_open_keeps hfile, hadds.status.trans hopens.status, ?_⟩
    rw [hsent, hcalls, List.append_assoc]
    rfl
  · -- the first acknowledgement was refused
    have hwriters := (hopens.same.trans hworks.same).2
    exact absurd (Nat.le_of_eq (congrArg List.length hwriters)) hadded

/-! ## What the calls do to the file

Appended blocks are stored one behind the other, over what the file held before. -/

theorem apply_blocks (client : TftpClient) {d : Disk (List (List UInt8))} {path : List (List UInt8)}
    {offset : ℕ} {content : List UInt8} (h : d.Stands client.fd path offset content)
    (blocks : List (UInt16 × List UInt8)) :
    ((blocks.flatMap (blockCalls client)).foldl Call.apply d).Stands client.fd path
      (offset + (blocks.map (·.2)).flatten.length) (splice content offset (blocks.map (·.2)).flatten) := by
  induction blocks generalizing d offset content with
  | nil =>
    rw [List.map_nil, List.flatten_nil, splice_nil]
    exact h
  | cons block blocks ih =>
    rw [List.flatMap_cons, List.foldl_append]
    have hstep : ((blockCalls client block).foldl Call.apply d) = d.write client.fd block.2 := rfl
    have hrest := ih (h.write block.2)
    rw [splice_splice h.inside, Nat.add_assoc, ← List.length_append] at hrest
    rw [hstep, List.map_cons, List.flatten_cons]
    exact hrest

/-! ## What was received against what was sent

A block that came twice makes what was received longer. So lengths decide whether it is what was
sent. -/

theorem arrivals_full {n : ℕ} {blocks : List (List UInt8 × ℕ)}
    (hfull : ∀ block ∈ blocks, block.1.length = 512) :
    ∀ block ∈ arrivals n blocks, block.2.length = 512 := by
  induction blocks generalizing n with
  | nil => exact fun block hb => absurd hb List.not_mem_nil
  | cons head blocks ih =>
    obtain ⟨payload, again⟩ := head
    intro block hb
    rw [arrivals, List.mem_append] at hb
    rcases hb with hb | hb
    · rw [List.eq_of_mem_replicate hb]
      exact hfull _ List.mem_cons_self
    · exact ih (fun b hb => hfull b (List.mem_cons_of_mem _ hb)) block hb

/-- Every block that came again makes what was received longer by its size. -/
theorem arrivals_length {n : ℕ} {blocks : List (List UInt8 × ℕ)}
    (hfull : ∀ block ∈ blocks, block.1.length = 512) :
    ((arrivals n blocks).map (·.2)).flatten.length
      = (blocks.map (·.1)).flatten.length + 512 * (blocks.map (·.2)).sum := by
  induction blocks generalizing n with
  | nil => rfl
  | cons head blocks ih =>
    obtain ⟨payload, again⟩ := head
    have hlen : payload.length = 512 := hfull _ List.mem_cons_self
    have hrest := ih (n := n + 1) fun b hb => hfull b (List.mem_cons_of_mem _ hb)
    simp only [arrivals, List.map_append, List.map_replicate, List.flatten_append, List.length_append,
      List.map_cons, List.flatten_cons, List.sum_cons, hrest, List.length_flatten,
      List.sum_replicate_nat, hlen]
    omega

theorem arrivals_once {n : ℕ} {blocks : List (List UInt8 × ℕ)} (honce : ∀ block ∈ blocks, block.2 = 0) :
    (arrivals n blocks).map (·.2) = blocks.map (·.1) := by
  induction blocks generalizing n with
  | nil => rfl
  | cons head blocks ih =>
    obtain ⟨payload, again⟩ := head
    have hzero : again = 0 := honce _ List.mem_cons_self
    rw [arrivals, hzero, List.map_append, ih fun b hb => honce b (List.mem_cons_of_mem _ hb)]
    rfl

/-- What was received, with what is left of the file behind it, is what was sent. -/
theorem received_eq_sent_iff {blocks : List (List UInt8 × ℕ)}
    (hfull : ∀ block ∈ blocks, block.1.length = 512) (last old : List UInt8) :
    splice old 0 ((transfer blocks last).map (·.2)).flatten = sentBytes blocks last ↔
      (∀ block ∈ blocks, block.2 = 0) ∧ old.length ≤ (sentBytes blocks last).length := by
  have hreceived : ((transfer blocks last).map (·.2)).flatten
      = ((arrivals 1 blocks).map (·.2)).flatten ++ last := by
    simp [transfer]
  rw [splice_zero, hreceived]
  constructor
  · intro h
    have hlen := congrArg List.length h
    simp only [sentBytes, List.length_append, List.length_drop, arrivals_length hfull] at hlen
    have hsum : (blocks.map (·.2)).sum = 0 := by omega
    refine ⟨?_, ?_⟩
    · intro block hb
      exact List.sum_eq_zero_iff_forall_eq_nat.mp hsum _ (List.mem_map_of_mem hb)
    · simp only [sentBytes, List.length_append]
      omega
  · rintro ⟨honce, hold⟩
    rw [arrivals_once honce, ← sentBytes, List.drop_eq_nil_of_le hold, List.append_nil]

/-! ## What a transfer stores

The calls of a whole transfer, applied to the file as it was. -/

/-- The rounds of a transfer, with what memory holds behind each packet. -/
def transferRounds (client : TftpClient) (rest : ℕ → List UInt8) (blocks : List (List UInt8 × ℕ))
    (last : List UInt8) : List Round :=
  (transfer blocks last).mapIdx fun i => blockRound client (rest i)

/-- The calls of a transfer, from its request to its end. -/
def transferCalls (client : TftpClient) (file : Opening) (received : List (UInt16 × List UInt8)) :
    List Call :=
  [.open_ client.fd file, .connect client.sock client.sq, .send client.sock (ackPacket 0)] ++
    received.flatMap (blockCalls client) ++ [.close client.sock, .close client.fd]

theorem sentOn_blocks (client : TftpClient) (received : List (UInt16 × List UInt8)) :
    sentOn client.sock (received.flatMap (blockCalls client))
      = received.map fun block => ackPacket block.1 := by
  induction received with
  | nil => rfl
  | cons block received ih =>
    rw [List.flatMap_cons, sentOn, List.filterMap_append, List.map_cons, ← sentOn, ← sentOn, ih]
    simp [sentOn, blockCalls]

theorem sentOn_transfer (client : TftpClient) (file : Opening)
    (received : List (UInt16 × List UInt8)) :
    sentOn client.sock (transferCalls client file received)
      = ackPacket 0 :: received.map fun block => ackPacket block.1 := by
  have hblocks := sentOn_blocks client received
  simp only [sentOn] at hblocks
  simp [sentOn, transferCalls, hblocks]

theorem apply_transfer (client : TftpClient) {file : Opening} (hkeeps : file.flags &&& O_TRUNC = 0)
    (received : List (UInt16 × List UInt8)) (disk : Disk (List (List UInt8))) :
    ((transferCalls client file received).foldl Call.apply disk).files file.file
      = some (splice ((disk.files file.file).getD []) 0 (received.map (·.2)).flatten) := by
  have hopen : [Call.open_ client.fd file, .connect client.sock client.sq,
      .send client.sock (ackPacket 0)].foldl Call.apply disk = disk.open_ client.fd file.file false := by
    simp [Call.apply, hkeeps]
  have hstands := apply_blocks client (Disk.stands_open disk client.fd file.file) received
  rw [transferCalls, List.foldl_append, List.foldl_append, hopen]
  exact hstands.file

theorem step_accepts (sys : Sys) {s : State} (hrun : s.status = .running) {request : Recv}
    {client : TftpClient}
    (hclient : (main.step sys s (.ready (fun _ => none) (some request))).writers
      = s.writers ++ [client]) :
    ∃ file, file.flags &&& O_TRUNC = 0 ∧
      (main.step sys s (.ready (fun _ => none) (some request))).status = .running ∧
      (main.step sys s (.ready (fun _ => none) (some request))).calls = s.calls ++
        [.open_ client.fd file, .connect client.sock client.sq, .send client.sock (ackPacket 0)] := by
  unfold main.step at hclient ⊢
  simp only [if_pos hrun, main_round_server] at hclient ⊢
  cases hreceive : receive sys s request with
  | none =>
    -- a server that crashed has the writers it had
    rw [hreceive] at hclient
    have hlen := congrArg List.length hclient
    simp at hlen
  | some s' =>
    rw [hreceive] at hclient
    obtain ⟨file, hkeeps, hstatus, hcalls⟩ := receive_accepts sys hreceive hclient
    exact ⟨file, hkeeps, hstatus.trans hrun, hcalls⟩

/-- The calls of a whole transfer. -/
theorem run_transfer (sys : Sys) (rounds : List Round)
    (hrun : (main.run sys rounds).status = .running) {request : Recv} {client : TftpClient}
    (hclient : (main.run sys (rounds ++ [.ready (fun _ => none) (some request)])).writers
      = (main.run sys rounds).writers ++ [client])
    (hwrite : ∀ t bytes, sys.write t client.fd bytes = (bytes.length : ℤ))
    (hsend : ∀ t data, 0 ≤ sys.send t client.sock data)
    {blocks : List (List UInt8 × ℕ)} (hfull : ∀ block ∈ blocks, block.1.length = 512)
    {last : List UInt8} (hlast : last.length < 512) (rest : ℕ → List UInt8) {s' : State}
    (hs' : main.run sys (rounds ++ [.ready (fun _ => none) (some request)] ++
      transferRounds client rest blocks last) = s') :
    client ∉ s'.clients ∧ ∃ file, file.flags &&& O_TRUNC = 0 ∧
      newCalls (main.run sys rounds) s' = transferCalls client file (transfer blocks last) := by
  have haccepts := hclient
  rw [main_run_append] at haccepts
  obtain ⟨file, hkeeps, hrunning, hcalls⟩ := step_accepts sys hrun haccepts
  rw [← main_run_append] at hrunning hcalls
  have hbooks := main_run_books sys _ hrunning
  have hsplit : transferRounds client rest blocks last
      = ((arrivals 1 blocks).mapIdx fun i => blockRound client (rest i)) ++
        [blockRound client (rest (arrivals 1 blocks).length) (UInt16.ofNat (blocks.length + 1), last)] := by
    rw [transferRounds, transfer, List.mapIdx_concat]
  have hmem : client ∈ (main.run sys (rounds ++ [.ready (fun _ => none) (some request)])).writers := by
    rw [hclient]
    exact List.mem_append_right _ List.mem_cons_self
  rw [hsplit, main.run, List.foldl_append, ← main.run, List.foldl_append, List.foldl_cons,
    List.foldl_nil, run_blocks sys hwrite hsend hbooks hrunning hmem _ (arrivals_full hfull) rest,
    step_last sys hwrite hsend (did_books hbooks _ _) hrunning hclient hlast] at hs'
  subst hs'
  refine ⟨?_, file, hkeeps, ?_⟩
  · -- no transfer that is left has the socket of this one
    have hclients : (main.run sys (rounds ++ [.ready (fun _ => none) (some request)])).clients
        = ((main.run sys (rounds ++ [.ready (fun _ => none) (some request)])).readers ++
          (main.run sys rounds).writers) ++ client :: [] := by
      rw [State.clients, hclient, List.append_assoc]
    intro hleft
    rw [State.clients, ← List.append_assoc] at hleft
    exact hbooks.unique hclients client hleft rfl
  · apply newCalls_of_append
    simp only [client_close_and_free, State.close, State.did, hcalls]
    simp [transferCalls, transfer]

theorem transfer_stores_iff {s s' : State} {client : TftpClient} (hover : client ∉ s'.clients)
    {file : Opening} (hkeeps : file.flags &&& O_TRUNC = 0) {blocks : List (List UInt8 × ℕ)}
    (hfull : ∀ block ∈ blocks, block.1.length = 512) {last : List UInt8}
    (hcalls : newCalls s s' = transferCalls client file (transfer blocks last))
    (disk : Disk (List (List UInt8))) :
    Stores disk s s' client file.file blocks last ↔
      (∀ block ∈ blocks, block.2 = 0) ∧
        ((disk.files file.file).getD []).length ≤ (sentBytes blocks last).length := by
  have hcontent := apply_transfer client hkeeps (transfer blocks last) disk
  rw [← hcalls] at hcontent
  have hacks := sentOn_transfer client file (transfer blocks last)
  rw [← hcalls] at hacks
  rw [← received_eq_sent_iff hfull]
  constructor
  · intro hstores
    exact Option.some.inj (hcontent.symm.trans hstores.content)
  · intro hreceived
    exact ⟨hover, hcontent.trans (congrArg some hreceived), hacks⟩

theorem open_mem_transferCalls (client : TftpClient) (file : Opening)
    (received : List (UInt16 × List UInt8)) :
    .open_ client.fd file ∈ transferCalls client file received :=
  List.mem_append_left _ (List.mem_append_left _ List.mem_cons_self)

/-- The file holds what was sent exactly if no block came twice and the file was not longer
before. -/
theorem write_stores_iff (sys : Sys) (rounds : List Round)
    (hrun : (main.run sys rounds).status = .running) (request : Recv) (client : TftpClient)
    (hclient : (main.run sys (rounds ++ [.ready (fun _ => none) (some request)])).writers
      = (main.run sys rounds).writers ++ [client])
    (hwrite : ∀ t bytes, sys.write t client.fd bytes = (bytes.length : ℤ))
    (hsend : ∀ t data, 0 ≤ sys.send t client.sock data)
    (blocks : List (List UInt8 × ℕ)) (hfull : ∀ block ∈ blocks, block.1.length = 512)
    (last : List UInt8) (hlast : last.length < 512) (rest : ℕ → List UInt8)
    (disk : Disk (List (List UInt8))) :
    let s := main.run sys rounds
    let s' := main.run sys (rounds ++ [.ready (fun _ => none) (some request)] ++
      transferRounds client rest blocks last)
    ∃ file, .open_ client.fd file ∈ newCalls s s' ∧
      (Stores disk s s' client file.file blocks last ↔
        (∀ block ∈ blocks, block.2 = 0) ∧
          ((disk.files file.file).getD []).length ≤ (sentBytes blocks last).length) := by
  intro s s'
  obtain ⟨hover, file, hkeeps, hcalls⟩ :=
    run_transfer sys rounds hrun hclient hwrite hsend hfull hlast rest (rfl : _ = s')
  refine ⟨file, ?_, transfer_stores_iff hover hkeeps hfull hcalls disk⟩
  rw [hcalls]
  exact open_mem_transferCalls ..

/-- The writer of the request for the log. -/
def logWriter : TftpClient := ⟨⟨5, 7⟩, 5, 4, 0, 0, 0, 0⟩

/-- What the server does when the peer sends a file to the log. -/
def logTransfer (blocks : List (List UInt8 × ℕ)) (last : List UInt8) : State :=
  main.run obliging ([] ++ [logRequest ⟨5, 7⟩] ++ transferRounds logWriter (fun _ => []) blocks last)

/-- Every file has this content. -/
def everyFile (content : Option (List UInt8)) : Disk (List (List UInt8)) := ⟨fun _ => content, fun _ => none⟩

theorem full_block (byte : UInt8) (again : ℕ) :
    ∀ block ∈ [(List.replicate 512 byte, again)], block.1.length = 512 := by
  intro block hb
  rw [List.mem_singleton] at hb
  rw [hb]
  exact List.length_replicate

theorem log_accepted : (main.run obliging ([] ++ [logRequest ⟨5, 7⟩])).writers
    = (main.run obliging []).writers ++ [logWriter] := by
  decide +kernel

/-- A new file, and no block twice. -/
theorem write_stores_log : ∃ file,
    Stores (everyFile none) (main.run obliging []) (logTransfer [(List.replicate 512 1, 0)] [2]) logWriter
      file [(List.replicate 512 1, 0)] [2] := by
  obtain ⟨file, -, hstores⟩ := write_stores_iff obliging [] (by decide +kernel) _ logWriter
    log_accepted (fun _ _ => rfl) (fun _ _ => Int.natCast_nonneg _)
    [(List.replicate 512 1, 0)] (full_block 1 0) [2] (by decide) (fun _ => []) (everyFile none)
  refine ⟨file.file, hstores.mpr ⟨?_, Nat.zero_le _⟩⟩
  intro block hb
  rw [List.mem_singleton] at hb
  rw [hb]

theorem logTransfer_stores_iff (blocks : List (List UInt8 × ℕ))
    (hfull : ∀ block ∈ blocks, block.1.length = 512) (last : List UInt8) (hlast : last.length < 512)
    (content : Option (List UInt8)) :
    ∃ file, .open_ logWriter.fd file ∈ newCalls (main.run obliging []) (logTransfer blocks last) ∧
      (Stores (everyFile content) (main.run obliging []) (logTransfer blocks last) logWriter file.file
        blocks last ↔ (∀ block ∈ blocks, block.2 = 0) ∧
          (content.getD []).length ≤ (sentBytes blocks last).length) := by
  obtain ⟨hover, file, hkeeps, hcalls⟩ := run_transfer obliging [] (by decide +kernel)
    log_accepted (fun _ _ => rfl) (fun _ _ => Int.natCast_nonneg _) hfull hlast (fun _ => [])
    (rfl : _ = logTransfer blocks last)
  refine ⟨file, ?_, transfer_stores_iff hover hkeeps hfull hcalls (everyFile content)⟩
  rw [hcalls]
  exact open_mem_transferCalls ..

/-- A block that comes twice is stored twice, and what was longer stays longer. -/
theorem not_write_stores :
    (∃ file, .open_ logWriter.fd file
        ∈ newCalls (main.run obliging []) (logTransfer [(List.replicate 512 1, 1)] [2]) ∧
      ¬ Stores (everyFile none) (main.run obliging []) (logTransfer [(List.replicate 512 1, 1)] [2])
        logWriter file.file [(List.replicate 512 1, 1)] [2]) ∧
    ∃ file, .open_ logWriter.fd file ∈ newCalls (main.run obliging []) (logTransfer [] [2]) ∧
      ¬ Stores (everyFile (some [7, 8])) (main.run obliging []) (logTransfer [] [2]) logWriter
        file.file [] [2] := by
  constructor
  · obtain ⟨file, hopen, hstores⟩ := logTransfer_stores_iff _ (full_block 1 1) [2] (by decide) none
    refine ⟨file, hopen, ?_⟩
    rw [hstores]
    exact fun h => absurd (h.1 _ List.mem_cons_self) Nat.one_ne_zero
  · obtain ⟨file, hopen, hstores⟩ := logTransfer_stores_iff [] (fun _ hb => absurd hb List.not_mem_nil)
      [2] (by decide) (some [7, 8])
    refine ⟨file, hopen, ?_⟩
    rw [hstores]
    exact fun h => absurd h.2 (by decide)

end Dragonboard.Tqftpserv
