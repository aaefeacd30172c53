/-
A file that was written is read back.

While a transfer to the server goes on its file holds what was received, over what it held before
(`run_writing`), and when it is over the file stays as it is until somebody asks to write it again
(`run_rests`). So a peer that asks for the file gets what was sent, with the conditions on every
read, exactly if the file was not longer before (`written_is_read`): nothing truncates it.
-/
import Dragonboard.TqftpservFiles
import Dragonboard.TqftpservRead

set_option autoImplicit false

namespace Dragonboard.Tqftpserv

open Dragonboard.Ns Dragonboard.Qrtr Dragonboard.Translate Dragonboard.PosixFile

/-! ## The file of a name

Both kinds of requests translate a name behind `/readwrite/` to the same file. -/

/-- The file that a name behind the readwrite prefix is translated to. -/
def tmpFile (name : List UInt8) : List (List UInt8) := (⟨TMP_BASE, name, O_RDONLY⟩ : Opening).file

theorem translate_open_readwrite {os : Os} {name : List UInt8} {flags : UInt32} {file : Opening}
    (h : translate_open os (READWRITE_PATH ++ name) flags = some file) : file = ⟨TMP_BASE, name, flags⟩ := by
  have hreadonly : ¬ READONLY_PATH <+: READWRITE_PATH ++ name := by
    intro hprefix
    have htake := congrArg (List.take 6) (List.prefix_iff_eq_take.mp hprefix)
    rw [List.take_take, List.take_append_of_le_length (by decide)] at htake
    exact absurd htake (by decide)
  rw [translate_open, if_neg hreadonly, if_pos (List.prefix_append _ _), List.drop_left,
    translate_readwrite] at h
  split at h
  · exact (Option.some.inj h).symm
  · cases h

/-! ## Runs

An upload is followed through rounds in which anything may happen on the other sockets. -/

section Run

variable (sys : Sys) {server : ℕ} {disk : Disk (List (List UInt8))}

/-- What a writer has received in some rounds. -/
def received (sock : ℕ) (rounds : List Round) : List UInt8 :=
  (rounds.filterMap (Round.client sock)).flatMap Recv.payload

theorem received_append (sock : ℕ) (rounds rounds' : List Round) :
    received sock (rounds ++ rounds') = received sock rounds ++ received sock rounds' := by
  rw [received, List.filterMap_append, List.flatMap_append, ← received, ← received]

theorem received_none {sock : ℕ} {round : Round} (h : round.client sock = none) :
    received sock [round] = [] := by
  rw [received, List.filterMap_cons_none h, List.filterMap_nil, List.flatMap_nil]

theorem received_some {sock : ℕ} {round : Round} {recv : Recv} (h : round.client sock = some recv) :
    received sock [round] = recv.payload := by
  rw [received, List.filterMap_cons_some h, List.filterMap_nil, List.flatMap_singleton]

/-- A writer that is new in a round has the file of its name, as the file was, and stands at
its start. -/
theorem step_begins {s : State} (hs : Books server s) {clients : ℕ → Option Recv} {sq : SockaddrQrtr}
    {packet rest : List UInt8} {w : TftpClient} (hnew : w ∉ s.writers)
    (hw : w ∈ (main.step sys s (.ready clients (some (.data sq packet rest)))).writers)
    (hrun : (main.step sys s (.ready clients (some (.data sq packet rest)))).status = .running)
    {name : List UInt8}
    (hparse : handle_wrq.parse (packet.take 4096 ++ rest) = some (some (READWRITE_PATH ++ name)))
    (hclear : Clear (s.disk disk) (writersOf s) (tmpFile name)) {s' : State}
    (hs' : main.step sys s (.ready clients (some (.data sq packet rest))) = s') :
    Clear (s'.disk disk) (othersOf s' w) (tmpFile name) ∧
      (s'.disk disk).Stands w.fd (tmpFile name) 0 ((s.disk disk).content (tmpFile name)) := by
  rcases step_cases sys hrun with ⟨-, he⟩ | ⟨clients, recv, s1, he, hserved, hcases⟩
  · cases he
  cases he
  rcases hcases with ⟨he, -⟩ | ⟨recv, he, hreceive⟩
  · cases he
  cases he
  rw [hs'] at hw hreceive
  obtain ⟨hsub, hwithin⟩ := served_within sys hserved
  obtain ⟨hclear1, hcontent1⟩ := hwithin.content hclear
  have hs1 := ((served_accounts sys server hserved).1 hs).1
  rcases receive_writers sys hreceive with ⟨hsub', -, -⟩ |
    ⟨sq', packet', rest', c, filename, file, he, -, hparse', hfile, hwriters, hfresh, hcalls⟩
  · exact absurd (hsub (hsub' hw)) hnew
  cases he
  rw [hparse] at hparse'
  cases hparse'
  obtain rfl := translate_open_readwrite hfile
  obtain ⟨hdisk, hothers⟩ := begin_writing disk hs1 (translate_open_keeps hfile) hwriters hfresh hcalls
  -- the writer that is new is the one of the request
  have hwc : w = c := by
    by_contra hne
    exact hnew (hsub (hothers w hw hne).1)
  subst hwc
  rw [hdisk]
  constructor
  · rintro fd ⟨c, hc, hne, rfl⟩
    obtain ⟨hold, hfd⟩ := hothers c hc hne
    exact (hclear1 c.fd ⟨c, hsub hold, rfl⟩).open_ hfd _
  · rw [← hcontent1]
    exact Disk.stands_open _ _ _

variable {path : List (List UInt8)} {w : TftpClient}
  (hwrite : ∀ t bytes, sys.write t w.fd bytes = (bytes.length : ℤ))

include hwrite in
/-- A round in which the peer sends a block of full size, or nothing. -/
theorem step_writing {s : State} (hs : Books server s) {round : Round}
    (hrun : (main.step sys s round).status = .running) (hw : w ∈ s.writers)
    (hblock : ∀ recv ∈ round.client w.sock, ∃ payload, recv.Block w payload ∧ payload.length = 512)
    (hserver : ∀ recv ∈ round.server, ¬ recv.Requests sys path ∧ ¬ recv.Dismisses w)
    (hclear : Clear (s.disk disk) (othersOf s w) path) {offset : ℕ} {content : List UInt8}
    (hstands : (s.disk disk).Stands w.fd path offset content) {s' : State}
    (hs' : main.step sys s round = s') :
    w ∈ s'.writers ∧ Clear (s'.disk disk) (othersOf s' w) path ∧
      (s'.disk disk).Stands w.fd path (offset + (received w.sock [round]).length)
        (splice content offset (received w.sock [round])) := by
  rcases step_cases sys hrun with ⟨he, rfl⟩ | ⟨clients, recv, s1, rfl, hserved, hcases⟩
  · rw [← hs', he]
    exact ⟨hw, hclear, by rwa [received_none rfl, splice_nil]⟩
  -- after the transfers were served
  have hserved' : w ∈ s1.writers ∧ Clear (s1.disk disk) (othersOf s w) path ∧
      (s1.disk disk).Stands w.fd path
        (offset + (received w.sock [.ready clients recv]).length)
        (splice content offset (received w.sock [.ready clients recv])) := by
    cases hready : (Round.ready clients recv).client w.sock with
    | none =>
      rw [received_none hready, splice_nil]
      rcases served_around sys hs hw hserved with ⟨-, hstay, hapart⟩ | ⟨recv', _, _, _, hrecv, -⟩
      · obtain ⟨hclear', hstands'⟩ := hapart.stands hclear hstands
        exact ⟨hstay, hclear', hstands'⟩
      · cases hready.symm.trans hrecv
    | some recv' =>
      obtain ⟨payload, hrecv, hfull⟩ := hblock recv' hready
      rw [received_some hready, hrecv.payload (Nat.le_of_eq hfull)]
      obtain ⟨hclear', -, hstay, hstands'⟩ := served_block sys hwrite hs hw hserved hready hrecv
        (Nat.le_of_eq hfull) hclear hstands
      exact ⟨hstay.mpr hfull, hclear', hstands' hfull⟩
  obtain ⟨hw1, hclear1, hstands1⟩ := hserved'
  have hclear1' : Clear (s1.disk disk) (othersOf s1 w) path := by
    rintro fd ⟨c, hc, hne, rfl⟩
    exact hclear1 c.fd ⟨c, (served_within sys hserved).1 hc, hne, rfl⟩
  rcases hcases with ⟨-, he⟩ | ⟨recv, rfl, hreceive⟩
  · rw [← hs', he]
    exact ⟨hw1, hclear1', hstands1⟩
  · have hs1 := ((served_accounts sys server hserved).1 hs).1
    obtain ⟨hother, hnode⟩ := hserver recv rfl
    rw [← hs']
    exact receive_writing sys hs1 hreceive hother hw1 hnode hclear1' hstands1

include hwrite in
/-- A round in which the peer sends the short block. -/
theorem step_ends {s : State} (hs : Books server s) {round : Round}
    (hrun : (main.step sys s round).status = .running) (hw : w ∈ s.writers) {recv : Recv}
    (hready : round.client w.sock = some recv) {payload : List UInt8} (hblock : recv.Block w payload)
    (hshort : payload.length < 512) (hother : ∀ recv ∈ round.server, ¬ recv.Requests sys path)
    (hclear : Clear (s.disk disk) (othersOf s w) path) {offset : ℕ} {content : List UInt8}
    (hstands : (s.disk disk).Stands w.fd path offset content) {s' : State}
    (hs' : main.step sys s round = s') :
    Clear (s'.disk disk) (writersOf s') path ∧
      (s'.disk disk).content path = splice content offset payload := by
  rcases step_cases sys hrun with ⟨-, rfl⟩ | ⟨clients, server', s1, rfl, hserved, hcases⟩
  · cases hready
  obtain ⟨hclear1, hcontent1, hstay, -⟩ := served_block sys hwrite hs hw hserved hready hblock
    (Nat.le_of_lt hshort) hclear hstands
  have hclear1' : Clear (s1.disk disk) (writersOf s1) path := by
    rintro fd ⟨c, hc, rfl⟩
    have hne : c ≠ w := by
      rintro rfl
      exact absurd (hstay.mp hc) (Nat.ne_of_lt hshort)
    exact hclear1 c.fd ⟨c, (served_within sys hserved).1 hc, hne, rfl⟩
  rcases hcases with ⟨-, he⟩ | ⟨recv', rfl, hreceive⟩
  · rw [← hs', he]
    exact ⟨hclear1', hcontent1⟩
  · have hs1 := ((served_accounts sys server hserved).1 hs).1
    rw [hs'] at hreceive
    obtain ⟨hclear2, hcontent2⟩ := receive_rests sys hs1 hreceive (hother recv' rfl) hclear1'
    exact ⟨hclear2, hcontent2.trans hcontent1⟩

theorem run_append (rounds rounds' : List Round) :
    main.run sys (rounds ++ rounds') = rounds'.foldl (main.step sys) (main.run sys rounds) := by
  rw [main.run, List.foldl_append, ← main.run]

/-- A server that is running was running before. -/
theorem run_running {rounds rounds' : List Round}
    (h : (main.run sys (rounds ++ rounds')).status = .running) :
    (main.run sys rounds).status = .running := by
  induction rounds' using List.reverseRecOn with
  | nil => rwa [List.append_nil] at h
  | append_singleton rounds' round ih =>
    rw [← List.append_assoc, main_run_append] at h
    exact ih (step_running sys h)

include hwrite in
/-- While the transfer goes on its file holds what was received, over what it held before. -/
theorem run_writing {rounds during : List Round} (hw : w ∈ (main.run sys rounds).writers)
    (hrun : (main.run sys (rounds ++ during)).status = .running)
    (hblocks : ∀ recv ∈ during.filterMap (Round.client w.sock), ∃ payload,
      recv.Block w payload ∧ payload.length = 512)
    (hserver : ∀ round ∈ during, ∀ recv ∈ round.server, ¬ recv.Requests sys path ∧ ¬ recv.Dismisses w)
    (hclear : Clear ((main.run sys rounds).disk disk) (othersOf (main.run sys rounds) w) path)
    {content : List UInt8} (hstands : ((main.run sys rounds).disk disk).Stands w.fd path 0 content) :
    w ∈ (main.run sys (rounds ++ during)).writers ∧
      Clear ((main.run sys (rounds ++ during)).disk disk) (othersOf (main.run sys (rounds ++ during)) w) path ∧
      ((main.run sys (rounds ++ during)).disk disk).Stands w.fd path (received w.sock during).length
        (splice content 0 (received w.sock during)) := by
  induction during using List.reverseRecOn with
  | nil =>
    rw [List.append_nil, received, List.filterMap_nil, List.flatMap_nil, splice_nil]
    exact ⟨hw, hclear, hstands⟩
  | append_singleton during round ih =>
    rw [← List.append_assoc, main_run_append] at hrun ⊢
    have hrun' := step_running sys hrun
    have hbooks := main_run_books sys _ hrun'
    obtain ⟨hw', hclear', hstands'⟩ := ih hrun'
      (fun recv hrecv => hblocks recv (by
        rw [List.filterMap_append]
        exact List.mem_append_left _ hrecv))
      fun r hr => hserver r (List.mem_append_left _ hr)
    obtain ⟨hw2, hclear2, hstands2⟩ := step_writing sys hwrite hbooks hrun hw'
      (fun recv hrecv => hblocks recv (by
        rw [List.filterMap_append]
        exact List.mem_append_right _ (List.mem_filterMap.mpr ⟨round, List.mem_cons_self, hrecv⟩)))
      (hserver round (List.mem_append_right _ List.mem_cons_self)) hclear' hstands' rfl
    -- what is written in the round is put behind what was received before
    have hjoin := splice_splice (Nat.zero_le content.length) (received w.sock during) (received w.sock [round])
    rw [Nat.zero_add] at hjoin
    rw [hjoin] at hstands2
    rw [received_append, List.length_append]
    exact ⟨hw2, hclear2, hstands2⟩

/-- A file that no writer has stays as it is, if nobody asks to write it. -/
theorem run_rests {rounds between : List Round}
    (hrun : (main.run sys (rounds ++ between)).status = .running)
    (hother : ∀ round ∈ between, ∀ recv ∈ round.server, ¬ recv.Requests sys path)
    (hclear : Clear ((main.run sys rounds).disk disk) (writersOf (main.run sys rounds)) path) :
    Clear ((main.run sys (rounds ++ between)).disk disk) (writersOf (main.run sys (rounds ++ between))) path ∧
      ((main.run sys (rounds ++ between)).disk disk).content path
        = ((main.run sys rounds).disk disk).content path := by
  induction between using List.reverseRecOn with
  | nil =>
    rw [List.append_nil]
    exact ⟨hclear, rfl⟩
  | append_singleton between round ih =>
    rw [← List.append_assoc, main_run_append] at hrun ⊢
    have hrun' := step_running sys hrun
    obtain ⟨hclear', hcontent'⟩ := ih hrun' fun r hr => hother r (List.mem_append_left _ hr)
    obtain ⟨hclear2, hcontent2⟩ := step_rests sys (main_run_books sys _ hrun') hrun
      (hother round (List.mem_append_right _ List.mem_cons_self)) hclear'
    exact ⟨hclear2, hcontent2.trans hcontent'⟩

end Run

/-! ## What is read

A later read request opens that file, and sends its blocks as they are acknowledged. -/

/-- A packet after another holds the bytes of a file after another. -/
theorem packets_payload (content : List UInt8) (blksize m : ℕ) :
    ((packets content blksize 0 m).map (List.drop 4)).flatten = content.take (m * blksize) := by
  have hdrop : ∀ i, (dataPacket (UInt16.ofNat (i + 1)) (chunk content blksize i)).drop 4
      = chunk content blksize i := fun _ => rfl
  rw [← chunks_flatten, packets, List.map_map, Nat.sub_zero, ← List.range_eq_range']
  simp only [Function.comp_def, hdrop]

/-- A file that is longer is not taken for one that is shorter. -/
theorem packets_ne_filePackets {content sent : List UInt8} (hlonger : sent.length < content.length)
    {blksize : ℕ} (hblk : 0 < blksize) (m : ℕ) :
    packets content blksize 0 m ≠ filePackets sent blksize := by
  intro h
  have hlen := congrArg List.length h
  rw [filePackets, packets_length, packets_length] at hlen
  have hpayload := congrArg (fun l => (l.map (List.drop 4)).flatten.length) h
  simp only [filePackets, packets_payload, List.length_take] at hpayload
  have hdiv := Nat.div_add_mod sent.length blksize
  have hmod := Nat.mod_lt sent.length hblk
  have hm : m * blksize = blksize * (sent.length / blksize) + blksize := by
    rw [Nat.sub_zero, Nat.sub_zero] at hlen
    rw [hlen, Nat.succ_mul, Nat.mul_comm]
  have hm' : (sent.length / blksize + 1) * blksize = m * blksize := by
    rw [hm, Nat.succ_mul, Nat.mul_comm]
  omega

section Read

variable (sys : Sys)

theorem handle_wrq_readers {s s' : State} {mem : List UInt8} {sq : SockaddrQrtr}
    (h : handle_wrq sys s mem sq = some s') : s'.readers = s.readers := by
  rcases handle_wrq_cases sys s mem sq with ⟨-, he⟩ | ⟨-, he⟩ | ⟨filename, -, hcases⟩
  · rw [he] at h
    cases h
  · rw [he] at h
    cases h
    rfl
  rcases hcases with ⟨-, s1, he, hworks⟩ | ⟨-, fd, new, s1, he, hopens⟩ | ⟨-, fd, sock, s1, hopens, -, he⟩
  · rw [he] at h
    cases h
    exact hworks.same.1
  · rw [he] at h
    cases h
    exact hopens.same.1
  rw [he] at h
  rcases handle_wrq_begin_adds sys h with ⟨hadds, -⟩ | ⟨s2, hworks, rfl⟩
  · exact hadds.same.1.trans hopens.same.1
  · exact (hopens.same.trans hworks.same).1

theorem readers_grew {s s' : State} {r : TftpClient} (hr : s'.readers = s.readers ++ [r]) :
    s'.readers ≠ s.readers := by
  intro hsame
  have hlen := congrArg List.length (hr.symm.trans hsame)
  simp at hlen

/-- A new reader is the one of a read request. -/
theorem receive_reader {s s' : State} {sq : SockaddrQrtr} {packet rest : List UInt8} {r : TftpClient}
    (h : receive sys s (.data sq packet rest) = some s') (hr : s'.readers = s.readers ++ [r]) :
    be16At (packet.take 4096 ++ rest) 0 = OP_RRQ ∧
      handle_rrq sys s (packet.take 4096 ++ rest) (packet.take 4096).length sq = some s' := by
  have hnew := readers_grew hr
  simp only [receive] at h
  split at h
  · cases h
    exact absurd (control_readers s sq _).1 hnew
  split at h
  · cases h
    exact absurd rfl hnew
  split at h
  · rename_i hop
    exact ⟨hop, h⟩
  split at h
  · exact absurd (handle_wrq_readers sys h) hnew
  · cases h
    exact absurd rfl hnew

variable {disk : Disk (List (List UInt8))}

variable (disk) in
/-- A reader that is new in a round stands at the start of the file of its name. -/
theorem step_reads {s s' : State} {sq : SockaddrQrtr} {packet rest : List UInt8} {r : TftpClient}
    (hrun : s.status = .running)
    (hs' : main.step sys s (.ready (fun _ => none) (some (.data sq packet rest))) = s')
    (hr : s'.readers = s.readers ++ [r]) {name : List UInt8} {do_oack : Bool} {o : RrqOptions}
    (hparse : handle_rrq.parse (packet.take 4096 ++ rest) (packet.take 4096).length
      = some (some (READWRITE_PATH ++ name, do_oack, o))) :
    s'.status = .running ∧ (∀ path, ¬ (Recv.data sq packet rest).Requests sys path) ∧
      (s'.disk disk).descriptors r.fd = some (tmpFile name, 0) := by
  have hnew := readers_grew hr
  unfold main.step at hs'
  simp only [if_pos hrun, main_round_server] at hs'
  cases hreceive : receive sys s (.data sq packet rest) with
  | none =>
    rw [hreceive] at hs'
    subst hs'
    exact absurd rfl hnew
  | some s'' =>
    rw [hreceive] at hs'
    simp only at hs'
    subst hs'
    obtain ⟨hop, hrrq⟩ := receive_reader sys hreceive hr
    -- a read request is no write request, of any file
    have hother : ∀ path, ¬ (Recv.data sq packet rest).Requests sys path := by
      rintro path ⟨hop', -⟩
      rw [hop] at hop'
      exact absurd hop' (by decide)
    rcases handle_rrq_begins sys hrrq with
      ⟨hsame, -⟩ | ⟨filename, do_oack', o', sock, fd, t, file, s1, hparse', hfile, hopens, hcalls, hbegin⟩
    · exact absurd hsame.1 hnew
    rw [hparse] at hparse'
    cases hparse'
    obtain rfl := translate_open_readwrite hfile
    have hadds := handle_rrq_begin_adds sys hbegin
    have hreaders := hadds.same.1
    simp only [hopens.same.1, hr] at hreaders
    obtain ⟨-, hone⟩ := List.append_inj' hreaders rfl
    cases hone
    refine ⟨hadds.status.trans (hopens.status.trans hrun), hother, ?_⟩
    -- what follows are sends, which leave descriptors where they stand
    have hsends := handle_rrq_begin_grows sys (P := fun call => call.fd? = none) (fun _ => rfl) hbegin
    refine hsends.keeps (I := fun d => d.descriptors fd = some (tmpFile name, 0)) ?_ ?_
    · intro d call hcall hd
      cases call with
      | connect | send => exact hd
      | open_ | write | close => cases hcall
    · rw [State.disk, hcalls, List.foldl_append]
      simp [Call.apply, Disk.open_, tmpFile, Opening.file]

end Read

section Deliver

variable (sys : Sys) {client : TftpClient} {content : List UInt8}
  (hmalloc : ∀ t size, sys.malloc t size = true)
  (hpread : ∀ t count offset, sys.pread t client.fd count offset
    = some ((content.drop offset.toNat).take count.toNat))
  (hsend : ∀ t data, sys.send t client.sock data = (data.length : ℤ))

include hmalloc hpread hsend in
/-- What is sent of a file are its first blocks, after however many answers. -/
theorem run_sends (rounds : List Round) (hrun : (main.run sys rounds).status = .running)
    {sq : SockaddrQrtr} {data rest : List UInt8}
    (hclient : (main.run sys (rounds ++ [.ready (fun _ => none) (some (.data sq data rest))])).readers
      = (main.run sys rounds).readers ++ [client])
    {filename : List UInt8} {do_oack : Bool} {o : RrqOptions}
    (hparse : handle_rrq.parse (data.take 4096 ++ rest) (data.take 4096).length
      = some (some (filename, do_oack, o)))
    (hblksize : 0 < signed 64 client.blksize.toNat) (hwsize : client.wsize.toNat ≤ 65535)
    (hfuel : 65536 ≤ sys.fuel) (behind : ℕ → List UInt8) {s s1 : State} (hs : main.run sys rounds = s)
    (hs1 : main.run sys (rounds ++ [.ready (fun _ => none) (some (.data sq data rest))]) = s1) (n : ℕ) :
    ∃ m, dataOn client.sock
        (newCalls s (exchanges sys client behind (sentOn client.sock (newCalls s s1)) s1 n).2)
      = packets content client.blksize.toNat 0 m := by
  subst hs hs1
  obtain ⟨h, -⟩ := run_begun sys hmalloc hpread hsend rounds hrun hclient hparse hblksize
  -- the invariant of the transfer says what has been sent behind any number of answers
  obtain ⟨m, hm⟩ := exchanges_reading sys hmalloc hpread hsend h.blksize_pos h.blksize_lt hwsize hfuel
    h.books h.running h.mem h.calls behind h.reading n
  exact ⟨m, hm.sent⟩

end Deliver

/-! ## Round trip

The upload, any rounds in which nobody asks to write the file, and the download. -/

/-- A transfer of a file to the server: the request, the rounds until the last block, and the round of
this. The rounds may bring anything for the other transfers. -/
structure Upload (sys : Sys) (disk : Disk (List (List UInt8))) (name : List UInt8) (rounds : List Round)
    (request : Round) (during : List Round) (final : Round) (w : TftpClient) : Prop where
  /-- the request is for the name -/
  asks : ∃ clients sq packet rest, request = .ready clients (some (.data sq packet rest)) ∧
    handle_wrq.parse (packet.take 4096 ++ rest) = some (some (READWRITE_PATH ++ name))
  new : w ∉ (main.run sys rounds).writers
  begins : w ∈ (main.run sys (rounds ++ [request])).writers
  /-- no other writer has the file -/
  free : ∀ c ∈ (main.run sys rounds).writers, ((main.run sys rounds).disk disk).Away c.fd (tmpFile name)
  writes : ∀ t bytes, sys.write t w.fd bytes = (bytes.length : ℤ)
  blocks : ∀ recv ∈ during.filterMap (Round.client w.sock), ∃ payload,
    recv.Block w payload ∧ payload.length = 512
  last : ∃ recv ∈ final.client w.sock, ∃ payload, recv.Block w payload ∧ payload.length < 512
  /-- nobody else asks to write it -/
  alone : ∀ round ∈ during ++ [final], ∀ recv ∈ round.server, ¬ recv.Requests sys (tmpFile name)
  /-- the peer's node is not reported gone -/
  stays : ∀ round ∈ during, ∀ recv ∈ round.server, ¬ recv.Dismisses w
  runs : (main.run sys (rounds ++ [request] ++ during ++ [final])).status = .running

/-- What the file holds then. -/
theorem Upload.stored {sys : Sys} {disk : Disk (List (List UInt8))} {name : List UInt8}
    {rounds : List Round} {request : Round} {during : List Round} {final : Round} {w : TftpClient}
    (h : Upload sys disk name rounds request during final w) {s' : State}
    (hs' : main.run sys (rounds ++ [request] ++ during ++ [final]) = s') :
    Clear (s'.disk disk) (writersOf s') (tmpFile name) ∧
      (s'.disk disk).content (tmpFile name)
        = splice (((main.run sys rounds).disk disk).content (tmpFile name)) 0
          (received w.sock (during ++ [final])) := by
  obtain ⟨clients, sq, packet, rest, rfl, hparse⟩ := h.asks
  obtain ⟨recv, hready, payload, hblock, hshort⟩ := h.last
  have hruns := run_running sys h.runs
  have hrun := run_running sys (run_running sys hruns)
  have hrun1 := run_running sys hruns
  have hfree : Clear ((main.run sys rounds).disk disk) (writersOf (main.run sys rounds)) (tmpFile name) := by
    rintro fd ⟨c, hc, rfl⟩
    exact h.free c hc
  -- the request
  have hbegins := h.begins
  rw [main_run_append] at hbegins hrun1
  obtain ⟨hclear1, hstands1⟩ := step_begins sys (main_run_books sys _ hrun) h.new hbegins hrun1 hparse hfree rfl
  rw [← main_run_append] at hclear1 hstands1
  -- the blocks of full size
  obtain ⟨hw2, hclear2, hstands2⟩ := run_writing sys h.writes h.begins hruns h.blocks
    (fun round hr recv hrecv => ⟨h.alone round (List.mem_append_left _ hr) recv hrecv,
      h.stays round hr recv hrecv⟩) hclear1 hstands1
  -- the last one, behind them
  have hfinal := h.runs
  rw [main_run_append] at hfinal hs'
  obtain ⟨hclear3, hcontent3⟩ := step_ends sys h.writes (main_run_books sys _ hruns) hfinal hw2 hready hblock
    hshort (h.alone final (List.mem_append_right _ List.mem_cons_self)) hclear2 hstands2 hs'
  refine ⟨hclear3, hcontent3.trans ?_⟩
  have hjoin := splice_splice (Nat.zero_le (((main.run sys rounds).disk disk).content (tmpFile name)).length)
    (received w.sock during) payload
  rw [Nat.zero_add] at hjoin
  rw [hjoin, received_append, received_some hready, hblock.payload (Nat.le_of_lt hshort)]

/-- **A file that was written is read back.** Whatever comes for other transfers, a peer that asks for
the file gets what was sent, each block once and in order, exactly if the file was not longer before,
and the read is one that delivers: without options one short block, and otherwise blocks that
can be numbered, of which the last one is not empty. -/
theorem written_is_read (sys : Sys) (disk : Disk (List (List UInt8))) (name : List UInt8)
    (rounds : List Round) (request : Round) (during : List Round) (final : Round) (w : TftpClient)
    (hup : Upload sys disk name rounds request during final w) (between : List Round)
    (hother : ∀ round ∈ between, ∀ recv ∈ round.server, ¬ recv.Requests sys (tmpFile name))
    (s : State) (hs : main.run sys (rounds ++ [request] ++ during ++ [final] ++ between) = s)
    (hrun : s.status = .running) (sq : SockaddrQrtr) (data rest : List UInt8) (s' : State)
    (hs' : main.step sys s (.ready (fun _ => none) (some (.data sq data rest))) = s')
    (client : TftpClient) (hclient : s'.readers = s.readers ++ [client]) (do_oack : Bool) (o : RrqOptions)
    (hparse : handle_rrq.parse (data.take 4096 ++ rest) (data.take 4096).length
      = some (some (READWRITE_PATH ++ name, do_oack, o)))
    (hblksize : 0 < signed 64 client.blksize.toNat) (hwsize : client.wsize.toNat ≤ 65535)
    (hmalloc : ∀ t size, sys.malloc t size = true)
    (hpread : ∀ path offset, (s'.disk disk).descriptors client.fd = some (path, offset) →
      ∀ t count start, sys.pread t client.fd count start
        = some ((((s'.disk disk).content path).drop start.toNat).take count.toNat))
    (hsend : ∀ t packet, sys.send t client.sock packet = (packet.length : ℤ))
    (hfuel : 65536 ≤ sys.fuel) (behind : ℕ → List UInt8) :
    let old := ((main.run sys rounds).disk disk).content (tmpFile name)
    let sent := received w.sock (during ++ [final])
    Delivers sys s s' client behind sent ↔ old.length ≤ sent.length ∧
      if do_oack then 0 < client.wsize.toNat ∧ sent.length % client.blksize.toNat ≠ 0 ∧
        sent.length ≤ 65535 * client.blksize.toNat
      else 0 < sent.length ∧ sent.length < 512 := by
  intro old sent
  obtain ⟨hrun', hnot, hstands⟩ := step_reads sys disk hrun hs' hclient hparse
  -- what is read is what was stored
  obtain ⟨hclear, hstored⟩ := hup.stored rfl
  have hround : main.run sys (rounds ++ [request] ++ during ++ [final] ++
      (between ++ [.ready (fun _ => none) (some (.data sq data rest))])) = s' := by
    rw [← List.append_assoc, main_run_append, hs, hs']
  have hcontent : (s'.disk disk).content (tmpFile name) = splice old 0 sent := by
    rw [← hround] at hrun' ⊢
    refine (run_rests sys hrun' ?_ hclear).2.trans hstored
    intro round hr recv hrecv
    rcases List.mem_append.mp hr with hr | hr
    · exact hother round hr recv hrecv
    · rw [List.mem_singleton.mp hr] at hrecv
      rw [← Option.some.inj hrecv]
      exact hnot _
  have hslices := hpread _ _ hstands
  rw [hcontent, splice_zero] at hslices
  have hs1 : main.run sys (rounds ++ [request] ++ during ++ [final] ++ between ++
      [.ready (fun _ => none) (some (.data sq data rest))]) = s' := by
    rw [main_run_append, hs, hs']
  subst hs
  rw [← hs1] at hclient
  obtain ⟨hpos, hdefaults, hdelivers⟩ := run_delivers sys hmalloc hslices hsend _ hrun hclient hparse
    hblksize hwsize hfuel behind
  by_cases hold : old.length ≤ sent.length
  · rw [List.drop_eq_nil_of_le hold, List.append_nil, hs1] at hdelivers
    rw [hdelivers, and_iff_right hold]
    cases do_oack with
    | true =>
      rw [if_pos rfl, if_pos rfl]
      exact ⟨fun h => h.resolve_left fun h' => Nat.succ_ne_zero _ h'.2.symm, .inr⟩
    | false =>
      obtain ⟨h512, hzero⟩ := hdefaults rfl
      have hblocks := fileBlocks_eq_iff sent hpos
      have hfirst := lt_fileBlocks_iff sent hpos 0
      rw [h512] at hblocks hfirst ⊢
      simp only [Bool.false_eq_true, if_false]
      omega
  · -- the end of the old file is read as well
    have hlonger : sent.length < (sent ++ old.drop sent.length).length := by
      rw [List.length_append, List.length_drop]
      omega
    refine ⟨?_, fun h => absurd h.1 hold⟩
    rintro ⟨n, hn⟩
    obtain ⟨m, hm⟩ := run_sends sys hmalloc hslices hsend _ hrun hclient hparse hblksize hwsize hfuel behind
      rfl hs1 n
    exact absurd (hm.symm.trans (hn n (Nat.le_refl n))) (packets_ne_filePackets hlonger hpos m)

/-- Another peer asks to write another file. -/
def twoRequest : Round :=
  .ready (fun _ => none)
    (some (.data ⟨6, 7⟩ (be16 OP_WRQ ++ ascii "/readwrite/two" ++ [0] ++ ascii "octet" ++ [0]) []))

/-- Both peers send their only block in one round. -/
def bothBlocks : Round :=
  .ready (fun sock => if sock = 5 then some (.data ⟨5, 7⟩ (dataPacket 1 [1, 2, 3]) [])
    else if sock = 7 then some (.data ⟨6, 7⟩ (dataPacket 1 [9]) []) else none) none

/-- The rounds of two transfers. -/
def twoTransfers : List Round := [] ++ [logRequest ⟨5, 7⟩] ++ [twoRequest] ++ [bothBlocks] ++ []

theorem upload_log :
    Upload (serving [1, 2, 3]) (everyFile none) (ascii "log") [] (logRequest ⟨5, 7⟩) [twoRequest] bothBlocks
      logWriter where
  asks := ⟨_, _, _, _, rfl, by decide +kernel⟩
  new := by decide +kernel
  begins := by decide +kernel
  free := by
    have hnone : (main.run (serving [1, 2, 3]) []).writers = [] := by decide +kernel
    rw [hnone]
    exact nofun
  writes := fun _ _ => rfl
  blocks := nofun
  last := ⟨_, rfl, [1, 2, 3], ⟨1, [], rfl⟩, by decide⟩
  alone := by
    intro round hround recv hrecv
    rcases List.mem_cons.mp hround with rfl | hround
    · cases hrecv
      rintro ⟨-, filename, hparse, t, file, hfile, hpath⟩
      have htwo : handle_wrq.parse (List.take 4096 (be16 OP_WRQ ++ ascii "/readwrite/two" ++ [0] ++
          ascii "octet" ++ [0]) ++ []) = some (some (READWRITE_PATH ++ ascii "two")) := by
        decide +kernel
      rw [htwo] at hparse
      cases hparse
      rw [translate_open_readwrite hfile] at hpath
      exact absurd hpath (by decide)
    · rw [List.mem_singleton.mp hround] at hrecv
      cases hrecv
  stays := by
    intro round hround recv hrecv
    rw [List.mem_singleton.mp hround] at hrecv
    cases hrecv
    rintro ⟨hport, -⟩
    exact absurd hport (by decide)
  runs := by decide +kernel

/-- Three bytes are read back in blocks of two, and the file of the other peer is not in the way. -/
theorem written_is_read_log :
    Delivers (serving [1, 2, 3]) (main.run (serving [1, 2, 3]) twoTransfers)
      (main.step (serving [1, 2, 3]) (main.run (serving [1, 2, 3]) twoTransfers)
        (.ready (fun _ => none) (some (.data ⟨5, 7⟩ (readRequest twoByTwo) []))))
      ⟨⟨5, 7⟩, 4, 5, 2, 0, 1, 1000⟩ (fun _ => []) [1, 2, 3] := by
  have hstands : ((main.step (serving [1, 2, 3]) (main.run (serving [1, 2, 3]) twoTransfers)
      (.ready (fun _ => none) (some (.data ⟨5, 7⟩ (readRequest twoByTwo) [])))).disk (everyFile none)).descriptors 5
      = some (tmpFile (ascii "log"), 0) := by
    decide +kernel
  have hholds : ((main.step (serving [1, 2, 3]) (main.run (serving [1, 2, 3]) twoTransfers)
      (.ready (fun _ => none) (some (.data ⟨5, 7⟩ (readRequest twoByTwo) [])))).disk (everyFile none)).content
      (tmpFile (ascii "log")) = [1, 2, 3] := by
    decide +kernel
  refine (written_is_read (serving [1, 2, 3]) (everyFile none) (ascii "log") [] (logRequest ⟨5, 7⟩)
    [twoRequest] bothBlocks logWriter upload_log [] nofun _ rfl (by decide +kernel) ⟨5, 7⟩
    (readRequest twoByTwo) [] _ rfl ⟨⟨5, 7⟩, 4, 5, 2, 0, 1, 1000⟩ (by decide +kernel) true
    { blksize := 2, wsize := 1 } (by decide +kernel) (by decide) (by decide) (fun _ _ => rfl) ?_
    (fun _ _ => rfl) (by decide) fun _ => []).mpr (by decide +kernel)
  intro path offset hpath t count start
  cases hpath.symm.trans hstands
  rw [← twoTransfers, hholds]
  rfl

end Dragonboard.Tqftpserv
