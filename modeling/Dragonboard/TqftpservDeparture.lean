/-
What `tqftpserv` makes of the news that a peer is gone.

The name server tells its local services of a departure with a BYE or a DEL_CLIENT that names the
node, or the client. It sends them from the control port of the local node. The loop
over the writers goes by the address it received the packet from, and not by the
name in it, and there is no loop over the readers.

So a transfer of the peer that is gone goes on, unless there was none (`forgets_iff`).
-/
import Dragonboard.NsDeparture
import Dragonboard.Tqftpserv

set_option autoImplicit false

namespace Dragonboard.Tqftpserv

open Dragonboard.Ns Dragonboard.Qrtr Dragonboard.Translate

/-! ## Where transfers come from

Transfers are added by requests only, and with the address the request came from. -/

/-- The transfers. -/
def State.clients (s : State) : List TftpClient := s.readers ++ s.writers

/-- The transfers stay as they are. -/
def Same (s s' : State) : Prop := s'.readers = s.readers ∧ s'.writers = s.writers

theorem Same.refl (s : State) : Same s s := ⟨rfl, rfl⟩

theorem Same.trans {s s' s'' : State} (h : Same s s') (h' : Same s' s'') : Same s s'' :=
  ⟨h'.1.trans h.1, h'.2.trans h.2⟩

/-- New transfers are those of one peer. -/
def From (sq : SockaddrQrtr) (s s' : State) : Prop :=
  ∀ c ∈ s'.clients, c ∈ s.clients ∨ c.sq = sq

theorem Same.from {s s' : State} (h : Same s s') (sq : SockaddrQrtr) : From sq s s' := by
  intro c hc
  rw [State.clients, h.1, h.2] at hc
  exact .inl hc

/-- Nothing but calls is made: transfers and descriptors stay as they are. -/
structure Works (s s' : State) : Prop where
  same : Same s s'
  fds : s'.fds = s.fds
  status : s'.status = s.status

theorem Works.refl (s : State) : Works s s := ⟨.refl s, rfl, rfl⟩

theorem Works.trans {s s' s'' : State} (h : Works s s') (h' : Works s' s'') : Works s s'' :=
  ⟨h.same.trans h'.same, h'.fds.trans h.fds, h'.status.trans h.status⟩

theorem tick_works (s : State) : Works s s.tick := ⟨⟨rfl, rfl⟩, rfl, rfl⟩

section System

variable (sys : Sys)

theorem send_works (s : State) (sock : ℕ) (data : List UInt8) : Works s (send sys s sock data).2 := by
  unfold send
  simp only
  split
  · exact tick_works s
  · exact ⟨⟨rfl, rfl⟩, rfl, rfl⟩

theorem tftp_send_error_works (s : State) (sock : ℕ) (code : UInt16) (msg : String) :
    Works s (tftp_send_error sys s sock code msg).2 := by
  unfold tftp_send_error
  simp only
  split
  · exact (tick_works s).trans (send_works sys s.tick sock _)
  · exact tick_works s

theorem tftp_send_data_works {s : State} {client : TftpClient} {block : UInt32} {offset : UInt64}
    {r : ℤ × State} (h : tftp_send_data sys s client block offset = some r) : Works s r.2 := by
  unfold tftp_send_data at h
  simp only at h
  split at h
  · cases h
  split at h
  · cases h
    exact (tick_works s).trans (tick_works s.tick)
  split at h
  · cases h
    exact (tick_works s).trans (tick_works s.tick)
  · cases h
    exact ((tick_works s).trans (tick_works s.tick)).trans (send_works sys s.tick.tick client.sock _)

theorem handle_reader_loop_works (client : TftpClient) (last : UInt16) (fuel : ℕ) (block : UInt16)
    (s s' : State) (h : handle_reader.loop sys client last fuel block s = some s') : Works s s' := by
  induction fuel generalizing block s with
  | zero => cases h
  | succ fuel ih =>
    rw [handle_reader.loop] at h
    split at h
    · obtain ⟨⟨n, s1⟩, hsend, h⟩ := Option.bind_eq_some_iff.mp h
      have hworks := tftp_send_data_works sys hsend
      simp only at h hworks
      split at h
      · cases h
        exact hworks
      · exact hworks.trans (ih _ _ h)
    · cases h
      exact .refl _

theorem handle_reader_works (s : State) (client : TftpClient) (recv : Recv) (r : ℤ × State)
    (h : handle_reader sys s client recv = some r) : Works s r.2 := by
  unfold handle_reader at h
  cases recv with
  | error =>
    cases h
    exact .refl s
  | data sq data rest =>
    simp only at h
    split at h
    · cases h
      exact .refl s
    split at h
    · split at h
      · cases h
        exact .refl s
      · cases h
    split at h
    · cases h
      exact .refl s
    · obtain ⟨s1, hloop, rfl⟩ := Option.map_eq_some_iff.mp h
      exact handle_reader_loop_works sys client _ _ _ _ _ hloop

theorem handle_writer_works (s : State) (client : TftpClient) (recv : Recv) (r : ℤ × State)
    (h : handle_writer sys s client recv = some r) : Works s r.2 := by
  unfold handle_writer at h
  cases recv with
  | error =>
    cases h
    exact .refl s
  | data sq data rest =>
    simp only at h
    split at h
    · cases h
      exact .refl s
    split at h
    · cases h
      exact tftp_send_error_works sys s client.sock _ _
    split at h
    · cases h
      exact tick_works s
    split at h
    · cases h
      exact tick_works s
    · cases h
      refine Works.trans ?_ (send_works sys { s.tick with calls := _ } client.sock _)
      exact ⟨⟨rfl, rfl⟩, rfl, rfl⟩

omit sys in
/-- A loop over transfers keeps some of them. -/
theorem serve_sublist {handle : State → TftpClient → Recv → Option (ℤ × State)}
    (hhandle : ∀ s client recv r, handle s client recv = some r → Works s r.2)
    (ready : ℕ → Option Recv) (clients : List TftpClient) (s : State) {r : State × List TftpClient}
    (h : serve handle ready clients s = some r) : Same s r.1 ∧ r.2.Sublist clients := by
  induction clients generalizing s r with
  | nil =>
    cases h
    exact ⟨.refl s, .refl _⟩
  | cons client clients ih =>
    rw [serve] at h
    cases hready : ready client.sock with
    | none =>
      rw [hready] at h
      obtain ⟨r', hr', rfl⟩ := Option.map_eq_some_iff.mp h
      obtain ⟨hsame, hsub⟩ := ih s hr'
      exact ⟨hsame, hsub.cons_cons client⟩
    | some recv =>
      rw [hready] at h
      obtain ⟨⟨ret, s1⟩, hret, h⟩ := Option.bind_eq_some_iff.mp h
      have hdone := (hhandle s client recv _ hret).same
      simp only at h hdone
      split at h
      · obtain ⟨hsame, hsub⟩ := ih _ h
        exact ⟨hdone.trans hsame, hsub.cons client⟩
      · obtain ⟨r', hr', rfl⟩ := Option.map_eq_some_iff.mp h
        obtain ⟨hsame, hsub⟩ := ih s1 hr'
        exact ⟨hdone.trans hsame, hsub.cons_cons client⟩

omit sys in
/-- Nothing happens if there is nothing to receive. -/
theorem serve_idle (handle : State → TftpClient → Recv → Option (ℤ × State))
    (clients : List TftpClient) (s : State) :
    serve handle (fun _ => none) clients s = some (s, clients) := by
  induction clients with
  | nil => rfl
  | cons client clients ih =>
    rw [serve]
    simp only
    rw [ih, Option.map_some]

/-! ### What a request can do -/

omit sys in
/-- A descriptor that is handed out is a new one: some number of any `fds.length + 1` is free. -/
theorem free_fd_not_mem (fds : List ℕ) (start : ℕ) : free_fd fds start ∉ fds := by
  unfold free_fd
  cases hfind : (List.range' start (fds.length + 1)).find? (· ∉ fds) with
  | some fd => simpa using List.find?_some hfind
  | none =>
    have hsub : List.range' start (fds.length + 1) ⊆ fds := by
      intro x hx
      have hx' := List.find?_eq_none.mp hfind x hx
      simpa using hx'
    have hlen := (List.nodup_range').length_le_of_subset hsub
    rw [List.length_range'] at hlen
    omega

/-- Descriptors are opened, and nothing else is new. -/
structure Opens (new : List ℕ) (s s' : State) : Prop where
  same : Same s s'
  fds : s'.fds = s.fds ++ new
  nodup : new.Nodup
  fresh : ∀ x ∈ new, x ∉ s.fds
  status : s'.status = s.status

omit sys in
theorem Works.opens {s s' : State} (h : Works s s') : Opens [] s s' :=
  ⟨h.same, by rw [h.fds, List.append_nil], List.nodup_nil, fun _ hx => absurd hx List.not_mem_nil,
    h.status⟩

omit sys in
theorem Opens.trans {new new' : List ℕ} {s s' s'' : State} (h : Opens new s s')
    (h' : Opens new' s' s'') : Opens (new ++ new') s s'' := by
  have hfresh : ∀ x ∈ new', x ∉ s.fds ∧ x ∉ new := by
    intro x hx
    have hx' := h'.fresh x hx
    rw [h.fds, List.mem_append, not_or] at hx'
    exact hx'
  refine ⟨h.same.trans h'.same, ?_, ?_, ?_, h'.status.trans h.status⟩
  · rw [h'.fds, h.fds, List.append_assoc]
  · refine h.nodup.append h'.nodup ?_
    intro x hx hx'
    exact (hfresh x hx').2 hx
  · intro x hx
    rcases List.mem_append.mp hx with hx | hx
    · exact h.fresh x hx
    · exact (hfresh x hx).1

omit sys in
theorem Opens.works {new : List ℕ} {s s' s'' : State} (h : Opens new s s') (h' : Works s' s'') :
    Opens new s s'' := by
  have hall := h.trans h'.opens
  rwa [List.append_nil] at hall

omit sys in
/-- One descriptor more. -/
theorem opens_one {s s' : State} (fd : ℕ) (hfresh : fd ∉ s.fds) (hsame : Same s s')
    (hfds : s'.fds = s.fds ++ [fd]) (hstatus : s'.status = s.status) : Opens [fd] s s' :=
  ⟨hsame, hfds, List.nodup_singleton fd, fun _ hx => List.mem_singleton.mp hx ▸ hfresh, hstatus⟩

theorem qrtr_open_cases (s : State) :
    (sys.qrtr_open s.time = false ∧ qrtr_open sys s = (none, s.tick)) ∨
      (sys.qrtr_open s.time = true ∧ ∃ sock s', qrtr_open sys s = (some sock, s') ∧
        Opens [sock] s s' ∧ s'.time = s.time + 1 ∧ s'.calls = s.calls) := by
  unfold qrtr_open
  cases sys.qrtr_open s.time with
  | false => exact .inl ⟨rfl, rfl⟩
  | true =>
    exact .inr ⟨rfl, _, _, rfl, opens_one _ (free_fd_not_mem s.fds _) ⟨rfl, rfl⟩ rfl rfl, rfl, rfl⟩

theorem connect_cases (s : State) (sock : ℕ) (sq : SockaddrQrtr) :
    (sys.connect s.time = false ∧ connect sys s sock sq = (false, s.tick)) ∨
      (sys.connect s.time = true ∧ ∃ s', connect sys s sock sq = (true, s') ∧ Works s s' ∧
        s'.time = s.time + 1 ∧ s'.calls = s.calls ++ [.connect sock sq]) := by
  unfold connect
  cases sys.connect s.time with
  | false => exact .inl ⟨rfl, rfl⟩
  | true => exact .inr ⟨rfl, _, rfl, ⟨⟨rfl, rfl⟩, rfl, rfl⟩, rfl, rfl⟩

theorem open_file_cases (s : State) (filename : List UInt8) (flags : UInt32) :
    (translate_open (sys.os s.time) filename flags = none ∧
        open_file sys s filename flags = (none, s.tick)) ∨
      ∃ file, translate_open (sys.os s.time) filename flags = some file ∧
        ∃ fd s', open_file sys s filename flags = (some fd, s') ∧ Opens [fd] s s' ∧
          s'.time = s.time + 1 ∧ s'.calls = s.calls ++ [.open_ fd file] := by
  unfold open_file
  cases translate_open (sys.os s.time) filename flags with
  | none => exact .inl ⟨rfl, rfl⟩
  | some file =>
    exact .inr ⟨file, rfl, _, _, rfl, opens_one _ (free_fd_not_mem s.fds _) ⟨rfl, rfl⟩ rfl rfl, rfl, rfl⟩

/-- A read request that gets its socket gets it connected, and gets its file. -/
def handle_rrq.Granted (s : State) (filename : List UInt8) : Prop :=
  sys.qrtr_open s.time = true → sys.connect (s.time + 1) = true ∧
    (translate_open (sys.os (s.time + 2)) filename O_RDONLY).isSome

/-- A read request is not understood, or opens a socket and gives up, or opens both descriptors
and begins. -/
theorem handle_rrq_cases (s : State) (mem : List UInt8) (len : ℕ) (sq : SockaddrQrtr) :
    (handle_rrq.parse mem len = none ∧ handle_rrq sys s mem len sq = none) ∨
    (handle_rrq.parse mem len = some none ∧ handle_rrq sys s mem len sq = some s) ∨
    ∃ filename do_oack o, handle_rrq.parse mem len = some (some (filename, do_oack, o)) ∧
      ((sys.qrtr_open s.time = false ∧ ∃ s', handle_rrq sys s mem len sq = some s' ∧ Works s s') ∨
        (¬ handle_rrq.Granted sys s filename ∧
          ∃ sock s', handle_rrq sys s mem len sq = some s' ∧ Opens [sock] s s') ∨
        (handle_rrq.Granted sys s filename ∧ ∃ sock fd s1, Opens [sock, fd] s s1 ∧
          (∃ file, s1.calls = s.calls ++ [.connect sock sq, .open_ fd file]) ∧
          handle_rrq sys s mem len sq = handle_rrq.begin sys s1 sq sock fd do_oack o)) := by
  rcases hparse : handle_rrq.parse mem len with _ | _ | ⟨filename, do_oack, o⟩
  · exact .inl ⟨rfl, by rw [handle_rrq, hparse]; rfl⟩
  · exact .inr (.inl ⟨rfl, by rw [handle_rrq, hparse]; rfl⟩)
  refine .inr (.inr ⟨filename, do_oack, o, rfl, ?_⟩)
  simp only [handle_rrq, hparse, Option.bind_eq_bind, Option.bind_some]
  rcases qrtr_open_cases sys s with ⟨hno, he⟩ | ⟨hyes, sock, s1, he, hopen, htime, hcalls⟩
  · rw [he]
    exact .inl ⟨hno, _, rfl, tick_works s⟩
  rw [he]
  simp only
  rcases connect_cases sys s1 sock sq with ⟨hno, he⟩ | ⟨hconn, s2, he, hconnect, htime', hcalls'⟩
  · -- the socket is left behind
    rw [he]
    refine .inr (.inl ⟨fun hgranted => ?_, sock, _, rfl, hopen.works (tick_works s1)⟩)
    rw [htime] at hno
    exact absurd (hgranted hyes).1 (by rw [hno]; decide)
  rw [he]
  simp only
  rw [htime] at hconn htime'
  rcases open_file_cases sys s2 filename O_RDONLY with
    ⟨hno, he⟩ | ⟨file, hsome, fd, s3, he, hfile, -, hcalls''⟩
  · -- the error goes out on the new socket, and the socket is left behind
    rw [he]
    refine .inr (.inl ⟨fun hgranted => ?_, sock, _, rfl, (hopen.works hconnect).works
      ((tick_works s2).trans (tftp_send_error_works sys s2.tick sock _ _))⟩)
    rw [htime'] at hno
    exact absurd (hgranted hyes).2 (by rw [hno]; decide)
  · rw [he]
    rw [htime'] at hsome
    refine .inr (.inr ⟨fun _ => ⟨hconn, by rw [hsome]; rfl⟩, sock, fd, s3,
      (hopen.works hconnect).trans hfile, ⟨file, ?_⟩, rfl⟩)
    rw [hcalls'', hcalls', hcalls, List.append_assoc]
    rfl

/-- The new reader is appended, and then the first packet is sent. -/
theorem handle_rrq_begin_adds {s s' : State} {sq : SockaddrQrtr} {sock fd : ℕ} {do_oack : Bool}
    {o : RrqOptions} (h : handle_rrq.begin sys s sq sock fd do_oack o = some s') :
    Works { s with readers := s.readers ++ [⟨sq, sock, fd, o.blksize, o.rsize, o.wsize, o.timeoutms⟩] }
      s' := by
  unfold handle_rrq.begin at h
  simp only at h
  generalize hs1 : (if o.tsize ≠ -1 then s.tick else s) = s1 at h
  have hworks : Works s s1 := by
    rw [← hs1]
    split
    · exact tick_works s
    · exact .refl s
  obtain ⟨⟨hreaders, hwriters⟩, hfds, hstatus⟩ := hworks
  split at h
  swap
  · cases h
  rw [hreaders] at h
  generalize hs2 : ({ s1.tick with readers := s.readers ++ [_] } : State) = s2 at h
  have hnew : Works { s with readers := s.readers ++
      [⟨sq, sock, fd, o.blksize, o.rsize, o.wsize, o.timeoutms⟩] } s2 := by
    rw [← hs2]
    exact ⟨⟨rfl, hwriters⟩, hfds, hstatus⟩
  apply hnew.trans
  split at h
  · cases h
    exact send_works sys s2 sock _
  · obtain ⟨r, hr, rfl⟩ := Option.map_eq_some_iff.mp h
    exact tftp_send_data_works sys hr

/-- A write request that gets its file gets a socket, and gets it connected. -/
def handle_wrq.Granted (s : State) (filename : List UInt8) : Prop :=
  (translate_open (sys.os s.time) filename (O_WRONLY ||| O_CREAT)).isSome →
    sys.qrtr_open (s.time + 1) = true ∧ sys.connect (s.time + 2) = true

/-- A write request is not understood, or opens something and gives up, or opens both descriptors
and begins. -/
theorem handle_wrq_cases (s : State) (mem : List UInt8) (sq : SockaddrQrtr) :
    (handle_wrq.parse mem = none ∧ handle_wrq sys s mem sq = none) ∨
    (handle_wrq.parse mem = some none ∧ handle_wrq sys s mem sq = some s) ∨
    ∃ filename, handle_wrq.parse mem = some (some filename) ∧
      ((translate_open (sys.os s.time) filename (O_WRONLY ||| O_CREAT) = none ∧
          ∃ s', handle_wrq sys s mem sq = some s' ∧ Works s s') ∨
        (¬ handle_wrq.Granted sys s filename ∧
          ∃ fd new s', handle_wrq sys s mem sq = some s' ∧ Opens (fd :: new) s s') ∨
        (handle_wrq.Granted sys s filename ∧ ∃ fd sock s1, Opens [fd, sock] s s1 ∧
          (∃ file, translate_open (sys.os s.time) filename (O_WRONLY ||| O_CREAT) = some file ∧
            s1.calls = s.calls ++ [.open_ fd file, .connect sock sq]) ∧
          handle_wrq sys s mem sq = handle_wrq.begin sys s1 sq sock fd)) := by
  rcases hparse : handle_wrq.parse mem with _ | _ | filename
  · exact .inl ⟨rfl, by rw [handle_wrq, hparse]; rfl⟩
  · exact .inr (.inl ⟨rfl, by rw [handle_wrq, hparse]; rfl⟩)
  refine .inr (.inr ⟨filename, rfl, ?_⟩)
  simp only [handle_wrq, hparse, Option.bind_eq_bind, Option.bind_some]
  rcases open_file_cases sys s filename (O_WRONLY ||| O_CREAT) with
    ⟨hno, he⟩ | ⟨file, hsome, fd, s1, he, hfile, htime, hcalls⟩
  · rw [he]
    exact .inl ⟨hno, _, rfl, tick_works s⟩
  have hsome' : (translate_open (sys.os s.time) filename (O_WRONLY ||| O_CREAT)).isSome := by
    rw [hsome]
    rfl
  rw [he]
  simp only
  rcases qrtr_open_cases sys s1 with ⟨hno, he⟩ | ⟨hyes, sock, s2, he, hopen, htime', hcalls'⟩
  · -- the file is left behind
    rw [he]
    refine .inr (.inl ⟨fun hgranted => ?_, fd, [], _, rfl, hfile.works (tick_works s1)⟩)
    rw [htime] at hno
    exact absurd (hgranted hsome').1 (by rw [hno]; decide)
  rw [he]
  simp only
  rw [htime] at hyes htime'
  rcases connect_cases sys s2 sock sq with ⟨hno, he⟩ | ⟨hconn, s3, he, hconnect, -, hcalls''⟩
  · -- and here both
    rw [he]
    refine .inr (.inl ⟨fun hgranted => ?_, fd, [sock], _, rfl,
      (hfile.trans hopen).works (tick_works s2)⟩)
    rw [htime'] at hno
    exact absurd (hgranted hsome').2 (by rw [hno]; decide)
  · rw [he]
    rw [htime'] at hconn
    refine .inr (.inr ⟨fun _ => ⟨hyes, hconn⟩, fd, sock, s3, (hfile.trans hopen).works hconnect,
      ⟨file, hsome, ?_⟩, rfl⟩)
    rw [hcalls'', hcalls', hcalls, List.append_assoc]
    rfl

/-- The new writer is appended if the ACK went out, and else both descriptors are closed. -/
theorem handle_wrq_begin_adds {s s' : State} {sq : SockaddrQrtr} {sock fd : ℕ}
    (h : handle_wrq.begin sys s sq sock fd = some s') :
    (Works { s with writers := s.writers ++ [⟨sq, sock, fd, 0, 0, 0, 0⟩] } s' ∧
        s'.calls = s.calls ++ [.send sock (be16 OP_ACK ++ be16 0)]) ∨
      ∃ s1, Works s s1 ∧ s' = (s1.close sock).close fd := by
  unfold handle_wrq.begin at h
  split at h
  swap
  · cases h
  have hack : Works s (tftp_send_ack sys s.tick sock 0).2 :=
    (tick_works s).trans (send_works sys s.tick sock _)
  simp only at h
  split at h
  · cases h
    exact .inr ⟨_, hack, rfl⟩
  · rename_i hsent
    cases h
    refine .inl ⟨⟨⟨hack.same.1, congrArg (· ++ _) hack.same.2⟩, hack.fds, hack.status⟩, ?_⟩
    simp only [tftp_send_ack, send] at hsent ⊢
    rw [if_neg hsent]
    rfl

/-! ### Whom a new transfer is with -/

omit sys in
theorem Same.from_trans {s s' s'' : State} {sq : SockaddrQrtr} (h : Same s s')
    (h' : From sq s' s'') : From sq s s'' := by
  intro c hc
  rcases h' c hc with hold | hnew
  · rw [State.clients, h.1, h.2] at hold
    exact .inl hold
  · exact .inr hnew

/-- A read request of a peer. -/
theorem handle_rrq_from {s s' : State} {mem : List UInt8} {len : ℕ} {sq : SockaddrQrtr}
    (h : handle_rrq sys s mem len sq = some s') : From sq s s' := by
  rcases handle_rrq_cases sys s mem len sq with ⟨-, he⟩ | ⟨-, he⟩ | ⟨filename, do_oack, o, -, hcases⟩
  · rw [he] at h
    cases h
  · rw [he] at h
    cases h
    exact (Same.refl s).from sq
  rcases hcases with ⟨-, s1, he, hworks⟩ | ⟨-, sock, s1, he, hopens⟩ | ⟨-, sock, fd, s1, hopens, -, hbegin⟩
  · rw [he] at h
    cases h
    exact hworks.same.from sq
  · rw [he] at h
    cases h
    exact hopens.same.from sq
  · rw [hbegin] at h
    apply hopens.same.from_trans
    intro c hc
    obtain ⟨hreaders, hwriters⟩ := (handle_rrq_begin_adds sys h).same
    rw [State.clients, hreaders, hwriters, List.mem_append, List.mem_append, List.mem_singleton] at hc
    rcases hc with (hold | hnew) | hold
    · exact .inl (List.mem_append_left _ hold)
    · exact .inr (by rw [hnew])
    · exact .inl (List.mem_append_right _ hold)

/-- A write request of a peer. -/
theorem handle_wrq_from {s s' : State} {mem : List UInt8} {sq : SockaddrQrtr}
    (h : handle_wrq sys s mem sq = some s') : From sq s s' := by
  rcases handle_wrq_cases sys s mem sq with ⟨-, he⟩ | ⟨-, he⟩ | ⟨filename, -, hcases⟩
  · rw [he] at h
    cases h
  · rw [he] at h
    cases h
    exact (Same.refl s).from sq
  rcases hcases with ⟨-, s1, he, hworks⟩ | ⟨-, fd, new, s1, he, hopens⟩ | ⟨-, fd, sock, s1, hopens, -, hbegin⟩
  · rw [he] at h
    cases h
    exact hworks.same.from sq
  · rw [he] at h
    cases h
    exact hopens.same.from sq
  · rw [hbegin] at h
    apply hopens.same.from_trans
    rcases handle_wrq_begin_adds sys h with ⟨hadds, -⟩ | ⟨s2, hworks, rfl⟩
    · intro c hc
      obtain ⟨hreaders, hwriters⟩ := hadds.same
      rw [State.clients, hreaders, hwriters, List.mem_append, List.mem_append, List.mem_singleton] at hc
      rcases hc with hold | hold | hnew
      · exact .inl (List.mem_append_left _ hold)
      · exact .inl (List.mem_append_right _ hold)
      · exact .inr (by rw [hnew])
    · have hclosed : Same s1 ((s2.close sock).close fd) := hworks.same
      exact hclosed.from sq

omit sys in
/-- Transfers closed: what is left of the descriptors. -/
theorem close_all (l : List TftpClient) (s : State) :
    (l.foldl client_close_and_free s).readers = s.readers ∧
      (l.foldl client_close_and_free s).status = s.status ∧
      ∀ x, x ∈ (l.foldl client_close_and_free s).fds ↔
        x ∈ s.fds ∧ ∀ c ∈ l, x ≠ c.sock ∧ x ≠ c.fd := by
  induction l generalizing s with
  | nil => simp
  | cons c l ih =>
    obtain ⟨hreaders, hstatus, hfds⟩ := ih (client_close_and_free s c)
    refine ⟨hreaders, hstatus, fun x => ?_⟩
    rw [List.foldl_cons, hfds, List.forall_mem_cons]
    simp only [client_close_and_free, State.close, List.mem_filter, decide_eq_true_eq]
    tauto

omit sys in
/-- **What `drop_writers` does.** -/
theorem drop_writers_spec (s : State) (test : TftpClient → Bool) :
    (drop_writers s test).readers = s.readers ∧
      (drop_writers s test).writers = s.writers.filter (fun c => !test c) ∧
      ∀ x, x ∈ (drop_writers s test).fds ↔
        x ∈ s.fds ∧ ∀ c ∈ s.writers, test c = true → x ≠ c.sock ∧ x ≠ c.fd := by
  obtain ⟨hreaders, -, hfds⟩ := close_all (s.writers.filter test) s
  refine ⟨hreaders, rfl, fun x => (hfds x).trans ?_⟩
  simp only [List.mem_filter, and_imp]

omit sys in
theorem drop_writers_subset (s : State) (test : TftpClient → Bool) :
    (drop_writers s test).clients ⊆ s.clients := by
  obtain ⟨hreaders, hwriters, -⟩ := drop_writers_spec s test
  intro c hc
  rw [State.clients, hreaders, hwriters, List.mem_append] at hc
  rcases hc with hc | hc
  · exact List.mem_append_left _ hc
  · exact List.mem_append_right _ (List.mem_filter.mp hc).1

omit sys in
theorem control_subset (s : State) (sq : SockaddrQrtr) (buf : List UInt8) :
    (control s sq buf).clients ⊆ s.clients := by
  unfold control
  split
  · exact fun _ hc => hc
  split
  · exact drop_writers_subset s _
  split
  · exact drop_writers_subset s _
  · exact fun _ hc => hc

/-- No transfer is with a control port. -/
def Peers (s : State) : Prop := ∀ c ∈ s.clients, c.sq.sq_port ≠ QRTR_PORT_CTRL

omit sys in
theorem Peers.of_subset {s s' : State} (h : Peers s) (hsub : s'.clients ⊆ s.clients) : Peers s' :=
  fun c hc => h c (hsub hc)

omit sys in
theorem Peers.of_from {s s' : State} {sq : SockaddrQrtr} (h : Peers s) (hfrom : From sq s s')
    (hsq : sq.sq_port ≠ QRTR_PORT_CTRL) : Peers s' := by
  intro c hc
  rcases hfrom c hc with hold | hnew
  · exact h c hold
  · rw [hnew]
    exact hsq

theorem Peers.receive {s s' : State} (h : Peers s) {recv : Recv}
    (hr : receive sys s recv = some s') : Peers s' := by
  unfold Tqftpserv.receive at hr
  cases recv with
  | error =>
    cases hr
    exact h
  | data sq data rest =>
    simp only at hr
    split at hr
    · cases hr
      exact h.of_subset (control_subset s sq _)
    · rename_i hsq
      split at hr
      · cases hr
        exact h
      split at hr
      · exact h.of_from (handle_rrq_from sys hr) hsq
      split at hr
      · exact h.of_from (handle_wrq_from sys hr) hsq
      · cases hr
        exact h

theorem Peers.round {s s' : State} (h : Peers s) {clients : ℕ → Option Recv} {server : Option Recv}
    (hr : main.round sys s clients server = some s') : Peers s' := by
  unfold main.round at hr
  obtain ⟨⟨s1, writers⟩, hwriters, hr⟩ := Option.bind_eq_some_iff.mp hr
  obtain ⟨⟨s2, readers⟩, hreaders, hr⟩ := Option.bind_eq_some_iff.mp hr
  obtain ⟨hsame1, hsub1⟩ := serve_sublist (handle_writer_works sys) clients _ _ hwriters
  obtain ⟨hsame2, hsub2⟩ := serve_sublist (handle_reader_works sys) clients _ _ hreaders
  simp only at hsame1 hsub1 hsame2 hsub2 hr
  have hpeers : Peers { s2 with readers := readers } := by
    refine h.of_subset fun c hc => ?_
    rw [State.clients, List.mem_append] at hc
    rcases hc with hc | hc
    · exact List.mem_append_left _ (hsame1.1 ▸ hsub2.subset hc)
    · simp only at hc
      rw [hsame2.2] at hc
      exact List.mem_append_right _ (hsub1.subset hc)
  cases server with
  | none =>
    cases hr
    exact hpeers
  | some recv => exact hpeers.receive sys hr

theorem Peers.step {s : State} (h : Peers s) (round : Round) : Peers (main.step sys s round) := by
  unfold main.step
  split
  swap
  · exact h
  cases round with
  | eintr => exact h
  | failed => exact h
  | ready clients server =>
    simp only
    split
    · exact h
    · rename_i s' hr
      exact h.round sys hr

/-- **In every state the server reaches no transfer is with a control port.** -/
theorem main_run_peers (rounds : List Round) : Peers (main.run sys rounds) := by
  have hstart : Peers (main.start sys) := by
    unfold main.start
    rcases qrtr_open_cases sys ⟨.running, [], [], [], [], 0⟩ with ⟨-, he⟩ | ⟨-, sock, s, he, hopen, -, -⟩
    · rw [he]
      exact fun c hc => absurd hc List.not_mem_nil
    · have hpeers : Peers s := by
        intro c hc
        rw [State.clients, hopen.same.1, hopen.same.2] at hc
        exact absurd hc List.not_mem_nil
      rw [he]
      simp only
      split
      · exact hpeers
      · exact hpeers
  unfold main.run
  generalize main.start sys = s at hstart
  induction rounds generalizing s with
  | nil => exact hstart
  | cons round rounds ih => exact ih _ (hstart.step sys round)

end System

/-! ## Departures

A control message names the peer that is gone, and comes from a control port. The loops compare
the whole address of a transfer with that of the sender, so the condition says when this happens
to be the right test. -/

/-- A departure: of a node, or of one of its clients. -/
inductive Departure where
  | bye (n : UInt32)
  | del_client (n p : UInt32)

/-- The packet that tells of it, as `ctrl_cmd_bye` and `ctrl_cmd_del_client` build it. -/
def Departure.pkt (ns : Ns.Sys) (t : ℕ) : Departure → QrtrCtrlPkt
  | bye n => byePkt n
  | del_client n p => delClientPkt ns n p t

/-- The peers that are gone. -/
def Departure.gone : Departure → SockaddrQrtr → Bool
  | bye n, sq => sq.sq_node = n
  | del_client n p, sq => sq = ⟨n, p⟩

/-- The transfers of the peers that are gone are closed and removed, and no others. -/
structure Forgets (gone : SockaddrQrtr → Bool) (s s' : State) : Prop where
  readers : s'.readers = s.readers.filter fun c => !gone c.sq
  writers : s'.writers = s.writers.filter fun c => !gone c.sq
  fds : ∀ x, x ∈ s'.fds ↔ x ∈ s.fds ∧ ∀ c ∈ s.clients, gone c.sq = true → x ≠ c.sock ∧ x ≠ c.fd

/-- No reader on the node, and no writer on it or on the local node unless they are the same; or no
transfer with the client. -/
def Departure.Unnoticed (local_node : UInt32) (s : State) : Departure → Prop
  | bye n => (∀ c ∈ s.readers, c.sq.sq_node ≠ n) ∧
      (n = local_node ∨ ∀ c ∈ s.writers, c.sq.sq_node ≠ n ∧ c.sq.sq_node ≠ local_node)
  | del_client n p => ∀ c ∈ s.clients, c.sq ≠ ⟨n, p⟩

/-- A round with nothing for the transfers. -/
theorem main_round_server (sys : Sys) (s : State) (recv : Recv) :
    main.round sys s (fun _ => none) (some recv) = receive sys s recv := by
  unfold main.round
  simp only [serve_idle, Option.bind_eq_bind, Option.bind_some]

/-- The writers that are closed on a departure: those of the sender of the packet. -/
def Departure.closes (local_node : UInt32) (c : TftpClient) : Departure → Bool
  | bye _ => c.sq.sq_node = local_node
  | del_client _ _ => c.sq = ⟨local_node, QRTR_PORT_CTRL⟩

/-- What the server does on a departure. -/
theorem step_departure (sys : Sys) {s : State} (hrun : s.status = .running) (ns : Ns.Sys) (t : ℕ)
    (local_node : UInt32) (dep : Departure) (rest : List UInt8) :
    main.step sys s (.ready (fun _ => none)
        (some (.data ⟨local_node, QRTR_PORT_CTRL⟩ (dep.pkt ns t).bytes rest))) =
      drop_writers s fun c => dep.closes local_node c := by
  have htake : (dep.pkt ns t).bytes.take 4096 = (dep.pkt ns t).bytes :=
    List.take_of_length_le (by rw [QrtrCtrlPkt.bytes_length]; decide)
  unfold main.step
  simp only [if_pos hrun, main_round_server, receive, htake, if_true]
  unfold control qrtr_decode
  rw [if_pos rfl, QrtrCtrlPkt.bytes_length, if_neg (by decide), ctrl_bytes]
  cases dep with
  | bye n => rfl
  | del_client n p => rfl

theorem filter_eq_filter_iff {α : Type} {l : List α} {p q : α → Bool} :
    l.filter p = l.filter q ↔ ∀ x ∈ l, p x = q x := by
  refine ⟨fun h x hx => ?_, List.filter_congr⟩
  have hmem : x ∈ l.filter p ↔ x ∈ l.filter q := by rw [h]
  rw [List.mem_filter, List.mem_filter] at hmem
  rw [Bool.eq_iff_iff]
  exact ⟨fun hp => (hmem.mp ⟨hx, hp⟩).2, fun hq => (hmem.mpr ⟨hx, hq⟩).2⟩

/-- The right transfers are closed if no reader is gone and the writers that are closed are those
that are. -/
theorem forgets_drop_writers_iff (gone : SockaddrQrtr → Bool) (s : State) (test : TftpClient → Bool) :
    Forgets gone s (drop_writers s test) ↔
      (∀ c ∈ s.readers, gone c.sq = false) ∧ ∀ c ∈ s.writers, test c = gone c.sq := by
  obtain ⟨hreaders, hwriters, hfds⟩ := drop_writers_spec s test
  constructor
  · rintro ⟨hr, hw, -⟩
    rw [hreaders] at hr
    rw [hwriters, filter_eq_filter_iff] at hw
    refine ⟨fun c hc => ?_, fun c hc => Bool.not_inj (hw c hc)⟩
    simpa using List.filter_eq_self.mp hr.symm c hc
  · rintro ⟨hr, hw⟩
    refine ⟨?_, ?_, fun x => (hfds x).trans ?_⟩
    · rw [hreaders, eq_comm, List.filter_eq_self]
      intro c hc
      rw [hr c hc]
      rfl
    · rw [hwriters, filter_eq_filter_iff]
      intro c hc
      rw [hw c hc]
    · refine and_congr_right fun _ => ?_
      rw [State.clients]
      constructor
      · intro h c hc hgone
        rcases List.mem_append.mp hc with hc | hc
        · rw [hr c hc] at hgone
          cases hgone
        · exact h c hc (by rw [hw c hc, hgone])
      · intro h c hc htest
        exact h c (List.mem_append_right _ hc) (by rw [← hw c hc, htest])

/-- **The transfers of a peer that is gone are forgotten exactly if nothing depends on its name**: in
every state the server reaches. -/
theorem forgets_iff (sys : Sys) (rounds : List Round)
    (hrun : (main.run sys rounds).status = .running) (ns : Ns.Sys) (t : ℕ) (local_node : UInt32)
    (dep : Departure) (rest : List UInt8) :
    Forgets dep.gone (main.run sys rounds) (main.step sys (main.run sys rounds)
        (.ready (fun _ => none)
          (some (.data ⟨local_node, QRTR_PORT_CTRL⟩ (dep.pkt ns t).bytes rest)))) ↔
      dep.Unnoticed local_node (main.run sys rounds) := by
  have hpeers := main_run_peers sys rounds
  rw [step_departure sys hrun, forgets_drop_writers_iff]
  generalize main.run sys rounds = s at hpeers
  cases dep with
  | bye n =>
    simp only [Departure.gone, Departure.closes, Departure.Unnoticed, decide_eq_false_iff_not,
      decide_eq_decide]
    refine and_congr_right fun _ => ⟨fun h => ?_, fun h c hc => ?_⟩
    · by_cases hn : n = local_node
      · exact .inl hn
      refine .inr fun c hc => ⟨fun hgone => ?_, fun hlocal => ?_⟩
      · exact hn (hgone.symm.trans ((h c hc).mpr hgone))
      · exact hn (((h c hc).mp hlocal).symm.trans hlocal)
    · rcases h with rfl | h
      · exact Iff.rfl
      · exact ⟨fun hlocal => absurd hlocal (h c hc).2, fun hgone => absurd hgone (h c hc).1⟩
  | del_client n p =>
    simp only [Departure.gone, Departure.closes, Departure.Unnoticed, decide_eq_false_iff_not,
      decide_eq_decide]
    -- no transfer is with the control port, so no writer is closed
    have hkeep : ∀ c ∈ s.writers, c.sq ≠ ⟨local_node, QRTR_PORT_CTRL⟩ := by
      intro c hc heq
      exact hpeers c (List.mem_append_right _ hc) (by rw [heq])
    constructor
    · rintro ⟨hr, hw⟩ c hc
      rcases List.mem_append.mp hc with hc | hc
      · exact hr c hc
      · exact fun hgone => hkeep c hc ((hw c hc).mpr hgone)
    · intro h
      refine ⟨fun c hc => h c (List.mem_append_left _ hc), fun c hc => ?_⟩
      exact ⟨fun hlocal => absurd hlocal (hkeep c hc),
        fun hgone => absurd hgone (h c (List.mem_append_right _ hc))⟩

/-- A system on which everything succeeds. -/
def obliging : Sys where
  qrtr_open _ := true
  qrtr_publish _ := true
  connect _ := true
  os _ := ⟨some [], true, true, fun _ => true⟩
  pick _ := 3
  malloc _ _ := true
  fstat _ _ := 0
  pread _ _ _ _ := some []
  send _ _ data := data.length
  write _ _ data := data.length
  fuel := 65536

/-- A write request of a peer. -/
def logRequest (sq : SockaddrQrtr) : Round :=
  .ready (fun _ => none)
    (some (.data sq (be16 OP_WRQ ++ ascii "/readwrite/log" ++ [0] ++ ascii "octet" ++ [0]) []))

/-- A peer on the local node is forgotten with its node. -/
theorem forgets_local_peer :
    Forgets (Departure.bye 1).gone (main.run obliging [logRequest ⟨1, 7⟩])
      (main.step obliging (main.run obliging [logRequest ⟨1, 7⟩]) (.ready (fun _ => none)
        (some (.data ⟨1, QRTR_PORT_CTRL⟩ ((Departure.bye 1).pkt Ns.allWell 0).bytes [])))) := by
  have hreaders : (main.run obliging [logRequest ⟨1, 7⟩]).readers = [] := by decide +kernel
  refine (forgets_iff obliging [logRequest ⟨1, 7⟩] (by decide +kernel) Ns.allWell 0 1 (.bye 1) []).mpr
    ⟨?_, .inl rfl⟩
  rw [hreaders]
  exact fun c hc => absurd hc List.not_mem_nil

/-- A peer on another node is not. -/
theorem bye_keeps_remote_peer :
    ¬ ∀ (sys : Sys) (rounds : List Round), (main.run sys rounds).status = .running →
      ∀ (ns : Ns.Sys) (t : ℕ) (local_node : UInt32) (dep : Departure) (rest : List UInt8),
        Forgets dep.gone (main.run sys rounds) (main.step sys (main.run sys rounds)
          (.ready (fun _ => none)
            (some (.data ⟨local_node, QRTR_PORT_CTRL⟩ (dep.pkt ns t).bytes rest)))) := by
  intro h
  have hforgets := h obliging [logRequest ⟨5, 7⟩] (by decide +kernel) Ns.allWell 0 1 (.bye 5) []
  exact absurd hforgets.writers (by decide +kernel)

end Dragonboard.Tqftpserv
