/-
The descriptors of `tqftpserv`.

Every transfer owns a socket and a file, the server owns its own socket, and no descriptor has
two owners (`Books`). What is open beyond these is lost for good: nothing closes it.
Serving the transfers, and what the name server tells, lose nothing (`Accounts`), since
`client_close_and_free` closes what the transfer owns. A request loses what it has opened
when it gives up between its two descriptors, and so the descriptors that are open are the
owned ones exactly as long as every request is granted (`exact_iff_granted`).

A transfer also ends when its socket receives something from another peer: the handlers return
for it what they return for a failure (`spoofed_not_discarded`).
-/
import Dragonboard.TqftpservDeparture

set_option autoImplicit false

namespace Dragonboard.Tqftpserv

open Dragonboard.Ns Dragonboard.Qrtr Dragonboard.Translate

/-! ## Who owns what

Every open descriptor should belong to a transfer or be the socket of the server. One that belongs
to nobody is lost: nothing in the server closes it any more. -/

/-- The descriptors of some transfers. -/
def heldBy (clients : List TftpClient) : List ℕ := clients.flatMap fun c => [c.sock, c.fd]

/-- The descriptors of all transfers. -/
def State.held (s : State) : List ℕ := heldBy s.clients

/-- The server's own socket. -/
def serverSock (sys : Sys) : ℕ := free_fd [] (sys.pick 0)

/-- What is owned is open, and owned once. -/
structure Books (server : ℕ) (s : State) : Prop where
  nodup : (server :: s.held).Nodup
  isOpen : ∀ x ∈ server :: s.held, x ∈ s.fds

/-- A descriptor that is open, and that nobody owns. -/
def Lost (server : ℕ) (s : State) (x : ℕ) : Prop := x ∈ s.fds ∧ x ∉ server :: s.held

/-- The open descriptors are the server socket and the `sock` and `fd` of each transfer. -/
def Exact (server : ℕ) (s : State) : Prop :=
  ∀ x, x ∈ s.fds ↔ x = server ∨ ∃ c ∈ s.clients, x = c.sock ∨ x = c.fd

/-- Nothing is lost, and nothing that was lost is found. -/
def Accounts (server : ℕ) (s s' : State) : Prop :=
  Books server s → Books server s' ∧ ∀ x, Lost server s' x ↔ Lost server s x

@[simp] theorem heldBy_append (l l' : List TftpClient) : heldBy (l ++ l') = heldBy l ++ heldBy l' :=
  List.flatMap_append

theorem mem_heldBy {clients : List TftpClient} {x : ℕ} :
    x ∈ heldBy clients ↔ ∃ c ∈ clients, x = c.sock ∨ x = c.fd := by
  simp [heldBy]

theorem exact_iff {server : ℕ} {s : State} (h : Books server s) :
    Exact server s ↔ ∀ x, ¬ Lost server s x := by
  have howned : ∀ x, x ∈ server :: s.held ↔ x = server ∨ ∃ c ∈ s.clients, x = c.sock ∨ x = c.fd := by
    intro x
    rw [List.mem_cons, State.held, mem_heldBy]
  constructor
  · intro hexact x hlost
    exact hlost.2 ((howned x).mpr ((hexact x).mp hlost.1))
  · intro hnone x
    rw [← howned]
    constructor
    · intro hx
      by_contra hx'
      exact hnone x ⟨hx, hx'⟩
    · exact h.isOpen x

theorem Accounts.refl (server : ℕ) (s : State) : Accounts server s s :=
  fun h => ⟨h, fun _ => Iff.rfl⟩

theorem Accounts.trans {server : ℕ} {s s' s'' : State} (h : Accounts server s s')
    (h' : Accounts server s' s'') : Accounts server s s'' := by
  intro hs
  obtain ⟨hs', hlost⟩ := h hs
  obtain ⟨hs'', hlost'⟩ := h' hs'
  exact ⟨hs'', fun x => (hlost' x).trans (hlost x)⟩

/-- Only the transfers and the descriptors matter. -/
theorem Accounts.of_eq {server : ℕ} {s s' : State} (hclients : s'.clients = s.clients)
    (hfds : s'.fds = s.fds) : Accounts server s s' := by
  intro hs
  have hheld : s'.held = s.held := congrArg heldBy hclients
  refine ⟨⟨by rw [hheld]; exact hs.nodup, by rw [hheld, hfds]; exact hs.isOpen⟩, fun x => ?_⟩
  rw [Lost, Lost, hheld, hfds]

theorem Works.accounts {server : ℕ} {s s' : State} (h : Works s s') : Accounts server s s' :=
  .of_eq (by rw [State.clients, State.clients, h.same.1, h.same.2]) h.fds

/-- Transfers are closed and removed. -/
theorem Accounts.close {server : ℕ} {s s' : State} (dropped : List TftpClient)
    (hclients : (s'.clients ++ dropped).Perm s.clients)
    (hfds : ∀ x, x ∈ s'.fds ↔ x ∈ s.fds ∧ x ∉ heldBy dropped) : Accounts server s s' := by
  intro hs
  have hperm : (server :: (s'.held ++ heldBy dropped)).Perm (server :: s.held) := by
    apply List.Perm.cons
    rw [State.held, ← heldBy_append]
    exact hclients.flatMap_right _
  have hnodup := hperm.nodup_iff.mpr hs.nodup
  rw [← List.cons_append] at hperm hnodup
  -- what stays owned is not owned by a transfer that went
  have hapart : ∀ x ∈ server :: s'.held, x ∉ heldBy dropped := by
    intro x hx hx'
    exact List.disjoint_of_nodup_append hnodup hx hx'
  refine ⟨⟨hnodup.of_append_left, ?_⟩, ?_⟩
  · intro x hx
    exact (hfds x).mpr ⟨hs.isOpen x (hperm.subset (List.mem_append_left _ hx)), hapart x hx⟩
  · intro x
    rw [Lost, Lost, hfds, ← hperm.mem_iff, List.mem_append]
    tauto

/-- A transfer is added, with two descriptors that were opened for it. -/
theorem Opens.accounts {server : ℕ} {new : List ℕ} {s s1 s' : State} (h : Opens new s s1)
    {client : TftpClient} (hclients : s'.clients.Perm (client :: s.clients)) (hfds : s'.fds = s1.fds)
    (hnew : new.Perm [client.sock, client.fd]) : Accounts server s s' := by
  intro hs
  have hheld : (server :: s'.held).Perm (new ++ server :: s.held) := by
    have hperm : s'.held.Perm ([client.sock, client.fd] ++ s.held) := hclients.flatMap_right _
    exact ((hperm.trans (hnew.symm.append_right _)).cons server).trans List.perm_middle.symm
  have hmem : ∀ x, x ∈ s'.fds ↔ x ∈ s.fds ∨ x ∈ new := by
    intro x
    rw [hfds, h.fds, List.mem_append]
  refine ⟨⟨?_, ?_⟩, ?_⟩
  · rw [hheld.nodup_iff]
    refine h.nodup.append hs.nodup ?_
    intro x hx hx'
    exact h.fresh x hx (hs.isOpen x hx')
  · intro x hx
    rw [hmem]
    rcases List.mem_append.mp (hheld.mem_iff.mp hx) with hx | hx
    · exact .inr hx
    · exact .inl (hs.isOpen x hx)
  · intro x
    have hfresh := h.fresh x
    rw [Lost, Lost, hmem, hheld.mem_iff, List.mem_append]
    tauto

/-- Descriptors are opened, and no transfer owns them. -/
theorem Opens.books {server : ℕ} {new : List ℕ} {s s' : State} (h : Opens new s s')
    (hs : Books server s) : Books server s' ∧ ∀ x ∈ new, Lost server s' x := by
  have hheld : s'.held = s.held := by
    rw [State.held, State.held, State.clients, State.clients, h.same.1, h.same.2]
  refine ⟨⟨by rw [hheld]; exact hs.nodup, ?_⟩, ?_⟩
  · intro x hx
    rw [h.fds]
    exact List.mem_append_left _ (hs.isOpen x (hheld ▸ hx))
  · intro x hx
    refine ⟨by rw [h.fds]; exact List.mem_append_right _ hx, ?_⟩
    rw [hheld]
    exact fun howned => h.fresh x hx (hs.isOpen x howned)

/-! ## Serving the transfers

A transfer that ends has its two descriptors closed. -/

/-- A loop over transfers closes what the transfers own that it drops. -/
theorem serve_closes {handle : State → TftpClient → Recv → Option (ℤ × State)}
    (hhandle : ∀ s client recv r, handle s client recv = some r → Works s r.2)
    (ready : ℕ → Option Recv) (clients : List TftpClient) (s : State) {r : State × List TftpClient}
    (h : serve handle ready clients s = some r) :
    ∃ dropped, (r.2 ++ dropped).Perm clients ∧
      (∀ x, x ∈ r.1.fds ↔ x ∈ s.fds ∧ x ∉ heldBy dropped) ∧ r.1.status = s.status := by
  induction clients generalizing s r with
  | nil =>
    cases h
    exact ⟨[], .refl _, fun x => by simp [heldBy], rfl⟩
  | cons client clients ih =>
    -- the transfer goes on
    have hkeep : ∀ s', s'.fds = s.fds → s'.status = s.status →
        (serve handle ready clients s').map (fun r => (r.1, client :: r.2)) = some r →
        ∃ dropped, (r.2 ++ dropped).Perm (client :: clients) ∧
          (∀ x, x ∈ r.1.fds ↔ x ∈ s.fds ∧ x ∉ heldBy dropped) ∧ r.1.status = s.status := by
      intro s' hfds hstatus h
      obtain ⟨r', hr', rfl⟩ := Option.map_eq_some_iff.mp h
      obtain ⟨dropped, hperm, hx, hst⟩ := ih s' hr'
      exact ⟨dropped, hperm.cons client, fun x => by rw [hx, hfds], hst.trans hstatus⟩
    rw [serve] at h
    cases hready : ready client.sock with
    | none =>
      rw [hready] at h
      exact hkeep s rfl rfl h
    | some recv =>
      rw [hready] at h
      obtain ⟨⟨ret, s1⟩, hret, h⟩ := Option.bind_eq_some_iff.mp h
      have hworks := hhandle s client recv _ hret
      simp only at h hworks
      split at h
      · obtain ⟨dropped, hperm, hx, hst⟩ := ih _ h
        refine ⟨client :: dropped, List.perm_middle.trans (hperm.cons client), fun x => ?_,
          hst.trans hworks.status⟩
        rw [hx]
        simp only [client_close_and_free, State.close, List.mem_filter, decide_eq_true_eq, hworks.fds,
          heldBy, List.flatMap_cons, List.mem_append, List.mem_cons, List.not_mem_nil, or_false]
        tauto
      · exact hkeep s1 hworks.fds hworks.status h

section System

variable (sys : Sys) (server : ℕ)

/-- The state after the two loops over the transfers. -/
def main.served (s : State) (clients : ℕ → Option Recv) : Option State := do
  let (s, writers) ← serve (handle_writer sys) clients s.writers s
  let s := { s with writers := writers }
  let (s, readers) ← serve (handle_reader sys) clients s.readers s
  return { s with readers := readers }

theorem main_round_eq (s : State) (clients : ℕ → Option Recv) (server : Option Recv) :
    main.round sys s clients server =
      (main.served sys s clients).bind fun s => match server with
        | none => some s
        | some recv => receive sys s recv := by
  unfold main.round main.served
  cases serve (handle_writer sys) clients s.writers s with
  | none => rfl
  | some r =>
    obtain ⟨s1, writers⟩ := r
    simp only [Option.bind_eq_bind, Option.bind_some]
    cases serve (handle_reader sys) clients s1.readers { s1 with writers := writers } with
    | none => rfl
    | some r =>
      cases server <;> rfl

theorem served_accounts {s s' : State} {clients : ℕ → Option Recv}
    (h : main.served sys s clients = some s') :
    Accounts server s s' ∧ s'.status = s.status := by
  unfold main.served at h
  obtain ⟨⟨s1, writers⟩, hwriters, h⟩ := Option.bind_eq_some_iff.mp h
  obtain ⟨⟨s2, readers⟩, hreaders, h⟩ := Option.bind_eq_some_iff.mp h
  cases h
  obtain ⟨hsame1, -⟩ := serve_sublist (handle_writer_works sys) clients _ _ hwriters
  obtain ⟨hsame2, -⟩ := serve_sublist (handle_reader_works sys) clients _ _ hreaders
  obtain ⟨dropped, hperm, hfds, hstatus⟩ := serve_closes (handle_writer_works sys) clients _ _ hwriters
  obtain ⟨dropped', hperm', hfds', hstatus'⟩ := serve_closes (handle_reader_works sys) clients _ _ hreaders
  simp only at hsame1 hsame2 hperm hfds hstatus hperm' hfds' hstatus'
  have h1 : Accounts server s { s1 with writers := writers } := by
    refine .close dropped ?_ hfds
    rw [State.clients, State.clients, hsame1.1, List.append_assoc]
    exact hperm.append_left _
  have h2 : Accounts server { s1 with writers := writers } { s2 with readers := readers } := by
    refine .close dropped' ?_ hfds'
    rw [State.clients, State.clients]
    simp only [hsame2.2]
    rw [List.append_assoc]
    exact (List.perm_append_comm.append_left _).trans
      (by rw [← List.append_assoc]; exact hperm'.append_right _)
  exact ⟨h1.trans h2, hstatus'.trans hstatus⟩

/-! ## Requests

A request opens a file and a socket and connects the socket. If a step fails, what was opened before stays open, and that
is what the condition excludes. -/

/-- A read request is granted, if it is one the server understands. -/
def RrqGranted (s : State) (mem : List UInt8) (len : ℕ) : Prop :=
  ∀ filename do_oack o, handle_rrq.parse mem len = some (some (filename, do_oack, o)) →
    handle_rrq.Granted sys s filename

/-- A write request is granted, if it is one the server understands. -/
def WrqGranted (s : State) (mem : List UInt8) : Prop :=
  ∀ filename, handle_wrq.parse mem = some (some filename) → handle_wrq.Granted sys s filename

/-- A request that gets its first descriptor gets the other one too, and its socket
connected. -/
def Granted (s : State) : Recv → Prop
  | .error => True
  | .data sq data rest =>
    let buf := data.take 4096
    let mem := buf ++ rest
    sq.sq_port ≠ QRTR_PORT_CTRL → 2 ≤ buf.length →
      (be16At mem 0 = OP_RRQ → RrqGranted sys s mem buf.length) ∧
      (be16At mem 0 = OP_WRQ → WrqGranted sys s mem)

/-- The books are kept, and a descriptor is lost exactly if the condition fails. A server that
crashes loses nothing. -/
def Loses (s : State) (result : Option State) (granted : Prop) : Prop :=
  (∀ s', result = some s' → Books server s') ∧
    ((granted ∧ ∀ s', result = some s' → ∀ x, Lost server s' x ↔ Lost server s x) ∨
      (¬ granted ∧ ∃ s', result = some s' ∧ s'.status = s.status ∧ ∃ x, Lost server s' x))

omit sys in
variable {server} in
theorem Accounts.loses {s : State} {result : Option State} {granted : Prop} (hs : Books server s)
    (hgranted : granted) (h : ∀ s', result = some s' → Accounts server s s') :
    Loses server s result granted :=
  ⟨fun s' he => (h s' he hs).1, .inl ⟨hgranted, fun s' he => (h s' he hs).2⟩⟩

omit sys in
variable {server} in
theorem Opens.loses {s s' : State} {fd : ℕ} {new : List ℕ} {granted : Prop} (hs : Books server s)
    (hdenied : ¬ granted) (h : Opens (fd :: new) s s') : Loses server s (some s') granted := by
  obtain ⟨hs', hlost⟩ := h.books hs
  refine ⟨?_, .inr ⟨hdenied, s', rfl, h.status, fd, hlost fd List.mem_cons_self⟩⟩
  intro s'' he
  cases he
  exact hs'

omit sys in
variable {server} in
theorem Accounts.loses_some {s s' : State} {granted : Prop} (h : Accounts server s s')
    (hs : Books server s) (hgranted : granted) : Loses server s (some s') granted := by
  apply Accounts.loses hs hgranted
  intro s'' he
  cases he
  exact h

theorem rrq_loses {s : State} (hs : Books server s) (mem : List UInt8) (len : ℕ) (sq : SockaddrQrtr) :
    Loses server s (handle_rrq sys s mem len sq) (RrqGranted sys s mem len) := by
  rcases handle_rrq_cases sys s mem len sq with
    ⟨hparse, he⟩ | ⟨hparse, he⟩ | ⟨filename, do_oack, o, hparse, hcases⟩
  · rw [he]
    refine Accounts.loses hs (fun filename do_oack o hparse' => ?_) (fun s' he => by cases he)
    rw [hparse] at hparse'
    cases hparse'
  · rw [he]
    refine (Accounts.refl server s).loses_some hs fun filename do_oack o hparse' => ?_
    rw [hparse] at hparse'
    cases hparse'
  -- there is only one request to grant
  have hone : RrqGranted sys s mem len ↔ handle_rrq.Granted sys s filename := by
    refine ⟨fun hall => hall filename do_oack o hparse, ?_⟩
    intro hgranted filename' do_oack' o' hparse'
    rw [hparse] at hparse'
    cases hparse'
    exact hgranted
  rw [hone]
  rcases hcases with
    ⟨hno, s1, he, hworks⟩ | ⟨hdenied, sock, s1, he, hopens⟩ | ⟨hgranted, sock, fd, s1, hopens, -, he⟩
  · rw [he]
    refine hworks.accounts.loses_some hs fun hyes => ?_
    rw [hno] at hyes
    cases hyes
  · rw [he]
    exact hopens.loses hs hdenied
  · rw [he]
    apply Accounts.loses hs hgranted
    intro s' hbegin
    have hadds := handle_rrq_begin_adds sys hbegin
    have hperm : s'.clients.Perm (⟨sq, sock, fd, o.blksize, o.rsize, o.wsize, o.timeoutms⟩ :: s.clients) := by
      rw [State.clients, State.clients, hadds.same.1, hadds.same.2]
      simp only [hopens.same.1, hopens.same.2]
      rw [List.append_assoc]
      exact List.perm_middle
    exact hopens.accounts hperm hadds.fds (.refl _)

omit sys in
variable {server} in
/-- What was opened is closed again. -/
theorem Opens.close {s s1 : State} {fd sock : ℕ} (h : Opens [fd, sock] s s1) :
    Accounts server s ((s1.close sock).close fd) := by
  have hfresh := h.fresh
  simp only [List.mem_cons, List.not_mem_nil, or_false, forall_eq_or_imp, forall_eq] at hfresh
  refine .of_eq ?_ ?_
  · show s1.clients = s.clients
    rw [State.clients, State.clients, h.same.1, h.same.2]
  · show ((s1.fds.filter (· ≠ sock)).filter (· ≠ fd)) = s.fds
    have hnone : [fd, sock].filter (fun x => decide (x ≠ fd) && decide (x ≠ sock)) = [] := by
      simp
    have hall : s.fds.filter (fun x => decide (x ≠ fd) && decide (x ≠ sock)) = s.fds := by
      rw [List.filter_eq_self]
      intro x hx
      have hfd : x ≠ fd := fun he => hfresh.1 (he ▸ hx)
      have hsock : x ≠ sock := fun he => hfresh.2 (he ▸ hx)
      simp [hfd, hsock]
    rw [h.fds, List.filter_filter, List.filter_append, hnone, hall, List.append_nil]

theorem wrq_loses {s : State} (hs : Books server s) (mem : List UInt8) (sq : SockaddrQrtr) :
    Loses server s (handle_wrq sys s mem sq) (WrqGranted sys s mem) := by
  rcases handle_wrq_cases sys s mem sq with ⟨hparse, he⟩ | ⟨hparse, he⟩ | ⟨filename, hparse, hcases⟩
  · rw [he]
    refine Accounts.loses hs (fun filename hparse' => ?_) (fun s' he => by cases he)
    rw [hparse] at hparse'
    cases hparse'
  · rw [he]
    refine (Accounts.refl server s).loses_some hs fun filename hparse' => ?_
    rw [hparse] at hparse'
    cases hparse'
  have hone : WrqGranted sys s mem ↔ handle_wrq.Granted sys s filename := by
    refine ⟨fun hall => hall filename hparse, ?_⟩
    intro hgranted filename' hparse'
    rw [hparse] at hparse'
    cases hparse'
    exact hgranted
  rw [hone]
  rcases hcases with
    ⟨hno, s1, he, hworks⟩ | ⟨hdenied, fd, new, s1, he, hopens⟩ | ⟨hgranted, fd, sock, s1, hopens, -, he⟩
  · rw [he]
    refine hworks.accounts.loses_some hs fun hyes => ?_
    rw [hno] at hyes
    cases hyes
  · rw [he]
    exact hopens.loses hs hdenied
  · rw [he]
    apply Accounts.loses hs hgranted
    intro s' hbegin
    rcases handle_wrq_begin_adds sys hbegin with ⟨hadds, -⟩ | ⟨s2, hworks, rfl⟩
    · have hperm : s'.clients.Perm (⟨sq, sock, fd, 0, 0, 0, 0⟩ :: s.clients) := by
        rw [State.clients, State.clients, hadds.same.1, hadds.same.2]
        simp only [hopens.same.1, hopens.same.2]
        rw [← List.append_assoc]
        exact List.perm_append_singleton _ _
      exact hopens.accounts hperm hadds.fds (List.Perm.swap ..)
    · -- the ACK did not go out
      exact (hopens.works hworks).close

theorem control_accounts (s : State) (sq : SockaddrQrtr) (buf : List UInt8) :
    Accounts server s (control s sq buf) := by
  have hdrop : ∀ test, Accounts server s (drop_writers s test) := by
    intro test
    obtain ⟨hreaders, hwriters, hfds⟩ := drop_writers_spec s test
    refine .close (s.writers.filter test) ?_ ?_
    · rw [State.clients, State.clients, hreaders, hwriters, List.append_assoc]
      refine List.Perm.append_left _ ?_
      exact List.perm_append_comm.trans (List.filter_append_perm test s.writers)
    · intro x
      rw [hfds, mem_heldBy]
      simp only [List.mem_filter, not_exists, not_and, not_or, and_imp]
  unfold control
  split
  · exact .of_eq rfl rfl
  split
  · exact hdrop _
  split
  · exact hdrop _
  · exact .refl server s

/-- What is received on the server socket loses a descriptor exactly if it is a request that is
not granted. -/
theorem receive_loses {s : State} (hs : Books server s) (recv : Recv) :
    Loses server s (receive sys s recv) (Granted sys s recv) := by
  cases recv with
  | error =>
    exact Accounts.loses_some (.of_eq rfl rfl) hs trivial
  | data sq data rest =>
    simp only [receive, Granted]
    split
    · rename_i hctrl
      exact (control_accounts server s sq _).loses_some hs fun hport => absurd hctrl hport
    rename_i hport
    split
    · rename_i hshort
      exact (Accounts.refl server s).loses_some hs fun _ hlen => absurd hshort (by omega)
    rename_i hlen
    have hlen' : 2 ≤ (data.take 4096).length := by omega
    split
    · rename_i hop
      have hne : ¬ OP_RRQ = OP_WRQ := by decide
      simp only [hop, hne, ne_eq, hport, not_false_eq_true, hlen', true_implies, false_implies, and_true]
      exact rrq_loses sys server hs _ _ sq
    rename_i hop
    split
    · rename_i hop'
      have hne : ¬ OP_WRQ = OP_RRQ := by decide
      simp only [hop', hne, ne_eq, hport, not_false_eq_true, hlen', true_implies, false_implies, true_and]
      exact wrq_loses sys server hs _ sq
    · rename_i hop'
      exact (Accounts.refl server s).loses_some hs fun _ _ =>
        ⟨fun he => absurd he hop, fun he => absurd he hop'⟩

/-! ## Runs

What is lost stays lost, so the condition is about all requests of the run. -/

/-- A request that a round brings is granted, in the state in which the server meets it. -/
def Round.Granted (s : State) : Round → Prop
  | .ready clients (some recv) => s.status = .running →
    ∀ s', main.served sys s clients = some s' → Tqftpserv.Granted sys s' recv
  | _ => True

theorem step_loses {s : State} (hs : Books server s) (round : Round) :
    Loses server s (some (main.step sys s round)) (round.Granted sys s) := by
  unfold main.step
  split
  swap
  · rename_i hstopped
    refine (Accounts.refl server s).loses_some hs ?_
    match round with
    | .eintr | .failed | .ready _ none => trivial
    | .ready _ (some _) => exact fun hrun => absurd hrun hstopped
  rename_i hrun
  cases round with
  | eintr => exact (Accounts.refl server s).loses_some hs trivial
  | failed => exact Accounts.loses_some (.of_eq rfl rfl) hs trivial
  | ready clients recv =>
    have hcrash : Accounts server s { s with status := .crashed } := .of_eq rfl rfl
    simp only [main_round_eq]
    cases hserved : main.served sys s clients with
    | none =>
      refine hcrash.loses_some hs ?_
      cases recv with
      | none => trivial
      | some recv =>
        intro _ s' he
        rw [hserved] at he
        cases he
    | some s1 =>
      obtain ⟨haccounts, hstatus⟩ := served_accounts sys server hserved
      rw [Option.bind_some]
      cases recv with
      | none => exact haccounts.loses_some hs trivial
      | some recv =>
        -- the request is met in the state after the transfers were served
        have hgranted : Round.Granted sys s (.ready clients (some recv)) ↔ Granted sys s1 recv := by
          refine ⟨fun h => h hrun s1 hserved, fun h _ s' he => ?_⟩
          rw [hserved] at he
          cases he
          exact h
        obtain ⟨hs1, hlost1⟩ := haccounts hs
        obtain ⟨hbooks, hcases⟩ := receive_loses sys server hs1 recv
        rw [hgranted]
        simp only
        cases hreceive : receive sys s1 recv with
        | none =>
          rw [hreceive] at hcases
          rcases hcases with ⟨hyes, -⟩ | ⟨-, s2, he, -⟩
          · exact hcrash.loses_some hs hyes
          · cases he
        | some s2 =>
          rw [hreceive] at hcases hbooks
          rcases hcases with ⟨hyes, hlost⟩ | ⟨hno, s2, he, hstatus', hlost⟩
          · refine Accounts.loses_some (fun _ => ⟨hbooks s2 rfl, fun x => ?_⟩) hs hyes
            exact (hlost s2 rfl x).trans (hlost1 x)
          · cases he
            refine ⟨?_, .inr ⟨hno, s2, rfl, hstatus'.trans hstatus, hlost⟩⟩
            intro s' he
            cases he
            exact hbooks s2 rfl

omit server

theorem step_running {s : State} {round : Round} (h : (main.step sys s round).status = .running) :
    s.status = .running := by
  by_contra hstopped
  unfold main.step at h
  rw [if_neg hstopped] at h
  exact hstopped h

theorem main_run_append (rounds : List Round) (round : Round) :
    main.run sys (rounds ++ [round]) = main.step sys (main.run sys rounds) round := by
  simp only [main.run, List.foldl_append, List.foldl_cons, List.foldl_nil]

theorem start_books (h : (main.start sys).status = .running) :
    Books (serverSock sys) (main.start sys) ∧ ∀ x, ¬ Lost (serverSock sys) (main.start sys) x := by
  unfold main.start qrtr_open at h ⊢
  cases hopen : sys.qrtr_open 0 with
  | false =>
    simp [hopen] at h
  | true =>
    cases hpublish : sys.qrtr_publish 1 with
    | false => simp [hopen, hpublish, State.tick] at h
    | true =>
      simp only [hpublish, if_true, State.tick, zero_add, List.nil_append]
      refine ⟨⟨?_, ?_⟩, ?_⟩ <;> simp [Lost, State.held, State.clients, heldBy, serverSock]

/-- In every state the server reaches, what is owned is open, and owned once. -/
theorem main_run_books (rounds : List Round) (h : (main.run sys rounds).status = .running) :
    Books (serverSock sys) (main.run sys rounds) := by
  induction rounds using List.reverseRecOn with
  | nil => exact (start_books sys h).1
  | append_singleton rounds round ih =>
    rw [main_run_append] at h ⊢
    exact (step_loses sys _ (ih (step_running sys h)) round).1 _ rfl

/-- The open descriptors are those of the server and of the transfers, in every state of a run,
exactly if every request of it is granted. -/
theorem exact_iff_granted (rounds : List Round) :
    (∀ pre, pre <+: rounds → (main.run sys pre).status = .running →
      Exact (serverSock sys) (main.run sys pre)) ↔
    ∀ pre round, pre ++ [round] <+: rounds → round.Granted sys (main.run sys pre) := by
  constructor
  · intro h pre round hpre
    by_contra hdenied
    -- a request is only met by a server that runs
    have hrun : (main.run sys pre).status = .running := by
      by_contra hstopped
      apply hdenied
      match round with
      | .eintr | .failed | .ready _ none => trivial
      | .ready _ (some _) => exact fun hrun => absurd hrun hstopped
    have hbooks := main_run_books sys pre hrun
    rcases (step_loses sys _ hbooks round).2 with ⟨hyes, -⟩ | ⟨-, s', he, hstatus, x, hlost⟩
    · exact hdenied hyes
    · cases he
      have hrun' : (main.run sys (pre ++ [round])).status = .running := by
        rw [main_run_append, hstatus, hrun]
      have hexact := (exact_iff (main_run_books sys _ hrun')).mp (h _ hpre hrun') x
      rw [main_run_append] at hexact
      exact hexact hlost
  · intro h pre hpre hrun
    rw [exact_iff (main_run_books sys pre hrun)]
    induction pre using List.reverseRecOn with
    | nil => exact (start_books sys hrun).2
    | append_singleton pre round ih =>
      rw [main_run_append] at hrun ⊢
      have hrun' := step_running sys hrun
      have hlost := ih ((List.prefix_append pre [round]).trans hpre) hrun'
      rcases (step_loses sys _ (main_run_books sys pre hrun') round).2 with ⟨-, hsame⟩ | ⟨hno, -⟩
      · intro x
        rw [hsame _ rfl]
        exact hlost x
      · exact absurd (h pre round hpre) hno

end System

/-- A system in which no socket can be connected. -/
def unconnected : Sys := { obliging with connect := fun _ => false }

/-- The file and the socket of a write request that fails to connect stay open. -/
theorem not_exact_unconnected :
    ¬ ∀ (sys : Sys) (rounds : List Round), (main.run sys rounds).status = .running →
      Exact (serverSock sys) (main.run sys rounds) := by
  intro h
  have hexact := h unconnected [logRequest ⟨5, 7⟩] (by decide +kernel) 4
  have hclients : (main.run unconnected [logRequest ⟨5, 7⟩]).clients = [] := by decide +kernel
  have hopen : 4 ∈ (main.run unconnected [logRequest ⟨5, 7⟩]).fds := by decide +kernel
  rcases hexact.mp hopen with hserver | ⟨c, hc, -⟩
  · exact absurd hserver (by decide +kernel)
  · rw [hclients] at hc
    exact absurd hc List.not_mem_nil

/-! ## A datagram for one transfer

Since no two transfers have a socket in common, a round in which one socket has something to
receive concerns one transfer. -/

/-- One socket has something to receive. -/
def only (sock : ℕ) (recv : Recv) : ℕ → Option Recv := fun x => if x = sock then some recv else none

theorem only_self (sock : ℕ) (recv : Recv) : only sock recv sock = some recv := if_pos rfl

theorem serve_none (handle : State → TftpClient → Recv → Option (ℤ × State)) {ready : ℕ → Option Recv}
    {clients : List TftpClient} (s : State) (h : ∀ c ∈ clients, ready c.sock = none) :
    serve handle ready clients s = some (s, clients) := by
  induction clients with
  | nil => rfl
  | cons c clients ih =>
    rw [serve, h c List.mem_cons_self]
    simp only
    rw [ih fun c' hc' => h c' (List.mem_cons_of_mem c hc'), Option.map_some]

/-- A loop in which one transfer is served. -/
theorem serve_one (handle : State → TftpClient → Recv → Option (ℤ × State)) {ready : ℕ → Option Recv}
    {before after : List TftpClient} {c : TftpClient} {recv : Recv} {s s' : State} {ret : ℤ}
    (hready : ready c.sock = some recv) (hnone : ∀ c' ∈ before ++ after, ready c'.sock = none)
    (h : handle s c recv = some (ret, s')) :
    serve handle ready (before ++ c :: after) s = some
      (if ret ≤ 0 then (client_close_and_free s' c, before ++ after) else (s', before ++ c :: after)) := by
  induction before with
  | nil =>
    rw [List.nil_append, serve, hready]
    simp only [h, Option.bind_eq_bind, Option.bind_some]
    split
    · exact serve_none handle _ hnone
    · have hrest := serve_none handle s' hnone
      rw [List.nil_append] at hrest
      rw [hrest]
      rfl
  | cons c' before ih =>
    rw [List.cons_append, serve, hnone c' List.mem_cons_self]
    simp only
    rw [ih fun c hc => hnone c (List.mem_cons_of_mem c' hc)]
    split <;> rfl

/-- No two transfers have one socket. -/
theorem Books.unique {server : ℕ} {s : State} (h : Books server s) {before after : List TftpClient}
    {c : TftpClient} (hclients : s.clients = before ++ c :: after) :
    ∀ c' ∈ before ++ after, c'.sock ≠ c.sock := by
  have hperm : (c :: (before ++ after)).Perm s.clients := by
    rw [hclients]
    exact List.perm_middle.symm
  have hheld : (heldBy (c :: (before ++ after))).Nodup :=
    (hperm.flatMap_right _).nodup_iff.mpr (List.nodup_cons.mp h.nodup).2
  intro c' hc' he
  rw [heldBy, List.flatMap_cons] at hheld
  exact List.disjoint_of_nodup_append hheld List.mem_cons_self
    (mem_heldBy.mpr ⟨c', hc', .inl he.symm⟩)

/-- A round in which a writer receives something. -/
theorem round_writer (sys : Sys) {server : ℕ} {s s' : State} (hs : Books server s)
    {before after : List TftpClient} {c : TftpClient} (hwriters : s.writers = before ++ c :: after)
    {recv : Recv} {ret : ℤ} (h : handle_writer sys s c recv = some (ret, s')) :
    main.round sys s (only c.sock recv) none = some
      (if ret ≤ 0 then { client_close_and_free s' c with writers := before ++ after } else s') := by
  have hother : ∀ c' ∈ s.readers ++ (before ++ after), only c.sock recv c'.sock = none := by
    intro c' hc'
    rw [← List.append_assoc] at hc'
    exact if_neg (hs.unique (by rw [State.clients, hwriters, List.append_assoc]) c' hc')
  have hserve := serve_one (handle_writer sys) (only_self c.sock recv)
    (fun c' hc' => hother c' (List.mem_append_right _ hc')) h
  obtain ⟨⟨hsame, hsame'⟩, -, -⟩ := handle_writer_works sys s c recv _ h
  simp only at hsame hsame'
  have hreaders : ∀ s1 : State,
      serve (handle_reader sys) (only c.sock recv) s'.readers s1 = some (s1, s'.readers) := by
    intro s1
    apply serve_none
    rw [hsame]
    exact fun c' hc' => hother c' (List.mem_append_left _ hc')
  unfold main.round
  rw [hwriters, hserve]
  split
  · show (serve (handle_reader sys) (only c.sock recv) s'.readers _ >>= _) = _
    rw [hreaders]
    rfl
  · show (serve (handle_reader sys) (only c.sock recv) s'.readers _ >>= _) = _
    rw [hreaders, ← hwriters, ← hsame']
    rfl

/-- A round in which a reader receives something. -/
theorem round_reader (sys : Sys) {server : ℕ} {s s' : State} (hs : Books server s)
    {before after : List TftpClient} {c : TftpClient} (hreaders : s.readers = before ++ c :: after)
    {recv : Recv} {ret : ℤ} (h : handle_reader sys s c recv = some (ret, s')) :
    main.round sys s (only c.sock recv) none = some
      (if ret ≤ 0 then { client_close_and_free s' c with readers := before ++ after } else s') := by
  have hother : ∀ c' ∈ before ++ (after ++ s.writers), only c.sock recv c'.sock = none := by
    intro c' hc'
    refine if_neg (hs.unique ?_ c' hc')
    rw [State.clients, hreaders, List.append_assoc, List.cons_append]
  have hserve := serve_one (handle_reader sys) (only_self c.sock recv) (fun c' hc' => by
    apply hother c'
    rw [← List.append_assoc]
    exact List.mem_append_left _ hc') h
  have hworks := handle_reader_works sys s c recv _ h
  have hwriters : serve (handle_writer sys) (only c.sock recv) s.writers s = some (s, s.writers) := by
    apply serve_none
    intro c' hc'
    exact hother c' (List.mem_append_right _ (List.mem_append_right _ hc'))
  rw [← hreaders] at hserve
  unfold main.round
  rw [hwriters]
  show (serve (handle_reader sys) (only c.sock recv) s.readers s >>= _) = _
  rw [hserve]
  split
  · rfl
  · have hsame := hworks.same.1
    simp only at hsame
    rw [← hsame]
    rfl

theorem serve_stuck (handle : State → TftpClient → Recv → Option (ℤ × State)) {ready : ℕ → Option Recv}
    {before after : List TftpClient} {c : TftpClient} {recv : Recv} (hready : ready c.sock = some recv)
    (hbefore : ∀ c' ∈ before, ready c'.sock = none) {s : State} (h : handle s c recv = none) :
    serve handle ready (before ++ c :: after) s = none := by
  induction before with
  | nil =>
    rw [List.nil_append, serve, hready]
    simp only [h]
    rfl
  | cons c' before ih =>
    rw [List.cons_append, serve, hbefore c' List.mem_cons_self]
    simp only
    rw [ih fun x hx => hbefore x (List.mem_cons_of_mem _ hx), Option.map_none]

theorem round_reader_stuck (sys : Sys) {server : ℕ} {s : State} (hs : Books server s)
    {before after : List TftpClient} {c : TftpClient} (hreaders : s.readers = before ++ c :: after)
    {recv : Recv} (h : handle_reader sys s c recv = none) :
    main.round sys s (only c.sock recv) none = none := by
  have hother : ∀ c' ∈ before ++ (after ++ s.writers), only c.sock recv c'.sock = none := by
    intro c' hc'
    refine if_neg (hs.unique ?_ c' hc')
    rw [State.clients, hreaders, List.append_assoc, List.cons_append]
  have hwriters : serve (handle_writer sys) (only c.sock recv) s.writers s = some (s, s.writers) := by
    apply serve_none
    intro c' hc'
    exact hother c' (List.mem_append_right _ (List.mem_append_right _ hc'))
  have hserve : serve (handle_reader sys) (only c.sock recv) s.readers s = none := by
    rw [hreaders]
    exact serve_stuck (handle_reader sys) (only_self c.sock recv)
      (fun c' hc' => hother c' (List.mem_append_left _ hc')) h
  unfold main.round
  rw [hwriters]
  show (serve (handle_reader sys) (only c.sock recv) s.readers s >>= _) = _
  rw [hserve]
  rfl

/-! ## Unsolicited datagrams

The handlers compare the sender of a datagram with the peer of the transfer, and return -1 if they
differ. The main loop takes -1 for the end of the transfer. -/

/-- A datagram is dropped: transfers, files and descriptors are as before. -/
structure Discards (s s' : State) : Prop where
  readers : s'.readers = s.readers
  writers : s'.writers = s.writers
  fds : ∀ x, x ∈ s'.fds ↔ x ∈ s.fds
  calls : s'.calls = s.calls

/-- What becomes of a transfer that receives something from another peer. -/
theorem round_spoofed (sys : Sys) {server : ℕ} {s : State} (hs : Books server s) {c : TftpClient}
    (hc : c ∈ s.clients) {sq : SockaddrQrtr} (hsq : sq ≠ c.sq) (data rest : List UInt8) :
    ∃ s', main.round sys s (only c.sock (.data sq data rest)) none = some s' ∧
      s'.fds = (client_close_and_free s c).fds := by
  rw [State.clients, List.mem_append] at hc
  rcases hc with hc | hc
  · obtain ⟨before, after, hreaders⟩ := List.append_of_mem hc
    have hspoofed : handle_reader sys s c (.data sq data rest) = some (-1, s) := if_pos hsq
    refine ⟨_, round_reader sys hs hreaders hspoofed, ?_⟩
    rw [if_pos (by decide)]
  · obtain ⟨before, after, hwriters⟩ := List.append_of_mem hc
    have hspoofed : handle_writer sys s c (.data sq data rest) = some (-1, s) := if_pos hsq
    refine ⟨_, round_writer sys hs hwriters hspoofed, ?_⟩
    rw [if_pos (by decide)]

/-- No unsolicited datagram is dropped, in any state the server reaches: its transfer is closed. -/
theorem spoofed_not_discarded (sys : Sys) (rounds : List Round)
    (hrun : (main.run sys rounds).status = .running) (c : TftpClient)
    (hc : c ∈ (main.run sys rounds).clients) (sq : SockaddrQrtr) (hsq : sq ≠ c.sq)
    (data rest : List UInt8) :
    ¬ Discards (main.run sys rounds) (main.step sys (main.run sys rounds)
      (.ready (only c.sock (.data sq data rest)) none)) := by
  have hbooks := main_run_books sys rounds hrun
  have hopen : c.sock ∈ (main.run sys rounds).fds := by
    apply hbooks.isOpen
    exact List.mem_cons_of_mem _ (mem_heldBy.mpr ⟨c, hc, .inl rfl⟩)
  obtain ⟨s', hround, hfds⟩ := round_spoofed sys hbooks hc hsq data rest
  intro h
  have hstep : main.step sys (main.run sys rounds)
      (.ready (only c.sock (.data sq data rest)) none) = s' := by
    unfold main.step
    simp only [if_pos hrun, hround]
  rw [hstep] at h
  have hstill := (h.fds c.sock).mpr hopen
  rw [hfds] at hstill
  simp [client_close_and_free, State.close] at hstill

theorem spoofed_not_discarded_writer :
    (main.run obliging [logRequest ⟨5, 7⟩]).clients = [⟨⟨5, 7⟩, 5, 4, 0, 0, 0, 0⟩] ∧
    ¬ Discards (main.run obliging [logRequest ⟨5, 7⟩]) (main.step obliging
      (main.run obliging [logRequest ⟨5, 7⟩])
      (.ready (only 5 (.data ⟨6, 7⟩ [] [])) none)) := by
  have hclients : (main.run obliging [logRequest ⟨5, 7⟩]).clients = [⟨⟨5, 7⟩, 5, 4, 0, 0, 0, 0⟩] := by
    decide +kernel
  refine ⟨hclients, spoofed_not_discarded obliging [logRequest ⟨5, 7⟩] (by decide +kernel)
    ⟨⟨5, 7⟩, 5, 4, 0, 0, 0, 0⟩ ?_ ⟨6, 7⟩ (by decide) [] []⟩
  rw [hclients]
  exact List.mem_singleton.mpr rfl

/-- An empty datagram of another peer ends a write transfer. -/
theorem spoofed_ends_transfer :
    ¬ ∀ (sys : Sys) (rounds : List Round), (main.run sys rounds).status = .running →
      ∀ c ∈ (main.run sys rounds).clients, ∀ sq, sq ≠ c.sq → ∀ data rest : List UInt8,
        Discards (main.run sys rounds) (main.step sys (main.run sys rounds)
          (.ready (only c.sock (.data sq data rest)) none)) := by
  intro h
  have hclients : (main.run obliging [logRequest ⟨5, 7⟩]).clients = [⟨⟨5, 7⟩, 5, 4, 0, 0, 0, 0⟩] := by
    decide +kernel
  have hdiscards := h obliging [logRequest ⟨5, 7⟩] (by decide +kernel) ⟨⟨5, 7⟩, 5, 4, 0, 0, 0, 0⟩
    (by rw [hclients]; exact List.mem_singleton.mpr rfl) ⟨6, 7⟩ (by decide) [] []
  exact absurd hdiscards.writers (by decide +kernel)

end Dragonboard.Tqftpserv
