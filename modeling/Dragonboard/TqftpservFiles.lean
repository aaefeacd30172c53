/-
What the files hold while transfers go on side by side.

A call changes the files only through a descriptor, and every transfer has its own. So the calls of the
other transfers leave the file of a writer alone, and so do those for a request that names another file
(`served_around`, `receive_writing`). A file that no writer has is left alone by all of them (`step_rests`).
-/
import Dragonboard.TqftpservWrite

set_option autoImplicit false

namespace Dragonboard.Tqftpserv

open Dragonboard.Ns Dragonboard.Qrtr Dragonboard.Translate Dragonboard.PosixFile

/-! ## Calls and the files they leave alone

A file is changed by writes through descriptors that stand in it, and by opening it. Calls with
other descriptors can be passed over. -/

/-- The files in a state, from those that the server was started with. -/
def State.disk (s : State) (disk : Disk (List (List UInt8))) : Disk (List (List UInt8)) :=
  s.calls.foldl Call.apply disk

/-- A call that writes to none but some descriptors, and opens none of these. -/
def Call.Within (fds : Set ℕ) : Call → Prop
  | .open_ fd file => fd ∉ fds ∧ file.flags &&& O_TRUNC = 0
  | .write fd _ => fd ∈ fds
  | _ => True

/-- The descriptor that a call changes. -/
def Call.fd? : Call → Option ℕ
  | .open_ fd _ => some fd
  | .write fd _ => some fd
  | .close fd => some fd
  | _ => none

/-- Some calls are made. -/
def Grows (P : Call → Prop) (s s' : State) : Prop :=
  ∃ calls, s'.calls = s.calls ++ calls ∧ ∀ call ∈ calls, P call

theorem Grows.of_eq {P : Call → Prop} {s s' : State} (h : s'.calls = s.calls) : Grows P s s' :=
  ⟨[], by rw [h, List.append_nil], nofun⟩

theorem Grows.one {P : Call → Prop} {s s' : State} {call : Call} (h : s'.calls = s.calls ++ [call])
    (hcall : P call) : Grows P s s' := by
  refine ⟨[call], h, fun c hc => ?_⟩
  rw [List.mem_singleton.mp hc]
  exact hcall

theorem Grows.trans {P : Call → Prop} {s s' s'' : State} (h : Grows P s s') (h' : Grows P s' s'') :
    Grows P s s'' := by
  obtain ⟨calls, hcalls, hP⟩ := h
  obtain ⟨calls', hcalls', hP'⟩ := h'
  refine ⟨calls ++ calls', by rw [hcalls', hcalls, List.append_assoc], fun call hcall => ?_⟩
  rcases List.mem_append.mp hcall with hcall | hcall
  · exact hP call hcall
  · exact hP' call hcall

theorem Grows.mono {P Q : Call → Prop} {s s' : State} (h : Grows P s s') (hPQ : ∀ call, P call → Q call) :
    Grows Q s s' := by
  obtain ⟨calls, hcalls, hP⟩ := h
  exact ⟨calls, hcalls, fun call hcall => hPQ call (hP call hcall)⟩

/-- What every call keeps, all keep. -/
theorem Grows.keeps {P : Call → Prop} {s s' : State} (h : Grows P s s')
    {I : Disk (List (List UInt8)) → Prop} (hI : ∀ d call, P call → I d → I (call.apply d))
    {disk : Disk (List (List UInt8))} (hs : I (s.disk disk)) : I (s'.disk disk) := by
  obtain ⟨calls, hcalls, hP⟩ := h
  have hfold : ∀ d, I d → I (calls.foldl Call.apply d) := by
    clear hcalls hs
    induction calls with
    | nil => exact fun d hd => hd
    | cons call calls ih =>
      intro d hd
      apply ih fun c hc => hP c (List.mem_cons_of_mem _ hc)
      exact hI d call (hP call List.mem_cons_self) hd
  rw [State.disk, hcalls, List.foldl_append]
  exact hfold _ hs

section Files

variable {fds : Set ℕ} {path : List (List UInt8)}

/-- No descriptor of these stands in the file. -/
def Clear (d : Disk (List (List UInt8))) (fds : Set ℕ) (path : List (List UInt8)) : Prop :=
  ∀ fd ∈ fds, d.Away fd path

theorem Clear.apply {d : Disk (List (List UInt8))} (h : Clear d fds path) {call : Call}
    (hcall : call.Within fds) : Clear (call.apply d) fds path := by
  intro fd hfd
  cases call with
  | open_ fd' file =>
    apply (h fd hfd).open_
    intro he
    exact hcall.1 (he ▸ hfd)
  | connect | send => exact h fd hfd
  | write fd' bytes => exact (h fd hfd).write
  | close fd' => exact (h fd hfd).close

theorem Clear.content {d : Disk (List (List UInt8))} (h : Clear d fds path) {call : Call}
    (hcall : call.Within fds) : (call.apply d).content path = d.content path := by
  cases call with
  | open_ fd file =>
    rw [Call.apply, hcall.2]
    exact Disk.content_open
  | connect | send | close => rfl
  | write fd bytes => exact congrArg (Option.getD · []) (h fd hcall).files_write

/-- A descriptor stays where it is. -/
theorem Clear.stands {d : Disk (List (List UInt8))} (h : Clear d fds path) {call : Call}
    (hcall : call.Within fds) {fd : ℕ} (hfd : call.fd? ≠ some fd) {offset : ℕ} {content : List UInt8}
    (hstands : d.Stands fd path offset content) :
    (call.apply d).Stands fd path offset content := by
  have hne : ∀ fd', call.fd? = some fd' → fd ≠ fd' := by
    intro fd' hcall' he
    exact hfd (he ▸ hcall')
  cases call with
  | open_ fd' file =>
    rw [Call.apply, hcall.2]
    exact hstands.open_ (hne fd' rfl)
  | connect | send => exact hstands
  | write fd' bytes => exact hstands.write_away (h fd' hcall)
  | close fd' => exact hstands.close (hne fd' rfl)

theorem Grows.content {s s' : State} (h : Grows (Call.Within fds) s s')
    {disk : Disk (List (List UInt8))} (hclear : Clear (s.disk disk) fds path) :
    Clear (s'.disk disk) fds path ∧ (s'.disk disk).content path = (s.disk disk).content path := by
  refine h.keeps (I := fun d => Clear d fds path ∧ d.content path = (s.disk disk).content path) ?_
    ⟨hclear, rfl⟩
  rintro d call hcall ⟨hd, hcontent⟩
  exact ⟨hd.apply hcall, (hd.content hcall).trans hcontent⟩

theorem Grows.stands {s s' : State} {fd : ℕ}
    (h : Grows (fun call => call.Within fds ∧ call.fd? ≠ some fd) s s')
    {disk : Disk (List (List UInt8))} (hclear : Clear (s.disk disk) fds path) {offset : ℕ}
    {content : List UInt8} (hstands : (s.disk disk).Stands fd path offset content) :
    Clear (s'.disk disk) fds path ∧ (s'.disk disk).Stands fd path offset content := by
  refine h.keeps (I := fun d => Clear d fds path ∧ d.Stands fd path offset content) ?_
    ⟨hclear, hstands⟩
  rintro d call ⟨hcall, hfd⟩ ⟨hd, hstands⟩
  exact ⟨hd.apply hcall, hd.stands hcall hfd hstands⟩

end Files

/-! ## The calls of the handlers

What each handler does to files: a reader does nothing, and a writer appends the payload of a
datagram at the place its descriptor stands. -/

section Handlers

variable (sys : Sys)

theorem send_grows {P : Call → Prop} (s : State) (sock : ℕ) (data : List UInt8)
    (hP : ∀ data, P (.send sock data)) : Grows P s (send sys s sock data).2 := by
  unfold send
  simp only
  split
  · exact .of_eq rfl
  · exact .one rfl (hP data)

theorem tftp_send_error_grows {P : Call → Prop} (s : State) (sock : ℕ) (code : UInt16) (msg : String)
    (hP : ∀ data, P (.send sock data)) : Grows P s (tftp_send_error sys s sock code msg).2 := by
  unfold tftp_send_error
  simp only
  split
  · exact send_grows sys s.tick sock _ hP
  · exact .of_eq rfl

theorem tftp_send_data_grows {P : Call → Prop} {s : State} {client : TftpClient} {block : UInt32}
    {offset : UInt64} {r : ℤ × State} (h : tftp_send_data sys s client block offset = some r)
    (hP : ∀ data, P (.send client.sock data)) : Grows P s r.2 := by
  unfold tftp_send_data at h
  simp only at h
  split at h
  · cases h
  split at h
  · cases h
    exact .of_eq rfl
  split at h
  · cases h
    exact .of_eq rfl
  · cases h
    exact send_grows sys s.tick.tick client.sock _ hP

theorem handle_reader_loop_grows {P : Call → Prop} {client : TftpClient}
    (hP : ∀ data, P (.send client.sock data)) (last : UInt16) (fuel : ℕ) (block : UInt16) (s s' : State)
    (h : handle_reader.loop sys client last fuel block s = some s') : Grows P s s' := by
  induction fuel generalizing block s with
  | zero => cases h
  | succ fuel ih =>
    rw [handle_reader.loop] at h
    split at h
    · obtain ⟨⟨n, s1⟩, hsend, h⟩ := Option.bind_eq_some_iff.mp h
      have hgrows := tftp_send_data_grows sys hsend hP
      simp only at h hgrows
      split at h
      · cases h
        exact hgrows
      · exact hgrows.trans (ih _ _ h)
    · cases h
      exact .of_eq rfl

/-- A reader only sends. -/
theorem handle_reader_grows {P : Call → Prop} {client : TftpClient}
    (hP : ∀ data, P (.send client.sock data)) {s : State} {recv : Recv} {r : ℤ × State}
    (h : handle_reader sys s client recv = some r) : Grows P s r.2 := by
  unfold handle_reader at h
  cases recv with
  | error =>
    cases h
    exact .of_eq rfl
  | data sq data rest =>
    simp only at h
    split at h
    · cases h
      exact .of_eq rfl
    split at h
    · split at h
      · cases h
        exact .of_eq rfl
      · cases h
    split at h
    · cases h
      exact .of_eq rfl
    · obtain ⟨s1, hloop, rfl⟩ := Option.map_eq_some_iff.mp h
      exact handle_reader_loop_grows sys hP _ _ _ _ _ hloop

/-- What a writer writes of a datagram. -/
def Recv.payload : Recv → List UInt8
  | .error => []
  | .data _ packet _ => (packet.take 516).drop 4

/-- A writer gives up, or writes what it has received and acknowledges it. -/
theorem handle_writer_cases {s s' : State} {client : TftpClient} {recv : Recv} {ret : ℤ}
    (h : handle_writer sys s client recv = some (ret, s')) {P : Call → Prop}
    (hP : ∀ data, P (.send client.sock data)) :
    (ret ≤ 0 ∧ Grows P s s') ∨
    (ret = (if recv.payload.length = 512 then 1 else 0) ∧ ∃ s1,
      s1.calls = s.calls ++ [.write client.fd recv.payload] ∧ Grows P s1 s') := by
  unfold handle_writer at h
  cases recv with
  | error =>
    cases h
    exact .inl ⟨by decide, .of_eq rfl⟩
  | data sq data rest =>
    simp only at h
    split at h
    · cases h
      exact .inl ⟨by decide, .of_eq rfl⟩
    split at h
    · cases h
      exact .inl ⟨by decide, tftp_send_error_grows sys s client.sock _ _ hP⟩
    split at h
    · cases h
      exact .inl ⟨by decide, .of_eq rfl⟩
    split at h
    · cases h
      exact .inl ⟨by decide, .of_eq rfl⟩
    · cases h
      exact .inr ⟨rfl, _, rfl, send_grows sys _ client.sock _ hP⟩

/-- A writer writes to its file, and sends. -/
theorem handle_writer_grows {P : Call → Prop} {client : TftpClient}
    (hP : ∀ data, P (.send client.sock data)) (hwrite : ∀ bytes, P (.write client.fd bytes)) {s : State}
    {recv : Recv} {r : ℤ × State} (h : handle_writer sys s client recv = some r) : Grows P s r.2 := by
  obtain ⟨ret, s'⟩ := r
  rcases handle_writer_cases sys h hP with ⟨-, hgrows⟩ | ⟨-, s1, hcalls, hgrows⟩
  · exact hgrows
  · exact (Grows.one hcalls (hwrite _)).trans hgrows

omit sys in
theorem close_grows {P : Call → Prop} (s : State) {client : TftpClient}
    (hclose : P (.close client.sock) ∧ P (.close client.fd)) :
    Grows P s (client_close_and_free s client) := by
  have hsock : Grows P s (s.close client.sock) := .one rfl hclose.1
  exact hsock.trans (.one rfl hclose.2)

omit sys in
/-- A loop over transfers makes the calls of its transfers. -/
theorem serve_grows {P : Call → Prop} {handle : State → TftpClient → Recv → Option (ℤ × State)}
    {ready : ℕ → Option Recv} {clients : List TftpClient} {s : State} {r : State × List TftpClient}
    (hhandle : ∀ c ∈ clients, ∀ s recv r, handle s c recv = some r → Grows P s r.2)
    (hclose : ∀ c ∈ clients, P (.close c.sock) ∧ P (.close c.fd))
    (h : serve handle ready clients s = some r) : Grows P s r.1 := by
  induction clients generalizing s r with
  | nil =>
    cases h
    exact .of_eq rfl
  | cons client clients ih =>
    have hrest := fun {s r} => ih (s := s) (r := r)
      (fun c hc => hhandle c (List.mem_cons_of_mem _ hc)) fun c hc => hclose c (List.mem_cons_of_mem _ hc)
    rw [serve] at h
    cases hready : ready client.sock with
    | none =>
      rw [hready] at h
      obtain ⟨r', hr', rfl⟩ := Option.map_eq_some_iff.mp h
      have hgrows := hrest hr'
      exact hgrows
    | some recv =>
      rw [hready] at h
      obtain ⟨⟨ret, s1⟩, hret, h⟩ := Option.bind_eq_some_iff.mp h
      have hgrows := hhandle client List.mem_cons_self s recv _ hret
      simp only at h hgrows
      split at h
      · exact (hgrows.trans (close_grows s1 (hclose client List.mem_cons_self))).trans (hrest h)
      · obtain ⟨r', hr', rfl⟩ := Option.map_eq_some_iff.mp h
        have hgrows' := hrest hr'
        exact hgrows.trans hgrows'

end Handlers

/-! ## The transfers of a round

In a round many transfers may have something to receive. For one of them the others are calls that
are not about its file, before and after its own. -/

/-- The descriptors of the writers but one. -/
def othersOf (s : State) (w : TftpClient) : Set ℕ := {fd | ∃ c ∈ s.writers, c ≠ w ∧ fd = c.fd}

/-- A call that is not about the transfer, nor about its file. -/
def Apart (s : State) (w : TftpClient) (call : Call) : Prop :=
  call.Within (othersOf s w) ∧ call.fd? ≠ some w.fd

/-- Two transfers have no descriptor in common. -/
theorem Books.apart {server : ℕ} {s : State} (hs : Books server s) {c w : TftpClient}
    (hc : c ∈ s.clients) (hw : w ∈ s.clients) (hne : c ≠ w) : c.sock ≠ w.fd ∧ c.fd ≠ w.fd := by
  obtain ⟨before, after, hclients⟩ := List.append_of_mem hw
  have hperm : (w :: (before ++ after)).Perm s.clients := by
    rw [hclients]
    exact List.perm_middle.symm
  have hheld : (heldBy (w :: (before ++ after))).Nodup :=
    (hperm.flatMap_right _).nodup_iff.mpr (List.nodup_cons.mp hs.nodup).2
  have hother : c ∈ before ++ after :=
    (List.mem_cons.mp (hperm.mem_iff.mpr hc)).resolve_left hne
  rw [heldBy, List.flatMap_cons] at hheld
  have hdisjoint : ∀ x, x = c.sock ∨ x = c.fd → x ≠ w.fd := by
    intro x hx he
    apply List.disjoint_of_nodup_append hheld (a := x)
    · rw [he]
      exact List.mem_cons_of_mem _ List.mem_cons_self
    · exact mem_heldBy.mpr ⟨c, hother, hx⟩
  exact ⟨hdisjoint _ (.inl rfl), hdisjoint _ (.inr rfl)⟩

theorem serve_append (handle : State → TftpClient → Recv → Option (ℤ × State))
    (ready : ℕ → Option Recv) (l l' : List TftpClient) (s : State) :
    serve handle ready (l ++ l') s = (serve handle ready l s).bind fun r =>
      (serve handle ready l' r.1).map fun r' => (r'.1, r.2 ++ r'.2) := by
  induction l generalizing s with
  | nil => simp [serve]
  | cons client l ih =>
    rw [List.cons_append, serve, serve]
    cases ready client.sock with
    | none =>
      simp only [ih, Option.map_bind, Option.bind_map]
      congr 1
      funext r
      simp [Option.map_map, Function.comp_def]
    | some recv =>
      simp only [ih, Option.bind_eq_bind, Option.bind_assoc]
      congr 1
      funext r
      split
      · rfl
      · simp only [Option.map_bind, Option.bind_map]
        congr 1
        funext r
        simp [Option.map_map, Function.comp_def]

/-- A loop over transfers, around what one of them does. -/
theorem serve_around {P : Call → Prop} {handle : State → TftpClient → Recv → Option (ℤ × State)}
    {clients : ℕ → Option Recv} {before after : List TftpClient} {w : TftpClient} {s : State}
    {r : State × List TftpClient}
    (hothers : ∀ l, (∀ c ∈ l, c ∈ before ++ after) → ∀ s1 r, serve handle clients l s1 = some r →
      Grows P s1 r.1 ∧ w ∉ r.2)
    (h : serve handle clients (before ++ w :: after) s = some r) :
    (clients w.sock = none ∧ w ∈ r.2 ∧ Grows P s r.1) ∨
    ∃ recv s1 ret s2, clients w.sock = some recv ∧ handle s1 w recv = some (ret, s2) ∧ Grows P s s1 ∧
      Grows P (if ret ≤ 0 then client_close_and_free s2 w else s2) r.1 ∧ (w ∈ r.2 ↔ 0 < ret) := by
  rw [serve_append] at h
  obtain ⟨⟨s1, kept⟩, hbefore, h⟩ := Option.bind_eq_some_iff.mp h
  obtain ⟨hfirst, hgone⟩ := hothers before (fun c hc => List.mem_append_left _ hc) s _ hbefore
  have hrest := hothers after fun c hc => List.mem_append_right _ hc
  obtain ⟨⟨s5, kept'⟩, hafter, rfl⟩ := Option.map_eq_some_iff.mp h
  simp only at hafter hfirst hgone
  rw [serve] at hafter
  cases hready : clients w.sock with
  | none =>
    rw [hready] at hafter
    obtain ⟨r, hserve, hr⟩ := Option.map_eq_some_iff.mp hafter
    cases hr
    refine .inl ⟨rfl, List.mem_append_right _ List.mem_cons_self, ?_⟩
    exact hfirst.trans (hrest s1 r hserve).1
  | some recv =>
    rw [hready] at hafter
    obtain ⟨⟨ret, s2⟩, hret, hafter⟩ := Option.bind_eq_some_iff.mp hafter
    refine .inr ⟨recv, s1, ret, s2, rfl, hret, hfirst, ?_⟩
    simp only at hafter
    -- the transfer ends or stays, and the ones behind it do not bring it back
    by_cases hdone : ret ≤ 0
    · rw [if_pos hdone] at hafter ⊢
      obtain ⟨hgrows, hno⟩ := hrest _ _ hafter
      refine ⟨hgrows, ?_⟩
      have hnot : w ∉ kept ++ kept' := fun hin => (List.mem_append.mp hin).elim hgone hno
      exact ⟨fun hin => absurd hin hnot, fun hpos => absurd hdone (Int.not_le.mpr hpos)⟩
    · rw [if_neg hdone] at hafter ⊢
      obtain ⟨r, hserve, hr⟩ := Option.map_eq_some_iff.mp hafter
      cases hr
      refine ⟨(hrest s2 r hserve).1, fun _ => Int.not_le.mp hdone, fun _ => ?_⟩
      exact List.mem_append_right _ List.mem_cons_self

section Round

variable (sys : Sys) {server : ℕ}

/-- The transfers write to nothing but their files. -/
theorem served_within {s s' : State} {clients : ℕ → Option Recv}
    (h : main.served sys s clients = some s') :
    s'.writers ⊆ s.writers ∧ Grows (Call.Within {fd | ∃ c ∈ s.writers, fd = c.fd}) s s' := by
  unfold main.served at h
  obtain ⟨⟨s1, writers⟩, hwriters, h⟩ := Option.bind_eq_some_iff.mp h
  obtain ⟨⟨s2, readers⟩, hreaders, h⟩ := Option.bind_eq_some_iff.mp h
  cases h
  obtain ⟨hsame, -⟩ := serve_sublist (handle_reader_works sys) clients _ _ hreaders
  obtain ⟨-, hsub⟩ := serve_sublist (handle_writer_works sys) clients _ _ hwriters
  have hfirst := serve_grows (P := Call.Within {fd | ∃ c ∈ s.writers, fd = c.fd})
    (fun c hc s recv r => handle_writer_grows sys (fun _ => trivial) fun _ => ⟨c, hc, rfl⟩)
    (fun _ _ => ⟨trivial, trivial⟩) hwriters
  have hsecond := serve_grows (P := Call.Within {fd | ∃ c ∈ s.writers, fd = c.fd})
    (fun c hc s recv r => handle_reader_grows sys fun _ => trivial)
    (fun _ _ => ⟨trivial, trivial⟩) hreaders
  simp only at hsame hsub hfirst hsecond
  refine ⟨?_, hfirst.trans hsecond⟩
  show s2.writers ⊆ s.writers
  rw [hsame.2]
  exact hsub.subset

/-- A loop over other transfers leaves one alone. -/
theorem serve_apart {handle : State → TftpClient → Recv → Option (ℤ × State)} {clients : ℕ → Option Recv}
    {s s1 : State} {w : TftpClient} {l : List TftpClient} {r : State × List TftpClient}
    (hhandle : ∀ c ∈ l, ∀ s1 recv r, handle s1 c recv = some r → Grows (Apart s w) s1 r.2)
    (hl : ∀ c ∈ l, c.sock ≠ w.fd ∧ c.fd ≠ w.fd) (h : serve handle clients l s1 = some r) :
    Grows (Apart s w) s1 r.1 := by
  refine serve_grows hhandle (fun c hc => ?_) h
  have hne : ∀ x, x ≠ w.fd → Apart s w (.close x) := by
    intro x hx
    refine ⟨trivial, fun he => hx ?_⟩
    exact Option.some.inj he
  exact ⟨hne _ (hl c hc).1, hne _ (hl c hc).2⟩

/-- What the transfers do in a round, around what one writer does. -/
theorem served_around {s s' : State} {clients : ℕ → Option Recv} {w : TftpClient} (hs : Books server s)
    (hw : w ∈ s.writers) (h : main.served sys s clients = some s') :
    (clients w.sock = none ∧ w ∈ s'.writers ∧ Grows (Apart s w) s s') ∨
    ∃ recv s1 ret s2, clients w.sock = some recv ∧ handle_writer sys s1 w recv = some (ret, s2) ∧
      Grows (Apart s w) s s1 ∧
      Grows (Apart s w) (if ret ≤ 0 then client_close_and_free s2 w else s2) s' ∧
      (w ∈ s'.writers ↔ 0 < ret) := by
  unfold main.served at h
  obtain ⟨⟨s3, writers⟩, hwriters, h⟩ := Option.bind_eq_some_iff.mp h
  obtain ⟨⟨s4, readers⟩, hreaders, h⟩ := Option.bind_eq_some_iff.mp h
  cases h
  obtain ⟨hsame, -⟩ := serve_sublist (handle_reader_works sys) clients _ _ hreaders
  have hsent : ∀ (s1 : State) c data, Apart s1 w (.send c data) := fun _ _ _ => ⟨trivial, nofun⟩
  have hclient : w ∈ s.clients := List.mem_append_right _ hw
  obtain ⟨before, after, hsplit⟩ := List.append_of_mem hw
  have hapart : ∀ c ∈ s.clients, c ≠ w → c.sock ≠ w.fd ∧ c.fd ≠ w.fd :=
    fun c hc hne => hs.apart hc hclient hne
  have hunique : ∀ c ∈ s.readers ++ (before ++ after), c ≠ w := by
    intro c hc he
    have hclients : s.clients = (s.readers ++ before) ++ w :: after := by
      rw [State.clients, hsplit, List.append_assoc]
    apply hs.unique hclients c ?_ (congrArg TftpClient.sock he)
    rwa [List.append_assoc]
  have hmem : ∀ c ∈ before ++ after, c ∈ s.writers := by
    intro c hc
    rw [hsplit]
    exact List.perm_middle.mem_iff.mpr (List.mem_cons_of_mem w hc)
  -- the other writers
  have hothers : ∀ l, (∀ c ∈ l, c ∈ before ++ after) → ∀ s1 r,
      serve (handle_writer sys) clients l s1 = some r → Grows (Apart s w) s1 r.1 ∧ w ∉ r.2 := by
    intro l hl s1 r hserve
    have hne : ∀ c ∈ l, c ≠ w := fun c hc => hunique c (List.mem_append_right _ (hl c hc))
    have hfds := fun c hc => hapart c (List.mem_append_right _ (hmem c (hl c hc))) (hne c hc)
    refine ⟨serve_apart (fun c hc s1 recv r => ?_) hfds hserve, ?_⟩
    · apply handle_writer_grows sys (hsent s c.sock)
      intro bytes
      refine ⟨⟨c, hmem c (hl c hc), hne c hc, rfl⟩, fun he => (hfds c hc).2 ?_⟩
      exact Option.some.inj he
    · intro hleft
      exact hne w ((serve_sublist (handle_writer_works sys) clients l s1 hserve).2.subset hleft) rfl
  -- and the readers, which have other descriptors
  obtain ⟨hsame', -⟩ := serve_sublist (handle_writer_works sys) clients _ _ hwriters
  have hlast : Grows (Apart s w) s3 { s4 with readers := readers } := by
    have hwritten : Grows (Apart s w) s3 { s3 with writers := writers } := .of_eq rfl
    apply hwritten.trans
    refine serve_apart (fun c hc s1 recv r => handle_reader_grows sys (hsent s c.sock)) (fun c hc => ?_)
      hreaders
    rw [hsame'.1] at hc
    exact hapart c (List.mem_append_left _ hc) (hunique c (List.mem_append_left _ hc))
  have hleft : ({ s4 with readers := readers } : State).writers = writers := hsame.2
  rw [hleft]
  rw [hsplit] at hwriters
  rcases serve_around hothers hwriters with ⟨hnone, hin, hgrows⟩ |
    ⟨recv, s1, ret, s2, hready, hret, hbefore, hafter, hstay⟩
  · exact .inl ⟨hnone, hin, hgrows.trans hlast⟩
  · exact .inr ⟨recv, s1, ret, s2, hready, hret, hbefore, hafter.trans hlast, hstay⟩

end Round

/-! ## A request

A request opens its file and never truncates it. -/

/-- A call with new descriptors only, that writes nothing. -/
def Call.New (fds : List ℕ) : Call → Prop
  | .open_ fd file => fd ∉ fds ∧ file.flags &&& O_TRUNC = 0
  | .write _ _ => False
  | .close fd => fd ∉ fds
  | _ => True

/-- No file is truncated when it is opened. -/
theorem translate_open_untruncated {os : Os} {path : List UInt8} {flags : UInt32} {file : Opening}
    (h : translate_open os path flags = some file) (hflags : flags &&& O_TRUNC = 0) :
    file.flags &&& O_TRUNC = 0 := by
  unfold translate_open at h
  split at h
  · obtain ⟨-, -, -, -, -, -, -, -, rfl⟩ := translate_readonly_eq_some h
    show O_RDONLY &&& O_TRUNC = 0
    decide
  split at h
  · unfold translate_readwrite at h
    split at h
    · cases h
      exact hflags
    · cases h
  · cases h

section Requests

variable (sys : Sys)

theorem open_file_grows {s : State} {filename : List UInt8} {flags : UInt32}
    (hflags : flags &&& O_TRUNC = 0) {fds : List ℕ} (hfds : fds ⊆ s.fds) :
    Grows (Call.New fds) s (open_file sys s filename flags).2 := by
  rcases open_file_cases sys s filename flags with ⟨-, he⟩ | ⟨file, hfile, fd, s', he, hopens, -, hcalls⟩
  · rw [he]
    exact .of_eq rfl
  · rw [he]
    refine .one hcalls ⟨fun hin => ?_, translate_open_untruncated hfile hflags⟩
    exact hopens.fresh fd List.mem_cons_self (hfds hin)

theorem handle_rrq_begin_grows {P : Call → Prop} {s s' : State} {sq : SockaddrQrtr} {sock fd : ℕ}
    {do_oack : Bool} {o : RrqOptions} (hP : ∀ data, P (.send sock data))
    (h : handle_rrq.begin sys s sq sock fd do_oack o = some s') : Grows P s s' := by
  unfold handle_rrq.begin at h
  simp only at h
  generalize hs1 : (if o.tsize ≠ -1 then s.tick else s) = s1 at h
  have hcalls : s1.calls = s.calls := by
    rw [← hs1]
    split <;> rfl
  split at h
  swap
  · cases h
  generalize hs2 : ({ s1.tick with readers := s1.readers ++ [_] } : State) = s2 at h
  have hcalls' : s2.calls = s.calls := by
    rw [← hs2]
    exact hcalls
  refine (Grows.of_eq hcalls').trans ?_
  split at h
  · cases h
    exact send_grows sys s2 sock _ hP
  · obtain ⟨r, hr, rfl⟩ := Option.map_eq_some_iff.mp h
    exact tftp_send_data_grows sys hr hP

/-- A read request comes to nothing, or a reader begins with the file of its name. -/
theorem handle_rrq_begins {s s' : State} {mem : List UInt8} {len : ℕ} {sq : SockaddrQrtr}
    (h : handle_rrq sys s mem len sq = some s') :
    (Same s s' ∧ Grows (Call.New s.fds) s s') ∨
    ∃ filename do_oack o sock fd t file s1,
      handle_rrq.parse mem len = some (some (filename, do_oack, o)) ∧
      translate_open (sys.os t) filename O_RDONLY = some file ∧ Opens [sock, fd] s s1 ∧
      s1.calls = s.calls ++ [.connect sock sq, .open_ fd file] ∧
      handle_rrq.begin sys s1 sq sock fd do_oack o = some s' := by
  unfold handle_rrq at h
  obtain ⟨request, hparse, h⟩ := Option.bind_eq_some_iff.mp h
  cases request with
  | none =>
    cases h
    exact .inl ⟨.refl s, .of_eq rfl⟩
  | some request =>
    obtain ⟨filename, do_oack, o⟩ := request
    simp only at h
    rcases qrtr_open_cases sys s with ⟨-, he⟩ | ⟨-, sock, s1, he, hopen, -, hcalls⟩
    · rw [he] at h
      cases h
      exact .inl ⟨.refl s, .of_eq rfl⟩
    rw [he] at h
    simp only at h
    rcases connect_cases sys s1 sock sq with ⟨-, he⟩ | ⟨-, s2, he, hworks, -, hcalls'⟩
    · rw [he] at h
      cases h
      exact .inl ⟨hopen.same, .of_eq hcalls⟩
    rw [he] at h
    simp only at h
    have hopens := hopen.works hworks
    rw [hcalls] at hcalls'
    rcases open_file_cases sys s2 filename O_RDONLY with ⟨-, he⟩ | ⟨file, hfile, fd, s3, he, hopen', -, hcalls''⟩
    · -- the error goes out on the new socket
      rw [he] at h
      cases h
      refine .inl ⟨hopens.same.trans (tftp_send_error_works sys s2.tick sock _ _).same, ?_⟩
      have hconnected : Grows (Call.New s.fds) s s2.tick := .one hcalls' trivial
      exact hconnected.trans (tftp_send_error_grows sys s2.tick sock _ _ fun _ => trivial)
    · rw [he] at h
      refine .inr ⟨filename, do_oack, o, sock, fd, s2.time, file, s3, hparse, hfile, hopens.trans hopen', ?_, h⟩
      rw [hcalls'', hcalls', List.append_assoc]
      rfl

theorem handle_rrq_grows {s s' : State} {mem : List UInt8} {len : ℕ} {sq : SockaddrQrtr}
    (h : handle_rrq sys s mem len sq = some s') : s'.writers = s.writers ∧ Grows (Call.New s.fds) s s' := by
  rcases handle_rrq_begins sys h with
    ⟨hsame, hgrows⟩ | ⟨filename, do_oack, o, sock, fd, t, file, s1, -, hfile, hopens, hcalls, hbegin⟩
  · exact ⟨hsame.2, hgrows⟩
  · refine ⟨(handle_rrq_begin_adds sys hbegin).same.2.trans hopens.same.2, ?_⟩
    have hkeeps := translate_open_untruncated hfile (by decide)
    refine Grows.trans ⟨_, hcalls, fun call hcall => ?_⟩ (handle_rrq_begin_grows sys (fun _ => trivial) hbegin)
    rw [List.mem_cons, List.mem_singleton] at hcall
    rcases hcall with rfl | rfl
    · trivial
    · exact ⟨hopens.fresh fd (List.mem_cons_of_mem _ List.mem_cons_self), hkeeps⟩

/-- Both are closed again if the ACK did not go out. -/
theorem handle_wrq_begin_grows {fds : List ℕ} {s s' : State} {sq : SockaddrQrtr} {sock fd : ℕ}
    (hsock : sock ∉ fds) (hfd : fd ∉ fds) (h : handle_wrq.begin sys s sq sock fd = some s') :
    Grows (Call.New fds) s s' := by
  unfold handle_wrq.begin at h
  split at h
  swap
  · cases h
  have hack : Grows (Call.New fds) s.tick (tftp_send_ack sys s.tick sock 0).2 :=
    send_grows sys s.tick sock _ fun _ => trivial
  have htick : Grows (Call.New fds) s s.tick := .of_eq rfl
  apply htick.trans
  simp only at h
  split at h
  · cases h
    have hclosed : Grows (Call.New fds) s.tick ((tftp_send_ack sys s.tick sock 0).2.close sock) :=
      hack.trans (.one rfl hsock)
    exact hclosed.trans (.one rfl hfd)
  · cases h
    exact hack.trans (.of_eq rfl)

theorem handle_wrq_grows {s s' : State} {mem : List UInt8} {sq : SockaddrQrtr}
    (h : handle_wrq sys s mem sq = some s') : Grows (Call.New s.fds) s s' := by
  unfold handle_wrq at h
  obtain ⟨request, -, h⟩ := Option.bind_eq_some_iff.mp h
  cases request with
  | none =>
    cases h
    exact .of_eq rfl
  | some filename =>
    simp only at h
    have hfile : Grows (Call.New s.fds) s (open_file sys s filename (O_WRONLY ||| O_CREAT)).2 :=
      open_file_grows sys (by decide) (List.Subset.refl s.fds)
    rcases open_file_cases sys s filename (O_WRONLY ||| O_CREAT) with
      ⟨-, he⟩ | ⟨file, -, fd, s1, he, hopens, -, -⟩
    · rw [he] at h hfile
      cases h
      exact hfile
    rw [he] at h hfile
    simp only at h hfile
    refine hfile.trans ?_
    rcases qrtr_open_cases sys s1 with ⟨-, he⟩ | ⟨-, sock, s2, he, hopens', -, hcalls⟩
    · rw [he] at h
      cases h
      exact .of_eq rfl
    rw [he] at h
    simp only at h
    refine (Grows.of_eq hcalls).trans ?_
    rcases connect_cases sys s2 sock sq with ⟨-, he⟩ | ⟨-, s3, he, -, -, hcalls'⟩
    · rw [he] at h
      cases h
      exact .of_eq rfl
    rw [he] at h
    refine (Grows.one hcalls' trivial).trans ?_
    have hfresh := (hopens.trans hopens').fresh
    apply handle_wrq_begin_grows sys (hfresh sock (List.mem_append_right _ List.mem_cons_self))
      (hfresh fd (List.mem_append_left _ List.mem_cons_self)) h

end Requests

/-! ## The server socket

What a message on the server socket does to the files and to the list of the writers. -/

/-- The message asks for a transfer to the file. -/
def Recv.Requests (sys : Sys) (path : List (List UInt8)) : Recv → Prop
  | .error => False
  | .data _ packet rest => be16At (packet.take 4096 ++ rest) 0 = OP_WRQ ∧ ∃ filename,
      handle_wrq.parse (packet.take 4096 ++ rest) = some (some filename) ∧ ∃ t file,
        translate_open (sys.os t) filename (O_WRONLY ||| O_CREAT) = some file ∧ file.file = path

/-- The message is from the control port of the peer's node. -/
def Recv.Dismisses (w : TftpClient) : Recv → Prop
  | .error => False
  | .data sq _ _ => sq.sq_port = QRTR_PORT_CTRL ∧ sq.sq_node = w.sq.sq_node

/-- The descriptors of the writers. -/
def writersOf (s : State) : Set ℕ := {fd | ∃ c ∈ s.writers, fd = c.fd}

theorem drop_writers_grows {P : Call → Prop} (s : State) (test : TftpClient → Bool)
    (hP : ∀ c ∈ s.writers, test c = true → P (.close c.sock) ∧ P (.close c.fd)) :
    Grows P s (drop_writers s test) := by
  have hall : ∀ (l : List TftpClient) (s' : State), (∀ c ∈ l, P (.close c.sock) ∧ P (.close c.fd)) →
      Grows P s' (l.foldl client_close_and_free s') := by
    intro l
    induction l with
    | nil => exact fun s' _ => .of_eq rfl
    | cons c l ih =>
      intro s' hl
      exact (close_grows s' (hl c List.mem_cons_self)).trans
        (ih _ fun c' hc' => hl c' (List.mem_cons_of_mem c hc'))
  refine (hall (s.writers.filter test) s fun c hc => ?_).trans (.of_eq rfl)
  exact hP c (List.mem_filter.mp hc).1 (List.mem_filter.mp hc).2

/-- What the control port sends closes writers of its node. -/
theorem control_grows {P : Call → Prop} {s : State} {sq : SockaddrQrtr} (buf : List UInt8)
    (hP : ∀ c ∈ s.writers, c.sq.sq_node = sq.sq_node → P (.close c.sock) ∧ P (.close c.fd)) :
    Grows P s (control s sq buf) ∧ (control s sq buf).writers ⊆ s.writers ∧
      ∀ c ∈ s.writers, c.sq.sq_node ≠ sq.sq_node → c ∈ (control s sq buf).writers := by
  have hdrop : ∀ test : TftpClient → Bool, (∀ c ∈ s.writers, test c = true → c.sq.sq_node = sq.sq_node) →
      Grows P s (drop_writers s test) ∧ (drop_writers s test).writers ⊆ s.writers ∧
        ∀ c ∈ s.writers, c.sq.sq_node ≠ sq.sq_node → c ∈ (drop_writers s test).writers := by
    intro test htest
    refine ⟨drop_writers_grows s test fun c hc ht => hP c hc (htest c hc ht), ?_, ?_⟩
    · exact fun c hc => (List.mem_filter.mp hc).1
    · intro c hc hnode
      refine List.mem_filter.mpr ⟨hc, ?_⟩
      rw [Bool.not_eq_true', Bool.eq_false_iff]
      exact fun ht => hnode (htest c hc ht)
  unfold control
  split
  · exact ⟨.of_eq rfl, fun _ hc => hc, fun _ hc _ => hc⟩
  split
  · exact hdrop _ fun c hc ht => of_decide_eq_true ht
  split
  · refine hdrop _ fun c hc ht => ?_
    rw [of_decide_eq_true ht]
  · exact ⟨.of_eq rfl, fun _ hc => hc, fun _ hc _ => hc⟩

theorem Books.fd_open {server : ℕ} {s : State} (hs : Books server s) {c : TftpClient} (hc : c ∈ s.writers) :
    c.fd ∈ s.fds := by
  apply hs.isOpen
  exact List.mem_cons_of_mem _ (mem_heldBy.mpr ⟨c, List.mem_append_right _ hc, .inr rfl⟩)

/-- What a request does is not about the transfers that are there. -/
theorem Call.New.apart {server : ℕ} {s : State} (hs : Books server s) {w : TftpClient}
    (hw : w ∈ s.writers) {call : Call} (h : call.New s.fds) : Apart s w call := by
  have hfresh : ∀ fd, fd ∉ s.fds → some fd ≠ some w.fd := by
    intro fd hfd he
    exact hfd (Option.some.inj he ▸ hs.fd_open hw)
  cases call with
  | open_ fd file =>
    refine ⟨⟨?_, h.2⟩, hfresh fd h.1⟩
    rintro ⟨c, hc, -, rfl⟩
    exact h.1 (hs.fd_open hc)
  | connect | send => exact ⟨trivial, nofun⟩
  | write => exact absurd h id
  | close fd => exact ⟨trivial, hfresh fd h⟩

theorem Call.New.within {server : ℕ} {s : State} (hs : Books server s) {call : Call}
    (h : call.New s.fds) : call.Within (writersOf s) := by
  cases call with
  | open_ fd file =>
    refine ⟨?_, h.2⟩
    rintro ⟨c, hc, rfl⟩
    exact h.1 (hs.fd_open hc)
  | connect | send | close => trivial
  | write => exact absurd h id

section Receive

variable (sys : Sys) {server : ℕ}

/-- A new writer is the one of a write request. -/
theorem handle_wrq_new {s s' : State} {mem : List UInt8} {sq : SockaddrQrtr}
    (h : handle_wrq sys s mem sq = some s') :
    s'.writers = s.writers ∨ ∃ c filename file, s'.writers = s.writers ++ [c] ∧
      handle_wrq.parse mem = some (some filename) ∧
      translate_open (sys.os s.time) filename (O_WRONLY ||| O_CREAT) = some file ∧ c.fd ∉ s.fds ∧
      s'.calls = s.calls ++ [.open_ c.fd file, .connect c.sock c.sq, .send c.sock (ackPacket 0)] := by
  rcases handle_wrq_cases sys s mem sq with ⟨-, he⟩ | ⟨-, he⟩ | ⟨filename, hparse, hcases⟩
  · rw [he] at h
    cases h
  · rw [he] at h
    cases h
    exact .inl rfl
  rcases hcases with ⟨-, s1, he, hworks⟩ | ⟨-, fd, new, s1, he, hopens⟩ |
    ⟨-, fd, sock, s1, hopens, ⟨file, hfile, hcalls⟩, he⟩
  · rw [he] at h
    cases h
    exact .inl hworks.same.2
  · rw [he] at h
    cases h
    exact .inl hopens.same.2
  rw [he] at h
  rcases handle_wrq_begin_adds sys h with ⟨hadds, hsent⟩ | ⟨s2, hworks, rfl⟩
  · refine .inr ⟨⟨sq, sock, fd, 0, 0, 0, 0⟩, filename, file, ?_, hparse, hfile,
      hopens.fresh fd List.mem_cons_self, ?_⟩
    · rw [hadds.same.2, hopens.same.2]
    · rw [hsent, hcalls, List.append_assoc]
      rfl
  · exact .inl (hopens.same.trans hworks.same).2

/-- The three things that the server socket does: writers of a node are closed, new descriptors are
opened for something else, or a writer begins. -/
theorem receive_writers {s s' : State} {recv : Recv} (h : receive sys s recv = some s') :
    (s'.writers ⊆ s.writers ∧ (∀ c ∈ s.writers, ¬ recv.Dismisses c → c ∈ s'.writers) ∧
      ∀ P : Call → Prop, (∀ call, call.New s.fds → P call) →
        (∀ c ∈ s.writers, recv.Dismisses c → P (.close c.sock) ∧ P (.close c.fd)) → Grows P s s') ∨
    ∃ sq packet rest c filename file, recv = .data sq packet rest ∧
      be16At (packet.take 4096 ++ rest) 0 = OP_WRQ ∧
      handle_wrq.parse (packet.take 4096 ++ rest) = some (some filename) ∧
      translate_open (sys.os s.time) filename (O_WRONLY ||| O_CREAT) = some file ∧
      s'.writers = s.writers ++ [c] ∧ c.fd ∉ s.fds ∧
      s'.calls = s.calls ++ [.open_ c.fd file, .connect c.sock c.sq, .send c.sock (ackPacket 0)] := by
  have hsame : s'.writers = s.writers → Grows (Call.New s.fds) s s' →
      s'.writers ⊆ s.writers ∧ (∀ c ∈ s.writers, ¬ recv.Dismisses c → c ∈ s'.writers) ∧
      ∀ P : Call → Prop, (∀ call, call.New s.fds → P call) →
        (∀ c ∈ s.writers, recv.Dismisses c → P (.close c.sock) ∧ P (.close c.fd)) → Grows P s s' := by
    intro hwriters hgrows
    rw [hwriters]
    exact ⟨List.Subset.refl _, fun _ hc _ => hc, fun P hP _ => hgrows.mono hP⟩
  cases recv with
  | error =>
    cases h
    exact .inl (hsame rfl (.of_eq rfl))
  | data sq packet rest =>
    simp only [receive] at h
    split at h
    -- a control message: the writers of its node are closed
    · rename_i hport
      cases h
      obtain ⟨-, hsub, hstay⟩ := control_grows (P := fun _ => True) (packet.take 4096)
        fun _ _ _ => ⟨trivial, trivial⟩
      refine .inl ⟨hsub, fun c hc hno => hstay c hc fun he => hno ⟨hport, he.symm⟩, fun P _ hP => ?_⟩
      exact (control_grows (packet.take 4096) fun c hc he => hP c hc ⟨hport, he.symm⟩).1
    split at h
    · cases h
      exact .inl (hsame rfl (.of_eq rfl))
    split at h
    · exact .inl (hsame (handle_rrq_grows sys h).1 (handle_rrq_grows sys h).2)
    split at h
    -- a write request that is granted is the second case, one that fails is the first
    · rename_i hop
      rcases handle_wrq_new sys h with hwriters | ⟨c, filename, file, hwriters, hparse, hfile, hfresh, hcalls⟩
      · exact .inl (hsame hwriters (handle_wrq_grows sys h))
      · exact .inr ⟨sq, packet, rest, c, filename, file, rfl, hop, hparse, hfile, hwriters, hfresh, hcalls⟩
    · cases h
      exact .inl (hsame rfl (.of_eq rfl))

end Receive

/-! ## One round

One round as it looks to a file: it rests, or its writer puts a block behind the others. -/

/-- What a round brings for a socket. -/
def Round.client (sock : ℕ) : Round → Option Recv
  | .ready clients _ => clients sock
  | _ => none

/-- What a round brings for the server socket. -/
def Round.server : Round → Option Recv
  | .ready _ server => server
  | _ => none

section Step

variable (sys : Sys) {server : ℕ} {path : List (List UInt8)} {disk : Disk (List (List UInt8))}

variable (disk) in
/-- A writer that begins stands at the start of its file, and no other one has moved. -/
theorem begin_writing {s s' : State} (hs : Books server s) {c : TftpClient} {file : Opening}
    (hkeeps : file.flags &&& O_TRUNC = 0) (hwriters : s'.writers = s.writers ++ [c]) (hfresh : c.fd ∉ s.fds)
    (hcalls : s'.calls = s.calls ++ [.open_ c.fd file, .connect c.sock c.sq, .send c.sock (ackPacket 0)]) :
    s'.disk disk = (s.disk disk).open_ c.fd file.file false ∧
      ∀ c' ∈ s'.writers, c' ≠ c → c' ∈ s.writers ∧ c'.fd ≠ c.fd := by
  constructor
  · rw [State.disk, hcalls, List.foldl_append]
    simp [Call.apply, hkeeps, State.disk]
  · intro c' hc' hne
    rw [hwriters, List.mem_append, List.mem_singleton] at hc'
    have hold := hc'.resolve_right hne
    refine ⟨hold, fun he => hfresh ?_⟩
    rw [← he]
    exact hs.fd_open hold

variable (disk) in
/-- No writer gets to a file that the new one does not have. -/
theorem begin_away {s s' : State} (hs : Books server s) {c : TftpClient} {file : Opening}
    (hkeeps : file.flags &&& O_TRUNC = 0) (hwriters : s'.writers = s.writers ++ [c]) (hfresh : c.fd ∉ s.fds)
    (hcalls : s'.calls = s.calls ++ [.open_ c.fd file, .connect c.sock c.sq, .send c.sock (ackPacket 0)])
    (hpath : file.file ≠ path) {c' : TftpClient} (hc' : c' ∈ s'.writers)
    (haway : c' ∈ s.writers → (s.disk disk).Away c'.fd path) : (s'.disk disk).Away c'.fd path := by
  obtain ⟨hdisk, hothers⟩ := begin_writing disk hs hkeeps hwriters hfresh hcalls
  rw [hdisk]
  by_cases hne : c' = c
  · rw [hne]
    exact Disk.away_open hpath _
  · obtain ⟨hold, hfd⟩ := hothers c' hc' hne
    exact (haway hold).open_ hfd _

theorem receive_rests {s s' : State} (hs : Books server s) {recv : Recv}
    (h : receive sys s recv = some s') (hother : ¬ recv.Requests sys path)
    (hclear : Clear (s.disk disk) (writersOf s) path) :
    Clear (s'.disk disk) (writersOf s') path ∧
      (s'.disk disk).content path = (s.disk disk).content path := by
  rcases receive_writers sys h with ⟨hsub, -, hgrows⟩ |
    ⟨sq, packet, rest, c, filename, file, rfl, hop, hparse, hfile, hwriters, hfresh, hcalls⟩
  · have hwithin := hgrows (Call.Within (writersOf s)) (fun call hcall => hcall.within hs)
      fun _ _ _ => ⟨trivial, trivial⟩
    obtain ⟨hclear', hcontent⟩ := hwithin.content hclear
    refine ⟨?_, hcontent⟩
    rintro fd ⟨c, hc, rfl⟩
    exact hclear' c.fd ⟨c, hsub hc, rfl⟩
  · -- the file of the new writer is another one
    have hpath : file.file ≠ path := fun he => hother ⟨hop, filename, hparse, _, file, hfile, he⟩
    have hkeeps := translate_open_keeps hfile
    obtain ⟨hdisk, -⟩ := begin_writing disk hs hkeeps hwriters hfresh hcalls
    refine ⟨?_, by rw [hdisk, Disk.content_open]⟩
    rintro fd ⟨c', hc', rfl⟩
    apply begin_away disk hs hkeeps hwriters hfresh hcalls hpath hc'
    intro hold
    exact hclear c'.fd ⟨c', hold, rfl⟩

theorem receive_writing {s s' : State} (hs : Books server s) {recv : Recv}
    (h : receive sys s recv = some s') (hother : ¬ recv.Requests sys path) {w : TftpClient}
    (hw : w ∈ s.writers) (hnode : ¬ recv.Dismisses w) (hclear : Clear (s.disk disk) (othersOf s w) path)
    {offset : ℕ} {content : List UInt8} (hstands : (s.disk disk).Stands w.fd path offset content) :
    w ∈ s'.writers ∧ Clear (s'.disk disk) (othersOf s' w) path ∧
      (s'.disk disk).Stands w.fd path offset content := by
  rcases receive_writers sys h with ⟨hsub, hstay, hgrows⟩ |
    ⟨sq, packet, rest, c, filename, file, rfl, hop, hparse, hfile, hwriters, hfresh, hcalls⟩
  · -- the writers that are closed are not this one
    have hapart := hgrows (Apart s w) (fun call hcall => hcall.apart hs hw) fun c hc hdismissed => by
      have hne : c ≠ w := fun he => hnode (he ▸ hdismissed)
      obtain ⟨hsock, hfd⟩ := hs.apart (List.mem_append_right _ hc) (List.mem_append_right _ hw) hne
      exact ⟨⟨trivial, fun he => hsock (Option.some.inj he)⟩, trivial, fun he => hfd (Option.some.inj he)⟩
    obtain ⟨hclear', hstands'⟩ := hapart.stands hclear hstands
    refine ⟨hstay w hw hnode, ?_, hstands'⟩
    rintro fd ⟨c, hc, hne, rfl⟩
    exact hclear' c.fd ⟨c, hsub hc, hne, rfl⟩
  · have hpath : file.file ≠ path := fun he => hother ⟨hop, filename, hparse, _, file, hfile, he⟩
    have hkeeps := translate_open_keeps hfile
    obtain ⟨hdisk, -⟩ := begin_writing disk hs hkeeps hwriters hfresh hcalls
    refine ⟨?_, ?_, ?_⟩
    · rw [hwriters]
      exact List.mem_append_left _ hw
    · rintro fd ⟨c', hc', hne, rfl⟩
      apply begin_away disk hs hkeeps hwriters hfresh hcalls hpath hc'
      intro hold
      exact hclear c'.fd ⟨c', hold, hne, rfl⟩
    · -- the descriptor of the new writer is a new one
      rw [hdisk]
      apply hstands.open_
      intro he
      exact hfresh (he ▸ hs.fd_open hw)

end Step

section Round

variable (sys : Sys) {server : ℕ} {path : List (List UInt8)} {disk : Disk (List (List UInt8))}

/-- A round after which the server goes on. -/
theorem step_cases {s : State} {round : Round} (h : (main.step sys s round).status = .running) :
    (main.step sys s round = s ∧ round = .eintr) ∨
    ∃ clients server s1, round = .ready clients server ∧ main.served sys s clients = some s1 ∧
      ((server = none ∧ main.step sys s round = s1) ∨
        ∃ recv, server = some recv ∧ receive sys s1 recv = some (main.step sys s round)) := by
  have hrun := step_running sys h
  unfold main.step at h ⊢
  rw [if_pos hrun] at h ⊢
  cases round with
  | eintr => exact .inl ⟨rfl, rfl⟩
  | failed => cases h
  | ready clients server =>
    refine .inr ⟨clients, server, ?_⟩
    simp only [main_round_eq] at h ⊢
    cases hserved : main.served sys s clients with
    | none =>
      rw [hserved] at h
      cases h
    | some s1 =>
      rw [hserved] at h
      refine ⟨s1, trivial, rfl, ?_⟩
      simp only [Option.bind_some] at h ⊢
      cases server with
      | none => exact .inl ⟨rfl, rfl⟩
      | some recv =>
        simp only at h ⊢
        cases hreceive : receive sys s1 recv with
        | none =>
          rw [hreceive] at h
          cases h
        | some s2 => exact .inr ⟨recv, rfl, hreceive⟩

/-- A file that no writer has is left alone. -/
theorem step_rests {s : State} (hs : Books server s) {round : Round}
    (hrun : (main.step sys s round).status = .running)
    (hother : ∀ recv ∈ round.server, ¬ recv.Requests sys path)
    (hclear : Clear (s.disk disk) (writersOf s) path) :
    Clear ((main.step sys s round).disk disk) (writersOf (main.step sys s round)) path ∧
      ((main.step sys s round).disk disk).content path = (s.disk disk).content path := by
  rcases step_cases sys hrun with ⟨he, -⟩ | ⟨clients, recv, s1, rfl, hserved, hcases⟩
  · rw [he]
    exact ⟨hclear, rfl⟩
  obtain ⟨hsub, hwithin⟩ := served_within sys hserved
  obtain ⟨hclear1, hcontent1⟩ := hwithin.content hclear
  have hclear1' : Clear (s1.disk disk) (writersOf s1) path := by
    rintro fd ⟨c, hc, rfl⟩
    exact hclear1 c.fd ⟨c, hsub hc, rfl⟩
  rcases hcases with ⟨-, he⟩ | ⟨recv, rfl, hreceive⟩
  · rw [he]
    exact ⟨hclear1', hcontent1⟩
  · have hs1 := ((served_accounts sys server hserved).1 hs).1
    obtain ⟨hclear2, hcontent2⟩ := receive_rests sys hs1 hreceive (hother recv rfl) hclear1'
    exact ⟨hclear2, hcontent2.trans hcontent1⟩

variable {w : TftpClient} (hwrite : ∀ t bytes, sys.write t w.fd bytes = (bytes.length : ℤ))

/-- A DATA packet of the peer. -/
def Recv.Block (w : TftpClient) (payload : List UInt8) (recv : Recv) : Prop :=
  ∃ block rest, recv = .data w.sq (dataPacket block payload) rest

omit sys in
/-- A DATA packet fits the buffer of a writer. -/
theorem dataPacket_take {payload : List UInt8} (hlen : payload.length ≤ 512) (block : UInt16) :
    (dataPacket block payload).take 516 = dataPacket block payload := by
  apply List.take_of_length_le
  simp only [dataPacket, be16, List.length_append, List.length_cons, List.length_nil]
  omega

omit sys in
theorem Recv.Block.payload {payload : List UInt8} {recv : Recv} (h : recv.Block w payload)
    (hlen : payload.length ≤ 512) : recv.payload = payload := by
  obtain ⟨block, rest, rfl⟩ := h
  rw [Recv.payload, dataPacket_take hlen]
  rfl

include hwrite in
/-- It is written and acknowledged. -/
theorem handle_writer_stores {s s' : State} {ret : ℤ} {recv : Recv} {payload : List UInt8}
    (hblock : recv.Block w payload) (hlen : payload.length ≤ 512)
    (h : handle_writer sys s w recv = some (ret, s')) {P : Call → Prop}
    (hP : ∀ data, P (.send w.sock data)) :
    ret = (if payload.length = 512 then 1 else 0) ∧ ∃ s1,
      s1.calls = s.calls ++ [.write w.fd payload] ∧ Grows P s1 s' := by
  obtain ⟨block, rest, rfl⟩ := hblock
  have htake := dataPacket_take hlen block
  have hop : be16At (dataPacket block payload ++ rest) 0 = OP_DATA := by
    rw [dataPacket, List.append_assoc]
    exact be16At_zero ..
  have hlong : ¬ (dataPacket block payload).length < 4 := by
    simp only [dataPacket, be16, List.length_append, List.length_cons, List.length_nil]
    omega
  have hpayload : (dataPacket block payload).drop 4 = payload := rfl
  have hstored : ¬ sys.write s.time w.fd payload < 0 := by
    rw [hwrite]
    omega
  simp only [handle_writer, htake, ne_eq, not_true_eq_false, if_false, hop, hlong, hpayload, hstored] at h
  cases h
  exact ⟨rfl, _, rfl, send_grows sys _ w.sock _ hP⟩

omit sys in
variable (disk) in
theorem disk_write {s s' : State} {fd : ℕ} {bytes : List UInt8}
    (h : s'.calls = s.calls ++ [.write fd bytes]) : s'.disk disk = (s.disk disk).write fd bytes := by
  rw [State.disk, h, List.foldl_append]
  rfl

include hwrite in
/-- A round that brings a block: it is put behind the others, and a short one ends the transfer. -/
theorem served_block {s s' : State} (hs : Books server s) (hw : w ∈ s.writers) {clients : ℕ → Option Recv}
    (h : main.served sys s clients = some s') {recv : Recv} {payload : List UInt8}
    (hready : clients w.sock = some recv) (hblock : recv.Block w payload) (hlen : payload.length ≤ 512)
    (hclear : Clear (s.disk disk) (othersOf s w) path) {offset : ℕ} {content : List UInt8}
    (hstands : (s.disk disk).Stands w.fd path offset content) :
    Clear (s'.disk disk) (othersOf s w) path ∧
      (s'.disk disk).content path = splice content offset payload ∧
      (w ∈ s'.writers ↔ payload.length = 512) ∧
      (payload.length = 512 →
        (s'.disk disk).Stands w.fd path (offset + payload.length) (splice content offset payload)) := by
  rcases served_around sys hs hw h with ⟨hnone, -⟩ | ⟨recv', s1, ret, s2, hrecv, hhandle, hbefore, hafter, hstay⟩
  · rw [hnone] at hready
    cases hready
  rw [hready] at hrecv
  cases hrecv
  have hsend : ∀ data, Apart s w (.send w.sock data) := fun _ => ⟨trivial, nofun⟩
  obtain ⟨hret, s3, hcalls, hsent⟩ := handle_writer_stores sys hwrite hblock hlen hhandle hsend
  obtain ⟨hclear1, hstands1⟩ := hbefore.stands hclear hstands
  have hclear3 : Clear (s3.disk disk) (othersOf s w) path := by
    rw [disk_write disk hcalls]
    exact fun fd hfd => (hclear1 fd hfd).write
  have hstands3 := hstands1.write payload
  rw [← disk_write disk hcalls] at hstands3
  by_cases hfull : payload.length = 512
  · -- the transfer goes on, and what comes after the write only sends
    rw [if_pos hfull] at hret
    rw [hret, if_neg (by decide)] at hafter
    obtain ⟨hclear', hstands'⟩ := (hsent.trans hafter).stands hclear3 hstands3
    rw [hret] at hstay
    exact ⟨hclear', hstands'.content, ⟨fun _ => hfull, fun _ => hstay.mpr (by decide)⟩, fun _ => hstands'⟩
  · -- both descriptors are closed, so that only the content is kept
    rw [if_neg hfull] at hret
    rw [hret, if_pos (by decide)] at hafter
    have hclose : Grows (Call.Within (othersOf s w)) s2 (client_close_and_free s2 w) :=
      close_grows s2 ⟨trivial, trivial⟩
    have hall := ((hsent.mono fun _ hcall => hcall.1).trans hclose).trans (hafter.mono fun _ hcall => hcall.1)
    obtain ⟨hclear', hcontent'⟩ := hall.content hclear3
    rw [hret] at hstay
    refine ⟨hclear', hcontent'.trans hstands3.content, ⟨fun hin => ?_, fun he => absurd he hfull⟩,
      fun he => absurd he hfull⟩
    exact absurd (hstay.mp hin) (by decide)

end Round

end Dragonboard.Tqftpserv
