/-
The room in the poll set of a waiter.

`waiter_add_null` replaces the poll set when the count is a multiple of 32, and makes it 33 larger than
the count. So the slots are one more than a multiple of 32, and the tickets that were added are fewer
than the slots (`Room`). A `waiter_wait_timeout` raises the count for its own ticket, which needs no
slot. A callback inside it that adds a ticket can then step over the multiple, and the poll set is not
replaced although its room is used up (`Skips`). This is the only way to lose room (`Room.add_iff`):
every function keeps what `Sound` says, an addition unless it steps over a multiple.

What the room is for is the first loop of `waiter_wait`, which writes within its block exactly as long
as the descriptors fit (`waiter_wait.first_isSome`).
-/
import Mathlib.Data.List.Perm.Subperm
import Dragonboard.Waiter

set_option autoImplicit false

namespace Dragonboard.Waiters

open Dragonboard.LinkedList

/-! ## What is counted

Slots are needed for descriptors only, but the poll set grows by the number of all tickets, and
those of `waiter_wait_timeout` come and go. -/

/-- Whether a ticket is for a file descriptor. -/
def State.isFd (s : State) (id : ℕ) : Bool :=
  (s.ticket id).any fun ticket => decide (ticket.type = .fd)

/-- The file descriptor tickets of the list. -/
def fdTickets (s : State) : Option ℕ :=
  (walk s.heap s.made s.w.tickets.head).map fun l => l.countP s.isFd

/-- The `struct pollfd` slots of `w->pollset`. -/
def slots (s : State) : ℕ :=
  match s.w.pollset.bind s.block with
  | some ps => ps.pfd.length
  | none => 0

/-- The tickets of the `waiter_wait_timeout` calls in progress. -/
def temps : List Frame → List ℕ
  | [] => []
  | .timeout id :: stack => id :: temps stack
  | _ :: stack => temps stack

/-- An addition now, in a callback of a `waiter_wait_timeout`, steps over the multiple at which the poll
set had to be replaced. -/
def Skips (m : Machine) : Prop :=
  temps m.stack ≠ [] ∧ m.state.w.count % 32 ≠ 0 ∧
    (slots m.state : ℤ) + (temps m.stack).length ≤ m.state.w.count + 1

instance (m : Machine) : Decidable (Skips m) := inferInstanceAs (Decidable (_ ∧ _ ∧ _))

/-! ## Room

The arithmetic of the multiples, apart from tickets and lists. -/

/-- The slots for a count that includes some temporary tickets: there is no poll set and nothing was
added, or one slot at least is left. -/
def Room (slots count temps : ℕ) : Prop :=
  slots = 0 ∧ count = temps ∨ slots % 32 = 1 ∧ count + 1 ≤ slots + temps

theorem Room.regrow {count : ℕ} (hmod : count % 32 = 0) (temps : ℕ) :
    Room (count + 33) (count + 1) temps := by
  unfold Room
  omega

/-- An addition that does not replace the poll set leaves room, unless it steps over a multiple. -/
theorem Room.add_iff {slots count temps : ℕ} (h : Room slots count temps) (hmod : count % 32 ≠ 0) :
    Room slots (count + 1) temps ↔ ¬ (temps ≠ 0 ∧ slots + temps ≤ count + 1) := by
  -- without temporary tickets the room is used up at a multiple of 32 only, which `hmod` excludes
  unfold Room at *
  omega

theorem Room.enter {slots count temps : ℕ} (h : Room slots count temps) :
    Room slots (count + 1) (temps + 1) := by
  unfold Room at *
  omega

theorem Room.leave {slots count temps : ℕ} (h : Room slots (count + 1) (temps + 1)) :
    Room slots count temps := by
  unfold Room at *
  omega

/-- A ticket other than the temporary ones is deleted. -/
theorem Room.delete {slots count temps : ℕ} (h : Room slots (count + 1) temps)
    (hown : temps ≤ count) : Room slots count temps := by
  unfold Room at *
  omega

/-! ## The list

The list of the waiter has the tickets that are in memory, each once. The program holds all of
them but those of the waits in progress. -/

/-- The tickets of the list are the ones in memory. -/
structure Linked (s : State) (l : List ℕ) : Prop where
  spells : Spells s.heap s.w.tickets l
  made : ∀ id ∈ l, id < s.made
  live : ∀ id, id ∈ l ↔ (s.ticket id).isSome

namespace Linked

variable {s s' : State} {l : List ℕ} {id : ℕ}

theorem made_notMem (h : Linked s l) : s.made ∉ l :=
  fun hmem => Nat.lt_irrefl _ (h.made _ hmem)

theorem mem_of_ticket (h : Linked s l) {ticket : WaiterTicket} (hticket : s.ticket id = some ticket) :
    id ∈ l := by
  rw [h.live, hticket]
  rfl

theorem ticket_of_mem (h : Linked s l) (hid : id ∈ l) : ∃ ticket, s.ticket id = some ticket :=
  Option.isSome_iff_exists.mp ((h.live id).mp hid)

theorem walk_eq (h : Linked s l) : walk s.heap s.made s.w.tickets.head = some l := by
  have hsub : l ⊆ List.range s.made := fun id hid => List.mem_range.mpr (h.made id hid)
  have hlen := (h.spells.nodup.subperm hsub).length_le
  rw [List.length_range] at hlen
  exact walk_spells h.spells hlen

theorem modify (h : Linked s l) (id : ℕ) (f : WaiterTicket → WaiterTicket) :
    Linked (s.modify id f) l := by
  refine ⟨h.spells, h.made, ?_⟩
  intro x
  rw [h.live]
  by_cases hx : x = id
  · rw [hx, State.modify_self, Option.isSome_map]
  · rw [State.modify_of_ne hx]

theorem append (h : Linked s l) (ticket : WaiterTicket) :
    Linked (s.append ticket) (l ++ [s.made]) := by
  refine ⟨h.spells.list_append h.made_notMem, ?_, ?_⟩
  · intro id hid
    rw [State.append_made]
    rcases List.mem_append.mp hid with hid | hid
    · have hlt := h.made id hid
      omega
    · have heq := List.mem_singleton.mp hid
      omega
  · intro id
    rw [List.mem_append, List.mem_singleton, h.live]
    by_cases hid : id = s.made
    · rw [hid, State.append_self]
      simp
    · rw [State.append_of_ne hid]
      simp [hid]

theorem remove (h : Linked s l) (hid : id ∈ l) (hs' : s.remove id = some s') :
    ∃ l', Linked s' l' ∧ l.length = l'.length + 1 := by
  obtain ⟨A, B, rfl⟩ := List.append_of_mem hid
  obtain ⟨hA, hB, -⟩ := nodup_around h.spells.nodup
  obtain ⟨heap, tickets, hremove, hspells⟩ := h.spells.list_remove
  obtain ⟨hlist, hticket, hmade, -⟩ := State.remove_eq_some hs'
  rw [hremove] at hlist
  cases hlist
  refine ⟨A ++ B, ⟨hspells, ?_, ?_⟩, by simp; omega⟩
  · intro x hx
    rw [hmade]
    refine h.made x ?_
    simp only [List.mem_append, List.mem_cons] at hx ⊢
    tauto
  · intro x
    rw [hticket]
    by_cases hx : x = id
    · rw [hx, Function.update_self]
      simp [hA, hB]
    · rw [Function.update_of_ne hx, ← h.live]
      simp [hx]

end Linked

/-- The tickets of the list, and those among them that are temporary. The program holds the others. -/
structure Listed (s : State) (temps l : List ℕ) : Prop extends Linked s l where
  nodup : temps.Nodup
  temp : ∀ id ∈ temps, ∃ ticket, s.ticket id = some ticket ∧ ticket.type = .timeout ∧
    ticket.waiter = false
  held : ∀ id ticket, s.ticket id = some ticket → id ∉ temps → ticket.waiter = true

namespace Listed

variable {s s' : State} {temps l : List ℕ} {id : ℕ}

theorem subset (h : Listed s temps l) : temps ⊆ l := by
  intro id hid
  obtain ⟨ticket, hticket, -⟩ := h.temp id hid
  exact h.mem_of_ticket hticket

/-- The counts and the poll set do not matter. -/
theorem of_eq (h : Listed s temps l) (hheap : s'.heap = s.heap)
    (htickets : s'.w.tickets = s.w.tickets) (hticket : s'.ticket = s.ticket)
    (hmade : s'.made = s.made) : Listed s' temps l := by
  refine ⟨⟨?_, ?_, ?_⟩, h.nodup, ?_, ?_⟩
  · rw [hheap, htickets]
    exact h.spells
  · rw [hmade]
    exact h.made
  · rw [hticket]
    exact h.live
  · rw [hticket]
    exact h.temp
  · rw [hticket]
    exact h.held

theorem made_notMem_temps (h : Listed s temps l) : s.made ∉ temps :=
  fun hmem => h.made_notMem (h.subset hmem)

/-- A ticket that the program holds is not temporary. -/
theorem notMem_of_held (h : Listed s temps l) {ticket : WaiterTicket}
    (hticket : s.ticket id = some ticket) (hwaiter : ticket.waiter = true) : id ∉ temps := by
  intro hmem
  obtain ⟨ticket', hticket', -, hwaiter'⟩ := h.temp id hmem
  rw [hticket] at hticket'
  cases hticket'
  rw [hwaiter] at hwaiter'
  cases hwaiter'

/-- The temporary tickets are no descriptors. -/
theorem fds_le (h : Listed s temps l) : ∃ n, fdTickets s = some n ∧ n + temps.length ≤ l.length := by
  refine ⟨l.countP s.isFd, by rw [fdTickets, h.walk_eq]; rfl, ?_⟩
  have hsub : temps ⊆ l.filter fun id => ¬ s.isFd id := by
    intro id hid
    obtain ⟨ticket, hticket, htype, -⟩ := h.temp id hid
    rw [List.mem_filter]
    refine ⟨h.subset hid, ?_⟩
    simp [State.isFd, hticket, htype]
  have hrest := (h.nodup.subperm hsub).length_le
  rw [← List.countP_eq_length_filter] at hrest
  have hsum := List.length_eq_countP_add_countP s.isFd (l := l)
  omega

/-- All other tickets may be descriptors. -/
theorem le_fds (h : Listed s temps l) (hfd : ∀ id ∈ l, id ∉ temps → s.isFd id) :
    ∃ n, fdTickets s = some n ∧ l.length ≤ n + temps.length := by
  refine ⟨l.countP s.isFd, by rw [fdTickets, h.walk_eq]; rfl, ?_⟩
  have hsub : (l.filter fun id => ¬ s.isFd id) ⊆ temps := by
    intro id hid
    obtain ⟨hid, hnot⟩ := List.mem_filter.mp hid
    by_contra htemp
    simp [hfd id hid htemp] at hnot
  have hrest := ((h.spells.nodup.filter _).subperm hsub).length_le
  rw [← List.countP_eq_length_filter] at hrest
  have hsum := List.length_eq_countP_add_countP s.isFd (l := l)
  omega

/-- A ticket is written to. It stays with whom it is with, and a temporary one stays a timeout. -/
theorem modify (h : Listed s temps l) (id : ℕ) (f : WaiterTicket → WaiterTicket)
    (hf : ∀ ticket, s.ticket id = some ticket → (f ticket).waiter = ticket.waiter ∧
      (id ∈ temps → (f ticket).type = ticket.type)) :
    Listed (s.modify id f) temps l := by
  refine ⟨h.toLinked.modify id f, h.nodup, ?_, ?_⟩
  · intro x hx
    obtain ⟨ticket, hticket, htype, hwaiter⟩ := h.temp x hx
    by_cases hxid : x = id
    · subst hxid
      obtain ⟨hfwaiter, hftype⟩ := hf ticket hticket
      refine ⟨f ticket, ?_, (hftype hx).trans htype, hfwaiter.trans hwaiter⟩
      rw [State.modify_self, hticket]
      rfl
    · refine ⟨ticket, ?_, htype, hwaiter⟩
      rw [State.modify_of_ne hxid, hticket]
  · intro x ticket hticket hx
    by_cases hxid : x = id
    · subst hxid
      rw [State.modify_self] at hticket
      obtain ⟨old, hold, rfl⟩ := Option.map_eq_some_iff.mp hticket
      exact (hf old hold).1.trans (h.held x old hold hx)
    · rw [State.modify_of_ne hxid] at hticket
      exact h.held x ticket hticket hx

/-- The temporary tickets are as before when one is added. -/
theorem temp_append (h : Listed s temps l) (new : WaiterTicket) :
    ∀ id ∈ temps, ∃ ticket, (s.append new).ticket id = some ticket ∧ ticket.type = .timeout ∧
      ticket.waiter = false := by
  intro id hid
  have hne : id ≠ s.made := by
    rintro rfl
    exact h.made_notMem_temps hid
  rw [State.append_of_ne hne]
  exact h.temp id hid

/-- A ticket of the program is added. -/
theorem append (h : Listed s temps l) {ticket : WaiterTicket} (hwaiter : ticket.waiter = true) :
    Listed (s.append ticket) temps (l ++ [s.made]) := by
  refine ⟨h.toLinked.append ticket, h.nodup, h.temp_append ticket, ?_⟩
  intro id new hnew hid
  by_cases heq : id = s.made
  · rw [heq, State.append_self] at hnew
    cases hnew
    exact hwaiter
  · rw [State.append_of_ne heq] at hnew
    exact h.held id new hnew hid

/-- A temporary ticket is added. -/
theorem append_temp (h : Listed s temps l) {ticket : WaiterTicket} (htype : ticket.type = .timeout)
    (hwaiter : ticket.waiter = false) :
    Listed (s.append ticket) (s.made :: temps) (l ++ [s.made]) := by
  refine ⟨h.toLinked.append ticket, List.nodup_cons.mpr ⟨h.made_notMem_temps, h.nodup⟩, ?_, ?_⟩
  · intro id hid
    rcases List.mem_cons.mp hid with rfl | hid
    · exact ⟨ticket, State.append_self, htype, hwaiter⟩
    · exact h.temp_append ticket id hid
  · intro id new hnew hid
    rw [List.mem_cons, not_or] at hid
    rw [State.append_of_ne hid.1] at hnew
    exact h.held id new hnew hid.2

/-- A ticket is removed, and is not temporary any more. -/
theorem remove (h : Listed s temps l) (hid : id ∈ l) (hs' : s.remove id = some s') :
    ∃ l', Listed s' (temps.erase id) l' ∧ l.length = l'.length + 1 := by
  obtain ⟨l', hl', hlen⟩ := h.toLinked.remove hid hs'
  obtain ⟨-, hticket, -⟩ := State.remove_eq_some hs'
  refine ⟨l', ⟨hl', h.nodup.erase id, ?_, ?_⟩, hlen⟩
  · intro x hx
    obtain ⟨hne, hx⟩ := h.nodup.mem_erase_iff.mp hx
    rw [hticket, Function.update_of_ne hne]
    exact h.temp x hx
  · intro x ticket hx hxtemp
    rw [hticket] at hx
    by_cases hxid : x = id
    · rw [hxid, Function.update_self] at hx
      cases hx
    · rw [Function.update_of_ne hxid] at hx
      refine h.held x ticket hx ?_
      intro hmem
      exact hxtemp (h.nodup.mem_erase_iff.mpr ⟨hxid, hmem⟩)

end Listed

/-! ## The functions

One lemma for each function of `waiter.c` that the runs go through. -/

/-- A waiter with room, while some temporary tickets are in its list. -/
def Sound (s : State) (temps : List ℕ) : Prop :=
  ∃ l, Listed s temps l ∧ s.w.count = l.length ∧ Room (slots s) l.length temps.length

theorem Sound.waiter_create : Sound waiter_create [] := by
  refine ⟨[], ⟨⟨Spells.init _, by simp, ?_⟩, List.nodup_nil, by simp, ?_⟩, rfl, Or.inl ⟨rfl, rfl⟩⟩
  · intro id
    simp [Waiters.waiter_create]
  · intro id ticket hticket
    cases hticket

theorem Sound.fds_le {s : State} {temps : List ℕ} (h : Sound s temps) :
    ∃ n, fdTickets s = some n ∧ n ≤ slots s := by
  obtain ⟨l, hl, -, hroom⟩ := h
  obtain ⟨n, hn, hle⟩ := hl.fds_le
  refine ⟨n, hn, ?_⟩
  unfold Room at hroom
  omega

theorem Sound.modify {s : State} {temps : List ℕ} (h : Sound s temps) (id : ℕ)
    (f : WaiterTicket → WaiterTicket)
    (hf : ∀ ticket, s.ticket id = some ticket → (f ticket).waiter = ticket.waiter ∧
      (id ∈ temps → (f ticket).type = ticket.type)) :
    Sound (s.modify id f) temps := by
  obtain ⟨l, hl, hcount, hroom⟩ := h
  exact ⟨l, hl.modify id f hf, hcount, hroom⟩

/-- The program writes to a ticket, and to nothing that says who holds it. -/
theorem Sound.write {s s' : State} {temps : List ℕ} (h : Sound s temps) {id : ℕ}
    {f : WaiterTicket → WaiterTicket} (hs' : s.write id f = some s')
    (hf : ∀ ticket, (f ticket).waiter = ticket.waiter) : Sound s' temps := by
  rw [State.write] at hs'
  split at hs'
  · rename_i hany
    obtain ⟨held, hheld, hwaiter⟩ := (Option.any_eq_true ..).mp hany
    cases hs'
    -- the types of temporary tickets stay, since the program holds none of them
    refine h.modify id f ?_
    intro ticket hticket
    refine ⟨hf ticket, fun hmem => ?_⟩
    obtain ⟨l, hl, -⟩ := h
    exact absurd hmem (hl.notMem_of_held hheld hwaiter)
  · cases hs'

/-! ### Adding and removing -/

/-- A poll set that is replaced. -/
theorem Listed.regrow {s s' : State} {temps l : List ℕ} (hl : Listed s temps l)
    (hs' : waiter_add_null.regrow s true = some s') :
    Listed s' temps l ∧ s'.w.count = s.w.count ∧ s'.w.pollset ≠ none ∧
      slots s' = (s.w.count + 33).toNat := by
  rw [waiter_add_null.regrow] at hs'
  split at hs'
  · cases hs'
  · cases hs'
    refine ⟨hl.of_eq rfl rfl rfl rfl, rfl, Option.some_ne_none _, ?_⟩
    simp [slots, pollset_create]

/-- The last lines of `waiter_add_null` count the new ticket. -/
theorem Sound.finish {s : State} {temps l : List ℕ} (hl : Listed s temps l) {id : ℕ}
    (hid : id ∉ temps) (hcount : s.w.count + 1 = l.length)
    (hroom : Room (slots s) l.length temps.length) {r : Option ℕ × State}
    (hr : waiter_add_null.finish s id = some r) :
    Sound r.2 temps ∧ ∃ id, r.1 = some id ∧ id ∉ temps := by
  obtain ⟨s1, hs1, rfl⟩ := Option.map_eq_some_iff.mp hr
  obtain rfl := State.countUp_eq_some hs1
  have hsound : Sound { s with w := { s.w with count := s.w.count + 1 } } temps :=
    ⟨l, hl.of_eq rfl rfl rfl rfl, hcount, hroom⟩
  refine ⟨hsound.modify id _ ?_, id, rfl, hid⟩
  exact fun ticket _ => ⟨rfl, fun hmem => absurd hmem hid⟩

/-- **`waiter_add_null`** keeps the room, unless it steps over the multiple. -/
theorem Sound.waiter_add_null {m : Machine} (h : Sound m.state (temps m.stack)) (hskip : ¬ Skips m)
    {a : Alloc} (ha : a.ticket = true ∧ a.pollset = true) {r : Option ℕ × State}
    (hr : waiter_add_null m.state a = some r) :
    Sound r.2 (temps m.stack) ∧ ∃ id, r.1 = some id ∧ id ∉ temps m.stack := by
  obtain ⟨l, hl, hcount, hroom⟩ := h
  have hnew : Listed (m.state.append { waiter := true }) (temps m.stack) (l ++ [m.state.made]) :=
    hl.append rfl
  have hfresh := hl.made_notMem_temps
  have hlen : (l ++ [m.state.made]).length = l.length + 1 := by simp
  rw [Waiters.waiter_add_null, if_pos ha.1, ha.2] at hr
  have hsame : (m.state.append { waiter := true }).w.count = m.state.w.count := rfl
  dsimp only at hr
  by_cases hmod : (m.state.append { waiter := true }).w.count % 32 = 0
  · -- at a multiple of 32: whatever the room was, there are 32 slots more than the new count needs
    rw [if_pos hmod] at hr
    cases hregrow : waiter_add_null.regrow (m.state.append { waiter := true }) true with
    | none =>
      rw [hregrow] at hr
      cases hr
    | some s1 =>
      obtain ⟨hl1, hcount1, hpollset, hslots⟩ := hnew.regrow hregrow
      rw [hregrow] at hr
      dsimp only at hr
      rw [if_neg hpollset] at hr
      refine Sound.finish hl1 hfresh (by omega) ?_ hr
      have hslots' : slots s1 = l.length + 33 := by omega
      rw [hslots', hlen]
      exact Room.regrow (by omega) _
  · -- elsewhere the new ticket takes one of the slots that are left
    rw [if_neg hmod] at hr
    have hslots : slots (m.state.append { waiter := true }) = slots m.state := rfl
    refine Sound.finish hnew hfresh (by omega) ?_ hr
    rw [hslots, hlen]
    refine (hroom.add_iff (by omega)).mpr ?_
    rintro ⟨htemps, hfull⟩
    refine hskip ⟨?_, hmod, by omega⟩
    intro hnil
    rw [hnil] at htemps
    exact htemps rfl

theorem Sound.waiter_add {m : Machine} (h : Sound m.state (temps m.stack)) (hskip : ¬ Skips m)
    {a : Alloc} (ha : a.ticket = true ∧ a.pollset = true) {f : WaiterTicket → WaiterTicket}
    {r : Option ℕ × State} (hr : waiter_add f m.state a = some r)
    (hf : ∀ ticket, (f ticket).waiter = ticket.waiter) : Sound r.2 (temps m.stack) := by
  rw [Waiters.waiter_add] at hr
  cases hadd : Waiters.waiter_add_null m.state a with
  | none =>
    rw [hadd] at hr
    cases hr
  | some r1 =>
    obtain ⟨hsound, id, hid, hown⟩ := h.waiter_add_null hskip ha hadd
    obtain ⟨ret, s1⟩ := r1
    obtain rfl : ret = some id := hid
    rw [hadd] at hr
    cases hr
    refine hsound.modify id f ?_
    exact fun ticket _ => ⟨hf ticket, fun hmem => absurd hmem hown⟩

/-- A ticket that is removed gives its slot back, or its place in the count. -/
theorem Sound.remove {s s' : State} {temps : List ℕ} (h : Sound s temps) {id : ℕ}
    {ticket : WaiterTicket} (hticket : s.ticket id = some ticket) (hs' : s.remove id = some s') :
    Sound s' (temps.erase id) := by
  obtain ⟨l, hl, hcount, hroom⟩ := h
  obtain ⟨-, -, -, hcount', hpollset, hblock⟩ := State.remove_eq_some hs'
  obtain ⟨l', hl', hlen⟩ := hl.remove (hl.mem_of_ticket hticket) hs'
  have hslots : slots s' = slots s := by rw [slots, slots, hpollset, hblock]
  refine ⟨l', hl', by omega, ?_⟩
  rw [hslots]
  rw [hlen] at hroom
  by_cases htemp : id ∈ temps
  · have hone := List.length_erase_add_one htemp
    rw [← hone] at hroom
    exact hroom.leave
  · have hown := (hl'.nodup.subperm hl'.subset).length_le
    rw [List.erase_of_not_mem htemp] at hown ⊢
    exact hroom.delete hown

theorem Sound.waiter_ticket_delete {s s' : State} {temps : List ℕ} (h : Sound s temps) {id : ℕ}
    (hs' : waiter_ticket_delete s id = some s') : Sound s' temps := by
  rw [Waiters.waiter_ticket_delete] at hs'
  split at hs'
  · cases hs'
  · rename_i ticket hticket
    split at hs'
    · rename_i hwaiter
      have hremoved := h.remove hticket hs'
      obtain ⟨l, hl, -⟩ := h
      rwa [List.erase_of_not_mem (hl.notMem_of_held hticket hwaiter)] at hremoved
    · cases hs'

theorem Sound.enter {s s' : State} {temps : List ℕ} (h : Sound s temps) {ms : UInt32}
    {time_ms : UInt64} (hs' : waiter_wait_timeout.enter s ms time_ms = some s') :
    Sound s' (s.made :: temps) := by
  obtain ⟨l, hl, hcount, hroom⟩ := h
  obtain rfl := State.countUp_eq_some hs'
  have hnew : Listed (s.append (waiter_ticket_set_timeout ms time_ms {})) (s.made :: temps)
      (l ++ [s.made]) := hl.append_temp rfl rfl
  refine ⟨l ++ [s.made], hnew.of_eq rfl rfl rfl rfl, ?_, ?_⟩
  · simp [hcount]
  · rw [List.length_append, List.length_singleton, List.length_cons]
    exact hroom.enter

theorem Sound.leave {s : State} {id : ℕ} {temps : List ℕ} (h : Sound s (id :: temps))
    {r : ℤ × State} (hr : waiter_wait_timeout.leave s id = some r) : Sound r.2 temps := by
  obtain ⟨ticket, hticket, hr⟩ := Option.bind_eq_some_iff.mp hr
  obtain ⟨s', hs', hr⟩ := Option.bind_eq_some_iff.mp hr
  cases hr
  have hremoved := h.remove hticket hs'
  rwa [List.erase_cons_head] at hremoved

/-! ### Waiting -/

theorem pollset_add_fd_length {ps ps' : Pollset} {fd : ℤ} (h : pollset_add_fd ps fd = some ps') :
    ps'.pfd.length = ps.pfd.length := by
  rw [pollset_add_fd] at h
  split at h
  · cases h
    exact List.length_set
  · cases h

theorem pollset_wait_pfd (poll : Poll) (ps : Pollset) (ms : ℤ) :
    (pollset_wait poll ps ms).2.pfd = ps.pfd := by
  rw [pollset_wait]
  dsimp only
  split
  · rfl
  · split <;> rfl

theorem waiter_wait.poll_pfd (poll : Poll) (ps : Pollset) (term_time now : UInt64) :
    (waiter_wait.poll poll ps term_time now).2.pfd = ps.pfd := by
  rw [waiter_wait.poll]
  split
  · exact pollset_wait_pfd ..
  · split
    · rfl
    · exact pollset_wait_pfd ..

/-- The first loop of `waiter_wait` stays in the block. -/
theorem waiter_wait.gather_length {s : State} {nodes : List ℕ} {ps : Pollset} {term_time : UInt64}
    {r : Pollset × UInt64} (h : waiter_wait.gather s nodes ps term_time = some r) :
    r.1.pfd.length = ps.pfd.length := by
  induction nodes generalizing ps term_time with
  | nil =>
    cases h
    rfl
  | cons node nodes ih =>
    rw [waiter_wait.gather] at h
    split at h
    · cases h
    · split at h
      · split at h
        · exact ih h
        · exact ih h
      · split at h
        · cases h
        · rename_i ps' hadd
          exact (ih h).trans (pollset_add_fd_length hadd)
      · exact ih h

/-- The first loop of `waiter_wait` ends, and in its block, as long as the descriptors fit. -/
theorem waiter_wait.gather_isSome {s : State} {nodes : List ℕ}
    (hlive : ∀ id ∈ nodes, ∃ ticket, s.ticket id = some ticket) {ps : Pollset}
    (hps : ps.nfds ≤ ps.pfd.length) (term_time : UInt64) :
    (waiter_wait.gather s nodes ps term_time).isSome = true ↔
      ps.nfds + nodes.countP s.isFd ≤ ps.pfd.length := by
  induction nodes generalizing ps term_time with
  | nil => simpa [waiter_wait.gather] using hps
  | cons node nodes ih =>
    obtain ⟨ticket, hticket⟩ := hlive node List.mem_cons_self
    have hrest : ∀ id ∈ nodes, ∃ ticket, s.ticket id = some ticket :=
      fun id hid => hlive id (List.mem_cons_of_mem node hid)
    have hfd : s.isFd node = decide (ticket.type = .fd) := by
      rw [State.isFd, hticket]
      rfl
    rw [waiter_wait.gather, hticket, List.countP_cons, hfd]
    dsimp only
    cases htype : ticket.type with
    | null => simpa using ih hrest hps term_time
    | timeout =>
      simp only [reduceCtorEq, decide_false, Bool.false_eq_true, if_false, Nat.add_zero]
      split
      · exact ih hrest hps _
      · exact ih hrest hps _
    | fd =>
      simp only [decide_true, if_true]
      rw [pollset_add_fd]
      -- the slot is there or the store leaves the block, and then the rest does not matter
      by_cases hlt : ps.nfds < ps.pfd.length
      · rw [if_pos hlt]
        let ps' : Pollset := { ps with nfds := ps.nfds + 1, pfd := ps.pfd.set ps.nfds ticket.filedes }
        have hlen : ps'.pfd.length = ps.pfd.length := List.length_set
        have hnext : (waiter_wait.gather s nodes ps' term_time).isSome = true ↔
            ps.nfds + 1 + nodes.countP s.isFd ≤ ps'.pfd.length :=
          ih hrest (by rw [hlen]; exact hlt) term_time
        rw [hlen] at hnext
        refine hnext.trans ?_
        omega
      · rw [if_neg hlt]
        simp only [Option.isSome_none, Bool.false_eq_true, false_iff, Nat.not_le]
        omega

/-- **`waiter_wait` writes within its block** exactly as long as the descriptors of the list fit. -/
theorem waiter_wait.first_isSome {s : State} {temps l : List ℕ} (hl : Listed s temps l) {p : ℕ}
    {ps : Pollset} (hp : s.w.pollset = some p) (hps : s.block p = some ps) (poll : Poll)
    (now : UInt64) :
    (waiter_wait.first s poll now).isSome = true ↔ ∃ n, fdTickets s = some n ∧ n ≤ slots s := by
  have hslots : slots s = ps.pfd.length := by simp [slots, hp, hps]
  have hfds : fdTickets s = some (l.countP s.isFd) := by
    rw [fdTickets, hl.walk_eq]
    rfl
  have hgather : (waiter_wait.gather s l (pollset_reset ps) (-1)).isSome = true ↔
      0 + l.countP s.isFd ≤ ps.pfd.length :=
    waiter_wait.gather_isSome (fun id hid => hl.ticket_of_mem hid) (Nat.zero_le _) _
  rw [Nat.zero_add] at hgather
  rw [hslots, hfds, waiter_wait.first, hp, Option.bind_eq_bind, Option.bind_some, hps]
  simp only [Option.bind_eq_bind, Option.bind_some, hl.walk_eq]
  cases hr : waiter_wait.gather s l (pollset_reset ps) (-1) with
  | none => simpa [hr] using hgather
  | some r => simpa [hr] using hgather

/-- A wait with room goes on to its poll, if there is a poll set. -/
theorem Sound.first_isSome {s : State} {temps : List ℕ} (h : Sound s temps) (hslots : slots s ≠ 0)
    (poll : Poll) (now : UInt64) : (waiter_wait.first s poll now).isSome = true := by
  have hfds := h.fds_le
  obtain ⟨l, hl, -⟩ := h
  unfold slots at hslots
  split at hslots
  · rename_i ps hblock
    obtain ⟨p, hp, hps⟩ := Option.bind_eq_some_iff.mp hblock
    exact (waiter_wait.first_isSome hl hp hps poll now).mpr hfds
  · exact absurd rfl hslots

theorem Sound.first {s : State} {temps : List ℕ} (h : Sound s temps) {poll : Poll} {now : UInt64}
    {r : ℕ × ℤ × State} (hr : waiter_wait.first s poll now = some r) : Sound r.2.2 temps := by
  obtain ⟨l, hl, hcount, hroom⟩ := h
  obtain ⟨p, hp, hr⟩ := Option.bind_eq_some_iff.mp hr
  obtain ⟨ps, hps, hr⟩ := Option.bind_eq_some_iff.mp hr
  obtain ⟨nodes, -, hr⟩ := Option.bind_eq_some_iff.mp hr
  obtain ⟨⟨ps', term_time⟩, hgather, hr⟩ := Option.bind_eq_some_iff.mp hr
  obtain rfl := Option.some.inj hr
  refine ⟨l, hl.of_eq rfl rfl rfl rfl, hcount, ?_⟩
  have hlen : ps'.pfd.length = ps.pfd.length := waiter_wait.gather_length hgather
  have hslots : slots s = ps.pfd.length := by simp [slots, hp, hps]
  rw [hslots, ← hlen, ← waiter_wait.poll_pfd poll ps' term_time now] at hroom
  simpa [slots, hp] using hroom

theorem waiter_wait.fresh_kind {s : State} {ps : ℕ} {rc : ℤ} {now : UInt64} {ticket : WaiterTicket}
    {r : Bool × WaiterTicket} (h : waiter_wait.fresh s ps rc now ticket = some r) :
    r.2.type = ticket.type ∧ r.2.waiter = ticket.waiter := by
  rw [waiter_wait.fresh] at h
  split at h
  · split at h <;> cases h <;> exact ⟨rfl, rfl⟩
  · split at h
    · cases h
      exact ⟨rfl, rfl⟩
    · obtain ⟨ps, -, rfl⟩ := Option.map_eq_some_iff.mp h
      exact ⟨rfl, rfl⟩
  · cases h
    exact ⟨rfl, rfl⟩

theorem Sound.visit {s : State} {temps : List ℕ} (h : Sound s temps) {ps : ℕ} {rc : ℤ} {now : UInt64}
    {node : ℕ} {r : Bool × State} (hr : waiter_wait.visit s ps rc now node = some r) :
    Sound r.2 temps := by
  obtain ⟨ticket, hticket, hr⟩ := Option.bind_eq_some_iff.mp hr
  obtain ⟨⟨fresh, ticket'⟩, hfresh, hr⟩ := Option.bind_eq_some_iff.mp hr
  obtain ⟨htype, hwaiter⟩ := waiter_wait.fresh_kind hfresh
  have hmodify : ∀ new : WaiterTicket, new.type = ticket.type → new.waiter = ticket.waiter →
      Sound (s.modify node fun _ => new) temps := by
    intro new hnewtype hnewwaiter
    refine h.modify node _ ?_
    intro old hold
    rw [hticket] at hold
    cases hold
    exact ⟨hnewwaiter, fun _ => hnewtype⟩
  dsimp only at hr
  split at hr
  · cases hr
    exact hmodify _ htype hwaiter
  · cases hr
    exact hmodify _ htype hwaiter

theorem Sound.synchronize_loop {s s' : State} {temps nodes : List ℕ} (h : Sound s temps)
    (hs' : waiter_synchronize.loop s nodes = some s') : Sound s' temps := by
  induction nodes generalizing s with
  | nil =>
    cases hs'
    exact h
  | cons node rest ih =>
    rw [waiter_synchronize.loop] at hs'
    split at hs'
    · cases hs'
    · dsimp only at hs'
      split at hs'
      · split at hs'
        · refine ih (h.modify _ _ ?_) hs'
          exact fun _ _ => ⟨rfl, fun _ => rfl⟩
        · exact ih h hs'
      · exact ih h hs'

theorem Sound.waiter_synchronize {s s' : State} {temps : List ℕ} (h : Sound s temps)
    (hs' : waiter_synchronize s = some s') : Sound s' temps := by
  obtain ⟨nodes, -, hloop⟩ := Option.bind_eq_some_iff.mp hs'
  exact h.synchronize_loop hloop

end Dragonboard.Waiters
