/-
The greetings of two name servers.

Each greets the other when it starts, and `ctrl_cmd_hello` answers every HELLO with a HELLO. An answer
is a HELLO too, and is answered in turn: the two servers never stop. A server has sent its
greeting and one HELLO for each that it has processed, so it has sent two at most exactly as long as it
has not been handed a second one (`hello_bounded_iff`).
-/
import Dragonboard.NsPeers
import Mathlib.Data.List.Induction

set_option autoImplicit false

namespace Dragonboard.Ns

open Dragonboard.Memory Dragonboard.MapApi Dragonboard.Replica

/-! ## Counting

HELLOs are the only packets between name servers that carry no update. -/

/-- Whether a packet is a HELLO. -/
def isHello (data : List UInt8) : Bool := (⟨⟨0, 0⟩, data, fun _ => 0⟩ : Datagram).type = some .hello

/-- Whether a message carries no update. -/
def isNop : Update UInt32 Server → Bool
  | .nop => true
  | .put _ _ => false
  | .erase _ => false

/-- The HELLO packets node `i` has sent to the other node. -/
def helloSent (link : Link) (net : Net) (i : Bool) : ℕ :=
  (crossing (link.id !i) (net.ns i).sent).countP isHello

/-- Of the packets between name servers, those without an update are the HELLOs. -/
theorem Carries.isHello_eq {x : UInt32} {data : List UInt8} {u : Update UInt32 Server}
    (h : Carries x data u) (sq : SockaddrQrtr) (stale : Mem) :
    isHello data = isNop u ∧
      ((⟨sq, data, stale⟩ : Datagram).type = some .hello ↔ isNop u = true) := by
  cases h with
  | hello =>
    have htype := fun sq stale => Datagram.type_bytes sq .hello helloPkt rfl stale
    rw [isHello, htype, htype]
    exact ⟨rfl, by simp [isNop]⟩
  | @new srv =>
    have htype := fun sq stale => Datagram.type_bytes sq .new_server (srv.pkt .new_server) rfl stale
    rw [isHello, htype, htype]
    exact ⟨rfl, by simp [isNop]⟩
  | @del srv =>
    have htype := fun sq stale => Datagram.type_bytes sq .del_server (srv.pkt .del_server) rfl stale
    rw [isHello, htype, htype]
    exact ⟨rfl, by simp [isNop]⟩

theorem countP_isHello {x : UInt32} {packets : List (List UInt8)} {us : List (Update UInt32 Server)}
    (h : List.Forall₂ (Carries x) packets us) : packets.countP isHello = us.countP isNop := by
  induction h with
  | nil => rfl
  | cons hu _ ih => rw [List.countP_cons, List.countP_cons, ih, (hu.isHello_eq ⟨0, 0⟩ fun _ => 0).1]

/-! ## One event

What an event adds to the HELLOs that have been sent, and what it takes out of the channels. -/

section Wired

variable {link : Link} {sys : Bool → Sys} {net : Net}

/-- Two name servers that run, with nothing but packets of name servers between them. -/
structure Wired (link : Link) (net : Net) : Prop where
  nodes : ∀ i, Nodes (net.ns i)
  sound : ∀ i, Sound (link.id i) (net.ns i).view
  sock : ∀ i, (net.ns i).sock = true
  wire : ∀ i, ∃ us, List.Forall₂ (Carries (link.id i)) (net.chan i) us

/-- A node acts: the other one sends nothing, and this one what it says. -/
theorem Wired.act (h : Wired link net) (j : Bool) {s : Context FinMap} (hnodes : Nodes s)
    (hsound : Sound (link.id j) s.view) (hsock : s.sock = true) {us : List (Update UInt32 Server)}
    (hacts : Acts (link.id j) (link.id !j) (net.ns j).view s.view us) :
    Wired link (net.act link j s) ∧ ∀ i, helloSent link (net.act link j s) i =
      helloSent link net i + if i = j then us.countP isNop else 0 := by
  obtain ⟨hnodes', hsound', hsock'⟩ := update_ns h.nodes h.sound h.sock j hnodes hsound hsock
  refine ⟨⟨hnodes', hsound', hsock', fun i => ?_⟩, fun i => ?_⟩
  · obtain ⟨us', hus'⟩ := h.wire i
    simp only [Net.act]
    split
    · by_cases hi : i = j
      · subst hi
        rw [Function.update_self]
        exact ⟨us' ++ us, List.rel_append hus' hacts.dropped⟩
      · rw [Function.update_of_ne hi]
        exact ⟨us', hus'⟩
    · exact ⟨us', hus'⟩
  · by_cases hi : i = j
    · subst hi
      obtain ⟨o, hsent, hus⟩ := hacts.sent
      have hsent' : s.sent = (net.ns i).sent ++ o := hsent
      rw [if_pos rfl, helloSent, Net.act]
      simp only [Function.update_self]
      rw [hsent', crossing_append, List.countP_append, countP_isHello hus, helloSent]
    · rw [if_neg hi, helloSent, Net.act]
      simp only [Function.update_of_ne hi]
      rfl

theorem countP_welcome (servers : List Server) : (welcome servers).countP isNop = 1 := by
  have hnone : (servers.map fun srv => Update.put (hash_u32 srv.port) srv).countP isNop = 0 := by
    rw [List.countP_eq_zero]
    intro u hu
    obtain ⟨srv, -, rfl⟩ := List.mem_map.mp hu
    simp [isNop]
  rw [welcome, List.countP_cons, hnone]
  rfl

theorem countP_news {us : List (Update UInt32 Server)} (h : Update.nop ∉ us) :
    us.countP isNop = 0 := by
  rw [List.countP_eq_zero]
  rintro (_ | _ | _) hu
  · exact absurd hu h
  · simp [isNop]
  · simp [isNop]

/-- Whether an event makes node `i` process a HELLO. -/
def Event.answers (net : Net) (i : Bool) : Event → Bool
  | .deliver j _ => j == i && (net.chan !i).head?.any isHello
  | _ => false

/-- Whether an event makes node `i` send a HELLO. -/
def Event.hellos (net : Net) (i : Bool) : Event → Bool
  | .greet j => j == i
  | e => e.answers net i

theorem Wired.pop (h : Wired link net) (j : Bool) : Wired link (net.pop j) := by
  refine ⟨h.nodes, h.sound, h.sock, fun i => ?_⟩
  obtain ⟨us, hus⟩ := h.wire i
  simp only [Net.pop]
  by_cases hi : i = j
  · subst hi
    rw [Function.update_self]
    generalize net.chan i = packets at hus
    cases hus with
    | nil => exact ⟨[], .nil⟩
    | cons _ hrest => exact ⟨_, hrest⟩
  · rw [Function.update_of_ne hi]
    exact ⟨us, hus⟩

/-- A packet of the other name server: one HELLO for a HELLO, and none for another packet. -/
theorem main_step_hellos {sys : Sys} {own x : UInt32} {s : Context FinMap} (hnodes : Nodes s)
    (hsound : Sound own s.view) (hsock : s.sock = true) (hsends : sys.Delivers)
    (hbcast : own ≠ QRTR_NODE_BCAST) (hx : own ≠ x) {data : List UInt8} {u : Update UInt32 Server}
    (hu : Carries x data u) (stale : Mem) :
    ∃ us, Acts own x s.view (main.step sys own s ⟨⟨x, QRTR_PORT_CTRL⟩, data, stale⟩).view us ∧
      us.countP isNop = if isHello data then 1 else 0 := by
  obtain ⟨hisHello, htype⟩ := hu.isHello_eq ⟨x, QRTR_PORT_CTRL⟩ stale
  rw [hisHello]
  by_cases hnop : isNop u = true
  · obtain rfl := (hu.type _ stale).2 (htype.mpr hnop)
    rw [if_pos hnop]
    exact ⟨_, acts_hello hnodes hsound hsock hsends stale, countP_welcome _⟩
  · obtain ⟨us, hacts, hus⟩ := (main_step_refines sys own hnodes _).acts hsound hsends hbcast hx
      (.inr fun hhello => hnop (htype.mp hhello))
    rw [if_neg hnop]
    exact ⟨us, hacts, countP_news hus⟩

/-- What is claimed of an event: the HELLOs it sends and processes are counted by `hellos` and
`answers`, and the net stays wired. -/
def Counted (link : Link) (sys : Bool → Sys) (net : Net) (e : Event) : Prop :=
  Wired link (net.step link sys e) ∧ ∀ i,
    helloSent link (net.step link sys e) i = helloSent link net i + (e.hellos net i).toNat ∧
    (net.step link sys e).greeted i = (net.greeted i || e.answers net i)

theorem Wired.step_greet (h : Wired link net) (hsends : ∀ i, (sys i).Delivers) (j : Bool) :
    Counted link sys net (.greet j) := by
  have hs := moves_greet (link.id !j) (h.nodes j) (h.sound j) (h.sock j) (hsends j)
  obtain ⟨hwired, hsent⟩ := h.act j hs.nodes hs.sound hs.sock hs.acts
  refine ⟨hwired, fun i => ⟨(hsent i).trans ?_, by simp [Net.step, Net.act, Event.answers]⟩⟩
  by_cases hi : i = j
  · subst hi
    simp [Event.hellos, isNop]
  · rw [if_neg hi]
    simp [Event.hellos, Ne.symm hi]

/-- A packet of a client is no occasion for a HELLO to the other node. -/
theorem Wired.step_client (h : Wired link net) (hsends : ∀ i, (sys i).Delivers) (j : Bool)
    (port : UInt32) (data : List UInt8) (hdata : data ≠ []) (stale : Mem) :
    Counted link sys net (.client j port data hdata stale) := by
  obtain ⟨us, hs, hus⟩ := moves_client (h.nodes j) (h.sound j) (h.sock j) (hsends j)
    (link.ne_bcast j) (link.id_ne j) port hdata stale
  obtain ⟨hwired, hsent⟩ := h.act j hs.nodes hs.sound hs.sock hs.acts
  refine ⟨hwired, fun i => ⟨(hsent i).trans ?_, by simp [Net.step, Net.act, Event.answers]⟩⟩
  rw [countP_news hus, ite_self]
  rfl

theorem answers_other {i j : Bool} (hi : i ≠ j) (stale : Mem) :
    Event.answers net i (.deliver j stale) = false := by
  simp [Event.answers, Ne.symm hi]

theorem hellos_deliver (i j : Bool) (stale : Mem) :
    Event.hellos net i (.deliver j stale) = Event.answers net i (.deliver j stale) := by
  rw [Event.hellos]
  exact fun _ hgreet => by cases hgreet

/-- A delivered HELLO is answered with one. -/
theorem Wired.step_deliver (h : Wired link net) (hsends : ∀ i, (sys i).Delivers) (j : Bool)
    (stale : Mem) : Counted link sys net (.deliver j stale) := by
  unfold Counted
  cases hchan : net.chan !j with
  | nil =>
    -- nothing to deliver
    simp only [Net.step, hchan]
    refine ⟨h, fun i => ?_⟩
    have hnone : Event.answers net i (.deliver j stale) = false := by
      by_cases hi : i = j
      · subst hi
        simp [Event.answers, hchan]
      · exact answers_other hi stale
    simp [Event.hellos, hnone]
  | cons data rest =>
    obtain ⟨us', hwire⟩ := h.wire !j
    rw [hchan] at hwire
    obtain ⟨u, -, hu, -, -⟩ := List.forall₂_cons_left_iff.mp hwire
    obtain ⟨hnodes, hsound, hsock⟩ := main_step_well (sys j) (h.nodes j) (h.sound j) (h.sock j)
      (hu.type ⟨link.id !j, QRTR_PORT_CTRL⟩ stale).1
    obtain ⟨us, hacts, hus⟩ := main_step_hellos (h.nodes j) (h.sound j) (h.sock j) (hsends j)
      (link.ne_bcast j) (link.id_ne j) hu stale
    obtain ⟨hwired, hsent⟩ := (h.pop !j).act j hnodes hsound hsock hacts
    obtain ⟨hisHello, htype⟩ := hu.isHello_eq ⟨link.id !j, QRTR_PORT_CTRL⟩ stale
    simp only [Net.step, hchan]
    refine ⟨⟨hwired.nodes, hwired.sound, hwired.sock, hwired.wire⟩, fun i => ?_⟩
    rw [hellos_deliver]
    by_cases hi : i = j
    · subst hi
      have hanswers : Event.answers net i (.deliver i stale) = isHello data := by
        simp [Event.answers, hchan]
      refine ⟨(hsent i).trans ?_, ?_⟩
      · rw [if_pos rfl, hus, hanswers]
        cases isHello data with
        | false => rfl
        | true => rfl
      · -- `greeted` goes by the type of the packet, `answers` by its bytes
        rw [hanswers, hisHello]
        by_cases hnop : isNop u = true
        · have hhello : (fromPeer link (!i) data stale).type = some .hello := htype.mpr hnop
          rw [if_pos hhello, Function.update_self, hnop, Bool.or_true]
        · have hother : ¬ (fromPeer link (!i) data stale).type = some .hello :=
            fun hhello => hnop (htype.mp hhello)
          rw [if_neg hother, Bool.eq_false_iff.mpr hnop, Bool.or_false]
    · rw [answers_other hi stale]
      refine ⟨(hsent i).trans ?_, ?_⟩
      · rw [if_neg hi]
        rfl
      · rw [Bool.or_false]
        split
        · exact Function.update_of_ne hi _ _
        · rfl

/-- **One event**: the HELLOs that are sent, and that are processed. -/
theorem Wired.step (h : Wired link net) (hsends : ∀ i, (sys i).Delivers) (e : Event) :
    Counted link sys net e := by
  cases e with
  | linkUp =>
    refine ⟨⟨h.nodes, h.sound, h.sock, h.wire⟩, fun i => ⟨rfl, ?_⟩⟩
    simp [Net.step, Event.answers]
  | greet j => exact h.step_greet hsends j
  | client j port data hdata stale => exact h.step_client hsends j port data hdata stale
  | deliver j stale => exact h.step_deliver hsends j stale

/-! ## Runs

`ctrl_cmd_hello` answers a HELLO with a HELLO, also if it is itself an answer. So the two nodes go
on answering each other, and the bound of two holds exactly as long as no second HELLO is
processed. -/

/-- Both nodes are connected, and each greets the other. -/
def startUp : List Event := [.linkUp, .greet false, .greet true]

theorem Wired.init (link : Link) : Wired link Net.init := by
  refine ⟨fun _ => nodes_init, fun i => ?_, fun _ => rfl, fun _ => ⟨[], .nil⟩⟩
  have hview : (Context.init : Context FinMap).view = ⟨fun _ => map_create, [], [], 0⟩ := by
    rw [Context.view, funext reg_init]
    rfl
  simp only [Net.init]
  rw [hview]
  exact .start _ _

theorem Wired.foldl (h : Wired link net) (hsends : ∀ i, (sys i).Delivers) (events : List Event) :
    Wired link (events.foldl (Net.step link sys) net) := by
  induction events generalizing net with
  | nil => exact h
  | cons e events ih => exact ih (h.step hsends e).1

theorem Wired.run (link : Link) (hsends : ∀ i, (sys i).Delivers) (events : List Event) :
    Wired link (Net.run link sys events) := (Wired.init link).foldl hsends events

theorem Net.run_append (link : Link) (sys : Bool → Sys) (pre : List Event) (e : Event) :
    Net.run link sys (pre ++ [e]) = (Net.run link sys pre).step link sys e := by
  rw [Net.run, List.foldl_append, List.foldl_cons, List.foldl_nil, Net.run]

/-- Each node has sent its greeting, and has processed nothing. -/
theorem startUp_hellos (link : Link) (hsends : ∀ i, (sys i).Delivers) (i : Bool) :
    helloSent link (Net.run link sys startUp) i = 1 ∧
      (Net.run link sys startUp).greeted i = false := by
  have h0 := Wired.init link
  have h1 := h0.step hsends .linkUp
  have h2 := h1.1.step hsends (.greet false)
  have h3 := h2.1.step hsends (.greet true)
  have hsent : helloSent link Net.init i = 0 := rfl
  obtain ⟨hs1, hg1⟩ := h1.2 i
  obtain ⟨hs2, hg2⟩ := h2.2 i
  obtain ⟨hs3, hg3⟩ := h3.2 i
  refine ⟨?_, ?_⟩
  · rw [Net.run, startUp, List.foldl_cons, List.foldl_cons, List.foldl_cons, List.foldl_nil, hs3, hs2,
      hs1, hsent]
    cases i with
    | false => rfl
    | true => rfl
  · rw [Net.run, startUp, List.foldl_cons, List.foldl_cons, List.foldl_cons, List.foldl_nil, hg3, hg2,
      hg1]
    rfl

end Wired

/-- **Two HELLOs at most, and no longer.** After the start-up of both nodes, for every run: each node
has sent the other at most two HELLOs in all of its states, exactly if no node is handed a HELLO when
it has processed one before. -/
theorem hello_bounded_iff (link : Link) (sys : Bool → Sys) (hsends : ∀ i, (sys i).Delivers)
    (events : List Event) (hstart : ∀ e ∈ events, ∀ i, e ≠ .greet i) :
    (∀ pre, pre <+: events → ∀ i, helloSent link (Net.run link sys (startUp ++ pre)) i ≤ 2) ↔
      ∀ pre e, pre ++ [e] <+: events → ∀ i, e.answers (Net.run link sys (startUp ++ pre)) i = true →
        (Net.run link sys (startUp ++ pre)).greeted i = false := by
  -- how the two counters go on with one more event
  have hstep : ∀ pre e, pre ++ [e] <+: events → ∀ i,
      helloSent link (Net.run link sys (startUp ++ (pre ++ [e]))) i =
        helloSent link (Net.run link sys (startUp ++ pre)) i +
          (e.answers (Net.run link sys (startUp ++ pre)) i).toNat ∧
      (Net.run link sys (startUp ++ (pre ++ [e]))).greeted i =
        ((Net.run link sys (startUp ++ pre)).greeted i ||
          e.answers (Net.run link sys (startUp ++ pre)) i) := by
    intro pre e hpre i
    have hone := ((Wired.run link hsends (startUp ++ pre)).step hsends e).2 i
    have hgreet : ∀ j, e ≠ .greet j := hstart e (hpre.subset (by simp))
    have hhellos : e.hellos (Net.run link sys (startUp ++ pre)) i =
        e.answers (Net.run link sys (startUp ++ pre)) i := by
      cases e with
      | greet j => exact absurd rfl (hgreet j)
      | linkUp | client | deliver => rfl
    rw [hhellos] at hone
    rw [← List.append_assoc, Net.run_append]
    exact hone
  constructor
  · intro hbound pre e hpre i hanswers
    by_contra hgreeted
    -- a node that has processed a HELLO has sent two
    have hatLeast : ∀ pre, pre <+: events → 1 + ((Net.run link sys (startUp ++ pre)).greeted i).toNat ≤
        helloSent link (Net.run link sys (startUp ++ pre)) i := by
      intro pre
      induction pre using List.reverseRecOn with
      | nil =>
        intro _
        rw [List.append_nil, (startUp_hellos link hsends i).1, (startUp_hellos link hsends i).2]
        rfl
      | append_singleton pre e ih =>
        intro hpre
        have hprev := ih ((List.prefix_append pre [e]).trans hpre)
        rw [(hstep pre e hpre i).1, (hstep pre e hpre i).2]
        generalize (Net.run link sys (startUp ++ pre)).greeted i = g at hprev
        generalize e.answers (Net.run link sys (startUp ++ pre)) i = a
        cases g <;> cases a <;> simp at hprev ⊢ <;> omega
    have hbefore := hatLeast pre ((List.prefix_append pre [e]).trans hpre)
    have hafter := hbound (pre ++ [e]) hpre i
    rw [(hstep pre e hpre i).1, hanswers] at hafter
    rw [Bool.not_eq_false] at hgreeted
    rw [hgreeted] at hbefore
    simp at hbefore hafter
    omega
  · intro honce pre hpre i
    have hexact : helloSent link (Net.run link sys (startUp ++ pre)) i =
        1 + ((Net.run link sys (startUp ++ pre)).greeted i).toNat := by
      induction pre using List.reverseRecOn with
      | nil =>
        rw [List.append_nil, (startUp_hellos link hsends i).1, (startUp_hellos link hsends i).2]
        rfl
      | append_singleton pre e ih =>
        have hprev := ih ((List.prefix_append pre [e]).trans hpre)
        have hfirst := honce pre e hpre i
        rw [(hstep pre e hpre i).1, (hstep pre e hpre i).2, hprev]
        generalize (Net.run link sys (startUp ++ pre)).greeted i = g at hfirst
        generalize e.answers (Net.run link sys (startUp ++ pre)) i = a at hfirst
        cases a with
        | false => simp
        | true =>
          rw [hfirst rfl]
          rfl
    rw [hexact]
    have hle := Bool.toNat_le ((Net.run link sys (startUp ++ pre)).greeted i)
    omega

/-- Node 1 answers the greeting of node 2. -/
theorem hello_bounded_first_answer :
    helloSent link12 (Net.run link12 (fun _ => allWell) (startUp ++ [.deliver false fun _ => 0]))
      false ≤ 2 := by
  refine (hello_bounded_iff link12 (fun _ => allWell) (fun _ => allWell_delivers)
    [.deliver false fun _ => 0] (by simp)).mpr ?_ _ (List.prefix_refl _) false
  intro pre e hpre j _
  have hnil : pre = [] := by
    have hlen := hpre.length_le
    rw [List.length_append, List.length_singleton, List.length_singleton] at hlen
    exact List.eq_nil_of_length_eq_zero (by omega)
  subst hnil
  have hfirst : ∀ j, (Net.run link12 (fun _ => allWell) startUp).greeted j = false := by decide +kernel
  rw [List.append_nil]
  exact hfirst j

/-- Both greetings are answered, and node 2 answers the answer. -/
theorem hello_answered_again :
    ¬ ∀ events : List Event, (∀ e ∈ events, ∀ i, e ≠ .greet i) → ∀ i,
      helloSent link12 (Net.run link12 (fun _ => allWell) (startUp ++ events)) i ≤ 2 := by
  intro hall
  have hthree := hall [.deliver false fun _ => 0, .deliver true fun _ => 0, .deliver true fun _ => 0]
    (by simp) true
  exact absurd hthree (by decide +kernel)

end Dragonboard.Ns
