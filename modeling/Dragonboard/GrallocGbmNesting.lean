/-
Locks of one bo inside each other.

`gralloc_gbm_bo_lock` is to allow further locks with usages that are held already. `heldRun` keeps
the locks that no unlock has answered yet, and the lock state follows it: the counter is their
number, the bo is mapped while one of them is for software, and with the last one gone the bo is
unlocked and unmapped (`Holds`).

A further lock is allowed as long as the bo is held for the hardware alone. If it is held for
software, the usage of any further lock is widened by what is held, so it asks for a mapping, and
`gbm_map` refuses to map a bo that is mapped (`compatible_lock_iff`).
-/
import Dragonboard.GrallocGbmRegistry

set_option autoImplicit false

namespace Dragonboard.GrallocGbm

/-! ## The locks that are held

The history of a bo as a stack of usages, and what the lock state has to be for it. -/

/-- The lock state of a bo. One that was never locked has none yet. -/
def State.data (s : State) (bo : Bo) : BoData := (s.user_data bo).getD .new

/-- The usages of the locks on a bo that are held after a call. -/
def Op.held (bo : Bo) (s : State) (held : List UInt32) : Op → List UInt32
  | .lock handle gbm_handle usage x y w h bo_map =>
    if s.gbm_bo_handle_map handle = some (some bo) ∧
        (gralloc_gbm_bo_lock s handle gbm_handle usage x y w h bo_map).1 = 0 then usage :: held
    else held
  | .unlock handle => if s.gbm_bo_handle_map handle = some (some bo) then held.tail else held
  | .unregister handle => if s.gbm_bo_handle_map handle = some (some bo) then [] else held
  | .free handle => if s.gbm_bo_handle_map handle = some (some bo) then [] else held
  | .create .. => held
  | .register .. => held

/-- The usages of the locks on a bo that are held after a run, the last one first. -/
def heldRun (bo : Bo) (s : State) (held : List UInt32) : List Op → List UInt32
  | [] => held
  | op :: ops =>
    match step s op with
    | none => held
    | some s' => heldRun bo s' (op.held bo s held) ops

/-- A usage that needs the bo in the processor's memory. -/
def Software (usage : UInt32) : Prop := usage &&& SW_MASK ≠ 0

instance (usage : UInt32) : Decidable (Software usage) :=
  inferInstanceAs (Decidable (usage &&& SW_MASK ≠ 0))

/-- The lock state follows the locks that are held. -/
structure Holds (held : List UInt32) (d : BoData) : Prop where
  phase : Phase d
  count : d.lock_count = held.length
  within : ∀ usage ∈ held, d.locked_for &&& usage = usage

theorem Holds.new : Holds [] .new := by
  refine ⟨.free, rfl, fun usage hmem => ?_⟩
  exact absurd hmem List.not_mem_nil

/-- With no lock left the bo is as it was before the first. -/
theorem Holds.eq_new {d : BoData} (h : Holds [] d) : d = .new := by
  have hcount : d.lock_count = 0 := h.count
  obtain ⟨hlocked, hmap⟩ := h.phase.consistent.unlocked hcount
  rw [BoData.new, ← hcount, ← hlocked, ← hmap]

/-- While a lock for software is held, the bo is mapped. -/
theorem Holds.mapped {held : List UInt32} {d : BoData} (h : Holds held d)
    (hsw : ∃ usage ∈ held, Software usage) : d.map_data.isSome := by
  obtain ⟨usage, hmem, husage⟩ := hsw
  refine h.phase.consistent.mapped_iff.mpr fun hzero => husage ?_
  exact held_and_eq_zero (h.within usage hmem) hzero

theorem or_contains {a u : UInt32} (b : UInt32) (h : a &&& u = u) : (a ||| b) &&& u = u := by
  rw [← h]
  apply UInt32.toBitVec_inj.mp
  ext i hi
  simp only [UInt32.toBitVec_and, UInt32.toBitVec_or, BitVec.getElem_and, BitVec.getElem_or]
  cases a.toBitVec[i] <;> simp

theorem Phase.bounded {d : BoData} (h : Phase d) : d.lock_count ≤ INT_MAX := by
  cases h with
  | free => decide
  | hardware n locked_for hn hw => exact hn.2
  | software map_data locked_for sw => exact (show (1 : ℤ) ≤ INT_MAX by decide)

/-- A lock that was taken is held with the others. -/
theorem Holds.taken {held : List UInt32} {d : BoData} (h : Holds held d)
    (hroom : d.lock_count ≠ INT_MAX) {usage : UInt32}
    (hcompat : d.lock_count ≠ 0 → d.locked_for &&& usage = usage) {map_data : Option ℕ}
    (hmaps : d.Maps (usage ||| d.locked_for) map_data) :
    Holds (usage :: held) (d.taken usage map_data) := by
  have hnonneg := h.phase.consistent.nonneg
  have hbound := h.phase.bounded
  refine ⟨taken_phase h.phase hroom hcompat hmaps, ?_, ?_⟩
  · show int32 (d.lock_count + 1) = _
    rw [int32_of_le (by omega) (by omega), h.count,
      List.length_cons]
    rfl
  · intro u hu
    show (d.locked_for ||| (usage ||| d.locked_for)) &&& u = u
    rcases List.mem_cons.mp hu with rfl | hu
    · rw [UInt32.or_comm]
      exact or_contains _ (or_contains _ UInt32.and_self)
    · exact or_contains _ (h.within u hu)

/-- An unlock counts one down, and keeps what is held while a lock is left. -/
theorem release_count {d : BoData} {n : ℕ} (hn : d.lock_count = n + 1) (hbound : d.lock_count ≤ INT_MAX) :
    (gralloc_gbm_bo_unlock.release d).lock_count = n ∧
      (n ≠ 0 → (gralloc_gbm_bo_unlock.release d).locked_for = d.locked_for) := by
  have hlocked : d.lock_count ≠ 0 := by omega
  have hdec : int32 (d.lock_count - 1) = n := by
    rw [hn, Int.add_sub_cancel]
    exact int32_of_le (by omega) (by omega)
  unfold gralloc_gbm_bo_unlock.release
  rw [if_neg hlocked]
  dsimp only
  generalize hd' : (if d.locked_for &&& SW_MASK ≠ 0 then { d with map_data := none } else d) = d'
  have hsame : d'.lock_count = d.lock_count ∧ d'.locked_for = d.locked_for := by
    rw [← hd']
    split
    · exact ⟨rfl, rfl⟩
    · exact ⟨rfl, rfl⟩
  rw [hsame.1, hdec]
  by_cases hzero : n = 0
  · rw [if_pos (by omega)]
    exact ⟨rfl, fun h => absurd hzero h⟩
  · rw [if_neg (by omega)]
    exact ⟨rfl, fun _ => hsame.2⟩

/-- An unlock ends the last lock that is held. -/
theorem Holds.release {held : List UInt32} {d : BoData} (h : Holds held d) :
    Holds held.tail (gralloc_gbm_bo_unlock.release d) := by
  cases held with
  | nil =>
    have hsame : gralloc_gbm_bo_unlock.release d = d := if_pos h.count
    rw [hsame]
    exact h
  | cons u held =>
    obtain ⟨hcount, hlocked_for⟩ := release_count h.count h.phase.bounded
    refine ⟨release_phase h.phase, hcount, fun usage hmem => ?_⟩
    rw [hlocked_for (Nat.ne_of_gt (List.length_pos_of_mem hmem))]
    exact h.within usage (List.mem_cons_of_mem u hmem)

/-! ## One call

A lock that is taken pushes its usage, an unlock pops one, and everything else leaves the stack
alone. -/

theorem State.data_setData (s : State) (bo : Bo) (d : BoData) : (s.setData bo d).data bo = d := by
  rw [State.data, State.setData_self, Option.getD_some]

theorem State.data_setData_other (s : State) {bo bo' : Bo} (h : bo' ≠ bo) (d : BoData) :
    (s.setData bo d).data bo' = s.data bo' := by
  rw [State.data, State.setData_other s h, State.data]

theorem State.data_of_user_data {s s' : State} (h : s'.user_data = s.user_data) (bo : Bo) :
    s'.data bo = s.data bo := by
  rw [State.data, h, State.data]

/-- A lock that fails leaves the lock state of every bo; one that is taken changes that of its own
bo. -/
theorem lock_data {s : State} {handle : Handle} {bo : Bo}
    (hlive : s.gbm_bo_handle_map handle = some (some bo)) (gbm_handle : GrallocHandle)
    (usage : UInt32) (x y w h : ℤ) (bo_map : MapRequest → Option MapReply) :
    let r := gralloc_gbm_bo_lock s handle gbm_handle usage x y w h bo_map
    (r.1 ≠ 0 ∧ ∀ bo', r.2.2.data bo' = s.data bo') ∨
      (r.1 = 0 ∧ ((s.data bo).lock_count ≠ 0 → (s.data bo).locked_for &&& usage = usage) ∧
        ∃ map_data, (s.data bo).Maps (usage ||| (s.data bo).locked_for) map_data ∧
          r.2.2.data bo = (s.data bo).taken usage map_data ∧
          ∀ bo', bo' ≠ bo → r.2.2.data bo' = s.data bo') := by
  intro r
  have hr : r = _ := lock_eq hlive gbm_handle usage x y w h bo_map
  -- data that a bo gets for its first lock say what no data says
  have hnew : ∀ bo', (s.setData bo (s.data bo)).data bo' = s.data bo' := by
    intro bo'
    by_cases hbo : bo' = bo
    · rw [hbo, State.data_setData]
    · rw [State.data_setData_other s hbo]
  split at hr
  · left
    rw [hr]
    exact ⟨by simp [EINVAL], fun _ => rfl⟩
  · rcases take_cases (State.setData_self s bo (s.data bo)) gbm_handle usage x y w h bo_map with
      ⟨herr, hsame⟩ | ⟨hok, hcompat, map_data, hmaps, hset⟩
    · left
      rw [hr]
      refine ⟨herr, fun bo' => ?_⟩
      exact (congrArg (fun s' => State.data s' bo') hsame).trans (hnew bo')
    · right
      rw [hr]
      refine ⟨hok, hcompat, map_data, hmaps, ?_, fun bo' hbo => ?_⟩
      · exact (congrArg (fun s' => State.data s' bo) hset).trans (State.data_setData ..)
      · refine (congrArg (fun s' => State.data s' bo') hset).trans ?_
        rw [State.data_setData_other _ hbo]
        exact hnew bo'

theorem from_handle_data (s : State) (handle : Handle) (bo : Bo) :
    (gralloc_gbm_bo_from_handle s handle).2.data bo = s.data bo :=
  State.data_of_user_data (from_handle_user_data s handle) bo

theorem live_ne {s : State} {handle : Handle} {bo bo' : Bo}
    (hlive : s.gbm_bo_handle_map handle = some (some bo')) (hbo : bo ≠ bo') :
    s.gbm_bo_handle_map handle ≠ some (some bo) := by
  rw [hlive]
  intro heq
  exact hbo (Option.some.inj (Option.some.inj heq)).symm

section Calls

variable {s : State} {bo : Bo} {held : List UInt32}

theorem lock_holds (hd : Holds held (s.data bo)) (handle : Handle) (gbm_handle : GrallocHandle)
    (usage : UInt32) (x y w h : ℤ) (bo_map : MapRequest → Option MapReply)
    (hroom : s.gbm_bo_handle_map handle = some (some bo) → lockCount s handle ≠ INT_MAX) :
    Holds (if s.gbm_bo_handle_map handle = some (some bo) ∧
        (gralloc_gbm_bo_lock s handle gbm_handle usage x y w h bo_map).1 = 0 then usage :: held
      else held) ((gralloc_gbm_bo_lock s handle gbm_handle usage x y w h bo_map).2.2.data bo) := by
  rcases Classical.em (Known s handle) with ⟨bo', hlive⟩ | hdead
  · rcases lock_data hlive gbm_handle usage x y w h bo_map with
      ⟨herr, hsame⟩ | ⟨hok, hcompat, map_data, hmaps, hset, hother⟩
    · rw [if_neg (fun h => herr h.2), hsame]
      exact hd
    · by_cases hbo : bo = bo'
      · subst hbo
        rw [if_pos ⟨hlive, hok⟩, hset]
        have hroom := hroom hlive
        rw [lockCount, hlive] at hroom
        exact hd.taken hroom hcompat hmaps
      · rw [if_neg (fun h => live_ne hlive hbo h.1), hother bo hbo]
        exact hd
  · have hsame : (gralloc_gbm_bo_lock s handle gbm_handle usage x y w h bo_map).2.2 =
        (gralloc_gbm_bo_from_handle s handle).2 := by
      rw [gralloc_gbm_bo_lock, from_handle_none hdead]
    rw [if_neg (fun h => hdead ⟨bo, h.1⟩), hsame, from_handle_data]
    exact hd

theorem unlock_holds (hd : Holds held (s.data bo)) {handle : Handle} {ret : ℤ} {s' : State}
    (h : gralloc_gbm_bo_unlock s handle = some (ret, s')) :
    Holds (if s.gbm_bo_handle_map handle = some (some bo) then held.tail else held) (s'.data bo) := by
  unfold gralloc_gbm_bo_unlock at h
  split at h
  · rename_i s₁ hs₁
    cases h
    have hdead : s.gbm_bo_handle_map handle ≠ some (some bo) := by
      intro hlive
      rw [from_handle_live hlive] at hs₁
      cases hs₁
    have hsame := from_handle_data s handle bo
    rw [hs₁] at hsame
    rw [if_neg hdead, hsame]
    exact hd
  · rename_i bo' s₁ hs₁
    obtain ⟨hlive, rfl⟩ := from_handle_some hs₁
    split at h
    · cases h
    · rename_i d hdata
      cases h
      have hd' : s₁.data bo' = d := by rw [State.data, hdata, Option.getD_some]
      by_cases hbo : bo = bo'
      · subst hbo
        rw [if_pos hlive, State.data_setData, ← hd']
        exact hd.release
      · rw [if_neg (live_ne hlive hbo), State.data_setData_other _ hbo]
        exact hd

/-- The locks on a bo end with it. -/
theorem gbm_free_holds (hd : Holds held (s.data bo)) (handle : Handle) :
    Holds (if s.gbm_bo_handle_map handle = some (some bo) then [] else held)
      ((gbm_free s handle).data bo) := by
  rcases Classical.em (Known s handle) with ⟨bo', hlive⟩ | hdead
  · simp only [gbm_free, from_handle_live hlive]
    by_cases hbo : bo = bo'
    · subst hbo
      rw [if_pos hlive, State.data]
      dsimp only
      rw [Function.update_self, Option.getD_none]
      exact .new
    · rw [if_neg (live_ne hlive hbo), State.data]
      dsimp only
      rw [Function.update_of_ne hbo]
      exact hd
  · have hsame : gbm_free s handle = (gralloc_gbm_bo_from_handle s handle).2 := by
      rw [gbm_free, from_handle_none hdead]
    rw [if_neg (fun h => hdead ⟨bo, h⟩), hsame, from_handle_data]
    exact hd

theorem emplace_holds (hd : Holds held (s.data bo)) (handle : Handle) (bo' : Bo) :
    Holds held ((emplace { s with bos := s.bos + 1 } handle bo').data bo) := by
  rw [State.data_of_user_data (emplace_user_data ..)]
  exact hd

/-- **Every call** keeps the lock state with the locks that are held. -/
theorem step_holds (hd : Holds held (s.data bo)) {op : Op} (hroom : op.Room bo s) {s' : State}
    (h : step s op = some s') : Holds (op.held bo s held) (s'.data bo) := by
  cases op with
  | create handle width height format usage bo_create =>
    rcases step_create h with rfl | rfl
    · exact hd
    · exact emplace_holds hd handle s.bos
  | register _handle handle bo_import =>
    rcases step_register h with rfl | rfl
    · exact hd
    · exact emplace_holds hd _handle s.bos
  | unregister handle =>
    cases h
    exact gbm_free_holds hd handle
  | free handle =>
    cases h
    exact gbm_free_holds hd handle
  | lock handle gbm_handle usage x y w h' bo_map =>
    cases h
    exact lock_holds hd handle gbm_handle usage x y w h' bo_map hroom
  | unlock handle =>
    obtain ⟨⟨ret, s₁⟩, hu, rfl⟩ := Option.map_eq_some_iff.mp h
    exact unlock_holds hd hu

end Calls

theorem run_holds {bo : Bo} {ops : List Op} {s s' : State} {held : List UInt32}
    (hd : Holds held (s.data bo)) (hroom : Uncrowded bo s ops) (h : run s ops = some s') :
    Holds (heldRun bo s held ops) (s'.data bo) := by
  induction ops generalizing s held with
  | nil =>
    cases h
    exact hd
  | cons op ops ih =>
    rw [run_cons] at h
    obtain ⟨s₁, hstep, hrun⟩ := Option.bind_eq_some_iff.mp h
    have hrest := ih (step_holds hd hroom.1 hstep) (hroom.2 s₁ hstep) hrun
    rw [heldRun, hstep]
    exact hrest

/-- As many unlocks as locks are held leave the bo unlocked and unmapped. -/
theorem unlock_all {bo : Bo} {handle : Handle} {s : State}
    (hlive : s.gbm_bo_handle_map handle = some (some bo)) {held : List UInt32}
    (hd : Holds held (s.data bo)) :
    ∃ s', run s (List.replicate held.length (.unlock handle)) = some s' ∧ s'.data bo = .new := by
  induction held generalizing s with
  | nil => exact ⟨s, rfl, hd.eq_new⟩
  | cons u held ih =>
    obtain ⟨d, hdata⟩ : ∃ d, s.user_data bo = some d := by
      apply Option.ne_none_iff_exists'.mp
      intro hnone
      have hcount := hd.count
      rw [State.data, hnone, Option.getD_none, List.length_cons] at hcount
      simp only [BoData.new] at hcount
      omega
    have hd' : s.data bo = d := by rw [State.data, hdata, Option.getD_some]
    have hstep : step s (.unlock handle) = some (s.setData bo (gralloc_gbm_bo_unlock.release d)) := by
      simp only [step, gralloc_gbm_bo_unlock, from_handle_live hlive, hdata, Option.map_some]
    have hrest : Holds held ((s.setData bo (gralloc_gbm_bo_unlock.release d)).data bo) := by
      rw [State.data_setData, ← hd']
      exact hd.release
    obtain ⟨s', hrun, hend⟩ := ih (s := s.setData bo _) hlive hrest
    refine ⟨s', ?_, hend⟩
    rw [List.length_cons, List.replicate_succ, run_cons, hstep]
    exact hrun

/-! ## A further lock

Whether a lock with usages that are held already succeeds depends on one thing: whether the
widened usage asks for a mapping, which is refused while there is one. -/

/-- A lock with usages that are held already, for the hardware alone, is taken. -/
theorem lock_hardware {s : State} {handle : Handle} {bo : Bo}
    (hlive : s.gbm_bo_handle_map handle = some (some bo)) {gbm_handle : GrallocHandle}
    {usage : UInt32} (hmade : gbm_handle.usage &&& usage = usage)
    (hheld : (s.data bo).locked_for &&& usage = usage)
    (hhw : (s.data bo).locked_for &&& SW_MASK = 0) (x y w h : ℤ)
    (bo_map : MapRequest → Option MapReply) :
    (gralloc_gbm_bo_lock s handle gbm_handle usage x y w h bo_map).1 = 0 := by
  have hallowed : gralloc_gbm_bo_lock.refuses gbm_handle usage = false := by
    simp [gralloc_gbm_bo_lock.refuses, hmade]
  have hcompat : ¬ ((s.data bo).lock_count ≠ 0 ∧ (s.data bo).locked_for &&& usage ≠ usage) :=
    fun h => h.2 hheld
  -- the widened usage has no software bit either
  have hno : (usage ||| (s.data bo).locked_for) &&& SW_MASK = 0 :=
    (or_and_eq_zero _ _ _).mpr ⟨held_and_eq_zero hheld hhw, hhw⟩
  rw [lock_eq hlive, hallowed, if_neg Bool.false_ne_true]
  show (gralloc_gbm_bo_lock.take _ bo (s.data bo) gbm_handle usage x y w h bo_map).1 = 0
  unfold gralloc_gbm_bo_lock.take gralloc_gbm_bo_lock.map
  rw [if_neg hcompat]
  dsimp only
  rw [if_neg (not_not_intro hno), if_neg (not_not_intro rfl)]

/-- One that is held for software refuses it: the widened usage asks for a mapping again. -/
theorem lock_software {s : State} {handle : Handle} {bo : Bo}
    (hlive : s.gbm_bo_handle_map handle = some (some bo)) (hphase : Phase (s.data bo))
    (hsw : (s.data bo).locked_for &&& SW_MASK ≠ 0) (gbm_handle : GrallocHandle) (usage : UInt32)
    (x y w h : ℤ) (bo_map : MapRequest → Option MapReply) :
    (gralloc_gbm_bo_lock s handle gbm_handle usage x y w h bo_map).1 ≠ 0 := by
  rcases lock_data hlive gbm_handle usage x y w h bo_map with ⟨herr, -⟩ | ⟨-, -, map_data, hmaps, -⟩
  · exact herr
  · exfalso
    rcases hmaps with ⟨-, hnone, -⟩ | ⟨hno, -⟩
    · have hmapped := hphase.consistent.mapped_iff.mpr hsw
      rw [hnone] at hmapped
      cases hmapped
    · exact hsw ((or_and_eq_zero _ _ _).mp hno).2

theorem int32_succ {n : ℤ} (hn : 0 ≤ n) (hn' : n ≤ INT_MAX) : int32 (n + 1) = n + 1 ↔ n ≠ INT_MAX := by
  constructor
  · rintro h rfl
    exact absurd h (by decide)
  · intro hne
    exact int32_of_le (by omega) (by omega)

theorem compatible_lock_iff {s : State} {handle : Handle} {bo : Bo}
    (hlive : s.gbm_bo_handle_map handle = some (some bo)) (hphase : Phase (s.data bo))
    {gbm_handle : GrallocHandle} {usage : UInt32} (hmade : gbm_handle.usage &&& usage = usage)
    (hheld : (s.data bo).locked_for &&& usage = usage) (x y w h : ℤ)
    (bo_map : MapRequest → Option MapReply) :
    (gralloc_gbm_bo_lock s handle gbm_handle usage x y w h bo_map).1 = 0 ∧
        ((gralloc_gbm_bo_lock s handle gbm_handle usage x y w h bo_map).2.2.data bo).lock_count
          = (s.data bo).lock_count + 1 ↔
      (s.data bo).locked_for &&& SW_MASK = 0 ∧ (s.data bo).lock_count ≠ INT_MAX := by
  by_cases hsw : (s.data bo).locked_for &&& SW_MASK = 0
  · have hok := lock_hardware hlive hmade hheld hsw x y w h bo_map
    rw [and_iff_right hok, and_iff_right hsw]
    rcases lock_data hlive gbm_handle usage x y w h bo_map with ⟨herr, -⟩ | ⟨-, -, map_data, -, hset, -⟩
    · exact absurd hok herr
    · rw [hset]
      exact int32_succ hphase.consistent.nonneg hphase.bounded
  · have herr := lock_software hlive hphase hsw gbm_handle usage x y w h bo_map
    exact iff_of_false (fun h => herr h.1) fun h => hsw h.1

/-- **Locks inside each other.** After any calls that ask for no lock of it while `INT_MAX` are held,
the lock state of a live bo follows the locks that are held: their number is the counter, with none
left the bo is unlocked and unmapped, as it is after as many unlocks, and while one of them is for
software it is mapped. A further lock with usages that are held succeeds and counts up exactly
if the bo is held for the hardware alone, and there is room in the counter. -/
theorem compatible_locks (ops : List Op) (s : State) (hrun : run init ops = some s)
    (handle : Handle) (bo : Bo) (hroom : Uncrowded bo init ops)
    (hlive : s.gbm_bo_handle_map handle = some (some bo)) :
    (s.data bo).lock_count = (heldRun bo init [] ops).length ∧
      (heldRun bo init [] ops = [] → s.data bo = .new) ∧
      ((∃ usage ∈ heldRun bo init [] ops, Software usage) → (s.data bo).map_data.isSome) ∧
      (∃ s', run s (List.replicate (heldRun bo init [] ops).length (.unlock handle)) = some s' ∧
        s'.data bo = .new) ∧
      ∀ gbm_handle usage x y w h bo_map, 1 ≤ (s.data bo).lock_count →
        gbm_handle.usage &&& usage = usage → (s.data bo).locked_for &&& usage = usage →
        ((gralloc_gbm_bo_lock s handle gbm_handle usage x y w h bo_map).1 = 0 ∧
            ((gralloc_gbm_bo_lock s handle gbm_handle usage x y w h bo_map).2.2.data bo).lock_count
              = (s.data bo).lock_count + 1 ↔
          (s.data bo).locked_for &&& SW_MASK = 0 ∧ (s.data bo).lock_count ≠ INT_MAX) := by
  have hd : Holds (heldRun bo init [] ops) (s.data bo) := run_holds .new hroom hrun
  refine ⟨hd.count, fun hnone => ?_, hd.mapped, unlock_all hlive hd, ?_⟩
  · rw [hnone] at hd
    exact hd.eq_new
  · intro gbm_handle usage x y w h bo_map _ hmade hheld
    exact compatible_lock_iff hlive hd.phase hmade hheld x y w h bo_map

/-! ## A buffer to read from

A second reader with the usage of the first. -/

/-- A buffer that the processor reads, created at the address `1`. -/
def createReadable : Op :=
  .create 1 64 64 .RGBA_8888 GRALLOC_USAGE_SW_READ_OFTEN fun _ =>
    some { fd := 3, stride := 256, modifier := 0 }

def readableHandle : GrallocHandle :=
  { gralloc_handle_create 64 64 .RGBA_8888 GRALLOC_USAGE_SW_READ_OFTEN with
    prime_fd := 3, stride := 256 }

def lockReadable : Op :=
  .lock 1 readableHandle GRALLOC_USAGE_SW_READ_OFTEN 0 0 64 64 fun _ =>
    some { addr := 4096, map_data := 1 }

/-- Locked to be read, the buffer is mapped, and one unlock gives it back. -/
theorem compatible_locks_readable :
    ∃ s s', run init [createReadable, lockReadable] = some s ∧ (s.data 0).lock_count = 1 ∧
      (s.data 0).map_data.isSome ∧ run s [.unlock 1] = some s' ∧ s'.data 0 = .new := by
  obtain ⟨hcount, -, hmapped, ⟨s', hrun, hend⟩, -⟩ :=
    compatible_locks [createReadable, lockReadable] _ rfl 1 0 (by
      refine ⟨trivial, fun s hs => ?_⟩
      cases hs
      exact ⟨fun _ => show lockCount _ 1 ≠ INT_MAX by decide, fun _ _ => trivial⟩) rfl
  exact ⟨_, s', rfl, hcount, hmapped ⟨GRALLOC_USAGE_SW_READ_OFTEN, List.mem_cons_self, by decide⟩,
    hrun, hend⟩

/-- **A second reader is refused**, with the usage that is held. -/
theorem compatible_lock_refused :
    ∃ s, run init [createReadable, lockReadable] = some s ∧
      s.gbm_bo_handle_map 1 = some (some 0) ∧ 1 ≤ (s.data 0).lock_count ∧
      readableHandle.usage &&& GRALLOC_USAGE_SW_READ_OFTEN = GRALLOC_USAGE_SW_READ_OFTEN ∧
      (s.data 0).locked_for &&& GRALLOC_USAGE_SW_READ_OFTEN = GRALLOC_USAGE_SW_READ_OFTEN ∧
      (gralloc_gbm_bo_lock s 1 readableHandle GRALLOC_USAGE_SW_READ_OFTEN 0 0 64 64 fun _ =>
        some { addr := 4096, map_data := 1 }).1 = -EINVAL :=
  ⟨_, rfl, rfl, by decide, by decide, by decide, by decide⟩

end Dragonboard.GrallocGbm
