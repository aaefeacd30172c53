/-
The lock state of a bo.

A bo is free, or locked for the hardware any number of times, or locked for software once and
mapped: a lock that would need the bo mapped when it is mapped already is refused, since the
usage it asks for is widened by the usage that is held before `gbm_map` looks. Every call
keeps a bo in one of the three phases, as long as the `int` that counts the
hardware locks has room (`lock_state`). With `INT_MAX` locks held one more makes it
negative.
-/
import Dragonboard.GrallocGbm

set_option autoImplicit false

namespace Dragonboard.GrallocGbm

/-! ## What holds of the data of a bo

A bo is unlocked, locked for hardware, or locked and mapped. `Phase` lists what its fields are in
each case. -/

/-- The lock state is consistent. -/
structure BoData.Consistent (d : BoData) : Prop where
  nonneg : 0 ≤ d.lock_count
  unlocked : d.lock_count = 0 → d.locked_for = 0 ∧ d.map_data = none
  mapped_iff : d.map_data.isSome ↔ d.locked_for &&& SW_MASK ≠ 0
  mapped_once : d.map_data.isSome → d.lock_count = 1

/-- Where a bo can be between calls. -/
inductive Phase : BoData → Prop where
  | free : Phase .new
  | hardware (n : ℤ) (locked_for : UInt32) (hn : 0 < n ∧ n ≤ INT_MAX)
      (hw : locked_for &&& SW_MASK = 0) :
      Phase { map_data := none, lock_count := n, locked_for }
  | software (map_data : ℕ) (locked_for : UInt32) (sw : locked_for &&& SW_MASK ≠ 0) :
      Phase { map_data := some map_data, lock_count := 1, locked_for }

theorem Phase.consistent {d : BoData} (h : Phase d) : d.Consistent := by
  cases h with
  | free => constructor <;> simp [BoData.new]
  | hardware n locked_for hn hw => constructor <;> simp [hw] <;> omega
  | software map_data locked_for sw => constructor <;> simp [sw]

theorem int32_of_le {n : ℤ} (h : 0 ≤ n) (h' : n ≤ INT_MAX) : int32 n = n := by
  unfold INT_MAX at h'
  apply Int.bmod_eq_of_le <;> omega

/-! ## Usage bits

Usages are sets of bits. A lock widens its own by those that are held. -/

theorem or_and_eq_zero (a b m : UInt32) : (a ||| b) &&& m = 0 ↔ a &&& m = 0 ∧ b &&& m = 0 := by
  have hdistrib : (a ||| b) &&& m = (a &&& m) ||| (b &&& m) := by
    apply UInt32.toBitVec_inj.mp
    ext i hi
    simp only [UInt32.toBitVec_and, UInt32.toBitVec_or, BitVec.getElem_and, BitVec.getElem_or,
      Bool.and_or_distrib_right]
  rw [hdistrib, UInt32.or_eq_zero_iff]

/-- Usages that are held already add nothing. -/
theorem or_or_held {a u : UInt32} (h : a &&& u = u) : a ||| (u ||| a) = a := by
  rw [← h]
  apply UInt32.toBitVec_inj.mp
  ext i hi
  simp only [UInt32.toBitVec_and, UInt32.toBitVec_or, BitVec.getElem_and, BitVec.getElem_or]
  cases a.toBitVec[i] <;> simp

theorem held_and_eq_zero {a u m : UInt32} (h : a &&& u = u) (hm : a &&& m = 0) : u &&& m = 0 := by
  rw [← h, UInt32.and_assoc, UInt32.and_comm u, ← UInt32.and_assoc, hm, UInt32.zero_and]

/-! ## What a lock does

A lock is refused, or its mapping fails, or it is taken. In the first two cases the data is as
before. -/

/-- The data after a lock that was taken with the usage, as widened. -/
def BoData.taken (d : BoData) (usage : UInt32) (map_data : Option ℕ) : BoData where
  map_data := map_data
  lock_count := int32 (d.lock_count + 1)
  locked_for := d.locked_for ||| (usage ||| d.locked_for)

/-- What a mapping, if the usage needs one, does to `map_data`. -/
def BoData.Maps (d : BoData) (usage : UInt32) (map_data : Option ℕ) : Prop :=
  (usage &&& SW_MASK ≠ 0 ∧ d.map_data = none ∧ map_data.isSome) ∨
    (usage &&& SW_MASK = 0 ∧ map_data = d.map_data)

theorem lock_map_cases {s : State} {bo : Bo} {d : BoData} (hd : s.user_data bo = some d)
    (gbm_handle : GrallocHandle) (usage : UInt32) (x y w h : ℤ)
    (bo_map : MapRequest → Option MapReply) :
    let r := gralloc_gbm_bo_lock.map s bo d gbm_handle usage x y w h bo_map
    (r.1 ≠ 0 ∧ r.2.2 = s) ∨
      (r.1 = 0 ∧ ∃ map_data, d.Maps usage map_data ∧ r.2.2 = s.setData bo { d with map_data }) := by
  intro r
  by_cases hsw : usage &&& SW_MASK = 0
  · right
    have hr : r = (0, none, s) := if_neg (not_not_intro hsw)
    rw [hr]
    exact ⟨rfl, d.map_data, .inr ⟨hsw, rfl⟩, (State.setData_eq_self hd).symm⟩
  -- software usage: the bo is mapped, if it is not mapped already
  have hr : r = gbm_map s bo d gbm_handle x y w h
    (decide (usage &&& GRALLOC_USAGE_SW_WRITE_MASK ≠ 0)) bo_map := if_pos hsw
  rw [hr]
  unfold gbm_map
  split
  · exact .inl ⟨by simp [EINVAL], rfl⟩
  rename_i hmapped
  split
  · exact .inl ⟨by simp [ENOMEM], rfl⟩
  · exact .inr ⟨rfl, _, .inl ⟨hsw, by simpa using hmapped, rfl⟩, rfl⟩

/-- A lock changes nothing and says why, or it is taken: the usage is one that is held, if any
is, and a bo that needs a mapping had none. -/
theorem take_cases {s : State} {bo : Bo} {d : BoData} (hd : s.user_data bo = some d)
    (gbm_handle : GrallocHandle) (usage : UInt32) (x y w h : ℤ)
    (bo_map : MapRequest → Option MapReply) :
    let r := gralloc_gbm_bo_lock.take s bo d gbm_handle usage x y w h bo_map
    (r.1 ≠ 0 ∧ r.2.2 = s) ∨
      (r.1 = 0 ∧ (d.lock_count ≠ 0 → d.locked_for &&& usage = usage) ∧
        ∃ map_data, d.Maps (usage ||| d.locked_for) map_data ∧
          r.2.2 = s.setData bo (d.taken usage map_data)) := by
  intro r
  -- a usage beyond what is held is refused before anything is done
  by_cases hheld : d.lock_count ≠ 0 ∧ d.locked_for &&& usage ≠ usage
  · have hr : r = (-EINVAL, none, s) := if_pos hheld
    rw [hr]
    exact .inl ⟨by simp [EINVAL], rfl⟩
  have hr : r = _ := if_neg hheld
  rcases lock_map_cases hd gbm_handle (usage ||| d.locked_for) x y w h bo_map with
    ⟨herr, hs⟩ | ⟨hok, map_data, hmaps, hs⟩
  · left
    rw [hr, if_pos herr]
    exact ⟨herr, hs⟩
  · right
    rw [hr, if_neg (not_not_intro hok), hs]
    refine ⟨rfl, ?_, map_data, hmaps, ?_⟩
    · intro hn
      by_contra hu
      exact hheld ⟨hn, hu⟩
    · simp only [State.setData_self, Option.getD_some, State.setData_setData]
      rfl

/-- The calls keep a bo in one of its phases. A usage that is held only for the hardware
asks for no mapping, and one that is held for software always asks for another. -/
theorem taken_phase {d : BoData} (hd : Phase d) (hroom : d.lock_count ≠ INT_MAX) {usage : UInt32}
    (hcompat : d.lock_count ≠ 0 → d.locked_for &&& usage = usage) {map_data : Option ℕ}
    (hmaps : d.Maps (usage ||| d.locked_for) map_data) : Phase (d.taken usage map_data) := by
  cases hd with
  | free =>
    have hone : int32 1 = 1 := int32_of_le (by decide) (by decide)
    rcases hmaps with ⟨hsw, -, hsome⟩ | ⟨hsw, hnone⟩
    · obtain ⟨m, rfl⟩ := Option.isSome_iff_exists.mp hsome
      have ht : BoData.new.taken usage (some m) = ⟨some m, 1, usage⟩ := by
        simp [BoData.taken, BoData.new, hone]
      rw [ht]
      exact .software m usage (by simpa [BoData.new] using hsw)
    · have ht : BoData.new.taken usage map_data = ⟨none, 1, usage⟩ := by
        simp [BoData.taken, BoData.new, hone, hnone]
      rw [ht]
      exact .hardware 1 usage (by decide) (by simpa [BoData.new] using hsw)
  | hardware n locked_for hn hw =>
    have hheld : locked_for &&& usage = usage := hcompat (by simp only; omega)
    have hlocked : locked_for ||| (usage ||| locked_for) = locked_for := or_or_held hheld
    -- held for the hardware alone, so the widened usage has no software bit
    have hno : (usage ||| locked_for) &&& SW_MASK = 0 :=
      (or_and_eq_zero _ _ _).mpr ⟨held_and_eq_zero hheld hw, hw⟩
    rcases hmaps with ⟨hsw, -, -⟩ | ⟨-, hnone⟩
    · exact absurd hno hsw
    · have hn1 : n + 1 ≤ INT_MAX := by
        have := hroom
        simp only at this
        omega
      have ht : BoData.taken ⟨none, n, locked_for⟩ usage map_data = ⟨none, n + 1, locked_for⟩ := by
        simp only [BoData.taken, hlocked, hnone, int32_of_le (by omega) hn1]
      rw [ht]
      exact .hardware (n + 1) locked_for ⟨by omega, hn1⟩ hw
  | software m locked_for sw =>
    -- the widened usage always has the software bits that are held, and the bo is mapped
    rcases hmaps with ⟨-, hnone, -⟩ | ⟨hno, -⟩
    · cases hnone
    · exact absurd ((or_and_eq_zero _ _ _).mp hno).2 sw

/-! ## What an unlock does

The last unlock unmaps and clears; the ones before only count. -/

theorem release_phase {d : BoData} (hd : Phase d) : Phase (gralloc_gbm_bo_unlock.release d) := by
  cases hd with
  | free => exact .free
  | hardware n locked_for hn hw =>
    have hn0 : n ≠ 0 := by omega
    have hdec : int32 (n - 1) = n - 1 := int32_of_le (by omega) (by omega)
    simp only [gralloc_gbm_bo_unlock.release, hn0, if_false, hw, ne_eq, not_true_eq_false, hdec]
    split
    · rename_i hlast
      rw [hlast]
      exact .free
    · rename_i hlast
      exact .hardware (n - 1) locked_for (by omega) hw
  | software m locked_for sw =>
    -- the only lock: it is unmapped and free
    have hzero : int32 (1 - 1) = 0 := int32_of_le (by decide) (by decide)
    have hone : ¬ (1 : ℤ) = 0 := by decide
    simp only [gralloc_gbm_bo_unlock.release, hone, if_false, sw, ne_eq, not_false_eq_true, if_true,
      hzero]
    exact .free

/-! ## What a run does

Every call keeps every bo in a phase, as long as its counter has room. Calls for other bos do not
matter. -/

/-- The bo is in one of the phases, if it has its data. -/
def InPhase (bo : Bo) (s : State) : Prop := ∀ d, s.user_data bo = some d → Phase d

variable {bo : Bo}

/-- The data of some bo replaced, which may be this one. -/
theorem InPhase.setData {s : State} (h : InPhase bo s) (bo' : Bo) {d : BoData}
    (hd : bo' = bo → Phase d) : InPhase bo (s.setData bo' d) := by
  intro d' he
  by_cases hb : bo' = bo
  · subst hb
    rw [State.setData_self] at he
    cases he
    exact hd rfl
  · rw [State.setData_other s (Ne.symm hb)] at he
    exact h d' he

theorem InPhase.of_user_data {s s' : State} (h : InPhase bo s) (hsame : s'.user_data = s.user_data) :
    InPhase bo s' := by
  intro d hd
  rw [hsame] at hd
  exact h d hd

/-- A handle that is looked up may get an entry, and the data of bos stay. -/
theorem InPhase.from_handle {s s' : State} (h : InPhase bo s) {handle : Handle} {r : Option Bo}
    (hbo : gralloc_gbm_bo_from_handle s handle = (r, s')) : InPhase bo s' := by
  have hsame := congrArg State.user_data (congrArg Prod.snd hbo)
  rw [from_handle_user_data] at hsame
  exact h.of_user_data hsame.symm

/-- How many locks are held on the bo of a handle. -/
def lockCount (s : State) (handle : Handle) : ℤ :=
  match s.gbm_bo_handle_map handle with
  | some (some bo) => ((s.user_data bo).getD .new).lock_count
  | _ => 0

/-- A lock of the bo finds room in the counter. -/
def Op.Room (bo : Bo) (s : State) : Op → Prop
  | .lock handle .. => s.gbm_bo_handle_map handle = some (some bo) → lockCount s handle ≠ INT_MAX
  | _ => True

/-- No lock of the bo is asked for in the run while `INT_MAX` locks of it are held. -/
def Uncrowded (bo : Bo) (s : State) : List Op → Prop
  | [] => True
  | op :: ops => op.Room bo s ∧ ∀ s', step s op = some s' → Uncrowded bo s' ops

/-- The data a lock works on: a bo that is locked for the first time gets it then. -/
theorem lock_eq {s : State} {handle : Handle} {bo : Bo}
    (hlive : s.gbm_bo_handle_map handle = some (some bo)) (gbm_handle : GrallocHandle)
    (usage : UInt32) (x y w h : ℤ) (bo_map : MapRequest → Option MapReply) :
    gralloc_gbm_bo_lock s handle gbm_handle usage x y w h bo_map =
      if gralloc_gbm_bo_lock.refuses gbm_handle usage then (-EINVAL, none, s)
      else gralloc_gbm_bo_lock.take (s.setData bo ((s.user_data bo).getD .new)) bo
        ((s.user_data bo).getD .new) gbm_handle usage x y w h bo_map := by
  simp only [gralloc_gbm_bo_lock, from_handle_live hlive]
  split
  · rfl
  · cases hd : s.user_data bo with
    | none => rfl
    | some d =>
      simp only [Option.getD_some, State.setData_eq_self hd]

theorem lock_phase {s : State} (hs : InPhase bo s) {handle : Handle}
    (hroom : s.gbm_bo_handle_map handle = some (some bo) → lockCount s handle ≠ INT_MAX)
    (gbm_handle : GrallocHandle) (usage : UInt32) (x y w h : ℤ)
    (bo_map : MapRequest → Option MapReply) :
    InPhase bo (gralloc_gbm_bo_lock s handle gbm_handle usage x y w h bo_map).2.2 := by
  rcases hbo : s.gbm_bo_handle_map handle with _ | _ | bo'
  · -- a handle that is not known gets an entry, and that is all
    simp only [gralloc_gbm_bo_lock, gralloc_gbm_bo_from_handle, hbo]
    exact hs
  · simp only [gralloc_gbm_bo_lock, gralloc_gbm_bo_from_handle, hbo]
    exact hs
  · rw [lock_eq hbo]
    split
    · exact hs
    · have hd : bo' = bo → Phase ((s.user_data bo').getD .new) := by
        rintro rfl
        cases hdata : s.user_data bo' with
        | none => exact .free
        | some d => exact hs d hdata
      -- a bo without data gets it first, and that is the free phase
      have hs' := hs.setData bo' hd
      rcases take_cases (State.setData_self s bo' _) gbm_handle usage x y w h bo_map with
        ⟨-, hsame⟩ | ⟨-, hcompat, map_data, hmaps, hset⟩
      · rw [hsame]
        exact hs'
      · rw [hset]
        refine hs'.setData bo' fun heq => ?_
        subst heq
        have hroom := hroom hbo
        rw [lockCount, hbo] at hroom
        exact taken_phase (hd rfl) hroom hcompat hmaps

theorem unlock_phase {s s' : State} (hs : InPhase bo s) {handle : Handle} {ret : ℤ}
    (h : gralloc_gbm_bo_unlock s handle = some (ret, s')) : InPhase bo s' := by
  unfold gralloc_gbm_bo_unlock at h
  split at h
  · rename_i hbo
    cases h
    exact hs.from_handle hbo
  · rename_i bo' s₁ hbo
    obtain ⟨-, rfl⟩ := from_handle_some hbo
    split at h
    · cases h
    · rename_i d hd
      cases h
      refine hs.setData bo' fun heq => ?_
      subst heq
      exact release_phase (hs d hd)

theorem gbm_free_phase {s : State} (hs : InPhase bo s) (handle : Handle) :
    InPhase bo (gbm_free s handle) := by
  unfold gbm_free
  split
  · rename_i s₁ hbo
    exact hs.from_handle hbo
  · rename_i bo' s₁ hbo
    obtain ⟨-, rfl⟩ := from_handle_some hbo
    intro d hd
    by_cases hb : bo = bo'
    · simp [hb] at hd
    · simp only [Function.update_of_ne hb] at hd
      exact hs d hd

theorem emplace_phase {s : State} (hs : InPhase bo s) (handle : Handle) :
    InPhase bo (emplace { s with bos := s.bos + 1 } handle s.bos) := by
  apply hs.of_user_data
  rw [emplace_user_data]

theorem step_phase {s s' : State} (hs : InPhase bo s) {op : Op} (hroom : op.Room bo s)
    (h : step s op = some s') : InPhase bo s' := by
  cases op with
  | create handle width height format usage bo_create =>
    rcases step_create h with rfl | rfl
    · exact hs
    · exact emplace_phase hs handle
  | register _handle handle bo_import =>
    rcases step_register h with rfl | rfl
    · exact hs
    · exact emplace_phase hs _handle
  | unregister handle =>
    cases h
    exact gbm_free_phase hs handle
  | free handle =>
    cases h
    exact gbm_free_phase hs handle
  | lock handle gbm_handle usage x y w h' bo_map =>
    cases h
    exact lock_phase hs hroom gbm_handle usage x y w h' bo_map
  | unlock handle =>
    obtain ⟨⟨ret, s₁⟩, hu, rfl⟩ := Option.map_eq_some_iff.mp h
    exact unlock_phase hs hu

theorem run_phase {s s' : State} (hs : InPhase bo s) (ops : List Op) (hroom : Uncrowded bo s ops)
    (h : run s ops = some s') : InPhase bo s' := by
  induction ops generalizing s with
  | nil =>
    cases h
    exact hs
  | cons op ops ih =>
    rw [run_cons] at h
    obtain ⟨s₁, hstep, hrun⟩ := Option.bind_eq_some_iff.mp h
    exact ih (step_phase hs hroom.1 hstep) (hroom.2 s₁ hstep) hrun

theorem inPhase_init : InPhase bo init := by
  intro d hd
  cases hd

/-- A lock or an unlock of one handle. -/
def Op.Locks (handle : Handle) : Op → Prop
  | .lock handle' .. => handle' = handle
  | .unlock handle' => handle' = handle
  | _ => False

/-- The handle stays, its bo stays, and the bo keeps its data. -/
theorem locks_step {s : State} {handle : Handle} {bo : Bo}
    (hlive : s.gbm_bo_handle_map handle = some (some bo)) (hdata : (s.user_data bo).isSome) {op : Op}
    (hop : op.Locks handle) :
    ∃ s', step s op = some s' ∧ s'.gbm_bo_handle_map handle = some (some bo) ∧
      (s'.user_data bo).isSome := by
  obtain ⟨d, hd⟩ := Option.isSome_iff_exists.mp hdata
  cases op with
  | lock handle' gbm_handle usage x y w h bo_map =>
    cases hop
    refine ⟨_, rfl, ?_⟩
    rw [lock_eq hlive]
    split
    · exact ⟨hlive, hdata⟩
    · rcases take_cases (State.setData_self s bo ((s.user_data bo).getD .new)) gbm_handle usage
        x y w h bo_map with ⟨-, hsame⟩ | ⟨-, -, map_data, -, hset⟩
      · rw [hsame]
        exact ⟨hlive, by rw [State.setData_self]; rfl⟩
      · rw [hset]
        exact ⟨hlive, by rw [State.setData_self]; rfl⟩
  | unlock handle' =>
    cases hop
    refine ⟨s.setData bo (gralloc_gbm_bo_unlock.release d), ?_, hlive, ?_⟩
    · simp only [step, gralloc_gbm_bo_unlock, from_handle_live hlive, hd, Option.map_some]
    · rw [State.setData_self]
      rfl
  | create | register | unregister | free => cases hop

theorem locks_run {s : State} {handle : Handle} {bo : Bo}
    (hlive : s.gbm_bo_handle_map handle = some (some bo)) (hdata : (s.user_data bo).isSome)
    (ops : List Op) (hops : ∀ op ∈ ops, op.Locks handle) :
    ∃ s', run s ops = some s' ∧ s'.gbm_bo_handle_map handle = some (some bo) ∧
      (s'.user_data bo).isSome := by
  induction ops generalizing s with
  | nil => exact ⟨s, rfl, hlive, hdata⟩
  | cons op ops ih =>
    obtain ⟨s₁, hstep, hlive₁, hdata₁⟩ := locks_step hlive hdata (hops op List.mem_cons_self)
    obtain ⟨s', hrun, hend⟩ := ih hlive₁ hdata₁ fun op hop => hops op (List.mem_cons_of_mem _ hop)
    refine ⟨s', ?_, hend⟩
    rw [run_cons, hstep]
    exact hrun

/-- A bo that has its data, after any calls whatsoever, and any locks and unlocks of it from there:
they all return, the lock state is consistent, and a lock that fails leaves it alone. No
lock of this bo may be asked for while `INT_MAX` are held. -/
theorem lock_state (past : List Op) (s : State) (hpast : run init past = some s)
    (handle : Handle) (bo : Bo) (hroom : Uncrowded bo init past)
    (hlive : s.gbm_bo_handle_map handle = some (some bo)) (hdata : (s.user_data bo).isSome)
    (ops : List Op) (hops : ∀ op ∈ ops, op.Locks handle) (hroom' : Uncrowded bo s ops) :
    ∃ s' d, run s ops = some s' ∧ s'.user_data bo = some d ∧ d.Consistent ∧
      ∀ gbm_handle usage x y w h bo_map,
        (gralloc_gbm_bo_lock s' handle gbm_handle usage x y w h bo_map).1 ≠ 0 →
        (gralloc_gbm_bo_lock s' handle gbm_handle usage x y w h bo_map).2.2.user_data bo = some d := by
  obtain ⟨s', hrun, hlive', hdata'⟩ := locks_run hlive hdata ops hops
  obtain ⟨d, hd⟩ := Option.isSome_iff_exists.mp hdata'
  have hphase := run_phase (run_phase inPhase_init past hroom hpast) ops hroom' hrun d hd
  refine ⟨s', d, hrun, hd, hphase.consistent, ?_⟩
  intro gbm_handle usage x y w h bo_map herr
  rw [lock_eq hlive'] at herr ⊢
  split
  · exact hd
  · rename_i huse
    rw [if_neg huse] at herr
    rcases take_cases (State.setData_self s' bo ((s'.user_data bo).getD .new)) gbm_handle usage
      x y w h bo_map with ⟨-, hsame⟩ | ⟨hok, -⟩
    · rw [hsame, State.setData_self, hd, Option.getD_some]
    · exact absurd hok herr

/-! ## A buffer of the screen

A texture that is locked for hardware again and again without being unlocked shows what the
counter does at its end. -/

/-- A texture of the screen's size, created at the address `1`. -/
def createTexture : Op :=
  .create 1 1280 720 .RGBA_8888 GRALLOC_USAGE_HW_TEXTURE fun _ =>
    some { fd := 3, stride := 5120, modifier := 0 }

def textureHandle : GrallocHandle :=
  { gralloc_handle_create 1280 720 .RGBA_8888 GRALLOC_USAGE_HW_TEXTURE with
    prime_fd := 3, stride := 5120 }

/-- A lock of it for some usage, which can be mapped. -/
def lockTexture (usage : UInt32) : Op :=
  .lock 1 textureHandle usage 0 0 1280 720 fun _ => some { addr := 4096, map_data := 1 }

/-- The texture is locked and unlocked for the hardware, and then it is locked for software and
once more. -/
theorem lock_state_texture :
    ∃ s s' d, run init [createTexture, lockTexture GRALLOC_USAGE_HW_TEXTURE] = some s ∧
      run s [.unlock 1, lockTexture GRALLOC_USAGE_SW_READ_OFTEN,
        lockTexture GRALLOC_USAGE_SW_READ_OFTEN] = some s' ∧
      s'.user_data 0 = some d ∧ d.Consistent := by
  have hroom : Uncrowded 0 init [createTexture, lockTexture GRALLOC_USAGE_HW_TEXTURE] := by
    refine ⟨trivial, fun s hs => ?_⟩
    cases hs
    exact ⟨fun _ => show lockCount _ 1 ≠ INT_MAX by decide, fun _ _ => trivial⟩
  obtain ⟨s', d, hrun, hd, hok, -⟩ := lock_state _ _ rfl 1 0 hroom rfl rfl
    [.unlock 1, lockTexture GRALLOC_USAGE_SW_READ_OFTEN, lockTexture GRALLOC_USAGE_SW_READ_OFTEN]
    (by
      intro op hop
      simp only [List.mem_cons, List.not_mem_nil, or_false] at hop
      rcases hop with rfl | rfl | rfl <;> rfl)
    (by
      refine ⟨trivial, fun s hs => ?_⟩
      cases hs
      refine ⟨fun _ => show lockCount _ 1 ≠ INT_MAX by decide, fun s hs => ?_⟩
      cases hs
      exact ⟨fun _ => show lockCount _ 1 ≠ INT_MAX by decide, fun _ _ => trivial⟩)
  exact ⟨_, s', d, rfl, hrun, hd, hok⟩

theorem lockTexture_step {s : State} {n : ℤ} (hlive : s.gbm_bo_handle_map 1 = some (some 0))
    (hdata : s.user_data 0 = some ⟨none, n, GRALLOC_USAGE_HW_TEXTURE⟩) :
    step s (lockTexture GRALLOC_USAGE_HW_TEXTURE)
      = some (s.setData 0 ⟨none, int32 (n + 1), GRALLOC_USAGE_HW_TEXTURE⟩) := by
  have huse : gralloc_gbm_bo_lock.refuses textureHandle GRALLOC_USAGE_HW_TEXTURE = false := by decide
  have hheld : GRALLOC_USAGE_HW_TEXTURE &&& GRALLOC_USAGE_HW_TEXTURE = GRALLOC_USAGE_HW_TEXTURE := by
    decide
  have hhw : (GRALLOC_USAGE_HW_TEXTURE ||| GRALLOC_USAGE_HW_TEXTURE) &&& SW_MASK = 0 := by decide
  have hor : GRALLOC_USAGE_HW_TEXTURE ||| (GRALLOC_USAGE_HW_TEXTURE ||| GRALLOC_USAGE_HW_TEXTURE)
      = GRALLOC_USAGE_HW_TEXTURE := by decide
  rw [lockTexture, step, lock_eq hlive, huse]
  simp only [Bool.false_eq_true, if_false, gralloc_gbm_bo_lock.take, hdata, Option.getD_some, hheld,
    ne_eq, not_true_eq_false, and_false, gralloc_gbm_bo_lock.map, hhw, State.setData_self,
    State.setData_setData, hor]

/-- Locks for the hardware count up. -/
theorem lockTexture_run (n : ℕ) {s : State} {c : ℤ} (hc : 0 ≤ c) (hn : c + n ≤ INT_MAX)
    (hlive : s.gbm_bo_handle_map 1 = some (some 0))
    (hdata : s.user_data 0 = some ⟨none, c, GRALLOC_USAGE_HW_TEXTURE⟩) :
    run s (List.replicate n (lockTexture GRALLOC_USAGE_HW_TEXTURE))
      = some (s.setData 0 ⟨none, c + n, GRALLOC_USAGE_HW_TEXTURE⟩) := by
  induction n generalizing s c with
  | zero =>
    have hsame : s.setData 0 ⟨none, c + (0 : ℕ), GRALLOC_USAGE_HW_TEXTURE⟩ = s :=
      State.setData_eq_self (by rw [hdata]; simp)
    rw [hsame]
    rfl
  | succ n ih =>
    have hint : int32 (c + 1) = c + 1 := int32_of_le (by omega) (by omega)
    have hstep := lockTexture_step hlive hdata
    rw [hint] at hstep
    have hrest := ih (c := c + 1) (by omega) (by omega)
      (s := s.setData 0 ⟨none, c + 1, GRALLOC_USAGE_HW_TEXTURE⟩) hlive (State.setData_self ..)
    have hsum : c + 1 + n = c + (n + 1 : ℕ) := by omega
    rw [List.replicate_succ, run_cons, hstep, Option.bind_some, hrest, State.setData_setData, hsum]

/-- The lock after `INT_MAX` of them. -/
theorem lockTexture_overflow (n : ℕ) {s : State} {c : ℤ} (hc : 0 ≤ c) (hn : c + n = INT_MAX)
    (hlive : s.gbm_bo_handle_map 1 = some (some 0))
    (hdata : s.user_data 0 = some ⟨none, c, GRALLOC_USAGE_HW_TEXTURE⟩) :
    ∃ s', run s (List.replicate (n + 1) (lockTexture GRALLOC_USAGE_HW_TEXTURE)) = some s' ∧
      s'.user_data 0 = some ⟨none, int32 (INT_MAX + 1), GRALLOC_USAGE_HW_TEXTURE⟩ := by
  have hrun := lockTexture_run n hc (by omega) hlive hdata
  rw [hn] at hrun
  rw [List.replicate_succ', run_append_singleton, hrun, Option.bind_some]
  refine ⟨_, lockTexture_step ?_ (State.setData_self s 0 _), State.setData_self ..⟩
  exact hlive

/-- `2 ^ 31` locks for the hardware make the counter negative. -/
theorem lock_count_negative :
    ∃ s s' d, run init [createTexture, lockTexture GRALLOC_USAGE_HW_TEXTURE] = some s ∧
      s.gbm_bo_handle_map 1 = some (some 0) ∧ (s.user_data 0).isSome ∧
      run s (List.replicate (2147483646 + 1) (lockTexture GRALLOC_USAGE_HW_TEXTURE)) = some s' ∧
      s'.user_data 0 = some d ∧ d.lock_count < 0 ∧ ¬ d.Consistent := by
  obtain ⟨s, hpast, hlive, hdata⟩ :
      ∃ s, run init [createTexture, lockTexture GRALLOC_USAGE_HW_TEXTURE] = some s ∧
        s.gbm_bo_handle_map 1 = some (some 0) ∧
        s.user_data 0 = some ⟨none, 1, GRALLOC_USAGE_HW_TEXTURE⟩ := ⟨_, rfl, rfl, rfl⟩
  obtain ⟨s', hrun, hd⟩ := lockTexture_overflow 2147483646 (by decide) (by decide) hlive hdata
  have hneg : int32 (INT_MAX + 1) < 0 := by decide
  refine ⟨s, s', _, hpast, hlive, by rw [hdata]; rfl, hrun, hd, hneg, ?_⟩
  intro h
  exact absurd h.nonneg (Int.not_le.mpr hneg)

end Dragonboard.GrallocGbm
