/-
The handle map against what it is for: a registry of the handles that are live, each with its
bo.

`Registry` is that purpose, and `Keeps` says that the code refines it along a run.
The lookup of the code is `operator[]`, which makes an entry for a handle that is not
known, and an unlock takes it for granted that the bo was locked before. A run refines the
registry exactly when it has neither, and asks for no format without a pixel size
(`keeps_iff`).
-/
import Dragonboard.GrallocGbmLock

set_option autoImplicit false

namespace Dragonboard.GrallocGbm

/-! ## The registry

What the map is for: it knows the live handles, and each has a bo of its own. -/

/-- The live handles with their bos. -/
structure Registry where
  live : Handle → Option Bo
  bos : ℕ

namespace Registry

def empty : Registry where
  live := fun _ => none
  bos := 0

/-- A handle becomes live, with the next bo. -/
def add (r : Registry) (handle : Handle) : Registry where
  live := Function.update r.live handle (some r.bos)
  bos := r.bos + 1

def remove (r : Registry) (handle : Handle) : Registry :=
  { r with live := Function.update r.live handle none }

@[simp] theorem add_live_self (r : Registry) (handle : Handle) :
    (r.add handle).live handle = some r.bos :=
  Function.update_self ..

theorem add_live_other (r : Registry) {handle handle' : Handle} (h : handle' ≠ handle) :
    (r.add handle).live handle' = r.live handle' :=
  Function.update_of_ne h ..

@[simp] theorem remove_live_self (r : Registry) (handle : Handle) :
    (r.remove handle).live handle = none :=
  Function.update_self ..

theorem remove_live_other (r : Registry) {handle handle' : Handle} (h : handle' ≠ handle) :
    (r.remove handle).live handle' = r.live handle' :=
  Function.update_of_ne h ..

/-- What a call means for the registry. -/
def step (r : Registry) : Op → Registry
  | .create handle width height format usage bo_create =>
    if creates handle width height format usage bo_create then r.add handle else r
  | .register _handle handle bo_import =>
    if _handle ≠ 0 ∧ r.live _handle = none ∧ gbm_import.imports handle bo_import then r.add _handle
    else r
  | .unregister handle => r.remove handle
  | .free handle => r.remove handle
  | .lock .. => r
  | .unlock .. => r

def run (ops : List Op) : Registry := ops.foldl step empty

theorem run_append (ops : List Op) (op : Op) : run (ops ++ [op]) = (run ops).step op := by
  simp only [run, List.foldl_append, List.foldl_cons, List.foldl_nil]

/-- Every live handle has its own bo. -/
structure Own (r : Registry) : Prop where
  old : ∀ handle bo, r.live handle = some bo → bo < r.bos
  inj : ∀ handle handle' bo, r.live handle = some bo → r.live handle' = some bo → handle = handle'

theorem own_empty : empty.Own where
  old := by
    intro handle bo h
    cases h
  inj := by
    intro handle handle' bo h
    cases h

theorem Own.add {r : Registry} (h : r.Own) (handle : Handle) : (r.add handle).Own := by
  have hcases : ∀ handle' bo, (r.add handle).live handle' = some bo →
      (handle' = handle ∧ bo = r.bos) ∨ (r.live handle' = some bo ∧ bo < r.bos) := by
    intro handle' bo hbo
    by_cases he : handle' = handle
    · rw [he, add_live_self] at hbo
      exact .inl ⟨he, (Option.some.inj hbo).symm⟩
    · rw [add_live_other r he] at hbo
      exact .inr ⟨hbo, h.old handle' bo hbo⟩
  constructor
  · intro handle' bo hbo
    show bo < r.bos + 1
    rcases hcases handle' bo hbo with ⟨-, hb⟩ | ⟨-, hb⟩
    · rw [hb]
      exact Nat.lt_succ_self _
    · exact Nat.lt_succ_of_lt hb
  · intro h₁ h₂ bo hbo₁ hbo₂
    rcases hcases h₁ bo hbo₁ with ⟨he₁, hb₁⟩ | ⟨hl₁, hb₁⟩ <;>
      rcases hcases h₂ bo hbo₂ with ⟨he₂, hb₂⟩ | ⟨hl₂, hb₂⟩
    · rw [he₁, he₂]
    · exact absurd hb₁ (Nat.ne_of_lt hb₂)
    · exact absurd hb₂ (Nat.ne_of_lt hb₁)
    · exact h.inj h₁ h₂ bo hl₁ hl₂

theorem Own.remove {r : Registry} (h : r.Own) (handle : Handle) : (r.remove handle).Own := by
  have hsub : ∀ handle' bo, (r.remove handle).live handle' = some bo → r.live handle' = some bo := by
    intro handle' bo hbo
    by_cases he : handle' = handle
    · simp [he] at hbo
    · rwa [remove_live_other r he] at hbo
  exact ⟨fun h₁ bo hbo => h.old h₁ bo (hsub h₁ bo hbo),
    fun h₁ h₂ bo hbo₁ hbo₂ => h.inj h₁ h₂ bo (hsub h₁ bo hbo₁) (hsub h₂ bo hbo₂)⟩

end Registry

/-! ## What it is for the code to refine it

The map holds the live handles and nothing else, and callers are told accordingly. The condition
is that each call is about a handle that is known; a call about another one leaves an entry
without a bo. -/

/-- The map holds exactly the live handles, each with its bo. -/
def State.Holds (s : State) (r : Registry) : Prop :=
  ∀ handle, s.gbm_bo_handle_map handle = (r.live handle).map some

/-- What a caller is told: a handle that is not live can be registered, and an unlock of a live
handle that is not locked does nothing. -/
def Answers (s : State) (r : Registry) : Op → Prop
  | .register _handle handle bo_import =>
    _handle ≠ 0 → r.live _handle = none → gbm_import.imports handle bo_import →
      (gralloc_gbm_handle_register s _handle handle bo_import).1 = 0
  | .unlock handle =>
    (r.live handle).isSome → lockCount s handle = 0 → gralloc_gbm_bo_unlock s handle = some (0, s)
  | _ => True

/-- The code refines the registry along a run. -/
structure Keeps (ops : List Op) : Prop where
  holds : ∀ pre, pre <+: ops → ∃ s, run init pre = some s ∧ s.Holds (Registry.run pre)
  own : ∀ pre, pre <+: ops → (Registry.run pre).Own
  answers : ∀ pre op s, pre ++ [op] <+: ops → run init pre = some s →
    Answers s (Registry.run pre) op

/-- A handle that is in the map with a bo. -/
def Known (s : State) (handle : Handle) : Prop := ∃ bo, s.gbm_bo_handle_map handle = some (some bo)

/-- A call the code is ready for: it is about a handle that is known, and about one with lock
data if it is an unlock; and a new bo has a format with a pixel size. -/
def Proper (s : State) : Op → Prop
  | .create handle width height format usage bo_create =>
    creates handle width height format usage bo_create → gralloc_gbm_get_bpp format ≠ 0
  | .register .. => True
  | .unregister handle => Known s handle
  | .free handle => Known s handle
  | .lock handle .. => Known s handle
  | .unlock handle =>
    ∃ bo, s.gbm_bo_handle_map handle = some (some bo) ∧ (s.user_data bo).isSome

/-- The allocator returns no block that a live handle is in. -/
def Allocated (ops : List Op) : Prop :=
  ∀ pre handle width height format usage bo_create,
    (pre ++ [.create handle width height format usage bo_create]) <+: ops →
    (Registry.run pre).live handle = none

/-! ## One call

The step of the simulation, and its converse: a call that is not proper breaks the relation, or
has no next state. -/

/-- The map holds the live handles, and the next bo is the same one. -/
structure Refines (s : State) (r : Registry) : Prop where
  holds : s.Holds r
  bos : s.bos = r.bos
  own : r.Own

theorem Refines.add {s : State} {r : Registry} (h : Refines s r) {handle : Handle}
    (hnew : r.live handle = none) :
    Refines (emplace { s with bos := s.bos + 1 } handle s.bos) (r.add handle) := by
  have hmap : s.gbm_bo_handle_map handle = none := by rw [h.holds, hnew]; rfl
  refine ⟨?_, ?_, h.own.add handle⟩
  · intro handle'
    simp only [emplace, hmap]
    by_cases he : handle' = handle
    · simp [he, h.bos]
    · simp only [Registry.add_live_other r he, Function.update_of_ne he]
      exact h.holds handle'
  · simp only [emplace, hmap, Registry.add, h.bos]

theorem Refines.remove {s : State} {r : Registry} (h : Refines s r) {handle : Handle}
    (hknown : Known s handle) : Refines (gbm_free s handle) (r.remove handle) := by
  obtain ⟨bo, hbo⟩ := hknown
  have hfree : gbm_free s handle = { s with
      gbm_bo_handle_map := Function.update s.gbm_bo_handle_map handle none
      user_data := Function.update s.user_data bo none } := by
    rw [gbm_free, from_handle_live hbo]
  rw [hfree]
  refine ⟨?_, h.bos, h.own.remove handle⟩
  intro handle'
  by_cases he : handle' = handle
  · simp [he]
  · simp only [Registry.remove_live_other r he, Function.update_of_ne he]
    exact h.holds handle'

/-- A lock of a known handle leaves the map alone. -/
theorem lock_map_eq {s : State} {handle : Handle} (hknown : Known s handle) (gbm_handle : GrallocHandle)
    (usage : UInt32) (x y w h : ℤ) (bo_map : MapRequest → Option MapReply) :
    let s' := (gralloc_gbm_bo_lock s handle gbm_handle usage x y w h bo_map).2.2
    s'.gbm_bo_handle_map = s.gbm_bo_handle_map ∧ s'.bos = s.bos := by
  obtain ⟨bo, hbo⟩ := hknown
  intro s'
  have hs' : s' = _ := congrArg (·.2.2) (lock_eq hbo gbm_handle usage x y w h bo_map)
  rw [hs']
  split
  · exact ⟨rfl, rfl⟩
  · rcases take_cases (State.setData_self s bo ((s.user_data bo).getD .new)) gbm_handle usage
      x y w h bo_map with ⟨-, hsame⟩ | ⟨-, -, map_data, -, hset⟩
    · rw [hsame]
      exact ⟨rfl, rfl⟩
    · rw [hset]
      exact ⟨rfl, rfl⟩

theorem unlock_eq {s : State} {handle : Handle} {bo : Bo} {d : BoData}
    (hbo : s.gbm_bo_handle_map handle = some (some bo)) (hd : s.user_data bo = some d) :
    gralloc_gbm_bo_unlock s handle
      = some (0, s.setData bo (gralloc_gbm_bo_unlock.release d)) := by
  simp only [gralloc_gbm_bo_unlock, from_handle_live hbo, hd]

theorem step_refines {s : State} {r : Registry} (h : Refines s r) {op : Op} (hop : Proper s op)
    (halloc : ∀ handle width height format usage bo_create,
      op = .create handle width height format usage bo_create → r.live handle = none) :
    ∃ s', step s op = some s' ∧ Refines s' (r.step op) := by
  cases op with
  | create handle width height format usage bo_create =>
    rcases create_cases s handle width height format usage bo_create with
      ⟨hno, he⟩ | ⟨hyes, ⟨hbpp, -⟩ | ⟨-, stride, he⟩⟩
    · refine ⟨s, by rw [step, he]; rfl, ?_⟩
      rw [Registry.step, hno]
      exact h
    · exact absurd hbpp (hop hyes)
    · refine ⟨_, by rw [step, he]; rfl, ?_⟩
      rw [Registry.step, hyes]
      exact h.add (halloc _ _ _ _ _ _ rfl)
  | register _handle handle bo_import =>
    have hmap : s.gbm_bo_handle_map _handle = none ↔ r.live _handle = none := by
      rw [h.holds, Option.map_eq_none_iff]
    rcases register_cases s _handle handle bo_import with ⟨hno, -, he⟩ | ⟨hyes, -, he⟩
    · refine ⟨s, by rw [step, he], ?_⟩
      rw [hmap] at hno
      rw [Registry.step, if_neg hno]
      exact h
    · refine ⟨_, by rw [step, he], ?_⟩
      rw [hmap] at hyes
      rw [Registry.step, if_pos hyes]
      exact h.add hyes.2.1
  -- these two take the handle out of the map, known as it is
  | unregister handle => exact ⟨_, rfl, h.remove hop⟩
  | free handle => exact ⟨_, rfl, h.remove hop⟩
  -- locks change the data of bos and not the map
  | lock handle gbm_handle usage x y w h' bo_map =>
    obtain ⟨hmap, hbos⟩ := lock_map_eq hop gbm_handle usage x y w h' bo_map
    refine ⟨_, rfl, ?_, hbos.trans h.bos, h.own⟩
    intro handle'
    rw [hmap]
    exact h.holds handle'
  | unlock handle =>
    obtain ⟨bo, hbo, hdata⟩ := hop
    obtain ⟨d, hd⟩ := Option.isSome_iff_exists.mp hdata
    refine ⟨s.setData bo (gralloc_gbm_bo_unlock.release d), ?_, h.holds, h.bos, h.own⟩
    rw [step, unlock_eq hbo hd]
    rfl

/-- A lookup of a handle that is not live leaves an entry that is no bo. -/
theorem stray_entry {s s' : State} {r r' : Registry} {handle : Handle} (h : s.Holds r)
    (hunknown : ¬ Known s handle)
    (hs' : s'.gbm_bo_handle_map = (gralloc_gbm_bo_from_handle s handle).2.gbm_bo_handle_map) :
    ¬ s'.Holds r' := by
  have hnone : s.gbm_bo_handle_map handle = none := by
    rw [h handle, Option.map_eq_none_iff]
    by_contra hlive
    obtain ⟨bo, hbo⟩ := Option.ne_none_iff_exists'.mp hlive
    exact hunknown ⟨bo, by rw [h handle, hbo]; rfl⟩
  intro h'
  have hentry := h' handle
  rw [hs'] at hentry
  simp only [gralloc_gbm_bo_from_handle, hnone, Function.update_self] at hentry
  cases hlive : r'.live handle with
  | none => rw [hlive] at hentry; cases hentry
  | some bo => rw [hlive] at hentry; cases hentry

theorem from_handle_none {s : State} {handle : Handle} (h : ¬ Known s handle) :
    gralloc_gbm_bo_from_handle s handle = (none, (gralloc_gbm_bo_from_handle s handle).2) := by
  refine Prod.ext ?_ rfl
  show (gralloc_gbm_bo_from_handle s handle).1 = none
  cases hbo : (gralloc_gbm_bo_from_handle s handle).1 with
  | none => rfl
  | some bo => exact absurd ⟨bo, (from_handle_some (Prod.ext hbo rfl)).1⟩ h

/-- A call that leaves the map holding the live handles, as they are after it, was one the code
is ready for. -/
theorem proper_of_holds {s s' : State} {r : Registry} {op : Op} (h : s.Holds r)
    (hstep : step s op = some s') (h' : s'.Holds (r.step op)) : Proper s op := by
  cases op with
  | create handle width height format usage bo_create =>
    intro hyes hbpp
    rcases create_cases s handle width height format usage bo_create with
      ⟨hno, -⟩ | ⟨-, ⟨-, he⟩ | ⟨hsize, -⟩⟩
    · rw [hno] at hyes
      cases hyes
    · rw [step, he] at hstep
      cases hstep
    · exact hsize hbpp
  | register _handle handle bo_import => trivial
  | unregister handle =>
    -- the lookup of a handle that is not known would leave an entry behind
    by_contra hunknown
    apply stray_entry h hunknown _ h'
    rw [step, gralloc_gbm_handle_unregister, gbm_free, from_handle_none hunknown] at hstep
    cases hstep
    rfl
  | free handle =>
    by_contra hunknown
    apply stray_entry h hunknown _ h'
    rw [step, gbm_free, from_handle_none hunknown] at hstep
    cases hstep
    rfl
  | lock handle gbm_handle usage x y w h'' bo_map =>
    by_contra hunknown
    apply stray_entry h hunknown _ h'
    rw [step, gralloc_gbm_bo_lock, from_handle_none hunknown] at hstep
    cases hstep
    rfl
  | unlock handle =>
    by_cases hknown : Known s handle
    · obtain ⟨bo, hbo⟩ := hknown
      refine ⟨bo, hbo, ?_⟩
      cases hd : s.user_data bo with
      | some d => rfl
      | none =>
        simp only [step, gralloc_gbm_bo_unlock, from_handle_live hbo, hd] at hstep
        cases hstep
    · exfalso
      apply stray_entry h hknown _ h'
      rw [step, gralloc_gbm_bo_unlock, from_handle_none hknown] at hstep
      cases hstep
      rfl

/-! ## Runs

Both directions along a run. -/

theorem run_refines {ops : List Op} (halloc : Allocated ops)
    (hproper : ∀ pre op s, pre ++ [op] <+: ops → run init pre = some s → Proper s op)
    (pre : List Op) (hpre : pre <+: ops) :
    ∃ s, run init pre = some s ∧ Refines s (Registry.run pre) := by
  induction pre using List.reverseRecOn with
  | nil => exact ⟨init, rfl, fun _ => rfl, rfl, Registry.own_empty⟩
  | append_singleton pre op ih =>
    obtain ⟨s, hrun, hs⟩ := ih ((List.prefix_append pre [op]).trans hpre)
    obtain ⟨s', hstep, hs'⟩ := step_refines hs (hproper pre op s hpre hrun) (by
      intro handle width height format usage bo_create hop
      rw [hop] at hpre
      exact halloc _ _ _ _ _ _ _ hpre)
    refine ⟨s', ?_, ?_⟩
    · rw [run_append_singleton, hrun]
      exact hstep
    · rw [Registry.run_append]
      exact hs'

theorem answers_of_refines {s : State} {r : Registry} (h : Refines s r) {op : Op}
    (hop : Proper s op) : Answers s r op := by
  cases op with
  | register _handle handle bo_import =>
    intro hnull hlive himp
    have hmap : s.gbm_bo_handle_map _handle = none := by rw [h.holds, hlive]; rfl
    rcases register_cases s _handle handle bo_import with ⟨hno, -⟩ | ⟨-, hret, -⟩
    · exact absurd ⟨hnull, hmap, himp⟩ hno
    · exact hret
  | unlock handle =>
    intro _ hcount
    obtain ⟨bo, hbo, hdata⟩ := hop
    obtain ⟨d, hd⟩ := Option.isSome_iff_exists.mp hdata
    simp only [lockCount, hbo, hd, Option.getD_some] at hcount
    have hrelease : gralloc_gbm_bo_unlock.release d = d := if_pos hcount
    rw [unlock_eq hbo hd, hrelease, State.setData_eq_self hd]
  | create | unregister | free | lock => trivial

/-- The code refines the registry along exactly those runs whose calls are all proper. -/
theorem keeps_iff (ops : List Op) (halloc : Allocated ops) :
    Keeps ops ↔ ∀ pre op s, pre ++ [op] <+: ops → run init pre = some s → Proper s op := by
  constructor
  · intro h pre op s hpre hrun
    obtain ⟨s₁, hrun₁, hs⟩ := h.holds pre ((List.prefix_append pre [op]).trans hpre)
    rw [hrun] at hrun₁
    cases hrun₁
    obtain ⟨s', hrun', hs'⟩ := h.holds (pre ++ [op]) hpre
    rw [run_append_singleton, hrun, Option.bind_some] at hrun'
    rw [Registry.run_append] at hs'
    exact proper_of_holds hs hrun' hs'
  · intro h
    refine ⟨?_, ?_, ?_⟩
    · intro pre hpre
      obtain ⟨s, hrun, hs⟩ := run_refines halloc h pre hpre
      exact ⟨s, hrun, hs.holds⟩
    · intro pre hpre
      obtain ⟨s, -, hs⟩ := run_refines halloc h pre hpre
      exact hs.own
    · intro pre op s hpre hrun
      obtain ⟨s₁, hrun₁, hs⟩ := run_refines halloc h pre ((List.prefix_append pre [op]).trans hpre)
      rw [hrun] at hrun₁
      cases hrun₁
      exact answers_of_refines hs (h pre op s hpre hrun)

/-- The call after a prefix of a run. -/
theorem prefix_snoc {pre ops : List Op} {op : Op} (h : pre ++ [op] <+: ops) :
    pre = ops.take pre.length ∧ ops[pre.length]? = some op := by
  obtain ⟨rest, rfl⟩ := h
  simp

/-- A texture that is created, locked, unlocked twice and freed, with a new one in its place. -/
def textureLife : List Op :=
  [createTexture, lockTexture GRALLOC_USAGE_HW_TEXTURE, .unlock 1, .unlock 1, .free 1, createTexture]

theorem keeps_textureLife : Keeps textureLife := by
  refine (keeps_iff textureLife ?_).mpr ?_
  · intro pre handle width height format usage bo_create hpre
    obtain ⟨htake, hop⟩ := prefix_snoc hpre
    rw [htake]
    generalize pre.length = i at hop ⊢
    match i, hop with
    | 0, _ => rfl
    | 5, hop =>
      cases hop
      rfl
  · intro pre op s hpre hrun
    obtain ⟨htake, hop⟩ := prefix_snoc hpre
    rw [htake] at hrun
    generalize pre.length = i at hop hrun
    match i, hop with
    | 0, hop =>
      cases hop
      exact fun _ => by decide
    | 1, hop =>
      cases hop
      cases hrun
      exact ⟨0, rfl⟩
    | 2, hop =>
      cases hop
      cases hrun
      exact ⟨0, rfl, rfl⟩
    | 3, hop =>
      cases hop
      cases hrun
      exact ⟨0, rfl, rfl⟩
    | 4, hop =>
      cases hop
      cases hrun
      exact ⟨0, rfl⟩
    | 5, hop =>
      cases hop
      exact fun _ => by decide

/-- A lookup of a handle that is not known leaves an entry, and the handle can no longer be
registered; a handle that is created there gets no bo; and an unlock of a handle that was
never locked is undefined. -/
theorem not_keeps_stray :
    (∃ s, run init [.unlock 1] = some s ∧ s.gbm_bo_handle_map 1 = some none ∧
      (gralloc_gbm_handle_register s 1 textureHandle fun _ => true).1 = -EINVAL ∧
      ¬ Keeps [.unlock 1]) ∧
    (∃ s, run init [.free 1, createTexture] = some s ∧ s.gbm_bo_handle_map 1 = some none) ∧
    run init [createTexture, .unlock 1] = none ∧ ¬ Keeps [createTexture, .unlock 1] := by
  refine ⟨⟨_, rfl, rfl, rfl, ?_⟩, ⟨_, rfl, rfl⟩, rfl, ?_⟩
  · intro h
    obtain ⟨s, hrun, hs⟩ := h.holds [.unlock 1] (List.prefix_refl _)
    cases hrun
    cases hs 1
  · intro h
    obtain ⟨s, hrun, -⟩ := h.holds _ (List.prefix_refl _)
    cases hrun

end Dragonboard.GrallocGbm
