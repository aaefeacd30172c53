/-
The buffers of `gralloc/gralloc_gbm.cpp`: the handle map, and the lock state of each bo.

A call passes the address of a handle, and `gralloc_handle` reads the handle behind it, so a
call here takes both. The addresses `gralloc_handle_create` returns and all that GBM answers
(a bo or none, a mapping or none) are part of the call. A bo that GBM creates or imports
is a new one. NULL is the address `0` of a handle, and `none` for any other pointer.

`gbm_bo_handle_map` tells a missing entry from an entry that holds NULL, since `count`,
`emplace` and `operator[]` do. What the C++ leaves undefined (a NULL `bo_data`, a division by
zero) ends the run: the result is `none`. The counter in `bo_data_t` is an `int` and wraps.

The log is left out, and so is the module's mutex (one call at a time).
-/
import Mathlib.Data.List.Induction
import Mathlib.Logic.Function.Basic
import Mathlib.Algebra.Ring.Int.Defs
import Mathlib.Algebra.Group.Nat.Defs

set_option autoImplicit false

namespace Dragonboard.GrallocGbm

/-! ## Formats and usages

The constants of gralloc and GBM that the code tests, and the maps between them. -/

/-- The `HAL_PIXEL_FORMAT`s the code names. -/
inductive PixelFormat where
  | RGBA_8888
  | RGBX_8888
  | RGB_888
  | RGB_565
  | BGRA_8888
  | YV12
  | YCbCr_422_SP
  | YCrCb_420_SP
  | YCbCr_422_I
  | other (code : ℤ)
deriving DecidableEq, Repr

/-- The `GBM_FORMAT`s, with `none` for the code `0`. -/
inductive GbmFormat where
  | ABGR8888
  | XBGR8888
  | RGB888
  | RGB565
  | ARGB8888
  | GR88
  | none
deriving DecidableEq, Repr

def get_gbm_format : PixelFormat → GbmFormat
  | .RGBA_8888 => .ABGR8888
  | .RGBX_8888 => .XBGR8888
  | .RGB_888 => .RGB888
  | .RGB_565 => .RGB565
  | .BGRA_8888 => .ARGB8888
  -- planar, but a single buffer
  | .YV12 => .GR88
  | _ => .none

def gralloc_gbm_get_bpp : PixelFormat → ℕ
  | .RGBA_8888 | .RGBX_8888 | .BGRA_8888 => 4
  | .RGB_888 => 3
  | .RGB_565 | .YCbCr_422_I => 2
  | .YV12 | .YCbCr_422_SP | .YCrCb_420_SP => 1
  | .other _ => 0

def GRALLOC_USAGE_SW_READ_OFTEN : UInt32 := 0x3

def GRALLOC_USAGE_SW_READ_MASK : UInt32 := 0xF

def GRALLOC_USAGE_SW_WRITE_OFTEN : UInt32 := 0x30

def GRALLOC_USAGE_SW_WRITE_MASK : UInt32 := 0xF0

def GRALLOC_USAGE_HW_TEXTURE : UInt32 := 0x100

def GRALLOC_USAGE_HW_RENDER : UInt32 := 0x200

def GRALLOC_USAGE_HW_COMPOSER : UInt32 := 0x800

def GRALLOC_USAGE_HW_FB : UInt32 := 0x1000

def GBM_BO_USE_SCANOUT : UInt32 := 0x1

def GBM_BO_USE_CURSOR : UInt32 := 0x2

def GBM_BO_USE_RENDERING : UInt32 := 0x4

def GBM_BO_USE_LINEAR : UInt32 := 0x10

def GBM_BO_TRANSFER_READ : UInt32 := 0x1

def GBM_BO_TRANSFER_WRITE : UInt32 := 0x2

def EINVAL : ℤ := 22

def ENOMEM : ℤ := 12

def get_pipe_bind (usage : UInt32) : UInt32 :=
  let bind : UInt32 := 0
  let bind :=
    if usage &&& (GRALLOC_USAGE_SW_READ_OFTEN ||| GRALLOC_USAGE_SW_WRITE_OFTEN) ≠ 0 then
      bind ||| GBM_BO_USE_LINEAR else bind
  let bind :=
    if usage &&& (GRALLOC_USAGE_HW_RENDER ||| GRALLOC_USAGE_HW_TEXTURE) ≠ 0 then
      bind ||| GBM_BO_USE_RENDERING else bind
  let bind := if usage &&& GRALLOC_USAGE_HW_FB ≠ 0 then bind ||| GBM_BO_USE_SCANOUT else bind
  if usage &&& GRALLOC_USAGE_HW_COMPOSER ≠ 0 then
    bind ||| (GBM_BO_USE_SCANOUT ||| GBM_BO_USE_RENDERING) else bind

/-! ## Handles, bos and the state

`gbm_bo_handle_map` leads from handles to bos, and `gbm_bo_set_user_data` attaches the lock state
to a bo. Both are part of the state; what GBM returns is an argument of each call. -/

/-- The address of a handle. -/
abbrev Handle := ℕ

/-- A bo, named by its turn among those GBM returned. -/
abbrev Bo := ℕ

/-- `struct gralloc_handle_t`. -/
structure GrallocHandle where
  prime_fd : ℤ
  width : ℤ
  height : ℤ
  format : PixelFormat
  usage : UInt32
  stride : ℕ
  modifier : ℕ
deriving DecidableEq, Repr

/-- `struct bo_data_t`. -/
structure BoData where
  map_data : Option ℕ
  lock_count : ℤ
  locked_for : UInt32
deriving DecidableEq, Repr

/-- The value of `new struct bo_data_t()`. -/
def BoData.new : BoData := { map_data := none, lock_count := 0, locked_for := 0 }

/-- `user_data` is what `gbm_bo_set_user_data` stored with each bo, `bos` counts the bos that
GBM returned. -/
structure State where
  gbm_bo_handle_map : Handle → Option (Option Bo)
  user_data : Bo → Option BoData
  bos : ℕ

def init : State where
  gbm_bo_handle_map := fun _ => none
  user_data := fun _ => none
  bos := 0

/-- A store through the `bo_data` of a bo. -/
def State.setData (s : State) (bo : Bo) (bo_data : BoData) : State :=
  { s with user_data := Function.update s.user_data bo (some bo_data) }

@[simp] theorem State.setData_map (s : State) (bo : Bo) (bo_data : BoData) :
    (s.setData bo bo_data).gbm_bo_handle_map = s.gbm_bo_handle_map := rfl

@[simp] theorem State.setData_bos (s : State) (bo : Bo) (bo_data : BoData) :
    (s.setData bo bo_data).bos = s.bos := rfl

@[simp] theorem State.setData_self (s : State) (bo : Bo) (bo_data : BoData) :
    (s.setData bo bo_data).user_data bo = some bo_data := by
  simp [State.setData]

theorem State.setData_other (s : State) {bo bo' : Bo} (h : bo' ≠ bo) (bo_data : BoData) :
    (s.setData bo bo_data).user_data bo' = s.user_data bo' := by
  simp [State.setData, Function.update_of_ne h]

theorem State.setData_eq_self {s : State} {bo : Bo} {bo_data : BoData}
    (h : s.user_data bo = some bo_data) : s.setData bo bo_data = s := by
  rw [State.setData, ← h, Function.update_eq_self]

theorem State.setData_setData (s : State) (bo : Bo) (bo_data bo_data' : BoData) :
    (s.setData bo bo_data).setData bo bo_data' = s.setData bo bo_data' := by
  simp [State.setData]

/-- An `int` that was counted past its range. -/
def int32 (n : ℤ) : ℤ := Int.bmod n (2 ^ 32)

def INT_MAX : ℤ := 2 ^ 31 - 1

/-- What `gbm_bo_import` is asked. -/
structure ImportRequest where
  width : ℤ
  height : ℤ
  format : GbmFormat
  fd : ℤ
  stride : ℕ
  modifier : ℕ
deriving DecidableEq, Repr

/-- What `gbm_bo_create` is asked. -/
structure CreateRequest where
  width : ℤ
  height : ℤ
  format : GbmFormat
  flags : UInt32
deriving DecidableEq, Repr

/-- What GBM says of a bo it created. -/
structure CreateReply where
  fd : ℤ
  stride : ℕ
  modifier : ℕ
deriving DecidableEq, Repr

/-- What `gbm_bo_map` is asked, from the corner `0, 0` on. -/
structure MapRequest where
  bo : Bo
  width : ℤ
  height : ℤ
  flags : UInt32
deriving DecidableEq, Repr

/-- What `gbm_bo_map` returns and stores in `map_data`. -/
structure MapReply where
  addr : ℕ
  map_data : ℕ
deriving DecidableEq, Repr

/-! ## The functions

The functions of `gralloc_gbm.cpp`, in its order. `none` is the dereference of a null pointer, or
the use of an entry that has no bo. -/

/-- `operator[]` of the map: a missing entry is made, and holds NULL. -/
def gralloc_gbm_bo_from_handle (s : State) (handle : Handle) : Option Bo × State :=
  match s.gbm_bo_handle_map handle with
  | some bo => (bo, s)
  | none => (none, { s with
      gbm_bo_handle_map := Function.update s.gbm_bo_handle_map handle (some none) })

/-- `emplace` of the map: an entry that is there stays as it is. -/
def emplace (s : State) (handle : Handle) (bo : Bo) : State :=
  match s.gbm_bo_handle_map handle with
  | some _ => s
  | none => { s with
      gbm_bo_handle_map := Function.update s.gbm_bo_handle_map handle (some (some bo)) }

/-- The request that `gbm_import` makes, if it makes one. -/
def gbm_import.request (handle : GrallocHandle) : Option ImportRequest :=
  if handle.prime_fd < 0 then none
  else
    let yv12 := handle.format = .YV12
    some
      { width := if yv12 then handle.width.tdiv 2 else handle.width
        height := if yv12 then handle.height + handle.height.tdiv 2 else handle.height
        format := get_gbm_format handle.format
        fd := handle.prime_fd
        stride := handle.stride
        modifier := handle.modifier }

/-- Whether `gbm_import` gets a bo. -/
def gbm_import.imports (handle : GrallocHandle) (bo_import : ImportRequest → Bool) : Bool :=
  (gbm_import.request handle).any bo_import

def gbm_import (s : State) (handle : GrallocHandle) (bo_import : ImportRequest → Bool) :
    Option Bo × State :=
  if gbm_import.imports handle bo_import then (some s.bos, { s with bos := s.bos + 1 })
  else (none, s)

/-- The request that `gbm_alloc` makes. -/
def gbm_alloc.request (handle : GrallocHandle) : CreateRequest :=
  let usage := get_pipe_bind handle.usage
  let cursor := usage &&& GBM_BO_USE_CURSOR ≠ 0
  let width := if cursor ∧ handle.width < 64 then 64 else handle.width
  let height := if cursor ∧ handle.height < 64 then 64 else handle.height
  let yv12 := handle.format = .YV12
  { width := if yv12 then width.tdiv 2 else width
    height := if yv12 then height + handle.height.tdiv 2 else height
    format := get_gbm_format handle.format
    flags := usage }

/-- The bo, and the handle with what GBM says of it filled in. -/
def gbm_alloc (s : State) (handle : GrallocHandle) (bo_create : CreateRequest → Option CreateReply) :
    Option (Bo × GrallocHandle) × State :=
  match bo_create (gbm_alloc.request handle) with
  | none => (none, s)
  | some reply =>
    (some (s.bos, { handle with
        prime_fd := reply.fd, stride := reply.stride, modifier := reply.modifier }),
      { s with bos := s.bos + 1 })

/-- `gbm_bo_destroy` frees the user data with the bo. -/
def gbm_free (s : State) (handle : Handle) : State :=
  match gralloc_gbm_bo_from_handle s handle with
  | (none, s) => s
  | (some bo, s) => { s with
      gbm_bo_handle_map := Function.update s.gbm_bo_handle_map handle none
      user_data := Function.update s.user_data bo none }

def gralloc_gbm_handle_register (s : State) (_handle : Handle) (handle : GrallocHandle)
    (bo_import : ImportRequest → Bool) : ℤ × State :=
  if _handle = 0 then (-EINVAL, s)
  else if (s.gbm_bo_handle_map _handle).isSome then (-EINVAL, s)
  else
    match gbm_import s handle bo_import with
    | (none, s) => (-EINVAL, s)
    | (some bo, s) => (0, emplace s _handle bo)

def gralloc_gbm_handle_unregister (s : State) (handle : Handle) : ℤ × State :=
  (0, gbm_free s handle)

/-- What `gralloc_handle_create` puts in a new handle. -/
def gralloc_handle_create (width height : ℤ) (format : PixelFormat) (usage : UInt32) :
    GrallocHandle :=
  { prime_fd := -1, width, height, format, usage, stride := 0, modifier := 0 }

/-- `handle` is the block that `gralloc_handle_create` returns, `0` if there is none. The
result is the handle and the stride in pixels. -/
def gralloc_gbm_bo_create (s : State) (handle : Handle) (width height : ℤ) (format : PixelFormat)
    (usage : UInt32) (bo_create : CreateRequest → Option CreateReply) :
    Option (Handle × Option ℕ × State) :=
  if handle = 0 then some (0, none, s)
  else
    match gbm_alloc s (gralloc_handle_create width height format usage) bo_create with
    | (none, s) => some (0, none, s)
    | (some (bo, ghandle), s) =>
      let s := emplace s handle bo
      let bpp := gralloc_gbm_get_bpp format
      if bpp = 0 then none
      else some (handle, some (ghandle.stride / bpp), s)

/-- The request that `gbm_map` makes. -/
def gbm_map.request (bo : Bo) (gbm_handle : GrallocHandle) (x y w h : ℤ) (enable_write : Bool) :
    MapRequest :=
  let yv12 := gbm_handle.format = .YV12
  { bo
    width := x + if yv12 then w.tdiv 2 else w
    height := y + if yv12 then h + h.tdiv 2 else h
    flags := if enable_write then GBM_BO_TRANSFER_READ ||| GBM_BO_TRANSFER_WRITE
      else GBM_BO_TRANSFER_READ }

/-- `gbm_map` for a bo and its data. -/
def gbm_map (s : State) (bo : Bo) (bo_data : BoData) (gbm_handle : GrallocHandle) (x y w h : ℤ)
    (enable_write : Bool) (bo_map : MapRequest → Option MapReply) : ℤ × Option ℕ × State :=
  if bo_data.map_data.isSome then (-EINVAL, none, s)
  else
    match bo_map (gbm_map.request bo gbm_handle x y w h enable_write) with
    | none => (-ENOMEM, none, s)
    | some reply =>
      (0, some reply.addr, s.setData bo { bo_data with map_data := some reply.map_data })

/-- The usages that need the bo in the processor's memory. -/
def SW_MASK : UInt32 := GRALLOC_USAGE_SW_WRITE_MASK ||| GRALLOC_USAGE_SW_READ_MASK

/-- The check of `gralloc_gbm_bo_lock` that the bo was made for the usage. -/
def gralloc_gbm_bo_lock.refuses (gbm_handle : GrallocHandle) (usage : UInt32) : Bool :=
  gbm_handle.usage &&& usage ≠ usage ∧ gbm_handle.usage &&& GRALLOC_USAGE_SW_READ_OFTEN = 0 ∧
    gbm_handle.usage &&& GRALLOC_USAGE_HW_FB = 0 ∧ gbm_handle.usage &&& GRALLOC_USAGE_HW_TEXTURE = 0

/-- The part of `gralloc_gbm_bo_lock` that maps the bo, if a usage needs it. -/
def gralloc_gbm_bo_lock.map (s : State) (bo : Bo) (bo_data : BoData) (gbm_handle : GrallocHandle)
    (usage : UInt32) (x y w h : ℤ) (bo_map : MapRequest → Option MapReply) :
    ℤ × Option ℕ × State :=
  if usage &&& SW_MASK ≠ 0 then
    let write : Bool := usage &&& GRALLOC_USAGE_SW_WRITE_MASK ≠ 0
    gbm_map s bo bo_data gbm_handle x y w h write bo_map
  else (0, none, s)

/-- The part of `gralloc_gbm_bo_lock` after the bo has its data. -/
def gralloc_gbm_bo_lock.take (s : State) (bo : Bo) (bo_data : BoData) (gbm_handle : GrallocHandle)
    (usage : UInt32) (x y w h : ℤ) (bo_map : MapRequest → Option MapReply) :
    ℤ × Option ℕ × State :=
  if bo_data.lock_count ≠ 0 ∧ bo_data.locked_for &&& usage ≠ usage then (-EINVAL, none, s)
  else
    let usage := usage ||| bo_data.locked_for
    let r := gralloc_gbm_bo_lock.map s bo bo_data gbm_handle usage x y w h bo_map
    if r.1 ≠ 0 then r
    else
      let s := r.2.2
      -- the data again, with the mapping
      let bo_data := (s.user_data bo).getD bo_data
      (0, r.2.1, s.setData bo
        { bo_data with
          lock_count := int32 (bo_data.lock_count + 1)
          locked_for := bo_data.locked_for ||| usage })

/-- The result is the error and the address that was stored, if one was. -/
def gralloc_gbm_bo_lock (s : State) (handle : Handle) (gbm_handle : GrallocHandle) (usage : UInt32)
    (x y w h : ℤ) (bo_map : MapRequest → Option MapReply) : ℤ × Option ℕ × State :=
  match gralloc_gbm_bo_from_handle s handle with
  | (none, s) => (-EINVAL, none, s)
  | (some bo, s) =>
    if gralloc_gbm_bo_lock.refuses gbm_handle usage then (-EINVAL, none, s)
    else
      match s.user_data bo with
      | some bo_data => gralloc_gbm_bo_lock.take s bo bo_data gbm_handle usage x y w h bo_map
      | none =>
        gralloc_gbm_bo_lock.take (s.setData bo .new) bo .new gbm_handle usage x y w h bo_map

/-- `gralloc_gbm_bo_unlock` for a bo and its data. -/
def gralloc_gbm_bo_unlock.release (bo_data : BoData) : BoData :=
  if bo_data.lock_count = 0 then bo_data
  else
    let mapped := bo_data.locked_for &&& SW_MASK ≠ 0
    let bo_data := if mapped then { bo_data with map_data := none } else bo_data
    let bo_data := { bo_data with lock_count := int32 (bo_data.lock_count - 1) }
    if bo_data.lock_count = 0 then { bo_data with locked_for := 0 } else bo_data

def gralloc_gbm_bo_unlock (s : State) (handle : Handle) : Option (ℤ × State) :=
  match gralloc_gbm_bo_from_handle s handle with
  | (none, s) => some (-EINVAL, s)
  | (some bo, s) =>
    match s.user_data bo with
    | none => none
    | some bo_data => some (0, s.setData bo (gralloc_gbm_bo_unlock.release bo_data))

/-! ## What the calls can do to the state

A lookup in the map may insert an entry, since it is done with `operator[]`. -/

theorem from_handle_user_data (s : State) (handle : Handle) :
    (gralloc_gbm_bo_from_handle s handle).2.user_data = s.user_data := by
  unfold gralloc_gbm_bo_from_handle
  split <;> rfl

theorem from_handle_live {s : State} {handle : Handle} {bo : Bo}
    (h : s.gbm_bo_handle_map handle = some (some bo)) :
    gralloc_gbm_bo_from_handle s handle = (some bo, s) := by
  simp only [gralloc_gbm_bo_from_handle, h]

theorem from_handle_some {s s' : State} {handle : Handle} {bo : Bo}
    (h : gralloc_gbm_bo_from_handle s handle = (some bo, s')) :
    s.gbm_bo_handle_map handle = some (some bo) ∧ s' = s := by
  unfold gralloc_gbm_bo_from_handle at h
  split at h
  · rename_i hbo
    cases h
    exact ⟨hbo, rfl⟩
  · cases h

theorem emplace_user_data (s : State) (handle : Handle) (bo : Bo) :
    (emplace s handle bo).user_data = s.user_data := by
  unfold emplace
  split <;> rfl

/-- Whether a create gets its handle and its bo. -/
def creates (handle : Handle) (width height : ℤ) (format : PixelFormat) (usage : UInt32)
    (bo_create : CreateRequest → Option CreateReply) : Bool :=
  handle ≠ 0 ∧
    (bo_create (gbm_alloc.request (gralloc_handle_create width height format usage))).isSome

/-- A create that gets no handle or no bo changes nothing. Else the new handle is added with the
new bo, and the stride is divided by the bytes of a pixel. -/
theorem create_cases (s : State) (handle : Handle) (width height : ℤ) (format : PixelFormat)
    (usage : UInt32) (bo_create : CreateRequest → Option CreateReply) :
    (creates handle width height format usage bo_create = false ∧
      gralloc_gbm_bo_create s handle width height format usage bo_create = some (0, none, s)) ∨
    (creates handle width height format usage bo_create = true ∧
      ((gralloc_gbm_get_bpp format = 0 ∧
          gralloc_gbm_bo_create s handle width height format usage bo_create = none) ∨
        (gralloc_gbm_get_bpp format ≠ 0 ∧ ∃ stride,
          gralloc_gbm_bo_create s handle width height format usage bo_create
            = some (handle, some stride, emplace { s with bos := s.bos + 1 } handle s.bos)))) := by
  unfold gralloc_gbm_bo_create gbm_alloc creates
  by_cases hnull : handle = 0
  · simp [hnull]
  · cases hbo : bo_create (gbm_alloc.request (gralloc_handle_create width height format usage)) with
    | none => simp [hnull]
    | some reply =>
      by_cases hbpp : gralloc_gbm_get_bpp format = 0
      · simp [hnull, hbpp]
      · simp [hnull, hbpp]

/-- A register fails and changes nothing, or it adds the handle with the new bo. -/
theorem register_cases (s : State) (_handle : Handle) (handle : GrallocHandle)
    (bo_import : ImportRequest → Bool) :
    (¬ (_handle ≠ 0 ∧ s.gbm_bo_handle_map _handle = none ∧ gbm_import.imports handle bo_import) ∧
      (gralloc_gbm_handle_register s _handle handle bo_import).1 ≠ 0 ∧
      (gralloc_gbm_handle_register s _handle handle bo_import).2 = s) ∨
    ((_handle ≠ 0 ∧ s.gbm_bo_handle_map _handle = none ∧ gbm_import.imports handle bo_import) ∧
      (gralloc_gbm_handle_register s _handle handle bo_import).1 = 0 ∧
      (gralloc_gbm_handle_register s _handle handle bo_import).2
        = emplace { s with bos := s.bos + 1 } _handle s.bos) := by
  have herr : -EINVAL ≠ 0 := by decide
  unfold gralloc_gbm_handle_register gbm_import
  by_cases hnull : _handle = 0
  · simp [hnull, herr]
  · cases hmap : s.gbm_bo_handle_map _handle with
    | some bo => simp [hnull, herr]
    | none =>
      cases himp : gbm_import.imports handle bo_import with
      | true => simp [hnull]
      | false => simp [hnull, herr]

/-! ## Runs

The calls of the module in any order, on any addresses. -/

/-- A call of the module, with the handle that is found at the address and with what the
allocator and GBM answer. -/
inductive Op where
  | create (handle : Handle) (width height : ℤ) (format : PixelFormat) (usage : UInt32)
      (bo_create : CreateRequest → Option CreateReply)
  | register (_handle : Handle) (handle : GrallocHandle) (bo_import : ImportRequest → Bool)
  | unregister (handle : Handle)
  | free (handle : Handle)
  | lock (handle : Handle) (gbm_handle : GrallocHandle) (usage : UInt32) (x y w h : ℤ)
      (bo_map : MapRequest → Option MapReply)
  | unlock (handle : Handle)

def step (s : State) : Op → Option State
  | .create handle width height format usage bo_create =>
    (gralloc_gbm_bo_create s handle width height format usage bo_create).map (·.2.2)
  | .register _handle handle bo_import => some (gralloc_gbm_handle_register s _handle handle bo_import).2
  | .unregister handle => some (gralloc_gbm_handle_unregister s handle).2
  | .free handle => some (gbm_free s handle)
  | .lock handle gbm_handle usage x y w h bo_map =>
    some (gralloc_gbm_bo_lock s handle gbm_handle usage x y w h bo_map).2.2
  | .unlock handle => (gralloc_gbm_bo_unlock s handle).map (·.2)

/-- A create changes nothing, or adds its handle with a new bo. -/
theorem step_create {s s' : State} {handle : Handle} {width height : ℤ} {format : PixelFormat}
    {usage : UInt32} {bo_create : CreateRequest → Option CreateReply}
    (h : step s (.create handle width height format usage bo_create) = some s') :
    s' = s ∨ s' = emplace { s with bos := s.bos + 1 } handle s.bos := by
  rw [step] at h
  rcases create_cases s handle width height format usage bo_create with
    ⟨-, he⟩ | ⟨-, ⟨-, he⟩ | ⟨-, stride, he⟩⟩
  · rw [he] at h
    cases h
    exact .inl rfl
  · rw [he] at h
    cases h
  · rw [he] at h
    cases h
    exact .inr rfl

/-- And so does a register. -/
theorem step_register {s s' : State} {_handle : Handle} {handle : GrallocHandle}
    {bo_import : ImportRequest → Bool} (h : step s (.register _handle handle bo_import) = some s') :
    s' = s ∨ s' = emplace { s with bos := s.bos + 1 } _handle s.bos := by
  cases h
  rcases register_cases s _handle handle bo_import with ⟨-, -, he⟩ | ⟨-, -, he⟩
  · exact .inl he
  · exact .inr he

def run (s : State) (ops : List Op) : Option State := ops.foldlM step s

@[simp] theorem run_nil (s : State) : run s [] = some s := rfl

theorem run_cons (s : State) (op : Op) (ops : List Op) :
    run s (op :: ops) = (step s op).bind (run · ops) := rfl

theorem run_append (s : State) (ops ops' : List Op) :
    run s (ops ++ ops') = (run s ops).bind (run · ops') := by
  simp only [run, List.foldlM_append]
  rfl

theorem run_append_singleton (s : State) (ops : List Op) (op : Op) :
    run s (ops ++ [op]) = (run s ops).bind (step · op) := by
  rw [run_append]
  congr 1
  funext s'
  rw [run_cons]
  cases step s' op <;> rfl

end Dragonboard.GrallocGbm
