/-
How far the counters of the decoder can get.

`qmi_decode` counts in `uint32_t` and hands its counts back as `int`, and the numbers in a table
are whatever its author wrote: an element of 2^31 times two bytes is copied in full while `rc` wraps
to zero. The embedding counts in natural numbers, so it is the program only where no counter gets
that far.

## What is proved here, and why in this shape

The `extent` of a table is the most that its elements can take, read off the table alone: a count
is at most `elem_len`, a string at most its field, a nested table at most its own extent. Nothing
about the message enters, so the bound holds of every message, of hostile ones too:

* at a nested level the decoder stays within the extent of what is left of the table
  (`elem_loop_within`), whatever `tlv_len` it was given. This matters because `tlv_len` itself may
  have wrapped to nearly 2^32 in front of a count;
* at level 1 every TLV starts inside the message, so the cursor ends at most one TLV behind it
  (`qmi_decode_within`): by the extent of the table if its type is known, by the 65535 bytes that a
  TLV can declare if it is not.

Every counter of the run is below what is bounded here, since each counts bytes that were read or
passed over; if the bound is below 2^31, none of them wraps or turns negative.
-/
import Dragonboard.Qmi

set_option autoImplicit false

namespace Dragonboard.Qmi

open Dragonboard.Memory Dragonboard.Memory.Traced

/-! ## Extents

A structure counts as a byte at least, so that the extent also bounds how often the loop over an
array of structures goes round: its index is an `int`. -/

/-- The most bytes an element can take, given the extent of its nested table. -/
def extent.elem (e : ElemInfo) (nested : ℕ) : ℕ :=
  match e.data_type with
  | .unsigned1Byte | .unsigned2Byte | .unsigned4Byte | .unsigned8Byte
  | .signed1ByteEnum | .signed2ByteEnum | .signed4ByteEnum => max 1 e.elem_len * e.elem_size
  | .struct => max 1 e.elem_len * max 1 nested
  | .string => 2 + e.elem_len * e.elem_size
  | .dataLen => 2
  | .optFlag | .eoti => 0

/-- The extent of a table whose nested tables have theirs. -/
def extent.table : List (ElemInfo × ℕ) → ℕ
  | [] => 0
  | e :: rest => extent.elem e.1 e.2 + extent.table rest

/-- The most bytes that the elements of a table can take. -/
def extent (ei_array : List ElemInfo) : ℕ := extent.table (resolve extent.table ei_array)

theorem extent_nil : extent [] = 0 := rfl

theorem extent_cons (e : ElemInfo) (rest : List ElemInfo) :
    extent (e :: rest) = extent.elem e (extent e.ei_array) + extent rest := by
  have hrest : (rest.map fun e => (e, extent.table (resolve extent.table e.ei_array))) =
      resolve extent.table rest := (resolve_eq_map extent.table rest).symm
  rw [extent, resolve_eq_map, List.map_cons, extent.table, hrest]
  rfl

theorem extent_append (es rest : List ElemInfo) : extent (es ++ rest) = extent es + extent rest := by
  induction es with
  | nil => rw [List.nil_append, extent_nil, Nat.zero_add]
  | cons e es ih => rw [List.cons_append, extent_cons, extent_cons, ih, Nat.add_assoc]

theorem extent_le_of_suffix {es tab : List ElemInfo} (h : es <:+ tab) : extent es ≤ extent tab := by
  obtain ⟨front, rfl⟩ := h
  rw [extent_append]
  exact Nat.le_add_left _ _

/-- The number of elements is at most what the table says, and one where it says nothing. -/
theorem count_within (k : ℕ) (e : ElemInfo) (v : ℕ) :
    Within k (qmi_decode.count e v) fun n => n ≤ max 1 e.elem_len := by
  unfold qmi_decode.count
  split
  · exact .pure (le_max_left _ _)
  · exact .pure (le_max_right _ _)
  · split
    · exact .fail _
    · exact .pure (by omega)

theorem basic_elem_within (buf : Mem) (dst p n sz : ℕ) {k : ℕ} (h : p + n * sz ≤ k) :
    Within k (qmi_decode_basic_elem buf dst p n sz) fun rc => rc = n * sz :=
  (Within.read h).bind fun _ _ => (Within.store dst _ (Q := fun _ => True) trivial).bind
    fun _ _ => .pure rfl

theorem string_len_sz_le (n : ℕ) : string_len_sz n ≤ 2 := by
  unfold string_len_sz
  split <;> omega

theorem data_len_sz_le (n : ℕ) : data_len_sz n ≤ 2 := by
  unfold data_len_sz
  split <;> omega

/-! ## A nested level

`Bounded` is what a nested decoder promises the level above it. The loops are bounded by induction on
what is left to do, and the promise is passed up the tables by `table_induction`. -/

/-- At a nested level the decoder takes no more than `budget` bytes. -/
def Bounded (d : Dec) (budget : ℕ) : Prop :=
  ∀ (buf : Mem) (out in_buf in_buf_len level : ℕ), 2 ≤ level →
    Within (in_buf + budget) (d buf out in_buf in_buf_len level) fun rc => rc ≤ budget

section Nested

variable (buf : Mem) {level : ℕ}

theorem struct_loop_within {d : Dec} {budget : ℕ} (hd : Bounded d budget) (hl : 2 ≤ level)
    (elem_size tlv_len n dst buf_src i bytes : ℕ) :
    Within (buf_src + n * budget)
      (qmi_decode_struct_elem.loop d buf elem_size tlv_len level n dst buf_src i bytes)
      fun r => r.2 ≤ bytes + n * budget := by
  induction n generalizing dst buf_src i bytes with
  | zero => exact .pure (Nat.le_add_right _ _)
  | succ n ih =>
    have hsucc : (n + 1) * budget = budget + n * budget := by rw [Nat.succ_mul, Nat.add_comm]
    rw [qmi_decode_struct_elem.loop, hsucc]
    split
    · refine ((hd buf dst buf_src (tlv_len - bytes) level hl).mono (by omega) fun _ h => h).bind
        fun rc hrc => ?_
      exact (ih (dst + elem_size) (buf_src + rc) (i + 1) (bytes + rc)).mono (by omega)
        fun r hr => by omega
    · exact .pure (Nat.le_add_right _ _)

theorem string_elem_within (e : ElemInfo) (dst buf_src tlv_len : ℕ) :
    Within (buf_src + (2 + e.elem_len * e.elem_size))
      (qmi_decode_string_elem e buf dst buf_src tlv_len level)
      fun rc => rc ≤ 2 + e.elem_len * e.elem_size := by
  have hsz := string_len_sz_le e.elem_len
  have hlen : Within (buf_src + (2 + e.elem_len * e.elem_size))
      (qmi_decode_string_elem.len e buf buf_src tlv_len level) fun r => r.1 ≤ 2 := by
    unfold qmi_decode_string_elem.len
    split
    · exact .pure (Nat.zero_le 2)
    · exact (Within.read (by omega)).bind fun _ _ => .pure hsz
  refine hlen.bind fun r hr => ?_
  obtain ⟨sz, len⟩ := r
  dsimp only at hr ⊢
  split
  · exact .fail _
  · split
    · exact .fail _
    · -- a string that is taken fits its field
      have hfield : len * e.elem_size ≤ e.elem_len * e.elem_size :=
        Nat.mul_le_mul_right _ (by omega)
      refine (basic_elem_within buf dst (buf_src + sz) len e.elem_size (by omega)).bind
        fun rc hrc => ?_
      exact (Within.store _ _ (Q := fun _ => True) trivial).bind fun _ _ => .pure (by omega)

theorem elem_within {e : ElemInfo × Dec} {nested : ℕ} (hd : Bounded e.2 nested) (hl : 1 ≤ level)
    (out : ℕ) (st : DecState) (hn : st.data_len_value ≤ max 1 e.1.elem_len) :
    Within (st.buf_src + extent.elem e.1 nested) (qmi_decode.elem buf out level e st)
      fun rc => rc ≤ extent.elem e.1 nested := by
  have hbasic : st.data_len_value * e.1.elem_size ≤ max 1 e.1.elem_len * e.1.elem_size :=
    Nat.mul_le_mul_right _ hn
  have hstructs : st.data_len_value * max 1 nested ≤ max 1 e.1.elem_len * max 1 nested :=
    Nat.mul_le_mul_right _ hn
  unfold qmi_decode.elem extent.elem
  cases e.1.data_type
  all_goals dsimp only
  case struct =>
    have hd' : Bounded e.2 (max 1 nested) := fun buf out in_buf in_buf_len level hlevel =>
      (hd buf out in_buf in_buf_len level hlevel).mono (by omega) fun _ h => by omega
    refine ((struct_loop_within buf hd' (by omega) e.1.elem_size st.tlv_len st.data_len_value
      (out + e.1.offset) st.buf_src 0 0).mono (by omega) fun _ h => h).bind fun r hr => ?_
    obtain ⟨i, bytes⟩ := r
    dsimp only at hr ⊢
    split
    · exact .fail _
    · exact .pure (by omega)
  case string => exact string_elem_within buf e.1 _ _ _
  case eoti => exact .fail _
  case optFlag => exact .fail _
  case dataLen => exact .fail _
  all_goals
    exact (basic_elem_within buf _ _ _ _ (by omega)).mono (le_refl _) fun rc hrc => by omega

/-- What an iteration of the decoder leaves of the table, and how far it moves the cursor: what it
takes comes off the extent. -/
structure Spends (ds ds' : List (ElemInfo × Dec)) (st st' : DecState) : Prop where
  rest : ds' <:+ ds
  extent : st'.buf_src + extent (ds'.map Prod.fst) ≤ st.buf_src + extent (ds.map Prod.fst)
  together : st'.decoded_bytes + st.buf_src = st.decoded_bytes + st'.buf_src

theorem opt_flag_within (k out : ℕ) (ds : List (ElemInfo × Dec)) :
    Within k (qmi_decode.opt_flag out ds) fun ds' => ds' <:+ ds := by
  cases ds with
  | nil => exact .pure List.suffix_rfl
  | cons d ds =>
    rw [qmi_decode.opt_flag]
    split
    · exact (Within.store _ _ (Q := fun _ => True) trivial).bind
        fun _ _ => .pure (List.suffix_cons _ _)
    · exact .pure List.suffix_rfl

theorem extent_map_le {ds ds' : List (ElemInfo × Dec)} (h : ds' <:+ ds) :
    extent (ds'.map Prod.fst) ≤ extent (ds.map Prod.fst) :=
  extent_le_of_suffix (h.map Prod.fst)

theorem data_len_within (out : ℕ) (ds : List (ElemInfo × Dec)) (st : DecState) :
    Within (st.buf_src + extent (ds.map Prod.fst)) (qmi_decode.data_len buf out st ds)
      fun r => Spends ds r.1 st r.2 := by
  cases ds with
  | nil => exact .pure ⟨List.suffix_rfl, le_refl _, rfl⟩
  | cons d ds =>
    have hsz := data_len_sz_le d.1.elem_size
    rw [qmi_decode.data_len]
    split
    · rename_i hlen
      have hcons : extent ((d :: ds).map Prod.fst) = 2 + extent (ds.map Prod.fst) := by
        rw [List.map_cons, extent_cons, extent.elem, hlen]
      rw [hcons]
      refine (Within.read (by omega)).bind fun _ _ => ?_
      refine (Within.store _ _ (Q := fun _ => True) trivial).bind fun _ _ => .pure ⟨?_, ?_, ?_⟩
      · exact List.suffix_cons _ _
      · rw [hcons]
        simp only [DecState.update]
        omega
      · simp only [DecState.update]
        omega
    · exact .pure ⟨List.suffix_rfl, le_refl _, rfl⟩

theorem body_within {ds : List (ElemInfo × Dec)}
    (hds : ∀ d ∈ ds, Bounded d.2 (extent d.1.ei_array)) (hl : 1 ≤ level) (out : ℕ) (st : DecState) :
    Within (st.buf_src + extent (ds.map Prod.fst)) (qmi_decode.body buf out level ds st)
      fun r => Spends ds r.1 st r.2 := by
  refine (opt_flag_within _ out ds).bind fun ds1 hds1 => ?_
  have hle1 := extent_map_le hds1
  refine ((data_len_within buf out ds1 st).mono (by omega) fun _ h => h).bind fun r hr => ?_
  obtain ⟨ds2, st2⟩ := r
  have hle2 := hr.extent
  have hmove := hr.together
  have hrest := hr.rest.trans hds1
  dsimp only at hle2 hmove hrest ⊢
  cases ds2 with
  | nil => exact .fail _
  | cons d ds2 =>
    rw [List.map_cons, extent_cons] at hle2
    have hd := hds d (hrest.subset List.mem_cons_self)
    refine (count_within _ d.1 st2.data_len_value).bind fun n hn => ?_
    refine ((elem_within buf hd hl out { st2 with data_len_value := n } hn).mono
      (by dsimp only; omega) fun _ h => h).bind fun rc hrc => .pure ⟨?_, ?_, ?_⟩
    · exact (List.suffix_cons d ds2).trans hrest
    · simp only [DecState.update]
      omega
    · simp only [DecState.update]
      omega

/-- A nested level stays within the extent of what is left of its table. -/
theorem elem_loop_within (hl : 2 ≤ level) (out in_buf_len n : ℕ) {ds : List (ElemInfo × Dec)}
    (hds : ∀ d ∈ ds, Bounded d.2 (extent d.1.ei_array)) (st : DecState) :
    Within (st.buf_src + extent (ds.map Prod.fst))
      (qmi_decode.elem_loop buf out in_buf_len level n ds st)
      fun rc => rc ≤ st.decoded_bytes + extent (ds.map Prod.fst) := by
  induction n generalizing ds st with
  | zero => exact .pure (Nat.le_add_right _ _)
  | succ n ih =>
    rw [qmi_decode.elem_loop]
    split
    · split
      · exact .pure (Nat.le_add_right _ _)
      · refine (body_within buf hds (by omega) out
          { st with tlv_len := in_buf_len - st.decoded_bytes }).bind fun r hr => ?_
        obtain ⟨ds', st'⟩ := r
        have hle := hr.extent
        have hmove := hr.together
        dsimp only at hle hmove ⊢
        have hds' : ∀ d ∈ ds', Bounded d.2 (extent d.1.ei_array) :=
          fun d hd => hds d (hr.rest.subset hd)
        exact (ih hds' st').mono hle fun rc hrc => by omega
    · exact .pure (Nat.le_add_right _ _)

end Nested

theorem table_bounded {ds : List (ElemInfo × Dec)}
    (hds : ∀ d ∈ ds, Bounded d.2 (extent d.1.ei_array)) :
    Bounded (qmi_decode.table ds) (extent (ds.map Prod.fst)) := by
  intro buf out in_buf in_buf_len level hl
  rw [qmi_decode.table, if_neg (by omega)]
  exact (elem_loop_within buf hl out in_buf_len ds.length hds (.init in_buf)).mono (le_refl _)
    fun rc hrc => by rwa [DecState.init, Nat.zero_add] at hrc

theorem resolve_map_fst (tab : List ElemInfo) : (resolve qmi_decode.table tab).map Prod.fst = tab := by
  rw [resolve_decode, List.map_map]
  exact List.map_id tab

/-- Every nested decoder stays within the extent of its table. -/
theorem decoders_bounded (tab : List ElemInfo) :
    ∀ d ∈ resolve qmi_decode.table tab, Bounded d.2 (extent d.1.ei_array) := by
  induction tab using table_induction with
  | nil => exact fun _ hd => by cases hd
  | cons e rest ihe ih =>
    intro d hd
    rw [resolve_decode, List.map_cons, ← resolve_decode] at hd
    rcases List.mem_cons.mp hd with rfl | hd
    · have hnested := table_bounded ihe
      rwa [resolve_map_fst] at hnested
    · exact ih d hd

/-! ## The message

At level 1 the cursor is inside the message before every TLV, so what counts is how far one of them
can take it. -/

theorem find_ei_suffix {tab temp_ei : List (ElemInfo × Dec)} {type : UInt8}
    (h : find_ei tab type = some temp_ei) : temp_ei <:+ tab := by
  induction tab with
  | nil => cases h
  | cons e tab ih =>
    rw [find_ei] at h
    split at h
    · cases h
      exact List.suffix_rfl
    · exact (ih h).trans (List.suffix_cons _ _)

theorem leNat_drop_lt (buf : Mem) (p : ℕ) : leNat ((bytesAt buf p TLV_SIZE).drop 1) ≤ 65535 := by
  have h1 := (buf (p + 1)).toNat_lt
  have h2 := (buf (p + 2)).toNat_lt
  show (buf (p + 1)).toNat + 256 * ((buf (p + 2)).toNat + 256 * 0) ≤ 65535
  omega

/-- The most that a TLV takes, with its header. -/
def tlvExtent (tab : List ElemInfo) : ℕ := TLV_SIZE + 65535 + extent tab

theorem tlv_within (tab : List ElemInfo) (buf : Mem) (out : ℕ) (st : DecState) :
    Within (st.buf_src + tlvExtent tab)
      (qmi_decode.tlv buf out (resolve qmi_decode.table tab) st)
      fun st' => st'.buf_src ≤ st.buf_src + tlvExtent tab ∧
        st'.decoded_bytes + st.buf_src = st.decoded_bytes + st'.buf_src := by
  have hheader : Within (st.buf_src + tlvExtent tab) (qmi_decode.header buf st.buf_src)
      fun r => r.2 ≤ 65535 := by
    refine (Within.read (by unfold tlvExtent; omega)).bind fun bs hbs => .pure ?_
    rw [hbs]
    exact leNat_drop_lt buf st.buf_src
  refine hheader.bind fun r hr => ?_
  obtain ⟨type, len⟩ := r
  dsimp only at hr ⊢
  split
  · split
    · exact .fail _
    · -- a TLV of an unknown optional type is passed over
      refine .pure ⟨?_, ?_⟩
      · simp only [DecState.update, tlvExtent]
        omega
      · simp only [DecState.update]
        omega
  · rename_i temp_ei hfind
    have hsuffix := find_ei_suffix hfind
    have hle : extent (temp_ei.map Prod.fst) ≤ extent tab := by
      have h := extent_map_le hsuffix
      rwa [resolve_map_fst] at h
    refine ((body_within buf (fun d hd => decoders_bounded tab d (hsuffix.subset hd)) (le_refl 1) out
      ({ st with tlv_len := len }.update TLV_SIZE)).mono ?_ fun _ h => h).bind fun r hr => .pure ?_
    · simp only [DecState.update, tlvExtent]
      omega
    · have hextent := hr.extent
      have hmove := hr.together
      simp only [DecState.update] at hextent hmove
      constructor
      · unfold tlvExtent
        omega
      · omega

theorem tlv_loop_within (tab : List ElemInfo) (buf : Mem) (out in_buf in_buf_len n : ℕ)
    (st : DecState) (hst : st.buf_src = in_buf + st.decoded_bytes)
    (hle : st.decoded_bytes ≤ in_buf_len + tlvExtent tab) :
    Within (in_buf + in_buf_len + tlvExtent tab)
      (qmi_decode.tlv_loop buf out in_buf_len (resolve qmi_decode.table tab) n st)
      fun rc => rc ≤ in_buf_len + tlvExtent tab := by
  induction n generalizing st with
  | zero => exact .pure hle
  | succ n ih =>
    rw [qmi_decode.tlv_loop]
    split
    · refine ((tlv_within tab buf out st).mono (by omega) fun _ h => h).bind fun st' hst' => ?_
      obtain ⟨hbound, hmove⟩ := hst'
      exact ih st' (by omega) (by omega)
    · exact .pure hle

/-- **The decoder ends at most one TLV behind the message**, whatever the message is: it reads no
further, and counts no further. -/
theorem qmi_decode_within (tab : List ElemInfo) (buf : Mem) (out in_buf in_buf_len : ℕ) :
    Within (in_buf + in_buf_len + tlvExtent tab) (qmi_decode tab buf out in_buf in_buf_len 1)
      fun rc => rc ≤ in_buf_len + tlvExtent tab :=
  tlv_loop_within tab buf out in_buf in_buf_len in_buf_len (.init in_buf) rfl (Nat.zero_le _)

end Dragonboard.Qmi
