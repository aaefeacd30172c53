/-
Which rmtfs requests are complete when they are accepted.

`qmi_rmtfs.qmi` calls the fields of the five requests `required`. The decoder knows nothing of that:
it goes through the TLVs that are there, and a handler that got no error finds the zeros
of its own initialisation where a TLV was missing. Nor does it count the entries of an iovec: at
level 2 `qmi_decode_struct_elem` only asks whether the bytes of the TLV are used up, so that
`iovec_len` may announce more entries than came, and the last one may be cut off after any of
its words. And a number is read with the size of its element, whatever its TLV declares.

So a payload is either refused, at some TLV, or it has to be whole by itself (`Whole`). The
theorem says that an accepted request is complete exactly in these two cases.
-/
import Dragonboard.QmiOrder

set_option autoImplicit false

namespace Dragonboard.Qmi

open Dragonboard.Memory

/-! ## Requests

The five requests of the remote file system, with the tables their handlers decode them with and
the TLVs that `qmi_rmtfs.qmi` calls required. -/

/-- `QMI_REQUEST`. -/
def QMI_REQUEST : ℕ := 0

/-- The requests of `qmi_rmtfs.qmi`. -/
inductive Request where
  | open_req
  | close_req
  | iovec_req
  | alloc_buf_req
  | dev_error_req
deriving DecidableEq, Repr

namespace Request

/-- The message of a request. -/
def message : Request → Message
  | open_req => .rmtfs_open_req
  | close_req => .rmtfs_close_req
  | iovec_req => .rmtfs_iovec_req
  | alloc_buf_req => .rmtfs_alloc_buf_req
  | dev_error_req => .rmtfs_dev_error_req

/-- `QMI_RMTFS_OPEN`, `QMI_RMTFS_CLOSE`, `QMI_RMTFS_RW_IOVEC`, `QMI_RMTFS_ALLOC_BUFF` and
`QMI_RMTFS_GET_DEV_ERROR`. -/
def id : Request → ℕ
  | open_req => 1
  | close_req => 2
  | iovec_req => 3
  | alloc_buf_req => 4
  | dev_error_req => 5

/-- The types of the TLVs that `qmi_rmtfs.qmi` requires. -/
def required : Request → List UInt8
  | open_req => [1]
  | close_req => [1]
  | iovec_req => [1, 2, 3, 4]
  | alloc_buf_req => [1, 2]
  | dev_error_req => [1]

/-- The descriptor table of a request. -/
def ei (r : Request) : List ElemInfo := r.message.ei

end Request

/-- The packet is the request with the TLVs of `ts` as its payload. -/
structure IsRequest (r : Request) (ts : List Tlv) (data : Mem) (data_len : ℕ) : Prop where
  type : leNat (bytesAt data 0 1) = QMI_REQUEST
  id : leNat (bytesAt data 3 2) = r.id
  payload : Holds data QMI_HEADER_SIZE (wireOf ts)
  len : data_len = QMI_HEADER_SIZE + (wireOf ts).length
  uint32 : data_len < 2 ^ 32

/-- `qmi_decode_message` as the handler of the request calls it. -/
def decodeRequest (r : Request) (data : Mem) (data_len c_struct : ℕ) : Traced ℕ :=
  (qmi_decode_message data data_len QMI_REQUEST r.id c_struct r.ei).2

/-! ## Complete requests

The decoder does not know which TLVs are required, and it takes a number by the size in its table
and not by the length of its TLV. `Complete` is what a handler relies on nevertheless; `Whole`
says the same of the payload, and so can be checked before anything is decoded. -/

/-- The last TLV of a type. -/
def lastTlv (ts : List Tlv) (type : UInt8) : Option Tlv := ts.reverse.find? fun t => t.type = type

/-- `iovec_len` of the `struct rmtfs_iovec_req` at `base`. -/
def iovec_len (s : Mem) (base : ℕ) : ℕ := leNat (bytesAt s (base + offsetof rmtfs_iovec_req 2) 8)

/-- The payload had exactly `iovec_len` whole entries, and they are in `iovec`. The last TLV counts
if there are several. -/
def IovecComplete (ts : List Tlv) (s : Mem) (base : ℕ) : Prop :=
  ∃ t, lastTlv ts 3 = some t ∧ ∃ count entries, t.value = count :: entries ∧
    count.toNat = iovec_len s base ∧ entries.length = sizeof rmtfs_iovec_entry * iovec_len s base ∧
    Holds s (base + offsetof rmtfs_iovec_req 3) entries

/-- What a handler relies on: every known TLV was taken by its length, so that no value is decoded
from a part of it or runs into the next one; no required TLV was missing; and the iovec is
complete. -/
structure Complete (r : Request) (ts : List Tlv) (data : Mem) (data_len base : ℕ) : Prop where
  taken : Advances data base (wireOf ts).length (resolve qmi_decode.table r.ei)
    (wireOf ts).length (.init QMI_HEADER_SIZE)
  present : ∀ k ∈ r.required, ∃ t ∈ ts, t.type = k
  iovec : r = .iovec_req →
    IovecComplete ts (applyStores (fun _ => 0) (decodeRequest r data data_len base).stores) base

/-- Every TLV of a single number has the length of the number. -/
def Sized (gs : List Group) (ts : List Tlv) : Prop :=
  ∀ t ∈ ts, ∀ g ∈ gs, g.type = t.type → g.elem.data_type.isBasic → t.value.length = g.elem.elem_size

/-- A payload that is complete by itself: numbers of their sizes, all required TLVs, and an iovec
with as many whole entries as it announces. -/
structure Whole (r : Request) (ts : List Tlv) : Prop where
  sized : Sized (groupsOf r.ei) ts
  present : ∀ k ∈ r.required, ∃ t ∈ ts, t.type = k
  iovec : r = .iovec_req → ∃ t, lastTlv ts 3 = some t ∧ ∃ count entries,
    t.value = count :: entries ∧ entries.length = sizeof rmtfs_iovec_entry * count.toNat

/-! ## What the TLVs of a request take

The tables of the requests hold numbers, strings and one array of structures. Arrays and strings
are limited by their TLV, so that an accepted one is taken as declared, and only numbers can be
out of step with it. -/

namespace Request

/-- The groups of the requests: a number, a string, or a counted array of at most 255
structures. -/
theorem groups_shape (r : Request) : ∀ g ∈ groupsOf r.ei,
    (g.elem.data_type.isBasic → g.elem.array_type = .noArray ∧ g.len = none) ∧
    (g.elem.data_type = .string → g.elem.elem_size = 1 ∧ g.len = none) ∧
    (g.elem.data_type = .struct → g.elem.array_type = .varLenArray ∧ g.elem.elem_len = 255 ∧
      g.len.isSome) := by
  cases r <;> decide +kernel

/-- The only structures are the entries of the iovec. -/
theorem groups_struct (r : Request) : ∀ g ∈ groupsOf r.ei, g.elem.data_type = .struct →
    g.elem.ei_array = rmtfs_iovec_entry_ei := by
  have hiovec : ∀ g ∈ groupsOf Request.iovec_req.ei, g.elem.data_type = .struct →
      g.elem.ei_array = rmtfs_iovec_entry_ei := by
    intro g hg hs
    simp only [ei, message, Message.ei, groupsOf, rmtfs_iovec_req_ei, groupsOf.loop,
      List.mem_cons, List.not_mem_nil, or_false] at hg
    rcases hg with rfl | rfl | rfl | rfl
    · cases hs
    · cases hs
    · rfl
    · cases hs
  have hother : ∀ r' : Request, r' ≠ .iovec_req → ∀ g ∈ groupsOf r'.ei,
      g.elem.data_type ≠ .struct := by
    intro r' hr'
    cases r' with
    | iovec_req => exact absurd rfl hr'
    | _ => decide +kernel
  intro g hg hs
  by_cases hr : r = .iovec_req
  · subst hr
    exact hiovec g hg hs
  · exact absurd hs (hother r hr g hg)

end Request

theorem entry_span_le {buf : Mem} {p len level rc : ℕ}
    (h : span.table (spans rmtfs_iovec_entry_ei) buf p len level = some rc) : rc ≤ 12 := by
  rw [spans_eq] at h
  simp only [span.table, rmtfs_iovec_entry_ei, List.map_cons, List.map_nil, List.length_cons,
    List.length_nil, span.elems, span.body, span.flag, span.len, span.counted, span.count,
    span.elem, reduceCtorEq, if_false, List.isEmpty_cons, Bool.false_eq_true,
    not_false_eq_true, and_true, Option.bind_some] at h
  split_ifs at h <;> simp only [Option.some.injEq] at h <;> omega

/-- A bound for an array of structures from a bound for one. -/
theorem structs_le {nested : ℕ → ℕ → Option ℕ} {k : ℕ}
    (h : ∀ p len rc, nested p len = some rc → rc ≤ k) (p tlv_len n : ℕ) (c r : ℕ × ℕ)
    (hr : span.structs nested p tlv_len n c = some r) : r.2 ≤ c.2 + n * k := by
  induction n generalizing c with
  | zero =>
    cases hr
    omega
  | succ n ih =>
    rw [span.structs] at hr
    have hmul : (n + 1) * k = n * k + k := Nat.succ_mul n k
    split at hr
    · obtain ⟨rc, hrc, hr⟩ := Option.bind_eq_some_iff.mp hr
      have h1 := h _ _ _ hrc
      have h2 := ih (c.1 + 1, c.2 + rc) hr
      simp only at h2
      omega
    · cases hr
      omega

section Taken

variable (r : Request) {buf : Mem} {out : ℕ}

theorem span_elem_basic {e : ElemInfo × Span} (hk : e.1.data_type.isBasic)
    {level p tlv_len n bytes : ℕ} (h : span.elem buf level e p tlv_len n = some bytes) :
    bytes = n * e.1.elem_size := by
  unfold span.elem at h
  cases ht : e.1.data_type <;> simp [ht, ElemType.isBasic] at hk h <;> omega

/-- The entries of an iovec end where its TLV does, and the length of the TLV cannot be zero: it
would wrap to more bytes than 255 entries have. -/
theorem span_entries_end {p tlv_len n bytes : ℕ} (hlen : tlv_len < 2 ^ 16) (hn : n ≤ 255)
    (h : span.struct (fun p len => span.table (spans rmtfs_iovec_entry_ei) buf p len 2) p
      (wsub tlv_len 1) n 2 = some bytes) : 1 + bytes = tlv_len := by
  obtain ⟨c, hc, hbytes⟩ := Option.bind_eq_some_iff.mp h
  have hle := structs_le (fun p len rc h => entry_span_le h) _ _ _ _ _ hc
  simp only at hle
  split at hbytes
  · cases hbytes
  · rename_i hcond
    cases hbytes
    have hend : c.2 = wsub tlv_len 1 := by
      by_contra hne
      exact hcond (.inl ⟨le_refl 2, hne⟩)
    rcases Nat.eq_zero_or_pos tlv_len with h0 | hpos
    · rw [hend, h0] at hle
      unfold wsub at hle
      omega
    · rw [hend, wsub_of_le hpos (by omega)]
      omega

/-- An accepted TLV takes what it declares, unless it is a number: that takes its size. -/
theorem request_taken {pos v : ℕ} (hv : v ≤ 255) {b : ℕ × ℕ}
    (hb : tlvSpan (spans r.ei) buf pos v = some b) :
    (∃ g ∈ groupsOf r.ei, g.type = buf pos ∧ g.elem.data_type.isBasic ∧
        b.1 = g.elem.elem_size) ∨
      ((∀ g ∈ groupsOf r.ei, g.type = buf pos → ¬ g.elem.data_type.isBasic) ∧
        b.1 = declaredLen buf pos) := by
  have hei : r.ei = messageTable (groupsOf r.ei) := r.message.ei_eq
  have hfits : MessageFits r.message.width (groupsOf r.ei) := r.message.fits
  rw [tlvSpan, hei, spans_eq] at hb
  rcases find_group hfits.shaped hfits.types (buf pos) with ⟨g, hg, htype, rest, -, hfind⟩ | ⟨hno, hfind⟩
  swap
  · refine .inr ⟨fun g hg htype => absurd htype (hno g hg), ?_⟩
    rw [hfind] at hb
    simp only at hb
    split at hb
    · cases hb
    · cases hb
      rfl
  have hfit := hfits.groups g hg
  obtain ⟨hbasic, hstring, hstruct⟩ := r.groups_shape g hg
  have honly : ¬ g.elem.data_type.isBasic → ∀ g' ∈ groupsOf r.ei, g'.type = buf pos →
      ¬ g'.elem.data_type.isBasic := by
    intro hnot g' hg' htype'
    rwa [List.inj_on_of_nodup_map hfits.types hg' hg (htype'.trans htype.symm)]
  rw [hfind] at hb
  simp only [span.body, group_flag hfit.shaped, group_len hfit _ _ _ hv, span.counted, List.map_cons,
    Option.bind_eq_some_iff] at hb
  obtain ⟨c, ⟨n, hn, bytes, hbytes, hc⟩, hb⟩ := hb
  cases hc
  cases hb
  simp only
  rcases hfit.kind with hk | hk | hk
  · -- a number
    obtain ⟨harray, hlen⟩ := hbasic hk
    refine .inl ⟨g, hg, htype, hk, ?_⟩
    simp only [span.count, harray, Option.some.injEq] at hn
    rw [hlen, span_elem_basic hk hbytes, ← hn]
    simp
  · -- the iovec
    obtain ⟨harray, hlen255, hlen⟩ := hstruct hk
    refine .inr ⟨honly (by simp [hk, ElemType.isBasic]), ?_⟩
    obtain ⟨l, hl⟩ := Option.isSome_iff_exists.mp hlen
    have hn255 : n ≤ 255 := group_count_le hfit hv hn
    rw [hl] at hbytes ⊢
    simp only [Option.toList_some, List.length_singleton, one_ne_zero, if_false, span.elem, hk,
      r.groups_struct g hg hk] at hbytes ⊢
    have hdecl : declaredLen buf pos < 2 ^ 16 := by
      have := leNat_lt (bytesAt buf (pos + 1) 2)
      rw [bytesAt_length] at this
      exact this
    exact span_entries_end hdecl hn255 hbytes
  · -- a string
    obtain ⟨hsize, hlen⟩ := hstring hk
    refine .inr ⟨honly (by simp [hk, ElemType.isBasic]), ?_⟩
    rw [hlen] at hbytes ⊢
    simp only [Option.toList_none, List.length_nil, if_true, span.elem, hk, span.string,
      hsize, Nat.zero_add, Nat.mul_one] at hbytes ⊢
    split at hbytes
    · cases hbytes
    · exact (Option.some.inj hbytes).symm

/-- An accepted TLV is taken by its length, or it is a number of another size: then it is known,
and both sides of `advances_iff_sized` fail for it. -/
theorem taken_iff {t : Tlv} {pos v : ℕ} (hv : v ≤ 255) (htype : buf pos = t.type)
    (hdecl : declaredLen buf pos = t.value.length) {b : ℕ × ℕ}
    (hb : tlvSpan (spans r.ei) buf pos v = some b) :
    (((find_ei (resolve qmi_decode.table r.ei) t.type).isSome → b.1 = t.value.length) ↔
        b.1 = t.value.length) ∧
      ((∀ g ∈ groupsOf r.ei, g.type = t.type → g.elem.data_type.isBasic →
        t.value.length = g.elem.elem_size) ↔ b.1 = t.value.length) := by
  have hei : r.ei = messageTable (groupsOf r.ei) := r.message.ei_eq
  have hfits : MessageFits r.message.width (groupsOf r.ei) := r.message.fits
  have htaken := request_taken r hv hb
  rw [htype, hdecl] at htaken
  rcases htaken with ⟨g, hg, hgt, hk, hsize⟩ | ⟨hno, hsize⟩
  · constructor
    · have hfind : (find_ei (resolve qmi_decode.table r.ei) t.type).isSome := by
        rw [hei]
        refine find_known hfits ?_
        simp only [known, decide_eq_true_eq]
        exact List.mem_map.mpr ⟨g, hg, hgt⟩
      exact ⟨fun h => h hfind, fun h _ => h⟩
    · refine ⟨fun h => by rw [hsize, h g hg hgt hk], fun h g' hg' hgt' _ => ?_⟩
      rw [List.inj_on_of_nodup_map hfits.types hg' hg (hgt'.trans hgt.symm), ← hsize, h]
  · refine ⟨⟨fun _ => hsize, fun h _ => h⟩, fun _ => hsize, ?_⟩
    exact fun _ g hg hgt hk => absurd hk (hno g hg hgt)

/-- An accepted request is taken by its lengths exactly if its numbers have their sizes. -/
theorem advances_iff_sized {ts : List Tlv} {limit n m : ℕ} {st : DecState}
    (h : Ahead buf ts limit n st)
    (hok : (qmi_decode.tlv_loop buf out limit (resolve qmi_decode.table r.ei) n st).result =
      .ok m) :
    Advances buf out limit (resolve qmi_decode.table r.ei) n st ↔ Sized (groupsOf r.ei) ts := by
  have hei : r.ei = messageTable (groupsOf r.ei) := r.message.ei_eq
  have hfits : MessageFits r.message.width (groupsOf r.ei) := r.message.fits
  induction ts generalizing n st with
  | nil =>
    refine ⟨fun _ t ht => absurd ht List.not_mem_nil, fun _ => ?_⟩
    have hend := h.done
    cases n with
    | zero => trivial
    | succ n => exact fun hlt => absurd hlt (by omega)
  | cons t ts ih =>
    obtain ⟨hlt, hbuf, n, rfl, hnext⟩ := h.next
    rw [qmi_decode.tlv_loop, if_pos hlt] at hok
    obtain ⟨st₁, hok₁, hrest⟩ := Traced.bind_result_ok.mp hok
    obtain ⟨htype, hdecl⟩ := Tlv.holds_header hbuf
    obtain ⟨b, hb, hcount, hsrc, hdec, -⟩ := (tlv_span buf out (paired_spans r.ei) st).of_ok hok₁
    have hstep := taken_iff r h.count htype hdecl hb
    -- both sides ask the same of the first TLV, and then of the rest
    have hadv : Advances buf out limit (resolve qmi_decode.table r.ei) (n + 1) st ↔
        b.1 = t.value.length ∧ Advances buf out limit (resolve qmi_decode.table r.ei) n st₁ := by
      rw [Advances, htype, hdecl, ← hstep.1]
      constructor
      · intro h
        obtain ⟨hmove, hadv⟩ := h hlt st₁ hok₁
        refine ⟨fun hfind => ?_, hadv⟩
        have := hmove hfind
        omega
      · rintro ⟨hmove, hadv⟩ - st' hst'
        rw [hok₁] at hst'
        cases hst'
        refine ⟨fun hfind => ?_, hadv⟩
        rw [hsrc, hmove hfind]
    have hsized : Sized (groupsOf r.ei) (t :: ts) ↔
        b.1 = t.value.length ∧ Sized (groupsOf r.ei) ts := by
      rw [Sized, List.forall_mem_cons, hstep.2]
      rfl
    rw [hadv, hsized]
    refine and_congr_right fun hwhole => ?_
    have hpos := t.bytes_length
    -- a count of one byte is what the next TLV finds
    have hcount' : st₁.data_len_value ≤ 255 := by
      rw [hcount]
      rw [hei] at hb
      exact tlvSpan_count_le hfits h.count hb
    exact ih (hnext st₁ (by omega) (by omega) hcount') hrest

end Taken

/-! ## The entries of an iovec

The entries are three words each. If the TLV has a count and as many whole entries as the count
says, the loop over the structures stops at the end of the TLV, with all entries in place. -/

/-- A word of a nested structure, with room left for it. -/
theorem elem_loop_word (buf : Mem) (out len level n offset : ℕ) (d : Dec)
    (rest : List (ElemInfo × Dec)) (st : DecState) (hlt : st.decoded_bytes < len) :
    let x := qmi_decode.elem_loop buf out len level (n + 1)
      ((⟨.unsigned4Byte, 1, 4, .noArray, 0, offset, []⟩, d) :: rest) st
    let y := qmi_decode.elem_loop buf out len level n rest
      ⟨1, len - st.decoded_bytes, st.buf_src + 4, st.decoded_bytes + 4⟩
    x.result = y.result ∧
      x.stores = ⟨out + offset, bytesAt buf st.buf_src 4⟩ :: y.stores := by
  intro x y
  have hx : x = qmi_decode_basic_elem buf (out + offset) st.buf_src 1 4 >>= fun rc =>
      qmi_decode.elem_loop buf out len level n rest
        ⟨1, len - st.decoded_bytes, st.buf_src + rc, st.decoded_bytes + rc⟩ := by
    simp only [x]
    rw [qmi_decode.elem_loop, if_pos hlt]
    simp only [List.isEmpty_cons, Bool.false_eq_true, if_false, qmi_decode.body,
      qmi_decode.opt_flag, qmi_decode.data_len, qmi_decode.count, qmi_decode.elem,
      reduceCtorEq, pure_bind, bind_assoc, DecState.update]
  rw [hx, Traced.bind_of_ok (basic_elem_result _ _ _ _ _)]
  exact ⟨rfl, rfl⟩

/-- One entry: its three words, at their offsets. -/
theorem entry_decode (buf : Mem) (dst p len : ℕ) (hlen : 12 ≤ len) :
    (qmi_decode rmtfs_iovec_entry_ei buf dst p len 2).result = .ok 12 ∧
      Places dst (qmi_decode rmtfs_iovec_entry_ei buf dst p len 2).stores (bytesAt buf p 12) := by
  have htab : qmi_decode rmtfs_iovec_entry_ei buf dst p len 2 =
      qmi_decode.elem_loop buf dst len 2 3
        (rmtfs_iovec_entry_ei.map fun e => (e, qmi_decode e.ei_array)) ⟨0, 0, p, 0⟩ := by
    rw [qmi_decode_eq]
    rfl
  obtain ⟨hres₁, hstores₁⟩ := elem_loop_word buf dst len 2 2 0 (qmi_decode [])
    ((rmtfs_iovec_entry_ei.drop 1).map fun e => (e, qmi_decode e.ei_array)) ⟨0, 0, p, 0⟩
    (by simp only; omega)
  obtain ⟨hres₂, hstores₂⟩ := elem_loop_word buf dst len 2 1 4 (qmi_decode [])
    ((rmtfs_iovec_entry_ei.drop 2).map fun e => (e, qmi_decode e.ei_array))
    ⟨1, len - 0, p + 4, 0 + 4⟩ (by simp only; omega)
  obtain ⟨hres₃, hstores₃⟩ := elem_loop_word buf dst len 2 0 8 (qmi_decode []) []
    ⟨1, len - (0 + 4), p + 4 + 4, 0 + 4 + 4⟩ (by simp only; omega)
  have hres : (qmi_decode rmtfs_iovec_entry_ei buf dst p len 2).result = .ok 12 :=
    (congrArg Traced.result htab).trans (hres₁.trans (hres₂.trans hres₃))
  have hstores : (qmi_decode rmtfs_iovec_entry_ei buf dst p len 2).stores =
      [⟨dst, bytesAt buf p 4⟩] ++ ([⟨dst + 4, bytesAt buf (p + 4) 4⟩] ++
        [⟨dst + 8, bytesAt buf (p + 4 + 4) 4⟩]) :=
    (congrArg Traced.stores htab).trans
      (hstores₁.trans (congrArg _ (hstores₂.trans (congrArg _ hstores₃))))
  refine ⟨hres, ?_⟩
  rw [hstores, show (12 : ℕ) = 4 + 4 + 4 from rfl, bytesAt_add, bytesAt_add, List.append_assoc]
  refine (Places.single dst (bytesAt buf p 4)).append ?_
  rw [bytesAt_length]
  refine (Places.single (dst + 4) (bytesAt buf (p + 4) 4)).append ?_
  rw [bytesAt_length]
  exact Places.single (dst + 8) (bytesAt buf (p + 4 + 4) 4)

/-- All entries of an iovec, one after the other. -/
theorem entries_decode (buf : Mem) (tlv_len p n dst i bytes : ℕ)
    (hlen : bytes + n * 12 ≤ tlv_len) :
    let x := qmi_decode_struct_elem.loop (qmi_decode rmtfs_iovec_entry_ei) buf 12 tlv_len 2 n dst
      (p + bytes) i bytes
    x.result = .ok (i + n, bytes + n * 12) ∧
      Places dst x.stores (bytesAt buf (p + bytes) (n * 12)) := by
  induction n generalizing dst i bytes with
  | zero =>
    rw [qmi_decode_struct_elem.loop, Nat.zero_mul]
    exact ⟨rfl, Places.nil dst⟩
  | succ n ih =>
    have hmul : (n + 1) * 12 = 12 + n * 12 := by omega
    rw [hmul] at hlen ⊢
    obtain ⟨hres, hplaces⟩ := entry_decode buf dst (p + bytes) (tlv_len - bytes) (by omega)
    obtain ⟨hres', hplaces'⟩ := ih (dst + 12) (i + 1) (bytes + 12) (by omega)
    rw [← Nat.add_assoc] at hres' hplaces'
    rw [qmi_decode_struct_elem.loop, if_pos (by omega), Traced.bind_of_ok hres]
    constructor
    · rw [hres']
      congr 2 <;> omega
    · rw [bytesAt_add]
      refine hplaces.append ?_
      rw [bytesAt_length]
      exact hplaces'

/-- The entries are taken to the end of the TLV. -/
theorem entries_elem (buf : Mem) (dst p n : ℕ) :
    let x := qmi_decode_struct_elem (qmi_decode rmtfs_iovec_entry_ei) buf dst p n 12 (12 * n) 2
    x.result = .ok (12 * n) ∧ Places dst x.stores (bytesAt buf p (12 * n)) := by
  obtain ⟨hres, hplaces⟩ := entries_decode buf (12 * n) p n dst 0 0 (by omega)
  rw [Nat.zero_add, Nat.zero_add, Nat.add_zero, Nat.mul_comm n 12] at hres
  rw [Nat.add_zero, Nat.mul_comm n 12] at hplaces
  unfold qmi_decode_struct_elem
  rw [Traced.bind_of_ok hres]
  simpa using hplaces

/-- An iovec with as many whole entries as it announces: the count, and the entries in place. -/
theorem iovec_stores (t : Tlv) (out : ℕ) (htype : t.type = 3) {count : UInt8}
    {entries : List UInt8} (hval : t.value = count :: entries)
    (hlen : entries.length = 12 * count.toNat) :
    ∃ L, t.stores (resolve qmi_decode.table rmtfs_iovec_req_ei) out =
        ⟨out + 8, leBytes 4 count.toNat⟩ :: L ∧ Places (out + 16) L entries := by
  have hmem : Holds t.mem 0 t.bytes := holds_writeAt _ _ _
  have hvalue : Holds t.mem 3 (count :: entries) := by
    rw [← hval]
    exact hmem.right
  have hcount : bytesAt t.mem 3 1 = [count] :=
    (show Holds t.mem 3 ([count] ++ entries) from hvalue).left
  have hentries : Holds t.mem 4 entries :=
    (show Holds t.mem 3 ([count] ++ entries) from hvalue).right
  obtain ⟨hhead, hdecl⟩ := Tlv.holds_header hmem
  rw [htype] at hhead
  have hlt := count.toNat_lt
  have htlv : declaredLen t.mem 0 = 1 + 12 * count.toNat := by
    rw [hdecl, hval, List.length_cons, hlen]
    omega
  have hfind : find_ei (resolve qmi_decode.table rmtfs_iovec_req_ei) (t.mem 0) =
      some ((rmtfs_iovec_req_ei.drop 2).map fun e => (e, qmi_decode e.ei_array)) := by
    rw [hhead, resolve_decode]
    rfl
  obtain ⟨hres, hplaces⟩ := entries_elem t.mem (out + 16) 4 count.toNat
  rw [hentries.bytesAt_eq hlen] at hplaces
  refine ⟨_, ?_, hplaces⟩
  -- through the header to the table of the iovec
  unfold Tlv.stores qmi_decode.tlv qmi_decode.header
  have htype3 : (bytesAt t.mem (DecState.init 0).buf_src TLV_SIZE).getD 0 0 = t.mem 0 := rfl
  have hlen3 : leNat ((bytesAt t.mem (DecState.init 0).buf_src TLV_SIZE).drop 1) =
      declaredLen t.mem 0 := rfl
  rw [bind_assoc, Traced.bind_of_ok (Traced.read_result _ _ _)]
  simp only [pure_bind, htype3, hlen3, hfind, htlv]
  simp only [rmtfs_iovec_req_ei, List.drop_succ_cons, List.drop_zero, List.map_cons,
    qmi_decode.body, qmi_decode.opt_flag, qmi_decode.data_len, reduceCtorEq, if_false, if_true,
    pure_bind, bind_assoc, data_len_sz, DecState.update, DecState.init]
  -- its count is one byte, and what is left of the TLV is for the entries
  have hbyte : bytesAt t.mem (0 + TLV_SIZE) 1 = [count] := hcount
  have hpatch : patchLow 0 [count] = count.toNat := by
    rw [patchLow_of_lt (by simp)]
    rfl
  have hwsub : wsub (1 + 12 * count.toNat) 1 = 12 * count.toNat := by
    rw [wsub_of_le (by omega) (by omega)]
    omega
  have hn : ∀ e : ElemInfo, e.array_type = .varLenArray → e.elem_len = 255 →
      qmi_decode.count e count.toNat = pure count.toNat := by
    intro e harray h255
    simp only [qmi_decode.count, harray, h255]
    rw [if_neg (by omega)]
  rw [Traced.bind_of_ok (Traced.read_result _ _ _), hbyte, hpatch,
    Traced.bind_of_ok (Traced.store_result _ _), hn _ rfl rfl, hwsub]
  simp only [pure_bind, qmi_decode.elem]
  change [⟨out + 8, leBytes 4 count.toNat⟩] ++ (qmi_decode_struct_elem
    (qmi_decode rmtfs_iovec_entry_ei) t.mem (out + 16) 4 count.toNat 12 (12 * count.toNat) 2 >>=
      fun _ => pure _).stores = _
  rw [Traced.bind_of_ok hres]
  simp

/-- Where the TLVs of an iovec request are stored. A count is stored in four bytes, also where its
field has eight. -/
theorem iovec_req_covers (t : Tlv) (out : ℕ) {a : ℕ}
    (ha : Covers (t.stores (resolve qmi_decode.table rmtfs_iovec_req_ei) out) a) :
    (out ≤ a ∧ a < out + 5) ∨ (t.type = 3 ∧ out + 8 ≤ a ∧ a < out + 12) ∨
      (t.type = 3 ∧ out + 16 ≤ a ∧ a < out + 3076) ∨ out + 3076 ≤ a := by
  have hei : messageTable (groupsOf rmtfs_iovec_req_ei) = rmtfs_iovec_req_ei :=
    Message.rmtfs_iovec_req.ei_eq.symm
  have hfull : ¬ FullString rmtfs_iovec_req_ei t.mem 0 := by
    rintro ⟨e, he, -, ht, -⟩
    have hno : ∀ e ∈ rmtfs_iovec_req_ei, e.data_type ≠ .string := by decide +kernel
    exact hno e he ht
  have hnone := tlv_noneFull Message.rmtfs_iovec_req (Nat.zero_le 255) hfull
  have hfits : MessageFits (fun _ => 4) (groupsOf rmtfs_iovec_req_ei) :=
    Message.rmtfs_iovec_req.fits_of fun _ _ => le_refl 4
  rw [← hei] at ha
  obtain ⟨g, hg, htype, r, hr, hra⟩ := stores_within hfits (by rw [hei]; exact hnone) ha
  obtain ⟨e, he, rfl⟩ := List.mem_map.mp hr
  have hmem : e ∈ rmtfs_iovec_req_ei := by
    rw [← hei]
    exact List.mem_flatMap.mpr ⟨g, hg, he⟩
  have het : e.tlv_type = t.type := ((hfits.groups g hg).tlv_type e he).trans htype
  have hpos : (field (fun _ => 4) out e).1 = out + e.offset := rfl
  have hlen : (field (fun _ => 4) out e).2 = (field (fun _ => 4) 0 e).2 := rfl
  rw [hpos, hlen] at hra
  rw [← het]
  -- the five elements of the table
  have hplace : ∀ e ∈ rmtfs_iovec_req_ei,
      e.offset + (field (fun _ => 4) 0 e).2 ≤ 5 ∨
      (e.tlv_type = 3 ∧ e.offset = 8 ∧ (field (fun _ => 4) 0 e).2 = 4) ∨
      (e.tlv_type = 3 ∧ e.offset = 16 ∧ (field (fun _ => 4) 0 e).2 = 3060) ∨
      e.offset = 3076 := by
    decide +kernel
  rcases hplace e hmem with h | ⟨h1, h2, h3⟩ | ⟨h1, h2, h3⟩ | h
  · exact .inl (by omega)
  · exact .inr (.inl ⟨h1, by omega⟩)
  · exact .inr (.inr (.inl ⟨h1, by omega⟩))
  · exact .inr (.inr (.inr (by omega)))

theorem lastTlv_split {ts : List Tlv} {k : UInt8} {t : Tlv} (h : lastTlv ts k = some t) :
    t.type = k ∧ ∃ pre post, ts = pre ++ t :: post ∧ ∀ x ∈ post, x.type ≠ k := by
  obtain ⟨hk, pre, post, hsplit, hpre⟩ := List.find?_eq_some_iff_append.mp h
  refine ⟨by simpa using hk, post.reverse, pre.reverse, ?_, fun x hx => ?_⟩
  · rw [← List.reverse_reverse ts, hsplit]
    simp
  · simpa using hpre x (List.mem_reverse.mp hx)

theorem covers_flatMap {S : Tlv → List Store} {l : List Tlv} {a : ℕ}
    (h : Covers (l.flatMap S) a) : ∃ t ∈ l, Covers (S t) a := by
  obtain ⟨s, hs, ha⟩ := h
  obtain ⟨t, ht, hst⟩ := List.mem_flatMap.mp hs
  exact ⟨t, ht, s, hst, ha⟩

/-- The struct after a request whose last iovec has as many whole entries as it announces. -/
theorem iovec_content (ts : List Tlv) (out : ℕ) {t : Tlv} (hlast : lastTlv ts 3 = some t)
    {count : UInt8} {entries : List UInt8} (hval : t.value = count :: entries)
    (hlen : entries.length = 12 * count.toNat) :
    let s := applyStores (fun _ => 0)
      (ts.flatMap (Tlv.stores (resolve qmi_decode.table rmtfs_iovec_req_ei) out))
    iovec_len s out = count.toNat ∧ Holds s (out + 16) entries := by
  intro s
  obtain ⟨htype, pre, post, rfl, hpost⟩ := lastTlv_split hlast
  obtain ⟨L, hstores, hplaces⟩ := iovec_stores t out htype hval hlen
  have hlt := count.toNat_lt
  -- the TLVs behind the last iovec do not touch its fields
  have hkeep : ∀ a, out + 8 ≤ a → a < out + 3076 →
      s a = writeAt (writeAt (applyStores (fun _ => 0) (pre.flatMap
        (Tlv.stores (resolve qmi_decode.table rmtfs_iovec_req_ei) out))) (out + 8)
          (leBytes 4 count.toNat)) (out + 16) entries a := by
    intro a h1 h2
    have hnot : ¬ Covers (post.flatMap
        (Tlv.stores (resolve qmi_decode.table rmtfs_iovec_req_ei) out)) a := by
      intro hc
      obtain ⟨x, hx, hc⟩ := covers_flatMap hc
      have hne := hpost x hx
      rcases iovec_req_covers x out hc with h | h | h | h
      · omega
      · exact hne h.1
      · exact hne h.1
      · omega
    simp only [s]
    rw [List.flatMap_append, List.flatMap_cons, applyStores_append, applyStores_append,
      applyStores_of_not_covers _ hnot, hstores]
    exact congrFun (hplaces _) a
  -- nothing is stored in the upper half of `iovec_len`
  have hupper : ∀ a, out + 12 ≤ a → a < out + 16 → s a = 0 := by
    intro a h1 h2
    refine applyStores_of_not_covers _ fun hc => ?_
    obtain ⟨x, -, hc⟩ := covers_flatMap hc
    rcases iovec_req_covers x out hc with h | h | h | h <;> omega
  constructor
  · have hlow : bytesAt s (out + 8) 4 = leBytes 4 count.toNat := by
      refine List.ext_getElem (by simp) fun i h1 h2 => ?_
      rw [bytesAt_length] at h1
      rw [bytesAt_getElem, hkeep _ (by omega) (by omega), writeAt_of_lt (by omega),
        writeAt_inside h2]
    have hhigh : bytesAt s (out + 8 + 4) 4 = List.replicate 4 0 := by
      refine List.ext_getElem (by simp) fun i h1 h2 => ?_
      rw [bytesAt_length] at h1
      rw [bytesAt_getElem, hupper _ (by omega) (by omega), List.getElem_replicate]
    have hfield : bytesAt s (out + 8) (4 + 4) = leBytes (4 + 4) count.toNat := by
      rw [bytesAt_add, hlow, hhigh, leBytes_of_small (by omega)]
    show leNat (bytesAt s (out + 8) (4 + 4)) = count.toNat
    rw [hfield, leNat_leBytes _ _ (by omega)]
  · refine List.ext_getElem (by simp) fun i h1 h2 => ?_
    rw [bytesAt_getElem, hkeep _ (by omega) (by omega), writeAt_inside h2]

/-! ## The theorem

Both directions: a payload that is whole is decoded to a complete request, and from a complete
request the lengths of its TLVs can be told. -/

section Complete

variable {r : Request} {ts : List Tlv} {data : Mem} {data_len : ℕ}

/-- What `qmi_decode_message` does with a request: it decodes the payload. -/
theorem decodeRequest_eq (h : IsRequest r ts data data_len) (out : ℕ) :
    decodeRequest r data data_len out =
      qmi_decode.tlv_loop data out (wireOf ts).length (resolve qmi_decode.table r.ei)
        (wireOf ts).length (.init QMI_HEADER_SIZE) := by
  have hlen := h.len
  have hsmall := h.uint32
  unfold QMI_HEADER_SIZE at hlen
  unfold decodeRequest qmi_decode_message
  rw [if_neg (by omega), if_neg (by simp [h.type]), if_neg (by simp [h.id])]
  have hpayload : wsub data_len QMI_HEADER_SIZE = (wireOf ts).length := by
    unfold QMI_HEADER_SIZE
    rw [wsub_of_le (by omega) hsmall]
    omega
  rw [hpayload]
  rfl

/-- A complete payload that is accepted makes a complete request. -/
theorem complete_of_whole (h : IsRequest r ts data data_len) (out : ℕ) (hwhole : Whole r ts)
    {rc : ℕ} (hok : (decodeRequest r data data_len out).result = .ok rc) :
    Complete r ts data data_len out := by
  have heq := decodeRequest_eq h out
  rw [heq] at hok
  have hadv := (advances_iff_sized r (.init h.payload) hok).mpr hwhole.sized
  refine ⟨hadv, hwhole.present, fun hr => ?_⟩
  subst hr
  obtain ⟨t, hlast, count, entries, hval, hlen⟩ := hwhole.iovec rfl
  -- every TLV is steady, so the stores are those of the TLVs in order
  have hei : messageTable (groupsOf rmtfs_iovec_req_ei) = rmtfs_iovec_req_ei :=
    Message.rmtfs_iovec_req.ei_eq.symm
  have hsteady : ∀ t ∈ ts, Steady (resolve qmi_decode.table rmtfs_iovec_req_ei) out t := by
    have hfits : MessageFits Message.rmtfs_iovec_req.width (groupsOf rmtfs_iovec_req_ei) :=
      Message.rmtfs_iovec_req.fits
    rw [← hei]
    refine steady_of_loop (r := rc) hfits (.init h.payload) ?_ ?_
    · rw [hei]
      exact hadv
    · rw [hei]
      exact hok
  obtain ⟨-, hstores⟩ := loop_steady hsteady (.init h.payload)
  obtain ⟨hcount, hentries⟩ := iovec_content ts out hlast hval hlen
  rw [← hstores] at hcount hentries
  rw [heq]
  exact ⟨t, hlast, count, entries, hval, hcount.symm,
    hlen.trans (congrArg (sizeof rmtfs_iovec_entry * ·) hcount.symm), hentries⟩

/-- A complete request had a complete payload. -/
theorem whole_of_complete (h : IsRequest r ts data data_len) (out : ℕ) {rc : ℕ}
    (hok : (decodeRequest r data data_len out).result = .ok rc)
    (hcomplete : Complete r ts data data_len out) : Whole r ts := by
  rw [decodeRequest_eq h out] at hok
  refine ⟨?_, hcomplete.present, fun hr => ?_⟩
  · exact (advances_iff_sized r (.init h.payload) hok).mp hcomplete.taken
  · obtain ⟨t, hlast, count, entries, hval, hcount, hlen, -⟩ := hcomplete.iovec hr
    refine ⟨t, hlast, count, entries, hval, ?_⟩
    rw [hcount]
    exact hlen

/-- A request that is accepted is complete exactly if its payload is whole by itself; the decoder
refuses none for what it lacks. The payloads that it refuses are those with a TLV of an unknown
type below `OPTIONAL_TLV_TYPE_START`, a string longer than its field, or an iovec that has more
bytes than its entries or ends inside a word. -/
theorem request_complete_iff (h : IsRequest r ts data data_len) (out : ℕ) :
    ((∃ rc, (decodeRequest r data data_len out).result = .ok rc) →
        Complete r ts data data_len out) ↔
      Refused (spans r.ei) data (QMI_HEADER_SIZE + (wireOf ts).length) (wireOf ts).length
          QMI_HEADER_SIZE 0 ∨
        Whole r ts := by
  have hrefused := tlv_loop_refused data out (paired_spans r.ei) QMI_HEADER_SIZE
    (wireOf ts).length (wireOf ts).length (.init QMI_HEADER_SIZE) rfl
  rw [← decodeRequest_eq h out] at hrefused
  constructor
  · intro hcomplete
    by_cases hre : Refused (spans r.ei) data (QMI_HEADER_SIZE + (wireOf ts).length)
        (wireOf ts).length QMI_HEADER_SIZE 0
    · exact .inl hre
    · -- the request is accepted
      refine .inr ?_
      cases hres : (decodeRequest r data data_len out).result with
      | error f => exact absurd (hrefused.mp ⟨f, hres⟩) hre
      | ok rc => exact whole_of_complete h out hres (hcomplete ⟨rc, hres⟩)
  · rintro (hre | hwhole) ⟨rc, hok⟩
    · obtain ⟨f, hf⟩ := hrefused.mpr hre
      rw [hf] at hok
      cases hok
    · exact complete_of_whole h out hwhole hok

end Complete

/-! ## Three requests

One that is whole, and two that the decoder accepts although they are not. -/

/-- The packet of a request, with transaction id 1. -/
def packet (r : Request) (ts : List Tlv) : Mem :=
  writeAt (fun _ => 0) 0 ([0, 1, 0] ++ leBytes 2 r.id ++ leBytes 2 (wireOf ts).length ++ wireOf ts)

theorem packet_isRequest (r : Request) (ts : List Tlv) (h : (wireOf ts).length < 2 ^ 16) :
    IsRequest r ts (packet r ts) (QMI_HEADER_SIZE + (wireOf ts).length) := by
  have hall : Holds (packet r ts) 0 ([0, 1, 0] ++ leBytes 2 r.id ++
      leBytes 2 (wireOf ts).length ++ wireOf ts) := holds_writeAt _ _ _
  have htype : Holds (packet r ts) 0 [0] :=
    (show Holds (packet r ts) 0 ([0] ++ [1, 0]) from hall.left.left.left).left
  have hid : Holds (packet r ts) 3 (leBytes 2 r.id) := hall.left.left.right
  refine ⟨?_, ?_, ?_, rfl, ?_⟩
  · rw [htype.bytesAt_eq (n := 1) rfl]
    rfl
  · rw [hid.bytesAt_eq (by simp)]
    cases r <;> rfl
  · have hpayload := hall.right
    simp only [List.length_append, leBytes_length, List.length_cons, List.length_nil,
      Nat.zero_add] at hpayload
    exact hpayload
  · unfold QMI_HEADER_SIZE
    omega

/-- A read of two sectors for caller 9. -/
def iovecRequest : List Tlv :=
  [⟨1, [9, 0, 0, 0], by decide⟩, ⟨2, [0], by decide⟩,
   ⟨3, [1, 8, 0, 0, 0, 0, 16, 0, 0, 2, 0, 0, 0], by decide⟩, ⟨4, [0], by decide⟩]

/-- The same request with a second entry that is announced and cut off behind its first word. -/
def shortRequest : List Tlv :=
  [⟨1, [9, 0, 0, 0], by decide⟩, ⟨2, [0], by decide⟩,
   ⟨3, [2, 8, 0, 0, 0, 0, 16, 0, 0, 2, 0, 0, 0, 9, 0, 0, 0], by decide⟩, ⟨4, [0], by decide⟩]

/-- The read of two sectors is accepted and complete. -/
theorem request_complete_iovec :
    (decodeRequest .iovec_req (packet .iovec_req iovecRequest) 38 0).result = .ok 31 ∧
      Complete .iovec_req iovecRequest (packet .iovec_req iovecRequest) 38 0 := by
  have hreq : IsRequest .iovec_req iovecRequest (packet .iovec_req iovecRequest) 38 :=
    packet_isRequest .iovec_req iovecRequest (by decide +kernel)
  have hok : (decodeRequest .iovec_req (packet .iovec_req iovecRequest) 38 0).result = .ok 31 := by
    decide +kernel
  have hsized : Sized (groupsOf Request.iovec_req.ei) iovecRequest := by
    unfold Sized
    decide +kernel
  have hwhole : Whole .iovec_req iovecRequest := by
    refine ⟨hsized, by decide +kernel, fun _ => ?_⟩
    exact ⟨⟨3, [1, 8, 0, 0, 0, 0, 16, 0, 0, 2, 0, 0, 0], by decide⟩, by decide +kernel, 1, _, rfl,
      by decide +kernel⟩
  exact ⟨hok, (request_complete_iff hreq 0).mpr (.inr hwhole) ⟨31, hok⟩⟩

/-- A close request without its handle is accepted, and so is an iovec of one entry and a third
that says it has two. Neither is complete. -/
theorem request_incomplete :
    (IsRequest .close_req [] (packet .close_req []) 7 ∧
      ¬ ((∃ rc, (decodeRequest .close_req (packet .close_req []) 7 0).result = .ok rc) →
        Complete .close_req [] (packet .close_req []) 7 0)) ∧
    (IsRequest .iovec_req shortRequest (packet .iovec_req shortRequest) 42 ∧
      ¬ ((∃ rc, (decodeRequest .iovec_req (packet .iovec_req shortRequest) 42 0).result =
          .ok rc) →
        Complete .iovec_req shortRequest (packet .iovec_req shortRequest) 42 0)) := by
  refine ⟨⟨packet_isRequest .close_req [] (by decide +kernel), fun h => ?_⟩,
    packet_isRequest .iovec_req shortRequest (by decide +kernel), fun h => ?_⟩
  · have hok : (decodeRequest .close_req (packet .close_req []) 7 0).result = .ok 0 := by
      decide +kernel
    obtain ⟨t, ht, -⟩ := (h ⟨0, hok⟩).present 1 (by decide)
    exact List.not_mem_nil ht
  · have hok : (decodeRequest .iovec_req (packet .iovec_req shortRequest) 42 0).result =
        .ok 35 := by
      decide +kernel
    obtain ⟨t, hlast, count, entries, hval, hcount, hlen, -⟩ := (h ⟨35, hok⟩).iovec rfl
    have hshort : lastTlv shortRequest 3 =
        some ⟨3, [2, 8, 0, 0, 0, 0, 16, 0, 0, 2, 0, 0, 0, 9, 0, 0, 0], by decide⟩ := by
      decide +kernel
    cases hshort.symm.trans hlast
    cases hval
    rw [← hcount] at hlen
    exact absurd hlen (by decide +kernel)

end Dragonboard.Qmi
