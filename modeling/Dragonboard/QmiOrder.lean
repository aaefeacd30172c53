/-
The order of TLVs does not matter.

A message is a list of TLVs. A TLV is `Steady` if it is decoded the same in every message: taken
whole, with the same stores, wherever it stands and whatever count the one before it left behind.
A TLV that some message decodes as declared is steady, because it is decoded by its own
bytes (`tlv_local`), and so is an unknown optional TLV, which is skipped.

The stores of a message of steady TLVs are the stores of its TLVs one after the other
(`loop_steady`). The stores of two TLVs of different types go to different fields, so they
commute, and the unknown TLVs store nothing: every order of the TLVs with any unknown ones
between them gives the same struct.
-/
import Dragonboard.QmiConfined
import Dragonboard.QmiLocal

set_option autoImplicit false

namespace Dragonboard.Qmi

open Dragonboard.Memory

/-! ## TLVs

A message is taken as a list of complete TLVs, so that an order of them and the insertion of
unknown ones are operations on lists. `Ahead` ties a state of the loop at level 1 to the TLVs that
are still to come. -/

/-- A complete TLV: a type and as many bytes as its length says. -/
structure Tlv where
  type : UInt8
  value : List UInt8
  fits : value.length < 2 ^ 16
deriving DecidableEq

namespace Tlv

/-- Type, length and value. -/
def bytes (t : Tlv) : List UInt8 := t.type :: leBytes 2 t.value.length ++ t.value

/-- The TLV alone in memory. -/
def mem (t : Tlv) : Mem := writeAt (fun _ => 0) 0 t.bytes

/-- The strings of a TLV, with their lengths. -/
def strings (ei_array : List ElemInfo) (t : Tlv) : List (ElemInfo × ℕ) :=
  tlvStrings ei_array t.mem 0 0

/-- What a TLV stores. -/
def stores (tab : List (ElemInfo × Dec)) (out_c_struct : ℕ) (t : Tlv) : List Store :=
  (qmi_decode.tlv t.mem out_c_struct tab (.init 0)).stores

theorem bytes_length (t : Tlv) : t.bytes.length = TLV_SIZE + t.value.length := by
  simp [bytes, TLV_SIZE]
  omega

/-- What the memory says about a TLV it holds. -/
theorem holds_header {buf : Mem} {p : ℕ} {t : Tlv} (h : Holds buf p t.bytes) :
    buf p = t.type ∧ declaredLen buf p = t.value.length := by
  have hhead := h.left
  have htype : bytesAt buf p 3 = t.type :: leBytes 2 t.value.length := by
    have := hhead.bytesAt_eq (n := 3) (by simp)
    exact this
  rw [show 3 = 2 + 1 from rfl, bytesAt_succ] at htype
  obtain ⟨h1, h2⟩ := List.cons.inj htype
  refine ⟨h1, ?_⟩
  rw [declaredLen, h2]
  exact leNat_leBytes _ _ (by simpa using t.fits)

end Tlv

/-- The bytes of a message. -/
def wireOf (ts : List Tlv) : List UInt8 := ts.flatMap Tlv.bytes

/-- The cursor stands in front of the TLVs `ts`, which are the rest of the message; `n` rounds are
enough for them. -/
structure Ahead (buf : Mem) (ts : List Tlv) (limit n : ℕ) (st : DecState) : Prop where
  holds : Holds buf st.buf_src (wireOf ts)
  count : st.data_len_value ≤ 255
  rest : st.decoded_bytes + (wireOf ts).length = limit
  rounds : (wireOf ts).length ≤ n

theorem Ahead.init {buf : Mem} {ts : List Tlv} {in_buf : ℕ} (h : Holds buf in_buf (wireOf ts)) :
    Ahead buf ts (wireOf ts).length (wireOf ts).length (.init in_buf) :=
  ⟨h, Nat.zero_le _, Nat.zero_add _, le_refl _⟩

theorem Ahead.done {buf : Mem} {limit n : ℕ} {st : DecState} (h : Ahead buf [] limit n st) :
    st.decoded_bytes = limit := h.rest

/-- The loop goes on to the first TLV, and behind it the others are ahead. -/
theorem Ahead.next {buf : Mem} {t : Tlv} {ts : List Tlv} {limit n : ℕ} {st : DecState}
    (h : Ahead buf (t :: ts) limit n st) :
    st.decoded_bytes < limit ∧ Holds buf st.buf_src t.bytes ∧ ∃ k, n = k + 1 ∧
      ∀ st' : DecState, st'.buf_src = st.buf_src + t.bytes.length →
        st'.decoded_bytes = st.decoded_bytes + t.bytes.length → st'.data_len_value ≤ 255 →
        Ahead buf ts limit k st' := by
  have hwire : wireOf (t :: ts) = t.bytes ++ wireOf ts := List.flatMap_cons
  have hholds := h.holds
  have hrest := h.rest
  have hrounds := h.rounds
  rw [hwire] at hholds hrest hrounds
  rw [List.length_append] at hrest hrounds
  have hpos := t.bytes_length
  unfold TLV_SIZE at hpos
  refine ⟨by omega, hholds.left, n - 1, by omega, fun st' hsrc hdec hcount => ?_⟩
  refine ⟨?_, hcount, by omega, by omega⟩
  rw [hsrc]
  exact hholds.right

/-- The type of a TLV is the type of a group. -/
def known (gs : List Group) (t : Tlv) : Bool := decide (t.type ∈ gs.map Group.type)

/-! ## Steady TLVs

A TLV is steady if what it stores is its own affair: it is the same in every message and behind
every other TLV. By the results on locality this holds as soon as the TLV is taken whole once, and
then the decoding of a message is the concatenation of what its TLVs store. -/

/-- In every message that holds the TLV, from every count of at most 255, it is taken whole and its
stores are the same. -/
def Steady (tab : List (ElemInfo × Dec)) (out_c_struct : ℕ) (t : Tlv) : Prop :=
  ∀ buf st, Holds buf st.buf_src t.bytes → st.data_len_value ≤ 255 →
    (qmi_decode.tlv buf out_c_struct tab st).stores = t.stores tab out_c_struct ∧
      ∃ st', (qmi_decode.tlv buf out_c_struct tab st).result = .ok st' ∧
        st'.buf_src = st.buf_src + t.bytes.length ∧
        st'.decoded_bytes = st.decoded_bytes + t.bytes.length ∧ st'.data_len_value ≤ 255

section Steady

variable {width : ElemInfo → ℕ} {gs : List Group} {out : ℕ} {t : Tlv}

theorem count_le_of_ok (hgs : MessageFits width gs) {buf : Mem} {st st' : DecState}
    (hv : st.data_len_value ≤ 255)
    (hok : (qmi_decode.tlv buf out (resolve qmi_decode.table (messageTable gs)) st).result =
      .ok st') : st'.data_len_value ≤ 255 := by
  obtain ⟨b, hb, hcount, -⟩ := (tlv_span buf out (paired_spans _) st).of_ok hok
  rw [hcount]
  exact tlvSpan_count_le hgs hv hb

/-- Every table over the elements has no entry for an unknown TLV. -/
theorem find_unknown (hgs : MessageFits width gs) (hk : ¬ known gs t) {D : Type}
    (f : ElemInfo → D) : find_ei ((messageTable gs).map fun e => (e, f e)) t.type = none := by
  refine find_ei_none (fun g hg => (hgs.groups g hg).tlv_type) fun g hg hne => hk ?_
  simp only [known, decide_eq_true_eq]
  exact List.mem_map.mpr ⟨g, hg, hne⟩

theorem find_known (hgs : MessageFits width gs) (hk : known gs t) :
    (find_ei (resolve qmi_decode.table (messageTable gs)) t.type).isSome := by
  simp only [known, decide_eq_true_eq] at hk
  obtain ⟨g, hg, hgt⟩ := List.mem_map.mp hk
  rw [resolve_decode]
  rcases find_group hgs.shaped hgs.types t.type with ⟨_, -, -, rest, -, hfind⟩ | ⟨hno, -⟩
  · rw [hfind]
    rfl
  · exact absurd hgt (hno g hg)

/-- A TLV that is taken whole once is always taken so. -/
theorem steady_of_ok (hgs : MessageFits width gs) {buf : Mem} {st st₁ : DecState}
    (hbuf : Holds buf st.buf_src t.bytes) (hv : st.data_len_value ≤ 255)
    (hok : (qmi_decode.tlv buf out (resolve qmi_decode.table (messageTable gs)) st).result =
      .ok st₁) (hwhole : st₁.buf_src = st.buf_src + t.bytes.length) :
    Steady (resolve qmi_decode.table (messageTable gs)) out t := by
  -- nothing behind the TLV was read
  obtain ⟨b, -, -, hsrc, -, hreads⟩ := (tlv_span buf out (paired_spans _) st).of_ok hok
  have halike : ∀ buf' st', Holds buf' st'.buf_src t.bytes → st'.data_len_value ≤ 255 →
      Alike (fun a b => ∃ k, a.buf_src = st.buf_src + k ∧ b.buf_src = st'.buf_src + k ∧
          b.decoded_bytes = st'.decoded_bytes + k)
        (qmi_decode.tlv buf out (resolve qmi_decode.table (messageTable gs)) st)
        (qmi_decode.tlv buf' out (resolve qmi_decode.table (messageTable gs)) st') := by
    intro buf' st' hbuf' hv'
    refine tlv_local (w := ⟨buf, buf', st.buf_src, st'.buf_src⟩) hgs out rfl rfl hv hv' ?_
    intro i hi
    simp only at hi ⊢
    have hlt : i < t.bytes.length := by omega
    rw [← bytesAt_getElem buf st.buf_src t.bytes.length i (by simpa using hlt),
      ← bytesAt_getElem buf' st'.buf_src t.bytes.length i (by simpa using hlt)]
    simp only [show bytesAt buf st.buf_src t.bytes.length = t.bytes from hbuf,
      show bytesAt buf' st'.buf_src t.bytes.length = t.bytes from hbuf']
  intro buf' st' hbuf' hv'
  obtain ⟨hstores, hres⟩ := halike buf' st' hbuf' hv'
  obtain ⟨hstores₀, -⟩ := halike t.mem (.init 0) (holds_writeAt _ _ _) (Nat.zero_le _)
  refine ⟨hstores.symm.trans hstores₀, ?_⟩
  obtain ⟨a, c, ha, hc, k, hk, hk', hk''⟩ | ⟨f, hf, -⟩ := hres
  · rw [hok] at ha
    cases ha
    refine ⟨c, hc, by omega, by omega, count_le_of_ok hgs hv' hc⟩
  · rw [hok] at hf
    cases hf

/-- An unknown optional TLV is skipped. -/
theorem steady_unknown (hgs : MessageFits width gs) (hunknown : ¬ known gs t)
    (hopt : OPTIONAL_TLV_TYPE_START ≤ t.type) (out : ℕ) :
    Steady (resolve qmi_decode.table (messageTable gs)) out t ∧
      t.stores (resolve qmi_decode.table (messageTable gs)) out = [] := by
  have hskip : ∀ buf st, Holds buf st.buf_src t.bytes →
      (qmi_decode.tlv buf out (resolve qmi_decode.table (messageTable gs)) st).stores = [] ∧
      (qmi_decode.tlv buf out (resolve qmi_decode.table (messageTable gs)) st).result =
        .ok ⟨st.data_len_value, t.value.length, st.buf_src + t.bytes.length,
          st.decoded_bytes + t.bytes.length⟩ := by
    intro buf st hbuf
    obtain ⟨htype, hlen⟩ := Tlv.holds_header hbuf
    have hhead : (bytesAt buf st.buf_src TLV_SIZE).getD 0 0 = t.type := htype
    have hdecl : leNat ((bytesAt buf st.buf_src TLV_SIZE).drop 1) = t.value.length := hlen
    have hnone := find_unknown hgs hunknown fun e => qmi_decode e.ei_array
    unfold qmi_decode.tlv qmi_decode.header
    rw [bind_assoc, Traced.bind_of_ok (Traced.read_result _ _ _)]
    simp only [pure_bind, hhead, hdecl, resolve_decode, hnone]
    rw [if_neg (by simpa using hopt), t.bytes_length]
    simp [DecState.update, Nat.add_assoc]
  have hmem := (hskip t.mem (.init 0) (holds_writeAt _ _ _)).1
  refine ⟨fun buf st hbuf hv => ?_, hmem⟩
  obtain ⟨hstores, hres⟩ := hskip buf st hbuf
  exact ⟨hstores.trans hmem.symm, _, hres, rfl, rfl, hv⟩

/-- A message of steady TLVs is decoded whole, and its stores are those of its TLVs in order. -/
theorem loop_steady {tab : List (ElemInfo × Dec)} {ts : List Tlv}
    (hts : ∀ t ∈ ts, Steady tab out t) {buf : Mem} {limit n : ℕ} {st : DecState}
    (h : Ahead buf ts limit n st) :
    (qmi_decode.tlv_loop buf out limit tab n st).result = .ok limit ∧
      (qmi_decode.tlv_loop buf out limit tab n st).stores = ts.flatMap (Tlv.stores tab out) := by
  induction ts generalizing n st with
  | nil =>
    have hend := h.done
    cases n with
    | zero => exact ⟨congrArg _ hend, rfl⟩
    | succ n =>
      rw [qmi_decode.tlv_loop, if_neg (by omega)]
      exact ⟨congrArg _ hend, rfl⟩
  | cons t ts ih =>
    obtain ⟨hlt, hbuf, n, rfl, hnext⟩ := h.next
    obtain ⟨hstores, st', hok, hsrc, hdec, hv'⟩ := hts t List.mem_cons_self buf st hbuf h.count
    obtain ⟨hres, hrest⟩ := ih (fun x hx => hts x (List.mem_cons_of_mem _ hx))
      (hnext st' hsrc hdec hv')
    rw [qmi_decode.tlv_loop, if_pos hlt, Traced.bind_of_ok hok]
    refine ⟨hres, ?_⟩
    simp only [hstores, hrest, List.flatMap_cons]

/-- A TLV that is accepted is known or optional. -/
theorem optional_of_ok (hgs : MessageFits width gs) {buf : Mem} {st st₁ : DecState}
    (hbuf : Holds buf st.buf_src t.bytes) (hunknown : ¬ known gs t)
    (hok : (qmi_decode.tlv buf out (resolve qmi_decode.table (messageTable gs)) st).result =
      .ok st₁) : OPTIONAL_TLV_TYPE_START ≤ t.type := by
  obtain ⟨b, hb, -⟩ := (tlv_span buf out (paired_spans _) st).of_ok hok
  have hnone : find_ei (spans (messageTable gs)) t.type = none := by
    rw [spans_eq]
    exact find_unknown hgs hunknown _
  rw [tlvSpan, (Tlv.holds_header hbuf).1, hnone] at hb
  by_contra hlt
  simp only [if_pos (UInt8.not_le.mp hlt)] at hb
  cases hb

/-- The TLVs of a message that is accepted and taken as declared are steady. -/
theorem steady_of_loop (hgs : MessageFits width gs) {ts : List Tlv} {buf : Mem}
    {limit n r : ℕ} {st : DecState} (h : Ahead buf ts limit n st)
    (hadv : Advances buf out limit (resolve qmi_decode.table (messageTable gs)) n st)
    (hok : (qmi_decode.tlv_loop buf out limit (resolve qmi_decode.table (messageTable gs)) n
      st).result = .ok r) :
    ∀ t ∈ ts, Steady (resolve qmi_decode.table (messageTable gs)) out t := by
  induction ts generalizing n st with
  | nil => simp
  | cons t ts ih =>
    obtain ⟨hlt, hbuf, n, rfl, hnext⟩ := h.next
    rw [qmi_decode.tlv_loop, if_pos hlt] at hok
    obtain ⟨st₁, hok₁, hrest⟩ := Traced.bind_result_ok.mp hok
    obtain ⟨hmove, hadv'⟩ := hadv hlt st₁ hok₁
    have hsteady : Steady (resolve qmi_decode.table (messageTable gs)) out t := by
      by_cases hk : known gs t
      · -- the cursor moved by what the TLV declares
        obtain ⟨htype, hdecl⟩ := Tlv.holds_header hbuf
        refine steady_of_ok hgs hbuf h.count hok₁ ?_
        rw [hmove (by rw [htype]; exact find_known hgs hk), hdecl, t.bytes_length, Nat.add_assoc]
      · exact (steady_unknown hgs hk (optional_of_ok hgs hbuf hk hok₁) out).1
    obtain ⟨-, st₂, hok₂, hsrc, hdec, hv₂⟩ := hsteady buf st hbuf h.count
    rw [hok₁] at hok₂
    cases hok₂
    rw [List.forall_mem_cons]
    exact ⟨hsteady, ih (hnext st₁ hsrc hdec hv₂) hadv' hrest⟩

end Steady

/-! ## Fields that do not overlap

Stores to different bytes commute, so the order of the TLVs does not matter if their types differ
and the fields of different types are apart. Full strings are excluded, because their terminator
falls into the next field. -/

/-- The fields of groups of different types do not overlap. -/
def Apart (width : ElemInfo → ℕ) (gs : List Group) : Prop :=
  ∀ g ∈ gs, ∀ g' ∈ gs, g.type ≠ g'.type → ∀ r ∈ fieldsOf width 0 g.elems,
    ∀ r' ∈ fieldsOf width 0 g'.elems, r.1 + r.2 ≤ r'.1 ∨ r'.1 + r'.2 ≤ r.1

section Order

variable {width : ElemInfo → ℕ} {gs : List Group} {out : ℕ}

theorem Apart.not_within (h : Apart width gs) {g g' : Group} (hg : g ∈ gs) (hg' : g' ∈ gs)
    (hne : g.type ≠ g'.type) {a : ℕ} (ha : Within (fieldsOf width out g.elems) a) :
    ¬ Within (fieldsOf width out g'.elems) a := by
  have hapart := h g hg g' hg' hne
  rintro ⟨r', hr', ha'⟩
  obtain ⟨r, hr, ha⟩ := ha
  obtain ⟨e, he, rfl⟩ := List.mem_map.mp hr
  obtain ⟨e', he', rfl⟩ := List.mem_map.mp hr'
  have := hapart _ (List.mem_map_of_mem he) _ (List.mem_map_of_mem he')
  simp only [field] at this ha ha'
  omega

/-- What a steady TLV without a full string stores lies in the fields of its group. -/
theorem stores_within (hgs : MessageFits width gs) {t : Tlv}
    (hnone : NoneFull (t.strings (messageTable gs))) {a : ℕ}
    (ha : Covers (t.stores (resolve qmi_decode.table (messageTable gs)) out) a) :
    ∃ g ∈ gs, g.type = t.type ∧ Within (fieldsOf width out g.elems) a := by
  obtain ⟨g, hg, htype, hwithin⟩ := tlv_stays hgs t.mem out (.init 0) hnone a ha
  exact ⟨g, hg, htype.trans (Tlv.holds_header (holds_writeAt _ _ _)).1, hwithin⟩

/-- TLVs of different types store to different bytes. -/
theorem stores_disjoint (hgs : MessageFits width gs) (hapart : Apart width gs) {t t' : Tlv}
    (hne : t.type ≠ t'.type) (hnone : NoneFull (t.strings (messageTable gs)))
    (hnone' : NoneFull (t'.strings (messageTable gs))) :
    ∀ a, Covers (t.stores (resolve qmi_decode.table (messageTable gs)) out) a →
      ¬ Covers (t'.stores (resolve qmi_decode.table (messageTable gs)) out) a := by
  intro a ha ha'
  obtain ⟨g, hg, htype, hin⟩ := stores_within hgs hnone ha
  obtain ⟨g', hg', htype', hin'⟩ := stores_within hgs hnone' ha'
  refine hapart.not_within hg hg' ?_ hin hin'
  rwa [htype, htype']

/-- TLVs that store nothing can be left out. -/
theorem flatMap_filter {S : Tlv → List Store} (p : Tlv → Bool) (l : List Tlv)
    (h : ∀ t ∈ l, ¬ p t → S t = []) : l.flatMap S = (l.filter p).flatMap S := by
  induction l with
  | nil => rfl
  | cons t l ih =>
    have ih := ih fun x hx => h x (List.mem_cons_of_mem _ hx)
    rw [List.flatMap_cons, ih]
    by_cases hp : p t
    · rw [List.filter_cons_of_pos hp, List.flatMap_cons]
    · rw [List.filter_cons_of_neg hp, h t List.mem_cons_self hp, List.nil_append]

theorem applyStores_flatMap {α : Type} (S : α → List Store) (m : Mem) (l : List α) :
    applyStores m (l.flatMap S) = l.foldl (fun m t => applyStores m (S t)) m := by
  induction l generalizing m with
  | nil => rfl
  | cons t l ih => rw [List.flatMap_cons, applyStores_append, ih, List.foldl_cons]

end Order

/-- **Decoding does not depend on the order of the TLVs, nor on unknown optional ones.** Take a
table that fits, with fields that do not overlap, and a message `m` of known TLVs of different types,
each as long as its element takes it and every string shorter than its field. If `m` is
accepted, then so is every message `m'` that is a permutation of `m` with complete TLVs of
unknown types from 0x10 on anywhere in it, and it gives the same struct. (That the TLVs of `m` are
known follows from `m'` without its unknown ones being a permutation of it.) -/
theorem qmi_decode_order (width : ElemInfo → ℕ) (gs : List Group) (hgs : MessageFits width gs)
    (hapart : Apart width gs) (m m' : List Tlv) (hdistinct : (m.map Tlv.type).Nodup)
    (hperm : (m'.filter (known gs)).Perm m)
    (hunknown : ∀ t ∈ m', ¬ known gs t → OPTIONAL_TLV_TYPE_START ≤ t.type)
    (out_c_struct in_buf n : ℕ) (buf : Mem) (hbuf : Holds buf in_buf (wireOf m))
    (hexact : Advances buf out_c_struct (wireOf m).length
      (resolve qmi_decode.table (messageTable gs)) (wireOf m).length (.init in_buf))
    (hstrings : ∀ t ∈ m, ∀ s ∈ t.strings (messageTable gs), s.2 < s.1.elem_len)
    (haccept : (qmi_decode (messageTable gs) buf out_c_struct in_buf (wireOf m).length 1).result =
      .ok n)
    (in_buf' : ℕ) (buf' : Mem) (hbuf' : Holds buf' in_buf' (wireOf m')) :
    (qmi_decode (messageTable gs) buf' out_c_struct in_buf' (wireOf m').length 1).result =
        .ok (wireOf m').length ∧
      applyStores (fun _ => 0)
          (qmi_decode (messageTable gs) buf' out_c_struct in_buf' (wireOf m').length 1).stores =
        applyStores (fun _ => 0)
          (qmi_decode (messageTable gs) buf out_c_struct in_buf (wireOf m).length 1).stores := by
  have hsteady := steady_of_loop hgs (.init hbuf) hexact haccept
  have hsteady' : ∀ t ∈ m', Steady (resolve qmi_decode.table (messageTable gs)) out_c_struct t := by
    intro t ht
    by_cases hk : known gs t
    · exact hsteady t (hperm.subset (List.mem_filter.mpr ⟨ht, hk⟩))
    · exact (steady_unknown hgs hk (hunknown t ht hk) out_c_struct).1
  obtain ⟨-, hstores⟩ := loop_steady hsteady (.init hbuf)
  obtain ⟨hres', hstores'⟩ := loop_steady hsteady' (.init hbuf')
  refine ⟨hres', ?_⟩
  have hloop : qmi_decode (messageTable gs) buf out_c_struct in_buf (wireOf m).length 1 =
      qmi_decode.tlv_loop buf out_c_struct (wireOf m).length
        (resolve qmi_decode.table (messageTable gs)) (wireOf m).length (.init in_buf) := rfl
  have hloop' : qmi_decode (messageTable gs) buf' out_c_struct in_buf' (wireOf m').length 1 =
      qmi_decode.tlv_loop buf' out_c_struct (wireOf m').length
        (resolve qmi_decode.table (messageTable gs)) (wireOf m').length (.init in_buf') := rfl
  rw [hloop, hloop', hstores, hstores', flatMap_filter (known gs) m', applyStores_flatMap,
    applyStores_flatMap]
  · -- TLVs of different types commute
    refine hperm.foldl_eq' (fun t ht t' ht' z => ?_) _
    have hmem := hperm.subset ht
    have hmem' := hperm.subset ht'
    by_cases htype : t.type = t'.type
    · rw [List.inj_on_of_nodup_map hdistinct hmem hmem' htype]
    · refine applyStores_comm (stores_disjoint hgs hapart htype ?_ ?_) z
      · exact fun s hs => (hstrings t hmem s hs).ne
      · exact fun s hs => (hstrings t' hmem' s hs).ne
  · exact fun t ht hk => (steady_unknown hgs hk (hunknown t ht hk) out_c_struct).2

/-- A request for the domain list: a name of two characters and an offset. -/
def domainListRequest : List Tlv := [⟨1, [97, 98], by decide⟩, ⟨16, [7, 0, 0, 0], by decide⟩]

/-- The same request, the other way round and with two unknown TLVs. -/
def domainListRequest' : List Tlv :=
  [⟨32, [1], by decide⟩, ⟨16, [7, 0, 0, 0], by decide⟩, ⟨200, [], by decide⟩,
   ⟨1, [97, 98], by decide⟩]

/-- Both requests give the same `struct servreg_loc_get_domain_list_req`. -/
theorem qmi_decode_order_domain_list :
    let ei := messageTable (groupsOf servreg_loc_get_domain_list_req_ei)
    let buf := writeAt (fun _ => 0) 0 (wireOf domainListRequest)
    let buf' := writeAt (fun _ => 0) 0 (wireOf domainListRequest')
    (qmi_decode ei buf' 0 0 (wireOf domainListRequest').length 1).result =
        .ok (wireOf domainListRequest').length ∧
      applyStores (fun _ => 0)
          (qmi_decode ei buf' 0 0 (wireOf domainListRequest').length 1).stores =
        applyStores (fun _ => 0)
          (qmi_decode ei buf 0 0 (wireOf domainListRequest).length 1).stores := by
  intro ei buf buf'
  have hok : (qmi_decode ei buf 0 0 (wireOf domainListRequest).length 1).result = .ok 12 := by
    decide +kernel
  have hdecl : Declared (spans ei) buf (wireOf domainListRequest).length
      (wireOf domainListRequest).length 0 0 := by
    decide +kernel
  have hexact := advances_of_declared buf 0 (paired_spans ei) _ hok hdecl
  have hfits : MessageFits Message.servreg_loc_get_domain_list_req.width
      (groupsOf servreg_loc_get_domain_list_req_ei) :=
    Message.servreg_loc_get_domain_list_req.fits
  have hapart : Apart Message.servreg_loc_get_domain_list_req.width
      (groupsOf servreg_loc_get_domain_list_req_ei) := by
    unfold Apart
    decide +kernel
  exact qmi_decode_order _ _ hfits hapart domainListRequest domainListRequest' (by decide +kernel)
    (by decide +kernel) (by decide +kernel) 0 0 12 buf (holds_writeAt _ _ _)
    hexact (by decide +kernel) hok 0 buf' (holds_writeAt _ _ _)

end Dragonboard.Qmi
