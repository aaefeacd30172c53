/-
The responses of the pd-mapper on the wire, and what a client reads from them.

A response is encoded whatever domains it lists, as long as it fits the packet, to the bytes of
`GetDomainListResp.wire` (`respond_eq`). A client that decodes them with the table of the service has
the response again (`client_reads`).

Both rest on one description of a struct in memory, `Shows m r`: the fields of the response `r` are in `m`,
and the flags of those that it does not have are 0. The struct of the server shows its response. So does the
struct of the client, because the decoder restores the described fields.
-/
import Mathlib.Data.List.TakeWhile
import Dragonboard.PdMapper
import Dragonboard.RmtfsResponses

set_option autoImplicit false

namespace Dragonboard.PdMapper

open Dragonboard.Memory Dragonboard.Qmi Dragonboard.Qrtr
open Dragonboard.Rmtfs (Send QMI_RESPONSE resultGroup resultGroup_ok uint32At)

/-! ## Numbers and strings in memory

A field of a struct is read from memory by the same functions on both sides, in the server and in
a client. -/

/-- A `uint16_t` in a struct. -/
def uint16At (m : Mem) (p : ℕ) : UInt16 := UInt16.ofNat (leNat (bytesAt m p 2))

theorem uint16At_eq {m : Mem} {p : ℕ} {n : UInt16} (h : Holds m p (leBytes 2 n.toNat)) :
    uint16At m p = n := by
  have hlt : n.toNat < 256 ^ 2 := n.toNat_lt
  rw [uint16At, h.bytesAt_eq (leBytes_length 2 _), leNat_leBytes 2 _ hlt, UInt16.ofNat_toNat]

theorem uint32At_eq {m : Mem} {p : ℕ} {n : UInt32} (h : Holds m p (leBytes 4 n.toNat)) :
    uint32At m p = n := by
  have hlt : n.toNat < 256 ^ 4 := n.toNat_lt
  rw [uint32At, h.bytesAt_eq (leBytes_length 4 _), leNat_leBytes 4 _ hlt, UInt32.ofNat_toNat]

section Strings

variable {m : Mem} {p n : ℕ} {s : List UInt8}

/-- Characters in an array that a terminator follows. -/
theorem cstrAt_takeWhile (h : Holds m p (s ++ [0])) (hn : s.length < n) :
    cstrAt m p n = s.takeWhile fun b => b ≠ 0 := by
  have hsplit : n = (s.length + 1) + (n - (s.length + 1)) := by omega
  have hbytes : bytesAt m p (s.length + 1) = s ++ [0] := h.bytesAt_eq (by simp)
  have hzero : ∀ rest, ([0] ++ rest).takeWhile (fun b : UInt8 => b ≠ 0) = [] := fun _ => rfl
  rw [cstrAt, hsplit, bytesAt_add, hbytes, List.append_assoc, List.takeWhile_append, hzero,
    List.append_nil]
  split
  · next hall => exact (List.takeWhile_prefix _).eq_of_length hall |>.symm
  · rfl

/-- A string that is in its array with its terminator. -/
theorem cstrAt_eq (h : Holds m p (s ++ [0])) (hs : 0 ∉ s) (hn : s.length < n) : cstrAt m p n = s := by
  rw [cstrAt_takeWhile h hn, List.takeWhile_eq_self_iff]
  intro b hb
  simp only [ne_eq, decide_not, Bool.not_eq_true', decide_eq_false_iff_not]
  exact fun h0 => hs (h0 ▸ hb)

theorem strlen_eq (h : Holds m p (s ++ [0])) (hs : 0 ∉ s) (hn : s.length < 2 ^ 32) :
    strlen m p = s.length := by
  have hbyte : ∀ i (hi : i < (s ++ [0]).length), m (p + i) = (s ++ [0])[i] := by
    intro i hi
    have hi' : i < (bytesAt m p (s ++ [0]).length).length := by rwa [bytesAt_length]
    have hbytes : bytesAt m p (s ++ [0]).length = s ++ [0] := h
    rw [← bytesAt_getElem m p _ i hi']
    simp only [hbytes]
  have hend : m (p + s.length) = 0 := by
    rw [hbyte s.length (by simp)]
    simp
  obtain ⟨hle, hzero⟩ := strlen_loop_spec p hn hend
  rw [strlen]
  by_contra hne
  -- an earlier zero would be a character of the string
  have hlt : strlen.loop m (2 ^ 32) p < s.length := lt_of_le_of_ne hle hne
  have hin : strlen.loop m (2 ^ 32) p < (s ++ [0]).length := by
    rw [List.length_append]
    exact Nat.lt_add_right _ hlt
  rw [hbyte _ hin, List.getElem_append_left hlt] at hzero
  exact hs (hzero ▸ List.getElem_mem hlt)

end Strings

/-! ## What a struct shows

A struct shows a response if its fields have the values of the response. Bytes between the fields
and behind the terminators do not matter. -/

/-- The fields of an entry at `p`, without its `name_len`. -/
structure ShowsEntry (m : Mem) (p : ℕ) (e : DomainListEntry) : Prop where
  name : Holds m (p + 4) (e.name ++ [0])
  instance_id : Holds m (p + 260) (leBytes 4 e.instance_id.toNat)
  service_data_valid : Holds m (p + 264) [e.service_data_valid]
  service_data : Holds m (p + 268) (leBytes 4 e.service_data.toNat)

/-- The entries of an array at `p`. -/
def ShowsEntries (m : Mem) (p : ℕ) (es : List DomainListEntry) : Prop :=
  ∀ i (hi : i < es.length), ShowsEntry m (p + i * 272) es[i]

/-- A number with its flag. -/
def ShowsNumber (m : Mem) (flag value : ℕ) : Option UInt16 → Prop
  | none => m flag = 0
  | some n => m flag = 1 ∧ Holds m value (leBytes 2 n.toNat)

/-- The list of the domains with its flag and its count. -/
def ShowsList (m : Mem) : Option (List DomainListEntry) → Prop
  | none => m 12 = 0
  | some es => m 12 = 1 ∧ Holds m 16 (leBytes 4 es.length) ∧ ShowsEntries m 20 es

/-- A `struct servreg_loc_get_domain_list_resp` at 0. -/
structure Shows (m : Mem) (r : GetDomainListResp) : Prop where
  result : Holds m 0 (leBytes 2 r.result.toNat)
  error : Holds m 2 (leBytes 2 r.error.toNat)
  total_domains : ShowsNumber m 4 6 r.total_domains
  db_revision : ShowsNumber m 8 10 r.db_revision
  domain_list : ShowsList m r.domain_list

/-- An entry has a string for a name, with room for its terminator. -/
def DomainListEntry.Ok (e : DomainListEntry) : Prop := 0 ∉ e.name ∧ e.name.length < 256

/-- The entries of a response fit their array. -/
def GetDomainListResp.Ok (r : GetDomainListResp) : Prop :=
  ∀ es ∈ r.domain_list, es.length ≤ 255 ∧ ∀ e ∈ es, e.Ok

/-! ## What a client reads

The response can be read from every struct that shows it. -/

/-- The entry of an array. -/
def entryAt (m : Mem) (p : ℕ) : DomainListEntry where
  name := cstrAt m (p + offsetof servreg_loc_domain_list_entry 1) 256
  instance_id := uint32At m (p + offsetof servreg_loc_domain_list_entry 2)
  service_data_valid := m (p + offsetof servreg_loc_domain_list_entry 3)
  service_data := uint32At m (p + offsetof servreg_loc_domain_list_entry 4)

/-- A number that is there if its flag is set. -/
def numberAt (m : Mem) (flag value : ℕ) : Option UInt16 :=
  if m flag = 0 then none else some (uint16At m value)

/-- A response in memory. -/
def respAt (m : Mem) : GetDomainListResp where
  result := uint16At m (offsetof servreg_loc_get_domain_list_resp 0)
  error := uint16At m (offsetof servreg_loc_get_domain_list_resp 0 + offsetof servreg_loc_qmi_result 1)
  total_domains := numberAt m (offsetof servreg_loc_get_domain_list_resp 1)
    (offsetof servreg_loc_get_domain_list_resp 2)
  db_revision := numberAt m (offsetof servreg_loc_get_domain_list_resp 3)
    (offsetof servreg_loc_get_domain_list_resp 4)
  domain_list :=
    if m (offsetof servreg_loc_get_domain_list_resp 5) = 0 then none
    else some ((List.range (uint32At m (offsetof servreg_loc_get_domain_list_resp 6)).toNat).map fun i =>
      entryAt m (offsetof servreg_loc_get_domain_list_resp 7 + i * sizeof servreg_loc_domain_list_entry))

section Reads

variable {m : Mem} {r : GetDomainListResp}

theorem holds_singleton {p : ℕ} {b : UInt8} : Holds m p [b] ↔ m p = b := by
  rw [Holds, List.length_singleton, bytesAt_succ]
  simp

theorem ShowsEntry.entryAt {p : ℕ} {e : DomainListEntry} (h : ShowsEntry m p e) (he : e.Ok) :
    entryAt m p = e := by
  have hname : cstrAt m (p + offsetof servreg_loc_domain_list_entry 1) 256 = e.name :=
    cstrAt_eq h.name he.1 he.2
  have hid : uint32At m (p + offsetof servreg_loc_domain_list_entry 2) = e.instance_id :=
    uint32At_eq h.instance_id
  have hvalid : m (p + offsetof servreg_loc_domain_list_entry 3) = e.service_data_valid :=
    holds_singleton.mp h.service_data_valid
  have hdata : uint32At m (p + offsetof servreg_loc_domain_list_entry 4) = e.service_data :=
    uint32At_eq h.service_data
  rw [PdMapper.entryAt, hname, hid, hvalid, hdata]

theorem ShowsNumber.numberAt {flag value : ℕ} {n : Option UInt16} (h : ShowsNumber m flag value n) :
    numberAt m flag value = n := by
  cases n with
  | none => exact if_pos h
  | some n =>
    have hset : ¬ m flag = 0 := by
      rw [h.1]
      decide
    rw [PdMapper.numberAt, if_neg hset, uint16At_eq h.2]

theorem ShowsList.listAt {l : Option (List DomainListEntry)} (h : ShowsList m l)
    (hl : ∀ es ∈ l, es.length ≤ 255 ∧ ∀ e ∈ es, e.Ok) :
    (if m (offsetof servreg_loc_get_domain_list_resp 5) = 0 then none
    else some ((List.range (uint32At m (offsetof servreg_loc_get_domain_list_resp 6)).toNat).map fun i =>
      entryAt m (offsetof servreg_loc_get_domain_list_resp 7 +
        i * sizeof servreg_loc_domain_list_entry))) = l := by
  cases l with
  | none => exact if_pos h
  | some es =>
    obtain ⟨hflag, hcount, hentries⟩ := h
    obtain ⟨hlen, hok⟩ := hl es rfl
    have hset : ¬ m (offsetof servreg_loc_get_domain_list_resp 5) = 0 := by
      rw [show offsetof servreg_loc_get_domain_list_resp 5 = 12 from rfl, hflag]
      decide
    have hn : (uint32At m (offsetof servreg_loc_get_domain_list_resp 6)).toNat = es.length := by
      have hnat : (UInt32.ofNat es.length).toNat = es.length := by
        rw [UInt32.toNat_ofNat']
        omega
      rw [← hnat]
      exact congrArg UInt32.toNat (uint32At_eq (by rwa [hnat]))
    rw [if_neg hset, hn]
    refine congrArg some (List.ext_getElem (by simp) fun i hi hi' => ?_)
    rw [List.getElem_map, List.getElem_range]
    exact (hentries i hi').entryAt (hok _ (List.getElem_mem hi'))

/-- A client reads what is shown. -/
theorem Shows.respAt (h : Shows m r) (hr : r.Ok) : respAt m = r := by
  have hresult : uint16At m (offsetof servreg_loc_get_domain_list_resp 0) = r.result :=
    uint16At_eq h.result
  have herror : uint16At m (offsetof servreg_loc_get_domain_list_resp 0 +
      offsetof servreg_loc_qmi_result 1) = r.error := uint16At_eq h.error
  have htotal : PdMapper.numberAt m (offsetof servreg_loc_get_domain_list_resp 1)
      (offsetof servreg_loc_get_domain_list_resp 2) = r.total_domains := h.total_domains.numberAt
  have hrevision : PdMapper.numberAt m (offsetof servreg_loc_get_domain_list_resp 3)
      (offsetof servreg_loc_get_domain_list_resp 4) = r.db_revision := h.db_revision.numberAt
  rw [PdMapper.respAt, hresult, herror, htotal, hrevision, h.domain_list.listAt hr]

end Reads

/-! ## The struct of the server

The stores of the server go through the struct in ascending order, so none of them is undone by a
later one. -/

section Struct

variable {r : GetDomainListResp}

theorem optStores_laid {lo flag value hi : ℕ} (hlo : lo ≤ flag) (hflag : flag + 1 ≤ value)
    (hhi : value + 2 ≤ hi) (n : Option UInt16) : Laid lo (optStores flag value n) hi := by
  cases n with
  | none =>
    show lo ≤ hi
    omega
  | some n =>
    simp only [optStores, laid_cons, laid_nil, leBytes_length]
    exact ⟨hlo, hflag, hhi⟩

theorem DomainListEntry.stores_laid {e : DomainListEntry} (he : e.Ok) (p : ℕ) :
    Laid p (e.stores p) (p + 272) := by
  have hlen := he.2
  have hoffsets : offsetof servreg_loc_domain_list_entry 0 = 0 ∧
      offsetof servreg_loc_domain_list_entry 1 = 4 ∧ offsetof servreg_loc_domain_list_entry 2 = 260 ∧
      offsetof servreg_loc_domain_list_entry 3 = 264 ∧ offsetof servreg_loc_domain_list_entry 4 = 268 := by
    decide
  obtain ⟨h0, h1, h2, h3, h4⟩ := hoffsets
  simp only [DomainListEntry.stores, laid_cons, laid_nil, leBytes_length, List.length_append,
    List.length_singleton, h0, h1, h2, h3, h4]
  omega

theorem entryStores_laid {es : List DomainListEntry} (hes : ∀ e ∈ es, e.Ok) (p : ℕ) :
    Laid p (entryStores p es) (p + es.length * 272) := by
  induction es generalizing p with
  | nil => exact Nat.le_add_right p _
  | cons e es ih =>
    have hrest := ih (fun e he => hes e (List.mem_cons_of_mem _ he)) (p + 272)
    rw [show p + 272 + es.length * 272 = p + (e :: es).length * 272 by rw [List.length_cons]; ring]
      at hrest
    exact (DomainListEntry.stores_laid (hes e List.mem_cons_self) p).append hrest

theorem mem_entryStores {es : List DomainListEntry} {p i : ℕ} (hi : i < es.length) :
    ∀ s ∈ es[i].stores (p + i * 272), s ∈ entryStores p es := by
  induction es generalizing p i with
  | nil => exact absurd hi (Nat.not_lt_zero i)
  | cons e es ih =>
    intro s hs
    cases i with
    | zero =>
      rw [Nat.zero_mul, Nat.add_zero] at hs
      exact List.mem_append_left _ hs
    | succ i =>
      rw [show p + (i + 1) * 272 = p + 272 + i * 272 by ring] at hs
      exact List.mem_append_right _ (ih (p := p + 272) (Nat.lt_of_succ_lt_succ hi) s hs)

theorem listStores_laid {l : Option (List DomainListEntry)}
    (hl : ∀ es ∈ l, es.length ≤ 255 ∧ ∀ e ∈ es, e.Ok) : Laid 12 (listStores l) (20 + 255 * 272) := by
  cases l with
  | none => exact Nat.le_of_ble_eq_true rfl
  | some es =>
    obtain ⟨hlen, hes⟩ := hl es rfl
    have hend : 20 + es.length * 272 ≤ 20 + 255 * 272 := by omega
    have hentries := (entryStores_laid hes 20).append (laid_nil.mpr hend)
    rw [List.append_nil] at hentries
    refine ⟨le_refl 12, show 12 + 1 ≤ 16 by decide, ?_⟩
    rwa [leBytes_length]

theorem GetDomainListResp.stores_laid (hr : r.Ok) : Laid 0 r.stores (20 + 255 * 272) := by
  have htotal : Laid 4 (optStores 4 6 r.total_domains) 8 :=
    optStores_laid (le_refl 4) (by decide) (by decide) _
  have hrevision : Laid 8 (optStores 8 10 r.db_revision) 12 :=
    optStores_laid (le_refl 8) (by decide) (by decide) _
  refine ⟨le_refl 0, ?_⟩
  rw [List.length_append, leBytes_length, leBytes_length]
  exact (htotal.append hrevision).append (listStores_laid hr)

/-- What no store of the response covers is 0. -/
theorem GetDomainListResp.cstruct_zero {a : ℕ} (h : ¬ Covers r.stores a) : r.cstruct a = 0 :=
  applyStores_of_not_covers _ h

theorem GetDomainListResp.cstruct_number {flag value : ℕ} {n : Option UInt16} (hr : r.Ok)
    (hmem : ∀ s ∈ optStores flag value n, s ∈ r.stores)
    (hnone : n = none → ¬ Covers r.stores flag) : ShowsNumber r.cstruct flag value n := by
  cases n with
  | none => exact cstruct_zero (hnone rfl)
  | some n =>
    have hflag : Holds r.cstruct flag [1] := (stores_laid hr).holds (hmem _ List.mem_cons_self) _
    exact ⟨holds_singleton.mp hflag,
      (stores_laid hr).holds (hmem _ (List.mem_cons_of_mem _ List.mem_cons_self)) _⟩

theorem covers_stores (r : GetDomainListResp) (a : ℕ) : Covers r.stores a ↔
    a < 4 ∨ Covers (optStores 4 6 r.total_domains) a ∨ Covers (optStores 8 10 r.db_revision) a ∨
      Covers (listStores r.domain_list) a := by
  have hfirst : Covers [⟨0, leBytes 2 r.result.toNat ++ leBytes 2 r.error.toNat⟩] a ↔ a < 4 := by
    rw [covers_singleton]
    simp
  rw [← hfirst, ← covers_append, ← covers_append, ← covers_append, ← List.append_assoc (optStores _ _ _)]
  rfl

/-- **The struct of the server** shows its response. -/
theorem GetDomainListResp.shows (hr : r.Ok) : Shows r.cstruct r := by
  have hlaid := stores_laid hr
  have hfirst : Holds r.cstruct 0 (leBytes 2 r.result.toNat ++ leBytes 2 r.error.toNat) :=
    hlaid.holds List.mem_cons_self _
  have htotal : Laid 4 (optStores 4 6 r.total_domains) 8 :=
    optStores_laid (le_refl 4) (by decide) (by decide) _
  have hrevision : Laid 8 (optStores 8 10 r.db_revision) 12 :=
    optStores_laid (le_refl 8) (by decide) (by decide) _
  have hlist := listStores_laid hr
  refine ⟨hfirst.left, ?_, ?_, ?_, ?_⟩
  · have herror := hfirst.right
    rwa [leBytes_length] at herror
  -- each number is stored with its flag, or its flag lies where nothing is stored
  · refine cstruct_number hr (fun s hs => ?_) fun hnone hc => ?_
    · exact List.mem_cons_of_mem _ (List.mem_append_left _ (List.mem_append_left _ hs))
    · rw [covers_stores, hnone] at hc
      rcases hc with hc | hc | hc | hc
      · omega
      · exact not_covers_nil hc
      · exact absurd (hrevision.covers hc).1 (by decide)
      · exact absurd (hlist.covers hc).1 (by decide)
  · refine cstruct_number hr (fun s hs => ?_) fun hnone hc => ?_
    · exact List.mem_cons_of_mem _ (List.mem_append_left _ (List.mem_append_right _ hs))
    · rw [covers_stores, hnone] at hc
      rcases hc with hc | hc | hc | hc
      · omega
      · exact absurd (htotal.covers hc).2 (by decide)
      · exact not_covers_nil hc
      · exact absurd (hlist.covers hc).1 (by decide)
  · have hmem : ∀ s ∈ listStores r.domain_list, Holds r.cstruct s.addr s.bytes := fun s hs =>
      hlaid.holds (List.mem_cons_of_mem _ (List.mem_append_right _ hs)) _
    cases hl : r.domain_list with
    | none =>
      refine cstruct_zero fun hc => ?_
      rw [covers_stores, hl] at hc
      rcases hc with hc | hc | hc | hc
      · omega
      · exact absurd (htotal.covers hc).2 (by decide)
      · exact absurd (hrevision.covers hc).2 (by decide)
      · exact not_covers_nil hc
    | some es =>
      rw [hl] at hmem
      have hflag : Holds r.cstruct 12 [1] := hmem _ List.mem_cons_self
      refine ⟨holds_singleton.mp hflag, hmem _ (List.mem_cons_of_mem _ List.mem_cons_self), ?_⟩
      intro i hi
      -- an entry is stored where its index says, in a struct of 272 bytes
      have hentry : ∀ s ∈ es[i].stores (20 + i * 272), Holds r.cstruct s.addr s.bytes := fun s hs =>
        hmem s (List.mem_cons_of_mem _ (List.mem_cons_of_mem _ (mem_entryStores hi s hs)))
      rw [DomainListEntry.stores] at hentry
      simp only [List.forall_mem_cons] at hentry
      exact ⟨hentry.2.1, hentry.2.2.1, hentry.2.2.2.1, hentry.2.2.2.2.1⟩

end Struct

/-! ## The response on the wire

The layout of the encoder for a struct that shows a response depends on the response only. -/

/-- An entry on the wire. -/
def DomainListEntry.wire (e : DomainListEntry) : List UInt8 :=
  leBytes 1 e.name.length ++ e.name ++ leBytes 4 e.instance_id.toNat ++ [e.service_data_valid] ++
    leBytes 4 e.service_data.toNat

/-- The TLV of a number. -/
def numberWire (type : UInt8) : Option UInt16 → List UInt8
  | none => []
  | some n => type :: leBytes 2 2 ++ leBytes 2 n.toNat

/-- The TLV of the list of the domains. -/
def listWire : Option (List DomainListEntry) → List UInt8
  | none => []
  | some es =>
    let body := leBytes 1 es.length ++ es.flatMap DomainListEntry.wire
    18 :: leBytes 2 body.length ++ body

/-- The payload of a response. -/
def GetDomainListResp.wire (r : GetDomainListResp) : List UInt8 :=
  2 :: leBytes 2 4 ++ (leBytes 2 r.result.toNat ++ leBytes 2 r.error.toNat) ++
    numberWire 16 r.total_domains ++ numberWire 17 r.db_revision ++ listWire r.domain_list

/-- An optional number in the table. -/
def numberGroup (type : UInt8) (flag value : ℕ) : Group :=
  ⟨some ⟨.optFlag, 1, 1, .noArray, type, flag, []⟩, none,
    ⟨.unsigned2Byte, 1, 2, .noArray, type, value, []⟩⟩

/-- The optional list in the table. -/
def listGroup : Group :=
  ⟨some ⟨.optFlag, 1, 1, .noArray, 18, 12, []⟩, some ⟨.dataLen, 1, 1, .noArray, 18, 16, []⟩,
    ⟨.struct, 255, 272, .varLenArray, 18, 20, servreg_loc_domain_list_entry_ei⟩⟩

/-- The table of the response. -/
def respGroups : List Group := [resultGroup, numberGroup 16 4 6, numberGroup 17 8 10, listGroup]

theorem resp_ei_eq : servreg_loc_get_domain_list_resp_ei = messageTable respGroups := rfl

section Table

variable (width : ElemInfo → ℕ)

theorem numberGroup_ok {type : UInt8} (htype : type ≠ 0) (flag value : ℕ) :
    (numberGroup type flag value).Ok width := by
  have hscalar : ScalarOk ⟨.optFlag, 1, 1, .noArray, type, flag, []⟩ := ⟨by simp, by simp⟩
  refine ⟨htype, ?_, ?_, ⟨.inl rfl, ?_, ?_⟩, ?_, ?_, ?_⟩
  all_goals simp [numberGroup, Group.type, hscalar]

theorem nestedOk_entry : NestedOk width servreg_loc_domain_list_entry_ei := by
  refine .single ⟨?_, ?_, ?_⟩ ?_ ?_ ?_ ?_ (.single ⟨?_, ?_, ?_⟩ ?_ ?_ ?_ ?_
    (.single ⟨?_, ?_, ?_⟩ ?_ ?_ ?_ ?_ (.single ⟨?_, ?_, ?_⟩ ?_ ?_ ?_ ?_ .nil)))
  all_goals simp [ElemType.isBasic]

theorem listGroup_ok : listGroup.Ok fun _ => 4 := by
  have hscalar : ∀ e : ElemInfo, e.array_type = .noArray → ScalarOk e :=
    fun e he => ⟨by simp [he], by simp [he]⟩
  refine ⟨by decide, ?_, ?_, ⟨?_, ?_, ?_⟩, ?_, ?_, fun _ => nestedOk_entry _⟩
  case refine_2 =>
    rintro l ⟨⟩
    exact ⟨⟨hscalar _ rfl, rfl, rfl, le_refl 4⟩, rfl⟩
  all_goals simp [listGroup, Group.type, hscalar, servreg_loc_domain_list_entry_ei]

theorem respGroups_ok : MessageOk (fun _ => 4) respGroups := by
  refine ⟨?_, by decide⟩
  simp only [respGroups, List.forall_mem_cons, List.not_mem_nil, false_imp_iff, implies_true, and_true]
  exact ⟨resultGroup_ok _, numberGroup_ok _ (by decide) 4 6, numberGroup_ok _ (by decide) 8 10,
    listGroup_ok⟩

end Table

section Encode

variable {m : Mem} {r : GetDomainListResp}

theorem ShowsNumber.present {type : UInt8} {flag value : ℕ} {n : Option UInt16}
    (h : ShowsNumber m flag value n) : (numberGroup type flag value).present m 0 = n.isSome := by
  have hflag : (numberGroup type flag value).present m 0 = decide (m flag ≠ 0) := by
    rw [Group.present, numberGroup]
    simp
  rw [hflag]
  cases n with
  | none => exact decide_eq_false (not_not.mpr h)
  | some n => simp [h.1]

theorem ShowsList.present {l : Option (List DomainListEntry)} (h : ShowsList m l) :
    listGroup.present m 0 = l.isSome := by
  have hflag : listGroup.present m 0 = decide (m 12 ≠ 0) := rfl
  rw [hflag]
  cases l with
  | none => exact decide_eq_false (not_not.mpr h)
  | some es => simp [h.1]

/-- The count in front of the entries. -/
theorem ShowsList.count {es : List DomainListEntry} (h : ShowsList m (some es)) (hes : es.length ≤ 255) :
    itemCount (fun _ => 4) m 0 listGroup.len listGroup.elem = es.length := by
  show leNat (bytesAt m (0 + 16) 4) = es.length
  rw [Nat.zero_add, h.2.1.bytesAt_eq (leBytes_length 4 _), leNat_leBytes 4 _ (by omega)]

/-- The number in a TLV. -/
theorem ShowsNumber.tlv {type : UInt8} {flag value : ℕ} {n : Option UInt16}
    (h : ShowsNumber m flag value n) :
    (numberGroup type flag value).tlv (fun _ => 4) m 0 = numberWire type n := by
  rw [Group.tlv, h.present]
  cases n with
  | none => rfl
  | some n =>
    have hbody : (numberGroup type flag value).body (fun _ => 4) m 0 = leBytes 2 n.toNat := by
      show [] ++ bytesAt m (0 + value) (1 * 2) = _
      rw [List.nil_append, Nat.zero_add, h.2.bytesAt_eq (leBytes_length 2 _)]
    rw [Option.isSome_some, if_pos rfl, hbody, leBytes_length]
    rfl

theorem ShowsEntry.wire {p : ℕ} {e : DomainListEntry} (h : ShowsEntry m p e) (he : e.Ok) :
    wire (fun _ => 4) servreg_loc_domain_list_entry_ei m p = e.wire := by
  have hlen : strlen m (p + 4) = e.name.length := strlen_eq h.name he.1 (by have := he.2; omega)
  have hname : bytesAt m (p + 4) e.name.length = e.name := h.name.left
  have hitems : Qmi.wire (fun _ => 4) servreg_loc_domain_list_entry_ei m p =
      (leBytes 1 (strlen m (p + 4)) ++ bytesAt m (p + 4) (strlen m (p + 4))) ++
        (bytesAt m (p + 260) (1 * 4) ++ (bytesAt m (p + 264) (1 * 1) ++ (bytesAt m (p + 268) (1 * 4) ++ []))) :=
    rfl
  rw [hitems, hlen, hname, h.instance_id.bytesAt_eq (by simp),
    h.service_data_valid.bytesAt_eq (by simp), h.service_data.bytesAt_eq (by simp),
    DomainListEntry.wire]
  simp only [List.append_nil, List.append_assoc]

/-- The list in a TLV. -/
theorem ShowsList.tlv {l : Option (List DomainListEntry)} (h : ShowsList m l)
    (hl : ∀ es ∈ l, es.length ≤ 255 ∧ ∀ e ∈ es, e.Ok) :
    listGroup.tlv (fun _ => 4) m 0 = listWire l := by
  rw [Group.tlv, h.present]
  cases l with
  | none => rfl
  | some es =>
    obtain ⟨hlen, hok⟩ := hl es rfl
    have hbody : listGroup.body (fun _ => 4) m 0 = leBytes 1 es.length ++ es.flatMap DomainListEntry.wire := by
      have hitem : listGroup.body (fun _ => 4) m 0 =
          leBytes 1 (itemCount (fun _ => 4) m 0 listGroup.len listGroup.elem) ++
            (List.range (itemCount (fun _ => 4) m 0 listGroup.len listGroup.elem)).flatMap fun i =>
              wire (fun _ => 4) servreg_loc_domain_list_entry_ei m (0 + 20 + i * 272) := rfl
      rw [hitem, h.count hlen]
      congr 1
      rw [List.flatMap, List.flatMap]
      congr 1
      refine List.ext_getElem (by simp) fun i hi hi' => ?_
      rw [List.length_map] at hi'
      rw [List.getElem_map, List.getElem_map, List.getElem_range, Nat.zero_add]
      exact (h.2.2 i hi').wire (hok _ (List.getElem_mem hi'))
    rw [Option.isSome_some, if_pos rfl, hbody, listWire]
    rfl

/-- The payload of a struct that shows a response. -/
theorem Shows.payload (h : Shows m r) (hr : r.Ok) : payload (fun _ => 4) respGroups m 0 = r.wire := by
  have hresult : bytesAt m 0 4 = leBytes 2 r.result.toNat ++ leBytes 2 r.error.toNat := by
    rw [show (4 : ℕ) = 2 + 2 from rfl, bytesAt_add, h.result.bytesAt_eq (leBytes_length 2 _),
      h.error.bytesAt_eq (leBytes_length 2 _)]
  have hgroups : Qmi.payload (fun _ => 4) respGroups m 0 =
      resultGroup.tlv (fun _ => 4) m 0 ++ ((numberGroup 16 4 6).tlv (fun _ => 4) m 0 ++
        ((numberGroup 17 8 10).tlv (fun _ => 4) m 0 ++ (listGroup.tlv (fun _ => 4) m 0 ++ []))) := rfl
  rw [hgroups, Rmtfs.resultGroup_tlv, hresult, h.total_domains.tlv, h.db_revision.tlv,
    h.domain_list.tlv hr, GetDomainListResp.wire]
  simp only [List.append_nil, List.append_assoc]

/-! ### Fields -/

theorem ShowsNumber.valid {type : UInt8} {flag value : ℕ} {n : Option UInt16}
    (h : ShowsNumber m flag value n) :
    (∀ f ∈ (numberGroup type flag value).flag, m (0 + f.offset) = 0 ∨ m (0 + f.offset) = 1) ∧
      itemValid (fun _ => 4) m 0 (numberGroup type flag value).len
        ((numberGroup type flag value).elem, Valid (fun _ => 4) (numberGroup type flag value).elem.ei_array) := by
  refine ⟨?_, by simp [numberGroup], by simp [numberGroup], by simp [numberGroup]⟩
  rintro f ⟨⟩
  rw [Nat.zero_add]
  cases n with
  | none => exact .inl h
  | some n => exact .inr h.1

theorem ShowsEntry.valid {p : ℕ} {e : DomainListEntry} (h : ShowsEntry m p e) (he : e.Ok) :
    Valid (fun _ => 4) servreg_loc_domain_list_entry_ei m p := by
  have hend : m (p + 4 + e.name.length) = 0 := holds_singleton.mp h.name.right
  rw [valid_eq]
  intro it hit
  simp only [servreg_loc_domain_list_entry_ei, List.map_cons, List.map_nil, items, reduceCtorEq,
    if_false, List.mem_cons, List.not_mem_nil, or_false] at hit
  rcases hit with rfl | rfl | rfl | rfl
  · exact ⟨by simp, fun _ => ⟨e.name.length, he.2, hend⟩, by simp⟩
  all_goals simp [itemValid]

/-- A struct that shows a response is valid. -/
theorem Shows.messageValid (h : Shows m r) (hr : r.Ok) : MessageValid (fun _ => 4) respGroups m 0 := by
  have hresult : ∀ base, Valid (fun _ => 4) servreg_loc_qmi_result_ei m base := by
    intro base
    rw [valid_eq]
    intro it hit
    simp only [servreg_loc_qmi_result_ei, List.map_cons, List.map_nil, items, reduceCtorEq, if_false,
      List.mem_cons, List.not_mem_nil, or_false] at hit
    rcases hit with rfl | rfl <;> simp [itemValid]
  simp only [MessageValid, respGroups, List.forall_mem_cons, List.not_mem_nil, false_imp_iff,
    implies_true, and_true]
  refine ⟨⟨fun f hf => absurd hf (Option.not_mem_none f), fun _ => ?_⟩, ?_, ?_, ?_, fun hpresent => ?_⟩
  · exact ⟨fun l hl => absurd hl (Option.not_mem_none l), fun hs => absurd hs (by decide),
      fun _ _ _ => hresult _⟩
  · exact ⟨h.total_domains.valid.1, fun _ => h.total_domains.valid.2⟩
  · exact ⟨h.db_revision.valid.1, fun _ => h.db_revision.valid.2⟩
  · rintro f ⟨⟩
    have hlist := h.domain_list
    cases hl : r.domain_list with
    | none =>
      rw [hl] at hlist
      exact .inl hlist
    | some es =>
      rw [hl] at hlist
      exact .inr hlist.1
  · have hlist := h.domain_list
    rw [hlist.present] at hpresent
    obtain ⟨es, hl⟩ := Option.isSome_iff_exists.mp hpresent
    obtain ⟨hlen, hok⟩ := hr es hl
    rw [hl] at hlist
    refine ⟨fun _ _ => ?_, fun hs => absurd hs (by decide), fun _ i hi => ?_⟩
    · rw [hlist.count hlen]
      exact hlen
    · rw [hlist.count hlen] at hi
      show Valid (fun _ => 4) servreg_loc_domain_list_entry_ei m (0 + 20 + i * 272)
      rw [Nat.zero_add]
      exact (hlist.2.2 i hi).valid (hok _ (List.getElem_mem hi))

/-- The described fields of an entry at `p`. -/
def entryFields (m : Mem) (p : ℕ) : List Region :=
  [(p + 4, strlen m (p + 4) + 1), (p + 260, 4), (p + 264, 1), (p + 268, 4)]

theorem respFields_eq (m : Mem) : messageFields (fun _ => 4) respGroups m 0 =
    [(0, 2), (2, 2)] ++ (((4, 1) :: if (numberGroup 16 4 6).present m 0 then [(6, 2)] else []) ++
      (((8, 1) :: if (numberGroup 17 8 10).present m 0 then [(10, 2)] else []) ++
        (((12, 1) :: if listGroup.present m 0 then
          (16, 4) :: (List.range (itemCount (fun _ => 4) m 0 listGroup.len listGroup.elem)).flatMap
            fun i => entryFields m (0 + 20 + i * 272) else []) ++ []))) := by
  rfl

/-- A described field has the same bytes. -/
theorem holds_transfer {dst : Mem} {rs : List Region} {p n : ℕ} {bs : List UInt8} (hmem : (p, n) ∈ rs)
    (hn : bs.length = n) (h : Holds m p bs) (hdst : ∀ a, Within rs a → dst a = m a) :
    Holds dst p bs := by
  rw [Holds, ← h.bytesAt_eq rfl]
  refine List.ext_getElem (by simp) fun i hi _ => ?_
  simp only [bytesAt_length] at hi
  rw [bytesAt_getElem, bytesAt_getElem]
  exact hdst _ ⟨(p, n), hmem, Nat.le_add_right p i, by omega⟩

theorem ShowsNumber.transfer {dst : Mem} {rs : List Region} {flag value : ℕ} {n : Option UInt16}
    (h : ShowsNumber m flag value n) (type : UInt8)
    (hrs : ∀ r ∈ ((flag, 1) :: if (numberGroup type flag value).present m 0 then [(value, 2)] else []),
      r ∈ rs) (hdst : ∀ a, Within rs a → dst a = m a) : ShowsNumber dst flag value n := by
  have hflag : dst flag = m flag :=
    hdst flag ⟨(flag, 1), hrs _ List.mem_cons_self, le_refl flag, Nat.lt_succ_self flag⟩
  rw [h.present] at hrs
  cases n with
  | none => exact hflag.trans h
  | some n =>
    have hvalue : (value, 2) ∈ rs := hrs _ (List.mem_cons_of_mem _ (List.mem_singleton.mpr rfl))
    exact ⟨hflag.trans h.1, holds_transfer hvalue (leBytes_length 2 _) h.2 hdst⟩

theorem ShowsEntry.transfer {dst : Mem} {rs : List Region} {p : ℕ} {e : DomainListEntry}
    (h : ShowsEntry m p e) (he : e.Ok) (hrs : ∀ r ∈ entryFields m p, r ∈ rs)
    (hdst : ∀ a, Within rs a → dst a = m a) : ShowsEntry dst p e := by
  have hlen : strlen m (p + 4) = e.name.length := strlen_eq h.name he.1 (by have := he.2; omega)
  simp only [entryFields, hlen, List.forall_mem_cons] at hrs
  obtain ⟨hname, hid, hvalid, hdata, -⟩ := hrs
  exact ⟨holds_transfer hname (by simp) h.name hdst,
    holds_transfer hid (by simp) h.instance_id hdst,
    holds_transfer hvalid (by simp) h.service_data_valid hdst,
    holds_transfer hdata (by simp) h.service_data hdst⟩

theorem ShowsList.transfer {dst : Mem} {rs : List Region} {l : Option (List DomainListEntry)}
    (h : ShowsList m l) (hl : ∀ es ∈ l, es.length ≤ 255 ∧ ∀ e ∈ es, e.Ok)
    (hrs : ∀ r ∈ ((12, 1) :: if listGroup.present m 0 then
      (16, 4) :: (List.range (itemCount (fun _ => 4) m 0 listGroup.len listGroup.elem)).flatMap
        fun i => entryFields m (0 + 20 + i * 272) else []), r ∈ rs)
    (hdst : ∀ a, Within rs a → dst a = m a) : ShowsList dst l := by
  have hflag : dst 12 = m 12 :=
    hdst 12 ⟨(12, 1), hrs _ List.mem_cons_self, le_refl 12, Nat.lt_succ_self 12⟩
  rw [h.present] at hrs
  cases l with
  | none => exact hflag.trans h
  | some es =>
    obtain ⟨hlen, hok⟩ := hl es rfl
    rw [Option.isSome_some, if_pos rfl, h.count hlen] at hrs
    obtain ⟨-, hcount, hentries⟩ :=
      And.imp_right List.forall_mem_cons.mp (List.forall_mem_cons.mp hrs)
    refine ⟨hflag.trans h.1, holds_transfer hcount (leBytes_length 4 _) h.2.1 hdst, fun i hi => ?_⟩
    refine (h.2.2 i hi).transfer (hok _ (List.getElem_mem hi)) (fun r hr => hentries r ?_) hdst
    rw [← Nat.zero_add 20] at hr
    exact List.mem_flatMap.mpr ⟨i, List.mem_range.mpr hi, hr⟩

/-- What is shown is in the described fields, so that a struct with the same bytes there shows it too. -/
theorem Shows.transfer {dst : Mem} (h : Shows m r) (hr : r.Ok)
    (hdst : ∀ a, Within (messageFields (fun _ => 4) respGroups m 0) a → dst a = m a) : Shows dst r := by
  rw [respFields_eq] at hdst
  refine ⟨?_, ?_, h.total_domains.transfer 16 (fun r hr => ?_) hdst,
    h.db_revision.transfer 17 (fun r hr => ?_) hdst, h.domain_list.transfer hr (fun r hr => ?_) hdst⟩
  · exact holds_transfer (List.mem_append_left _ (by decide)) (leBytes_length 2 _) h.result hdst
  · exact holds_transfer (List.mem_append_left _ (by decide)) (leBytes_length 2 _) h.error hdst
  · exact List.mem_append_right _ (List.mem_append_left _ hr)
  · exact List.mem_append_right _ (List.mem_append_right _ (List.mem_append_left _ hr))
  · exact List.mem_append_right _ (List.mem_append_right _
      (List.mem_append_right _ (List.mem_append_left _ hr)))

end Encode

/-! ## Sent and received

What the client decodes has the same described fields as the struct of the server, by the round
trip of the codec, and therefore shows the same response. -/

section Messages

variable {r : GetDomainListResp}

/-- **The response that is sent** has the header of a response and the bytes of the answer. -/
theorem respond_eq (hr : r.Ok) (hfits : r.wire.length ≤ 249) (locals : Locals) (pkt : QrtrPacket)
    (txn : ℕ) :
    respond locals pkt txn r = [⟨pkt.node, pkt.port,
      qmi_header QMI_RESPONSE txn SERVREG_LOC_GET_DOMAIN_LIST r.wire.length ++ r.wire⟩] := by
  have hpayload : payload (fun _ => 4) respGroups r.cstruct 0 = r.wire := r.shows hr |>.payload hr
  obtain ⟨hok, hplaces⟩ := qmi_encode_message_packet respGroups_ok ((r.shows hr).messageValid hr)
    QMI_RESPONSE SERVREG_LOC_GET_DOMAIN_LIST txn (show 256 < 2 ^ 32 by decide)
    (by rw [hpayload, QMI_HEADER_SIZE]; omega)
  rw [hpayload, ← resp_ei_eq] at hok hplaces
  have hbytes := (holds_writeAt locals.resp_buf 0
    (qmi_header QMI_RESPONSE txn SERVREG_LOC_GET_DOMAIN_LIST r.wire.length ++ r.wire)).bytesAt_eq
    (show _ = QMI_HEADER_SIZE + r.wire.length by
      simp only [qmi_header, List.length_append, leBytes_length, QMI_HEADER_SIZE])
  simp only [respond, hok, hplaces locals.resp_buf]
  rw [hbytes]

/-- **A client has the response again** when it decodes the packet into a zeroed struct. -/
theorem client_reads (hr : r.Ok) (hfits : r.wire.length ≤ 249) {txn : ℕ} (htxn : txn < 2 ^ 16)
    {buf : Mem} (hbuf : Holds buf 0
      (qmi_header QMI_RESPONSE txn SERVREG_LOC_GET_DOMAIN_LIST r.wire.length ++ r.wire)) :
    ∃ dec, qmi_decode_message buf (QMI_HEADER_SIZE + r.wire.length) QMI_RESPONSE
        SERVREG_LOC_GET_DOMAIN_LIST 0 servreg_loc_get_domain_list_resp_ei = (some txn, dec) ∧
      dec.result = .ok r.wire.length ∧ respAt (applyStores (fun _ => 0) dec.stores) = r := by
  have hshows := r.shows hr
  have hpayload : payload (fun _ => 4) respGroups r.cstruct 0 = r.wire := hshows.payload hr
  obtain ⟨htype, hid, hmsg, -⟩ := holds_header (show QMI_RESPONSE < 2 ^ 8 by decide)
    (show SERVREG_LOC_GET_DOMAIN_LIST < 2 ^ 16 by decide) htxn (by omega) hbuf.left
  have hbody : Holds buf QMI_HEADER_SIZE r.wire := by
    simpa [qmi_header, QMI_HEADER_SIZE] using hbuf.right
  have hsub : wsub (QMI_HEADER_SIZE + r.wire.length) QMI_HEADER_SIZE = r.wire.length := by
    rw [wsub_of_le (Nat.le_add_right _ _) (by unfold QMI_HEADER_SIZE; omega), Nat.add_sub_cancel_left]
  rw [← hpayload] at hbody
  obtain ⟨hok, hrestores⟩ := qmi_decode_payload respGroups_ok (hshows.messageValid hr) hbody
    (by rw [hpayload]; omega)
  rw [hpayload, ← resp_ei_eq] at hok hrestores
  refine ⟨_, ?_, hok, ?_⟩
  · have hne : ¬ QMI_HEADER_SIZE + r.wire.length = 0 := by
      unfold QMI_HEADER_SIZE
      omega
    rw [qmi_decode_message, if_neg hne, if_neg (not_not.mpr htype), if_neg (not_not.mpr hmsg), hid,
      hsub]
  · exact (hshows.transfer hr fun a ha => (hrestores.apply a).1 ha).respAt hr

end Messages

end Dragonboard.PdMapper
