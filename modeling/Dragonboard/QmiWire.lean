/-
The wire format of QMI messages, and the C structs it can carry.

A table is a sequence of items: an element, or a count and the array behind it. At level 1 an
item may have a flag in front, and flag, count and element share the type of their TLV. This
file says what such a table means without an encoder or a decoder: `wire` is the bytes of
a struct, `fields` the regions of the struct that the table describes and the struct's own
flags and counts declare present, `Valid` what is required of the struct.

Counts are described in the tables by an `elem_size` of 1, the byte that goes on the
wire, while the field of the struct is wider. Its width is not in the table, so it
is a parameter, `width`, of the definitions that look at the struct.
-/
import Dragonboard.Qmi

set_option autoImplicit false

namespace Dragonboard.Qmi

open Dragonboard.Memory

/-! ## Items

An array has its count in an element of its own, directly in front of it. The wire format is
easier to state over pairs, so a table is first read as a list of items. -/

/-- The items of a table: every element, with the count directly in front of it. -/
def items {D : Type} : List (ElemInfo × D) → List (Option ElemInfo × ElemInfo × D)
  | [] => []
  | [e] => [(none, e)]
  | l :: e :: rest =>
    if l.1.data_type = .dataLen then (some l.1, e) :: items rest else (none, l) :: items (e :: rest)

theorem items_single {D : Type} {e : ElemInfo × D} (he : e.1.data_type ≠ .dataLen)
    (rest : List (ElemInfo × D)) : items (e :: rest) = (none, e) :: items rest := by
  cases rest with
  | nil => rfl
  | cons a rest => rw [items, if_neg he]

theorem items_counted {D : Type} {l : ElemInfo × D} (hl : l.1.data_type = .dataLen)
    (e : ElemInfo × D) (rest : List (ElemInfo × D)) :
    items (l :: e :: rest) = (some l.1, e) :: items rest := by
  rw [items, if_pos hl]

section Width

/-! ## Well-formed tables

What the users of the coder keep to, without which nothing below holds: a count has one byte on
the wire, a string is a single field, a nested table has no flags, and the elements of a TLV stand
together. -/

variable (width : ElemInfo → ℕ)

/-- A flag or a count describes a single field; if it is declared as an array, of a fixed
length. -/
structure ScalarOk (e : ElemInfo) : Prop where
  scalar : e.array_type ≠ .varLenArray
  static : e.array_type = .staticArray → 1 ≤ e.elem_len ∧ e.elem_len ≤ 255

/-- A count of one byte on the wire, in a field of at least four bytes. -/
structure CountOk (l : ElemInfo) : Prop extends ScalarOk l where
  type : l.data_type = .dataLen
  size : l.elem_size = 1
  wide : 4 ≤ width l

/-- An element that is neither flag nor count. -/
structure ElemOk (e : ElemInfo) : Prop where
  kind : e.data_type.isBasic = true ∨ e.data_type = .struct ∨ e.data_type = .string
  array : e.array_type ≠ .noArray → 1 ≤ e.elem_len ∧ e.elem_len ≤ 255
  string : e.data_type = .string →
    e.elem_size = 1 ∧ e.array_type = .noArray ∧ e.elem_len < 2 ^ 32

/-- A nested table: items without flags, of elements with a size, and so on through the tables of
its structures. -/
inductive NestedOk : List ElemInfo → Prop
  | nil : NestedOk []
  | single {e : ElemInfo} {rest : List ElemInfo} (he : ElemOk e) (hsize : 0 < e.elem_size)
      (harray : e.array_type ≠ .varLenArray) (hne : e.data_type = .struct → e.ei_array ≠ [])
      (hnested : e.data_type = .struct → NestedOk e.ei_array) (hrest : NestedOk rest) :
      NestedOk (e :: rest)
  | counted {l e : ElemInfo} {rest : List ElemInfo} (hl : CountOk width l) (he : ElemOk e)
      (hsize : 0 < e.elem_size) (harray : e.array_type = .varLenArray)
      (hne : e.data_type = .struct → e.ei_array ≠ [])
      (hnested : e.data_type = .struct → NestedOk e.ei_array) (hrest : NestedOk rest) :
      NestedOk (l :: e :: rest)

/-- A group of level-1 elements: an element, a count before it, a flag before both. -/
structure Group where
  flag : Option ElemInfo
  len : Option ElemInfo
  elem : ElemInfo

namespace Group

/-- The elements of a group in the table. -/
def elems (g : Group) : List ElemInfo := g.flag.toList ++ g.len.toList ++ [g.elem]

/-- The type of the group's TLV. -/
def type (g : Group) : UInt8 := g.elem.tlv_type

/-- A well-formed group. -/
structure Ok (g : Group) : Prop where
  type_ne : g.type ≠ 0
  flag : ∀ f ∈ g.flag, ScalarOk f ∧ f.data_type = .optFlag ∧ f.tlv_type = g.type
  len : ∀ l ∈ g.len, CountOk width l ∧ l.tlv_type = g.type
  elem : ElemOk g.elem
  counted : g.elem.array_type = .varLenArray ↔ g.len.isSome
  nonempty : g.elem.data_type = .struct → g.elem.ei_array ≠ []
  nested : g.elem.data_type = .struct → NestedOk width g.elem.ei_array

end Group

/-- The descriptor table of a list of groups. -/
def messageTable (gs : List Group) : List ElemInfo := gs.flatMap Group.elems

/-- A table is entered at the first element of a type. -/
theorem find_ei_append {D : Type} {t : UInt8} (pre post : List (ElemInfo × D))
    (hpre : ∀ e ∈ pre, e.1.tlv_type ≠ t) : find_ei (pre ++ post) t = find_ei post t := by
  induction pre with
  | nil => rfl
  | cons e pre ih =>
    rw [List.cons_append, find_ei, if_neg (hpre e List.mem_cons_self)]
    exact ih fun x hx => hpre x (List.mem_cons_of_mem _ hx)

/-- The type of a group leads to its first element. -/
theorem find_ei_group {D : Type} {f : ElemInfo → D} {g : Group} {gs₁ gs₂ : List Group}
    (htype : ∀ g' ∈ gs₁ ++ g :: gs₂, ∀ e ∈ g'.elems, e.tlv_type = g'.type)
    (hnodup : ((gs₁ ++ g :: gs₂).map Group.type).Nodup) :
    find_ei ((messageTable (gs₁ ++ g :: gs₂)).map fun e => (e, f e)) g.type =
      some ((g.elems ++ messageTable gs₂).map fun e => (e, f e)) := by
  have htable : messageTable (gs₁ ++ g :: gs₂) =
      messageTable gs₁ ++ (g.elems ++ messageTable gs₂) := by
    simp [messageTable]
  rw [List.map_append, List.map_cons, List.nodup_append] at hnodup
  rw [htable, List.map_append, find_ei_append]
  · obtain ⟨x, xs, hx⟩ := List.exists_cons_of_ne_nil (l := g.elems) (by simp [Group.elems])
    have hfirst := htype g (by simp) x (by simp [hx])
    rw [hx, List.cons_append, List.map_cons, find_ei, if_pos hfirst]
  · intro e he
    obtain ⟨e', he', rfl⟩ := List.mem_map.mp he
    obtain ⟨g', hg', heg⟩ := List.mem_flatMap.mp he'
    rw [htype g' (by simp [hg']) e' heg]
    exact hnodup.2.2 _ (List.mem_map_of_mem hg') _ List.mem_cons_self

/-- A type that no group has leads nowhere. -/
theorem find_ei_none {D : Type} {f : ElemInfo → D} {t : UInt8} {gs : List Group}
    (htype : ∀ g ∈ gs, ∀ e ∈ g.elems, e.tlv_type = g.type) (ht : ∀ g ∈ gs, g.type ≠ t) :
    find_ei ((messageTable gs).map fun e => (e, f e)) t = none := by
  rw [← List.append_nil ((messageTable gs).map fun e => (e, f e)), find_ei_append]
  · rfl
  · intro e he
    obtain ⟨e', he', rfl⟩ := List.mem_map.mp he
    obtain ⟨g, hg, heg⟩ := List.mem_flatMap.mp he'
    rw [htype g hg e' heg]
    exact ht g hg

/-- A well-formed message: well-formed groups, each with a type of its own. -/
structure MessageOk (gs : List Group) : Prop where
  groups : ∀ g ∈ gs, g.Ok width
  types : (gs.map Group.type).Nodup

/-! ## Structs

The other half: what a C struct must hold to be encoded. Counts are within their arrays and
strings end inside their fields. Fields of groups whose flag is not set may hold anything. -/

/-- The number of elements of an item in the struct at `base`. -/
def itemCount (src : Mem) (base : ℕ) (len : Option ElemInfo) (e : ElemInfo) : ℕ :=
  match len with
  | some l => leNat (bytesAt src (base + l.offset) (width l))
  | none => if e.array_type = .staticArray then e.elem_len else 1

/-- What is required of the fields of an item: a count is at most the length of its array, a
string ends inside its field, and the structures are valid in turn. -/
def itemValid (src : Mem) (base : ℕ) (len : Option ElemInfo) (e : ElemInfo × (Mem → ℕ → Prop)) :
    Prop :=
  (∀ l ∈ len, itemCount width src base len e.1 ≤ e.1.elem_len) ∧
    (e.1.data_type = .string → ∃ i < e.1.elem_len, src (base + e.1.offset + i) = 0) ∧
    (e.1.data_type = .struct → ∀ i < itemCount width src base len e.1,
      e.2 src (base + e.1.offset + i * e.1.elem_size))

/-- The struct at `base` is valid for a nested table. -/
def Valid.table (tab : List (ElemInfo × (Mem → ℕ → Prop))) : Mem → ℕ → Prop :=
  fun src base => ∀ it ∈ items tab, itemValid width src base it.1 it.2

/-- The struct at `base` is valid for a nested table. -/
def Valid (tab : List ElemInfo) : Mem → ℕ → Prop :=
  Valid.table width (resolve (Valid.table width) tab)

theorem valid_eq (tab : List ElemInfo) :
    Valid width tab = Valid.table width (tab.map fun e => (e, Valid width e.ei_array)) := by
  rw [Valid, resolve_eq_map]
  rfl

/-- The group is in the message: it has no flag, or the flag is set. -/
def Group.present (g : Group) (src : Mem) (base : ℕ) : Bool :=
  match g.flag with
  | some f => src (base + f.offset) ≠ 0
  | none => true

/-- The struct at `base` is valid for a message: flags are 0 or 1, and the groups present are
valid. -/
def MessageValid (gs : List Group) (src : Mem) (base : ℕ) : Prop :=
  ∀ g ∈ gs, (∀ f ∈ g.flag, src (base + f.offset) = 0 ∨ src (base + f.offset) = 1) ∧
    (g.present src base → itemValid width src base g.len (g.elem, Valid width g.elem.ei_array))

/-! ## Wire bytes

The format itself, as a function from the struct to bytes that mentions neither buffers nor
cursors. The encoder is proved to produce it, and the decoder to read it back. -/

/-- The bytes of `n` elements. A string of a nested structure has its length in front; one of
the message itself has the length of its TLV. -/
def wireElem (top : Bool) (src : Mem) (base n : ℕ) (e : ElemInfo × (Mem → ℕ → List UInt8)) :
    List UInt8 :=
  match e.1.data_type with
  | .struct => (List.range n).flatMap fun i => e.2 src (base + e.1.offset + i * e.1.elem_size)
  | .string =>
    let len := strlen src (base + e.1.offset)
    (if top then [] else leBytes (string_len_sz e.1.elem_len) len) ++
      bytesAt src (base + e.1.offset) len
  | _ => bytesAt src (base + e.1.offset) (n * e.1.elem_size)

/-- The bytes of an item. -/
def wireItem (top : Bool) (src : Mem) (base : ℕ) (len : Option ElemInfo)
    (e : ElemInfo × (Mem → ℕ → List UInt8)) : List UInt8 :=
  (match len with
    | some _ => leBytes 1 (itemCount width src base len e.1)
    | none => []) ++ wireElem top src base (itemCount width src base len e.1) e

/-- The bytes of a nested structure. -/
def wire.table (tab : List (ElemInfo × (Mem → ℕ → List UInt8))) : Mem → ℕ → List UInt8 :=
  fun src base => (items tab).flatMap fun it => wireItem width false src base it.1 it.2

/-- The bytes of a nested structure. -/
def wire (tab : List ElemInfo) : Mem → ℕ → List UInt8 :=
  wire.table width (resolve (wire.table width) tab)

theorem wire_eq (tab : List ElemInfo) :
    wire width tab = wire.table width (tab.map fun e => (e, wire width e.ei_array)) := by
  rw [wire, resolve_eq_map]
  rfl

/-- The value of a group's TLV. -/
def Group.body (g : Group) (src : Mem) (base : ℕ) : List UInt8 :=
  wireItem width true src base g.len (g.elem, wire width g.elem.ei_array)

/-- A group's TLV, if it is present. -/
def Group.tlv (g : Group) (src : Mem) (base : ℕ) : List UInt8 :=
  if g.present src base then
    g.type :: leBytes 2 (g.body width src base).length ++ g.body width src base
  else []

/-- The payload of a message. -/
def payload (gs : List Group) (src : Mem) (base : ℕ) : List UInt8 :=
  gs.flatMap fun g => g.tlv width src base

/-! ## Described fields

The fields that take part in the comparison after a round trip. Padding, the rest of an array
behind its count and the rest of a string behind its end do not. -/

/-- A region of memory: address and length. -/
abbrev Region : Type := ℕ × ℕ

/-- The address lies in one of the regions. -/
def Within (rs : List Region) (a : ℕ) : Prop := ∃ r ∈ rs, r.1 ≤ a ∧ a < r.1 + r.2

/-- The fields of `n` elements; of a string, its characters and the terminator. -/
def elemFields (src : Mem) (base n : ℕ) (e : ElemInfo × (Mem → ℕ → List Region)) : List Region :=
  match e.1.data_type with
  | .struct => (List.range n).flatMap fun i => e.2 src (base + e.1.offset + i * e.1.elem_size)
  | .string => [(base + e.1.offset, strlen src (base + e.1.offset) + 1)]
  | _ => [(base + e.1.offset, n * e.1.elem_size)]

/-- The fields of an item: the count, and as many elements as it says. -/
def itemFields (src : Mem) (base : ℕ) (len : Option ElemInfo)
    (e : ElemInfo × (Mem → ℕ → List Region)) : List Region :=
  (len.toList.map fun l => (base + l.offset, width l)) ++
    elemFields src base (itemCount width src base len e.1) e

/-- The fields of a nested structure. -/
def fields.table (tab : List (ElemInfo × (Mem → ℕ → List Region))) : Mem → ℕ → List Region :=
  fun src base => (items tab).flatMap fun it => itemFields width src base it.1 it.2

/-- The fields of a nested structure. -/
def fields (tab : List ElemInfo) : Mem → ℕ → List Region :=
  fields.table width (resolve (fields.table width) tab)

theorem fields_eq (tab : List ElemInfo) :
    fields width tab = fields.table width (tab.map fun e => (e, fields width e.ei_array)) := by
  rw [fields, resolve_eq_map]
  rfl

/-- The fields of a message: all flags, and the fields of the groups present. -/
def messageFields (gs : List Group) (src : Mem) (base : ℕ) : List Region :=
  gs.flatMap fun g => (g.flag.toList.map fun f => (base + f.offset, 1)) ++
    if g.present src base then
      itemFields width src base g.len (g.elem, fields width g.elem.ei_array)
    else []

end Width

end Dragonboard.Qmi
