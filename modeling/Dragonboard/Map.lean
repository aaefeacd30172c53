/-
`qcom/qrtr/src/map.c`: the open-addressing hash table of the name server.

A `struct map_entry` holds one pointer, and the code distinguishes three of its
values: `NULL`, the address of the static marker `deleted`, and an item. The
item carries its key (`struct map_item`), and the container it is embedded in
(a `struct server`, a `struct node`) is the type parameter `α`.

`size` is not a field here: `map->data` always has exactly `map->size` entries,
so it is the length of `data`. Sizes, counts and indices are natural numbers,
which agree with the `unsigned` and `int` of the source below `2^31` slots.

`map_reput` and `map_rehash` call each other through `map_put`. The recursion
is cut by a budget, `none` meaning that it ran out; `MapTable.lean` proves that
a budget of two is enough on every table whatsoever, so `map_reput` itself (the
budget fixed at two) is the function of the source.
-/
import Dragonboard.Probe
import Mathlib.Data.List.Perm.Basic
import Mathlib.Data.List.Nodup

set_option autoImplicit false

namespace Dragonboard.QrtrMap

/-! ## The table

An entry of `map->data` points to the embedded `struct map_item` of a user struct. The model keeps
the user item and its key in the entry, which is the same thing as long as no item is in the table
twice; `MapRun.setKey` has the case in which it is. -/

/-- `struct map_entry`: a null pointer, the `deleted` marker, or an item with
the key stored in its `struct map_item`. -/
inductive MapEntry (α : Type) where
  | null
  | deleted
  | item (key : UInt32) (value : α)
deriving DecidableEq, Repr

variable {α : Type}

/-- The live item of an entry: `e->item && e->item != &deleted`. -/
def MapEntry.live : MapEntry α → Option (UInt32 × α)
  | .item key value => some (key, value)
  | _ => none

@[simp] theorem MapEntry.live_null : (MapEntry.null : MapEntry α).live = none := rfl

@[simp] theorem MapEntry.live_deleted : (MapEntry.deleted : MapEntry α).live = none := rfl

@[simp] theorem MapEntry.live_item (k : UInt32) (v : α) :
    (MapEntry.item k v).live = some (k, v) := rfl

theorem MapEntry.live_eq_some {e : MapEntry α} {k : UInt32} {v : α} :
    e.live = some (k, v) ↔ e = .item k v := by
  cases e <;> simp [MapEntry.live]

/-- `struct map`. -/
structure Map (α : Type) where
  count : ℕ
  data : List (MapEntry α)
deriving DecidableEq, Repr

/-- `map->size`. -/
def Map.size (m : Map α) : ℕ := m.data.length

/-- `map->data[i].item`. -/
def Map.entry (m : Map α) (i : ℕ) : MapEntry α := m.data.getD i .null

/-- `map->data[i].item = e`. -/
def Map.store (m : Map α) (i : ℕ) (e : MapEntry α) : Map α :=
  { m with data := m.data.set i e }

@[simp] theorem Map.size_store (m : Map α) (i : ℕ) (e : MapEntry α) :
    (m.store i e).size = m.size := by
  simp [Map.store, Map.size]

@[simp] theorem Map.count_store (m : Map α) (i : ℕ) (e : MapEntry α) :
    (m.store i e).count = m.count := rfl

theorem Map.entry_store (m : Map α) (i j : ℕ) (e : MapEntry α) (hi : i < m.size) :
    (m.store i e).entry j = if j = i then e else m.entry j := by
  unfold Map.size at hi
  unfold Map.store Map.entry
  simp only [List.getD_eq_getElem?_getD, List.getElem?_set]
  by_cases h : i = j
  · subst h
    simp [hi]
  · rw [if_neg h, if_neg (fun hj => h hj.symm)]

/-- The live items of a table in slot order: what a `map_for_each` walk yields
(`map_walk_eq_entries`). -/
def Map.entries (m : Map α) : List (UInt32 × α) := m.data.filterMap MapEntry.live

/-! ## The operations

In the order of `map.c`. The recursion of `map_rehash` through `map_put` and `map_reput` back to
`map_rehash` is given a budget; two levels of it are enough for every table, because the put
inside a rehash finds room. -/

/-- `map_create`. -/
def map_create : Map α := { count := 0, data := [] }

/-- The loop of `map_hash`, with `i` counting the iterations left. -/
def map_hash.loop (m : Map α) (key : UInt32) : ℕ → ℕ → Except ℤ (Map α × ℕ)
  | 0, _ => .error (-2)
  | i + 1, idx =>
    match m.entry idx with
    | .null => .ok ({ m with count := m.count + 1 }, idx)
    | .deleted => .ok ({ m with count := m.count + 1 }, idx)
    -- a free slot is taken before the rest of the table is searched for the key
    | .item k _ => if k = key then .ok (m, idx) else map_hash.loop m key i ((idx + 1) % m.size)

/-- `map_hash`: the slot a put of `key` goes to. A free slot, also one left by a
removal, is counted at once. -/
def map_hash (m : Map α) (key : UInt32) : Except ℤ (Map α × ℕ) :=
  if m.count = m.size then .error (-1)
  else map_hash.loop m key m.size (key.toNat % m.size)

/-- The tail of `map_reput`, once `map_hash` has answered slot `rc`: what `*old`
gets, and the stores to the slot and to the item's key. -/
def map_reput.store (m : Map α) (rc : ℕ) (key : UInt32) (value : Option α) :
    Map α × Option α :=
  (m.store rc (value.elim .null (.item key)), (m.entry rc).live.map Prod.snd)

/-- The loop of `map_rehash` over the old table, with `put` standing for the
recursive `map_put`. -/
def map_rehash.loop (put : Map α → UInt32 → α → Option (Map α × Except ℤ (Option α))) :
    List (MapEntry α) → Map α → Option (Map α × Except ℤ Unit)
  | [], m => some (m, .ok ())
  | .item key value :: rest, m =>
    match put m key value with
    | none => none
    | some (m', .error rc) => some (m', .error rc)
    | some (m', .ok _) => map_rehash.loop put rest m'
  -- tombstones are not copied
  | _ :: rest, m => map_rehash.loop put rest m

/-- `map_rehash`, over the recursive `map_put`. `calloc n` says whether the
allocation of a table of `n` entries succeeds. -/
def map_rehashWith (calloc : ℕ → Bool)
    (put : Map α → UInt32 → α → Option (Map α × Except ℤ (Option α))) (m : Map α) :
    Option (Map α × Except ℤ Unit) :=
  if calloc (m.size + 256) then
    -- the count starts again, and each put adds to it
    map_rehash.loop put m.data { count := 0, data := List.replicate (m.size + 256) .null }
  else some (m, .error (-1))

/-- `map_reput` with a recursion budget: `map_hash`, and while it fails,
`map_rehash` and again. -/
def map_reputN (calloc : ℕ → Bool) :
    ℕ → Map α → UInt32 → Option α → Option (Map α × Except ℤ (Option α))
  | 0, _, _, _ => none
  | n + 1, m, key, value =>
    match map_hash m key with
    | .ok (m', rc) =>
      let r := map_reput.store m' rc key value
      some (r.1, .ok r.2)
    | .error _ =>
      match map_rehashWith calloc (fun m k v => map_reputN calloc n m k (some v)) m with
      | none => none
      | some (m', .error rc) => some (m', .error rc)
      | some (m', .ok ()) => map_reputN calloc n m' key value

/-- `map_reput`: the new table, and `*old` or the negative return code. -/
def map_reput (calloc : ℕ → Bool) (m : Map α) (key : UInt32) (value : Option α) :
    Map α × Except ℤ (Option α) :=
  (map_reputN calloc 2 m key value).getD (m, .error (-1))

/-- `map_put`. -/
def map_put (calloc : ℕ → Bool) (m : Map α) (key : UInt32) (value : Option α) :
    Map α × Except ℤ Unit :=
  let r := map_reput calloc m key value
  (r.1, r.2.map fun _ => ())

/-- `map_rehash`. -/
def map_rehash (calloc : ℕ → Bool) (m : Map α) : Map α × Except ℤ Unit :=
  (map_rehashWith calloc (fun m k v => map_reputN calloc 1 m k (some v)) m).getD
    (m, .error (-1))

/-- The loop of `map_find`: the index of the entry it returns. -/
def map_find.loop (m : Map α) (key : UInt32) : ℕ → ℕ → Option ℕ
  | 0, _ => none
  | i + 1, idx =>
    match m.entry idx with
    -- a null ends the search, a tombstone does not
    | .null => none
    | .deleted => map_find.loop m key i ((idx + 1) % m.size)
    | .item k _ => if k = key then some idx else map_find.loop m key i ((idx + 1) % m.size)

/-- `map_find`. -/
def map_find (m : Map α) (key : UInt32) : Option ℕ :=
  if m.size = 0 then none
  else map_find.loop m key m.size (key.toNat % m.size)

/-- `map_contains`. -/
def map_contains (m : Map α) (key : UInt32) : Bool := (map_find m key).isSome

/-- `map_get`. -/
def map_get (m : Map α) (key : UInt32) : Option α :=
  match map_find m key with
  | none => none
  | some i => (m.entry i).live.map Prod.snd

/-- `map_remove`: the table, and the returned flag (`1` when the key is absent). -/
def map_remove (m : Map α) (key : UInt32) : Map α × ℤ :=
  match map_find m key with
  | none => (m, 1)
  | some i => ({ m.store i .deleted with count := m.count - 1 }, 0)

/-- `map_length`. -/
def map_length (m : Map α) : ℕ := m.count

/-- `map_clear`: the released items, and the emptied table. -/
def map_clear (m : Map α) : Map α × List (UInt32 × α) :=
  ({ count := 0, data := m.data.map fun _ => .null }, m.entries)

/-- The loop of `map_iter_from`, with `n` slots left. -/
def map_iter_from.loop (m : Map α) : ℕ → ℕ → Option ℕ
  | 0, _ => none
  | n + 1, i => if (m.entry i).live.isSome then some i else map_iter_from.loop m n (i + 1)

/-- `map_iter_from`: the first live slot at or after `start`. -/
def map_iter_from (m : Map α) (start : ℕ) : Option ℕ :=
  map_iter_from.loop m (m.size - start) start

/-- `map_iter_first`. -/
def map_iter_first (m : Map α) : Option ℕ := map_iter_from m 0

/-- `map_iter_next`, from the slot `iter`. -/
def map_iter_next (m : Map α) (iter : ℕ) : Option ℕ := map_iter_from m (iter + 1)

/-- `map_for_each` with a body that may change the state `σ` the table is part
of: at most `n` rounds from the slot `iter`, the table looked up anew in each
round. A table never shrinks under its iterator, so `size` rounds are enough. -/
def map_for_each.loop {σ : Type} (table : σ → Map α) (body : σ → UInt32 × α → σ) :
    ℕ → Option ℕ → σ → σ
  | 0, _, s => s
  | _ + 1, none, s => s
  | n + 1, some iter, s =>
    match (table s).entry iter with
    | .item key value =>
      let s' := body s (key, value)
      map_for_each.loop table body n (map_iter_next (table s') iter) s'
    | _ => s

/-- `map_for_each`. -/
def map_for_each {σ : Type} (table : σ → Map α) (body : σ → UInt32 × α → σ) (s : σ) : σ :=
  map_for_each.loop table body (table s).size (map_iter_first (table s)) s

end Dragonboard.QrtrMap
