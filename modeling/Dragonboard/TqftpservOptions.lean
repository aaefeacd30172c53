/-
The options of a read request, as text and as numbers.

`handle_rrq` reads pairs of strings, takes the values with `atoi` and looks at none of them again. The
loop is given with what it finds and where it ends (`handle_rrq.walk`), so that a list of options
can be followed through it: what was written as pairs is read as these pairs, up to the last byte.

`blksize` is a signed number on the way from its text to a `size_t`, and `tftp_send_data` adds 4
for the header. The buffer holds what is stored in it exactly if the last `blksize` of the
request is not one of -4 to -1 (`block_fits_iff`): from there the sum wraps around.
-/
import Dragonboard.TqftpservBounds
import Dragonboard.TqftpservRead

set_option autoImplicit false

namespace Dragonboard.Tqftpserv

open Dragonboard.Ns Dragonboard.Qrtr Dragonboard.Translate Dragonboard.Memory

/-! ## Numbers as text

Values are sent in decimal. `atoi` reads what `sprintf` has printed, as long as it fits an `int`.
-/

/-- A character that `atoi` goes on at. -/
def IsDigit (c : UInt8) : Prop := 0x30 ≤ c ∧ c ≤ 0x39

theorem isDigit_digitChar {d : ℕ} (h : d < 10) :
    IsDigit (UInt8.ofNat d.digitChar.toNat) ∧ (UInt8.ofNat d.digitChar.toNat - 0x30).toNat = d := by
  have hall : ∀ d < 10, (0x30 ≤ UInt8.ofNat d.digitChar.toNat ∧ UInt8.ofNat d.digitChar.toNat ≤ 0x39) ∧
      (UInt8.ofNat d.digitChar.toNat - 0x30).toNat = d := by decide
  exact hall d h

theorem decimal_ofNat (n : ℕ) :
    decimal n = (Nat.toDigits 10 n).map fun c => UInt8.ofNat c.toNat := by
  rw [decimal, if_neg (by omega), List.nil_append, Int.natAbs_natCast]

/-- The last digit comes off the end. -/
theorem decimal_step (n : ℕ) :
    decimal n = (if n < 10 then [] else decimal (n / 10 : ℕ)) ++
      [UInt8.ofNat (n % 10).digitChar.toNat] := by
  rw [decimal_ofNat, decimal_ofNat, Nat.toDigits_eq_if (by decide)]
  split
  · rename_i h
    rw [Nat.mod_eq_of_lt h]
    rfl
  · rw [List.map_append]
    rfl

theorem decimal_isDigit (n : ℕ) : ∀ c ∈ decimal n, IsDigit c := by
  induction n using Nat.strong_induction_on with
  | _ n ih =>
    rw [decimal_step]
    intro c hc
    rcases List.mem_append.mp hc with hc | hc
    · split at hc
      · exact absurd hc List.not_mem_nil
      · exact ih (n / 10) (by omega) c hc
    · rw [List.mem_singleton.mp hc]
      exact (isDigit_digitChar (Nat.mod_lt n (by decide))).1

theorem decimal_ne_nil (n : ℕ) : decimal n ≠ [] := by
  rw [decimal_step]
  exact List.append_ne_nil_of_right_ne_nil _ (List.cons_ne_nil _ _)

/-- No NUL is in a number. -/
theorem zero_notMem_decimal (n : ℕ) : 0 ∉ decimal n := by
  intro h
  exact absurd (decimal_isDigit n 0 h) (by unfold IsDigit; decide)

theorem digits_append {l : List UInt8} (hl : ∀ c ∈ l, IsDigit c) (n : ℕ) (l' : List UInt8) :
    digits n (l ++ l') = digits (digits n l) l' := by
  induction l generalizing n with
  | nil => rfl
  | cons c l ih =>
    rw [List.forall_mem_cons] at hl
    have hc : 0x30 ≤ c ∧ c ≤ 0x39 := hl.1
    rw [List.cons_append, digits, digits, if_pos hc, if_pos hc, ih hl.2]

theorem digits_decimal (n : ℕ) : digits 0 (decimal n) = n := by
  induction n using Nat.strong_induction_on with
  | _ n ih =>
    obtain ⟨hdigit, hvalue⟩ := isDigit_digitChar (Nat.mod_lt n (by decide : 0 < 10))
    have hlast : ∀ m, digits m [UInt8.ofNat (n % 10).digitChar.toNat] = 10 * m + n % 10 := by
      intro m
      have hrange : 0x30 ≤ UInt8.ofNat (n % 10).digitChar.toNat ∧
          UInt8.ofNat (n % 10).digitChar.toNat ≤ 0x39 := hdigit
      rw [digits, if_pos hrange, hvalue, digits]
    rw [decimal_step]
    split
    · rw [List.nil_append, hlast]
      omega
    · rw [digits_append (decimal_isDigit _), ih (n / 10) (by omega), hlast]
      omega

/-- **A number below 2^31 is read as it was printed.** -/
theorem atoi_decimal {n : ℕ} (h : n < 2 ^ 31) : atoi (decimal n) = n := by
  have hvalue := digits_decimal n
  cases hd : decimal n with
  | nil => exact absurd hd (decimal_ne_nil n)
  | cons c cs =>
    have hc : IsDigit c := decimal_isDigit n c (hd ▸ List.mem_cons_self)
    rw [hd] at hvalue
    have hspace : ¬ (c = 0x20 ∨ 0x09 ≤ c ∧ c ≤ 0x0d) := by
      rintro (rfl | ⟨-, hle⟩)
      · exact absurd hc.1 (by decide)
      · exact absurd (UInt8.le_trans hc.1 hle) (by decide)
    have hminus : c ≠ 0x2d := by
      rintro rfl
      exact absurd hc.1 (by decide)
    have hplus : c ≠ 0x2b := by
      rintro rfl
      exact absurd hc.1 (by decide)
    rw [atoi, List.dropWhile_cons_of_neg (by simpa using hspace)]
    -- the number has no sign
    split
    · rename_i heq
      exact absurd (List.cons.inj heq).1 hminus
    · rename_i heq
      exact absurd (List.cons.inj heq).1 hplus
    · rw [hvalue, signed]
      omega

/-! ## Lists of options

The option loop walks over strings by their lengths. On bytes that spell a list of options it
finds that list. -/

/-- An option and its value. -/
abbrev OptionPair : Type := List UInt8 × List UInt8

/-- The option loop of `handle_rrq`, with the pairs of strings it finds and the place where it
ends. -/
def handle_rrq.walk (mem : List UInt8) (len : ℕ) : ℕ → ℕ → Option (List OptionPair × ℕ)
  | 0, p => some ([], p)
  | rounds + 1, p =>
    if p < len then do
      let opt ← strAt mem p
      let value ← strAt mem (p + opt.length + 1)
      let r ← handle_rrq.walk mem len rounds (p + opt.length + 1 + value.length + 1)
      return ((opt, value) :: r.1, r.2)
    else some ([], p)

/-- What the pairs set. -/
def setAll (o : RrqOptions) (pairs : List OptionPair) : RrqOptions :=
  pairs.foldl (fun o x => o.set x.1 x.2) o

/-- The loop sets what it finds. -/
theorem options_walk (mem : List UInt8) (len rounds p : ℕ) (o : RrqOptions) :
    handle_rrq.options mem len rounds p o =
      (handle_rrq.walk mem len rounds p).map fun r => setAll o r.1 := by
  induction rounds generalizing p o with
  | zero => rfl
  | succ rounds ih =>
    rw [handle_rrq.options, handle_rrq.walk]
    split
    · cases strAt mem p with
      | none => rfl
      | some opt =>
        simp only [Option.bind_eq_bind, Option.bind_some]
        cases strAt mem (p + opt.length + 1) with
        | none => rfl
        | some value =>
          simp only [Option.bind_some, ih]
          cases handle_rrq.walk mem len rounds (p + opt.length + 1 + value.length + 1) with
          | none => rfl
          | some r => rfl
    · rfl

/-- A pair as it is written. -/
def pairBytes (x : OptionPair) : List UInt8 := x.1 ++ [0] ++ x.2 ++ [0]

/-- A list of options as it is written. -/
def optionBytes (pairs : List OptionPair) : List UInt8 := pairs.flatMap pairBytes

/-- Strings have no NUL in them. -/
def Ended (pairs : List OptionPair) : Prop := ∀ x ∈ pairs, 0 ∉ x.1 ∧ 0 ∉ x.2

theorem strAt_at (pre : List UInt8) {str : List UInt8} (hstr : 0 ∉ str) (tail : List UInt8) :
    strAt (pre ++ (str ++ 0 :: tail)) pre.length = some str := by
  rw [strAt, List.drop_left, if_pos (List.mem_append_right _ List.mem_cons_self), takeWhile_split hstr]

/-- **A list of options is read as it was written**, up to its last byte, wherever it stands. -/
theorem walk_optionBytes (pre : List UInt8) {pairs : List OptionPair} (h : Ended pairs)
    (rest : List UInt8) {rounds : ℕ} (hrounds : pairs.length ≤ rounds) :
    handle_rrq.walk (pre ++ optionBytes pairs ++ rest) (pre.length + (optionBytes pairs).length)
      rounds pre.length = some (pairs, pre.length + (optionBytes pairs).length) := by
  induction pairs generalizing pre rounds with
  | nil =>
    cases rounds with
    | zero => rfl
    | succ rounds =>
      rw [handle_rrq.walk, if_neg (by simp [optionBytes])]
      rfl
  | cons x pairs ih =>
    obtain ⟨⟨hname, hvalue⟩, hrest⟩ := List.forall_mem_cons.mp h
    cases rounds with
    | zero => exact absurd hrounds (Nat.not_succ_le_zero _)
    | succ rounds =>
      rw [List.length_cons, Nat.succ_le_succ_iff] at hrounds
      have hlen : (optionBytes (x :: pairs)).length =
          x.1.length + 1 + x.2.length + 1 + (optionBytes pairs).length := by
        simp [optionBytes, pairBytes]
        omega
      have hopt : strAt (pre ++ optionBytes (x :: pairs) ++ rest) pre.length = some x.1 := by
        have hmem : pre ++ optionBytes (x :: pairs) ++ rest =
            pre ++ (x.1 ++ 0 :: (x.2 ++ [0] ++ optionBytes pairs ++ rest)) := by
          simp [optionBytes, pairBytes]
        rw [hmem]
        exact strAt_at pre hname _
      have hval : strAt (pre ++ optionBytes (x :: pairs) ++ rest) (pre.length + x.1.length + 1)
          = some x.2 := by
        have hmem : pre ++ optionBytes (x :: pairs) ++ rest =
            (pre ++ x.1 ++ [0]) ++ (x.2 ++ 0 :: (optionBytes pairs ++ rest)) := by
          simp [optionBytes, pairBytes]
        have hplace : pre.length + x.1.length + 1 = (pre ++ x.1 ++ [0]).length := by
          simp
          omega
        rw [hmem, hplace]
        exact strAt_at _ hvalue _
      -- the rest of the list stands behind this pair
      have hwalk := ih (pre ++ pairBytes x) hrest hrounds
      have hmem : pre ++ pairBytes x ++ optionBytes pairs ++ rest =
          pre ++ optionBytes (x :: pairs) ++ rest := by
        rw [optionBytes, optionBytes, List.flatMap_cons, ← List.append_assoc]
      have hplace : (pre ++ pairBytes x).length = pre.length + x.1.length + 1 + x.2.length + 1 := by
        simp [pairBytes]
        omega
      have hend : pre.length + x.1.length + 1 + x.2.length + 1 + (optionBytes pairs).length =
          pre.length + (optionBytes (x :: pairs)).length := by
        omega
      rw [hmem, hplace, hend] at hwalk
      rw [handle_rrq.walk, if_pos (by omega), hopt]
      simp only [Option.bind_eq_bind, Option.bind_some, hval, hwalk]
      rfl

/-! ## Read requests

A read request as a client means it, and the datagram it sends for that. -/

/-- A read request with its options. -/
structure Rrq where
  filename : List UInt8
  mode : List UInt8
  opts : List OptionPair
  filename_ends : 0 ∉ filename
  mode_octet : mode.map tolower = ascii "octet"
  opts_end : Ended opts

/-- The datagram up to the options. -/
def Rrq.head (r : Rrq) : List UInt8 := be16 OP_RRQ ++ r.filename ++ [0] ++ r.mode ++ [0]

/-- The datagram. -/
def Rrq.bytes (r : Rrq) : List UInt8 := r.head ++ optionBytes r.opts

theorem Rrq.mode_ends (r : Rrq) : 0 ∉ r.mode := by
  intro h
  have hmem : tolower 0 ∈ r.mode.map tolower := List.mem_map_of_mem h
  rw [r.mode_octet] at hmem
  exact absurd hmem (by decide)

theorem optionBytes_length (pairs : List OptionPair) :
    2 * pairs.length ≤ (optionBytes pairs).length := by
  induction pairs with
  | nil => exact Nat.le_refl 0
  | cons x pairs ih =>
    have hlen : (optionBytes (x :: pairs)).length =
        x.1.length + 1 + x.2.length + 1 + (optionBytes pairs).length := by
      simp [optionBytes, pairBytes]
      omega
    rw [List.length_cons]
    omega

/-- **What `handle_rrq` reads from a request** is what the request says. -/
theorem parse_rrq (r : Rrq) (rest : List UInt8) :
    handle_rrq.parse (r.bytes ++ rest) r.bytes.length =
      some (some (r.filename, decide (r.opts ≠ []), setAll {} r.opts)) := by
  have hname : strAt (r.bytes ++ rest) 2 = some r.filename := by
    have hmem : r.bytes ++ rest =
        be16 OP_RRQ ++ (r.filename ++ 0 :: (r.mode ++ [0] ++ optionBytes r.opts ++ rest)) := by
      simp [Rrq.bytes, Rrq.head]
    rw [hmem]
    exact strAt_at (be16 OP_RRQ) r.filename_ends _
  have hmode : strAt (r.bytes ++ rest) (2 + r.filename.length + 1) = some r.mode := by
    have hmem : r.bytes ++ rest =
        (be16 OP_RRQ ++ r.filename ++ [0]) ++ (r.mode ++ 0 :: (optionBytes r.opts ++ rest)) := by
      simp [Rrq.bytes, Rrq.head]
    have hplace : 2 + r.filename.length + 1 = (be16 OP_RRQ ++ r.filename ++ [0]).length := by
      simp [be16]
      omega
    rw [hmem, hplace]
    exact strAt_at _ r.mode_ends _
  -- the options begin behind the NUL of the mode
  have hhead : 2 + r.filename.length + 1 + r.mode.length + 1 = r.head.length := by
    simp [Rrq.head, be16]
    omega
  have hlen : r.bytes.length = r.head.length + (optionBytes r.opts).length := List.length_append
  have hpairs := optionBytes_length r.opts
  have hoptions : handle_rrq.options (r.bytes ++ rest) r.bytes.length r.bytes.length r.head.length {} =
      some (setAll {} r.opts) := by
    rw [options_walk, hlen, Rrq.bytes, walk_optionBytes r.head r.opts_end rest (by omega)]
    rfl
  -- there is something behind the mode exactly if there are options
  have hoack : decide (r.head.length < r.bytes.length) = decide (r.opts ≠ []) := by
    rw [decide_eq_decide, hlen]
    constructor
    · intro hlt hnil
      rw [hnil] at hlt
      exact absurd hlt (by simp [optionBytes])
    · intro hne
      have hpos := List.length_pos_iff.mpr hne
      omega
  rw [handle_rrq.parse, hname]
  simp only [Option.bind_eq_bind, Option.bind_some, hmode, r.mode_octet, if_true, hhead, hoptions, hoack]
  rfl

/-! ## The last value counts

An option that comes several times is set several times. -/

/-- The values an option is given in a request. -/
def values (name : String) (pairs : List OptionPair) : List (List UInt8) :=
  (pairs.filter fun x => x.1 = ascii name).map Prod.snd

theorem setAll_append (o : RrqOptions) (pairs : List OptionPair) (x : OptionPair) :
    setAll o (pairs ++ [x]) = (setAll o pairs).set x.1 x.2 := by
  rw [setAll, List.foldl_append, List.foldl_cons, List.foldl_nil, setAll]

/-- A field that one option sets holds the last value of this option. -/
theorem setAll_field {β : Type} {f : RrqOptions → β} {name : String} {g : List UInt8 → β}
    (hset : ∀ o opt value, f (o.set opt value) = if opt = ascii name then g value else f o)
    (o : RrqOptions) (pairs : List OptionPair) :
    f (setAll o pairs) = ((values name pairs).getLast?.map g).getD (f o) := by
  induction pairs using List.reverseRecOn with
  | nil => rfl
  | append_singleton pairs x ih =>
    rw [setAll_append, hset, values, List.filter_append, List.map_append]
    by_cases hx : x.1 = ascii name
    · rw [if_pos hx, List.filter_singleton, decide_eq_true hx, cond_true, List.map_singleton,
        List.getLast?_append]
      rfl
    · rw [if_neg hx, List.filter_singleton, decide_eq_false hx, cond_false, List.map_nil,
        List.append_nil]
      exact ih

/-- Each field is set by one option only. -/
theorem set_fields (o : RrqOptions) (opt value : List UInt8) :
    (o.set opt value).blksize =
        (if opt = ascii "blksize" then size_t (atoi value) else o.blksize) ∧
      (o.set opt value).timeoutms =
        (if opt = ascii "timeoutms" then (size_t (atoi value)).toUInt32 else o.timeoutms) ∧
      (o.set opt value).tsize = (if opt = ascii "tsize" then atoi value else o.tsize) ∧
      (o.set opt value).rsize = (if opt = ascii "rsize" then size_t (atoi value) else o.rsize) ∧
      (o.set opt value).wsize = (if opt = ascii "wsize" then size_t (atoi value) else o.wsize) := by
  unfold RrqOptions.set
  by_cases hblksize : opt = ascii "blksize"
  · subst hblksize
    simp +decide
  by_cases htimeoutms : opt = ascii "timeoutms"
  · subst htimeoutms
    simp +decide
  by_cases htsize : opt = ascii "tsize"
  · subst htsize
    simp +decide
  by_cases hrsize : opt = ascii "rsize"
  · subst hrsize
    simp +decide
  by_cases hwsize : opt = ascii "wsize"
  · subst hwsize
    simp +decide
  · simp [hblksize, htimeoutms, htsize, hrsize, hwsize]

theorem setAll_blksize (o : RrqOptions) (pairs : List OptionPair) :
    (setAll o pairs).blksize =
      ((values "blksize" pairs).getLast?.map fun v => size_t (atoi v)).getD o.blksize :=
  setAll_field (fun o opt value => (set_fields o opt value).1) o pairs

theorem setAll_timeoutms (o : RrqOptions) (pairs : List OptionPair) :
    (setAll o pairs).timeoutms =
      ((values "timeoutms" pairs).getLast?.map fun v => (size_t (atoi v)).toUInt32).getD
        o.timeoutms :=
  setAll_field (fun o opt value => (set_fields o opt value).2.1) o pairs

theorem setAll_tsize (o : RrqOptions) (pairs : List OptionPair) :
    (setAll o pairs).tsize = ((values "tsize" pairs).getLast?.map atoi).getD o.tsize :=
  setAll_field (fun o opt value => (set_fields o opt value).2.2.1) o pairs

theorem setAll_rsize (o : RrqOptions) (pairs : List OptionPair) :
    (setAll o pairs).rsize =
      ((values "rsize" pairs).getLast?.map fun v => size_t (atoi v)).getD o.rsize :=
  setAll_field (fun o opt value => (set_fields o opt value).2.2.2.1) o pairs

theorem setAll_wsize (o : RrqOptions) (pairs : List OptionPair) :
    (setAll o pairs).wsize =
      ((values "wsize" pairs).getLast?.map fun v => size_t (atoi v)).getD o.wsize :=
  setAll_field (fun o opt value => (set_fields o opt value).2.2.2.2) o pairs

/-! ## The buffer of a block

`tftp_send_data` allocates `4 + blksize` bytes as a `size_t`. For the four block sizes below zero
for which this sum wraps around the header itself does not fit. -/

/-- What `tftp_send_data` stores in the buffer it allocates: the header, and what `pread` puts
behind it. -/
def tftp_send_data.stores (block : UInt32) (data : List UInt8) : List Store :=
  [⟨0, [0]⟩, ⟨1, [OP_DATA.toUInt8]⟩, ⟨2, [(block >>> 8).toUInt8]⟩, ⟨3, [block.toUInt8]⟩, ⟨4, data⟩]

theorem high_byte (block : UInt32) : (block.toUInt16 >>> 8).toUInt8 = (block >>> 8).toUInt8 := by
  apply UInt8.toNat_inj.mp
  have hblock := block.toNat_lt
  simp only [UInt16.toNat_toUInt8, UInt32.toNat_toUInt8, UInt16.toNat_shiftRight,
    UInt32.toNat_shiftRight, UInt32.toNat_toUInt16]
  change (block.toNat % 2 ^ 16) >>> 8 % 2 ^ 8 = block.toNat >>> 8 % 2 ^ 8
  rw [Nat.shiftRight_eq_div_pow, Nat.shiftRight_eq_div_pow]
  omega

/-- It is the packet that is sent. -/
theorem tftp_send_data_stores (m : Mem) (block : UInt32) (data : List UInt8) :
    Holds (applyStores m (tftp_send_data.stores block data)) 0
      (be16 OP_DATA ++ be16 block.toUInt16 ++ data) := by
  have hbytes : be16 OP_DATA ++ be16 block.toUInt16 ++ data =
      ([0] : List UInt8) ++
        ([OP_DATA.toUInt8] ++ ([(block >>> 8).toUInt8] ++ ([block.toUInt8] ++ data))) := by
    rw [be16, be16, high_byte, UInt32.toUInt8_toUInt16]
    rfl
  have hplaces : Places 0 (tftp_send_data.stores block data) (([0] : List UInt8) ++
      ([OP_DATA.toUInt8] ++ ([(block >>> 8).toUInt8] ++ ([block.toUInt8] ++ data)))) :=
    (Places.single 0 [0]).append ((Places.single 1 [OP_DATA.toUInt8]).append
      ((Places.single 2 [(block >>> 8).toUInt8]).append ((Places.single 3 [block.toUInt8]).append
        (Places.single 4 data))))
  rw [hbytes, hplaces m]
  exact holds_writeAt _ _ _

/-- The sum that is allocated does not wrap around, and holds the header and what is read. -/
def BlockFits (blksize : UInt64) : Prop :=
  (4 + blksize).toNat = 4 + blksize.toNat ∧
    ∀ (block : UInt32) (data : List UInt8), data.length ≤ blksize.toNat →
      Below (4 + blksize).toNat (tftp_send_data.stores block data)

theorem blockFits_iff (blksize : UInt64) : BlockFits blksize ↔ blksize.toNat < 2 ^ 64 - 4 := by
  have hsum : (4 + blksize).toNat = (4 + blksize.toNat) % 2 ^ 64 := UInt64.toNat_add 4 blksize
  have hlt := blksize.toNat_lt
  constructor
  · rintro ⟨hnat, -⟩
    omega
  · intro h
    have hnat : (4 + blksize).toNat = 4 + blksize.toNat := by omega
    refine ⟨hnat, fun block data hdata => ?_⟩
    rw [hnat]
    intro store hstore _
    simp only [tftp_send_data.stores, List.mem_cons, List.not_mem_nil, or_false] at hstore
    rcases hstore with rfl | rfl | rfl | rfl | rfl
    · exact Nat.le_trans (by decide : 0 + 1 ≤ 4) (Nat.le_add_right 4 _)
    · exact Nat.le_trans (by decide : 1 + 1 ≤ 4) (Nat.le_add_right 4 _)
    · exact Nat.le_trans (by decide : 2 + 1 ≤ 4) (Nat.le_add_right 4 _)
    · exact Nat.le_add_right 4 _
    · exact Nat.add_le_add_left hdata 4

/-- A negative number is a large size. -/
theorem size_t_lt_iff {v : ℤ} (hlo : -2 ^ 31 ≤ v) (hhi : v < 2 ^ 31) :
    (size_t v).toNat < 2 ^ 64 - 4 ↔ ¬ (-4 ≤ v ∧ v < 0) := by
  have hsize : ((size_t v).toNat : ℤ) = v % 2 ^ 64 := by
    rw [size_t, UInt64.toNat_ofNat']
    omega
  omega

/-- Every transfer that comes of a request, whatever else is read or fails, has a buffer that is large
enough for its blocks. -/
def Rrq.Fits (r : Rrq) : Prop :=
  ∀ (rest filename : List UInt8) (do_oack : Bool) (o : RrqOptions),
    handle_rrq.parse (r.bytes ++ rest) r.bytes.length = some (some (filename, do_oack, o)) →
    ∀ (sys : Sys) (s s' : State) (sq : SockaddrQrtr) (sock fd : ℕ) (client : TftpClient),
      handle_rrq.begin sys s sq sock fd do_oack o = some s' →
      s'.readers = s.readers ++ [client] → BlockFits client.blksize

/-- With everything succeeding a request with options is granted. -/
theorem begin_obliging (s : State) (sq : SockaddrQrtr) (sock fd : ℕ) (o : RrqOptions) :
    ∃ s', handle_rrq.begin obliging s sq sock fd true o = some s' := by
  have hmalloc : ∀ t n, obliging.malloc t n = true := fun _ _ => rfl
  unfold handle_rrq.begin
  simp only [hmalloc, if_true]
  exact ⟨_, rfl⟩

/-- **Block buffers are large enough exactly if the last `blksize` of the request is not one of
-4 to -1.** -/
theorem block_fits_iff (r : Rrq) :
    r.Fits ↔ ∀ v ∈ (values "blksize" r.opts).getLast?, ¬ (-4 ≤ atoi v ∧ atoi v < 0) := by
  have hstored : BlockFits (setAll {} r.opts).blksize ↔
      ∀ v ∈ (values "blksize" r.opts).getLast?, ¬ (-4 ≤ atoi v ∧ atoi v < 0) := by
    rw [blockFits_iff, setAll_blksize]
    cases (values "blksize" r.opts).getLast? with
    | none => exact iff_of_true (by decide) (by simp)
    | some v =>
      rw [Option.map_some, Option.getD_some, size_t_lt_iff (atoi_range v).1 (atoi_range v).2]
      simp
  rw [← hstored]
  constructor
  · intro h
    by_cases hnil : r.opts = []
    · rw [hnil, blockFits_iff]
      decide
    · have hparse := parse_rrq r []
      rw [decide_eq_true hnil] at hparse
      obtain ⟨s', hbegin⟩ := begin_obliging (main.start obliging) ⟨5, 7⟩ 4 5 (setAll {} r.opts)
      have hreaders := (handle_rrq_begin_adds obliging hbegin).same.1
      have hfits := h [] _ _ _ hparse obliging _ s' ⟨5, 7⟩ 4 5 _ hbegin hreaders
      exact hfits
  · intro h rest filename do_oack o hparse sys s s' sq sock fd client hbegin hclient
    rw [parse_rrq, Option.some.injEq, Option.some.injEq, Prod.mk.injEq, Prod.mk.injEq] at hparse
    obtain ⟨-, -, rfl⟩ := hparse
    have hreaders := (handle_rrq_begin_adds sys hbegin).same.1
    rw [hclient, List.append_cancel_left_eq, List.singleton_inj] at hreaders
    rw [hreaders]
    exact h

/-- A request of `/readwrite/log` with the options `pairs`. -/
def logOptions (pairs : List OptionPair) (h : Ended pairs) : Rrq where
  filename := ascii "/readwrite/log"
  mode := ascii "octet"
  opts := pairs
  filename_ends := by decide
  mode_octet := by decide
  opts_end := h

theorem ended_blksize : Ended [(ascii "blksize", ascii "-1")] := by
  rw [Ended, List.forall_mem_singleton]
  decide

/-- **A block size of -1**: the buffer has three bytes, one less than the header. -/
theorem not_block_fits : ¬ (logOptions [(ascii "blksize", ascii "-1")] ended_blksize).Fits := by
  intro h
  have hparse := parse_rrq (logOptions [(ascii "blksize", ascii "-1")] ended_blksize) []
  obtain ⟨s', hbegin⟩ := begin_obliging (main.start obliging) ⟨5, 7⟩ 4 5
    (setAll {} [(ascii "blksize", ascii "-1")])
  have hfits := h [] _ _ _ hparse obliging _ s' ⟨5, 7⟩ 4 5 _ hbegin
    (handle_rrq_begin_adds obliging hbegin).same.1
  have hsum := hfits.1
  exact absurd hsum (by decide)

end Dragonboard.Tqftpserv
