/-
The OACK: how it is written, how it is read again, and what it answers.

`tftp_send_oack` copies each name into its buffer, goes on by the length of the name as a number
in the text, prints the value and goes on by what `sprintf` returns. Here it is given as the
stores it makes (`tftp_send_oack.write`), with these numbers. The numbers are right, so the
packet is the list of options, it stays in 512 bytes, and the loop of `handle_rrq` gets every
value below 2^31 back and ends at the last byte (`oack_round_trip`).

What `handle_rrq` puts into it does not quite follow the request. `blksize` and
`timeoutms` are always announced, also when they were not asked for. The others are
announced exactly if they were asked for (`oack_answers`); only nothing is said here of the
`tsize` of an empty file, which is left out since its size is tested in place of the -1 that stands
for a missing option.
-/
import Dragonboard.TqftpservOptions

set_option autoImplicit false

namespace Dragonboard.Tqftpserv

open Dragonboard.Ns Dragonboard.Qrtr Dragonboard.Translate Dragonboard.Memory

/-! ## Writing

`tftp_send_oack` writes names and values one behind the other, by `strcpy` and `sprintf`. The
packet is the list of options those stores spell. -/

/-- `strcpy`, `sprintf` and the NUL for one option: the stores so far and the place in the buffer. The
place moves on by `skip`, and by what `sprintf` returns. -/
def tftp_send_oack.put (name : String) (skip : ℕ) (value : Option ℤ) (b : List Store × ℕ) :
    List Store × ℕ :=
  match value with
  | none => b
  | some value =>
    let p := b.2 + skip
    let n := (decimal value).length
    (b.1 ++ [⟨b.2, ascii name ++ [0]⟩, ⟨p, decimal value ++ [0]⟩, ⟨p + n, [0]⟩], p + n + 1)

/-- What `tftp_send_oack` stores in its buffer, and the place it ends at. -/
def tftp_send_oack.write (blocksize tsize wsize timeoutms rsize : Option ℤ) : List Store × ℕ :=
  let b := ([⟨0, [0]⟩, ⟨1, [OP_OACK.toUInt8]⟩], 2)
  let b := put "blksize" 8 blocksize b
  let b := put "timeoutms" 10 timeoutms b
  let b := put "tsize" 6 (tsize.filter (· ≠ -1)) b
  let b := put "wsize" 6 wsize b
  put "rsize" 6 rsize b

/-- The options that are written. -/
def oackPairs (blocksize tsize wsize timeoutms rsize : Option ℤ) : List OptionPair :=
  let pair := fun (name : String) (value : Option ℤ) =>
    (value.map fun v => (ascii name, decimal v)).toList
  pair "blksize" blocksize ++ pair "timeoutms" timeoutms ++ pair "tsize" (tsize.filter (· ≠ -1)) ++
    pair "wsize" wsize ++ pair "rsize" rsize

/-- The buffer holds these bytes, and the place is behind them. -/
def Written (b : List Store × ℕ) (bytes : List UInt8) : Prop :=
  Places 0 b.1 bytes ∧ b.2 = bytes.length

/-- Storing the same bytes once more. -/
theorem writeAt_writeAt (m : Mem) (p : ℕ) (bytes : List UInt8) :
    writeAt (writeAt m p bytes) p bytes = writeAt m p bytes := by
  funext a
  simp only [writeAt]
  split
  · rfl
  · rfl

/-- One option, if the place moves on by its name and the NUL. -/
theorem Written.put {b : List Store × ℕ} {bytes : List UInt8} (h : Written b bytes) (name : String)
    (skip : ℕ) (hskip : skip = (ascii name).length + 1) (value : Option ℤ) :
    Written (tftp_send_oack.put name skip value b) (bytes ++ tftp_send_oack.option name value) := by
  cases value with
  | none =>
    rw [tftp_send_oack.option, List.append_nil]
    exact h
  | some v =>
    obtain ⟨hplaces, hplace⟩ := h
    have hname : (ascii name ++ ([0] : List UInt8)).length = skip := by simp [hskip]
    constructor
    · apply hplaces.append
      -- the last store repeats the NUL of `sprintf`
      intro m
      have hlast : ∀ m', applyStores m' [⟨b.2 + skip, decimal v ++ [0]⟩,
          ⟨b.2 + skip + (decimal v).length, [0]⟩] = writeAt m' (b.2 + skip) (decimal v ++ [0]) := by
        intro m'
        show writeAt (writeAt m' (b.2 + skip) (decimal v ++ [0]))
          (b.2 + skip + (decimal v).length) [0] = _
        rw [← writeAt_append, writeAt_writeAt]
      have hvalue : Places (b.2 + (ascii name ++ ([0] : List UInt8)).length)
          [⟨b.2 + skip, decimal v ++ [0]⟩, ⟨b.2 + skip + (decimal v).length, [0]⟩]
          (decimal v ++ [0]) := by
        rw [hname]
        exact hlast
      have hfirst := (Places.single b.2 (ascii name ++ [0])).append hvalue
      rw [Nat.zero_add, ← hplace, tftp_send_oack.option, List.append_assoc]
      exact hfirst m
    · have hlen : (tftp_send_oack.option name (some v)).length = skip + (decimal v).length + 1 := by
        simp [tftp_send_oack.option, hskip]
        omega
      rw [List.length_append, hlen, ← hplace]
      show b.2 + skip + (decimal v).length + 1 = _
      omega

/-- Everything is stored below the place that is reached. -/
theorem Below.put {b : List Store × ℕ} (h : Below b.2 b.1) {name : String} {skip : ℕ}
    (hskip : skip = (ascii name).length + 1) (value : Option ℤ) :
    Below (tftp_send_oack.put name skip value b).2 (tftp_send_oack.put name skip value b).1 := by
  cases value with
  | none => exact h
  | some v =>
    show Below (b.2 + skip + (decimal v).length + 1) (b.1 ++ _)
    rw [below_append]
    constructor
    · intro store hstore hne
      have hle := h store hstore hne
      omega
    · intro store hstore _
      simp only [List.mem_cons, List.not_mem_nil, or_false] at hstore
      rcases hstore with rfl | rfl | rfl
      · simp [hskip]
        omega
      · simp
        omega
      · simp

section Write

variable (blocksize tsize wsize timeoutms rsize : Option ℤ)

theorem option_eq (name : String) (value : Option ℤ) :
    tftp_send_oack.option name value =
      optionBytes (value.map fun v => (ascii name, decimal v)).toList := by
  cases value with
  | none => rfl
  | some v => simp [tftp_send_oack.option, optionBytes, pairBytes]

/-- The packet of `tftp_send_oack` is a list of options behind the opcode. -/
theorem tftp_send_oack_eq (sys : Sys) (s : State) (sock : ℕ) :
    tftp_send_oack sys s sock blocksize tsize wsize timeoutms rsize =
      send sys s sock
        (be16 OP_OACK ++ optionBytes (oackPairs blocksize tsize wsize timeoutms rsize)) := by
  simp only [tftp_send_oack, option_eq, oackPairs, optionBytes, List.flatMap_append, List.append_assoc]

/-- **The stores are that packet**, whatever the buffer held, and end where it ends. -/
theorem oack_written (m : Mem) :
    bytesAt (applyStores m (tftp_send_oack.write blocksize tsize wsize timeoutms rsize).1) 0
        (tftp_send_oack.write blocksize tsize wsize timeoutms rsize).2 =
      be16 OP_OACK ++ optionBytes (oackPairs blocksize tsize wsize timeoutms rsize) ∧
    Below (tftp_send_oack.write blocksize tsize wsize timeoutms rsize).2
      (tftp_send_oack.write blocksize tsize wsize timeoutms rsize).1 := by
  have hhead : Written ([⟨0, [0]⟩, ⟨1, [OP_OACK.toUInt8]⟩], 2) (be16 OP_OACK) :=
    ⟨(Places.single 0 [0]).append (Places.single 1 [OP_OACK.toUInt8]), rfl⟩
  have hbelow : Below 2 [⟨0, [0]⟩, ⟨1, [OP_OACK.toUInt8]⟩] := by decide
  have hwritten := ((((hhead.put "blksize" 8 rfl blocksize).put "timeoutms" 10 rfl timeoutms).put
    "tsize" 6 rfl (tsize.filter (· ≠ -1))).put "wsize" 6 rfl wsize).put "rsize" 6 rfl rsize
  constructor
  · have hbytes : be16 OP_OACK ++ optionBytes (oackPairs blocksize tsize wsize timeoutms rsize) =
        be16 OP_OACK ++ tftp_send_oack.option "blksize" blocksize ++
          tftp_send_oack.option "timeoutms" timeoutms ++
          tftp_send_oack.option "tsize" (tsize.filter (· ≠ -1)) ++
          tftp_send_oack.option "wsize" wsize ++ tftp_send_oack.option "rsize" rsize := by
      simp only [option_eq, oackPairs, optionBytes, List.flatMap_append, List.append_assoc]
    rw [hbytes]
    obtain ⟨hplaces, hplace⟩ := hwritten
    have hholds := holds_writeAt m 0 (be16 OP_OACK ++ tftp_send_oack.option "blksize" blocksize ++
          tftp_send_oack.option "timeoutms" timeoutms ++
          tftp_send_oack.option "tsize" (tsize.filter (· ≠ -1)) ++
          tftp_send_oack.option "wsize" wsize ++ tftp_send_oack.option "rsize" rsize)
    rw [← hplaces m, Holds, ← hplace] at hholds
    exact hholds
  · exact Below.put (Below.put (Below.put (Below.put (Below.put hbelow rfl _) rfl _) rfl _) rfl _) rfl _

end Write

/-! ## Reading it again

The option loop of `handle_rrq` serves as the reader. It has to give back the numbers that were
printed, for every choice of options. -/

/-- A number that `atoi` can give back. -/
abbrev Size : Type := Fin (2 ^ 31)

/-- A choice of options with their values. -/
structure Announced where
  blksize : Option Size
  timeoutms : Option Size
  tsize : Option Size
  wsize : Option Size
  rsize : Option Size

/-- A value as `tftp_send_oack` takes it. -/
def number (value : Option Size) : Option ℤ := value.map fun v => (v.val : ℤ)

/-- The stores of the OACK, and its length. -/
def Announced.written (a : Announced) : List Store × ℕ :=
  tftp_send_oack.write (number a.blksize) (number a.tsize) (number a.wsize) (number a.timeoutms)
    (number a.rsize)

/-- The OACK, in a buffer that held `m`. -/
def Announced.packet (a : Announced) (m : Mem) : List UInt8 :=
  bytesAt (applyStores m a.written.1) 0 a.written.2

/-- The options with the values in decimal. -/
def Announced.pairs (a : Announced) : List OptionPair :=
  let pair := fun (name : String) (value : Option Size) =>
    (value.map fun v => (ascii name, decimal v.val)).toList
  pair "blksize" a.blksize ++ pair "timeoutms" a.timeoutms ++ pair "tsize" a.tsize ++
    pair "wsize" a.wsize ++ pair "rsize" a.rsize

/-- The values in place of those there were. -/
def Announced.over (a : Announced) (o : RrqOptions) : RrqOptions where
  blksize := (a.blksize.map fun v => UInt64.ofNat v.val).getD o.blksize
  timeoutms := (a.timeoutms.map fun v => UInt32.ofNat v.val).getD o.timeoutms
  tsize := (a.tsize.map fun v => (v.val : ℤ)).getD o.tsize
  rsize := (a.rsize.map fun v => UInt64.ofNat v.val).getD o.rsize
  wsize := (a.wsize.map fun v => UInt64.ofNat v.val).getD o.wsize

theorem number_filter (value : Option Size) :
    (number value).filter (fun v => decide (v ≠ -1)) = number value := by
  cases value with
  | none => rfl
  | some v =>
    have hne : ((v.val : ℕ) : ℤ) ≠ -1 := by omega
    rw [number, Option.map_some, Option.filter_some, decide_eq_true hne, if_pos rfl]

theorem Announced.oackPairs_eq (a : Announced) :
    oackPairs (number a.blksize) (number a.tsize) (number a.wsize) (number a.timeoutms)
      (number a.rsize) = a.pairs := by
  rw [oackPairs, Announced.pairs, number_filter]
  simp only [number, Option.map_map]
  rfl

theorem Announced.packet_eq (a : Announced) (m : Mem) :
    a.packet m = be16 OP_OACK ++ optionBytes a.pairs := by
  rw [Announced.packet, Announced.written, (oack_written _ _ _ _ _ m).1, a.oackPairs_eq]

/-- A pair that is announced or not. -/
theorem mem_pair {name : String} {value : Option Size} {x : OptionPair}
    (h : x ∈ (value.map fun v => (ascii name, decimal v.val)).toList) :
    ∃ v : Size, x = (ascii name, decimal v.val) := by
  cases value with
  | none => exact absurd h List.not_mem_nil
  | some v => exact ⟨v, List.mem_singleton.mp h⟩

theorem Announced.mem_pairs {a : Announced} {x : OptionPair} (h : x ∈ a.pairs) :
    ∃ name ∈ ["blksize", "timeoutms", "tsize", "wsize", "rsize"], ∃ v : Size,
      x = (ascii name, decimal v.val) := by
  simp only [Announced.pairs, List.mem_append] at h
  rcases h with (((h | h) | h) | h) | h
  · exact ⟨"blksize", by simp, mem_pair h⟩
  · exact ⟨"timeoutms", by simp, mem_pair h⟩
  · exact ⟨"tsize", by simp, mem_pair h⟩
  · exact ⟨"wsize", by simp, mem_pair h⟩
  · exact ⟨"rsize", by simp, mem_pair h⟩

/-- The names have no NUL either. -/
theorem Announced.ended (a : Announced) : Ended a.pairs := by
  intro x hx
  obtain ⟨name, hname, v, rfl⟩ := Announced.mem_pairs hx
  refine ⟨?_, zero_notMem_decimal v.val⟩
  have hnames : ∀ name ∈ ["blksize", "timeoutms", "tsize", "wsize", "rsize"], 0 ∉ ascii name := by
    decide
  exact hnames name hname

/-- What a value sets is the value. -/
theorem size_t_atoi (v : Size) : size_t (atoi (decimal v.val)) = UInt64.ofNat v.val := by
  rw [atoi_decimal v.isLt, size_t]
  congr 1
  omega

theorem values_append (name : String) (l l' : List OptionPair) :
    values name (l ++ l') = values name l ++ values name l' := by
  rw [values, values, values, List.filter_append, List.map_append]

theorem values_pair (name name' : String) (value : Option Size) :
    values name (value.map fun v => (ascii name', decimal v.val)).toList =
      if ascii name' = ascii name then (value.map fun v => decimal v.val).toList else [] := by
  cases value with
  | none => exact (ite_self []).symm
  | some v =>
    rw [values, Option.map_some, Option.toList_some, List.filter_singleton]
    by_cases h : ascii name' = ascii name
    · rw [decide_eq_true h, cond_true, if_pos h]
      rfl
    · rw [decide_eq_false h, cond_false, if_neg h]
      rfl

/-- Every option that is announced is given its value, and no other. -/
theorem Announced.values_pairs (a : Announced) :
    values "blksize" a.pairs = (a.blksize.map fun v => decimal v.val).toList ∧
      values "timeoutms" a.pairs = (a.timeoutms.map fun v => decimal v.val).toList ∧
      values "tsize" a.pairs = (a.tsize.map fun v => decimal v.val).toList ∧
      values "wsize" a.pairs = (a.wsize.map fun v => decimal v.val).toList ∧
      values "rsize" a.pairs = (a.rsize.map fun v => decimal v.val).toList := by
  simp +decide [Announced.pairs, values_append, values_pair]

theorem getLast?_values {β : Type} (g : List UInt8 → β) (value : Option Size) :
    (value.map fun v => decimal v.val).toList.getLast?.map g = value.map fun v => g (decimal v.val) := by
  cases value with
  | none => rfl
  | some v => rfl

theorem Announced.setAll_pairs (a : Announced) (o : RrqOptions) : setAll o a.pairs = a.over o := by
  obtain ⟨hblksize, htimeoutms, htsize, hwsize, hrsize⟩ := a.values_pairs
  have hword : ∀ v : Size, (UInt64.ofNat v.val).toUInt32 = UInt32.ofNat v.val := by
    intro v
    rw [UInt64.toUInt32_ofNat']
  have hfield : ∀ o' : RrqOptions, o'.blksize = (a.over o).blksize →
      o'.timeoutms = (a.over o).timeoutms → o'.tsize = (a.over o).tsize →
      o'.rsize = (a.over o).rsize → o'.wsize = (a.over o).wsize → o' = a.over o := by
    rintro ⟨_, _, _, _, _⟩ rfl rfl rfl rfl rfl
    rfl
  apply hfield
  · rw [setAll_blksize, hblksize, getLast?_values]
    simp only [size_t_atoi]
    rfl
  · rw [setAll_timeoutms, htimeoutms, getLast?_values]
    simp only [size_t_atoi, hword]
    rfl
  · rw [setAll_tsize, htsize, getLast?_values]
    simp only [fun v : Size => atoi_decimal v.isLt]
    rfl
  · rw [setAll_rsize, hrsize, getLast?_values]
    simp only [size_t_atoi]
    rfl
  · rw [setAll_wsize, hwsize, getLast?_values]
    simp only [size_t_atoi]
    rfl

theorem decimal_length (v : Size) : (decimal v.val).length ≤ 10 := by
  have hv := v.isLt
  rw [decimal_ofNat, List.length_map, Nat.length_toDigits_le_iff (by decide) (by decide)]
  omega

theorem pair_length (name : String) (value : Option Size) :
    ((value.map fun v => (ascii name, decimal v.val)).toList.flatMap pairBytes).length ≤
      (ascii name).length + 12 := by
  cases value with
  | none => exact Nat.zero_le _
  | some v =>
    have hv := decimal_length v
    simp [pairBytes]
    omega

/-- Five names and five values of ten digits at most have room. -/
theorem Announced.packet_length (a : Announced) (m : Mem) : (a.packet m).length ≤ 512 := by
  have hblksize := pair_length "blksize" a.blksize
  have htimeoutms := pair_length "timeoutms" a.timeoutms
  have htsize := pair_length "tsize" a.tsize
  have hwsize := pair_length "wsize" a.wsize
  have hrsize := pair_length "rsize" a.rsize
  have hnames : (ascii "blksize").length = 7 ∧ (ascii "timeoutms").length = 9 ∧
      (ascii "tsize").length = 5 ∧ (ascii "wsize").length = 5 ∧ (ascii "rsize").length = 5 := by
    decide
  have hop : (be16 OP_OACK).length = 2 := rfl
  simp only [a.packet_eq, Announced.pairs, optionBytes, List.flatMap_append, List.length_append]
  omega

/-- The option loop on the packet, from behind the opcode on. -/
theorem Announced.walk_packet (a : Announced) (m : Mem) (rest : List UInt8) :
    handle_rrq.walk (a.packet m ++ rest) (a.packet m).length (a.packet m).length 2 =
      some (a.pairs, (a.packet m).length) := by
  have hplace : (a.packet m).length = (be16 OP_OACK).length + (optionBytes a.pairs).length := by
    rw [a.packet_eq, List.length_append]
  have hrounds := optionBytes_length a.pairs
  rw [hplace, a.packet_eq]
  exact walk_optionBytes (be16 OP_OACK) a.ended rest (by omega)

/-- **Option lists make the round trip.** The OACK stays in its buffer, and the option loop reads
from behind the opcode the options that were written, with their values, and ends at the end of
the packet. -/
theorem oack_round_trip (a : Announced) (m : Mem) (rest : List UInt8) :
    (∀ sys s sock, tftp_send_oack sys s sock (number a.blksize) (number a.tsize) (number a.wsize)
        (number a.timeoutms) (number a.rsize) = send sys s sock (a.packet m)) ∧
      Below 512 a.written.1 ∧ (a.packet m).length ≤ 512 ∧
      handle_rrq.walk (a.packet m ++ rest) (a.packet m).length (a.packet m).length 2 =
        some (a.pairs, (a.packet m).length) ∧
      ∀ o, handle_rrq.options (a.packet m ++ rest) (a.packet m).length (a.packet m).length 2 o =
        some (a.over o) := by
  have hsize := a.packet_length m
  have hwalk := a.walk_packet m rest
  refine ⟨fun sys s sock => ?_, ?_, hsize, hwalk, fun o => ?_⟩
  · rw [tftp_send_oack_eq, a.packet_eq, a.oackPairs_eq]
  · have hbelow := (oack_written (number a.blksize) (number a.tsize) (number a.wsize)
      (number a.timeoutms) (number a.rsize) m).2
    have hlength : (a.packet m).length = a.written.2 := bytesAt_length _ _ _
    intro store hstore hne
    have hle := hbelow store hstore hne
    rw [hlength] at hsize
    exact Nat.le_trans hle hsize
  · rw [options_walk, hwalk, Option.map_some, a.setAll_pairs]

/-! ## What is announced

Which options an OACK has depends on those of the request. Two of them are
sent whether they were asked for or not: `tftp_send_oack` gets their addresses without a test. -/

/-- The recognised options have values from 1 on, and `tsize` from 0 on. -/
def Rrq.Numeric (r : Rrq) : Prop :=
  ∀ x ∈ r.opts, (x.1 = ascii "tsize" → 0 ≤ atoi x.2) ∧
    (x.1 = ascii "blksize" ∨ x.1 = ascii "timeoutms" ∨ x.1 = ascii "wsize" ∨ x.1 = ascii "rsize" →
      1 ≤ atoi x.2)

/-- The request contains an option of this name. -/
def Rrq.Asks (r : Rrq) (name : List UInt8) : Prop := ∃ x ∈ r.opts, x.1 = name

/-- The options with the values a transfer uses, and the size of its file. -/
def TftpClient.inUse (client : TftpClient) (size : ℕ) : List OptionPair :=
  [(ascii "blksize", decimal client.blksize.toNat), (ascii "timeoutms", decimal client.timeoutms.toNat),
    (ascii "tsize", decimal size), (ascii "wsize", decimal client.wsize.toNat),
    (ascii "rsize", decimal client.rsize.toNat)]

theorem asks_iff (r : Rrq) (name : String) : r.Asks (ascii name) ↔ values name r.opts ≠ [] := by
  rw [ne_eq, values, List.map_eq_nil_iff, List.filter_eq_nil_iff, Rrq.Asks]
  push Not
  simp only [decide_eq_true_eq]

theorem mem_values {name : String} {pairs : List OptionPair} {v : List UInt8}
    (h : v ∈ values name pairs) : (ascii name, v) ∈ pairs := by
  obtain ⟨x, hx, rfl⟩ := List.mem_map.mp h
  obtain ⟨hx, hname⟩ := List.mem_filter.mp hx
  rw [decide_eq_true_eq] at hname
  rw [← hname]
  exact hx

/-- The last value of an option, if it was asked for. -/
theorem values_cases (r : Rrq) (name : String) :
    ¬ r.Asks (ascii name) ∧ (values name r.opts).getLast? = none ∨
      ∃ v, r.Asks (ascii name) ∧ (values name r.opts).getLast? = some v ∧ (ascii name, v) ∈ r.opts := by
  rcases hlast : (values name r.opts).getLast? with _ | v
  · refine .inl ⟨?_, rfl⟩
    rw [asks_iff, ne_eq, not_not]
    exact List.getLast?_eq_none_iff.mp hlast
  · have hmem := mem_values (List.mem_of_getLast? hlast)
    exact .inr ⟨v, ⟨_, hmem, rfl⟩, rfl, hmem⟩

/-- A value from 1 on, as it is stored and printed. -/
theorem size_t_number {v : List UInt8} (h : 1 ≤ atoi v) :
    size_t (atoi v) ≠ 0 ∧ signed 64 (size_t (atoi v)).toNat = (size_t (atoi v)).toNat ∧
      (size_t (atoi v)).toNat < 2 ^ 31 ∧ 0 < (size_t (atoi v)).toNat := by
  have hrange := atoi_range v
  have hsize : ((size_t (atoi v)).toNat : ℤ) = atoi v := by
    rw [size_t, UInt64.toNat_ofNat']
    omega
  have hpos : 0 < (size_t (atoi v)).toNat := by omega
  refine ⟨?_, ?_, by omega, hpos⟩
  · intro hzero
    rw [hzero] at hpos
    exact absurd hpos (by decide)
  · rw [signed]
    omega

/-- What the variables of `handle_rrq` say about the request. -/
structure Rrq.Read (r : Rrq) (o : RrqOptions) : Prop where
  blksize : signed 64 o.blksize.toNat = o.blksize.toNat
  timeoutms : signed 32 o.timeoutms.toNat = o.timeoutms.toNat
  tsize : o.tsize ≠ -1 ↔ r.Asks (ascii "tsize")
  wsize : o.wsize ≠ 0 ↔ r.Asks (ascii "wsize")
  wsize_signed : signed 64 o.wsize.toNat = o.wsize.toNat
  rsize : o.rsize ≠ 0 ↔ r.Asks (ascii "rsize")
  rsize_signed : signed 64 o.rsize.toNat = o.rsize.toNat

/-- In a numeric request the values that stand for a missing option are no values of it. -/
theorem Rrq.Numeric.read {r : Rrq} (h : r.Numeric) : r.Read (setAll {} r.opts) := by
  have hzero : signed 64 (0 : UInt64).toNat = (0 : UInt64).toNat := by decide
  -- the two options whose default of 0 stands for their absence
  have hwindow : ∀ (name : String) {w : UInt64}, ascii name = ascii "wsize" ∨ ascii name = ascii "rsize" →
      w = ((values name r.opts).getLast?.map fun v => size_t (atoi v)).getD 0 →
      (w ≠ 0 ↔ r.Asks (ascii name)) ∧ signed 64 w.toNat = w.toNat := by
    intro name w hname hw
    rcases values_cases r name with ⟨hnot, hlast⟩ | ⟨v, hasks, hlast, hmem⟩
    · rw [hlast] at hw
      rw [hw]
      exact ⟨iff_of_false (fun h => h rfl) hnot, hzero⟩
    · rw [hlast] at hw
      obtain ⟨hne, hsigned, -, -⟩ := size_t_number ((h _ hmem).2 (.inr (.inr hname)))
      rw [hw]
      exact ⟨iff_of_true hne hasks, hsigned⟩
  obtain ⟨hwsize, hwsigned⟩ := hwindow "wsize" (.inl rfl) (setAll_wsize {} r.opts)
  obtain ⟨hrsize, hrsigned⟩ := hwindow "rsize" (.inr rfl) (setAll_rsize {} r.opts)
  refine ⟨?_, ?_, ?_, hwsize, hwsigned, hrsize, hrsigned⟩
  · rw [setAll_blksize]
    rcases values_cases r "blksize" with ⟨-, hlast⟩ | ⟨v, -, hlast, hmem⟩
    · rw [hlast]
      decide
    · rw [hlast]
      exact (size_t_number ((h _ hmem).2 (.inl rfl))).2.1
  · rw [setAll_timeoutms]
    rcases values_cases r "timeoutms" with ⟨-, hlast⟩ | ⟨v, -, hlast, hmem⟩
    · rw [hlast]
      decide
    -- the 32-bit variable holds any number that `atoi` gives from 0 on
    · have hlt : (size_t (atoi v)).toNat < 2 ^ 31 :=
        (size_t_number ((h _ hmem).2 (.inr (.inl rfl)))).2.2.1
      rw [hlast, Option.map_some, Option.getD_some, UInt64.toNat_toUInt32, signed]
      omega
  · rw [setAll_tsize]
    rcases values_cases r "tsize" with ⟨hnot, hlast⟩ | ⟨v, hasks, hlast, hmem⟩
    · rw [hlast]
      exact iff_of_false (fun h => h rfl) hnot
    · rw [hlast]
      refine iff_of_true ?_ hasks
      have hpos : 0 ≤ atoi v := (h _ hmem).1 rfl
      show atoi v ≠ -1
      omega

instance (r : Rrq) (name : List UInt8) : Decidable (r.Asks name) :=
  inferInstanceAs (Decidable (∃ x ∈ r.opts, x.1 = name))

/-- The options of the OACK: the two that are always there, and those that were asked for. -/
def announced (r : Rrq) (client : TftpClient) (size : ℕ) : List OptionPair :=
  [(ascii "blksize", decimal client.blksize.toNat), (ascii "timeoutms", decimal client.timeoutms.toNat)]
    ++ (if r.Asks (ascii "tsize") ∧ size ≠ 0 then [(ascii "tsize", decimal size)] else [])
    ++ (if r.Asks (ascii "wsize") then [(ascii "wsize", decimal client.wsize.toNat)] else [])
    ++ (if r.Asks (ascii "rsize") then [(ascii "rsize", decimal client.rsize.toNat)] else [])

theorem pair_if (c : Prop) [Decidable c] (name : String) (v : ℤ) :
    ((if c then some v else none).map fun v => (ascii name, decimal v)).toList =
      if c then [(ascii name, decimal v)] else [] := by
  split
  · rfl
  · rfl

/-- The size that is announced. One that was not asked for is -1, and is left out further down; a size
of 0 is left out before. -/
theorem tsize_announced {r : Rrq} {o : RrqOptions} (hread : r.Read o) (size : ℕ) :
    (if (if o.tsize ≠ -1 then (size : ℤ) else -1) ≠ 0 then
      some (if o.tsize ≠ -1 then (size : ℤ) else -1) else none).filter (fun v => decide (v ≠ -1)) =
        if r.Asks (ascii "tsize") ∧ size ≠ 0 then some (size : ℤ) else none := by
  have hsize : (size : ℤ) ≠ -1 := by omega
  by_cases hasks : r.Asks (ascii "tsize")
  · rw [if_pos (hread.tsize.mpr hasks)]
    by_cases hzero : size = 0
    · rw [if_neg (not_not.mpr (by rw [hzero]; rfl)), if_neg (fun h => h.2 hzero)]
      rfl
    · rw [if_pos (by omega), if_pos ⟨hasks, hzero⟩, Option.filter_some, decide_eq_true hsize,
        if_pos rfl]
  · rw [if_neg (fun hne => hasks (hread.tsize.mp hne)), if_pos (by decide),
      if_neg (fun h => hasks h.1)]
    rfl

/-- What `handle_rrq` hands to `tftp_send_oack` are these options. -/
theorem oackPairs_announced {r : Rrq} {o : RrqOptions} (hread : r.Read o) (sq : SockaddrQrtr)
    (sock fd size : ℕ) :
    oackPairs (some (signed 64 o.blksize.toNat))
      (if (if o.tsize ≠ -1 then (size : ℤ) else -1) ≠ 0 then
        some (if o.tsize ≠ -1 then (size : ℤ) else -1) else none)
      (if o.wsize ≠ 0 then some (signed 64 o.wsize.toNat) else none)
      (some (signed 32 o.timeoutms.toNat))
      (if o.rsize ≠ 0 then some (signed 64 o.rsize.toNat) else none) =
        announced r ⟨sq, sock, fd, o.blksize, o.rsize, o.wsize, o.timeoutms⟩ size := by
  rw [hread.blksize, hread.timeoutms, hread.wsize_signed, hread.rsize_signed, announced, oackPairs,
    tsize_announced hread]
  simp only [hread.wsize, hread.rsize, pair_if]
  rfl

/-- With options an OACK is sent, and it holds these. -/
theorem begin_announces (sys : Sys) {s s' : State} {sq : SockaddrQrtr} {client : TftpClient}
    {r : Rrq} {o : RrqOptions} {size : ℕ} (hread : r.Read o)
    (hclient : client = ⟨sq, client.sock, client.fd, o.blksize, o.rsize, o.wsize, o.timeoutms⟩)
    (hsend : ∀ t data, 0 ≤ sys.send t client.sock data)
    (hfstat : ∀ t, sys.fstat t client.fd = size)
    (h : handle_rrq.begin sys s sq client.sock client.fd true o = some s') :
    s'.calls = s.calls ++
      [.send client.sock (be16 OP_OACK ++ optionBytes (announced r client size))] := by
  have hnonneg : ∀ t data, ¬ sys.send t client.sock data < 0 := fun t data => not_lt.mpr (hsend t data)
  have hpairs := oackPairs_announced hread sq client.sock client.fd size
  rw [← hclient] at hpairs
  unfold handle_rrq.begin at h
  simp only at h
  generalize hs1 : (if o.tsize ≠ -1 then s.tick else s) = s1 at h
  have hcalls : s1.calls = s.calls := by
    rw [← hs1]
    split <;> rfl
  split at h
  swap
  · cases h
  rw [if_pos trivial, hfstat, tftp_send_oack_eq, hpairs] at h
  simp only [send, hnonneg, if_false] at h
  cases h
  rw [← hcalls]
  rfl

theorem optionalPair_mem {c : Prop} [Decidable c] {x y : OptionPair} :
    x ∈ (if c then [y] else []) ↔ x = y ∧ c := by
  split
  · rename_i hc
    rw [List.mem_singleton, and_iff_left hc]
  · rename_i hc
    exact iff_of_false List.not_mem_nil fun h => hc h.2

theorem announced_mem (r : Rrq) (client : TftpClient) (size : ℕ) (x : OptionPair) :
    x ∈ announced r client size ↔ x ∈ client.inUse size ∧ (x.1 = ascii "blksize" ∨
      x.1 = ascii "timeoutms" ∨ r.Asks x.1) ∧ (x.1 = ascii "tsize" → size ≠ 0) := by
  have hblksize : ascii "blksize" ≠ ascii "tsize" := by decide
  have htimeoutms : ascii "timeoutms" ≠ ascii "tsize" := by decide
  have hwsize : ascii "wsize" ≠ ascii "tsize" := by decide
  have hrsize : ascii "rsize" ≠ ascii "tsize" := by decide
  -- the other three are there only if they were asked for
  have hasked : ∀ name ∈ [ascii "tsize", ascii "wsize", ascii "rsize"], name = ascii "blksize" ∨
      name = ascii "timeoutms" ∨ r.Asks name → r.Asks name := by
    intro name hname h
    have hother : ∀ name ∈ [ascii "tsize", ascii "wsize", ascii "rsize"],
        name ≠ ascii "blksize" ∧ name ≠ ascii "timeoutms" := by decide
    exact (h.resolve_left (hother name hname).1).resolve_left (hother name hname).2
  simp only [announced, TftpClient.inUse, List.mem_append, List.mem_cons, List.not_mem_nil, or_false,
    optionalPair_mem]
  constructor
  · rintro ((((rfl | rfl) | ⟨rfl, hasks, hsize⟩) | ⟨rfl, hasks⟩) | ⟨rfl, hasks⟩)
    · exact ⟨.inl rfl, .inl rfl, fun h => absurd h hblksize⟩
    · exact ⟨.inr (.inl rfl), .inr (.inl rfl), fun h => absurd h htimeoutms⟩
    · exact ⟨.inr (.inr (.inl rfl)), .inr (.inr hasks), fun _ => hsize⟩
    · exact ⟨.inr (.inr (.inr (.inl rfl))), .inr (.inr hasks), fun h => absurd h hwsize⟩
    · exact ⟨.inr (.inr (.inr (.inr rfl))), .inr (.inr hasks), fun h => absurd h hrsize⟩
  · rintro ⟨rfl | rfl | rfl | rfl | rfl, hasks, hsize⟩
    · exact .inl (.inl (.inl (.inl rfl)))
    · exact .inl (.inl (.inl (.inr rfl)))
    · exact .inl (.inl (.inr ⟨rfl, hasked _ (by simp) hasks, hsize rfl⟩))
    · exact .inl (.inr ⟨rfl, hasked _ (by simp) hasks⟩)
    · exact .inr ⟨rfl, hasked _ (by simp) hasks⟩

/-- Every name is there once. -/
theorem announced_nodup (r : Rrq) (client : TftpClient) (size : ℕ) :
    ((announced r client size).map Prod.fst).Nodup := by
  have hsub : ((announced r client size).map Prod.fst).Sublist
      [ascii "blksize", ascii "timeoutms", ascii "tsize", ascii "wsize", ascii "rsize"] := by
    have hopt : ∀ (c : Prop) [Decidable c] (name value : List UInt8),
        ((if c then [(name, value)] else []).map Prod.fst).Sublist [name] := by
      intro c _ name value
      split
      · exact List.Sublist.refl _
      · exact List.nil_sublist _
    simp only [announced, List.map_append]
    exact (((List.Sublist.refl [ascii "blksize", ascii "timeoutms"]).append (hopt _ _ _)).append
      (hopt _ _ _)).append (hopt _ _ _)
  exact hsub.nodup (by decide)

theorem announced_ended (r : Rrq) (client : TftpClient) (size : ℕ) : Ended (announced r client size) := by
  have hnames : ∀ name ∈ [ascii "blksize", ascii "timeoutms", ascii "tsize", ascii "wsize",
      ascii "rsize"], 0 ∉ name := by decide
  intro x hx
  have hmem := ((announced_mem r client size x).mp hx).1
  have hname : x.1 ∈ (client.inUse size).map Prod.fst := List.mem_map_of_mem hmem
  refine ⟨hnames x.1 hname, ?_⟩
  simp only [TftpClient.inUse, List.mem_cons, List.not_mem_nil, or_false] at hmem
  rcases hmem with rfl | rfl | rfl | rfl | rfl <;> exact zero_notMem_decimal _

/-- A request that adds a reader, as it is granted. -/
theorem rrq_granted (sys : Sys) {s s' : State} {r : Rrq} {rest : List UInt8} {sq : SockaddrQrtr}
    {client : TftpClient} (h : handle_rrq sys s (r.bytes ++ rest) r.bytes.length sq = some s')
    (hclient : s'.readers = s.readers ++ [client]) :
    ∃ s1 file, s1.calls = s.calls ++ [.connect client.sock sq, .open_ client.fd file] ∧
      client = ⟨sq, client.sock, client.fd, (setAll {} r.opts).blksize, (setAll {} r.opts).rsize,
        (setAll {} r.opts).wsize, (setAll {} r.opts).timeoutms⟩ ∧
      handle_rrq.begin sys s1 sq client.sock client.fd (decide (r.opts ≠ [])) (setAll {} r.opts) =
        some s' := by
  have hadded : s'.readers ≠ s.readers := by
    intro hsame
    rw [hsame] at hclient
    have hlen := congrArg List.length hclient
    simp at hlen
  have hparse := parse_rrq r rest
  rcases handle_rrq_cases sys s (r.bytes ++ rest) r.bytes.length sq with
    ⟨-, he⟩ | ⟨-, he⟩ | ⟨filename, do_oack, o, hparse', hcases⟩
  · rw [he] at h
    cases h
  · rw [he] at h
    cases h
    exact absurd rfl hadded
  rw [hparse, Option.some.injEq, Option.some.injEq, Prod.mk.injEq, Prod.mk.injEq] at hparse'
  obtain ⟨-, rfl, rfl⟩ := hparse'
  rcases hcases with ⟨-, s1, he, hworks⟩ | ⟨-, sock, s1, he, hopens⟩ |
    ⟨-, sock, fd, s1, hopens, ⟨file, hcalls⟩, he⟩
  · rw [he] at h
    cases h
    exact absurd hworks.same.1 hadded
  · rw [he] at h
    cases h
    exact absurd hopens.same.1 hadded
  · rw [he] at h
    have hreaders := (handle_rrq_begin_adds sys h).same.1
    simp only [hopens.same.1] at hreaders
    rw [hclient, List.append_cancel_left_eq, List.singleton_inj] at hreaders
    subst hreaders
    exact ⟨s1, file, hcalls, rfl, h⟩

/-- **The OACK answers the request.** For every granted request with options whose values are in
range: what is sent after the socket is connected and the file is open is one OACK. It lists the
block size and the timeout, and of the other options those that were asked for, each once and with
the value of the transfer; except that nothing is said of the size of an empty file. -/
theorem oack_answers (sys : Sys) (s s' : State) (r : Rrq) (rest : List UInt8) (sq : SockaddrQrtr)
    (client : TftpClient) (size : ℕ) (hnumeric : r.Numeric) (hopts : r.opts ≠ [])
    (hsend : ∀ t data, 0 ≤ sys.send t client.sock data)
    (hfstat : ∀ t, sys.fstat t client.fd = size)
    (h : handle_rrq sys s (r.bytes ++ rest) r.bytes.length sq = some s')
    (hclient : s'.readers = s.readers ++ [client]) :
    ∃ file packet pairs, s'.calls = s.calls ++
        [.connect client.sock sq, .open_ client.fd file, .send client.sock packet] ∧
      be16At packet 0 = OP_OACK ∧
      handle_rrq.walk packet packet.length packet.length 2 = some (pairs, packet.length) ∧
      (pairs.map Prod.fst).Nodup ∧
      ∀ x, (x.1 = ascii "tsize" → r.Asks x.1 → size ≠ 0) →
        (x ∈ pairs ↔ x ∈ client.inUse size ∧
          (x.1 = ascii "blksize" ∨ x.1 = ascii "timeoutms" ∨ r.Asks x.1)) := by
  obtain ⟨s1, file, hopened, hfields, hbegin⟩ := rrq_granted sys h hclient
  rw [decide_eq_true hopts] at hbegin
  have hcalls := begin_announces sys hnumeric.read hfields hsend hfstat hbegin
  have hwalk := walk_optionBytes (be16 OP_OACK) (announced_ended r client size) []
    (Nat.le_trans (Nat.le_mul_of_pos_left _ (by decide)) (Nat.le_trans
      (optionBytes_length (announced r client size)) (Nat.le_add_left _ (be16 OP_OACK).length)))
  rw [List.append_nil, ← List.length_append] at hwalk
  refine ⟨file, _, _, ?_, oack_opcode _, hwalk, announced_nodup r client size, fun x hx => ?_⟩
  · rw [hcalls, hopened, List.append_assoc]
    rfl
  · rw [announced_mem]
    constructor
    · rintro ⟨huse, hasks, -⟩
      exact ⟨huse, hasks⟩
    · rintro ⟨huse, hasks⟩
      refine ⟨huse, hasks, fun htsize => hx htsize ?_⟩
      rw [htsize] at hasks ⊢
      exact (hasks.resolve_left (by decide)).resolve_left (by decide)

/-- A system on which every file has three bytes. -/
def sized : Sys := { obliging with fstat := fun _ _ => 3 }

theorem ended_window : Ended [(ascii "wsize", ascii "1"), (ascii "tsize", ascii "0")] := by
  simp only [Ended, List.forall_mem_cons, List.not_mem_nil, false_implies, implies_true, and_true]
  decide

/-- A request for a window and for the size of the file. -/
def windowRequest : Rrq := logOptions [(ascii "wsize", ascii "1"), (ascii "tsize", ascii "0")] ended_window

/-- The server after it. -/
def windowGranted : State :=
  (handle_rrq sized (main.start sized) (windowRequest.bytes ++ []) windowRequest.bytes.length
    ⟨5, 7⟩).getD (main.start sized)

theorem windowRequest_numeric : windowRequest.Numeric := by
  simp only [Rrq.Numeric, windowRequest, logOptions, List.forall_mem_cons, List.not_mem_nil,
    false_implies, implies_true, and_true]
  decide

theorem oack_answers_window :
    ∃ file packet pairs, windowGranted.calls = (main.start sized).calls ++
        [.connect 4 ⟨5, 7⟩, .open_ 5 file, .send 4 packet] ∧
      be16At packet 0 = OP_OACK ∧
      handle_rrq.walk packet packet.length packet.length 2 = some (pairs, packet.length) ∧
      (pairs.map Prod.fst).Nodup ∧
      ∀ x, (x.1 = ascii "tsize" → windowRequest.Asks x.1 → 3 ≠ 0) →
        (x ∈ pairs ↔ x ∈ TftpClient.inUse ⟨⟨5, 7⟩, 4, 5, 512, 0, 1, 1000⟩ 3 ∧
          (x.1 = ascii "blksize" ∨ x.1 = ascii "timeoutms" ∨ windowRequest.Asks x.1)) :=
  oack_answers sized (main.start sized) windowGranted windowRequest [] ⟨5, 7⟩
    ⟨⟨5, 7⟩, 4, 5, 512, 0, 1, 1000⟩ 3 windowRequest_numeric (by decide)
    (fun _ data => Int.natCast_nonneg data.length) (fun _ => rfl) (by decide +kernel)
    (by decide +kernel)

/-- **A block size that was not asked for** is in the OACK of this request. -/
theorem oack_unasked :
    ∃ packet pairs, windowGranted.calls.getLast? = some (.send 4 packet) ∧
      handle_rrq.walk packet packet.length packet.length 2 = some (pairs, packet.length) ∧
      ¬ ∀ x, x ∈ pairs ↔ x ∈ TftpClient.inUse ⟨⟨5, 7⟩, 4, 5, 512, 0, 1, 1000⟩ 3 ∧
        windowRequest.Asks x.1 := by
  refine ⟨be16 OP_OACK ++ optionBytes [(ascii "blksize", ascii "512"), (ascii "timeoutms",
    ascii "1000"), (ascii "tsize", ascii "3"), (ascii "wsize", ascii "1")],
    [(ascii "blksize", ascii "512"), (ascii "timeoutms", ascii "1000"), (ascii "tsize", ascii "3"),
      (ascii "wsize", ascii "1")], by decide +kernel, by decide +kernel, fun h => ?_⟩
  have hasks := ((h (ascii "blksize", ascii "512")).mp List.mem_cons_self).2
  exact absurd hasks (by decide)

end Dragonboard.Tqftpserv
