/-
Where `tqftpserv` looks in the buffers it receives into.

The handlers are given once more as they walk over the buffer, with every index they read or
store (`handle_rrq.scan` and so on), and find the same there as in `Tqftpserv`. What is read
again, by `strcasecmp`, `atoi` or `printf`, lies where `strlen` was before.

No handler looks at the number of bytes that were received before it reads a string, an
opcode or a block number. So it keeps to them exactly if the datagram has what the
handler expects (`looks_inside_iff`): the strings of a read request come in pairs and the
last one ends, and the fixed fields of the other packets are there.
-/
import Dragonboard.BufferScan
import Dragonboard.TqftpservWrite

set_option autoImplicit false

namespace Dragonboard.Tqftpserv

open Dragonboard.Ns Dragonboard.Qrtr Dragonboard.Translate Dragonboard.BufferScan

/-! ## Reading a buffer

The functions of the C library that look at a buffer, each with the bytes it looks at. -/

/-- `strlen`: everything up to the NUL, or to the end of the stack. -/
def strlen (mem : List UInt8) (p : ℕ) : Scan (List UInt8) :=
  ⟨reads (List.range' p (((mem.drop p).takeWhile (· ≠ 0)).length + 1)), strAt mem p⟩

/-- A 16-bit number. -/
def word (mem : List UInt8) (p : ℕ) : Scan UInt16 := ⟨reads [p, p + 1], some (be16At mem p)⟩

/-- What `write` takes from the buffer. -/
def bytes (mem : List UInt8) (p n : ℕ) : Scan (List UInt8) :=
  ⟨reads (List.range' p n), some ((mem.drop p).take n)⟩

/-- `strcasecmp` with a string in lower case: up to the first difference. -/
def strcasecmp (mem : List UInt8) : ℕ → List UInt8 → Scan Bool
  | p, [] => do
    let x ← ⟨reads [p], mem[p]?⟩
    return x = 0
  | p, c :: cs => do
    let x ← ⟨reads [p], mem[p]?⟩
    if tolower x = c then strcasecmp mem (p + 1) cs else return false

/-! ## The handlers

The handlers once more, as far as they look at the datagram. They do not stop at the end of what
was received, unless the source does. -/

def handle_rrq.scanOptions (mem : List UInt8) (len : ℕ) : ℕ → ℕ → RrqOptions → Scan RrqOptions
  | 0, _, o => return o
  | rounds + 1, p, o =>
    if p < len then do
      let opt ← strlen mem p
      let value ← strlen mem (p + opt.length + 1)
      handle_rrq.scanOptions mem len rounds (p + opt.length + 1 + value.length + 1) (o.set opt value)
    else return o

def handle_rrq.scan (mem : List UInt8) (len : ℕ) :
    Scan (Option (List UInt8 × Bool × RrqOptions)) := do
  let filename ← strlen mem 2
  let mode ← strlen mem (2 + filename.length + 1)
  if mode.map tolower = ascii "octet" then
    let p := 2 + filename.length + 1 + mode.length + 1
    let options ← handle_rrq.scanOptions mem len len p {}
    return some (filename, decide (p < len), options)
  else return none

def handle_wrq.scan (mem : List UInt8) : Scan (Option (List UInt8)) := do
  let filename ← strlen mem 2
  if ← strcasecmp mem (2 + filename.length + 1) (ascii "octet") then return some filename
  else return none

/-- What the server socket got. -/
inductive Request where
  | rrq (parsed : Option (List UInt8 × Bool × RrqOptions))
  | wrq (parsed : Option (List UInt8))
  | other

def main.scan (mem : List UInt8) (len : ℕ) : Scan Request :=
  if len < 2 then return .other
  else do
    let opcode ← word mem 0
    if opcode = OP_RRQ then return .rrq (← handle_rrq.scan mem len)
    else if opcode = OP_WRQ then return .wrq (← handle_wrq.scan mem)
    else return .other

/-- What a reader got. -/
inductive Reply where
  | error (text : List UInt8)
  | ack (last : UInt16)
  | other

/-- The NUL behind an ERROR, which the text of it is read up to. -/
def handle_reader.terminate (len : ℕ) : Scan Unit := ⟨[.store len], if len < 128 then some () else none⟩

def handle_reader.scan (mem : List UInt8) (len : ℕ) : Scan Reply := do
  let opcode ← word mem 0
  if opcode = OP_ERROR then
    handle_reader.terminate len
    return .error (← strlen (mem.set len 0) 4)
  else if opcode ≠ OP_ACK then return .other
  else return .ack (← word mem 2)

/-- What a writer got. -/
inductive Block where
  | data (block : UInt16) (payload : List UInt8)
  | short
  | other

def handle_writer.scan (mem : List UInt8) (len : ℕ) : Scan Block := do
  let opcode ← word mem 0
  let block ← word mem 2
  if opcode ≠ OP_DATA then return .other
  else if len < 4 then return .short
  else return .data block (← bytes mem 4 (len - 4))

/-! ### They find what is there -/

theorem strcasecmp_value (mem : List UInt8) (p : ℕ) (str : List UInt8) :
    (strcasecmp mem p str).value = strcasecmp_eq (mem.drop p) str := by
  induction str generalizing p with
  | nil =>
    rw [strcasecmp, Scan.value_bind]
    cases hp : mem[p]? with
    | none =>
      rw [List.drop_eq_nil_of_le (List.getElem?_eq_none_iff.mp hp)]
      rfl
    | some x =>
      obtain ⟨hlt, hx⟩ := List.getElem?_eq_some_iff.mp hp
      rw [List.drop_eq_getElem_cons hlt, hx]
      rfl
  | cons c cs ih =>
    rw [strcasecmp, Scan.value_bind]
    cases hp : mem[p]? with
    | none =>
      rw [List.drop_eq_nil_of_le (List.getElem?_eq_none_iff.mp hp)]
      rfl
    | some x =>
      obtain ⟨hlt, hx⟩ := List.getElem?_eq_some_iff.mp hp
      rw [List.drop_eq_getElem_cons hlt, hx, strcasecmp_eq]
      simp only [Option.bind_eq_bind, Option.bind_some]
      split
      · exact ih (p + 1)
      · rfl

theorem scanOptions_value (mem : List UInt8) (len rounds p : ℕ) (o : RrqOptions) :
    (handle_rrq.scanOptions mem len rounds p o).value = handle_rrq.options mem len rounds p o := by
  induction rounds generalizing p o with
  | zero => rfl
  | succ rounds ih =>
    rw [handle_rrq.scanOptions, handle_rrq.options]
    split
    · simp only [Scan.value_bind, ih]
      rfl
    · rfl

theorem handle_rrq_scan (mem : List UInt8) (len : ℕ) :
    (handle_rrq.scan mem len).value = handle_rrq.parse mem len := by
  simp only [handle_rrq.scan, handle_rrq.parse, Scan.value_bind, Scan.value_ite, scanOptions_value]
  rfl

theorem handle_wrq_scan (mem : List UInt8) :
    (handle_wrq.scan mem).value = handle_wrq.parse mem := by
  simp only [handle_wrq.scan, handle_wrq.parse, Scan.value_bind, Scan.value_ite, strcasecmp_value]
  rfl

theorem handle_reader_scan (sys : Sys) (s : State) (client : TftpClient) (data rest : List UInt8) :
    handle_reader sys s client (.data client.sq data rest)
      = (handle_reader.scan (data.take 128 ++ rest) (data.take 128).length).value.bind fun
        | .error _ => some (-1, s)
        | .ack last => (handle_reader.loop sys client last sys.fuel last s).map fun s => (1, s)
        | .other => some (-1, s) := by
  have hword : ∀ mem p, (word mem p).value = some (be16At mem p) := fun _ _ => rfl
  simp only [handle_reader, handle_reader.scan, Scan.value_bind, Scan.value_ite, hword, ne_eq,
    not_true_eq_false, if_false, Option.bind_eq_bind, Option.bind_some, Scan.value_pure]
  split
  · by_cases hlen : (data.take 128).length < 128
    · have hterminate : (handle_reader.terminate (data.take 128).length).value = some () := if_pos hlen
      rw [hterminate, Option.bind_some, strlen]
      simp only [hlen, true_and]
      cases htext : strAt ((data.take 128 ++ rest).set (data.take 128).length 0) 4 with
      | none => rfl
      | some text => rfl
    · have hterminate : (handle_reader.terminate (data.take 128).length).value = none := if_neg hlen
      rw [hterminate, if_neg fun h => hlen h.1]
      rfl
  · split
    · rfl
    · rfl

theorem handle_writer_scan (sys : Sys) (s : State) (client : TftpClient) (data rest : List UInt8) :
    some (handle_writer sys s client (.data client.sq data rest))
      = (handle_writer.scan (data.take 516 ++ rest) (data.take 516).length).value.map fun
        | .other => some (-1, (tftp_send_error sys s client.sock 4 "Expected DATA opcode").2)
        | .short => some (-1, s.tick)
        | .data block payload =>
          if sys.write s.time client.fd payload < 0 then some (-1, s.tick)
          else some (if payload.length = 512 then 1 else 0, (tftp_send_ack sys
            { s.tick with calls := s.calls ++ [.write client.fd payload] } client.sock block).2) := by
  have hword : ∀ mem p, (word mem p).value = some (be16At mem p) := fun _ _ => rfl
  have hbytes : (bytes (data.take 516 ++ rest) 4 ((data.take 516).length - 4)).value
      = some (((data.take 516 ++ rest).drop 4).take ((data.take 516).length - 4)) := rfl
  simp only [handle_writer, handle_writer.scan, Scan.value_bind, Scan.value_ite, hword, ne_eq,
    not_true_eq_false, if_false, Option.bind_eq_bind, Option.bind_some, Scan.value_pure, hbytes]
  split
  · rfl
  split
  · rfl
  · rename_i hlen
    have hpayload : ((data.take 516 ++ rest).drop 4).take ((data.take 516).length - 4)
        = (data.take 516).drop 4 := by
      rw [List.drop_append_of_le_length (Nat.not_lt.mp hlen), List.take_left' List.length_drop]
    rw [hpayload]
    rfl

/-! ## Strings

A string ends at its NUL, and whether that is among the received bytes is all that matters. -/

theorem drop_append_left {buf : List UInt8} {p : ℕ} (hp : p ≤ buf.length) (rest : List UInt8) :
    (buf ++ rest).drop p = buf.drop p ++ rest := List.drop_append_of_le_length hp

theorem all_ne_zero {str : List UInt8} (hstr : 0 ∉ str) : ∀ x ∈ str, decide (x ≠ 0) = true := by
  intro x hx
  simp only [decide_eq_true_eq]
  rintro rfl
  exact hstr hx

theorem takeWhile_split {str tail : List UInt8} (hstr : 0 ∉ str) :
    (str ++ 0 :: tail).takeWhile (· ≠ 0) = str := by
  rw [List.takeWhile_append_of_pos (all_ne_zero hstr), List.takeWhile_cons_of_neg (by simp), List.append_nil]

/-- A string keeps to the received bytes exactly if its NUL is there. -/
theorem strlen_inside_iff (buf rest : List UInt8) {p : ℕ} (hp : p ≤ buf.length) :
    (∀ i ∈ List.range' p ((((buf ++ rest).drop p).takeWhile (· ≠ 0)).length + 1), i < buf.length)
      ↔ 0 ∈ buf.drop p := by
  have hlen : (buf.drop p).length = buf.length - p := List.length_drop
  rw [range'_lt_iff, drop_append_left hp]
  constructor
  · intro h
    by_contra hzero
    -- without a NUL all of it is string, and the scan goes on behind it
    rw [List.takeWhile_append_of_pos (all_ne_zero hzero), List.length_append] at h
    omega
  · intro hzero
    -- with one, the scan stops there
    obtain ⟨str, tail, htail, hstr⟩ := List.eq_append_cons_of_mem hzero
    rw [htail, List.append_assoc, List.cons_append, takeWhile_split hstr]
    rw [htail, List.length_append, List.length_cons] at hlen
    omega

/-- The string, and what comes behind its NUL. -/
theorem strAt_split (buf : List UInt8) {p : ℕ} (hp : p ≤ buf.length) (h : 0 ∈ buf.drop p) :
    ∃ str, (∀ rest, strAt (buf ++ rest) p = some str) ∧ 0 ∉ str ∧ p + str.length + 1 ≤ buf.length ∧
      buf.drop p = str ++ 0 :: buf.drop (p + str.length + 1) := by
  obtain ⟨str, tail, htail, hstr⟩ := List.eq_append_cons_of_mem h
  have hlen : (buf.drop p).length = buf.length - p := List.length_drop
  have hrest : buf.drop (p + str.length + 1) = tail := by
    rw [Nat.add_assoc, ← List.drop_drop, htail, ← List.drop_drop, List.drop_left]
    rfl
  rw [htail, List.length_append, List.length_cons] at hlen
  refine ⟨str, fun rest => ?_, hstr, by omega, by rw [hrest, htail]⟩
  rw [strAt, drop_append_left hp, if_pos (List.mem_append_left _ h), htail, List.append_assoc,
    List.cons_append, takeWhile_split hstr]

/-! ## Options

The option loop reads strings in pairs until it has passed the last received byte. It keeps inside
exactly if the datagram ends with the NUL of a value. -/

/-- The last string ends, and the number of strings is even. -/
def Paired (strings : List UInt8) : Prop :=
  strings.count 0 % 2 = 0 ∧ ∀ b ∈ strings.getLast?, b = 0

instance (strings : List UInt8) : Decidable (Paired strings) :=
  inferInstanceAs (Decidable (_ ∧ _))

theorem paired_nil : Paired [] := ⟨rfl, nofun⟩

theorem count_split {str : List UInt8} (hstr : 0 ∉ str) (tail : List UInt8) :
    (str ++ 0 :: tail).count 0 = tail.count 0 + 1 := by
  rw [List.count_append, List.count_eq_zero_of_not_mem hstr, List.count_cons_self, Nat.zero_add]

theorem ended_split (str tail : List UInt8) :
    (∀ b ∈ (str ++ 0 :: tail).getLast?, b = 0) ↔ ∀ b ∈ tail.getLast?, b = 0 := by
  rw [List.getLast?_append, List.getLast?_cons]
  cases tail.getLast? with
  | none => simp
  | some b => simp

theorem Paired.mem_zero {strings : List UInt8} (h : Paired strings) (hne : strings ≠ []) :
    0 ∈ strings := by
  have hlast := h.2 (strings.getLast hne) (List.getLast?_eq_some_getLast hne)
  exact hlast ▸ List.getLast_mem hne

/-- The option loop keeps to the received bytes exactly if the strings are paired. -/
theorem scanOptions_inside_iff (size : ℕ) (buf rest : List UInt8) (rounds : ℕ) {p : ℕ}
    (hp : p ≤ buf.length) (hrounds : buf.length - p ≤ 2 * rounds) (o : RrqOptions) :
    Inside size buf.length (handle_rrq.scanOptions (buf ++ rest) buf.length rounds p o).accesses
      ↔ Paired (buf.drop p) := by
  induction rounds generalizing p o with
  | zero =>
    have hnil : buf.drop p = [] := List.drop_eq_nil_of_le (by omega)
    rw [hnil]
    exact iff_of_true trivial paired_nil
  | succ rounds ih =>
    rw [handle_rrq.scanOptions]
    split
    · rename_i hlt
      have hne : buf.drop p ≠ [] := by
        rw [Ne, List.drop_eq_nil_iff]
        omega
      rw [Scan.inside_bind rfl, strlen_inside_iff buf rest hp]
      by_cases hopt : 0 ∈ buf.drop p
      swap
      · exact iff_of_false (fun h => hopt h.1) fun h => hopt (h.mem_zero hne)
      -- from here on what lies behind the datagram plays no part in this option
      obtain ⟨opt, hopt', hstr, hp', hsplit⟩ := strAt_split buf hp hopt
      have hvalue : (strlen (buf ++ rest) p).value = some opt := hopt' rest
      simp only [hvalue, Option.some.injEq, forall_eq', hopt, true_and]
      rw [Scan.inside_bind rfl, strlen_inside_iff buf rest hp']
      by_cases hval : 0 ∈ buf.drop (p + opt.length + 1)
      swap
      · -- an option without a value
        refine iff_of_false (fun h => hval h.1) fun h => ?_
        have hodd := h.1
        rw [hsplit, count_split hstr, List.count_eq_zero_of_not_mem hval] at hodd
        exact absurd hodd (by decide)
      obtain ⟨value, hval', hstr', hp'', hsplit'⟩ := strAt_split buf hp' hval
      have hvalue' : (strlen (buf ++ rest) (p + opt.length + 1)).value = some value := hval' rest
      simp only [hvalue', Option.some.injEq, forall_eq', hval, true_and]
      rw [ih hp'' (by omega), Paired, Paired, hsplit, hsplit', count_split hstr, count_split hstr',
        ended_split, ended_split]
      -- two strings fewer, so the number of strings stays even or odd
      have heven : ((buf.drop (p + opt.length + 1 + value.length + 1)).count 0 + 1 + 1) % 2
          = (buf.drop (p + opt.length + 1 + value.length + 1)).count 0 % 2 := by
        omega
      rw [heven]
    · have hnil : buf.drop p = [] := List.drop_eq_nil_of_le (by omega)
      rw [hnil]
      exact iff_of_true trivial paired_nil

/-! ## What the handlers expect

For each socket the datagrams that have all its handler looks at, and that the handler looks no
further than that. -/

/-- Whether a request has the mode `octet`. -/
def octetMode (buf : List UInt8) : Bool :=
  match strAt buf 2 with
  | none => false
  | some filename =>
    match strAt buf (2 + filename.length + 1) with
    | none => false
    | some mode => mode.map tolower = ascii "octet"

/-- A read request has a file name and a mode, and pairs of strings if the mode is `octet`. -/
def handle_rrq.Complete (buf : List UInt8) : Prop :=
  2 ≤ (buf.drop 2).count 0 ∧ (octetMode buf = true → Paired (buf.drop 2))

/-- A write request has a file name, and something behind it that is not the start of `octet`. -/
def handle_wrq.Complete (buf : List UInt8) : Prop :=
  0 ∈ buf.drop 2 ∧
    ¬ (((buf.drop 2).dropWhile (· ≠ 0)).drop 1).map tolower <+: ascii "octet"

/-- An ERROR leaves room for the NUL and has its code, and an ACK has its block. -/
def handle_reader.Complete (buf : List UInt8) : Prop :=
  2 ≤ buf.length ∧ (be16At buf 0 = OP_ERROR → 4 ≤ buf.length ∧ buf.length < 128) ∧
    (be16At buf 0 = OP_ACK → 4 ≤ buf.length)

theorem handle_rrq_inside_iff (size : ℕ) {buf : List UInt8} (hlen : 2 ≤ buf.length) (rest : List UInt8) :
    Inside size buf.length (handle_rrq.scan (buf ++ rest) buf.length).accesses
      ↔ handle_rrq.Complete buf := by
  rw [handle_rrq.scan, Scan.inside_bind rfl, strlen_inside_iff buf rest hlen,
    handle_rrq.Complete]
  by_cases hname : 0 ∈ buf.drop 2
  swap
  · rw [List.count_eq_zero_of_not_mem hname]
    exact iff_of_false (fun h => hname h.1) fun h => absurd h.1 (by decide)
  obtain ⟨filename, hfilename, hstr, hp, hsplit⟩ := strAt_split buf hlen hname
  have hvalue : (strlen (buf ++ rest) 2).value = some filename := hfilename rest
  simp only [hvalue, Option.some.injEq, forall_eq', hname, true_and]
  rw [Scan.inside_bind rfl, strlen_inside_iff buf rest hp]
  by_cases hmode : 0 ∈ buf.drop (2 + filename.length + 1)
  swap
  · rw [hsplit, count_split hstr, List.count_eq_zero_of_not_mem hmode]
    exact iff_of_false (fun h => hmode h.1) fun h => absurd h.1 (by decide)
  obtain ⟨mode, hmode', hstr', hp', hsplit'⟩ := strAt_split buf hp hmode
  have hvalue' : (strlen (buf ++ rest) (2 + filename.length + 1)).value = some mode := hmode' rest
  -- `octetMode` looks at the received bytes alone, and finds the same strings
  have hfilename' := hfilename []
  have hmode'' := hmode' []
  rw [List.append_nil] at hfilename' hmode''
  have hoctet : octetMode buf = decide (mode.map tolower = ascii "octet") := by
    simp only [octetMode, hfilename', hmode'']
  have hcount : (buf.drop 2).count 0
      = (buf.drop (2 + filename.length + 1 + mode.length + 1)).count 0 + 1 + 1 := by
    rw [hsplit, count_split hstr, hsplit', count_split hstr']
  have hpaired : Paired (buf.drop 2)
      ↔ Paired (buf.drop (2 + filename.length + 1 + mode.length + 1)) := by
    rw [Paired, hcount, hsplit, ended_split, hsplit', ended_split, Paired, Nat.add_assoc,
      Nat.add_mod_right]
  have htwo : 2 ≤ (buf.drop 2).count 0 := by omega
  simp only [hvalue', Option.some.injEq, forall_eq', hmode, true_and, htwo, hoctet, decide_eq_true_eq]
  split
  · rename_i hyes
    rw [hpaired, ← scanOptions_inside_iff size buf rest buf.length hp' (by omega) {}]
    simp only [hyes, true_implies]
    rw [Scan.accesses_bind_silent _ fun _ => rfl]
  · rename_i hno
    exact iff_of_true trivial fun h => absurd h hno

theorem strcasecmp_inside_iff (size : ℕ) (buf rest str : List UInt8) {p : ℕ} (hp : p ≤ buf.length) :
    Inside size buf.length (strcasecmp (buf ++ rest) p str).accesses
      ↔ ¬ (buf.drop p).map tolower <+: str := by
  induction str generalizing p with
  | nil =>
    rw [strcasecmp, Scan.accesses_bind_silent _ fun _ => rfl, inside_reads, List.forall_mem_singleton,
      List.prefix_nil, List.map_eq_nil_iff, List.drop_eq_nil_iff, Nat.not_le]
  | cons c cs ih =>
    rw [strcasecmp, Scan.inside_bind rfl, List.forall_mem_singleton]
    rcases Nat.lt_or_ge p buf.length with hlt | hge
    · have hbyte : (buf ++ rest)[p]? = some (buf[p]) := by
        rw [List.getElem?_append_left hlt, List.getElem?_eq_getElem hlt]
      -- the byte is there: equal so far, or the first difference
      rw [List.drop_eq_getElem_cons hlt, List.map_cons, List.cons_prefix_cons]
      simp only [hbyte, Option.some.injEq, forall_eq', hlt, true_and]
      split
      · rename_i heq
        rw [ih hlt, not_and]
        exact ⟨fun h _ => h, fun h => h heq⟩
      · rename_i hne
        exact iff_of_true trivial fun h => hne h.1
    · -- the comparison goes on behind the last byte
      rw [List.drop_eq_nil_of_le hge]
      exact iff_of_false (fun h => absurd h.1 (Nat.not_lt.mpr hge)) fun h => h (List.nil_prefix)

theorem handle_wrq_inside_iff (size : ℕ) {buf : List UInt8} (hlen : 2 ≤ buf.length) (rest : List UInt8) :
    Inside size buf.length (handle_wrq.scan (buf ++ rest)).accesses ↔ handle_wrq.Complete buf := by
  rw [handle_wrq.scan, Scan.inside_bind rfl, strlen_inside_iff buf rest hlen,
    handle_wrq.Complete]
  by_cases hname : 0 ∈ buf.drop 2
  swap
  · exact iff_of_false (fun h => hname h.1) fun h => hname h.1
  obtain ⟨filename, hfilename, hstr, hp, hsplit⟩ := strAt_split buf hlen hname
  have hvalue : (strlen (buf ++ rest) 2).value = some filename := hfilename rest
  have hbehind : ((buf.drop 2).dropWhile (· ≠ 0)).drop 1 = buf.drop (2 + filename.length + 1) := by
    rw [hsplit, List.dropWhile_append_of_pos (all_ne_zero hstr), List.dropWhile_cons_of_neg (by simp)]
    rfl
  simp only [hvalue, Option.some.injEq, forall_eq', hname, true_and]
  rw [hbehind, ← strcasecmp_inside_iff size buf rest _ hp, Scan.accesses_bind_silent]
  intro octet
  split <;> rfl

/-- The text of an ERROR ends at the NUL that was stored behind the packet. -/
theorem error_text_inside {mem : List UInt8} {len : ℕ} (hlen : 4 ≤ len) (hmem : len ≤ mem.length) :
    4 + (((mem.set len 0).drop 4).takeWhile (· ≠ 0)).length ≤ len := by
  by_contra hlong
  have hpos : len - 4 < (((mem.set len 0).drop 4).takeWhile (· ≠ 0)).length := by omega
  have hle : (((mem.set len 0).drop 4).takeWhile (· ≠ 0)).length ≤ mem.length - 4 := by
    have hsub := (List.takeWhile_prefix (l := (mem.set len 0).drop 4) (· ≠ 0)).length_le
    rwa [List.length_drop, List.length_set] at hsub
  -- otherwise the stored NUL would be a byte of the text
  have hzero := List.mem_takeWhile_imp (List.getElem_mem hpos)
  rw [(List.takeWhile_prefix _).getElem hpos, List.getElem_drop] at hzero
  have hback : 4 + (len - 4) = len := by omega
  simp only [hback] at hzero
  rw [List.getElem_set_self] at hzero
  simp at hzero

theorem be16At_append {buf : List UInt8} {p : ℕ} (h : p + 2 ≤ buf.length) (rest : List UInt8) :
    be16At (buf ++ rest) p = be16At buf p := by
  rw [be16At, be16At, List.getD_append _ _ _ _ (by omega), List.getD_append _ _ _ _ (by omega)]

theorem word_inside_iff (p len : ℕ) : (∀ i ∈ [p, p + 1], i < len) ↔ p + 2 ≤ len := by
  rw [List.forall_mem_cons, List.forall_mem_singleton]
  omega

theorem error_inside_iff {mem : List UInt8} {len : ℕ} (hmem : len ≤ mem.length) :
    Inside 128 len (do
        handle_reader.terminate len
        return Reply.error (← strlen (mem.set len 0) 4)).accesses ↔ 4 ≤ len ∧ len < 128 := by
  by_cases hroom : len < 128
  -- the NUL counts as received once it is stored
  · have haccesses : (do
        handle_reader.terminate len
        return Reply.error (← strlen (mem.set len 0) 4) : Scan Reply).accesses
        = .store len :: (strlen (mem.set len 0) 4 >>= fun text => return Reply.error text).accesses := by
      show (Scan.bind _ _).accesses = _
      rw [Scan.bind, handle_reader.terminate, if_pos hroom]
      rfl
    rw [haccesses, Scan.accesses_bind_silent _ fun _ => rfl, Inside, Nat.max_eq_right (Nat.le_succ len),
      strlen, inside_reads, range'_lt_iff]
    constructor
    · rintro ⟨-, -, h⟩
      exact ⟨by omega, hroom⟩
    · rintro ⟨hcode, -⟩
      exact ⟨Nat.le_refl len, hroom, Nat.lt_succ_of_le (error_text_inside hcode hmem)⟩
  · have haccesses : (do
        handle_reader.terminate len
        return Reply.error (← strlen (mem.set len 0) 4) : Scan Reply).accesses = [.store len] := by
      show (Scan.bind _ _).accesses = _
      rw [Scan.bind, handle_reader.terminate, if_neg hroom]
    -- an ERROR that fills the buffer: the store itself is outside
    rw [haccesses]
    exact iff_of_false (fun h => hroom h.2.1) fun h => hroom h.2

theorem handle_reader_inside_iff (buf rest : List UInt8) :
    Inside 128 buf.length (handle_reader.scan (buf ++ rest) buf.length).accesses
      ↔ handle_reader.Complete buf := by
  rw [handle_reader.scan, Scan.inside_bind rfl, word_inside_iff, handle_reader.Complete]
  by_cases hlen : 2 ≤ buf.length
  swap
  · exact iff_of_false (fun h => hlen h.1) fun h => hlen h.1
  have hvalue : (word (buf ++ rest) 0).value = some (be16At buf 0) :=
    congrArg some (be16At_append hlen rest)
  have herror : OP_ACK ≠ OP_ERROR := by decide
  simp only [hvalue, Option.some.injEq, forall_eq', Nat.zero_add, hlen, true_and]
  split
  · rename_i hop
    rw [error_inside_iff (by rw [List.length_append]; omega)]
    exact ⟨fun h => ⟨fun _ => h, fun hack => absurd (hack.symm.trans hop) herror⟩, fun h => h.1 hop⟩
  split
  · rename_i hop hack
    exact iff_of_true trivial ⟨fun h => absurd h hop, fun h => absurd h hack⟩
  · rename_i hop hack
    rw [Scan.accesses_bind_silent _ fun _ => rfl, word, inside_reads, word_inside_iff]
    exact ⟨fun h => ⟨fun h' => absurd h' hop, fun _ => h⟩, fun h => h.2 (not_not.mp hack)⟩

theorem handle_writer_inside_iff (buf rest : List UInt8) :
    Inside 516 buf.length (handle_writer.scan (buf ++ rest) buf.length).accesses ↔ 4 ≤ buf.length := by
  rw [handle_writer.scan, Scan.inside_bind rfl, word_inside_iff]
  have hword : ∀ p, (word (buf ++ rest) p).value = some (be16At (buf ++ rest) p) := fun _ => rfl
  simp only [hword, Option.some.injEq, forall_eq', Nat.zero_add]
  rw [Scan.inside_bind rfl, word_inside_iff]
  simp only [hword, Option.some.injEq, forall_eq']
  constructor
  · rintro ⟨-, h, -⟩
    exact h
  · intro h
    refine ⟨by omega, h, ?_⟩
    split
    · exact trivial
    rw [if_neg (Nat.not_lt.mpr h), Scan.accesses_bind_silent _ fun _ => rfl, bytes, inside_reads]
    intro i hi
    rw [List.mem_range'_1] at hi
    omega

/-! ## Every socket

The three sockets differ in the size of their buffers. A buffer that is filled to the last byte
leaves no room for the NUL that `handle_reader` puts behind an ERROR. -/

/-- The sockets the server receives on. -/
inductive Endpoint where
  | server
  | reader (client : TftpClient)
  | writer (client : TftpClient)

/-- The size of the buffer a socket is received into. -/
def Endpoint.size : Endpoint → ℕ
  | .server => 4096
  | .reader _ => 128
  | .writer _ => 516

/-- Where the handler of a socket looks, in the buffer with what lies behind it. -/
def Endpoint.looks (sq : SockaddrQrtr) (buf rest : List UInt8) : Endpoint → List Access
  | .server =>
    if sq.sq_port = QRTR_PORT_CTRL then [] else (main.scan (buf ++ rest) buf.length).accesses
  | .reader client =>
    if sq ≠ client.sq then [] else (handle_reader.scan (buf ++ rest) buf.length).accesses
  | .writer client =>
    if sq ≠ client.sq then [] else (handle_writer.scan (buf ++ rest) buf.length).accesses

/-- What a writer puts into its file is what was received behind the header. -/
def Endpoint.Writes (sq : SockaddrQrtr) (data rest : List UInt8) : Endpoint → Prop
  | .server => True
  | .reader _ => True
  | .writer client => ∀ sys s r, handle_writer sys s client (.data sq data rest) = some r →
    ∀ fd payload, .write fd payload ∈ newCalls s r.2 →
      4 ≤ (data.take 516).length ∧ payload = (data.take 516).drop 4

/-- The handler of a socket keeps to what was received. -/
def Endpoint.KeepsInside (sq : SockaddrQrtr) (data rest : List UInt8) (e : Endpoint) : Prop :=
  Inside e.size (data.take e.size).length (e.looks sq (data.take e.size) rest) ∧ e.Writes sq data rest

/-- The datagram has what its handler expects. -/
def Endpoint.Complete (sq : SockaddrQrtr) (buf : List UInt8) : Endpoint → Prop
  | .server => sq.sq_port ≠ QRTR_PORT_CTRL → 2 ≤ buf.length →
    (be16At buf 0 = OP_RRQ → handle_rrq.Complete buf) ∧
      (be16At buf 0 = OP_WRQ → handle_wrq.Complete buf)
  | .reader client => sq = client.sq → handle_reader.Complete buf
  | .writer client => sq = client.sq → 4 ≤ buf.length

theorem main_inside_iff (buf rest : List UInt8) :
    Inside 4096 buf.length (main.scan (buf ++ rest) buf.length).accesses ↔ (2 ≤ buf.length →
      (be16At buf 0 = OP_RRQ → handle_rrq.Complete buf) ∧
        (be16At buf 0 = OP_WRQ → handle_wrq.Complete buf)) := by
  rw [main.scan]
  split
  · rename_i hshort
    exact iff_of_true trivial fun h => absurd h (Nat.not_le.mpr hshort)
  rename_i hshort
  have hlen : 2 ≤ buf.length := Nat.not_lt.mp hshort
  have hvalue : (word (buf ++ rest) 0).value = some (be16At buf 0) :=
    congrArg some (be16At_append hlen rest)
  have hother : OP_RRQ ≠ OP_WRQ := by decide
  rw [Scan.inside_bind rfl, word_inside_iff]
  simp only [hvalue, Option.some.injEq, forall_eq', Nat.zero_add, hlen, true_and, true_implies]
  split
  · rename_i hop
    rw [Scan.accesses_bind_silent _ fun _ => rfl, handle_rrq_inside_iff 4096 hlen rest]
    exact ⟨fun h => ⟨fun _ => h, fun h' => absurd (hop.symm.trans h') hother⟩, fun h => h.1 hop⟩
  split
  · rename_i hop hop'
    rw [Scan.accesses_bind_silent _ fun _ => rfl, handle_wrq_inside_iff 4096 hlen rest]
    exact ⟨fun h => ⟨fun h' => absurd h' hop, fun _ => h⟩, fun h => h.2 hop'⟩
  · rename_i hop hop'
    exact iff_of_true trivial ⟨fun h => absurd h hop, fun h => absurd h hop'⟩

theorem newCalls_send (sys : Sys) (s : State) (sock : ℕ) (data : List UInt8) :
    (send sys s sock data).2.calls = s.calls ∨
      (send sys s sock data).2.calls = s.calls ++ [.send sock data] := by
  unfold send
  simp only
  split
  · exact .inl rfl
  · exact .inr rfl

theorem newCalls_error (sys : Sys) (s : State) (sock : ℕ) (code : UInt16) (msg : String) (fd : ℕ)
    (payload : List UInt8) :
    .write fd payload ∉ newCalls s (tftp_send_error sys s sock code msg).2 := by
  have hself : newCalls s s.tick = [] := List.drop_length
  unfold tftp_send_error
  simp only
  split
  · rcases newCalls_send sys s.tick sock (be16 OP_ERROR ++ be16 code ++ ascii msg ++ [0]) with h | h
    · rw [newCalls, h]
      simp [State.tick]
    · rw [newCalls, h]
      simp [State.tick]
  · rw [hself]
    exact List.not_mem_nil

/-- A writer puts into its file what was received behind the header. -/
theorem handle_writer_writes (sq : SockaddrQrtr) (data rest : List UInt8) (client : TftpClient) :
    (Endpoint.writer client).Writes sq data rest := by
  intro sys s r h fd payload hwrite
  have hself : newCalls s s = [] := List.drop_length
  have htick : newCalls s s.tick = [] := List.drop_length
  unfold handle_writer at h
  simp only at h
  split at h
  · cases h
    rw [hself] at hwrite
    exact absurd hwrite List.not_mem_nil
  split at h
  · cases h
    exact absurd hwrite (newCalls_error sys s client.sock 4 _ fd payload)
  split at h
  · cases h
    rw [htick] at hwrite
    exact absurd hwrite List.not_mem_nil
  -- nothing was written up to here
  rename_i hlen
  split at h
  · cases h
    rw [htick] at hwrite
    exact absurd hwrite List.not_mem_nil
  · cases h
    refine ⟨Nat.not_lt.mp hlen, ?_⟩
    rcases newCalls_send sys
        { s.tick with calls := s.calls ++ [.write client.fd ((data.take 516).drop 4)] } client.sock
        (be16 OP_ACK ++ be16 (be16At (data.take 516 ++ rest) 2)) with hsent | hsent
    · rw [tftp_send_ack, newCalls, hsent] at hwrite
      simp only [List.drop_left, List.mem_singleton, Call.write.injEq] at hwrite
      exact hwrite.2
    · rw [tftp_send_ack, newCalls, hsent] at hwrite
      simp only [List.append_assoc, List.drop_left] at hwrite
      simp only [List.cons_append, List.nil_append, List.mem_cons, Call.write.injEq,
        List.not_mem_nil, or_false, reduceCtorEq] at hwrite
      exact hwrite.2

/-- A handler looks only at what was received exactly if the datagram has what it expects. -/
theorem looks_inside_iff (e : Endpoint) (sq : SockaddrQrtr) (data rest : List UInt8) :
    e.KeepsInside sq data rest ↔ e.Complete sq (data.take e.size) := by
  cases e with
  | server =>
    refine Iff.trans (and_iff_left trivial) ?_
    simp only [Endpoint.looks, Endpoint.Complete, Endpoint.size]
    split
    · rename_i hctrl
      exact iff_of_true trivial fun h => absurd hctrl h
    · rename_i hctrl
      rw [main_inside_iff]
      exact ⟨fun h _ => h, fun h => h hctrl⟩
  | reader client =>
    refine Iff.trans (and_iff_left trivial) ?_
    simp only [Endpoint.looks, Endpoint.Complete, Endpoint.size]
    split
    · rename_i hother
      exact iff_of_true trivial fun h => absurd h hother
    · rename_i hpeer
      rw [handle_reader_inside_iff]
      exact ⟨fun h _ => h, fun h => h (not_not.mp hpeer)⟩
  | writer client =>
    refine Iff.trans (and_iff_left (handle_writer_writes sq data rest client)) ?_
    simp only [Endpoint.looks, Endpoint.Complete, Endpoint.size]
    split
    · rename_i hother
      exact iff_of_true trivial fun h => absurd h hother
    · rename_i hpeer
      rw [handle_writer_inside_iff]
      exact ⟨fun h _ => h, fun h => h (not_not.mp hpeer)⟩

/-- The name of a read request that does not end is read on behind it, an ERROR that fills the
buffer is ended behind it, and the block number of a short packet is what the stack holds. -/
theorem not_keepsInside :
    ¬ Endpoint.server.KeepsInside ⟨5, 7⟩ (be16 OP_RRQ ++ ascii "a") [0] ∧
    ¬ (Endpoint.reader ⟨⟨5, 7⟩, 4, 5, 512, 0, 0, 1000⟩).KeepsInside ⟨5, 7⟩
      (be16 OP_ERROR ++ be16 1 ++ List.replicate 124 0x61) [0] ∧
    ¬ (Endpoint.writer ⟨⟨5, 7⟩, 4, 5, 0, 0, 0, 0⟩).KeepsInside ⟨5, 7⟩ (be16 OP_DATA) [0, 1] := by
  refine ⟨fun h => ?_, fun h => ?_, fun h => ?_⟩
  · exact absurd h.1 (by decide)
  · exact absurd h.1 (by decide +kernel)
  · exact absurd h.1 (by decide)

end Dragonboard.Tqftpserv
