/-
`qcom/tqftpserv/translate.c`: from the names that are requested to the files that are opened.

A path is the bytes of a C string. The system is asked to open files, and what it answers is
given by `Os`, together with what it shows under `/sys/class/remoteproc`. The result is the
file that was opened, or nothing where the code returns -1.

Files are named by their lexically normalised absolute path: directories hold no symbolic
links here.
-/
import Dragonboard.LexicalPath

set_option autoImplicit false

namespace Dragonboard.Translate

open Dragonboard.LexicalPath

/-! ## Strings

Paths are bytes, and what matters of them are their components. -/

/-- The bytes of a string literal. -/
def ascii (s : String) : List UInt8 := s.toList.map fun c => UInt8.ofNat c.toNat

/-- The separator of path components. -/
def SLASH : UInt8 := 0x2f

/-- `..`. -/
def DOTDOT : List UInt8 := ascii ".."

/-- The steps of a path: its components, without the empty ones and without `.`. -/
def components (path : List UInt8) : List (List UInt8) :=
  (path.splitOn SLASH).filter fun c => c ≠ [] ∧ c ≠ ascii "."

/-- `dirname`, as in `libgen.h`. -/
def dirname (path : List UInt8) : List UInt8 :=
  let stripped := path.rdropWhile (· = SLASH)
  if stripped = [] then
    if path = [] then ascii "." else ascii "/"
  else
    let dir := stripped.rdropWhile (· ≠ SLASH)
    if dir = [] then ascii "."
    else
      let dir := dir.rdropWhile (· = SLASH)
      if dir = [] then ascii "/" else dir

/-! ## Opening files

The functions of `translate.c`, up to the call of `openat`. What `/sys/class/remoteproc` holds is
a parameter. -/

/-- `READONLY_PATH`. -/
def READONLY_PATH : List UInt8 := ascii "/readonly/firmware/image/"

/-- `READWRITE_PATH`. -/
def READWRITE_PATH : List UInt8 := ascii "/readwrite/"

/-- `FIRMWARE_BASE`. -/
def FIRMWARE_BASE : List UInt8 := ascii "/vendor/firmware/"

/-- The temporary directory of `translate_readwrite`. -/
def TMP_BASE : List UInt8 := ascii "/data/qcom/tmp/tqftpserv"

/-- `PATH_MAX`. -/
def PATH_MAX : ℕ := 4096

/-- `O_RDONLY`. -/
def O_RDONLY : UInt32 := 0

/-- `O_WRONLY`. -/
def O_WRONLY : UInt32 := 1

/-- `O_RDWR`. -/
def O_RDWR : UInt32 := 2

/-- `O_CREAT`. -/
def O_CREAT : UInt32 := 0o100

/-- A call `openat(dir, path, flags)`. -/
structure Opening where
  dir : List UInt8
  path : List UInt8
  flags : UInt32
deriving DecidableEq, Repr

/-- The file it is about. An absolute path ignores the directory. -/
def Opening.file (o : Opening) : List (List UInt8) :=
  if o.path.head? = some SLASH then walk DOTDOT [] (components o.path)
  else walk DOTDOT (walk DOTDOT [] (components o.dir)) (components o.path)

/-- An entry of `/sys/class/remoteproc`, with what its `firmware` attribute reads. -/
structure Entry where
  d_name : List UInt8
  firmware : Option (List UInt8)

/-- What the system answers. -/
structure Os where
  /-- the entries of the class directory, if it can be opened -/
  remoteproc : Option (List Entry)
  /-- whether `mkdir` succeeds, or finds the directory there -/
  mkdir : Bool
  /-- whether the temporary directory can be opened -/
  base : Bool
  /-- whether a file can be opened -/
  opens : Opening → Bool

/-- The string in `firmware_value`, if the entry has one. -/
def Entry.firmware_value (de : Entry) : Option (List UInt8) :=
  if de.d_name = ascii "." ∨ de.d_name = DOTDOT then none
  else if de.d_name.length + (ascii "/firmware").length > PATH_MAX then none
  else de.firmware.map fun value => (value.take PATH_MAX).takeWhile (· ≠ 0)

/-- Whether the path built from a firmware value fits its buffer. -/
def Fits (firmware_value file : List UInt8) : Prop :=
  FIRMWARE_BASE.length + firmware_value.length + 1 + file.length + 1 ≤ PATH_MAX

instance (firmware_value file : List UInt8) : Decidable (Fits firmware_value file) :=
  inferInstanceAs (Decidable (_ ≤ _))

/-- The call for a file next to a firmware. -/
def translate_readonly.opening (firmware_value file : List UInt8) : Opening :=
  ⟨ascii "/", FIRMWARE_BASE ++ dirname firmware_value ++ ascii "/" ++ file, O_RDONLY⟩

/-- The body of the loop of `translate_readonly`. -/
def translate_readonly.body (os : Os) (file : List UInt8) (de : Entry) : Option Opening :=
  match de.firmware_value with
  | none => none
  | some value =>
    if Fits value file then
      if os.opens (translate_readonly.opening value file) then
        some (translate_readonly.opening value file)
      else none
    else none

/-- `translate_readonly`. -/
def translate_readonly (os : Os) (file : List UInt8) : Option Opening :=
  match os.remoteproc with
  | none => none
  | some entries => entries.findSome? (translate_readonly.body os file)

/-- `translate_readwrite`. -/
def translate_readwrite (os : Os) (file : List UInt8) (flags : UInt32) : Option Opening :=
  if os.mkdir ∧ os.base ∧ os.opens ⟨TMP_BASE, file, flags⟩ then some ⟨TMP_BASE, file, flags⟩ else none

/-- `translate_open`. -/
def translate_open (os : Os) (path : List UInt8) (flags : UInt32) : Option Opening :=
  if READONLY_PATH <+: path then translate_readonly os (path.drop READONLY_PATH.length)
  else if READWRITE_PATH <+: path then
    translate_readwrite os (path.drop READWRITE_PATH.length) flags
  else none

/-! ## Components

`dirname` and concatenation in terms of components. -/

theorem components_append_slash (a b : List UInt8) :
    components (a ++ SLASH :: b) = components a ++ components b := by
  rw [components, List.splitOn_append_cons_self, List.filter_append]
  rfl

@[simp] theorem components_nil : components [] = [] := by decide

/-- Slashes at the end do not matter. -/
theorem components_strip (l : List UInt8) :
    components (l.rdropWhile (· = SLASH)) = components l := by
  induction l using List.reverseRecOn with
  | nil => rw [List.rdropWhile_nil]
  | append_singleton l x ih =>
    by_cases hx : x = SLASH
    · rw [List.rdropWhile_concat_pos _ _ _ (by simpa using hx), ih, hx,
        components_append_slash, components_nil, List.append_nil]
    · rw [List.rdropWhile_concat_neg _ _ _ (by simpa using hx)]

/-- `dirname` leaves only components of its argument. -/
theorem components_dirname (path : List UInt8) :
    components (dirname path) ⊆ components path := by
  have hdot : components (ascii ".") = [] := by decide
  have hslash : components (ascii "/") = [] := by decide
  unfold dirname
  simp only
  by_cases hstripped : path.rdropWhile (· = SLASH) = []
  · rw [if_pos hstripped]
    split
    · rw [hdot]
      exact List.nil_subset _
    · rw [hslash]
      exact List.nil_subset _
  rw [if_neg hstripped]
  rw [← components_strip path]
  generalize path.rdropWhile (· = SLASH) = s
  by_cases hdir : s.rdropWhile (· ≠ SLASH) = []
  · rw [if_pos hdir, hdot]
    exact List.nil_subset _
  rw [if_neg hdir]
  -- what is left ends with the slash before the last component
  have hcut : components (s.rdropWhile (· ≠ SLASH)) ⊆ components s := by
    have hlast := List.rdropWhile_last_not (· ≠ SLASH) s hdir
    have hsplit := List.rdropWhile_append_rtakeWhile (p := (· ≠ SLASH)) (l := s)
    generalize s.rdropWhile (· ≠ SLASH) = dir at hdir hlast hsplit
    have hslashed := List.dropLast_append_getLast hdir
    have hend : dir.getLast hdir = SLASH := by simpa using hlast
    rw [hend] at hslashed
    rw [← hsplit, ← hslashed, components_append_slash, components_nil, List.append_nil,
      List.append_assoc, List.singleton_append, components_append_slash]
    exact List.subset_append_left _ _
  split
  · rw [hslash]
    exact List.nil_subset _
  · rw [components_strip]
    exact hcut

/-! ## Containment

Containment is lexical: symbolic links are left to the system. A path leads out of a directory if
it goes up more often than it has gone down, or if it is absolute. -/

/-- Whether the flags ask for writing or creation. -/
def Writes (flags : UInt32) : Prop := flags &&& (O_WRONLY ||| O_RDWR) ≠ 0 ∨ flags &&& O_CREAT ≠ 0

instance (flags : UInt32) : Decidable (Writes flags) := inferInstanceAs (Decidable (_ ∨ _))

/-- A file is where it should be: a file that is written to or created in the temporary directory,
and one that was asked for under the readonly prefix among the firmware. -/
structure Contained (path : List UInt8) (o : Opening) : Prop where
  written : Writes o.flags → components TMP_BASE <+: o.file
  readonly : READONLY_PATH <+: path → components FIRMWARE_BASE <+: o.file

/-- Steps from `depth` levels below a directory that do not lead out of it: in their normal form they
climb no more than `depth` levels, or they name the levels above that they climb again. -/
def Returns (base : List (List UInt8)) (depth : ℕ) (steps : List (List UInt8)) : Prop :=
  (reduce DOTDOT steps).1 ≤ depth ∨
    base.drop (base.length - ((reduce DOTDOT steps).1 - depth)) <+: (reduce DOTDOT steps).2

instance (base : List (List UInt8)) (depth : ℕ) (steps : List (List UInt8)) :
    Decidable (Returns base depth steps) := inferInstanceAs (Decidable (_ ∨ _))

/-- A request that stays inside: what follows its prefix does not lead out of the directory of any
firmware whose path fits, or not out of the temporary directory; and if it is absolute
there, it leads into it. -/
def Confined (entries : List Entry) (path : List UInt8) (flags : UInt32) : Prop :=
  if READONLY_PATH <+: path then
    let file := path.drop READONLY_PATH.length
    ∀ de ∈ entries, ∀ value, de.firmware_value = some value → Fits value file →
      Returns (components FIRMWARE_BASE) (components (dirname value)).length (components file)
  else if READWRITE_PATH <+: path ∧ Writes flags then
    let file := path.drop READWRITE_PATH.length
    if file.head? = some SLASH then components TMP_BASE <+: (reduce DOTDOT (components file)).2
    else Returns (components TMP_BASE) 0 (components file)
  else True

/-- The file next to a firmware. -/
theorem readonly_file {value : List UInt8} (hvalue : DOTDOT ∉ components value) (file : List UInt8) :
    (translate_readonly.opening value file).file =
      walk DOTDOT (components FIRMWARE_BASE ++ components (dirname value)) (components file) := by
  have hdir : DOTDOT ∉ components (dirname value) := fun h => hvalue (components_dirname value h)
  have hbase : FIRMWARE_BASE = ascii "/vendor/firmware" ++ [SLASH] := by decide
  have hpath : components (FIRMWARE_BASE ++ dirname value ++ ascii "/" ++ file) =
      components FIRMWARE_BASE ++ components (dirname value) ++ components file := by
    rw [List.append_assoc _ (ascii "/"), show ascii "/" ++ file = SLASH :: file from rfl,
      components_append_slash, hbase, List.append_assoc, List.singleton_append,
      components_append_slash, components_append_slash, components_nil, List.append_nil]
  have habsolute : (FIRMWARE_BASE ++ dirname value ++ ascii "/" ++ file).head? = some SLASH := by
    rw [List.append_assoc, List.append_assoc]
    rfl
  have hnames : DOTDOT ∉ components FIRMWARE_BASE ++ components (dirname value) := by
    rw [List.mem_append, not_or]
    exact ⟨by decide, hdir⟩
  rw [Opening.file, translate_readonly.opening, if_pos habsolute, hpath, walk_append,
    walk_names _ [] hnames, List.nil_append]

/-- The file in the temporary directory. -/
theorem readwrite_file (file : List UInt8) (flags : UInt32) :
    (⟨TMP_BASE, file, flags⟩ : Opening).file =
      if file.head? = some SLASH then walk DOTDOT [] (components file)
      else walk DOTDOT (components TMP_BASE) (components file) := by
  have hroot : walk DOTDOT [] (components TMP_BASE) = components TMP_BASE := by decide
  rw [Opening.file]
  simp only
  rw [hroot]

/-- What `translate_readonly` opens. -/
theorem translate_readonly_eq_some {os : Os} {file : List UInt8} {o : Opening}
    (h : translate_readonly os file = some o) :
    ∃ entries, os.remoteproc = some entries ∧ ∃ de ∈ entries, ∃ value,
      de.firmware_value = some value ∧ Fits value file ∧ os.opens o = true ∧
        o = translate_readonly.opening value file := by
  unfold translate_readonly at h
  cases hentries : os.remoteproc with
  | none =>
    rw [hentries] at h
    cases h
  | some entries =>
    rw [hentries] at h
    obtain ⟨de, hde, hbody⟩ := List.exists_of_findSome?_eq_some h
    refine ⟨entries, rfl, de, hde, ?_⟩
    unfold translate_readonly.body at hbody
    cases hvalue : de.firmware_value with
    | none =>
      rw [hvalue] at hbody
      cases hbody
    | some value =>
      rw [hvalue] at hbody
      simp only at hbody
      split at hbody
      · rename_i hfits
        split at hbody
        · rename_i hopens
          obtain rfl := Option.some.inj hbody
          exact ⟨value, rfl, hfits, hopens, rfl⟩
        · cases hbody
      · cases hbody

/-- Every file next to a firmware is opened if it is the only one that can be. -/
theorem translate_readonly_opens {entries : List Entry} {de : Entry} (hde : de ∈ entries)
    {value file : List UInt8} (hvalue : de.firmware_value = some value) (hfits : Fits value file) :
    translate_readonly
      ⟨some entries, true, true, fun o => o = translate_readonly.opening value file⟩ file =
        some (translate_readonly.opening value file) := by
  generalize hos : (⟨some entries, true, true,
    fun o => o = translate_readonly.opening value file⟩ : Os) = os
  have hbody : translate_readonly.body os file de = some (translate_readonly.opening value file) := by
    rw [← hos, translate_readonly.body, hvalue]
    simp only
    rw [if_pos hfits, if_pos (by simp)]
  have hfound : (translate_readonly os file).isSome := by
    rw [← hos, translate_readonly, List.findSome?_isSome_iff, hos]
    exact ⟨de, hde, by rw [hbody]; rfl⟩
  obtain ⟨o, ho⟩ := Option.isSome_iff_exists.mp hfound
  obtain ⟨-, -, -, -, -, -, -, hopens, -⟩ := translate_readonly_eq_some ho
  rw [← hos] at hopens
  rw [ho, of_decide_eq_true hopens]

/-- **A request opens only files that are where they should be exactly if it stays inside.** -/
theorem contained_iff {entries : List Entry}
    (hvalues : ∀ de ∈ entries, ∀ value, de.firmware_value = some value → DOTDOT ∉ components value)
    (path : List UInt8) (flags : UInt32) :
    (∀ os : Os, os.remoteproc = some entries → ∀ o, translate_open os path flags = some o →
      Contained path o) ↔ Confined entries path flags := by
  unfold translate_open Confined
  by_cases hreadonly : READONLY_PATH <+: path
  · simp only [if_pos hreadonly]
    generalize path.drop READONLY_PATH.length = file
    constructor
    · intro h de hde value hvalue hfits
      have hc := h _ rfl _ (translate_readonly_opens hde hvalue hfits)
      have hin := hc.readonly hreadonly
      rwa [readonly_file (hvalues de hde value hvalue), prefix_walk_iff] at hin
    · intro h os hos o ho
      obtain ⟨entries', hos', de, hde, value, hvalue, hfits, -, rfl⟩ := translate_readonly_eq_some ho
      obtain rfl : entries' = entries := Option.some.inj (hos'.symm.trans hos)
      have hflags : ¬ Writes O_RDONLY := by decide
      refine ⟨fun hwrites => absurd hwrites hflags, fun _ => ?_⟩
      rw [readonly_file (hvalues de hde value hvalue), prefix_walk_iff]
      exact h de hde value hvalue hfits
  simp only [if_neg hreadonly]
  by_cases hreadwrite : READWRITE_PATH <+: path
  swap
  · rw [if_neg fun h => hreadwrite h.1]
    simp only [if_neg hreadwrite]
    exact ⟨fun _ => trivial, fun _ os _ o ho => by cases ho⟩
  simp only [if_pos hreadwrite]
  generalize path.drop READWRITE_PATH.length = file
  by_cases hwrites : Writes flags
  swap
  · rw [if_neg fun h => hwrites h.2]
    refine ⟨fun _ => trivial, fun _ os _ o ho => ?_⟩
    unfold translate_readwrite at ho
    split at ho
    · obtain rfl := Option.some.inj ho
      exact ⟨fun h => absurd h hwrites, fun h => absurd h hreadonly⟩
    · cases ho
  rw [if_pos ⟨hreadwrite, hwrites⟩]
  -- what the one file that is opened has to satisfy
  have hfile : components TMP_BASE <+: (⟨TMP_BASE, file, flags⟩ : Opening).file ↔
      if file.head? = some SLASH then components TMP_BASE <+: (reduce DOTDOT (components file)).2
      else Returns (components TMP_BASE) 0 (components file) := by
    rw [readwrite_file]
    by_cases habsolute : file.head? = some SLASH
    · rw [if_pos habsolute, if_pos habsolute, walk_eq, List.take_nil, List.nil_append]
    · rw [if_neg habsolute, if_neg habsolute]
      have hiff := prefix_walk_iff DOTDOT (components TMP_BASE) [] (components file)
      rwa [List.append_nil] at hiff
  rw [← hfile]
  constructor
  · intro h
    exact (h ⟨some entries, true, true, fun _ => true⟩ rfl ⟨TMP_BASE, file, flags⟩
      (if_pos ⟨rfl, rfl, rfl⟩)).written hwrites
  · intro h os _ o ho
    unfold translate_readwrite at ho
    split at ho
    · obtain rfl := Option.some.inj ho
      exact ⟨fun _ => h, fun hro => absurd hro hreadonly⟩
    · cases ho

/-- An entry for the modem of a board. -/
def modem : Entry := ⟨ascii "remoteproc0", some (ascii "qcom/sdm845/modem.mdt\n")⟩

/-- A name that goes up and comes back. -/
theorem contained_modem :
    translate_open ⟨some [modem], true, true, fun _ => true⟩
        (ascii "/readonly/firmware/image/../sdm845/./wlan.bin") O_RDONLY =
      some ⟨ascii "/", ascii "/vendor/firmware/qcom/sdm845/../sdm845/./wlan.bin", O_RDONLY⟩ ∧
    Contained (ascii "/readonly/firmware/image/../sdm845/./wlan.bin")
      ⟨ascii "/", ascii "/vendor/firmware/qcom/sdm845/../sdm845/./wlan.bin", O_RDONLY⟩ := by
  have hopen : translate_open ⟨some [modem], true, true, fun _ => true⟩
      (ascii "/readonly/firmware/image/../sdm845/./wlan.bin") O_RDONLY =
      some ⟨ascii "/", ascii "/vendor/firmware/qcom/sdm845/../sdm845/./wlan.bin", O_RDONLY⟩ := by
    decide +kernel
  have hconfined : Confined [modem] (ascii "/readonly/firmware/image/../sdm845/./wlan.bin")
      O_RDONLY := by
    unfold Confined
    decide
  have hall := (contained_iff (by decide) _ _).mpr hconfined
  exact ⟨hopen, hall _ rfl _ hopen⟩

/-- A peer can have any file written: an absolute name, or one that goes up, leads out of the
temporary directory. -/
theorem write_escapes :
    ¬ ∀ (entries : List Entry),
      (∀ de ∈ entries, ∀ value, de.firmware_value = some value → DOTDOT ∉ components value) →
      ∀ (path : List UInt8) (flags : UInt32) (os : Os), os.remoteproc = some entries →
        ∀ o, translate_open os path flags = some o → Contained path o := by
  intro h
  have hc := h [] (by simp) (ascii "/readwrite//etc/passwd") (O_WRONLY ||| O_CREAT)
    ⟨some [], true, true, fun _ => true⟩ rfl
    ⟨TMP_BASE, ascii "/etc/passwd", O_WRONLY ||| O_CREAT⟩ (by decide)
  exact absurd (hc.written (by decide)) (by decide)

end Dragonboard.Translate
