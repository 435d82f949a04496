import TalosP2P.Support.Fields
import TalosP2P.Support.Go
import TalosP2P.Support.Utf8
import TalosP2P.Zerotier.Identity

/-!
# Gdrdrv — ProcDevices

How `nvidia-gdrdrv-device` finds the major number of its driver in `/proc/devices`, and what the kernel
prints there: the character devices and the block devices, each a number and a name.

* `fields_trimSpace`: trimming changes no fields.
* `parseInt_formatDec`: a number that is printed is read back.
* `findDeviceMajor_render`: the number that is found is that of the first device of the name.
-/

namespace TalosP2P.Gdrdrv

open Python Search Zerotier

def deviceName : Bytes := encodeUtf8 "gdrdrv"

/-- `bufio.MaxScanTokenSize`. -/
def maxScanTokenSize : Nat := 64 * 1024

/-- `dropCR` of `bufio`. -/
def dropCR (line : Bytes) : Bytes := if line.getLast? = some 0x0d then line.dropLast else line

/-- The lines of a text, the last of which need not be ended. -/
def textLines (text : Bytes) : List Bytes :=
  let lines := text.splitOn 0x0a
  if lines.getLast? = some [] then lines.dropLast else lines

/-- The lines that `Scan` comes to; it stops before one that does not fit. -/
def scanLines (text : Bytes) : List Bytes :=
  ((textLines text).takeWhile fun line => line.length < maxScanTokenSize).map dropCR

/-- Why no number is returned. -/
inductive FindError where
  | opening
  | parsing (number : Bytes)
  | reading
  | notFound
  deriving DecidableEq, Repr

/-- The body of the loop over the lines, where it returns. -/
def findInLine (line : Bytes) : Option (Except FindError Int) :=
  match fields spaces (trimSpace line) with
  | [number, name] =>
    if name = deviceName then
      match Go.parseInt number 10 64 with
      | some major => some (.ok major)
      | none => some (.error (.parsing number))
    else none
  | _ => none

/-- `findDeviceMajor`, on `/proc/devices` as it is read, if it can be opened. -/
def findDeviceMajor (file : Option Bytes) : Except FindError Int :=
  match file with
  | none => .error .opening
  | some text =>
    match (scanLines text).findSome? findInLine with
    | some result => result
    | none =>
      if (textLines text).all fun line => line.length < maxScanTokenSize then .error .notFound
      else .error .reading

/-! ### What the kernel prints -/

/-- `%d` of a number that is not negative. -/
def formatDec (n : Nat) : Bytes := (Nat.toDigits 10 n).map asciiByte

/-- A device: its major number has twelve bits, its name less than 64 bytes, none of them a newline. -/
structure Entry where
  major : Nat
  name : Bytes
  major_lt : major < 2 ^ 12
  short : name.length < 64
  newline : 0x0a ∉ name

/-- `"%3d %s"`. -/
def Entry.line (e : Entry) : Bytes :=
  List.replicate (3 - (formatDec e.major).length) 0x20 ++ (formatDec e.major ++ 0x20 :: e.name)

structure Devices where
  characters : List Entry
  blocks : List Entry

def Devices.lines (d : Devices) : List Bytes :=
  encodeUtf8 "Character devices:" :: (d.characters.map Entry.line ++
    [] :: encodeUtf8 "Block devices:" :: d.blocks.map Entry.line)

def Devices.render (d : Devices) : Bytes := unlines 0x0a d.lines

/-- The number of the first device whose name is `gdrdrv`, up to the white space around it. -/
def Devices.major (d : Devices) : Option Nat :=
  ((d.characters ++ d.blocks).find? fun e => fields spaces e.name = [deviceName]).map Entry.major

/-! ### White space -/

theorem spaces_apart : Apart spaces where
  nonempty := by decide
  same := by decide +kernel
  inner := by decide +kernel

theorem fields_dropWords (n : Nat) (s : Bytes) :
    fields spaces (dropWords spaces n s) = fields spaces s := by
  induction n generalizing s with
  | zero => rfl
  | succ n ih =>
      rw [dropWords]
      split
      · rename_i w hw
        have hmem := List.mem_of_find?_eq_some hw
        obtain ⟨t, rfl⟩ : w <+: s := by simpa using List.find?_some hw
        rw [List.drop_left, ih, fields_append_left spaces_apart hmem]
      · rfl

theorem fields_dropWords_reverse (n : Nat) (s : Bytes) :
    fields spaces (dropWords (spaces.map List.reverse) n s).reverse = fields spaces s.reverse := by
  induction n generalizing s with
  | zero => rfl
  | succ n ih =>
      rw [dropWords]
      split
      · rename_i w hw
        obtain ⟨v, hv, rfl⟩ := List.mem_map.mp (List.mem_of_find?_eq_some hw)
        obtain ⟨t, rfl⟩ : v.reverse <+: s := by simpa using List.find?_some hw
        rw [List.drop_left, ih, List.reverse_append, List.reverse_reverse,
          fields_append_right spaces_apart hv]
      · rfl

/-- **Trimming changes no fields.** -/
theorem fields_trimSpace (s : Bytes) : fields spaces (trimSpace s) = fields spaces s := by
  rw [trimSpace, fields_dropWords_reverse, List.reverse_reverse, fields_dropWords]

theorem fields_dropCR (line : Bytes) : fields spaces (dropCR line) = fields spaces line := by
  rw [dropCR]
  split
  · rename_i h
    have hmem : [0x0d] ∈ spaces := by decide
    obtain ⟨s, rfl⟩ := List.getLast?_eq_some_iff.mp h
    rw [List.dropLast_concat, fields_append_right spaces_apart hmem]
  · rfl

theorem fields_space (s t : Bytes) :
    fields spaces (s ++ 0x20 :: t) = fields spaces s ++ fields spaces t := by
  have hmem : [0x20] ∈ spaces := by decide
  exact fields_append spaces_apart hmem s t

theorem fields_replicate (n : Nat) (s : Bytes) :
    fields spaces (List.replicate n 0x20 ++ s) = fields spaces s := by
  induction n with
  | zero => rfl
  | succ n ih =>
      have hcut := fields_space [] (List.replicate n 0x20 ++ s)
      rw [fields_nil, List.nil_append, List.nil_append] at hcut
      rw [List.replicate_succ, List.cons_append, hcut, ih]

/-! ### Numbers -/

theorem digit_of_mem_formatDec {n : Nat} {b : UInt8} (h : b ∈ formatDec n) :
    0x30 ≤ b.toNat ∧ b.toNat ≤ 0x39 := by
  obtain ⟨c, hc, rfl⟩ := List.mem_map.mp h
  have hdigit : c.isDigit = true := Nat.isDigit_of_mem_toDigits (by decide) (by decide) hc
  have hbounds : 0x30 ≤ c.toNat ∧ c.toNat ≤ 0x39 := by
    rw [Char.isDigit, Bool.and_eq_true, decide_eq_true_eq, decide_eq_true_eq] at hdigit
    exact ⟨UInt32.le_iff_toNat_le.mp hdigit.1, UInt32.le_iff_toNat_le.mp hdigit.2⟩
  rw [asciiByte, UInt8.toNat_ofNat', Nat.mod_eq_of_lt (by omega)]
  exact hbounds

theorem formatDec_ne_nil (n : Nat) : formatDec n ≠ [] := by
  rw [formatDec, ne_eq, List.map_eq_nil_iff]
  exact Nat.toDigits_ne_nil

/-- The last digit. -/
theorem formatDec_of_le {n : Nat} (h : 10 ≤ n) :
    formatDec n = formatDec (n / 10) ++ [asciiByte (n % 10).digitChar] := by
  rw [formatDec, Nat.toDigits_of_base_le (by decide) h, List.map_append, List.map_singleton]
  rfl

theorem digitVal_digitChar {d : Nat} (h : d < 10) :
    Go.digitVal (asciiByte d.digitChar) = some d := by
  have hall : ∀ d : Fin 10, Go.digitVal (asciiByte d.val.digitChar) = some d.val := by decide
  exact hall ⟨d, h⟩

theorem parseUint_append {s : Bytes} {n d : Nat} {b : UInt8} (hs : s ≠ [])
    (hn : Go.parseUint s 10 = some n) (hb : Go.digitVal b = some d) (hd : d < 10) :
    Go.parseUint (s ++ [b]) 10 = some (n * 10 + d) := by
  rw [Go.parseUint, if_neg hs] at hn
  rw [Go.parseUint, if_neg (by simp), List.foldlM_append, hn]
  simp [hb, hd]

theorem parseUint_formatDec (n : Nat) : Go.parseUint (formatDec n) 10 = some n := by
  induction n using Nat.strongRecOn with
  | ind n ih =>
      rcases Nat.lt_or_ge n 10 with hlt | hge
      · rw [formatDec, Nat.toDigits_of_lt_base hlt, Go.parseUint]
        simp [digitVal_digitChar hlt, hlt]
      · have hdiv : n / 10 < n := Nat.div_lt_self (by omega) (by decide)
        have hmod : n % 10 < 10 := Nat.mod_lt _ (by decide)
        rw [formatDec_of_le hge, parseUint_append (formatDec_ne_nil _) (ih _ hdiv)
          (digitVal_digitChar hmod) hmod, Nat.div_add_mod']

/-- **A number that is printed** is read back. -/
theorem parseInt_formatDec {n : Nat} (h : n < 2 ^ 63) :
    Go.parseInt (formatDec n) 10 64 = some (n : Int) := by
  obtain ⟨b, s, hs⟩ := List.exists_cons_of_ne_nil (formatDec_ne_nil n)
  have hb := digit_of_mem_formatDec (n := n) (b := b) (by rw [hs]; exact List.mem_cons_self)
  have hsign : Go.sign (formatDec n) = (false, formatDec n) := by
    rw [hs]
    unfold Go.sign
    split
    · rename_i heq
      rw [(List.cons.inj heq).1] at hb
      simp at hb
    · rename_i heq
      rw [(List.cons.inj heq).1] at hb
      simp at hb
    · rfl
  simp [Go.parseInt, hsign, parseUint_formatDec]
  exact h

/-! ### Lines -/

theorem textLines_unlines {lines : List Bytes} (h : ∀ line ∈ lines, 0x0a ∉ line) :
    textLines (unlines 0x0a lines) = lines := by
  simp [textLines, splitOn_unlines h]

/-- The line of a device has its number as its first field. -/
theorem fields_line (e : Entry) :
    fields spaces e.line = formatDec e.major :: fields spaces e.name := by
  have hplain : ∀ w ∈ spaces, ¬ w <:+: formatDec e.major := by
    intro w hw hin
    have hother : ∀ w ∈ spaces, w.any (fun b => b.toNat < 0x30 || 0x39 < b.toNat) = true := by
      decide
    obtain ⟨b, hb, hout⟩ := List.any_eq_true.mp (hother w hw)
    have hdigit := digit_of_mem_formatDec (hin.subset hb)
    rw [Bool.or_eq_true, decide_eq_true_eq, decide_eq_true_eq] at hout
    omega
  rw [Entry.line, fields_replicate, fields_space,
    fields_eq_singleton (formatDec_ne_nil _) hplain]
  rfl

/-- The loop returns at the line of a device of the name. -/
theorem findInLine_line (e : Entry) : findInLine (dropCR e.line) =
    if fields spaces e.name = [deviceName] then some (.ok e.major) else none := by
  have hlt : e.major < 2 ^ 63 := Nat.lt_trans e.major_lt (by decide)
  rw [findInLine, fields_trimSpace, fields_dropCR, fields_line]
  split
  · rename_i number name heq
    obtain ⟨rfl, hname⟩ := List.cons.inj heq
    rw [hname]
    by_cases h : name = deviceName
    · rw [if_pos h, if_pos (by rw [h]), parseInt_formatDec hlt]
    · rw [if_neg h, if_neg fun heq => h (List.cons.inj heq).1]
  · rename_i hother
    rw [if_neg fun heq => hother _ _ (by rw [heq])]

theorem findInLine_heading {line : Bytes} (h : fields spaces line = [] ∨
    fields spaces line = [encodeUtf8 "Character", encodeUtf8 "devices:"] ∨
    fields spaces line = [encodeUtf8 "Block", encodeUtf8 "devices:"]) :
    findInLine (dropCR line) = none := by
  have hne : encodeUtf8 "devices:" ≠ deviceName := by decide
  rw [findInLine, fields_trimSpace, fields_dropCR]
  rcases h with h | h | h
  · rw [h]
  · rw [h]
    exact if_neg hne
  · rw [h]
    exact if_neg hne

theorem length_formatDec_le {n : Nat} (h : n < 2 ^ 12) : (formatDec n).length ≤ 4 := by
  rw [formatDec, List.length_map, Nat.length_toDigits_le_iff (by decide) (by decide)]
  omega

/-- The lines are short, and hold no newlines. -/
theorem line_plain (e : Entry) : 0x0a ∉ e.line ∧ e.line.length < maxScanTokenSize := by
  constructor
  · simp only [Entry.line, List.mem_append, List.mem_replicate, List.mem_cons, not_or]
    refine ⟨fun h => absurd h.2 (by decide), fun h => ?_, by decide, e.newline⟩
    have hdigit := digit_of_mem_formatDec h
    simp at hdigit
  · have hdec := length_formatDec_le e.major_lt
    have hname := e.short
    simp only [Entry.line, List.length_append, List.length_replicate, List.length_cons,
      maxScanTokenSize]
    omega

theorem lines_plain (d : Devices) :
    ∀ line ∈ d.lines, 0x0a ∉ line ∧ line.length < maxScanTokenSize := by
  intro line hline
  simp only [Devices.lines, List.mem_cons, List.mem_append, List.mem_map] at hline
  rcases hline with rfl | ⟨e, -, rfl⟩ | rfl | rfl | ⟨e, -, rfl⟩
  · decide +kernel
  · exact line_plain e
  · decide
  · decide +kernel
  · exact line_plain e

theorem findSome?_lines (entries : List Entry) :
    (entries.map Entry.line).findSome? (fun line => findInLine (dropCR line)) =
      ((entries.find? fun e => fields spaces e.name = [deviceName]).map Entry.major).map
        fun major => .ok (major : Int) := by
  induction entries with
  | nil => rfl
  | cons e entries ih =>
      rw [List.map_cons, List.findSome?_cons, findInLine_line, List.find?_cons]
      by_cases h : fields spaces e.name = [deviceName]
      · simp [h]
      · simp only [if_neg h, decide_eq_false h]
        exact ih

/-- **The number that is found** in what the kernel prints is that of the first device of the name. -/
theorem findDeviceMajor_render (d : Devices) : findDeviceMajor (some d.render) =
    match d.major with
    | some major => .ok (major : Int)
    | none => .error .notFound := by
  have hplain := lines_plain d
  have htext : textLines d.render = d.lines :=
    textLines_unlines fun line hline => (hplain line hline).1
  have hshort : d.lines.all (fun line => line.length < maxScanTokenSize) = true :=
    List.all_eq_true.mpr fun line hline => decide_eq_true (hplain line hline).2
  have hscan : scanLines d.render = d.lines.map dropCR := by
    rw [scanLines, htext, List.takeWhile_eq_self_iff.mpr fun line hline =>
      decide_eq_true (hplain line hline).2]
  have hcharacters : findInLine (dropCR (encodeUtf8 "Character devices:")) = none :=
    findInLine_heading (by decide +kernel)
  have hblocks : findInLine (dropCR (encodeUtf8 "Block devices:")) = none :=
    findInLine_heading (by decide +kernel)
  have hblank : findInLine (dropCR []) = none := findInLine_heading (.inl rfl)
  have hfind : (scanLines d.render).findSome? findInLine =
      d.major.map fun major => .ok (major : Int) := by
    rw [hscan, List.findSome?_map, Devices.lines, List.findSome?_cons]
    simp only [Function.comp_apply, hcharacters, List.findSome?_append, List.findSome?_cons, hblank,
      hblocks]
    rw [Devices.major, List.find?_append, Option.map_or, Option.map_or]
    congr 1
    · exact findSome?_lines d.characters
    · exact findSome?_lines d.blocks
  rw [findDeviceMajor, hfind, htext, if_pos hshort]
  cases d.major <;> rfl

end TalosP2P.Gdrdrv
