import TalosP2P.Support.Runs

/-!
# Support — CodePoint

Python's `str` with all its code points.  A text that is read from a file holds characters only; a
`str` that `yaml.safe_load` makes may hold surrogates as well, from an escape such as `\ud800`, and
`print` raises on what its output cannot encode.

* `mem_strip`: what is no white space stays in a `str` that is stripped.
* `written_eq_self_iff`, `printing_eq_ok_iff`: `print` comes to its end exactly when it writes all.
* `length_mapfile_printLines_eq_iff`: as many lines as values are read where none holds a newline.
-/

namespace TalosP2P.Python

/-- A code point: a character, or the surrogate `U+D800 + n`. -/
inductive CodePoint where
  | char (c : Char)
  | surrogate (n : Fin 2048)
  deriving DecidableEq, Repr

/-- Python's `str`. -/
abbrev Str := List CodePoint

/-- The `str` of a text. -/
def ofText (t : Text) : Str := t.map .char

/-- A `str` that stands in a script. -/
def str (s : String) : Str := ofText s.toList

/-! ### Methods -/

namespace CodePoint

/-- The code points `str.strip()` takes away. -/
def isWhitespace : CodePoint → Bool
  | .char c => Python.isWhitespace c
  | .surrogate _ => false

/-- `\d` of a pattern on `str`. -/
def isDecimal : CodePoint → Bool
  | .char c => Python.isDecimal c
  | .surrogate _ => false

/-- `[0-9a-f]`. -/
def isLowerHex : CodePoint → Bool
  | .char c => Python.isLowerHex c
  | .surrogate _ => false

def lower : CodePoint → Str
  | .char c => ofText (lowerChar c)
  | .surrogate n => [.surrogate n]

def upper : CodePoint → CodePoint
  | .char c => .char c.toUpper
  | .surrogate n => .surrogate n

/-- A code point on stderr, which writes a surrogate as its escape. -/
def shown : CodePoint → Text
  | .char c => [c]
  | .surrogate n => "\\u".toList ++ Nat.toDigits 16 (0xd800 + n)

end CodePoint

namespace Str

/-- `s.strip()`. -/
def strip (s : Str) : Str := stripWhere CodePoint.isWhitespace s

/-- `s.lower()`, for a search for words of ASCII. -/
def lower (s : Str) : Str := s.flatMap CodePoint.lower

/-- `s.upper()`, of letters of ASCII. -/
def upper (s : Str) : Str := s.map CodePoint.upper

/-- A `str` in a message. -/
def shown (s : Str) : String := String.ofList (s.flatMap CodePoint.shown)

end Str

/-! ### Printing -/

/-- What stdout does with what UTF-8 does not encode: it raises, or, in the C locale, writes the byte
a surrogate from `U+DC80` to `U+DCFF` stands for. -/
inductive StreamErrors where
  | strict
  | surrogateescape
  deriving DecidableEq, Repr

def CodePoint.encodes (stdout : StreamErrors) : CodePoint → Bool
  | .char _ => true
  | .surrogate n =>
    match stdout with
    | .strict => false
    | .surrogateescape => 0x480 ≤ n.val && n.val < 0x500

namespace Str

/-- `print(s)` raises nothing. -/
def encodable (stdout : StreamErrors) (s : Str) : Bool := s.all (CodePoint.encodes stdout)

/-- The values that are printed: those before the first that raises. -/
def written (stdout : StreamErrors) (values : List Str) : List Str :=
  values.takeWhile (encodable stdout)

/-- How printing the values ends. -/
def printing (stdout : StreamErrors) (values : List Str) : Except Exc Unit :=
  if values.all (encodable stdout) then .ok () else .error .unicodeEncodeError

/-- `print(value)` for each of the values, none of which raises. -/
def printLines (values : List Str) : Str := endLines (.char '\n') values

/-- `mapfile -t`: the lines of what is read.  A surrogate that was written stands for its byte. -/
def mapfile (s : Str) : List Str := linesAt (.char '\n') s

/-- `$( … )`: the output without null characters and without the newlines at its end. -/
def substituted (printed : Str) : Str :=
  substitutedAt (.char '\n') (.char (Char.ofNat 0)) printed

end Str

/-! ### Texts -/

section

variable {c : Char} {s t : Text}

theorem char_injective : Function.Injective CodePoint.char := fun _ _ h => CodePoint.char.inj h

theorem ofText_injective : Function.Injective ofText := List.map_injective_iff.mpr char_injective

@[simp]
theorem ofText_inj : ofText s = ofText t ↔ s = t := ofText_injective.eq_iff

theorem str_injective : Function.Injective str := fun _ _ h =>
  String.toList_injective (ofText_injective h)

@[simp]
theorem str_inj {s t : String} : str s = str t ↔ s = t := str_injective.eq_iff

theorem str_ofList (l : List Char) : str (String.ofList l) = l.map .char := by
  rw [str, String.toList_ofList, ofText]

@[simp]
theorem ofText_nil : ofText [] = [] := rfl

@[simp]
theorem ofText_cons : ofText (c :: s) = .char c :: ofText s := rfl

@[simp]
theorem ofText_append : ofText (s ++ t) = ofText s ++ ofText t := List.map_append

theorem upper_str (s : String) : Str.upper (str s) = ofText (s.toList.map Char.toUpper) := by
  simp [Str.upper, str, ofText, CodePoint.upper]

@[simp]
theorem ofText_eq_nil_iff : ofText s = [] ↔ s = [] := List.map_eq_nil_iff

@[simp]
theorem char_mem_ofText_iff : .char c ∈ ofText s ↔ c ∈ s := List.mem_map_of_injective char_injective

end

/-! ### Stripping -/

section

variable {stdout : StreamErrors} {s : Str} {c : CodePoint}

theorem mem_strip (h : c ∈ s) (hc : c.isWhitespace = false) : c ∈ Str.strip s := mem_stripWhere h hc

theorem strip_subset (s : Str) : Str.strip s ⊆ s := (stripWhere_infix_self _ s).subset

/-- White space is encoded, so that stripping does not change what can be printed. -/
theorem encodable_strip_iff : (Str.strip s).encodable stdout = s.encodable stdout := by
  rw [Bool.eq_iff_iff, Str.encodable, Str.encodable, List.all_eq_true, List.all_eq_true]
  constructor
  · intro h c hc
    cases c with
    | char c => rfl
    | surrogate n => exact h _ (mem_strip hc rfl)
  · exact fun h c hc => h c (strip_subset s hc)

end

/-! ### What is printed -/

section

variable {stdout : StreamErrors} {values : List Str}

@[simp]
theorem encodable_ofText (t : Text) : Str.encodable stdout (ofText t) = true := by
  simp [Str.encodable, ofText, CodePoint.encodes]

@[simp]
theorem encodable_str (s : String) : Str.encodable stdout (str s) = true := encodable_ofText s.toList

@[simp]
theorem encodable_cons_char (c : Char) (s : Str) :
    Str.encodable stdout (.char c :: s) = Str.encodable stdout s := rfl

@[simp]
theorem encodable_append (s t : Str) :
    Str.encodable stdout (s ++ t) = (Str.encodable stdout s && Str.encodable stdout t) :=
  List.all_append

/-- What is printed where surrogates raise is printed everywhere. -/
theorem encodable_of_strict {s : Str} (h : s.encodable .strict = true) : s.encodable stdout = true := by
  rw [Str.encodable, List.all_eq_true] at h ⊢
  intro c hc
  have := h c hc
  cases c with
  | char c => rfl
  | surrogate n => cases this

theorem printing_eq_ok_iff :
    Str.printing stdout values = .ok () ↔ ∀ v ∈ values, v.encodable stdout = true := by
  simp [Str.printing]

/-- Where nothing raises, everything is printed. -/
theorem written_eq_self (h : ∀ v ∈ values, v.encodable stdout = true) :
    Str.written stdout values = values := List.takeWhile_eq_self_iff.mpr h

theorem length_mapfile_printLines_eq_iff :
    (Str.mapfile (Str.printLines values)).length = values.length ↔ ∀ v ∈ values, .char '\n' ∉ v := by
  rw [Str.mapfile, Str.printLines, length_linesAt_endLines, Nat.add_eq_right,
    List.sum_eq_zero_iff_forall_eq_nat]
  simp [List.count_eq_zero]

end

end TalosP2P.Python
