import Mathlib.Data.List.Infix
import Mathlib.Data.List.TakeWhile
import TalosP2P.Support.Python

/-!
# Support — Text

Python's `str` as a list of characters, with the methods the matrix scripts use: `strip`, `lower` as
far as it decides a search for ASCII words, `split` and `rsplit` at one character, `splitlines`, and
the digits `\d` matches.  A text here is what a script has read in text mode: its lines end in
`\n`.

* `linesAt` and `endLines`: the lines a shell reads of what was written; `length_linesAt_endLines`
  counts them, `linesAt_endLines` gives them when no value holds a newline, and
  `linesAt_substitutedAt` when they come through `$( … )`.
* `readText_writeText_eq`: a text comes back from the file it was written to with its line ends `\n`.
* `exists_eq_append_afterLast`, `afterLast_append`: what stands after the last `c`.
* `infix_printLines`: what is found in lines, and holds no newline, is found in one of them.
-/

namespace TalosP2P.Python

/-- Python's `str`. -/
abbrev Text := List Char

/-! ### Text files -/

/-- The line ends of a text that is read: `\n`, whatever they are in the file. -/
def universalNewlines : Text → Text
  | [] => []
  | '\r' :: '\n' :: s => '\n' :: universalNewlines s
  | '\r' :: s => '\n' :: universalNewlines s
  | c :: s => c :: universalNewlines s

/-- `path.read_text()`, of a file with these bytes. -/
def readText (file : Bytes) : Except Exc Text := do
  let s ← decode file
  return universalNewlines s.toList

/-- The bytes `path.write_text(text)` leaves in the file. -/
def writeText (text : Text) : Bytes := encodeUtf8 (String.ofList text)

theorem universalNewlines_cons_of_ne {c : Char} (h : c ≠ '\r') (s : Text) :
    universalNewlines (c :: s) = c :: universalNewlines s := by
  rw [universalNewlines]
  · exact fun s heq => absurd heq h
  · exact fun heq => absurd heq h

theorem universalNewlines_eq_self {s : Text} (h : '\r' ∉ s) : universalNewlines s = s := by
  induction s with
  | nil => rfl
  | cons c s ih =>
      rw [List.mem_cons, not_or] at h
      rw [universalNewlines_cons_of_ne (Ne.symm h.1), ih h.2]

theorem return_not_mem_universalNewlines (s : Text) : '\r' ∉ universalNewlines s := by
  fun_induction universalNewlines s with
  | case1 => exact List.not_mem_nil
  | case2 s ih => simpa using ih
  | case3 s _ ih => simpa using ih
  | case4 c s hcrlf hcr ih =>
      rw [List.mem_cons, not_or]
      exact ⟨fun heq => hcr heq.symm, ih⟩

theorem readText_writeText_eq (text : Text) :
    readText (writeText text) = .ok (universalNewlines text) := by
  rw [readText, writeText, decode, decodeUtf8_encodeUtf8, orRaise, ok_bind, String.toList_ofList]
  rfl

theorem writeText_injective : Function.Injective writeText := fun s t h => by
  have := congrArg String.toList (encodeUtf8_injective h)
  rwa [String.toList_ofList, String.toList_ofList] at this

/-! ### White space and case -/

/-- The characters `str.strip()` takes away. -/
def isWhitespace (c : Char) : Bool :=
  let n := c.toNat
  (0x09 ≤ n && n ≤ 0x0d) || (0x1c ≤ n && n ≤ 0x20) || n == 0x85 || n == 0xa0 || n == 0x1680 ||
    (0x2000 ≤ n && n ≤ 0x200a) || n == 0x2028 || n == 0x2029 || n == 0x202f || n == 0x205f ||
    n == 0x3000

/-- The characters of `p` taken away at both ends. -/
def stripWhere {α : Type} (p : α → Bool) (s : List α) : List α :=
  ((s.dropWhile p).reverse.dropWhile p).reverse

/-- `s.strip()`. -/
def strip (s : Text) : Text := stripWhere isWhitespace s

/-- What `str.lower()` makes of a character in ASCII: beside the letters, the Kelvin sign becomes `k`
and the capital dotted `i` becomes `i` and a combining dot.  No other character becomes one of
ASCII, and it stays as it is here. -/
def lowerChar (c : Char) : Text :=
  if c.toNat = 0x212a then ['k']
  else if c.toNat = 0x130 then ['i', Char.ofNat 0x307]
  else [c.toLower]

/-- `s.lower()`, for a search for words of ASCII. -/
def lower (s : Text) : Text := s.flatMap lowerChar

/-! ### Digits -/

/-- The zeros of the decimal digits of Unicode, each followed by its nine other digits. -/
def decimalZeros : List Nat :=
  [0x0030, 0x0660, 0x06f0, 0x07c0, 0x0966, 0x09e6, 0x0a66, 0x0ae6, 0x0b66, 0x0be6, 0x0c66, 0x0ce6,
    0x0d66, 0x0de6, 0x0e50, 0x0ed0, 0x0f20, 0x1040, 0x1090, 0x17e0, 0x1810, 0x1946, 0x19d0, 0x1a80,
    0x1a90, 0x1b50, 0x1bb0, 0x1c40, 0x1c50, 0xa620, 0xa8d0, 0xa900, 0xa9d0, 0xa9f0, 0xaa50, 0xabf0,
    0xff10, 0x104a0, 0x10d30, 0x11066, 0x110f0, 0x11136, 0x111d0, 0x112f0, 0x11450, 0x114d0,
    0x11650, 0x116c0, 0x11730, 0x118e0, 0x11950, 0x11c50, 0x11d50, 0x11da0, 0x11f50, 0x16a60,
    0x16ac0, 0x16b50, 0x1d7ce, 0x1d7d8, 0x1d7e2, 0x1d7ec, 0x1d7f6, 0x1e140, 0x1e2f0, 0x1e4f0,
    0x1e950, 0x1fbf0]

/-- `\d` of a pattern on `str`. -/
def isDecimal (c : Char) : Bool := decimalZeros.any fun n => n ≤ c.toNat && c.toNat < n + 10

/-- `[0-9a-f]`. -/
def isLowerHex (c : Char) : Bool := ('0' ≤ c && c ≤ '9') || ('a' ≤ c && c ≤ 'f')

/-! ### Base64 -/

/-- The digits of base64. -/
def base64Alphabet : Text :=
  "ABCDEFGHIJKLMNOPQRSTUVWXYZabcdefghijklmnopqrstuvwxyz0123456789+/".toList

/-- The bytes of groups of four digits, the last of which may be padded.  The bits the padding stands
for are not looked at. -/
def base64Groups : Text → Option Bytes
  | [] => some []
  | [a, b, '=', '='] => do
    let a ← base64Alphabet.idxOf? a
    let b ← base64Alphabet.idxOf? b
    return [UInt8.ofNat (4 * a + b / 16)]
  | [a, b, c, '='] => do
    let a ← base64Alphabet.idxOf? a
    let b ← base64Alphabet.idxOf? b
    let c ← base64Alphabet.idxOf? c
    return [UInt8.ofNat (4 * a + b / 16), UInt8.ofNat (16 * (b % 16) + c / 4)]
  | a :: b :: c :: d :: s => do
    let a ← base64Alphabet.idxOf? a
    let b ← base64Alphabet.idxOf? b
    let c ← base64Alphabet.idxOf? c
    let d ← base64Alphabet.idxOf? d
    let rest ← base64Groups s
    return UInt8.ofNat (4 * a + b / 16) :: UInt8.ofNat (16 * (b % 16) + c / 4) ::
      UInt8.ofNat (64 * (c % 4) + d) :: rest
  | _ => none

/-- `base64.b64decode(s, validate=True)`. -/
def b64decode (s : Text) : Except Exc Bytes := orRaise .valueError (base64Groups s)

/-! ### Splitting at a character -/

section

variable {α : Type} [DecidableEq α]

/-- `s.rsplit(c, 1)[-1]`. -/
def afterLast (c : α) (s : List α) : List α := (s.reverse.takeWhile (· ≠ c)).reverse

/-- `s.split(c, 1)[0]`. -/
def beforeFirst (c : α) (s : List α) : List α := s.takeWhile (· ≠ c)

/-- `s.split(c, 1)[1]`, of a text that holds `c`. -/
def afterFirst (c : α) (s : List α) : List α := (s.dropWhile (· ≠ c)).tail

theorem afterLast_append {c : α} {pre d : List α} (h : c ∉ d) : afterLast c (pre ++ c :: d) = d := by
  have hd : ∀ x ∈ d.reverse, decide (x ≠ c) = true := fun x hx => by
    rw [decide_eq_true_eq]
    rintro rfl
    exact h (List.mem_reverse.mp hx)
  rw [afterLast, List.reverse_append, List.reverse_cons, List.append_assoc, List.singleton_append,
    List.takeWhile_append_of_pos hd, List.takeWhile_cons_of_neg (by simp), List.append_nil,
    List.reverse_reverse]

theorem afterFirst_append {c : α} {pre d : List α} (h : c ∉ pre) :
    afterFirst c (pre ++ c :: d) = d := by
  have hpre : ∀ x ∈ pre, decide (x ≠ c) = true := fun x hx =>
    decide_eq_true fun heq => h (heq ▸ hx)
  rw [afterFirst, List.dropWhile_append_of_pos hpre, List.dropWhile_cons_of_neg (by simp), List.tail_cons]

theorem not_mem_afterLast (c : α) (s : List α) : c ∉ afterLast c s := by
  intro h
  have := List.mem_takeWhile_imp (List.mem_reverse.mp h)
  simp at this

/-- A text that holds `c` ends in `c` and what stands after the last one. -/
theorem exists_eq_append_afterLast {c : α} {s : List α} (h : c ∈ s) :
    ∃ pre, s = pre ++ c :: afterLast c s := by
  obtain ⟨d, front, hs, hd⟩ := List.eq_append_cons_of_mem (List.mem_reverse.mpr h)
  have heq : s = front.reverse ++ c :: d.reverse := by
    rw [← List.reverse_reverse s, hs, List.reverse_append, List.reverse_cons, List.append_assoc,
      List.singleton_append]
  have hlast : afterLast c s = d.reverse := by
    rw [heq, afterLast_append fun h => hd (List.mem_reverse.mp h)]
  exact ⟨front.reverse, by rw [hlast]; exact heq⟩

end

/-! ### Lines -/

section

variable {α : Type}

/-- The pieces that end at a character of `p`, and the rest, if there is any. -/
def linesWhere (p : α → Bool) (s : List α) : List (List α) :=
  s.foldr (fun c lines =>
    if p c then [] :: lines
    else match lines with
      | [] => [[c]]
      | line :: lines => (c :: line) :: lines) []

/-- The values, each with `nl` after it. -/
def endLines (nl : α) (values : List (List α)) : List α := values.flatMap fun value => value ++ [nl]

theorem linesWhere_cons_of_pos {p : α → Bool} {c : α} (h : p c = true) (s : List α) :
    linesWhere p (c :: s) = [] :: linesWhere p s := by
  simp only [linesWhere, List.foldr_cons, if_pos h]

theorem linesWhere_cons_of_neg {p : α → Bool} {c : α} (h : p c = false) (s : List α) :
    linesWhere p (c :: s) = match linesWhere p s with
      | [] => [[c]]
      | line :: lines => (c :: line) :: lines := by
  simp only [linesWhere, List.foldr_cons, h, Bool.false_eq_true, if_false]

/-- A line, and the lines after it. -/
theorem linesWhere_append {p : α → Bool} {c : α} {v : List α} (hc : p c = true)
    (h : ∀ x ∈ v, p x = false) (s : List α) : linesWhere p (v ++ c :: s) = v :: linesWhere p s := by
  induction v with
  | nil => exact linesWhere_cons_of_pos hc s
  | cons x v ih =>
      rw [List.cons_append, linesWhere_cons_of_neg (h x List.mem_cons_self),
        ih fun y hy => h y (List.mem_cons_of_mem _ hy)]

theorem endLines_cons (nl : α) (v : List α) (values : List (List α)) :
    endLines nl (v :: values) = v ++ nl :: endLines nl values := by
  simp [endLines]

/-- Lines that are written are read back, where none of them is broken. -/
theorem linesWhere_endLines {p : α → Bool} {nl : α} (hp : p nl = true) {values : List (List α)}
    (h : ∀ v ∈ values, ∀ c ∈ v, p c = false) : linesWhere p (endLines nl values) = values := by
  induction values with
  | nil => rfl
  | cons v values ih =>
      rw [endLines_cons, linesWhere_append hp (h v List.mem_cons_self),
        ih fun w hw => h w (List.mem_cons_of_mem _ hw)]

variable [DecidableEq α] {nl : α}

/-- `mapfile -t`: the lines of what is read, which end in `nl`. -/
def linesAt (nl : α) (s : List α) : List (List α) := linesWhere (· = nl) s

theorem linesAt_endLines {values : List (List α)} (h : ∀ v ∈ values, nl ∉ v) :
    linesAt nl (endLines nl values) = values := by
  refine linesWhere_endLines (p := (· = nl)) (decide_eq_true rfl) ?_
  exact fun v hv c hc => decide_eq_false fun hnl => h v hv (hnl ▸ hc)

theorem length_linesAt_append (v s : List α) :
    (linesAt nl (v ++ nl :: s)).length = v.count nl + 1 + (linesAt nl s).length := by
  induction v with
  | nil => simp [linesAt, linesWhere_cons_of_pos, Nat.add_comm]
  | cons c v ih =>
      rw [List.cons_append]
      by_cases hc : c = nl
      · subst hc
        have hlines := linesWhere_cons_of_pos (p := (· = c)) (decide_eq_true rfl) (v ++ c :: s)
        rw [linesAt, hlines, ← linesAt, List.length_cons, ih, List.count_cons_self]
        omega
      · have hlines := linesWhere_cons_of_neg (p := (· = nl)) (decide_eq_false hc) (v ++ nl :: s)
        rw [linesAt, hlines, ← linesAt, List.count_cons_of_ne hc]
        cases hm : linesAt nl (v ++ nl :: s) with
        | nil => rw [hm, List.length_nil] at ih; omega
        | cons line lines => rw [hm, List.length_cons] at ih; rw [List.length_cons, ih]

/-- **Lines counted**: each value is written on one line more than it holds newlines. -/
theorem length_linesAt_endLines (values : List (List α)) :
    (linesAt nl (endLines nl values)).length =
      (values.map fun v => v.count nl).sum + values.length := by
  induction values with
  | nil => rfl
  | cons v values ih =>
      rw [endLines_cons, length_linesAt_append, ih, List.map_cons, List.sum_cons, List.length_cons]
      omega

/-- What the shell keeps of an output in `$( … )`: it drops `nul` and the `nl` at the end. -/
def substitutedAt (nl nul : α) (printed : List α) : List α :=
  ((printed.filter (· ≠ nul)).reverse.dropWhile (· = nl)).reverse

/-- Lines that are not empty come through `$( … )` and `printf '%s\n'`. -/
theorem linesAt_substitutedAt {nul : α} {values : List (List α)} (hnn : nl ≠ nul) (hne : values ≠ [])
    (h : ∀ v ∈ values, nl ∉ v ∧ nul ∉ v ∧ v ≠ []) :
    linesAt nl (substitutedAt nl nul (endLines nl values) ++ [nl]) = values := by
  obtain ⟨front, v, rfl⟩ := List.eq_nil_or_concat' values |>.resolve_left hne
  obtain ⟨hnl, -, hv⟩ := h v (by simp)
  obtain ⟨w, c, rfl⟩ := List.eq_nil_or_concat' v |>.resolve_left hv
  have hc : c ≠ nl := fun hc => hnl (by simp [hc])
  have hnull : (endLines nl (front ++ [w ++ [c]])).filter (· ≠ nul) =
      endLines nl (front ++ [w ++ [c]]) := by
    rw [List.filter_eq_self]
    intro x hx
    obtain ⟨v, hv, hx⟩ := List.mem_flatMap.mp hx
    rcases List.mem_append.mp hx with hx | hx
    · exact decide_eq_true fun h0 => (h v hv).2.1 (h0 ▸ hx)
    · rw [List.mem_singleton.mp hx]
      exact decide_eq_true hnn
  have hlast : endLines nl (front ++ [w ++ [c]]) = endLines nl front ++ w ++ [c] ++ [nl] := by
    simp [endLines]
  have hsub : substitutedAt nl nul (endLines nl (front ++ [w ++ [c]])) =
      endLines nl front ++ w ++ [c] := by
    rw [substitutedAt, hnull, hlast, List.reverse_append, List.reverse_append]
    simp [hc]
  rw [hsub, ← hlast, linesAt_endLines fun v hv => (h v hv).1]

end

/-- The characters `str.splitlines()` splits at. -/
def isLineBreak (c : Char) : Bool :=
  let n := c.toNat
  (0x0a ≤ n && n ≤ 0x0d) || (0x1c ≤ n && n ≤ 0x1e) || n == 0x85 || n == 0x2028 || n == 0x2029

/-- `s.splitlines()`. -/
def splitLines (s : Text) : List Text := linesWhere isLineBreak s

/-- `mapfile -t`: the lines of what is read. -/
def mapfile (s : Text) : List Text := linesAt '\n' s

/-- `print(value)` for each of the values. -/
def printLines (values : List Text) : Text := endLines '\n' values

/-- `$( … )`: the output without null characters and without the newlines at its end. -/
def substituted (printed : Text) : Text := substitutedAt '\n' (Char.ofNat 0) printed

theorem printLines_cons (v : Text) (values : List Text) :
    printLines (v :: values) = v ++ '\n' :: printLines values := endLines_cons '\n' v values

theorem mapfile_substituted {values : List Text} (hne : values ≠ [])
    (h : ∀ v ∈ values, '\n' ∉ v ∧ Char.ofNat 0 ∉ v ∧ v ≠ []) :
    mapfile (substituted (printLines values) ++ ['\n']) = values :=
  linesAt_substitutedAt (by decide) hne h

theorem splitLines_printLines {values : List Text} (h : ∀ v ∈ values, ∀ c ∈ v, isLineBreak c = false) :
    splitLines (printLines values) = values :=
  linesWhere_endLines rfl h

/-! ### A text among lines -/

/-- What is found in two texts and a character it does not hold between them is in one of them. -/
theorem infix_append_cons {α : Type} {c : α} {t v s : List α} (hc : c ∉ t) (h : t <:+: v ++ c :: s) :
    t <:+: v ∨ t <:+: s := by
  obtain ⟨pre, post, h⟩ := h
  rw [List.append_assoc] at h
  rcases List.append_eq_append_iff.mp h with ⟨d, rfl, hd⟩ | ⟨d, rfl, hd⟩
  · rcases List.append_eq_append_iff.mp hd with ⟨e, rfl, -⟩ | ⟨e, rfl, he⟩
    · exact .inl ⟨pre, e, by simp⟩
    · cases e with
      | nil => exact .inl ⟨pre, [], by simp⟩
      | cons x e => exact absurd (by simp [(List.cons.inj he).1]) hc
  · cases d with
    | nil =>
        cases t with
        | nil => exact .inl (List.nil_infix)
        | cons x t => exact absurd (by simp [(List.cons.inj hd).1]) hc
    | cons x d =>
        obtain ⟨rfl, hs⟩ := List.cons.inj hd
        exact .inr ⟨d, post, by rw [List.append_assoc]; exact hs.symm⟩

theorem infix_printLines {t : Text} {values : List Text} (hnl : '\n' ∉ t) (hne : t ≠ [])
    (h : t <:+: printLines values) : ∃ v ∈ values, t <:+: v := by
  induction values with
  | nil => exact absurd (List.infix_nil.mp h) hne
  | cons v values ih =>
      rw [printLines_cons] at h
      rcases infix_append_cons hnl h with h | h
      · exact ⟨v, List.mem_cons_self, h⟩
      · obtain ⟨w, hw, h⟩ := ih h
        exact ⟨w, List.mem_cons_of_mem _ hw, h⟩

theorem lower_printLines (values : List Text) :
    lower (printLines values) = printLines (values.map lower) := by
  have hnl : lowerChar '\n' = ['\n'] := by decide
  simp [lower, printLines, endLines, List.flatMap_assoc, List.flatMap_map, List.flatMap_append, hnl]

end TalosP2P.Python
