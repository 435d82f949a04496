import Mathlib.Data.Nat.Log
import Mathlib.Tactic.Ring

/-!
# Support — Python

The built-in operations on `bytes` and `str` the scripts rely on: slices with their negative
indices, `bytes.find`, the strict UTF-8 codec, `int(·, 16)` on a byte string, and the format
`08x`.

* `Exc`: the exceptions; a function that may raise returns in `Except Exc`, and `bind_eq_ok_iff`
  takes a sequence of such calls apart.
* `int16` follows `int(s, 16)`: surrounding ASCII white space, one sign, a `0x` prefix and single
  underscores between digits are accepted, anything else is not a number.
* `int16_of_hexDigits`: on bare hexadecimal digits of either case it is their value.
* `int16_bounds`: eight characters hold a number strictly between `-16⁷` and `16⁸`.
* `hex08_length`, `int16_hex08`: exactly these numbers are written in eight characters that read
  back.
-/

namespace TalosP2P

/-- Python's `bytes`. -/
abbrev Bytes := List UInt8

namespace Python

/-! ### Exceptions -/

/-- The exceptions the scripts can raise.  `SystemExit` and `RuntimeError` carry the text the script
gives them; the interpreter's own exceptions are told apart by their class. -/
inductive Exc where
  | systemExit (message : String)
  | runtimeError (message : String)
  | valueError
  | unicodeDecodeError
  | unicodeEncodeError
  | typeError
  | keyError
  | attributeError
  | overflowError
  | fileNotFoundError
  | isADirectoryError
  | permissionError
  | osError
  | calledProcessError
  deriving DecidableEq, Repr

section

variable {ε : Type*} {α β : Type}

@[simp]
theorem ok_bind (a : α) (f : α → Except ε β) : (.ok a : Except ε α) >>= f = f a := rfl

@[simp]
theorem error_bind (e : ε) (f : α → Except ε β) : (.error e : Except ε α) >>= f = .error e := rfl

@[simp]
theorem pure_eq_ok (a : α) : (pure a : Except ε α) = .ok a := rfl

@[simp]
theorem throw_eq_error (e : ε) : (throw e : Except ε α) = .error e := rfl

theorem bind_eq_ok_iff {x : Except ε α} {f : α → Except ε β} {b : β} :
    x >>= f = .ok b ↔ ∃ a, x = .ok a ∧ f a = .ok b := by
  cases x with
  | error e => simp
  | ok a => simp

theorem bind_eq_error_iff {x : Except ε α} {f : α → Except ε β} {e : ε} :
    x >>= f = .error e ↔ x = .error e ∨ ∃ a, x = .ok a ∧ f a = .error e := by
  cases x with
  | error e' => simp
  | ok a => simp

end

/-- An operation that raises `e` where it has no value. -/
def orRaise {α : Type*} (e : Exc) : Option α → Except Exc α
  | some a => .ok a
  | none => .error e

@[simp]
theorem orRaise_eq_ok_iff {α : Type*} {e : Exc} {x : Option α} {a : α} :
    orRaise e x = .ok a ↔ x = some a := by
  cases x <;> simp [orRaise]

theorem orRaise_eq_error_iff {α : Type*} {e e' : Exc} {x : Option α} :
    orRaise e x = .error e' ↔ x = none ∧ e' = e := by
  cases x <;> simp [orRaise, eq_comm]

/-! ### Slices -/

/-- Where the index `k` of a slice of `n` elements falls. -/
def clamp (n : Nat) (k : Int) : Nat :=
  if k < 0 then (k + n).toNat else min k.toNat n

/-- `xs[i:j]`. -/
def slice {α : Type*} (xs : List α) (i j : Int) : List α :=
  (xs.take (clamp xs.length j)).drop (clamp xs.length i)

/-- `xs[i:]`. -/
def sliceFrom {α : Type*} (xs : List α) (i : Int) : List α :=
  xs.drop (clamp xs.length i)

theorem slice_natCast {α : Type*} (xs : List α) (i j : Nat) :
    slice xs i j = (xs.drop i).take (j - i) := by
  simp only [slice, clamp, Int.natCast_nonneg, Int.not_lt.mpr, if_false, Int.toNat_natCast]
  rw [List.drop_take]
  by_cases hi : i ≤ xs.length
  · rw [Nat.min_eq_left hi]
    by_cases hj : j ≤ xs.length
    · rw [Nat.min_eq_left hj]
    · rw [Nat.min_eq_right (Nat.le_of_not_le hj), List.take_of_length_le (by simp),
        List.take_of_length_le (by simp; omega)]
  · have hi' : xs.length ≤ i := Nat.le_of_not_le hi
    rw [Nat.min_eq_right hi', List.drop_length, List.drop_eq_nil_of_le hi', List.take_nil,
      List.take_nil]

theorem length_slice_le {α : Type*} (xs : List α) (i j : Int) : (slice xs i j).length ≤ xs.length := by
  rw [slice, List.length_drop, List.length_take]
  omega

/-- No slice is longer than its bounds are apart, on whichever side of zero they lie. -/
theorem length_slice_le_of_eq_add {α : Type*} {xs : List α} {i j : Int} {k : Nat} (h : j = i + k) :
    (slice xs i j).length ≤ k := by
  simp only [slice, clamp, List.length_drop, List.length_take]
  split <;> split <;> omega

theorem sliceFrom_natCast {α : Type*} (xs : List α) (i : Nat) : sliceFrom xs i = xs.drop i := by
  simp only [sliceFrom, clamp, Int.natCast_nonneg, Int.not_lt.mpr, if_false, Int.toNat_natCast]
  by_cases hi : i ≤ xs.length
  · rw [Nat.min_eq_left hi]
  · rw [Nat.min_eq_right (by omega), List.drop_eq_nil_of_le (Nat.le_refl _),
      List.drop_eq_nil_of_le (by omega)]

/-- `data.find(pattern, start)`: the least index from `start` on; `none` stands for `-1`. -/
def find (data pattern : Bytes) (start : Int) : Option Nat :=
  (List.range (data.length + 1)).find? fun i =>
    clamp data.length start ≤ i ∧ pattern <+: data.drop i

theorem clamp_natCast_le_iff {n o i : Nat} (h : i < n) : clamp n (o : Int) ≤ i ↔ o ≤ i := by
  simp only [clamp, Int.natCast_nonneg, Int.not_lt.mpr, if_false, Int.toNat_natCast]
  omega

theorem find_eq_some {data pattern : Bytes} {o i : Nat} (hp : pattern ≠ []) (hle : o ≤ i)
    (hi : pattern <+: data.drop i) (hno : ∀ j, o ≤ j → j < i → ¬ pattern <+: data.drop j) :
    find data pattern o = some i := by
  have hlt : i < data.length := by
    by_contra h
    rw [List.drop_eq_nil_of_le (Nat.le_of_not_lt h), List.prefix_nil] at hi
    exact hp hi
  rw [find, List.find?_range_eq_some]
  refine ⟨?_, List.mem_range.mpr (by omega), fun j hj => ?_⟩
  · simpa [clamp_natCast_le_iff hlt] using ⟨hle, hi⟩
  · have hj' : j < data.length := by omega
    rw [Bool.not_eq_true', decide_eq_false_iff_not, clamp_natCast_le_iff hj']
    exact fun h => hno j h.1 hj h.2

theorem find_eq_none {data pattern : Bytes} {o : Nat} (hp : pattern ≠ [])
    (h : ∀ j, o ≤ j → ¬ pattern <+: data.drop j) : find data pattern o = none := by
  rw [find, List.find?_range_eq_none]
  intro j hj
  rw [Bool.not_eq_true', decide_eq_false_iff_not]
  rintro ⟨hle, hprefix⟩
  by_cases hj' : j < data.length
  · exact h j ((clamp_natCast_le_iff hj').mp hle) hprefix
  · rw [List.drop_eq_nil_of_le (Nat.le_of_not_lt hj'), List.prefix_nil] at hprefix
    exact hp hprefix

/-! ### Binary streams

An open binary file is the bytes not yet read. -/

/-- `stream.read(n)`: the bytes read, and those left.  `-1` reads to the end. -/
def read (stream : Bytes) (n : Int) : Except Exc (Bytes × Bytes) :=
  if n < -1 then .error .valueError
  else if n = -1 then .ok (stream, [])
  else .ok (stream.take n.toNat, stream.drop n.toNat)

theorem read_natCast (stream : Bytes) (n : Nat) :
    read stream n = .ok (stream.take n, stream.drop n) := by
  rw [read, if_neg (by omega), if_neg (by omega), Int.toNat_natCast]

/-- What is read and what is left make up the stream. -/
theorem read_append {stream b rest : Bytes} {n : Int} (h : read stream n = .ok (b, rest)) :
    b ++ rest = stream := by
  simp only [read] at h
  split at h
  · cases h
  · split at h
    · cases h; exact List.append_nil _
    · cases h; exact List.take_append_drop _ _

/-! ### Text of a byte string -/

/-- One byte of `repr(b)` between the quotes `quote`. -/
def reprByte (quote c : UInt8) : String :=
  let char := String.singleton (Char.ofNat c.toNat)
  if c = 0x09 then "\\t" else if c = 0x0a then "\\n" else if c = 0x0d then "\\r"
  else if c = quote ∨ c = 0x5c then "\\" ++ char
  else if 0x20 ≤ c ∧ c < 0x7f then char
  else "\\x" ++ String.ofList (Nat.toDigits 16 (c.toNat / 16) ++ Nat.toDigits 16 (c.toNat % 16))

/-- `repr(b)`: single quotes, or double quotes when `b` has a single quote and no double one. -/
def reprBytes (b : Bytes) : String :=
  let quote : UInt8 := if 0x27 ∈ b ∧ 0x22 ∉ b then 0x22 else 0x27
  let mark := String.singleton (Char.ofNat quote.toNat)
  "b" ++ mark ++ String.join (b.map (reprByte quote)) ++ mark

/-! ### UTF-8 -/

/-- `s.encode("utf-8")`. -/
def encodeUtf8 (s : String) : Bytes := s.toByteArray.data.toList

/-- `b.decode("utf-8")`, `none` where it raises `UnicodeDecodeError`. -/
def decodeUtf8 (b : Bytes) : Option String := String.fromUTF8? ⟨b.toArray⟩

@[simp]
theorem decodeUtf8_encodeUtf8 (s : String) : decodeUtf8 (encodeUtf8 s) = some s := by
  have h : (⟨(encodeUtf8 s).toArray⟩ : ByteArray) = s.toByteArray := by
    simp only [encodeUtf8, Array.toArray_toList]
  rw [decodeUtf8, h]
  exact dif_pos s.isValidUTF8

theorem encodeUtf8_of_decodeUtf8 {b : Bytes} {s : String} (h : decodeUtf8 b = some s) :
    encodeUtf8 s = b := by
  simp only [decodeUtf8, String.fromUTF8?] at h
  split at h
  · cases h; simp [encodeUtf8, String.fromUTF8]
  · cases h

/-- `b.decode("utf-8")` as a call. -/
def decode (b : Bytes) : Except Exc String := orRaise .unicodeDecodeError (decodeUtf8 b)

theorem encodeUtf8_injective : Function.Injective encodeUtf8 := fun s t h => by
  have hs := decodeUtf8_encodeUtf8 s
  rw [h, decodeUtf8_encodeUtf8] at hs
  exact (Option.some.inj hs).symm

/-- A text begins with what its bytes begin with. -/
theorem toList_prefix_of_encodeUtf8 {s t : String} (h : encodeUtf8 t <+: encodeUtf8 s) :
    t.toList <+: s.toList := by
  obtain ⟨b, hb⟩ := h
  refine List.isPrefix_of_utf8Encode_append_eq_utf8Encode ⟨b.toArray⟩ ?_
  rw [String.utf8Encode_toList, String.utf8Encode_toList]
  apply ByteArray.ext
  rw [ByteArray.data_append]
  apply Array.toList_inj.mp
  simpa [encodeUtf8] using hb

/-! ### `int(·, 16)` -/

/-- C's `isspace` in the ASCII range. -/
def isSpace (c : UInt8) : Bool := c == 0x20 || (0x09 ≤ c && c ≤ 0x0d)

/-- The value of a hexadecimal digit of either case. -/
def hexVal (c : UInt8) : Option Nat :=
  if 0x30 ≤ c ∧ c ≤ 0x39 then some (c.toNat - 0x30)
  else if 0x61 ≤ c ∧ c ≤ 0x66 then some (c.toNat - 0x61 + 10)
  else if 0x41 ≤ c ∧ c ≤ 0x46 then some (c.toNat - 0x41 + 10)
  else none

def IsHexDigit (c : UInt8) : Prop := (hexVal c).isSome

instance : DecidablePred IsHexDigit := fun c => inferInstanceAs (Decidable ((hexVal c).isSome = true))

/-- The digits at the front of a string and what follows them; `none` at a doubled or a trailing
underscore.  The flag tells whether the last character read was an underscore. -/
def scanDigits : Bytes → Bool → Nat → Option (Nat × Bytes)
  | [], underscore, acc => if underscore then none else some (acc, [])
  | c :: cs, underscore, acc =>
    if c = 0x5f then if underscore then none else scanDigits cs true acc
    else match hexVal c with
      | some d => scanDigits cs false (16 * acc + d)
      | none => if underscore then none else some (acc, c :: cs)

/-- A leading `-` (read as `true`) or `+`. -/
def skipSign : Bytes → Bool × Bytes
  | [] => (false, [])
  | c :: cs => if c = 0x2d then (true, cs) else if c = 0x2b then (false, cs) else (false, c :: cs)

/-- A leading `0x` or `0X`, and one underscore after it. -/
def skipPrefix : Bytes → Bytes
  | z :: x :: cs =>
    if z = 0x30 ∧ (x = 0x78 ∨ x = 0x58) then
      match cs with
      | [] => []
      | u :: cs' => if u = 0x5f then cs' else u :: cs'
    else z :: x :: cs
  | cs => cs

/-- `int(s, 16)` of a byte string, `none` where it raises `ValueError`. -/
def int16 (s : Bytes) : Option Int :=
  let (negative, s) := skipSign (s.dropWhile isSpace)
  let s := skipPrefix s
  -- the digits start with a digit: neither nothing nor an underscore is a number
  if s.head?.bind hexVal = none then none
  else match scanDigits s false 0 with
    | none => none
    | some (n, rest) =>
      if rest.all isSpace then some (if negative then -(n : Int) else n) else none

/-- `int(s, 16)` as a call. -/
def int (s : Bytes) : Except Exc Int := orRaise .valueError (int16 s)

/-- The value of a run of hexadecimal digits, the most significant first. -/
def hexValue (s : Bytes) : Nat := s.foldl (fun acc c => 16 * acc + (hexVal c).getD 0) 0

theorem hexVal_lt {c : UInt8} {d : Nat} (h : hexVal c = some d) : d < 16 := by
  simp only [hexVal, UInt8.le_iff_toNat_le] at h
  split at h
  · cases h; simp at *; omega
  · split at h
    · cases h; simp at *; omega
    · split at h
      · cases h; simp at *; omega
      · cases h

/-- A hexadecimal digit is none of the characters `int16` treats apart. -/
theorem IsHexDigit.plain {c : UInt8} (h : IsHexDigit c) :
    isSpace c = false ∧ c ≠ 0x2d ∧ c ≠ 0x2b ∧ c ≠ 0x5f ∧ c ≠ 0x78 ∧ c ≠ 0x58 := by
  simp only [IsHexDigit, hexVal, UInt8.le_iff_toNat_le] at h
  simp only [isSpace, Bool.or_eq_false_iff, beq_eq_false_iff_ne, Bool.and_eq_false_iff,
    decide_eq_false_iff_not, UInt8.le_iff_toNat_le, ne_eq, ← UInt8.toNat_inj]
  simp only [UInt8.toNat_ofNat] at h ⊢
  split at h
  · omega
  · split at h
    · omega
    · split at h
      · omega
      · cases h

theorem scanDigits_of_hexDigits {s : Bytes} (hs : ∀ c ∈ s, IsHexDigit c) (acc : Nat) :
    scanDigits s false acc =
      some (s.foldl (fun acc c => 16 * acc + (hexVal c).getD 0) acc, []) := by
  induction s generalizing acc with
  | nil => rfl
  | cons c cs ih =>
      have hc := hs c List.mem_cons_self
      obtain ⟨d, hd⟩ := Option.isSome_iff_exists.mp hc
      simp only [scanDigits, if_neg hc.plain.2.2.2.1, hd, List.foldl_cons, Option.getD_some]
      exact ih (fun c' h' => hs c' (List.mem_cons_of_mem _ h')) _

theorem skipPrefix_of_hexDigits {s : Bytes} (hs : ∀ c ∈ s, IsHexDigit c) : skipPrefix s = s := by
  match s with
  | [] => rfl
  | [_] => rfl
  | z :: x :: cs =>
      have hx := (hs x (by simp)).plain
      simp only [skipPrefix, hx.2.2.2.2.1, hx.2.2.2.2.2, or_self, and_false, if_false]

/-- Bare hexadecimal digits, at least one of them. -/
theorem int16_of_hexDigits {s : Bytes} (hne : s ≠ []) (hs : ∀ c ∈ s, IsHexDigit c) :
    int16 s = some (hexValue s : Int) := by
  obtain ⟨c, cs, rfl⟩ := List.exists_cons_of_ne_nil hne
  have hc := hs c List.mem_cons_self
  have hsp : (c :: cs).dropWhile isSpace = c :: cs := by
    rw [List.dropWhile_cons_of_neg (by simp [hc.plain.1])]
  have hsign : skipSign (c :: cs) = (false, c :: cs) := by
    simp only [skipSign, if_neg hc.plain.2.1, if_neg hc.plain.2.2.1]
  have hhead : ((c :: cs).head?.bind hexVal) ≠ none := by
    obtain ⟨d, hd⟩ := Option.isSome_iff_exists.mp hc
    simp [hd]
  simp only [int16, hsp, hsign, skipPrefix_of_hexDigits hs, if_neg hhead,
    scanDigits_of_hexDigits hs, List.all_nil, if_true, Bool.false_eq_true, if_false]
  rfl

/-- A `-` and hexadecimal digits. -/
theorem int16_neg_of_hexDigits {s : Bytes} (hne : s ≠ []) (hs : ∀ c ∈ s, IsHexDigit c) :
    int16 (0x2d :: s) = some (-(hexValue s : Int)) := by
  obtain ⟨c, cs, rfl⟩ := List.exists_cons_of_ne_nil hne
  have hc := hs c List.mem_cons_self
  have hsp : ((0x2d : UInt8) :: c :: cs).dropWhile isSpace = 0x2d :: c :: cs := by
    rw [List.dropWhile_cons_of_neg (by decide)]
  have hsign : skipSign (0x2d :: c :: cs) = (true, c :: cs) := by
    simp only [skipSign, if_true]
  have hhead : ((c :: cs).head?.bind hexVal) ≠ none := by
    obtain ⟨d, hd⟩ := Option.isSome_iff_exists.mp hc
    simp [hd]
  simp only [int16, hsp, hsign, skipPrefix_of_hexDigits hs, if_neg hhead,
    scanDigits_of_hexDigits hs, List.all_nil, if_true]
  rfl

/-! ### The range of eight characters -/

theorem foldl_hexVal_lt (s : Bytes) (acc : Nat) :
    s.foldl (fun acc c => 16 * acc + (hexVal c).getD 0) acc < (acc + 1) * 16 ^ s.length := by
  induction s generalizing acc with
  | nil => simp
  | cons c cs ih =>
      have hd : (hexVal c).getD 0 < 16 := by
        cases h : hexVal c with
        | none => simp
        | some d => exact hexVal_lt h
      have hle : 16 * acc + (hexVal c).getD 0 + 1 ≤ (acc + 1) * 16 := by omega
      rw [List.foldl_cons, List.length_cons]
      calc _ < (16 * acc + (hexVal c).getD 0 + 1) * 16 ^ cs.length := ih _
        _ ≤ (acc + 1) * 16 * 16 ^ cs.length := Nat.mul_le_mul_right _ hle
        _ = (acc + 1) * 16 ^ (cs.length + 1) := by ring

theorem hexValue_lt (s : Bytes) : hexValue s < 16 ^ s.length := by
  have := foldl_hexVal_lt s 0
  simpa [hexValue] using this

theorem scanDigits_lt {s rest : Bytes} {underscore : Bool} {acc n : Nat}
    (h : scanDigits s underscore acc = some (n, rest)) : n < (acc + 1) * 16 ^ s.length := by
  induction s generalizing underscore acc with
  | nil =>
      simp only [scanDigits] at h
      split at h
      · cases h
      · cases h; simp
  | cons c cs ih =>
      have hpos : 0 < 16 ^ cs.length := Nat.pow_pos (by omega)
      have hgrow : (acc + 1) * 16 ^ (cs.length + 1) = (acc + 1) * 16 * 16 ^ cs.length := by ring
      rw [List.length_cons, hgrow]
      simp only [scanDigits] at h
      split at h
      · split at h
        · cases h
        · exact Nat.lt_of_lt_of_le (ih h) (Nat.mul_le_mul_right _ (by omega))
      · split at h
        · rename_i d hd
          have := hexVal_lt hd
          exact Nat.lt_of_lt_of_le (ih h) (Nat.mul_le_mul_right _ (by omega))
        · split at h
          · cases h
          · simp only [Option.some.injEq, Prod.mk.injEq] at h
            rw [← h.1]
            calc acc < (acc + 1) * 16 * 1 := by omega
              _ ≤ (acc + 1) * 16 * 16 ^ cs.length := Nat.mul_le_mul_left _ hpos

theorem skipPrefix_length_le (s : Bytes) : (skipPrefix s).length ≤ s.length := by
  match s with
  | [] => simp [skipPrefix]
  | [_] => simp [skipPrefix]
  | z :: x :: cs =>
      simp only [skipPrefix]
      split
      · cases cs with
        | nil => simp
        | cons u cs' =>
            simp only
            split <;> simp only [List.length_cons] <;> omega
      · exact Nat.le_refl _

/-- A sign takes one of the characters. -/
theorem skipSign_length_le (s : Bytes) :
    (skipSign s).2.length + (if (skipSign s).1 then 1 else 0) ≤ s.length := by
  cases s with
  | nil => simp [skipSign]
  | cons c cs =>
      simp only [skipSign]
      split
      · simp
      · split <;> simp

theorem int16_bounds {s : Bytes} {v : Int} {k : Nat} (h : int16 s = some v)
    (hk : s.length ≤ k + 1) : -(16 ^ k : Nat) < v ∧ v < (16 ^ (k + 1) : Nat) := by
  simp only [int16] at h
  split at h
  · cases h
  · split at h
    · cases h
    · rename_i n rest hscan
      split at h
      · have hw : (s.dropWhile isSpace).length ≤ s.length := (List.dropWhile_suffix _).length_le
        have hp := skipPrefix_length_le (skipSign (s.dropWhile isSpace)).2
        have hs := skipSign_length_le (s.dropWhile isSpace)
        have hn := scanDigits_lt hscan
        rw [Nat.zero_add, Nat.one_mul] at hn
        have hpos : 0 < 16 ^ k := Nat.pow_pos (by omega)
        cases hneg : (skipSign (s.dropWhile isSpace)).1 with
        | false =>
            have hlt : n < 16 ^ (k + 1) :=
              Nat.lt_of_lt_of_le hn (Nat.pow_le_pow_right (by omega) (by omega))
            obtain rfl : (n : Int) = v := by simpa [hneg] using h
            omega
        | true =>
            rw [hneg, if_pos rfl] at hs
            have hlt : n < 16 ^ k :=
              Nat.lt_of_lt_of_le hn (Nat.pow_le_pow_right (by omega) (by omega))
            have hle : 16 ^ k ≤ 16 ^ (k + 1) := Nat.pow_le_pow_right (by omega) (by omega)
            obtain rfl : -(n : Int) = v := by simpa [hneg] using h
            omega
      · cases h

/-! ### The format `08x` -/

/-- The lower-case digit of `d`. -/
def hexDigit (d : Nat) : UInt8 := if d < 10 then UInt8.ofNat (48 + d) else UInt8.ofNat (87 + d)

/-- The `k` last hexadecimal digits of `n`. -/
def fixedHex : Nat → Nat → Bytes
  | 0, _ => []
  | k + 1, n => fixedHex k (n / 16) ++ [hexDigit (n % 16)]

/-- `f"{v:0⟨width⟩x}"`: the sign, and the digits of `|v|` filled with zeros up to the width. -/
def formatHex (width : Nat) (v : Int) : Bytes :=
  if v < 0 then 0x2d :: fixedHex (max (width - 1) (Nat.log 16 v.natAbs + 1)) v.natAbs
  else fixedHex (max width (Nat.log 16 v.natAbs + 1)) v.natAbs

/-- `f"{v:08x}"`. -/
def hex08 (v : Int) : Bytes := formatHex 8 v

theorem hexVal_hexDigit {d : Nat} (h : d < 16) : hexVal (hexDigit d) = some d := by
  rcases d with _ | _ | _ | _ | _ | _ | _ | _ | _ | _ | _ | _ | _ | _ | _ | _ | d
  all_goals first | rfl | omega

@[simp]
theorem fixedHex_length (k n : Nat) : (fixedHex k n).length = k := by
  induction k generalizing n with
  | zero => rfl
  | succ k ih => simp [fixedHex, ih]

theorem fixedHex_isHexDigit {k n : Nat} : ∀ c ∈ fixedHex k n, IsHexDigit c := by
  induction k generalizing n with
  | zero => simp [fixedHex]
  | succ k ih =>
      intro c hc
      rcases List.mem_append.mp hc with hc | hc
      · exact ih c hc
      · rw [List.mem_singleton.mp hc, IsHexDigit, hexVal_hexDigit (Nat.mod_lt _ (by omega))]
        rfl

theorem hexValue_fixedHex {k n : Nat} (h : n < 16 ^ k) : hexValue (fixedHex k n) = n := by
  induction k generalizing n with
  | zero => simp only [Nat.pow_zero] at h; simp [fixedHex, hexValue]; omega
  | succ k ih =>
      have hdiv : n / 16 < 16 ^ k := by
        rw [Nat.pow_succ] at h
        exact Nat.div_lt_of_lt_mul (by omega)
      have hval : hexValue (fixedHex (k + 1) n) =
          16 * hexValue (fixedHex k (n / 16)) + (hexVal (hexDigit (n % 16))).getD 0 := by
        simp only [hexValue, fixedHex, List.foldl_append, List.foldl_cons, List.foldl_nil]
      rw [hval, ih hdiv, hexVal_hexDigit (Nat.mod_lt _ (by omega)), Option.getD_some]
      omega

/-- The numbers whose `08x` is eight characters long. -/
def Fits08 (v : Int) : Prop := -(16 ^ 7 : Nat) < v ∧ v < (16 ^ 8 : Nat)

instance (v : Int) : Decidable (Fits08 v) := inferInstanceAs (Decidable (_ ∧ _))

theorem fits08_of_int16 {s : Bytes} {v : Int} (h : int16 s = some v) (hs : s.length ≤ 8) :
    Fits08 v :=
  int16_bounds (k := 7) h hs

theorem log_lt_of_lt_pow {n k : Nat} (h : n < 16 ^ (k + 1)) : Nat.log 16 n + 1 ≤ k + 1 := by
  by_cases hn : n = 0
  · subst hn; simp
  · exact (Nat.log_lt_iff_lt_pow (by omega) hn).mpr h

theorem hex08_of_nonneg {v : Int} (h : Fits08 v) (hv : 0 ≤ v) : hex08 v = fixedHex 8 v.natAbs := by
  have hlog := log_lt_of_lt_pow (n := v.natAbs) (k := 7) (by have := h.2; omega)
  rw [hex08, formatHex, if_neg (by omega), Nat.max_eq_left hlog]

theorem hex08_of_neg {v : Int} (h : Fits08 v) (hv : v < 0) :
    hex08 v = 0x2d :: fixedHex 7 v.natAbs := by
  have hlog := log_lt_of_lt_pow (n := v.natAbs) (k := 6) (by have := h.1; omega)
  rw [hex08, formatHex, if_pos hv, Nat.max_eq_left hlog]

theorem hex08_length {v : Int} (h : Fits08 v) : (hex08 v).length = 8 := by
  rcases Int.lt_or_le v 0 with hv | hv
  · rw [hex08_of_neg h hv, List.length_cons, fixedHex_length]
  · rw [hex08_of_nonneg h hv, fixedHex_length]

theorem hex08_isHexDigit {v : Int} (h : Fits08 v) (hv : 0 ≤ v) : ∀ c ∈ hex08 v, IsHexDigit c := by
  rw [hex08_of_nonneg h hv]
  exact fixedHex_isHexDigit

theorem hexValue_hex08 {v : Int} (h : Fits08 v) (hv : 0 ≤ v) : (hexValue (hex08 v) : Int) = v := by
  rw [hex08_of_nonneg h hv, hexValue_fixedHex (by have := h.2; omega)]
  omega

/-- What `08x` wrote in eight characters reads back. -/
theorem int16_hex08 {v : Int} (h : Fits08 v) : int16 (hex08 v) = some v := by
  rcases Int.lt_or_le v 0 with hv | hv
  · have hne : fixedHex 7 v.natAbs ≠ [] :=
      List.ne_nil_of_length_pos (by rw [fixedHex_length]; omega)
    rw [hex08_of_neg h hv, int16_neg_of_hexDigits hne fixedHex_isHexDigit,
      hexValue_fixedHex (by have := h.1; omega)]
    exact congrArg some (by omega)
  · have hne : fixedHex 8 v.natAbs ≠ [] :=
      List.ne_nil_of_length_pos (by rw [fixedHex_length]; omega)
    rw [hex08_of_nonneg h hv, int16_of_hexDigits hne fixedHex_isHexDigit,
      hexValue_fixedHex (by have := h.2; omega)]
    exact congrArg some (by omega)

end Python

end TalosP2P
