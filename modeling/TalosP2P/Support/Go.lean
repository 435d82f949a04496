import TalosP2P.Support.Python
import TalosP2P.Support.Words

/-!
# Support — Go

What a Go program uses of its standard library to take a hardware address apart and put it together
again: `strconv.ParseInt`, the sum of two `int64`, `fmt.Sprintf("%02x")`, `strings.Split` and
`strings.Join`, and `net.ParseMAC`.  A string is its bytes.

* `parseInt_bounds`: what `ParseInt` returns fits its bit size.
* `parseMAC_groups`: an address that was read from a text with a colon is the list of the octets
  between the colons.
* `octet_sprintf02x`: a number that `%02x` prints as an octet is that octet.
* `parseMAC_sprintf02x`: what `%02x` prints is no address.
-/

namespace TalosP2P.Go

open Python

/-! ### Numbers -/

/-- The value of a digit or a letter, as `ParseUint` takes it. -/
def digitVal (c : UInt8) : Option Nat :=
  if 0x30 ≤ c ∧ c ≤ 0x39 then some (c.toNat - 0x30)
  else if 0x61 ≤ c ∧ c ≤ 0x7a then some (c.toNat - 0x61 + 10)
  else if 0x41 ≤ c ∧ c ≤ 0x5a then some (c.toNat - 0x41 + 10)
  else none

/-- The digits of `ParseUint`, in a base that is given. -/
def parseUint (s : Bytes) (base : Nat) : Option Nat :=
  if s = [] then none
  else s.foldlM (fun n c => do
    let d ← digitVal c
    if d < base then some (n * base + d) else none) 0

/-- The sign of a number, and what follows it. -/
def sign : Bytes → Bool × Bytes
  | 0x2b :: s => (false, s)
  | 0x2d :: s => (true, s)
  | s => (false, s)

/-- `strconv.ParseInt(s, base, bitSize)`, in a base that is given; `none` where it returns an
error. -/
def parseInt (s : Bytes) (base bitSize : Nat) : Option Int := do
  let un ← parseUint (sign s).2 base
  let cutoff := 2 ^ (bitSize - 1)
  if (sign s).1 then
    if un > cutoff then none else some (-un)
  else
    if un ≥ cutoff then none else some un

/-- The sum of two `int64`. -/
def addInt64 (a b : Int) : Int := (a + b).bmod (2 ^ 64)

/-- `fmt.Sprintf("%02x", v)`. -/
def sprintf02x (v : Int) : Bytes := formatHex 2 v

theorem parseInt_bounds {s : Bytes} {base bitSize : Nat} {v : Int}
    (h : parseInt s base bitSize = some v) :
    -(2 ^ (bitSize - 1) : Nat) ≤ v ∧ v < (2 ^ (bitSize - 1) : Nat) := by
  obtain ⟨un, -, h⟩ := Option.bind_eq_some_iff.mp h
  have hpos : 0 < 2 ^ (bitSize - 1) := Nat.pow_pos (by omega)
  simp only at h
  split at h
  · split at h
    · cases h
    · cases h
      omega
  · split at h
    · cases h
    · cases h
      omega

/-! ### Strings -/

/-- `strings.Split(s, ":")`. -/
def splitColon (s : Bytes) : List Bytes := s.splitOn 0x3a

/-- `strings.Join(groups, ":")`. -/
def joinColon (groups : List Bytes) : Bytes := [0x3a].intercalate groups

theorem not_mem_of_mem_splitColon {s group : Bytes} (h : group ∈ splitColon s) : 0x3a ∉ group :=
  Words.not_mem_of_mem_splitOn h

theorem splitColon_joinColon {groups : List Bytes} (hne : groups ≠ [])
    (h : ∀ group ∈ groups, 0x3a ∉ group) : splitColon (joinColon groups) = groups :=
  List.splitOn_intercalate 0x3a h hne

/-! ### Hardware addresses -/

/-- The octet two hexadecimal digits stand for. -/
def pair (a b : UInt8) : Option UInt8 := do
  let x ← hexVal a
  let y ← hexVal b
  return UInt8.ofNat (16 * x + y)

/-- `xtoi2(s, e)` of `net`: two digits, and `e` behind them if there is more. -/
def xtoi2 (s : Bytes) (e : UInt8) : Option UInt8 :=
  match s with
  | [a, b] => pair a b
  | a :: b :: c :: _ => if c ≠ e then none else pair a b
  | _ => none

/-- The loop over `n` octets with a separator between them. -/
def octets (sep : UInt8) : Nat → Bytes → Option Bytes
  | 0, _ => some []
  | n + 1, s => do
    let o ← xtoi2 s sep
    let os ← octets sep n (s.drop 3)
    return o :: os

/-- The loop over `n` pairs of octets with a separator between the pairs. -/
def octetPairs (sep : UInt8) : Nat → Bytes → Option Bytes
  | 0, _ => some []
  | n + 1, s => do
    let o ← xtoi2 (s.take 2) 0
    let o' ← xtoi2 (s.drop 2) sep
    let os ← octetPairs sep n (s.drop 5)
    return o :: o' :: os

/-- The lengths of a hardware address. -/
def IsLength (n : Nat) : Prop := n = 6 ∨ n = 8 ∨ n = 20

instance : DecidablePred IsLength := fun _ => inferInstanceAs (Decidable (_ ∨ _))

/-- `net.ParseMAC(s)`; `none` where it returns an error. -/
def parseMAC (s : Bytes) : Option Bytes :=
  if s.length < 14 then none
  else if s[2]? = some 0x3a ∨ s[2]? = some 0x2d then
    if (s.length + 1) % 3 ≠ 0 then none
    else if ¬ IsLength ((s.length + 1) / 3) then none
    else octets (s.getD 2 0) ((s.length + 1) / 3) s
  else if s[4]? = some 0x2e then
    if (s.length + 1) % 5 ≠ 0 then none
    else if ¬ IsLength (2 * (s.length + 1) / 5) then none
    else octetPairs (s.getD 4 0) ((s.length + 1) / 5) s
  else none

/-- The octet a group of digits stands for. -/
def octet : Bytes → Option UInt8
  | [a, b] => pair a b
  | _ => none

theorem isHexDigit_of_pair {a b o : UInt8} (h : pair a b = some o) : IsHexDigit a ∧ IsHexDigit b := by
  obtain ⟨x, hx, h⟩ := Option.bind_eq_some_iff.mp h
  obtain ⟨y, hy, -⟩ := Option.bind_eq_some_iff.mp h
  exact ⟨by rw [IsHexDigit, hx]; rfl, by rw [IsHexDigit, hy]; rfl⟩

theorem xtoi2_cases {s : Bytes} {e o : UInt8} (h : xtoi2 s e = some o) :
    ∃ a b, pair a b = some o ∧ (s = [a, b] ∨ ∃ rest, s = a :: b :: e :: rest) := by
  match s, h with
  | [a, b], h => exact ⟨a, b, h, .inl rfl⟩
  | a :: b :: c :: rest, h =>
      simp only [xtoi2] at h
      split at h
      · cases h
      · rename_i hc
        exact ⟨a, b, h, .inr ⟨rest, by rw [not_not.mp hc]⟩⟩

theorem not_mem_pair {a b o sep : UInt8} (hsep : ¬ IsHexDigit sep) (h : pair a b = some o) :
    sep ∉ [a, b] := by
  obtain ⟨ha, hb⟩ := isHexDigit_of_pair h
  intro hmem
  rcases List.mem_cons.mp hmem with rfl | hmem
  · exact hsep ha
  · rw [List.mem_singleton.mp hmem] at hsep
    exact hsep hb

/-- What the loop accepts are groups of two digits, and it returns their octets. -/
theorem octets_spec {sep : UInt8} (hsep : ¬ IsHexDigit sep) {n : Nat} {s hw : Bytes} (hn : 0 < n)
    (hlen : s.length + 1 = 3 * n) (h : octets sep n s = some hw) :
    (s.splitOn sep).mapM octet = some hw ∧ ∀ c ∈ s, c = sep ∨ IsHexDigit c := by
  induction n generalizing s hw with
  | zero => omega
  | succ n ih =>
      obtain ⟨o, ho, h⟩ := Option.bind_eq_some_iff.mp h
      obtain ⟨os, hos, h⟩ := Option.bind_eq_some_iff.mp h
      cases h
      obtain ⟨a, b, hpair, rfl | ⟨rest, rfl⟩⟩ := xtoi2_cases ho
      · obtain ⟨ha, hb⟩ := isHexDigit_of_pair hpair
        obtain rfl : n = 0 := by simp only [List.length_cons, List.length_nil] at hlen; omega
        cases hos
        rw [List.splitOn_eq_singleton (not_mem_pair hsep hpair)]
        exact ⟨by simp [octet, hpair], by simp [ha, hb]⟩
      · obtain ⟨ha, hb⟩ := isHexDigit_of_pair hpair
        have hrest : (a :: b :: sep :: rest).drop 3 = rest := rfl
        rw [hrest] at hos
        simp only [List.length_cons] at hlen
        obtain ⟨hgroups, hchars⟩ := ih (by omega) (by omega) hos
        have hsplit : (a :: b :: sep :: rest).splitOn sep = [a, b] :: rest.splitOn sep :=
          List.splitOn_append_cons_self_of_not_mem (not_mem_pair hsep hpair) rest
        refine ⟨?_, ?_⟩
        · rw [hsplit, List.mapM_cons, hgroups]
          simp [octet, hpair]
        · intro c hc
          simp only [List.mem_cons] at hc
          rcases hc with rfl | rfl | rfl | hc
          · exact .inr ha
          · exact .inr hb
          · exact .inl rfl
          · exact hchars c hc

theorem octetPairs_chars {sep : UInt8} {n : Nat} {s hw : Bytes} (hlen : s.length ≤ 5 * n)
    (h : octetPairs sep n s = some hw) : ∀ c ∈ s, c = sep ∨ IsHexDigit c := by
  induction n generalizing s hw with
  | zero =>
      obtain rfl := List.eq_nil_of_length_eq_zero (by omega : s.length = 0)
      simp
  | succ n ih =>
      obtain ⟨o, ho, h⟩ := Option.bind_eq_some_iff.mp h
      obtain ⟨o', ho', h⟩ := Option.bind_eq_some_iff.mp h
      obtain ⟨os, hos, -⟩ := Option.bind_eq_some_iff.mp h
      have hfront : ∀ c ∈ s.take 2, IsHexDigit c := by
        obtain ⟨a, b, hpair, hs | ⟨rest, hs⟩⟩ := xtoi2_cases ho
        · obtain ⟨ha, hb⟩ := isHexDigit_of_pair hpair
          rw [hs]
          simp [ha, hb]
        · have := congrArg List.length hs
          simp at this
          omega
      have hback : ∀ c ∈ (s.drop 2).take 3, c = sep ∨ IsHexDigit c := by
        obtain ⟨a, b, hpair, hs | ⟨rest, hs⟩⟩ := xtoi2_cases ho' <;>
          obtain ⟨ha, hb⟩ := isHexDigit_of_pair hpair <;> rw [hs] <;> simp [ha, hb]
      have hrest := ih (by rw [List.length_drop]; omega) hos
      intro c hc
      rw [← List.take_append_drop 2 s, ← List.take_append_drop 3 (s.drop 2), List.drop_drop] at hc
      rcases List.mem_append.mp hc with hc | hc
      · exact .inr (hfront c hc)
      · rcases List.mem_append.mp hc with hc | hc
        · exact hback c hc
        · exact hrest c hc

/-- **Addresses with a colon**: their groups, as many as an address has octets, are the octets. -/
theorem parseMAC_groups {s hw : Bytes} (hcolon : 0x3a ∈ s) (h : parseMAC s = some hw) :
    (splitColon s).mapM octet = some hw := by
  have hhex : ¬ IsHexDigit 0x3a := by decide
  simp only [parseMAC] at h
  split at h
  · cases h
  · split at h
    · rename_i hsep
      split at h
      · cases h
      · rename_i hthree
        split at h
        · cases h
        · have hlen : s.length + 1 = 3 * ((s.length + 1) / 3) := by omega
          have hget : s.getD 2 0 = 0x3a ∨ s.getD 2 0 = 0x2d := by
            rcases hsep with hsep | hsep
            · exact .inl (by rw [List.getD_eq_getElem?_getD, hsep]; rfl)
            · exact .inr (by rw [List.getD_eq_getElem?_getD, hsep]; rfl)
          rcases hget with hget | hget
          · rw [hget] at h
            exact (octets_spec hhex (by omega) hlen h).1
          · rw [hget] at h
            obtain ⟨-, hchars⟩ := octets_spec (by decide) (by omega) hlen h
            rcases hchars _ hcolon with hc | hc
            · cases hc
            · exact absurd hc hhex
    · split at h
      · rename_i hdot
        split at h
        · cases h
        · split at h
          · cases h
          · rw [List.getD_eq_getElem?_getD, hdot] at h
            rcases octetPairs_chars (by omega) h _ hcolon with hc | hc
            · cases hc
            · exact absurd hc hhex
      · cases h

/-! ### `%02x` -/

/-- Behind its first character, `%02x` prints digits. -/
theorem isHexDigit_of_mem_tail {v : Int} {c : UInt8} (h : c ∈ (sprintf02x v).tail) :
    IsHexDigit c := by
  rw [sprintf02x, formatHex] at h
  split at h
  · exact fixedHex_isHexDigit c h
  · exact fixedHex_isHexDigit c (List.mem_of_mem_tail h)

theorem colon_not_mem_sprintf02x (v : Int) : 0x3a ∉ sprintf02x v := by
  rw [sprintf02x, formatHex]
  split
  · intro h
    rcases List.mem_cons.mp h with h | h
    · cases h
    · exact absurd (fixedHex_isHexDigit _ h) (by decide)
  · intro h
    exact absurd (fixedHex_isHexDigit _ h) (by decide)

theorem toNat_of_pair {a b o : UInt8} (h : pair a b = some o) : o.toNat = hexValue [a, b] := by
  obtain ⟨x, hx, h⟩ := Option.bind_eq_some_iff.mp h
  obtain ⟨y, hy, h⟩ := Option.bind_eq_some_iff.mp h
  cases h
  have hxlt := hexVal_lt hx
  have hylt := hexVal_lt hy
  simp only [hexValue, List.foldl_cons, List.foldl_nil, hx, hy, Option.getD_some]
  rw [UInt8.toNat_ofNat_of_lt' (by show 16 * x + y < 256; omega)]
  omega

theorem octet_eq_some {s : Bytes} {o : UInt8} (h : octet s = some o) :
    ∃ a b, s = [a, b] ∧ pair a b = some o := by
  match s, h with
  | [a, b], h => exact ⟨a, b, rfl, h⟩

/-- A number that `%02x` prints as two digits is their octet. -/
theorem octet_sprintf02x {v : Int} {o : UInt8} (h : octet (sprintf02x v) = some o) :
    (o.toNat : Int) = v := by
  obtain ⟨a, b, hs, hpair⟩ := octet_eq_some h
  rw [sprintf02x, formatHex] at hs
  split at hs
  · -- The sign is no digit.
    obtain ⟨rfl, -⟩ := List.cons.inj hs
    exact absurd (isHexDigit_of_pair hpair).1 (by decide)
  · have hlen := congrArg List.length hs
    rw [fixedHex_length, List.length_cons, List.length_singleton] at hlen
    have hlt : v.natAbs < 16 ^ 2 :=
      Nat.lt_pow_of_log_lt (by omega) (by omega)
    rw [hlen] at hs
    rw [toNat_of_pair hpair, ← hs, hexValue_fixedHex hlt]
    omega

/-- `%02x` prints no separator behind its first character, so it prints no address. -/
theorem parseMAC_sprintf02x (v : Int) : parseMAC (sprintf02x v) = none := by
  have hchar : ∀ {i : Nat} {c : UInt8}, (sprintf02x v)[i + 1]? = some c → IsHexDigit c := fun h => by
    rw [← List.getElem?_tail] at h
    exact isHexDigit_of_mem_tail (List.mem_of_getElem? h)
  have hpairs : ¬ ((sprintf02x v)[2]? = some 0x3a ∨ (sprintf02x v)[2]? = some 0x2d) := by
    rintro (h | h)
    · exact absurd (hchar h) (by decide)
    · exact absurd (hchar h) (by decide)
  have hdots : (sprintf02x v)[4]? ≠ some 0x2e := fun h => absurd (hchar h) (by decide)
  rw [parseMAC, if_neg hpairs, if_neg hdots, ite_self]

/-! ### Paths -/

/-- A name of a rooted path, after those before it: `path.Clean` drops empty names and `.`, and `..`
goes up. -/
def cleanStep (names : List Bytes) (name : Bytes) : List Bytes :=
  if name = [] ∨ name = [0x2e] then names
  else if name = [0x2e, 0x2e] then names.dropLast
  else names ++ [name]

/-- `filepath.Clean` of a rooted path. -/
def clean (path : Bytes) : Bytes :=
  0x2f :: [0x2f].intercalate ((path.splitOn 0x2f).foldl cleanStep [])

/-- `filepath.Join`, of a rooted path and a name that is not empty. -/
def join (dir name : Bytes) : Bytes := clean (dir ++ 0x2f :: name)

/-- A path cleaned keeps what its last name ends with, when that cannot be part of a `..`. -/
theorem exists_clean_append (path : Bytes) {ending : Bytes} (hslash : 0x2f ∉ ending)
    (hlen : 3 ≤ ending.length) : ∃ front, clean (path ++ ending) = front ++ ending := by
  obtain ⟨pieces, last, happend⟩ := Words.exists_splitOn_append 0x2f path
  have hstep : ∀ names, cleanStep names (last ++ ending) = names ++ [last ++ ending] := by
    intro names
    have hlong : 3 ≤ (last ++ ending).length := by
      rw [List.length_append]
      omega
    rw [cleanStep, if_neg, if_neg]
    · intro h
      rw [h] at hlong
      exact absurd hlong (by decide)
    · rintro (h | h)
      · rw [h] at hlong
        exact absurd hlong (by decide)
      · rw [h] at hlong
        exact absurd hlong (by decide)
  rw [clean, happend, List.splitOn_eq_singleton hslash, List.modifyHead_cons, List.foldl_append,
    List.foldl_cons, List.foldl_nil, hstep]
  generalize pieces.foldl cleanStep [] = names
  obtain ⟨front, hfront⟩ : ∃ front, [0x2f].intercalate (names ++ [last ++ ending]) = front ++ ending := by
    induction names with
    | nil => exact ⟨last, by simp⟩
    | cons name names ih =>
        obtain ⟨front, hfront⟩ := ih
        refine ⟨name ++ [0x2f] ++ front, ?_⟩
        rw [List.cons_append, List.intercalate_cons_of_ne_nil (by simp), hfront]
        simp only [List.append_assoc]
  exact ⟨0x2f :: front, congrArg _ hfront⟩

end TalosP2P.Go
