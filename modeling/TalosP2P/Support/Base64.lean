import Mathlib.Data.List.Forall2
import TalosP2P.Support.Text

/-!
# Support — Base64

The base64 of `base64(1)`, and its two readers: `base64.b64decode` with `validate`, on a text whose
white space was dropped, and Go's `base64.StdEncoding.DecodeString`, which skips the ends of lines
itself.  A byte of a Go string stands as the character of its number.

* `base64Groups_encode`: the round trip.
* `decodeString_eq_ok_iff`: the Go reader accepts what the other one accepts without the ends of
  lines, and reads the same bytes.
-/

namespace TalosP2P.Base64

open Python

/-! ### Writing -/

/-- The digit of a number below 64. -/
def digit (n : Nat) : Char := base64Alphabet.getD n 'A'

/-- `base64 -w0`. -/
def encode : Bytes → Text
  | [] => []
  | [a] => [digit (a.toNat / 4), digit (16 * (a.toNat % 4)), '=', '=']
  | [a, b] => [digit (a.toNat / 4), digit (16 * (a.toNat % 4) + b.toNat / 16),
      digit (4 * (b.toNat % 16)), '=']
  | a :: b :: c :: s => digit (a.toNat / 4) :: digit (16 * (a.toNat % 4) + b.toNat / 16) ::
      digit (4 * (b.toNat % 16) + c.toNat / 64) :: digit (c.toNat % 64) :: encode s

/-- The number of a digit. -/
def value (c : Char) : Option Nat := base64Alphabet.idxOf? c

theorem value_digit {n : Nat} (h : n < 64) : value (digit n) = some n := by
  have hall : ∀ n : Fin 64, value (digit n) = some (n : Nat) := by decide +kernel
  exact hall ⟨n, h⟩

theorem value_pad : value '=' = none := by decide

/-! ### The groups of four -/

variable {a b c d : Char} {i j k l : Nat} {s : Text} {out : Bytes}

/-- A text in groups of four and the bytes they hold.  Only the last group is padded. -/
inductive Groups : Text → Bytes → Prop where
  | nil : Groups [] []
  | two {a b : Char} {i j : Nat} (ha : value a = some i) (hb : value b = some j) :
      Groups [a, b, '=', '='] [UInt8.ofNat (4 * i + j / 16)]
  | three {a b c : Char} {i j k : Nat} (ha : value a = some i) (hb : value b = some j)
      (hc : value c = some k) :
      Groups [a, b, c, '='] [UInt8.ofNat (4 * i + j / 16), UInt8.ofNat (16 * (j % 16) + k / 4)]
  | cons {a b c d : Char} {i j k l : Nat} {s : Text} {out : Bytes} (ha : value a = some i)
      (hb : value b = some j) (hc : value c = some k) (hd : value d = some l)
      (h : Groups s out) :
      Groups (a :: b :: c :: d :: s) (UInt8.ofNat (4 * i + j / 16) ::
        UInt8.ofNat (16 * (j % 16) + k / 4) :: UInt8.ofNat (64 * (k % 4) + l) :: out)

theorem ne_pad_of_value (h : value c = some k) : c ≠ '=' := fun hc => by
  rw [hc, value_pad] at h
  cases h

/-- **The groups are what is read.** -/
theorem base64Groups_eq_some_iff : base64Groups s = some out ↔ Groups s out := by
  constructor
  · intro h
    induction s using base64Groups.induct generalizing out with
    | case1 =>
        cases h
        exact .nil
    | case2 a b =>
        simp only [base64Groups, Option.bind_eq_bind, Option.bind_eq_some_iff] at h
        obtain ⟨i, hi, j, hj, h⟩ := h
        cases h
        exact .two hi hj
    | case3 a b c hpad =>
        rw [base64Groups.eq_3 _ _ _ hpad] at h
        simp only [Option.bind_eq_bind, Option.bind_eq_some_iff] at h
        obtain ⟨i, hi, j, hj, k, hk, h⟩ := h
        cases h
        exact .three hi hj hk
    | case4 a b c d s h₁ h₂ ih =>
        rw [base64Groups.eq_4 _ _ _ _ _ h₁ h₂] at h
        simp only [Option.bind_eq_bind, Option.bind_eq_some_iff] at h
        obtain ⟨i, hi, j, hj, k, hk, l, hl, rest, hrest, h⟩ := h
        cases h
        exact .cons hi hj hk hl (ih hrest)
    | case5 s h₁ h₂ h₃ h₄ =>
        rw [base64Groups.eq_5 _ h₁ h₂ h₃ h₄] at h
        cases h
  · intro h
    induction h with
    | nil => rfl
    | two ha hb =>
        simp only [value] at ha hb
        simp [base64Groups, ha, hb]
    | three ha hb hc =>
        have hpad := ne_pad_of_value hc
        simp only [value] at ha hb hc
        rw [base64Groups.eq_3 _ _ _ hpad, ha, hb, hc]
        rfl
    | cons ha hb hc hd _ ih =>
        have hpad := ne_pad_of_value hd
        simp only [value] at ha hb hc hd
        rw [base64Groups.eq_4 _ _ _ _ _ (fun _ h _ => hpad h) (fun h _ => hpad h), ha, hb, hc, hd, ih]
        rfl

theorem ofNat_eq {x : UInt8} {n : Nat} (h : n = x.toNat) : UInt8.ofNat n = x := by
  rw [h, UInt8.ofNat_toNat]

/-- The bytes of a group are those its digits were made of. -/
theorem groups_encode (b : Bytes) : Groups (encode b) b := by
  induction b using encode.induct with
  | case1 => exact .nil
  | case2 x =>
      have hx := x.toNat_lt
      have hgroup := Groups.two (@value_digit (x.toNat / 4) (by omega))
        (@value_digit (16 * (x.toNat % 4)) (by omega))
      rwa [@ofNat_eq x _ (by omega)] at hgroup
  | case3 x y =>
      have hx := x.toNat_lt
      have hy := y.toNat_lt
      have hgroup := Groups.three (@value_digit (x.toNat / 4) (by omega))
        (@value_digit (16 * (x.toNat % 4) + y.toNat / 16) (by omega))
        (@value_digit (4 * (y.toNat % 16)) (by omega))
      rwa [@ofNat_eq x _ (by omega), @ofNat_eq y _ (by omega)] at hgroup
  | case4 x y z s ih =>
      have hx := x.toNat_lt
      have hy := y.toNat_lt
      have hz := z.toNat_lt
      have hgroup := Groups.cons (@value_digit (x.toNat / 4) (by omega))
        (@value_digit (16 * (x.toNat % 4) + y.toNat / 16) (by omega))
        (@value_digit (4 * (y.toNat % 16) + z.toNat / 64) (by omega))
        (@value_digit (z.toNat % 64) (by omega)) ih
      rwa [@ofNat_eq x _ (by omega), @ofNat_eq y _ (by omega), @ofNat_eq z _ (by omega)] at hgroup

/-- **Round trip.** -/
theorem base64Groups_encode (b : Bytes) : base64Groups (encode b) = some b :=
  base64Groups_eq_some_iff.mpr (groups_encode b)

/-- The characters that are read. -/
theorem Groups.of_mem (h : Groups s out) (hc : c ∈ s) : c = '=' ∨ (value c).isSome := by
  induction h with
  | nil => cases hc
  | two ha hb =>
      simp only [List.mem_cons, List.not_mem_nil, or_false] at hc
      rcases hc with rfl | rfl | rfl | rfl
      · exact .inr (Option.isSome_of_eq_some ha)
      · exact .inr (Option.isSome_of_eq_some hb)
      · exact .inl rfl
      · exact .inl rfl
  | three ha hb hc' =>
      simp only [List.mem_cons, List.not_mem_nil, or_false] at hc
      rcases hc with rfl | rfl | rfl | rfl
      · exact .inr (Option.isSome_of_eq_some ha)
      · exact .inr (Option.isSome_of_eq_some hb)
      · exact .inr (Option.isSome_of_eq_some hc')
      · exact .inl rfl
  | cons ha hb hc' hd _ ih =>
      simp only [List.mem_cons] at hc
      rcases hc with rfl | rfl | rfl | rfl | hc
      · exact .inr (Option.isSome_of_eq_some ha)
      · exact .inr (Option.isSome_of_eq_some hb)
      · exact .inr (Option.isSome_of_eq_some hc')
      · exact .inr (Option.isSome_of_eq_some hd)
      · exact ih hc

/-- A group begins with two digits. -/
theorem Groups.head (h : Groups s out) (hs : s ≠ []) :
    ∃ a b t, s = a :: b :: t ∧ (value a).isSome ∧ (value b).isSome := by
  cases h with
  | nil => exact absurd rfl hs
  | two ha hb | three ha hb _ | cons ha hb _ _ _ =>
      exact ⟨_, _, _, rfl, Option.isSome_of_eq_some ha, Option.isSome_of_eq_some hb⟩

/-! ### The Go reader -/

/-- `\n` and `\r`, which `DecodeString` skips. -/
def isNewline (c : Char) : Bool := c = '\n' || c = '\r'

/-- What comes after the padding must be ends of lines. -/
def decodeEnd (out : Bytes) (s : Text) (si : Nat) : Except Nat Bytes :=
  let rest := s.dropWhile isNewline
  if rest = [] then .ok out else .error (si + (s.length - rest.length))

/-- What comes after the first `=`, with the numbers of the digits before it. -/
def decodePadding (s : Text) (si : Nat) : List Nat → Except Nat Bytes
  | [i, j] =>
    let rest := s.dropWhile isNewline
    let si := si + (s.length - rest.length)
    match rest with
    | [] => .error si
    | c :: rest => if c ≠ '=' then .error (si - 1)
      else decodeEnd [UInt8.ofNat (4 * i + j / 16)] rest (si + 1)
  | [i, j, k] => decodeEnd [UInt8.ofNat (4 * i + j / 16), UInt8.ofNat (16 * (j % 16) + k / 4)] s si
  | _ => .error (si - 1)

/-- The loop of `DecodeString`, at the offset `si` with the numbers of the digits of the group it is
in.  An error is the offset of a `CorruptInputError`. -/
def decodeLoop : Text → Nat → List Nat → Except Nat Bytes
  | [], si, group => if group = [] then .ok [] else .error (si - group.length)
  | c :: s, si, group =>
    match value c with
    | some l =>
      match group with
      | [i, j, k] => (decodeLoop s (si + 1) []).map fun rest =>
          UInt8.ofNat (4 * i + j / 16) :: UInt8.ofNat (16 * (j % 16) + k / 4) ::
            UInt8.ofNat (64 * (k % 4) + l) :: rest
      | _ => decodeLoop s (si + 1) (group ++ [l])
    | none =>
      if isNewline c then decodeLoop s (si + 1) group
      else if c ≠ '=' then .error si
      else decodePadding s (si + 1) group

/-- `base64.StdEncoding.DecodeString`. -/
def decodeString (s : Bytes) : Except Nat Bytes :=
  decodeLoop (s.map fun c => Char.ofNat c.toNat) 0 []

/-- The text without the ends of lines. -/
def joined (s : Text) : Text := s.filter fun c => !isNewline c

theorem decodeEnd_eq_ok_iff {b : Bytes} {si : Nat} :
    decodeEnd b s si = .ok out ↔ joined s = [] ∧ b = out := by
  have hrest : s.dropWhile isNewline = [] ↔ joined s = [] := by
    rw [List.dropWhile_eq_nil_iff, joined, List.filter_eq_nil_iff]
    simp
  simp only [decodeEnd, ← hrest]
  split
  · rename_i h
    simp [h]
  · rename_i h
    simp [h]

/-- The first character that ends no line, and what follows it. -/
theorem joined_eq_cons_iff {t : Text} : joined s = c :: t ↔
    ∃ rest, s.dropWhile isNewline = c :: rest ∧ joined rest = t := by
  induction s with
  | nil => simp [joined]
  | cons x s ih =>
      by_cases hx : isNewline x = true
      · rw [List.dropWhile_cons_of_pos hx, ← ih, joined, joined, List.filter_cons_of_neg (by simp [hx])]
      · rw [List.dropWhile_cons_of_neg hx, joined, List.filter_cons_of_pos (by simp [hx])]
        constructor
        · intro h
          cases h
          exact ⟨s, rfl, rfl⟩
        · rintro ⟨rest, h, rfl⟩
          cases h
          rfl

theorem value_of_isNewline (h : isNewline c = true) : value c = none := by
  rcases Bool.or_eq_true_iff.mp h with h | h
  · rw [of_decide_eq_true h]
    decide
  · rw [of_decide_eq_true h]
    decide

theorem joined_cons_of_not (h : isNewline c = false) : joined (c :: s) = c :: joined s :=
  List.filter_cons_of_pos (by simp [h])

/-- A group that is not full holds no bytes. -/
theorem groups_short {group : Text} (hlen : group.length < 4) :
    Groups group out ↔ group = [] ∧ out = [] := by
  constructor
  · intro h
    cases h with
    | nil => exact ⟨rfl, rfl⟩
    | two | three | cons =>
        simp only [List.length_cons] at hlen
        omega
  · rintro ⟨rfl, rfl⟩
    exact .nil

/-- A group that begins with these characters ends with `==`, and ends the text. -/
theorem groups_pad_two (ha : value a = some i) (hb : value b = some j) :
    Groups (a :: b :: '=' :: s) out ↔ s = ['='] ∧ out = [UInt8.ofNat (4 * i + j / 16)] := by
  constructor
  · intro h
    cases h with
    | two ha' hb' =>
        cases ha.symm.trans ha'
        cases hb.symm.trans hb'
        exact ⟨rfl, rfl⟩
    | three _ _ hc | cons _ _ hc _ _ => exact absurd rfl (ne_pad_of_value hc)
  · rintro ⟨rfl, rfl⟩
    exact .two ha hb

theorem groups_pad_three (ha : value a = some i) (hb : value b = some j) (hc : value c = some k) :
    Groups (a :: b :: c :: '=' :: s) out ↔
      s = [] ∧ out = [UInt8.ofNat (4 * i + j / 16), UInt8.ofNat (16 * (j % 16) + k / 4)] := by
  constructor
  · intro h
    cases h with
    | two => exact absurd rfl (ne_pad_of_value hc)
    | three ha' hb' hc' =>
        cases ha.symm.trans ha'
        cases hb.symm.trans hb'
        cases hc.symm.trans hc'
        exact ⟨rfl, rfl⟩
    | cons _ _ _ hd _ => exact absurd rfl (ne_pad_of_value hd)
  · rintro ⟨rfl, rfl⟩
    exact .three ha hb hc

theorem groups_full (ha : value a = some i) (hb : value b = some j) (hc : value c = some k)
    (hd : value d = some l) : Groups (a :: b :: c :: d :: s) out ↔
      ∃ rest, Groups s rest ∧ UInt8.ofNat (4 * i + j / 16) ::
        UInt8.ofNat (16 * (j % 16) + k / 4) :: UInt8.ofNat (64 * (k % 4) + l) :: rest = out := by
  constructor
  · intro h
    cases h with
    | two | three => exact absurd rfl (ne_pad_of_value hd)
    | cons ha' hb' hc' hd' h =>
        cases ha.symm.trans ha'
        cases hb.symm.trans hb'
        cases hc.symm.trans hc'
        cases hd.symm.trans hd'
        exact ⟨_, h, rfl⟩
  · rintro ⟨rest, h, rfl⟩
    exact .cons ha hb hc hd h

/-- The digits are those of the numbers. -/
abbrev Spells : Text → List Nat → Prop := List.Forall₂ fun c n => value c = some n

/-- A group that is not full. -/
theorem Spells.cases {group : Text} {values : List Nat} (h : Spells group values)
    (hlen : group.length < 4) : (group = [] ∧ values = []) ∨
      (∃ a i, group = [a] ∧ values = [i] ∧ value a = some i) ∨
      (∃ a b i j, group = [a, b] ∧ values = [i, j] ∧ value a = some i ∧ value b = some j) ∨
      ∃ a b c i j k, group = [a, b, c] ∧ values = [i, j, k] ∧ value a = some i ∧
        value b = some j ∧ value c = some k := by
  match h with
  | .nil => exact .inl ⟨rfl, rfl⟩
  | .cons ha .nil => exact .inr (.inl ⟨_, _, rfl, rfl, ha⟩)
  | .cons ha (.cons hb .nil) => exact .inr (.inr (.inl ⟨_, _, _, _, rfl, rfl, ha, hb⟩))
  | .cons ha (.cons hb (.cons hc .nil)) =>
      exact .inr (.inr (.inr ⟨_, _, _, _, _, _, rfl, rfl, ha, hb, hc⟩))
  | .cons _ (.cons _ (.cons _ (.cons _ _))) =>
      simp only [List.length_cons] at hlen
      omega

/-- The padding of the group the loop is in. -/
theorem decodePadding_eq_ok_iff {group : Text} {values : List Nat} {si : Nat}
    (hgroup : Spells group values) (hlen : group.length < 4) :
    decodePadding s si values = .ok out ↔ Groups (group ++ '=' :: joined s) out := by
  rcases hgroup.cases hlen with ⟨rfl, rfl⟩ | ⟨a, i, rfl, rfl, ha⟩ |
    ⟨a, b, i, j, rfl, rfl, ha, hb⟩ | ⟨a, b, c, i, j, k, rfl, rfl, ha, hb, hc⟩
  · refine iff_of_false (fun h => nomatch h) fun h => ?_
    obtain ⟨a, b, t, heq, ha, -⟩ := h.head (List.cons_ne_nil _ _)
    rw [← (List.cons.inj heq).1, value_pad] at ha
    cases ha
  · refine iff_of_false (fun h => nomatch h) fun h => ?_
    obtain ⟨a, b, t, heq, -, hb⟩ := h.head (List.cons_ne_nil _ _)
    rw [← (List.cons.inj (List.cons.inj heq).2).1, value_pad] at hb
    cases hb
  · rw [List.cons_append, List.singleton_append, groups_pad_two ha hb, joined_eq_cons_iff,
      decodePadding]
    cases hrest : s.dropWhile isNewline with
    | nil => exact iff_of_false (fun h => nomatch h) fun ⟨⟨_, h, _⟩, _⟩ => nomatch h
    | cons d rest =>
        by_cases hd : d = '='
        · simp only [hd, ne_eq, not_true, if_false, decodeEnd_eq_ok_iff]
          constructor
          · rintro ⟨h, rfl⟩
            exact ⟨⟨rest, rfl, h⟩, rfl⟩
          · rintro ⟨⟨_, h, hjoined⟩, rfl⟩
            cases h
            exact ⟨hjoined, rfl⟩
        · simp only [ne_eq, hd, not_false_eq_true, if_true]
          refine iff_of_false (fun h => nomatch h) fun ⟨⟨_, h, _⟩, _⟩ => ?_
          exact hd (List.cons.inj h).1
  · rw [List.cons_append, List.cons_append, List.singleton_append, groups_pad_three ha hb hc,
      decodePadding, decodeEnd_eq_ok_iff, eq_comm (a := out)]

/-- The loop reads the group it is in and those that follow. -/
theorem decodeLoop_eq_ok_iff {group : Text} {values : List Nat} {si : Nat}
    (hgroup : Spells group values) (hlen : group.length < 4) :
    decodeLoop s si values = .ok out ↔ Groups (group ++ joined s) out := by
  induction s generalizing si values group out with
  | nil =>
      have hnil : values = [] ↔ group = [] := by
        rw [← List.length_eq_zero_iff, ← List.length_eq_zero_iff, hgroup.length_eq]
      rw [decodeLoop, joined, List.filter_nil, List.append_nil, groups_short hlen, ← hnil]
      split
      · rename_i h
        simp [h, eq_comm]
      · rename_i h
        simp [h]
  | cons c s ih =>
      cases hv : value c with
      | some l =>
          have hnl : isNewline c = false := by
            rw [← Bool.not_eq_true]
            intro h
            rw [value_of_isNewline h] at hv
            cases hv
          rw [joined_cons_of_not hnl, decodeLoop, hv]
          have hmore : ∀ {group : Text} {values : List Nat}, Spells group values →
              group.length < 3 → (decodeLoop s (si + 1) (values ++ [l]) = .ok out ↔
                Groups (group ++ c :: joined s) out) := by
            intro group values hgroup hlen
            have happ : Spells (group ++ [c]) (values ++ [l]) :=
              List.rel_append hgroup (.cons hv .nil)
            have hlen' : (group ++ [c]).length < 4 := by
              rw [List.length_append, List.length_singleton]
              omega
            rw [ih happ hlen', List.append_assoc, List.singleton_append]
          rcases hgroup.cases hlen with ⟨rfl, rfl⟩ | ⟨a, i, rfl, rfl, ha⟩ |
            ⟨a, b, i, j, rfl, rfl, ha, hb⟩ | ⟨a, b, d, i, j, k, rfl, rfl, ha, hb, hd⟩
          · exact hmore hgroup (by simp)
          · exact hmore hgroup (by simp)
          · exact hmore hgroup (by simp)
          · -- The group is full.
            simp only [List.cons_append, List.nil_append]
            rw [groups_full ha hb hd hv]
            have hrest : ∀ {rest}, Groups (joined s) rest ↔ decodeLoop s (si + 1) [] = .ok rest :=
              (ih .nil (by simp)).symm
            simp only [hrest]
            cases decodeLoop s (si + 1) [] <;> simp [Except.map]
      | none =>
          by_cases hnl : isNewline c = true
          · rw [decodeLoop, hv]
            simp only [if_pos hnl]
            rw [ih hgroup hlen, joined, joined, List.filter_cons_of_neg (by simp [hnl])]
          · rw [decodeLoop, hv]
            simp only [if_neg hnl]
            rw [joined_cons_of_not (by simpa using hnl)]
            by_cases hpad : c = '='
            · rw [if_neg (not_not.mpr hpad), decodePadding_eq_ok_iff hgroup hlen, hpad]
            · rw [if_pos hpad]
              refine iff_of_false (fun h => nomatch h) fun h => ?_
              rcases h.of_mem (List.mem_append_right _ List.mem_cons_self) with h | h
              · exact hpad h
              · rw [hv] at h
                cases h

/-- **Two readers.** -/
theorem decodeString_eq_ok_iff {b : Bytes} : decodeString b = .ok out ↔
    base64Groups (joined (b.map fun c => Char.ofNat c.toNat)) = some out :=
  (decodeLoop_eq_ok_iff .nil (by decide)).trans base64Groups_eq_some_iff.symm

/-- The Go reader on what was encoded, wherever its lines were broken. -/
theorem decodeString_of_joined {b : Bytes}
    (h : joined (b.map fun c => Char.ofNat c.toNat) = encode out) : decodeString b = .ok out := by
  rw [decodeString_eq_ok_iff, h, base64Groups_encode]

end TalosP2P.Base64
