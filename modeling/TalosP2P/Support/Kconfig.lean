import TalosP2P.Support.Text

/-!
# Support — Kconfig

How Kconfig reads a `.config`: a line `CONFIG_⟨symbol⟩=⟨value⟩` sets the symbol, any other line sets
nothing, and a symbol has the value of the last line that sets it.  A value that begins with a quote
ends at the next one, and a backslash in it is dropped and keeps the character behind it.  A line
ends in `\n`, or in `\r\n`.

* `assignment_eq_some_iff`: what a line sets.
* `lastAssignment_append_cons`: the last line that sets a symbol, around one line.
* `front_cases`: what a line sets when an assignment stands at its end.
* `exists_quoted`: what stands behind a quote is not read.
-/

namespace TalosP2P.Kconfig

open Python

/-- What every symbol begins with in a `.config`. -/
def config : Text := "CONFIG_".toList

/-- The line that sets a symbol. -/
def assignLine (sym raw : Text) : Text := config ++ (sym ++ '=' :: raw)

/-- The symbol a line sets, and what stands behind the `=`. -/
def assignment (line : Text) : Option (Text × Text) :=
  if config <+: line ∧ '=' ∈ line.drop config.length then
    some (beforeFirst '=' (line.drop config.length), afterFirst '=' (line.drop config.length))
  else none

/-- What a line sets the symbol to. -/
def setBy (sym line : Text) : Option Text :=
  (assignment line).bind fun a => if a.1 = sym then some a.2 else none

/-- What the last line that sets the symbol sets it to. -/
def lastAssignment (lines : List Text) (sym : Text) : Option Text :=
  (lines.filterMap (setBy sym)).getLast?

/-- What a quoted value holds, from behind its first quote. -/
def quoted : Text → Option Text
  | [] => none
  | '"' :: _ => some []
  | '\\' :: c :: s => (quoted s).map (c :: ·)
  | ['\\'] => none
  | c :: s => (quoted s).map (c :: ·)

/-- The value of what stands behind the `=`. -/
def readValue : Text → Text
  | '"' :: s => (quoted s).getD ('"' :: s)
  | raw => raw

/-- The carriage returns in front of a newline dropped. -/
def dropReturns : Text → Text
  | [] => []
  | '\r' :: '\n' :: s => '\n' :: dropReturns s
  | c :: s => c :: dropReturns s

/-- The lines of a `.config`. -/
def lines (text : Text) : List Text := (dropReturns text).splitOn '\n'

/-- The value of a symbol in a `.config`. -/
def effective (text sym : Text) : Option Text := (lastAssignment (lines text) sym).map readValue

/-! ### Line ends -/

theorem dropReturns_cons_of_ne {c : Char} (h : c ≠ '\r') (s : Text) :
    dropReturns (c :: s) = c :: dropReturns s := by
  rw [dropReturns]
  exact fun s heq => absurd heq h

theorem dropReturns_eq_self {s : Text} (h : '\r' ∉ s) : dropReturns s = s := by
  induction s with
  | nil => rfl
  | cons c s ih =>
      rw [List.mem_cons, not_or] at h
      rw [dropReturns_cons_of_ne (Ne.symm h.1), ih h.2]

/-- Where no other carriage return stands, the lines read in text mode are those of Kconfig. -/
theorem universalNewlines_eq_dropReturns {s : Text} (h : '\r' ∉ dropReturns s) :
    universalNewlines s = dropReturns s := by
  fun_induction dropReturns s with
  | case1 => rfl
  | case2 s ih =>
      rw [universalNewlines, ih fun hmem => h (List.mem_cons_of_mem _ hmem)]
  | case3 c s hcrlf ih =>
      rw [List.mem_cons, not_or] at h
      rw [universalNewlines_cons_of_ne (Ne.symm h.1), ih h.2]

/-! ### Lines -/

theorem beforeFirst_append {c : Char} {pre d : Text} (h : c ∉ pre) :
    beforeFirst c (pre ++ c :: d) = pre := by
  have hpre : ∀ x ∈ pre, decide (x ≠ c) = true := fun x hx =>
    decide_eq_true fun heq => h (heq ▸ hx)
  rw [beforeFirst, List.takeWhile_append_of_pos hpre, List.takeWhile_cons_of_neg (by simp),
    List.append_nil]

theorem assignment_eq_some_iff {line sym raw : Text} :
    assignment line = some (sym, raw) ↔ line = assignLine sym raw ∧ '=' ∉ sym := by
  constructor
  · intro h
    rw [assignment] at h
    split at h
    · rename_i hline
      obtain ⟨⟨rest, rfl⟩, hmem⟩ := hline
      rw [List.drop_left] at h hmem
      obtain ⟨pre, d, rfl, hpre⟩ := List.eq_append_cons_of_mem hmem
      rw [beforeFirst_append hpre, afterFirst_append hpre] at h
      cases h
      exact ⟨rfl, hpre⟩
    · cases h
  · rintro ⟨rfl, hsym⟩
    have hdrop : (assignLine sym raw).drop config.length = sym ++ '=' :: raw := List.drop_left
    rw [assignment, hdrop, if_pos ⟨List.prefix_append _ _, by simp⟩, beforeFirst_append hsym,
      afterFirst_append hsym]

theorem setBy_eq_some_iff {sym line raw : Text} :
    setBy sym line = some raw ↔ line = assignLine sym raw ∧ '=' ∉ sym := by
  rw [← assignment_eq_some_iff, setBy, Option.bind_eq_some_iff]
  constructor
  · rintro ⟨⟨s, r⟩, ha, h⟩
    split at h
    · rename_i heq
      obtain rfl : s = sym := heq
      cases h
      exact ha
    · cases h
  · intro h
    exact ⟨_, h, if_pos rfl⟩

/-- A line sets no other symbol than the one it names. -/
theorem setBy_eq_none {sym sym' raw : Text} (h' : '=' ∉ sym') (hne : sym ≠ sym') :
    setBy sym (assignLine sym' raw) = none := by
  rw [setBy, assignment_eq_some_iff.mpr ⟨rfl, h'⟩, Option.bind_some, if_neg (Ne.symm hne)]

theorem lastAssignment_append_cons (before : List Text) (line : Text) (after : List Text) (sym : Text) :
    lastAssignment (before ++ line :: after) sym =
      (lastAssignment after sym).or ((setBy sym line).or (lastAssignment before sym)) := by
  rw [lastAssignment, List.filterMap_append, List.getLast?_append, List.filterMap_cons]
  cases hline : setBy sym line with
  | none => rfl
  | some raw =>
      simp only [List.getLast?_cons]
      cases h : (after.filterMap (setBy sym)).getLast? <;> simp [lastAssignment, h]

theorem exists_of_lastAssignment {lines : List Text} {sym raw : Text}
    (h : lastAssignment lines sym = some raw) : assignLine sym raw ∈ lines := by
  obtain ⟨line, hline, hset⟩ := List.mem_filterMap.mp (List.mem_of_mem_getLast? h)
  rwa [(setBy_eq_some_iff.mp hset).1] at hline

/-- What stands in front of an assignment in its line: nothing, what keeps the line from setting
anything, the beginning of another symbol's name, or of its value. -/
theorem front_cases (front : Text) : front = [] ∨
    (∀ key raw, assignment (front ++ assignLine key raw) = none) ∨
    (∃ n, '=' ∉ n ∧ front = config ++ n) ∨ ∃ sym r, '=' ∉ sym ∧ front = assignLine sym r := by
  by_cases hfront : config <+: front
  · obtain ⟨n, rfl⟩ := hfront
    by_cases hmem : '=' ∈ n
    · obtain ⟨sym, r, rfl, hsym⟩ := List.eq_append_cons_of_mem hmem
      exact .inr (.inr (.inr ⟨sym, r, hsym, rfl⟩))
    · exact .inr (.inr (.inl ⟨n, hmem, rfl⟩))
  · cases front with
    | nil => exact .inl rfl
    | cons x front =>
        refine .inr (.inl fun key raw => if_neg fun h => ?_)
        -- The prefix would begin in front of the assignment and end in it, and holds one `C`.
        have hprefix := h.1
        rcases Nat.lt_or_ge (x :: front).length config.length with hlt | hge
        · obtain ⟨d, hd⟩ := List.prefix_of_prefix_length_le (List.prefix_append _ _) hprefix hlt.le
          rw [← hd, List.prefix_append_right_inj] at hprefix
          cases d with
          | nil => exact hfront ⟨[], by rw [← hd]; simp⟩
          | cons y d =>
              obtain rfl : y = 'C' := (List.cons_prefix_cons.mp hprefix).1
              have hmem : 'C' ∈ config.tail := by rw [← hd]; simp
              exact absurd hmem (by decide)
        · exact hfront (List.prefix_of_prefix_length_le hprefix (List.prefix_append _ _) hge)

/-! ### Values -/

theorem quoted_cons_of_ne {c : Char} (hquote : c ≠ '"') (hslash : c ≠ '\\') (s : Text) :
    quoted (c :: s) = (quoted s).map (c :: ·) := by
  rw [quoted]
  · exact hquote
  · exact fun _ _ h => absurd h hslash
  · exact fun h => absurd h hslash

theorem quoted_of_plain {stem : Text} (h : ∀ c ∈ stem, c ≠ '"' ∧ c ≠ '\\') (s : Text) :
    quoted (stem ++ '"' :: s) = some stem := by
  induction stem with
  | nil => rfl
  | cons c stem ih =>
      obtain ⟨hquote, hslash⟩ := h c List.mem_cons_self
      rw [List.cons_append, quoted_cons_of_ne hquote hslash,
        ih fun c hc => h c (List.mem_cons_of_mem _ hc)]
      rfl

/-- A quoted value is closed by the next quote, whatever stands behind that one. -/
theorem exists_quoted {stem : Text} (hne : stem ≠ []) (hstem : ∀ c ∈ stem, c ≠ '"' ∧ c ≠ '\\') :
    ∀ r, ∃ value, ∀ s, quoted (r ++ (stem ++ '"' :: s)) = some value
  | [] => ⟨stem, fun s => quoted_of_plain hstem s⟩
  | [c] => by
      by_cases hquote : c = '"'
      · exact ⟨[], fun s => by rw [hquote]; rfl⟩
      · by_cases hslash : c = '\\'
        · obtain ⟨d, stem, rfl⟩ := List.exists_cons_of_ne_nil hne
          have hplain := quoted_of_plain fun c hc => hstem c (List.mem_cons_of_mem _ hc)
          exact ⟨d :: stem, fun s => by simp [hslash, quoted, hplain s]⟩
        · refine ⟨c :: stem, fun s => ?_⟩
          rw [List.singleton_append, quoted_cons_of_ne hquote hslash, quoted_of_plain hstem]
          rfl
  | c :: d :: r => by
      by_cases hquote : c = '"'
      · exact ⟨[], fun s => by rw [hquote]; rfl⟩
      · by_cases hslash : c = '\\'
        · obtain ⟨value, h⟩ := exists_quoted hne hstem r
          exact ⟨d :: value, fun s => by simp [hslash, quoted, h s]⟩
        · obtain ⟨value, h⟩ := exists_quoted hne hstem (d :: r)
          refine ⟨c :: value, fun s => ?_⟩
          rw [List.cons_append, quoted_cons_of_ne hquote hslash, h]
          rfl

end TalosP2P.Kconfig
