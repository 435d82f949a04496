import Mathlib.Data.List.Basic
import Mathlib.Data.List.DropRight
import TalosP2P.Support.Loop

/-!
# Support — Shell

What the scripts use of the shell: strings as lists of characters, `tr` on one character, `fail`,
the value of `$( … )`, and the loop `while IFS= read -r line || [ -n "$line" ]` that keeps the lines that are not empty.

* `readLines_eq`: the loop returns what stands between newlines, the empty pieces dropped; a last
  line without its newline counts.
* `splitOn_tr`: after `tr`, splitting on the new character splits on both.
-/

namespace TalosP2P.Shell

open Loop

/-- A shell string. -/
abbrev Word := List Char

/-- `fail`: the message after `error: `. -/
structure Failure where
  message : Word
  deriving DecidableEq, Repr

/-- `tr c d`, for one character. -/
def tr (c d : Char) (s : Word) : Word := s.map fun x => if x = c then d else x

/-- `"$( … )"`: what was printed, without null characters and without the newlines at its end. -/
def captured (printed : Word) : Word :=
  (printed.filter (· ≠ Char.ofNat 0)).rdropWhile (· = '\n')

/-- A value that is printed on a line of its own comes back. -/
theorem captured_line {value : Word} (h : ∀ c ∈ value, c ≠ Char.ofNat 0 ∧ c ≠ '\n') :
    captured (value ++ ['\n']) = value := by
  have hfilter : (value ++ ['\n']).filter (· ≠ Char.ofNat 0) = value ++ ['\n'] := by
    rw [List.filter_eq_self]
    intro c hc
    rcases List.mem_append.mp hc with hc | hc
    · exact decide_eq_true (h c hc).1
    · rw [List.mem_singleton.mp hc]
      decide
  rw [captured, hfilter, List.rdropWhile_concat_pos _ _ _ (by decide), List.rdropWhile_eq_self_iff]
  intro hne hlast
  exact (h _ (List.getLast_mem hne)).2 (of_decide_eq_true hlast)

/-- `IFS= read -r line`: the line, whether a newline ended it, and what is left to read. -/
def readLine : Word → Word × Bool × Word
  | [] => ([], false, [])
  | c :: s =>
    if c = '\n' then ([], true, s)
    else
      let (line, ended, rest) := readLine s
      (c :: line, ended, rest)

/-- One turn of the loop, whose body appends a line that is not empty. -/
def readTurn : Word × List Word → Except Failure (Turn (Word × List Word) (List Word))
  | (stream, lines) =>
    let (line, ended, rest) := readLine stream
    if ended ∨ line ≠ [] then
      .ok (.next (rest, if line ≠ [] then lines ++ [line] else lines))
    else .ok (.done lines)

/-- The line and what is left are what was there, less the newline. -/
theorem readLine_spec (s : Word) : '\n' ∉ (readLine s).1 ∧
    s = (readLine s).1 ++ (if (readLine s).2.1 then ['\n'] else []) ++ (readLine s).2.2 ∧
    ((readLine s).2.1 = false → (readLine s).2.2 = []) := by
  induction s with
  | nil => simp [readLine]
  | cons c s ih =>
      obtain ⟨hline, hs, hrest⟩ := ih
      by_cases hc : c = '\n'
      · simp [readLine, hc]
      · rw [readLine, if_neg hc]
        refine ⟨?_, ?_, hrest⟩
        · rw [List.mem_cons, not_or]
          exact ⟨fun h => hc h.symm, hline⟩
        · simpa using hs

theorem readTurn_decreasing (s s' : Word × List Word) (h : readTurn s = .ok (.next s')) :
    s'.1.length < s.1.length := by
  obtain ⟨stream, lines⟩ := s
  obtain ⟨-, hs, -⟩ := readLine_spec stream
  have hlen := congrArg List.length hs
  simp only [readTurn] at h
  split at h
  · rename_i hgo
    cases h
    rw [List.length_append, List.length_append] at hlen
    show (readLine stream).2.2.length < stream.length
    rcases hgo with hended | hline
    · rw [hended] at hlen
      simp at hlen
      omega
    · have := List.length_pos_iff.mpr hline
      omega
  · cases h

/-- `while IFS= read -r line || [ -n "$line" ]`, keeping the lines that are not empty. -/
def readLines (s : Word) : Except Failure (List Word) :=
  Loop.eval (fun s : Word × List Word => s.1.length) readTurn_decreasing (s, [])

/-- The nonempty pieces between newlines, read line by line. -/
theorem filter_splitOn (s : Word) : (s.splitOn '\n').filter (· ≠ []) =
    (if (readLine s).1 ≠ [] then [(readLine s).1] else []) ++
      ((readLine s).2.2.splitOn '\n').filter (· ≠ []) := by
  obtain ⟨hline, hs, hrest⟩ := readLine_spec s
  cases hended : (readLine s).2.1 with
  | true =>
      rw [hended, if_pos rfl, List.append_assoc, List.singleton_append] at hs
      conv_lhs => rw [hs]
      rw [List.splitOn_append_cons_self_of_not_mem hline, List.filter_cons]
      by_cases h : (readLine s).1 = [] <;> simp [h]
  | false =>
      rw [hended, hrest hended, List.append_nil] at hs
      conv_lhs => rw [hs]
      rw [if_neg (by simp), List.append_nil, List.splitOn_eq_singleton hline, hrest hended]
      by_cases h : (readLine s).1 = [] <;> simp [h]

theorem returns_readTurn (s : Word) (lines : List Word) :
    Returns readTurn (s, lines) (.ok (lines ++ (s.splitOn '\n').filter (· ≠ []))) := by
  induction hn : s.length using Nat.strongRecOn generalizing s lines with
  | ind n ih =>
      by_cases hgo : (readLine s).2.1 ∨ (readLine s).1 ≠ []
      · have hturn : readTurn (s, lines) = .ok (.next ((readLine s).2.2,
            if (readLine s).1 ≠ [] then lines ++ [(readLine s).1] else lines)) := by
          simp only [readTurn, if_pos hgo]
        have hlt : (readLine s).2.2.length < n := hn ▸ readTurn_decreasing _ _ hturn
        have hih := ih _ hlt (readLine s).2.2
          (if (readLine s).1 ≠ [] then lines ++ [(readLine s).1] else lines) rfl
        rw [Returns.next_iff hturn, filter_splitOn s, ← List.append_assoc]
        convert hih using 3
        split <;> simp
      · have hturn : readTurn (s, lines) = .ok (.done lines) := by
          simp only [readTurn, if_neg hgo]
        obtain ⟨hended, hline⟩ := not_or.mp hgo
        obtain ⟨-, -, hrest⟩ := readLine_spec s
        rw [filter_splitOn s, if_neg hline, hrest (by simpa using hended)]
        simpa using Returns.done hturn

/-- **The reading loop**: the nonempty pieces between newlines, in order. -/
theorem readLines_eq (s : Word) : readLines s = .ok ((s.splitOn '\n').filter (· ≠ [])) :=
  (Loop.eval_eq_iff _ _).mpr (returns_readTurn s [])

/-- Splitting after `tr` splits on both characters. -/
theorem splitOn_tr (c d : Char) (s : Word) :
    (tr c d s).splitOn d = s.splitOnP fun x => x = c ∨ x = d := by
  induction s with
  | nil => rfl
  | cons x s ih =>
      rw [tr, List.map_cons, ← tr, List.splitOn_cons_eq_if_modifyHead,
        List.splitOnP_cons_eq_if_modifyHead, ih]
      by_cases hc : x = c
      · simp [hc]
      · simp [hc]

end TalosP2P.Shell
