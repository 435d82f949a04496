import TalosP2P.Support.Utf8

/-!
# Support — LineSub

`re.sub` with a pattern that begins with `^`, in `re.MULTILINE`: the text is read from the left, the
pattern is tried where a line begins, and the search goes on behind what was matched.

* `substitute_unlines`: where no match goes over the end of a line, the lines are worked on one by
  one.
* `mem_substitute`: what a result is made of.
-/

namespace TalosP2P.LineSub

open Python

variable {α : Type*} [DecidableEq α]

/-- A pattern behind its `^`: from a text, what replaces the match at its beginning, and how long the
match is. -/
abbrev Pattern (α : Type*) := List α → Option (List α × Nat)

/-- `re.sub(pattern, …, text, flags=re.MULTILINE)`, from a place in the text: whether a line begins
there, and how much of a match is still to be passed over.  No match ends in a newline. -/
def substitute (newline : α) (m : Pattern α) : Bool → Nat → List α → List α
  | _, _, [] => []
  | _, skip + 1, _ :: s => substitute newline m false skip s
  | true, 0, c :: s =>
    match m (c :: s) with
    | some (r, n) => r ++ substitute newline m false (n - 1) s
    | none => c :: substitute newline m (c = newline) 0 s
  | false, 0, c :: s => c :: substitute newline m (c = newline) 0 s

/-- The pattern on one line. -/
def onLine (m : Pattern α) (line : List α) : List α :=
  match m line with
  | some (r, n) => r ++ line.drop n
  | none => line

/-- The match at the beginning of a line, whatever comes after the line, ends in it. -/
structure InLine (newline : α) (m : Pattern α) (line : List α) : Prop where
  eq : ∀ rest, m (line ++ newline :: rest) = m line
  bounds : ∀ {r n}, m line = some (r, n) → 0 < n ∧ n ≤ line.length

variable {newline : α} {m : Pattern α}

omit [DecidableEq α] in
theorem onLine_of_some {line r : List α} {n : Nat} (h : m line = some (r, n)) :
    onLine m line = r ++ line.drop n := by
  rw [onLine, h]

omit [DecidableEq α] in
theorem onLine_of_none {line : List α} (h : m line = none) : onLine m line = line := by
  rw [onLine, h]

omit [DecidableEq α] in
/-- What stands in a line is found at its beginning, whatever comes after the line. -/
theorem prefix_append_cons_iff {p line : List α} (h : newline ∉ p) (rest : List α) :
    p <+: line ++ newline :: rest ↔ p <+: line := by
  constructor
  · intro hp
    rcases Nat.le_total p.length line.length with hle | hle
    · exact List.prefix_of_prefix_length_le hp (List.prefix_append _ _) hle
    · obtain ⟨d, rfl⟩ := List.prefix_of_prefix_length_le (List.prefix_append _ _) hp hle
      rw [List.prefix_append_right_inj] at hp
      cases d with
      | nil => rw [List.append_nil]
      | cons x d =>
          obtain rfl := (List.cons_prefix_cons.mp hp).1
          simp at h
  · exact fun hp => hp.trans (List.prefix_append _ _)

theorem substitute_drop (skip : Nat) (s : List α) :
    substitute newline m false skip s = substitute newline m false 0 (s.drop skip) := by
  induction skip generalizing s with
  | zero => rw [List.drop_zero]
  | succ skip ih =>
      cases s with
      | nil => simp [substitute]
      | cons c s => rw [substitute, ih, List.drop_succ_cons]

/-- Within a line, nothing is matched. -/
theorem substitute_rest {line : List α} (h : newline ∉ line) (rest : List α) :
    substitute newline m false 0 (line ++ newline :: rest) =
      line ++ newline :: substitute newline m true 0 rest := by
  induction line with
  | nil => simp [substitute]
  | cons c line ih =>
      rw [List.mem_cons, not_or] at h
      rw [List.cons_append, substitute, decide_eq_false (Ne.symm h.1), ih h.2, List.cons_append]

theorem substitute_line {line : List α} (h : newline ∉ line) (hline : InLine newline m line)
    (rest : List α) : substitute newline m true 0 (line ++ newline :: rest) =
      onLine m line ++ newline :: substitute newline m true 0 rest := by
  have heq := hline.eq rest
  cases hm : m line with
  | none =>
      rw [onLine, hm]
      rw [hm] at heq
      cases line with
      | nil =>
          rw [List.nil_append] at heq ⊢
          simp [substitute, heq]
      | cons c line =>
          rw [List.mem_cons, not_or] at h
          rw [List.cons_append] at heq ⊢
          simp only [substitute, heq]
          rw [decide_eq_false (Ne.symm h.1), substitute_rest h.2]
          rfl
  | some result =>
      obtain ⟨r, n⟩ := result
      obtain ⟨hpos, hle⟩ := hline.bounds hm
      rw [onLine, hm]
      rw [hm] at heq
      cases line with
      | nil => rw [List.length_nil] at hle; omega
      | cons c line =>
          rw [List.length_cons] at hle
          rw [List.cons_append] at heq ⊢
          simp only [substitute, heq]
          have hdrop : newline ∉ line.drop (n - 1) := fun hmem =>
            h (List.mem_cons_of_mem _ (List.mem_of_mem_drop hmem))
          have hcons : (c :: line).drop n = line.drop (n - 1) := by
            obtain ⟨k, rfl⟩ : ∃ k, n = k + 1 := ⟨n - 1, by omega⟩
            rfl
          rw [substitute_drop, List.drop_append_of_le_length (by omega), substitute_rest hdrop, hcons,
            List.append_assoc]

/-- **Line by line**: lines whose matches stay in them are worked on one by one. -/
theorem substitute_unlines {lines : List (List α)} (h : ∀ line ∈ lines, newline ∉ line)
    (hlines : ∀ line ∈ lines, InLine newline m line) :
    substitute newline m true 0 (unlines newline lines) = unlines newline (lines.map (onLine m)) := by
  induction lines with
  | nil => rfl
  | cons line lines ih =>
      rw [unlines_cons, substitute_line (h line List.mem_cons_self) (hlines line List.mem_cons_self),
        ih (fun l hl => h l (List.mem_cons_of_mem _ hl)) (fun l hl => hlines l (List.mem_cons_of_mem _ hl)),
        List.map_cons, unlines_cons]

omit [DecidableEq α] in
theorem mem_onLine {c : α} (h : ∀ s r n, m s = some (r, n) → c ∈ r → c ∈ s) {line : List α}
    (hc : c ∈ onLine m line) : c ∈ line := by
  cases hm : m line with
  | none => rwa [onLine_of_none hm] at hc
  | some result =>
      rw [onLine_of_some hm] at hc
      rcases List.mem_append.mp hc with hc | hc
      · exact h _ _ _ hm hc
      · exact List.mem_of_mem_drop hc

/-- A result holds what the text holds, and what stands in the replacements. -/
theorem mem_substitute {c : α} (h : ∀ s r n, m s = some (r, n) → c ∈ r → c ∈ s) {start : Bool}
    {skip : Nat} {s : List α} (hc : c ∈ substitute newline m start skip s) : c ∈ s := by
  fun_induction substitute newline m start skip s with
  | case1 => exact hc
  | case2 start skip x s ih => exact List.mem_cons_of_mem _ (ih hc)
  | case3 x s r n hm ih =>
      rcases List.mem_append.mp hc with hc | hc
      · exact h _ _ _ hm hc
      · exact List.mem_cons_of_mem _ (ih hc)
  | case4 x s hm ih =>
      rcases List.mem_cons.mp hc with rfl | hc
      · exact List.mem_cons_self
      · exact List.mem_cons_of_mem _ (ih hc)
  | case5 x s ih =>
      rcases List.mem_cons.mp hc with rfl | hc
      · exact List.mem_cons_self
      · exact List.mem_cons_of_mem _ (ih hc)

end TalosP2P.LineSub
