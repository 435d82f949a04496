import Mathlib.Data.List.Infix

/-!
# Support — Search

The matches of a regular expression that is an alternative of fixed texts, as `finditer` and
`re.findall` give them: from left to right, the next one searched behind the last.  What is found is
what occurs where no two occurrences of the patterns share a character.

* `mem_findAll_iff`: then a pattern is found exactly where it occurs.
-/

namespace TalosP2P.Search

variable {α : Type*} [DecidableEq α]

/-- The matches in a text, the first characters of which are behind the last match. -/
def findAll (patterns : List (List α)) : Nat → List α → List (List α)
  | _, [] => []
  | behind + 1, _ :: s => findAll patterns behind s
  | 0, c :: s =>
    match patterns.find? fun p => p.isPrefixOf (c :: s) with
    | some p => p :: findAll patterns (p.length - 1) s
    | none => findAll patterns 0 s

/-- No occurrence of a pattern begins in one of another, or at the same place. -/
structure Apart (patterns : List (List α)) : Prop where
  nonempty : ∀ p ∈ patterns, p ≠ []
  same : ∀ p ∈ patterns, ∀ q ∈ patterns, p <+: q → p = q
  inner : ∀ p ∈ patterns, ∀ q ∈ patterns, ∀ k < p.length, k ≠ 0 →
    ¬ p.drop k <+: q ∧ ¬ q <+: p.drop k

variable {patterns : List (List α)} {p q s t u : List α}

theorem infix_of_mem_findAll {behind : Nat} (h : p ∈ findAll patterns behind s) :
    p ∈ patterns ∧ p <:+: s := by
  induction s generalizing behind with
  | nil => cases behind <;> cases h
  | cons c s ih =>
      cases behind with
      | succ behind =>
          obtain ⟨hp, hs⟩ := ih h
          exact ⟨hp, hs.trans (List.suffix_cons c s).isInfix⟩
      | zero =>
          rw [findAll] at h
          split at h
          · rename_i q hq
            rcases List.mem_cons.mp h with rfl | h
            · have hprefix : p <+: c :: s :=
                List.isPrefixOf_iff_prefix.mp (by simpa using List.find?_some hq)
              exact ⟨List.mem_of_find?_eq_some hq, hprefix.isInfix⟩
            · obtain ⟨hp, hs⟩ := ih h
              exact ⟨hp, hs.trans (List.suffix_cons c s).isInfix⟩
          · obtain ⟨hp, hs⟩ := ih h
            exact ⟨hp, hs.trans (List.suffix_cons c s).isInfix⟩

/-- An occurrence that does not begin behind the last match is found. -/
theorem mem_findAll (h : Apart patterns) (hp : p ∈ patterns) {behind : Nat} (hs : s = t ++ p ++ u)
    (hbehind : behind ≤ t.length) : p ∈ findAll patterns behind s := by
  induction s generalizing behind t with
  | nil =>
      have hnil := h.nonempty p hp
      simp at hs
      exact absurd hs.2.1 hnil
  | cons c s ih =>
      cases behind with
      | succ behind =>
          cases t with
          | nil => simp at hbehind
          | cons d t =>
              exact ih (List.cons.inj hs).2 (Nat.le_of_succ_le_succ hbehind)
      | zero =>
          rw [findAll]
          split
          · rename_i q hq
            have hqs : q ∈ patterns := List.mem_of_find?_eq_some hq
            have hprefix : q <+: c :: s :=
              List.isPrefixOf_iff_prefix.mp (by simpa using List.find?_some hq)
            cases t with
            | nil =>
                -- the two matches begin at one place
                have hprefix' : p <+: c :: s := ⟨u, hs.symm⟩
                rcases List.prefix_or_prefix_of_prefix hprefix hprefix' with hqp | hpq
                · rw [h.same q hqs p hp hqp]
                  exact List.mem_cons_self
                · rw [h.same p hp q hqs hpq]
                  exact List.mem_cons_self
            | cons d t =>
                refine List.mem_cons_of_mem _ (ih (List.cons.inj hs).2 ?_)
                by_contra hlt
                -- the occurrence would begin in the match
                have hk : (d :: t).length < q.length := by
                  rw [List.length_cons]
                  omega
                have hdrop : q.drop (d :: t).length <+: p ++ u := by
                  have hdropped := hprefix.drop (d :: t).length
                  rw [hs, List.append_assoc, List.drop_left] at hdropped
                  exact hdropped
                obtain ⟨hleft, hright⟩ := h.inner q hqs p hp _ hk (by simp)
                rcases List.prefix_or_prefix_of_prefix hdrop (List.prefix_append p u) with hd | hd
                · exact hleft hd
                · exact hright hd
          · rename_i hnone
            cases t with
            | nil =>
                have hprefix : p.isPrefixOf (c :: s) = true :=
                  List.isPrefixOf_iff_prefix.mpr ⟨u, hs.symm⟩
                exact absurd hprefix (List.find?_eq_none.mp hnone p hp)
            | cons d t => exact ih (List.cons.inj hs).2 (Nat.zero_le _)

/-- **What occurs is found.** -/
theorem mem_findAll_iff (h : Apart patterns) (hp : p ∈ patterns) :
    p ∈ findAll patterns 0 s ↔ p <:+: s := by
  refine ⟨fun hmem => (infix_of_mem_findAll hmem).2, ?_⟩
  rintro ⟨t, u, rfl⟩
  exact mem_findAll h hp rfl (Nat.zero_le _)

end TalosP2P.Search
