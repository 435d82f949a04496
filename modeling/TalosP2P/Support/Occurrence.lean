import Mathlib.Data.List.Basic

/-!
# Support — Occurrence

Which of two kinds of element comes first in a list, or last: as a comparison of indices, and as a
way to cut the list.

* `findIdx_lt_iff`: the first element of either kind is one of the first kind.
* `findIdx_reverse_lt_iff`: the last one is.
* `idxOf_lt_idxOf_iff`: an element that occurs comes before another that does not stand before it.
-/

namespace TalosP2P.Occurrence

variable {α : Type*}

/-- No element is of both kinds, and the first that is of either is of the first kind. -/
theorem findIdx_lt_iff {p q : α → Bool} (hpq : ∀ x, p x → ¬ q x) {xs : List α} :
    xs.findIdx p < xs.findIdx q ↔
      ∃ pre x post, xs = pre ++ x :: post ∧ p x ∧ ∀ y ∈ pre, ¬ p y ∧ ¬ q y := by
  induction xs with
  | nil => simp
  | cons x xs ih =>
      rw [List.findIdx_cons, List.findIdx_cons]
      by_cases hp : p x
      · have hq : q x = false := by simpa using hpq x hp
        simp only [hp, hq, cond_true, cond_false, Nat.zero_lt_succ, true_iff]
        exact ⟨[], x, xs, rfl, hp, by simp⟩
      · have hp' : p x = false := by simpa using hp
        by_cases hq : q x
        · simp only [hp', hq, cond_true, cond_false, Nat.not_lt_zero, false_iff]
          rintro ⟨pre, y, post, heq, hy, hpre⟩
          cases pre with
          | nil => cases heq; exact hp hy
          | cons z pre => cases heq; exact (hpre x List.mem_cons_self).2 hq
        · have hq' : q x = false := by simpa using hq
          simp only [hp', hq', cond_false, Nat.add_lt_add_iff_right, ih]
          constructor
          · rintro ⟨pre, y, post, rfl, hy, hpre⟩
            refine ⟨x :: pre, y, post, rfl, hy, fun z hz => ?_⟩
            rcases List.mem_cons.mp hz with rfl | hz
            · exact ⟨hp, hq⟩
            · exact hpre z hz
          · rintro ⟨pre, y, post, heq, hy, hpre⟩
            cases pre with
            | nil => cases heq; exact absurd hy hp
            | cons z pre =>
                cases heq
                exact ⟨pre, y, post, rfl, hy, fun z hz => hpre z (List.mem_cons_of_mem _ hz)⟩

/-- The last element of either kind is of the first kind. -/
theorem findIdx_reverse_lt_iff {p q : α → Bool} (hpq : ∀ x, p x → ¬ q x) {xs : List α} :
    xs.reverse.findIdx p < xs.reverse.findIdx q ↔
      ∃ pre x post, xs = pre ++ x :: post ∧ p x ∧ ∀ y ∈ post, ¬ p y ∧ ¬ q y := by
  rw [findIdx_lt_iff hpq]
  constructor
  · rintro ⟨pre, x, post, heq, hx, hpre⟩
    refine ⟨post.reverse, x, pre.reverse, ?_, hx, by simpa using hpre⟩
    rw [← List.reverse_reverse xs, heq]
    simp
  · rintro ⟨pre, x, post, rfl, hx, hpost⟩
    exact ⟨post.reverse, x, pre.reverse, by simp, hx, by simpa using hpost⟩

section Lawful

variable [BEq α] [LawfulBEq α] {a b : α}

/-- An element that occurs comes before `a` exactly when `a` does not stand before it. -/
theorem idxOf_lt_idxOf_iff (hab : a ≠ b) {xs : List α} (hb : b ∈ xs) :
    xs.idxOf b < xs.idxOf a ↔ a ∉ xs.takeWhile (· != b) := by
  induction xs with
  | nil => cases hb
  | cons x xs ih =>
      rw [List.idxOf_cons, List.idxOf_cons]
      by_cases hxb : x = b
      · subst hxb
        have hxa : (x == a) = false := by simpa using hab.symm
        simp [hxa]
      · have hb' : b ∈ xs := (List.mem_cons.mp hb).resolve_left fun h => hxb h.symm
        have hxb' : (x == b) = false := by simpa using hxb
        rw [List.takeWhile_cons_of_pos (by simpa using hxb), List.mem_cons, not_or, hxb']
        by_cases hxa : x = a
        · subst hxa
          simp
        · have hxa' : (x == a) = false := by simpa using hxa
          have hax : a ≠ x := fun h => hxa h.symm
          simp only [hxa', cond_false, Nat.add_lt_add_iff_right, ih hb']
          exact (and_iff_right hax).symm

/-- Elements after one that occurs do not change which comes first. -/
theorem idxOf_append_lt_iff {xs ys : List α} (hb : b ∈ xs) :
    (xs ++ ys).idxOf b < (xs ++ ys).idxOf a ↔ xs.idxOf b < xs.idxOf a := by
  have hlt := List.idxOf_lt_length_of_mem hb
  rw [List.idxOf_append, List.idxOf_append, if_pos hb]
  split
  · rfl
  · rename_i ha
    rw [List.idxOf_eq_length ha]
    omega

end Lawful

end TalosP2P.Occurrence
