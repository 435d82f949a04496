import Mathlib.Data.List.Infix

/-!
# Support — Replace

The first occurrence of a pattern in a list, and its replacement, as in `s.replace(old, new, 1)`.

* `exists_firstCut`, `replaceFirst_of_firstCut`: a list that holds the pattern is cut at its first
  occurrence, which is the one replaced.
* `occursTwice_iff`: the pattern occurs again exactly when it occurs behind the cut.
* `infix_append_iff`: a pattern that holds its first element nowhere else overlaps nothing that
  begins with that element and holds it nowhere else.
-/

namespace TalosP2P.Replace

variable {α : Type*} {old new p q s : List α}

/-- The list is cut at the first occurrence of the pattern. -/
structure FirstCut (old p q s : List α) : Prop where
  eq : s = p ++ (old ++ q)
  first : ¬ old <:+: p ++ old.dropLast

/-- The pattern occurs twice, one occurrence behind the other. -/
def OccursTwice (old s : List α) : Prop := ∃ p m q, s = p ++ (old ++ (m ++ (old ++ q)))

section

variable [DecidableEq α]

/-- The list with the first occurrence of the pattern replaced. -/
def replaceFirst (old new : List α) : List α → List α
  | [] => []
  | x :: xs =>
    if old <+: x :: xs then new ++ (x :: xs).drop old.length else x :: replaceFirst old new xs

theorem exists_firstCut (hne : old ≠ []) (h : old <:+: s) : ∃ p q, FirstCut old p q s := by
  induction s with
  | nil => exact absurd (List.infix_nil.mp h) hne
  | cons x s ih =>
      by_cases hx : old <+: x :: s
      · obtain ⟨q, hq⟩ := hx
        refine ⟨[], q, hq.symm, fun hin => ?_⟩
        have hlen := hin.length_le
        have hpos := List.length_pos_iff.mpr hne
        rw [List.nil_append, List.length_dropLast] at hlen
        omega
      · obtain ⟨p, q, hs, hfirst⟩ := ih ((List.infix_cons_iff.mp h).resolve_left hx)
        refine ⟨x :: p, q, by rw [hs]; rfl, fun hin => ?_⟩
        rw [List.cons_append, List.infix_cons_iff] at hin
        rcases hin with hin | hin
        · have hback : p ++ old.dropLast <+: s := by
            rw [hs, List.prefix_append_right_inj]
            exact (List.dropLast_prefix old).trans (List.prefix_append old q)
          exact hx (hin.trans (List.cons_prefix_cons.mpr ⟨rfl, hback⟩))
        · exact hfirst hin

/-- The occurrence at the cut is the one that is replaced. -/
theorem replaceFirst_of_firstCut (hne : old ≠ []) (h : FirstCut old p q s) (new : List α) :
    replaceFirst old new s = p ++ (new ++ q) := by
  obtain ⟨rfl, hfirst⟩ := h
  induction p with
  | nil =>
      obtain ⟨x, old', rfl⟩ := List.exists_cons_of_ne_nil hne
      rw [List.nil_append, List.cons_append, replaceFirst,
        if_pos (List.cons_prefix_cons.mpr ⟨rfl, List.prefix_append _ _⟩), ← List.cons_append,
        List.drop_left, List.nil_append]
  | cons x p ih =>
      rw [List.cons_append, List.infix_cons_iff, not_or] at hfirst
      have hx : ¬ old <+: x :: (p ++ (old ++ q)) := fun hin => by
        refine hfirst.1 (List.prefix_of_prefix_length_le hin ?_ ?_)
        · rw [List.cons_prefix_cons, List.prefix_append_right_inj]
          exact ⟨rfl, (List.dropLast_prefix old).trans (List.prefix_append old q)⟩
        · rw [List.length_cons, List.length_append, List.length_dropLast]
          omega
      rw [List.cons_append, replaceFirst, if_neg hx, ih hfirst.2]
      rfl

end

/-- Behind the first occurrence, the pattern occurs when it occurs twice. -/
theorem occursTwice_iff (h : FirstCut old p q s) : OccursTwice old s ↔ old <:+: q := by
  obtain ⟨rfl, hfirst⟩ := h
  constructor
  · rintro ⟨p', m, q', heq⟩
    rcases Nat.lt_or_ge p'.length p.length with hlt | hge
    · -- An earlier occurrence would be the first one.
      have hpre : p' ++ old <+: p ++ (old ++ q) := ⟨m ++ (old ++ q'), by rw [heq]; simp⟩
      have hcut : p ++ old.dropLast <+: p ++ (old ++ q) := by
        rw [List.prefix_append_right_inj]
        exact (List.dropLast_prefix old).trans (List.prefix_append old q)
      have hshort := List.prefix_of_prefix_length_le hpre hcut (by
        rw [List.length_append, List.length_append, List.length_dropLast]
        omega)
      exact absurd ((List.suffix_append p' old).isInfix.trans hshort.isInfix) hfirst
    · have hq : q <:+ p ++ (old ++ q) :=
        (List.suffix_append old q).trans (List.suffix_append p (old ++ q))
      have hback : m ++ (old ++ q') <:+ p ++ (old ++ q) := ⟨p' ++ old, by rw [heq]; simp⟩
      have hlen := congrArg List.length heq
      simp only [List.length_append] at hlen
      have hsuffix := List.suffix_of_suffix_length_le hback hq (by
        simp only [List.length_append]
        omega)
      exact List.IsInfix.trans ⟨m, q', by simp⟩ hsuffix.isInfix
  · rintro ⟨m, q', rfl⟩
    exact ⟨p, m, q', by simp⟩

theorem FirstCut.not_infix (h : FirstCut old p q s) : ¬ old <:+: p :=
  fun hin => h.first (hin.trans (List.prefix_append p old.dropLast).isInfix)

/-! ### Patterns that do not overlap -/

/-- A pattern is not found from where its first element does not stand. -/
theorem infix_of_infix_append {c : α} {o : List α} (hp : c ∉ p) (h : c :: o <:+: p ++ q) :
    c :: o <:+: q := by
  induction p with
  | nil => exact h
  | cons x p ih =>
      rw [List.mem_cons, not_or] at hp
      rw [List.cons_append, List.infix_cons_iff, List.cons_prefix_cons] at h
      exact ih hp.2 (h.resolve_left fun hx => hp.1 hx.1)

/-- A pattern that holds its first element nowhere else begins no text that ends before the next one
of its kind. -/
theorem prefix_of_prefix_append {c : α} {o u : List α} (ho : c ∉ o) (hp : p ≠ [])
    (h : c :: o <+: p ++ c :: u) : c :: o <+: p := by
  rcases Nat.lt_or_ge p.length (c :: o).length with hlt | hge
  · obtain ⟨d, hd⟩ := List.prefix_of_prefix_length_le (List.prefix_append _ _) h hlt.le
    obtain ⟨x, p, rfl⟩ := List.exists_cons_of_ne_nil hp
    rw [List.cons_append] at hd
    obtain ⟨rfl, rfl⟩ := List.cons.inj hd
    rw [List.cons_append, List.cons_prefix_cons, List.prefix_append_right_inj] at h
    cases d with
    | nil => rw [List.append_nil]
    | cons y d =>
        obtain rfl := (List.cons_prefix_cons.mp h.2).1
        simp at ho
  · exact List.prefix_of_prefix_length_le h (List.prefix_append _ _) hge

/-- A pattern whose first element occurs in it nowhere else is found before a text of that kind, at
its beginning, or behind it. -/
theorem infix_append_iff {c : α} {o t : List α} (ho : c ∉ o) (ht : c ∉ t) :
    c :: o <:+: p ++ (c :: t ++ q) ↔ c :: o <:+: p ∨ c :: o <+: c :: t ++ q ∨ c :: o <:+: q := by
  constructor
  · rintro ⟨a, b, h⟩
    rw [List.append_assoc] at h
    rcases List.append_eq_append_iff.mp h with ⟨d, rfl, hd⟩ | ⟨d, rfl, hd⟩
    · cases d with
      | nil => exact .inr (.inl ⟨b, hd⟩)
      | cons x d =>
          obtain ⟨rfl, htail⟩ := List.cons.inj hd
          rcases List.append_eq_append_iff.mp htail with ⟨e, rfl, -⟩ | ⟨e, rfl, he⟩
          · exact .inl ⟨a, e, by simp⟩
          · cases e with
            | nil => exact .inl ⟨a, [], by simp⟩
            | cons y e =>
                obtain ⟨rfl, -⟩ := List.cons.inj he
                simp at ho
    · cases d with
      | nil => exact .inr (.inl ⟨b, hd.symm⟩)
      | cons x d =>
          obtain ⟨rfl, htail⟩ := List.cons.inj hd
          rcases List.append_eq_append_iff.mp htail with ⟨e, rfl, he⟩ | ⟨e, rfl, he⟩
          · exact .inr (.inr ⟨e, b, by rw [he]; simp⟩)
          · cases e with
            | nil => exact .inr (.inr ⟨[], b, he⟩)
            | cons y e =>
                obtain ⟨rfl, -⟩ := List.cons.inj he
                simp at ht
  · rintro (h | h | h)
    · exact h.trans (List.prefix_append _ _).isInfix
    · exact h.isInfix.trans (List.suffix_append _ _).isInfix
    · exact h.trans ((List.suffix_append _ q).trans (List.suffix_append p _)).isInfix

end TalosP2P.Replace
