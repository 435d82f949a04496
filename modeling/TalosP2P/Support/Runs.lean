import Mathlib.Data.List.DropRight
import TalosP2P.Support.Text

/-!
# Support — Runs

Two ways to clean a string: every maximal run of certain characters becomes one character, as in
`re.sub(r"[…]+", c, s)`, and certain characters are taken away at both ends, as in `s.strip(…)`.

* `mem_replaceRuns_iff`: which characters are left when runs are replaced.
* `no_pair_replaceRuns`, `replaceRuns_eq_self_iff`: replacing the runs of `c` by `c` leaves no two of
  them together, and changes nothing where there are none.
* `stripWhere_eq_nil_iff`, `stripWhere_ends`, `stripWhere_eq_self`: what is left between the ends.
-/

namespace TalosP2P.Python

section Runs

variable {α : Type*} {p : α → Bool} {c : α}

variable (p c) in
/-- The runs of a string that goes on inside a run, or outside one. -/
def replaceRunsFrom : Bool → List α → List α
  | _, [] => []
  | inside, x :: xs =>
    if p x then
      if inside then replaceRunsFrom true xs else c :: replaceRunsFrom true xs
    else x :: replaceRunsFrom false xs

variable (p c) in
/-- Each maximal run of characters of `p` becomes one `c`. -/
def replaceRuns (xs : List α) : List α := replaceRunsFrom p c false xs

theorem replaceRunsFrom_cons_of_neg {x : α} (h : p x = false) (inside : Bool) (xs : List α) :
    replaceRunsFrom p c inside (x :: xs) = x :: replaceRunsFrom p c false xs := by
  simp only [replaceRunsFrom, h, Bool.false_eq_true, if_false]

theorem replaceRunsFrom_true_cons_of_pos {x : α} (h : p x = true) (xs : List α) :
    replaceRunsFrom p c true (x :: xs) = replaceRunsFrom p c true xs := by
  simp only [replaceRunsFrom, h, if_true]

theorem replaceRunsFrom_false_cons_of_pos {x : α} (h : p x = true) (xs : List α) :
    replaceRunsFrom p c false (x :: xs) = c :: replaceRunsFrom p c true xs := by
  simp only [replaceRunsFrom, h, if_true, Bool.false_eq_true, if_false]

theorem mem_replaceRunsFrom {y : α} {inside : Bool} {xs : List α}
    (h : y ∈ replaceRunsFrom p c inside xs) : y = c ∧ (∃ x ∈ xs, p x = true) ∨ y ∈ xs ∧ p y = false := by
  induction xs generalizing inside with
  | nil => cases h
  | cons x xs ih =>
      have htail : ∀ {inside}, y ∈ replaceRunsFrom p c inside xs →
          y = c ∧ (∃ x' ∈ x :: xs, p x' = true) ∨ y ∈ x :: xs ∧ p y = false := fun h => by
        rcases ih h with ⟨rfl, z, hz, hpz⟩ | ⟨hy, hpy⟩
        · exact .inl ⟨rfl, z, List.mem_cons_of_mem _ hz, hpz⟩
        · exact .inr ⟨List.mem_cons_of_mem _ hy, hpy⟩
      cases hx : p x with
      | false =>
          rw [replaceRunsFrom_cons_of_neg hx] at h
          rcases List.mem_cons.mp h with rfl | h
          · exact .inr ⟨List.mem_cons_self, hx⟩
          · exact htail h
      | true =>
          cases inside with
          | true =>
              rw [replaceRunsFrom_true_cons_of_pos hx] at h
              exact htail h
          | false =>
              rw [replaceRunsFrom_false_cons_of_pos hx] at h
              rcases List.mem_cons.mp h with rfl | h
              · exact .inl ⟨rfl, x, List.mem_cons_self, hx⟩
              · exact htail h

theorem mem_replaceRunsFrom_of_neg {y : α} (hy : p y = false) {inside : Bool} {xs : List α}
    (h : y ∈ xs) : y ∈ replaceRunsFrom p c inside xs := by
  induction xs generalizing inside with
  | nil => cases h
  | cons x xs ih =>
      cases hx : p x with
      | false =>
          rw [replaceRunsFrom_cons_of_neg hx]
          rcases List.mem_cons.mp h with rfl | h
          · exact List.mem_cons_self
          · exact List.mem_cons_of_mem _ (ih h)
      | true =>
          have hne : y ≠ x := fun h => by rw [h, hx] at hy; cases hy
          have hxs := (List.mem_cons.mp h).resolve_left hne
          cases inside with
          | true => rw [replaceRunsFrom_true_cons_of_pos hx]; exact ih hxs
          | false =>
              rw [replaceRunsFrom_false_cons_of_pos hx]
              exact List.mem_cons_of_mem _ (ih hxs)

/-- A character that is not of a run, and not the one runs become, is left exactly where it was. -/
theorem mem_replaceRuns_iff {y : α} (hy : p y = false) (hc : y ≠ c) {xs : List α} :
    y ∈ replaceRuns p c xs ↔ y ∈ xs := by
  constructor
  · intro h
    exact ((mem_replaceRunsFrom h).resolve_left fun h => hc h.1).1
  · exact mem_replaceRunsFrom_of_neg hy

theorem replaceRuns_eq_self {xs : List α} (h : ∀ x ∈ xs, p x = false) : replaceRuns p c xs = xs := by
  induction xs with
  | nil => rfl
  | cons x xs ih =>
      rw [replaceRuns, replaceRunsFrom_cons_of_neg (h x List.mem_cons_self), ← replaceRuns,
        ih fun y hy => h y (List.mem_cons_of_mem _ hy)]

/-- What goes on inside a run does not begin with a character of it. -/
theorem head?_replaceRunsFrom_true {x : α} {xs : List α}
    (h : (replaceRunsFrom p c true xs).head? = some x) : p x = false := by
  induction xs with
  | nil => cases h
  | cons y xs ih =>
      cases hy : p y with
      | false =>
          rw [replaceRunsFrom_cons_of_neg hy, List.head?_cons] at h
          cases h
          exact hy
      | true =>
          rw [replaceRunsFrom_true_cons_of_pos hy] at h
          exact ih h

theorem pair_infix_cons_iff {a b x : α} {xs : List α} :
    [a, b] <:+: x :: xs ↔ (a = x ∧ xs.head? = some b) ∨ [a, b] <:+: xs := by
  rw [List.infix_cons_iff, List.cons_prefix_cons]
  cases xs with
  | nil => simp
  | cons y xs => simp [List.cons_prefix_cons, eq_comm]

theorem no_pair_replaceRunsFrom (hc : p c = true) (inside : Bool) (xs : List α) :
    ¬ [c, c] <:+: replaceRunsFrom p c inside xs := by
  induction xs generalizing inside with
  | nil => simp [replaceRunsFrom]
  | cons x xs ih =>
      cases hx : p x with
      | false =>
          rw [replaceRunsFrom_cons_of_neg hx, pair_infix_cons_iff]
          rintro (⟨rfl, -⟩ | h)
          · rw [hc] at hx
            cases hx
          · exact ih false h
      | true =>
          cases inside with
          | true => rw [replaceRunsFrom_true_cons_of_pos hx]; exact ih true
          | false =>
              rw [replaceRunsFrom_false_cons_of_pos hx, pair_infix_cons_iff]
              rintro (⟨-, h⟩ | h)
              · have := head?_replaceRunsFrom_true h
                rw [hc] at this
                cases this
              · exact ih true h

/-- No two of the characters runs become stand together, if these are characters of runs. -/
theorem no_pair_replaceRuns (hc : p c = true) (xs : List α) : ¬ [c, c] <:+: replaceRuns p c xs :=
  no_pair_replaceRunsFrom hc false xs

/-- Where runs of `c` become `c`, a string is left as it is exactly when it has no longer run. -/
theorem replaceRuns_eq_self_iff (hp : ∀ x, p x = true ↔ x = c) {xs : List α} :
    replaceRuns p c xs = xs ↔ ¬ [c, c] <:+: xs := by
  constructor
  · intro h
    rw [← h]
    exact no_pair_replaceRuns ((hp c).mpr rfl) xs
  · suffices h : ∀ inside, (inside = true → xs.head? ≠ some c) → ¬ [c, c] <:+: xs →
        replaceRunsFrom p c inside xs = xs from h false (by simp)
    induction xs with
    | nil => intros; rfl
    | cons x xs ih =>
        intro inside hin h
        rw [pair_infix_cons_iff, not_or, not_and] at h
        cases hx : p x with
        | false =>
            rw [replaceRunsFrom_cons_of_neg hx, ih false (by simp) h.2]
        | true =>
            obtain rfl := (hp x).mp hx
            cases inside with
            | true => exact absurd rfl (hin rfl)
            | false =>
                rw [replaceRunsFrom_false_cons_of_pos hx, ih true (fun _ => h.1 rfl) h.2]

end Runs

/-! ### Both ends -/

section Strip

variable {α : Type} {p : α → Bool} {s : List α}

theorem stripWhere_infix_self (p : α → Bool) (s : List α) : stripWhere p s <:+: s := by
  have hback : stripWhere p s <+: s.dropWhile p := by
    have := (List.dropWhile_suffix p (l := (s.dropWhile p).reverse)).reverse
    rwa [List.reverse_reverse] at this
  exact hback.isInfix.trans (List.dropWhile_suffix p).isInfix

theorem mem_dropWhile {c : α} (h : c ∈ s) (hc : p c = false) : c ∈ s.dropWhile p := by
  rw [← List.takeWhile_append_dropWhile (p := p) (l := s)] at h
  refine (List.mem_append.mp h).resolve_left fun h => ?_
  have := List.mem_takeWhile_imp h
  rw [hc] at this
  cases this

/-- A character outside `p` is not taken away. -/
theorem mem_stripWhere {c : α} (h : c ∈ s) (hc : p c = false) : c ∈ stripWhere p s :=
  List.mem_reverse.mpr (mem_dropWhile (List.mem_reverse.mpr (mem_dropWhile h hc)) hc)

/-- Nothing is left exactly of the texts of characters of `p`. -/
theorem stripWhere_eq_nil_iff : stripWhere p s = [] ↔ ∀ c ∈ s, p c = true := by
  constructor
  · intro h c hc
    by_contra hneg
    have := mem_stripWhere hc (Bool.not_eq_true _ ▸ hneg)
    rw [h] at this
    cases this
  · intro h
    rw [stripWhere, List.dropWhile_eq_nil_iff.mpr h]
    rfl

/-- A text that begins and ends outside `p` is left as it is. -/
theorem stripWhere_eq_self (hfront : ∀ c, s.head? = some c → p c = false)
    (hback : ∀ c, s.getLast? = some c → p c = false) : stripWhere p s = s := by
  have hdrop : ∀ {t : List α}, (∀ c, t.head? = some c → p c = false) → t.dropWhile p = t := by
    intro t h
    cases t with
    | nil => rfl
    | cons c t => exact List.dropWhile_cons_of_neg (by simp [h c rfl])
  rw [stripWhere, hdrop hfront, hdrop (by rwa [List.head?_reverse]), List.reverse_reverse]

theorem stripWhere_append_of_all {pre : List α} (h : ∀ c ∈ pre, p c = true) (s : List α) :
    stripWhere p (pre ++ s) = stripWhere p s := by
  rw [stripWhere, List.dropWhile_append_of_pos h, ← stripWhere]

theorem head?_dropWhile {c : α} (h : (s.dropWhile p).head? = some c) : p c = false := by
  have := List.head?_dropWhile_not p s
  rw [h] at this
  simpa using this

theorem getLast?_stripWhere {c : α} (h : (stripWhere p s).getLast? = some c) : p c = false := by
  rw [stripWhere, List.getLast?_reverse] at h
  exact head?_dropWhile h

theorem head?_stripWhere {c : α} (h : (stripWhere p s).head? = some c) : p c = false := by
  have hback : stripWhere p s <+: s.dropWhile p := by
    have := (List.dropWhile_suffix p (l := (s.dropWhile p).reverse)).reverse
    rwa [List.reverse_reverse] at this
  obtain ⟨t, ht⟩ := hback
  apply head?_dropWhile (s := s)
  rw [← ht, List.head?_append, h]
  rfl

end Strip

end TalosP2P.Python
