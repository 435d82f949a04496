import Mathlib.Data.List.Induction

/-!
# Support — History

Histories of a system that takes one step after another: a step carries a label, and a history is
the list of the labels of its steps, the first step first.

* `Steps.invariant`: what holds at the start and is kept by every step holds at the end.
* `steps_iff_foldlM`: where the step is a function, a history is a fold.
* `Counted.add_rank_le`: the steps of a history that are not idle are bounded by a rank.
* `exists_steps_of_descent`: what can always be come nearer to can be come to.
-/

namespace TalosP2P.History

variable {State Label : Type*} {step : State → Label → State → Prop} {start : State}

/-- The labels lead from `start` to a state, one step each. -/
inductive Steps (step : State → Label → State → Prop) (start : State) :
    List Label → State → Prop where
  | nil : Steps step start [] start
  | snoc {labels : List Label} {s s' : State} {label : Label}
      (h : Steps step start labels s) (hs : step s label s') :
      Steps step start (labels ++ [label]) s'

/-- Some history leads to the state. -/
def Reachable (step : State → Label → State → Prop) (start s : State) : Prop :=
  ∃ labels, Steps step start labels s

/-- **The invariant rule.** -/
theorem Steps.invariant {I : State → Prop} (h₀ : I start)
    (hstep : ∀ s label s', I s → step s label s' → I s') {labels : List Label} {s : State}
    (h : Steps step start labels s) : I s := by
  induction h with
  | nil => exact h₀
  | snoc _ hs ih => exact hstep _ _ _ ih hs

theorem Reachable.invariant {I : State → Prop} (h₀ : I start)
    (hstep : ∀ s label s', I s → step s label s' → I s') {s : State}
    (h : Reachable step start s) : I s := by
  obtain ⟨labels, h⟩ := h
  exact h.invariant h₀ hstep

theorem Reachable.snoc {s s' : State} {label : Label} (h : Reachable step start s)
    (hs : step s label s') : Reachable step start s' := by
  obtain ⟨labels, h⟩ := h
  exact ⟨labels ++ [label], .snoc h hs⟩

/-- Where the step is a partial function, the history is its fold. -/
theorem steps_iff_foldlM {next : State → Label → Option State} {labels : List Label} {s : State} :
    Steps (fun s label s' => next s label = some s') start labels s ↔
      labels.foldlM next start = some s := by
  constructor
  · intro h
    induction h with
    | nil => rfl
    | snoc _ hs ih =>
        rw [List.foldlM_append, ih]
        simpa using hs
  · induction labels using List.reverseRecOn generalizing s with
    | nil =>
        intro h
        cases h
        exact .nil
    | append_singleton labels label ih =>
        intro h
        rw [List.foldlM_append] at h
        obtain ⟨s₁, h₁, h₂⟩ := Option.bind_eq_some_iff.mp h
        exact .snoc (ih h₁) (by simpa using h₂)

theorem Steps.cons {labels : List Label} {s₁ s : State} {label : Label}
    (hs : step start label s₁) (h : Steps step s₁ labels s) :
    Steps step start (label :: labels) s := by
  induction h with
  | nil => exact .snoc .nil hs
  | snoc _ hs' ih => exact .snoc ih hs'

/-! ### Rank -/

/-- A history in which `n` steps are not idle. -/
inductive Counted (step idle : State → Label → State → Prop) (start : State) :
    Nat → State → Prop where
  | nil : Counted step idle start 0 start
  | idle {n : Nat} {s s' : State} {label : Label} (h : Counted step idle start n s)
      (hs : step s label s') (hi : idle s label s') : Counted step idle start n s'
  | step {n : Nat} {s s' : State} {label : Label} (h : Counted step idle start n s)
      (hs : step s label s') (hi : ¬ idle s label s') : Counted step idle start (n + 1) s'

section

variable {idle : State → Label → State → Prop} {I : State → Prop}

theorem Counted.reachable {n : Nat} {s : State} (h : Counted step idle start n s) :
    Reachable step start s := by
  induction h with
  | nil => exact ⟨[], .nil⟩
  | idle _ hs _ ih | step _ hs _ ih =>
      obtain ⟨labels, ih⟩ := ih
      exact ⟨labels ++ [_], .snoc ih hs⟩

/-- A step, with the count of the steps that were not idle. -/
def counting (next : State → Label → Option State) (idle : State → Label → State → Prop)
    [∀ s l s', Decidable (idle s l s')] (k : Nat × State) (label : Label) : Option (Nat × State) :=
  (next k.2 label).map fun s' => (if idle k.2 label s' then k.1 else k.1 + 1, s')

theorem counted_of_foldlM {next : State → Label → Option State} [∀ s l s', Decidable (idle s l s')]
    {labels : List Label} {n : Nat} {s : State}
    (h : labels.foldlM (counting next idle) (0, start) = some (n, s)) :
    Counted (fun s label s' => next s label = some s') idle start n s := by
  induction labels using List.reverseRecOn generalizing n s with
  | nil =>
      cases h
      exact .nil
  | append_singleton labels label ih =>
      rw [List.foldlM_append] at h
      obtain ⟨⟨n₁, s₁⟩, h₁, h₂⟩ := Option.bind_eq_some_iff.mp h
      rw [List.foldlM_cons] at h₂
      obtain ⟨k, hk, hlast⟩ := Option.bind_eq_some_iff.mp h₂
      cases hlast
      obtain ⟨s', hnext, heq⟩ := Option.map_eq_some_iff.mp hk
      by_cases hidle : idle s₁ label s'
      · rw [if_pos hidle] at heq
        cases heq
        exact .idle (ih h₁) hnext hidle
      · rw [if_neg hidle] at heq
        cases heq
        exact .step (ih h₁) hnext hidle

/-- **The rank rule.**  A step that is not idle uses up some of the rank. -/
theorem Counted.add_rank_le {rank : State → Nat} (h₀ : I start)
    (hstep : ∀ s label s', I s → step s label s' →
      I s' ∧ (rank s' < rank s ∨ idle s label s' ∧ rank s' ≤ rank s))
    {n : Nat} {s : State} (h : Counted step idle start n s) : n + rank s ≤ rank start := by
  have hall : I s ∧ n + rank s ≤ rank start := by
    induction h with
    | nil => exact ⟨h₀, by omega⟩
    | idle _ hs _ ih =>
        obtain ⟨hi', hrank⟩ := hstep _ _ _ ih.1 hs
        exact ⟨hi', by omega⟩
    | step _ hs hidle ih =>
        obtain ⟨hi', hrank⟩ := hstep _ _ _ ih.1 hs
        rcases hrank with hlt | ⟨hidle', -⟩
        · exact ⟨hi', by omega⟩
        · exact absurd hidle' hidle
  exact hall.2

/-- **The descent rule.**  A step that is allowed can always be taken, and lowers the measure. -/
theorem exists_steps_of_descent {goal : State → Prop} {allowed : Label → Prop} (m : State → Nat)
    (hstep : ∀ s, I s → goal s ∨
      ∃ label s', allowed label ∧ step s label s' ∧ I s' ∧ m s' < m s)
    {s : State} (hs : I s) :
    ∃ labels s', Steps step s labels s' ∧ (∀ label ∈ labels, allowed label) ∧ goal s' := by
  induction hm : m s using Nat.strongRecOn generalizing s with
  | ind n ih =>
      rcases hstep s hs with hgoal | ⟨label, s₁, hlabel, hs₁, hi, hlt⟩
      · exact ⟨[], s, .nil, by simp, hgoal⟩
      · obtain ⟨labels, s', h, hlabels, hgoal⟩ := ih (m s₁) (hm ▸ hlt) hi rfl
        exact ⟨label :: labels, s', .cons hs₁ h, List.forall_mem_cons.mpr ⟨hlabel, hlabels⟩, hgoal⟩

end

end TalosP2P.History
