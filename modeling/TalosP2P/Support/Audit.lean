import Mathlib.Data.List.Basic

/-!
# Support — Audit

A check that goes on after an error.  An `Audit` is a value and the errors found on the way to it;
one check after another collects the errors of both.

* `errors_bind_eq_nil_iff`: a sequence of checks finds nothing exactly when none of them does.
* `errors_mapM_eq_nil_iff`, `errors_forM_eq_nil_iff`: the same of a check of every item of a list.
-/

namespace TalosP2P

/-- A value and the errors found on the way to it. -/
structure Audit (α : Type) where
  errors : List String
  value : α

namespace Audit

variable {α β γ : Type}

/-- `errors.append(message)`. -/
def error (message : String) : Audit Unit := ⟨[message], ()⟩

instance : Monad Audit where
  pure a := ⟨[], a⟩
  bind x f := ⟨x.errors ++ (f x.value).errors, (f x.value).value⟩

@[simp]
theorem errors_pure (a : α) : (pure a : Audit α).errors = [] := rfl

@[simp]
theorem value_pure (a : α) : (pure a : Audit α).value = a := rfl

@[simp]
theorem value_bind (x : Audit α) (f : α → Audit β) : (x >>= f).value = (f x.value).value := rfl

@[simp]
theorem errors_error (message : String) : (error message).errors ≠ [] := List.cons_ne_nil _ _

/-- Nothing is found by the one check, and nothing by the next. -/
@[simp]
theorem errors_bind_eq_nil_iff {x : Audit α} {f : α → Audit β} :
    (x >>= f).errors = [] ↔ x.errors = [] ∧ (f x.value).errors = [] :=
  List.append_eq_nil_iff

/-- `if P: errors.append(message)`. -/
def errorIf (P : Prop) [Decidable P] (message : String) : Audit Unit :=
  if P then error message else pure ()

@[simp]
theorem errors_errorIf_eq_nil_iff {P : Prop} [Decidable P] {message : String} :
    (errorIf P message).errors = [] ↔ ¬ P := by
  by_cases h : P <;> simp [errorIf, h]

instance : LawfulMonad Audit := by
  refine LawfulMonad.mk' Audit (fun x => ?_) (fun a f => ?_) (fun x f g => ?_)
  · simp [Functor.map]
  · simp [bind, pure]
  · simp [bind, List.append_assoc]

@[simp]
theorem errors_map (f : α → β) (x : Audit α) : (f <$> x).errors = x.errors :=
  List.append_nil x.errors

@[simp]
theorem value_map (f : α → β) (x : Audit α) : (f <$> x).value = f x.value := rfl

/-! ### Every item of a list -/

theorem errors_forM_eq_nil_iff {f : γ → Audit PUnit} {l : List γ} :
    (forM l f).errors = [] ↔ ∀ a ∈ l, (f a).errors = [] := by
  induction l with
  | nil => simp
  | cons a l ih =>
      rw [List.forM_cons, errors_bind_eq_nil_iff, List.forall_mem_cons]
      exact and_congr_right fun _ => ih

theorem errors_mapM_eq_nil_iff {f : γ → Audit β} {l : List γ} :
    (l.mapM f).errors = [] ↔ ∀ a ∈ l, (f a).errors = [] := by
  induction l with
  | nil => simp
  | cons a l ih => rw [List.mapM_cons, List.forall_mem_cons, ← ih]; simp

theorem value_mapM (f : γ → Audit β) (l : List γ) :
    (l.mapM f).value = l.map fun a => (f a).value := by
  induction l with
  | nil => simp
  | cons a l ih => rw [List.mapM_cons, List.map_cons, ← ih]; simp

end Audit

end TalosP2P
