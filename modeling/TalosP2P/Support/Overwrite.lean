import Mathlib.Data.List.Induction
import Mathlib.Logic.Function.Basic

/-!
# Support — Overwrite

A store written to in order: each element that is written goes under its key and replaces what was
there.

* `overwrite_apply`: under a key, the store holds the last element of that key, else what it held.
-/

namespace TalosP2P

variable {α κ β : Type*} [DecidableEq κ] {p : α → Prop} [DecidablePred p] {key : α → κ} {val : α → β}

variable (p key val) in
/-- The store after the elements of `xs` that `p` selects are written in order. -/
def overwrite (store : κ → Option β) (xs : List α) : κ → Option β :=
  xs.foldl (fun store x => if p x then Function.update store (key x) (some (val x)) else store) store

@[simp]
theorem overwrite_nil (store : κ → Option β) : overwrite p key val store [] = store := rfl

theorem overwrite_cons (store : κ → Option β) (x : α) (xs : List α) :
    overwrite p key val store (x :: xs) = overwrite p key val
      (if p x then Function.update store (key x) (some (val x)) else store) xs := rfl

theorem overwrite_concat (store : κ → Option β) (xs : List α) (x : α) :
    overwrite p key val store (xs ++ [x]) =
      if p x then Function.update (overwrite p key val store xs) (key x) (some (val x))
      else overwrite p key val store xs := by
  rw [overwrite, List.foldl_append]
  rfl

/-- **Last wins**, for a key under which every element is written. -/
theorem overwrite_apply {k : κ} (hk : ∀ x, key x = k → p x) (store : κ → Option β) (xs : List α) :
    overwrite p key val store xs k =
      ((xs.filter fun x => key x = k).getLast?.map val).or (store k) := by
  induction xs using List.reverseRecOn with
  | nil => rfl
  | append_singleton xs x ih =>
      rw [overwrite_concat, List.filter_append, List.getLast?_append]
      by_cases hx : key x = k
      · rw [if_pos (hk x hx), hx, Function.update_self]
        simp [hx]
      · have hfilter : ([x].filter fun x => key x = k) = [] := by simp [hx]
        have hne : k ≠ key x := fun h => hx h.symm
        rw [hfilter, List.getLast?_nil, Option.none_or, ← ih]
        split
        · rw [Function.update_of_ne hne]
        · rfl

end TalosP2P
