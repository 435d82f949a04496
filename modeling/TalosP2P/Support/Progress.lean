import Mathlib.Data.Set.Finite.Basic
import Mathlib.Logic.Relation
import TalosP2P.Support.Loop

/-!
# Support — Progress

When a loop ends, told by the part of its state that decides whether it goes round again.  `Keyed`
says which part that is and which value of it follows which; the rest of the state may grow without
bound.  Where only finitely many values have a successor, the loop ends exactly when no value it
comes to leads back to itself.

* `Keyed.not_returns_of_cycle`: a loop that comes to a cycle never ends, whatever the bound.
* `Keyed.exists_returns_iff`: it ends exactly when it comes to none.
-/

namespace TalosP2P.Loop

open Relation

variable {σ ρ ε κ : Type*}

/-- The loop goes round again from `s` to a state with key `k` exactly when `k` follows the key
of `s`. -/
structure Keyed (turn : σ → Except ε (Turn σ ρ)) (key : σ → κ) (follows : κ → κ → Prop) : Prop where
  next_iff : ∀ s k, follows (key s) k ↔ ∃ s', turn s = .ok (.next s') ∧ key s' = k

/-- Nothing that is come to from `k` leads back to itself. -/
def Acyclic (follows : κ → κ → Prop) (k : κ) : Prop :=
  ∀ j, ReflTransGen follows k j → ¬ TransGen follows j j

/-- Where every step moves a measure up, nothing leads back. -/
theorem Acyclic.of_increasing {follows : κ → κ → Prop} {k : κ} (m : κ → Int)
    (h : ∀ a b, ReflTransGen follows k a → follows a b → m a < m b) : Acyclic follows k := by
  intro j hj hcycle
  have hlt : ∀ i, TransGen follows j i → ReflTransGen follows k i ∧ m j < m i := by
    intro i hi
    induction hi with
    | single hab => exact ⟨hj.tail hab, h _ _ hj hab⟩
    | tail _ hab ih => exact ⟨ih.1.tail hab, ih.2.trans (h _ _ ih.1 hab)⟩
  exact lt_irrefl _ (hlt j hcycle).2

/-- Without a cycle, and with finitely many keys that have a successor, every chain ends. -/
theorem Acyclic.acc {follows : κ → κ → Prop} {k : κ} (h : Acyclic follows k)
    (hfin : {k | ∃ k', follows k k'}.Finite) : Acc (fun k' k => follows k k') k := by
  let X := {j : κ // (∃ j', follows j j') ∧ ReflTransGen follows k j}
  have : Finite X := (hfin.subset fun j (hj : _ ∧ ReflTransGen follows k j) => hj.1).to_subtype
  have htrans : IsTrans X fun b a => TransGen follows a.1 b.1 := ⟨fun _ _ _ hba hcb => hcb.trans hba⟩
  have hirrefl : Std.Irrefl fun b a : X => TransGen follows a.1 b.1 := ⟨fun a => h a.1 a.2.2⟩
  have hwf : WellFounded fun b a : X => TransGen follows a.1 b.1 :=
    Finite.wellFounded_of_trans_of_irrefl _
  have hX : ∀ x : X, Acc (fun k' k => follows k k') x.1 := by
    intro x
    induction x using hwf.induction with
    | _ x ih =>
        refine ⟨_, fun j hxj => ?_⟩
        by_cases hj : ∃ j', follows j j'
        · exact ih ⟨j, hj, x.2.2.tail hxj⟩ (.single hxj)
        · exact ⟨_, fun j' hjj' => absurd ⟨j', hjj'⟩ hj⟩
  by_cases hk : ∃ k', follows k k'
  · exact hX ⟨k, hk, .refl⟩
  · exact ⟨_, fun k' hkk' => absurd ⟨k', hkk'⟩ hk⟩

namespace Keyed

variable {turn : σ → Except ε (Turn σ ρ)} {key : σ → κ} {follows : κ → κ → Prop}
  (hk : Keyed turn key follows)

include hk

theorem run_eq_none_of_cycle {j : κ} (hcycle : TransGen follows j j) (fuel : Nat) (s : σ)
    (hs : ReflTransGen follows (key s) j) : run turn fuel s = none := by
  induction fuel generalizing s with
  | zero => rfl
  | succ fuel ih =>
      -- The cycle is still ahead of the state the loop goes on to.
      obtain ⟨k, hsk, hkj⟩ : ∃ k, follows (key s) k ∧ ReflTransGen follows k j := by
        rcases hs.cases_head with rfl | h
        · exact TransGen.head'_iff.mp hcycle
        · exact h
      obtain ⟨s', ht, rfl⟩ := (hk.next_iff s k).mp hsk
      rw [run_next ht]
      exact ih s' hkj

theorem not_returns_of_cycle {j : κ} (hcycle : TransGen follows j j) {s : σ}
    (hs : ReflTransGen follows (key s) j) : ¬ ∃ r, Returns turn s r := by
  rintro ⟨r, fuel, h⟩
  rw [hk.run_eq_none_of_cycle hcycle fuel s hs] at h
  cases h

/-- A loop ends from a state below whose key every chain of keys ends. -/
theorem exists_returns_of_acc {k : κ} (hacc : Acc (fun k' k => follows k k') k) (s : σ)
    (hs : key s = k) : ∃ r, Returns turn s r := by
  induction hacc generalizing s with
  | intro k _ ih =>
      subst hs
      cases ht : turn s with
      | error e => exact ⟨_, Returns.error ht⟩
      | ok t =>
          cases t with
          | done r => exact ⟨_, Returns.done ht⟩
          | next s' =>
              obtain ⟨r, hr⟩ := ih (key s') ((hk.next_iff s _).mpr ⟨s', ht, rfl⟩) s' rfl
              exact ⟨r, (Returns.next_iff ht).mpr hr⟩

/-- **A loop with finitely many keys** ends exactly when no key it comes to leads back to
itself. -/
theorem exists_returns_iff (hfin : {k | ∃ k', follows k k'}.Finite) (s : σ) :
    (∃ r, Returns turn s r) ↔ Acyclic follows (key s) := by
  constructor
  · intro h j hj hcycle
    exact hk.not_returns_of_cycle hcycle hj h
  · intro hacyclic
    exact hk.exists_returns_of_acc (hacyclic.acc hfin) s rfl

end Keyed

end TalosP2P.Loop
