import Mathlib.Order.Basic

/-!
# Support — Loop

A `while` loop whose body may fail, return, or go round again.  `turn` is the body: from a state
it raises an error, leaves the loop with a result (`done`), or hands the next state to the next
turn (`next`).  Nothing here forces a loop to end, so the loop is run with a bound on its turns
(`run`), and `Returns turn s r` says that some bound is enough for it to end with `r`.

* `Returns.unique`: a loop ends with at most one result, whatever the bound.
* `Returns.invariant`: what every turn keeps, the result of the loop reads.
* `run_map`, `Returns.map_iff`: two loops in lockstep.
* `Reads.returns_iff`: a loop that collects what it keeps of a list of items.
* `eval`: a loop whose turns decrease a measure, as a total function; `eval_eq_iff` reads it back as
  `Returns`.
-/

namespace TalosP2P.Loop

/-- What one turn of the body leaves behind. -/
inductive Turn (σ ρ : Type*) where
  | next (s : σ)
  | done (r : ρ)
  deriving DecidableEq, Repr

/-- A turn seen through maps of the state and of the result. -/
def Turn.map {σ ρ σ' ρ' : Type*} (f : σ → σ') (g : ρ → ρ') : Turn σ ρ → Turn σ' ρ'
  | .next s => .next (f s)
  | .done r => .done (g r)

variable {σ ρ ε : Type*} {turn : σ → Except ε (Turn σ ρ)}

/-- The loop from `s`, given up after `fuel` turns. -/
def run (turn : σ → Except ε (Turn σ ρ)) : Nat → σ → Option (Except ε ρ)
  | 0, _ => none
  | fuel + 1, s =>
    match turn s with
    | .error e => some (.error e)
    | .ok (.done r) => some (.ok r)
    | .ok (.next s') => run turn fuel s'

/-- The loop from `s` ends, with the result or the error `r`. -/
def Returns (turn : σ → Except ε (Turn σ ρ)) (s : σ) (r : Except ε ρ) : Prop :=
  ∃ fuel, run turn fuel s = some r

theorem run_next {s s' : σ} (h : turn s = .ok (.next s')) (fuel : Nat) :
    run turn (fuel + 1) s = run turn fuel s' := by
  simp only [run, h]

theorem run_done {s : σ} {r : ρ} (h : turn s = .ok (.done r)) (fuel : Nat) :
    run turn (fuel + 1) s = some (.ok r) := by
  simp only [run, h]

theorem run_error {s : σ} {e : ε} (h : turn s = .error e) (fuel : Nat) :
    run turn (fuel + 1) s = some (.error e) := by
  simp only [run, h]

/-- More fuel changes nothing once the loop has ended. -/
theorem run_mono {fuel k : Nat} (hle : fuel ≤ k) {s : σ} {r : Except ε ρ}
    (h : run turn fuel s = some r) : run turn k s = some r := by
  induction fuel generalizing s k with
  | zero => cases h
  | succ fuel ih =>
      obtain ⟨k, rfl⟩ : ∃ j, k = j + 1 := ⟨k - 1, by omega⟩
      cases ht : turn s with
      | error e => rw [run_error ht] at h ⊢; exact h
      | ok t =>
          cases t with
          | done r' => rw [run_done ht] at h ⊢; exact h
          | next s' =>
              rw [run_next ht] at h ⊢
              exact ih (Nat.le_of_succ_le_succ hle) h

/-- The states the loop passes through. -/
inductive Reaches (turn : σ → Except ε (Turn σ ρ)) : σ → σ → Prop where
  | refl (s : σ) : Reaches turn s s
  | next {s a b : σ} : Reaches turn s a → turn a = .ok (.next b) → Reaches turn s b

namespace Returns

theorem unique {s : σ} {r₁ r₂ : Except ε ρ} (h₁ : Returns turn s r₁) (h₂ : Returns turn s r₂) :
    r₁ = r₂ := by
  obtain ⟨n₁, h₁⟩ := h₁
  obtain ⟨n₂, h₂⟩ := h₂
  have h₁' := run_mono (Nat.le_max_left n₁ n₂) h₁
  have h₂' := run_mono (Nat.le_max_right n₁ n₂) h₂
  exact Option.some.inj (h₁'.symm.trans h₂')

theorem done {s : σ} {r : ρ} (h : turn s = .ok (.done r)) : Returns turn s (.ok r) :=
  ⟨1, run_done h 0⟩

theorem error {s : σ} {e : ε} (h : turn s = .error e) : Returns turn s (.error e) :=
  ⟨1, run_error h 0⟩

/-- A turn that goes round again hands the result over. -/
theorem next_iff {s s' : σ} {r : Except ε ρ} (h : turn s = .ok (.next s')) :
    Returns turn s r ↔ Returns turn s' r := by
  constructor
  · rintro ⟨fuel, hr⟩
    cases fuel with
    | zero => cases hr
    | succ fuel => exact ⟨fuel, by rwa [run_next h] at hr⟩
  · rintro ⟨fuel, hr⟩
    exact ⟨fuel + 1, by rwa [run_next h]⟩

/-- The rule for a loop's normal end: `P` holds at the start and every turn the loop takes keeps
it, so the turn that leaves the loop was taken from a state with `P`. -/
theorem invariant {P : σ → Prop} {s : σ} {r : ρ} (h : Returns turn s (.ok r)) (h₀ : P s)
    (hstep : ∀ a b, Reaches turn s a → P a → turn a = .ok (.next b) → P b) :
    ∃ a, Reaches turn s a ∧ P a ∧ turn a = .ok (.done r) := by
  suffices hgen : ∀ fuel a, Reaches turn s a → P a → run turn fuel a = some (.ok r) →
      ∃ a, Reaches turn s a ∧ P a ∧ turn a = .ok (.done r) by
    obtain ⟨fuel, h⟩ := h
    exact hgen fuel s (.refl s) h₀ h
  intro fuel
  induction fuel with
  | zero => intro a _ _ h; cases h
  | succ fuel ih =>
      intro a hr ha h
      cases ht : turn a with
      | error e => rw [run_error ht] at h; cases h
      | ok t =>
          cases t with
          | done r' =>
              rw [run_done ht] at h
              cases h
              exact ⟨a, hr, ha, ht⟩
          | next b =>
              rw [run_next ht] at h
              exact ih b (hr.next ht) (hstep a b hr ha ht) h

end Returns

/-- The first turn, and the states the loop passes through after it. -/
theorem Reaches.of_next {s s' b : σ} (h : turn s = .ok (.next s')) (hb : Reaches turn s b) :
    b = s ∨ Reaches turn s' b := by
  induction hb with
  | refl => exact .inl rfl
  | @next a b ha hab ih =>
      rcases ih with rfl | ih
      · rw [h] at hab
        cases hab
        exact .inr (.refl _)
      · exact .inr (ih.next hab)

theorem Reaches.of_done {s b : σ} {r : ρ} (h : turn s = .ok (.done r)) (hb : Reaches turn s b) :
    b = s := by
  induction hb with
  | refl => rfl
  | next ha hab ih =>
      rw [ih, h] at hab
      cases hab

/-! ### Loops in lockstep -/

section Lockstep

variable {σ' ρ' : Type*} {turn' : σ' → Except ε (Turn σ' ρ')} {f : σ → σ'} {g : ρ → ρ'}
  (hstep : ∀ s, turn' (f s) = (turn s).map (Turn.map f g))

include hstep

/-- When each turn of the second loop is the image of a turn of the first, so is every run. -/
theorem run_map (fuel : Nat) (s : σ) :
    run turn' fuel (f s) = (run turn fuel s).map (Except.map g) := by
  induction fuel generalizing s with
  | zero => rfl
  | succ fuel ih =>
      have ht' := hstep s
      cases ht : turn s with
      | error e =>
          rw [ht] at ht'
          rw [run_error ht, run_error ht']
          rfl
      | ok t =>
          rw [ht] at ht'
          cases t with
          | done r =>
              rw [run_done ht, run_done ht']
              rfl
          | next s' => rw [run_next ht, run_next ht', ih]

theorem Returns.map_iff {s : σ} {r' : Except ε ρ'} :
    Returns turn' (f s) r' ↔ ∃ r, Returns turn s r ∧ r.map g = r' := by
  simp only [Returns, run_map hstep, Option.map_eq_some_iff]
  constructor
  · rintro ⟨fuel, r, hr, he⟩
    exact ⟨r, ⟨fuel, hr⟩, he⟩
  · rintro ⟨r, ⟨fuel, hr⟩, he⟩
    exact ⟨fuel, r, hr, he⟩

theorem Reaches.map {s a : σ} (h : Reaches turn s a) : Reaches turn' (f s) (f a) := by
  induction h with
  | refl => exact .refl _
  | next _ hab ih => exact ih.next (by rw [hstep, hab]; rfl)

end Lockstep

/-! ### Loops that collect -/

section Collect

variable {π α β : Type*} {turn : π × List α → Except ε (Turn (π × List α) ρ)} {view : β → Option α}

/-- From the position `p` the loop reads the items one after the other and comes to `q`.  It goes
on with what it keeps of an item, and raises where it keeps nothing. -/
inductive Reads (turn : π × List α → Except ε (Turn (π × List α) ρ)) (view : β → Option α) :
    List β → π → π → Prop where
  | nil (p : π) : Reads turn view [] p p
  | cons {b : β} {bs : List β} {p p' q : π}
      (h : ∀ acc t, turn (p, acc) = .ok t ↔ ∃ a, view b = some a ∧ t = .next (p', acc ++ [a]))
      (hbs : Reads turn view bs p' q) : Reads turn view (b :: bs) p q

/-- A loop that reads items returns what it returns after them, with what it keeps of each. -/
theorem Reads.returns_iff {bs : List β} {p q : π} (h : Reads turn view bs p q) (acc : List α)
    (r : ρ) : Returns turn (p, acc) (.ok r) ↔
      ∃ as, bs.mapM view = some as ∧ Returns turn (q, acc ++ as) (.ok r) := by
  induction h generalizing acc with
  | nil p => simp
  | @cons b bs p p' q hturn _ ih =>
      rw [List.mapM_cons]
      cases hv : view b with
      | none =>
          -- Nothing is kept of the item, so the turn has raised and the loop returns nothing.
          constructor
          · intro h
            cases ht : turn (p, acc) with
            | error e => cases h.unique (Returns.error ht)
            | ok t =>
                obtain ⟨a, ha, -⟩ := (hturn acc t).mp ht
                rw [hv] at ha; cases ha
          · rintro ⟨as, has, -⟩; cases has
      | some a =>
          rw [Returns.next_iff ((hturn acc _).mpr ⟨a, hv, rfl⟩), ih]
          cases bs.mapM view with
          | none => simp
          | some as => simp

end Collect

/-! ### Loops that end -/

section Measure

variable (m : σ → Nat) (hm : ∀ s s', turn s = .ok (.next s') → m s' < m s)

include hm in
theorem run_isSome_of_decreasing (fuel : Nat) (s : σ) (h : m s < fuel) :
    (run turn fuel s).isSome := by
  induction fuel generalizing s with
  | zero => exact absurd h (Nat.not_lt_zero _)
  | succ fuel ih =>
      cases ht : turn s with
      | error e => rw [run_error ht]; rfl
      | ok t =>
          cases t with
          | done r => rw [run_done ht]; rfl
          | next s' =>
              rw [run_next ht]
              exact ih s' (Nat.lt_of_lt_of_le (hm s s' ht) (Nat.le_of_lt_succ h))

/-- A loop whose turns decrease `m`, as a function. -/
def eval (s : σ) : Except ε ρ :=
  (run turn (m s + 1) s).get (run_isSome_of_decreasing m hm (m s + 1) s (Nat.lt_succ_self _))

theorem eval_returns (s : σ) : Returns turn s (eval m hm s) :=
  ⟨m s + 1, (Option.some_get _).symm⟩

theorem eval_eq_iff {s : σ} {r : Except ε ρ} : eval m hm s = r ↔ Returns turn s r :=
  ⟨fun h => h ▸ eval_returns m hm s, fun h => (eval_returns m hm s).unique h⟩

end Measure

end TalosP2P.Loop
