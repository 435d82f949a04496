import Mathlib.Algebra.BigOperators.Pi
import Mathlib.Algebra.Order.BigOperators.Group.Finset

/-!
# Support — Supervision

Child processes under one wait group and one context that can be cancelled.  Each command is run by
a task of its own: the task is counted, launches the command, waits for it, and is discounted; its
last act is to cancel the context.  The tasks advance in any order.

A cancelled context launches nothing, and to cancel it interrupts what runs.

* `Step.sound`: one step of any task keeps the invariant `Sound`.
* `Sound.counter_nonneg`, `Sound.not_running`: the counter is never negative, and at zero nothing
  runs.
* `Step.not_running`: what does not run when the context is cancelled never runs again.
-/

namespace TalosP2P.Supervision

/-- How far the task of a command is. -/
inductive Stage where
  | absent
  /-- The wait group counts the task. -/
  | added
  /-- The task has started, its command has not. -/
  | spawned
  /-- The process runs, and may have been sent an interrupt. -/
  | running (interrupted : Bool)
  /-- The process has exited, and the task still waits for it. -/
  | exited
  /-- The task has its command behind it. -/
  | returned
  /-- The wait group counts the task no more. -/
  | settled
  | ended
  deriving DecidableEq, Repr

/-- Whether the wait group counts the task. -/
def Stage.owes : Stage → Int
  | .absent | .settled | .ended => 0
  | .added | .spawned | .running _ | .exited | .returned => 1

def Stage.interrupt : Stage → Stage
  | .running _ => .running true
  | t => t

def Stage.IsRunning (t : Stage) : Prop := ∃ interrupted, t = .running interrupted

/-- The ways of a task before its last act, and what it adds to the counter. -/
inductive Stage.Moves (cancelled : Bool) : Stage → Stage → Int → Prop where
  | add : Moves cancelled .absent .added 1
  | spawn : Moves cancelled .added .spawned 0
  | launch (h : cancelled = false) : Moves cancelled .spawned (.running false) 0
  | fail : Moves cancelled .spawned .returned 0
  | exit {interrupted : Bool} : Moves cancelled (.running interrupted) .exited 0
  | return_ : Moves cancelled .exited .returned 0
  | settle : Moves cancelled .returned .settled (-1)

section

variable {t t' : Stage} {cancelled : Bool} {counted : Int}

theorem Stage.owes_nonneg (t : Stage) : 0 ≤ t.owes := by
  cases t <;> simp [Stage.owes]

theorem Stage.IsRunning.owes (h : t.IsRunning) : t.owes = 1 := by
  obtain ⟨interrupted, rfl⟩ := h
  rfl

theorem Stage.owes_interrupt (t : Stage) : t.interrupt.owes = t.owes := by
  cases t <;> rfl

theorem Stage.isRunning_interrupt (h : t.interrupt.IsRunning) :
    t.IsRunning ∧ t.interrupt = .running true := by
  obtain ⟨interrupted, h⟩ := h
  cases t with
  | running i => exact ⟨⟨i, rfl⟩, rfl⟩
  | _ => cases h

theorem Stage.interrupt_of_not_running (h : ¬ t.IsRunning) : t.interrupt = t := by
  cases t with
  | running i => exact absurd ⟨i, rfl⟩ h
  | _ => rfl

theorem Stage.Moves.owes (h : t.Moves cancelled t' counted) : t'.owes = t.owes + counted := by
  cases h <;> rfl

theorem Stage.Moves.ne_ended (h : t.Moves cancelled t' counted) : t' ≠ .ended := by
  cases h <;> simp

/-- A command is launched where the context is not cancelled. -/
theorem Stage.Moves.not_running (h : t.Moves true t' counted) : ¬ t'.IsRunning := by
  rintro ⟨interrupted, rfl⟩
  cases h with
  | launch h => cases h

end

/-- The wait group, the context and the tasks. -/
structure Supervisor (Command : Type*) where
  counter : Int
  cancelled : Bool
  stage : Command → Stage

variable {Command : Type*}

/-- Nothing has been run. -/
def Supervisor.empty : Supervisor Command := ⟨0, false, fun _ => .absent⟩

/-- The context is cancelled, for good. -/
def Supervisor.cancel (g : Supervisor Command) : Supervisor Command :=
  if g.cancelled then g else { g with cancelled := true, stage := fun c => (g.stage c).interrupt }

theorem Supervisor.cancelled_cancel (g : Supervisor Command) : g.cancel.cancelled = true := by
  rw [cancel]
  split
  · assumption
  · rfl

theorem Supervisor.stage_cancel {g : Supervisor Command} {c : Command}
    (h : ¬ (g.stage c).IsRunning) : g.cancel.stage c = g.stage c := by
  rw [cancel]
  split
  · rfl
  · exact Stage.interrupt_of_not_running h

theorem Supervisor.stage_cancel_eq_added {g : Supervisor Command} {c : Command} :
    g.cancel.stage c = .added ↔ g.stage c = .added := by
  rw [cancel]
  split
  · exact Iff.rfl
  · cases hstage : g.stage c <;> simp [Stage.interrupt, hstage]

/-! ### The invariant -/

section

variable [Fintype Command] {g : Supervisor Command}

/-- What holds of a group at any time. -/
structure Sound (g : Supervisor Command) : Prop where
  counter : g.counter = ∑ c, (g.stage c).owes
  ended : ∀ c, g.stage c = .ended → g.cancelled = true
  interrupted : g.cancelled = true → ∀ c, (g.stage c).IsRunning → g.stage c = .running true

theorem sound_empty : Sound (Supervisor.empty : Supervisor Command) where
  counter := by simp [Supervisor.empty, Stage.owes]
  ended := by
    intro c h
    cases h
  interrupted := by
    intro h
    cases h

/-- Cancelling the context interrupts what runs. -/
theorem sound_cancel (hcounter : g.counter = ∑ c, (g.stage c).owes)
    (hinterrupted : g.cancelled = true → ∀ c, (g.stage c).IsRunning → g.stage c = .running true) :
    Sound g.cancel := by
  by_cases hc : g.cancelled = true
  · rw [Supervisor.cancel, if_pos hc]
    exact ⟨hcounter, fun _ _ => hc, hinterrupted⟩
  · rw [Supervisor.cancel, if_neg hc]
    refine ⟨?_, fun _ _ => rfl, fun _ c hrun => (Stage.isRunning_interrupt hrun).2⟩
    simp only [Stage.owes_interrupt]
    exact hcounter

theorem Sound.counter_nonneg (hs : Sound g) : 0 ≤ g.counter := by
  rw [hs.counter]
  exact Finset.sum_nonneg fun c _ => Stage.owes_nonneg _

/-- At zero nothing runs. -/
theorem Sound.not_running (hs : Sound g) (h : g.counter = 0) (c : Command) :
    ¬ (g.stage c).IsRunning := by
  intro hrun
  have hzero := (Finset.sum_eq_zero_iff_of_nonneg fun c _ => Stage.owes_nonneg (g.stage c)).mp
    (hs.counter.symm.trans h) c (Finset.mem_univ c)
  rw [hrun.owes] at hzero
  cases hzero

end

/-! ### The steps -/

section

variable [DecidableEq Command]

/-- A task comes to another stage. -/
def Supervisor.move (g : Supervisor Command) (c : Command) (t : Stage) (counted : Int) :
    Supervisor Command :=
  { g with counter := g.counter + counted, stage := Function.update g.stage c t }

theorem Supervisor.stage_move_self (g : Supervisor Command) (c : Command) (t : Stage)
    (counted : Int) : (g.move c t counted).stage c = t := Function.update_self ..

theorem Supervisor.stage_move_of_ne (g : Supervisor Command) {c c' : Command} (t : Stage)
    (counted : Int) (h : c' ≠ c) : (g.move c t counted).stage c' = g.stage c' :=
  Function.update_of_ne h ..

/-- A step of one task, or the end of the context. -/
inductive Step : Supervisor Command → Supervisor Command → Prop where
  | move {g : Supervisor Command} {c : Command} {t : Stage} {counted : Int}
      (h : (g.stage c).Moves g.cancelled t counted) : Step g (g.move c t counted)
  | finish {g : Supervisor Command} {c : Command} (h : g.stage c = .settled) :
      Step g (g.move c .ended 0).cancel
  | cancel {g : Supervisor Command} : Step g g.cancel

variable {g g' : Supervisor Command}

/-- What does not run in a cancelled context is not launched by a step. -/
theorem Step.not_running (h : Step g g') (hc : g.cancelled = true) {c : Command}
    (hrun : ¬ (g.stage c).IsRunning) : g'.cancelled = true ∧ ¬ (g'.stage c).IsRunning := by
  cases h with
  | @move c' t counted h =>
      refine ⟨hc, ?_⟩
      rw [hc] at h
      by_cases he : c = c'
      · subst he
        rw [Supervisor.stage_move_self]
        exact h.not_running
      · rw [Supervisor.stage_move_of_ne _ _ _ he]
        exact hrun
  | @finish c' h =>
      refine ⟨Supervisor.cancelled_cancel _, ?_⟩
      rw [Supervisor.cancel, if_pos (by exact hc)]
      by_cases he : c = c'
      · subst he
        rw [Supervisor.stage_move_self]
        rintro ⟨interrupted, hr⟩
        cases hr
      · rw [Supervisor.stage_move_of_ne _ _ _ he]
        exact hrun
  | cancel =>
      refine ⟨Supervisor.cancelled_cancel _, ?_⟩
      rwa [Supervisor.cancel, if_pos hc]

/-- The counter moves with the task. -/
theorem counter_move [Fintype Command] {c : Command} {t : Stage} {counted : Int}
    (hg : g.counter = ∑ c, (g.stage c).owes) (ht : t.owes = (g.stage c).owes + counted) :
    (g.move c t counted).counter = ∑ c', ((g.move c t counted).stage c').owes := by
  have hrest : ∀ c' ∈ Finset.univ.erase c, ((g.move c t counted).stage c').owes =
      (g.stage c').owes := fun c' hc' => by
    rw [Supervisor.stage_move_of_ne _ _ _ (Finset.ne_of_mem_erase hc')]
  have hcounter : (g.move c t counted).counter = g.counter + counted := rfl
  rw [← Finset.add_sum_erase Finset.univ _ (Finset.mem_univ c), Supervisor.stage_move_self,
    Finset.sum_congr rfl hrest, ht, hcounter, hg,
    ← Finset.add_sum_erase Finset.univ (fun c => (g.stage c).owes) (Finset.mem_univ c)]
  omega

/-- **One step.** -/
theorem Step.sound [Fintype Command] (h : Step g g') (hs : Sound g) : Sound g' := by
  cases h with
  | @move c t counted h =>
      refine ⟨counter_move hs.counter h.owes, fun c' hended => ?_, fun hc c' hrun => ?_⟩
      · by_cases he : c' = c
        · subst he
          rw [Supervisor.stage_move_self] at hended
          exact absurd hended h.ne_ended
        · rw [Supervisor.stage_move_of_ne _ _ _ he] at hended
          exact hs.ended c' hended
      · by_cases he : c' = c
        · subst he
          rw [Supervisor.stage_move_self] at hrun
          replace hc : g.cancelled = true := hc
          rw [hc] at h
          exact absurd hrun h.not_running
        · rw [Supervisor.stage_move_of_ne _ _ _ he] at hrun ⊢
          exact hs.interrupted hc c' hrun
  | @finish c h =>
      refine sound_cancel (counter_move hs.counter (by rw [h]; rfl)) fun hc c' hrun => ?_
      by_cases he : c' = c
      · subst he
        rw [Supervisor.stage_move_self] at hrun
        obtain ⟨interrupted, hr⟩ := hrun
        cases hr
      · rw [Supervisor.stage_move_of_ne _ _ _ he] at hrun ⊢
        exact hs.interrupted hc c' hrun
  | cancel => exact sound_cancel hs.counter hs.interrupted

end

end TalosP2P.Supervision
