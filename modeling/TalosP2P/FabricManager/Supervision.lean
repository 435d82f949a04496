import TalosP2P.FabricManager.Wrapper
import TalosP2P.Support.History

/-!
# FabricManager — Supervision

What holds of the wrapper in any order of its actions.  An action of a thread, a process or a signal
is a step of the supervised commands or does not touch them, so what holds of these in general holds
of the wrapper; what is its own is that `main` counts each command once, before it runs it, and
leaves when the counter is zero.

* `simulates`: every action is a step of the supervised commands, or none.
* `inv_next`: the invariant.
* `supervised`: the counter is never negative, `main` does not leave a process behind, a command
  that ends interrupts the others, and nothing is launched after that.
-/

namespace TalosP2P.FabricManager

open Supervision History

/-- The actions of the wrapper. -/
abbrev Next (s : State) (act : Act) (s' : State) : Prop := next s act = some s'

/-- The stage of a command that `main` has still to run. -/
def MainPc.holds : MainPc → Command → Option Stage
  | .goRun .nvlsm, .nvlsm | .goRun .fabricManager, .fabricManager => some .added
  | .goRun .fabricManager, .nvlsm | .wgAdd .fabricManager, .nvlsm | .select, .nvlsm | .stat, .nvlsm
  | .pause, .nvlsm | .sleep _, .nvlsm | .wait, _ | .returned, _ => none
  | _, _ => some .absent

/-! ### What an action does -/

/-- The effect of an action on `main` and on the commands. -/
inductive Effect (s s' : State) : Prop where
  | quiet (hholds : ∀ c t, s'.main.holds c = some t → s.main.holds c = some t)
      (hreturned : s'.main = .returned → s.main = .returned ∨ s.commands.counter = 0)
      (hcommands : s'.commands = s.commands)
  | add (c : Command) (hmain : s.main = .wgAdd c) (hmain' : s'.main = .goRun c)
      (hcommands : s'.commands = s.commands.move c .added 1)
  | spawn (c : Command) (hmain : s.main = .goRun c) (hmain' : s'.main ≠ .returned)
      (hholds : ∀ c' t, s'.main.holds c' = some t → c' ≠ c ∧ s.main.holds c' = some t)
      (hcommands : s'.commands = s.commands.move c .spawned 0)
  | advance (c : Command) (t : Stage) (counted : Int) (hmain : s'.main = s.main)
      (hmoves : (s.commands.stage c).Moves s.commands.cancelled t counted)
      (hstarted : s.commands.stage c ≠ .absent ∧ s.commands.stage c ≠ .added)
      (hreturned : s.main = .returned → ¬ t.IsRunning)
      (hcommands : s'.commands = s.commands.move c t counted)
  | finish (c : Command) (hmain : s'.main = s.main) (hreturned : s.main ≠ .returned)
      (hsettled : s.commands.stage c = .settled)
      (hcommands : s'.commands = (s.commands.move c .ended 0).cancel)
  | cancel (hmain : s'.main = s.main) (hreturned : s.main ≠ .returned)
      (hcommands : s'.commands = s.commands.cancel)

section

variable {s s' : State} {act : Act} {answer launches : Bool} {c : Command}

theorem State.alive_iff : s.alive = true ↔ s.main ≠ .returned ∧ s.killed = false := by
  simp [State.alive]

theorem effect_of_mainNext (h : mainNext s answer = some s') : Effect s s' := by
  -- an action that goes from one point of `main` to another, and touches nothing else
  have quiet : ∀ p p' : MainPc, s.main = p → p' ≠ .returned →
      (∀ c, p'.holds c = none ∨ p'.holds c = p.holds c) →
      s'.main = p' → s'.commands = s.commands → Effect s s' := by
    rintro p p' hp hp' hholds hmain hcommands
    refine .quiet (fun c t ht => ?_) (fun hr => absurd (hmain.symm.trans hr) hp') hcommands
    rw [hmain] at ht
    rw [hp]
    rcases hholds c with hnone | heq
    · cases hnone.symm.trans ht
    · exact heq ▸ ht
  rw [mainNext] at h
  split at h
  case h_1 hmain =>
    cases Option.some.inj h
    exact quiet _ (.notify .terminate) hmain (by simp) (by decide) rfl rfl
  case h_2 hmain =>
    cases Option.some.inj h
    exact quiet _ .goHandler hmain (by simp) (by decide) rfl rfl
  case h_3 hmain =>
    cases Option.some.inj h
    exact quiet _ .findNvswitchMgmtPort hmain (by simp) (by decide) rfl rfl
  case h_4 hmain =>
    cases Option.some.inj h
    cases answer with
    | true => exact quiet _ (.wgAdd .nvlsm) hmain (by simp) (by decide) rfl rfl
    | false => exact quiet _ (.wgAdd .fabricManager) hmain (by simp) (by decide) rfl rfl
  case h_5 command hmain =>
    cases Option.some.inj h
    exact .add command hmain rfl rfl
  case h_6 hmain =>
    cases Option.some.inj h
    refine .spawn .nvlsm hmain (by simp) (fun c' t ht => ?_) rfl
    rw [hmain]
    cases c' with
    | nvlsm => cases ht
    | fabricManager => exact ⟨by simp, ht⟩
  case h_7 hmain =>
    cases Option.some.inj h
    exact .spawn .fabricManager hmain (by simp) (fun c' t ht => by cases ht) rfl
  case h_8 hmain =>
    have hgoes : s'.main = .stat ∨ ∃ waited, s'.main = .sleep waited := by
      rw [← Option.some.inj h]
      dsimp only
      split <;> simp
    have hcommands : s'.commands = s.commands := by rw [← Option.some.inj h]
    rcases hgoes with hmain' | ⟨waited, hmain'⟩
    · exact quiet _ .stat hmain (by simp) (by decide) hmain' hcommands
    · exact quiet _ _ hmain (by simp) (by cases waited <;> decide) hmain' hcommands
  case h_9 hmain =>
    cases Option.some.inj h
    cases answer with
    | true => exact quiet _ (.sleep .found) hmain (by simp) (by decide) rfl rfl
    | false => exact quiet _ .pause hmain (by simp) (by decide) rfl rfl
  case h_10 hmain =>
    cases Option.some.inj h
    exact quiet _ .select hmain (by simp) (by decide) rfl rfl
  case h_11 waited hmain =>
    cases Option.some.inj h
    exact quiet _ (.wgAdd .fabricManager) hmain (by simp) (by cases waited <;> decide) rfl rfl
  case h_12 hmain =>
    split at h
    · rename_i hcounter
      cases Option.some.inj h
      exact .quiet (fun c t ht => by cases ht) (fun _ => .inr hcounter) rfl
    · cases h
  case h_13 hmain => cases h

theorem effect_of_handlerNext (hne : s.main ≠ .returned) (h : handlerNext s = some s') :
    Effect s s' := by
  have quiet : s'.main = s.main → s'.commands = s.commands → Effect s s' := fun hm hc =>
    .quiet (fun c t ht => hm ▸ ht) (fun hr => .inl (hm ▸ hr)) hc
  rw [handlerNext] at h
  split at h
  · cases h
  · obtain ⟨signal, -, rfl⟩ := Option.map_eq_some_iff.mp h
    exact quiet rfl rfl
  · cases Option.some.inj h
    exact quiet rfl rfl
  · cases Option.some.inj h
    exact .cancel rfl hne rfl
  · cases h

theorem effect_of_runCommandNext (hne : s.main ≠ .returned)
    (h : runCommandNext s c launches = some s') : Effect s s' := by
  have advance : ∀ t t' counted, s.commands.stage c = t → t ≠ .absent ∧ t ≠ .added →
      t.Moves s.commands.cancelled t' counted → s'.main = s.main →
      s'.commands = s.commands.move c t' counted → Effect s s' := by
    rintro t t' counted rfl hstarted hmoves hmain hcommands
    exact .advance c t' counted hmain hmoves hstarted (fun hr => absurd hr hne) hcommands
  rw [runCommandNext] at h
  split at h
  · rename_i hstage
    split at h
    · rename_i hlaunch
      cases Option.some.inj h
      exact advance _ _ _ hstage (by simp) (.launch hlaunch.1) rfl rfl
    · cases Option.some.inj h
      exact advance _ _ _ hstage (by simp) .fail rfl rfl
  · rename_i hstage
    cases Option.some.inj h
    exact advance _ _ _ hstage (by simp) .return_ rfl rfl
  · rename_i hstage
    cases Option.some.inj h
    exact advance _ _ _ hstage (by simp) .settle rfl rfl
  · rename_i hstage
    cases Option.some.inj h
    exact .finish c rfl hne hstage rfl
  · cases h

theorem effect_of_exitNext (h : exitNext s c = some s') : Effect s s' := by
  rw [exitNext] at h
  split at h
  · rename_i hstage
    cases Option.some.inj h
    refine .advance c .exited 0 rfl (hstage ▸ .exit) (by simp [hstage]) (fun _ => ?_) rfl
    rintro ⟨interrupted, hrun⟩
    cases hrun
  · cases h

/-- **What an action does.** -/
theorem effect_of_next (h : next s act = some s') : Effect s s' := by
  have quiet : s'.main = s.main → s'.commands = s.commands → Effect s s' := fun hm hc =>
    .quiet (fun c t ht => hm ▸ ht) (fun hr => .inl (hm ▸ hr)) hc
  cases act with
  | signal signal =>
      obtain ⟨-, h⟩ := Option.ite_none_right_eq_some.mp h
      cases Option.some.inj h
      refine quiet ?_ ?_
      · rw [signalNext]
        split <;> rfl
      · rw [signalNext]
        split <;> rfl
  | main answer =>
      obtain ⟨-, h⟩ := Option.ite_none_right_eq_some.mp h
      exact effect_of_mainNext h
  | handler =>
      obtain ⟨halive, h⟩ := Option.ite_none_right_eq_some.mp h
      exact effect_of_handlerNext (State.alive_iff.mp halive).1 h
  | runCommand command launches =>
      obtain ⟨halive, h⟩ := Option.ite_none_right_eq_some.mp h
      exact effect_of_runCommandNext (State.alive_iff.mp halive).1 h
  | exit command => exact effect_of_exitNext h
  | timer =>
      obtain ⟨-, h⟩ := Option.ite_none_right_eq_some.mp h
      cases Option.some.inj h
      exact quiet rfl rfl

end

/-! ### The invariant -/

/-- `main` runs each command once. -/
def Placed (s : State) : Prop := ∀ c t, s.main.holds c = some t → s.commands.stage c = t

/-- What holds of the wrapper at any time. -/
structure Inv (s : State) : Prop where
  sound : Sound s.commands
  placed : Placed s
  returned : s.main = .returned → ∀ c, ¬ (s.commands.stage c).IsRunning

section

variable {s s' : State} {act : Act}

theorem absent_or_added_of_holds {p : MainPc} {c : Command} {t : Stage} (h : p.holds c = some t) :
    t = .absent ∨ t = .added := by
  unfold MainPc.holds at h
  split at h
  all_goals first
    | exact .inl (Option.some.inj h).symm
    | exact .inr (Option.some.inj h).symm
    | cases h

/-- A command that `main` has still to run does not run. -/
theorem not_running_of_holds {p : MainPc} {c : Command} {t : Stage} (h : p.holds c = some t) :
    ¬ t.IsRunning := by
  rintro ⟨interrupted, rfl⟩
  rcases absent_or_added_of_holds h with h | h
  · cases h
  · cases h

/-- **The wrapper simulates the supervised commands.** -/
theorem Effect.simulates (h : Effect s s') (hp : Placed s) :
    s'.commands = s.commands ∨ Supervision.Step s.commands s'.commands := by
  cases h with
  | quiet hholds hreturned hcommands => exact .inl hcommands
  | add c hmain hmain' hcommands =>
      have habsent : s.commands.stage c = .absent := hp c _ (by rw [hmain]; cases c <;> rfl)
      exact .inr (hcommands ▸ .move (habsent ▸ .add))
  | spawn c hmain hmain' hholds hcommands =>
      have hadded : s.commands.stage c = .added := hp c _ (by rw [hmain]; cases c <;> rfl)
      exact .inr (hcommands ▸ .move (hadded ▸ .spawn))
  | advance c t counted hmain hmoves hstarted hreturned hcommands =>
      exact .inr (hcommands ▸ .move hmoves)
  | finish c hmain hreturned hsettled hcommands => exact .inr (hcommands ▸ .finish hsettled)
  | cancel hmain hreturned hcommands => exact .inr (hcommands ▸ .cancel)

theorem Effect.placed (h : Effect s s') (hp : Placed s) : Placed s' := by
  intro c' t ht
  cases h with
  | quiet hholds hreturned hcommands => exact hcommands ▸ hp c' t (hholds c' t ht)
  | add c hmain hmain' hcommands =>
      rw [hmain'] at ht
      rw [hcommands]
      by_cases he : c' = c
      · subst he
        rw [Supervisor.stage_move_self]
        cases c' <;> exact Option.some.inj ht
      · rw [Supervisor.stage_move_of_ne _ _ _ he]
        refine hp c' t ?_
        rw [hmain]
        cases c with
        | nvlsm =>
            cases c' with
            | nvlsm => exact absurd rfl he
            | fabricManager => exact ht
        | fabricManager =>
            cases c' with
            | nvlsm => cases ht
            | fabricManager => exact absurd rfl he
  | spawn c hmain hmain' hholds hcommands =>
      obtain ⟨hne, ht'⟩ := hholds c' t ht
      rw [hcommands, Supervisor.stage_move_of_ne _ _ _ hne]
      exact hp c' t ht'
  | advance c t' counted hmain hmoves hstarted hreturned hcommands =>
      rw [hmain] at ht
      have hstage := hp c' t ht
      have hne : c' ≠ c := by
        rintro rfl
        rcases absent_or_added_of_holds ht with rfl | rfl
        · exact hstarted.1 hstage
        · exact hstarted.2 hstage
      rwa [hcommands, Supervisor.stage_move_of_ne _ _ _ hne]
  | finish c hmain hreturned hsettled hcommands =>
      rw [hmain] at ht
      have hstage := hp c' t ht
      have hne : c' ≠ c := by
        rintro rfl
        rw [hsettled] at hstage
        rcases absent_or_added_of_holds ht with rfl | rfl
        · cases hstage
        · cases hstage
      have hmove := Supervisor.stage_move_of_ne s.commands .ended 0 hne
      have hrun : ¬ ((s.commands.move c .ended 0).stage c').IsRunning := by
        rw [hmove, hstage]
        exact not_running_of_holds ht
      rw [hcommands, Supervisor.stage_cancel hrun, hmove, hstage]
  | cancel hmain hreturned hcommands =>
      rw [hmain] at ht
      have hstage := hp c' t ht
      have hrun : ¬ (s.commands.stage c').IsRunning := by
        rw [hstage]
        exact not_running_of_holds ht
      rw [hcommands, Supervisor.stage_cancel hrun, hstage]

/-- `main` returns when nothing runs, and nothing is run after it. -/
theorem Effect.returned (h : Effect s s') (hi : Inv s) (hr : s'.main = .returned) (c : Command) :
    ¬ (s'.commands.stage c).IsRunning := by
  cases h with
  | quiet hholds hreturned hcommands =>
      rw [hcommands]
      rcases hreturned hr with hr | hcounter
      · exact hi.returned hr c
      · exact hi.sound.not_running hcounter c
  | add c hmain hmain' hcommands => cases hmain'.symm.trans hr
  | spawn c hmain hmain' hholds hcommands => exact absurd hr hmain'
  | advance c' t counted hmain hmoves hstarted hreturned hcommands =>
      rw [hcommands]
      have hr' : s.main = .returned := hmain.symm.trans hr
      by_cases he : c = c'
      · subst he
        rw [Supervisor.stage_move_self]
        exact hreturned hr'
      · rw [Supervisor.stage_move_of_ne _ _ _ he]
        exact hi.returned hr' c
  | finish c hmain hreturned hsettled hcommands => exact absurd (hmain.symm.trans hr) hreturned
  | cancel hmain hreturned hcommands => exact absurd (hmain.symm.trans hr) hreturned

theorem inv_start : Inv start where
  sound := sound_empty
  placed := by
    intro c t h
    cases c <;> exact Option.some.inj h
  returned := by
    intro h
    cases h

/-- **One action.** -/
theorem inv_next (h : next s act = some s') (hi : Inv s) : Inv s' := by
  have he := effect_of_next h
  refine ⟨?_, he.placed hi.placed, fun hr => he.returned hi hr⟩
  rcases he.simulates hi.placed with hcommands | hstep
  · exact hcommands ▸ hi.sound
  · exact hstep.sound hi.sound

/-- **The runs.** -/
theorem inv_of_reachable (h : Reachable Next start s) : Inv s :=
  h.invariant inv_start fun _ _ _ hi h => inv_next h hi

/-- What does not run in a cancelled context never runs again. -/
theorem not_running_of_steps {acts : List Act} {c : Command} (hi : Inv s)
    (hc : s.commands.cancelled = true) (hrun : ¬ (s.commands.stage c).IsRunning)
    (h : Steps Next s acts s') : ¬ (s'.commands.stage c).IsRunning := by
  have hall : Inv s' ∧ s'.commands.cancelled = true ∧ ¬ (s'.commands.stage c).IsRunning := by
    refine @Steps.invariant _ _ _ _
      (fun s => Inv s ∧ s.commands.cancelled = true ∧ ¬ (s.commands.stage c).IsRunning)
      ⟨hi, hc, hrun⟩ ?_ _ _ h
    rintro s act s' ⟨hi, hc, hrun⟩ h
    refine ⟨inv_next h hi, ?_⟩
    rcases (effect_of_next h).simulates hi.placed with hcommands | hstep
    · rw [hcommands]
      exact ⟨hc, hrun⟩
    · exact hstep.not_running hc hrun
  exact hall.2.2

/-- **The supervision protocol**, in every order of the actions: the counter of the wait group is
never negative; `main` returns when no process runs; when the goroutine of a command has ended, the
context is cancelled and every process that runs has been sent an interrupt; and in a cancelled
context no command is launched, whatever follows. -/
theorem supervised (h : Reachable Next start s) :
    0 ≤ s.commands.counter ∧
    (s.main = .returned → ∀ c, ¬ (s.commands.stage c).IsRunning) ∧
    (∀ c, s.commands.stage c = .ended → s.commands.cancelled = true ∧
      ∀ c', (s.commands.stage c').IsRunning → s.commands.stage c' = .running true) ∧
    (s.commands.cancelled = true → ∀ c, ¬ (s.commands.stage c).IsRunning →
      ∀ acts s', Steps Next s acts s' → ¬ (s'.commands.stage c).IsRunning) := by
  have hi := inv_of_reachable h
  refine ⟨hi.sound.counter_nonneg, hi.returned, fun c hended => ?_, fun hc c hrun acts s' h => ?_⟩
  · have hc := hi.sound.ended c hended
    exact ⟨hc, hi.sound.interrupted hc⟩
  · exact not_running_of_steps hi hc hrun h

end

/-- NVLSM dies while `main` waits for its socket: the counter comes back to zero and rises again
for the fabric manager, which is not launched. -/
def nvlsmDies : List Act :=
  [.main true, .main true, .main true, .main true, .main true, .main true,
    .runCommand .nvlsm true, .main true, .main false, .exit .nvlsm, .runCommand .nvlsm true,
    .runCommand .nvlsm true, .runCommand .nvlsm true, .main true, .main true, .main true,
    .main true, .main true, .runCommand .fabricManager true, .runCommand .fabricManager true,
    .main true]

theorem supervised_nvlsmDies : ∃ s, nvlsmDies.foldlM next start = some s ∧
    0 ≤ s.commands.counter ∧
    (s.main = .returned → ∀ c, ¬ (s.commands.stage c).IsRunning) ∧
    (∀ c, s.commands.stage c = .ended → s.commands.cancelled = true ∧
      ∀ c', (s.commands.stage c').IsRunning → s.commands.stage c' = .running true) ∧
    (s.commands.cancelled = true → ∀ c, ¬ (s.commands.stage c).IsRunning →
      ∀ acts s', Steps Next s acts s' → ¬ (s'.commands.stage c).IsRunning) := by
  have hruns : (nvlsmDies.foldlM next start).isSome = true := by decide
  obtain ⟨s, hs⟩ := Option.isSome_iff_exists.mp hruns
  exact ⟨s, hs, supervised ⟨nvlsmDies, steps_iff_foldlM.mpr hs⟩⟩

end TalosP2P.FabricManager
