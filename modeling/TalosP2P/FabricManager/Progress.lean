import TalosP2P.FabricManager.Supervision

/-!
# FabricManager — Progress

That the wrapper does not hang.  Every action but a signal, the timer and a turn of `waitForFile`
brings the wrapper nearer to its end, and from wherever it has come to, it can end when the processes
exit.

* `rank_next`: what an action leaves to be done.
* `comes_to_its_end`: the actions of a run that count are bounded, and there is no deadlock.
-/

namespace TalosP2P.FabricManager

open Supervision History

/-! ### What is left to be done -/

/-- The actions `main` has before it.  The points of `waitForFile` have one rank: it goes round in
them. -/
def MainPc.rank : MainPc → Nat
  | .notify .interrupt => 11
  | .notify .terminate => 10
  | .goHandler => 9
  | .findNvswitchMgmtPort => 8
  | .wgAdd .nvlsm => 7
  | .goRun .nvlsm => 6
  | .select | .stat | .pause => 5
  | .sleep _ => 4
  | .wgAdd .fabricManager => 3
  | .goRun .fabricManager => 2
  | .wait => 1
  | .returned => 0

def Handler.rank : Handler → Nat
  | .absent | .receiving => 3
  | .received _ => 2
  | .stopped _ => 1
  | .ended => 0

/-- What the task of a command has before it. -/
def stageRank : Stage → Nat
  | .absent | .added | .spawned => 5
  | .running _ => 4
  | .exited => 3
  | .returned => 2
  | .settled => 1
  | .ended => 0

def commandsRank (g : Supervisor Command) : Nat :=
  stageRank (g.stage .nvlsm) + stageRank (g.stage .fabricManager)

def State.rank (s : State) : Nat := s.main.rank + s.handler.rank + commandsRank s.commands

/-- An action that brings the wrapper no further. -/
def Idle (s : State) : Act → State → Prop
  | .signal _, _ | .timer, _ => True
  | .main _, s' => s.main.rank = 5 ∧ s'.main.rank = 5
  | .handler, _ | .runCommand _ _, _ | .exit _, _ => False

instance (s : State) (act : Act) (s' : State) : Decidable (Idle s act s') :=
  match act with
  | .signal _ | .timer => inferInstanceAs (Decidable True)
  | .main _ => inferInstanceAs (Decidable (s.main.rank = 5 ∧ s'.main.rank = 5))
  | .handler | .runCommand _ _ | .exit _ => inferInstanceAs (Decidable False)

section

variable {s s' : State} {act : Act} {g : Supervisor Command} {c : Command}

theorem commandsRank_move (g : Supervisor Command) (c : Command) (t : Stage) (counted : Int) :
    commandsRank (g.move c t counted) + stageRank (g.stage c) = commandsRank g + stageRank t := by
  cases c with
  | nvlsm =>
      rw [commandsRank, Supervisor.stage_move_self, Supervisor.stage_move_of_ne _ _ _ (by decide),
        commandsRank]
      omega
  | fabricManager =>
      rw [commandsRank, Supervisor.stage_move_self, Supervisor.stage_move_of_ne _ _ _ (by decide),
        commandsRank]
      omega

theorem stageRank_interrupt (t : Stage) : stageRank t.interrupt = stageRank t := by
  cases t <;> rfl

theorem commandsRank_cancel (g : Supervisor Command) : commandsRank g.cancel = commandsRank g := by
  rw [Supervisor.cancel]
  split
  · rfl
  · simp only [commandsRank, stageRank_interrupt]

/-! ### One action -/

/-- The goroutine of the signals starts late. -/
def Unhandled (s : State) : Prop := s.main.rank ≤ 8 ∨ s.handler = .absent

/-- An action of `main`: it goes on, or round in `waitForFile`. -/
theorem rank_mainNext {answer : Bool} (hp : Placed s) (hu : Unhandled s)
    (h : mainNext s answer = some s') :
    Unhandled s' ∧
      (s'.rank < s.rank ∨ (s.main.rank = 5 ∧ s'.main.rank = 5 ∧ s'.rank = s.rank)) := by
  -- the commands and the goroutine of the signals are left alone
  have goes : ∀ p p' : MainPc, s.main = p → s'.main = p' → s'.handler = s.handler →
      s'.commands = s.commands → p'.rank < p.rank ∨ p.rank = 5 ∧ p'.rank = 5 →
      Unhandled s' ∧
        (s'.rank < s.rank ∨ (s.main.rank = 5 ∧ s'.main.rank = 5 ∧ s'.rank = s.rank)) := by
    rintro p p' rfl rfl hhandler hcommands hrank
    refine ⟨?_, ?_⟩
    · rw [Unhandled, hhandler]
      exact hu.imp_left (by omega)
    · rw [State.rank, State.rank, hhandler, hcommands]
      omega
  -- a command is moved
  have moves : ∀ (p p' : MainPc) c t counted, s.main = p → s'.main = p' →
      s'.handler = s.handler → s'.commands = s.commands.move c t counted →
      stageRank t ≤ stageRank (s.commands.stage c) → p'.rank < p.rank →
      Unhandled s' ∧
        (s'.rank < s.rank ∨ (s.main.rank = 5 ∧ s'.main.rank = 5 ∧ s'.rank = s.rank)) := by
    rintro p p' c t counted rfl rfl hhandler hcommands hstage hlt
    have hmove := commandsRank_move s.commands c t counted
    refine ⟨?_, .inl ?_⟩
    · rw [Unhandled, hhandler]
      exact hu.imp_left (by omega)
    · rw [State.rank, State.rank, hhandler, hcommands]
      omega
  rw [mainNext] at h
  split at h
  case h_1 hmain =>
    cases h
    exact goes _ (.notify .terminate) hmain rfl rfl rfl (by decide)
  case h_2 hmain =>
    cases h
    exact goes _ .goHandler hmain rfl rfl rfl (by decide)
  case h_3 hmain =>
    cases h
    have hhandler : s.handler = .absent := hu.resolve_left (by rw [hmain]; decide)
    refine ⟨.inl (le_refl 8), .inl ?_⟩
    simp only [State.rank, hmain, hhandler, MainPc.rank, Handler.rank]
    omega
  case h_4 hmain =>
    cases h
    cases answer with
    | true => exact goes _ (.wgAdd .nvlsm) hmain rfl rfl rfl (by decide)
    | false => exact goes _ (.wgAdd .fabricManager) hmain rfl rfl rfl (by decide)
  case h_5 c hmain =>
    cases h
    have habsent : s.commands.stage c = .absent := hp c _ (by rw [hmain]; cases c <;> rfl)
    exact moves _ (.goRun c) c .added 1 hmain rfl rfl rfl (by rw [habsent]; decide)
      (by cases c <;> decide)
  case h_6 hmain =>
    cases h
    have hadded : s.commands.stage .nvlsm = .added := hp .nvlsm _ (by rw [hmain]; rfl)
    exact moves _ .select .nvlsm .spawned 0 hmain rfl rfl rfl (by rw [hadded]; decide) (by decide)
  case h_7 hmain =>
    cases h
    have hadded : s.commands.stage .fabricManager = .added :=
      hp .fabricManager _ (by rw [hmain]; rfl)
    exact moves _ .wait .fabricManager .spawned 0 hmain rfl rfl rfl (by rw [hadded]; decide)
      (by decide)
  case h_8 hmain =>
    have hs := Option.some.inj h
    have hgoes : s'.main = .stat ∨ ∃ waited, s'.main = .sleep waited := by
      rw [← hs]
      dsimp only
      split <;> simp
    rcases hgoes with hmain' | ⟨waited, hmain'⟩
    · exact goes _ _ hmain hmain' (hs ▸ rfl) (hs ▸ rfl) (.inr ⟨rfl, rfl⟩)
    · exact goes _ _ hmain hmain' (hs ▸ rfl) (hs ▸ rfl) (.inl (by simp [MainPc.rank]))
  case h_9 hmain =>
    cases h
    cases answer with
    | true => exact goes _ (.sleep .found) hmain rfl rfl rfl (by decide)
    | false => exact goes _ .pause hmain rfl rfl rfl (by decide)
  case h_10 hmain =>
    cases h
    exact goes _ .select hmain rfl rfl rfl (by decide)
  case h_11 waited hmain =>
    cases h
    exact goes _ (.wgAdd .fabricManager) hmain rfl rfl rfl (.inl (by simp [MainPc.rank]))
  case h_12 hmain =>
    split at h
    · cases h
      exact goes _ .returned hmain rfl rfl rfl (by decide)
    · cases h
  case h_13 hmain => cases h

/-- An action of another thread, or of a process. -/
def Progresses (s s' : State) : Prop :=
  s'.main = s.main ∧ (s.handler = .absent → s'.handler = .absent) ∧ s'.rank < s.rank

theorem rank_handlerNext (h : handlerNext s = some s') : Progresses s s' := by
  rw [handlerNext] at h
  split at h
  · cases h
  · rename_i hhandler
    obtain ⟨signal, -, rfl⟩ := Option.map_eq_some_iff.mp h
    refine ⟨rfl, by simp [hhandler], ?_⟩
    simp only [State.rank, hhandler, Handler.rank]
    omega
  · rename_i hhandler
    cases h
    refine ⟨rfl, by simp [hhandler], ?_⟩
    simp only [State.rank, hhandler, Handler.rank]
    omega
  · rename_i hhandler
    cases h
    refine ⟨rfl, by simp [hhandler], ?_⟩
    simp only [State.rank, hhandler, Handler.rank, commandsRank_cancel]
    omega
  · cases h

/-- A move of a command, by its task or by its process. -/
theorem progresses_move {t : Stage} {counted : Int} (hmain : s'.main = s.main)
    (hhandler : s'.handler = s.handler)
    (hcommands : commandsRank s'.commands = commandsRank (s.commands.move c t counted))
    (hstage : stageRank t < stageRank (s.commands.stage c)) : Progresses s s' := by
  refine ⟨hmain, fun ha => hhandler.trans ha, ?_⟩
  have hmove := commandsRank_move s.commands c t counted
  rw [State.rank, State.rank, hmain, hhandler, hcommands]
  omega

theorem rank_runCommandNext {launches : Bool} (h : runCommandNext s c launches = some s') :
    Progresses s s' := by
  rw [runCommandNext] at h
  split at h
  · rename_i hstage
    split at h
    · cases h
      exact progresses_move rfl rfl rfl (by rw [hstage]; decide)
    · cases h
      exact progresses_move rfl rfl rfl (by rw [hstage]; decide)
  · rename_i hstage
    cases h
    exact progresses_move rfl rfl rfl (by rw [hstage]; decide)
  · rename_i hstage
    cases h
    exact progresses_move rfl rfl rfl (by rw [hstage]; decide)
  · rename_i hstage
    cases h
    have hcommands := commandsRank_cancel (s.commands.move c .ended 0)
    exact progresses_move rfl rfl hcommands (by rw [hstage]; decide)
  · cases h

theorem rank_exitNext (h : exitNext s c = some s') : Progresses s s' := by
  rw [exitNext] at h
  split at h
  · rename_i hstage
    cases h
    exact progresses_move rfl rfl rfl (by simp [hstage, stageRank])
  · cases h

/-- The actions are those of `main`, those of the surroundings, and those that progress. -/
theorem next_cases (h : next s act = some s') :
    (∃ answer, act = .main answer ∧ s.alive = true ∧ mainNext s answer = some s') ∨
    ((∃ signal, act = .signal signal) ∨ act = .timer) ∧
      s'.main = s.main ∧ s'.handler = s.handler ∧ s'.commands = s.commands ∨
    Progresses s s' := by
  cases act with
  | signal signal =>
      obtain ⟨-, h⟩ := Option.ite_none_right_eq_some.mp h
      cases h
      refine .inr (.inl ⟨.inl ⟨signal, rfl⟩, ?_⟩)
      rw [signalNext]
      split <;> exact ⟨rfl, rfl, rfl⟩
  | main answer =>
      obtain ⟨halive, h⟩ := Option.ite_none_right_eq_some.mp h
      exact .inl ⟨answer, rfl, halive, h⟩
  | handler =>
      obtain ⟨-, h⟩ := Option.ite_none_right_eq_some.mp h
      exact .inr (.inr (rank_handlerNext h))
  | runCommand command launches =>
      obtain ⟨-, h⟩ := Option.ite_none_right_eq_some.mp h
      exact .inr (.inr (rank_runCommandNext h))
  | exit command => exact .inr (.inr (rank_exitNext h))
  | timer =>
      obtain ⟨-, h⟩ := Option.ite_none_right_eq_some.mp h
      cases h
      exact .inr (.inl ⟨.inr rfl, rfl, rfl, rfl⟩)

/-- **What an action leaves to be done.** -/
theorem rank_next (hp : Placed s) (hu : Unhandled s) (h : next s act = some s') :
    Unhandled s' ∧ (s'.rank < s.rank ∨ Idle s act s' ∧ s'.rank ≤ s.rank) := by
  rcases next_cases h with
    ⟨answer, rfl, -, h⟩ | ⟨hact, hmain, hhandler, hcommands⟩ | ⟨hmain, hhandler, hlt⟩
  · obtain ⟨hu', hlt | ⟨hrank, hrank', heq⟩⟩ := rank_mainNext hp hu h
    · exact ⟨hu', .inl hlt⟩
    · exact ⟨hu', .inr ⟨⟨hrank, hrank'⟩, heq.le⟩⟩
  · refine ⟨?_, .inr ⟨?_, ?_⟩⟩
    · rwa [Unhandled, hmain, hhandler]
    · rcases hact with ⟨signal, rfl⟩ | rfl <;> exact trivial
    · rw [State.rank, State.rank, hmain, hhandler, hcommands]
  · refine ⟨?_, .inl hlt⟩
    rw [Unhandled, hmain]
    exact hu.imp_right hhandler

/-! ### The end -/

/-- What holds besides `Inv`: a command that is counted is about to be run. -/
structure Ready (s : State) : Prop where
  inv : Inv s
  unhandled : Unhandled s
  added : ∀ c, s.commands.stage c = .added → s.main = .goRun c

theorem ready_start : Ready start where
  inv := inv_start
  unhandled := .inr rfl
  added := by
    intro c h
    cases h

theorem Effect.added (h : Effect s s') (ha : ∀ c, s.commands.stage c = .added → s.main = .goRun c)
    (hmain : (∀ c, s.main ≠ .goRun c) ∨ s'.main = s.main) (c : Command)
    (hc : s'.commands.stage c = .added) : s'.main = .goRun c := by
  cases h with
  | quiet hholds hreturned hcommands =>
      rw [hcommands] at hc
      exact (hmain.resolve_left fun hne => hne c (ha c hc)).trans (ha c hc)
  | add c' hmain' hgo hcommands =>
      by_cases he : c = c'
      · exact he ▸ hgo
      · rw [hcommands, Supervisor.stage_move_of_ne _ _ _ he] at hc
        cases hmain'.symm.trans (ha c hc)
  | spawn c' hgo hreturned hholds hcommands =>
      by_cases he : c = c'
      · rw [hcommands, he, Supervisor.stage_move_self] at hc
        cases hc
      · rw [hcommands, Supervisor.stage_move_of_ne _ _ _ he] at hc
        exact absurd (MainPc.goRun.inj ((ha c hc).symm.trans hgo)) he
  | advance c' t counted hsame hmoves hstarted hreturned hcommands =>
      rw [hcommands] at hc
      by_cases he : c = c'
      · rw [he, Supervisor.stage_move_self] at hc
        subst hc
        -- a task that has started is not counted anew
        generalize s.commands.stage c' = before at hmoves hstarted
        cases hmoves with
        | add => exact absurd rfl hstarted.1
      · rw [Supervisor.stage_move_of_ne _ _ _ he] at hc
        exact hsame.trans (ha c hc)
  | finish c' hsame hreturned hsettled hcommands =>
      rw [hcommands] at hc
      have hc' := Supervisor.stage_cancel_eq_added.mp hc
      by_cases he : c = c'
      · rw [he, Supervisor.stage_move_self] at hc'
        cases hc'
      · rw [Supervisor.stage_move_of_ne _ _ _ he] at hc'
        exact hsame.trans (ha c hc')
  | cancel hsame hreturned hcommands =>
      rw [hcommands] at hc
      exact hsame.trans (ha c (Supervisor.stage_cancel_eq_added.mp hc))

theorem added_of_goRun {answer : Bool} (hgo : s.main = .goRun c)
    (ha : ∀ c, s.commands.stage c = .added → s.main = .goRun c)
    (h : mainNext s answer = some s') (c' : Command) : s'.commands.stage c' ≠ .added := by
  have hcommands : s'.commands = s.commands.move c .spawned 0 := by
    rw [mainNext, hgo] at h
    cases c <;> exact (congrArg State.commands (Option.some.inj h)).symm
  rw [hcommands]
  intro hc
  by_cases he : c' = c
  · rw [he, Supervisor.stage_move_self] at hc
    cases hc
  · rw [Supervisor.stage_move_of_ne _ _ _ he] at hc
    exact he (MainPc.goRun.inj ((ha c' hc).symm.trans hgo))

theorem ready_next (h : next s act = some s') (hr : Ready s) : Ready s' := by
  refine ⟨inv_next h hr.inv, (rank_next hr.inv.placed hr.unhandled h).1, ?_⟩
  have he := effect_of_next h
  rcases next_cases h with ⟨answer, rfl, -, h⟩ | ⟨-, hmain, -⟩ | ⟨hmain, -⟩
  · by_cases hgo : ∃ c, s.main = .goRun c
    · obtain ⟨c, hgo⟩ := hgo
      intro c' hc
      exact absurd hc (added_of_goRun hgo hr.added h c')
    · exact he.added hr.added (.inl (not_exists.mp hgo))
  · exact he.added hr.added (.inr hmain)
  · exact he.added hr.added (.inr hmain)

/-- The way round in `waitForFile`, up to where it looks for the socket. -/
def MainPc.poll : MainPc → Nat
  | .pause => 2
  | .select => 1
  | _ => 0

/-- An action of `main`, told that the port and the socket are there. -/
theorem exists_mainNext (hne : s.main ≠ .returned) (hwait : s.main = .wait → s.commands.counter = 0) :
    ∃ s', mainNext s true = some s' ∧ s'.killed = s.killed ∧
      (s.main.rank = 5 → s'.main.rank = 5 → s'.main.poll < s.main.poll) := by
  rw [mainNext]
  split
  case h_12 hmain => exact ⟨_, if_pos (hwait hmain), rfl, by simp [hmain, MainPc.rank]⟩
  case h_13 hmain => exact absurd hmain hne
  case h_5 c hmain => exact ⟨_, rfl, rfl, by cases c <;> simp [hmain, MainPc.rank]⟩
  case h_8 hmain =>
    refine ⟨_, rfl, rfl, ?_⟩
    dsimp only
    split <;> simp [hmain, MainPc.rank, MainPc.poll]
  all_goals
    rename_i hmain
    exact ⟨_, rfl, rfl, by simp [hmain, MainPc.rank, MainPc.poll]⟩

/-- While the wrapper waits, the task or the process of a command can act. -/
theorem exists_commandNext (hr : Ready s) (halive : s.alive = true) (hmain : s.main = .wait)
    (hcounter : s.commands.counter ≠ 0) :
    ∃ act s', next s act = some s' ∧ (∀ signal, act ≠ .signal signal) ∧ s'.killed = s.killed ∧
      Progresses s s' := by
  obtain ⟨c, hc⟩ : ∃ c, (s.commands.stage c).owes ≠ 0 := by
    by_contra hall
    exact hcounter (hr.inv.sound.counter.trans
      (Finset.sum_eq_zero fun c _ => not_not.mp (not_exists.mp hall c)))
  have task : ∀ s', runCommandNext s c false = some s' → s'.killed = s.killed →
      ∃ act s', next s act = some s' ∧ (∀ signal, act ≠ .signal signal) ∧ s'.killed = s.killed ∧
        Progresses s s' := fun s' h hkilled =>
    ⟨.runCommand c false, s', (if_pos halive).trans h, by simp, hkilled, rank_runCommandNext h⟩
  cases hstage : s.commands.stage c with
  | absent | settled | ended =>
      rw [hstage] at hc
      exact absurd rfl hc
  | added => cases hmain.symm.trans (hr.added c hstage)
  | running interrupted =>
      have h : exitNext s c = some { s with commands := s.commands.move c .exited 0 } := by
        rw [exitNext, hstage]
      exact ⟨.exit c, _, h, by simp, rfl, rank_exitNext h⟩
  | spawned =>
      refine task { s with commands := s.commands.move c .returned 0 } ?_ rfl
      rw [runCommandNext, hstage]
      simp
  | exited =>
      refine task { s with commands := s.commands.move c .returned 0 } ?_ rfl
      rw [runCommandNext, hstage]
  | returned =>
      refine task { s with commands := s.commands.move c .settled (-1) } ?_ rfl
      rw [runCommandNext, hstage]

/-- **There is no deadlock.** -/
theorem exists_steps_to_returned (hr : Ready s) (halive : s.alive = true) :
    ∃ acts s', Steps Next s acts s' ∧ (∀ act ∈ acts, ∀ signal, act ≠ .signal signal) ∧
      s'.main = .returned := by
  refine exists_steps_of_descent (I := fun s => Ready s ∧ s.killed = false)
    (fun s => 3 * s.rank + s.main.poll) ?_ ⟨hr, (State.alive_iff.mp halive).2⟩
  rintro s ⟨hr, hkilled⟩
  by_cases hreturned : s.main = .returned
  · exact .inl hreturned
  refine .inr ?_
  have halive : s.alive = true := State.alive_iff.mpr ⟨hreturned, hkilled⟩
  have hpoll : ∀ p : MainPc, p.poll ≤ 2 := by
    intro p
    cases p <;> simp [MainPc.poll]
  by_cases hwait : s.main = .wait ∧ s.commands.counter ≠ 0
  · obtain ⟨act, s', h, hact, hkilled', hmain, -, hlt⟩ :=
      exists_commandNext hr halive hwait.1 hwait.2
    refine ⟨act, s', hact, h, ⟨ready_next h hr, hkilled'.trans hkilled⟩, ?_⟩
    rw [hmain]
    omega
  · obtain ⟨s', hmain, hkilled', hround⟩ :=
      exists_mainNext hreturned fun hw => not_not.mp fun hne => hwait ⟨hw, hne⟩
    have h : next s (.main true) = some s' := (if_pos halive).trans hmain
    refine ⟨.main true, s', by simp, h, ⟨ready_next h hr, hkilled'.trans hkilled⟩, ?_⟩
    have hp := hpoll s'.main
    rcases (rank_mainNext hr.inv.placed hr.unhandled hmain).2 with hlt | ⟨h₅, h₅', heq⟩
    · omega
    · have := hround h₅ h₅'
      omega

/-- **The wrapper comes to its end.**  Signals, the timer and the turns of `waitForFile` apart, a
run has 24 actions at most; and while the wrapper is alive there is a way on, without any signal, on
which `main` returns. -/
theorem comes_to_its_end {n : Nat} (h : Counted Next Idle start n s) :
    n + s.rank ≤ 24 ∧
    (s.alive = true → ∃ acts s', Steps Next s acts s' ∧
      (∀ act ∈ acts, ∀ signal, act ≠ .signal signal) ∧ s'.main = .returned) := by
  refine ⟨?_, exists_steps_to_returned ?_⟩
  · exact @Counted.add_rank_le State Act Next start Idle Ready State.rank ready_start
      (fun s act s' hr h => ⟨ready_next h hr, (rank_next hr.inv.placed hr.unhandled h).2⟩) _ _ h
  · exact h.reachable.invariant ready_start fun _ _ _ hr h => ready_next h hr

end

/-- Both commands run, end, and have ended when a signal is handled: no other run has more
actions. -/
def bothEnd : List Act :=
  [.main true, .main true, .main true, .main true, .main true, .main true,
    .runCommand .nvlsm true, .main true, .main true, .main true, .main true, .main true,
    .runCommand .fabricManager true, .exit .nvlsm, .exit .fabricManager, .signal .terminate,
    .handler, .handler, .handler, .runCommand .nvlsm true, .runCommand .nvlsm true,
    .runCommand .nvlsm true, .runCommand .fabricManager true, .runCommand .fabricManager true,
    .runCommand .fabricManager true, .main true]

theorem comes_to_its_end_bothEnd : ∃ s : State, Counted Next Idle start 24 s ∧ 24 + s.rank ≤ 24 ∧
    (s.alive = true → ∃ acts s', Steps Next s acts s' ∧
      (∀ act ∈ acts, ∀ signal, act ≠ .signal signal) ∧ s'.main = .returned) := by
  have hruns : (bothEnd.foldlM (counting next Idle) (0, start)).map Prod.fst = some 24 := by
    decide +kernel
  obtain ⟨⟨n, s⟩, hs, hn⟩ := Option.map_eq_some_iff.mp hruns
  obtain rfl : n = 24 := hn
  have h := counted_of_foldlM hs
  exact ⟨s, h, comes_to_its_end h⟩

end TalosP2P.FabricManager
