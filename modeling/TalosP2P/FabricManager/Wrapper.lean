import TalosP2P.Support.Supervision

/-!
# FabricManager — Wrapper

`main` of the fabric manager wrapper with the goroutines it starts: the one that waits for a signal,
and one of `runCommand` for NVLSM and for the fabric manager.  Every thread advances by one action
at a time, in any order, and so do the child processes and the signals from outside.

What is assumed of `os/exec`: `Start` on a cancelled context launches nothing, `Run` returns when
the process it launched has exited, and cancelling the context calls `cmd.Cancel` on the commands
that run, which sends them an interrupt.

* `next`: the action of one thread.
-/

namespace TalosP2P.FabricManager

open Supervision

/-- The commands of the wrapper. -/
inductive Command where
  | nvlsm
  | fabricManager
  deriving DecidableEq, Repr

instance : Fintype Command where
  elems := {.nvlsm, .fabricManager}
  complete command := by cases command <;> decide

/-- The signals the wrapper is notified of: `SIGINT` and `SIGTERM`. -/
inductive Signal where
  | interrupt
  | terminate
  deriving DecidableEq, Repr

/-- How `waitForFile` ends.  It is logged and nothing else. -/
inductive Waited where
  | found
  | timeout
  | canceled
  deriving DecidableEq, Repr

/-- What `main` does next. -/
inductive MainPc where
  | notify (signal : Signal)
  | goHandler
  | findNvswitchMgmtPort
  /-- `wg.Add(1)` of `runCommand`. -/
  | wgAdd (command : Command)
  /-- `go func()` of `runCommand`. -/
  | goRun (command : Command)
  /-- The `select` of `waitForFile`. -/
  | select
  /-- Its default arm. -/
  | stat
  | pause
  /-- `time.Sleep(time.Second)`, after `waitForFile`. -/
  | sleep (waited : Waited)
  /-- `cmdWg.Wait()`. -/
  | wait
  | returned
  deriving DecidableEq, Repr

/-- The goroutine that waits for a signal. -/
inductive Handler where
  | absent
  | receiving
  | received (signal : Signal)
  /-- `signal.Stop` has returned. -/
  | stopped (signal : Signal)
  | ended
  deriving DecidableEq, Repr

structure State where
  main : MainPc
  handler : Handler
  /-- The signals that are sent to `signalsChan`; the others kill the wrapper. -/
  notified : Signal → Bool
  /-- `signalsChan`, of capacity one. -/
  signalsChan : Option Signal
  /-- Whether the timer of `waitForFile` has fired. -/
  timer : Bool
  killed : Bool
  /-- `cmdWg`, `runCtx` and the commands. -/
  commands : Supervisor Command

/-- The wrapper before its first statement. -/
def start : State where
  main := .notify .interrupt
  handler := .absent
  notified := fun _ => false
  signalsChan := none
  timer := false
  killed := false
  commands := Supervisor.empty

/-- The wrapper ends with `main`, or by a signal. -/
def State.alive (s : State) : Bool := s.main ≠ .returned ∧ s.killed = false

/-- An action: who acts, and what the thread is told by its surroundings. -/
inductive Act where
  | signal (signal : Signal)
  /-- The answer is whether the port or the socket is there, and which of two ready channels
  `select` takes. -/
  | main (answer : Bool)
  | handler
  /-- `launches` is whether `Start` can launch the process. -/
  | runCommand (command : Command) (launches : Bool)
  | exit (command : Command)
  | timer
  deriving DecidableEq, Repr

/-- A signal arrives.  A full channel drops it. -/
def signalNext (s : State) (signal : Signal) : State :=
  if s.notified signal then { s with signalsChan := s.signalsChan.or (some signal) }
  else { s with killed := true }

/-- `main`, with `waitForFile` and the part of `runCommand` before the goroutine. -/
def mainNext (s : State) (answer : Bool) : Option State :=
  match s.main with
  | .notify .interrupt =>
    some { s with
      notified := Function.update s.notified .interrupt true, main := .notify .terminate }
  | .notify .terminate =>
    some { s with notified := Function.update s.notified .terminate true, main := .goHandler }
  | .goHandler => some { s with handler := .receiving, main := .findNvswitchMgmtPort }
  | .findNvswitchMgmtPort =>
    some { s with main := .wgAdd (if answer then .nvlsm else .fabricManager) }
  | .wgAdd command =>
    some { s with commands := s.commands.move command .added 1, main := .goRun command }
  | .goRun .nvlsm =>
    some { s with commands := s.commands.move .nvlsm .spawned 0, timer := false, main := .select }
  | .goRun .fabricManager =>
    some { s with commands := s.commands.move .fabricManager .spawned 0, main := .wait }
  | .select =>
    some { s with main := match s.commands.cancelled, s.timer with
      | false, false => .stat
      | true, false => .sleep .canceled
      | false, true => .sleep .timeout
      | true, true => .sleep (if answer then .canceled else .timeout) }
  | .stat => some { s with main := if answer then .sleep .found else .pause }
  | .pause => some { s with main := .select }
  -- whatever the wait brought, the fabric manager is run
  | .sleep _ => some { s with main := .wgAdd .fabricManager }
  | .wait => if s.commands.counter = 0 then some { s with main := .returned } else none
  | .returned => none

/-- The goroutine that waits for a signal. -/
def handlerNext (s : State) : Option State :=
  match s.handler with
  | .absent => none
  | .receiving =>
    s.signalsChan.map fun signal => { s with signalsChan := none, handler := .received signal }
  | .received signal => some { s with notified := fun _ => false, handler := .stopped signal }
  | .stopped _ => some { s with commands := s.commands.cancel, handler := .ended }
  | .ended => none

/-- The goroutine of `runCommand`: `cmd.Run()`, which starts the command and waits for it, then
`wg.Done()`, then `doneCb()`. -/
def runCommandNext (s : State) (command : Command) (launches : Bool) : Option State :=
  match s.commands.stage command with
  | .spawned =>
    if s.commands.cancelled = false ∧ launches = true then
      some { s with commands := s.commands.move command (.running false) 0 }
    else some { s with commands := s.commands.move command .returned 0 }
  | .exited => some { s with commands := s.commands.move command .returned 0 }
  | .returned => some { s with commands := s.commands.move command .settled (-1) }
  | .settled => some { s with commands := (s.commands.move command .ended 0).cancel }
  | _ => none

/-- The process of a command exits. -/
def exitNext (s : State) (command : Command) : Option State :=
  match s.commands.stage command with
  | .running _ => some { s with commands := s.commands.move command .exited 0 }
  | _ => none

/-- One action, where it can be taken.  A process goes on after the wrapper. -/
def next (s : State) : Act → Option State
  | .signal signal => if s.alive then some (signalNext s signal) else none
  | .main answer => if s.alive then mainNext s answer else none
  | .handler => if s.alive then handlerNext s else none
  | .runCommand command launches => if s.alive then runCommandNext s command launches else none
  | .exit command => exitNext s command
  | .timer =>
    if s.alive ∧ s.main ∈ [.select, .stat, .pause] then some { s with timer := true } else none

end TalosP2P.FabricManager
