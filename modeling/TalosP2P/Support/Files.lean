import Mathlib.Logic.Function.Basic

/-!
# Support — Files

A process that reads and writes files, and that can be stopped at each of these operations: the
operation fails with an error, or the process is killed.  What was written before stays.

* `on_bind_ok`, `on_bind_error`: a process that is stopped leaves the files as they are there.
* `on_writeFile`: a write leaves what its outcome says, whether it returns or not.
* `on_wrap`: naming an error changes no file.
-/

namespace TalosP2P.Files

/-- The content of the files, by path. -/
abbrev Dir (Path Byte : Type) := Path → Option (List Byte)

/-- Why a process gets no further. -/
inductive Stop where
  | failed (err : String)
  | killed
  deriving DecidableEq, Repr

/-- A process on the files. -/
abbrev Proc (Path Byte α : Type) := ExceptT Stop (StateM (Dir Path Byte)) α

section

variable {Path Byte α β : Type}

/-- How the process ends on the files, and what it leaves of them. -/
def Proc.on (proc : Proc Path Byte α) (files : Dir Path Byte) : Except Stop α × Dir Path Byte :=
  (ExceptT.run proc).run files

@[simp]
theorem on_get (files : Dir Path Byte) :
    Proc.on (get : Proc Path Byte (Dir Path Byte)) files = (.ok files, files) := rfl

theorem on_bind (proc : Proc Path Byte α) (f : α → Proc Path Byte β) (files : Dir Path Byte) :
    Proc.on (proc >>= f) files = match proc.on files with
      | (.ok a, files') => (f a).on files'
      | (.error stop, files') => (.error stop, files') := by
  simp only [Proc.on, ExceptT.run_bind, StateT.run_bind]
  rcases (ExceptT.run proc).run files with ⟨r, files'⟩
  cases r with
  | ok a => rfl
  | error stop => rfl

theorem on_bind_ok {proc : Proc Path Byte α} {f : α → Proc Path Byte β}
    {files files' : Dir Path Byte} {a : α} (h : proc.on files = (.ok a, files')) :
    Proc.on (proc >>= f) files = (f a).on files' := by
  rw [on_bind, h]

theorem on_bind_error {proc : Proc Path Byte α} {f : α → Proc Path Byte β}
    {files files' : Dir Path Byte} {stop : Stop} (h : proc.on files = (.error stop, files')) :
    Proc.on (proc >>= f) files = (.error stop, files') := by
  rw [on_bind, h]

/-- A process that returns a value at its end. -/
theorem on_bind_pure (proc : Proc Path Byte α) (b : β) (files : Dir Path Byte) :
    Proc.on (proc >>= fun _ => pure b) files =
      ((proc.on files).1.map fun _ => b, (proc.on files).2) := by
  rw [on_bind]
  rcases proc.on files with ⟨r, files'⟩
  cases r with
  | ok a => rfl
  | error stop => rfl

/-! ### Operations -/

/-- What becomes of a write.  It opens the file, which empties it, writes, and closes it: when it
stops, it has not opened the file, or has written the first bytes. -/
inductive Outcome where
  | done
  | stopped (stop : Stop) (written : Option Nat)
  deriving DecidableEq, Repr

/-- What the write leaves in the file. -/
def Outcome.left (old : Option (List Byte)) (data : List Byte) : Outcome → Option (List Byte)
  | .done => some data
  | .stopped _ none => old
  | .stopped _ (some n) => some (data.take n)

/-- What the write returns. -/
def Outcome.returned : Outcome → Except Stop Unit
  | .done => .ok ()
  | .stopped stop _ => .error stop

/-- An operation that changes no file. -/
def operation (result : Except Stop α) : Proc Path Byte α := ExceptT.mk (pure result)

@[simp]
theorem on_operation (result : Except Stop α) (files : Dir Path Byte) :
    (operation result).on files = (result, files) := rfl

/-- The write of a whole file. -/
def writeFile [DecidableEq Path] (path : Path) (data : List Byte) (outcome : Outcome) :
    Proc Path Byte Unit := do
  modify fun files => Function.update files path (outcome.left (files path) data)
  match outcome with
  | .done => pure ()
  | .stopped stop _ => throw stop

theorem on_writeFile [DecidableEq Path] (path : Path) (data : List Byte) (outcome : Outcome)
    (files : Dir Path Byte) : (writeFile path data outcome).on files =
      (outcome.returned, Function.update files path (outcome.left (files path) data)) := by
  cases outcome with
  | done => rfl
  | stopped stop written => rfl

/-- What becomes of the creation of a file that must not be there yet: when it stops, it has created
the file or not. -/
inductive Creation where
  | done
  /-- Something that is no file stands under the name. -/
  | present
  | stopped (stop : Stop) (created : Bool)
  deriving DecidableEq, Repr

/-- What the creation leaves of the file. -/
def Creation.left (old : Option (List Byte)) : Creation → Option (List Byte)
  | .done => some (old.getD [])
  | .present => old
  | .stopped _ created => if created then some (old.getD []) else old

/-- What the creation returns: whether it created the file. -/
def Creation.returned (old : Option (List Byte)) : Creation → Except Stop Bool
  | .done => .ok old.isNone
  | .present => .ok false
  | .stopped stop _ => .error stop

/-- The creation of an empty file, exclusively. -/
def createExclusive [DecidableEq Path] (path : Path) (creation : Creation) :
    Proc Path Byte Bool := do
  let files ← get
  modify fun files => Function.update files path (creation.left (files path))
  match creation.returned (files path) with
  | .ok created => pure created
  | .error stop => throw stop

theorem on_createExclusive [DecidableEq Path] (path : Path) (creation : Creation)
    (files : Dir Path Byte) : (createExclusive path creation).on files =
      (creation.returned (files path), Function.update files path (creation.left (files path))) := by
  cases creation with
  | done => rfl
  | present => rfl
  | stopped stop created => rfl

/-- A file that is there stays as it is. -/
@[simp]
theorem Creation.left_some (creation : Creation) (data : List Byte) :
    creation.left (some data) = some data := by
  cases creation with
  | done => rfl
  | present => rfl
  | stopped stop created => cases created <;> rfl

theorem Creation.left_none (creation : Creation) :
    creation.left (none : Option (List Byte)) = none ∨
      creation.left (none : Option (List Byte)) = some [] := by
  cases creation with
  | done => exact .inr rfl
  | present => exact .inl rfl
  | stopped stop created =>
      cases created with
      | false => exact .inl rfl
      | true => exact .inr rfl

/-- The text of an error, before what it wraps. -/
def Stop.wrap (text : String) : Stop → Stop
  | .failed err => .failed (text ++ ": " ++ err)
  | .killed => .killed

/-- The process, its errors wrapped. -/
def wrap (text : String) (proc : Proc Path Byte α) : Proc Path Byte α :=
  ExceptT.adapt (Stop.wrap text) proc

theorem on_wrap (text : String) (proc : Proc Path Byte α) (files : Dir Path Byte) :
    (wrap text proc).on files =
      ((proc.on files).1.mapError (Stop.wrap text), (proc.on files).2) := by
  have hrun : ExceptT.run (wrap text proc) =
      Except.mapError (Stop.wrap text) <$> ExceptT.run proc := rfl
  rw [Proc.on, hrun, StateT.run_map]
  rfl

theorem on_wrap_ok {text : String} {proc : Proc Path Byte α} {files files' : Dir Path Byte} {a : α}
    (h : proc.on files = (.ok a, files')) : (wrap text proc).on files = (.ok a, files') := by
  rw [on_wrap, h]
  rfl

theorem on_wrap_error {text : String} {proc : Proc Path Byte α} {files files' : Dir Path Byte}
    {stop : Stop} (h : proc.on files = (.error stop, files')) :
    (wrap text proc).on files = (.error (stop.wrap text), files') := by
  rw [on_wrap, h]
  rfl

/-! ### What a process that ends well has done -/

theorem on_bind_eq_ok_iff {proc : Proc Path Byte α} {f : α → Proc Path Byte β}
    {files files' : Dir Path Byte} {b : β} : Proc.on (proc >>= f) files = (.ok b, files') ↔
      ∃ a files₁, proc.on files = (.ok a, files₁) ∧ (f a).on files₁ = (.ok b, files') := by
  rw [on_bind]
  rcases proc.on files with ⟨r, files₁⟩
  cases r with
  | ok a =>
      constructor
      · intro h
        exact ⟨a, files₁, rfl, h⟩
      · rintro ⟨a, files₁, h, hf⟩
        cases h
        exact hf
  | error stop => exact iff_of_false (fun h => nomatch h) fun ⟨_, _, h, _⟩ => nomatch h

theorem on_wrap_eq_ok_iff {text : String} {proc : Proc Path Byte α} {files files' : Dir Path Byte}
    {a : α} : (wrap text proc).on files = (.ok a, files') ↔ proc.on files = (.ok a, files') := by
  rw [on_wrap]
  rcases proc.on files with ⟨r, files₁⟩
  cases r with
  | ok b => rfl
  | error stop => exact iff_of_false (fun h => nomatch h) fun h => nomatch h

/-! ### What a process keeps -/

/-- Wherever the process stops, the files it leaves are related to those it found. -/
def Keeps (R : Dir Path Byte → Dir Path Byte → Prop) (proc : Proc Path Byte α) : Prop :=
  ∀ files, R files (proc.on files).2

section

variable {R : Dir Path Byte → Dir Path Byte → Prop}

theorem Keeps.bind (htrans : ∀ a b c, R a b → R b c → R a c) {proc : Proc Path Byte α}
    {f : α → Proc Path Byte β} (h : Keeps R proc) (hf : ∀ a, Keeps R (f a)) :
    Keeps R (proc >>= f) := by
  intro files
  have hfirst := h files
  rw [on_bind]
  rcases hproc : proc.on files with ⟨r, files₁⟩
  rw [hproc] at hfirst
  cases r with
  | ok a => exact htrans _ _ _ hfirst (hf a files₁)
  | error stop => exact hfirst

theorem Keeps.wrap {text : String} {proc : Proc Path Byte α} (h : Keeps R proc) :
    Keeps R (wrap text proc) := by
  intro files
  rw [on_wrap]
  exact h files

theorem keeps_operation (hrefl : ∀ a, R a a) (result : Except Stop α) :
    Keeps R (operation result) := fun files => hrefl files

theorem keeps_pure (hrefl : ∀ a, R a a) (a : α) : Keeps R (pure a : Proc Path Byte α) :=
  fun files => hrefl files

end

/-! ### A process on some of the files -/

variable {Part : Type}

/-- A process on the files that `index` names as its own, among the others. -/
def zoom (embed : Part → Path) (index : Path → Option Part) (proc : Proc Part Byte α) :
    Proc Path Byte α := ExceptT.mk fun files =>
  let r := proc.on fun part => files (embed part)
  (r.1, fun path => match index path with
    | some part => r.2 part
    | none => files path)

theorem on_zoom (embed : Part → Path) (index : Path → Option Part) (proc : Proc Part Byte α)
    (files : Dir Path Byte) : (zoom embed index proc).on files =
      ((proc.on fun part => files (embed part)).1, fun path => match index path with
        | some part => (proc.on fun part => files (embed part)).2 part
        | none => files path) := rfl

end

end TalosP2P.Files
