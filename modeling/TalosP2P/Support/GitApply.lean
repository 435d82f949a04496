import Mathlib.Logic.Function.Basic
import TalosP2P.Support.GitDiff

/-!
# Support — GitApply

What a diff says of a tree of files.  A patch finds its file in the tree as it was before the diff, in
which no file stands in two patches.  What it makes of the file is in its hunks and modes and not in
its paths; how it makes it is left open (`patchFile`).

* `applyDiff_map`: the diff with its paths changed does to the files at the changed paths what the
  diff does, and leaves every other file alone.
-/

namespace TalosP2P.GitDiff

open Function

instance : DecidableEq Path := fun p q =>
  decidable_of_iff (p.bytes = q.bytes) ⟨fun h => by cases p; cases q; congr, congrArg Path.bytes⟩

abbrev FileTree (File : Type*) := Path → Option File

/-- What the patch of a file says but for the paths. -/
structure Content where
  mode : Option Line
  modes : Option (Line × Line)
  hunks : List Hunk

/-- The mode of a file that comes or goes. -/
def Change.mode : Change → Option Line
  | .added _ mode | .deleted _ mode => some mode
  | _ => none

def FilePatch.content (p : FilePatch) : Content := ⟨p.change.mode, p.modes, p.hunks⟩

/-- The path that is gone after the change. -/
def Change.removed : Change → Option Path
  | .deleted path _ => some path
  | .moved .rename source _ _ => some source
  | _ => none

/-- The path that should not be there before the change. -/
def Change.created : Change → Option Path
  | .added path _ => some path
  | .moved _ _ target _ => some target
  | _ => none

/-- The diff takes the file away. -/
def removes (d : Diff) (path : Path) : Bool := d.any fun p => p.change.removed = some path

section

variable {File : Type*}

/-- Where a patch is to create a file there is none, or the diff takes it away. -/
def fits (t : FileTree File) (d : Diff) : Bool :=
  d.all fun p => match p.change.created with
    | some target => (t target).isNone || removes d target
    | none => true

/-- The tree without the files the diff takes away. -/
def without (t : FileTree File) (d : Diff) : FileTree File := fun path =>
  if removes d path then none else t path

variable (patchFile : Content → Option File → Option File)

/-- The file a patch makes of the one that is there. -/
def FilePatch.file (t : FileTree File) (p : FilePatch) : Option File :=
  match p.change.old with
  | some source => (t source).bind fun file => patchFile p.content (some file)
  | none => patchFile p.content none

/-- The file, where the patch has it. -/
def FilePatch.put (p : FilePatch) (t : FileTree File) (file : File) : FileTree File :=
  match p.change.new with
  | some target => update t target (some file)
  | none => t

def putFiles (before : FileTree File) : Diff → FileTree File → Option (FileTree File)
  | [], t => some t
  | p :: d, t => (p.file patchFile before).bind fun file => putFiles before d (p.put t file)

/-- The tree after the diff, where all of it applies. -/
def applyDiff (d : Diff) (t : FileTree File) : Option (FileTree File) :=
  if fits t d then putFiles patchFile t d (without t d) else none

end

/-! ### Changed paths -/

theorem Change.removed_map (f : Path → Path) (c : Change) : (c.map f).removed = c.removed.map f := by
  cases c with
  | moved move source target similarity => cases move <;> rfl
  | _ => rfl

theorem Change.created_map (f : Path → Path) (c : Change) : (c.map f).created = c.created.map f := by
  cases c <;> rfl

theorem FilePatch.content_map (f : Path → Path) (p : FilePatch) :
    FilePatch.content { p with change := p.change.map f } = p.content := by
  cases hchange : p.change <;> simp [FilePatch.content, hchange, Change.map, Change.mode]

section

variable {File : Type*} {patchFile : Content → Option File → Option File} {f : Path → Path}

/-- A change at a path is one at the changed path. -/
theorem extend_update (hf : Injective f) (t a : FileTree File) (path : Path) (file : Option File) :
    extend f (update t path file) a = update (extend f t a) (f path) file := by
  funext q
  by_cases hq : ∃ p, f p = q
  · obtain ⟨p, rfl⟩ := hq
    rw [hf.extend_apply]
    by_cases hp : p = path
    · subst hp
      rw [update_self, update_self]
    · rw [update_of_ne hp, update_of_ne (hf.ne hp), hf.extend_apply]
  · have hne : q ≠ f path := fun heq => hq ⟨path, heq.symm⟩
    rw [extend_apply' _ _ _ hq, update_of_ne hne, extend_apply' _ _ _ hq]

/-- A tree that differs from another at changed paths only. -/
theorem extend_eq_iff (hf : Injective f) (t a a' : FileTree File) :
    extend f t a = a' ↔ (∀ q, (∀ p, f p ≠ q) → a' q = a q) ∧ ∀ p, a' (f p) = t p := by
  constructor
  · rintro rfl
    refine ⟨fun q hq => extend_apply' _ _ _ ?_, fun p => hf.extend_apply ..⟩
    rintro ⟨p, hp⟩
    exact hq p hp
  · rintro ⟨hkeep, hfiles⟩
    funext q
    by_cases hq : ∃ p, f p = q
    · obtain ⟨p, rfl⟩ := hq
      rw [hf.extend_apply, hfiles]
    · rw [extend_apply' _ _ _ hq, hkeep q fun p hp => hq ⟨p, hp⟩]

theorem removes_map (hf : Injective f) (d : Diff) (path : Path) :
    removes (Diff.map f d) (f path) = removes d path := by
  have hremoved : ∀ c : Change, decide ((c.map f).removed = some (f path)) =
      decide (c.removed = some path) := by
    intro c
    rw [decide_eq_decide, Change.removed_map, ← Option.map_some, (Option.map_injective hf).eq_iff]
  simp only [removes, Diff.map, List.any_map, comp_def, hremoved]

/-- The changed diff takes away no file but those at changed paths. -/
theorem exists_of_removes_map {d : Diff} {q : Path} (h : removes (Diff.map f d) q = true) :
    ∃ p, f p = q := by
  obtain ⟨p', hp', hremoved⟩ := List.any_eq_true.mp h
  obtain ⟨p, -, rfl⟩ := List.mem_map.mp hp'
  have heq := of_decide_eq_true hremoved
  rw [Change.removed_map] at heq
  obtain ⟨path, -, hpath⟩ := Option.map_eq_some_iff.mp heq
  exact ⟨path, hpath⟩

theorem without_map (hf : Injective f) (t a : FileTree File) (d : Diff) :
    without (extend f t a) (Diff.map f d) = extend f (without t d) a := by
  funext q
  by_cases hq : ∃ p, f p = q
  · obtain ⟨p, rfl⟩ := hq
    rw [without, removes_map hf, hf.extend_apply, hf.extend_apply, without]
  · have hkept : ¬ removes (Diff.map f d) q = true := fun h => hq (exists_of_removes_map h)
    rw [without, if_neg hkept, extend_apply' _ _ _ hq, extend_apply' _ _ _ hq]

theorem fits_map (hf : Injective f) (t a : FileTree File) (d : Diff) :
    fits (extend f t a) (Diff.map f d) = fits t d := by
  have hpatch : ∀ p : FilePatch,
      (match (p.change.map f).created with
        | some target => (extend f t a target).isNone || removes (Diff.map f d) target
        | none => true) =
      (match p.change.created with
        | some target => (t target).isNone || removes d target
        | none => true) := by
    intro p
    rw [Change.created_map]
    cases p.change.created with
    | none => rfl
    | some target =>
        change ((extend f t a (f target)).isNone || removes (Diff.map f d) (f target)) =
          ((t target).isNone || removes d target)
        rw [hf.extend_apply, removes_map hf]
  simp only [fits]
  rw [Diff.map, List.all_map]
  exact congrArg d.all (funext hpatch)

theorem FilePatch.file_map (hf : Injective f) (t a : FileTree File) (p : FilePatch) :
    FilePatch.file patchFile (extend f t a) { p with change := p.change.map f } =
      p.file patchFile t := by
  rw [FilePatch.file, FilePatch.file, FilePatch.content_map]
  change (match (p.change.map f).old with
    | some source => (extend f t a source).bind fun file => patchFile p.content (some file)
    | none => patchFile p.content none) = _
  rw [Change.old_map]
  cases p.change.old with
  | none => rfl
  | some source =>
      change ((extend f t a (f source)).bind fun file => patchFile p.content (some file)) = _
      rw [hf.extend_apply]

theorem FilePatch.put_map (hf : Injective f) (t a : FileTree File) (p : FilePatch) (file : File) :
    FilePatch.put { p with change := p.change.map f } (extend f t a) file =
      extend f (p.put t file) a := by
  rw [FilePatch.put, FilePatch.put]
  change (match (p.change.map f).new with
    | some target => update (extend f t a) target (some file)
    | none => extend f t a) = _
  rw [Change.new_map]
  cases p.change.new with
  | none => rfl
  | some target => exact (extend_update hf t a target (some file)).symm

theorem putFiles_map (hf : Injective f) (before a : FileTree File) (d : Diff) (t : FileTree File) :
    putFiles patchFile (extend f before a) (Diff.map f d) (extend f t a) =
      (putFiles patchFile before d t).map (extend f · a) := by
  induction d generalizing t with
  | nil => rfl
  | cons p d ih =>
      rw [Diff.map, List.map_cons, putFiles, putFiles, FilePatch.file_map hf]
      cases p.file patchFile before with
      | none => rfl
      | some file =>
          rw [Option.bind_some, Option.bind_some, FilePatch.put_map hf]
          exact ih (p.put t file)

/-- **Changed paths**: what a diff does to a tree, the diff with its paths changed does to the tree at
the changed paths, and to nothing else. -/
theorem applyDiff_map (hf : Injective f) (d : Diff) (t a : FileTree File) :
    applyDiff patchFile (Diff.map f d) (extend f t a) =
      (applyDiff patchFile d t).map (extend f · a) := by
  rw [applyDiff, applyDiff, fits_map hf]
  split
  · rw [without_map hf, putFiles_map hf]
  · rfl

end

end TalosP2P.GitDiff
