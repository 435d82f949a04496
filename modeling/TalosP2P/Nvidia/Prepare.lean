import TalosP2P.Nvidia.Redist
import TalosP2P.Support.GitApply
import TalosP2P.Support.Replace

/-!
# Nvidia — Prepare

The `prepare` step of `nvidia-modules-p2p/kernel/lts/pkg.yaml`, on the tree in `/nvidia-driver`: the
donor diff is remapped and applied with `git apply`, then two files are edited.  What `git apply` does
with the remapped diff is a parameter, which is to do what the diff says.

The donor diff and the edits are about the files of the GitHub tree; what stands at a path there stands
at `toRedist` of it in the archive.

* `prepare_iff`: the step does to the archive what the donor diff and the two edits do to its files as
  the GitHub tree has them, and leaves the rest of the archive alone.
-/

namespace TalosP2P.Nvidia

open Python GitDiff Replace Function

structure File where
  mode : Nat
  bytes : Bytes
  deriving DecidableEq, Repr

/-- `replace_once`, and the script before it, on the bytes of the file. -/
def replaceOnce (applied missing : String) (old new : Text) (file : Bytes) : Except Exc Bytes := do
  let text ← readText file
  if new <:+: text then throw (.systemExit applied)
  if ¬ old <:+: text then throw (.systemExit missing)
  return writeText (replaceFirst old new text)

/-- A file is read, edited and written back. -/
def editFile (path : Path) (edit : Bytes → Except Exc Bytes) (t : FileTree File) :
    Except Exc (FileTree File) := do
  let file ← orRaise .fileNotFoundError (t path)
  let bytes ← edit file.bytes
  return update t path (some { file with bytes := bytes })

def kernBus : Path where
  bytes := encodeUtf8 "src/kernel-module-source/src/nvidia/src/kernel/gpu/bus/kern_bus.c"
  ne_nil := by decide +kernel
  solid := by decide +kernel

def staticBar1Auto : Text :=
  "        pKernelBus->staticBar1ForceType = NV_REG_STR_RM_FORCE_STATIC_BAR1_AUTO;\n".toList

def staticBar1Enable : Text :=
  "        pKernelBus->staticBar1ForceType = NV_REG_STR_RM_FORCE_STATIC_BAR1_ENABLE;\n".toList

def staticBar1Applied : String := "static BAR1 force is already enabled in kern_bus.c"

def forceStaticBar1 (path : Path) (t : FileTree File) : Except Exc (FileTree File) :=
  editFile path (replaceOnce staticBar1Applied
    "expected static BAR1 AUTO assignment not found in kern_bus.c" staticBar1Auto staticBar1Enable) t

def uvmP2p : Path where
  bytes := encodeUtf8 "kernel-open/nvidia-uvm/uvm_va_range_device_p2p.c"
  ne_nil := by decide +kernel
  solid := by decide +kernel

def pagemapOld : Text := "            get_dev_pagemap(page_to_pfn(page), NULL);\n".toList

def pagemapNew : Text := "            get_dev_pagemap(page_to_pfn(page));\n".toList

def pagemapApplied : String :=
  "patch already applied in /nvidia-driver/kernel-open/nvidia-uvm/uvm_va_range_device_p2p.c"

def fixPagemap (t : FileTree File) : Except Exc (FileTree File) :=
  editFile uvmP2p (replaceOnce pagemapApplied
    "expected snippet not found in /nvidia-driver/kernel-open/nvidia-uvm/uvm_va_range_device_p2p.c"
    pagemapOld pagemapNew) t

/-- The step, with `git apply` of a diff to a tree. -/
def prepare (gitApply : Bytes → FileTree File → Option (FileTree File)) (diff : Bytes)
    (t : FileTree File) : Except Exc (FileTree File) := do
  let redist ← remap diff
  let t ← orRaise .calledProcessError (gitApply redist t)
  let t ← forceStaticBar1 kernBus t
  fixPagemap t

/-! ### The edits -/

section

variable {applied missing : String} {old new : Text} {file b : Bytes} {path : Path}
  {edit : Bytes → Except Exc Bytes} {t t' : FileTree File}

theorem replaceOnce_eq_ok_iff (hold : old ≠ []) : replaceOnce applied missing old new file = .ok b ↔
    ∃ text p q, readText file = .ok text ∧ ¬ new <:+: text ∧ FirstCut old p q text ∧
      b = writeText (p ++ (new ++ q)) := by
  rw [replaceOnce, bind_eq_ok_iff]
  refine exists_congr fun text => ?_
  constructor
  · rintro ⟨hread, h⟩
    by_cases hnew : new <:+: text
    · rw [if_pos hnew] at h
      cases h
    · by_cases hin : old <:+: text
      · obtain ⟨p, q, hcut⟩ := exists_firstCut hold hin
        rw [if_neg hnew, if_neg (not_not.mpr hin), replaceFirst_of_firstCut hold hcut] at h
        exact ⟨p, q, hread, hnew, hcut, (Except.ok.inj h).symm⟩
      · rw [if_neg hnew, if_pos hin] at h
        cases h
  · rintro ⟨p, q, hread, hnew, hcut, rfl⟩
    have hin : old <:+: text := ⟨p, q, by rw [hcut.eq, List.append_assoc]⟩
    rw [if_neg hnew, if_neg (not_not.mpr hin), replaceFirst_of_firstCut hold hcut]
    exact ⟨hread, rfl⟩

/-- It is not made twice. -/
theorem replaceOnce_again (hold : old ≠ []) (hnew : '\r' ∉ new)
    (h : replaceOnce applied missing old new file = .ok b) :
    replaceOnce applied missing old new b = .error (.systemExit applied) := by
  obtain ⟨text, p, q, hread, -, hcut, rfl⟩ := (replaceOnce_eq_ok_iff hold).mp h
  obtain ⟨s, -, hs⟩ := bind_eq_ok_iff.mp hread
  have hcr : '\r' ∉ p ++ (old ++ q) := by
    rw [← hcut.eq, ← Except.ok.inj hs]
    exact return_not_mem_universalNewlines _
  have hcr' : '\r' ∉ p ++ (new ++ q) := by
    simp only [List.mem_append, not_or] at hcr ⊢
    exact ⟨hcr.1, hnew, hcr.2.2⟩
  rw [replaceOnce, readText_writeText_eq, ok_bind, universalNewlines_eq_self hcr',
    if_pos ⟨p, q, by rw [List.append_assoc]⟩]
  rfl

theorem editFile_eq_ok_iff : editFile path edit t = .ok t' ↔
    ∃ file b, t path = some file ∧ edit file.bytes = .ok b ∧
      t' = update t path (some { file with bytes := b }) := by
  rw [editFile, bind_eq_ok_iff]
  refine exists_congr fun file => ?_
  rw [orRaise_eq_ok_iff, bind_eq_ok_iff]
  constructor
  · rintro ⟨hfile, b, hb, h⟩
    exact ⟨b, hfile, hb, (Except.ok.inj h).symm⟩
  · rintro ⟨b, hfile, hb, rfl⟩
    exact ⟨hfile, b, hb, rfl⟩

/-- An edit at a changed path. -/
theorem editFile_extend {f : Path → Path} (hf : Injective f) (t a : FileTree File) :
    editFile (f path) edit (extend f t a) = (editFile path edit t).map (extend f · a) := by
  rw [editFile, editFile, hf.extend_apply]
  cases t path with
  | none => rfl
  | some file =>
      change (edit file.bytes >>= fun bytes => pure (update (extend f t a) (f path) _)) =
        (edit file.bytes >>= fun bytes => pure (update t path _)).map _
      cases edit file.bytes with
      | error e => rfl
      | ok bytes => exact congrArg Except.ok (extend_update hf t a path _).symm

end

/-! ### The GitHub tree -/

theorem toRedist_injective : Injective toRedist := by
  intro p q h
  have hapart : ∀ {p q : Path}, InSrc p → ¬ InSrc q → toRedist p ≠ toRedist q := by
    intro p q hp hq h
    apply hq
    rw [toRedist_of_not_inSrc hq] at h
    rw [InSrc, ← h, toRedist_bytes hp]
    exact ⟨encodeUtf8 "kernel-module-source/" ++ p.bytes, rfl⟩
  by_cases hp : InSrc p
  · by_cases hq : InSrc q
    · have hbytes := congrArg Path.bytes h
      rw [toRedist_bytes hp, toRedist_bytes hq, List.append_cancel_left_eq] at hbytes
      cases p
      cases q
      congr
    · exact absurd h (hapart hp hq)
  · by_cases hq : InSrc q
    · exact absurd h.symm (hapart hq hp)
    · rwa [toRedist_of_not_inSrc hp, toRedist_of_not_inSrc hq] at h

/-- `kern_bus.c`, in the GitHub tree. -/
def kernBusSource : Path where
  bytes := encodeUtf8 "src/nvidia/src/kernel/gpu/bus/kern_bus.c"
  ne_nil := by decide +kernel
  solid := by decide +kernel

theorem toRedist_kernBusSource : toRedist kernBusSource = kernBus := by decide +kernel

theorem toRedist_uvmP2p : toRedist uvmP2p = uvmP2p := by decide +kernel

theorem kernBusSource_ne_uvmP2p : kernBusSource ≠ uvmP2p := by decide +kernel

/-- What the donor diff and the edits do to the GitHub tree. -/
def prepareSource (patchFile : Content → Option File → Option File) (d : Diff)
    (t : FileTree File) : Except Exc (FileTree File) := do
  let t ← orRaise .calledProcessError (applyDiff patchFile d t)
  let t ← forceStaticBar1 kernBusSource t
  fixPagemap t

/-- A file in which one occurrence of a text was replaced, of which it had the new one nowhere. -/
def ReplacedOnce (old new : Text) (before after : Option File) : Prop :=
  ∃ file text p q, before = some file ∧ readText file.bytes = .ok text ∧ ¬ new <:+: text ∧
    FirstCut old p q text ∧ after = some { file with bytes := writeText (p ++ (new ++ q)) }

section

variable {patchFile : Content → Option File → Option File} {d : Diff} {t t' : FileTree File}

theorem editFile_replaceOnce_iff {applied missing : String} {old new : Text} (hold : old ≠ [])
    {path : Path} : editFile path (replaceOnce applied missing old new) t = .ok t' ↔
      ReplacedOnce old new (t path) (t' path) ∧ ∀ p, p ≠ path → t' p = t p := by
  rw [editFile_eq_ok_iff]
  constructor
  · rintro ⟨file, b, hfile, hb, rfl⟩
    obtain ⟨text, p, q, hread, hnew, hcut, rfl⟩ := (replaceOnce_eq_ok_iff hold).mp hb
    exact ⟨⟨file, text, p, q, hfile, hread, hnew, hcut, update_self ..⟩,
      fun p hp => update_of_ne hp ..⟩
  · rintro ⟨⟨file, text, p, q, hfile, hread, hnew, hcut, hafter⟩, hkeep⟩
    refine ⟨file, _, hfile, (replaceOnce_eq_ok_iff hold).mpr ⟨text, p, q, hread, hnew, hcut, rfl⟩, ?_⟩
    funext path'
    by_cases hpath : path' = path
    · subst hpath
      rw [hafter, update_self]
    · rw [hkeep path' hpath, update_of_ne hpath]

theorem editFile_again {applied missing : String} {old new : Text} (hold : old ≠ [])
    (hnew : '\r' ∉ new) {path : Path} {before : Option File}
    (h : ReplacedOnce old new before (t' path)) :
    editFile path (replaceOnce applied missing old new) t' = .error (.systemExit applied) := by
  obtain ⟨file, text, p, q, -, hread, hin, hcut, hafter⟩ := h
  have hfirst : replaceOnce applied missing old new file.bytes = .ok (writeText (p ++ (new ++ q))) :=
    (replaceOnce_eq_ok_iff hold).mpr ⟨text, p, q, hread, hin, hcut, rfl⟩
  rw [editFile, hafter, orRaise, ok_bind, replaceOnce_again hold hnew hfirst, error_bind]

theorem remap_of_remappable (hd : Remappable d) :
    remap (Diff.render d) = .ok (Diff.render (Diff.map toRedist d)) := by
  obtain ⟨⟨⟨s, hdecode⟩, hcr⟩, hlines⟩ := (remappable_iff d).mp hd
  obtain ⟨hbytes, hremap, hself⟩ := remap_of_decode hdecode
  rw [hremap, hself hcr, (writeText_remapText_iff hbytes).mpr hlines]

/-- The changed diff on the archive is the diff on its files as the GitHub tree has them. -/
theorem prepare_extend {gitApply : Bytes → FileTree File → Option (FileTree File)}
    (hd : Remappable d) (hgit : ∀ t, gitApply (Diff.render (Diff.map toRedist d)) t =
      applyDiff patchFile (Diff.map toRedist d) t) (t a : FileTree File) :
    prepare gitApply (Diff.render d) (extend toRedist t a) =
      (prepareSource patchFile d t).map (extend toRedist · a) := by
  rw [prepare, remap_of_remappable hd, ok_bind, hgit, applyDiff_map toRedist_injective,
    prepareSource]
  cases applyDiff patchFile d t with
  | none => rfl
  | some t =>
      change (forceStaticBar1 kernBus (extend toRedist t a) >>= fixPagemap) =
        (forceStaticBar1 kernBusSource t >>= fixPagemap).map _
      rw [forceStaticBar1, ← toRedist_kernBusSource, editFile_extend toRedist_injective,
        forceStaticBar1]
      cases editFile kernBusSource _ t with
      | error e => rfl
      | ok t =>
          change fixPagemap (extend toRedist t a) = (fixPagemap t).map _
          rw [fixPagemap, fixPagemap]
          conv_lhs => rw [← toRedist_uvmP2p]
          exact editFile_extend toRedist_injective t a

/-- Every archive is one with the files of its GitHub tree in it. -/
theorem prepare_eq_ok_iff {gitApply : Bytes → FileTree File → Option (FileTree File)}
    (hd : Remappable d) (hgit : ∀ t, gitApply (Diff.render (Diff.map toRedist d)) t =
      applyDiff patchFile (Diff.map toRedist d) t) (a a' : FileTree File) :
    prepare gitApply (Diff.render d) a = .ok a' ↔ ∃ t',
      prepareSource patchFile d (fun p => a (toRedist p)) = .ok t' ∧ extend toRedist t' a = a' := by
  have hself : extend toRedist (fun p => a (toRedist p)) a = a :=
    (extend_eq_iff toRedist_injective ..).mpr ⟨fun _ _ => rfl, fun _ => rfl⟩
  have hrun := prepare_extend hd hgit (fun p => a (toRedist p)) a
  rw [hself] at hrun
  rw [hrun]
  cases prepareSource patchFile d _ with
  | error e => simp [Except.map]
  | ok t' => simp [Except.map]

/-- Two edits, one after the other, of different files. -/
theorem exists_edits_iff {R S : Option File → Option File → Prop} {x y : Path} (hne : x ≠ y) :
    (∃ between : FileTree File, (R (t x) (between x) ∧ ∀ p, p ≠ x → between p = t p) ∧
      S (between y) (t' y) ∧ ∀ p, p ≠ y → t' p = between p) ↔
    R (t x) (t' x) ∧ S (t y) (t' y) ∧ ∀ p, p ≠ x → p ≠ y → t' p = t p := by
  constructor
  · rintro ⟨between, ⟨hx, hkeep⟩, hy, hkeep'⟩
    rw [hkeep y hne.symm] at hy
    rw [← hkeep' x hne] at hx
    exact ⟨hx, hy, fun p hp hp' => (hkeep' p hp').trans (hkeep p hp)⟩
  · rintro ⟨hx, hy, hkeep⟩
    refine ⟨update t' y (t y), ⟨?_, fun p hp => ?_⟩, ?_, fun p hp => (update_of_ne hp ..).symm⟩
    · rwa [update_of_ne hne]
    · by_cases hp' : p = y
      · subst hp'
        exact update_self ..
      · rw [update_of_ne hp', hkeep p hp hp']
    · rwa [update_self]

theorem prepareSource_iff : prepareSource patchFile d t = .ok t' ↔
    ∃ patched, applyDiff patchFile d t = some patched ∧
      ReplacedOnce staticBar1Auto staticBar1Enable (patched kernBusSource) (t' kernBusSource) ∧
      ReplacedOnce pagemapOld pagemapNew (patched uvmP2p) (t' uvmP2p) ∧
      ∀ p, p ≠ kernBusSource → p ≠ uvmP2p → t' p = patched p := by
  have hauto : staticBar1Auto ≠ [] := by decide
  have hold : pagemapOld ≠ [] := by decide
  simp only [prepareSource, bind_eq_ok_iff, orRaise_eq_ok_iff, forceStaticBar1, fixPagemap,
    editFile_replaceOnce_iff hauto, editFile_replaceOnce_iff hold]
  exact exists_congr fun patched => and_congr_right fun _ => exists_edits_iff kernBusSource_ne_uvmP2p

/-- **The `prepare` step**, on any archive: where `git apply` does what a diff says, the step does to
the files of the archive what the donor diff and the two edits do to them as the GitHub tree has them,
and leaves the rest of it alone.  It succeeds where the diff applies and each edit finds what it
replaces and not what it puts there, replaces one occurrence, and cannot be made again. -/
theorem prepare_iff {gitApply : Bytes → FileTree File → Option (FileTree File)}
    (hd : Remappable d) (hgit : ∀ t, gitApply (Diff.render (Diff.map toRedist d)) t =
      applyDiff patchFile (Diff.map toRedist d) t) (a a' : FileTree File) :
    prepare gitApply (Diff.render d) a = .ok a' ↔
      (∀ q, (∀ p, toRedist p ≠ q) → a' q = a q) ∧
      ∃ patched, applyDiff patchFile d (fun p => a (toRedist p)) = some patched ∧
        ReplacedOnce staticBar1Auto staticBar1Enable (patched kernBusSource) (a' kernBus) ∧
        ReplacedOnce pagemapOld pagemapNew (patched uvmP2p) (a' uvmP2p) ∧
        (∀ p, p ≠ kernBusSource → p ≠ uvmP2p → a' (toRedist p) = patched p) ∧
        forceStaticBar1 kernBus a' = .error (.systemExit staticBar1Applied) ∧
        fixPagemap a' = .error (.systemExit pagemapApplied) := by
  rw [prepare_eq_ok_iff hd hgit]
  constructor
  · rintro ⟨t', ht', heq⟩
    obtain ⟨hkeep, hfiles⟩ := (extend_eq_iff toRedist_injective ..).mp heq
    obtain ⟨patched, hpatched, hbar, hpage, hrest⟩ := prepareSource_iff.mp ht'
    rw [← hfiles, toRedist_kernBusSource] at hbar
    rw [← hfiles, toRedist_uvmP2p] at hpage
    exact ⟨hkeep, patched, hpatched, hbar, hpage,
      fun p hp hp' => (hfiles p).trans (hrest p hp hp'),
      editFile_again (by decide) (by decide) hbar, editFile_again (by decide) (by decide) hpage⟩
  · rintro ⟨hkeep, patched, hpatched, hbar, hpage, hrest, -, -⟩
    refine ⟨fun p => a' (toRedist p), prepareSource_iff.mpr ⟨patched, hpatched, ?_, ?_, hrest⟩,
      (extend_eq_iff toRedist_injective ..).mpr ⟨hkeep, fun _ => rfl⟩⟩
    · rw [toRedist_kernBusSource]
      exact hbar
    · rw [toRedist_uvmP2p]
      exact hpage

end

/-! ### A donor diff of one file -/

/-- A line of one file under `src/` is replaced. -/
def donorPatch : FilePatch where
  change := .modified ⟨encodeUtf8 "src/nvidia/a.c", by decide, by decide⟩
  modes := none
  index := some ⟨encodeUtf8 "7898192..6178079 100644", by decide⟩
  hunks := [⟨⟨encodeUtf8 "-1 +1 @@", by decide⟩,
    [(.removed, ⟨encodeUtf8 "a", by decide⟩), (.added, ⟨encodeUtf8 "b", by decide⟩)]⟩]

theorem donorPatch_remappable : Remappable [donorPatch] where
  text := ⟨"diff --git a/src/nvidia/a.c b/src/nvidia/a.c\nindex 7898192..6178079 100644\n" ++
    "--- a/src/nvidia/a.c\n+++ b/src/nvidia/a.c\n@@ -1 +1 @@\n-a\n+b\n", by decide +kernel⟩
  lineEnds := by decide +kernel
  paths := by
    intro patch hpatch
    rw [List.mem_singleton.mp hpatch]
    change InSrc _ → ¬ Path.Quoted _
    decide +kernel
  hunks := by
    intro patch hpatch
    rw [List.mem_singleton.mp hpatch]
    simp only [LooksLikeHeader]
    decide +kernel

def donorPatchFile (_ : Content) (old : Option File) : Option File :=
  if old = some ⟨0o644, encodeUtf8 "a\n"⟩ then some ⟨0o644, encodeUtf8 "b\n"⟩ else none

def donorGitApply (diff : Bytes) (t : FileTree File) : Option (FileTree File) :=
  if diff = Diff.render (Diff.map toRedist [donorPatch]) then
    applyDiff donorPatchFile (Diff.map toRedist [donorPatch]) t
  else none

def redistArchive (p : Path) : Option File :=
  if p.bytes = encodeUtf8 "src/kernel-module-source/src/nvidia/a.c" then
    some ⟨0o644, encodeUtf8 "a\n"⟩
  else if p = kernBus then some ⟨0o644, writeText staticBar1Auto⟩
  else if p = uvmP2p then some ⟨0o644, writeText pagemapOld⟩
  else none

theorem prepare_donorPatch : ∃ a', prepare donorGitApply (Diff.render [donorPatch]) redistArchive =
    .ok a' ∧ forceStaticBar1 kernBus a' = .error (.systemExit staticBar1Applied) := by
  have hgit : ∀ t, donorGitApply (Diff.render (Diff.map toRedist [donorPatch])) t =
      applyDiff donorPatchFile (Diff.map toRedist [donorPatch]) t := fun _ => if_pos rfl
  have hsource : (prepareSource donorPatchFile [donorPatch]
      (fun p => redistArchive (toRedist p))).toBool = true := by decide +kernel
  cases ht : prepareSource donorPatchFile [donorPatch] (fun p => redistArchive (toRedist p)) with
  | error e =>
      rw [ht] at hsource
      cases hsource
  | ok t' =>
      have hrun := (prepare_eq_ok_iff donorPatch_remappable hgit redistArchive _).mpr ⟨t', ht, rfl⟩
      obtain ⟨-, patched, -, -, -, -, hagain, -⟩ :=
        (prepare_iff donorPatch_remappable hgit redistArchive _).mp hrun
      exact ⟨_, hrun, hagain⟩

end TalosP2P.Nvidia
