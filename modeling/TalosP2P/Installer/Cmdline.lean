import Mathlib.Data.List.DropRight
import TalosP2P.Support.Python
import TalosP2P.Support.Words

/-!
# Installer — Cmdline

The step of `build-installer.sh` that appends the IOMMU arguments to the kernel command line it took
out of the UKI.

* `appendArg_eq`: the `case` finds an argument exactly where it stands between spaces or ends.
* `editedCmdline_spec`: what the step keeps, what it adds, and that it adds it once.
-/

namespace TalosP2P.Installer

open Python Words

/-- The arguments of the `for` loop. -/
def iommuArgs : List Bytes := [encodeUtf8 "intel_iommu=on", encodeUtf8 "iommu=pt"]

/-- `existing_cmdline="$(tr -d '\0' < "$verify_dir/cmdline.bin")"`: the substitution drops the
newlines at the end. -/
def existingCmdline (cmdline : Bytes) : Bytes := (cmdline.filter (· ≠ 0)).rdropWhile (· = 0x0a)

/-- The `case` of the loop: `*" $iommu_arg "*` on `" $existing_cmdline "`. -/
def appendArg (existing arg : Bytes) : Bytes :=
  if 0x20 :: arg ++ [0x20] <:+: 0x20 :: existing ++ [0x20] then existing
  else existing ++ [0x20] ++ arg

/-- What the step writes to `cmdline.bin`. -/
def editedCmdline (cmdline : Bytes) : Bytes := iommuArgs.foldl appendArg (existingCmdline cmdline)

theorem appendArg_eq (existing arg : Bytes) : appendArg existing arg = addWord 0x20 existing arg := by
  rw [appendArg, addWord, List.append_assoc, List.singleton_append]
  exact if_congr infix_iff_delimited rfl rfl

theorem editedCmdline_eq (cmdline : Bytes) :
    editedCmdline cmdline = addWords 0x20 (existingCmdline cmdline) iommuArgs := by
  rw [editedCmdline, addWords]
  exact congrArg (fun f => List.foldl f _ _) (funext₂ appendArg_eq)

/-! ### What is read -/

theorem existingCmdline_eq_self {cmdline : Bytes} (hnull : 0 ∉ cmdline)
    (hlast : ∀ c, cmdline.getLast? = some c → c ≠ 0x0a) : existingCmdline cmdline = cmdline := by
  have hfilter : cmdline.filter (· ≠ 0) = cmdline :=
    List.filter_eq_self.mpr fun c hc => decide_eq_true fun h => hnull (h ▸ hc)
  rw [existingCmdline, hfilter, List.rdropWhile_eq_self_iff]
  intro hne hnl
  exact hlast _ (List.getLast?_eq_some_getLast hne) (of_decide_eq_true hnl)

theorem null_not_mem_existingCmdline (cmdline : Bytes) : 0 ∉ existingCmdline cmdline := by
  intro h
  have := List.mem_filter.mp ((List.rdropWhile_prefix _ _).subset h)
  simp at this

theorem getLast?_existingCmdline {cmdline : Bytes} {c : UInt8}
    (h : (existingCmdline cmdline).getLast? = some c) : c ≠ 0x0a := by
  have hne : existingCmdline cmdline ≠ [] := fun hnil => by rw [hnil] at h; cases h
  have hlast := List.rdropWhile_last_not _ _ hne
  rw [List.getLast?_eq_some_getLast hne, Option.some.injEq] at h
  rintro rfl
  exact hlast (decide_eq_true h)

/-! ### What is written -/

theorem iommuArgs_spec : (∀ arg ∈ iommuArgs, 0x20 ∉ arg ∧ 0 ∉ arg ∧ arg.getLast? ≠ some 0x0a ∧
    arg ≠ []) ∧ iommuArgs.Nodup := by
  decide +kernel

theorem editedCmdline_eq_append (cmdline : Bytes) :
    editedCmdline cmdline = existingCmdline cmdline ++
      (iommuArgs.filter fun arg => ¬ Delimited 0x20 arg (existingCmdline cmdline)).flatMap
        (0x20 :: ·) := by
  rw [editedCmdline_eq, addWords_eq (fun arg h => (iommuArgs_spec.1 arg h).1) iommuArgs_spec.2]

/-- What is written is read back as it is. -/
theorem existingCmdline_editedCmdline (cmdline : Bytes) :
    existingCmdline (editedCmdline cmdline) = editedCmdline cmdline := by
  refine existingCmdline_eq_self ?_ fun c hc => ?_
  · intro h
    rw [editedCmdline_eq_append] at h
    rcases List.mem_append.mp h with h | h
    · exact null_not_mem_existingCmdline cmdline h
    · obtain ⟨arg, harg, h⟩ := List.mem_flatMap.mp h
      have := (iommuArgs_spec.1 arg (List.mem_filter.mp harg).1).2.1
      simp [this] at h
  · rw [editedCmdline_eq] at hc
    rcases getLast?_addWords (fun arg h => (iommuArgs_spec.1 arg h).2.2.2) hc with h | ⟨arg, harg, h⟩
    · exact getLast?_existingCmdline h
    · rintro rfl
      exact (iommuArgs_spec.1 arg harg).2.2.1 h

/-- **The command line**: what was there is kept and both arguments stand in it; each is added behind
a space when it did not stand there, and nothing else is; and the step changes nothing when it runs
again. -/
theorem editedCmdline_spec (cmdline : Bytes) :
    existingCmdline cmdline <+: editedCmdline cmdline ∧
      (∀ arg ∈ iommuArgs, Delimited 0x20 arg (editedCmdline cmdline)) ∧
      editedCmdline cmdline = existingCmdline cmdline ++
        (iommuArgs.filter fun arg => ¬ Delimited 0x20 arg (existingCmdline cmdline)).flatMap
          (0x20 :: ·) ∧
      editedCmdline (editedCmdline cmdline) = editedCmdline cmdline := by
  have hargs : ∀ arg ∈ iommuArgs, Delimited 0x20 arg (editedCmdline cmdline) := fun arg harg => by
    rw [editedCmdline_eq]
    exact delimited_of_mem_addWords harg _
  refine ⟨?_, hargs, editedCmdline_eq_append cmdline, ?_⟩
  · rw [editedCmdline_eq_append]
    exact List.prefix_append _ _
  · rw [editedCmdline_eq (editedCmdline cmdline), existingCmdline_editedCmdline]
    exact addWords_eq_self hargs

/-- `intel_iommu=on` holds `iommu=on`, not `iommu=pt`, and `iommu=pt2` does not count either. -/
example : editedCmdline (encodeUtf8 "intel_iommu=on iommu=pt2\n") =
    encodeUtf8 "intel_iommu=on iommu=pt2 iommu=pt" := by
  decide +kernel

end TalosP2P.Installer
