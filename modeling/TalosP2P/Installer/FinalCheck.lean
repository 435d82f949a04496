import TalosP2P.Support.Search
import TalosP2P.Support.Shell
import TalosP2P.Support.Utf8Ignore

/-!
# Installer — FinalCheck

The check of the published installer, in `build-installer.sh` and in the publish workflow: the names
of the NVIDIA extensions are searched in its initrd, which is read as a text, and the shell looks for
three of them in what was found.

* `verifyInitrd_iff`: the check, told on the bytes of the initrd.
-/

namespace TalosP2P.Installer

open Python Shell Search

def customExtension : Text := "name: nvidia-modules-p2p-lts".toList

def toolkitExtension : Text := "name: nvidia-container-toolkit-lts".toList

def officialExtension : Text := "name: nvidia-open-gpu-kernel-modules-lts".toList

/-- The alternatives of `pattern`, in their order. -/
def extensionPatterns : List Text := [customExtension, toolkitExtension, officialExtension]

/-- The initrd of the image, by its first bytes: `zstd -d`, `lzma.decompress`, or as it is. -/
def rawInitrd (zstd xz : Bytes → Option Bytes) (data : Bytes) : Option Bytes :=
  if [0x28, 0xb5, 0x2f, 0xfd].isPrefixOf data then zstd data
  else if [0xfd, 0x37, 0x7a, 0x58, 0x5a, 0x00].isPrefixOf data then xz data
  else some data

/-- The lines the Python script prints. -/
def extensionNames (raw : Bytes) : List Text := findAll extensionPatterns 0 (decodeIgnore raw)

/-- `printf '%s\n' "$extension_names" | grep -F name`. -/
def grepNames (raw : Bytes) (name : Text) : Bool :=
  (mapfile (substituted (printLines (extensionNames raw)) ++ ['\n'])).any fun line => name <:+: line

def missingCustom : Failure :=
  ⟨"custom P2P NVIDIA sysext is missing from the installer initrd".toList⟩

def missingToolkit : Failure :=
  ⟨"stock NVIDIA userspace toolkit sysext is missing from the installer initrd".toList⟩

def officialIncluded : Failure :=
  ⟨"official nvidia-open-gpu-kernel-modules-lts was included alongside the custom P2P sysext".toList⟩

def verifyExtensions (raw : Bytes) : Except Failure Unit := do
  if !grepNames raw customExtension then throw missingCustom
  if !grepNames raw toolkitExtension then throw missingToolkit
  if grepNames raw officialExtension then throw officialIncluded

/-- The script dies without a message where the initrd is not decompressed. -/
def verifyInitrd (zstd xz : Bytes → Option Bytes) (data : Bytes) : Option (Except Failure Unit) :=
  (rawInitrd zstd xz data).map verifyExtensions

/-! ### The patterns -/

theorem patterns_plain : ∀ p ∈ extensionPatterns, p ≠ [] ∧ '\n' ∉ p ∧ Char.ofNat 0 ∉ p ∧
    ∀ c ∈ p, c.toNat < 128 := by
  have hplain : ∀ p ∈ extensionPatterns, p ≠ [] ∧ '\n' ∉ p ∧ Char.ofNat 0 ∉ p ∧
      p.all (fun c => decide (c.toNat < 128)) = true := by decide
  intro p hp
  obtain ⟨hne, hnl, hnul, hascii⟩ := hplain p hp
  exact ⟨hne, hnl, hnul, fun c hc => of_decide_eq_true (List.all_eq_true.mp hascii c hc)⟩

theorem patterns_apart : Apart extensionPatterns where
  nonempty := fun p hp => (patterns_plain p hp).1
  same := by decide
  inner := by decide +kernel

theorem patterns_inside : ∀ p ∈ extensionPatterns, ∀ q ∈ extensionPatterns, p <:+: q → p = q := by
  decide

/-- What the shell finds is what the Python script found. -/
theorem grepNames_iff {raw : Bytes} {name : Text} (hname : name ∈ extensionPatterns) :
    grepNames raw name = true ↔ name <:+: decodeIgnore raw := by
  have hnames : ∀ q ∈ extensionNames raw, q ∈ extensionPatterns :=
    fun q hq => (infix_of_mem_findAll hq).1
  rw [← mem_findAll_iff patterns_apart hname, grepNames, List.any_eq_true]
  by_cases hnil : extensionNames raw = []
  · have hlines : mapfile (substituted (printLines (extensionNames raw)) ++ ['\n']) = [[]] := by
      rw [hnil]
      decide
    rw [hlines]
    refine iff_of_false ?_ ?_
    · rintro ⟨line, hline, h⟩
      rw [List.mem_singleton.mp hline] at h
      exact (patterns_plain name hname).1 (List.infix_nil.mp (of_decide_eq_true h))
    · intro h
      rw [extensionNames] at hnil
      rw [hnil] at h
      cases h
  · rw [mapfile_substituted hnil fun q hq =>
      ⟨(patterns_plain q (hnames q hq)).2.1, (patterns_plain q (hnames q hq)).2.2.1,
        (patterns_plain q (hnames q hq)).1⟩]
    constructor
    · rintro ⟨line, hline, h⟩
      rwa [patterns_inside name hname line (hnames line hline) (of_decide_eq_true h)]
    · intro h
      exact ⟨name, h, decide_eq_true (List.infix_refl name)⟩

/-- Where an initrd has a name: its bytes, with nothing but bytes between them that are no UTF-8. -/
def Names (raw : Bytes) (name : Text) : Prop := ∃ b, Spells name b ∧ b <:+: raw

theorem grepNames_iff_names {raw : Bytes} {name : Text} (hname : name ∈ extensionPatterns) :
    grepNames raw name = true ↔ Names raw name := by
  obtain ⟨hne, -, -, hascii⟩ := patterns_plain name hname
  rw [grepNames_iff hname, infix_decodeIgnore_iff hascii hne, Names]

/-- What is read of the initrd decides the check, and the first thing that is wrong its message. -/
theorem verifyExtensions_cases (raw : Bytes) :
    (verifyExtensions raw = .ok () ↔ Names raw customExtension ∧ Names raw toolkitExtension ∧
      ¬ Names raw officialExtension) ∧
    (verifyExtensions raw = .error missingCustom ↔ ¬ Names raw customExtension) ∧
    (verifyExtensions raw = .error missingToolkit ↔
      Names raw customExtension ∧ ¬ Names raw toolkitExtension) ∧
    (verifyExtensions raw = .error officialIncluded ↔
      Names raw customExtension ∧ Names raw toolkitExtension ∧ Names raw officialExtension) := by
  have hcustom := @grepNames_iff_names raw customExtension (by simp [extensionPatterns])
  have htoolkit := @grepNames_iff_names raw toolkitExtension (by simp [extensionPatterns])
  have hofficial := @grepNames_iff_names raw officialExtension (by simp [extensionPatterns])
  obtain ⟨hct, hco, hto⟩ : missingCustom ≠ missingToolkit ∧ missingCustom ≠ officialIncluded ∧
      missingToolkit ≠ officialIncluded := by decide
  rw [← hcustom, ← htoolkit, ← hofficial]
  by_cases hc : grepNames raw customExtension = true
  · by_cases ht : grepNames raw toolkitExtension = true
    · by_cases ho : grepNames raw officialExtension = true
      · have hrun : verifyExtensions raw = .error officialIncluded := by
          simp only [verifyExtensions, hc, ht, ho]
          rfl
        simp [hrun, hc, ht, ho, hco.symm, hto.symm]
      · have hrun : verifyExtensions raw = .ok () := by
          simp only [verifyExtensions, hc, ht, ho]
          rfl
        simp [hrun, hc, ht, ho]
    · have hrun : verifyExtensions raw = .error missingToolkit := by
        simp only [verifyExtensions, hc, ht]
        rfl
      simp [hrun, hc, ht, hct.symm, hto]
  · have hrun : verifyExtensions raw = .error missingCustom := by
      simp only [verifyExtensions, hc]
      rfl
    simp [hrun, hc, hct, hco]

/-- **The final check**, on every initrd that can be read: it passes those that have the names of the
two extensions and not that of the official one, fails the others with the message of the first
thing that is wrong, and misses no name whose bytes are there, whatever stands around them. -/
theorem verifyInitrd_iff (zstd xz : Bytes → Option Bytes) (data : Bytes) :
    (verifyInitrd zstd xz data = some (.ok ()) ↔ ∃ raw ∈ rawInitrd zstd xz data,
      Names raw customExtension ∧ Names raw toolkitExtension ∧ ¬ Names raw officialExtension) ∧
    (verifyInitrd zstd xz data = some (.error missingCustom) ↔
      ∃ raw ∈ rawInitrd zstd xz data, ¬ Names raw customExtension) ∧
    (verifyInitrd zstd xz data = some (.error missingToolkit) ↔
      ∃ raw ∈ rawInitrd zstd xz data, Names raw customExtension ∧ ¬ Names raw toolkitExtension) ∧
    (verifyInitrd zstd xz data = some (.error officialIncluded) ↔
      ∃ raw ∈ rawInitrd zstd xz data, Names raw customExtension ∧ Names raw toolkitExtension ∧
        Names raw officialExtension) ∧
    ∀ raw, ∀ name ∈ extensionPatterns, name.map asciiByte <:+: raw → Names raw name := by
  have hmap : ∀ result, verifyInitrd zstd xz data = some result ↔
      ∃ raw ∈ rawInitrd zstd xz data, verifyExtensions raw = result := by
    intro result
    rw [verifyInitrd, Option.map_eq_some_iff]
    rfl
  refine ⟨?_, ?_, ?_, ?_, ?_⟩
  · simp only [hmap, (verifyExtensions_cases _).1]
  · simp only [hmap, (verifyExtensions_cases _).2.1]
  · simp only [hmap, (verifyExtensions_cases _).2.2.1]
  · simp only [hmap, (verifyExtensions_cases _).2.2.2]
  · intro raw name hname h
    exact ⟨name.map asciiByte, spells_map (patterns_plain name hname).1, h⟩

end TalosP2P.Installer
