import TalosP2P.Matrix.Coherence

/-!
# Matrix — Release

The release matrix of the repository, with the fields `artifacts.customSysextImage` and
`artifacts.customSysextDigest` left open.

* `accepts_releaseMatrix`: the gate accepts the matrix whatever these fields hold, as long as they
  are not blank and name no stale term.
-/

namespace TalosP2P.Matrix

open Python

/-- A text of the document. -/
def text (s : String) : Value := .str (str s)

/-- A mapping of the document. -/
def mapping (entries : List (String × Value)) : Value :=
  .map (entries.map fun e => (text e.1, e.2))

/-- The lines of `docs/release-matrix.yaml` before the sysext, less the fields no script reads and
with shorter texts for people. -/
def linesBefore : List String :=
  ["schemaVersion: 1",
    "baseGpuNode: <gpu-node-name>",
    "baseGpuNodeInternalIP: <gpu-node-ip>",
    "targetTalosVersion: v1.12.6",
    "targetTalosMinor: v1.12",
    "kubernetesVersion: v1.32.5",
    "kubernetesMinor: v1.32",
    "arch: amd64",
    "osImage: Talos (v1.12.6)",
    "nvidia:",
    "  selectedTrack: lts",
    "  selectedTrackReason: The donor patch now rides on the stock 580.105.08 LTS family",
    "  upstreamOpenModuleTag: 580.105.08",
    "  upstreamOpenModuleSource:",
    "    repository: https://github.com/NVIDIA/open-gpu-kernel-modules",
    "    release: 580.105.08",
    "    releaseURL: https://github.com/NVIDIA/open-gpu-kernel-modules/releases/tag/580.105.08",
    "    commit: 2af9f1f0f7de4988432d4ae875b5858ffdb09cc2",
    "  donorPatchSource:",
    "    repository: https://github.com/aikitoria/open-gpu-kernel-modules",
    "    branch: 580.105.08-p2p",
    "    donorBaseRelease: 580.105.08",
    "    lineage: Donor patch rebased onto its native NVIDIA 580.105.08 LTS base",
    "    baseCommit: 2af9f1f0f7de4988432d4ae875b5858ffdb09cc2",
    "    patchCommit: 510a7720de1e7fa3ef374a721b48f700b23895b9",
    "    branchHeadCommit: 7e392c1e0b8e2e8e82958d9d17ba3a0721551a2a",
    "    compareDiffURL: https://github.com/aikitoria/open-gpu-kernel-modules/compare/2af9f1f0f7de4988432d4ae875b5858ffdb09cc2...510a7720de1e7fa3ef374a721b48f700b23895b9.diff",
    "  officialOpenModuleExtension:",
    "    name: siderolabs/nvidia-open-gpu-kernel-modules-lts",
    "    ref: ghcr.io/siderolabs/nvidia-open-gpu-kernel-modules-lts:580.105.08-v1.12.0",
    "    digest: sha256:aa769308b09815c604d4f445357256762c6ecfea60e5b902320193326f4a37af",
    "  officialUserspaceToolkitExtension:",
    "    name: siderolabs/nvidia-container-toolkit-lts",
    "    ref: ghcr.io/siderolabs/nvidia-container-toolkit-lts:580.105.08-v1.18.1",
    "    digest: sha256:3c367715634984f4e4299f38897b5aca4e46bf1430996b49c3829733b0497d7c",
    "    track: lts",
    "    driverFamilyBranch: \"580\"",
    "    sourceRepository: https://github.com/siderolabs/extensions",
    "artifacts:",
    "  currentRollbackInstallerImage:",
    "    ref: factory.talos.dev/installer/383ff20982d317df4085095c792d4927aa9cc88c56d7f67242f8c91d8e6b3142:v1.12.6",
    "    discoverableFrom: talosctl get machineconfig -n <gpu-node-ip> -o yaml"]

/-- The lines that are left open. -/
def openLines (customSysextImage customSysextDigest : String) : List String :=
  ["  customSysextImage: " ++ customSysextImage, "  customSysextDigest: " ++ customSysextDigest]

/-- The lines after them. -/
def linesAfter : List String :=
  ["abortConditions:",
    "  - code: donor_patch_no_longer_ports_cleanly",
    "    stopWhen: The aikitoria donor diff no longer applies cleanly.",
    "  - code: stock_toolkit_track_mismatch",
    "    stopWhen: The toolkit no longer matches the selected driver family.",
    "  - code: missing_rollback_image",
    "    stopWhen: No currently deployable rollback installer image is pinned.",
    "verification:",
    "  matrixValidationCommand: bash hack/p2p/check-matrix.sh docs/release-matrix.yaml",
    "  donorPatchValidationCommand: bash hack/p2p/check-patch-apply.sh docs/release-matrix.yaml",
    "  userspaceTrackValidationCommand: bash hack/p2p/check-userspace-track.sh docs/release-matrix.yaml",
    "  rollbackImageDiscoveryCommand: talosctl get machineconfig -n <gpu-node-ip> -o yaml",
    "repository:",
    "  origin: himekifee/talos-tinygrad-nvidia-p2p-driver",
    "  upstream: siderolabs/extensions"]

/-- The text of the release matrix. -/
def releaseText (customSysextImage customSysextDigest : String) : Text :=
  printLines ((linesBefore ++ openLines customSysextImage customSysextDigest ++ linesAfter).map
    String.toList)

/-- The document `yaml.safe_load` makes of it. -/
def releaseMatrix (customSysextImage customSysextDigest : String) : Value := mapping
  [("schemaVersion", .int 1),
    ("baseGpuNode", text "<gpu-node-name>"),
    ("baseGpuNodeInternalIP", text "<gpu-node-ip>"),
    ("targetTalosVersion", text "v1.12.6"),
    ("targetTalosMinor", text "v1.12"),
    ("kubernetesVersion", text "v1.32.5"),
    ("kubernetesMinor", text "v1.32"),
    ("arch", text "amd64"),
    ("osImage", text "Talos (v1.12.6)"),
    ("nvidia", mapping
      [("selectedTrack", text "lts"),
        ("selectedTrackReason", text "The donor patch now rides on the stock 580.105.08 LTS family"),
        ("upstreamOpenModuleTag", text "580.105.08"),
        ("upstreamOpenModuleSource", mapping
          [("repository", text "https://github.com/NVIDIA/open-gpu-kernel-modules"),
            ("release", text "580.105.08"),
            ("releaseURL",
              text "https://github.com/NVIDIA/open-gpu-kernel-modules/releases/tag/580.105.08"),
            ("commit", text "2af9f1f0f7de4988432d4ae875b5858ffdb09cc2")]),
        ("donorPatchSource", mapping
          [("repository", text "https://github.com/aikitoria/open-gpu-kernel-modules"),
            ("branch", text "580.105.08-p2p"),
            ("donorBaseRelease", text "580.105.08"),
            ("lineage", text "Donor patch rebased onto its native NVIDIA 580.105.08 LTS base"),
            ("baseCommit", text "2af9f1f0f7de4988432d4ae875b5858ffdb09cc2"),
            ("patchCommit", text "510a7720de1e7fa3ef374a721b48f700b23895b9"),
            ("branchHeadCommit", text "7e392c1e0b8e2e8e82958d9d17ba3a0721551a2a"),
            ("compareDiffURL", text Expected.donorCompareDiffURL)]),
        ("officialOpenModuleExtension", mapping
          [("name", text "siderolabs/nvidia-open-gpu-kernel-modules-lts"),
            ("ref",
              text "ghcr.io/siderolabs/nvidia-open-gpu-kernel-modules-lts:580.105.08-v1.12.0"),
            ("digest",
              text "sha256:aa769308b09815c604d4f445357256762c6ecfea60e5b902320193326f4a37af")]),
        ("officialUserspaceToolkitExtension", mapping
          [("name", text "siderolabs/nvidia-container-toolkit-lts"),
            ("ref", text "ghcr.io/siderolabs/nvidia-container-toolkit-lts:580.105.08-v1.18.1"),
            ("digest",
              text "sha256:3c367715634984f4e4299f38897b5aca4e46bf1430996b49c3829733b0497d7c"),
            ("track", text "lts"),
            ("driverFamilyBranch", text "580"),
            ("sourceRepository", text "https://github.com/siderolabs/extensions")])]),
    ("artifacts", mapping
      [("currentRollbackInstallerImage", mapping
          [("ref", text Expected.rollbackInstaller),
            ("discoverableFrom", text "talosctl get machineconfig -n <gpu-node-ip> -o yaml")]),
        ("customSysextImage", text customSysextImage),
        ("customSysextDigest", text customSysextDigest)]),
    ("abortConditions", .seq
      [mapping
          [("code", text "donor_patch_no_longer_ports_cleanly"),
            ("stopWhen", text "The aikitoria donor diff no longer applies cleanly.")],
        mapping
          [("code", text "stock_toolkit_track_mismatch"),
            ("stopWhen", text "The toolkit no longer matches the selected driver family.")],
        mapping
          [("code", text "missing_rollback_image"),
            ("stopWhen", text "No currently deployable rollback installer image is pinned.")]]),
    ("verification", mapping
      [("matrixValidationCommand",
          text "bash hack/p2p/check-matrix.sh docs/release-matrix.yaml"),
        ("donorPatchValidationCommand",
          text "bash hack/p2p/check-patch-apply.sh docs/release-matrix.yaml"),
        ("userspaceTrackValidationCommand",
          text "bash hack/p2p/check-userspace-track.sh docs/release-matrix.yaml"),
        ("rollbackImageDiscoveryCommand",
          text "talosctl get machineconfig -n <gpu-node-ip> -o yaml")]),
    ("repository", mapping
      [("origin", text "himekifee/talos-tinygrad-nvidia-p2p-driver"),
        ("upstream", text "siderolabs/extensions")])]

/-! ### A text that is stripped already -/

/-- A text with no white space at its ends. -/
def Trimmed (s : Str) : Prop :=
  s.head?.any (!CodePoint.isWhitespace ·) = true ∧
    s.reverse.head?.any (!CodePoint.isWhitespace ·) = true

instance (s : Str) : Decidable (Trimmed s) := inferInstanceAs (Decidable (_ ∧ _))

theorem dropWhile_eq_self {p : CodePoint → Bool} {s : Str} (h : s.head?.any (!p ·) = true) :
    s.dropWhile p = s := by
  cases s with
  | nil => rfl
  | cons c s => exact List.dropWhile_cons_of_neg (by simpa using h)

theorem Trimmed.strip {s : Str} (h : Trimmed s) : Str.strip s = s := by
  rw [Str.strip, stripWhere, dropWhile_eq_self h.1, dropWhile_eq_self h.2, List.reverse_reverse]

theorem Trimmed.ne_nil {s : Str} (h : Trimmed s) : s ≠ [] := by
  rintro rfl
  cases h.1

theorem Trimmed.requireString {document : Value} {path : List String} {s : Str} (h : Trimmed s)
    (hv : getPath document path = .str s) : requireString document path = .ok s :=
  requireString_ok_iff.mpr ⟨s, hv, h.strip, h.ne_nil⟩

/-! ### Looking a field up -/

theorem getPath_mapping_nil (key : String) (path : List String) :
    getPath (mapping []) (key :: path) = .null := rfl

/-- A path into a mapping, entry by entry. -/
theorem getPath_mapping_cons (k key : String) (v : Value) (entries : List (String × Value))
    (path : List String) : getPath (mapping ((k, v) :: entries)) (key :: path) =
      if k = key then getPath v path else getPath (mapping entries) (key :: path) := by
  by_cases h : k = key <;>
    simp [mapping, getPath, text, Value.lookup, Value.isStr_str, h]

theorem hasKey_mapping_cons (k key : String) (v : Value) (entries : List (String × Value)) :
    Gate.hasKey (mapping ((k, v) :: entries)) key =
      (decide (k = key) || Gate.hasKey (mapping entries) key) := by
  by_cases h : k = key <;>
    simp [mapping, Gate.hasKey, text, Value.lookup, Value.isStr_str, h]

/-- The texts of the matrix the gate leaves open. -/
def openTexts : List (List String × String) :=
  [(["baseGpuNode"], "<gpu-node-name>"), (["baseGpuNodeInternalIP"], "<gpu-node-ip>"),
    (["artifacts", "currentRollbackInstallerImage", "discoverableFrom"],
      "talosctl get machineconfig -n <gpu-node-ip> -o yaml"),
    (["verification", "rollbackImageDiscoveryCommand"],
      "talosctl get machineconfig -n <gpu-node-ip> -o yaml"),
    (["repository", "origin"], "himekifee/talos-tinygrad-nvidia-p2p-driver"),
    (["nvidia", "selectedTrackReason"],
      "The donor patch now rides on the stock 580.105.08 LTS family"),
    (["nvidia", "donorPatchSource", "lineage"],
      "Donor patch rebased onto its native NVIDIA 580.105.08 LTS base")]

/-- The texts the gate requires, as they are in the matrix. -/
def releaseFields : List (List String × String) :=
  rootFields ++ trackFields ++ donorFields ++ extensionFields ++ otherFields ++
    expectedVerificationCommands.map (fun command => (["verification", command.1], command.2)) ++
    openTexts

section

variable {image digest : String}

/-- The fields hold their texts, and these have no white space at their ends. -/
theorem releaseFields_spec : ∀ field ∈ releaseFields,
    getPath (releaseMatrix image digest) field.1 = text field.2 ∧ Trimmed (str field.2) := by
  simp only [releaseFields, openTexts, rootFields, trackFields, donorFields, extensionFields, otherFields,
    expectedVerificationCommands, List.map_cons, List.map_nil, List.cons_append, List.nil_append,
    List.forall_mem_cons, List.not_mem_nil, IsEmpty.forall_iff, implies_true, and_true]
  simp only [releaseMatrix, getPath_mapping_cons, getPath_nil, reduceIte, String.reduceEq,
    Expected.targetTalosVersion, Expected.targetTalosMinor, Expected.kubernetesVersion,
    Expected.kubernetesMinor, Expected.arch, Expected.osImage, Expected.selectedTrack,
    Expected.upstreamTag, Expected.upstreamRepository, Expected.upstreamReleaseURL,
    Expected.upstreamCommit, Expected.donorRepository, Expected.donorBranch,
    Expected.donorBaseRelease, Expected.donorBaseCommit, Expected.donorPatchCommit,
    Expected.donorBranchHeadCommit, Expected.donorCompareDiffURL, Expected.openModuleName,
    Expected.openModuleRef, Expected.openModuleDigest, Expected.toolkitName, Expected.toolkitRef,
    Expected.toolkitDigest, Expected.toolkitTrack, Expected.toolkitDriverFamilyBranch,
    Expected.toolkitSourceRepository, Expected.rollbackInstaller, Expected.repositoryUpstream,
    true_and]
  and_intros
  all_goals
    rw [str_ofList]
    decide +kernel

theorem holds_releaseFields : Holds (releaseMatrix image digest) releaseFields := by
  intro field hfield
  obtain ⟨hv, hs⟩ := @releaseFields_spec image digest field hfield
  exact hs.requireString hv

/-! ### The matrix is accepted -/

theorem forall_staleTerms_iff {P : String → Prop} :
    (∀ term ∈ staleTerms, P term) ↔ P "wozeparrot" ∧ P "legacyfix" := by
  simp [staleTerms]

theorem linesBefore_noStaleTerm :
    ∀ line ∈ linesBefore, ∀ term ∈ staleTerms, ¬ term.toList <:+: lower line.toList := by
  simp only [linesBefore, List.forall_mem_cons, List.not_mem_nil, IsEmpty.forall_iff, implies_true,
    and_true, forall_staleTerms_iff]
  and_intros
  all_goals
    rw [String.toList_ofList, String.toList_ofList]
    decide +kernel

theorem linesAfter_noStaleTerm :
    ∀ line ∈ linesAfter, ∀ term ∈ staleTerms, ¬ term.toList <:+: lower line.toList := by
  simp only [linesAfter, List.forall_mem_cons, List.not_mem_nil, IsEmpty.forall_iff, implies_true,
    and_true, forall_staleTerms_iff]
  and_intros
  all_goals
    rw [String.toList_ofList, String.toList_ofList]
    decide +kernel

/-- A stale term that is in the text is in one of the lines that are open. -/
theorem releaseText_noStaleTerm
    (h : ∀ line ∈ openLines image digest, ∀ term ∈ staleTerms, ¬ term.toList <:+: lower line.toList) :
    ∀ term ∈ staleTerms, ¬ term.toList <:+: lower (releaseText image digest) := by
  have hplain : ∀ term ∈ staleTerms, '\n' ∉ term.toList ∧ term.toList ≠ [] := by decide
  intro term hterm hin
  rw [releaseText, lower_printLines, List.map_map] at hin
  obtain ⟨v, hv, hin⟩ := infix_printLines (hplain term hterm).1 (hplain term hterm).2 hin
  obtain ⟨line, hline, rfl⟩ := List.mem_map.mp hv
  rcases List.mem_append.mp hline with hline | hline
  · rcases List.mem_append.mp hline with hline | hline
    · exact linesBefore_noStaleTerm line hline term hterm hin
    · exact h line hline term hterm hin
  · exact linesAfter_noStaleTerm line hline term hterm hin

theorem aborts_releaseMatrix : ∃ conditions,
    getPath (releaseMatrix image digest) ["abortConditions"] = .seq conditions ∧
      Aborts conditions := by
  simp only [releaseMatrix, getPath_mapping_cons, getPath_nil, reduceIte, String.reduceEq]
  refine ⟨_, rfl, ?_⟩
  simp only [aborts_iff, expectedAbortCodes, List.forall_mem_cons, List.exists_mem_cons_iff,
    List.not_mem_nil, IsEmpty.forall_iff, implies_true, and_true, false_and, exists_false, or_false]
  refine ⟨⟨⟨_, Trimmed.requireString ?_ rfl⟩, ⟨_, Trimmed.requireString ?_ rfl⟩, _,
      Trimmed.requireString ?_ rfl⟩,
    ⟨⟨_, Trimmed.requireString ?_ rfl⟩, ⟨_, Trimmed.requireString ?_ rfl⟩, _,
      Trimmed.requireString ?_ rfl⟩,
    .inl (Trimmed.requireString ?_ rfl), .inr (.inr (Trimmed.requireString ?_ rfl)),
    .inr (.inl (Trimmed.requireString ?_ rfl))⟩
  all_goals
    rw [str_ofList]
    decide +kernel

theorem coherent_releaseMatrix (himage : Str.strip (str image) ≠ []) (hdigest : Str.strip (str digest) ≠ [])
    (hlines : ∀ line ∈ openLines image digest, ∀ term ∈ staleTerms,
      ¬ term.toList <:+: lower line.toList) :
    Coherent (releaseText image digest) (releaseMatrix image digest) := by
  have hopen : Holds (releaseMatrix image digest) openTexts := fun f hf =>
    holds_releaseFields f (by simp only [releaseFields, List.mem_append, hf, or_true])
  simp only [openTexts, holds_cons_iff, holds_nil, and_true] at hopen
  obtain ⟨hnode, hip, hdisc, hdiscovery, horigin, hreason, hlineage⟩ := hopen
  exact
    { schemaVersion := rfl
      root := fun f hf => holds_releaseFields f (by
        simp only [releaseFields, List.mem_append, hf, true_or])
      track := fun f hf => holds_releaseFields f (by
        simp only [releaseFields, List.mem_append, hf, true_or, or_true])
      donor := fun f hf => holds_releaseFields f (by
        simp only [releaseFields, List.mem_append, hf, true_or, or_true])
      extensions := fun f hf => holds_releaseFields f (by
        simp only [releaseFields, List.mem_append, hf, true_or, or_true])
      others := fun f hf => holds_releaseFields f (by
        simp only [releaseFields, List.mem_append, hf, true_or, or_true])
      commands := fun command hc =>
        holds_releaseFields (["verification", command.1], command.2) (by
          simp only [releaseFields, List.mem_append, List.mem_map]
          exact .inl (.inr ⟨command, hc, rfl⟩))
      present := by
        simp only [openFields, List.forall_mem_cons, List.not_mem_nil, IsEmpty.forall_iff,
          implies_true, and_true]
        exact ⟨⟨_, hnode⟩, ⟨_, hip⟩, ⟨_, hdisc⟩, ⟨_, hdiscovery⟩, _, horigin⟩
      optional := by
        simp only [optionalFields, List.forall_mem_cons, List.not_mem_nil, IsEmpty.forall_iff,
          implies_true, and_true, requireString_ok_iff, releaseMatrix, getPath_mapping_cons,
          getPath_mapping_nil, getPath_nil, reduceIte, String.reduceEq]
        simp [text, himage, hdigest]
      talosMinor := by
        simp only [releaseMatrix, getPath_mapping_cons, getPath_nil, reduceIte, String.reduceEq]
        decide +kernel
      kubernetesMinor := by
        simp only [releaseMatrix, getPath_mapping_cons, getPath_nil, reduceIte, String.reduceEq]
        decide +kernel
      reason := by
        refine ⟨_, hreason, ?_⟩
        rw [str_ofList, str_ofList]
        decide +kernel
      lineage := by
        refine ⟨_, hlineage, ?_⟩
        rw [Expected.upstreamTag, str_ofList, str_ofList, str_ofList]
        decide +kernel
      noTinygrad := by
        simp only [releaseMatrix, getPath_mapping_cons, getPath_mapping_nil, getPath_nil, reduceIte,
          String.reduceEq]
      noStaleKey := by
        simp only [staleRootKeys, List.forall_mem_cons, List.not_mem_nil, IsEmpty.forall_iff,
          implies_true, and_true, releaseMatrix, hasKey_mapping_cons, String.reduceEq, decide_false, Bool.false_or]
        exact ⟨rfl, rfl, rfl, rfl, rfl, rfl⟩
      noStaleTerm := releaseText_noStaleTerm hlines
      aborts := aborts_releaseMatrix }

/-- **The open fields**: the gate accepts the release matrix whatever is written as the sysext and
its digest, as long as it is not blank and names no stale term. -/
theorem accepts_releaseMatrix {stdout : StreamErrors} {matrixPath : Text} (himage : Str.strip (str image) ≠ [])
    (hdigest : Str.strip (str digest) ≠ [])
    (hlines : ∀ line ∈ openLines image digest, ∀ term ∈ staleTerms,
      ¬ term.toList <:+: lower line.toList) :
    Accepts stdout matrixPath (releaseText image digest) (releaseMatrix image digest) :=
  accepts_iff.mpr (coherent_releaseMatrix himage hdigest hlines)

end

end TalosP2P.Matrix
