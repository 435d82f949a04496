import TalosP2P.Matrix.Installer

/-!
# Matrix — Validators

The two other scripts that read the release matrix before a build: `check-userspace-track.sh`, which
holds it against `nvidia-gpu/vars.yaml` and the `vars.yaml` of the toolkit, and the matrix reader of
`check-patch-apply.sh`.

* `checkUserspaceTrack_of_coherent`, `patchValues_of_coherent`: what they make of a coherent matrix.
* `accepted_by_all`: they accept every matrix the gate accepts.
-/

namespace TalosP2P.Matrix

open Python

/-! ### `vars.yaml` -/

/-- A line of `load_vars`, if it gives a value. -/
def varsLine (rawLine : Text) : Option (Text × Text) :=
  let line := strip rawLine
  if line = [] ∨ line.head? = some '#' ∨ ':' ∉ line then none
  else some (strip (beforeFirst ':' line), stripWhere (· = '"') (strip (afterFirst ':' line)))

/-- `load_vars(path)`, of the text at the path: the values in the order they are set. -/
def loadVars (text : Text) : List (Text × Text) := (splitLines text).filterMap varsLine

/-- `values.get(key)`: the value set last. -/
def varsGet (key : Str) (values : List (Text × Text)) : Option Text :=
  (values.reverse.find? fun v => ofText v.1 = key).map Prod.snd

/-- **The value set last**: a line that sets a key, when no later line does, gives its value. -/
theorem varsGet_of_last {key : Str} {name value : Text} {lines front back : List String} {line : String}
    (hsplit : lines = front ++ line :: back)
    (hlines : ∀ l ∈ lines, ∀ c ∈ l.toList, isLineBreak c = false)
    (hline : varsLine line.toList = some (name, value)) (hname : ofText name = key)
    (hback : ∀ l ∈ back, ∀ v ∈ varsLine l.toList, ofText v.1 ≠ key) :
    varsGet key (loadVars (printLines (lines.map String.toList))) = some value := by
  have hnone : ((back.map String.toList).filterMap varsLine).reverse.find?
      (fun v => ofText v.1 = key) = none := by
    rw [List.find?_eq_none]
    intro v hv
    obtain ⟨t, ht, hv⟩ := List.mem_filterMap.mp (List.mem_reverse.mp hv)
    obtain ⟨l, hl, rfl⟩ := List.mem_map.mp ht
    simpa using hback l hl v hv
  rw [loadVars, splitLines_printLines (List.forall_mem_map.mpr hlines), varsGet, hsplit,
    List.map_append, List.map_cons, List.filterMap_append, List.filterMap_cons_some hline,
    List.reverse_append, List.reverse_cons, List.append_assoc, List.find?_append, hnone]
  simp [hname]

/-- The lines of `nvidia-gpu/vars.yaml`. -/
def varsLines : List String :=
  ["# only update if there's a matching fabric manager version",
    "# renovate: datasource=github-releases extractVersion=^\\d+\\.(?<version>\\d+\\.\\d+)$ depName=nvidia/open-gpu-kernel-modules",
    "NVIDIA_DRIVER_LTS_VERSION: 580.105.08",
    "NVIDIA_PKGS_LTS_ARM64_SHA256: f5a55304de7c9d2474e9c9a0abddad49c24493ad94aeafc20a19797726a58e3a",
    "NVIDIA_PKGS_LTS_ARM64_SHA512: fcb36312ff7dac34c996cdb6a1d4028c6fce5f5c95b2af6937ea5c100ab16308b7e84145b8f0f0bbc1abaa9b888ee8635ec6c9f61b30f7871a545e7933781e08",
    "NVIDIA_PKGS_LTS_AMD64_SHA256: 67c1a571737b7425039f7bce8e78e4249583582e428acc7e107da117b251c796",
    "NVIDIA_PKGS_LTS_AMD64_SHA512: 0c3e8f4a3ce8c0051a2a7ab68ce291549b3790f8c8a7c0743b17d391822bdc99f84ea1c2a673d0ee70f41b2f33b5fd30ce25d6876f84894bb27a53acda06222a",
    "NVIDIA_FABRIC_MANAGER_LTS_ARM64_SHA256: 1dcfc3ce6e40258686da2ed9c125a572d44aad13592a8cfb5113e8c76812ebdd",
    "NVIDIA_FABRIC_MANAGER_LTS_ARM64_SHA512: b8550b5bcae5af55ccb48aea47cd0c11b1582e2a2c76acff290b69d4386162ad2108c222d23f4df97e63cab963a9f98fa690e9a7bd6930a93ce968f611cd1ed2",
    "NVIDIA_FABRIC_MANAGER_LTS_AMD64_SHA256: eb3a81d004de426dee9b0f1332093828edb197125ef57a2e6500a95df3332d0b",
    "NVIDIA_FABRIC_MANAGER_LTS_AMD64_SHA512: 968ee227f20701c7f3f01835ff5ae5d8e3231e1c79064b79e4cb50d0bc02679f102d4dc577919b049a2ba5aebe952ef9f13baa4193952c09266d864820876093",
    "NVIDIA_NVLSM_LTS_VERSION: 2025.06.5",
    "NVIDIA_NVLSM_LTS_ARM64_SHA512: d83322ea43748b5f19d1ea011ad8dde19218d80ff507255a1884bc2b600d875dd3cfe737b29f4edfc96065c2761e4a2eda110c25a62d7cd2528b9b1a5e24d457",
    "NVIDIA_NVLSM_LTS_ARM64_SHA256: 4f25e213c87acb9c0ac75ec0d84d7146af310170e0cd187ffc744c9d1d3a657d",
    "NVIDIA_NVLSM_LTS_AMD64_SHA512: fe690537f9de77bf26d8c2982b91c16121ade9b1877b2dda9e7b5b3fed0841e5fa7c22bb30767b5bd45f27176346610b4eda7984b920e80474eaa81961625198",
    "NVIDIA_NVLSM_LTS_AMD64_SHA256: 4130187cb503805eb3c4d349513495bdb3c53e503a5b737b5d6053f623989c70",
    "# renovate: datasource=github-releases extractVersion=^\\d+\\.(?<version>\\d+\\.\\d+)$ depName=nvidia/open-gpu-kernel-modules",
    "NVIDIA_DRIVER_PRODUCTION_VERSION: 570.211.01",
    "NVIDIA_PKGS_PRODUCTION_ARM64_SHA256: e1553b67794a01b56cca657ec201dd223d0e1c522d3d637a4d9166f17a9584d1",
    "NVIDIA_PKGS_PRODUCTION_ARM64_SHA512: f028809886d6ae3a789d1b1307be1c17fcbedf47e4407414348574013808a1da891d30537d3d34cc4eeb482bead7e6e37cc247d0aa8ea9f2d8693546ea1589f9",
    "NVIDIA_PKGS_PRODUCTION_AMD64_SHA256: 7b3dcdd6beb6abbc8e88e872a7276cbcf7d48d0aeabc6a9cf249f897096dfb09",
    "NVIDIA_PKGS_PRODUCTION_AMD64_SHA512: aee43a427b04e761b728087b7c1799b8e30d94a244ff50cbd2a9e198ce9ce7173dc0c466c3a7af7cf5d835833fd18ac74fd59b9170ea774c9572bb3f43e624f2",
    "NVIDIA_FABRIC_MANAGER_PRODUCTION_ARM64_SHA256: 38ba0d26e2c02db349e858164455d916cc09d51a728accefe71413547efc0278",
    "NVIDIA_FABRIC_MANAGER_PRODUCTION_ARM64_SHA512: 373dfdd2e944b2c0123e971fb439ba3d23dd53f12c357f530c15abfc6f3af00241bcf3a56a4f808191cc54eafc9ef736e121ccc611159f81ccb672bf72326cf5",
    "NVIDIA_FABRIC_MANAGER_PRODUCTION_AMD64_SHA256: ca18525b22546e26e26687637b87e492c6dab6477df681abbb6be942f9e5e944",
    "NVIDIA_FABRIC_MANAGER_PRODUCTION_AMD64_SHA512: caecc4feb0a8fc0da39c9f6300e72469272d1bffd50d84aab0f367c44bbf5a8bdbe2d66da4e2628bc09f9b0946489712ed9c0289c42c1b337b56ba798c95ec9c",
    "NVIDIA_NVLSM_PRODUCTION_VERSION: 2025.03.1",
    "NVIDIA_NVLSM_PRODUCTION_ARM64_SHA512: 63584405c5de879a91dbb4a14c01fac2661cea646bc0d67d535e11aee62187f48c10bb3e7ed159daffb19b444bf42138ee30a123e926de4982624883efb02907",
    "NVIDIA_NVLSM_PRODUCTION_ARM64_SHA256: e260285ec01c6beb562a14625e9564b96374bb824ec62cc9866066a48710fa54",
    "NVIDIA_NVLSM_PRODUCTION_AMD64_SHA512: bd9a4cf7759d8fed7eb7a544063aa0c492db9145b491330f92a8a8a9247cdd7828e6e278f489029110fc98c05be25dcb3fc39d49add830858bfb81376d80f077",
    "NVIDIA_NVLSM_PRODUCTION_AMD64_SHA256: b034dad10a3154359e244b85206cd73f0fbce8e1cdf76058417b7b562c337388",
    "# renovate: datasource=github-releases depName=nvidia/nvidia-container-toolkit",
    "CONTAINER_TOOLKIT_VERSION: v1.18.1",
    "CONTAINER_TOOLKIT_REF: f8daa5e26de9fd7eb79259040b6dd5a52060048c",
    "CONTAINER_TOOLKIT_SHA256: 379869fd72d9e6ce1a22d3e80844a202d28fe719d14af7616ca5de38d245a071",
    "CONTAINER_TOOLKIT_SHA512: 1c0488c77e9e54e156ccc6ba2c7bd1cdf93c85dd88b6fb2307a6499f572e626254c3c1a683dda843da533fef919b15674c2032bb2b4a6054c0a9ac4f64c306dc",
    "# renovate: datasource=docker versioning=docker depName=cgr.dev/chainguard/wolfi-base",
    "WOLFI_BASE_REF: sha256:2a43204178a08b8c7f5e881c550bb52733364beff904ed36eeabe33cc656c749",
    "# renovate: datasource=github-releases extractVersion=^v(?<version>.*)$ depName=linux-rdma/rdma-core",
    "RDMA_CORE_VERSION: 57.0",
    "RDMA_CORE_SHA256: 5f94c463c931e4a9273f366ca7cb446b54d8bd4732288ade04679886be06862d",
    "RDMA_CORE_SHA512: 4a904d34af6863655545fe720cc25a8800684f63c51cebb67be2058363949217903957dc925c69d41294362ccff75fb0d37f3bc31cd6f6f252a804d6713f62cf",
    "# renovate: datasource=github-tags depName=NVIDIA/gdrcopy",
    "GDRCOPY_VERSION: v2.5.1",
    "GDRCOPY_SHA256: c6d5ebb7dabb89d798f27609511735595004da73af28d93ac041bb5290c4cbec",
    "GDRCOPY_SHA512: eb45965de6660bd33173cc150a373c185113e98aa66b8ead90871cf358c3423c3e5757438b841b38c8c2a993789dfc7f242a25e2e2b20f1dde2b592b646d2a30"]

/-- `nvidia-gpu/vars.yaml`. -/
def varsYaml : Text := printLines (varsLines.map String.toList)

/-- The lines of `nvidia-gpu/nvidia-container-toolkit/lts/vars.yaml`. -/
def toolkitVarsLines : List String :=
  ["# the first part is the driver version and the second the container-toolkit version",
    "VERSION: \"\x7b\x7b .NVIDIA_DRIVER_LTS_VERSION \x7d\x7d-\x7b\x7b .CONTAINER_TOOLKIT_VERSION \x7d\x7d\"",
    "TIER: \"core\""]

/-- `nvidia-gpu/nvidia-container-toolkit/lts/vars.yaml`. -/
def toolkitVarsYaml : Text := printLines (toolkitVarsLines.map String.toList)

/-! ### `check-userspace-track.sh` -/

/-- `family_branch(version)`: `re.match(r"(\d+)", version)`. -/
def familyBranch (version : Str) : Except Exc Str :=
  let family := version.takeWhile CodePoint.isDecimal
  if family = [] then
    throw (.systemExit ("unable to determine NVIDIA driver family from " ++ quoted version))
  else return family

/-- `track_from_extension_name(name)`. -/
def trackFromExtensionName (name : Str) : Except Exc Str :=
  if str "-production" <:+ name then return str "production"
  else if str "-lts" <:+ name then return str "lts"
  else throw (.systemExit ("unable to determine toolkit track from extension name " ++
    quoted name))

/-- `fail` where the condition holds. -/
def failIf (P : Prop) [Decidable P] (message : String) : Except Exc Unit :=
  if P then throw (.systemExit message) else return ()

/-- `path.read_text(encoding="utf-8")`. -/
def readText (files : Str → Option Text) (path : Str) : Except Exc Text :=
  orRaise .fileNotFoundError (files path)

def driverKey (selectedTrack : Str) : Str :=
  str "NVIDIA_DRIVER_" ++ Str.upper selectedTrack ++ str "_VERSION"

def expectedTemplate (selectedTrack : Str) : Str :=
  str "\x7b\x7b ." ++ driverKey selectedTrack ++
    str " \x7d\x7d-\x7b\x7b .CONTAINER_TOOLKIT_VERSION \x7d\x7d"

/-- `nvidia-gpu/vars.yaml` in the repository. -/
def varsPath (repoRoot : Str) : Str := repoRoot ++ str "/nvidia-gpu/vars.yaml"

/-- The `vars.yaml` of the toolkit's track. -/
def toolkitVarsPath (repoRoot selectedTrack : Str) : Str :=
  repoRoot ++ str "/nvidia-gpu/nvidia-container-toolkit/" ++ selectedTrack ++ str "/vars.yaml"

/-- `check-userspace-track.sh`: what it prints, a text and the value after it. -/
def checkUserspaceTrack (stdout : StreamErrors) (repoRoot : Str) (files : Str → Option Text)
    (document : Value) : Except Exc (List (String × Str)) := do
  failIf (¬ isMapping document) "release matrix must be a YAML mapping at the document root"
  let selectedTrack ← requireString document ["nvidia", "selectedTrack"]
  failIf (selectedTrack ≠ str "lts")
    ("mismatch: nvidia.selectedTrack " ++ quoted selectedTrack ++ " != 'lts'")
  let upstreamOpenModuleTag ← requireString document ["nvidia", "upstreamOpenModuleTag"]
  let openModuleName ← requireString document ["nvidia", "officialOpenModuleExtension", "name"]
  let openModuleRef ← requireString document ["nvidia", "officialOpenModuleExtension", "ref"]
  let toolkitName ← requireString document ["nvidia", "officialUserspaceToolkitExtension", "name"]
  let toolkitRef ← requireString document ["nvidia", "officialUserspaceToolkitExtension", "ref"]
  let toolkitTrack ← requireString document ["nvidia", "officialUserspaceToolkitExtension", "track"]
  let recordedFamilyBranch ←
    requireString document ["nvidia", "officialUserspaceToolkitExtension", "driverFamilyBranch"]
  failIf (.char '@' ∈ openModuleRef)
    ("mismatch: open module ref " ++ quoted openModuleRef ++
      " must be tag-only; digest belongs in a separate field")
  failIf (.char '@' ∈ toolkitRef)
    ("mismatch: toolkit ref " ++ quoted toolkitRef ++
      " must be tag-only; digest belongs in a separate field")
  let varsYaml ← readText files (varsPath repoRoot)
  let toolkitTrackVars ← readText files (toolkitVarsPath repoRoot selectedTrack)
  let key := driverKey selectedTrack
  let resolvedDriverVersion := ofText ((varsGet key (loadVars varsYaml)).getD [])
  failIf (resolvedDriverVersion = [])
    ("missing driver key " ++ quoted key ++ " in " ++ (varsPath repoRoot).shown)
  failIf (resolvedDriverVersion ≠ upstreamOpenModuleTag)
    ("mismatch: local upstream track metadata resolved " ++ key.shown ++ "=" ++
      quoted resolvedDriverVersion ++ " but matrix pins " ++ quoted upstreamOpenModuleTag)
  let templateVersion := (varsGet (str "VERSION") (loadVars toolkitTrackVars)).map ofText
  failIf (templateVersion ≠ some (expectedTemplate selectedTrack))
    ("mismatch: local userspace template for track " ++ quoted selectedTrack ++ " is " ++
      quoted (templateVersion.getD (str "None")) ++ " but expected " ++
      quoted (expectedTemplate selectedTrack))
  failIf (openModuleName ≠ str "siderolabs/nvidia-open-gpu-kernel-modules-lts")
    ("mismatch: official open module extension name " ++ quoted openModuleName ++
      " does not match the stock LTS extension name")
  let derivedTrack ← trackFromExtensionName toolkitName
  failIf (toolkitTrack ≠ selectedTrack)
    ("mismatch: matrix toolkit track " ++ quoted toolkitTrack ++
      " does not match selected track " ++ quoted selectedTrack)
  failIf (derivedTrack ≠ selectedTrack)
    ("mismatch: toolkit extension name " ++ quoted toolkitName ++ " resolves to track " ++
      quoted derivedTrack ++ " instead of " ++ quoted selectedTrack)
  let tag := afterLast (.char ':') toolkitRef
  let toolkitDriverVersion := beforeFirst (.char '-') tag
  let moduleFamily ← familyBranch upstreamOpenModuleTag
  let toolkitFamily ← familyBranch toolkitDriverVersion
  failIf (toolkitFamily ≠ moduleFamily)
    ("mismatch: stock toolkit driver family " ++ quoted toolkitFamily ++ " from ref " ++
      quoted toolkitRef ++ " does not match selected module family " ++ quoted moduleFamily)
  failIf (recordedFamilyBranch ≠ moduleFamily)
    ("mismatch: matrix recorded toolkit driver family " ++ quoted recordedFamilyBranch ++
      " does not match selected module family " ++ quoted moduleFamily)
  let lines := [("validated selected track: ", selectedTrack),
    ("validated open module extension: ", openModuleName),
    ("validated vars key: ", key ++ .char '=' :: resolvedDriverVersion),
    ("validated toolkit template: ", expectedTemplate selectedTrack),
    ("validated stock toolkit track: ", toolkitTrack),
    ("validated stock toolkit family branch: ", toolkitFamily)]
  Str.printing stdout (lines.map Prod.snd)
  return lines

/-! ### The matrix reader of `check-patch-apply.sh` -/

/-- The nine values the reader has printed at its end. -/
def readPatchSource (stdout : StreamErrors) (document : Value) : Except Exc (List Str) := do
  failIf (¬ isMapping document) "release matrix must be a YAML mapping at the document root"
  let selectedTrack ← requireString document ["nvidia", "selectedTrack"]
  failIf (selectedTrack ≠ str "lts")
    ("mismatch: nvidia.selectedTrack " ++ quoted selectedTrack ++ " != 'lts'")
  let upstreamRelease ← requireString document ["nvidia", "upstreamOpenModuleTag"]
  let upstreamSourceRelease ←
    requireString document ["nvidia", "upstreamOpenModuleSource", "release"]
  failIf (upstreamRelease ≠ upstreamSourceRelease)
    ("mismatch: nvidia.upstreamOpenModuleTag " ++ quoted upstreamRelease ++
      " != nvidia.upstreamOpenModuleSource.release " ++ quoted upstreamSourceRelease)
  let upstreamRepository ←
    requireString document ["nvidia", "upstreamOpenModuleSource", "repository"]
  let upstreamCommit ← requireString document ["nvidia", "upstreamOpenModuleSource", "commit"]
  let donorBranch ← requireString document ["nvidia", "donorPatchSource", "branch"]
  let donorBaseRelease ← requireString document ["nvidia", "donorPatchSource", "donorBaseRelease"]
  let donorBaseCommit ← requireString document ["nvidia", "donorPatchSource", "baseCommit"]
  let donorPatchCommit ← requireString document ["nvidia", "donorPatchSource", "patchCommit"]
  let donorBranchHeadCommit ←
    requireString document ["nvidia", "donorPatchSource", "branchHeadCommit"]
  let diffURL ← requireString document ["nvidia", "donorPatchSource", "compareDiffURL"]
  failIf (donorBaseCommit = donorPatchCommit)
    ("mismatch: nvidia.donorPatchSource.patchCommit must differ from " ++
      "nvidia.donorPatchSource.baseCommit")
  let values := [upstreamRepository, upstreamRelease, upstreamCommit, donorBranch,
    donorBaseRelease, donorBaseCommit, donorPatchCommit, donorBranchHeadCommit, diffURL]
  Str.printing stdout values
  return values

/-- `matrix_values`: the lines of `printf '%s\n' "$matrix_output"`. -/
def patchValues (stdout : StreamErrors) (document : Value) : Except Exc (List Str) := do
  let values ← readPatchSource stdout document
  return Str.mapfile (Str.substituted (Str.printLines values) ++ [.char '\n'])

/-! ### A coherent matrix -/

theorem failIf_of_not {P : Prop} [Decidable P] {message : String} (h : ¬ P) :
    failIf P message = .ok () := by
  rw [failIf, if_neg h]
  rfl

theorem oneLine_of_all {line : Text} (h : (line.all fun c => !isLineBreak c) = true) :
    ∀ c ∈ line, isLineBreak c = false := by
  intro c hc
  simpa using List.all_eq_true.mp h c hc

theorem varsLines_oneLine : ∀ line ∈ varsLines, ∀ c ∈ line.toList, isLineBreak c = false := by
  simp only [varsLines, List.forall_mem_cons, List.not_mem_nil, IsEmpty.forall_iff, implies_true,
    and_true]
  and_intros
  all_goals
    refine oneLine_of_all ?_
    rw [String.toList_ofList]
    decide

/-- After the line that sets the driver's version, no line of `vars.yaml` sets it again. -/
theorem varsLines_rest : ∀ line ∈ varsLines.drop 3, ∀ v ∈ varsLine line.toList,
    ofText v.1 ≠ driverKey (str Expected.selectedTrack) := by
  simp only [varsLines, List.drop_succ_cons, List.drop_zero, List.forall_mem_cons,
    List.not_mem_nil, IsEmpty.forall_iff, implies_true, and_true]
  and_intros
  all_goals
    rw [String.toList_ofList]
    decide

/-- `nvidia-gpu/vars.yaml` resolves the key of the track to the release's driver. -/
theorem varsYaml_version :
    varsGet (driverKey (str Expected.selectedTrack)) (loadVars varsYaml) =
      some Expected.upstreamTag.toList := by
  have hsplit : varsLines = varsLines.take 2 ++ "NVIDIA_DRIVER_LTS_VERSION: 580.105.08" ::
      varsLines.drop 3 := rfl
  have hline : varsLine "NVIDIA_DRIVER_LTS_VERSION: 580.105.08".toList =
      some ("NVIDIA_DRIVER_LTS_VERSION".toList, Expected.upstreamTag.toList) := by
    rw [String.toList_ofList]
    decide
  exact varsGet_of_last hsplit varsLines_oneLine hline (by decide) varsLines_rest

/-- The toolkit's `vars.yaml` composes its version of that key. -/
theorem toolkitVarsYaml_template :
    (varsGet (str "VERSION") (loadVars toolkitVarsYaml)).map ofText =
      some (expectedTemplate (str Expected.selectedTrack)) := by
  have hsplit : toolkitVarsLines = toolkitVarsLines.take 1 ++
      "VERSION: \"\x7b\x7b .NVIDIA_DRIVER_LTS_VERSION \x7d\x7d-\x7b\x7b .CONTAINER_TOOLKIT_VERSION \x7d\x7d\"" ::
      toolkitVarsLines.drop 2 := rfl
  have hline : varsLine
      "VERSION: \"\x7b\x7b .NVIDIA_DRIVER_LTS_VERSION \x7d\x7d-\x7b\x7b .CONTAINER_TOOLKIT_VERSION \x7d\x7d\"".toList =
        some ("VERSION".toList,
          "\x7b\x7b .NVIDIA_DRIVER_LTS_VERSION \x7d\x7d-\x7b\x7b .CONTAINER_TOOLKIT_VERSION \x7d\x7d".toList) := by
    rw [String.toList_ofList]
    decide
  have hname : ofText "VERSION".toList = str "VERSION" := rfl
  rw [toolkitVarsYaml, varsGet_of_last hsplit ?_ hline hname ?_]
  · decide
  · simp only [toolkitVarsLines, List.forall_mem_cons, List.not_mem_nil, IsEmpty.forall_iff,
      implies_true, and_true]
    and_intros
    all_goals
      refine oneLine_of_all ?_
      rw [String.toList_ofList]
      decide
  · simp only [toolkitVarsLines, List.drop_succ_cons, List.drop_zero, List.forall_mem_cons,
      List.not_mem_nil, IsEmpty.forall_iff, implies_true, and_true]
    decide

theorem trackFromExtensionName_toolkit :
    trackFromExtensionName (str Expected.toolkitName) = .ok (str Expected.selectedTrack) := by
  have hproduction : ¬ str "-production" <:+ str Expected.toolkitName := by
    rw [Expected.toolkitName, str_ofList, str_ofList]
    decide
  have hlts : str "-lts" <:+ str Expected.toolkitName := by
    rw [Expected.toolkitName, str_ofList, str_ofList]
    decide
  rw [trackFromExtensionName, if_neg hproduction, if_pos hlts]
  rfl

theorem familyBranch_of_takeWhile {version family : Str}
    (h : version.takeWhile CodePoint.isDecimal = family)
    (hne : family ≠ []) : familyBranch version = .ok family := by
  subst h
  simp only [familyBranch, if_neg hne]
  rfl

/-- The driver and the toolkit are of the family the matrix records. -/
theorem families : familyBranch (str Expected.upstreamTag) =
      .ok (str Expected.toolkitDriverFamilyBranch) ∧
    familyBranch (beforeFirst (.char '-') (afterLast (.char ':') (str Expected.toolkitRef))) =
      .ok (str Expected.toolkitDriverFamilyBranch) := by
  refine ⟨familyBranch_of_takeWhile ?_ (by decide), familyBranch_of_takeWhile ?_ (by decide)⟩
  · decide
  · rw [Expected.toolkitRef, str_ofList]
    decide

section

variable {stdout : StreamErrors} {rawText : Text} {document : Value}

theorem isMapping_of_coherent (hc : Coherent rawText document) : isMapping document = true := by
  obtain ⟨entries, h⟩ := @exists_map_of_requireString _ [] _ _ (hc.root _ List.mem_cons_self)
  obtain rfl : document = .map entries := h
  rfl

/-- The script accepts fields that agree with each other and with the two files. -/
theorem checkUserspaceTrack_ok {repoRoot : Str} {files : Str → Option Text}
    {track name ref toolkitName toolkitRef branch : Str} {tag vars toolkitVars : Text}
    (hmap : isMapping document = true)
    (htrack : requireString document ["nvidia", "selectedTrack"] = .ok track)
    (htag : requireString document ["nvidia", "upstreamOpenModuleTag"] = .ok (ofText tag))
    (hname : requireString document ["nvidia", "officialOpenModuleExtension", "name"] = .ok name)
    (href : requireString document ["nvidia", "officialOpenModuleExtension", "ref"] = .ok ref)
    (htoolkitName : requireString document ["nvidia", "officialUserspaceToolkitExtension", "name"] =
      .ok toolkitName)
    (htoolkitRef : requireString document ["nvidia", "officialUserspaceToolkitExtension", "ref"] =
      .ok toolkitRef)
    (htoolkitTrack : requireString document
      ["nvidia", "officialUserspaceToolkitExtension", "track"] = .ok track)
    (hbranch : requireString document
      ["nvidia", "officialUserspaceToolkitExtension", "driverFamilyBranch"] = .ok branch)
    (hvars : files (varsPath repoRoot) = some vars)
    (htoolkitVars : files (toolkitVarsPath repoRoot track) = some toolkitVars)
    (hlts : track = str "lts") (hat : .char '@' ∉ ref) (htoolkitAt : .char '@' ∉ toolkitRef)
    (hstock : name = str "siderolabs/nvidia-open-gpu-kernel-modules-lts")
    (hresolved : varsGet (driverKey track) (loadVars vars) = some tag) (hne : tag ≠ [])
    (htemplate : (varsGet (str "VERSION") (loadVars toolkitVars)).map ofText =
      some (expectedTemplate track))
    (hderived : trackFromExtensionName toolkitName = .ok track)
    (hfamily : familyBranch (ofText tag) = .ok branch)
    (htoolkitFamily : familyBranch (beforeFirst (.char '-') (afterLast (.char ':') toolkitRef)) =
      .ok branch)
    (hprints : Str.printing stdout [track, name, driverKey track ++ .char '=' :: ofText tag,
      expectedTemplate track, track, branch] = .ok ()) :
    ∃ printed, checkUserspaceTrack stdout repoRoot files document = .ok printed := by
  have hne' : ofText tag ≠ [] := fun h => hne (ofText_eq_nil_iff.mp h)
  simp only [checkUserspaceTrack, hmap, htrack, htag, hname, href, htoolkitName, htoolkitRef,
    htoolkitTrack, hbranch, readText, hvars, htoolkitVars, orRaise, hresolved, htemplate, hderived,
    hfamily, htoolkitFamily, Option.getD_some, failIf_of_not (not_not_intro trivial),
    failIf_of_not (not_not_intro hlts), failIf_of_not hat, failIf_of_not htoolkitAt,
    failIf_of_not hne', failIf_of_not (not_not_intro hstock), failIf_of_not (not_not_intro rfl),
    List.map_cons, List.map_nil, hprints, ok_bind, pure_eq_ok]
  exact ⟨_, rfl⟩

/-- The userspace track of a coherent matrix. -/
theorem checkUserspaceTrack_of_coherent {repoRoot : Str} {files : Str → Option Text}
    (hvars : files (varsPath repoRoot) = some varsYaml)
    (htoolkit : files (toolkitVarsPath repoRoot (str Expected.selectedTrack)) =
      some toolkitVarsYaml)
    (hc : Coherent rawText document) :
    ∃ printed, checkUserspaceTrack stdout repoRoot files document = .ok printed := by
  have ht := hc.track
  have he := hc.extensions
  simp only [trackFields, extensionFields, holds_cons_iff, holds_nil, and_true] at ht he
  obtain ⟨htrack, htag, -⟩ := ht
  obtain ⟨hname, href, -, htoolkitName, htoolkitRef, -, htoolkitTrack, hbranch, -⟩ := he
  obtain ⟨-, -, hat, htoolkitAt⟩ := extensions_wellFormed
  exact checkUserspaceTrack_ok (isMapping_of_coherent hc) htrack htag hname href htoolkitName
    htoolkitRef htoolkitTrack hbranch hvars htoolkit rfl hat htoolkitAt rfl varsYaml_version
    (by decide) toolkitVarsYaml_template trackFromExtensionName_toolkit families.1 families.2
    (printing_eq_ok_iff.mpr (by simp [driverKey, expectedTemplate, upper_str]))

/-- The values of the release the patch is fetched by. -/
def patchSource : List String :=
  [Expected.upstreamRepository, Expected.upstreamTag, Expected.upstreamCommit, Expected.donorBranch,
    Expected.donorBaseRelease, Expected.donorBaseCommit, Expected.donorPatchCommit,
    Expected.donorBranchHeadCommit, Expected.donorCompareDiffURL]

theorem readPatchSource_of_coherent (hc : Coherent rawText document) :
    readPatchSource stdout document = .ok (patchSource.map str) := by
  have ht := hc.track
  have hd := hc.donor
  simp only [trackFields, donorFields, holds_cons_iff, holds_nil, and_true] at ht hd
  obtain ⟨htrack, htag, hrepository, hrelease, -, hcommit⟩ := ht
  obtain ⟨-, hbranch, hbase, hbaseCommit, hpatch, hhead, hurl⟩ := hd
  have hcommits : str Expected.donorBaseCommit ≠ str Expected.donorPatchCommit := by
    rw [Expected.donorBaseCommit, Expected.donorPatchCommit, str_ofList, str_ofList]
    decide
  have hlts : str Expected.selectedTrack = str "lts" := rfl
  have hprints : Str.printing stdout (patchSource.map str) = .ok () :=
    printing_eq_ok_iff.mpr (List.forall_mem_map.mpr fun s _ => encodable_str s)
  simp only [patchSource, List.map_cons, List.map_nil] at hprints
  simp only [readPatchSource, patchSource, isMapping_of_coherent hc, htrack, htag, hrepository,
    hrelease, hcommit, hbranch, hbase, hbaseCommit, hpatch, hhead, hurl,
    failIf_of_not (not_not_intro trivial), failIf_of_not (not_not_intro hlts),
    failIf_of_not (not_not_intro rfl), failIf_of_not hcommits, hprints, ok_bind, pure_eq_ok,
    List.map_cons, List.map_nil]

theorem patchSource_oneLine : ∀ v ∈ patchSource.map str,
    .char '\n' ∉ v ∧ .char (Char.ofNat 0) ∉ v ∧ v ≠ [] := by
  simp only [patchSource, List.map_cons, List.map_nil, List.forall_mem_cons, List.not_mem_nil,
    IsEmpty.forall_iff, implies_true, and_true, Expected.upstreamRepository, Expected.upstreamTag,
    Expected.upstreamCommit, Expected.donorBranch, Expected.donorBaseRelease,
    Expected.donorBaseCommit, Expected.donorPatchCommit, Expected.donorBranchHeadCommit,
    Expected.donorCompareDiffURL]
  and_intros
  all_goals
    rw [str_ofList]
    decide

/-- The shell reads the nine values as they are. -/
theorem patchValues_of_coherent (hc : Coherent rawText document) :
    patchValues stdout document = .ok (patchSource.map str) := by
  rw [patchValues, readPatchSource_of_coherent hc]
  exact congrArg Except.ok
    (linesAt_substitutedAt (by decide) (by simp [patchSource]) patchSource_oneLine)

/-- **The gate is the strictest**: with the two `vars.yaml` of the repository, a matrix the gate
accepts is accepted by `check-userspace-track.sh`, and `check-patch-apply.sh` reads nine values of
one line each. -/
theorem accepted_by_all {matrixPath : Text} {repoRoot : Str} {files : Str → Option Text}
    (hvars : files (varsPath repoRoot) = some varsYaml)
    (htoolkit : files (toolkitVarsPath repoRoot (str "lts")) = some toolkitVarsYaml)
    (h : Accepts stdout matrixPath rawText document) :
    (∃ printed, checkUserspaceTrack stdout repoRoot files document = .ok printed) ∧
      ∃ values, readPatchSource stdout document = .ok values ∧ values.length = 9 ∧
        (∀ v ∈ values, .char '\n' ∉ v) ∧ patchValues stdout document = .ok values := by
  have hc := accepts_iff.mp h
  exact ⟨checkUserspaceTrack_of_coherent hvars htoolkit hc, _, readPatchSource_of_coherent hc, rfl,
    fun v hv => (patchSource_oneLine v hv).1, patchValues_of_coherent hc⟩

end

/-- The two files of a checkout. -/
def checkout (repoRoot path : Str) : Option Text :=
  if path = varsPath repoRoot then some varsYaml
  else if path = toolkitVarsPath repoRoot (str "lts") then some toolkitVarsYaml
  else none

theorem accepted_by_all_release :
    (∃ printed, checkUserspaceTrack .strict (str "/src") (checkout (str "/src"))
        (releaseMatrix sysextImage sysextDigest) = .ok printed) ∧
      ∃ values, readPatchSource .strict (releaseMatrix sysextImage sysextDigest) = .ok values ∧
        values.length = 9 ∧ (∀ v ∈ values, .char '\n' ∉ v) ∧
        patchValues .strict (releaseMatrix sysextImage sysextDigest) = .ok values := by
  have hne : toolkitVarsPath (str "/src") (str "lts") ≠ varsPath (str "/src") := by
    decide
  exact accepted_by_all (by rw [checkout, if_pos rfl]) (by rw [checkout, if_neg hne, if_pos rfl])
    (accepts_sysext .strict "docs/release-matrix.yaml".toList (.inr rfl))

end TalosP2P.Matrix
