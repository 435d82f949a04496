import TalosP2P.Matrix.Document
import TalosP2P.Support.Audit

/-!
# Matrix — Gate

`check-matrix.sh`, the validation of the release matrix before anything is built: it goes through
the whole document, collects every error, and refuses the matrix if there is one.

* `requireString_errors_eq_nil_iff`: a field the gate requires is a field `require_string` of the
  other scripts accepts.
-/

namespace TalosP2P.Matrix

open Python

/-! ### The values of the release -/

namespace Expected

def targetTalosVersion : String := "v1.12.6"
def targetTalosMinor : String := "v1.12"
def kubernetesVersion : String := "v1.32.5"
def kubernetesMinor : String := "v1.32"
def arch : String := "amd64"
def osImage : String := "Talos (v1.12.6)"
def selectedTrack : String := "lts"
def upstreamTag : String := "580.105.08"
def upstreamRepository : String := "https://github.com/NVIDIA/open-gpu-kernel-modules"
def upstreamReleaseURL : String :=
  "https://github.com/NVIDIA/open-gpu-kernel-modules/releases/tag/580.105.08"
def upstreamCommit : String := "2af9f1f0f7de4988432d4ae875b5858ffdb09cc2"
def donorRepository : String := "https://github.com/aikitoria/open-gpu-kernel-modules"
def donorBranch : String := "580.105.08-p2p"
def donorBaseRelease : String := "580.105.08"
def donorBaseCommit : String := "2af9f1f0f7de4988432d4ae875b5858ffdb09cc2"
def donorPatchCommit : String := "510a7720de1e7fa3ef374a721b48f700b23895b9"
def donorBranchHeadCommit : String := "7e392c1e0b8e2e8e82958d9d17ba3a0721551a2a"
def donorCompareDiffURL : String :=
  "https://github.com/aikitoria/open-gpu-kernel-modules/compare/2af9f1f0f7de4988432d4ae875b5858ffdb09cc2...510a7720de1e7fa3ef374a721b48f700b23895b9.diff"
def openModuleName : String := "siderolabs/nvidia-open-gpu-kernel-modules-lts"
def openModuleRef : String :=
  "ghcr.io/siderolabs/nvidia-open-gpu-kernel-modules-lts:580.105.08-v1.12.0"
def openModuleDigest : String :=
  "sha256:aa769308b09815c604d4f445357256762c6ecfea60e5b902320193326f4a37af"
def toolkitName : String := "siderolabs/nvidia-container-toolkit-lts"
def toolkitRef : String := "ghcr.io/siderolabs/nvidia-container-toolkit-lts:580.105.08-v1.18.1"
def toolkitDigest : String :=
  "sha256:3c367715634984f4e4299f38897b5aca4e46bf1430996b49c3829733b0497d7c"
def toolkitTrack : String := "lts"
def toolkitDriverFamilyBranch : String := "580"
def toolkitSourceRepository : String := "https://github.com/siderolabs/extensions"
def rollbackInstaller : String :=
  "factory.talos.dev/installer/383ff20982d317df4085095c792d4927aa9cc88c56d7f67242f8c91d8e6b3142:v1.12.6"
def repositoryUpstream : String := "siderolabs/extensions"

end Expected

/-- `EXPECTED_ABORT_CODES`, sorted. -/
def expectedAbortCodes : List String :=
  ["donor_patch_no_longer_ports_cleanly", "missing_rollback_image", "stock_toolkit_track_mismatch"]

/-- `EXPECTED_VERIFICATION_COMMANDS`. -/
def expectedVerificationCommands : List (String × String) :=
  [("matrixValidationCommand", "bash hack/p2p/check-matrix.sh docs/release-matrix.yaml"),
    ("donorPatchValidationCommand", "bash hack/p2p/check-patch-apply.sh docs/release-matrix.yaml"),
    ("userspaceTrackValidationCommand",
      "bash hack/p2p/check-userspace-track.sh docs/release-matrix.yaml")]

/-- `STALE_ROOT_KEYS`, sorted. -/
def staleRootKeys : List String :=
  ["canaryDeploymentName", "canaryLabel", "generatedBy", "manifestSkew", "planItem", "task"]

/-- `STALE_TERMS`. -/
def staleTerms : List String := ["wozeparrot", "legacyfix"]

namespace Gate

/-! ### Required fields -/

/-- `require_string(path, expected)`: a wrong value is an error, and is returned all the same. -/
def requireString (document : Value) (path : List String) (expected : Option String) :
    Audit (Option Str) :=
  let field := dotted path
  match getPath document path with
  | .str s =>
    if Str.strip s = [] then do
      Audit.error s!"missing or empty field: {field}"
      return none
    else do
      let value := (Str.strip s).shown
      expected.forM fun e =>
        Audit.errorIf (Str.strip s ≠ str e) s!"field {field}='{value}' does not match expected '{e}'"
      return some (Str.strip s)
  | _ => do
    Audit.error s!"missing or empty field: {field}"
    return none

/-- `require_mapping(path)`. -/
def requireMapping (document : Value) (path : List String) : Audit (Option Value) :=
  let field := dotted path
  match getPath document path with
  | .map entries => return some (.map entries)
  | _ => do
    Audit.error s!"field must be a mapping: {field}"
    return none

/-- `require_null_or_non_empty_string(path)`. -/
def requireNullOrNonEmptyString (document : Value) (path : List String) : Audit Unit :=
  let field := dotted path
  match getPath document path with
  | .null => pure ()
  | .str s => Audit.errorIf (Str.strip s = []) s!"field must be null or a non-empty string: {field}"
  | _ => Audit.error s!"field must be null or a non-empty string: {field}"

/-- `re.fullmatch(r"sha256:[0-9a-f]\x7b64\x7d", value)`. -/
def isSha256 (value : Str) : Bool :=
  (str "sha256:").isPrefixOf value && (value.drop 7).length == 64 &&
    (value.drop 7).all CodePoint.isLowerHex

/-- `require_sha256(path, expected)`. -/
def requireSha256 (document : Value) (path : List String) (expected : String) : Audit Unit := do
  let field := dotted path
  let value ← requireString document path (some expected)
  value.forM fun value =>
    Audit.errorIf (¬ isSha256 value) s!"field {field} must be a sha256 digest"

/-! ### The parts of the document -/

/-- `value == 1`: a true boolean and the float are equal to the integer. -/
def isOne : Value → Bool
  | .int n => n == 1
  | .bool b => b
  | .other _ text => text == ['1', '.', '0']
  | _ => false

/-- `value is None`. -/
def isNull : Value → Bool
  | .null => true
  | _ => false

/-- `isinstance(a, str) and isinstance(b, str) and not a.startswith(b)`. -/
def startsOtherwise : Value → Value → Bool
  | .str a, .str b => !b.isPrefixOf a
  | _, _ => false

/-- The fields at the root. -/
def checkRoot (document : Value) : Audit Unit := do
  Audit.errorIf (¬ isOne (getPath document ["schemaVersion"])) "schemaVersion must be 1"
  let _ ← requireString document ["baseGpuNode"] none
  let _ ← requireString document ["baseGpuNodeInternalIP"] none
  let _ ← requireString document ["targetTalosVersion"] (some Expected.targetTalosVersion)
  let _ ← requireString document ["targetTalosMinor"] (some Expected.targetTalosMinor)
  let _ ← requireString document ["kubernetesVersion"] (some Expected.kubernetesVersion)
  let _ ← requireString document ["kubernetesMinor"] (some Expected.kubernetesMinor)
  let _ ← requireString document ["arch"] (some Expected.arch)
  let _ ← requireString document ["osImage"] (some Expected.osImage)
  Audit.errorIf
    (startsOtherwise (getPath document ["targetTalosVersion"]) (getPath document ["targetTalosMinor"]))
    "targetTalosVersion must start with targetTalosMinor"
  Audit.errorIf
    (startsOtherwise (getPath document ["kubernetesVersion"]) (getPath document ["kubernetesMinor"]))
    "kubernetesVersion must start with kubernetesMinor"

/-- `key in document`, of a mapping. -/
def hasKey (document : Value) (key : String) : Bool :=
  match document with
  | .map entries => (Value.lookup key.toList entries).isSome
  | _ => false

/-- The keys and the terms of earlier releases. -/
def checkStale (rawText : Text) (document : Value) : Audit Unit := do
  staleRootKeys.forM fun key =>
    Audit.errorIf (hasKey document key) s!"stale root key must be removed: {key}"
  let lowerText := lower rawText
  staleTerms.forM fun term =>
    Audit.errorIf (term.toList <:+: lowerText)
      s!"stale term must not appear in release matrix: {term}"

/-- `nvidia.donorPatchSource`. -/
def checkDonor (document : Value) : Audit Unit := do
  let donor := ["nvidia", "donorPatchSource"]
  let _ ← requireString document (donor ++ ["repository"]) (some Expected.donorRepository)
  let _ ← requireString document (donor ++ ["branch"]) (some Expected.donorBranch)
  let _ ← requireString document (donor ++ ["donorBaseRelease"]) (some Expected.donorBaseRelease)
  let lineage ← requireString document (donor ++ ["lineage"]) none
  lineage.forM fun lineage =>
    Audit.errorIf
      (¬ str "donor patch" <:+: Str.lower lineage ∨ ¬ str Expected.upstreamTag <:+: lineage)
      ("nvidia.donorPatchSource.lineage must describe the donor patch flow onto the selected " ++
        "NVIDIA " ++ Expected.upstreamTag ++ " LTS base")
  let _ ← requireString document (donor ++ ["baseCommit"]) (some Expected.donorBaseCommit)
  let _ ← requireString document (donor ++ ["patchCommit"]) (some Expected.donorPatchCommit)
  let _ ← requireString document (donor ++ ["branchHeadCommit"])
    (some Expected.donorBranchHeadCommit)
  let _ ← requireString document (donor ++ ["compareDiffURL"]) (some Expected.donorCompareDiffURL)

/-- `nvidia.officialOpenModuleExtension`. -/
def checkOpenModule (document : Value) : Audit Unit := do
  let extension := ["nvidia", "officialOpenModuleExtension"]
  let _ ← requireString document (extension ++ ["name"]) (some Expected.openModuleName)
  let ref ← requireString document (extension ++ ["ref"]) (some Expected.openModuleRef)
  requireSha256 document (extension ++ ["digest"]) Expected.openModuleDigest
  Audit.errorIf (.char '@' ∈ ref.getD [])
    "nvidia.officialOpenModuleExtension.ref must be tag-only; store digest separately"

/-- `nvidia.officialUserspaceToolkitExtension`. -/
def checkToolkit (document : Value) : Audit Unit := do
  let extension := ["nvidia", "officialUserspaceToolkitExtension"]
  let _ ← requireString document (extension ++ ["name"]) (some Expected.toolkitName)
  let ref ← requireString document (extension ++ ["ref"]) (some Expected.toolkitRef)
  requireSha256 document (extension ++ ["digest"]) Expected.toolkitDigest
  let _ ← requireString document (extension ++ ["track"]) (some Expected.toolkitTrack)
  let _ ← requireString document (extension ++ ["driverFamilyBranch"])
    (some Expected.toolkitDriverFamilyBranch)
  let _ ← requireString document (extension ++ ["sourceRepository"])
    (some Expected.toolkitSourceRepository)
  Audit.errorIf (.char '@' ∈ ref.getD [])
    "nvidia.officialUserspaceToolkitExtension.ref must be tag-only; store digest separately"

/-- `nvidia`. -/
def checkNvidia (document : Value) : Audit Unit := do
  let _ ← requireString document ["nvidia", "selectedTrack"] (some Expected.selectedTrack)
  let reason ← requireString document ["nvidia", "selectedTrackReason"] none
  reason.forM fun reason =>
    Audit.errorIf (¬ str "stock" <:+: Str.lower reason)
      "nvidia.selectedTrackReason must explain that userspace/toolkit remain stock"
  let _ ← requireString document ["nvidia", "upstreamOpenModuleTag"] (some Expected.upstreamTag)
  let source := ["nvidia", "upstreamOpenModuleSource"]
  let _ ← requireString document (source ++ ["repository"]) (some Expected.upstreamRepository)
  let _ ← requireString document (source ++ ["release"]) (some Expected.upstreamTag)
  let _ ← requireString document (source ++ ["releaseURL"]) (some Expected.upstreamReleaseURL)
  let _ ← requireString document (source ++ ["commit"]) (some Expected.upstreamCommit)
  Audit.errorIf (¬ isNull (getPath document ["nvidia", "tinygradPatchSource"]))
    "nvidia.tinygradPatchSource must be removed in favor of nvidia.donorPatchSource"
  let donor ← requireMapping document ["nvidia", "donorPatchSource"]
  donor.forM fun _ => checkDonor document
  checkOpenModule document
  checkToolkit document

/-- `artifacts`. -/
def checkArtifacts (document : Value) : Audit Unit := do
  let _ ← requireString document ["artifacts", "currentRollbackInstallerImage", "ref"]
    (some Expected.rollbackInstaller)
  let _ ← requireString document ["artifacts", "currentRollbackInstallerImage", "discoverableFrom"]
    none
  requireNullOrNonEmptyString document ["artifacts", "customSysextImage"]
  requireNullOrNonEmptyString document ["artifacts", "customSysextDigest"]
  requireNullOrNonEmptyString document ["artifacts", "customInstallerImage"]
  requireNullOrNonEmptyString document ["artifacts", "customInstallerDigest"]

/-- `not isinstance(value, str) or not value.strip()`. -/
def blank : Value → Bool
  | .str s => Str.strip s = []
  | _ => true

/-- One abort condition: the code that is seen, if there is one. -/
def checkCondition (condition : Value) (index : Nat) : Audit (Option Str) :=
  match condition with
  | .map _ =>
    match getPath condition ["code"] with
    | .str code =>
      if Str.strip code = [] then do
        Audit.error s!"abortConditions[{index}].code must be a non-empty string"
        return none
      else do
        Audit.errorIf (blank (getPath condition ["stopWhen"]))
          s!"abortConditions[{index}].stopWhen must be a non-empty string"
        return some (Str.strip code)
    | _ => do
      Audit.error s!"abortConditions[{index}].code must be a non-empty string"
      return none
  | _ => do
    Audit.error s!"abortConditions[{index}] must be a mapping"
    return none

/-- The loop over the abort conditions, and the codes that are missing after it. -/
def checkConditions (conditions : List Value) : Audit Unit := do
  let seen ← (conditions.zipIdx 1).mapM fun p => checkCondition p.1 p.2
  let missingCodes := expectedAbortCodes.filter fun code => some (str code) ∉ seen
  Audit.errorIf (missingCodes ≠ [])
    ("abortConditions missing required codes: " ++ ", ".intercalate missingCodes)

/-- `abortConditions`. -/
def checkAbortConditions (document : Value) : Audit Unit :=
  match getPath document ["abortConditions"] with
  | .seq (condition :: conditions) => checkConditions (condition :: conditions)
  | _ => Audit.error "abortConditions must be a non-empty list"

/-- `verification`. -/
def checkVerification (document : Value) : Audit Unit := do
  expectedVerificationCommands.forM fun command => do
    let _ ← requireString document ["verification", command.1] (some command.2)
  let _ ← requireString document ["verification", "rollbackImageDiscoveryCommand"] none

/-- `repository`. -/
def checkRepository (document : Value) : Audit Unit := do
  let _ ← requireString document ["repository", "origin"] none
  let _ ← requireString document ["repository", "upstream"] (some Expected.repositoryUpstream)

/-- A part of the document that is checked when it is a mapping. -/
def checkPart (document : Value) (key : String) (check : Value → Audit Unit) : Audit Unit := do
  let part ← requireMapping document [key]
  part.forM fun _ => check document

/-- The checks of a document that is a mapping. -/
def checkDocument (rawText : Text) (document : Value) : Audit Unit := do
  checkRoot document
  checkStale rawText document
  checkPart document "nvidia" checkNvidia
  checkPart document "artifacts" checkArtifacts
  checkAbortConditions document
  checkPart document "verification" checkVerification
  checkPart document "repository" checkRepository

/-- Why the gate refuses a matrix: the messages it prints, or an exception. -/
inductive Refusal where
  | failed (errors : List String)
  | raised (e : Exc)

/-- What the gate prints of an accepted matrix: a text, and the value after it. -/
def report (stdout : StreamErrors) (matrixPath : Text) (document : Value) :
    Except Exc (List (String × Value)) := do
  let nvidia ← document.item "nvidia".toList
  let selectedTrack ← nvidia.item "selectedTrack".toList
  let upstreamOpenModuleTag ← nvidia.item "upstreamOpenModuleTag".toList
  let artifacts ← document.item "artifacts".toList
  let rollback ← artifacts.item "currentRollbackInstallerImage".toList
  let ref ← rollback.item "ref".toList
  let lines := [("validated release matrix: ", .str (ofText matrixPath)),
    ("validated selected track: ", selectedTrack),
    ("validated NVIDIA LTS tag: ", upstreamOpenModuleTag),
    ("validated rollback image: ", ref)]
  if ¬ lines.all (fun line => line.2.encodable stdout) then throw .unicodeEncodeError
  return lines

end Gate

/-- `check-matrix.sh` on a file that holds `rawText`, of which `yaml.safe_load` makes `document`. -/
def checkMatrix (stdout : StreamErrors) (matrixPath rawText : Text) (document : Value) :
    Except Gate.Refusal (List (String × Value)) :=
  match document with
  | .map _ =>
    let errors := (Gate.checkDocument rawText document).errors
    if errors ≠ [] then .error (.failed errors)
    else (Gate.report stdout matrixPath document).mapError .raised
  | _ => .error (.failed ["release matrix must be a YAML mapping at the document root"])

/-- The gate accepts the matrix. -/
def Accepts (stdout : StreamErrors) (matrixPath rawText : Text) (document : Value) : Prop :=
  ∃ printed, checkMatrix stdout matrixPath rawText document = .ok printed

/-! ### What the gate forces -/

section

variable {document : Value} {path : List String} {expected : Option String}

/-- A required field as it is in the document. -/
theorem requireString_str {s : Str} (hv : getPath document path = .str s) (hs : Str.strip s ≠ []) :
    (Gate.requireString document path expected).value = some (Str.strip s) ∧
      ((Gate.requireString document path expected).errors = [] ↔
        ∀ e ∈ expected, Str.strip s = str e) := by
  simp only [Gate.requireString, hv, if_neg hs]
  cases expected with
  | none => simp
  | some e => by_cases he : Str.strip s = str e <;> simp [he]

/-- What `require_string` fails on is an error of the gate. -/
theorem requireString_missing (h : ∀ t, requireString document path ≠ .ok t) :
    (Gate.requireString document path expected).value = none ∧
      (Gate.requireString document path expected).errors ≠ [] := by
  simp only [ne_eq, requireString_ok_iff] at h
  cases hv : getPath document path with
  | str s =>
      have hs : Str.strip s = [] := by
        by_contra hs
        exact h _ ⟨s, hv, rfl, hs⟩
      simp [Gate.requireString, hv, hs]
  | _ => simp [Gate.requireString, hv]

/-- The gate takes of a required field what `require_string` makes of it. -/
theorem requireString_value : (Gate.requireString document path expected).value =
    (requireString document path).toOption := by
  cases hr : requireString document path with
  | ok t =>
      obtain ⟨s, hv, rfl, hs⟩ := requireString_ok_iff.mp hr
      exact (requireString_str hv hs).1
  | error e => exact (requireString_missing fun t ht => by rw [hr] at ht; cases ht).1

/-- **Two readers of a field**: the gate finds nothing wrong with a required field exactly when the
other scripts' `require_string` accepts it, with the value the gate expects. -/
theorem requireString_errors_eq_nil_iff :
    (Gate.requireString document path expected).errors = [] ↔
      ∃ t, requireString document path = .ok t ∧ ∀ e ∈ expected, t = str e := by
  cases hr : requireString document path with
  | ok t =>
      obtain ⟨s, hv, rfl, hs⟩ := requireString_ok_iff.mp hr
      rw [(requireString_str hv hs).2]
      simp
  | error e =>
      have hm := @requireString_missing document path expected fun t ht => by rw [hr] at ht; cases ht
      simpa using hm.2

end

end TalosP2P.Matrix
