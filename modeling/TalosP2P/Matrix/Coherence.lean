import TalosP2P.Matrix.Gate

/-!
# Matrix — Coherence

What the gate makes sure of, said of the document alone: the fields it pins, the fields it leaves
open, and how they go together.

* `accepts_iff`: the gate accepts a matrix exactly when it is `Coherent`.
-/

namespace TalosP2P.Matrix

open Python

/-! ### The fields -/

/-- The fields with one value, at the root. -/
def rootFields : List (List String × String) :=
  [(["targetTalosVersion"], Expected.targetTalosVersion),
    (["targetTalosMinor"], Expected.targetTalosMinor),
    (["kubernetesVersion"], Expected.kubernetesVersion),
    (["kubernetesMinor"], Expected.kubernetesMinor),
    (["arch"], Expected.arch),
    (["osImage"], Expected.osImage)]

/-- The fields with one value on the track and the module that is patched. -/
def trackFields : List (List String × String) :=
  [(["nvidia", "selectedTrack"], Expected.selectedTrack),
    (["nvidia", "upstreamOpenModuleTag"], Expected.upstreamTag),
    (["nvidia", "upstreamOpenModuleSource", "repository"], Expected.upstreamRepository),
    (["nvidia", "upstreamOpenModuleSource", "release"], Expected.upstreamTag),
    (["nvidia", "upstreamOpenModuleSource", "releaseURL"], Expected.upstreamReleaseURL),
    (["nvidia", "upstreamOpenModuleSource", "commit"], Expected.upstreamCommit)]

/-- The fields with one value on the patch. -/
def donorFields : List (List String × String) :=
  [(["nvidia", "donorPatchSource", "repository"], Expected.donorRepository),
    (["nvidia", "donorPatchSource", "branch"], Expected.donorBranch),
    (["nvidia", "donorPatchSource", "donorBaseRelease"], Expected.donorBaseRelease),
    (["nvidia", "donorPatchSource", "baseCommit"], Expected.donorBaseCommit),
    (["nvidia", "donorPatchSource", "patchCommit"], Expected.donorPatchCommit),
    (["nvidia", "donorPatchSource", "branchHeadCommit"], Expected.donorBranchHeadCommit),
    (["nvidia", "donorPatchSource", "compareDiffURL"], Expected.donorCompareDiffURL)]

/-- The fields with one value on the official extensions. -/
def extensionFields : List (List String × String) :=
  [(["nvidia", "officialOpenModuleExtension", "name"], Expected.openModuleName),
    (["nvidia", "officialOpenModuleExtension", "ref"], Expected.openModuleRef),
    (["nvidia", "officialOpenModuleExtension", "digest"], Expected.openModuleDigest),
    (["nvidia", "officialUserspaceToolkitExtension", "name"], Expected.toolkitName),
    (["nvidia", "officialUserspaceToolkitExtension", "ref"], Expected.toolkitRef),
    (["nvidia", "officialUserspaceToolkitExtension", "digest"], Expected.toolkitDigest),
    (["nvidia", "officialUserspaceToolkitExtension", "track"], Expected.toolkitTrack),
    (["nvidia", "officialUserspaceToolkitExtension", "driverFamilyBranch"],
      Expected.toolkitDriverFamilyBranch),
    (["nvidia", "officialUserspaceToolkitExtension", "sourceRepository"],
      Expected.toolkitSourceRepository)]

/-- The fields with one value elsewhere. -/
def otherFields : List (List String × String) :=
  [(["artifacts", "currentRollbackInstallerImage", "ref"], Expected.rollbackInstaller),
    (["repository", "upstream"], Expected.repositoryUpstream)]

/-- The document holds the fields with their values. -/
def Holds (document : Value) (fields : List (List String × String)) : Prop :=
  ∀ field ∈ fields, requireString document field.1 = .ok (str field.2)

/-- The required fields that may hold any text. -/
def openFields : List (List String) :=
  [["baseGpuNode"], ["baseGpuNodeInternalIP"],
    ["artifacts", "currentRollbackInstallerImage", "discoverableFrom"],
    ["verification", "rollbackImageDiscoveryCommand"], ["repository", "origin"]]

/-- The fields that may be null. -/
def optionalFields : List (List String) :=
  [["artifacts", "customSysextImage"], ["artifacts", "customSysextDigest"],
    ["artifacts", "customInstallerImage"], ["artifacts", "customInstallerDigest"]]

/-- The abort conditions name their codes, say when to stop, and cover the required codes. -/
@[mk_iff]
structure Aborts (conditions : List Value) : Prop where
  codes : ∀ c ∈ conditions, ∃ t, requireString c ["code"] = .ok t
  stops : ∀ c ∈ conditions, ∃ t, requireString c ["stopWhen"] = .ok t
  covers : ∀ code ∈ expectedAbortCodes, ∃ c ∈ conditions, requireString c ["code"] = .ok (str code)

/-- A release matrix whose parts go together. -/
@[mk_iff]
structure Coherent (rawText : Text) (document : Value) : Prop where
  schemaVersion : Gate.isOne (getPath document ["schemaVersion"]) = true
  root : Holds document rootFields
  track : Holds document trackFields
  donor : Holds document donorFields
  extensions : Holds document extensionFields
  others : Holds document otherFields
  commands : ∀ command ∈ expectedVerificationCommands,
    requireString document ["verification", command.1] = .ok (str command.2)
  present : ∀ path ∈ openFields, ∃ t, requireString document path = .ok t
  optional : ∀ path ∈ optionalFields,
    getPath document path = .null ∨ ∃ t, requireString document path = .ok t
  talosMinor : Gate.startsOtherwise (getPath document ["targetTalosVersion"])
    (getPath document ["targetTalosMinor"]) = false
  kubernetesMinor : Gate.startsOtherwise (getPath document ["kubernetesVersion"])
    (getPath document ["kubernetesMinor"]) = false
  reason : ∃ t, requireString document ["nvidia", "selectedTrackReason"] = .ok t ∧
    str "stock" <:+: Str.lower t
  lineage : ∃ t, requireString document ["nvidia", "donorPatchSource", "lineage"] = .ok t ∧
    str "donor patch" <:+: Str.lower t ∧ str Expected.upstreamTag <:+: t
  noTinygrad : getPath document ["nvidia", "tinygradPatchSource"] = .null
  noStaleKey : ∀ key ∈ staleRootKeys, Gate.hasKey document key = false
  noStaleTerm : ∀ term ∈ staleTerms, ¬ term.toList <:+: lower rawText
  aborts : ∃ conditions, getPath document ["abortConditions"] = .seq conditions ∧ Aborts conditions

/-! ### One check of the gate -/

section

variable {rawText : Text} {document : Value} {path : List String}

@[simp]
theorem requireString_some_errors_iff {e : String} :
    (Gate.requireString document path (some e)).errors = [] ↔
      requireString document path = .ok (str e) := by
  rw [requireString_errors_eq_nil_iff]
  simp

@[simp]
theorem requireString_none_errors_iff :
    (Gate.requireString document path none).errors = [] ↔
      ∃ t, requireString document path = .ok t := by
  rw [requireString_errors_eq_nil_iff]
  simp

/-- A digest that has to be a value of the release is that value. -/
@[simp]
theorem requireSha256_errors_iff {e : String} :
    (Gate.requireSha256 document path e).errors = [] ↔
      requireString document path = .ok (str e) ∧ Gate.isSha256 (str e) = true := by
  simp only [Gate.requireSha256, Audit.errors_bind_eq_nil_iff, requireString_some_errors_iff,
    requireString_value]
  refine and_congr_right fun h => ?_
  rw [h]
  simp [Except.toOption]

theorem requireMapping_errors_iff :
    (Gate.requireMapping document path).errors = [] ↔
      ∃ entries, getPath document path = .map entries := by
  cases hv : getPath document path <;> simp [Gate.requireMapping, hv]

@[simp]
theorem requireNullOrNonEmptyString_errors_iff :
    (Gate.requireNullOrNonEmptyString document path).errors = [] ↔
      getPath document path = .null ∨ ∃ t, requireString document path = .ok t := by
  simp only [requireString_ok_iff]
  cases hv : getPath document path <;> simp [Gate.requireNullOrNonEmptyString, hv]

/-- A mapping, and a check made of what it holds. -/
theorem requireMapping_forM_iff {check : Audit Unit} :
    (Gate.requireMapping document path).errors = [] ∧
        ((Gate.requireMapping document path).value.forM fun _ => check).errors = [] ↔
      (∃ entries, getPath document path = .map entries) ∧ check.errors = [] := by
  rw [requireMapping_errors_iff]
  refine and_congr_right ?_
  rintro ⟨entries, h⟩
  simp [Gate.requireMapping, h]

/-- A required field, and a check made of its text. -/
theorem requireString_forM_iff {check : Str → Audit Unit} :
    (∃ t, requireString document path = .ok t) ∧
        ((requireString document path).toOption.forM check).errors = [] ↔
      ∃ t, requireString document path = .ok t ∧ (check t).errors = [] := by
  cases requireString document path <;> simp [Except.toOption]

/-- A part is checked as a mapping, and then for what it holds. -/
theorem checkPart_errors_iff {key : String} {check : Value → Audit Unit} :
    (Gate.checkPart document key check).errors = [] ↔
      (∃ entries, getPath document [key] = .map entries) ∧ (check document).errors = [] := by
  simp only [Gate.checkPart, Audit.errors_bind_eq_nil_iff, requireMapping_forM_iff]

end

/-! ### The whole gate -/

section

variable {rawText : Text} {document : Value}

theorem holds_nil : Holds document [] := fun _ h => absurd h List.not_mem_nil

theorem holds_cons_iff {field : List String × String} {fields : List (List String × String)} :
    Holds document (field :: fields) ↔
      requireString document field.1 = .ok (str field.2) ∧ Holds document fields :=
  List.forall_mem_cons

theorem checkRoot_errors_iff : (Gate.checkRoot document).errors = [] ↔
    Gate.isOne (getPath document ["schemaVersion"]) = true ∧
      (∃ t, requireString document ["baseGpuNode"] = .ok t) ∧
      (∃ t, requireString document ["baseGpuNodeInternalIP"] = .ok t) ∧
      Holds document rootFields ∧
      Gate.startsOtherwise (getPath document ["targetTalosVersion"])
        (getPath document ["targetTalosMinor"]) = false ∧
      Gate.startsOtherwise (getPath document ["kubernetesVersion"])
        (getPath document ["kubernetesMinor"]) = false := by
  simp only [Gate.checkRoot, rootFields, holds_cons_iff, holds_nil, Audit.errors_bind_eq_nil_iff,
    Audit.errors_errorIf_eq_nil_iff, requireString_some_errors_iff, requireString_none_errors_iff,
    Bool.not_eq_true, Bool.not_eq_false, and_true, and_assoc]

theorem checkStale_errors_iff : (Gate.checkStale rawText document).errors = [] ↔
    (∀ key ∈ staleRootKeys, Gate.hasKey document key = false) ∧
      ∀ term ∈ staleTerms, ¬ term.toList <:+: lower rawText := by
  simp only [Gate.checkStale, List.forM_eq_forM, Audit.errors_bind_eq_nil_iff,
    Audit.errors_forM_eq_nil_iff, Audit.errors_errorIf_eq_nil_iff, Bool.not_eq_true]

theorem checkDonor_errors_iff : (Gate.checkDonor document).errors = [] ↔
    Holds document donorFields ∧
      ∃ t, requireString document ["nvidia", "donorPatchSource", "lineage"] = .ok t ∧
        str "donor patch" <:+: Str.lower t ∧ str Expected.upstreamTag <:+: t := by
  have hlineage := @requireString_forM_iff document ["nvidia", "donorPatchSource", "lineage"]
  simp only [Gate.checkDonor, donorFields, holds_cons_iff, holds_nil, Audit.errors_bind_eq_nil_iff,
    Audit.errors_pure, requireString_some_errors_iff, requireString_none_errors_iff,
    requireString_value, List.cons_append, List.nil_append, and_true]
  rw [← and_assoc (a := ∃ t, _), hlineage]
  simp only [Audit.errors_errorIf_eq_nil_iff, not_or, not_not]
  constructor
  · rintro ⟨hrepository, hbranch, hrelease, hlineage, hcommits⟩
    exact ⟨⟨hrepository, hbranch, hrelease, hcommits⟩, hlineage⟩
  · rintro ⟨⟨hrepository, hbranch, hrelease, hcommits⟩, hlineage⟩
    exact ⟨hrepository, hbranch, hrelease, hlineage, hcommits⟩

/-- The digests of the release are digests, and its references name none. -/
theorem extensions_wellFormed : Gate.isSha256 (str Expected.openModuleDigest) = true ∧
    Gate.isSha256 (str Expected.toolkitDigest) = true ∧
    .char '@' ∉ str Expected.openModuleRef ∧ .char '@' ∉ str Expected.toolkitRef := by
  refine ⟨?_, ?_, ?_, ?_⟩
  · rw [Expected.openModuleDigest, str_ofList]
    decide +kernel
  · rw [Expected.toolkitDigest, str_ofList]
    decide +kernel
  · rw [Expected.openModuleRef, str_ofList]
    decide +kernel
  · rw [Expected.toolkitRef, str_ofList]
    decide +kernel

theorem checkExtensions_errors_iff :
    (Gate.checkOpenModule document).errors = [] ∧ (Gate.checkToolkit document).errors = [] ↔
      Holds document extensionFields := by
  obtain ⟨hopen, htoolkit, hopenRef, htoolkitRef⟩ := extensions_wellFormed
  simp only [Gate.checkOpenModule, Gate.checkToolkit, extensionFields, holds_cons_iff, holds_nil,
    Audit.errors_bind_eq_nil_iff, requireString_some_errors_iff, requireSha256_errors_iff,
    Audit.errors_errorIf_eq_nil_iff, requireString_value, List.cons_append, List.nil_append, hopen,
    htoolkit, and_true]
  constructor
  · rintro ⟨⟨hname, href, hdigest, -⟩, hname', href', hdigest', htrack, hbranch, hsource, -⟩
    exact ⟨hname, href, hdigest, hname', href', hdigest', htrack, hbranch, hsource⟩
  · rintro ⟨hname, href, hdigest, hname', href', hdigest', htrack, hbranch, hsource⟩
    refine ⟨⟨hname, href, hdigest, ?_⟩, hname', href', hdigest', htrack, hbranch, hsource, ?_⟩
    · rw [href]
      exact hopenRef
    · rw [href']
      exact htoolkitRef

/-- A null value. -/
theorem isNull_iff {v : Value} : Gate.isNull v = true ↔ v = .null := by
  cases v <;> simp [Gate.isNull]

theorem checkNvidia_errors_iff : (Gate.checkNvidia document).errors = [] ↔
    Holds document trackFields ∧
      (∃ t, requireString document ["nvidia", "selectedTrackReason"] = .ok t ∧
        str "stock" <:+: Str.lower t) ∧
      getPath document ["nvidia", "tinygradPatchSource"] = .null ∧
      (∃ entries, getPath document ["nvidia", "donorPatchSource"] = .map entries) ∧
      (Gate.checkDonor document).errors = [] ∧ Holds document extensionFields := by
  have hreason := @requireString_forM_iff document ["nvidia", "selectedTrackReason"]
  have hdonor := @requireMapping_forM_iff document ["nvidia", "donorPatchSource"]
  simp only [Gate.checkNvidia, trackFields, holds_cons_iff, holds_nil,
    Audit.errors_bind_eq_nil_iff, requireString_some_errors_iff, requireString_none_errors_iff,
    requireString_value, Audit.errors_errorIf_eq_nil_iff, List.cons_append, List.nil_append,
    checkExtensions_errors_iff, not_not, isNull_iff, and_true]
  rw [← and_assoc (a := ∃ t, _), hreason, ← and_assoc (a := Audit.errors _ = []), hdonor]
  simp only [Audit.errors_errorIf_eq_nil_iff, not_not]
  constructor
  · rintro ⟨htrack, hreason, htag, hrepository, hrelease, hurl, hcommit, htinygrad, ⟨hdonor, hchecked⟩,
      hextensions⟩
    exact ⟨⟨htrack, htag, hrepository, hrelease, hurl, hcommit⟩, hreason, htinygrad, hdonor, hchecked,
      hextensions⟩
  · rintro ⟨⟨htrack, htag, hrepository, hrelease, hurl, hcommit⟩, hreason, htinygrad, hdonor, hchecked,
      hextensions⟩
    exact ⟨htrack, hreason, htag, hrepository, hrelease, hurl, hcommit, htinygrad, ⟨hdonor, hchecked⟩,
      hextensions⟩

theorem checkArtifacts_errors_iff : (Gate.checkArtifacts document).errors = [] ↔
    requireString document ["artifacts", "currentRollbackInstallerImage", "ref"] =
        .ok (str Expected.rollbackInstaller) ∧
      (∃ t, requireString document
        ["artifacts", "currentRollbackInstallerImage", "discoverableFrom"] = .ok t) ∧
      ∀ path ∈ optionalFields,
        getPath document path = .null ∨ ∃ t, requireString document path = .ok t := by
  simp only [Gate.checkArtifacts, optionalFields, List.forall_mem_cons, List.not_mem_nil,
    IsEmpty.forall_iff, implies_true, Audit.errors_bind_eq_nil_iff, requireString_some_errors_iff,
    requireString_none_errors_iff, requireNullOrNonEmptyString_errors_iff, and_true]

theorem checkVerification_errors_iff : (Gate.checkVerification document).errors = [] ↔
    (∀ command ∈ expectedVerificationCommands,
        requireString document ["verification", command.1] = .ok (str command.2)) ∧
      ∃ t, requireString document ["verification", "rollbackImageDiscoveryCommand"] = .ok t := by
  simp only [Gate.checkVerification, List.forM_eq_forM, Audit.errors_bind_eq_nil_iff,
    Audit.errors_forM_eq_nil_iff, Audit.errors_pure, requireString_some_errors_iff,
    requireString_none_errors_iff, and_true]

theorem checkRepository_errors_iff : (Gate.checkRepository document).errors = [] ↔
    (∃ t, requireString document ["repository", "origin"] = .ok t) ∧
      requireString document ["repository", "upstream"] = .ok (str Expected.repositoryUpstream) := by
  simp only [Gate.checkRepository, Audit.errors_bind_eq_nil_iff, Audit.errors_pure,
    requireString_some_errors_iff, requireString_none_errors_iff, and_true]

/-- One abort condition, whatever its place in the list. -/
theorem checkCondition_errors_iff {condition : Value} {index : Nat} :
    (Gate.checkCondition condition index).errors = [] ↔
      (∃ t, requireString condition ["code"] = .ok t) ∧
        ∃ t, requireString condition ["stopWhen"] = .ok t := by
  simp only [requireString_ok_iff]
  cases condition with
  | map entries =>
      cases hcode : getPath (.map entries) ["code"] with
      | str code =>
          by_cases hs : Str.strip code = []
          · simp [Gate.checkCondition, hcode, hs]
          · cases hstop : getPath (.map entries) ["stopWhen"] <;>
              simp [Gate.checkCondition, Gate.blank, hcode, hs, hstop]
      | _ => simp [Gate.checkCondition, hcode]
  | _ => simp [Gate.checkCondition, getPath]

/-- The code that is seen is the one the condition names. -/
theorem checkCondition_value_iff {condition : Value} {index : Nat} {t : Str} :
    (Gate.checkCondition condition index).value = some t ↔
      requireString condition ["code"] = .ok t := by
  rw [requireString_ok_iff]
  cases condition with
  | map entries =>
      cases hcode : getPath (.map entries) ["code"] with
      | str code =>
          by_cases hs : Str.strip code = []
          · simp [Gate.checkCondition, hcode, hs]
          · simp only [Gate.checkCondition, hcode, if_neg hs, Audit.value_bind, Audit.value_pure,
              Option.some.injEq, Value.str.injEq, exists_eq_left']
            exact ⟨fun h => ⟨h, h ▸ hs⟩, And.left⟩
      | _ => simp [Gate.checkCondition, hcode]
  | _ => simp [Gate.checkCondition, getPath]

theorem forall_mem_zipIdx_iff {P : Value → Prop} {conditions : List Value} {k : Nat} :
    (∀ p ∈ conditions.zipIdx k, P p.1) ↔ ∀ c ∈ conditions, P c := by
  rw [← List.forall_mem_map (f := Prod.fst), List.zipIdx_map_fst]

/-- The loop over the conditions finds nothing when they name their codes and cover those required. -/
theorem checkConditions_errors_iff {conditions : List Value} :
    (Gate.checkConditions conditions).errors = [] ↔ Aborts conditions := by
  have hcovers : ∀ code : String,
      (some (str code) ∈ (conditions.zipIdx 1).map fun p => (Gate.checkCondition p.1 p.2).value) ↔
        ∃ c ∈ conditions, requireString c ["code"] = .ok (str code) := fun code => by
    rw [← not_iff_not]
    simp only [List.mem_map, checkCondition_value_iff, not_exists, not_and]
    exact forall_mem_zipIdx_iff (P := fun c => ¬ requireString c ["code"] = .ok (str code))
  rw [aborts_iff]
  simp only [Gate.checkConditions, Audit.errors_bind_eq_nil_iff, Audit.errors_mapM_eq_nil_iff,
    checkCondition_errors_iff, Audit.errors_errorIf_eq_nil_iff, Audit.value_mapM, ne_eq, not_not,
    List.filter_eq_nil_iff, decide_eq_true_eq, hcovers]
  rw [forall_mem_zipIdx_iff (P := fun c => (∃ t, requireString c ["code"] = .ok t) ∧
    ∃ t, requireString c ["stopWhen"] = .ok t), ← and_assoc, ← forall₂_and]

theorem checkAbortConditions_errors_iff : (Gate.checkAbortConditions document).errors = [] ↔
    ∃ conditions, getPath document ["abortConditions"] = .seq conditions ∧ Aborts conditions := by
  have hnil : ¬ Aborts [] := fun h => by
    obtain ⟨c, hc, -⟩ := h.covers _ List.mem_cons_self
    exact List.not_mem_nil hc
  cases hv : getPath document ["abortConditions"] with
  | seq conditions =>
      cases conditions with
      | nil => simp [Gate.checkAbortConditions, hv, hnil]
      | cons c conditions => simp [Gate.checkAbortConditions, hv, checkConditions_errors_iff]
  | _ => simp [Gate.checkAbortConditions, hv]

/-- The checks of the gate find nothing exactly when the matrix is coherent. -/
theorem checkDocument_errors_iff :
    (Gate.checkDocument rawText document).errors = [] ↔ Coherent rawText document := by
  simp only [Gate.checkDocument, Audit.errors_bind_eq_nil_iff, checkPart_errors_iff,
    checkRoot_errors_iff, checkStale_errors_iff, checkNvidia_errors_iff, checkDonor_errors_iff,
    checkArtifacts_errors_iff, checkAbortConditions_errors_iff, checkVerification_errors_iff,
    checkRepository_errors_iff]
  constructor
  · rintro ⟨⟨hschema, hnode, hip, hroot, htalos, hkube⟩, ⟨hkeys, hterms⟩,
      ⟨-, htrack, hreason, htiny, -, ⟨hdonor, hlineage⟩, hext⟩, ⟨-, hrollback, hdisc, hopt⟩,
      haborts, ⟨-, hcommands, hdiscovery⟩, -, horigin, hupstream⟩
    exact
      { schemaVersion := hschema, root := hroot, track := htrack, donor := hdonor
        extensions := hext, others := by simp [otherFields, holds_cons_iff, holds_nil, *]
        commands := hcommands
        present := by simp [openFields, *]
        optional := hopt, talosMinor := htalos, kubernetesMinor := hkube, reason := hreason
        lineage := hlineage, noTinygrad := htiny, noStaleKey := hkeys, noStaleTerm := hterms
        aborts := haborts }
  · intro h
    obtain ⟨hnode, hip, hdisc, hdiscovery, horigin⟩ := by
      simpa only [openFields, List.forall_mem_cons, List.not_mem_nil, IsEmpty.forall_iff,
        implies_true, and_true] using h.present
    obtain ⟨hrollback, hupstream⟩ := by
      simpa only [otherFields, holds_cons_iff, holds_nil, and_true] using h.others
    obtain ⟨lineage, hlineage, hflow⟩ := h.lineage
    -- each part is a mapping, since a field is read in it
    have hnvidia : ∃ entries, getPath document ["nvidia"] = .map entries :=
      @exists_map_of_requireString _ ["nvidia"] _ _ (h.track _ List.mem_cons_self)
    have hdonor : ∃ entries, getPath document ["nvidia", "donorPatchSource"] = .map entries :=
      @exists_map_of_requireString _ ["nvidia", "donorPatchSource"] _ _ hlineage
    have hartifacts : ∃ entries, getPath document ["artifacts"] = .map entries := by
      obtain ⟨entries, hentries⟩ := @exists_map_of_requireString _
        ["artifacts", "currentRollbackInstallerImage"] _ _ hrollback
      exact @exists_map_of_getPath _ ["artifacts"] "currentRollbackInstallerImage"
        (by simp [hentries])
    obtain ⟨command, hcommand⟩ := hdiscovery
    have hverification : ∃ entries, getPath document ["verification"] = .map entries :=
      @exists_map_of_requireString _ ["verification"] _ _ hcommand
    have hrepository : ∃ entries, getPath document ["repository"] = .map entries :=
      @exists_map_of_requireString _ ["repository"] _ _ hupstream
    exact ⟨⟨h.schemaVersion, hnode, hip, h.root, h.talosMinor, h.kubernetesMinor⟩,
      ⟨h.noStaleKey, h.noStaleTerm⟩,
      ⟨hnvidia, h.track, h.reason, h.noTinygrad, hdonor, ⟨h.donor, lineage, hlineage, hflow⟩,
        h.extensions⟩,
      ⟨hartifacts, hrollback, hdisc, h.optional⟩, h.aborts,
      ⟨hverification, h.commands, command, hcommand⟩, hrepository, horigin, hupstream⟩

/-- A field the gate pins can be printed as it stands: only white space is around its text. -/
theorem encodable_of_requireString {stdout : StreamErrors} {path : List String} {e : String}
    (h : requireString document path = .ok (str e)) :
    (getPath document path).encodable stdout = true := by
  obtain ⟨s, hs, ht, -⟩ := requireString_ok_iff.mp h
  rw [hs, Value.encodable, ← encodable_strip_iff, ht, encodable_str]

/-- What the gate prints of a coherent matrix is there, and can be printed. -/
theorem report_of_coherent (stdout : StreamErrors) (matrixPath : Text) (h : Coherent rawText document) :
    ∃ printed, Gate.report stdout matrixPath document = .ok printed := by
  have htrack := h.track (["nvidia", "selectedTrack"], Expected.selectedTrack) (by simp [trackFields])
  have htag := h.track (["nvidia", "upstreamOpenModuleTag"], Expected.upstreamTag)
    (by simp [trackFields])
  have href := h.others (["artifacts", "currentRollbackInstallerImage", "ref"],
    Expected.rollbackInstaller) (by simp [otherFields])
  have htrack' := ne_null_of_requireString htrack
  have htag' := ne_null_of_requireString htag
  have href' := ne_null_of_requireString href
  obtain ⟨nvidia, hnvidia, heq⟩ := item_of_getPath htrack'
  obtain ⟨track, hitrack, hetrack⟩ := item_of_getPath (heq ▸ htrack')
  obtain ⟨nvidia', hnvidia', heq'⟩ := item_of_getPath htag'
  obtain rfl : nvidia' = nvidia := by rw [hnvidia] at hnvidia'; exact (Except.ok.inj hnvidia').symm
  obtain ⟨tag, hitag, hetag⟩ := item_of_getPath (heq' ▸ htag')
  obtain ⟨artifacts, hartifacts, heq₁⟩ := item_of_getPath href'
  obtain ⟨rollback, hrollback, heq₂⟩ := item_of_getPath (heq₁ ▸ href')
  obtain ⟨ref, hiref, heref⟩ := item_of_getPath (heq₂ ▸ heq₁ ▸ href')
  have hptrack : track.encodable stdout = true := by
    rw [← getPath_nil track, hetrack, heq]
    exact encodable_of_requireString htrack
  have hptag : tag.encodable stdout = true := by
    rw [← getPath_nil tag, hetag, heq']
    exact encodable_of_requireString htag
  have hpref : ref.encodable stdout = true := by
    rw [← getPath_nil ref, heref, heq₂, heq₁]
    exact encodable_of_requireString href
  have hpath : (Value.str (ofText matrixPath)).encodable stdout = true := encodable_ofText matrixPath
  simp only [Gate.report, hnvidia, hitrack, hitag, hartifacts, hrollback, hiref, ok_bind]
  simp [hptrack, hptag, hpref, hpath]

/-- **What the gate accepts**: the coherent matrices. -/
theorem accepts_iff {stdout : StreamErrors} {matrixPath : Text} :
    Accepts stdout matrixPath rawText document ↔ Coherent rawText document := by
  constructor
  · rintro ⟨printed, h⟩
    rw [← checkDocument_errors_iff]
    cases document with
    | map entries =>
        by_contra hne
        simp [checkMatrix, hne] at h
    | _ => simp [checkMatrix] at h
  · intro h
    obtain ⟨printed, hprinted⟩ := report_of_coherent stdout matrixPath h
    refine ⟨printed, ?_⟩
    obtain ⟨entries, hentries⟩ :=
      @exists_map_of_requireString _ [] _ _ (h.root _ List.mem_cons_self)
    obtain rfl : document = .map entries := hentries
    simp [checkMatrix, checkDocument_errors_iff.mpr h, hprinted, Except.mapError]

end

end TalosP2P.Matrix
