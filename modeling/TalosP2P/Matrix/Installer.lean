import TalosP2P.Matrix.Release
import TalosP2P.Support.Shell

/-!
# Matrix — Installer

The matrix reader of `build-installer.sh`, in the order of the script, and the seven lines the shell
reads of it.

* `readMatrix_ok_iff`: when the reader has read everything, and what it prints.
* `matrixReader_seven_iff`: when it comes to its end and the shell has its seven values.
-/

namespace TalosP2P.Matrix

open Python

/-- What the reader prints, before the name of the installer image. -/
structure InstallerInputs where
  targetTalosVersion : Str
  arch : Str
  customSysextImage : Str
  toolkitImage : Str
  officialOpenModuleImage : Str
  originRepo : Str
  deriving DecidableEq

/-- The lines that are printed. -/
def InstallerInputs.printed (inputs : InstallerInputs) : List Str :=
  [inputs.targetTalosVersion, inputs.arch, inputs.customSysextImage, inputs.toolkitImage,
    inputs.officialOpenModuleImage, inputs.originRepo,
    str "ghcr.io/" ++ inputs.originRepo ++ str "/nvidia-open-gpu-kernel-modules-p2p-installer"]

/-- The reference of an official extension with its digest: a digest in the reference has to be the
one of the field, and is added where the reference has none. -/
def pinRef (refField digestField : String) (ref digest : Str) : Except Exc Str :=
  if .char '@' ∈ ref then do
    let refDigest := afterLast (.char '@') ref
    if refDigest ≠ digest then
      throw (.systemExit (refField ++ " digest " ++ quoted refDigest ++ " does not match " ++
        digestField ++ " " ++ quoted digest))
    return ref
  else return ref ++ .char '@' :: digest

def pinToolkit : Str → Str → Except Exc Str :=
  pinRef "nvidia.officialUserspaceToolkitExtension.ref"
    "nvidia.officialUserspaceToolkitExtension.digest"

def pinOpenModule : Str → Str → Except Exc Str :=
  pinRef "nvidia.officialOpenModuleExtension.ref" "nvidia.officialOpenModuleExtension.digest"

/-- The sysext image, and the digest of the matrix where the image is that of the matrix. -/
def customSysext (document : Value) (override : Str) : Except Exc (Str × Option Str) :=
  if override ≠ [] then return (override, none)
  else do
    let image ← requireString document ["artifacts", "customSysextImage"]
    let digest ← requireString document ["artifacts", "customSysextDigest"]
    return (image, some digest)

/-- The checks of the sysext image. -/
def checkSysext (image : Str) (digest : Option Str) : Except Exc Unit := do
  if .char '@' ∉ image then throw (.systemExit "custom sysext image must be digest-pinned")
  match digest with
  | none => return ()
  | some digest =>
    let imageDigest := afterLast (.char '@') image
    if imageDigest ≠ digest then
      throw (.systemExit ("artifacts.customSysextImage digest " ++ quoted imageDigest ++
        " does not match artifacts.customSysextDigest " ++ quoted digest))

/-- The reader, with the variable `CUSTOM_SYSEXT_IMAGE`, up to what it prints. -/
def readMatrix (document : Value) (customSysextImage : Option Str) :
    Except Exc InstallerInputs := do
  let targetTalosVersion ← requireString document ["targetTalosVersion"]
  let arch ← requireString document ["arch"]
  let originRepo ← requireString document ["repository", "origin"]
  let (image, digest) ← customSysext document (Str.strip (customSysextImage.getD []))
  let openModuleRef ← requireString document ["nvidia", "officialOpenModuleExtension", "ref"]
  let openModuleDigest ← requireString document ["nvidia", "officialOpenModuleExtension", "digest"]
  let toolkitRef ← requireString document ["nvidia", "officialUserspaceToolkitExtension", "ref"]
  let toolkitDigest ←
    requireString document ["nvidia", "officialUserspaceToolkitExtension", "digest"]
  checkSysext image digest
  let toolkitImage ← pinToolkit toolkitRef toolkitDigest
  let officialOpenModuleImage ← pinOpenModule openModuleRef openModuleDigest
  return ⟨targetTalosVersion, arch, image, toolkitImage, officialOpenModuleImage, originRepo⟩

/-- The reader to its end: what it read, when nothing it prints raises. -/
def matrixReader (stdout : StreamErrors) (document : Value) (customSysextImage : Option Str) :
    Except Exc InstallerInputs := do
  let inputs ← readMatrix document customSysextImage
  Str.printing stdout inputs.printed
  return inputs

/-- What the reader writes to its output, up to the value that raises. -/
def output (stdout : StreamErrors) (document : Value) (customSysextImage : Option Str) : Str :=
  match readMatrix document customSysextImage with
  | .ok inputs => Str.printLines (Str.written stdout inputs.printed)
  | .error _ => []

/-- `matrix_values`: the lines the shell reads, of which there have to be seven.  How the reader ended
is not looked at. -/
def matrixValues (stdout : StreamErrors) (matrixPath : Text) (document : Value)
    (customSysextImage : Option Str) : Except Shell.Failure (List Str) :=
  let values := Str.mapfile (output stdout document customSysextImage)
  if values.length ≠ 7 then
    .error ⟨"failed to read installer inputs from ".toList ++ '\'' :: matrixPath ++ ['\'']⟩
  else .ok values

/-! ### The reader taken apart -/

/-- `image` is a name, an `@` and the digest. -/
def PinnedTo (digest image : Str) : Prop := ∃ name, image = name ++ .char '@' :: digest

/-- An `@` and the digest after the last one. -/
theorem pinnedTo_iff {digest image : Str} :
    PinnedTo digest image ∧ .char '@' ∉ digest ↔
      .char '@' ∈ image ∧ afterLast (.char '@') image = digest := by
  constructor
  · rintro ⟨⟨name, rfl⟩, h⟩
    exact ⟨by simp, afterLast_append h⟩
  · rintro ⟨h, rfl⟩
    exact ⟨exists_eq_append_afterLast h, not_mem_afterLast (.char '@') image⟩

/-- Without the variable, the image and the digest are those of the matrix. -/
theorem customSysext_nil_iff {document : Value} {image : Str} {digest : Option Str} :
    customSysext document [] = .ok (image, digest) ↔
      requireString document ["artifacts", "customSysextImage"] = .ok image ∧
        ∃ d, requireString document ["artifacts", "customSysextDigest"] = .ok d ∧
          digest = some d := by
  cases himage : requireString document ["artifacts", "customSysextImage"] <;>
    cases hdigest : requireString document ["artifacts", "customSysextDigest"] <;>
      simp [customSysext, himage, hdigest, eq_comm]

theorem checkSysext_some_iff {image digest : Str} :
    checkSysext image (some digest) = .ok () ↔ PinnedTo digest image ∧ .char '@' ∉ digest := by
  rw [pinnedTo_iff]
  by_cases h : .char '@' ∈ image <;> by_cases hd : afterLast (.char '@') image = digest <;>
    simp [checkSysext, h, hd]

theorem checkSysext_none_iff {image : Str} :
    checkSysext image none = .ok () ↔ .char '@' ∈ image := by
  by_cases h : .char '@' ∈ image <;>
    simp [checkSysext, h]

theorem pinRef_ok_iff {refField digestField : String} {ref digest image : Str} :
    pinRef refField digestField ref digest = .ok image ↔
      (.char '@' ∉ ref ∧ image = ref ++ .char '@' :: digest) ∨
        (.char '@' ∈ ref ∧ afterLast (.char '@') ref = digest ∧ image = ref) := by
  by_cases h : .char '@' ∈ ref <;> by_cases hd : afterLast (.char '@') ref = digest <;>
    simp [pinRef, h, hd, eq_comm]

/-- What becomes of a reference ends in the digest of its field. -/
theorem PinnedTo.of_pinRef {refField digestField : String} {ref digest image : Str}
    (h : pinRef refField digestField ref digest = .ok image) : PinnedTo digest image := by
  rcases pinRef_ok_iff.mp h with ⟨-, rfl⟩ | ⟨hat, rfl, rfl⟩
  · exact ⟨ref, rfl⟩
  · exact exists_eq_append_afterLast hat

/-- How the fields of a document make the inputs. -/
structure Reads (document : Value) (customSysextImage : Option Str) (inputs : InstallerInputs) :
    Prop where
  version : requireString document ["targetTalosVersion"] = .ok inputs.targetTalosVersion
  arch : requireString document ["arch"] = .ok inputs.arch
  origin : requireString document ["repository", "origin"] = .ok inputs.originRepo
  sysext : ∃ digest,
    customSysext document (Str.strip (customSysextImage.getD [])) =
        .ok (inputs.customSysextImage, digest) ∧
      checkSysext inputs.customSysextImage digest = .ok ()
  toolkit : ∃ ref digest,
    requireString document ["nvidia", "officialUserspaceToolkitExtension", "ref"] = .ok ref ∧
      requireString document ["nvidia", "officialUserspaceToolkitExtension", "digest"] =
        .ok digest ∧
      pinToolkit ref digest = .ok inputs.toolkitImage
  openModule : ∃ ref digest,
    requireString document ["nvidia", "officialOpenModuleExtension", "ref"] = .ok ref ∧
      requireString document ["nvidia", "officialOpenModuleExtension", "digest"] = .ok digest ∧
      pinOpenModule ref digest = .ok inputs.officialOpenModuleImage

/-- **The reader**: it succeeds when every field it reads is there and the images agree with their
digests. -/
theorem readMatrix_ok_iff {document : Value} {customSysextImage : Option Str}
    {inputs : InstallerInputs} :
    readMatrix document customSysextImage = .ok inputs ↔ Reads document customSysextImage inputs := by
  constructor
  · intro h
    obtain ⟨version, hversion, h⟩ := bind_eq_ok_iff.mp h
    obtain ⟨arch, harch, h⟩ := bind_eq_ok_iff.mp h
    obtain ⟨origin, horigin, h⟩ := bind_eq_ok_iff.mp h
    obtain ⟨⟨image, digest⟩, himage, h⟩ := bind_eq_ok_iff.mp h
    obtain ⟨ref, href, h⟩ := bind_eq_ok_iff.mp h
    obtain ⟨refDigest, hrefDigest, h⟩ := bind_eq_ok_iff.mp h
    obtain ⟨toolkitRef, htoolkitRef, h⟩ := bind_eq_ok_iff.mp h
    obtain ⟨toolkitDigest, htoolkitDigest, h⟩ := bind_eq_ok_iff.mp h
    obtain ⟨⟨⟩, hcheck, h⟩ := bind_eq_ok_iff.mp h
    obtain ⟨toolkit, htoolkit, h⟩ := bind_eq_ok_iff.mp h
    obtain ⟨openModule, hopenModule, h⟩ := bind_eq_ok_iff.mp h
    cases h
    exact ⟨hversion, harch, horigin, ⟨digest, himage, hcheck⟩,
      ⟨toolkitRef, toolkitDigest, htoolkitRef, htoolkitDigest, htoolkit⟩,
      ref, refDigest, href, hrefDigest, hopenModule⟩
  · rintro ⟨hversion, harch, horigin, ⟨digest, himage, hcheck⟩,
      ⟨toolkitRef, toolkitDigest, htoolkitRef, htoolkitDigest, htoolkit⟩,
      ref, refDigest, href, hrefDigest, hopenModule⟩
    simp only [readMatrix, hversion, harch, horigin, himage, href, hrefDigest, htoolkitRef,
      htoolkitDigest, hcheck, htoolkit, hopenModule, ok_bind, pure_eq_ok]

/-! ### Seven values -/

/-- The reader comes to its end and the shell has its values exactly when nothing that is printed
raises and no line is broken. -/
theorem matrixReader_seven_iff {stdout : StreamErrors} {matrixPath : Text} {document : Value}
    {customSysextImage : Option Str} :
    ((∃ inputs, matrixReader stdout document customSysextImage = .ok inputs) ∧
        ∃ values, matrixValues stdout matrixPath document customSysextImage = .ok values ∧
          values.length = 7) ↔
      ∃ inputs, readMatrix document customSysextImage = .ok inputs ∧
        (∀ v ∈ inputs.printed, v.encodable stdout = true) ∧
        ∀ v ∈ inputs.printed, .char '\n' ∉ v := by
  cases hr : readMatrix document customSysextImage with
  | error e => simp [matrixReader, hr]
  | ok inputs =>
      have hend : (∃ i, matrixReader stdout document customSysextImage = .ok i) ↔
          ∀ v ∈ inputs.printed, v.encodable stdout = true := by
        rw [← printing_eq_ok_iff, matrixReader, hr, ok_bind]
        cases Str.printing stdout inputs.printed <;> simp
      rw [hend]
      simp only [Except.ok.injEq, exists_eq_left']
      refine and_congr_right fun hall => ?_
      have hlines : (Str.mapfile (Str.printLines inputs.printed)).length = 7 ↔
          ∀ v ∈ inputs.printed, .char '\n' ∉ v := length_mapfile_printLines_eq_iff
      simp only [matrixValues, output, hr, written_eq_self hall]
      by_cases hcount : (Str.mapfile (Str.printLines inputs.printed)).length = 7
      · simpa [hcount] using hlines.mp hcount
      · simpa [hcount] using mt hlines.mpr hcount

/-- What the fields the gate leaves open have to hold for the reader. -/
structure Consumable (stdout : StreamErrors) (document : Value) : Prop where
  pinned : PinnedTo (field document ["artifacts", "customSysextDigest"])
    (field document ["artifacts", "customSysextImage"])
  digest : .char '@' ∉ field document ["artifacts", "customSysextDigest"]
  image : .char '\n' ∉ field document ["artifacts", "customSysextImage"]
  origin : .char '\n' ∉ field document ["repository", "origin"]
  imagePrints : (field document ["artifacts", "customSysextImage"]).encodable stdout = true
  originPrints : (field document ["repository", "origin"]).encodable stdout = true

/-- The values of the release that are printed hold no newline. -/
theorem release_oneLine : '\n' ∉ Expected.targetTalosVersion.toList ∧
    '\n' ∉ Expected.arch.toList ∧ '\n' ∉ Expected.toolkitRef.toList ∧
    '\n' ∉ Expected.toolkitDigest.toList ∧ '\n' ∉ Expected.openModuleRef.toList ∧
    '\n' ∉ Expected.openModuleDigest.toList := by
  simp only [Expected.targetTalosVersion, Expected.arch, Expected.toolkitRef,
    Expected.toolkitDigest, Expected.openModuleRef, Expected.openModuleDigest]
  and_intros
  all_goals
    rw [String.toList_ofList]
    decide +kernel

/-- The inputs of an accepted matrix: only the sysext and the origin are not those of the release. -/
def releaseInputs (image origin : Str) : InstallerInputs where
  targetTalosVersion := str Expected.targetTalosVersion
  arch := str Expected.arch
  customSysextImage := image
  toolkitImage := str Expected.toolkitRef ++ .char '@' :: str Expected.toolkitDigest
  officialOpenModuleImage :=
    str Expected.openModuleRef ++ .char '@' :: str Expected.openModuleDigest
  originRepo := origin

@[simp]
theorem releaseInputs_customSysextImage (image origin : Str) :
    (releaseInputs image origin).customSysextImage = image := rfl

/-- The official extensions of the release, whose references name no digest. -/
theorem releaseInputs_pinned (image origin : Str) :
    pinToolkit (str Expected.toolkitRef) (str Expected.toolkitDigest) =
        .ok (releaseInputs image origin).toolkitImage ∧
      pinOpenModule (str Expected.openModuleRef) (str Expected.openModuleDigest) =
        .ok (releaseInputs image origin).officialOpenModuleImage := by
  obtain ⟨-, -, hopenRef, htoolkitRef⟩ := extensions_wellFormed
  exact ⟨pinRef_ok_iff.mpr (.inl ⟨htoolkitRef, rfl⟩), pinRef_ok_iff.mpr (.inl ⟨hopenRef, rfl⟩)⟩

theorem releaseInputs_oneLine_iff {image origin : Str} :
    (∀ v ∈ (releaseInputs image origin).printed, .char '\n' ∉ v) ↔
      .char '\n' ∉ image ∧ .char '\n' ∉ origin := by
  obtain ⟨hversion, harch, htoolkit, htoolkitDigest, hopen, hopenDigest⟩ := release_oneLine
  simp [InstallerInputs.printed, releaseInputs, str, hversion, harch, htoolkit, htoolkitDigest, hopen,
    hopenDigest]

/-- The values of the release can be printed, so that it is for the sysext and the origin. -/
theorem releaseInputs_encodable_iff {stdout : StreamErrors} {image origin : Str} :
    (∀ v ∈ (releaseInputs image origin).printed, v.encodable stdout = true) ↔
      image.encodable stdout = true ∧ origin.encodable stdout = true := by
  simp [InstallerInputs.printed, releaseInputs]

section

variable {rawText : Text} {document : Value} {inputs : InstallerInputs}

theorem requireString_extensions (hc : Coherent rawText document) :
    requireString document ["nvidia", "officialOpenModuleExtension", "ref"] =
        .ok (str Expected.openModuleRef) ∧
      requireString document ["nvidia", "officialOpenModuleExtension", "digest"] =
        .ok (str Expected.openModuleDigest) ∧
      requireString document ["nvidia", "officialUserspaceToolkitExtension", "ref"] =
        .ok (str Expected.toolkitRef) ∧
      requireString document ["nvidia", "officialUserspaceToolkitExtension", "digest"] =
        .ok (str Expected.toolkitDigest) := by
  have h := hc.extensions
  simp only [extensionFields, holds_cons_iff, holds_nil, and_true] at h
  obtain ⟨-, hopen, hopenDigest, -, htoolkit, htoolkitDigest, -⟩ := h
  exact ⟨hopen, hopenDigest, htoolkit, htoolkitDigest⟩

/-- What the reader makes of an accepted matrix, without the variable. -/
theorem reads_of_coherent_iff (hc : Coherent rawText document) :
    Reads document none inputs ↔ ∃ image digest origin,
      requireString document ["artifacts", "customSysextImage"] = .ok image ∧
      requireString document ["artifacts", "customSysextDigest"] = .ok digest ∧
      requireString document ["repository", "origin"] = .ok origin ∧
      (PinnedTo digest image ∧ .char '@' ∉ digest) ∧ inputs = releaseInputs image origin := by
  obtain ⟨-, -, hopenRef, htoolkitRef⟩ := extensions_wellFormed
  obtain ⟨hopen, hopenDigest, htoolkit, htoolkitDigest⟩ := requireString_extensions hc
  have hroot := hc.root
  simp only [rootFields, holds_cons_iff, holds_nil, and_true] at hroot
  obtain ⟨hversion, -, -, -, harch, -⟩ := hroot
  constructor
  · rintro ⟨hversion', harch', horigin, ⟨digest, hsysext, hcheck⟩,
      ⟨ref, refDigest, href, hrefDigest, hpin⟩, ref', refDigest', href', hrefDigest', hpin'⟩
    obtain ⟨himage, d, hdigest, rfl⟩ := customSysext_nil_iff.mp hsysext
    refine ⟨_, d, _, himage, hdigest, horigin, checkSysext_some_iff.mp hcheck, ?_⟩
    -- the fields of the release hold one value each
    rw [hversion] at hversion'
    rw [harch] at harch'
    obtain rfl := Except.ok.inj (htoolkit.symm.trans href)
    obtain rfl := Except.ok.inj (htoolkitDigest.symm.trans hrefDigest)
    obtain rfl := Except.ok.inj (hopen.symm.trans href')
    obtain rfl := Except.ok.inj (hopenDigest.symm.trans hrefDigest')
    rcases pinRef_ok_iff.mp hpin with ⟨-, htoolkitImage⟩ | ⟨hat, -⟩
    · rcases pinRef_ok_iff.mp hpin' with ⟨-, hopenImage⟩ | ⟨hat, -⟩
      · rw [releaseInputs, Except.ok.inj hversion', Except.ok.inj harch', ← htoolkitImage,
          ← hopenImage]
      · exact absurd hat hopenRef
    · exact absurd hat htoolkitRef
  · rintro ⟨image, digest, origin, himage, hdigest, horigin, hpinned, rfl⟩
    have hsysext : customSysext document (Str.strip []) = .ok (image, some digest) :=
      customSysext_nil_iff.mpr ⟨himage, digest, hdigest, rfl⟩
    exact ⟨hversion, harch, horigin, ⟨some digest, hsysext, checkSysext_some_iff.mpr hpinned⟩,
      ⟨_, _, htoolkit, htoolkitDigest, (releaseInputs_pinned image origin).1⟩,
      _, _, hopen, hopenDigest, (releaseInputs_pinned image origin).2⟩

/-- A field of an accepted matrix that may be null and is not. -/
theorem requireString_field (hc : Coherent rawText document) {path : List String}
    (hpath : path ∈ optionalFields) (h : getPath document path ≠ .null) :
    requireString document path = .ok (field document path) := by
  obtain ⟨t, ht⟩ := (hc.optional path hpath).resolve_left h
  rw [ht, field_of_requireString ht]

/-- **The gate and the reader**: of a matrix the gate accepts, with a sysext and a digest, the reader
makes seven values, and comes to its end, exactly when the sysext ends in `@` and the digest, and
neither a newline nor a surrogate that cannot be printed is in a value. -/
theorem accepted_consumed_iff {stdout : StreamErrors} {matrixPath : Text}
    (h : Accepts stdout matrixPath rawText document)
    (himage : getPath document ["artifacts", "customSysextImage"] ≠ .null)
    (hdigest : getPath document ["artifacts", "customSysextDigest"] ≠ .null) :
    ((∃ inputs, matrixReader stdout document none = .ok inputs) ∧
        ∃ values, matrixValues stdout matrixPath document none = .ok values ∧ values.length = 7) ↔
      Consumable stdout document := by
  have hc := accepts_iff.mp h
  have hi := requireString_field hc (by simp [optionalFields]) himage
  have hd := requireString_field hc (by simp [optionalFields]) hdigest
  obtain ⟨t, ht⟩ := hc.present ["repository", "origin"] (by simp [openFields])
  obtain rfl := field_of_requireString ht
  rw [matrixReader_seven_iff]
  simp only [readMatrix_ok_iff, reads_of_coherent_iff hc, hi, hd, ht, Except.ok.injEq]
  constructor
  · rintro ⟨inputs, ⟨image, digest, origin, rfl, rfl, rfl, hpinned, rfl⟩, hprints, hlines⟩
    obtain ⟨himage, horigin⟩ := releaseInputs_oneLine_iff.mp hlines
    obtain ⟨himage', horigin'⟩ := releaseInputs_encodable_iff.mp hprints
    exact ⟨hpinned.1, hpinned.2, himage, horigin, himage', horigin'⟩
  · rintro ⟨hpinned, hat, himage, horigin, himage', horigin'⟩
    exact ⟨_, ⟨_, _, _, rfl, rfl, rfl, ⟨hpinned, hat⟩, rfl⟩,
      releaseInputs_encodable_iff.mpr ⟨himage', horigin'⟩,
      releaseInputs_oneLine_iff.mpr ⟨himage, horigin⟩⟩

end

/-- The sysext of the release, by its tag. -/
def sysextTag : String :=
  "ghcr.io/himekifee/talos-tinygrad-nvidia-p2p-driver/nvidia-modules-p2p-lts:v1.12.6-nvidia-580.105.08-g1b4b9cac381f-20260401034448"

/-- The sysext of the release, by its tag and its digest. -/
def sysextImage : String :=
  "ghcr.io/himekifee/talos-tinygrad-nvidia-p2p-driver/nvidia-modules-p2p-lts:v1.12.6-nvidia-580.105.08-g1b4b9cac381f-20260401034448@sha256:4ccc0723bee8f984ceec19ed8f3046d9026b06d92b46108fabf18344ec6de666"

/-- The digest of the sysext. -/
def sysextDigest : String :=
  "sha256:4ccc0723bee8f984ceec19ed8f3046d9026b06d92b46108fabf18344ec6de666"

theorem trimmed_sysext : Trimmed (str sysextTag) ∧ Trimmed (str sysextImage) ∧
    Trimmed (str sysextDigest) := by
  simp only [sysextTag, sysextImage, sysextDigest]
  and_intros
  all_goals
    rw [str_ofList]
    decide +kernel

theorem field_releaseMatrix {image digest : String} (hi : Trimmed (str image))
    (hd : Trimmed (str digest)) :
    requireString (releaseMatrix image digest) ["artifacts", "customSysextImage"] =
        .ok (str image) ∧
      requireString (releaseMatrix image digest) ["artifacts", "customSysextDigest"] =
        .ok (str digest) := by
  refine ⟨hi.requireString ?_, hd.requireString ?_⟩ <;>
    simp only [releaseMatrix, getPath_mapping_cons, getPath_nil, reduceIte, String.reduceEq, text]

theorem openLines_noStaleTerm {image : String} (h : image = sysextTag ∨ image = sysextImage) :
    ∀ line ∈ openLines image sysextDigest, ∀ term ∈ staleTerms,
      ¬ term.toList <:+: lower line.toList := by
  simp only [openLines, List.forall_mem_cons, List.not_mem_nil, IsEmpty.forall_iff, implies_true,
    and_true, forall_staleTerms_iff, String.toList_append]
  rw [sysextDigest, String.toList_ofList, String.toList_ofList, String.toList_ofList,
    String.toList_ofList, String.toList_ofList]
  rcases h with rfl | rfl
  · rw [sysextTag, String.toList_ofList]
    decide +kernel
  · rw [sysextImage, String.toList_ofList]
    decide +kernel

/-- The release matrix is accepted with a sysext that names no digest as it is with one that does. -/
theorem accepts_sysext (stdout : StreamErrors) (matrixPath : Text) {image : String}
    (h : image = sysextTag ∨ image = sysextImage) :
    Accepts stdout matrixPath (releaseText image sysextDigest) (releaseMatrix image sysextDigest) := by
  obtain ⟨htag, himage, hdigest⟩ := trimmed_sysext
  have htrimmed : Trimmed (str image) := by
    rcases h with rfl | rfl
    · exact htag
    · exact himage
  exact accepts_releaseMatrix (htrimmed.strip.symm ▸ htrimmed.ne_nil)
    (hdigest.strip.symm ▸ hdigest.ne_nil) (openLines_noStaleTerm h)

theorem accepted_not_consumed : ¬ ∀ (stdout : StreamErrors) (matrixPath rawText : Text)
    (document : Value), Accepts stdout matrixPath rawText document →
    getPath document ["artifacts", "customSysextImage"] ≠ .null →
    getPath document ["artifacts", "customSysextDigest"] ≠ .null →
    (∃ inputs, matrixReader stdout document none = .ok inputs) ∧
      ∃ values, matrixValues stdout matrixPath document none = .ok values ∧ values.length = 7 := by
  intro h
  obtain ⟨htag, -, hdigest⟩ := trimmed_sysext
  obtain ⟨hi, hd⟩ := field_releaseMatrix htag hdigest
  have haccepts := accepts_sysext .strict "docs/release-matrix.yaml".toList (.inl rfl)
  obtain ⟨inputs, hread, -⟩ := matrixReader_seven_iff.mp (h _ _ _ _ haccepts
    (ne_null_of_requireString hi) (ne_null_of_requireString hd))
  rw [readMatrix_ok_iff, reads_of_coherent_iff (accepts_iff.mp haccepts)] at hread
  obtain ⟨image, digest, -, himage, -, -, ⟨⟨name, hname⟩, -⟩, -⟩ := hread
  obtain rfl := Except.ok.inj (hi.symm.trans himage)
  have hat : .char '@' ∉ str sysextTag := by
    rw [sysextTag, str_ofList]
    decide +kernel
  exact hat (hname ▸ by simp)

theorem sysext_pinned : PinnedTo (str sysextDigest) (str sysextImage) ∧
    .char '@' ∉ str sysextDigest := by
  rw [pinnedTo_iff, sysextImage, sysextDigest, str_ofList, str_ofList]
  decide +kernel

theorem accepted_consumed_iff_sysext :
    (∃ inputs, matrixReader .strict (releaseMatrix sysextImage sysextDigest) none = .ok inputs) ∧
      ∃ values, matrixValues .strict "docs/release-matrix.yaml".toList
        (releaseMatrix sysextImage sysextDigest) none = .ok values ∧ values.length = 7 := by
  obtain ⟨-, himage, hdigest⟩ := trimmed_sysext
  obtain ⟨hi, hd⟩ := field_releaseMatrix himage hdigest
  have ho := @holds_releaseFields sysextImage sysextDigest
    (["repository", "origin"], "himekifee/talos-tinygrad-nvidia-p2p-driver")
    (by simp [releaseFields, openTexts])
  obtain ⟨hpinned, hat⟩ := sysext_pinned
  refine (accepted_consumed_iff (accepts_sysext .strict "docs/release-matrix.yaml".toList (.inr rfl))
    (ne_null_of_requireString hi) (ne_null_of_requireString hd)).mpr ⟨?_, ?_, ?_, ?_, ?_, ?_⟩
  · rwa [field_of_requireString hi, field_of_requireString hd]
  · rwa [field_of_requireString hd]
  · rw [field_of_requireString hi, sysextImage, str_ofList]
    decide +kernel
  · rw [field_of_requireString ho, str_ofList]
    decide +kernel
  · rw [field_of_requireString hi, encodable_str]
  · rw [field_of_requireString ho, encodable_str]

end TalosP2P.Matrix
