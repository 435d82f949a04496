import TalosP2P.Matrix.Installer

/-!
# Matrix — Digests

Which images reach the imager pinned to a digest.  The reader of `build-installer.sh` asks of the
sysext only that it holds an `@`; of the official extensions it asks only that a digest in the
reference is the one of the field.  The publish workflow composes the sysext of its tag and what it
finds in the registry.

* `pinned_of_read_iff`: the images a reader prints are pinned exactly when the digests it is given
  are digests.
* `composed_pinned_iff`: what the workflow composes is pinned exactly when the registry gave a digest.
-/

namespace TalosP2P.Matrix

open Python

/-! ### The workflow -/

/-- `[[:space:]]`. -/
def isSpaceClass (c : Char) : Bool := c == ' ' || (0x09 ≤ c.toNat && c.toNat ≤ 0x0d)

/-- `image_digest`: the first line of `docker buildx imagetools inspect` that starts in `Digest:`.
Where there is none the digest is empty: the function runs in a command substitution, where `-e` does
not hold, so that its `test -n` stops nothing and its status is that of `printf`. -/
def imageDigest (inspected : Text) : Text :=
  let digests := (mapfile inspected).filterMap fun line =>
    if "Digest:".toList <+: line then some ((line.drop 7).dropWhile isSpaceClass) else none
  digests.head?.getD []

/-- `CUSTOM_SYSEXT_IMAGE` of the workflow. -/
def composedSysext (p2pSysextImage inspected : Text) : Text :=
  p2pSysextImage ++ '@' :: imageDigest inspected

/-! ### Pinned images -/

/-- The image ends in `@sha256:` and 64 hexadecimal digits. -/
def DigestPinned (image : Str) : Prop :=
  ∃ digest, Gate.isSha256 digest = true ∧ PinnedTo digest image

theorem not_mem_of_isSha256 {digest : Str} (h : Gate.isSha256 digest = true) :
    .char '@' ∉ digest := by
  intro hat
  simp only [Gate.isSha256, Bool.and_eq_true, List.all_eq_true] at h
  obtain ⟨⟨hfront, -⟩, hback⟩ := h
  obtain ⟨t, rfl⟩ := List.isPrefixOf_iff_prefix.mp hfront
  rcases List.mem_append.mp hat with hat | hat
  · revert hat; decide
  · rw [List.drop_left' (by decide)] at hback
    have := hback _ hat
    revert this; decide

/-- A digest that pins an image is what stands after its last `@`. -/
theorem digestPinned_iff {image : Str} (h : .char '@' ∈ image) :
    DigestPinned image ↔ Gate.isSha256 (afterLast (.char '@') image) = true := by
  constructor
  · rintro ⟨digest, hsha, hpinned⟩
    rwa [(pinnedTo_iff.mp ⟨hpinned, not_mem_of_isSha256 hsha⟩).2]
  · intro hsha
    exact ⟨_, hsha, exists_eq_append_afterLast h⟩

/-- **The workflow's sysext** is pinned exactly when the registry gave a digest. -/
theorem composed_pinned_iff {p2pSysextImage inspected : Text} (h : '@' ∉ imageDigest inspected) :
    DigestPinned (ofText (composedSysext p2pSysextImage inspected)) ↔
      Gate.isSha256 (ofText (imageDigest inspected)) = true := by
  rw [digestPinned_iff (by simp [composedSysext]), composedSysext, ofText_append, ofText_cons,
    afterLast_append (char_mem_ofText_iff.not.mpr h)]

/-- The images a reader prints are pinned, and those the matrix names to the digests it names. -/
structure PinnedInputs (document : Value) (override : Str) (inputs : InstallerInputs) : Prop where
  sysext : DigestPinned inputs.customSysextImage
  matrixSysext : override = [] → ∃ digest, Gate.isSha256 digest = true ∧
    requireString document ["artifacts", "customSysextDigest"] = .ok digest ∧
    PinnedTo digest inputs.customSysextImage
  toolkit : ∃ digest, Gate.isSha256 digest = true ∧
    requireString document ["nvidia", "officialUserspaceToolkitExtension", "digest"] = .ok digest ∧
    PinnedTo digest inputs.toolkitImage
  openModule : ∃ digest, Gate.isSha256 digest = true ∧
    requireString document ["nvidia", "officialOpenModuleExtension", "digest"] = .ok digest ∧
    PinnedTo digest inputs.officialOpenModuleImage

/-- The reader is given digests: in the variable, where there is one, and in the matrix. -/
structure GivenDigests (document : Value) (override : Str) : Prop where
  given : override ≠ [] → DigestPinned override
  sysext : override = [] →
    Gate.isSha256 (field document ["artifacts", "customSysextDigest"]) = true
  toolkit : Gate.isSha256
    (field document ["nvidia", "officialUserspaceToolkitExtension", "digest"]) = true
  openModule : Gate.isSha256
    (field document ["nvidia", "officialOpenModuleExtension", "digest"]) = true

theorem customSysext_override {document : Value} {override image : Str} {digest : Option Str}
    (hne : override ≠ []) (h : customSysext document override = .ok (image, digest)) :
    image = override := by
  simp only [customSysext, if_pos hne, pure, Except.pure, Except.ok.injEq, Prod.mk.injEq] at h
  exact h.1.symm

/-- **Pinned images**: when the reader succeeds, the images it prints are pinned exactly when the
digests it was given are digests. -/
theorem pinned_of_read_iff {document : Value} {customSysextImage : Option Str}
    {inputs : InstallerInputs} (h : readMatrix document customSysextImage = .ok inputs) :
    PinnedInputs document (Str.strip (customSysextImage.getD [])) inputs ↔
      GivenDigests document (Str.strip (customSysextImage.getD [])) := by
  obtain ⟨-, -, -, ⟨digest, hsysext, hcheck⟩, ⟨ref, refDigest, -, hrefDigest, hpin⟩, ref', refDigest', -,
    hrefDigest', hpin'⟩ := readMatrix_ok_iff.mp h
  generalize Str.strip (customSysextImage.getD []) = override at hsysext ⊢
  constructor
  · rintro ⟨hs, hm, ⟨d, hsha, hd, -⟩, d', hsha', hd', -⟩
    refine ⟨fun hne => ?_, fun hnil => ?_, ?_, ?_⟩
    · rwa [← customSysext_override hne hsysext]
    · obtain ⟨d, hsha, hd, -⟩ := hm hnil
      rwa [field_of_requireString hd]
    · rwa [field_of_requireString hd]
    · rwa [field_of_requireString hd']
  · rintro ⟨ho, hs, ht, hp⟩
    rw [field_of_requireString hrefDigest] at ht
    rw [field_of_requireString hrefDigest'] at hp
    have hmatrix : override = [] → ∃ digest, Gate.isSha256 digest = true ∧
        requireString document ["artifacts", "customSysextDigest"] = .ok digest ∧
        PinnedTo digest inputs.customSysextImage := by
      rintro rfl
      obtain ⟨himage, d, hd, rfl⟩ := customSysext_nil_iff.mp hsysext
      have hsha := hs rfl
      rw [field_of_requireString hd] at hsha
      exact ⟨d, hsha, hd, (checkSysext_some_iff.mp hcheck).1⟩
    refine ⟨?_, hmatrix, ⟨refDigest, ht, hrefDigest, .of_pinRef hpin⟩, refDigest', hp, hrefDigest',
      .of_pinRef hpin'⟩
    by_cases hnil : override = []
    · obtain ⟨d, hsha, -, hpinned⟩ := hmatrix hnil
      exact ⟨d, hsha, hpinned⟩
    · rw [customSysext_override hnil hsysext]
      exact ho hnil

/-- The release matrix, read with the sysext the workflow composes when the registry tells no
digest. -/
theorem read_composed : ∃ inputs,
    readMatrix (releaseMatrix sysextImage sysextDigest)
        (some (ofText (composedSysext sysextTag.toList []))) = .ok inputs ∧
      inputs.customSysextImage = ofText (composedSysext sysextTag.toList []) := by
  have hc := accepts_iff.mp (accepts_sysext .strict [] (.inr rfl))
  obtain ⟨hopen, hopenDigest, htoolkit, htoolkitDigest⟩ := requireString_extensions hc
  have hroot := hc.root
  simp only [rootFields, holds_cons_iff, holds_nil, and_true] at hroot
  obtain ⟨hversion, -, -, -, harch, -⟩ := hroot
  obtain ⟨origin, horigin⟩ := hc.present ["repository", "origin"] (by simp [openFields])
  have htrimmed : Trimmed (ofText (composedSysext sysextTag.toList [])) := by
    rw [sysextTag, String.toList_ofList]
    decide +kernel
  obtain ⟨hpin, hpin'⟩ := releaseInputs_pinned (ofText (composedSysext sysextTag.toList [])) origin
  refine ⟨releaseInputs (ofText (composedSysext sysextTag.toList [])) origin, ?_,
    releaseInputs_customSysextImage _ _⟩
  refine readMatrix_ok_iff.mpr ⟨hversion, harch, horigin, ⟨none, ?_, ?_⟩,
    ⟨_, _, htoolkit, htoolkitDigest, hpin⟩, _, _, hopen, hopenDigest, hpin'⟩
  · rw [Option.getD_some, htrimmed.strip, customSysext, if_pos htrimmed.ne_nil,
      releaseInputs_customSysextImage, pure_eq_ok]
  · exact checkSysext_none_iff.mpr (by simp [composedSysext])

theorem read_not_pinned : ¬ ∀ (document : Value) (customSysextImage : Option Str)
    (inputs : InstallerInputs), readMatrix document customSysextImage = .ok inputs →
    PinnedInputs document (Str.strip (customSysextImage.getD [])) inputs := by
  intro h
  obtain ⟨inputs, hread, himage⟩ := read_composed
  have hpinned := (h _ _ _ hread).sysext
  rw [himage, composed_pinned_iff (by decide)] at hpinned
  revert hpinned
  decide

theorem pinned_of_read_iff_sysext : ∃ inputs,
    readMatrix (releaseMatrix sysextImage sysextDigest) none = .ok inputs ∧
      PinnedInputs (releaseMatrix sysextImage sysextDigest) (Str.strip (none.getD [])) inputs := by
  have hc := accepts_iff.mp (accepts_sysext .strict [] (.inr rfl))
  obtain ⟨-, himage, hdigest⟩ := trimmed_sysext
  obtain ⟨hi, hd⟩ := field_releaseMatrix himage hdigest
  obtain ⟨origin, horigin⟩ := hc.present ["repository", "origin"] (by simp [openFields])
  obtain ⟨-, hopenDigest, -, htoolkitDigest⟩ := requireString_extensions hc
  obtain ⟨hopenSha, htoolkitSha, -⟩ := extensions_wellFormed
  have hread : readMatrix (releaseMatrix sysextImage sysextDigest) none =
      .ok (releaseInputs (str sysextImage) origin) :=
    readMatrix_ok_iff.mpr ((reads_of_coherent_iff hc).mpr
      ⟨_, _, _, hi, hd, horigin, sysext_pinned, rfl⟩)
  refine ⟨_, hread, (pinned_of_read_iff hread).mpr ⟨fun h => absurd rfl h, fun _ => ?_, ?_, ?_⟩⟩
  · rw [field_of_requireString hd, sysextDigest, str_ofList]
    decide +kernel
  · rw [field_of_requireString htoolkitDigest]
    exact htoolkitSha
  · rw [field_of_requireString hopenDigest]
    exact hopenSha

end TalosP2P.Matrix
