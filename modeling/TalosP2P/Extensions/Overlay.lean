import TalosP2P.Extensions.Archive
import TalosP2P.Extensions.Compose
import TalosP2P.Support.Occurrence
import TalosP2P.Support.Yaml

/-!
# Extensions — Overlay

The overlay-order verification of `build-installer.sh`: it reads the `extensions.yaml` of the second
archive and compares the indices of the first `nvidia-container-toolkit-lts` layer and the first
`glibc` layer.  What the node boots is decided elsewhere: by the last `extensions.yaml` over all
archives, and by the last layers of the two names, since a later layer overlays an earlier one.

The YAML loader is the parameter `safeLoad`.

* `overlayVerification_ok_iff`: what the check accepts, by first indices.
* `overlayCheck_ok_iff`: what the verification accepts of an initrd.
* `overlayCheck_sound_iff`: exactly when accepting implies the order the check is there for.
* `composed_accepted_iff`: exactly when the check accepts what the composition composed.
-/

namespace TalosP2P.Extensions

open Python Newc Shell Occurrence

def toolkitName : Word := "nvidia-container-toolkit-lts".toList

def glibcName : Word := "glibc".toList

/-- `layers = document.get("layers") or []`. -/
def layersOf (document : Value) : Except Exc Value := do
  let layers ← document.get "layers".toList
  return if layers.truthy then layers else .seq []

/-- `ordered_names = [layer["metadata"]["name"] for layer in layers]`. -/
def orderedNames (layers : Value) : Except Exc (List Value) := do
  let items ← layers.iter
  items.mapM fun layer => do
    let metadata ← layer.item "metadata".toList
    metadata.item "name".toList

/-- The check of a loaded `extensions.yaml`: the lines it prints, the toolkit's image and the
names. -/
def overlayVerification (document : Value) : Except Exc (List Value) := do
  let layers ← layersOf document
  let orderedNames ← orderedNames layers
  if ¬ orderedNames.any (Value.isStr toolkitName) then
    throw (.systemExit "nvidia-container-toolkit-lts missing from installer extension archive")
  if ¬ orderedNames.any (Value.isStr glibcName) then
    throw (.systemExit "glibc missing from installer extension archive")
  -- `list.index`: the first of either name
  let toolkitIndex := orderedNames.findIdx (Value.isStr toolkitName)
  let glibcIndex := orderedNames.findIdx (Value.isStr glibcName)
  if toolkitIndex ≤ glibcIndex then
    throw (.systemExit ("overlay order invalid: nvidia-container-toolkit-lts index " ++
      toString toolkitIndex ++ " must be after glibc index " ++ toString glibcIndex))
  let toolkit ← layers.index toolkitIndex
  let toolkitLayer ← toolkit.item "image".toList
  return toolkitLayer :: orderedNames

/-- The shell has two lines of the values that are printed: those before the first `print` raises
on. -/
def TwoPrinted (stdout : StreamErrors) (values : List Value) : Prop :=
  2 ≤ ((values.takeWhile (Value.encodable stdout)).map Value.lines).sum

instance (stdout : StreamErrors) (values : List Value) : Decidable (TwoPrinted stdout values) :=
  inferInstanceAs (Decidable (_ ≤ _))

/-- `mapfile` and the count after it: what was printed, the toolkit's layer first.  The status of the
check is not looked at, but one that raised before it prints has printed nothing. -/
def readVerification (stdout : StreamErrors) (checked : Except Exc (List Value)) :
    Except Exc (List Value) :=
  match checked with
  | .ok values =>
    if TwoPrinted stdout values then .ok (values.takeWhile (Value.encodable stdout))
    else .error (.systemExit "failed to read installer extension overlay order")
  | .error _ => .error (.systemExit "failed to read installer extension overlay order")

/-- The verification of an initrd, given up after `fuel` turns of a `parse_archive`. -/
def overlayCheck (stdout : StreamErrors) (safeLoad : Bytes → Except Exc Value) (fuel : Nat)
    (initrd : Bytes) : Option (Except Exc (List Value)) :=
  (extractExtensions fuel initrd).map fun r => do
    let files ← r
    readVerification stdout do
      let text ← orRaise .fileNotFoundError (files "extensions.yaml")
      let document ← safeLoad text
      overlayVerification document

/-! ### What the check accepts -/

theorem toolkit_not_glibc (v : Value) : v.isStr toolkitName → ¬ v.isStr glibcName := by
  rw [Value.isStr_eq_true_iff, Value.isStr_eq_true_iff]
  rintro rfl h
  exact absurd (ofText_injective (Value.str.inj h)) (by decide)

/-- The first `glibc` comes before the first toolkit, and both are there. -/
def FirstInOrder (names : List Value) : Prop :=
  names.findIdx (Value.isStr glibcName) < names.findIdx (Value.isStr toolkitName) ∧
    names.findIdx (Value.isStr toolkitName) < names.length

instance : DecidablePred FirstInOrder := fun _ => inferInstanceAs (Decidable (_ ∧ _))

/-- **The check**, by first indices. -/
theorem overlayVerification_ok_iff {document : Value} {printed : List Value} :
    overlayVerification document = .ok printed ↔
      ∃ layers names toolkit image, layersOf document = .ok layers ∧
        orderedNames layers = .ok names ∧ FirstInOrder names ∧
        layers.index (names.findIdx (Value.isStr toolkitName)) = .ok toolkit ∧
        toolkit.item "image".toList = .ok image ∧ printed = image :: names := by
  constructor
  · intro h
    obtain ⟨layers, hlayers, h⟩ := bind_eq_ok_iff.mp h
    obtain ⟨names, hnames, h⟩ := bind_eq_ok_iff.mp h
    dsimp only at h
    split at h
    · cases h
    · rename_i htoolkit
      split at h
      · cases h
      · split at h
        · cases h
        · rename_i horder
          obtain ⟨toolkit, ht, h⟩ := bind_eq_ok_iff.mp h
          obtain ⟨image, hi, h⟩ := bind_eq_ok_iff.mp h
          have hex : ∃ x ∈ names, Value.isStr toolkitName x := by simpa using htoolkit
          refine ⟨layers, names, toolkit, image, hlayers, hnames, ⟨by omega, ?_⟩, ht, hi,
            (Except.ok.inj h).symm⟩
          exact List.findIdx_lt_length_of_exists hex
  · rintro ⟨layers, names, toolkit, image, hlayers, hnames, ⟨horder, hlt⟩, ht, hi, rfl⟩
    have htoolkit : names.any (Value.isStr toolkitName) = true :=
      List.any_eq_true.mpr (List.findIdx_lt_length.mp hlt)
    have hglibc : names.any (Value.isStr glibcName) = true :=
      List.any_eq_true.mpr (List.findIdx_lt_length.mp (by omega))
    rw [overlayVerification, hlayers]
    simp only [ok_bind, hnames, htoolkit, hglibc, ht, hi, not_true, if_false,
      if_neg (Nat.not_le.mpr horder)]
    rfl

/-- The count accepts what the check accepts, where two lines of it can be printed. -/
theorem exists_readVerification_iff {stdout : StreamErrors} {checked : Except Exc (List Value)} :
    (∃ r, readVerification stdout checked = .ok r) ↔
      ∃ values, checked = .ok values ∧ TwoPrinted stdout values := by
  constructor
  · rintro ⟨r, hr⟩
    cases checked with
    | error e => cases hr
    | ok values =>
        simp only [readVerification] at hr
        split at hr
        · exact ⟨values, rfl, ‹_›⟩
        · cases hr
  · rintro ⟨values, rfl, h⟩
    exact ⟨_, if_pos h⟩

theorem length_le_sum_lines (values : List Value) : values.length ≤ (values.map Value.lines).sum := by
  induction values with
  | nil => exact Nat.le_refl 0
  | cons v values ih =>
      have := v.lines_pos
      rw [List.length_cons, List.map_cons, List.sum_cons]
      omega

/-- Two values that can be printed are two lines at least. -/
theorem twoPrinted_of_encodable {stdout : StreamErrors} {values : List Value}
    (h : ∀ v ∈ values, v.encodable stdout = true) (hlen : 2 ≤ values.length) :
    TwoPrinted stdout values := by
  rw [TwoPrinted, List.takeWhile_eq_self_iff.mpr h]
  exact hlen.trans (length_le_sum_lines values)

/-! ### What the verification accepts -/

def yamlName : Bytes := encodeUtf8 "extensions.yaml"

/-- The copy the verification reads: the names of the first two archives are UTF-8, those it writes
hold no NUL, and `text` is the last `extensions.yaml` of the second. -/
def Checked (i : Initrd) (text : Bytes) : Prop :=
  ∃ base n a rest entries, entriesOf i.base.members = some base ∧
    i.trailing.archives = (n, a) :: rest ∧ entriesOf a.members = some entries ∧
    (∀ e ∈ entries, Selected e.1 → '\x00' ∉ e.1.toList) ∧ lastNamed a.members yamlName = some text

/-- **The verification**: what it accepts is decided by the copy in the second archive alone. -/
theorem overlayCheck_ok_iff {stdout : StreamErrors} {safeLoad : Bytes → Except Exc Value}
    {i : Initrd} :
    (∃ fuel r, overlayCheck stdout safeLoad fuel i.bytes = some (.ok r)) ↔
      ∃ text document lines, Checked i text ∧ safeLoad text = .ok document ∧
        overlayVerification document = .ok lines ∧ TwoPrinted stdout lines := by
  have hread : ∀ files : Files, (∃ r, readVerification stdout (do
      let text ← orRaise .fileNotFoundError (files "extensions.yaml")
      let document ← safeLoad text
      overlayVerification document) = .ok r) ↔
      ∃ text document lines, files "extensions.yaml" = some text ∧ safeLoad text = .ok document ∧
        overlayVerification document = .ok lines ∧ TwoPrinted stdout lines := by
    intro files
    rw [exists_readVerification_iff]
    simp only [bind_eq_ok_iff, orRaise_eq_ok_iff]
    constructor
    · rintro ⟨lines, ⟨text, ht, document, hd, hl⟩, htwo⟩
      exact ⟨text, document, lines, ht, hd, hl, htwo⟩
    · rintro ⟨text, document, lines, ht, hd, hl, htwo⟩
      exact ⟨lines, ⟨text, ht, document, hd, hl⟩, htwo⟩
  have hfiles : (∃ fuel r, overlayCheck stdout safeLoad fuel i.bytes = some (.ok r)) ↔
      ∃ files, (∃ fuel, extractExtensions fuel i.bytes = some (.ok files)) ∧
        ∃ text document lines, files "extensions.yaml" = some text ∧ safeLoad text = .ok document ∧
          overlayVerification document = .ok lines ∧ TwoPrinted stdout lines := by
    simp only [overlayCheck, Option.map_eq_some_iff, bind_eq_ok_iff, ← hread]
    constructor
    · rintro ⟨fuel, r, _, he, files, rfl, hr⟩
      exact ⟨files, ⟨fuel, he⟩, r, hr⟩
    · rintro ⟨files, ⟨fuel, he⟩, r, hr⟩
      exact ⟨fuel, r, _, he, files, rfl, hr⟩
  have hselected : Selected "extensions.yaml" := by decide
  rw [hfiles]
  constructor
  · rintro ⟨files, hfiles, text, document, lines, ht, hd, hl⟩
    obtain ⟨base, n, a, rest, entries, hb, ha, he, hn, rfl⟩ := extractExtensions_ok_iff.mp hfiles
    rw [written_apply hselected, Option.or_none, lastEntry_eq_lastNamed he] at ht
    exact ⟨text, document, lines, ⟨base, n, a, rest, entries, hb, ha, he, hn, ht⟩, hd, hl⟩
  · rintro ⟨text, document, lines, ⟨base, n, a, rest, entries, hb, ha, he, hn, ht⟩, hd, hl⟩
    refine ⟨_, extractExtensions_ok_iff.mpr ⟨base, n, a, rest, entries, hb, ha, he, hn, rfl⟩, text,
      document, lines, ?_, hd, hl⟩
    rw [written_apply hselected, Option.or_none, lastEntry_eq_lastNamed he]
    exact ht

/-! ### What the node boots -/

/-- The names of a copy of `extensions.yaml`. -/
def layerNames (safeLoad : Bytes → Except Exc Value) (text : Bytes) : Except Exc (List Value) := do
  let document ← safeLoad text
  let layers ← layersOf document
  orderedNames layers

/-- There is a toolkit layer, and no `glibc` layer after the last one. -/
def InOrder (names : List Value) : Prop :=
  ∃ pre layer post, names = pre ++ layer :: post ∧ layer.isStr toolkitName ∧
    ∀ l ∈ post, ¬ l.isStr toolkitName ∧ ¬ l.isStr glibcName

/-- The `extensions.yaml` that unpacking leaves has its layers in order. -/
def KeptInOrder (safeLoad : Bytes → Except Exc Value) (i : Initrd) : Prop :=
  ∃ text names, unpack i.records yamlName = some text ∧ layerNames safeLoad text = .ok names ∧
    InOrder names

/-- A copy that passes by first indices, and whose toolkit layer has an image that can be printed
with the names. -/
def PassesByFirst (stdout : StreamErrors) (safeLoad : Bytes → Except Exc Value) (text : Bytes) :
    Prop :=
  ∃ document layers names toolkit image, safeLoad text = .ok document ∧
    layersOf document = .ok layers ∧ orderedNames layers = .ok names ∧ FirstInOrder names ∧
    layers.index (names.findIdx (Value.isStr toolkitName)) = .ok toolkit ∧
    toolkit.item "image".toList = .ok image ∧ TwoPrinted stdout (image :: names)

/-- A copy that passes by last indices: the comparison on the reversed list. -/
def PassesByLast (safeLoad : Bytes → Except Exc Value) (text : Bytes) : Prop :=
  ∃ names, layerNames safeLoad text = .ok names ∧
    names.reverse.findIdx (Value.isStr toolkitName) < names.reverse.findIdx (Value.isStr glibcName)

theorem inOrder_iff {names : List Value} : InOrder names ↔
    names.reverse.findIdx (Value.isStr toolkitName) <
      names.reverse.findIdx (Value.isStr glibcName) :=
  (findIdx_reverse_lt_iff toolkit_not_glibc).symm

/-- The last `extensions.yaml` of the archives after the second. -/
def laterCopy (i : Initrd) : Option Bytes :=
  lastNamed (i.trailing.archives.tail.flatMap fun p => p.2.members) yamlName

/-- The copy that unpacking keeps: the later one, else the one the verification reads. -/
theorem unpack_of_checked {i : Initrd} {text : Bytes} (h : Checked i text) :
    unpack i.records yamlName = some ((laterCopy i).getD text) := by
  obtain ⟨base, n, a, rest, entries, -, ha, -, -, ht⟩ := h
  rw [Initrd.unpack_records, Trailing.records, ha, List.flatMap_cons, lastNamed_append, ht, laterCopy,
    ha, List.tail_cons]
  cases lastNamed (rest.flatMap fun p => p.2.members) yamlName with
  | none => rfl
  | some later => rfl

/-- **Soundness of the verification.**  For every initrd: accepting it implies the order of the
kept `extensions.yaml` exactly when a copy that is read and passes by first indices is followed by a
later copy that passes by last indices, or by none and passes by last indices itself. -/
theorem overlayCheck_sound_iff (stdout : StreamErrors) (safeLoad : Bytes → Except Exc Value)
    (i : Initrd) :
    ((∃ fuel r, overlayCheck stdout safeLoad fuel i.bytes = some (.ok r)) →
        KeptInOrder safeLoad i) ↔
      ∀ text, Checked i text → PassesByFirst stdout safeLoad text →
        PassesByLast safeLoad ((laterCopy i).getD text) := by
  rw [overlayCheck_ok_iff]
  constructor
  · rintro h text hc ⟨document, layers, names, toolkit, image, hd, h₁, h₂, h₃, h₄, h₅, h₆⟩
    have hlines := overlayVerification_ok_iff.mpr
      ⟨layers, names, toolkit, image, h₁, h₂, h₃, h₄, h₅, rfl⟩
    obtain ⟨kept, keptNames, hu, hn, ho⟩ := h ⟨text, document, _, hc, hd, hlines, h₆⟩
    rw [unpack_of_checked hc] at hu
    cases hu
    exact ⟨keptNames, hn, inOrder_iff.mp ho⟩
  · rintro h ⟨text, document, lines, hc, hd, hl, htwo⟩
    obtain ⟨layers, names, toolkit, image, h₁, h₂, h₃, h₄, h₅, rfl⟩ :=
      overlayVerification_ok_iff.mp hl
    obtain ⟨keptNames, hn, ho⟩ :=
      h text hc ⟨document, layers, names, toolkit, image, hd, h₁, h₂, h₃, h₄, h₅, htwo⟩
    exact ⟨_, keptNames, unpack_of_checked hc, hn, inOrder_iff.mpr ho⟩

/-- An `extensions.yaml` with a second `glibc` layer after the toolkit. -/
def repeatedGlibcText : Bytes := encodeUtf8
  ("layers:\n- image: glibc.sqsh\n  metadata:\n    name: glibc\n" ++
    "- image: nvidia-container-toolkit-lts.sqsh\n  metadata:\n    name: nvidia-container-toolkit-lts\n" ++
    "- image: glibc.sqsh\n  metadata:\n    name: glibc\n")

/-- A layer of a loaded `extensions.yaml`. -/
def layerValue (name : Word) : Value :=
  .map [(.str (str "image"), .str (ofText (name ++ ".sqsh".toList))),
    (.str (str "metadata"), .map [(.str (str "name"), .str (ofText name))])]

/-- A loaded `extensions.yaml` with layers of these names. -/
def documentOf (names : List Word) : Value :=
  .map [(.str (str "layers"), .seq (names.map layerValue))]

/-- The loader on `repeatedGlibcText`. -/
def repeatedGlibcLoad (text : Bytes) : Except Exc Value :=
  if text = repeatedGlibcText then .ok (documentOf [glibcName, toolkitName, glibcName])
  else .error .valueError

/-- An initrd with `repeatedGlibcText` in its second archive and no other. -/
def repeatedGlibcInitrd : Initrd where
  base := Installer.archiveOf [] (by simp)
  trailing := ⟨[(0, Installer.archiveOf [recordOf
    ⟨1, 0o100644, 0, 0, 1, 0, repeatedGlibcText.length, 8, 1, 0, 0, 16, 0⟩ yamlName repeatedGlibcText
    (.of_lt (by decide +kernel) (by decide) rfl)] (by decide))], 0, by simp⟩

/-- The verification accepts an initrd whose last layer is `glibc`. -/
theorem repeatedGlibc_accepted :
    (∃ fuel r, overlayCheck .strict repeatedGlibcLoad fuel repeatedGlibcInitrd.bytes = some (.ok r)) ∧
      ¬ KeptInOrder repeatedGlibcLoad repeatedGlibcInitrd := by
  have hload : repeatedGlibcLoad repeatedGlibcText = .ok _ := if_pos rfl
  constructor
  · refine overlayCheck_ok_iff.mpr ⟨repeatedGlibcText, _, _, ⟨[], 0, _, [],
      [("extensions.yaml", repeatedGlibcText)], rfl, rfl, ?_, by decide, ?_⟩, hload,
      overlayVerification_ok_iff.mpr ⟨_, _, _, _, rfl, rfl, by decide, rfl, rfl, rfl⟩, by decide⟩
    · decide +kernel
    · decide +kernel
  · rintro ⟨text, names, hu, hn, ho⟩
    have hkept : unpack repeatedGlibcInitrd.records yamlName = some repeatedGlibcText := by
      rw [unpack_eq_lastNamed]
      decide +kernel
    cases Option.some.inj (hu.symm.trans hkept)
    obtain ⟨document, hd, hn⟩ := bind_eq_ok_iff.mp hn
    cases hload.symm.trans hd
    cases hn
    exact absurd (inOrder_iff.mp ho) (by decide)

/-! ### What the composition composes -/

/-- The name of a reference's layer: the last component of the repository's path, without tag and
digest. -/
def layerName (ref : Word) : Word :=
  ((ref.takeWhile (· ≠ '@')).reverse.takeWhile (· ≠ '/')).reverse.takeWhile (· ≠ ':')

/-- A layer with an image, which can be printed, and this name. -/
def IsLayer (name : Word) (layer : Value) : Prop :=
  (∃ image, layer.item "image".toList = .ok image ∧ image.encodable .strict = true) ∧
    ∃ metadata, layer.item "metadata".toList = .ok metadata ∧
      metadata.item "name".toList = .ok (.str (ofText name))

/-- What the imager writes: one layer for each reference in their order, then `modules.dep`. -/
def ImagerWrites (refs : List Word) (document : Value) : Prop :=
  ∃ layers, document.get "layers".toList = .ok (.seq layers) ∧
    List.Forall₂ IsLayer (refs.map layerName ++ ["modules.dep".toList]) layers

/-- A name in a document. -/
def nameValue (name : Word) : Value := .str (ofText name)

theorem mapM_names {names : List Word} {layers : List Value} (h : List.Forall₂ IsLayer names layers) :
    (layers.mapM fun layer => do
      let metadata ← layer.item "metadata".toList
      metadata.item "name".toList) = .ok (names.map nameValue) := by
  induction h with
  | nil => rfl
  | @cons name layer names layers hl _ ih =>
      obtain ⟨-, metadata, hm, hn⟩ := hl
      rw [List.mapM_cons, ih, hm]
      simp only [ok_bind, hn]
      rfl

/-- The check of a document with these layers, by the indices of the names. -/
theorem verification_ok_iff {document : Value} {layers : List Value} {names : List Word}
    (hget : document.get "layers".toList = .ok (.seq layers))
    (h : List.Forall₂ IsLayer names layers) (hne : names ≠ []) {stdout : StreamErrors} :
    (∃ lines, overlayVerification document = .ok lines ∧ TwoPrinted stdout lines) ↔
      names.idxOf glibcName < names.idxOf toolkitName ∧ toolkitName ∈ names := by
  have hlayers : layersOf document = .ok (.seq layers) := by
    have htruthy : (Value.seq layers).truthy = true := by
      have hlen := h.length_eq
      cases layers with
      | nil => exact absurd (List.length_eq_zero_iff.mp hlen) hne
      | cons _ _ => rfl
    simp only [layersOf, hget, ok_bind, htruthy, if_true]
    rfl
  have hnames : orderedNames (.seq layers) = .ok (names.map nameValue) := mapM_names h
  have hidx : ∀ key : Word, (names.map nameValue).findIdx (Value.isStr key) = names.idxOf key := by
    intro key
    have hstr : Value.isStr key ∘ nameValue = (· == key) := by
      funext x
      rw [Bool.eq_iff_iff]
      simp [Value.isStr, nameValue, Function.comp]
    rw [List.findIdx_map, List.idxOf, hstr]
  have hfirst : FirstInOrder (names.map nameValue) ↔
      names.idxOf glibcName < names.idxOf toolkitName ∧ toolkitName ∈ names := by
    rw [FirstInOrder, hidx, hidx, List.length_map, List.idxOf_lt_length_iff]
  rw [← hfirst]
  constructor
  · rintro ⟨lines, hl, -⟩
    obtain ⟨layers', names', -, -, h₁, h₂, h₃, -⟩ := overlayVerification_ok_iff.mp hl
    cases hlayers.symm.trans h₁
    cases hnames.symm.trans h₂
    exact h₃
  · intro hf
    have hlt : names.idxOf toolkitName < layers.length := by
      rw [← h.length_eq]
      exact List.idxOf_lt_length_of_mem (hfirst.mp hf).2
    have hlayer : (Value.seq layers).index ((names.map nameValue).findIdx (Value.isStr toolkitName)) =
        .ok layers[names.idxOf toolkitName] := by
      rw [hidx, Value.index, List.getElem?_eq_getElem hlt]
      rfl
    obtain ⟨⟨image, hi, hstrict⟩, -⟩ := h.get (by rw [h.length_eq]; exact hlt) hlt
    refine ⟨_, overlayVerification_ok_iff.mpr ⟨_, _, _, _, hlayers, hnames, hf, hlayer, hi, rfl⟩,
      twoPrinted_of_encodable ?_ ?_⟩
    · rw [List.forall_mem_cons]
      exact ⟨Value.encodable_of_strict hstrict, List.forall_mem_map.mpr fun n _ => encodable_ofText n⟩
    · rw [List.length_cons, List.length_map]
      exact Nat.succ_le_succ (List.length_pos_iff.mpr hne)

/-- **Composition and verification.**  When an extra's repository is named `glibc`, the check accepts
what was composed exactly when, among the custom sysext, the kept extras and the pinned toolkit, some
reference is named like the toolkit and none so named stands before the first one named `glibc`. -/
theorem composed_accepted_iff {custom toolkit official images image : Word} {refs : List Word}
    {document : Value} (hglibc : ∃ r ∈ pieces images, layerName r = glibcName)
    (hrefs : orderedSystemExtensionRefs custom toolkit official images image = .ok refs)
    (himager : ImagerWrites refs document) (stdout : StreamErrors) :
    let names :=
      (custom :: (extras images image).filter (Kept custom toolkit) ++ [toolkit]).map layerName
    (∃ r, readVerification stdout (overlayVerification document) = .ok r) ↔
      toolkitName ∈ names ∧ toolkitName ∉ names.takeWhile (· != glibcName) := by
  intro names
  obtain ⟨layers, hget, hlayers⟩ := himager
  have heq : refs = custom :: (extras images image).filter (Kept custom toolkit) ++ [toolkit] := by
    rw [orderedSystemExtensionRefs_eq] at hrefs
    split at hrefs
    · cases hrefs
    · exact (Except.ok.inj hrefs).symm
  -- The loop skips an extra only when it is one of the two references that are there anyway.
  have hmem : glibcName ∈ names := by
    obtain ⟨r, hr, hn⟩ := hglibc
    refine List.mem_map.mpr ⟨r, ?_, hn⟩
    by_cases hk : Kept custom toolkit r
    · have hkept : r ∈ (extras images image).filter (Kept custom toolkit) :=
        List.mem_filter.mpr ⟨List.mem_append_left _ hr, by simpa using hk⟩
      exact List.mem_append_left _ (List.mem_cons_of_mem _ hkept)
    · rw [Kept, not_and_or, not_not, not_not] at hk
      rcases hk with rfl | rfl
      · exact List.mem_append_left _ List.mem_cons_self
      · exact List.mem_append_right _ List.mem_cons_self
  have hdep : toolkitName ∈ names ++ ["modules.dep".toList] ↔ toolkitName ∈ names := by
    rw [List.mem_append, or_iff_left (by decide)]
  rw [exists_readVerification_iff, verification_ok_iff hget hlayers (by simp), heq, idxOf_append_lt_iff hmem,
    idxOf_lt_idxOf_iff (by decide) hmem, hdep, and_comm]

theorem imagerWrites_documentOf (refs : List Word) :
    ImagerWrites refs (documentOf (refs.map layerName ++ ["modules.dep".toList])) := by
  refine ⟨_, rfl, List.forall₂_map_right_iff.mpr (List.forall₂_same.mpr fun name _ => ?_)⟩
  exact ⟨⟨_, rfl, encodable_ofText _⟩, _, rfl, rfl⟩

def customSysextRef : Word := "ghcr.io/p2p/nvidia-modules-p2p-lts@sha256:0".toList

def toolkitRef : Word := "ghcr.io/siderolabs/nvidia-container-toolkit-lts:580@sha256:1".toList

def officialOpenModuleRef : Word :=
  "ghcr.io/siderolabs/nvidia-open-gpu-kernel-modules-lts:580@sha256:2".toList

/-- An extra that names the toolkit by its tag, before `glibc`: it is not the pinned reference, so it
is composed, and the check rejects what was composed. -/
theorem tagOnlyToolkit_rejected :
    let images := "ghcr.io/siderolabs/nvidia-container-toolkit-lts:580,ghcr.io/siderolabs/glibc:2".toList
    layerName toolkitRef = toolkitName ∧ (∃ r ∈ pieces images, layerName r = glibcName) ∧
      ∃ refs document,
        orderedSystemExtensionRefs customSysextRef toolkitRef officialOpenModuleRef images [] =
          .ok refs ∧ ImagerWrites refs document ∧
        readVerification .strict (overlayVerification document) =
          .error (.systemExit "failed to read installer extension overlay order") := by
  refine ⟨by decide, ?_, [customSysextRef,
    "ghcr.io/siderolabs/nvidia-container-toolkit-lts:580".toList, "ghcr.io/siderolabs/glibc:2".toList,
    toolkitRef], _, ?_, imagerWrites_documentOf _, rfl⟩
  · rw [String.toList_ofList]
    decide +kernel
  · unfold customSysextRef toolkitRef officialOpenModuleRef
    repeat rewrite [String.toList_ofList]
    decide +kernel

theorem composed_accepted_iff_glibc :
    ∃ refs r, orderedSystemExtensionRefs customSysextRef toolkitRef officialOpenModuleRef
        "ghcr.io/siderolabs/glibc:2,ghcr.io/siderolabs/btrfs:1".toList [] = .ok refs ∧
      readVerification .strict (overlayVerification
        (documentOf (refs.map layerName ++ ["modules.dep".toList]))) = .ok r := by
  have hrefs : orderedSystemExtensionRefs customSysextRef toolkitRef officialOpenModuleRef
      "ghcr.io/siderolabs/glibc:2,ghcr.io/siderolabs/btrfs:1".toList [] =
        .ok [customSysextRef, "ghcr.io/siderolabs/glibc:2".toList,
          "ghcr.io/siderolabs/btrfs:1".toList, toolkitRef] := by
    unfold customSysextRef toolkitRef officialOpenModuleRef
    repeat rewrite [String.toList_ofList]
    decide +kernel
  have hglibc : ∃ r ∈ pieces "ghcr.io/siderolabs/glibc:2,ghcr.io/siderolabs/btrfs:1".toList,
      layerName r = glibcName := by
    rewrite [String.toList_ofList]
    decide +kernel
  have haccepted := composed_accepted_iff hglibc hrefs (imagerWrites_documentOf _) .strict
  obtain ⟨r, hr⟩ := haccepted.mpr (by
    unfold customSysextRef toolkitRef
    repeat rewrite [String.toList_ofList]
    decide +kernel)
  exact ⟨_, r, hrefs, hr⟩

end TalosP2P.Extensions
