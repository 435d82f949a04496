import TalosP2P.Support.OciLayer

/-!
# Samekey — Image

`extract_file_from_image`: a file out of a saved image, searched from its top layer down, by the name
of the members.  The image is a stack of layers, and what it shows at a path is what the last change
that touches the path left there.

* `exists_chosen`, `extract_of_chosen`: what is written is read at the member the search ends at.
* `extract_agrees_iff`: the images and paths for which the file is the one the image shows.
-/

namespace TalosP2P.Samekey

open Python PosixPath Tar UnionFs Oci

/-- A saved image: `Layers` of the first manifest, where `manifest.json` is a file, and what
`extractfile` gives for a name, opened as an archive. -/
structure SavedImage where
  manifest : Option (List Text)
  layer : Text → Except Exc (Option Archive)

/-- A file that was written: its content and its mode. -/
structure ExtractedFile where
  data : Bytes
  mode : Nat
  deriving DecidableEq, Repr

def getImageLayers (imageTarPath : String) (image : SavedImage) : Except Exc (List Text) :=
  orRaise (.runtimeError ("manifest.json missing in " ++ imageTarPath)) image.manifest

/-- The member is called for. -/
def Matches (expectedPath : Text) (m : Member) : Prop := purePosixPath m.name = expectedPath

instance (expectedPath : Text) : DecidablePred (Matches expectedPath) := fun m =>
  inferInstanceAs (Decidable (purePosixPath m.name = expectedPath))

/-- The loop over the layers, the top one first.  `depth` is the recursion limit of the interpreter. -/
def extractFrom (depth : Nat) (imageTarPath : String) (image : SavedImage) (imagePath : Text) :
    List Text → Except Exc ExtractedFile
  | [] => .error (.runtimeError
      ("unable to find " ++ String.ofList imagePath ++ " in " ++ imageTarPath))
  | layerName :: names => do
    match ← image.layer layerName with
    | none => extractFrom depth imageTarPath image imagePath names
    | some layer =>
      match layer.findIdx? fun m => Matches (purePosixPath imagePath) m with
      | none => extractFrom depth imageTarPath image imagePath names
      | some i =>
        match ← extractfile layer depth i with
        | none => .error (.runtimeError
            ("failed to extract " ++ String.ofList imagePath ++ " from " ++ imageTarPath))
        | some data =>
          let mode := (layer[i]?.map Member.mode).getD 0
          .ok ⟨data, if mode = 0 then 0o644 else mode⟩

def extractFileFromImage (depth : Nat) (imageTarPath : String) (image : SavedImage) (imagePath : Text) :
    Except Exc ExtractedFile := do
  let layers ← getImageLayers imageTarPath image
  extractFrom depth imageTarPath image imagePath layers.reverse

/-! ### What the image shows -/

/-- The changes of the layers with these names, from the base up. -/
def imageChanges (image : SavedImage) (names : List Text) : List (Change Text Bytes) :=
  names.flatMap fun name =>
    match image.layer name with
    | .ok (some layer) => layerChanges layer
    | _ => []

/-- The merged file system. -/
def merged (image : SavedImage) : Tree Text Bytes := build (imageChanges image (image.manifest.getD []))

/-- The file that is written, if any is, has the content the image shows at the path. -/
def Agrees (depth : Nat) (imageTarPath : String) (image : SavedImage) (imagePath : Text) : Prop :=
  ∀ out, extractFileFromImage depth imageTarPath image imagePath = .ok out →
    (merged image).Shows (entry imagePath) out.data

/-! ### The search -/

/-- A layer in which nothing is called for. -/
def Passed (image : SavedImage) (expectedPath layerName : Text) : Prop :=
  image.layer layerName = .ok none ∨
    ∃ layer, image.layer layerName = .ok (some layer) ∧ ∀ m ∈ layer, ¬ Matches expectedPath m

/-- Where the search ends: the first member that is called for, in the top layer that has one. -/
structure Chosen (image : SavedImage) (imagePath : Text) (higher : List Text) (before : Archive)
    (m : Member) (after : Archive) : Prop where
  layer : ∃ lower name, image.manifest = some (lower ++ name :: higher) ∧
    image.layer name = .ok (some (before ++ m :: after))
  called : Matches (purePosixPath imagePath) m
  first : ∀ m' ∈ before, ¬ Matches (purePosixPath imagePath) m'
  top : ∀ name ∈ higher, Passed image (purePosixPath imagePath) name

variable {depth : Nat} {imageTarPath : String} {image : SavedImage} {imagePath : Text}

theorem extractFrom_cons_of_passed {name : Text} (h : Passed image (purePosixPath imagePath) name)
    (names : List Text) : extractFrom depth imageTarPath image imagePath (name :: names) =
      extractFrom depth imageTarPath image imagePath names := by
  rcases h with h | ⟨layer, h, hnone⟩
  · rw [extractFrom, h]
    rfl
  · have hidx : (layer.findIdx? fun m => Matches (purePosixPath imagePath) m) = none :=
      List.findIdx?_eq_none_iff.mpr fun m hm => decide_eq_false (hnone m hm)
    simp only [extractFrom, h, ok_bind, hidx]

/-- The search in the layer it ends in. -/
theorem extractFrom_cons_of_chosen {name : Text} {before after : Archive} {m : Member}
    (hlayer : image.layer name = .ok (some (before ++ m :: after)))
    (hcalled : Matches (purePosixPath imagePath) m)
    (hfirst : ∀ m' ∈ before, ¬ Matches (purePosixPath imagePath) m') (names : List Text) :
    extractFrom depth imageTarPath image imagePath (name :: names) =
      extractfile (before ++ m :: after) depth before.length >>= fun data =>
        match data with
        | none => .error (.runtimeError
            ("failed to extract " ++ String.ofList imagePath ++ " from " ++ imageTarPath))
        | some data => .ok ⟨data, if m.mode = 0 then 0o644 else m.mode⟩ := by
  have hidx : ((before ++ m :: after).findIdx? fun m => Matches (purePosixPath imagePath) m) =
      some before.length := by
    have hnone : (before.findIdx? fun m => decide (Matches (purePosixPath imagePath) m)) = none :=
      List.findIdx?_eq_none_iff.mpr fun m hm => decide_eq_false (hfirst m hm)
    rw [List.findIdx?_append, hnone, List.findIdx?_cons, if_pos (decide_eq_true hcalled)]
    simp
  simp only [extractFrom, hlayer, ok_bind, hidx]
  simp

/-- The first member that is called for. -/
theorem exists_first {layer : Archive} {expectedPath : Text}
    (h : ∃ m ∈ layer, Matches expectedPath m) : ∃ before m after, layer = before ++ m :: after ∧
      Matches expectedPath m ∧ ∀ m' ∈ before, ¬ Matches expectedPath m' := by
  induction layer with
  | nil => simp at h
  | cons m layer ih =>
      by_cases hm : Matches expectedPath m
      · exact ⟨[], m, layer, rfl, hm, by simp⟩
      · have hrest : ∃ m ∈ layer, Matches expectedPath m := by
          obtain ⟨m', hm', hmatch⟩ := h
          rcases List.mem_cons.mp hm' with rfl | hm'
          · exact absurd hmatch hm
          · exact ⟨m', hm', hmatch⟩
        obtain ⟨before, m', after, rfl, hmatch, hfirst⟩ := ih hrest
        exact ⟨m :: before, m', after, rfl, hmatch, List.forall_mem_cons.mpr ⟨hm, hfirst⟩⟩

theorem exists_of_extractFrom {names : List Text} {out : ExtractedFile}
    (h : extractFrom depth imageTarPath image imagePath names = .ok out) :
    ∃ skipped name rest before m after, names = skipped ++ name :: rest ∧
      (∀ n ∈ skipped, Passed image (purePosixPath imagePath) n) ∧
      image.layer name = .ok (some (before ++ m :: after)) ∧ Matches (purePosixPath imagePath) m ∧
      (∀ m' ∈ before, ¬ Matches (purePosixPath imagePath) m') ∧
      extractfile (before ++ m :: after) depth before.length = .ok (some out.data) := by
  induction names with
  | nil => cases h
  | cons name names ih =>
      by_cases hpassed : Passed image (purePosixPath imagePath) name
      · rw [extractFrom_cons_of_passed hpassed] at h
        obtain ⟨skipped, name', rest, before, m, after, rfl, hskipped, hfound⟩ := ih h
        refine ⟨name :: skipped, name', rest, before, m, after, rfl, ?_, hfound⟩
        exact List.forall_mem_cons.mpr ⟨hpassed, hskipped⟩
      · cases hlayer : image.layer name with
        | error e =>
            rw [extractFrom, hlayer] at h
            cases h
        | ok layer =>
            cases layer with
            | none => exact absurd (.inl hlayer) hpassed
            | some layer =>
                have hsome : ∃ m ∈ layer, Matches (purePosixPath imagePath) m := by
                  by_contra hnone
                  exact hpassed (.inr ⟨layer, hlayer, fun m hm hmatch => hnone ⟨m, hm, hmatch⟩⟩)
                obtain ⟨before, m, after, rfl, hcalled, hfirst⟩ := exists_first hsome
                rw [extractFrom_cons_of_chosen hlayer hcalled hfirst] at h
                obtain ⟨data, hdata, h⟩ := bind_eq_ok_iff.mp h
                cases data with
                | none => cases h
                | some data =>
                    cases h
                    exact ⟨[], name, names, before, m, after, rfl, by simp, hlayer, hcalled, hfirst, hdata⟩

/-- What is written was read at the member the search ends at. -/
theorem exists_chosen {out : ExtractedFile}
    (h : extractFileFromImage depth imageTarPath image imagePath = .ok out) :
    ∃ higher before m after, Chosen image imagePath higher before m after ∧
      Holds (before ++ m :: after) depth before.length out.data := by
  obtain ⟨layers, hlayers, h⟩ := bind_eq_ok_iff.mp h
  obtain ⟨skipped, name, rest, before, m, after, hnames, hskipped, hlayer, hcalled, hfirst, hdata⟩ :=
    exists_of_extractFrom h
  have hrev : layers = rest.reverse ++ name :: skipped.reverse := by
    rw [← List.reverse_reverse layers, hnames]
    simp
  refine ⟨skipped.reverse, before, m, after, ⟨⟨rest.reverse, name, ?_, hlayer⟩, hcalled, hfirst, ?_⟩,
    extractfile_eq_some_iff.mp hdata⟩
  · rw [orRaise_eq_ok_iff.mp hlayers, hrev]
  · exact fun n hn => hskipped n (List.mem_reverse.mp hn)

theorem extract_of_chosen {higher : List Text} {before after : Archive} {m : Member}
    (hchosen : Chosen image imagePath higher before m after) {data : Bytes}
    (hdata : Holds (before ++ m :: after) depth before.length data) (imageTarPath : String) :
    ∃ mode, extractFileFromImage depth imageTarPath image imagePath = .ok ⟨data, mode⟩ := by
  obtain ⟨⟨lower, name, hmanifest, hlayer⟩, hcalled, hfirst, htop⟩ := hchosen
  have hskip : ∀ skipped rest, (∀ n ∈ skipped, Passed image (purePosixPath imagePath) n) →
      extractFrom depth imageTarPath image imagePath (skipped ++ rest) =
        extractFrom depth imageTarPath image imagePath rest := by
    intro skipped rest hskipped
    induction skipped with
    | nil => rfl
    | cons n skipped ih =>
        rw [List.forall_mem_cons] at hskipped
        rw [List.cons_append, extractFrom_cons_of_passed hskipped.1, ih hskipped.2]
  refine ⟨if m.mode = 0 then 0o644 else m.mode, ?_⟩
  rw [extractFileFromImage, getImageLayers, hmanifest, orRaise, ok_bind, List.reverse_append,
    List.reverse_cons, List.append_assoc, hskip _ _ fun n hn => htop n (List.mem_reverse.mp hn),
    List.singleton_append, extractFrom_cons_of_chosen hlayer hcalled hfirst,
    extractfile_eq_some_iff.mpr hdata, ok_bind]

/-! ### What comes after the member -/

/-- The changes of the image behind a member: those of its layer, and of the layers above. -/
def later (image : SavedImage) (higher : List Text) (before : Archive) (m : Member) (after : Archive) :
    List (Change Text Bytes) :=
  putsAfter before m after ++ imageChanges image higher

/-- The content is still what the image shows at the path of the member.  Either the member is an
entry that nothing later touches, or the last change that touches its path puts another entry there;
and that entry is a file with the content, or a link that leads to one in the image. -/
def Stays (image : SavedImage) (higher : List Text) (before : Archive) (m : Member) (after : Archive)
    (data : Bytes) : Prop :=
  (IsEntry m ∧ (∀ c ∈ later image higher before m after, c.Spares (entry m.name)) ∧
      (merged image).Leads (node (before.filter IsEntry).reverse m) data) ∨
    ∃ n, LastPuts (later image higher before m after) (entry m.name) n ∧ (merged image).Leads n data

theorem whiteout_eq_none_of_put_image {names : List Text} {q : List Text} {n : UnionFs.Node Text Bytes}
    (h : .put q n ∈ imageChanges image names) : whiteout q = none := by
  obtain ⟨name, -, h⟩ := List.mem_flatMap.mp h
  split at h
  · exact whiteout_eq_none_of_put h
  · cases h

variable {higher : List Text} {before after : Archive} {m : Member}

/-- What the last change that touches the path puts there, behind the member the search ends at. -/
theorem lastPuts_imageChanges_iff (hchosen : Chosen image imagePath higher before m after)
    (n : UnionFs.Node Text Bytes) :
    LastPuts (imageChanges image (image.manifest.getD [])) (entry m.name) n ↔
      LastPuts (later image higher before m after) (entry m.name) n ∨
        IsEntry m ∧ (∀ c ∈ later image higher before m after, c.Spares (entry m.name)) ∧
          n = node (before.filter IsEntry).reverse m := by
  obtain ⟨lower, name, hmanifest, hlayer⟩ := hchosen.layer
  have hchanges : imageChanges image (image.manifest.getD []) =
      imageChanges image lower ++ (layerChanges (before ++ m :: after) ++ imageChanges image higher) := by
    simp [hmanifest, imageChanges, hlayer]
  by_cases hm : IsEntry m
  · obtain ⟨earlier, hearlier⟩ := layerChanges_append_cons hm before after
    have happend : imageChanges image (image.manifest.getD []) =
        (imageChanges image lower ++ earlier) ++
          .put (entry m.name) (node (before.filter IsEntry).reverse m) ::
            later image higher before m after := by
      rw [hchanges, hearlier, later]
      simp
    rw [happend, lastPuts_append_put_cons_iff]
    simp [hm]
  · -- Nothing is ever put at the path of a whiteout.
    have hlater : ¬ LastPuts (later image higher before m after) (entry m.name) n := fun h =>
      hm ((List.mem_append.mp h.mem).elim whiteout_eq_none_of_put_after whiteout_eq_none_of_put_image)
    have hall : ¬ LastPuts (imageChanges image (image.manifest.getD [])) (entry m.name) n := fun h =>
      hm (whiteout_eq_none_of_put_image h.mem)
    simp [hm, hlater, hall]

theorem shows_iff_stays (hchosen : Chosen image imagePath higher before m after) (data : Bytes) :
    (merged image).Shows (entry imagePath) data ↔ Stays image higher before m after data := by
  have hentry : entry imagePath = entry m.name := (entry_eq_of_purePosixPath_eq hchosen.called).symm
  rw [merged, shows_build_iff, hentry, Stays, ← merged]
  simp only [lastPuts_imageChanges_iff hchosen]
  constructor
  · rintro ⟨n, hlast | ⟨hm, hspares, rfl⟩, hleads⟩
    · exact .inr ⟨n, hlast, hleads⟩
    · exact .inl ⟨hm, hspares, hleads⟩
  · rintro (⟨hm, hspares, hleads⟩ | ⟨n, hlast, hleads⟩)
    · exact ⟨_, .inr ⟨hm, hspares, rfl⟩, hleads⟩
    · exact ⟨n, .inl hlast, hleads⟩

/-- **The extracted file** is the one the image shows at the path exactly when what is read at the
member the search ends at still stands in the image. -/
theorem extract_agrees_iff (depth : Nat) (imageTarPath : String) (image : SavedImage)
    (imagePath : Text) : Agrees depth imageTarPath image imagePath ↔
      ∀ higher before m after data, Chosen image imagePath higher before m after →
        Holds (before ++ m :: after) depth before.length data →
          Stays image higher before m after data := by
  constructor
  · intro h higher before m after data hchosen hdata
    obtain ⟨mode, hout⟩ := extract_of_chosen hchosen hdata imageTarPath
    exact (shows_iff_stays hchosen data).mp (h _ hout)
  · intro h out hout
    obtain ⟨higher, before, m, after, hchosen, hdata⟩ := exists_chosen hout
    exact (shows_iff_stays hchosen out.data).mpr (h higher before m after out.data hchosen hdata)

/-! ### A file that was deleted -/

/-- A base layer with a file, and a layer that deletes it. -/
def deletedImage : SavedImage where
  manifest := some ["base".toList, "top".toList]
  layer name :=
    if name = "base".toList then .ok (some [⟨"etc/motd".toList, 0o644, .regular [104, 105]⟩])
    else if name = "top".toList then .ok (some [⟨"etc/.wh.motd".toList, 0o644, .regular []⟩])
    else .error .keyError

/-- The deleted file is written. -/
theorem deleted_extracted : ¬ ∀ depth imageTarPath image imagePath,
    Agrees depth imageTarPath image imagePath := by
  intro h
  have hshows := h 1 "image.tar" deletedImage "etc/motd".toList ⟨[104, 105], 0o644⟩ (by decide +kernel)
  have hnone : merged deletedImage (entry "etc/motd".toList) = none := by decide +kernel
  cases hshows with
  | file hfile => rw [hnone] at hfile; cases hfile
  | link hlink => rw [hnone] at hlink; cases hlink

end TalosP2P.Samekey
