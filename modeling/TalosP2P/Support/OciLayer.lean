import TalosP2P.Support.Tar
import TalosP2P.Support.UnionFs

/-!
# Support — OciLayer

What a layer of an image does to the file system of the layers below it.  A member `.wh.⟨name⟩` removes
the entry of that name, and a member `.wh..wh..opq` hides all that its directory holds; both look at
the layers below only.  Any other member is put at its path, in the order of the archive.

* `whiteout_eq_none_of_put`: nothing is put at the path of a whiteout.
* `layerChanges_append_cons`: the changes of a layer, around one of its members.
-/

namespace TalosP2P.Oci

open Python PosixPath Tar UnionFs

/-- What a member is at its path: a hard link is what `link` shows at the path it names. -/
def nodeWith (link : List Text → Node Text Bytes) (m : Member) : Node Text Bytes :=
  match m.kind with
  | .regular data => .file data
  | .directory => .directory
  | .symlink linkname => .link (target (entry m.name) linkname)
  | .hardlink linkname => link (entry linkname)
  | .special => .other

/-- What some members, the last one first, show at a path. -/
def linked : Archive → List Text → Node Text Bytes
  | [], _ => .other
  | m :: before, p => if entry m.name = p then nodeWith (linked before) m else linked before p

/-- What a member puts at its path, behind others: a hard link is a reference to one of them. -/
def node (before : Archive) (m : Member) : Node Text Bytes := nodeWith (linked before) m

/-- What an entry at the path says about the layers below. -/
def whiteout (p : List Text) : Option (Change Text Bytes) :=
  match p.getLast? with
  | none => none
  | some base =>
    if base = ".wh..wh..opq".toList then some (.hide p.dropLast)
    else if ".wh.".toList <+: base then some (.remove (p.dropLast ++ [base.drop 4]))
    else none

/-- The member is put at its path. -/
def IsEntry (m : Member) : Prop := whiteout (entry m.name) = none

instance : DecidablePred IsEntry := fun m => inferInstanceAs (Decidable (whiteout (entry m.name) = none))

/-- What members put at their paths, behind others. -/
def puts : Archive → Archive → List (Change Text Bytes)
  | _, [] => []
  | before, m :: members => .put (entry m.name) (node before m) :: puts (m :: before) members

/-- The changes of a layer. -/
def layerChanges (layer : Archive) : List (Change Text Bytes) :=
  layer.filterMap (fun m => whiteout (entry m.name)) ++ puts [] (layer.filter IsEntry)

theorem puts_append (before ms ms' : Archive) :
    puts before (ms ++ ms') = puts before ms ++ puts (ms.reverse ++ before) ms' := by
  induction ms generalizing before with
  | nil => rfl
  | cons m ms ih => simp [puts, ih]

theorem whiteout_ne_put {p q : List Text} {n : Node Text Bytes} : whiteout p ≠ some (.put q n) := by
  rw [whiteout]
  split
  · simp
  · split_ifs <;> simp

theorem exists_of_put_mem_puts {before ms : Archive} {q : List Text} {n : Node Text Bytes}
    (h : .put q n ∈ puts before ms) : ∃ m ∈ ms, entry m.name = q := by
  induction ms generalizing before with
  | nil => cases h
  | cons m ms ih =>
      rcases List.mem_cons.mp h with heq | h
      · cases heq
        exact ⟨m, List.mem_cons_self, rfl⟩
      · obtain ⟨m', hm', heq⟩ := ih h
        exact ⟨m', List.mem_cons_of_mem _ hm', heq⟩

/-- Nothing is put at the path of a whiteout. -/
theorem whiteout_eq_none_of_put {layer : Archive} {q : List Text} {n : Node Text Bytes}
    (h : .put q n ∈ layerChanges layer) : whiteout q = none := by
  rcases List.mem_append.mp h with h | h
  · obtain ⟨m, -, heq⟩ := List.mem_filterMap.mp h
    exact absurd heq whiteout_ne_put
  · obtain ⟨m, hm, rfl⟩ := exists_of_put_mem_puts h
    exact of_decide_eq_true (List.mem_filter.mp hm).2

/-- What the members behind one put at their paths. -/
def putsAfter (before : Archive) (m : Member) (after : Archive) : List (Change Text Bytes) :=
  puts (m :: (before.filter IsEntry).reverse) (after.filter IsEntry)

theorem whiteout_eq_none_of_put_after {before after : Archive} {m : Member} {q : List Text}
    {n : Node Text Bytes} (h : .put q n ∈ putsAfter before m after) : whiteout q = none := by
  obtain ⟨m', hm', rfl⟩ := exists_of_put_mem_puts h
  exact of_decide_eq_true (List.mem_filter.mp hm').2

/-- The changes of a layer, around one of its entries. -/
theorem layerChanges_append_cons {m : Member} (hm : IsEntry m) (before after : Archive) :
    ∃ earlier, layerChanges (before ++ m :: after) =
      earlier ++ .put (entry m.name) (node (before.filter IsEntry).reverse m) ::
        putsAfter before m after := by
  have hfilter : (m :: after).filter IsEntry = m :: after.filter IsEntry :=
    List.filter_cons_of_pos (decide_eq_true hm)
  refine ⟨(before ++ m :: after).filterMap (fun m => whiteout (entry m.name)) ++
    puts [] (before.filter IsEntry), ?_⟩
  rw [layerChanges, List.filter_append, hfilter, puts_append, List.append_nil, puts, putsAfter,
    List.append_assoc]

end TalosP2P.Oci
