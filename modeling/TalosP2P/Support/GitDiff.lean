import TalosP2P.Support.Utf8

/-!
# Support — GitDiff

What `git diff` prints: for each file a `diff --git` line, the lines about modes, similarity and blobs,
where the file moved from and to, the `---` and `+++` lines, and the hunks.  A path with a byte that is
not a printable one of ASCII, or with a quote or a backslash, is printed between quotes with that byte
escaped.

* `lines_map`: the lines of a diff whose paths were changed are the lines of the diff, with the paths
  in them changed.
* `control_mem_render_map_iff`: changing paths brings in no control characters.
-/

namespace TalosP2P.GitDiff

open Python

/-- A path without spaces. -/
structure Path where
  bytes : Bytes
  ne_nil : bytes ≠ []
  solid : 0x20 ∉ bytes

/-- What stands in a line. -/
structure Line where
  bytes : Bytes
  newline : 0x0a ∉ bytes

/-- What is printed of a byte between quotes. -/
def escape (b : UInt8) : Bytes :=
  if b = 0x22 ∨ b = 0x5c then [0x5c, b]
  else if 0x07 ≤ b ∧ b ≤ 0x0d then
    0x5c :: ("abtnvfr".toList.map asciiByte)[(b - 0x07).toNat]?.toList
  else if b < 0x20 ∨ 0x7f ≤ b then [0x5c, 0x30 + b / 64, 0x30 + b / 8 % 8, 0x30 + b % 8]
  else [b]

/-- The path is printed between quotes. -/
def Path.Quoted (p : Path) : Prop := ∃ b ∈ p.bytes, escape b ≠ [b]

instance (p : Path) : Decidable p.Quoted :=
  List.decidableBEx (fun b => escape b ≠ [b]) p.bytes

/-- A path as it is printed, behind `a/`, `b/` or nothing. -/
def Path.name (side : Bytes) (p : Path) : Bytes :=
  if p.Quoted then 0x22 :: (side ++ (p.bytes.flatMap escape ++ [0x22])) else side ++ p.bytes

theorem Path.name_of_not_quoted {p : Path} (h : ¬ p.Quoted) (side : Bytes) :
    p.name side = side ++ p.bytes :=
  if_neg h

theorem Path.name_of_quoted {p : Path} (h : p.Quoted) (side : Bytes) :
    p.name side = 0x22 :: (side ++ (p.bytes.flatMap escape ++ [0x22])) :=
  if_pos h

/-- The lines that say something else than a path. -/
inductive Info where
  | oldMode
  | newMode
  | newFileMode
  | deletedFileMode
  | similarityIndex
  | index
  deriving DecidableEq, Repr

def Info.word : Info → String
  | .oldMode => "old mode "
  | .newMode => "new mode "
  | .newFileMode => "new file mode "
  | .deletedFileMode => "deleted file mode "
  | .similarityIndex => "similarity index "
  | .index => "index "

/-- How a file comes to be at another path. -/
inductive Move where
  | rename
  | copy
  deriving DecidableEq, Repr

def Move.word : Move → String
  | .rename => "rename"
  | .copy => "copy"

/-- What a line of a hunk says. -/
inductive Sign where
  | context
  | removed
  | added
  | noNewline
  deriving DecidableEq, Repr

def Sign.byte : Sign → UInt8
  | .context => 0x20
  | .removed => 0x2d
  | .added => 0x2b
  | .noNewline => 0x5c

/-- A line of a diff. -/
inductive DiffLine where
  | git (a b : Path)
  | info (key : Info) (value : Line)
  | movedFrom (move : Move) (path : Path)
  | movedTo (move : Move) (path : Path)
  | old (path : Option Path)
  | new (path : Option Path)
  | hunk (ranges : Line)
  | body (sign : Sign) (text : Line)

/-- `a/`. -/
def sideA : Bytes := [0x61, 0x2f]

/-- `b/`. -/
def sideB : Bytes := [0x62, 0x2f]

def fileName (side : Bytes) : Option Path → Bytes
  | some p => p.name side
  | none => encodeUtf8 "/dev/null"

def DiffLine.render : DiffLine → Bytes
  | .git a b => encodeUtf8 "diff --git " ++ (a.name sideA ++ 0x20 :: b.name sideB)
  | .info key value => encodeUtf8 key.word ++ value.bytes
  | .movedFrom move path => encodeUtf8 (move.word ++ " from ") ++ path.name []
  | .movedTo move path => encodeUtf8 (move.word ++ " to ") ++ path.name []
  | .old path => encodeUtf8 "--- " ++ fileName sideA path
  | .new path => encodeUtf8 "+++ " ++ fileName sideB path
  | .hunk ranges => encodeUtf8 "@@ " ++ ranges.bytes
  | .body sign text => sign.byte :: text.bytes

/-- The line with the paths in it changed. -/
def DiffLine.map (f : Path → Path) : DiffLine → DiffLine
  | .git a b => .git (f a) (f b)
  | .info key value => .info key value
  | .movedFrom move path => .movedFrom move (f path)
  | .movedTo move path => .movedTo move (f path)
  | .old path => .old (path.map f)
  | .new path => .new (path.map f)
  | .hunk ranges => .hunk ranges
  | .body sign text => .body sign text

/-- The paths in the line. -/
def DiffLine.paths : DiffLine → List Path
  | .git a b => [a, b]
  | .movedFrom _ path | .movedTo _ path => [path]
  | .old path | .new path => path.toList
  | _ => []

/-- What happened to a file. -/
inductive Change where
  | modified (path : Path)
  | added (path : Path) (mode : Line)
  | deleted (path : Path) (mode : Line)
  | moved (move : Move) (source target : Path) (similarity : Line)

structure Hunk where
  ranges : Line
  body : List (Sign × Line)

/-- The patch of one file.  A file whose content stayed has no hunks, and then no `---` and `+++`
lines either. -/
structure FilePatch where
  change : Change
  modes : Option (Line × Line)
  index : Option Line
  hunks : List Hunk

/-- A diff. -/
abbrev Diff := List FilePatch

def Change.source : Change → Path
  | .modified path | .added path _ | .deleted path _ => path
  | .moved _ source _ _ => source

def Change.target : Change → Path
  | .modified path | .added path _ | .deleted path _ => path
  | .moved _ _ target _ => target

/-- The lines that say what happened to the file. -/
def Change.lines : Change → List DiffLine
  | .modified _ => []
  | .added _ mode => [.info .newFileMode mode]
  | .deleted _ mode => [.info .deletedFileMode mode]
  | .moved move source target similarity =>
    [.info .similarityIndex similarity, .movedFrom move source, .movedTo move target]

/-- The file before the change, if there was one. -/
def Change.old : Change → Option Path
  | .added _ _ => none
  | change => some change.source

/-- The file after the change, if there is one. -/
def Change.new : Change → Option Path
  | .deleted _ _ => none
  | change => some change.target

def Hunk.lines (h : Hunk) : List DiffLine :=
  .hunk h.ranges :: h.body.map fun line => .body line.1 line.2

def FilePatch.lines (p : FilePatch) : List DiffLine :=
  .git p.change.source p.change.target ::
    ((p.modes.toList.flatMap fun modes => [.info .oldMode modes.1, .info .newMode modes.2]) ++
    (p.change.lines ++ (p.index.toList.map (.info .index) ++
    ((if p.hunks = [] then [] else [.old p.change.old, .new p.change.new]) ++
    p.hunks.flatMap Hunk.lines))))

def Diff.lines (d : Diff) : List DiffLine := d.flatMap FilePatch.lines

/-- What `git diff` prints. -/
def Diff.render (d : Diff) : Bytes := unlines 0x0a ((Diff.lines d).map DiffLine.render)

/-! ### Changed paths -/

def Change.map (f : Path → Path) : Change → Change
  | .modified path => .modified (f path)
  | .added path mode => .added (f path) mode
  | .deleted path mode => .deleted (f path) mode
  | .moved move source target similarity => .moved move (f source) (f target) similarity

/-- The diff with every path changed. -/
def Diff.map (f : Path → Path) (d : Diff) : Diff :=
  List.map (fun p => { p with change := p.change.map f }) d

theorem Change.lines_map (f : Path → Path) (c : Change) :
    (c.map f).lines = c.lines.map (DiffLine.map f) := by
  cases c <;> rfl

theorem Change.source_map (f : Path → Path) (c : Change) : (c.map f).source = f c.source := by
  cases c <;> rfl

theorem Change.target_map (f : Path → Path) (c : Change) : (c.map f).target = f c.target := by
  cases c <;> rfl

theorem Change.old_map (f : Path → Path) (c : Change) : (c.map f).old = c.old.map f := by
  cases c <;> rfl

theorem Change.new_map (f : Path → Path) (c : Change) : (c.map f).new = c.new.map f := by
  cases c <;> rfl

theorem Hunk.lines_map (f : Path → Path) (h : Hunk) : h.lines.map (DiffLine.map f) = h.lines := by
  simp [Hunk.lines, DiffLine.map]

theorem FilePatch.lines_map (f : Path → Path) (p : FilePatch) :
    FilePatch.lines { p with change := p.change.map f } = p.lines.map (DiffLine.map f) := by
  have hmodes : (p.modes.toList.flatMap fun modes =>
      [DiffLine.info .oldMode modes.1, .info .newMode modes.2]).map (DiffLine.map f) =
        p.modes.toList.flatMap fun modes => [.info .oldMode modes.1, .info .newMode modes.2] := by
    cases p.modes <;> rfl
  have hindex : (p.index.toList.map (DiffLine.info .index)).map (DiffLine.map f) =
      p.index.toList.map (.info .index) := by
    cases p.index <;> rfl
  have hhunks : (p.hunks.flatMap Hunk.lines).map (DiffLine.map f) = p.hunks.flatMap Hunk.lines := by
    simp only [List.map_flatMap, Hunk.lines_map]
  simp only [FilePatch.lines, List.map_cons, List.map_append, hmodes, hindex, hhunks,
    Change.lines_map, Change.source_map, Change.target_map, Change.old_map, Change.new_map]
  split <;> rfl

theorem Diff.lines_map (f : Path → Path) (d : Diff) :
    Diff.lines (Diff.map f d) = (Diff.lines d).map (DiffLine.map f) := by
  simp only [Diff.lines, Diff.map, List.flatMap_map, List.map_flatMap, FilePatch.lines_map]

/-! ### Control characters -/

/-- No byte of the word is a control character. -/
def Printable (word : Bytes) : Prop := ∀ x ∈ word, 0x20 ≤ x

instance (word : Bytes) : Decidable (Printable word) := List.decidableBAll (0x20 ≤ ·) word

theorem le_octal {d : UInt8} (h : d.toNat < 8) : 0x20 ≤ 0x30 + d := by
  have hsum : (0x30 + d).toNat = 0x30 + d.toNat := by
    rw [UInt8.toNat_add]
    exact Nat.mod_eq_of_lt (by change 48 + d.toNat < 256; omega)
  rw [UInt8.le_iff_toNat_le, hsum]
  exact le_add_right (by decide)

theorem printable_escape (b : UInt8) : Printable (escape b) := by
  intro x h
  rw [escape] at h
  split_ifs at h with hmark hletter hoctal
  · rcases List.mem_pair.mp h with rfl | rfl
    · decide
    · rcases hmark with rfl | rfl <;> decide
  · have hletters : Printable ("abtnvfr".toList.map asciiByte) := by decide
    rcases List.mem_cons.mp h with rfl | h
    · decide
    · exact hletters x (List.mem_of_getElem? (Option.mem_toList.mp h))
  · have hb := b.toNat_lt
    simp only [List.mem_cons, List.not_mem_nil, or_false] at h
    rcases h with rfl | rfl | rfl | rfl
    · decide
    · exact le_octal (by rw [UInt8.toNat_div]; change b.toNat / 64 < 8; omega)
    · exact le_octal (by rw [UInt8.toNat_mod]; exact Nat.mod_lt _ (by decide))
    · exact le_octal (by rw [UInt8.toNat_mod]; exact Nat.mod_lt _ (by decide))
  · rw [List.mem_singleton.mp h]
    exact UInt8.not_lt.mp fun hlt => hoctal (.inl hlt)

theorem printable_name {side : Bytes} (hside : Printable side) (p : Path) : Printable (p.name side) := by
  intro x h
  rw [Path.name] at h
  split at h
  · simp only [List.mem_cons, List.mem_append, List.mem_flatMap, List.not_mem_nil, or_false] at h
    rcases h with rfl | h | ⟨b, -, h⟩ | rfl
    · decide
    · exact hside x h
    · exact printable_escape b x h
    · decide
  · rename_i hquoted
    rcases List.mem_append.mp h with h | h
    · exact hside x h
    · have hself : escape x = [x] := not_not.mp fun hne => hquoted ⟨x, h, hne⟩
      exact printable_escape x x (by rw [hself]; exact List.mem_singleton_self x)

theorem printable_fileName {side : Bytes} (hside : Printable side) (p : Option Path) :
    Printable (fileName side p) := by
  cases p with
  | none =>
      have hnull : Printable (encodeUtf8 "/dev/null") := by decide
      exact hnull
  | some p => exact printable_name hside p

/-- What the words of a line and the names in it do not hold is in the rest of it. -/
def DiffLine.rest : DiffLine → Bytes
  | .info _ value => value.bytes
  | .hunk ranges => ranges.bytes
  | .body _ text => text.bytes
  | _ => []

theorem control_mem_render_iff {x : UInt8} (hx : x < 0x20) (l : DiffLine) :
    x ∈ l.render ↔ x ∈ l.rest := by
  have hlow : ∀ {w : Bytes}, Printable w → x ∉ w := fun hw hmem =>
    absurd (hw x hmem) (UInt8.not_le.mpr hx)
  have hA : Printable sideA := by decide
  have hB : Printable sideB := by decide
  have hnil : Printable [] := by decide
  have hspace : x ≠ 0x20 := UInt8.ne_of_lt hx
  cases l with
  | git a b =>
      have hword : Printable (encodeUtf8 "diff --git ") := by decide
      simp [DiffLine.render, DiffLine.rest, hlow hword, hlow (printable_name hA a),
        hlow (printable_name hB b), hspace]
  | info key value =>
      have hword : Printable (encodeUtf8 key.word) := by cases key <;> decide
      simp [DiffLine.render, DiffLine.rest, hlow hword]
  | movedFrom move path =>
      have hword : Printable (encodeUtf8 (move.word ++ " from ")) := by
        cases move <;> decide
      simp [DiffLine.render, DiffLine.rest, hlow hword,
        hlow (printable_name hnil path)]
  | movedTo move path =>
      have hword : Printable (encodeUtf8 (move.word ++ " to ")) := by
        cases move <;> decide
      simp [DiffLine.render, DiffLine.rest, hlow hword,
        hlow (printable_name hnil path)]
  | old path =>
      have hword : Printable (encodeUtf8 "--- ") := by decide
      simp [DiffLine.render, DiffLine.rest, hlow hword, hlow (printable_fileName hA path)]
  | new path =>
      have hword : Printable (encodeUtf8 "+++ ") := by decide
      simp [DiffLine.render, DiffLine.rest, hlow hword, hlow (printable_fileName hB path)]
  | hunk ranges =>
      have hword : Printable (encodeUtf8 "@@ ") := by decide
      simp [DiffLine.render, DiffLine.rest, hlow hword]
  | body sign text =>
      have hsign : x ≠ sign.byte := by
        rintro rfl
        cases sign <;> exact absurd hx (by decide)
      simp [DiffLine.render, DiffLine.rest, hsign]

/-- A line holds no newline. -/
theorem newline_not_mem_render (l : DiffLine) : 0x0a ∉ l.render := by
  rw [control_mem_render_iff (by decide)]
  cases l with
  | info key value => exact value.newline
  | hunk ranges => exact ranges.newline
  | body sign text => exact text.newline
  | _ => exact List.not_mem_nil

/-- Changed paths bring in no control characters. -/
theorem control_mem_render_map_iff {x : UInt8} (hx : x < 0x20) (f : Path → Path) (l : DiffLine) :
    x ∈ (l.map f).render ↔ x ∈ l.render := by
  rw [control_mem_render_iff hx, control_mem_render_iff hx]
  cases l <;> rfl

theorem newline_not_mem_lines (d : Diff) : ∀ line ∈ (Diff.lines d).map DiffLine.render, 0x0a ∉ line := by
  intro line hline
  obtain ⟨l, -, rfl⟩ := List.mem_map.mp hline
  exact newline_not_mem_render l

theorem return_mem_render_map_iff (f : Path → Path) (d : Diff) :
    0x0d ∈ Diff.render (Diff.map f d) ↔ 0x0d ∈ Diff.render d := by
  rw [Diff.render, Diff.render, Diff.lines_map]
  simp [unlines, control_mem_render_map_iff]

end TalosP2P.GitDiff
