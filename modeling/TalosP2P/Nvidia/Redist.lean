import Mathlib.Data.Bool.AllAny
import TalosP2P.Nvidia.Remap
import TalosP2P.Support.GitDiff

/-!
# Nvidia — Redist

What the remapped donor diff should be: the same diff, with every path under `src/` put under
`src/kernel-module-source/`.  The substitutions do not know the diff; they know how three kinds of
lines begin.

* `writeText_remapLine_iff`: the lines that become what they should.
* `remap_render_iff`: the diffs that do.
-/

namespace TalosP2P.Nvidia

open Python LineSub GitDiff

/-- The path is one under `src/`. -/
def InSrc (p : Path) : Prop := encodeUtf8 "src/" <+: p.bytes

instance (p : Path) : Decidable (InSrc p) :=
  inferInstanceAs (Decidable (encodeUtf8 "src/" <+: p.bytes))

/-- The path in the layout of the redist archive. -/
def toRedist (p : Path) : Path :=
  if InSrc p then
    { bytes := encodeUtf8 "src/kernel-module-source/" ++ p.bytes
      ne_nil := List.append_ne_nil_of_right_ne_nil _ p.ne_nil
      solid := by
        have hplain : 0x20 ∉ encodeUtf8 "src/kernel-module-source/" := by decide
        exact fun h => (List.mem_append.mp h).elim hplain p.solid }
  else p

/-- A line of a hunk that begins like one that names a file. -/
def LooksLikeHeader (line : Bytes) : Prop :=
  encodeUtf8 "--- a/src/" <+: line ∨ encodeUtf8 "+++ b/src/" <+: line

/-- A line of a diff that the substitutions are right for. -/
def Handled : DiffLine → Prop
  | .git a b => (InSrc a → ¬ a.Quoted) ∧ (InSrc b → ¬ a.Quoted ∧ ¬ b.Quoted)
  | .movedFrom _ p | .movedTo _ p => ¬ InSrc p
  | .old p | .new p => ∀ q ∈ p, InSrc q → ¬ q.Quoted
  | .body sign text => ¬ LooksLikeHeader (DiffLine.body sign text).render
  | .info _ _ | .hunk _ => True

/-! ### Paths -/

theorem toRedist_of_not_inSrc {p : Path} (h : ¬ InSrc p) : toRedist p = p := if_neg h

theorem toRedist_bytes {p : Path} (h : InSrc p) :
    (toRedist p).bytes = encodeUtf8 "src/kernel-module-source/" ++ p.bytes := by
  rw [toRedist, if_pos h]

theorem redist_plain : ∀ b ∈ encodeUtf8 "src/kernel-module-source/", escape b = [b] :=
  List.all_iff_forall_prop.mp (by decide)

theorem quoted_toRedist (p : Path) : (toRedist p).Quoted ↔ p.Quoted := by
  by_cases h : InSrc p
  · simp only [Path.Quoted, toRedist_bytes h, List.mem_append]
    constructor
    · rintro ⟨b, hb | hb, hne⟩
      · exact absurd (redist_plain b hb) hne
      · exact ⟨b, hb, hne⟩
    · rintro ⟨b, hb, hne⟩
      exact ⟨b, .inr hb, hne⟩
  · rw [toRedist_of_not_inSrc h]

theorem length_name_toRedist (side : Bytes) (p : Path) : ((toRedist p).name side).length =
    (p.name side).length + if InSrc p then 25 else 0 := by
  by_cases h : InSrc p
  · have hlen : (encodeUtf8 "src/kernel-module-source/").length = 25 := by decide
    have hescape : (encodeUtf8 "src/kernel-module-source/").flatMap escape =
        encodeUtf8 "src/kernel-module-source/" := by decide
    by_cases hquoted : p.Quoted
    · rw [Path.name_of_quoted hquoted, Path.name_of_quoted ((quoted_toRedist p).mpr hquoted),
        toRedist_bytes h, List.flatMap_append, hescape, if_pos h]
      simp only [List.length_cons, List.length_append, hlen]
      omega
    · rw [Path.name_of_not_quoted hquoted, Path.name_of_not_quoted (mt (quoted_toRedist p).mp hquoted),
        toRedist_bytes h, if_pos h]
      simp only [List.length_append, hlen]
      omega
  · rw [toRedist_of_not_inSrc h, if_neg h, Nat.add_zero]

theorem name_eq_name_toRedist_iff (side : Bytes) (p : Path) :
    p.name side = (toRedist p).name side ↔ ¬ InSrc p := by
  constructor
  · intro heq hin
    have hlen := length_name_toRedist side p
    rw [← heq, if_pos hin] at hlen
    omega
  · intro hin
    rw [toRedist_of_not_inSrc hin]

/-- Every path in the line that is remapped makes it longer. -/
theorem length_render_map (l : DiffLine) : (l.map toRedist).render.length =
    l.render.length + 25 * l.paths.countP (InSrc ·) := by
  have hone : ∀ p : Path, 25 * [p].countP (InSrc ·) = if InSrc p then 25 else 0 := fun p => by
    by_cases h : InSrc p <;> simp [h]
  cases l with
  | git a b =>
      have htwo : [a, b].countP (InSrc ·) = [a].countP (InSrc ·) + [b].countP (InSrc ·) := by
        rw [← List.singleton_append, List.countP_append]
      simp only [DiffLine.map, DiffLine.render, DiffLine.paths, List.length_append, List.length_cons,
        length_name_toRedist, htwo, Nat.mul_add, hone]
      omega
  | movedFrom move p =>
      simp only [DiffLine.map, DiffLine.render, DiffLine.paths, List.length_append,
        length_name_toRedist, hone]
      omega
  | movedTo move p =>
      simp only [DiffLine.map, DiffLine.render, DiffLine.paths, List.length_append,
        length_name_toRedist, hone]
      omega
  | old p =>
      cases p with
      | none => rfl
      | some p =>
          simp only [DiffLine.map, DiffLine.render, DiffLine.paths, List.length_append, Option.map_some,
            Option.toList_some, fileName, length_name_toRedist, hone]
          omega
  | new p =>
      cases p with
      | none => rfl
      | some p =>
          simp only [DiffLine.map, DiffLine.render, DiffLine.paths, List.length_append, Option.map_some,
            Option.toList_some, fileName, length_name_toRedist, hone]
          omega
  | info key value => rfl
  | hunk ranges => rfl
  | body sign text => rfl

theorem map_toRedist_of_not_inSrc {l : DiffLine} (h : ∀ p ∈ l.paths, ¬ InSrc p) : l.map toRedist = l := by
  cases l with
  | git a b => simp_all [DiffLine.map, DiffLine.paths, toRedist_of_not_inSrc]
  | movedFrom move p => simp_all [DiffLine.map, DiffLine.paths, toRedist_of_not_inSrc]
  | movedTo move p => simp_all [DiffLine.map, DiffLine.paths, toRedist_of_not_inSrc]
  | old p => cases p <;> simp_all [DiffLine.map, DiffLine.paths, toRedist_of_not_inSrc]
  | new p => cases p <;> simp_all [DiffLine.map, DiffLine.paths, toRedist_of_not_inSrc]
  | info key value => rfl
  | hunk ranges => rfl
  | body sign text => rfl

/-- A line that stays as it is becomes what it should when it names no path under `src/`. -/
theorem render_eq_render_map_iff (l : DiffLine) :
    l.render = (l.map toRedist).render ↔ ∀ p ∈ l.paths, ¬ InSrc p := by
  constructor
  · intro h
    have hlen := length_render_map l
    rw [← h] at hlen
    have hzero : l.paths.countP (InSrc ·) = 0 := by omega
    simpa [List.countP_eq_zero] using hzero
  · intro h
    rw [map_toRedist_of_not_inSrc h]

/-! ### Lines -/

/-- A path that is printed as it is, remapped by the substitutions. -/
theorem writeText_fixSource {word : Text} {p : Path} (h : writeText word = p.bytes) :
    writeText (fixSource word) = (toRedist p).bytes := by
  have hsrc : writeText src = encodeUtf8 "src/" := writeText_toList "src/"
  have hredist : writeText redistSrc = encodeUtf8 "src/kernel-module-source/" ++ writeText src := by
    decide
  have hiff : src <+: word ↔ InSrc p := by rw [writeText_prefix_iff, h, hsrc, InSrc]
  by_cases hin : InSrc p
  · obtain ⟨rest, rfl⟩ := hiff.mpr hin
    rw [fixSource, if_pos (List.prefix_append _ _), List.drop_left, writeText_append, hredist,
      toRedist_bytes hin, ← h, writeText_append, List.append_assoc]
  · rw [fixSource, if_neg (mt hiff.mp hin), toRedist_of_not_inSrc hin, h]

theorem fixTarget_append (path : Text) : fixTarget ("b/".toList ++ path) = "b/".toList ++ fixSource path := by
  rw [fixTarget, fixSource]
  by_cases h : src <+: path
  · obtain ⟨rest, rfl⟩ := h
    have hassoc : "b/".toList ++ (src ++ rest) = ("b/".toList ++ src) ++ rest := by simp
    rw [hassoc, if_pos (List.prefix_append _ _), if_pos (List.prefix_append _ _), List.drop_left,
      List.drop_left]
  · rw [if_neg (by rwa [List.prefix_append_right_inj]), if_neg h]

/-- The name of a second path, remapped by the substitutions. -/
theorem writeText_fixTarget_iff {rest : Text} {p : Path} (h : writeText rest = p.name sideB) :
    writeText (fixTarget rest) = (toRedist p).name sideB ↔ (InSrc p → ¬ p.Quoted) := by
  have hside : writeText "b/".toList = sideB := by decide
  by_cases hquoted : p.Quoted
  · have hnot : ¬ "b/".toList ++ src <+: rest := fun hp => by
      rw [writeText_prefix_iff, h, Path.name_of_quoted hquoted, writeText_append, hside] at hp
      exact absurd (List.cons_prefix_cons.mp hp).1 (by decide)
    rw [fixTarget, if_neg hnot, h, name_eq_name_toRedist_iff]
    simp [hquoted]
  · refine iff_of_true ?_ fun _ => hquoted
    rw [Path.name_of_not_quoted hquoted, ← hside] at h
    obtain ⟨path, rfl, hpath⟩ := exists_of_writeText_eq_append h
    rw [fixTarget_append, writeText_append, writeText_fixSource hpath, hside,
      Path.name_of_not_quoted (mt (quoted_toRedist p).mp hquoted)]

/-- A text does not begin with one that differs from it early. -/
theorem not_prefix_append {a b c : Bytes} (k : Nat) (ha : k ≤ a.length) (hb : k ≤ b.length)
    (hne : a.take k ≠ b.take k) : ¬ a <+: b ++ c := by
  rintro ⟨d, hd⟩
  have htake := congrArg (List.take k) hd
  rw [List.take_append_of_le_length ha, List.take_append_of_le_length hb] at htake
  exact hne htake

variable {line : Text}

/-- A line that begins like none of the patterns stays as it is. -/
theorem remapLine_of_bytes {b : Bytes} (h : writeText line = b)
    (hgit : ¬ encodeUtf8 "diff --git a/" <+: b) (hheader : ¬ LooksLikeHeader b) :
    remapLine line = line := by
  rw [LooksLikeHeader, not_or] at hheader
  subst h
  have hold : writeText ("--- a/".toList ++ src) = encodeUtf8 "--- a/src/" := by decide
  have hnew : writeText ("+++ b/".toList ++ src) = encodeUtf8 "+++ b/src/" := by decide
  have hhead : writeText gitHead = encodeUtf8 "diff --git a/" := writeText_toList "diff --git a/"
  rw [← hhead, ← writeText_prefix_iff] at hgit
  rw [← hold, ← hnew, ← writeText_prefix_iff, ← writeText_prefix_iff] at hheader
  exact remapLine_eq_self hgit hheader.1 hheader.2

/-- Such a line becomes what it should when it names no path under `src/`. -/
theorem writeText_remapLine_iff_of_self {x : DiffLine} (h : writeText line = x.render)
    (hself : remapLine line = line) :
    writeText (remapLine line) = (x.map toRedist).render ↔ ∀ p ∈ x.paths, ¬ InSrc p := by
  rw [hself, h, render_eq_render_map_iff]

/-- What a line begins with is told from all of the patterns by its first bytes. -/
def Apart (start : Bytes) (k : Nat) : Prop :=
  k ≤ start.length ∧ k ≤ 10 ∧ ∀ head ∈ [encodeUtf8 "diff --git a/", encodeUtf8 "--- a/src/",
    encodeUtf8 "+++ b/src/"], head.take k ≠ start.take k

instance (start : Bytes) (k : Nat) : Decidable (Apart start k) :=
  inferInstanceAs (Decidable (k ≤ start.length ∧ k ≤ 10 ∧ ∀ head ∈ [encodeUtf8 "diff --git a/",
    encodeUtf8 "--- a/src/", encodeUtf8 "+++ b/src/"], head.take k ≠ start.take k))

theorem remapLine_of_apart {start rest : Bytes} (k : Nat) (hapart : Apart start k)
    (h : writeText line = start ++ rest) : remapLine line = line := by
  obtain ⟨hstart, hk, hheads⟩ := hapart
  have hlen : 10 ≤ (encodeUtf8 "diff --git a/").length ∧ (encodeUtf8 "--- a/src/").length = 10 ∧
      (encodeUtf8 "+++ b/src/").length = 10 := by decide
  refine remapLine_of_bytes h (not_prefix_append k (by omega) hstart (hheads _ (by simp))) ?_
  rintro (hp | hp)
  · exact not_prefix_append k (by omega) hstart (hheads _ (by simp)) hp
  · exact not_prefix_append k (by omega) hstart (hheads _ (by simp)) hp

/-- The word between the beginning of the line and the first space. -/
theorem exists_word {p : Path} {r : Bytes}
    (h : writeText line = writeText gitHead ++ (p.bytes ++ asciiByte ' ' :: r)) :
    ∃ word rest, line = gitHead ++ (word ++ ' ' :: rest) ∧ word ≠ [] ∧ ' ' ∉ word ∧
      writeText word = p.bytes ∧ writeText rest = r := by
  obtain ⟨line', rfl, hline'⟩ := exists_of_writeText_eq_append h
  obtain ⟨word, rest, rfl, hword, hrest⟩ :=
    exists_of_writeText_eq_append_cons (by decide) p.solid hline'
  refine ⟨word, rest, rfl, ?_, ?_, hword, hrest⟩
  · rintro rfl
    exact p.ne_nil hword.symm
  · rw [← asciiByte_mem_writeText_iff (by decide), hword]
    exact p.solid

theorem render_git_of_not_quoted {a : Path} (ha : ¬ a.Quoted) (b : Path) :
    (DiffLine.git a b).render = writeText gitHead ++ (a.bytes ++ asciiByte ' ' :: b.name sideB) := by
  have hhead : writeText gitHead = encodeUtf8 "diff --git " ++ sideA := by decide
  rw [DiffLine.render, Path.name_of_not_quoted ha, hhead]
  simp [asciiByte]

/-- A `diff --git` line with a first path in quotes begins like none of the patterns. -/
theorem render_git_of_quoted {a : Path} (ha : a.Quoted) (b : Path) :
    ¬ encodeUtf8 "diff --git a/" <+: (DiffLine.git a b).render ∧
      ¬ LooksLikeHeader (DiffLine.git a b).render := by
  have hrender : (DiffLine.git a b).render = (encodeUtf8 "diff --git " ++ [0x22]) ++
      (sideA ++ (a.bytes.flatMap escape ++ [0x22]) ++ 0x20 :: b.name sideB) := by
    rw [DiffLine.render, Path.name_of_quoted ha]
    simp
  rw [hrender]
  refine ⟨not_prefix_append 12 (by decide) (by decide) (by decide), ?_⟩
  rintro (hp | hp)
  · exact not_prefix_append 1 (by decide) (by decide) (by decide) hp
  · exact not_prefix_append 1 (by decide) (by decide) (by decide) hp

theorem writeText_remapLine_git_iff {a b : Path} (h : writeText line = (DiffLine.git a b).render) :
    writeText (remapLine line) = ((DiffLine.git a b).map toRedist).render ↔
      Handled (.git a b) := by
  by_cases ha : a.Quoted
  · obtain ⟨hgit, hheader⟩ := render_git_of_quoted ha b
    rw [writeText_remapLine_iff_of_self h (remapLine_of_bytes h hgit hheader)]
    simp [DiffLine.paths, Handled, ha]
  · obtain ⟨word, rest, rfl, hne, hsolid, hword, hrest⟩ :=
      exists_word (h.trans (render_git_of_not_quoted ha b))
    have hspace : String.utf8EncodeChar ' ' = [asciiByte ' '] := utf8EncodeChar_ascii (by decide)
    rw [remapLine_git hne hsolid, DiffLine.map,
      render_git_of_not_quoted (mt (quoted_toRedist a).mp ha), writeText_append, writeText_append,
      writeText_cons, hspace, List.singleton_append, writeText_fixSource hword,
      List.append_cancel_left_eq, List.append_cancel_left_eq, List.cons.injEq, eq_self, true_and,
      writeText_fixTarget_iff hrest]
    simp [Handled, ha]

/-- The two lines that name a file behind a marker. -/
theorem writeText_remapLine_file_iff {group : Text} {marker side : Bytes}
    (hhead : writeText group = marker ++ side)
    (hline : ∀ path, remapLine (group ++ path) = group ++ fixSource path)
    (hnull : Apart (marker ++ encodeUtf8 "/dev/null") 5) (hquote : Apart (marker ++ [0x22]) 5)
    {p : Option Path} (h : writeText line = marker ++ fileName side p) :
    writeText (remapLine line) = marker ++ fileName side (p.map toRedist) ↔
      ∀ q ∈ p, InSrc q → ¬ q.Quoted := by
  cases p with
  | none =>
      have hrender : writeText line = (marker ++ encodeUtf8 "/dev/null") ++ [] := by
        rw [h, fileName, List.append_nil]
      rw [remapLine_of_apart 5 hnull hrender]
      simp [h]
  | some p =>
      rw [fileName] at h
      rw [Option.map_some, fileName]
      by_cases hp : p.Quoted
      · have hrender : writeText line = (marker ++ [0x22]) ++
            (side ++ (p.bytes.flatMap escape ++ [0x22])) := by
          rw [h, Path.name_of_quoted hp]
          simp
        rw [remapLine_of_apart 5 hquote hrender, h, List.append_cancel_left_eq, name_eq_name_toRedist_iff]
        simp [hp]
      · have hrender : writeText line = writeText group ++ p.bytes := by
          rw [h, Path.name_of_not_quoted hp, hhead, List.append_assoc]
        obtain ⟨path, rfl, hpath⟩ := exists_of_writeText_eq_append hrender
        rw [hline, writeText_append, writeText_fixSource hpath, hhead, List.append_assoc,
          ← Path.name_of_not_quoted (mt (quoted_toRedist p).mp hp)]
        simp [hp]

theorem fixSource_ne (rest : Text) : fixSource (src ++ rest) ≠ src ++ rest := by
  rw [fixSource, if_pos (List.prefix_append _ _), List.drop_left]
  exact fun h => absurd (List.append_cancel_right h) (by decide)

/-- A line of a hunk has to stay as it is. -/
theorem writeText_remapLine_body_iff {sign : Sign} {text : Line}
    (h : writeText line = (DiffLine.body sign text).render) :
    writeText (remapLine line) = (DiffLine.body sign text).render ↔
      ¬ LooksLikeHeader (DiffLine.body sign text).render := by
  have hgit : ¬ encodeUtf8 "diff --git a/" <+: [sign.byte] ++ text.bytes := by
    cases sign <;> exact not_prefix_append 1 (by decide) (by decide) (by decide)
  rw [← h, writeText_injective.eq_iff]
  constructor
  · intro heq
    have hchanged : ∀ {group : Text} {head : String}, writeText (group ++ src) = encodeUtf8 head →
        (∀ path, remapLine (group ++ path) = group ++ fixSource path) →
        ¬ encodeUtf8 head <+: writeText line := by
      intro group head hhead hline hp
      rw [← hhead, ← writeText_prefix_iff] at hp
      obtain ⟨rest, rfl⟩ := hp
      rw [List.append_assoc, hline, List.append_cancel_left_eq] at heq
      exact fixSource_ne rest heq
    rintro (hp | hp)
    · exact hchanged (by decide) remapLine_old hp
    · exact hchanged (by decide) remapLine_new hp
  · exact fun hheader => remapLine_of_bytes rfl (h ▸ hgit) hheader

/-- **One line** becomes what it should exactly when the substitutions are right for it. -/
theorem writeText_remapLine_iff {x : DiffLine} (h : writeText line = x.render) :
    writeText (remapLine line) = (x.map toRedist).render ↔ Handled x := by
  cases x with
  | git a b => exact writeText_remapLine_git_iff h
  | info key value =>
      have hapart : Apart (encodeUtf8 key.word) 2 := by cases key <;> decide
      rw [writeText_remapLine_iff_of_self h (remapLine_of_apart 2 hapart h)]
      simp [DiffLine.paths, Handled]
  | movedFrom move p =>
      have hapart : Apart (encodeUtf8 (move.word ++ " from ")) 2 := by cases move <;> decide
      rw [writeText_remapLine_iff_of_self h (remapLine_of_apart 2 hapart h)]
      simp [DiffLine.paths, Handled]
  | movedTo move p =>
      have hapart : Apart (encodeUtf8 (move.word ++ " to ")) 2 := by cases move <;> decide
      rw [writeText_remapLine_iff_of_self h (remapLine_of_apart 2 hapart h)]
      simp [DiffLine.paths, Handled]
  | old p =>
      exact writeText_remapLine_file_iff (by decide) remapLine_old (by decide)
        (by decide) h
  | new p =>
      exact writeText_remapLine_file_iff (by decide) remapLine_new (by decide)
        (by decide) h
  | hunk ranges =>
      have hapart : Apart (encodeUtf8 "@@ ") 2 := by decide
      rw [writeText_remapLine_iff_of_self h (remapLine_of_apart 2 hapart h)]
      simp [DiffLine.paths, Handled]
  | body sign text => exact writeText_remapLine_body_iff h

/-- A line of a diff that begins like a `diff --git` line is one, and its first path is printed as it
is. -/
theorem fit_of_render {x : DiffLine} (h : writeText line = x.render) : Fit line := by
  have hhead : writeText gitHead = encodeUtf8 "diff --git a/" := writeText_toList "diff --git a/"
  intro hp
  rw [writeText_prefix_iff, hhead, h] at hp
  have hstart : ∀ {start rest : Bytes}, start ++ rest = x.render →
      2 ≤ start.length ∧ (encodeUtf8 "diff --git a/").take 2 ≠ start.take 2 → False :=
    fun heq hne => not_prefix_append 2 (by decide) hne.1 hne.2 (heq ▸ hp)
  cases x with
  | git a b =>
      by_cases ha : a.Quoted
      · exact absurd hp (render_git_of_quoted ha b).1
      · obtain ⟨word, rest, hline, hne, hsolid, -⟩ :=
          exists_word (h.trans (render_git_of_not_quoted ha b))
        exact ⟨word, rest, hline, hne, hsolid⟩
  | info key value => exact (hstart rfl (by cases key <;> decide)).elim
  | movedFrom move p => exact (hstart rfl (by cases move <;> decide)).elim
  | movedTo move p => exact (hstart rfl (by cases move <;> decide)).elim
  | old p => exact (hstart rfl (by decide)).elim
  | new p => exact (hstart rfl (by decide)).elim
  | hunk ranges => exact (hstart rfl (by decide)).elim
  | body sign text =>
      have hsign : sign.byte ≠ 0x64 := by cases sign <;> decide
      have hcons : encodeUtf8 "diff --git a/" = 0x64 :: (encodeUtf8 "diff --git a/").tail := by
        decide
      rw [hcons, DiffLine.render, List.cons_prefix_cons] at hp
      exact absurd hp.1.symm hsign

/-! ### Diffs -/

/-- The lines of a diff, as a text, become what they should when each of them does. -/
theorem map_remapLine_iff {xs : List DiffLine} {lines : List Text}
    (h : lines.map writeText = xs.map DiffLine.render) :
    (lines.map remapLine).map writeText = (xs.map (DiffLine.map toRedist)).map DiffLine.render ↔
      ∀ x ∈ xs, Handled x := by
  induction xs generalizing lines with
  | nil =>
      rw [List.map_nil, List.map_eq_nil_iff] at h
      simp [h]
  | cons x xs ih =>
      cases lines with
      | nil => simp at h
      | cons line lines =>
          obtain ⟨hline, hlines⟩ := List.cons.inj h
          rw [List.map_cons, List.map_cons, List.map_cons, List.map_cons, List.cons.injEq,
            writeText_remapLine_iff hline, ih hlines, List.forall_mem_cons]

/-- A diff the step is right for: it is a text, without carriage returns; no file that moved was or is
under `src/`, no other one under `src/` has a name that is printed in quotes; and no line of a hunk
begins like one that names a file under `src/`. -/
structure Remappable (d : Diff) : Prop where
  text : ∃ s, decodeUtf8 (Diff.render d) = some s
  lineEnds : 0x0d ∉ Diff.render d
  paths : ∀ patch ∈ d, match patch.change with
    | .modified p | .added p _ | .deleted p _ => InSrc p → ¬ p.Quoted
    | .moved _ source target _ => ¬ InSrc source ∧ ¬ InSrc target
  hunks : ∀ patch ∈ d, ∀ hunk ∈ patch.hunks, ∀ line ∈ hunk.body,
    ¬ LooksLikeHeader (DiffLine.body line.1 line.2).render

theorem handled_lines_iff (patch : FilePatch) : (∀ x ∈ patch.lines, Handled x) ↔
    (match patch.change with
      | .modified p | .added p _ | .deleted p _ => InSrc p → ¬ p.Quoted
      | .moved _ source target _ => ¬ InSrc source ∧ ¬ InSrc target) ∧
    ∀ hunk ∈ patch.hunks, ∀ line ∈ hunk.body,
      ¬ LooksLikeHeader (DiffLine.body line.1 line.2).render := by
  have hlines : (∀ x ∈ patch.lines, Handled x) ↔
      Handled (.git patch.change.source patch.change.target) ∧ (∀ x ∈ patch.change.lines, Handled x) ∧
      (patch.hunks ≠ [] → Handled (.old patch.change.old) ∧ Handled (.new patch.change.new)) ∧
      ∀ hunk ∈ patch.hunks, ∀ line ∈ hunk.body,
        ¬ LooksLikeHeader (DiffLine.body line.1 line.2).render := by
    have hinfo : ∀ key value, Handled (.info key value) := fun _ _ => trivial
    have hhunk : ∀ hunk : Hunk, (∀ x ∈ hunk.lines, Handled x) ↔ ∀ line ∈ hunk.body,
        ¬ LooksLikeHeader (DiffLine.body line.1 line.2).render := fun hunk => by
      rw [Hunk.lines, List.forall_mem_cons, List.forall_mem_map]
      exact and_iff_right trivial
    have hfiles : (∀ x ∈ if patch.hunks = [] then [] else
        [DiffLine.old patch.change.old, .new patch.change.new], Handled x) ↔
        (patch.hunks ≠ [] → Handled (.old patch.change.old) ∧ Handled (.new patch.change.new)) := by
      split <;> simp_all
    simp only [FilePatch.lines, List.forall_mem_cons, List.forall_mem_append, hfiles,
      List.forall_mem_flatMap, List.forall_mem_map, hhunk, hinfo, List.not_mem_nil, false_imp_iff,
      implies_true, true_and]
  rw [hlines]
  cases patch.change with
  | modified p =>
      simp [Change.source, Change.target, Change.lines, Change.old, Change.new, Handled]
      tauto
  | added p mode =>
      simp [Change.source, Change.target, Change.lines, Change.old, Change.new, Handled]
      tauto
  | deleted p mode =>
      simp [Change.source, Change.target, Change.lines, Change.old, Change.new, Handled]
      tauto
  | moved move source target similarity =>
      simp [Change.source, Change.target, Change.lines, Change.old, Change.new, Handled]
      tauto

theorem writeText_remapText_iff {d : Diff} {text : Text} (h : writeText text = Diff.render d) :
    writeText (remapText text) = Diff.render (Diff.map toRedist d) ↔
      ∀ x ∈ Diff.lines d, Handled x := by
  have hnewline : asciiByte '\n' = 0x0a := by decide
  rw [Diff.render, ← hnewline] at h
  obtain ⟨lines, rfl, hlines⟩ := exists_lines_of_writeText (newline_not_mem_lines d) h
  have hline : ∀ line ∈ lines, ∃ x ∈ Diff.lines d, writeText line = x.render := fun line hline => by
    obtain ⟨x, hx, heq⟩ := List.mem_map.mp (hlines ▸ List.mem_map_of_mem hline)
    exact ⟨x, hx, heq.symm⟩
  have hfree : ∀ line ∈ lines, '\n' ∉ line := fun line hmem => by
    obtain ⟨x, -, heq⟩ := hline line hmem
    rw [← asciiByte_mem_writeText_iff (by decide), heq]
    exact newline_not_mem_render x
  have hfit : ∀ line ∈ lines, Fit line := fun line hmem => by
    obtain ⟨x, -, heq⟩ := hline line hmem
    exact fit_of_render heq
  rw [remapText_unlines hfree hfit, writeText_unlines, Diff.render, Diff.lines_map,
    ← map_remapLine_iff hlines, hnewline]
  refine unlines_inj (fun line hmem => ?_) ?_
  · simp only [List.map_map, List.mem_map] at hmem
    obtain ⟨line', hline', rfl⟩ := hmem
    rw [Function.comp_apply, ← hnewline, asciiByte_mem_writeText_iff (by decide)]
    exact fun h => hfree line' hline' (mem_of_mem_remapLine (by decide) h)
  · rw [← Diff.lines_map]
    exact newline_not_mem_lines _

theorem remappable_iff (d : Diff) : Remappable d ↔
    ((∃ s, decodeUtf8 (Diff.render d) = some s) ∧ 0x0d ∉ Diff.render d) ∧
      ∀ x ∈ Diff.lines d, Handled x := by
  have hlines : (∀ x ∈ Diff.lines d, Handled x) ↔ ∀ patch ∈ d, ∀ x ∈ patch.lines, Handled x := by
    rw [Diff.lines, List.forall_mem_flatMap]
  simp only [hlines, handled_lines_iff]
  exact ⟨fun h => ⟨⟨h.text, h.lineEnds⟩, fun patch hp => ⟨h.paths patch hp, h.hunks patch hp⟩⟩,
    fun h => ⟨h.1.1, h.1.2, fun patch hp => (h.2 patch hp).1, fun patch hp => (h.2 patch hp).2⟩⟩

/-- What is left of a diff that is read: its text, where it holds no carriage return. -/
theorem remap_of_decode {d : Diff} {s : String} (h : decodeUtf8 (Diff.render d) = some s) :
    writeText s.toList = Diff.render d ∧
      remap (Diff.render d) = .ok (writeText (remapText (universalNewlines s.toList))) ∧
      (0x0d ∉ Diff.render d → universalNewlines s.toList = s.toList) := by
  have hbytes : writeText s.toList = Diff.render d := by
    rw [writeText_toList, encodeUtf8_of_decodeUtf8 h]
  refine ⟨hbytes, ?_, fun hcr => universalNewlines_eq_self fun hmem => hcr ?_⟩
  · rw [← hbytes, remap, readText_writeText_eq]
    rfl
  · have hreturn : asciiByte '\r' = 0x0d := by decide
    rwa [← hreturn, ← hbytes, asciiByte_mem_writeText_iff (by decide)]

/-- **The remapped diff** is the diff with the paths of the redist archive exactly for the diffs the
step is right for. -/
theorem remap_render_iff (d : Diff) :
    remap (Diff.render d) = .ok (Diff.render (Diff.map toRedist d)) ↔ Remappable d := by
  rw [remappable_iff]
  constructor
  · intro h
    obtain ⟨text, hread, hwrite⟩ := bind_eq_ok_iff.mp h
    obtain ⟨s, hs, -⟩ := bind_eq_ok_iff.mp hread
    have hdecode := orRaise_eq_ok_iff.mp hs
    obtain ⟨hbytes, hremap, hself⟩ := remap_of_decode hdecode
    rw [hremap, Except.ok.injEq] at h
    -- A carriage return would be in the diff that is wanted, and not in the one that is written.
    have hcr : 0x0d ∉ Diff.render d := fun hmem => by
      have hreturn : asciiByte '\r' = 0x0d := by decide
      rw [← return_mem_render_map_iff toRedist, ← h, ← hreturn,
        asciiByte_mem_writeText_iff (by decide)] at hmem
      exact return_not_mem_universalNewlines _ (mem_of_mem_remapText (by decide) hmem)
    rw [hself hcr, writeText_remapText_iff hbytes] at h
    exact ⟨⟨⟨s, hdecode⟩, hcr⟩, h⟩
  · rintro ⟨⟨⟨s, hdecode⟩, hcr⟩, h⟩
    obtain ⟨hbytes, hremap, hself⟩ := remap_of_decode hdecode
    rw [hremap, hself hcr, (writeText_remapText_iff hbytes).mpr h]

/-! ### A file that moved -/

/-- A file under `src/` that got another name. -/
def renamedFile : FilePatch where
  change := .moved .rename ⟨encodeUtf8 "src/a.c", by decide, by decide⟩
    ⟨encodeUtf8 "src/b.c", by decide, by decide⟩
    ⟨encodeUtf8 "100%", by decide⟩
  modes := none
  index := none
  hunks := []

/-- The `rename` lines are not remapped. -/
theorem renamed_not_remapped :
    ¬ ∀ d : Diff, remap (Diff.render d) = .ok (Diff.render (Diff.map toRedist d)) := by
  intro h
  have heq := h [renamedFile]
  revert heq
  decide +kernel

end TalosP2P.Nvidia
