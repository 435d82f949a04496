import TalosP2P.Support.LineSub

/-!
# Nvidia — Remap

The step of `nvidia-modules-p2p/kernel/lts/pkg.yaml` that turns `p2p.diff`, with the paths of the GitHub
tree, into `p2p-redist.diff`, with those of the redist archive: four times `re.sub`, on the text of the
whole diff.

* `remapLine_git`, `remapLine_old`, `remapLine_new`, `remapLine_eq_self`: what becomes of one line.
* `remapText_unlines`: on the lines of a diff, each of the four works on one line at a time.
-/

namespace TalosP2P.Nvidia

open Python LineSub

/-- `src/`. -/
def src : Text := "src/".toList

/-- `src/kernel-module-source/src/`. -/
def redistSrc : Text := "src/kernel-module-source/src/".toList

/-- `^(…)src/`, and what replaces it, where the group is a plain text. -/
def sub (group : Text) : Pattern Char := fun s =>
  if group ++ src <+: s then some (group ++ redistSrc, (group ++ src).length) else none

/-- `diff --git a/`. -/
def gitHead : Text := "diff --git a/".toList

/-- `^(diff --git a/[^ ]+ b/)src/`, and what replaces it.  A word without spaces that a space follows
goes up to the first one; it may go over the end of a line. -/
def subTarget : Pattern Char := fun s =>
  let word := (s.drop gitHead.length).takeWhile (· ≠ ' ')
  let group := gitHead ++ (word ++ " b/".toList)
  if gitHead <+: s ∧ word ≠ [] ∧ group ++ src <+: s then
    some (group ++ redistSrc, (group ++ src).length)
  else none

def remapText (text : Text) : Text :=
  let text := substitute '\n' (sub gitHead) true 0 text
  let text := substitute '\n' subTarget true 0 text
  let text := substitute '\n' (sub "--- a/".toList) true 0 text
  substitute '\n' (sub "+++ b/".toList) true 0 text

/-- What the step writes to `p2p-redist.diff`. -/
def remap (diff : Bytes) : Except Exc Bytes := do
  let text ← readText diff
  return writeText (remapText text)

/-! ### One line -/

/-- What becomes of a line. -/
def remapLine (line : Text) : Text :=
  onLine (sub "+++ b/".toList) (onLine (sub "--- a/".toList)
    (onLine subTarget (onLine (sub gitHead) line)))

theorem onLine_sub_eq_self {group line : Text} (h : ¬ group ++ src <+: line) :
    onLine (sub group) line = line :=
  onLine_of_none (if_neg h)

theorem onLine_sub_append (group rest : Text) :
    onLine (sub group) (group ++ (src ++ rest)) = group ++ (redistSrc ++ rest) := by
  rw [← List.append_assoc group src, onLine_of_some (if_pos (List.prefix_append _ _)), List.drop_left,
    List.append_assoc]

theorem onLine_subTarget_eq_self {line : Text} (h : ¬ gitHead <+: line) :
    onLine subTarget line = line :=
  onLine_of_none (if_neg fun hand => h hand.1)

theorem spaceB : " b/".toList = ' ' :: "b/".toList := by decide

/-- On the line, the first space ends the first path. -/
theorem subTarget_append {word : Text} (hne : word ≠ []) (hword : ' ' ∉ word) (rest : Text) :
    subTarget (gitHead ++ (word ++ ' ' :: rest)) =
      if "b/".toList ++ src <+: rest then
        some (gitHead ++ (word ++ " b/".toList) ++ redistSrc,
          (gitHead ++ (word ++ " b/".toList) ++ src).length)
      else none := by
  have htake : ((gitHead ++ (word ++ ' ' :: rest)).drop gitHead.length).takeWhile (· ≠ ' ') = word := by
    have hall : ∀ c ∈ word, decide (c ≠ ' ') = true := fun c hc =>
      decide_eq_true fun heq => hword (heq ▸ hc)
    rw [List.drop_left, List.takeWhile_append_of_pos hall, List.takeWhile_cons_of_neg (by simp),
      List.append_nil]
  have hprefix : gitHead ++ (word ++ " b/".toList) ++ src <+: gitHead ++ (word ++ ' ' :: rest) ↔
      "b/".toList ++ src <+: rest := by
    rw [spaceB, List.append_assoc, List.append_assoc, List.prefix_append_right_inj,
      List.prefix_append_right_inj, List.cons_append, List.cons_prefix_cons]
    simp
  simp only [subTarget, htake, hprefix]
  exact if_congr (by simp [hne]) rfl rfl

/-- A path behind `a/`, remapped. -/
def fixSource (path : Text) : Text := if src <+: path then redistSrc ++ path.drop src.length else path

/-- A path behind `b/`, remapped with it. -/
def fixTarget (target : Text) : Text :=
  if "b/".toList ++ src <+: target then
    "b/".toList ++ (redistSrc ++ target.drop ("b/".toList ++ src).length)
  else target

theorem onLine_sub_gitHead {word rest : Text} (hword : ' ' ∉ word) :
    onLine (sub gitHead) (gitHead ++ (word ++ ' ' :: rest)) = gitHead ++ (fixSource word ++ ' ' :: rest) := by
  have hsrc : ' ' ∉ src := by decide
  by_cases h : src <+: word
  · obtain ⟨path, rfl⟩ := h
    rw [fixSource, if_pos (List.prefix_append _ _), List.drop_left, List.append_assoc, onLine_sub_append,
      List.append_assoc]
  · rw [fixSource, if_neg h, onLine_sub_eq_self]
    rw [List.prefix_append_right_inj, prefix_append_cons_iff hsrc]
    exact h

theorem onLine_subTarget {word : Text} (hne : word ≠ []) (hword : ' ' ∉ word) (rest : Text) :
    onLine subTarget (gitHead ++ (word ++ ' ' :: rest)) =
      gitHead ++ (word ++ ' ' :: fixTarget rest) := by
  have hmatch := subTarget_append hne hword rest
  by_cases h : "b/".toList ++ src <+: rest
  · rw [if_pos h] at hmatch
    rw [onLine_of_some hmatch, fixTarget, if_pos h]
    obtain ⟨path, rfl⟩ := h
    have hsplit : gitHead ++ (word ++ ' ' :: ("b/".toList ++ src ++ path)) =
        (gitHead ++ (word ++ " b/".toList) ++ src) ++ path := by
      simp [spaceB]
    rw [hsplit, List.drop_left, List.drop_left, spaceB]
    simp
  · rw [if_neg h] at hmatch
    rw [onLine_of_none hmatch, fixTarget, if_neg h]

theorem fixSource_spec {word : Text} (hne : word ≠ []) (hword : ' ' ∉ word) :
    fixSource word ≠ [] ∧ ' ' ∉ fixSource word := by
  rw [fixSource]
  split
  · refine ⟨List.append_ne_nil_of_left_ne_nil (by decide) _, fun h => ?_⟩
    have hredist : ' ' ∉ redistSrc := by decide
    exact (List.mem_append.mp h).elim hredist fun h => hword (List.mem_of_mem_drop h)
  · exact ⟨hne, hword⟩

/-- A line that begins with another character is not one a pattern with this group is for. -/
theorem not_sub_prefix {c d : Char} {group rest : Text} (h : c ≠ d) : ¬ c :: group ++ src <+: d :: rest :=
  fun hp => h (List.cons_prefix_cons.mp hp).1

theorem remapLine_git {word : Text} (hne : word ≠ []) (hword : ' ' ∉ word) (rest : Text) :
    remapLine (gitHead ++ (word ++ ' ' :: rest)) =
      gitHead ++ (fixSource word ++ ' ' :: fixTarget rest) := by
  obtain ⟨hne', hword'⟩ := fixSource_spec hne hword
  rw [remapLine, onLine_sub_gitHead hword, onLine_subTarget hne' hword', onLine_sub_eq_self,
    onLine_sub_eq_self]
  · exact not_sub_prefix (by decide)
  · exact not_sub_prefix (by decide)

theorem remapLine_eq_self {line : Text} (hgit : ¬ gitHead <+: line)
    (hold : ¬ "--- a/".toList ++ src <+: line) (hnew : ¬ "+++ b/".toList ++ src <+: line) :
    remapLine line = line := by
  rw [remapLine, onLine_sub_eq_self fun h => hgit ((List.prefix_append _ _).trans h),
    onLine_subTarget_eq_self hgit, onLine_sub_eq_self hold, onLine_sub_eq_self hnew]

theorem remapLine_old (path : Text) :
    remapLine ("--- a/".toList ++ path) = "--- a/".toList ++ fixSource path := by
  have hgit : ∀ {rest}, ¬ gitHead <+: "--- a/".toList ++ rest := fun h =>
    absurd (List.cons_prefix_cons.mp h).1 (by decide)
  have hnew : ∀ {rest}, ¬ "+++ b/".toList ++ src <+: "--- a/".toList ++ rest :=
    not_sub_prefix (by decide)
  by_cases h : src <+: path
  · obtain ⟨rest, rfl⟩ := h
    rw [remapLine, onLine_sub_eq_self fun h => hgit ((List.prefix_append _ _).trans h),
      onLine_subTarget_eq_self hgit, onLine_sub_append, onLine_sub_eq_self hnew, fixSource,
      if_pos (List.prefix_append _ _), List.drop_left]
  · rw [fixSource, if_neg h, remapLine_eq_self hgit _ hnew]
    rwa [List.prefix_append_right_inj]

theorem remapLine_new (path : Text) :
    remapLine ("+++ b/".toList ++ path) = "+++ b/".toList ++ fixSource path := by
  have hgit : ∀ {rest}, ¬ gitHead <+: "+++ b/".toList ++ rest := fun h =>
    absurd (List.cons_prefix_cons.mp h).1 (by decide)
  have hold : ∀ {rest}, ¬ "--- a/".toList ++ src <+: "+++ b/".toList ++ rest :=
    not_sub_prefix (by decide)
  by_cases h : src <+: path
  · obtain ⟨rest, rfl⟩ := h
    rw [remapLine, onLine_sub_eq_self fun h => hgit ((List.prefix_append _ _).trans h),
      onLine_subTarget_eq_self hgit, onLine_sub_eq_self hold, onLine_sub_append, fixSource,
      if_pos (List.prefix_append _ _), List.drop_left]
  · rw [fixSource, if_neg h, remapLine_eq_self hgit hold]
    rwa [List.prefix_append_right_inj]

/-! ### All lines -/

/-- A line that, if it begins like a `diff --git` line, goes on like one. -/
def Fit (line : Text) : Prop :=
  gitHead <+: line → ∃ word rest, line = gitHead ++ (word ++ ' ' :: rest) ∧ word ≠ [] ∧ ' ' ∉ word

theorem inLine_sub {group : Text} (hgroup : '\n' ∉ group) (line : Text) :
    InLine '\n' (sub group) line := by
  have hnewline : '\n' ∉ group ++ src := fun h =>
    (List.mem_append.mp h).elim hgroup (by decide)
  refine ⟨fun rest => if_congr (prefix_append_cons_iff hnewline rest) rfl rfl, fun h => ?_⟩
  rw [sub] at h
  split at h
  · rename_i hp
    obtain ⟨-, rfl⟩ := Prod.mk.inj (Option.some.inj h)
    have hlen : src.length = 4 := by decide
    exact ⟨by rw [List.length_append]; omega, hp.length_le⟩
  · cases h

theorem inLine_subTarget {line : Text} (hfit : Fit line) : InLine '\n' subTarget line := by
  have hnewline : '\n' ∉ gitHead := by decide
  by_cases hp : gitHead <+: line
  · obtain ⟨word, rest, rfl, hne, hword⟩ := hfit hp
    have hsrc : '\n' ∉ "b/".toList ++ src := by decide
    refine ⟨fun rest' => ?_, fun h => ?_⟩
    · have happend : gitHead ++ (word ++ ' ' :: rest) ++ '\n' :: rest' =
          gitHead ++ (word ++ ' ' :: (rest ++ '\n' :: rest')) := by simp
      rw [happend, subTarget_append hne hword, subTarget_append hne hword]
      exact if_congr (prefix_append_cons_iff hsrc rest') rfl rfl
    · rw [subTarget_append hne hword] at h
      split at h
      · rename_i htarget
        obtain ⟨-, rfl⟩ := Prod.mk.inj (Option.some.inj h)
        have hle := htarget.length_le
        simp only [spaceB, List.length_append, List.length_cons] at hle ⊢
        omega
      · cases h
  · refine ⟨fun rest => ?_, fun h => ?_⟩
    · rw [subTarget, subTarget, if_neg fun h => hp ((prefix_append_cons_iff hnewline rest).mp h.1),
        if_neg fun h => hp h.1]
    · rw [subTarget, if_neg fun h => hp h.1] at h
      cases h

theorem mem_of_sub {c : Char} (hc : c ∉ redistSrc) (group : Text) :
    ∀ s r n, sub group s = some (r, n) → c ∈ r → c ∈ s := by
  intro s r n h hr
  rw [sub] at h
  split at h
  · rename_i hp
    obtain ⟨rfl, -⟩ := Prod.mk.inj (Option.some.inj h)
    exact hp.subset (List.mem_append_left _ ((List.mem_append.mp hr).resolve_right hc))
  · cases h

theorem mem_of_subTarget {c : Char} (hc : c ∉ redistSrc) :
    ∀ s r n, subTarget s = some (r, n) → c ∈ r → c ∈ s := by
  intro s r n h hr
  rw [subTarget] at h
  split at h
  · rename_i hp
    obtain ⟨rfl, -⟩ := Prod.mk.inj (Option.some.inj h)
    exact hp.2.2.subset (List.mem_append_left _ ((List.mem_append.mp hr).resolve_right hc))
  · cases h

theorem mem_of_mem_remapText {c : Char} (hc : c ∉ redistSrc) {text : Text} (h : c ∈ remapText text) :
    c ∈ text :=
  mem_substitute (mem_of_sub hc _) (mem_substitute (mem_of_subTarget hc)
    (mem_substitute (mem_of_sub hc _) (mem_substitute (mem_of_sub hc _) h)))

theorem mem_of_mem_remapLine {c : Char} (hc : c ∉ redistSrc) {line : Text} (h : c ∈ remapLine line) :
    c ∈ line :=
  mem_onLine (mem_of_sub hc _) (mem_onLine (mem_of_subTarget hc)
    (mem_onLine (mem_of_sub hc _) (mem_onLine (mem_of_sub hc _) h)))

theorem fit_onLine_sub {line : Text} (hfit : Fit line) : Fit (onLine (sub gitHead) line) := by
  by_cases hp : gitHead <+: line
  · obtain ⟨word, rest, rfl, hne, hword⟩ := hfit hp
    obtain ⟨hne', hword'⟩ := fixSource_spec hne hword
    rw [onLine_sub_gitHead hword]
    exact fun _ => ⟨fixSource word, rest, rfl, hne', hword'⟩
  · rwa [onLine_sub_eq_self fun h => hp ((List.prefix_append _ _).trans h)]

/-- **The four substitutions** work on the lines of a diff one by one. -/
theorem remapText_unlines {lines : List Text} (hlines : ∀ line ∈ lines, '\n' ∉ line)
    (hfit : ∀ line ∈ lines, Fit line) :
    remapText (unlines '\n' lines) = unlines '\n' (lines.map remapLine) := by
  have hnewline : '\n' ∉ redistSrc := by decide
  have hmap : ∀ {ls : List Text} {m : Pattern Char}, (∀ line ∈ ls, '\n' ∉ line) →
      (∀ s r n, m s = some (r, n) → '\n' ∈ r → '\n' ∈ s) → ∀ line ∈ ls.map (onLine m), '\n' ∉ line := by
    intro ls m hls hm line hline hmem
    obtain ⟨line', hline', rfl⟩ := List.mem_map.mp hline
    exact hls line' hline' (mem_onLine hm hmem)
  have h₁ := hmap hlines (mem_of_sub hnewline gitHead)
  have h₂ := hmap h₁ (mem_of_subTarget hnewline)
  have h₃ := hmap h₂ (mem_of_sub hnewline "--- a/".toList)
  have hfit₁ : ∀ line ∈ lines.map (onLine (sub gitHead)), Fit line := fun line hline => by
    obtain ⟨line', hline', rfl⟩ := List.mem_map.mp hline
    exact fit_onLine_sub (hfit line' hline')
  rw [remapText, substitute_unlines hlines fun line _ => inLine_sub (by decide) line,
    substitute_unlines h₁ fun line hline => inLine_subTarget (hfit₁ line hline),
    substitute_unlines h₂ fun line _ => inLine_sub (by decide) line,
    substitute_unlines h₃ fun line _ => inLine_sub (by decide) line, List.map_map, List.map_map,
    List.map_map]
  rfl

end TalosP2P.Nvidia
