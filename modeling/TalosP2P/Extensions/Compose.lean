import Mathlib.Data.List.Infix
import TalosP2P.Support.Shell

/-!
# Extensions — Compose

The composition loop of `build-installer.sh`: the pinned sysext first, the extras of
`EXTRA_SYSTEM_EXTENSION_IMAGES` and `EXTRA_SYSTEM_EXTENSION_IMAGE` in their order, the pinned
toolkit last.  An extra that is a pinned reference is skipped; the official driver stops the build.

* `foldlM_compose`: the loop from any list.
* `composition_law`: the list the imager is given, or the failure, for every environment.
-/

namespace TalosP2P.Extensions

open Shell

/-- `extra_system_extension_refs`: the list variable read piece by piece, and the single one
appended whole. -/
def extraSystemExtensionRefs (images image : Word) : Except Failure (List Word) := do
  let refs ← if images ≠ [] then readLines (tr ',' '\n' images) else .ok []
  return if image ≠ [] then refs ++ [image] else refs

def driverPattern : Word := "nvidia-open-gpu-kernel-modules-lts".toList

def duplicateDriverSource (customSysextRef officialOpenModuleRef : Word) : Failure where
  message := "duplicate-driver-source: refusing to build with both '".toList ++ customSysextRef ++
    "' and '".toList ++ officialOpenModuleRef ++ "'".toList

/-- One turn of the composition loop: the arms of its `case` in their order. -/
def compose (customSysextRef toolkitRef officialOpenModuleRef : Word) (ordered : List Word)
    (extra : Word) : Except Failure (List Word) :=
  if extra = customSysextRef ∨ extra = toolkitRef then .ok ordered
  else if extra = officialOpenModuleRef ∨ driverPattern <:+: extra then
    .error (duplicateDriverSource customSysextRef officialOpenModuleRef)
  else .ok (ordered ++ [extra])

/-- `ordered_system_extension_refs`. -/
def orderedSystemExtensionRefs (customSysextRef toolkitRef officialOpenModuleRef images image : Word) :
    Except Failure (List Word) := do
  let extras ← extraSystemExtensionRefs images image
  let ordered ← extras.foldlM (compose customSysextRef toolkitRef officialOpenModuleRef)
    [customSysextRef]
  return ordered ++ [toolkitRef]

/-- The value the publish workflow gives `EXTRA_SYSTEM_EXTENSION_IMAGES`: `",".join(refs)`. -/
def joinRefs (refs : List Word) : Word := [','].intercalate refs

/-! ### The extras -/

/-- The pieces between commas and newlines, without the empty ones. -/
def pieces (images : Word) : List Word :=
  (images.splitOnP fun x => x = ',' ∨ x = '\n').filter (· ≠ [])

/-- The extras of an environment, in the order of the loop. -/
def extras (images image : Word) : List Word :=
  pieces images ++ if image = [] then [] else [image]

theorem extraSystemExtensionRefs_eq (images image : Word) :
    extraSystemExtensionRefs images image = .ok (extras images image) := by
  have hpieces : readLines (tr ',' '\n' images) = .ok (pieces images) := by
    rw [readLines_eq, splitOn_tr, pieces]
  by_cases hs : images = []
  · subst hs
    by_cases hi : image = [] <;>
      simp [extraSystemExtensionRefs, extras, pieces, hi]
  · by_cases hi : image = [] <;>
      simp [extraSystemExtensionRefs, extras, hpieces, hs, hi]

theorem not_mem_joinRefs {c : Char} (hc : c ≠ ',') {refs : List Word} (h : ∀ r ∈ refs, c ∉ r) :
    c ∉ joinRefs refs := by
  induction refs with
  | nil => simp [joinRefs]
  | cons r refs ih =>
      have hr := h r List.mem_cons_self
      have hih := ih fun r' h' => h r' (List.mem_cons_of_mem _ h')
      cases refs with
      | nil => simpa [joinRefs] using hr
      | cons r' refs =>
          rw [joinRefs, List.intercalate_cons_cons, ← joinRefs]
          simp [hr, hc, hih]

/-- What the workflow joins is what the script splits. -/
theorem pieces_joinRefs {refs : List Word} (h : ∀ r ∈ refs, r ≠ [] ∧ ',' ∉ r ∧ '\n' ∉ r) :
    pieces (joinRefs refs) = refs := by
  have hnl : ∀ s : Word, '\n' ∉ s →
      (s.splitOnP fun x => x = ',' ∨ x = '\n') = s.splitOn ',' := by
    intro s hs
    induction s with
    | nil => rfl
    | cons x s ih =>
        obtain ⟨hx, hs⟩ := not_or.mp (mt List.mem_cons.mpr hs)
        rw [List.splitOnP_cons_eq_if_modifyHead, List.splitOn_cons_eq_if_modifyHead, ih hs]
        have hx' : x ≠ '\n' := fun h => hx h.symm
        simp [hx']
  have hjoin : '\n' ∉ joinRefs refs := not_mem_joinRefs (by decide) fun r hr => (h r hr).2.2
  rw [pieces, hnl _ hjoin]
  by_cases hrefs : refs = []
  · subst hrefs; rfl
  · rw [joinRefs, List.splitOn_intercalate ',' (fun r hr => (h r hr).2.1) hrefs,
      List.filter_eq_self.mpr fun r hr => by simpa using (h r hr).1]

/-! ### The loop -/

/-- An extra the loop does not skip. -/
def Kept (custom toolkit extra : Word) : Prop := extra ≠ custom ∧ extra ≠ toolkit

instance (custom toolkit : Word) : DecidablePred (Kept custom toolkit) :=
  fun _ => inferInstanceAs (Decidable (_ ∧ _))

/-- A reference of the official driver. -/
def OfficialDriver (official extra : Word) : Prop := extra = official ∨ driverPattern <:+: extra

instance (official : Word) : DecidablePred (OfficialDriver official) :=
  fun _ => inferInstanceAs (Decidable (_ ∨ _))

section Loop

variable {custom toolkit official : Word}

theorem compose_eq (ordered : List Word) (extra : Word) :
    compose custom toolkit official ordered extra =
      if Kept custom toolkit extra then
        if OfficialDriver official extra then .error (duplicateDriverSource custom official)
        else .ok (ordered ++ [extra])
      else .ok ordered := by
  by_cases hk : Kept custom toolkit extra
  · rw [compose, if_neg (not_or.mpr hk), if_pos hk]
    rfl
  · rw [compose, if_pos, if_neg hk]
    simp only [Kept, not_and_or, not_not] at hk
    exact hk

/-- The loop from any list: it stops at the first kept reference of the driver, else it appends the
kept extras. -/
theorem foldlM_compose (es ordered : List Word) :
    es.foldlM (compose custom toolkit official) ordered =
      if ∃ r ∈ es, Kept custom toolkit r ∧ OfficialDriver official r then
        .error (duplicateDriverSource custom official)
      else .ok (ordered ++ es.filter (Kept custom toolkit)) := by
  induction es generalizing ordered with
  | nil => simp [pure, Except.pure]
  | cons e es ih =>
      rw [List.foldlM_cons, compose_eq]
      by_cases hk : Kept custom toolkit e
      · by_cases hd : OfficialDriver official e
        · simp [hk, hd, bind, Except.bind]
        · simp [hk, hd, bind, Except.bind, ih]
      · simp [hk, bind, Except.bind, ih]

end Loop

/-- What the composition yields, for every environment. -/
theorem orderedSystemExtensionRefs_eq (custom toolkit official images image : Word) :
    orderedSystemExtensionRefs custom toolkit official images image =
      if ∃ r ∈ extras images image, Kept custom toolkit r ∧ OfficialDriver official r then
        .error (duplicateDriverSource custom official)
      else .ok (custom :: (extras images image).filter (Kept custom toolkit) ++ [toolkit]) := by
  rw [orderedSystemExtensionRefs, extraSystemExtensionRefs_eq]
  simp only [bind, Except.bind, foldlM_compose]
  by_cases hbad : ∃ r ∈ extras images image, Kept custom toolkit r ∧ OfficialDriver official r
  · rw [if_pos hbad, if_pos hbad]
  · rw [if_neg hbad, if_neg hbad]
    rfl

/-- **The composition law.**  The composition stops exactly when a kept extra is the official
driver; otherwise its list is the custom sysext, the kept extras in their order, and the toolkit,
and the pinned references occur once each.  What the workflow joins is split back. -/
theorem composition_law {custom toolkit : Word} (h : custom ≠ toolkit)
    (official images image : Word) :
    let kept := (extras images image).filter (Kept custom toolkit)
    let result := orderedSystemExtensionRefs custom toolkit official images image
    (result = .error (duplicateDriverSource custom official) ↔ ∃ r ∈ kept, OfficialDriver official r) ∧
    (result = .ok (custom :: kept ++ [toolkit]) ↔ ¬ ∃ r ∈ kept, OfficialDriver official r) ∧
    (custom :: kept ++ [toolkit]).count custom = 1 ∧
    (custom :: kept ++ [toolkit]).count toolkit = 1 ∧
    ∀ refs, (∀ r ∈ refs, r ≠ [] ∧ ',' ∉ r ∧ '\n' ∉ r) →
      extraSystemExtensionRefs (joinRefs refs) [] = .ok refs := by
  intro kept result
  have hkept : ∀ r ∈ kept, Kept custom toolkit r := fun r hr => by
    simpa using (List.mem_filter.mp hr).2
  have hbad : (∃ r ∈ kept, OfficialDriver official r) ↔
      ∃ r ∈ extras images image, Kept custom toolkit r ∧ OfficialDriver official r := by
    simp [kept, and_assoc]
  have hresult := orderedSystemExtensionRefs_eq custom toolkit official images image
  refine ⟨?_, ?_, ?_, ?_, fun refs hrefs => ?_⟩
  · rw [hbad]
    simp only [result, hresult]
    split <;> simp_all
  · rw [hbad]
    simp only [result, hresult]
    split <;> simp_all [kept]
  · have hcustom : custom ∉ kept := fun hmem => (hkept _ hmem).1 rfl
    simp [List.count_eq_zero.mpr hcustom, h.symm]
  · have htoolkit : toolkit ∉ kept := fun hmem => (hkept _ hmem).2 rfl
    simp [List.count_eq_zero.mpr htoolkit, h]
  · rw [extraSystemExtensionRefs_eq, extras, pieces_joinRefs hrefs, if_pos rfl, List.append_nil]

theorem composition_law_glibc :
    orderedSystemExtensionRefs "ghcr.io/p2p@sha256:0".toList "ghcr.io/toolkit:1@sha256:1".toList
        "ghcr.io/open@sha256:2".toList
        "ghcr.io/glibc:2,,ghcr.io/p2p@sha256:0\nghcr.io/btrfs:3,".toList [] =
      .ok ["ghcr.io/p2p@sha256:0".toList, "ghcr.io/glibc:2".toList, "ghcr.io/btrfs:3".toList,
        "ghcr.io/toolkit:1@sha256:1".toList] := by
  have hkept : (extras "ghcr.io/glibc:2,,ghcr.io/p2p@sha256:0\nghcr.io/btrfs:3,".toList []).filter
      (Kept "ghcr.io/p2p@sha256:0".toList "ghcr.io/toolkit:1@sha256:1".toList) =
        ["ghcr.io/glibc:2".toList, "ghcr.io/btrfs:3".toList] := by
    decide +kernel
  have hne : "ghcr.io/p2p@sha256:0".toList ≠ "ghcr.io/toolkit:1@sha256:1".toList := by decide
  have h := (composition_law hne "ghcr.io/open@sha256:2".toList
    "ghcr.io/glibc:2,,ghcr.io/p2p@sha256:0\nghcr.io/btrfs:3,".toList []).2.1
  rw [hkept] at h
  exact h.mpr (by decide +kernel)

end TalosP2P.Extensions
