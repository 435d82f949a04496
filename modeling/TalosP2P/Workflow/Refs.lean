import TalosP2P.Workflow.Sanitize

/-!
# Workflow — Refs

The refs of the images that `derive-publish-refs` puts into the environment of a publish run: a
namespace, the name of the image and the release tag.

* `derive`: the step, up to the release tag.
* `imageRef_inj`: refs are equal only where namespace, image and tag are.
-/

namespace TalosP2P.Workflow

open Python

/-- What the refs of a run depend on. -/
structure Inputs where
  /-- `PUBLISH_NAMESPACE`. -/
  publishNamespace : Text
  /-- `INPUT_IMAGE_TAG`, empty where the run was not given one. -/
  imageTag : Text
  /-- `INPUT_BUILD_TAG`, empty likewise. -/
  buildTag : Text
  /-- `targetTalosVersion` of the release matrix. -/
  talosVersion : Text
  /-- `nvidia.upstreamOpenModuleTag`. -/
  driverVersion : Text
  arch : Text
  /-- `git rev-parse --short=12 HEAD`. -/
  shortSha : Text
  /-- `github.ref_name`, the branch the run is of. -/
  refName : Text

/-- `publish_namespace`. -/
def Inputs.namespace (i : Inputs) : Text := (strip i.publishNamespace).rdropWhile (· = '/')

/-- `release_tag`. -/
def Inputs.releaseTag (i : Inputs) : Except Exc Text :=
  sanitize (if i.imageTag = [] then
    strip i.talosVersion ++ "-nvidia-".toList ++ strip i.driverVersion ++ "-g".toList ++
      strip i.shortSha
  else i.imageTag)

/-- `build_tag`, which is handed to `make` and names no image. -/
def Inputs.cleanedBuildTag (i : Inputs) : Except Exc Text :=
  sanitize (if i.buildTag = [] then strip i.talosVersion ++ "-g".toList ++ strip i.shortSha
    else i.buildTag)

/-- `derive-publish-refs`: `RELEASE_TAG`, where the step does not abort. -/
def derive (i : Inputs) : Except Exc Text := do
  let releaseTag ← i.releaseTag
  let _ ← i.cleanedBuildTag
  if strip i.arch ≠ "amd64".toList ∧ strip i.arch ≠ "arm64".toList then
    throw (.systemExit ("unsupported release-matrix arch for CI workflow: " ++
      String.ofList (strip i.arch)))
  return releaseTag

/-- The images of a run. -/
inductive Kind where
  | kernel
  | installerBase
  | p2pPkg
  | p2pSysext
  | installer
  deriving DecidableEq, Repr

def Kind.name : Kind → Text
  | .kernel => "kernel".toList
  | .installerBase => "installer-base".toList
  | .p2pPkg => "nvidia-modules-p2p-lts-pkg".toList
  | .p2pSysext => "nvidia-modules-p2p-lts".toList
  | .installer => "nvidia-open-gpu-kernel-modules-p2p-installer".toList

/-- `KERNEL_IMAGE`, `INSTALLER_BASE_IMAGE`, `P2P_PKG_IMAGE`, `P2P_SYSEXT_IMAGE` and
`INSTALLER_IMAGE`. -/
def imageRef (publishNamespace : Text) (kind : Kind) (tag : Text) : Text :=
  publishNamespace ++ '/' :: kind.name ++ ':' :: tag

/-- What stands before and behind the last separator. -/
theorem append_cons_inj_of_last {α : Type*} {a a' b b' : List α} {x : α} (hb : x ∉ b) (hb' : x ∉ b')
    (h : a ++ x :: b = a' ++ x :: b') : a = a' ∧ b = b' := by
  rcases List.append_eq_append_iff.mp h with ⟨c, rfl, hc⟩ | ⟨c, rfl, hc⟩
  · cases c with
    | nil => exact ⟨(List.append_nil _).symm, (List.cons.inj hc).2⟩
    | cons y c =>
        refine absurd ?_ hb
        rw [(List.cons.inj hc).2]
        simp
  · cases c with
    | nil => exact ⟨List.append_nil _, (List.cons.inj hc).2.symm⟩
    | cons y c =>
        refine absurd ?_ hb'
        rw [(List.cons.inj hc).2]
        simp

theorem slash_not_mem_name (kind : Kind) : '/' ∉ kind.name := by
  cases kind <;> decide

theorem name_injective {kind kind' : Kind} (h : kind.name = kind'.name) : kind = kind' := by
  revert h
  cases kind <;> cases kind' <;> decide

/-- **Refs are told apart** by their three parts, whatever the namespace. -/
theorem imageRef_inj {ns ns' : Text} {kind kind' : Kind} {tag tag' : Text} (htag : ':' ∉ tag)
    (htag' : ':' ∉ tag') (h : imageRef ns kind tag = imageRef ns' kind' tag') :
    ns = ns' ∧ kind = kind' ∧ tag = tag' := by
  obtain ⟨hfront, rfl⟩ := append_cons_inj_of_last htag htag' h
  obtain ⟨rfl, hname⟩ := append_cons_inj_of_last (slash_not_mem_name kind)
    (slash_not_mem_name kind') hfront
  exact ⟨rfl, name_injective hname, rfl⟩

/-- A release tag holds no colon. -/
theorem colon_not_mem_of_derive {i : Inputs} {tag : Text} (h : derive i = .ok tag) : ':' ∉ tag := by
  obtain ⟨releaseTag, hrelease, h⟩ := bind_eq_ok_iff.mp h
  obtain ⟨_, -, h⟩ := bind_eq_ok_iff.mp h
  have heq : releaseTag = tag := by
    split at h
    · cases h
    · exact Except.ok.inj h
  intro hc
  have htag := (tag_of_sanitize hrelease).chars ':' (heq ▸ hc)
  revert htag
  decide

end TalosP2P.Workflow
