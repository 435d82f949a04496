import Mathlib.Logic.Function.Basic
import TalosP2P.Support.History
import TalosP2P.Workflow.Refs

/-!
# Workflow — Publish

Any number of runs of the publish workflow over one registry.  Each run has a daemon of its own; what
they share is the registry, where a tag names what was pushed to it last.  The steps of a run come in
their order, those of different runs in any, and a run may be stopped between any two.  The
`concurrency` of the workflow lets one run of a branch be in progress at a time.

A digest names one image for good, so an image stands for its digest.  The steps that touch neither
the registry nor the images of the run can only stop it, and are left out.

* `act`: what a step does.
* `act_own`: what a run does that finds its own images where it looks for them.
* `isolated_iff`: when every run finds them, in any order.
-/

namespace TalosP2P.Workflow

open Python History

/-- An image, with the run that built it and the runs whose signing keys are on its parts. -/
inductive Image (Run : Type*) where
  | kernel (builder : Run)
  /-- The base has the kernel of a kernel image, and its modules. -/
  | installerBase (builder kernel : Run)
  | p2pPkg (builder : Run)
  | p2pSysext (builder pkg : Run)
  /-- `vmlinuz` comes from the base of the daemon, `initramfs.xz` from that of the registry. -/
  | installer (builder kernel modules sysext : Run)
  deriving DecidableEq, Repr

inductive WorkflowStep where
  | derivePublishRefs
  | build (kind : Kind)
  | push (kind : Kind)
  | verifySharedModuleSigningKey
  | resolveDigest (kind : Kind)
  | verifyFinalInstaller
  deriving DecidableEq, Repr

/-- The steps of a run, in their order. -/
def steps : List WorkflowStep :=
  [.derivePublishRefs, .build .kernel, .push .kernel, .build .installerBase, .push .installerBase,
    .build .p2pPkg, .push .p2pPkg, .verifySharedModuleSigningKey, .build .p2pSysext,
    .push .p2pSysext, .resolveDigest .kernel, .resolveDigest .installerBase, .resolveDigest .p2pPkg,
    .resolveDigest .p2pSysext, .build .installer, .push .installer, .resolveDigest .installer,
    .verifyFinalInstaller]

inductive Status where
  | pending
  | inProgress
  | completed
  deriving DecidableEq, Repr

variable {Run : Type*}

/-- A run: how far it is, its environment and its daemon. -/
structure Job (Run : Type*) where
  status : Status
  /-- The number of the steps behind it. -/
  pc : Nat
  /-- `RELEASE_TAG`. -/
  releaseTag : Text
  /-- The images of the daemon. -/
  images : Kind → Option (Image Run)
  /-- `KERNEL_DIGEST` and the others. -/
  digests : Kind → Option (Image Run)

abbrev Registry (Run : Type*) := Text → Option (Image Run)

structure State (Run : Type*) where
  registry : Registry Run
  job : Run → Job Run

def Job.start : Job Run := ⟨.pending, 0, [], fun _ => none, fun _ => none⟩

/-- Nothing has been published. -/
def start : State Run := ⟨fun _ => none, fun _ => Job.start⟩

def Job.ref (i : Inputs) (j : Job Run) (kind : Kind) : Text := imageRef i.namespace kind j.releaseTag

/-- An image comes into the daemon. -/
def Job.load (j : Job Run) (kind : Kind) (image : Image Run) : Job Run :=
  { j with images := Function.update j.images kind (some image) }

/-- The images that a step builds.  `build-samekey-installer-base.py` pulls the kernel it takes, and
`bldr` the package; the imager takes the base and the extension from the registry, the extension by
its digest. -/
def build {Run : Type*} (i : Inputs) (run : Run) (registry : Registry Run) (j : Job Run) :
    Kind → Option (Job Run)
  | .kernel => some (j.load .kernel (.kernel run))
  | .installerBase =>
    match registry (j.ref i .kernel) with
    | some (.kernel kernel) =>
      some ((j.load .kernel (.kernel kernel)).load .installerBase (.installerBase run kernel))
    | _ => none
  | .p2pPkg => some (j.load .p2pPkg (.p2pPkg run))
  | .p2pSysext =>
    match registry (j.ref i .p2pPkg) with
    | some (.p2pPkg pkg) => some (j.load .p2pSysext (.p2pSysext run pkg))
    | _ => none
  | .installer =>
    match j.images .installerBase, registry (j.ref i .installerBase), j.digests .p2pSysext with
    | some (.installerBase _ kernel), some (.installerBase _ modules), some (.p2pSysext _ pkg) =>
      some (j.load .installer (.installer run kernel modules pkg))
    | _, _, _ => none

/-- A step of a run, where it succeeds. -/
def act {Key : Type*} [DecidableEq Key] (key : Run → Key) (i : Inputs) (run : Run)
    (registry : Registry Run) (j : Job Run) : WorkflowStep → Option (Registry Run × Job Run)
  | .derivePublishRefs =>
    match derive i with
    | .ok tag => some (registry, { j with releaseTag := tag })
    | .error _ => none
  | .build kind => (build i run registry j kind).map fun j => (registry, j)
  | .push kind =>
    (j.images kind).map fun image => (Function.update registry (j.ref i kind) (some image), j)
  | .verifySharedModuleSigningKey =>
    match j.images .kernel, j.images .p2pPkg with
    | some (.kernel kernel), some (.p2pPkg pkg) =>
      if key kernel = key pkg then some (registry, j) else none
    | _, _ => none
  | .resolveDigest kind => (registry (j.ref i kind)).map fun image =>
      (registry, { j with digests := Function.update j.digests kind (some image) })
  | .verifyFinalInstaller =>
    match j.digests .installer with
    | some (.installer ..) => some (registry, j)
    | _ => none

inductive Act (Run : Type*) where
  | start (run : Run)
  | step (run : Run)
  /-- The run fails, is cancelled, or has come to its end. -/
  | complete (run : Run)

section

variable [DecidableEq Run] {Key : Type*} [DecidableEq Key]

def State.setJob (s : State Run) (run : Run) (j : Job Run) : State Run :=
  { s with job := Function.update s.job run j }

@[simp]
theorem State.job_setJob_self (s : State Run) (run : Run) (j : Job Run) :
    (s.setJob run j).job run = j := Function.update_self ..

theorem State.job_setJob_of_ne {s : State Run} {run other : Run} {j : Job Run} (h : other ≠ run) :
    (s.setJob run j).job other = s.job other := Function.update_of_ne h ..

@[simp]
theorem State.registry_setJob (s : State Run) (run : Run) (j : Job Run) :
    (s.setJob run j).registry = s.registry := rfl

/-- One action of one run. -/
inductive Next (inputs : Run → Inputs) (key : Run → Key) (s : State Run) :
    Act Run → State Run → Prop where
  | start {run : Run} (hstatus : (s.job run).status = .pending)
      (hgroup : ∀ other, (s.job other).status = .inProgress →
        (inputs other).refName ≠ (inputs run).refName) :
      Next inputs key s (.start run) (s.setJob run { s.job run with status := .inProgress })
  | step {run : Run} {step : WorkflowStep} {registry : Registry Run} {j : Job Run}
      (hstatus : (s.job run).status = .inProgress) (hstep : steps[(s.job run).pc]? = some step)
      (hact : act key (inputs run) run s.registry (s.job run) step = some (registry, j)) :
      Next inputs key s (.step run)
        (State.setJob ⟨registry, s.job⟩ run { j with pc := (s.job run).pc + 1 })
  | complete {run : Run} (hstatus : (s.job run).status = .inProgress) :
      Next inputs key s (.complete run) (s.setJob run { s.job run with status := .completed })

end

/-! ### A run by itself -/

/-- The images of a run where nobody else has touched them. -/
def own (run : Run) : Kind → Image Run
  | .kernel => .kernel run
  | .installerBase => .installerBase run run
  | .p2pPkg => .p2pPkg run
  | .p2pSysext => .p2pSysext run run
  | .installer => .installer run run run run

/-- What a step leaves behind it where nobody else has touched it. -/
def Left (i : Inputs) (run : Run) (registry : Registry Run) (j : Job Run) : WorkflowStep → Prop
  | .derivePublishRefs => derive i = .ok j.releaseTag
  | .build kind => j.images kind = some (own run kind)
  | .push kind => registry (j.ref i kind) = some (own run kind)
  | .resolveDigest kind => j.digests kind = some (own run kind)
  | .verifySharedModuleSigningKey | .verifyFinalInstaller => True

/-- The steps a step looks back at. -/
def needs : WorkflowStep → List WorkflowStep
  | .derivePublishRefs => []
  | .build .kernel | .build .p2pPkg => [.derivePublishRefs]
  | .build .installerBase => [.derivePublishRefs, .push .kernel]
  | .build .p2pSysext => [.derivePublishRefs, .push .p2pPkg]
  | .build .installer => [.derivePublishRefs, .build .installerBase, .push .installerBase,
      .resolveDigest .p2pSysext]
  | .push kind => [.derivePublishRefs, .build kind]
  | .verifySharedModuleSigningKey => [.derivePublishRefs, .build .kernel, .build .p2pPkg]
  | .resolveDigest kind => [.derivePublishRefs, .push kind]
  | .verifyFinalInstaller => [.derivePublishRefs, .resolveDigest .installer]

/-- The order of the steps: what a step looks back at is behind it. -/
theorem needs_done {pc : Nat} {step need : WorkflowStep} (h : steps[pc]? = some step)
    (hneed : need ∈ needs step) : need ∈ steps.take pc := by
  have hall : ∀ pc : Fin steps.length, ∀ need ∈ needs steps[pc], need ∈ steps.take pc := by decide
  obtain ⟨hpc, rfl⟩ := List.getElem?_eq_some_iff.mp h
  exact hall ⟨pc, hpc⟩ need hneed

theorem mem_take_succ {pc : Nat} {step done : WorkflowStep} (h : steps[pc]? = some step) :
    done ∈ steps.take (pc + 1) ↔ done ∈ steps.take pc ∨ done = step := by
  rw [List.take_add_one, h]
  simp

theorem derive_mem_take {pc : Nat} {done : WorkflowStep} (h : done ∈ steps.take pc) :
    .derivePublishRefs ∈ steps.take pc := by
  cases pc with
  | zero => cases h
  | succ pc => exact List.mem_cons_self

theorem pc_of_derive {pc : Nat} (h : steps[pc]? = some .derivePublishRefs) : pc = 0 := by
  have hall : ∀ pc : Fin steps.length, steps[pc] = .derivePublishRefs → pc.val = 0 := by decide
  obtain ⟨hpc, heq⟩ := List.getElem?_eq_some_iff.mp h
  exact hall ⟨pc, hpc⟩ heq

section

variable {Key : Type*} [DecidableEq Key] {key : Run → Key} {i : Inputs} {run : Run}
  {registry registry' : Registry Run} {j j' : Job Run} {step done : WorkflowStep}

theorem Left.of_pc {pc : Nat} (h : Left i run registry j done) :
    Left i run registry { j with pc := pc } done := by
  cases done <;> exact h

theorem imageRef_eq_iff {ns : Text} {kind kind' : Kind} {tag : Text} (htag : ':' ∉ tag) :
    imageRef ns kind tag = imageRef ns kind' tag ↔ kind = kind' :=
  ⟨fun h => (imageRef_inj htag htag h).2.1, fun h => h ▸ rfl⟩

theorem Job.images_load (j : Job Run) (kind : Kind) (image : Image Run) :
    (j.load kind image).images kind = some image := Function.update_self ..

/-- An image that is loaded is the run's own. -/
theorem Left.load {kind : Kind} (h : Left i run registry j done) :
    Left i run registry (j.load kind (own run kind)) done := by
  cases done with
  | build kind' =>
      by_cases he : kind' = kind
      · subst he
        exact Function.update_self ..
      · exact (Function.update_of_ne he ..).trans h
  | _ => exact h

theorem act_build {kind : Kind} (h : build i run registry j kind = some j') :
    act key i run registry j (.build kind) = some (registry, j') := by
  rw [act, h]
  rfl

theorem act_push {kind : Kind} {image : Image Run} (h : j.images kind = some image) :
    act key i run registry j (.push kind) =
      some (Function.update registry (j.ref i kind) (some image), j) := by
  rw [act, h]
  rfl

theorem act_resolveDigest {kind : Kind} {image : Image Run}
    (h : registry (j.ref i kind) = some image) :
    act key i run registry j (.resolveDigest kind) = some (registry,
      { j with digests := Function.update j.digests kind (some image) }) := by
  rw [act, h]
  rfl

/-- **A run that finds its own images** where it looks for them goes on, and leaves its own images.
The registry is changed at its own refs only. -/
theorem act_own (key : Run → Key) (hleft : ∀ done ∈ steps.take j.pc, Left i run registry j done)
    (hstep : steps[j.pc]? = some step) (hderive : ∃ tag, derive i = .ok tag) :
    ∃ registry' j', act key i run registry j step = some (registry', j') ∧ j'.status = j.status ∧
      (∀ done ∈ steps.take (j.pc + 1), Left i run registry' { j' with pc := j.pc + 1 } done) ∧
      ∀ ref, (∀ kind tag, derive i = .ok tag → ref ≠ imageRef i.namespace kind tag) →
        registry' ref = registry ref := by
  have need : ∀ done, done ∈ needs step → Left i run registry j done :=
    fun _ h => hleft _ (needs_done hstep h)
  -- what was behind the run stays as it is, and the step adds its part
  have finish : ∀ {registry' : Registry Run} {j' : Job Run},
      (∀ done ∈ steps.take j.pc, Left i run registry' j' done) → Left i run registry' j' step →
      ∀ done ∈ steps.take (j.pc + 1), Left i run registry' { j' with pc := j.pc + 1 } done := by
    intro registry' j' hbefore hnow done hdone
    rcases (mem_take_succ hstep).mp hdone with hdone | rfl
    · exact (hbefore done hdone).of_pc
    · exact hnow.of_pc
  cases step with
  | derivePublishRefs =>
      obtain ⟨tag, htag⟩ := hderive
      refine ⟨registry, { j with releaseTag := tag }, by rw [act, htag], rfl, ?_, fun _ _ => rfl⟩
      refine finish ?_ htag
      rw [pc_of_derive hstep]
      simp
  | build kind =>
      -- the image is the run's own, and so is one that is pulled for it
      have built : ∀ {j₀ : Job Run}, build i run registry j kind = some (j₀.load kind (own run kind)) →
          j₀.status = j.status → (∀ done ∈ steps.take j.pc, Left i run registry j₀ done) →
          ∃ registry' j', act key i run registry j (.build kind) = some (registry', j') ∧
            j'.status = j.status ∧
            (∀ done ∈ steps.take (j.pc + 1), Left i run registry' { j' with pc := j.pc + 1 } done) ∧
            ∀ ref, (∀ kind tag, derive i = .ok tag → ref ≠ imageRef i.namespace kind tag) →
              registry' ref = registry ref := by
        intro j₀ hbuild hstatus hbefore
        exact ⟨registry, j₀.load kind (own run kind), act_build hbuild, hstatus,
          finish (fun done h => (hbefore done h).load) (Job.images_load ..), fun _ _ => rfl⟩
      cases kind with
      | kernel => exact built rfl rfl hleft
      | installerBase =>
          have hkernel : registry (j.ref i .kernel) = some (.kernel run) :=
            need (.push .kernel) (by simp [needs])
          have hbuild : build i run registry j .installerBase =
              some ((j.load .kernel (own run .kernel)).load .installerBase
                (own run .installerBase)) := by
            rw [build, hkernel]
            rfl
          exact built hbuild rfl fun done h => (hleft done h).load
      | p2pPkg => exact built rfl rfl hleft
      | p2pSysext =>
          have hpkg : registry (j.ref i .p2pPkg) = some (.p2pPkg run) :=
            need (.push .p2pPkg) (by simp [needs])
          have hbuild : build i run registry j .p2pSysext =
              some (j.load .p2pSysext (own run .p2pSysext)) := by
            rw [build, hpkg]
            rfl
          exact built hbuild rfl hleft
      | installer =>
          have hbase : j.images .installerBase = some (.installerBase run run) :=
            need (.build .installerBase) (by simp [needs])
          have hpushed : registry (j.ref i .installerBase) = some (.installerBase run run) :=
            need (.push .installerBase) (by simp [needs])
          have hsysext : j.digests .p2pSysext = some (.p2pSysext run run) :=
            need (.resolveDigest .p2pSysext) (by simp [needs])
          have hbuild : build i run registry j .installer =
              some (j.load .installer (own run .installer)) := by
            rw [build, hbase, hpushed, hsysext]
            rfl
          exact built hbuild rfl hleft
  | push kind =>
      have hderived : derive i = .ok j.releaseTag :=
        need (.derivePublishRefs) (by simp [needs])
      have himage : j.images kind = some (own run kind) :=
        need (.build kind) (by simp [needs])
      refine ⟨Function.update registry (j.ref i kind) (some (own run kind)), j, act_push himage, rfl,
        finish ?_ (Function.update_self ..), ?_⟩
      · intro done hdone
        cases done with
        | push kind' =>
            by_cases he : kind' = kind
            · subst he
              exact Function.update_self ..
            · have hne : j.ref i kind' ≠ j.ref i kind := fun h =>
                he ((imageRef_eq_iff (colon_not_mem_of_derive hderived)).mp h)
              exact (Function.update_of_ne hne ..).trans (hleft _ hdone)
        | _ => exact hleft _ hdone
      · intro ref href
        exact Function.update_of_ne (href kind _ hderived) ..
  | verifySharedModuleSigningKey =>
      have hkernel : j.images .kernel = some (.kernel run) :=
        need (.build .kernel) (by simp [needs])
      have hpkg : j.images .p2pPkg = some (.p2pPkg run) :=
        need (.build .p2pPkg) (by simp [needs])
      exact ⟨registry, j, by rw [act, hkernel, hpkg]; exact if_pos rfl, rfl, finish hleft trivial,
        fun _ _ => rfl⟩
  | resolveDigest kind =>
      have hpushed : registry (j.ref i kind) = some (own run kind) :=
        need (.push kind) (by simp [needs])
      refine ⟨registry, { j with digests := Function.update j.digests kind (some (own run kind)) },
        act_resolveDigest hpushed, rfl, finish ?_ (Function.update_self ..), fun _ _ => rfl⟩
      intro done hdone
      cases done with
      | resolveDigest kind' =>
          by_cases he : kind' = kind
          · subst he
            exact Function.update_self ..
          · exact (Function.update_of_ne he ..).trans (hleft _ hdone)
      | _ => exact hleft _ hdone
  | verifyFinalInstaller =>
      have hdigest : j.digests .installer = some (.installer run run run run) :=
        need (.resolveDigest .installer) (by simp [needs])
      exact ⟨registry, j, by rw [act, hdigest], rfl, finish hleft trivial, fun _ _ => rfl⟩

theorem derive_of_act (hleft : ∀ done ∈ steps.take j.pc, (∀ kind, done ≠ .push kind) →
      Left i run registry j done)
    (hstep : steps[j.pc]? = some step)
    (hact : act key i run registry j step = some (registry', j')) : ∃ tag, derive i = .ok tag := by
  have behind : .derivePublishRefs ∈ needs step → ∃ tag, derive i = .ok tag := fun h =>
    ⟨_, hleft _ (needs_done hstep h) (by simp)⟩
  cases step with
  | derivePublishRefs =>
      rw [act] at hact
      split at hact
      · rename_i tag htag
        exact ⟨tag, htag⟩
      · cases hact
  | build kind => exact behind (by cases kind <;> simp [needs])
  | push kind | resolveDigest kind => exact behind (by simp [needs])
  | verifySharedModuleSigningKey | verifyFinalInstaller => exact behind (by simp [needs])

end

/-! ### The runs -/

section

variable {inputs : Run → Inputs} {s : State Run} {run : Run}

/-- Runs that derive the same refs are runs of one branch. -/
def Separated (inputs : Run → Inputs) : Prop :=
  ∀ run run' tag, derive (inputs run) = .ok tag → derive (inputs run') = .ok tag →
    (inputs run).namespace = (inputs run').namespace → (inputs run).refName = (inputs run').refName

/-- The `concurrency` of the workflow: runs of one branch are not in progress together. -/
def Alone (inputs : Run → Inputs) (s : State Run) : Prop :=
  ∀ run run', (s.job run).status = .inProgress → (s.job run').status = .inProgress →
    (inputs run).refName = (inputs run').refName → run = run'

/-- A run is in its place: what it has left is there, what it has pushed until it has completed. -/
structure InPlace (inputs : Run → Inputs) (s : State Run) (run : Run) : Prop where
  pending : (s.job run).status = .pending → (s.job run).pc = 0
  left : ∀ done ∈ steps.take (s.job run).pc,
    (s.job run).status = .inProgress ∨ (∀ kind, done ≠ .push kind) →
      Left (inputs run) run s.registry (s.job run) done

theorem inPlace_start (run : Run) : InPlace inputs (start : State Run) run where
  pending := fun _ => rfl
  left := by
    intro done h
    cases h

theorem alone_start : Alone inputs (start : State Run) := by
  intro run run' h
  cases h

/-- Where runs with the same refs are of one branch, another run in progress has other refs. -/
theorem Separated.keeps {registry : Registry Run} {other : Run} (hsep : Separated inputs)
    (ha : Alone inputs s) (hne : run ≠ other) (hstatus : (s.job run).status = .inProgress)
    (hother : (s.job other).status = .inProgress)
    (hframe : ∀ ref, (∀ kind tag, derive (inputs other) = .ok tag →
      ref ≠ imageRef (inputs other).namespace kind tag) → registry ref = s.registry ref)
    {kind : Kind} {tag : Text} (hderived : derive (inputs run) = .ok tag) :
    registry (imageRef (inputs run).namespace kind tag) =
      s.registry (imageRef (inputs run).namespace kind tag) := by
  refine hframe _ fun kind' tag' htag heq => ?_
  obtain ⟨hns, -, rfl⟩ := imageRef_inj (colon_not_mem_of_derive hderived)
    (colon_not_mem_of_derive htag) heq
  exact hne (ha run other hstatus hother (hsep run other tag hderived htag hns))

end

section

variable [DecidableEq Run] {Key : Type*} [DecidableEq Key] {inputs : Run → Inputs}
  {key : Run → Key} {s s' : State Run} {a : Act Run} {run : Run}

theorem alone_next (ha : Alone inputs s) (h : Next inputs key s a s') : Alone inputs s' := by
  -- only a start brings a run into progress
  have old : ∀ run (j : Job Run) registry, (j.status = .inProgress → (s.job run).status = .inProgress) →
      Alone inputs (State.setJob ⟨registry, s.job⟩ run j) := by
    intro run j registry hj r r' hr hr'
    have hin : ∀ r, ((State.setJob ⟨registry, s.job⟩ run j).job r).status = .inProgress →
        (s.job r).status = .inProgress := by
      intro r hr
      by_cases he : r = run
      · subst he
        exact hj (by simpa using hr)
      · rwa [State.job_setJob_of_ne he] at hr
    exact ha r r' (hin r hr) (hin r' hr')
  cases h with
  | @start run hstatus hgroup =>
      intro r r' hr hr' hname
      by_cases he : r = run
      · by_cases he' : r' = run
        · exact he.trans he'.symm
        · rw [State.job_setJob_of_ne he'] at hr'
          exact absurd (hname.symm.trans (he ▸ rfl)) (hgroup r' hr')
      · rw [State.job_setJob_of_ne he] at hr
        by_cases he' : r' = run
        · exact absurd (hname.trans (he' ▸ rfl)) (hgroup r hr)
        · rw [State.job_setJob_of_ne he'] at hr'
          exact ha r r' hr hr' hname
  | complete hstatus => exact old _ _ _ fun _ => hstatus
  | step hstatus hstep hact => exact old _ _ _ fun _ => hstatus

/-- The step of a run that is in its place. -/
theorem InPlace.act {step : WorkflowStep} (key : Run → Key) (hi : InPlace inputs s run)
    (hstatus : (s.job run).status = .inProgress) (hstep : steps[(s.job run).pc]? = some step)
    (hderive : ∃ tag, derive (inputs run) = .ok tag) :
    ∃ registry j, act key (inputs run) run s.registry (s.job run) step = some (registry, j) ∧
      j.status = .inProgress ∧
      InPlace inputs (State.setJob ⟨registry, s.job⟩ run { j with pc := (s.job run).pc + 1 }) run ∧
      ∀ ref, (∀ kind tag, derive (inputs run) = .ok tag →
        ref ≠ imageRef (inputs run).namespace kind tag) → registry ref = s.registry ref := by
  obtain ⟨registry, j, hact, hj, hleft, hframe⟩ :=
    act_own key (fun done hdone => hi.left done hdone (.inl hstatus)) hstep hderive
  have hin : j.status = .inProgress := hj.trans hstatus
  refine ⟨registry, j, hact, hin, ⟨fun hp => ?_, fun done hdone _ => ?_⟩, hframe⟩
  · rw [State.job_setJob_self] at hp
    cases hin.symm.trans hp
  · rw [State.job_setJob_self] at hdone ⊢
    exact hleft done hdone

/-- **Another run** that keeps the refs of a run leaves it in its place. -/
theorem InPlace.of_other {registry : Registry Run} {other : Run} {j : Job Run}
    (hi : InPlace inputs s run) (hne : run ≠ other)
    (hkeep : (s.job run).status = .inProgress → ∀ kind tag, derive (inputs run) = .ok tag →
      registry (imageRef (inputs run).namespace kind tag) =
        s.registry (imageRef (inputs run).namespace kind tag)) :
    InPlace inputs (State.setJob ⟨registry, s.job⟩ other j) run := by
  refine ⟨fun hp => ?_, fun done hdone hcond => ?_⟩
  · rw [State.job_setJob_of_ne hne] at hp ⊢
    exact hi.pending hp
  · rw [State.job_setJob_of_ne hne] at hdone hcond ⊢
    have hleft := hi.left done hdone hcond
    cases done with
    | push kind =>
        have hstatus : (s.job run).status = .inProgress := hcond.resolve_right fun h => h kind rfl
        have hderived : derive (inputs run) = .ok (s.job run).releaseTag :=
          hi.left .derivePublishRefs (derive_mem_take hdone) (.inl hstatus)
        exact (hkeep hstatus kind _ hderived).trans hleft
    | _ => exact hleft

/-- **One action.** -/
theorem inPlace_next (hsep : Separated inputs) (ha : Alone inputs s)
    (hi : ∀ run, InPlace inputs s run) (h : Next inputs key s a s') (r : Run) :
    InPlace inputs s' r := by
  cases h with
  | @start run hstatus hgroup =>
      by_cases he : r = run
      · subst he
        have hpc := (hi r).pending hstatus
        refine ⟨fun _ => ?_, fun done hdone => ?_⟩
        · simpa using hpc
        · simp only [State.job_setJob_self, hpc] at hdone
          cases hdone
      · exact (hi r).of_other he fun _ _ _ _ => rfl
  | @complete run hstatus =>
      by_cases he : r = run
      · subst he
        refine ⟨fun hp => ?_, fun done hdone hcond => ?_⟩
        · simp at hp
        · simp only [State.job_setJob_self, State.registry_setJob] at hdone hcond ⊢
          have hpush := hcond.resolve_left (by simp)
          have hbefore := (hi r).left done hdone (.inr hpush)
          cases done <;> exact hbefore
      · exact (hi r).of_other he fun _ _ _ _ => rfl
  | @step run step registry j hstatus hstep hact =>
      have hderive : ∃ tag, derive (inputs run) = .ok tag :=
        derive_of_act (fun done hdone _ => (hi run).left done hdone (.inl hstatus)) hstep hact
      obtain ⟨registry', j', hact', -, hplace, hframe⟩ :=
        (hi run).act key hstatus hstep hderive
      cases hact.symm.trans hact'
      by_cases he : r = run
      · exact he ▸ hplace
      · exact (hi r).of_other he fun hr kind tag htag =>
          hsep.keeps ha he hr hstatus hframe htag

/-- What it means that no run gets in the way of another: a step of a run that has its refs does not
fail, and a run that has taken every step has resolved its own images. -/
def Isolated (inputs : Run → Inputs) (key : Run → Key) : Prop :=
  ∀ s, Reachable (Next inputs key) start s → ∀ run,
    ((s.job run).status = .inProgress → (s.job run).pc < steps.length →
      (∃ tag, derive (inputs run) = .ok tag) → ∃ s', Next inputs key s (.step run) s') ∧
    ((s.job run).pc = steps.length → ∀ kind, (s.job run).digests kind = some (own run kind))

theorem isolated_of_separated (hsep : Separated inputs) : Isolated inputs key := by
  intro s hs run
  obtain ⟨ha, hi⟩ : Alone inputs s ∧ ∀ run, InPlace inputs s run := by
    exact hs.invariant (I := fun s => Alone inputs s ∧ ∀ run, InPlace inputs s run)
      ⟨alone_start, inPlace_start⟩
      fun s a s' hi h => ⟨alone_next hi.1 h, inPlace_next hsep hi.1 hi.2 h⟩
  refine ⟨fun hstatus hpc hderive => ?_, fun hpc kind => ?_⟩
  · have hstep : steps[(s.job run).pc]? = some steps[(s.job run).pc] :=
      List.getElem?_eq_getElem hpc
    obtain ⟨registry, j, hact, -⟩ := (hi run).act key hstatus hstep hderive
    exact ⟨_, .step hstatus hstep hact⟩
  · have hall : .resolveDigest kind ∈ steps.take (s.job run).pc := by
      rw [hpc, List.take_length]
      cases kind <;> decide
    exact (hi run).left _ hall (.inr (by simp))

/-- A run takes its first steps. -/
theorem exists_solo {s₀ : State Run} (hs : Reachable (Next inputs key) s₀ s)
    (hi : InPlace inputs s run) (hstatus : (s.job run).status = .inProgress)
    (hpc : (s.job run).pc = 0) (hderive : ∃ tag, derive (inputs run) = .ok tag) (n : Nat)
    (hn : n ≤ steps.length) :
    ∃ s', Reachable (Next inputs key) s₀ s' ∧ InPlace inputs s' run ∧
      (s'.job run).status = .inProgress ∧ (s'.job run).pc = n ∧
      ∀ other, other ≠ run → s'.job other = s.job other := by
  induction n with
  | zero => exact ⟨s, hs, hi, hstatus, hpc, fun _ _ => rfl⟩
  | succ n ih =>
      obtain ⟨s', hs', hi', hstatus', rfl, hother⟩ := ih (by omega)
      have hstep : steps[(s'.job run).pc]? = some steps[(s'.job run).pc] :=
        List.getElem?_eq_getElem hn
      obtain ⟨registry, j, hact, hj, hplace, -⟩ := hi'.act key hstatus' hstep hderive
      refine ⟨_, hs'.snoc (.step hstatus' hstep hact), hplace, ?_, ?_, fun other hne => ?_⟩
      · rw [State.job_setJob_self]
        exact hj
      · rw [State.job_setJob_self]
      · rw [State.job_setJob_of_ne hne]
        exact hother other hne

/-- A step that succeeds is taken. -/
theorem exists_taken {s₀ : State Run} {step : WorkflowStep} {registry : Registry Run} {j : Job Run}
    {n : Nat} (hs : Reachable (Next inputs key) s₀ s) (hstatus : (s.job run).status = .inProgress)
    (hpc : (s.job run).pc = n) (hstep : steps[n]? = some step)
    (hact : act key (inputs run) run s.registry (s.job run) step = some (registry, j))
    (hj : j.status = (s.job run).status) :
    ∃ s', Reachable (Next inputs key) s₀ s' ∧ s'.registry = registry ∧
      s'.job run = { j with pc := n + 1 } ∧ (s'.job run).status = .inProgress := by
  refine ⟨_, hs.snoc (.step hstatus (hpc ▸ hstep) hact), rfl, ?_, ?_⟩
  · rw [State.job_setJob_self, hpc]
  · rw [State.job_setJob_self]
    exact hj.trans hstatus

/-- The last steps of a run whose base was replaced in the registry: nothing stops it. -/
theorem exists_mixed {s₀ : State Run} {other : Run} (hs : Reachable (Next inputs key) s₀ s)
    (hstatus : (s.job run).status = .inProgress) (hpc : (s.job run).pc = 14)
    (hbase : (s.job run).images .installerBase = some (.installerBase run run))
    (hpushed : s.registry ((s.job run).ref (inputs run) .installerBase) =
      some (.installerBase other other))
    (hsysext : (s.job run).digests .p2pSysext = some (.p2pSysext run run)) :
    ∃ s', Reachable (Next inputs key) s₀ s' ∧ (s'.job run).pc = steps.length ∧
      (s'.job run).digests .installer = some (.installer run run other run) := by
  have hbuild : build (inputs run) run s.registry (s.job run) .installer =
      some ((s.job run).load .installer (.installer run run other run)) := by
    rw [build, hbase, hpushed, hsysext]
  obtain ⟨s₁, h₁, -, hjob₁, hstatus₁⟩ := exists_taken hs hstatus hpc rfl (act_build hbuild) rfl
  have himage : (s₁.job run).images .installer = some (.installer run run other run) := by
    simp [hjob₁, Job.load]
  obtain ⟨s₂, h₂, hregistry₂, hjob₂, hstatus₂⟩ :=
    exists_taken h₁ hstatus₁ (by rw [hjob₁]) rfl (act_push himage) rfl
  have hinstaller : s₂.registry ((s₂.job run).ref (inputs run) .installer) =
      some (.installer run run other run) := by
    rw [hregistry₂, hjob₂]
    exact Function.update_self ..
  obtain ⟨s₃, h₃, -, hjob₃, hstatus₃⟩ :=
    exists_taken h₂ hstatus₂ (by rw [hjob₂]) rfl (act_resolveDigest hinstaller) rfl
  have hdigest : (s₃.job run).digests .installer = some (.installer run run other run) := by
    simp [hjob₃]
  have hverify : act key (inputs run) run s₃.registry (s₃.job run) .verifyFinalInstaller =
      some (s₃.registry, s₃.job run) := by
    rw [act, hdigest]
  obtain ⟨s₄, h₄, -, hjob₄, -⟩ := exists_taken h₃ hstatus₃ (by rw [hjob₃]) rfl hverify rfl
  refine ⟨s₄, h₄, by rw [hjob₄]; rfl, ?_⟩
  rw [hjob₄]
  exact hdigest

/-- A run that starts, up to a step. -/
theorem exists_started {s₀ : State Run} (hs : Reachable (Next inputs key) s₀ s)
    (hjob : s.job run = Job.start) (hgroup : ∀ other, (s.job other).status = .inProgress →
      (inputs other).refName ≠ (inputs run).refName)
    (hderive : ∃ tag, derive (inputs run) = .ok tag) (n : Nat) (hn : n ≤ steps.length) :
    ∃ s', Reachable (Next inputs key) s₀ s' ∧ InPlace inputs s' run ∧
      (s'.job run).status = .inProgress ∧ (s'.job run).pc = n ∧
      ∀ other, other ≠ run → s'.job other = s.job other := by
  have hstarted := hs.snoc (.start (by rw [hjob]; rfl) hgroup)
  rw [hjob] at hstarted
  have hplace : InPlace inputs (s.setJob run { Job.start with status := .inProgress }) run := by
    refine ⟨fun _ => by rw [State.job_setJob_self]; rfl, fun done hdone => ?_⟩
    rw [State.job_setJob_self] at hdone
    cases hdone
  obtain ⟨s', hs', hplace', hstatus, hpc, hother⟩ := exists_solo hstarted hplace
    (by rw [State.job_setJob_self]) (by rw [State.job_setJob_self]; rfl) hderive n hn
  exact ⟨s', hs', hplace', hstatus, hpc, fun other hne =>
    (hother other hne).trans (State.job_setJob_of_ne hne)⟩

/-- Two runs with the same refs and of different branches: one takes the modules of the other. -/
theorem separated_of_isolated (h : Isolated inputs key) : Separated inputs := by
  intro run run' tag htag htag' hns
  by_contra hname
  have hne : run ≠ run' := fun he => hname (he ▸ rfl)
  -- one run up to its installer, then the other one up to its base
  obtain ⟨s₁, h₁, hplace₁, hstatus₁, hpc₁, hother₁⟩ := exists_started
    (⟨[], .nil⟩ : Reachable (Next inputs key) start start) (rfl : start.job run = Job.start)
    (fun other hother => by cases hother) ⟨tag, htag⟩ 14 (by decide)
  have hgroup : ∀ other, (s₁.job other).status = .inProgress →
      (inputs other).refName ≠ (inputs run').refName := by
    intro other hstatus
    by_cases he : other = run
    · rwa [he]
    · rw [hother₁ other he] at hstatus
      cases hstatus
  obtain ⟨s₂, h₂, hplace₂, hstatus₂, hpc₂, hother₂⟩ := exists_started h₁ (hother₁ run' hne.symm)
    hgroup ⟨tag, htag'⟩ 5 (by decide)
  have hjob : s₂.job run = s₁.job run := hother₂ run hne
  have left₁ : ∀ done ∈ steps.take 14, Left (inputs run) run s₁.registry (s₁.job run) done :=
    fun done hdone => hplace₁.left done (hpc₁ ▸ hdone) (.inl hstatus₁)
  have left₂ : ∀ done ∈ steps.take 5, Left (inputs run') run' s₂.registry (s₂.job run') done :=
    fun done hdone => hplace₂.left done (hpc₂ ▸ hdone) (.inl hstatus₂)
  have htag₁ : (s₁.job run).releaseTag = tag :=
    Except.ok.inj ((left₁ .derivePublishRefs (by decide)).symm.trans htag)
  have htag₂ : (s₂.job run').releaseTag = tag :=
    Except.ok.inj ((left₂ .derivePublishRefs (by decide)).symm.trans htag')
  -- the base that the imager takes
  have hpushed : s₂.registry ((s₂.job run).ref (inputs run) .installerBase) =
      some (.installerBase run' run') := by
    have hleft := left₂ (.push .installerBase) (by decide)
    rw [Left, Job.ref, htag₂, ← hns] at hleft
    rw [hjob, Job.ref, htag₁]
    exact hleft
  obtain ⟨s₃, h₃, hpc₃, hdigest⟩ := exists_mixed h₂ (by rw [hjob]; exact hstatus₁)
    (by rw [hjob]; exact hpc₁) (by rw [hjob]; exact left₁ (.build .installerBase) (by decide)) hpushed
    (by rw [hjob]; exact left₁ (.resolveDigest .p2pSysext) (by decide))
  have hown := (h s₃ h₃ run).2 hpc₃ .installer
  cases hown.symm.trans hdigest
  exact hne rfl

/-- **No run gets in the way of another**, in any order of the steps, exactly where runs that derive
the same refs are of one branch. -/
theorem isolated_iff : Isolated inputs key ↔ Separated inputs :=
  ⟨separated_of_isolated, isolated_of_separated⟩

end

end TalosP2P.Workflow
