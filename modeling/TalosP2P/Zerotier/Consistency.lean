import TalosP2P.Support.History
import TalosP2P.Zerotier.Identity

/-!
# Zerotier — Consistency

The two identity files over any history of runs from an empty state directory.  A run writes
`identity.secret` first, and every later run asks only whether that file is there: a run that is
stopped between the two writes leaves a state directory that the next run accepts as it is.

* `Settles`: what a run must leave for the later runs, whatever stops it.
* `sound_after`, `sound_of_steps`: the invariant, for one run and for a history.
* `settles_iff`: after a run that does not settle, an undisturbed run accepts files that are not
  consistent.
* `consistent_of_settled`: after runs that settle, every run that succeeds leaves the files
  consistent.
-/

namespace TalosP2P.Zerotier

open Files History

/-- Both files are there, and `identity.public` is the first three fields of the identity in
`identity.secret`. -/
def Consistent (files : StateDir) : Prop :=
  ∃ identity, files .identityPath = some identity ∧
    files .identityPubPath = some (publicPart identity)

section

variable (validate : Bytes → Option String) (run : Run) (files : StateDir)

/-- How a run ends. -/
def outcome : Except Stop IdentitySource := ((ensureIdentity validate run).on files).1

/-- What a run leaves in the state directory. -/
def after : StateDir := ((ensureIdentity validate run).on files).2

/-- A run that comes to write an identity writes both files, or what it leaves in `identity.secret`
is rejected. -/
def Settles : Prop :=
  ∀ identity, Writes validate run files identity →
    ∀ data, run.secretWrite.left none identity = some data → validate (trimSpace data) = none →
      run.secretWrite = .done ∧
        run.publicWrite.left (files .identityPubPath) (publicPart identity) =
          some (publicPart identity)

end

/-- A start takes the state directory to what its run leaves. -/
def Starts (validate : Bytes → Option String) (files : StateDir) (run : Run) (files' : StateDir) :
    Prop := files' = after validate run files

/-- A start whose run settles. -/
def StartsSettled (validate : Bytes → Option String) (files : StateDir) (run : Run)
    (files' : StateDir) : Prop := Settles validate run files ∧ Starts validate files run files'

/-- No file is there, or the identity that is there is rejected, or the files are consistent. -/
def Sound (validate : Bytes → Option String) (files : StateDir) : Prop :=
  (files .identityPath = none ∧ files .identityPubPath = none) ∨
    (∃ data, files .identityPath = some data ∧ validate (trimSpace data) ≠ none) ∨
    Consistent files

section

variable {validate : Bytes → Option String} {run : Run} {files : StateDir} {identity : Bytes}

theorem Sound.public_missing (h : Sound validate files) (hmissing : files .identityPath = none) :
    files .identityPubPath = none := by
  rcases h with ⟨-, hpublic⟩ | ⟨data, hdata, -⟩ | ⟨identity, hidentity, -⟩
  · exact hpublic
  · cases hmissing.symm.trans hdata
  · cases hmissing.symm.trans hidentity

/-- What a run leaves of the identity it writes. -/
theorem after_of_writes (h : Writes validate run files identity) :
    after validate run files .identityPath = run.secretWrite.left none identity ∧
      after validate run files .identityPubPath = if run.secretWrite = .done
        then run.publicWrite.left (files .identityPubPath) (publicPart identity)
        else files .identityPubPath := by
  obtain ⟨unwritten, source, hrun⟩ := ensureIdentity_of_writes h
  rw [after, hrun, on_writeIdentity h.fourParts]
  cases run.secretWrite with
  | done => simp [Outcome.left]
  | stopped stop written => simp [h.missing]

theorem after_of_not_writes (h : ∀ identity, ¬ Writes validate run files identity) :
    after validate run files = files := by
  rcases ensureIdentity_of_not_writes h with ⟨stop, hrun⟩ | ⟨data, -, -, hrun⟩
  · rw [after, hrun]
  · rw [after, hrun]

theorem done_of_writes {source : IdentitySource} (h : Writes validate run files identity)
    (hr : outcome validate run files = .ok source) :
    run.secretWrite = .done ∧ run.publicWrite = .done := by
  obtain ⟨unwritten, source, hrun⟩ := ensureIdentity_of_writes h
  rw [outcome, hrun, on_writeIdentity h.fourParts] at hr
  cases hsecret : run.secretWrite with
  | done =>
      cases hpublic : run.publicWrite with
      | done => exact ⟨rfl, rfl⟩
      | stopped stop written =>
          rw [hsecret, hpublic] at hr
          cases hr
  | stopped stop written =>
      rw [hsecret] at hr
      cases hr

/-- **One run.**  What a run that settles leaves is sound. -/
theorem sound_after (hs : Settles validate run files) (h : Sound validate files) :
    Sound validate (after validate run files) := by
  by_cases hw : ∃ identity, Writes validate run files identity
  · obtain ⟨identity, hw⟩ := hw
    obtain ⟨hsecret, hpublic⟩ := after_of_writes hw
    have hpub := h.public_missing hw.missing
    cases hleft : run.secretWrite.left none identity with
    | none =>
        have hne : run.secretWrite ≠ .done := fun hd => by
          rw [hd] at hleft
          cases hleft
        rw [if_neg hne] at hpublic
        exact .inl ⟨hsecret.trans hleft, hpublic.trans hpub⟩
    | some data =>
        by_cases hv : validate (trimSpace data) = none
        · obtain ⟨hd, hfull⟩ := hs identity hw data hleft hv
          rw [if_pos hd] at hpublic
          rw [hd] at hsecret
          exact .inr (.inr ⟨identity, hsecret, hpublic.trans hfull⟩)
        · exact .inr (.inl ⟨data, hsecret.trans hleft, hv⟩)
  · rwa [after_of_not_writes (not_exists.mp hw)]

/-- **The histories.** -/
theorem sound_of_steps {history : List Run}
    (h : Steps (StartsSettled validate) emptyDir history files) : Sound validate files := by
  refine h.invariant (.inl ⟨rfl, rfl⟩) ?_
  rintro files run files' hsound ⟨hs, rfl⟩
  exact sound_after hs hsound

/-- A run that succeeds leaves the files consistent, where they were sound. -/
theorem consistent_of_sound {source : IdentitySource} (h : Sound validate files)
    (hr : outcome validate run files = .ok source) : Consistent (after validate run files) := by
  by_cases hw : ∃ identity, Writes validate run files identity
  · obtain ⟨identity, hw⟩ := hw
    obtain ⟨hsecret, hpublic⟩ := after_of_writes hw
    obtain ⟨hd, hd'⟩ := done_of_writes hw hr
    rw [if_pos hd, hd'] at hpublic
    rw [hd] at hsecret
    exact ⟨identity, hsecret, hpublic⟩
  · rw [after_of_not_writes (not_exists.mp hw)]
    rcases ensureIdentity_of_not_writes (not_exists.mp hw) with
      ⟨stop, hrun⟩ | ⟨data, hdata, hv, -⟩
    · rw [outcome, hrun] at hr
      cases hr
    · rcases h with ⟨hmissing, -⟩ | ⟨data', hdata', hv'⟩ | hc
      · cases hmissing.symm.trans hdata
      · cases hdata'.symm.trans hdata
        exact absurd hv hv'
      · exact hc

/-- A run that nothing stops, started on an identity that is there. -/
def undisturbed : Run := ⟨.ok (), .ok (), [], .ok [], .done, .done⟩

/-- **The condition is exact**: a run settles just when every run after it that succeeds leaves the
files consistent. -/
theorem settles_iff (h : Sound validate files) : Settles validate run files ↔
    ∀ next source, outcome validate next (after validate run files) = .ok source →
      Consistent (after validate next (after validate run files)) := by
  constructor
  · intro hs next source hr
    exact consistent_of_sound (sound_after hs h) hr
  · intro hnext identity hw data hdata hv
    obtain ⟨hsecret, hpublic⟩ := after_of_writes hw
    have hfile : after validate run files .identityPath = some data := hsecret.trans hdata
    have hpub := h.public_missing hw.missing
    have hrun := @ensureIdentity_of_present undisturbed _ validate _ rfl hfile
    rw [hv] at hrun
    have hkeep : after validate undisturbed (after validate run files) =
        after validate run files := by rw [after, hrun]
    have hok : outcome validate undisturbed (after validate run files) = .ok .existing := by
      rw [outcome, hrun]
      rfl
    obtain ⟨i, hi, hfull⟩ := hkeep ▸ hnext undisturbed .existing hok
    by_cases hd : run.secretWrite = .done
    · rw [if_pos hd] at hpublic
      rw [hd] at hsecret
      cases hsecret.symm.trans hi
      exact ⟨hd, hpublic.symm.trans hfull⟩
    · rw [if_neg hd, hpub] at hpublic
      cases hpublic.symm.trans hfull

/-- **The identity files over any history**: after runs that settle, a run that succeeds leaves both
files, and `identity.public` is the first three fields of the identity in `identity.secret`. -/
theorem consistent_of_settled {history : List Run} {source : IdentitySource}
    (h : Steps (StartsSettled validate) emptyDir history files)
    (hr : outcome validate run files = .ok source) : Consistent (after validate run files) :=
  consistent_of_sound (sound_of_steps h) hr

end

/-! ### A history -/

/-- A command that accepts every identity of four parts. -/
def fourParts (identity : Bytes) : Option String :=
  if (parts identity).length = 4 then none else some "exit status 1"

/-- A run that gets the identity `a:0:b:c` from the environment. -/
def fromEnvironment (publicWrite : Outcome) : Run :=
  ⟨.ok (), .ok (), [0x61, 0x3a, 0x30, 0x3a, 0x62, 0x3a, 0x63], .ok [], .done, publicWrite⟩

/-- A run that is killed between the two writes is followed by one that succeeds without
`identity.public`. -/
theorem killed_between_writes : ¬ ∀ validate : Bytes → Option String,
    (∀ identity, (parts identity).length = 4 → validate identity = none) →
    ∀ (history : List Run) (files : StateDir) (run : Run) (source : IdentitySource),
      Steps (Starts validate) emptyDir history files → outcome validate run files = .ok source →
      Consistent (after validate run files) := by
  intro h
  have hfour : ∀ identity, (parts identity).length = 4 → fourParts identity = none :=
    fun identity hparts => if_pos hparts
  obtain ⟨identity, -, hpublic⟩ := h fourParts hfour [fromEnvironment (.stopped .killed none)] _
    undisturbed .existing (.snoc .nil rfl) (by decide +kernel)
  have hmissing : after fourParts undisturbed
      (after fourParts (fromEnvironment (.stopped .killed none)) emptyDir) .identityPubPath =
        none := by
    decide +kernel
  cases hmissing.symm.trans hpublic

/-- A run that writes both files settles, and the next one accepts them. -/
theorem consistent_of_settled_environment :
    Consistent (after fourParts undisturbed (after fourParts (fromEnvironment .done) emptyDir)) := by
  refine @consistent_of_settled fourParts undisturbed _ [fromEnvironment .done] .existing
    (.snoc .nil ⟨?_, rfl⟩) (by decide +kernel)
  intro identity hw data hdata hv
  exact ⟨rfl, rfl⟩

end TalosP2P.Zerotier
