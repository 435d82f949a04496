import TalosP2P.Support.Files
import TalosP2P.Support.Python

/-!
# Zerotier — Identity

`ensureIdentity` and `writeIdentity` of the ZeroTier wrapper: the identity is taken from the state
directory, from the environment or from `zerotier-one -i generate`, and in the last two cases
written to two files, one after the other.

`validate` is the command `zerotier-one -i validate`: the error with which it ends on an identity.

* `ensureIdentity_of_writes`, `ensureIdentity_of_not_writes`: a run writes an identity, or leaves
  the state directory as it is.
-/

namespace TalosP2P.Zerotier

open Files Python

/-- The files of the state directory: `identity.secret` and `identity.public`. -/
inductive Path where
  | identityPath
  | identityPubPath
  deriving DecidableEq, Repr

/-- What is in the state directory. -/
abbrev StateDir := Dir Path UInt8

/-- The empty state directory. -/
def emptyDir : StateDir := fun _ => none

/-! ### Strings -/

/-- The characters of `unicode.IsSpace`, in UTF-8. -/
def spaces : List Bytes :=
  [[0x09], [0x0a], [0x0b], [0x0c], [0x0d], [0x20], [0xc2, 0x85], [0xc2, 0xa0], [0xe1, 0x9a, 0x80],
    [0xe2, 0x80, 0x80], [0xe2, 0x80, 0x81], [0xe2, 0x80, 0x82], [0xe2, 0x80, 0x83],
    [0xe2, 0x80, 0x84], [0xe2, 0x80, 0x85], [0xe2, 0x80, 0x86], [0xe2, 0x80, 0x87],
    [0xe2, 0x80, 0x88], [0xe2, 0x80, 0x89], [0xe2, 0x80, 0x8a], [0xe2, 0x80, 0xa8],
    [0xe2, 0x80, 0xa9], [0xe2, 0x80, 0xaf], [0xe2, 0x81, 0x9f], [0xe3, 0x80, 0x80]]

/-- Drops the words from the front of the string, at most so many times. -/
def dropWords (words : List Bytes) : Nat → Bytes → Bytes
  | 0, s => s
  | n + 1, s =>
    match words.find? fun w => w <+: s with
    | some w => dropWords words n (s.drop w.length)
    | none => s

/-- `strings.TrimSpace`. -/
def trimSpace (s : Bytes) : Bytes :=
  let front := dropWords spaces s.length s
  (dropWords (spaces.map List.reverse) front.length front.reverse).reverse

/-- `strings.Split(identity, ":")`. -/
def parts (identity : Bytes) : List Bytes := identity.splitOn 0x3a

/-- `strings.Join(parts[:3], ":")`. -/
def publicPart (identity : Bytes) : Bytes := [0x3a].intercalate ((parts identity).take 3)

/-! ### A run -/

/-- What a run finds outside the state directory, and where it is stopped. -/
structure Run where
  /-- `os.Stat`, where it does not tell whether the file is there. -/
  stat : Except Stop Unit
  readFile : Except Stop Unit
  /-- `ZEROTIER_IDENTITY_SECRET`, empty when it is not set. -/
  identitySecret : Bytes
  /-- `zerotier-one -i generate`, with what it prints. -/
  generate : Except Stop Bytes
  /-- The write of `identity.secret`. -/
  secretWrite : Outcome
  /-- The write of `identity.public`. -/
  publicWrite : Outcome
  deriving DecidableEq, Repr

/-- Where the identity comes from. -/
inductive IdentitySource where
  | existing
  | environment
  | generated
  deriving DecidableEq, Repr

section

variable (validate : Bytes → Option String) (run : Run)

def validateIdentity (identity : Bytes) : Proc Path UInt8 Unit :=
  match validate identity with
  | none => pure ()
  | some err => throw (.failed ("identity validation failed: " ++ err))

def writeIdentity (identity : Bytes) : Proc Path UInt8 Unit := do
  if (parts identity).length ≠ 4 then
    throw (.failed ("invalid identity format: expected 4 parts, got " ++
      toString (parts identity).length))
  wrap "failed to write secret identity" (writeFile .identityPath identity run.secretWrite)
  wrap "failed to write public identity"
    (writeFile .identityPubPath (publicPart identity) run.publicWrite)

def ensureIdentity : Proc Path UInt8 IdentitySource := do
  wrap "failed to stat identity file" (operation run.stat)
  match (← get) .identityPath with
  | some data =>
    wrap "failed to read existing identity" (operation run.readFile)
    wrap "existing identity failed validation" (validateIdentity validate (trimSpace data))
    return .existing
  | none =>
    if run.identitySecret ≠ [] then
      wrap "environment identity invalid" (validateIdentity validate run.identitySecret)
      wrap "failed to write identity from environment" (writeIdentity run run.identitySecret)
      return .environment
    let out ← wrap "failed to generate identity" (operation run.generate)
    let identity := trimSpace out
    wrap "generated identity failed validation" (validateIdentity validate identity)
    wrap "failed to write generated identity" (writeIdentity run identity)
    return .generated

end

/-! ### What a run writes -/

/-- The identity a run takes where the state directory has none. -/
def Run.supplied (run : Run) : Except Stop Bytes :=
  if run.identitySecret ≠ [] then .ok run.identitySecret else run.generate.map trimSpace

/-- The run comes to write the identity. -/
structure Writes (validate : Bytes → Option String) (run : Run) (files : StateDir)
    (identity : Bytes) : Prop where
  stat : run.stat = .ok ()
  missing : files .identityPath = none
  supplied : run.supplied = .ok identity
  accepted : validate identity = none
  fourParts : (parts identity).length = 4

section

variable {validate : Bytes → Option String} {run : Run} {files : StateDir} {identity : Bytes}

theorem on_validateIdentity (validate : Bytes → Option String) (identity : Bytes)
    (files : StateDir) : (validateIdentity validate identity).on files =
      ((validate identity).elim (.ok ()) fun err =>
        .error (.failed ("identity validation failed: " ++ err)), files) := by
  rw [validateIdentity]
  cases validate identity with
  | none => rfl
  | some err => rfl

/-- The second file is written when the write of the first one is done. -/
theorem on_writeIdentity (h : (parts identity).length = 4) :
    (writeIdentity run identity).on files = match run.secretWrite with
      | .done => (run.publicWrite.returned.mapError (Stop.wrap "failed to write public identity"),
          Function.update (Function.update files .identityPath (some identity)) .identityPubPath
            (run.publicWrite.left (files .identityPubPath) (publicPart identity)))
      | .stopped stop written => (.error (stop.wrap "failed to write secret identity"),
          Function.update files .identityPath
            (Outcome.left (files .identityPath) identity (.stopped stop written))) := by
  rw [writeIdentity, if_neg (not_not_intro h)]
  cases hsecret : run.secretWrite with
  | done => simp [on_bind, on_wrap, on_writeFile, Outcome.returned, Outcome.left, Except.mapError]
  | stopped stop written =>
      simp [on_bind, on_wrap, on_writeFile, Outcome.returned, Except.mapError]

theorem on_writeIdentity_of_ne (h : (parts identity).length ≠ 4) :
    (writeIdentity run identity).on files =
      (.error (.failed ("invalid identity format: expected 4 parts, got " ++
        toString (parts identity).length)), files) := by
  rw [writeIdentity, if_pos h]
  rfl

/-- A run takes an identity: it writes one that is accepted, and returns with an error on any
other. -/
theorem on_take (invalid unwritten : String) (source : IdentitySource) :
    Proc.on (do
      wrap invalid (validateIdentity validate identity)
      wrap unwritten (writeIdentity run identity)
      return source) files = match validate identity with
    | none => ((((writeIdentity run identity).on files).1.mapError (Stop.wrap unwritten)).map
        fun _ => source, ((writeIdentity run identity).on files).2)
    | some err => (.error (.failed (invalid ++ ": " ++ ("identity validation failed: " ++ err))),
        files) := by
  have hvalid := on_validateIdentity validate identity files
  cases hv : validate identity with
  | none =>
      rw [hv] at hvalid
      rw [on_bind_ok (on_wrap_ok hvalid), on_bind_pure, on_wrap]
  | some err =>
      rw [hv] at hvalid
      rw [on_bind_error (on_wrap_error hvalid)]
      rfl

theorem on_stat (hstat : run.stat = .ok ()) :
    (wrap "failed to stat identity file" (operation run.stat)).on files = (.ok (), files) :=
  on_wrap_ok (by rw [on_operation, hstat])

/-- An identity that is there is read and validated, and nothing else is looked at. -/
theorem ensureIdentity_of_present (validate : Bytes → Option String) {data : Bytes}
    (hstat : run.stat = .ok ()) (hfile : files .identityPath = some data) :
    (ensureIdentity validate run).on files = (match run.readFile with
      | .error stop => .error (stop.wrap "failed to read existing identity")
      | .ok () => match validate (trimSpace data) with
        | none => .ok .existing
        | some err => .error (.failed ("existing identity failed validation: " ++
            ("identity validation failed: " ++ err))), files) := by
  rw [ensureIdentity, on_bind_ok (on_stat hstat), on_bind_ok (on_get files), hfile]
  have hread := on_operation run.readFile files
  have hvalid := on_validateIdentity validate (trimSpace data) files
  cases hr : run.readFile with
  | error stop =>
      rw [hr] at hread
      exact on_bind_error (on_wrap_error hread)
  | ok u =>
      rw [hr] at hread
      refine (on_bind_ok (on_wrap_ok hread)).trans ?_
      cases hv : validate (trimSpace data) with
      | none =>
          rw [hv] at hvalid
          exact on_bind_ok (on_wrap_ok hvalid)
      | some err =>
          rw [hv] at hvalid
          exact on_bind_error (on_wrap_error hvalid)

/-- Where the state directory has no identity, a run takes the one it is supplied with. -/
theorem ensureIdentity_of_missing (validate : Bytes → Option String) (hstat : run.stat = .ok ())
    (hmissing : files .identityPath = none) :
    (∃ stop, run.supplied = .error stop ∧ (ensureIdentity validate run).on files =
      (.error (stop.wrap "failed to generate identity"), files)) ∨
    ∃ identity invalid unwritten source, run.supplied = .ok identity ∧
      (ensureIdentity validate run).on files = Proc.on (do
        wrap invalid (validateIdentity validate identity)
        wrap unwritten (writeIdentity run identity)
        return source) files := by
  rw [ensureIdentity, on_bind_ok (on_stat hstat), on_bind_ok (on_get files), hmissing]
  by_cases henv : run.identitySecret ≠ []
  · refine .inr ⟨_, "environment identity invalid", "failed to write identity from environment",
      .environment, if_pos henv, ?_⟩
    simp only [if_pos henv]
  · simp only [Run.supplied, if_neg henv]
    cases hgen : run.generate with
    | error stop =>
        refine .inl ⟨stop, rfl, ?_⟩
        exact on_bind_error (on_wrap_error (on_operation _ _))
    | ok out =>
        refine .inr ⟨trimSpace out, "generated identity failed validation",
          "failed to write generated identity", .generated, rfl, ?_⟩
        exact on_bind_ok (on_wrap_ok (on_operation _ _))

/-- A run that comes to write an identity ends as the two writes end. -/
theorem ensureIdentity_of_writes (h : Writes validate run files identity) :
    ∃ unwritten source, (ensureIdentity validate run).on files =
      ((((writeIdentity run identity).on files).1.mapError (Stop.wrap unwritten)).map
        fun _ => source, ((writeIdentity run identity).on files).2) := by
  rcases ensureIdentity_of_missing validate h.stat h.missing with
    ⟨stop, hsupplied, -⟩ | ⟨i, invalid, unwritten, source, hsupplied, hrun⟩
  · rw [h.supplied] at hsupplied
    cases hsupplied
  · obtain rfl : identity = i := Except.ok.inj (h.supplied.symm.trans hsupplied)
    rw [hrun, on_take, h.accepted]
    exact ⟨unwritten, source, rfl⟩

/-- Any other run leaves the state directory as it is: it stops, or accepts the identity that is
there. -/
theorem ensureIdentity_of_not_writes (h : ∀ identity, ¬ Writes validate run files identity) :
    (∃ stop, (ensureIdentity validate run).on files = (.error stop, files)) ∨
      ∃ data, files .identityPath = some data ∧ validate (trimSpace data) = none ∧
        (ensureIdentity validate run).on files = (.ok .existing, files) := by
  cases hstat : run.stat with
  | error stop =>
      have hstop : (wrap "failed to stat identity file" (operation run.stat)).on files =
          (.error (stop.wrap "failed to stat identity file"), files) :=
        on_wrap_error (by rw [on_operation, hstat])
      exact .inl ⟨_, on_bind_error hstop⟩
  | ok u =>
      cases hfile : files .identityPath with
      | some data =>
          have hrun := ensureIdentity_of_present validate hstat hfile
          cases hr : run.readFile with
          | error stop =>
              rw [hr] at hrun
              exact .inl ⟨_, hrun⟩
          | ok u =>
              cases hv : validate (trimSpace data) with
              | none =>
                  rw [hr, hv] at hrun
                  exact .inr ⟨data, rfl, hv, hrun⟩
              | some err =>
                  rw [hr, hv] at hrun
                  exact .inl ⟨_, hrun⟩
      | none =>
          rcases ensureIdentity_of_missing validate hstat hfile with
            ⟨stop, -, hrun⟩ | ⟨i, invalid, unwritten, source, hsupplied, hrun⟩
          · exact .inl ⟨_, hrun⟩
          · rw [on_take] at hrun
            cases hv : validate i with
            | some err =>
                rw [hv] at hrun
                exact .inl ⟨_, hrun⟩
            | none =>
                have hparts : (parts i).length ≠ 4 := fun hparts =>
                  h i ⟨hstat, hfile, hsupplied, hv, hparts⟩
                rw [hv, on_writeIdentity_of_ne hparts] at hrun
                exact .inl ⟨_, hrun⟩

end

end TalosP2P.Zerotier
