import TalosP2P.Support.KconfigEdit

/-!
# Kernel — SigningKey

The step of `kernel/build/pkg.yaml` that puts the shared module signing key into the kernel tree and
points `CONFIG_MODULE_SIG_KEY` at it.

The step looks for the old assignment anywhere in the `.config` and overwrites the first one.  So it
also finds it in a comment, and it is content with a new assignment that a later line overrides.

* `selectKey_eq`: the step makes the edit `selectShared` where it finds either assignment.
* `injectKey_promise_iff`: the `.config`s on which the step does what it is for.
-/

namespace TalosP2P.Kernel

open Python Kconfig Replace

/-- The files of `/src` that the step reads and writes. -/
structure Tree where
  config : Bytes
  sharedSigningKey : Option Bytes
  deriving DecidableEq, Repr

def old : Text := "CONFIG_MODULE_SIG_KEY=\"certs/signing_key.pem\"".toList

def new : Text := "CONFIG_MODULE_SIG_KEY=\"certs/shared_signing_key.pem\"".toList

/-- `pem`, from the build argument: the white space in it is dropped. -/
def decodeKey (encoded : Text) : Except Exc Bytes := do
  let pem ← b64decode (encoded.filter fun c => !isWhitespace c)
  if ¬ encodeUtf8 "BEGIN" <:+: pem then
    throw (.systemExit "decoded module signing key does not look like PEM data")
  return pem

/-- `config_text`, as the step writes it back. -/
def selectKey (configText : Text) : Except Exc Text :=
  if old <:+: configText then .ok (replaceFirst old new configText)
  else if ¬ new <:+: configText then
    .error (.systemExit "CONFIG_MODULE_SIG_KEY was not found in kernel config")
  else .ok configText

/-- The step, from `MODULE_SIG_KEY_PEM_B64`.  The key is written before the `.config` is read. -/
def injectKey (encoded : Text) (src : Tree) : Except Exc Unit × Tree :=
  if strip encoded = [] then (.ok (), src)
  else match decodeKey encoded with
    | .error e => (.error e, src)
    | .ok pem =>
      let src := { src with sharedSigningKey := some pem }
      match readText src.config >>= selectKey with
      | .error e => (.error e, src)
      | .ok configText => (.ok (), { src with config := writeText configText })

/-! ### What the step is for -/

/-- A `.config`: a carriage return stands in it at the end of a line only. -/
structure Config where
  text : Text
  lineEnds : '\r' ∉ dropReturns text

/-- What the script reads of a `.config`. -/
def Config.read (c : Config) : Text := universalNewlines c.text

/-- When the step succeeds, `CONFIG_MODULE_SIG_KEY` has the shared key as its value, every other symbol
the value it had, and another run leaves the `.config` as it is.  When it fails, so does this one. -/
def Promise (encoded : Text) (c : Config) : Prop :=
  ∀ key src, injectKey encoded ⟨writeText c.text, key⟩ = src →
    match src with
    | (.ok (), src) => ∃ text, src.config = writeText text ∧
        effective text "MODULE_SIG_KEY".toList = some "certs/shared_signing_key.pem".toList ∧
        (∀ sym, sym ≠ "MODULE_SIG_KEY".toList → effective text sym = effective c.text sym) ∧
        (injectKey encoded src).2.config = src.config
    | (.error _, src) => src.config = writeText c.text

/-- The edit the step makes. -/
def selectShared : Edit where
  key := "MODULE_SIG_KEY".toList
  oldValue := "certs/signing_key.pem".toList
  newValue := "certs/shared_signing_key.pem".toList
  key_solid := by decide
  plain := by decide
  ne := by decide
  mark := by decide
  line := by decide

theorem old_eq : old = selectShared.old := by decide

theorem new_eq : new = selectShared.new := by decide

theorem selectKey_eq (text : Text) : selectKey text =
    if old <:+: text ∨ new <:+: text then .ok (selectShared.edited text)
    else .error (.systemExit "CONFIG_MODULE_SIG_KEY was not found in kernel config") := by
  rw [selectKey, Edit.edited, ← old_eq, ← new_eq]
  by_cases hold : old <:+: text
  · rw [if_pos hold, if_pos (.inl hold), if_pos hold]
  · by_cases hnew : new <:+: text
    · rw [if_neg hold, if_neg (not_not.mpr hnew), if_pos (.inr hnew), if_neg hold]
    · rw [if_neg hold, if_pos hnew, if_neg (not_or.mpr ⟨hold, hnew⟩)]

/-! ### When it does that -/

variable {encoded : Text}

/-- The step, with a key that decodes. -/
theorem injectKey_eq (hset : strip encoded ≠ []) {pem : Bytes} (hkey : decodeKey encoded = .ok pem)
    (text : Text) (key : Option Bytes) : injectKey encoded ⟨writeText text, key⟩ =
      match selectKey (universalNewlines text) with
      | .error e => (.error e, ⟨writeText text, some pem⟩)
      | .ok configText => (.ok (), ⟨writeText configText, some pem⟩) := by
  simp only [injectKey, if_neg hset, hkey, readText_writeText_eq, ok_bind]

theorem new_infix_edited {text : Text} (h : old <:+: text ∨ new <:+: text) :
    new <:+: selectShared.edited text := by
  by_cases hold : old <:+: text
  · rw [old_eq] at hold
    obtain ⟨p, q, hcut⟩ := exists_firstCut (Edit.old_ne_nil _) hold
    rw [Edit.edited_of_firstCut hcut, new_eq]
    exact ⟨p, q, by simp⟩
  · rw [Edit.edited, if_neg (old_eq ▸ hold)]
    exact h.resolve_left hold

theorem Config.effective_read (c : Config) (sym : Text) : effective c.read sym = effective c.text sym := by
  rw [effective, effective, lines, lines, read, universalNewlines_eq_dropReturns c.lineEnds,
    dropReturns_eq_self c.lineEnds]

theorem Config.not_mem_read (c : Config) : '\r' ∉ c.read := by
  rw [read, universalNewlines_eq_dropReturns c.lineEnds]
  exact c.lineEnds

/-- Where the step edits the `.config`, it does what it is for when the edit is the right one. -/
theorem promise_iff_sets (hset : strip encoded ≠ []) {pem : Bytes} (hkey : decodeKey encoded = .ok pem)
    {c : Config} (hfound : old <:+: c.read ∨ new <:+: c.read) :
    Promise encoded c ↔ selectShared.Sets c.read := by
  have hedited := Edit.not_mem_edited (e := selectShared) c.not_mem_read
  have hfirst : ∀ key, injectKey encoded ⟨writeText c.text, key⟩ =
      (.ok (), ⟨writeText (selectShared.edited c.read), some pem⟩) := fun key => by
    rw [injectKey_eq hset hkey, ← Config.read, selectKey_eq, if_pos hfound]
  have hsecond : (injectKey encoded ⟨writeText (selectShared.edited c.read), some pem⟩).2.config =
      writeText (selectShared.edited (selectShared.edited c.read)) := by
    rw [injectKey_eq hset hkey, universalNewlines_eq_self hedited, selectKey_eq,
      if_pos (.inr (new_infix_edited hfound))]
  constructor
  · intro h
    obtain ⟨text, htext, hvalue, hothers, hagain⟩ := h none _ (hfirst none)
    obtain rfl := writeText_injective htext
    rw [hsecond] at hagain
    exact ⟨hvalue, fun sym hne => (hothers sym hne).trans (c.effective_read sym).symm,
      writeText_injective hagain⟩
  · rintro h key _ rfl
    rw [hfirst]
    exact ⟨_, rfl, h.value, fun sym hne => (h.others sym hne).trans (c.effective_read sym), by
      rw [hsecond, h.again]⟩

/-- **The signing key** is selected, by a step that succeeds, exactly where the edit is right for the
`.config`. -/
theorem injectKey_promise_iff (hset : strip encoded ≠ []) (c : Config) :
    Promise encoded c ↔ ((∃ pem, decodeKey encoded = .ok pem) → old <:+: c.read ∨ new <:+: c.read →
      selectShared.Sound c.read) := by
  cases hkey : decodeKey encoded with
  | error e =>
      refine iff_of_true ?_ fun ⟨pem, hpem⟩ => nomatch hpem
      rintro key _ rfl
      simp [injectKey, hset, hkey]
  | ok pem =>
      by_cases hfound : old <:+: c.read ∨ new <:+: c.read
      · rw [promise_iff_sets hset hkey hfound, Edit.sets_iff_sound c.not_mem_read]
        exact ⟨fun h _ _ => h, fun h => h ⟨pem, rfl⟩ hfound⟩
      · refine iff_of_true ?_ fun _ h => absurd h hfound
        rintro key _ rfl
        rw [injectKey_eq hset hkey, ← Config.read, selectKey_eq, if_neg hfound]

/-! ### Two `.config`s -/

/-- A build argument that decodes to `BEGIN`. -/
def sampleKey : Text := "QkVH\nSU4=\n".toList

/-- A `.config` with the assignment, as the repository has it. -/
def sampleConfig : Config where
  text := "CONFIG_MODULE_SIG=y\n".toList ++ old ++ ['\n']
  lineEnds := by decide

theorem injectKey_promise_iff_sample : Promise sampleKey sampleConfig ↔
    ((∃ pem, decodeKey sampleKey = .ok pem) → old <:+: sampleConfig.read ∨ new <:+: sampleConfig.read →
      selectShared.Sound sampleConfig.read) :=
  injectKey_promise_iff (by decide) sampleConfig

/-- The same assignment, behind a comment in which it is spelt. -/
def commentedConfig : Config where
  text := "# ".toList ++ old ++ '\n' :: old ++ ['\n']
  lineEnds := by decide

/-- The step edits the comment, and the kernel is built with the old key. -/
theorem commented_not_selected : ¬ ∀ encoded c, strip encoded ≠ [] → Promise encoded c := by
  intro h
  have hkey : decodeKey sampleKey = .ok (encodeUtf8 "BEGIN") := by decide +kernel
  have hfound : old <:+: commentedConfig.read := by decide +kernel
  have hpromise := h sampleKey commentedConfig (by decide +kernel)
  have hvalue := ((promise_iff_sets (by decide +kernel) hkey (.inl hfound)).mp hpromise).value
  revert hvalue
  decide +kernel

end TalosP2P.Kernel
