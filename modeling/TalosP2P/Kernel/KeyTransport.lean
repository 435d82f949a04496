import TalosP2P.Kernel.SigningKey
import TalosP2P.Support.Base64
import TalosP2P.Support.Runs

/-!
# Kernel — KeyTransport

The signing key on its way from `generate-module-signing-key.sh`, which prints it as base64, to the
kernel trees of the two builds that get it as a build argument: the kernel, and the modules of the
P2P package.

* `decodeKey_generated`: what was printed decodes, whatever white space stands in it.
* `generated_key_selected`: the key file of the tree, and when the `.config` selects it.
-/

namespace TalosP2P.Kernel

open Python Kconfig

/-- `generate-module-signing-key.sh` prints the key it has generated. -/
def generateModuleSigningKey (pem : Bytes) : Text := Base64.encode pem

variable {pem : Bytes} {encoded : Text}

theorem decodeKey_generated (hpem : encodeUtf8 "BEGIN" <:+: pem)
    (h : (encoded.filter fun c => !isWhitespace c) = generateModuleSigningKey pem) :
    decodeKey encoded = .ok pem := by
  have hdecode : b64decode (generateModuleSigningKey pem) = .ok pem :=
    orRaise_eq_ok_iff.mpr (Base64.base64Groups_encode pem)
  rw [decodeKey, h, hdecode]
  simp only [ok_bind, hpem, not_true, if_false, pure_eq_ok]

/-- A key is no blank argument. -/
theorem strip_ne_nil (hpem : encodeUtf8 "BEGIN" <:+: pem)
    (h : (encoded.filter fun c => !isWhitespace c) = generateModuleSigningKey pem) :
    strip encoded ≠ [] := by
  intro hblank
  have hnil : (encoded.filter fun c => !isWhitespace c) = [] :=
    List.filter_eq_nil_iff.mpr fun c hc => by simp [stripWhere_eq_nil_iff.mp hblank c hc]
  have hdecode := Base64.base64Groups_encode pem
  rw [← generateModuleSigningKey, ← h, hnil] at hdecode
  rw [← Option.some.inj hdecode] at hpem
  exact absurd hpem (by decide)

/-- The tree signs its modules with the key: the `.config` selects the key file and gives every other
symbol the value `config` gives it, and the file holds the key. -/
structure Signs (pem : Bytes) (config : Text) (src : Tree) : Prop where
  selected : ∃ text, src.config = writeText text ∧
    effective text "MODULE_SIG_KEY".toList = some "certs/shared_signing_key.pem".toList ∧
    ∀ sym, sym ≠ "MODULE_SIG_KEY".toList → effective text sym = effective config sym
  key : src.sharedSigningKey = some pem

/-- **The generated key.**  Whatever key was generated, and whatever white space its argument picked
up: a tree whose `.config` spells an assignment gets the key byte for byte, in place of any it had.  It
signs with it, and the step run again changes nothing, exactly where the edit is right for the
`.config`. -/
theorem generated_key_selected (hpem : encodeUtf8 "BEGIN" <:+: pem)
    (h : (encoded.filter fun c => !isWhitespace c) = generateModuleSigningKey pem) (c : Config)
    (hfound : old <:+: c.read ∨ new <:+: c.read) (key : Option Bytes) :
    ∃ src, injectKey encoded ⟨writeText c.text, key⟩ = (.ok (), src) ∧
      src.sharedSigningKey = some pem ∧
      (Signs pem c.text src ∧ injectKey encoded src = (.ok (), src) ↔ selectShared.Sound c.read) := by
  have hset := strip_ne_nil hpem h
  have hkey := decodeKey_generated hpem h
  have hfirst : injectKey encoded ⟨writeText c.text, key⟩ =
      (.ok (), ⟨writeText (selectShared.edited c.read), some pem⟩) := by
    rw [injectKey_eq hset hkey, ← Config.read, selectKey_eq, if_pos hfound]
  have hsecond : injectKey encoded ⟨writeText (selectShared.edited c.read), some pem⟩ =
      (.ok (), ⟨writeText (selectShared.edited (selectShared.edited c.read)), some pem⟩) := by
    rw [injectKey_eq hset hkey, universalNewlines_eq_self (Kconfig.Edit.not_mem_edited c.not_mem_read),
      selectKey_eq, if_pos (.inr (new_infix_edited hfound))]
  refine ⟨_, hfirst, rfl, ?_⟩
  rw [hsecond, ← Edit.sets_iff_sound c.not_mem_read]
  constructor
  · rintro ⟨⟨⟨text, htext, hvalue, hothers⟩, -⟩, hagain⟩
    obtain rfl := writeText_injective htext
    refine ⟨hvalue, fun sym hne => (hothers sym hne).trans (c.effective_read sym).symm, ?_⟩
    exact writeText_injective (congrArg (fun r => r.2.config) hagain)
  · intro hsets
    refine ⟨⟨⟨_, rfl, hsets.value, fun sym hne => ?_⟩, rfl⟩, by rw [hsets.again]⟩
    exact (hsets.others sym hne).trans (c.effective_read sym)

/-- The key `BEGIN`, whose argument was broken into two lines. -/
theorem generated_key_selected_sample : ∃ src,
    injectKey sampleKey ⟨writeText sampleConfig.text, none⟩ = (.ok (), src) ∧
      src.sharedSigningKey = some (encodeUtf8 "BEGIN") := by
  obtain ⟨src, hsrc, hkey, -⟩ := @generated_key_selected _ sampleKey
    (List.infix_refl (encodeUtf8 "BEGIN")) (by decide) sampleConfig (.inl (by decide)) none
  exact ⟨src, hsrc, hkey⟩

end TalosP2P.Kernel
