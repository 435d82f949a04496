import Mathlib.Data.Bool.AllAny
import TalosP2P.Support.Runs
import TalosP2P.Support.Shell

/-!
# Samekey — SigKey

The two gates that compare the keys of two kernel modules: `verify-same-signing-key.sh` asks
`modinfo -F sig_key` for each, and `build-samekey-installer-base.py` looks for the `sig_key:` line of
`modinfo`.

What `modinfo` prints is a parameter, and `Lawful` what it is known to print of a signed module and
of an unsigned one.

* `verify_iff`, `check_iff`: which pairs each gate accepts.
* `gates_agree_iff`: they agree on all pairs but one kind, that of two modules without a signature.
-/

namespace TalosP2P.Samekey

open Python Shell

/-- What `modinfo` prints of a module: everything, and one field. -/
structure Modinfo (Module : Type) where
  all : Module → Text
  field : String → Module → Text

/-- A line begins with `sig_key:`. -/
def isSigKeyLine (line : Text) : Bool := "sig_key:".toList.isPrefixOf line

/-- What `modinfo` prints of the key of a module, where `sigKey` is the key id of a signed module: a
text without white space, on the `sig_key:` line and as the only value of the field.  Of a module
without a signature it prints neither. -/
structure Modinfo.Lawful {Module : Type} (modinfo : Modinfo Module)
    (sigKey : Module → Option Text) : Prop where
  nonempty : ∀ {m key}, sigKey m = some key → key ≠ []
  solid : ∀ {m key}, sigKey m = some key → ∀ c ∈ key, isWhitespace c = false ∧ c ≠ Char.ofNat 0
  line : ∀ {m key}, sigKey m = some key → ∃ n,
    (splitLines (modinfo.all m)).find? isSigKeyLine =
      some ("sig_key:".toList ++ (List.replicate n ' ' ++ key))
  field : ∀ {m key}, sigKey m = some key → modinfo.field "sig_key" m = key ++ ['\n']
  noLine : ∀ {m}, sigKey m = none → (splitLines (modinfo.all m)).find? isSigKeyLine = none
  noField : ∀ {m}, sigKey m = none → modinfo.field "sig_key" m = []

section

variable {Module : Type} (modinfo : Modinfo Module)

/-! ### `verify-same-signing-key.sh` -/

/-- What the script printed, and the error with which it ended, if it did. -/
structure Verdict where
  printed : List Word
  error : Option Failure
  deriving DecidableEq, Repr

/-- `verify-same-signing-key.sh`, from the modules it found in the two images. -/
def verifySameSigningKey (kernelImage p2pPkgImage : Word) (ahci nvidia : Option Module) : Verdict :=
  match ahci, nvidia with
  | none, _ => ⟨[], some ⟨"could not find ahci.ko in '".toList ++ kernelImage ++ "'".toList⟩⟩
  | _, none => ⟨[], some ⟨"could not find nvidia.ko in '".toList ++ p2pPkgImage ++ "'".toList⟩⟩
  | some ahci, some nvidia =>
    let kernelSigner := captured (modinfo.field "signer" ahci)
    let kernelSigKey := captured (modinfo.field "sig_key" ahci)
    let nvidiaSigner := captured (modinfo.field "signer" nvidia)
    let nvidiaSigKey := captured (modinfo.field "sig_key" nvidia)
    let printed := ["kernel signer: ".toList ++ kernelSigner, "kernel sig_key: ".toList ++ kernelSigKey,
      "nvidia signer: ".toList ++ nvidiaSigner, "nvidia sig_key: ".toList ++ nvidiaSigKey]
    if kernelSigKey ≠ nvidiaSigKey then
      ⟨printed, some ⟨"kernel and NVIDIA modules were signed by different keys".toList⟩⟩
    else
      ⟨printed ++ ["verified shared signing key: ".toList ++ kernelSigKey], none⟩

/-! ### `build-samekey-installer-base.py` -/

def extractModinfoKey (modulePath : String) (m : Module) : Except Exc Text :=
  match (splitLines (modinfo.all m)).find? isSigKeyLine with
  | some line => .ok (strip (afterFirst ':' line))
  | none => .error (.runtimeError ("sig_key not found in modinfo for " ++ modulePath))

/-- The check of `main`, from the `ahci.ko` of the kernel and the one of the rebuilt rootfs, written
to the work dir under these two paths. -/
def checkSigKey (samekeyPath rebuiltPath : String) (samekeyAhci rebuiltAhci : Module) :
    Except Exc Unit := do
  let samekeySigKey ← extractModinfoKey modinfo samekeyPath samekeyAhci
  let rebuiltSigKey ← extractModinfoKey modinfo rebuiltPath rebuiltAhci
  if samekeySigKey ≠ rebuiltSigKey then
    throw (.runtimeError ("rebuilt rootfs module sig_key " ++ String.ofList rebuiltSigKey ++
      " does not match samekey kernel sig_key " ++ String.ofList samekeySigKey))

end

/-! ### What the gates accept -/

section

variable {Module : Type} {modinfo : Modinfo Module} {sigKey : Module → Option Text}

/-- The key the script reads: empty when there is none. -/
theorem captured_sigKey (h : modinfo.Lawful sigKey) (m : Module) :
    captured (modinfo.field "sig_key" m) = (sigKey m).getD [] := by
  cases hm : sigKey m with
  | none =>
      rw [h.noField hm]
      rfl
  | some key =>
      rw [h.field hm]
      refine captured_line fun c hc => ⟨(h.solid hm c hc).2, ?_⟩
      rintro rfl
      have := (h.solid hm _ hc).1
      revert this
      decide

/-- The script accepts two modules with one key, or without any. -/
theorem verify_iff (h : modinfo.Lawful sigKey) (kernelImage p2pPkgImage : Word) (ahci nvidia : Module) :
    (verifySameSigningKey modinfo kernelImage p2pPkgImage (some ahci) (some nvidia)).error = none ↔
      sigKey ahci = sigKey nvidia := by
  have hkey : (sigKey ahci).getD [] = (sigKey nvidia).getD [] ↔ sigKey ahci = sigKey nvidia := by
    cases ha : sigKey ahci with
    | none =>
        cases hn : sigKey nvidia with
        | none => simp
        | some key => simpa using (h.nonempty hn).symm
    | some key =>
        cases hn : sigKey nvidia with
        | none => simpa using h.nonempty ha
        | some key' => simp
  simp only [verifySameSigningKey, captured_sigKey h, ← hkey]
  split
  · simpa
  · simp_all

theorem extractModinfoKey_eq (h : modinfo.Lawful sigKey) (path : String) (m : Module) :
    extractModinfoKey modinfo path m =
      orRaise (.runtimeError ("sig_key not found in modinfo for " ++ path)) (sigKey m) := by
  cases hm : sigKey m with
  | none => rw [extractModinfoKey, h.noLine hm, orRaise]
  | some key =>
      obtain ⟨n, hline⟩ := h.line hm
      have hcolon : ':' ∉ "sig_key".toList := by decide
      have hafter : afterFirst ':' ("sig_key:".toList ++ (List.replicate n ' ' ++ key)) =
          List.replicate n ' ' ++ key :=
        afterFirst_append hcolon
      have hstrip : strip (List.replicate n ' ' ++ key) = key := by
        have hspace : ∀ c ∈ List.replicate n ' ', isWhitespace c = true := fun c hc => by
          rw [List.eq_of_mem_replicate hc]
          decide
        rw [strip, stripWhere_append_of_all hspace]
        exact stripWhere_eq_self (fun c hc => (h.solid hm c (List.mem_of_mem_head? hc)).1)
          (fun c hc => (h.solid hm c (List.mem_of_mem_getLast? hc)).1)
      simp only [extractModinfoKey, hline, hafter, hstrip, orRaise]

/-- The check accepts two modules with one key. -/
theorem check_iff (h : modinfo.Lawful sigKey) (samekeyPath rebuiltPath : String)
    (samekeyAhci rebuiltAhci : Module) :
    checkSigKey modinfo samekeyPath rebuiltPath samekeyAhci rebuiltAhci = .ok () ↔
      ∃ key, sigKey samekeyAhci = some key ∧ sigKey rebuiltAhci = some key := by
  simp only [checkSigKey, extractModinfoKey_eq h, bind_eq_ok_iff, orRaise_eq_ok_iff]
  constructor
  · rintro ⟨key, hsame, key', hrebuilt, hcheck⟩
    split at hcheck
    · cases hcheck
    · rename_i heq
      exact ⟨key, hsame, by rw [hrebuilt, not_not.mp heq]⟩
  · rintro ⟨key, hsame, hrebuilt⟩
    exact ⟨key, hsame, key, hrebuilt, by simp⟩

variable (modinfo sigKey) in
/-- The gates agree on a pair, and let it through only when one key signed both modules. -/
def GatesAgree (a b : Module) : Prop :=
  ∀ kernelImage p2pPkgImage samekeyPath rebuiltPath,
    let shell := (verifySameSigningKey modinfo kernelImage p2pPkgImage (some a) (some b)).error = none
    let python := checkSigKey modinfo samekeyPath rebuiltPath a b = .ok ()
    (shell ↔ python) ∧ (shell ∨ python → ∃ key, sigKey a = some key ∧ sigKey b = some key)

/-- **The two gates** agree on a pair exactly when one of its modules is signed. -/
theorem gates_agree_iff (h : modinfo.Lawful sigKey) (a b : Module) :
    GatesAgree modinfo sigKey a b ↔ ¬ (sigKey a = none ∧ sigKey b = none) := by
  simp only [GatesAgree, verify_iff h, check_iff h]
  constructor
  · rintro hagree ⟨ha, hb⟩
    obtain ⟨key, hkey, -⟩ := (hagree [] [] "" "").2 (.inl (by rw [ha, hb]))
    rw [ha] at hkey
    cases hkey
  · intro hsigned _ _ _ _
    have hiff : sigKey a = sigKey b ↔ ∃ key, sigKey a = some key ∧ sigKey b = some key := by
      constructor
      · intro heq
        cases ha : sigKey a with
        | none => exact absurd ⟨ha, heq ▸ ha⟩ hsigned
        | some key => exact ⟨key, rfl, by rw [← heq, ha]⟩
      · rintro ⟨key, ha, hb⟩
        rw [ha, hb]
    exact ⟨hiff, fun hor => hor.elim hiff.mp id⟩

end

/-! ### Four modules -/

/-- Two modules of one build, one of another, and one without a signature. -/
inductive Sample where
  | ahci
  | nvidia
  | foreign
  | unsigned
  deriving DecidableEq, Repr

def Sample.sigKey : Sample → Option Text
  | .ahci | .nvidia => some "3B:0A:94:5E".toList
  | .foreign => some "71:C2:0D:88".toList
  | .unsigned => none

/-- What `modinfo` prints of the four. -/
def sampleModinfo : Modinfo Sample where
  all m := match m.sigKey with
    | some key => "license:        GPL\nsig_id:         PKCS#7\nsigner:         Build time key\n".toList ++
        ("sig_key:        ".toList ++ (key ++ "\nsig_hashalgo:   sha512\n".toList))
    | none => "license:        GPL\n".toList
  field name m := match m.sigKey with
    | some key => if name = "sig_key" then key ++ ['\n']
        else if name = "signer" then "Build time key\n".toList else []
    | none => []

theorem sampleModinfo_lawful : sampleModinfo.Lawful Sample.sigKey where
  nonempty {m key} h := by cases m <;> cases h <;> decide
  solid {m key} h := by cases m <;> cases h <;> exact List.all_iff_forall_prop.mp (by decide)
  line {m key} h := by cases m <;> cases h <;> exact ⟨8, by decide +kernel⟩
  field {m key} h := by cases m <;> cases h <;> rfl
  noLine {m} h := by cases m <;> cases h; decide +kernel
  noField {m} h := by cases m <;> cases h; rfl

theorem gates_agree_iff_sample : GatesAgree sampleModinfo Sample.sigKey .ahci .foreign ↔
    ¬ (Sample.sigKey .ahci = none ∧ Sample.sigKey .foreign = none) :=
  gates_agree_iff sampleModinfo_lawful .ahci .foreign

/-- Two modules without a signature go through one gate and not through the other. -/
theorem unsigned_disagree : ¬ ∀ (Module : Type) (modinfo : Modinfo Module)
    (sigKey : Module → Option Text), modinfo.Lawful sigKey → ∀ a b, GatesAgree modinfo sigKey a b := by
  intro hall
  have hagree := hall Sample sampleModinfo Sample.sigKey sampleModinfo_lawful .unsigned .unsigned
  obtain ⟨key, hkey, -⟩ := (hagree [] [] "" "").2 (.inl (by decide))
  cases hkey

end TalosP2P.Samekey
