import TalosP2P.Extensions.Archive
import TalosP2P.Installer.Rootfs

/-!
# Installer — Termination

When the three offset loops of `build-installer.sh` end.  A size field is whatever `int(·, 16)`
takes, so it may be negative, and the next offset may be the one the loop is at or one before it.

* `acyclic_of_sizes`: sizes that are not negative move the offset forward.
* `loops_end_iff`: each loop ends exactly when no record it comes to leads back to its own offset.
-/

namespace TalosP2P.Installer

open Python Newc Loop Relation

theorem le_align (value : Int) : value ≤ align value := by
  rw [align]; omega

/-- The next offset lies behind the record when its sizes are not negative. -/
theorem lt_next_of_sizes {data : Bytes} {o : Int} {r : RecordAt} (h : readRecord data o = .ok r)
    (hn : 0 ≤ r.fields.namesize) (hm : 0 ≤ r.fields.filesize) : o < r.next := by
  simp only [readRecord] at h
  split at h
  · cases h
  · obtain ⟨f, -, h⟩ := bind_eq_ok_iff.mp h
    obtain ⟨name, -, h⟩ := bind_eq_ok_iff.mp h
    cases h
    simp only at hn hm ⊢
    have h₁ := le_align (o + 110 + f.namesize)
    have h₂ := le_align (align (o + 110 + f.namesize) + f.filesize)
    omega

/-- **Sizes that are not negative** lead nowhere back. -/
theorem acyclic_of_sizes {stop : String → Prop} {data : Bytes} {start : Int}
    (h : ∀ o r, ReflTransGen (Follows stop data) start o → readRecord data o = .ok r →
      0 ≤ r.fields.namesize ∧ 0 ≤ r.fields.filesize) : Acyclic (Follows stop data) start := by
  refine Acyclic.of_increasing id fun o o' ho hnext => ?_
  obtain ⟨-, r, hr, -, rfl⟩ := hnext
  obtain ⟨hn, hm⟩ := h o r ho hr
  exact lt_next_of_sizes hr hn hm

/-- Why a loop that walks a file ends. -/
theorem Walks.exists_returns_iff {σ ρ : Type} {data : Bytes} {stop : String → Prop}
    {missing : String} {key : σ → Int} {finish : σ → RecordAt → ρ}
    {turn : σ → Except Exc (Turn σ ρ)} (hw : Walks data stop missing key finish turn) (s : σ) :
    (∃ r, Returns turn s r) ↔ Acyclic (Follows stop data) (key s) :=
  hw.keyed.exists_returns_iff (finite_follows stop data) s

/-- **When the loops end.**  On every file, each of the three loops ends exactly when no record it
comes to leads back to its own offset: the extraction of `rootfs.sqsh`, the `parse_archive` of the
extension archives from any offset, and the `parse_archive` of the rewrite. -/
theorem loops_end_iff (data : Bytes) :
    ((∃ r, Extracts data r) ↔ Acyclic (Follows EndsExtraction data) 0) ∧
      (∀ offset, (∃ r fuel, Extensions.parseArchive fuel data offset = some r) ↔
        Acyclic (Follows (· = "TRAILER!!!") data) offset) ∧
      ((∃ r, Parses data r) ↔ Acyclic (Follows (· = "TRAILER!!!") data) 0) := by
  refine ⟨?_, fun offset => ?_, ?_⟩
  · exact (walks_extractTurn data).exists_returns_iff 0
  · exact (walks_scanTurn _ _ _ data).exists_returns_iff (offset, [])
  · exact (walks_scanTurn _ _ _ data).exists_returns_iff ((0 : Int), [])

/-- A header whose name size is -112, and nothing after it. -/
def backwardFile : Bytes :=
  magic ++ (List.replicate 11 (encodeUtf8 "00000000")).flatten ++ encodeUtf8 "-0000070" ++
    encodeUtf8 "00000000"

/-- The record of this file leads back to itself, and no loop ends. -/
theorem backwardFile_never_ends : (¬ ∃ r, Extracts backwardFile r) ∧
    (¬ ∃ r fuel, Extensions.parseArchive fuel backwardFile 0 = some r) ∧
    ¬ ∃ r, Parses backwardFile r := by
  have hread : ∃ r, readRecord backwardFile 0 = .ok r ∧ r.name = "" ∧ r.next = 0 := by
    refine ⟨⟨⟨0, 0, 0, 0, 0, 0, 0, 0, 0, 0, 0, -112, 0⟩, "", [], 0⟩, ?_, rfl, rfl⟩
    decide +kernel
  obtain ⟨r, hr, hname, hnext⟩ := hread
  have hback : ∀ stop : String → Prop, ¬ stop "" → TransGen (Follows stop backwardFile) 0 0 :=
    fun stop hstop => .single ⟨by decide +kernel, r, hr, by rwa [hname], hnext⟩
  have htrailer := hback (· = "TRAILER!!!") (by decide)
  refine ⟨?_, ?_, ?_⟩
  · exact (walks_extractTurn backwardFile).keyed.not_returns_of_cycle (hback _ (by decide)) .refl
  · exact (walks_scanTurn _ _ _ backwardFile).keyed.not_returns_of_cycle (s := ((0 : Int), []))
      htrailer .refl
  · exact (walks_scanTurn _ _ _ backwardFile).keyed.not_returns_of_cycle (s := ((0 : Int), []))
      htrailer .refl

end TalosP2P.Installer
