import TalosP2P.Installer.Walk

/-!
# Installer — Rootfs

The step of `build-installer.sh` that takes `rootfs.sqsh` out of the decompressed initramfs: a loop
over the file that writes the data of the first `rootfs.sqsh` it comes to, and leaves at a
`TRAILER!!!` without writing anything.  Only a loop that runs out of data takes the `else` arm, which
raises.

* `walks_extractTurn`: the loop is one of those that walk a file by offset.
* `extracts_prefix`: what it does on an archive cut anywhere, by the first record that ends it.
* `delivers_iff`: on which prefixes of an archive it delivers the file, or raises where there is
  none.
-/

namespace TalosP2P.Installer

open Python Newc Loop

/-- The text of the `else` arm. -/
def rootfsMissing : String := "rootfs.sqsh not found in raw initramfs"

/-- One turn of the loop, whose state is the offset.  The loop is left with the data it wrote to the
output file, or with nothing when it wrote none. -/
def extractTurn (data : Bytes) (offset : Int) : Except Exc (Turn Int (Option Bytes)) := do
  if offset + 110 ≤ data.length then
    let r ← readRecord data offset
    if r.name = "TRAILER!!!" then
      -- `break`, which skips the `else` arm
      return .done none
    if r.name = "rootfs.sqsh" then
      return .done (some r.filedata)
    return .next r.next
  throw (.systemExit rootfsMissing)

/-- The step, given up after `fuel` turns: the output file, if one is written. -/
def extractRootfs (fuel : Nat) (data : Bytes) : Option (Except Exc (Option Bytes)) :=
  Loop.run (extractTurn data) fuel 0

/-- The step exits with `r`. -/
def Extracts (data : Bytes) (r : Except Exc (Option Bytes)) : Prop :=
  ∃ fuel, extractRootfs fuel data = some r

theorem Extracts.unique {data : Bytes} {r₁ r₂ : Except Exc (Option Bytes)}
    (h₁ : Extracts data r₁) (h₂ : Extracts data r₂) : r₁ = r₂ :=
  Returns.unique h₁ h₂

/-- The names the loop ends at. -/
def EndsExtraction (name : String) : Prop := name = "TRAILER!!!" ∨ name = "rootfs.sqsh"

instance : DecidablePred EndsExtraction := fun _ => inferInstanceAs (Decidable (_ ∨ _))

theorem walks_extractTurn (data : Bytes) :
    Walks data EndsExtraction rootfsMissing id
      (fun _ r => if r.name = "TRAILER!!!" then none else some r.filedata) (extractTurn data) where
  missing s h := by simp only [extractTurn, id] at h ⊢; rw [if_neg h]; rfl
  error s e h hr := by simp only [extractTurn, id] at h hr ⊢; rw [if_pos h, hr]; rfl
  done s r h hr hn := by
    simp only [extractTurn, id] at h hr ⊢
    simp only [if_pos h, hr, ok_bind]
    rcases hn with hn | hn
    · simp only [if_pos hn]; rfl
    · have : r.name ≠ "TRAILER!!!" := by rw [hn]; decide
      simp only [if_neg this, if_pos hn]; rfl
  next s r h hr hn := by
    simp only [extractTurn, id] at h hr ⊢
    obtain ⟨h₁, h₂⟩ := not_or.mp hn
    refine ⟨_, ?_, rfl⟩
    simp only [if_pos h, hr, ok_bind, if_neg h₁, if_neg h₂]
    rfl

/-! ### Archives cut anywhere -/

/-- The first record, among those whose header lies in the first `k` bytes, at which the loop ends:
it shows `TRAILER!!!` or `rootfs.sqsh`, or a name that is not UTF-8. -/
def stopsAt (a : Archive) (k : Nat) : Option (Record × Nat) :=
  (shown a.records k).find? (endsAt EndsExtraction)

/-- An entry named `rootfs.sqsh` lies before the trailer with its complete declared data `d` in the
first `k` bytes. -/
def Delivered (a : Archive) (k : Nat) (d : Bytes) : Prop :=
  ∃ p ∈ shown a.members k, p.1.name = encodeUtf8 "rootfs.sqsh" ∧ p.1.Whole p.2 ∧ p.1.data = d

/-- What the step should do on the first `k` bytes of an archive: exit with the data of an entry
that is there, and raise when there is none. -/
def DeliversExactly (a : Archive) (k : Nat) : Prop :=
  ∃ r, Extracts (a.bytes.take k) r ∧
    ((∃ d, Delivered a k d) → ∃ d, Delivered a k d ∧ r = .ok (some d)) ∧
    ((¬ ∃ d, Delivered a k d) → ∃ e, r = .error e)

/-- **What the step does** on an archive cut anywhere. -/
theorem extracts_prefix (a : Archive) (k : Nat) :
    (stopsAt a k = none → Extracts (a.bytes.take k) (.error (.systemExit rootfsMissing))) ∧
      ∀ p, stopsAt a k = some p →
        (decodeUtf8 (p.1.shownName p.2) = none →
          Extracts (a.bytes.take k) (.error .unicodeDecodeError)) ∧
        (p.1.shownName p.2 = trailerName → Extracts (a.bytes.take k) (.ok none)) ∧
        (p.1.shownName p.2 = encodeUtf8 "rootfs.sqsh" →
          Extracts (a.bytes.take k) (.ok (some (p.1.shownData p.2)))) := by
  have hdrop : (a.bytes.take k).drop 0 = (a.records.flatMap Record.bytes).take k := by
    rw [a.flatMap_records]; rfl
  obtain ⟨hnone, hsome⟩ := (walks_extractTurn (a.bytes.take k)).returns_shown (s := 0)
    (Nat.dvd_zero 4) rfl hdrop
  refine ⟨hnone, fun p hp => ?_⟩
  obtain ⟨hdecode, hname⟩ := hsome p hp
  refine ⟨hdecode, fun h => ?_, fun h => ?_⟩
  · obtain ⟨s, x, hr, hx, -⟩ := hname "TRAILER!!!" (by rw [h]; exact decodeUtf8_encodeUtf8 _)
    rwa [if_pos hx] at hr
  · obtain ⟨s, x, hr, hx, hd⟩ := hname "rootfs.sqsh" (by rw [h]; exact decodeUtf8_encodeUtf8 _)
    have : x.name ≠ "TRAILER!!!" := by rw [hx]; decide
    rwa [if_neg this, hd] at hr

/-- The first record that ends the loop is a `rootfs.sqsh` with its complete data; or its name is not
UTF-8 and no complete `rootfs.sqsh` is there. -/
def StopsWell (a : Archive) (k : Nat) : Prop :=
  ∀ p, stopsAt a k = some p →
    (p.1.name = encodeUtf8 "rootfs.sqsh" ∧ p.1.Whole p.2) ∨
      (decodeUtf8 (p.1.shownName p.2) = none ∧ ¬ ∃ d, Delivered a k d)

theorem rootfs_ne_trailer : encodeUtf8 "rootfs.sqsh" ≠ trailerName := by decide +kernel

/-- A complete `rootfs.sqsh` ends the loop, if nothing before it does. -/
theorem endsAt_of_whole {p : Record × Nat} (hn : p.1.name = encodeUtf8 "rootfs.sqsh")
    (hw : p.1.Whole p.2) : endsAt EndsExtraction p = true := by
  have hu : decodeUtf8 (p.1.shownName p.2) = some "rootfs.sqsh" := by
    rw [hw.1, hn, decodeUtf8_encodeUtf8]
  rw [endsAt_of_some hu]
  exact decide_eq_true (.inr rfl)

/-- A member that is shown among the records. -/
theorem mem_shown_records {a : Archive} {k : Nat} {q : Record × Nat} (hq : q ∈ shown a.members k) :
    q ∈ shown a.records k := by
  rw [Archive.records, shown_append]
  exact List.mem_append_left _ hq

/-- Behind a record that is shown, only a whole record has another one after it. -/
theorem whole_of_stopsAt {a : Archive} {k : Nat} {p q : Record × Nat} (hp : stopsAt a k = some p)
    (hq : q ∈ shown a.members k) (hn : q.1.name = encodeUtf8 "rootfs.sqsh") (hw : q.1.Whole q.2) :
    p.1.Whole p.2 := by
  obtain ⟨-, pre, post, hsplit, hpre⟩ := List.find?_eq_some_iff_append.mp hp
  have hmem : q ∈ pre ++ p :: post := by
    rw [← hsplit]
    exact mem_shown_records hq
  rcases List.mem_append.mp hmem with hq' | hq'
  · have := hpre q hq'
    rw [endsAt_of_whole hn hw] at this
    cases this
  · rcases List.mem_cons.mp hq' with rfl | hq'
    · exact hw
    · have hpair := shown_pairwise a.records k
      rw [hsplit] at hpair
      exact (List.pairwise_cons.mp (List.pairwise_append.mp hpair).2.1).1 q hq'

/-- Where no record ends the loop, no complete `rootfs.sqsh` is there. -/
theorem not_delivered_of_stopsAt {a : Archive} {k : Nat} (hp : stopsAt a k = none) :
    ¬ ∃ d, Delivered a k d := by
  rintro ⟨d, q, hq, hn, hw, -⟩
  exact absurd (endsAt_of_whole hn hw) (List.find?_eq_none.mp hp q (mem_shown_records hq))

/-- A complete `rootfs.sqsh` that ends the loop is an entry, not the trailer. -/
theorem delivered_of_stopsAt {a : Archive} {k : Nat} {p : Record × Nat} (hp : stopsAt a k = some p)
    (hn : p.1.name = encodeUtf8 "rootfs.sqsh") (hw : p.1.Whole p.2) : Delivered a k p.1.data := by
  have hmem := List.mem_of_find?_eq_some hp
  rw [Archive.records, shown_append] at hmem
  have htrailer : p ∉ shown [a.trailer] (k - (a.members.flatMap Record.bytes).length) := by
    intro h
    have := List.mem_singleton.mp (mem_of_mem_shown h)
    rw [this, a.trailer_name] at hn
    exact rootfs_ne_trailer hn.symm
  exact ⟨p, (List.mem_append.mp hmem).resolve_right htrailer, hn, hw, rfl⟩

/-- What the step should do, by what it exits with. -/
theorem deliversExactly_iff {a : Archive} {k : Nat} {r : Except Exc (Option Bytes)}
    (h : Extracts (a.bytes.take k) r) :
    DeliversExactly a k ↔ ((∃ d, Delivered a k d) → ∃ d, Delivered a k d ∧ r = .ok (some d)) ∧
      ((¬ ∃ d, Delivered a k d) → ∃ e, r = .error e) := by
  constructor
  · rintro ⟨r', hr', hr⟩
    rwa [← hr'.unique h]
  · intro hr
    exact ⟨r, h, hr⟩

/-- A step that raises is right exactly when no complete `rootfs.sqsh` is there. -/
theorem deliversExactly_error_iff {a : Archive} {k : Nat} {e : Exc}
    (h : Extracts (a.bytes.take k) (.error e)) :
    DeliversExactly a k ↔ ¬ ∃ d, Delivered a k d := by
  simp [deliversExactly_iff h]

/-- A step that exits without an error and without a file is never right. -/
theorem not_deliversExactly_none {a : Archive} {k : Nat} (h : Extracts (a.bytes.take k) (.ok none)) :
    ¬ DeliversExactly a k := by
  simp only [deliversExactly_iff h, Except.ok.injEq, reduceCtorEq, and_false, exists_false]
  tauto

/-- A step that writes a file is right exactly when it is the data of an entry that is there. -/
theorem deliversExactly_some_iff {a : Archive} {k : Nat} {d : Bytes}
    (h : Extracts (a.bytes.take k) (.ok (some d))) : DeliversExactly a k ↔ Delivered a k d := by
  simp only [deliversExactly_iff h, Except.ok.injEq, Option.some.injEq, reduceCtorEq, exists_false]
  constructor
  · rintro ⟨hthere, hmissing⟩
    obtain ⟨d', hd', rfl⟩ := hthere (not_not.mp hmissing)
    exact hd'
  · intro hd
    exact ⟨fun _ => ⟨d, hd, rfl⟩, fun hmissing => hmissing ⟨d, hd⟩⟩

/-- **The step delivers the file** — the data of a complete `rootfs.sqsh`, or an error where there is
none — exactly on the prefixes of an archive on which its loop ends well. -/
theorem delivers_iff (a : Archive) (k : Nat) : DeliversExactly a k ↔ StopsWell a k := by
  obtain ⟨hnone, hsome⟩ := extracts_prefix a k
  cases hp : stopsAt a k with
  | none =>
      have hstops : StopsWell a k := fun p h => by rw [hp] at h; cases h
      exact iff_of_true ((deliversExactly_error_iff (hnone hp)).mpr (not_delivered_of_stopsAt hp)) hstops
  | some p =>
      obtain ⟨hdecode, htrailer, hrootfs⟩ := hsome p hp
      have hstops : StopsWell a k ↔ (p.1.name = encodeUtf8 "rootfs.sqsh" ∧ p.1.Whole p.2) ∨
          (decodeUtf8 (p.1.shownName p.2) = none ∧ ¬ ∃ d, Delivered a k d) := by
        simp only [StopsWell, hp, Option.some.injEq, forall_eq']
      have hends := List.find?_some hp
      rw [hstops]
      rcases Option.eq_none_or_eq_some (decodeUtf8 (p.1.shownName p.2)) with hu | ⟨name, hu⟩
      · -- The name is not UTF-8, so it is not `rootfs.sqsh` either.
        rw [deliversExactly_error_iff (hdecode hu)]
        refine ⟨fun hd => .inr ⟨hu, hd⟩, ?_⟩
        rintro (⟨hn, hw⟩ | ⟨-, hd⟩)
        · rw [hw.1, hn, decodeUtf8_encodeUtf8] at hu
          cases hu
        · exact hd
      · rw [endsAt_of_some hu, decide_eq_true_eq] at hends
        have hname := encodeUtf8_of_decodeUtf8 hu
        rcases hends with rfl | rfl
        · -- The trailer is shown: the loop ends without an error and without a file.
          refine iff_of_false (not_deliversExactly_none (htrailer hname.symm)) ?_
          rintro (⟨hn, hw⟩ | ⟨hu', -⟩)
          · exact rootfs_ne_trailer (hn.symm.trans (hw.1.symm.trans hname.symm))
          · rw [hu] at hu'
            cases hu'
        · rw [deliversExactly_some_iff (hrootfs hname.symm)]
          constructor
          · rintro ⟨q, hq, hqn, hqw, -⟩
            have hw := whole_of_stopsAt hp hq hqn hqw
            exact .inl ⟨hw.1.symm.trans hname.symm, hw⟩
          · rintro (⟨hn, hw⟩ | ⟨hu', -⟩)
            · rw [hw.2]
              exact delivered_of_stopsAt hp hn hw
            · rw [hu] at hu'
              cases hu'

/-- An initramfs that holds `init` and nothing else. -/
def initOnly : Archive :=
  archiveOf [recordOf ⟨1, 0o100755, 0, 0, 1, 0, 2, 8, 1, 0, 0, 5, 0⟩ (encodeUtf8 "init") [35, 33]
    (.of_lt (by decide) (by decide) rfl)] (by decide)

/-- The whole archive holds no `rootfs.sqsh`, and the step exits without an error and without a
file. -/
theorem initOnly_not_delivered : ¬ DeliversExactly initOnly initOnly.bytes.length := by
  rintro ⟨r, hr, -, hmissing⟩
  have hexit : Extracts (initOnly.bytes.take initOnly.bytes.length) (.ok none) :=
    ⟨2, by decide +kernel⟩
  have hnone : ¬ ∃ d, Delivered initOnly initOnly.bytes.length d := by
    rintro ⟨d, p, hp, hn, -⟩
    obtain ⟨-, pre, post, heq, -⟩ := mem_shown_iff.mp hp
    have hmem : p.1 ∈ initOnly.members := by rw [heq]; simp
    rw [List.mem_singleton.mp hmem] at hn
    exact absurd hn (by decide +kernel)
  obtain ⟨e, rfl⟩ := hmissing hnone
  cases hr.unique hexit

end TalosP2P.Installer
