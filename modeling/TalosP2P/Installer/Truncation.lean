import TalosP2P.Extensions.Archive
import TalosP2P.Installer.Walk

/-!
# Installer — Truncation

What `parse_archive` of `build-installer.sh` makes of a file that ends too early.  The slices of the
loop never fail on short data, but the declared sizes carry the offset past its end, where the loop
is left and the script exits.

* `returns_error_of_cut`: a loop to which no trailer is shown raises.
* `truncated_rejected`: both `parse_archive`s reject what `write_archive` wrote, cut before the
  trailer's name ends.
-/

namespace TalosP2P.Installer

open Python Newc Loop

/-- The exceptions a file cut short ends in. -/
def CutShort (missing : String) (e : Exc) : Prop :=
  e = .systemExit missing ∨ e = .unicodeDecodeError

/-- A loop over a cut archive to which no trailer is shown raises. -/
theorem returns_error_of_cut {σ ρ : Type} {data : Bytes} {missing : String} {key : σ → Int}
    {finish : σ → RecordAt → ρ} {turn : σ → Except Exc (Turn σ ρ)}
    (hw : Walks data (· = "TRAILER!!!") missing key finish turn) {a : Archive} {k : Nat} {s : σ}
    (hs : key s = (0 : Nat)) (hdata : data = a.bytes.take k)
    (hshown : ∀ p ∈ shown a.records k, p.1.shownName p.2 ≠ trailerName) :
    ∃ e, Returns turn s (.error e) ∧ CutShort missing e := by
  have hdrop : data.drop 0 = (a.records.flatMap Record.bytes).take k := by
    rw [a.flatMap_records, List.drop_zero, hdata]
  obtain ⟨hnone, hsome⟩ := hw.returns_shown (Nat.dvd_zero 4) hs hdrop
  cases hp : (shown a.records k).find? (endsAt (· = "TRAILER!!!")) with
  | none => exact ⟨_, hnone hp, .inl rfl⟩
  | some p =>
      rcases Option.eq_none_or_eq_some (decodeUtf8 (p.1.shownName p.2)) with hu | ⟨name, hu⟩
      · exact ⟨_, (hsome p hp).1 hu, .inr rfl⟩
      · have hends := List.find?_some hp
        rw [endsAt_of_some hu, decide_eq_true_eq] at hends
        rw [hends] at hu
        exact absurd (encodeUtf8_of_decodeUtf8 hu).symm (hshown p (List.mem_of_find?_eq_some hp))

theorem length_writeTrailer : writeTrailer.length = 124 := by decide +kernel

/-- Before the last character of the trailer's name no trailer is shown. -/
theorem shownName_ne_trailer {es : List CpioEntry} {a : Archive} {k : Nat}
    (h : ∀ e ∈ es, ¬ "TRAILER!!!".toList <+: e.name.toList)
    (hb : a.bytes = es.flatMap writeEntry ++ writeTrailer)
    (hc : a.members.map Record.content = es.map fun e => (e.fields, encodeUtf8 e.name, e.data))
    (ht : a.trailer.content = (trailerFields, trailerName, []))
    (hk : k < (es.flatMap writeEntry).length + 120) :
    ∀ p ∈ shown a.records k, p.1.shownName p.2 ≠ trailerName := by
  intro p hp hname
  rw [Archive.records, shown_append] at hp
  rcases List.mem_append.mp hp with hp | hp
  · -- The shown part of a member's name begins the name.
    have hmem : p.1.content ∈ es.map fun e => (e.fields, encodeUtf8 e.name, e.data) := by
      rw [← hc]; exact List.mem_map_of_mem (mem_of_mem_shown hp)
    obtain ⟨e, he, hcontent⟩ := List.mem_map.mp hmem
    have hen : p.1.name = encodeUtf8 e.name := congrArg (fun c => c.2.1) hcontent.symm
    refine h e he (toList_prefix_of_encodeUtf8 ?_)
    rw [← hen, ← trailerName, ← hname]
    exact List.take_prefix _ _
  · -- The trailer's name is not shown to its end.
    have hlen := congrArg List.length hb
    have htrailer := a.trailer.length_bytes
    have hdata : a.trailer.data = [] := congrArg (fun c => c.2.2) ht
    have h10 : trailerName.length = 10 := by decide
    rw [Archive.bytes, List.length_append, List.length_append, length_writeTrailer, htrailer,
      Record.length_rawName, a.trailer_name, hdata, h10] at hlen
    obtain ⟨hj, pre, post, -, hkj⟩ := mem_shown_iff.mp hp
    have hshort := congrArg List.length hname
    rw [Record.shownName, List.length_take, h10] at hshort
    simp only [padLen, List.length_nil] at hlen
    omega

/-- **Truncated archives are rejected.**  Cut before the last character of the trailer's name, what
`write_archive` wrote makes both `parse_archive`s raise: with `SystemExit`, or at a name that was
cut inside a character. -/
theorem truncated_rejected {es : List CpioEntry}
    (h : ∀ e ∈ es, e.InRange ∧ ¬ "TRAILER!!!".toList <+: e.name.toList) (trailing : Bytes) {k : Nat}
    (hk : k < (es.flatMap writeEntry).length + 120) :
    (∃ e, Parses ((writeArchive es trailing).take k) (.error e) ∧
      CutShort "TRAILER!!! not found in UKI initrd" e) ∧
    ∃ e, (∃ fuel, Extensions.parseArchive fuel ((writeArchive es trailing).take k) 0 =
      some (.error e)) ∧ CutShort "TRAILER!!! not found in initrd archive" e := by
  have hname : ∀ e ∈ es, e.name ≠ "TRAILER!!!" := fun e he hn => (h e he).2 (by rw [hn])
  obtain ⟨a, hb, hc, ht⟩ := exists_archive fun e he => ⟨(h e he).1, hname e he⟩
  have hdata : (writeArchive es trailing).take k = a.bytes.take k := by
    rw [writeArchive, ← hb, List.take_append_of_le_length]
    rw [hb, List.length_append, length_writeTrailer]
    omega
  have hshown := shownName_ne_trailer (fun e he => (h e he).2) hb hc ht hk
  constructor
  · exact returns_error_of_cut (walks_scanTurn _ _ _ _) (s := ((0 : Int), [])) rfl hdata hshown
  · exact returns_error_of_cut (walks_scanTurn _ _ _ _) (s := ((0 : Int), [])) rfl hdata hshown

/-- The theorem at a file whose name of two bytes is cut in two. -/
theorem truncated_rejected_cutName :
    (∃ e, Parses ((writeArchive [⟨"é", 1, 0o100644, 0, 0, 1, 0, 1, 8, 1, 0, 0, 0, [7]⟩] [9]).take 111)
      (.error e) ∧ CutShort "TRAILER!!! not found in UKI initrd" e) ∧
    ∃ e, (∃ fuel, Extensions.parseArchive fuel
      ((writeArchive [⟨"é", 1, 0o100644, 0, 0, 1, 0, 1, 8, 1, 0, 0, 0, [7]⟩] [9]).take 111) 0 =
      some (.error e)) ∧ CutShort "TRAILER!!! not found in initrd archive" e :=
  truncated_rejected (by decide +kernel) [9] (by decide +kernel)

end TalosP2P.Installer
