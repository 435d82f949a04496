import TalosP2P.Initrd.Boot

/-!
# Initrd — Rerun

A rewriter run on what a rewriter wrote.  The readers accept more than the format: a number may have
a sign, a size may be negative, a name may lack its NUL and data may be cut short.  What they make of
such a record still fits the header the writers lay out, so the second run reads the entries the first
one wrote, and its replacement overwrites the first.

* `Installer.parses_write_of_fits`: the round trip of `parse_archive` for entries that fit.
* `Installer.fits_of_parses`: whatever `parse_archive` accepted fits.
* `rewriters_overwrite`: the second replacement is as if the first had not been.
-/

namespace TalosP2P

open Python Newc Loop

theorem fits08_natCast {n : Nat} (h : n < 2 ^ 32) : Fits08 (n : Int) := by
  constructor <;> push_cast <;> omega

namespace Installer

/-! ### Reading what was written -/

/-- Every number of the header `write_archive` gives the entry is eight characters long. -/
def CpioEntry.Fits (e : CpioEntry) : Prop := ∀ v ∈ e.fields.toList, Fits08 v

/-- The entry as it reads back: its size is that of its data. -/
def CpioEntry.sized (e : CpioEntry) : CpioEntry := { e with filesize := e.data.length }

theorem length_writeRecord {f : Fields} (hf : ∀ v ∈ f.toList, Fits08 v) (name d : Bytes) :
    (writeRecord f name d).length = 110 + (name.length + 1) + padLen (110 + (name.length + 1)) +
      (d.length + padLen d.length) := by
  simp only [writeRecord, List.length_append, length_header hf, length_pad, List.length_singleton]
  omega

theorem four_dvd_writeRecord {f : Fields} (hf : ∀ v ∈ f.toList, Fits08 v) (name d : Bytes) :
    4 ∣ (writeRecord f name d).length := by
  rw [length_writeRecord hf]
  exact Nat.dvd_add (four_dvd_add_padLen _) (four_dvd_add_padLen _)

/-- A record with numbers that fit, at an aligned offset. -/
theorem readRecord_writeRecord {data rest d : Bytes} {name : String} {o : Nat} {f : Fields}
    (ho : 4 ∣ o) (hf : ∀ v ∈ f.toList, Fits08 v)
    (hn : f.namesize = ((encodeUtf8 name).length + 1 : Nat)) (hd : f.filesize = d.length)
    (hdrop : data.drop o = writeRecord f (encodeUtf8 name) d ++ rest) :
    readRecord data o =
      .ok ⟨f, name, d, (o + (writeRecord f (encodeUtf8 name) d).length : Nat)⟩ := by
  have h110 := length_header hf
  have hfield : ∀ k, k < 13 → fieldBytes (data.drop o) k = fieldBytes (Newc.header f) k := by
    intro k hk
    rw [hdrop, writeRecord, List.append_assoc, fieldBytes, fieldBytes,
      List.drop_append_of_le_length (by omega),
      List.take_append_of_le_length (by rw [List.length_drop]; omega)]
  have hbody : data.drop (o + 110) = (encodeUtf8 name ++ [0]) ++
      (pad (110 + ((encodeUtf8 name).length + 1)) ++ (d ++ (pad d.length ++ rest))) := by
    rw [← List.drop_drop, hdrop, writeRecord, List.append_assoc, List.drop_left' h110]
    simp only [List.append_assoc]
  refine (readRecord_eq_ok_iff ho hn hd).mpr ⟨?_, ?_, ?_, ?_, ?_⟩
  · rw [hdrop, writeRecord, List.append_assoc, List.take_append_of_le_length (by omega), take_header]
  · refine readM_int_eq_ok_iff.mpr fun k hk => ?_
    rw [hfield k hk, fieldBytes_header hf hk]
    exact int16_hex08 (hf _ (List.get_mem _ _))
  · rw [hbody, List.append_assoc, Nat.add_sub_cancel, List.take_left, decodeUtf8_encodeUtf8]
  · rw [show o + (110 + ((encodeUtf8 name).length + 1) + padLen (110 + ((encodeUtf8 name).length + 1)))
      = o + 110 + ((encodeUtf8 name ++ [0]).length +
        (pad (110 + ((encodeUtf8 name).length + 1))).length) by
      rw [length_pad, List.length_append, List.length_singleton]; omega,
      ← List.drop_drop, hbody, ← List.drop_drop, List.drop_left, List.drop_left, List.take_left]
  · rw [length_writeRecord hf]

theorem CpioEntry.Fits.writeEntry_eq {e : CpioEntry} (h : e.Fits) :
    writeEntry e = writeRecord e.fields (encodeUtf8 e.name) e.data := by
  have hhead : (align ((Newc.header e.fields).length + (encodeUtf8 e.name ++ [0]).length : Int) -
      ((Newc.header e.fields).length + (encodeUtf8 e.name ++ [0]).length : Int)).toNat =
      padLen (110 + ((encodeUtf8 e.name).length + 1)) := by
    rw [length_header h, List.length_append, List.length_singleton, ← align_sub_toNat]
    push_cast
    rfl
  simp only [writeEntry, writeRecord, hhead, align_sub_toNat, pad]

/-- One turn over a record `write_archive` wrote. -/
theorem parseTurn_writeEntry {data rest : Bytes} {o : Nat} (ho : 4 ∣ o) {e : CpioEntry} (he : e.Fits)
    (hn : e.name ≠ "TRAILER!!!") (hdrop : data.drop o = writeEntry e ++ rest) (acc : List CpioEntry) :
    parseTurn data (o, acc) = .ok (.next ((o + (writeEntry e).length : Nat), acc ++ [e.sized])) := by
  have hlen : (o : Int) + 110 ≤ data.length := by
    have h₁ := congrArg List.length hdrop
    have h₂ := length_writeRecord he (encodeUtf8 e.name) e.data
    rw [List.length_drop, List.length_append, he.writeEntry_eq, h₂] at h₁
    omega
  rw [he.writeEntry_eq] at hdrop
  rw [parseTurn, scanTurn, if_pos hlen, readRecord_writeRecord ho he rfl rfl hdrop,
    he.writeEntry_eq]
  simp only [ok_bind, pure_eq_ok, if_neg hn]
  rfl

/-- The loop over the records of entries that fit. -/
theorem returns_writeEntries {data rest : Bytes} {o : Nat} (ho : 4 ∣ o) {es : List CpioEntry}
    (hes : ∀ e ∈ es, e.Fits ∧ e.name ≠ "TRAILER!!!")
    (hdrop : data.drop o = es.flatMap writeEntry ++ rest) (acc : List CpioEntry)
    (r : Except Exc (List CpioEntry × Bytes)) :
    Returns (parseTurn data) ((o : Int), acc) r ↔ Returns (parseTurn data)
      ((o + (es.flatMap writeEntry).length : Nat), acc ++ es.map CpioEntry.sized) r := by
  induction es generalizing o acc with
  | nil => simp
  | cons e es ih =>
      obtain ⟨he, hn⟩ := hes e List.mem_cons_self
      rw [List.flatMap_cons, List.append_assoc] at hdrop
      have hnext : data.drop (o + (writeEntry e).length) = es.flatMap writeEntry ++ rest := by
        rw [← List.drop_drop, hdrop, List.drop_left]
      have ho' : 4 ∣ o + (writeEntry e).length := by
        rw [he.writeEntry_eq]
        exact Nat.dvd_add ho (four_dvd_writeRecord he _ _)
      rw [Returns.next_iff (parseTurn_writeEntry ho he hn hdrop acc),
        ih ho' (fun e' h' => hes e' (List.mem_cons_of_mem _ h')) hnext, List.flatMap_cons,
        List.length_append, List.map_cons, List.append_assoc, Nat.add_assoc]
      rfl

/-- **Round trip** for entries that fit, negative numbers among them. -/
theorem parses_write_of_fits {es : List CpioEntry}
    (h : ∀ e ∈ es, e.Fits ∧ e.name ≠ "TRAILER!!!") (trailing : Bytes) :
    Parses (writeArchive es trailing) (.ok (es.map CpioEntry.sized, trailing)) := by
  have hdrop : (writeArchive es trailing).drop 0 =
      es.flatMap writeEntry ++ (writeTrailer ++ trailing) := by
    rw [List.drop_zero, writeArchive, List.append_assoc]
  refine (returns_writeEntries (Nat.dvd_zero 4) h hdrop [] _).mpr (Returns.done ?_)
  -- What is left is the trailer and what follows it.
  have ho : 4 ∣ 0 + (es.flatMap writeEntry).length := by
    rw [Nat.zero_add, List.length_flatMap]
    refine List.dvd_sum fun n hn => ?_
    obtain ⟨e, he, rfl⟩ := List.mem_map.mp hn
    rw [(h e he).1.writeEntry_eq]
    exact four_dvd_writeRecord (h e he).1 _ _
  have hrest : (writeArchive es trailing).drop (0 + (es.flatMap writeEntry).length) =
      writeTrailer ++ trailing := by
    rw [← List.drop_drop, hdrop, List.drop_left]
  have hfits : ∀ v ∈ trailerFields.toList, Fits08 v := fun v hv => (describes_trailer.inRange v hv).1
  rw [writeTrailer_eq] at hrest
  have hread := readRecord_writeRecord ho hfits describes_trailer.namesize
    describes_trailer.filesize hrest
  have hlen : ((0 + (es.flatMap writeEntry).length : Nat) : Int) + 110 ≤
      (writeArchive es trailing).length := by
    have := congrArg List.length hrest
    rw [List.length_drop, List.length_append, length_writeRecord hfits] at this
    omega
  rw [parseTurn, scanTurn, if_pos hlen, hread]
  simp only [ok_bind, pure_eq_ok, if_true, List.nil_append, sliceFrom_natCast]
  rw [← List.drop_drop, hrest, ← trailerName, List.drop_left]

/-! ### Whatever was read fits -/

/-- The numbers of a record that was read fit eight characters, and its name and its data are no
longer than the file. -/
theorem fits_of_readRecord {data : Bytes} {offset : Int} {r : RecordAt}
    (h : readRecord data offset = .ok r) : (∀ v ∈ r.fields.toList, Fits08 v) ∧
      (encodeUtf8 r.name).length ≤ data.length ∧ r.filedata.length ≤ data.length := by
  simp only [readRecord] at h
  split at h
  · cases h
  · obtain ⟨f, hf, h⟩ := bind_eq_ok_iff.mp h
    obtain ⟨name, hname, h⟩ := bind_eq_ok_iff.mp h
    cases h
    refine ⟨fun v hv => ?_, ?_, length_slice_le _ _ _⟩
    · obtain ⟨⟨k, hk⟩, rfl⟩ := List.get_of_mem hv
      have hval := orRaise_eq_ok_iff.mp (Fields.readM_eq_ok_iff.mp hf k hk)
      exact fits08_of_int16 hval (length_slice_le_of_eq_add (by push_cast; omega))
    · rw [encodeUtf8_of_decodeUtf8 (orRaise_eq_ok_iff.mp hname)]
      exact length_slice_le _ _ _

/-- **Whatever `parse_archive` accepted** fits the headers of `write_archive`. -/
theorem fits_of_parses {file T : Bytes} {E : List CpioEntry} (hfile : file.length + 1 < 2 ^ 32)
    (h : Parses file (.ok (E, T))) : ∀ e ∈ E, e.Fits ∧ e.name ≠ "TRAILER!!!" := by
  have hturn : ∀ {o : Int} {acc : List CpioEntry} {t}, parseTurn file (o, acc) = .ok t →
      (∃ T', t = .done (acc, T')) ∨ ∃ o' e, t = .next (o', acc ++ [e]) ∧ e.Fits ∧
        e.name ≠ "TRAILER!!!" := by
    intro o acc t ht
    simp only [parseTurn, scanTurn] at ht
    split at ht
    · obtain ⟨r, hr, ht⟩ := bind_eq_ok_iff.mp ht
      split at ht
      · exact .inl ⟨_, (Except.ok.inj ht).symm⟩
      · rename_i hn
        obtain ⟨hfits, hname, hdata⟩ := fits_of_readRecord hr
        refine .inr ⟨_, _, (Except.ok.inj ht).symm, ?_, hn⟩
        -- The sizes are counted again; every other number is the one that was read.
        have h₁ := fits08_natCast (show r.filedata.length < 2 ^ 32 by omega)
        have h₂ := fits08_natCast (show (encodeUtf8 r.name).length + 1 < 2 ^ 32 by omega)
        rw [Fields.forall_toList] at hfits
        rw [CpioEntry.Fits, Fields.forall_toList]
        simp only [CpioEntry.fields, CpioEntry.ofFields, hfits, h₁, h₂, and_self]
    · cases ht
  obtain ⟨⟨o, acc⟩, -, hacc, hdone⟩ := Returns.invariant
    (P := fun s : Int × List CpioEntry => ∀ e ∈ s.2, e.Fits ∧ e.name ≠ "TRAILER!!!") h (by simp)
    (by
      rintro ⟨o, acc⟩ s' - hacc hnext
      rcases hturn hnext with ⟨T', ht⟩ | ⟨o', e, ht, he⟩
      · cases ht
      · cases ht
        intro e' he'
        rcases List.mem_append.mp he' with he' | he'
        · exact hacc e' he'
        · rwa [List.mem_singleton.mp he'])
  rcases hturn hdone with ⟨T', ht⟩ | ⟨o', e, ht, -⟩
  · cases ht
    exact hacc
  · cases ht

/-! ### The rewrite again -/

theorem fits_replaceRootfs {E : List CpioEntry} {R : Bytes}
    (h : ∀ e ∈ E, e.Fits ∧ e.name ≠ "TRAILER!!!") (hR : R.length < 2 ^ 32) :
    ∀ e ∈ replaceRootfs R E, e.Fits ∧ e.name ≠ "TRAILER!!!" := by
  have hset : ∀ e : CpioEntry, e.Fits → (e.setData R).Fits := by
    intro e he
    have hsize := fits08_natCast hR
    rw [CpioEntry.Fits, Fields.forall_toList] at he ⊢
    simp only [CpioEntry.fields, CpioEntry.setData] at he ⊢
    simp only [he, hsize, and_self]
  by_cases hroot : ∃ e ∈ E, e.name = "rootfs.sqsh"
  · obtain ⟨pre, e, post, rfl, -, -, hrep⟩ := exists_replaceRootfs hroot R
    have he := h e (by simp)
    rw [hrep]
    intro e' he'
    rcases List.mem_append.mp he' with he' | he'
    · exact h e' (List.mem_append_left _ he')
    · rcases List.mem_cons.mp he' with rfl | he'
      · exact ⟨hset e he.1, he.2⟩
      · exact h e' (List.mem_append_right _ (List.mem_cons_of_mem _ he'))
  · rwa [replaceRootfs, List.replaceF_of_forall_none fun e he => if_neg fun hn => hroot ⟨e, he, hn⟩]

theorem replaceRootfs_append {pre post : List CpioEntry} {e : CpioEntry} (R : Bytes)
    (hpre : ∀ e' ∈ pre, e'.name ≠ "rootfs.sqsh") (hn : e.name = "rootfs.sqsh") :
    replaceRootfs R (pre ++ e :: post) = pre ++ e.setData R :: post := by
  induction pre with
  | nil => simp only [replaceRootfs, List.nil_append, List.replaceF, if_pos hn]
  | cons a pre ih =>
      simp only [replaceRootfs, List.cons_append, List.replaceF, if_neg (hpre a List.mem_cons_self)]
      exact congrArg (a :: ·) (ih fun e' he' => hpre e' (List.mem_cons_of_mem _ he'))

theorem flatMap_writeEntry_sized (es : List CpioEntry) :
    (es.map CpioEntry.sized).flatMap writeEntry = es.flatMap writeEntry := by
  rw [List.flatMap_map]
  rfl

/-- The second replacement meets the entry of the first, and the sizes that were read back do not
show in what is written. -/
theorem writeEntries_replaceRootfs {E : List CpioEntry} (hroot : ∃ e ∈ E, e.name = "rootfs.sqsh")
    (R R' : Bytes) :
    (∃ e ∈ (replaceRootfs R E).map CpioEntry.sized, e.name = "rootfs.sqsh") ∧
      (replaceRootfs R' ((replaceRootfs R E).map CpioEntry.sized)).flatMap writeEntry =
        (replaceRootfs R' E).flatMap writeEntry := by
  obtain ⟨pre, e, post, rfl, hpre, hn, hrep⟩ := exists_replaceRootfs hroot R
  have hpre' : ∀ e' ∈ pre.map CpioEntry.sized, e'.name ≠ "rootfs.sqsh" := by
    intro e' he'
    obtain ⟨e₀, he₀, rfl⟩ := List.mem_map.mp he'
    exact hpre e₀ he₀
  have hn' : (e.setData R).sized.name = "rootfs.sqsh" := hn
  rw [hrep, List.map_append, List.map_cons]
  refine ⟨⟨_, List.mem_append_right _ List.mem_cons_self, hn'⟩, ?_⟩
  rw [replaceRootfs_append R' hpre' hn', replaceRootfs_append R' hpre hn, List.flatMap_append,
    List.flatMap_append, List.flatMap_cons, List.flatMap_cons, flatMap_writeEntry_sized,
    flatMap_writeEntry_sized]
  rfl

/-- What the rewrite of a file with a `rootfs.sqsh` ends with, and nothing else. -/
theorem rewrites_iff_of_parses {file R T : Bytes} {E : List CpioEntry}
    (h : Parses file (.ok (E, T))) (hroot : ∃ e ∈ E, e.name = "rootfs.sqsh")
    {r : Except Exc Bytes} :
    Rewrites file R r ↔ r = .ok (writeArchive (replaceRootfs R E) T) := by
  constructor
  · rintro ⟨fuel, hfuel⟩
    obtain ⟨p, hp, rfl⟩ := Option.map_eq_some_iff.mp hfuel
    rw [← h.unique ⟨fuel, hp⟩]
    have hup : (E.any fun e => e.name = "rootfs.sqsh") = true := by simpa using hroot
    simp only [hup, ok_bind, pure_eq_ok, Bool.not_true, Bool.false_eq_true, if_false]
  · rintro rfl
    exact rewrites_ok_iff.mpr ⟨E, T, h, hroot, rfl⟩

theorem rewrites_again {file R R' out : Bytes} (hfile : file.length + 1 < 2 ^ 32)
    (hR : R.length < 2 ^ 32) (h : Rewrites file R (.ok out)) (r : Except Exc Bytes) :
    Rewrites out R' r ↔ Rewrites file R' r := by
  obtain ⟨E, T, hparse, hroot, rfl⟩ := rewrites_ok_iff.mp h
  obtain ⟨hroot', hbytes⟩ := writeEntries_replaceRootfs hroot R R'
  have hparse' := parses_write_of_fits (fits_replaceRootfs (fits_of_parses hfile hparse) hR) T
  rw [rewrites_iff_of_parses hparse hroot, rewrites_iff_of_parses hparse' hroot', writeArchive,
    writeArchive, hbytes]

end Installer

namespace Samekey

theorem rebuiltEntries_rebuiltEntries (es : List CpioEntry) (R R' : Bytes) :
    rebuiltEntries (rebuiltEntries es R) R' = rebuiltEntries es R' := by
  rw [rebuiltEntries, rebuiltEntries, rebuiltEntries, List.map_map]
  refine List.map_congr_left fun e _ => ?_
  by_cases hn : e.name = "rootfs.sqsh"
  · simp only [Function.comp, if_pos hn]
  · simp only [Function.comp, if_neg hn]

section

variable {f : CpioEntry → CpioEntry} (hname : ∀ e, (f e).name = e.name)
  (hmode : ∀ e, (f e).mode = e.mode) (p : Process)

include hname in
theorem lastOf_map (n : String) (es : List CpioEntry) : lastOf n (es.map f) = (lastOf n es).map f := by
  have hfilter : (fun e : CpioEntry => decide (e.name = n)) ∘ f = fun e => decide (e.name = n) :=
    funext fun e => by rw [Function.comp, hname]
  rw [lastOf, lastOf, List.filter_map, hfilter, List.getLast?_map]

include hname hmode in
/-- What refuses an entry is a matter of names and modes. -/
theorem freshRefusal_map (before : List CpioEntry) (e : CpioEntry) :
    freshRefusal p (before.map f) (f e) = freshRefusal p before e := by
  rw [freshRefusal, freshRefusal, hname, lastOf_map hname]
  cases lastOf e.name before <;> simp [refusal, CpioEntry.node, hmode]

include hname hmode in
theorem refused_map (before es : List CpioEntry) :
    refused p (before.map f) (es.map f) = refused p before es := by
  induction es generalizing before with
  | nil => rfl
  | cons e es ih =>
      have hx : Extracted (f e) ↔ Extracted e := by rw [Extracted, Extracted, hname]
      rw [List.map_cons, refused, refused, freshRefusal_map hname hmode, ← ih, List.map_append,
        List.map_singleton]
      simp only [hx]

include hname in
theorem lacks_map_iff {n : String} {es : List CpioEntry} : Lacks (es.map f) n ↔ Lacks es n := by
  simp [Lacks, hname]

end

/-- The extraction looks at names and modes, which a replacement keeps. -/
theorem extractStock_rebuiltEntries {p : Process} {es : List CpioEntry} {R : Bytes} {d : WorkDir}
    (h : extractStock p .empty es = .ok d) :
    ∃ d', extractStock p .empty (rebuiltEntries es R) = .ok d' := by
  have hname : ∀ e : CpioEntry, (if e.name = "rootfs.sqsh" then { e with data := R } else e).name =
      e.name := fun e => by split <;> rfl
  have hmode : ∀ e : CpioEntry, (if e.name = "rootfs.sqsh" then { e with data := R } else e).mode =
      e.mode := fun e => by split <;> rfl
  have hrebuilt := extractStock_empty p (rebuiltEntries es R)
  have hstock := extractStock_empty p es
  have hrefused := refused_map hname hmode p [] es
  rw [List.map_nil] at hrefused
  rw [rebuiltEntries, hrefused] at hrebuilt
  cases hr : refused p [] es with
  | some x =>
      rw [hr] at hstock
      rw [hstock] at h
      cases h
  | none =>
      rw [hr] at hrebuilt
      obtain ⟨hinit, hrootfs, -⟩ := of_extractStock_empty h
      obtain ⟨d', -, hd'⟩ := hrebuilt
      rw [if_neg (by simp only [lacks_map_iff hname, hinit, hrootfs, or_self, not_false_eq_true])] at hd'
      exact ⟨d', hd'⟩

theorem rebuildInitrd_again {p : Process} {path path' : String} {file R R' out : Bytes}
    (hfile : file.length < 2 ^ 32) (hR : R.length < 2 ^ 32)
    (h : rebuildInitrd p path file R = .ok out) :
    rebuildInitrd p path' out R' = rebuildInitrd p path file R' := by
  obtain ⟨⟨es, T⟩, hparse, hrest⟩ := bind_eq_ok_iff.mp h
  obtain ⟨d, hextract, hout⟩ := bind_eq_ok_iff.mp hrest
  obtain ⟨d', hextract'⟩ := extractStock_rebuiltEntries hextract (R := R)
  rw [← Except.ok.inj hout, rebuildInitrd, rebuildInitrd, hparse,
    (parse_rebuild path path' hfile hR hparse).1]
  simp only [ok_bind, hextract, hextract', rebuiltEntries_rebuiltEntries]

end Samekey

/-- **The second run wins.**  For every file of less than `2³² - 1` bytes that a rewriter accepts:
to rewrite what it wrote is to rewrite the file, whatever the second replacement is.  With the same
replacement the second run writes what the first one wrote. -/
theorem rewriters_overwrite {file R : Bytes} (hfile : file.length + 1 < 2 ^ 32)
    (hR : R.length < 2 ^ 32) :
    (∀ out, Installer.Rewrites file R (.ok out) →
      (∀ R' r, Installer.Rewrites out R' r ↔ Installer.Rewrites file R' r) ∧
        Installer.Rewrites out R (.ok out)) ∧
    ∀ p path out, Samekey.rebuildInitrd p path file R = .ok out →
      (∀ path' R', Samekey.rebuildInitrd p path' out R' = Samekey.rebuildInitrd p path file R') ∧
        Samekey.rebuildInitrd p path out R = .ok out := by
  constructor
  · intro out h
    have hagain : ∀ R' r, Installer.Rewrites out R' r ↔ Installer.Rewrites file R' r := by
      intro R' r
      exact Installer.rewrites_again hfile hR h r
    exact ⟨hagain, (hagain R _).mpr h⟩
  · intro p path out h
    have hagain : ∀ path' R', Samekey.rebuildInitrd p path' out R' =
        Samekey.rebuildInitrd p path file R' := by
      intro path' R'
      exact Samekey.rebuildInitrd_again (by omega) hR h
    exact ⟨hagain, (hagain path R).trans h⟩

theorem length_extendedInitrd : (extendedInitrd initRecord (by decide)).bytes.length ≤ 1000 := by
  have hinit : initRecord.bytes.length = 120 := Record.length_bytes _
  have hrootfs : (rootfsRecord 1).bytes.length = 128 := Record.length_bytes _
  have htrailer : (recordOf _ _ _ Installer.describes_trailer).bytes.length = 124 :=
    Record.length_bytes _
  simp [extendedInitrd, stockArchive, Installer.archiveOf, Initrd.bytes, Archive.bytes,
    Trailing.bytes, gap, hinit, hrootfs, htrailer]

/-- Two files that were replaced once and then again, at the buffer of two archives. -/
theorem rewriters_overwrite_extended :
    let file := (extendedInitrd initRecord (by decide)).bytes
    ∃ out out' : Bytes, Installer.Rewrites file [3] (.ok out) ∧
      (∀ r, Installer.Rewrites out [4, 5] r ↔ Installer.Rewrites file [4, 5] r) ∧
      Samekey.rebuildInitrd .user "stock-initrd.raw" file [3] = .ok out' ∧
      Samekey.rebuildInitrd .user "stock-initrd.raw" out' [3] = .ok out' := by
  obtain ⟨⟨out, h⟩, out', h'⟩ := rewriters_succeed initRecord (by decide) [3] "stock-initrd.raw"
  have hfile : (extendedInitrd initRecord (by decide)).bytes.length + 1 < 2 ^ 32 := by
    have hlen := length_extendedInitrd
    omega
  obtain ⟨hi, hs⟩ := rewriters_overwrite (R := [3]) hfile (by decide)
  exact ⟨out, out', h, (hi out h).1 [4, 5], h', (hs _ _ out' h').2⟩

end TalosP2P
