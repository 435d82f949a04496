import TalosP2P.Installer.Cpio
import TalosP2P.Support.Overwrite

/-!
# Extensions — Archive

The extraction of the extension archive in `build-installer.sh`: `parse_archive` over the first
archive of the initrd, `find` for the magic of the next one, `parse_archive` over that, and the
files it writes for the overlay check.

* `find_magic`: after an archive, `find` lands on the next archive of the format.
* `second_archive_read`: the second archive is read, whatever the files of the two imitate.
* `extractExtensions_ok_iff`: the files are those of the second archive, whatever follows it.
-/

namespace TalosP2P.Extensions

open Python Newc Loop Installer

/-- `parse_archive(data, offset)`, given up after `fuel` turns: the names and the data, and the
offset after the trailer. -/
def parseArchive (fuel : Nat) (data : Bytes) (offset : Int) :
    Option (Except Exc (List (String × Bytes) × Int)) :=
  Loop.run (scanTurn (fun _ name filedata => (name, filedata)) (fun entries offset => (entries, offset))
    "TRAILER!!! not found in initrd archive" data) fuel (offset, [])

/-- The files the step leaves in the output directory, by name. -/
abbrev Files := String → Option Bytes

/-- `(output_dir / name).write_bytes(filedata)`. -/
def writeFile (files : Files) (name : String) (filedata : Bytes) : Except Exc Files :=
  if '\x00' ∈ name.toList then .error .valueError
  else .ok (Function.update files name (some filedata))

/-- The names the step writes. -/
def Selected (name : String) : Prop :=
  '/' ∉ name.toList ∧ (".sqsh".toList <:+ name.toList ∨ name = "extensions.yaml")

instance : DecidablePred Selected := fun _ => inferInstanceAs (Decidable (_ ∧ _))

/-- One turn of the loop over the entries. -/
def writeSelected (files : Files) (entry : String × Bytes) : Except Exc Files :=
  if '/' ∈ entry.1.toList then .ok files
  else if ¬ (".sqsh".toList <:+ entry.1.toList ∨ entry.1 = "extensions.yaml") then .ok files
  else writeFile files entry.1 entry.2

/-- The extraction of the second archive, given up after `fuel` turns of a `parse_archive`. -/
def extractExtensions (fuel : Nat) (data : Bytes) : Option (Except Exc Files) :=
  match parseArchive fuel data 0 with
  | none => none
  | some (.error e) => some (.error e)
  | some (.ok (_, nextOffset)) =>
    match find data magic nextOffset with
    | none => some (.error (.systemExit "system extensions archive not found in initrd"))
    | some secondArchiveOffset =>
      (parseArchive fuel data secondArchiveOffset).map fun r => do
        let (entries, _) ← r
        entries.foldlM writeSelected fun _ => none

/-! ### Finding the next archive -/

theorem magic_prefix (a : Archive) (rest : Bytes) : magic <+: a.bytes ++ rest := by
  obtain ⟨b, hb⟩ := a.exists_bytes_eq
  exact ⟨b ++ rest, by rw [hb, List.append_assoc]⟩

theorem not_magic_prefix_gap {n : Nat} {rest : Bytes} : ¬ magic <+: gap (n + 1) ++ rest := by
  rintro ⟨b, hb⟩
  rw [magic_eq] at hb
  exact absurd (List.cons.inj hb).1 (by decide)

theorem drop_gap {data rest : Bytes} {o n k : Nat} (h : data.drop o = gap n ++ rest) (hk : k ≤ n) :
    data.drop (o + k) = gap (n - k) ++ rest := by
  rw [← List.drop_drop, h, gap, List.drop_append_of_le_length (by simpa using hk), List.drop_replicate]
  rfl

/-- Between archives there are only zero bytes, so `find` lands on the next archive. -/
theorem find_magic {data : Bytes} {o n : Nat} {a : Archive} {rest : Bytes}
    (h : data.drop o = gap n ++ (a.bytes ++ rest)) : find data magic o = some (o + n) := by
  refine find_eq_some (by decide) (Nat.le_add_right o n) ?_ fun j hle hlt => ?_
  · rw [drop_gap h (Nat.le_refl n), Nat.sub_self]
    exact magic_prefix a rest
  · obtain ⟨k, rfl⟩ : ∃ k, j = o + k := ⟨j - o, by omega⟩
    obtain ⟨m, hm⟩ : ∃ m, n - k = m + 1 := ⟨n - k - 1, by omega⟩
    rw [drop_gap h (by omega), hm]
    exact not_magic_prefix_gap

theorem find_magic_gap {data : Bytes} {o n : Nat} (h : data.drop o = gap n) :
    find data magic o = none := by
  refine find_eq_none (by decide) fun j hle hpre => ?_
  obtain ⟨k, rfl⟩ : ∃ k, j = o + k := ⟨j - o, by omega⟩
  rw [← List.drop_drop, h, gap, List.drop_replicate] at hpre
  have hmem : (0x37 : UInt8) ∈ List.replicate (n - k) 0 :=
    hpre.subset (by decide)
  exact absurd (List.eq_of_mem_replicate hmem) (by decide)

/-! ### The files of the second archive -/

/-- The entries of an archive, names decoded. -/
def entriesOf (rs : List Record) : Option (List (String × Bytes)) :=
  rs.mapM (Record.view fun _ name filedata => (name, filedata))

theorem parseArchive_ok_iff {data rest : Bytes} {o : Nat} (ho : 4 ∣ o) {a : Archive}
    (h : data.drop o = a.bytes ++ rest) {x : List (String × Bytes) × Int} :
    (∃ fuel, parseArchive fuel data o = some (.ok x)) ↔
      ∃ entries, entriesOf a.members = some entries ∧ x = (entries, ((o + a.bytes.length : Nat) : Int)) :=
  returns_archive_iff ho h x

/-- `parse_archive` over an archive that `write_archive` wrote, wherever it stands. -/
theorem parseArchive_writeArchive {data rest : Bytes} {o : Nat} (ho : 4 ∣ o) {es : List CpioEntry}
    (hes : ∀ e ∈ es, e.InRange ∧ e.name ≠ "TRAILER!!!")
    (h : data.drop o = writeArchive es [] ++ rest) :
    ∃ fuel, parseArchive fuel data o = some
      (.ok (es.map fun e => (e.name, e.data), ((o + (writeArchive es []).length : Nat) : Int))) := by
  obtain ⟨a, hb, hc, -⟩ := exists_archive hes
  rw [writeArchive, ← hb, List.append_nil] at h ⊢
  exact (parseArchive_ok_iff ho h).mpr ⟨_, mapM_view hc, rfl⟩

/-- **The second archive is read.**  Behind an archive that `write_archive` wrote, `find` passes over
the zero bytes and lands on the next one, whose entries are read, whatever the names and contents of
the two hold and whatever follows. -/
theorem second_archive_read {A B : List CpioEntry} (hA : ∀ e ∈ A, e.InRange ∧ e.name ≠ "TRAILER!!!")
    (hB : ∀ e ∈ B, e.InRange ∧ e.name ≠ "TRAILER!!!") {k : Nat} (hk : 4 ∣ k) (S : Bytes) :
    ∃ first next found after fuel₁ fuel₂,
      parseArchive fuel₁ (writeArchive A [] ++ (gap k ++ (writeArchive B [] ++ S))) 0 =
        some (.ok (first, next)) ∧
      find (writeArchive A [] ++ (gap k ++ (writeArchive B [] ++ S))) magic next = some found ∧
      parseArchive fuel₂ (writeArchive A [] ++ (gap k ++ (writeArchive B [] ++ S))) found =
        some (.ok (B.map fun e => (e.name, e.data), after)) := by
  generalize hdata : writeArchive A [] ++ (gap k ++ (writeArchive B [] ++ S)) = data
  obtain ⟨a, ha, -, -⟩ := exists_archive hA
  obtain ⟨b, hb, -, -⟩ := exists_archive hB
  have h4 : 4 ∣ (writeArchive A []).length + k := by
    rw [writeArchive, ← ha, List.append_nil]
    exact Nat.dvd_add a.four_dvd_length hk
  have hgap : data.drop (writeArchive A []).length = gap k ++ (b.bytes ++ S) := by
    rw [← hdata, List.drop_left, writeArchive, ← hb, List.append_nil]
  have hsecond : data.drop ((writeArchive A []).length + k) = writeArchive B [] ++ S := by
    rw [drop_gap hgap (Nat.le_refl k), Nat.sub_self, writeArchive, ← hb, List.append_nil]
    rfl
  obtain ⟨fuel₁, h₁⟩ := parseArchive_writeArchive (Nat.dvd_zero 4) hA hdata.symm
  obtain ⟨fuel₂, h₂⟩ := parseArchive_writeArchive h4 hB hsecond
  rw [Nat.zero_add] at h₁
  exact ⟨_, _, _, _, fuel₁, fuel₂, h₁, find_magic hgap, h₂⟩

/-- A base archive whose one file imitates the format, and an extension archive behind four zero
bytes. -/
theorem second_archive_read_imitation :
    let A : List CpioEntry :=
      [⟨"070701", 1, 0o100644, 0, 0, 1, 0, 0, 8, 1, 0, 0, 0, encodeUtf8 "070701TRAILER!!!"⟩]
    let B : List CpioEntry :=
      [⟨"a.sqsh", 2, 0o100644, 0, 0, 1, 0, 0, 8, 1, 0, 0, 0, magic⟩]
    ∃ first next found after fuel₁ fuel₂,
      parseArchive fuel₁ (writeArchive A [] ++ (gap 4 ++ (writeArchive B [] ++ magic))) 0 =
        some (.ok (first, next)) ∧
      find (writeArchive A [] ++ (gap 4 ++ (writeArchive B [] ++ magic))) magic next = some found ∧
      parseArchive fuel₂ (writeArchive A [] ++ (gap 4 ++ (writeArchive B [] ++ magic))) found =
        some (.ok (B.map fun e => (e.name, e.data), after)) :=
  second_archive_read (by decide +kernel) (by decide +kernel) (by decide) magic

/-- The file the loop leaves under a name it writes. -/
def lastEntry (entries : List (String × Bytes)) (name : String) : Option Bytes :=
  (entries.filter fun e => e.1 = name).getLast?.map Prod.snd

/-- The files after a loop that does not raise. -/
def written (files : Files) (entries : List (String × Bytes)) : Files :=
  overwrite (fun e => Selected e.1) Prod.fst Prod.snd files entries

/-- The loop over the entries raises exactly at a written name that holds a NUL. -/
theorem foldlM_writeSelected_ok_iff {entries : List (String × Bytes)} {files files' : Files} :
    entries.foldlM writeSelected files = .ok files' ↔
      (∀ e ∈ entries, Selected e.1 → '\x00' ∉ e.1.toList) ∧ files' = written files entries := by
  induction entries generalizing files with
  | nil => simp [written, pure, Except.pure, eq_comm]
  | cons e es ih =>
      have hturn : writeSelected files e = if Selected e.1 then writeFile files e.1 e.2
          else .ok files := by
        by_cases h₁ : '/' ∈ e.1.toList
        · simp [writeSelected, Selected, h₁]
        · by_cases h₂ : ".sqsh".toList <:+ e.1.toList ∨ e.1 = "extensions.yaml"
          · rw [writeSelected, if_neg h₁, if_neg (not_not.mpr h₂), if_pos ⟨h₁, h₂⟩]
          · rw [writeSelected, if_neg h₁, if_pos h₂, if_neg fun h => h₂ h.2]
      rw [List.foldlM_cons, hturn, written, overwrite_cons, ← written, List.forall_mem_cons]
      by_cases hs : Selected e.1
      · by_cases hnul : '\x00' ∈ e.1.toList
        · simp [hs, writeFile, hnul]
        · simp [hs, writeFile, hnul, ih]
      · simp [hs, ih]

theorem written_apply {name : String} (hname : Selected name) (entries : List (String × Bytes))
    (files : Files) : written files entries name = (lastEntry entries name).or (files name) :=
  overwrite_apply (fun _ he => by rw [he]; exact hname) files entries

/-- The last entry of a name is the last record of it. -/
theorem lastEntry_eq_lastNamed {rs : List Record} {entries : List (String × Bytes)}
    (h : entriesOf rs = some entries) (name : String) :
    lastEntry entries name = lastNamed rs (encodeUtf8 name) := by
  have hmap : entries.map (fun e => (encodeUtf8 e.1, e.2)) = rs.map fun r => (r.name, r.data) := by
    refine map_eq_of_view (fun r e he => ?_) h
    obtain ⟨n, hn, rfl⟩ := Option.map_eq_some_iff.mp he
    rw [encodeUtf8_of_decodeUtf8 hn]
  exact (lastNamed_of_map hmap.symm name).symm

theorem parseArchive_mono {fuel k : Nat} (h : fuel ≤ k) {data : Bytes} {offset : Int}
    {r : Except Exc (List (String × Bytes) × Int)} (hr : parseArchive fuel data offset = some r) :
    parseArchive k data offset = some r :=
  Loop.run_mono h hr

/-- The bytes after a first archive that another one follows. -/
theorem trailing_bytes_cons {t : Trailing} {n : Nat} {a : Archive} {rest : List (Nat × Archive)}
    (h : t.archives = (n, a) :: rest) :
    t.bytes = gap n ++ (a.bytes ++ (rest.flatMap (fun p => gap p.1 ++ p.2.bytes) ++ gap t.zeros)) := by
  rw [Trailing.bytes, h, List.flatMap_cons]
  simp only [List.append_assoc]

/-- **The second archive.**  The extraction returns exactly when the names of the first two archives
are UTF-8 and no name it writes holds a NUL; its files are those of the second archive, whatever
follows it. -/
theorem extractExtensions_ok_iff {i : Initrd} {files : Files} :
    (∃ fuel, extractExtensions fuel i.bytes = some (.ok files)) ↔
      ∃ base n a rest entries, entriesOf i.base.members = some base ∧
        i.trailing.archives = (n, a) :: rest ∧ entriesOf a.members = some entries ∧
        (∀ e ∈ entries, Selected e.1 → '\x00' ∉ e.1.toList) ∧
        files = written (fun _ => none) entries := by
  have hbase : i.bytes.drop 0 = i.base.bytes ++ i.trailing.bytes := rfl
  have hafter : i.bytes.drop i.base.bytes.length = i.trailing.bytes := by
    rw [Initrd.bytes, List.drop_left]
  have hfirst := fun x => parseArchive_ok_iff (Nat.dvd_zero 4) hbase (x := x)
  simp only [Nat.zero_add] at hfirst
  have hsecond : ∀ n a rest, i.trailing.archives = (n, a) :: rest →
      find i.bytes magic i.base.bytes.length = some (i.base.bytes.length + n) ∧
        ∀ x, (∃ fuel, parseArchive fuel i.bytes (i.base.bytes.length + n : Nat) = some (.ok x)) ↔
          ∃ entries, entriesOf a.members = some entries ∧
            x = (entries, ((i.base.bytes.length + n + a.bytes.length : Nat) : Int)) := by
    intro n a rest h
    have hgap : i.bytes.drop i.base.bytes.length = _ := hafter.trans (trailing_bytes_cons h)
    have hdrop := drop_gap hgap (Nat.le_refl n)
    rw [Nat.sub_self] at hdrop
    have h4 : 4 ∣ i.base.bytes.length + n := Nat.dvd_add i.base.four_dvd_length
      (i.trailing.aligned (n, a) (by rw [h]; exact List.mem_cons_self))
    exact ⟨find_magic hgap, fun x => parseArchive_ok_iff h4 hdrop⟩
  constructor
  · rintro ⟨fuel, h⟩
    rw [extractExtensions] at h
    split at h
    · cases h
    · cases h
    · rename_i base next h₀
      obtain ⟨entries₀, hbase', heq⟩ := (hfirst (base, next)).mp ⟨fuel, h₀⟩
      cases heq
      split at h
      · cases h
      · rename_i second hfind
        cases ha : i.trailing.archives with
        | nil =>
            have hgap : i.bytes.drop i.base.bytes.length = gap i.trailing.zeros := by
              rw [hafter, Trailing.bytes, ha]; rfl
            rw [find_magic_gap hgap] at hfind
            cases hfind
        | cons p rest =>
            obtain ⟨n, a⟩ := p
            obtain ⟨hf, hs⟩ := hsecond n a rest ha
            cases hf.symm.trans hfind
            obtain ⟨r, hr, hw⟩ := Option.map_eq_some_iff.mp h
            obtain ⟨y, rfl, hw'⟩ := bind_eq_ok_iff.mp hw
            obtain ⟨entries, he, rfl⟩ := (hs y).mp ⟨fuel, hr⟩
            obtain ⟨hn, hfiles⟩ := foldlM_writeSelected_ok_iff.mp hw'
            exact ⟨base, n, a, rest, entries, hbase', rfl, he, hn, hfiles⟩
  · rintro ⟨entries₀, n, a, rest, entries, hbase', ha, he, hn, hfiles⟩
    obtain ⟨hf, hs⟩ := hsecond n a rest ha
    obtain ⟨fuel₁, h₁⟩ := (hfirst _).mpr ⟨entries₀, hbase', rfl⟩
    obtain ⟨fuel₂, h₂⟩ := (hs _).mpr ⟨entries, he, rfl⟩
    refine ⟨max fuel₁ fuel₂, ?_⟩
    have h₁' := parseArchive_mono (Nat.le_max_left fuel₁ fuel₂) h₁
    have h₂' := parseArchive_mono (Nat.le_max_right fuel₁ fuel₂) h₂
    have hw := foldlM_writeSelected_ok_iff.mpr ⟨hn, hfiles⟩
    simp only [Nat.cast_zero] at h₁'
    simp only [extractExtensions, h₁', hf, h₂', Option.map_some, ok_bind, hw]

end TalosP2P.Extensions
