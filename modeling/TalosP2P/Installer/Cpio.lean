import TalosP2P.Support.Loop
import TalosP2P.Support.Truncation

/-!
# Installer — Cpio

The cpio code of `build-installer.sh`: loops over the whole file that read the record at an offset
and align the absolute offset after the name and after the data, and `write_archive`, which writes
the records and a trailer of its own.

The fields are what `int(·, 16)` returns, so a size may be negative, an offset may go backwards or
below zero, and a slice may count from the end of the file.  Nothing makes such a loop end, and
`parseArchive` is run with a bound on its turns; `Parses` says that it returns.

* `readRecord_eq_ok_iff`: one record at an aligned offset, its sizes not negative.
* `returns_archive_iff`: the loop over a newc archive, at any aligned offset.
-/

namespace TalosP2P.Installer

open Python Newc Loop

/-- `align(value)`, which is `(value + 3) & ~3`: the two low bits of `value + 3` cleared. -/
def align (value : Int) : Int := value + 3 - (value + 3) % 4

theorem align_natCast (n : Nat) : align n = (n + padLen n : Nat) := by
  rw [align, padLen]; omega

/-! ### The record at an offset -/

/-- A record as the loops read it, and the offset after it. -/
structure RecordAt where
  fields : Fields
  name : String
  filedata : Bytes
  next : Int
  deriving DecidableEq

/-- The part the loops share: the magic, the thirteen fields, the name and the data at `offset`. -/
def readRecord (data : Bytes) (offset : Int) : Except Exc RecordAt := do
  if slice data offset (offset + 6) ≠ magic then
    throw (.systemExit ("bad cpio magic at offset " ++ toString offset))
  let fields ← Fields.readM fun k =>
    int (slice data (offset + 6 + 8 * (k : Nat)) (offset + 14 + 8 * (k : Nat)))
  let headerEnd := offset + 110
  -- a name size of zero ends the slice before it starts: the name is empty
  let name ← decode (slice data headerEnd (headerEnd + fields.namesize - 1))
  let offset := align (headerEnd + fields.namesize)
  let filedata := slice data offset (offset + fields.filesize)
  let offset := align (offset + fields.filesize)
  return ⟨fields, name, filedata, offset⟩

/-- One turn of a `while offset + 110 <= len(data)` loop that collects `keep` of each record, ends
at the trailer with `finish` of what it collected and the offset, and raises `missing` when the data
runs out. -/
def scanTurn {α ρ : Type} (keep : Fields → String → Bytes → α) (finish : List α → Int → ρ)
    (missing : String) (data : Bytes) :
    Int × List α → Except Exc (Turn (Int × List α) ρ)
  | (offset, entries) => do
    if offset + 110 ≤ data.length then
      let r ← readRecord data offset
      if r.name = "TRAILER!!!" then
        return .done (finish entries r.next)
      return .next (r.next, entries ++ [keep r.fields r.name r.filedata])
    throw (.systemExit missing)

/-! ### One record -/

theorem readM_int_eq_ok_iff {header : Bytes} {f : Fields} :
    Fields.readM (fun k => int (fieldBytes header k)) = .ok f ↔
      ∀ k (hk : k < 13), int16 (fieldBytes header k) = some (f.toList.get ⟨k, hk⟩) := by
  simp only [Fields.readM_eq_ok_iff, int, orRaise_eq_ok_iff]

theorem slice_field (data : Bytes) (o k : Nat) :
    slice data ((o : Int) + 6 + 8 * (k : Nat)) ((o : Int) + 14 + 8 * (k : Nat)) =
      fieldBytes (data.drop o) k := by
  have h := slice_natCast data (o + 6 + 8 * k) (o + 14 + 8 * k)
  push_cast at h
  rw [h, fieldBytes, List.drop_drop]
  congr 1
  · omega
  · congr 1; omega

/-- **One record**, at an aligned offset and with sizes that are not negative. -/
theorem readRecord_eq_ok_iff {data : Bytes} {o n m : Nat} {r : RecordAt} (ho : 4 ∣ o)
    (hn : r.fields.namesize = n) (hm : r.fields.filesize = m) :
    readRecord data o = .ok r ↔ (data.drop o).take 6 = magic ∧
      Fields.readM (fun k => int (fieldBytes (data.drop o) k)) = .ok r.fields ∧
      decodeUtf8 ((data.drop (o + 110)).take (n - 1)) = some r.name ∧
      r.filedata = (data.drop (o + (110 + n + padLen (110 + n)))).take m ∧
      r.next = (o + (110 + n + padLen (110 + n) + (m + padLen m)) : Nat) := by
  obtain ⟨f, name, filedata, next⟩ := r
  simp only at hn hm ⊢
  -- Each slice and each alignment of the body, at the natural number it stands for here.
  have hmagic : slice data o ((o : Int) + 6) = (data.drop o).take 6 := by
    have := slice_natCast data o (o + 6)
    push_cast at this
    rw [this, Nat.add_sub_cancel_left]
  have hname : slice data ((o : Int) + 110) ((o : Int) + 110 + f.namesize - 1) =
      (data.drop (o + 110)).take (n - 1) := by
    have hend : (o : Int) + 110 + f.namesize - 1 = (o + 110 + n - 1 : Nat) := by rw [hn]; omega
    have := slice_natCast data (o + 110) (o + 110 + n - 1)
    push_cast at this hend
    rw [hend, this, show o + 110 + n - 1 - (o + 110) = n - 1 by omega]
  have hstart : align ((o : Int) + 110 + f.namesize) =
      (o + (110 + n + padLen (110 + n)) : Nat) := by
    have : (o : Int) + 110 + f.namesize = (o + (110 + n) : Nat) := by rw [hn]; push_cast; omega
    rw [this, align_natCast, padLen, padLen]; omega
  have hend : ((o + (110 + n + padLen (110 + n)) : Nat) : Int) + f.filesize =
      (o + (110 + n + padLen (110 + n)) + m : Nat) := by rw [hm]; push_cast; omega
  have hnext : align ((o + (110 + n + padLen (110 + n)) + m : Nat) : Int) =
      (o + (110 + n + padLen (110 + n) + (m + padLen m)) : Nat) := by
    have h4 := four_dvd_add_padLen (110 + n)
    rw [align_natCast]
    simp only [padLen] at h4 ⊢
    omega
  have hdata : slice data (o + (110 + n + padLen (110 + n)) : Nat)
      (o + (110 + n + padLen (110 + n)) + m : Nat) =
      (data.drop (o + (110 + n + padLen (110 + n)))).take m := by
    rw [slice_natCast, Nat.add_sub_cancel_left]
  constructor
  · intro h
    simp only [readRecord, slice_field, hmagic] at h
    split at h
    · cases h
    · rename_i hmag
      obtain ⟨f', hf, h⟩ := bind_eq_ok_iff.mp h
      obtain ⟨name', hname', h⟩ := bind_eq_ok_iff.mp h
      cases h
      rw [hname] at hname'
      rw [hstart, hend, hdata, hnext]
      exact ⟨not_not.mp hmag, hf, orRaise_eq_ok_iff.mp hname', rfl, rfl⟩
  · rintro ⟨hmag, hf, hname', rfl, rfl⟩
    simp only [readRecord, slice_field, hmagic, hmag, hf, hname, hname', hstart, hend, hdata,
      hnext, decode, orRaise, ne_eq, not_true, if_false, ok_bind, pure_eq_ok]

/-- The fields of a record of the format, read off its header. -/
theorem readM_record (r : Record) {bytes : Bytes} (h : bytes.take 110 = r.header) :
    Fields.readM (fun k => int (fieldBytes bytes k)) = .ok r.fields := by
  refine readM_int_eq_ok_iff.mpr fun k hk => ?_
  have hfield : fieldBytes bytes k = fieldBytes r.header k := by
    rw [← h, fieldBytes, fieldBytes, List.drop_take, List.take_take, Nat.min_eq_left (by omega)]
  rw [hfield, r.int16_fieldBytes hk, r.fields_get hk]

/-- A record that is read has the fields its header spells. -/
theorem readM_of_readRecord {data : Bytes} {o : Nat} {r : RecordAt} (h : readRecord data o = .ok r) :
    Fields.readM (fun k => int (fieldBytes (data.drop o) k)) = .ok r.fields := by
  simp only [readRecord, slice_field] at h
  split at h
  · cases h
  · obtain ⟨f, hf, h⟩ := bind_eq_ok_iff.mp h
    obtain ⟨name, -, h⟩ := bind_eq_ok_iff.mp h
    cases h
    exact hf

/-- The record of the format at an aligned offset, cut after its header: what is read is what the
cut shows of the name and of the data, and the offset where the whole record ends. -/
theorem readRecord_cut_iff {data rest : Bytes} {o j : Nat} (ho : 4 ∣ o) (hj : 110 ≤ j) {r : Record}
    (hdrop : data.drop o = (r.bytes ++ rest).take j) {x : RecordAt} :
    readRecord data o = .ok x ↔ ∃ name, decodeUtf8 (r.shownName j) = some name ∧
      x = ⟨r.fields, name, r.shownData j, (o + r.bytes.length : Nat)⟩ := by
  have hheader : (data.drop o).take 110 = r.header := by rw [hdrop, r.take_header_cut hj]
  have hmagic : (data.drop o).take 6 = magic := by
    rw [← r.take_header, ← hheader, List.take_take, Nat.min_eq_left (by omega)]
  have hfields := readM_record r hheader
  have hname : (data.drop (o + 110)).take (r.rawName.length - 1) = r.shownName j := by
    rw [← List.drop_drop, hdrop, r.length_rawName, Nat.add_sub_cancel, r.slice_shownName]
  have hdata : (data.drop (o + (110 + r.rawName.length + padLen (110 + r.rawName.length)))).take
      r.data.length = r.shownData j := by
    rw [← List.drop_drop, hdrop, ← r.slice_shownData rest]
    rfl
  constructor
  · intro h
    have hf : x.fields = r.fields := Except.ok.inj ((readM_of_readRecord h).symm.trans hfields)
    obtain ⟨-, -, h₁, h₂, h₃⟩ := (readRecord_eq_ok_iff ho
      ((congrArg Fields.namesize hf).trans r.fields_namesize)
      ((congrArg Fields.filesize hf).trans r.fields_filesize)).mp h
    rw [hname] at h₁
    rw [hdata] at h₂
    rw [← r.length_bytes] at h₃
    exact ⟨x.name, h₁, by rw [← hf, ← h₂, ← h₃]⟩
  · rintro ⟨name, hu, rfl⟩
    refine (readRecord_eq_ok_iff ho r.fields_namesize r.fields_filesize).mpr
      ⟨hmagic, hfields, ?_, hdata.symm, ?_⟩
    · rw [hname, hu]
    · rw [r.length_bytes]

/-- The only way a cut record is not read. -/
theorem readRecord_cut_error {data rest : Bytes} {o j : Nat} (ho : 4 ∣ o) (hj : 110 ≤ j) {r : Record}
    (hdrop : data.drop o = (r.bytes ++ rest).take j) (hname : decodeUtf8 (r.shownName j) = none) :
    readRecord data o = .error .unicodeDecodeError := by
  have hheader : (data.drop o).take 110 = r.header := by rw [hdrop, r.take_header_cut hj]
  have hmagic : slice data o ((o : Int) + 6) = magic := by
    have := slice_natCast data o (o + 6)
    push_cast at this
    rw [this, Nat.add_sub_cancel_left, ← r.take_header, ← hheader, List.take_take,
      Nat.min_eq_left (by omega)]
  cases hr : readRecord data o with
  | ok x =>
      obtain ⟨name, hu, -⟩ := (readRecord_cut_iff ho hj hdrop).mp hr
      rw [hname] at hu
      cases hu
  | error e =>
      simp only [readRecord, slice_field, hmagic, readM_record r hheader, ne_eq, not_true, if_false,
        bind, Except.bind] at hr
      split at hr
      · rename_i hdec
        cases hr
        rw [(orRaise_eq_error_iff.mp hdec).2]
      · cases hr

/-- The record of the format at an aligned offset, which is read when its name is UTF-8. -/
theorem readRecord_record_iff {data rest : Bytes} {o : Nat} (ho : 4 ∣ o) {r : Record}
    (hdrop : data.drop o = r.bytes ++ rest) {x : RecordAt} :
    readRecord data o = .ok x ↔ ∃ name, decodeUtf8 r.name = some name ∧
      x = ⟨r.fields, name, r.data, (o + r.bytes.length : Nat)⟩ := by
  have hle : r.bytes.length ≤ (r.bytes ++ rest).length := by
    rw [List.length_append]; exact Nat.le_add_right _ _
  obtain ⟨hname, hdata⟩ := Record.whole_of_length_le hle
  have hlen := r.length_bytes
  have h := readRecord_cut_iff (j := (r.bytes ++ rest).length) ho (by omega)
    (hdrop.trans List.take_length.symm) (x := x)
  rwa [hname, hdata] at h

/-! ### The loop over an archive -/

section Scan

variable {α ρ : Type} {keep : Fields → String → Bytes → α} {finish : List α → Int → ρ}
  {missing : String} {data : Bytes}

variable (keep finish missing) in
/-- One turn over a record of the format. -/
theorem scanTurn_record {rest : Bytes} {o : Nat} (ho : 4 ∣ o) {r : Record}
    (hdrop : data.drop o = r.bytes ++ rest) (acc : List α) {t : Turn (Int × List α) ρ} :
    scanTurn keep finish missing data (o, acc) = .ok t ↔ ∃ a, r.view keep = some a ∧
      t = if r.name = trailerName then .done (finish acc (o + r.bytes.length : Nat))
        else .next ((o + r.bytes.length : Nat), acc ++ [a]) := by
  have hlen : (o : Int) + 110 ≤ data.length := by
    have h₁ := congrArg List.length hdrop
    have h₂ := r.length_bytes
    rw [List.length_drop, List.length_append] at h₁
    omega
  have hkeep : ∀ {name}, decodeUtf8 r.name = some name →
      r.view keep = some (keep r.fields name r.data) ∧
        (r.name = trailerName ↔ name = "TRAILER!!!") := fun hn =>
    ⟨by rw [Record.view, hn, Option.map_some], by
      rw [← encodeUtf8_of_decodeUtf8 hn, trailerName]
      exact encodeUtf8_injective.eq_iff⟩
  simp only [scanTurn, if_pos hlen]
  constructor
  · intro h
    obtain ⟨x, hx, h⟩ := bind_eq_ok_iff.mp h
    obtain ⟨name, hn, rfl⟩ := (readRecord_record_iff ho hdrop).mp hx
    obtain ⟨hv, htr⟩ := hkeep hn
    refine ⟨_, hv, ?_⟩
    simp only at h
    split at h
    · rename_i hn'
      rw [if_pos (htr.mpr hn')]
      exact (Except.ok.inj h).symm
    · rename_i hn'
      rw [if_neg fun h' => hn' (htr.mp h')]
      exact (Except.ok.inj h).symm
  · rintro ⟨a, hv, rfl⟩
    obtain ⟨name, hn, rfl⟩ := Option.map_eq_some_iff.mp hv
    rw [(readRecord_record_iff ho hdrop).mpr ⟨name, hn, rfl⟩]
    simp only [ok_bind, pure_eq_ok, (hkeep hn).2]
    split <;> rfl

/-- The loop reads records that do not end the archive, from any aligned offset. -/
theorem reads_members {rs : List Record} (hrs : ∀ r ∈ rs, r.name ≠ trailerName) {rest : Bytes}
    {o : Nat} (ho : 4 ∣ o) (hdrop : data.drop o = rs.flatMap Record.bytes ++ rest) :
    Reads (scanTurn keep finish missing data) (Record.view keep) rs (o : Int)
      (o + (rs.flatMap Record.bytes).length : Nat) := by
  induction rs generalizing o with
  | nil => exact .nil _
  | cons r rs ih =>
      rw [List.flatMap_cons, List.append_assoc] at hdrop
      have hnext : data.drop (o + r.bytes.length) = rs.flatMap Record.bytes ++ rest := by
        rw [← List.drop_drop, hdrop, List.drop_left]
      have hih := ih (fun r' h' => hrs r' (List.mem_cons_of_mem _ h'))
        (Nat.dvd_add ho r.four_dvd_length) hnext
      rw [Nat.add_assoc, ← List.length_append, ← List.flatMap_cons] at hih
      refine .cons (fun acc t => ?_) hih
      simp only [scanTurn_record keep finish missing ho hdrop, if_neg (hrs r List.mem_cons_self)]

/-- **The loop over an archive**, wherever it starts: it ends at the trailer, with what it keeps of
the members and the offset after the archive. -/
theorem returns_archive_iff {a : Archive} {rest : Bytes} {o : Nat} (ho : 4 ∣ o)
    (hdrop : data.drop o = a.bytes ++ rest) (x : ρ) :
    Returns (scanTurn keep finish missing data) (o, []) (.ok x) ↔
      ∃ as, a.members.mapM (Record.view keep) = some as ∧
        x = finish as (o + a.bytes.length : Nat) := by
  rw [Archive.bytes, List.append_assoc] at hdrop
  have htrailer : data.drop (o + (a.members.flatMap Record.bytes).length) =
      a.trailer.bytes ++ rest := by
    rw [← List.drop_drop, hdrop, List.drop_left]
  have ho' : 4 ∣ o + (a.members.flatMap Record.bytes).length := by
    have h₁ := a.four_dvd_length
    have h₂ := a.trailer.four_dvd_length
    rw [Archive.bytes, List.length_append] at h₁
    exact Nat.dvd_add ho ((Nat.dvd_add_left h₂).mp h₁)
  obtain ⟨v, hv⟩ : ∃ v, a.trailer.view keep = some v := by
    rw [Record.view, a.trailer_name, trailerName, decodeUtf8_encodeUtf8]
    exact ⟨_, rfl⟩
  rw [(reads_members a.members_name ho hdrop).returns_iff]
  refine exists_congr fun as => and_congr_right fun _ => ?_
  have hturn := (scanTurn_record keep finish missing ho' htrailer ([] ++ as)).mpr ⟨v, hv, rfl⟩
  rw [if_pos a.trailer_name] at hturn
  have hdone := Returns.done hturn
  rw [List.nil_append, Nat.add_assoc, ← List.length_append] at hdone
  constructor
  · intro h
    exact (Except.ok.inj (hdone.unique h)).symm
  · rintro rfl
    exact hdone

/-- Two loops over one file that keep different things of a record run in lockstep. -/
theorem scanTurn_map {α' ρ' : Type} {keep' : Fields → String → Bytes → α'}
    {finish' : List α' → Int → ρ'} {g : α → α'} {h : ρ → ρ'}
    (hkeep : ∀ f name d, keep' f name d = g (keep f name d))
    (hfinish : ∀ as o, finish' (as.map g) o = h (finish as o)) (s : Int × List α) :
    scanTurn keep' finish' missing data (s.1, s.2.map g) =
      (scanTurn keep finish missing data s).map (Turn.map (fun s => (s.1, s.2.map g)) h) := by
  obtain ⟨o, acc⟩ := s
  simp only [scanTurn, bind, Except.bind, pure, Except.pure]
  split
  · cases readRecord data o with
    | error e => rfl
    | ok r =>
        simp only
        split
        · simp only [Except.map, Turn.map, hfinish]
        · simp only [Except.map, Turn.map, List.map_append, List.map_singleton, hkeep]
  · rfl

end Scan

/-! ### `parse_archive` and `write_archive` -/

/-- An entry as the rewrite of the UKI's initrd keeps it. -/
structure CpioEntry where
  name : String
  ino : Int
  mode : Int
  uid : Int
  gid : Int
  nlink : Int
  mtime : Int
  filesize : Int
  devmajor : Int
  devminor : Int
  rdevmajor : Int
  rdevminor : Int
  check : Int
  data : Bytes
  deriving DecidableEq, Repr

namespace CpioEntry

/-- The entry `parse_archive` makes of what it read. -/
def ofFields (f : Fields) (name : String) (data : Bytes) : CpioEntry where
  name := name
  ino := f.ino
  mode := f.mode
  uid := f.uid
  gid := f.gid
  nlink := f.nlink
  mtime := f.mtime
  filesize := f.filesize
  devmajor := f.devmajor
  devminor := f.devminor
  rdevmajor := f.rdevmajor
  rdevminor := f.rdevminor
  check := f.check
  data := data

/-- The fields `write_archive` gives an entry: the sizes are those of what it writes. -/
def fields (e : CpioEntry) : Fields where
  ino := e.ino
  mode := e.mode
  uid := e.uid
  gid := e.gid
  nlink := e.nlink
  mtime := e.mtime
  filesize := e.data.length
  devmajor := e.devmajor
  devminor := e.devminor
  rdevmajor := e.rdevmajor
  rdevminor := e.rdevminor
  namesize := ((encodeUtf8 e.name).length + 1 : Nat)
  check := e.check

/-- Every header field is in the range of the format. -/
def InRange (e : CpioEntry) : Prop := ∀ v ∈ e.fields.toList, 0 ≤ v ∧ v < 2 ^ 32

instance (e : CpioEntry) : Decidable e.InRange :=
  inferInstanceAs (Decidable (∀ v ∈ e.fields.toList, 0 ≤ v ∧ v < 2 ^ 32))

theorem InRange.describes {e : CpioEntry} (h : e.InRange) :
    Describes e.fields (encodeUtf8 e.name) e.data :=
  .of_lt h rfl rfl

end CpioEntry

/-- One turn of `parse_archive`, which returns the entries and `data[offset:]`. -/
def parseTurn (data : Bytes) :
    Int × List CpioEntry → Except Exc (Turn (Int × List CpioEntry) (List CpioEntry × Bytes)) :=
  scanTurn CpioEntry.ofFields (fun entries offset => (entries, sliceFrom data offset))
    "TRAILER!!! not found in UKI initrd" data

/-- `parse_archive`, given up after `fuel` turns. -/
def parseArchive (fuel : Nat) (data : Bytes) : Option (Except Exc (List CpioEntry × Bytes)) :=
  Loop.run (parseTurn data) fuel (0, [])

/-- `parse_archive` returns or raises `r`. -/
def Parses (data : Bytes) (r : Except Exc (List CpioEntry × Bytes)) : Prop :=
  ∃ fuel, parseArchive fuel data = some r

theorem Parses.unique {data : Bytes} {r₁ r₂ : Except Exc (List CpioEntry × Bytes)}
    (h₁ : Parses data r₁) (h₂ : Parses data r₂) : r₁ = r₂ :=
  Returns.unique h₁ h₂

/-- The record `write_archive` writes for an entry. -/
def writeEntry (e : CpioEntry) : Bytes :=
  let encodedName := encodeUtf8 e.name ++ [0]
  let filesize : Int := e.data.length
  let header := Newc.header e.fields
  let head : Int := header.length + encodedName.length
  header ++ (encodedName ++ (List.replicate (align head - head).toNat 0 ++
    (e.data ++ List.replicate (align filesize - filesize).toNat 0)))

/-- The record `write_archive` ends an archive with. -/
def writeTrailer : Bytes :=
  let name := encodeUtf8 "TRAILER!!!" ++ [0]
  let header := magic ++ (List.replicate 11 (encodeUtf8 "00000000")).flatten ++
    hex08 name.length ++ encodeUtf8 "00000000"
  let head : Int := header.length + name.length
  header ++ (name ++ List.replicate (align head - head).toNat 0)

/-- `write_archive`: the bytes of the file. -/
def writeArchive (entries : List CpioEntry) (trailingData : Bytes) : Bytes :=
  entries.flatMap writeEntry ++ writeTrailer ++ trailingData

theorem align_sub_toNat (n : Nat) : (align n - n).toNat = padLen n := by
  rw [align_natCast]; omega

theorem writeEntry_eq {e : CpioEntry} (h : e.InRange) :
    writeEntry e = writeRecord e.fields (encodeUtf8 e.name) e.data := by
  have h110 : (Newc.header e.fields).length = 110 :=
    length_header fun v hv => (h.describes.inRange v hv).1
  have hhead : (align ((Newc.header e.fields).length + (encodeUtf8 e.name ++ [0]).length : Int) -
      ((Newc.header e.fields).length + (encodeUtf8 e.name ++ [0]).length : Int)).toNat =
      padLen (110 + ((encodeUtf8 e.name).length + 1)) := by
    rw [h110, List.length_append, List.length_singleton, ← align_sub_toNat]
    push_cast
    rfl
  simp only [writeEntry, writeRecord, hhead, align_sub_toNat, pad]

/-- The fields of the trailer `write_archive` writes. -/
def trailerFields : Fields := ⟨0, 0, 0, 0, 0, 0, 0, 0, 0, 0, 0, 11, 0⟩

theorem describes_trailer : Describes trailerFields trailerName [] :=
  .of_lt (by decide) (by decide) rfl

theorem writeTrailer_eq : writeTrailer = writeRecord trailerFields trailerName [] := by
  decide +kernel

/-- The archive of these members and the trailer `write_archive` writes. -/
def archiveOf (members : List Record) (h : ∀ r ∈ members, r.name ≠ trailerName) : Archive :=
  ⟨members, recordOf _ _ _ describes_trailer, h, rfl⟩

/-- What `write_archive` writes before the trailing data is an archive of the format. -/
theorem exists_archive {es : List CpioEntry} (h : ∀ e ∈ es, e.InRange ∧ e.name ≠ "TRAILER!!!") :
    ∃ a : Archive, a.bytes = es.flatMap writeEntry ++ writeTrailer ∧
      a.members.map Record.content = (es.map fun e => (e.fields, encodeUtf8 e.name, e.data)) ∧
      a.trailer.content = (trailerFields, trailerName, []) := by
  obtain ⟨rs, hb, hc⟩ := exists_records CpioEntry.fields (fun e => encodeUtf8 e.name)
    CpioEntry.data fun e he => (h e he).1.describes
  have hbytes : es.flatMap writeEntry = rs.flatMap Record.bytes := by
    rw [hb, List.flatMap_congr fun e he => writeEntry_eq (h e he).1]
  refine ⟨archiveOf rs (name_ne_of_content hc fun e he => (h e he).2), ?_, hc, ?_⟩
  · rw [archiveOf, hbytes, Archive.bytes, bytes_recordOf, writeTrailer_eq]
  · rw [archiveOf, Record.content, fields_recordOf]; rfl

/-- `parse_archive` on an archive of the format and what follows it. -/
theorem parses_archive_iff {a : Archive} {rest : Bytes} {x : List CpioEntry × Bytes} :
    Parses (a.bytes ++ rest) (.ok x) ↔
      ∃ es, a.members.mapM (Record.view CpioEntry.ofFields) = some es ∧ x = (es, rest) := by
  have h : Returns (parseTurn (a.bytes ++ rest)) ((0 : Nat), []) (.ok x) ↔ _ :=
    returns_archive_iff (Nat.dvd_zero 4) List.drop_zero x
  rw [Nat.zero_add, sliceFrom_natCast, List.drop_left] at h
  exact h

end TalosP2P.Installer
