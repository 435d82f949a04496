import TalosP2P.Samekey.Cpio

/-!
# Samekey — Rebuild

The initrd rebuild of `main()`: the entries the script read, with the data of every `rootfs.sqsh`
replaced, written back before what followed the trailer.

* `parse_rebuild`: the rebuilt file reads back as the entries it was written from, whatever the
  reader accepted.
* `fileIds_preserved_iff`: two links of one file stay links of one file, but the rebuilt archive
  gives every record inode `0`, so files on one device are told apart afterwards exactly when no
  two of them had different inodes before.
-/

namespace TalosP2P.Samekey

open Python Newc Loop

/-- `rebuilt_entries` of `main()`: every `rootfs.sqsh` gets the rebuilt squashfs. -/
def rebuiltEntries (cpioEntries : List CpioEntry) (rebuiltRootfsSqsh : Bytes) : List CpioEntry :=
  cpioEntries.map fun entry =>
    if entry.name = "rootfs.sqsh" then
      { name := entry.name
        mode := entry.mode
        uid := entry.uid
        gid := entry.gid
        nlink := entry.nlink
        mtime := entry.mtime
        devmajor := entry.devmajor
        devminor := entry.devminor
        rdevmajor := entry.rdevmajor
        rdevminor := entry.rdevminor
        data := rebuiltRootfsSqsh }
    else entry

/-! ### Reading the rebuilt file back -/

theorem Writable.rebuilt {es : List CpioEntry} {trailing R : Bytes} (h : Writable es trailing)
    (hR : R.length < 2 ^ 32) : Writable (rebuiltEntries es R) trailing := by
  have hname : ∀ e : CpioEntry, (if e.name = "rootfs.sqsh" then { e with data := R } else e).name
      = e.name := fun e => by split <;> rfl
  have hfits : ∀ e : CpioEntry, e.Fits →
      (if e.name = "rootfs.sqsh" then { e with data := R } else e : CpioEntry).Fits := by
    intro e he
    split
    · have hsize : Fits08 R.length := by constructor <;> push_cast <;> omega
      rw [CpioEntry.Fits, Fields.forall_toList] at he ⊢
      simp only [CpioEntry.fields, CpioEntry.rawName] at he ⊢
      simp only [he, hsize, and_self]
    · exact he
  constructor
  · intro e he
    obtain ⟨e₀, he₀, rfl⟩ := List.mem_map.mp he
    exact hfits e₀ (h.fits e₀ he₀)
  · rcases h.ends with ⟨front, t, rfl, ht, hfront⟩ | ⟨rfl, hes⟩
    · refine .inl ⟨rebuiltEntries front R, _, List.map_append, (hname t).trans ht, fun e he => ?_⟩
      obtain ⟨e₀, he₀, rfl⟩ := List.mem_map.mp he
      exact fun hn => hfront e₀ he₀ ((hname e₀).symm.trans hn)
    · refine .inr ⟨rfl, fun e he => ?_⟩
      obtain ⟨e₀, he₀, rfl⟩ := List.mem_map.mp he
      exact fun hn => hes e₀ he₀ ((hname e₀).symm.trans hn)

/-- **The rebuild is stable.**  Whatever `parse_newc_archive` accepted, the file written from it
with the replacement, and the file written from it unchanged, read back as what was written. -/
theorem parse_rebuild (path path' : String) {file R trailing : Bytes} {es : List CpioEntry}
    (hfile : file.length < 2 ^ 32) (hR : R.length < 2 ^ 32)
    (h : parseNewcArchive path file = .ok (es, trailing)) :
    parseNewcArchive path' (writeNewcArchive (rebuiltEntries es R) trailing) =
        .ok (rebuiltEntries es R, trailing) ∧
      parseNewcArchive path' (writeNewcArchive es trailing) = .ok (es, trailing) :=
  have hw := writable_of_parse h hfile
  ⟨parse_write path' (hw.rebuilt hR), parse_write path' hw⟩

/-- A file the reader accepts and no cpio tool wrote: a sign, blanks, an underscore and a prefix
in the numbers, no `ino`, a name without its NUL, data cut short, and no trailer. -/
def lenientFile : Bytes :=
  encodeUtf8 ("070701" ++ "????????" ++ " 0x81a4 " ++ "-0000001" ++ "+0000000" ++ "0000_002" ++
    "     1F " ++ "00000009" ++ "00000008" ++ "00000001" ++ "00000000" ++ "00000000" ++ "0000000C" ++
    "????????" ++ "rootfs.sqsh!" ++ "__" ++ "old")

theorem parse_rebuild_lenientFile :
    ∃ e : CpioEntry, e.name = "rootfs.sqsh" ∧ e.uid = -1 ∧
      parseNewcArchive "verify-initrd.raw" (writeNewcArchive [{ e with data := [1, 2] }] []) =
        .ok ([{ e with data := [1, 2] }], []) :=
  have h : parseNewcArchive "stock-initrd.raw" lenientFile =
      .ok ([⟨"rootfs.sqsh", 0x81a4, -1, 0, 2, 0x1f, 8, 1, 0, 0, encodeUtf8 "old"⟩], []) := by
    decide +kernel
  ⟨_, rfl, rfl, (parse_rebuild "stock-initrd.raw" "verify-initrd.raw" (by decide +kernel)
    (by decide) (R := [1, 2]) h).1⟩

/-! ### File identity -/

/-- What `newc` tells files apart by: the device, the inode, and the type bits of the mode. -/
@[ext]
structure FileId where
  devmajor : Int
  devminor : Int
  ino : Option Int
  fileType : Int
  deriving DecidableEq

/-- `(mode & 0o170000) >> 12`. -/
def fileType (mode : Int) : Int := mode / 4096 % 16

/-- The identity of a record, its header with its entry; `ino` is what the header's field says,
which the entry does not keep. -/
def fileId (r : Bytes × CpioEntry) : FileId where
  devmajor := r.2.devmajor
  devminor := r.2.devminor
  ino := int16 (fieldBytes r.1 0)
  fileType := fileType r.2.mode

/-- A record that may share its file with another: no directory, and more than one link. -/
def Linked (r : Bytes × CpioEntry) : Prop := fileType r.2.mode ≠ 4 ∧ 2 ≤ r.2.nlink

instance : DecidablePred Linked := fun _ => inferInstanceAs (Decidable (_ ∧ _))

/-- The records of an archive, in order. -/
def archiveRecords (archivePath : String) (file : Bytes) :
    Except Exc (List (Bytes × CpioEntry) × Bytes) :=
  parseLoop (fun header e => (header, e)) archivePath file

/-- Any two records that may share their file denote one file in the first archive exactly when
they do in the second; `f` gives the record of the second archive. -/
def IdentityPreserved (records : List (Bytes × CpioEntry))
    (f : Bytes × CpioEntry → Bytes × CpioEntry) : Prop :=
  ∀ p ∈ records, ∀ q ∈ records, Linked p → Linked q →
    (fileId (f p) = fileId (f q) ↔ fileId p = fileId q)

/-- No two records that may share their file have one device and type and different inodes. -/
def OneInodePerDevice (records : List (Bytes × CpioEntry)) : Prop :=
  ∀ p ∈ records, ∀ q ∈ records, Linked p → Linked q →
    p.2.devmajor = q.2.devmajor → p.2.devminor = q.2.devminor →
    fileType p.2.mode = fileType q.2.mode → (fileId p).ino = (fileId q).ino

instance (records : List (Bytes × CpioEntry)) (f : Bytes × CpioEntry → Bytes × CpioEntry) :
    Decidable (IdentityPreserved records f) := by
  unfold IdentityPreserved; infer_instance

/-- The record the rebuild writes for a record of the input. -/
def rebuiltRecord (R : Bytes) (r : Bytes × CpioEntry) : Bytes × CpioEntry :=
  let e := if r.2.name = "rootfs.sqsh" then { r.2 with data := R } else r.2
  (Newc.header e.fields, e)

theorem rebuiltEntries_eq_map (records : List (Bytes × CpioEntry)) (R : Bytes) :
    rebuiltEntries (records.map Prod.snd) R = records.map fun r => (rebuiltRecord R r).2 := by
  rw [rebuiltEntries, List.map_map]
  rfl

/-- The rebuild keeps the device and the type of every record, and its inode is `0`. -/
theorem fileId_rebuiltRecord (R : Bytes) (r : Bytes × CpioEntry) :
    fileId (rebuiltRecord R r) = { fileId r with ino := some 0 } := by
  have hino : ∀ e : CpioEntry, int16 (fieldBytes (Newc.header e.fields) 0) = some 0 := by
    intro e
    have h : fieldBytes (Newc.header e.fields) 0 = hex08 0 := by
      rw [fieldBytes, Newc.header, List.drop_append, List.drop_eq_nil_of_le (by simp),
        List.nil_append, length_magic]
      show (hex08 0 ++ _).take 8 = hex08 0
      rw [List.take_append_of_le_length (by decide), List.take_of_length_le (by decide)]
    rw [h]
    exact int16_hex08 (by decide)
  simp only [fileId, rebuiltRecord, hino]
  split <;> rfl

/-- **File identity.**  For every archive the reader accepts, the records of the rebuilt archive
are the rebuilt records, and identity is preserved exactly when no two files of one device and type
had different inodes. -/
theorem fileIds_preserved_iff {path : String} {file trailing : Bytes} {es : List CpioEntry}
    (h : parseNewcArchive path file = .ok (es, trailing)) (R : Bytes) :
    ∃ records, archiveRecords path file = .ok (records, trailing) ∧ records.map Prod.snd = es ∧
      (file.length < 2 ^ 32 → R.length < 2 ^ 32 → ∀ path',
        archiveRecords path' (writeNewcArchive (rebuiltEntries es R) trailing) =
          .ok (records.map (rebuiltRecord R), trailing)) ∧
      (IdentityPreserved records (rebuiltRecord R) ↔ OneInodePerDevice records) := by
  have hmap := parseLoop_map Prod.snd (fun header e => (header, e)) path file
  rw [show parseLoop (fun header e => (header, e).2) path file = .ok (es, trailing) from h] at hmap
  obtain ⟨⟨records, t⟩, hrec, hes⟩ : ∃ r, archiveRecords path file = .ok r ∧
      (r.1.map Prod.snd, r.2) = (es, trailing) := by
    cases hr : archiveRecords path file with
    | error e => rw [archiveRecords] at hr; rw [hr] at hmap; cases hmap
    | ok r =>
        rw [archiveRecords] at hr; rw [hr] at hmap
        exact ⟨r, rfl, (Except.ok.inj hmap).symm⟩
  cases hes
  refine ⟨records, hrec, rfl, fun hfile hR path' => ?_, ?_⟩
  · rw [archiveRecords, parseLoop_write _ _ ((writable_of_parse h hfile).rebuilt hR),
      rebuiltEntries_eq_map, List.map_map]
    refine congrArg (fun l => Except.ok (l, t)) (List.map_congr_left fun r _ => ?_)
    simp only [Function.comp, rebuiltRecord]
  · simp only [IdentityPreserved, OneInodePerDevice, fileId_rebuiltRecord]
    refine forall₂_congr fun p _ => forall₂_congr fun q _ => forall₂_congr fun _ _ => ?_
    constructor
    · intro hpq h₁ h₂ h₃
      exact congrArg FileId.ino (hpq.mp (by simp only [fileId, h₁, h₂, h₃]))
    · intro hpq
      constructor
      · intro h'
        have h₁ := congrArg FileId.devmajor h'
        have h₂ := congrArg FileId.devminor h'
        have h₃ := congrArg FileId.fileType h'
        exact (FileId.ext_iff).mpr ⟨h₁, h₂, hpq h₁ h₂ h₃, h₃⟩
      · intro h'
        rw [h']

/-- Two regular files of one device, each with a second link in another place. -/
def twoFiles : Bytes :=
  let record (ino : Int) (name : String) : Bytes :=
    writeRecord ⟨ino, 0o100644, 0, 0, 2, 0, 0, 8, 1, 0, 0, 2, 0⟩ (encodeUtf8 name) []
  record 1 "a" ++ (record 2 "b" ++ (record 1 "c" ++ record 2 "d"))

/-- Four links of two files become four links of one file. -/
theorem twoFiles_merged : ∃ p q : Bytes × CpioEntry, ∃ records,
    archiveRecords "stock-initrd.raw" twoFiles = .ok (records, []) ∧ p ∈ records ∧ q ∈ records ∧
      Linked p ∧ Linked q ∧ fileId p ≠ fileId q ∧
      archiveRecords "verify-initrd.raw"
          (writeNewcArchive (rebuiltEntries (records.map Prod.snd) []) []) =
        .ok (records.map (rebuiltRecord []), []) ∧
      fileId (rebuiltRecord [] p) = fileId (rebuiltRecord [] q) := by
  let link (ino : Int) (name : String) : Bytes × CpioEntry :=
    (Newc.header ⟨ino, 0o100644, 0, 0, 2, 0, 0, 8, 1, 0, 0, 2, 0⟩,
      ⟨name, 0o100644, 0, 0, 2, 0, 8, 1, 0, 0, []⟩)
  refine ⟨link 1 "a", link 2 "b", [link 1 "a", link 2 "b", link 1 "c", link 2 "d"], ?_, by simp,
    by simp, ?_⟩
  · decide +kernel
  · decide +kernel

theorem fileIds_preserved_iff_twoFiles :
    ∃ records, archiveRecords "stock-initrd.raw" twoFiles = .ok (records, []) ∧
      (IdentityPreserved records (rebuiltRecord []) ↔ OneInodePerDevice records) := by
  have h : parseNewcArchive "stock-initrd.raw" twoFiles =
      .ok (["a", "b", "c", "d"].map fun name => ⟨name, 0o100644, 0, 0, 2, 0, 8, 1, 0, 0, []⟩, []) := by
    decide +kernel
  obtain ⟨records, hrec, -, -, hiff⟩ := fileIds_preserved_iff h []
  exact ⟨records, hrec, hiff⟩

end TalosP2P.Samekey
