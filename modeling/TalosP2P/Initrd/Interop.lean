import TalosP2P.Installer.Cpio
import TalosP2P.Samekey.Cpio

/-!
# Initrd — Interop

The two codecs of `hack/p2p` on each other's output.  Both writers lay out records of the format
(`exists_archive` for either), and both readers read every archive of the format, so neither reader
is compared with the other script's writer: the format stands between them.

* `Samekey.exists_archive`: what `write_newc_archive` writes up to a trailer is an archive.
* `codecs_interoperate`: each reader on the other script's file.
-/

namespace TalosP2P

open Python Newc

namespace Samekey

/-- Every header field is in the range of the format. -/
def CpioEntry.InRange (e : CpioEntry) : Prop := ∀ v ∈ e.fields.toList, 0 ≤ v ∧ v < 2 ^ 32

instance (e : CpioEntry) : Decidable e.InRange :=
  inferInstanceAs (Decidable (∀ v ∈ e.fields.toList, 0 ≤ v ∧ v < 2 ^ 32))

theorem CpioEntry.InRange.describes {e : CpioEntry} (h : e.InRange) :
    Describes e.fields (encodeUtf8 e.name) e.data :=
  .of_lt h (by simp [CpioEntry.fields, CpioEntry.rawName]) rfl

theorem writeEntry_eq (e : CpioEntry) :
    writeEntry e = writeRecord e.fields (encodeUtf8 e.name) e.data := rfl

/-- What `write_newc_archive` writes up to a trailer is an archive of the format. -/
theorem exists_archive {es : List CpioEntry} {t : CpioEntry}
    (hes : ∀ e ∈ es, e.InRange ∧ e.name ≠ "TRAILER!!!") (ht : t.InRange)
    (htn : t.name = "TRAILER!!!") :
    ∃ a : Archive, a.bytes = (es ++ [t]).flatMap writeEntry ∧
      a.members.map Record.content = es.map fun e => (e.fields, encodeUtf8 e.name, e.data) := by
  obtain ⟨rs, hb, hc⟩ := exists_records CpioEntry.fields (fun e => encodeUtf8 e.name)
    CpioEntry.data fun e he => (hes e he).1.describes
  refine ⟨⟨rs, recordOf _ _ _ ht.describes, name_ne_of_content hc fun e he => (hes e he).2,
    congrArg encodeUtf8 htn⟩, ?_, hc⟩
  rw [Archive.bytes, hb, bytes_recordOf, List.flatMap_append, List.flatMap_singleton, writeEntry_eq,
    List.flatMap_congr fun e _ => writeEntry_eq e]

end Samekey

/-! ### Entries of one script as entries of the other -/

/-- What `parse_archive` makes of an entry of the samekey script: `ino` and `check` are zero. -/
def toInstaller (e : Samekey.CpioEntry) : Installer.CpioEntry where
  name := e.name
  ino := 0
  mode := e.mode
  uid := e.uid
  gid := e.gid
  nlink := e.nlink
  mtime := e.mtime
  filesize := e.data.length
  devmajor := e.devmajor
  devminor := e.devminor
  rdevmajor := e.rdevmajor
  rdevminor := e.rdevminor
  check := 0
  data := e.data

/-- What `parse_newc_archive` makes of an entry of the installer script. -/
def toSamekey (e : Installer.CpioEntry) : Samekey.CpioEntry where
  name := e.name
  mode := e.mode
  uid := e.uid
  gid := e.gid
  nlink := e.nlink
  mtime := e.mtime
  devmajor := e.devmajor
  devminor := e.devminor
  rdevmajor := e.rdevmajor
  rdevminor := e.rdevminor
  data := e.data

/-- The entry `parse_newc_archive` makes of the trailer `write_archive` writes. -/
def trailerEntry : Samekey.CpioEntry := ⟨"TRAILER!!!", 0, 0, 0, 0, 0, 0, 0, 0, 0, []⟩

/-- **The codecs interoperate.**  `parse_archive` returns exactly the entries before the trailer
of a file of `write_newc_archive`, and `parse_newc_archive` returns the entries of a file of
`write_archive` and one trailer; both return exactly what follows. -/
theorem codecs_interoperate (archivePath : String) {E : List Samekey.CpioEntry}
    {E' : List Installer.CpioEntry} {trailer : Samekey.CpioEntry}
    (hE : ∀ e ∈ E, e.InRange ∧ e.name ≠ "TRAILER!!!")
    (hE' : ∀ e ∈ E', e.InRange ∧ e.name ≠ "TRAILER!!!")
    (ht : trailer.InRange) (htn : trailer.name = "TRAILER!!!") (T : Bytes) :
    Installer.Parses (Samekey.writeNewcArchive (E ++ [trailer]) T) (.ok (E.map toInstaller, T)) ∧
      Samekey.parseNewcArchive archivePath (Installer.writeArchive E' T) =
        .ok (E'.map toSamekey ++ [trailerEntry], T) := by
  constructor
  · obtain ⟨a, hb, hc⟩ := Samekey.exists_archive hE ht htn
    rw [Samekey.writeNewcArchive, ← hb, Installer.parses_archive_iff]
    exact ⟨_, mapM_view hc, rfl⟩
  · obtain ⟨a, hb, hc, htc⟩ := Installer.exists_archive hE'
    have hview : a.trailer.view Samekey.CpioEntry.ofFields = some trailerEntry := by
      have hf : a.trailer.fields = Installer.trailerFields := congrArg Prod.fst htc
      have hd : a.trailer.data = [] := congrArg (fun c => c.2.2) htc
      rw [Record.view, a.trailer_name, trailerName, decodeUtf8_encodeUtf8, hf, hd]
      rfl
    rw [Installer.writeArchive, ← hb, Samekey.parse_archive_iff]
    exact ⟨_, trailerEntry, mapM_view hc, hview, rfl⟩

theorem codecs_interoperate_init :
    let init : Samekey.CpioEntry :=
      ⟨"init", 0o100755, 0, 0, 1, 0xffffffff, 8, 1, 0, 0, [0x7f, 0x45, 0x4c]⟩
    let trailer : Samekey.CpioEntry := ⟨"TRAILER!!!", 0, 0, 0, 1, 0, 0, 0, 0, 0, [1]⟩
    Installer.Parses (Samekey.writeNewcArchive ([init] ++ [trailer]) [7, 8])
        (.ok ([init].map toInstaller, [7, 8])) ∧
      Samekey.parseNewcArchive "stock-initrd.raw"
          (Installer.writeArchive [{ toInstaller init with ino := 4, check := 2 }] [7, 8]) =
        .ok ([init, trailerEntry], [7, 8]) :=
  codecs_interoperate "stock-initrd.raw" (by decide) (by decide) (by decide) rfl [7, 8]

end TalosP2P
