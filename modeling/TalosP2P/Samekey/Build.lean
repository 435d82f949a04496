import TalosP2P.Initrd.Unpack
import TalosP2P.Samekey.SigKey
import TalosP2P.Support.PosixPath
import TalosP2P.Uki.Parts

/-!
# Samekey — Build

`main()` of `build-samekey-installer-base.py` in a work dir it made itself, from the stock unified
kernel image and the layer of the samekey kernel image to the three files of the docker build.  The
programs it runs are the parameters `Tools`, and `Tools.Lawful` what is assumed of them: a
decompressor undoes its compressor, a squashfs holds the tree it was made of.

A tree is its regular files by their paths; links and empty directories are left out, and so is a
kernel release with `..` in it.

* `main_accepts_assembled_iff`: what the script verifies it has made so, up to the signature it looks
  for.
* `main_replaces_kernel`: the files of the build are the stock ones, but for the kernel and its modules.
-/

namespace TalosP2P

open Python Newc Uki

/-- A directory tree: its regular files by their paths. -/
abbrev Tree := List (List Text × Bytes)

/-- The file at a path. -/
def Tree.file (tree : Tree) (path : List Text) : Option Bytes :=
  (tree.find? fun e => e.1 = path).map Prod.snd

/-- The programs the scripts run, and the user they run as. -/
structure Tools (U : Type) where
  user : Samekey.Process
  binutils : Binutils U
  zstd : Bytes → Except Exc Bytes
  unzstd : Bytes → Except Exc Bytes
  xz : Bytes → Except Exc Bytes
  unxz : Bytes → Except Exc Bytes
  unsquashfs : Bytes → Except Exc Tree
  mksquashfs : Tree → Except Exc Bytes
  modinfo : Samekey.Modinfo Bytes

/-- What is assumed of the programs: their manuals. -/
structure Tools.Lawful {U : Type} (t : Tools U) (parts : U → Image)
    (sigKey : Bytes → Option Text) : Prop where
  binutils : LawfulParts t.binutils parts
  unzstd : ∀ {raw zst : Bytes}, t.zstd raw = .ok zst → zst ≠ [] ∧ t.unzstd zst = .ok raw
  unxz : ∀ {raw xz : Bytes}, t.xz raw = .ok xz → t.unxz xz = .ok raw
  unsquashfs : ∀ {tree : Tree} {sqsh : Bytes}, t.mksquashfs tree = .ok sqsh →
    ∃ tree', t.unsquashfs sqsh = .ok tree' ∧ ∀ path, tree'.file path = tree.file path
  modinfo : t.modinfo.Lawful sigKey

namespace Samekey

/-- `usr/lib/modules/{kernel_release}`, as a path of either tree. -/
def modulesRoot (kernelRelease : Text) : List Text :=
  PosixPath.names ("usr/lib/modules/".toList ++ kernelRelease)

def ahciPath (kernelRelease : Text) : List Text :=
  PosixPath.names ("usr/lib/modules/".toList ++ kernelRelease ++ "/kernel/drivers/ata/ahci.ko".toList)

/-- `rmtree` of the target, if it is there, and `copytree` of the source over it. -/
def replaceModules (root : List Text) (layer rootfs : Tree) : Tree :=
  (rootfs.filter fun e => ¬ root <+: e.1) ++ layer.filter fun e => root <+: e.1

/-- A file of the work dir is opened and read. -/
def readBytes (p : Process) (dir : WorkDir) (name : String) : Except Exc Bytes :=
  match dir.resolve name with
  | some (.file data mode access) =>
    if p.mayRead mode access then .ok data else .error .permissionError
  | some .directory => .error .isADirectoryError
  | some (.deadEnd .circle) => .error .osError
  | some (.deadEnd _) | none => .error .fileNotFoundError

/-- What `main()` has made before it verifies it. -/
structure Assembled (U : Type) where
  kernelRelease : Text
  samekeyVmlinuz : Bytes
  stockInitrdRaw : Bytes
  rebuiltRootfsSqsh : Bytes
  rebuiltInitramfsXz : Bytes
  rebuiltUki : U
  workDir : WorkDir

/-- The files of the docker build. -/
structure BuildContext (U : Type) where
  vmlinuz : Bytes
  initramfsXz : Bytes
  vmlinuzEfi : U

section

variable {U : Type} (t : Tools U)

/-- `extract_string_section(stock_uki, ".uname", ·)`. -/
def extractKernelRelease (stockUki : U) : Except Exc Text := do
  let uname ← t.binutils.dumpSection ".uname" stockUki
  let text ← readText uname
  return strip text

/-- `main()` up to the rebuilt image.  `workDir` is the path of the work dir, `layer` the tree of the
samekey kernel image. -/
def assemble (workDir : String) (layer : Tree) (stockUki : U) : Except Exc (Assembled U) := do
  let stockPath := workDir ++ "/stock-vmlinuz.efi"
  let kernelRelease ← extractKernelRelease t stockUki
  let stockCmdline ← t.binutils.dumpSection ".cmdline" stockUki
  let cmdlineVma ← Uki.Samekey.getSectionVma t.binutils stockPath stockUki ".cmdline"
  let linuxVma ← Uki.Samekey.getSectionVma t.binutils stockPath stockUki ".linux"
  let initrdVma ← Uki.Samekey.getSectionVma t.binutils stockPath stockUki ".initrd"
  let stockInitrdZst ← t.binutils.dumpSection ".initrd" stockUki
  let samekeyVmlinuz ← orRaise (.runtimeError
    ("missing samekey kernel bzImage at " ++ workDir ++ "/samekey-kernel-layer/boot/vmlinuz"))
    (layer.file ["boot".toList, "vmlinuz".toList])
  let root := modulesRoot kernelRelease
  if ¬ layer.any fun e => root <+: e.1 then
    throw (.runtimeError ("missing samekey modules tree at " ++ workDir ++ "/samekey-kernel-layer/" ++
      String.ofList (['/'].intercalate root)))
  let stockInitrdRaw ← t.unzstd stockInitrdZst
  let (cpioEntries, trailingData) ← parseNewcArchive (workDir ++ "/stock-initrd.raw") stockInitrdRaw
  let dir ← extractStock t.user .empty cpioEntries
  let stockRootfsSqsh ← readBytes t.user dir "rootfs.sqsh"
  let rootfs ← t.unsquashfs stockRootfsSqsh
  let rebuiltRootfsSqsh ← t.mksquashfs (replaceModules root layer rootfs)
  let rebuiltInitrdRaw := writeNewcArchive (rebuiltEntries cpioEntries rebuiltRootfsSqsh) trailingData
  let rebuiltInitrdZst ← t.zstd rebuiltInitrdRaw
  let rebuiltInitramfsXz ← t.xz rebuiltInitrdRaw
  let rebuiltUki ← relayout t.binutils stockUki stockCmdline samekeyVmlinuz rebuiltInitrdZst
    cmdlineVma linuxVma initrdVma
  return ⟨kernelRelease, samekeyVmlinuz, stockInitrdRaw, rebuiltRootfsSqsh, rebuiltInitramfsXz,
    rebuiltUki, dir⟩

/-- The verification of `main()`. -/
def verifyAssembled (workDir : String) (layer : Tree) (a : Assembled U) : Except Exc Unit := do
  let verifyLinux ← t.binutils.dumpSection ".linux" a.rebuiltUki
  let verifyInitrdZst ← t.binutils.dumpSection ".initrd" a.rebuiltUki
  if verifyLinux ≠ a.samekeyVmlinuz then
    throw (.runtimeError "rebuilt UKI .linux section does not match samekey kernel")
  let verifyInitrdRaw ← t.unzstd verifyInitrdZst
  let (verifyEntries, _) ← parseNewcArchive (workDir ++ "/verify-initrd.raw") verifyInitrdRaw
  let dir ← extractRebuilt t.user a.workDir verifyEntries
  let samekeyAhci ← orRaise .fileNotFoundError (layer.file (ahciPath a.kernelRelease))
  -- `unsquashfs -cat`, which fails where there is no such file
  let verifyRootfsSqsh ← readBytes t.user dir "verify-rootfs.sqsh"
  let rootfs ← t.unsquashfs verifyRootfsSqsh
  let rebuiltAhci ← orRaise .calledProcessError (rootfs.file (ahciPath a.kernelRelease))
  checkSigKey t.modinfo (workDir ++ "/samekey-ahci.ko") (workDir ++ "/rebuilt-rootfs-ahci.ko")
    samekeyAhci rebuiltAhci

/-- `main()`, up to `docker build`. -/
def main (workDir : String) (layer : Tree) (stockUki : U) : Except Exc (BuildContext U) := do
  let a ← assemble t workDir layer stockUki
  verifyAssembled t workDir layer a
  return ⟨a.samekeyVmlinuz, a.rebuiltInitramfsXz, a.rebuiltUki⟩

end

/-! ### Trees -/

theorem root_prefix_ahciPath (kernelRelease : Text) :
    modulesRoot kernelRelease <+: ahciPath kernelRelease := by
  have hslash : "/kernel/drivers/ata/ahci.ko".toList = '/' :: "kernel/drivers/ata/ahci.ko".toList := by
    decide
  rw [ahciPath, hslash, PosixPath.names_append_slash]
  exact List.prefix_append _ _

/-- The replaced tree has the files of the layer under the root, and its own elsewhere. -/
theorem file_replaceModules (root : List Text) (layer rootfs : Tree) (path : List Text) :
    (replaceModules root layer rootfs).file path =
      if root <+: path then layer.file path else rootfs.file path := by
  have hfile : ∀ (q : List Text → Prop) [DecidablePred q] (tree : Tree),
      (tree.filter fun e => q e.1).find? (fun e => e.1 = path) =
        if q path then tree.find? fun e => e.1 = path else none := by
    intro q _ tree
    rw [List.find?_filter]
    by_cases hq : q path
    · rw [if_pos hq]
      refine congrArg (fun p => tree.find? p) (funext fun e => decide_eq_decide.mpr ?_)
      simp only [decide_eq_true_eq, and_iff_right_iff_imp]
      rintro rfl
      exact hq
    · rw [if_neg hq, List.find?_eq_none]
      intro e _
      simp only [decide_eq_true_eq, not_and]
      rintro hqe rfl
      exact hq hqe
  rw [Tree.file, replaceModules, List.find?_append, hfile (fun p => ¬ root <+: p), hfile (root <+: ·)]
  by_cases hroot : root <+: path
  · rw [if_neg (not_not.mpr hroot), if_pos hroot, if_pos hroot]
    rfl
  · rw [if_pos hroot, if_neg hroot, if_neg hroot, Option.or_none]
    rfl

/-! ### What is assembled -/

section

variable {U : Type} {t : Tools U} {parts : U → Image} {sigKey : Bytes → Option Text}

/-- How the parts of what was assembled came about. -/
structure Assembly (t : Tools U) (parts : U → Image) (workDir : String) (layer : Tree) (stockUki : U)
    (a : Assembled U) (stockCmdline stockInitrdZst stockRootfsSqsh rebuiltInitrdZst trailing : Bytes)
    (entries : List CpioEntry) (rootfs : Tree) : Prop where
  release : extractKernelRelease t stockUki = .ok a.kernelRelease
  cmdline : t.binutils.dumpSection ".cmdline" stockUki = .ok stockCmdline
  initrd : t.binutils.dumpSection ".initrd" stockUki = .ok stockInitrdZst
  vmlinuz : layer.file ["boot".toList, "vmlinuz".toList] = some a.samekeyVmlinuz
  unzstd : t.unzstd stockInitrdZst = .ok a.stockInitrdRaw
  parse : parseNewcArchive (workDir ++ "/stock-initrd.raw") a.stockInitrdRaw = .ok (entries, trailing)
  extract : extractStock t.user .empty entries = .ok a.workDir
  read : readBytes t.user a.workDir "rootfs.sqsh" = .ok stockRootfsSqsh
  unsquashfs : t.unsquashfs stockRootfsSqsh = .ok rootfs
  mksquashfs : t.mksquashfs (replaceModules (modulesRoot a.kernelRelease) layer rootfs) =
    .ok a.rebuiltRootfsSqsh
  zstd : t.zstd (writeNewcArchive (rebuiltEntries entries a.rebuiltRootfsSqsh) trailing) =
    .ok rebuiltInitrdZst
  xz : t.xz (writeNewcArchive (rebuiltEntries entries a.rebuiltRootfsSqsh) trailing) =
    .ok a.rebuiltInitramfsXz
  relaid : Relaid (parts stockUki) (parts a.rebuiltUki) stockCmdline a.samekeyVmlinuz rebuiltInitrdZst

theorem exists_assembly (hb : LawfulParts t.binutils parts) {workDir : String} {layer : Tree}
    {stockUki : U} {a : Assembled U} (h : assemble t workDir layer stockUki = .ok a) :
    ∃ stockCmdline stockInitrdZst stockRootfsSqsh rebuiltInitrdZst trailing entries rootfs,
      Assembly t parts workDir layer stockUki a stockCmdline stockInitrdZst stockRootfsSqsh
        rebuiltInitrdZst trailing entries rootfs := by
  obtain ⟨kernelRelease, hrelease, h⟩ := bind_eq_ok_iff.mp h
  obtain ⟨stockCmdline, hcmdline, h⟩ := bind_eq_ok_iff.mp h
  obtain ⟨cmdlineVma, hc, h⟩ := bind_eq_ok_iff.mp h
  obtain ⟨linuxVma, hl, h⟩ := bind_eq_ok_iff.mp h
  obtain ⟨initrdVma, hi, h⟩ := bind_eq_ok_iff.mp h
  obtain ⟨stockInitrdZst, hinitrd, h⟩ := bind_eq_ok_iff.mp h
  obtain ⟨samekeyVmlinuz, hvmlinuz, h⟩ := bind_eq_ok_iff.mp h
  dsimp only at h
  split at h
  · cases h
  obtain ⟨stockInitrdRaw, hraw, h⟩ := bind_eq_ok_iff.mp h
  obtain ⟨⟨entries, trailing⟩, hparse, h⟩ := bind_eq_ok_iff.mp h
  obtain ⟨dir, hextract, h⟩ := bind_eq_ok_iff.mp h
  obtain ⟨stockRootfsSqsh, hread, h⟩ := bind_eq_ok_iff.mp h
  obtain ⟨rootfs, hunsquash, h⟩ := bind_eq_ok_iff.mp h
  obtain ⟨rebuiltRootfsSqsh, hmksquash, h⟩ := bind_eq_ok_iff.mp h
  obtain ⟨rebuiltInitrdZst, hzst, h⟩ := bind_eq_ok_iff.mp h
  obtain ⟨rebuiltInitramfsXz, hxz, h⟩ := bind_eq_ok_iff.mp h
  obtain ⟨rebuiltUki, hrelay, h⟩ := bind_eq_ok_iff.mp h
  cases h
  exact ⟨stockCmdline, stockInitrdZst, stockRootfsSqsh, rebuiltInitrdZst, trailing, entries, rootfs,
    hrelease, hcmdline, hinitrd, orRaise_eq_ok_iff.mp hvmlinuz, hraw, hparse, hextract, hread, hunsquash,
    hmksquash, hzst, hxz, parts_relayout hb hc hl hi hrelay⟩

/-! ### The verification -/

/-- The extraction from the stock initrd leaves nothing under the name of the later one. -/
theorem verifyRootfs_of_extractStock {p : Process} {entries : List CpioEntry} {dir : WorkDir}
    (h : extractStock p .empty entries = .ok dir) : dir.resolve "verify-rootfs.sqsh" = none := by
  obtain ⟨-, -, hafter⟩ := of_extractStock_empty h
  rw [WorkDir.resolve, hafter.place]
  exact hafter.others _ (by decide) (by decide)

/-- The rebuilt entries hold one squashfs, which is what the second extraction takes out. -/
theorem readBytes_extractRebuilt {p : Process} {entries : List CpioEntry} {R : Bytes} {dir : WorkDir}
    (hread : p.mayRead p.newMode .owner = true) (hroot : ¬ Lacks entries "rootfs.sqsh")
    (hdir : dir.resolve "verify-rootfs.sqsh" = none) :
    ∃ dir', extractRebuilt p dir (rebuiltEntries entries R) = .ok dir' ∧
      readBytes p dir' "verify-rootfs.sqsh" = .ok R := by
  have hrebuilt : ¬ Lacks (rebuiltEntries entries R) "rootfs.sqsh" := by
    intro h
    refine hroot fun e he hn => h _ (List.mem_map_of_mem he) ?_
    rw [if_pos hn]
    exact hn
  obtain ⟨e, he, hn, hextract⟩ := exists_extractRebuilt hrebuilt
  obtain ⟨mode, access, hok, hnew⟩ := (hextract p dir).1 (by rw [hdir]; trivial)
  obtain ⟨rfl, rfl⟩ := hnew hdir
  have hdata : e.data = R := by
    obtain ⟨e₀, -, rfl⟩ := List.mem_map.mp he
    split
    · rfl
    · rename_i hn₀
      rw [if_neg hn₀] at hn
      exact absurd hn hn₀
  refine ⟨_, hok, ?_⟩
  rw [readBytes, WorkDir.resolve_put_self, hdata]
  exact if_pos hread

/-- The verification finds the kernel, the initrd and the squashfs as they were put in. -/
structure Found (t : Tools U) (workDir : String) (a : Assembled U) (entries : List CpioEntry)
    (trailing zst : Bytes) (dir : WorkDir) : Prop where
  stock : parseNewcArchive (workDir ++ "/stock-initrd.raw") a.stockInitrdRaw = .ok (entries, trailing)
  linux : t.binutils.dumpSection ".linux" a.rebuiltUki = .ok a.samekeyVmlinuz
  initrd : t.binutils.dumpSection ".initrd" a.rebuiltUki = .ok zst
  raw : t.unzstd zst =
    .ok (writeNewcArchive (rebuiltEntries entries a.rebuiltRootfsSqsh) trailing)
  parse : parseNewcArchive (workDir ++ "/verify-initrd.raw")
    (writeNewcArchive (rebuiltEntries entries a.rebuiltRootfsSqsh) trailing) =
      .ok (rebuiltEntries entries a.rebuiltRootfsSqsh, trailing)
  extract : extractRebuilt t.user a.workDir (rebuiltEntries entries a.rebuiltRootfsSqsh) = .ok dir
  rootfs : readBytes t.user dir "verify-rootfs.sqsh" = .ok a.rebuiltRootfsSqsh

theorem exists_found (ht : t.Lawful parts sigKey)
    (hread : t.user.mayRead t.user.newMode .owner = true) {workDir : String} {layer : Tree} {stockUki : U}
    {a : Assembled U} (h : assemble t workDir layer stockUki = .ok a) (hkernel : a.samekeyVmlinuz ≠ [])
    (hfile : a.stockInitrdRaw.length < 2 ^ 32) (hR : a.rebuiltRootfsSqsh.length < 2 ^ 32) :
    ∃ entries trailing zst dir, Found t workDir a entries trailing zst dir := by
  obtain ⟨cmdline, stockZst, stockSqsh, zst, trailing, entries, rootfs, hasm⟩ :=
    exists_assembly ht.binutils h
  obtain ⟨hzst, hunzst⟩ := ht.unzstd hasm.zstd
  obtain ⟨hparse, -⟩ := parse_rebuild (workDir ++ "/stock-initrd.raw")
    (workDir ++ "/verify-initrd.raw") hfile hR hasm.parse
  obtain ⟨-, hlacks, -⟩ := of_extractStock_empty hasm.extract
  obtain ⟨dir, hdir, hsqsh⟩ := readBytes_extractRebuilt (R := a.rebuiltRootfsSqsh) hread hlacks
    (verifyRootfs_of_extractStock hasm.extract)
  exact ⟨entries, trailing, zst, dir, hasm.parse,
    dumpSection_relaid ht.binutils hasm.relaid (by simp) hkernel,
    dumpSection_relaid ht.binutils hasm.relaid (by simp) hzst, hunzst, hparse, hdir, hsqsh⟩

/-- **The verification** of what was assembled: the `ahci.ko` of the squashfs is the one of the layer.
What is left is that the layer has one, and that it is signed. -/
theorem verifyAssembled_ok_iff (ht : t.Lawful parts sigKey) {workDir : String} {layer : Tree}
    {stockUki : U} {a : Assembled U} (h : assemble t workDir layer stockUki = .ok a)
    {entries : List CpioEntry} {trailing zst : Bytes} {dir : WorkDir}
    (hf : Found t workDir a entries trailing zst dir) :
    verifyAssembled t workDir layer a = .ok () ↔
      ∃ ahci key, layer.file (ahciPath a.kernelRelease) = some ahci ∧ sigKey ahci = some key := by
  obtain ⟨_, _, _, _, _, _, rootfs, hasm⟩ := exists_assembly ht.binutils h
  obtain ⟨tree, htree, hfiles⟩ := ht.unsquashfs hasm.mksquashfs
  have hahci : tree.file (ahciPath a.kernelRelease) = layer.file (ahciPath a.kernelRelease) := by
    rw [hfiles, file_replaceModules, if_pos (root_prefix_ahciPath a.kernelRelease)]
  rw [verifyAssembled]
  simp only [hf.linux, hf.initrd, hf.raw, hf.parse, hf.extract, hf.rootfs, htree, hahci, ok_bind, ne_eq,
    not_true, if_false, bind_eq_ok_iff, orRaise_eq_ok_iff, check_iff ht.modinfo]
  constructor
  · rintro ⟨ahci, hlayer, -, -, key, hkey, -⟩
    exact ⟨ahci, key, hlayer, hkey⟩
  · rintro ⟨ahci, key, hlayer, hkey⟩
    exact ⟨ahci, hlayer, ahci, hlayer, key, hkey, hkey⟩

/-! ### The files of the build -/

/-- The squashfs the script takes out of the first archive is the last one there. -/
theorem lastNamed_of_extractStock {p : Process} {path : String} {i : Initrd}
    {entries : List CpioEntry} {trailing sqsh : Bytes} {dir : WorkDir}
    (hparse : parseNewcArchive path i.bytes = .ok (entries, trailing))
    (hextract : extractStock p .empty entries = .ok dir)
    (hread : readBytes p dir "rootfs.sqsh" = .ok sqsh) :
    lastNamed i.base.members rootfsName = some sqsh := by
  obtain ⟨es, tr, hes, htr, heq⟩ := parse_archive_iff.mp hparse
  cases heq
  have htn : tr.name = "TRAILER!!!" :=
    encodeUtf8_injective ((of_view htr).2.trans i.base.trailer_name)
  obtain ⟨-, hlacks, hafter⟩ := of_extractStock_empty hextract
  obtain ⟨e, -, -, hlast, access, hdir⟩ := hafter.exists_file (.inr rfl) hlacks
  have hdata : e.data = sqsh := by
    rw [readBytes, hdir] at hread
    simp only at hread
    split at hread
    · exact Except.ok.inj hread
    · cases hread
  have hrecords : i.base.members.map (fun r => (r.name, r.data)) =
      es.map fun e => (encodeUtf8 e.name, e.data) := by
    refine (map_eq_of_view (fun r e he => ?_) hes).symm
    obtain ⟨name, -, rfl⟩ := Option.map_eq_some_iff.mp he
    exact Prod.ext (of_view he).2 rfl
  rw [lastOf, List.filter_append, List.filter_cons_of_neg (by rw [htn]; decide), List.filter_nil,
    List.append_nil] at hlast
  rw [rootfsName, lastNamed_of_map hrecords, hlast, ← hdata]
  rfl

/-- The files of the build are those of a stock image with the initrd `i`, but for the kernel, which
is the one of the layer, and its modules, which `R` has from the layer. -/
structure ReplacesKernel (t : Tools U) (parts : U → Image) (unpack : Bytes → Bytes → Option File)
    (layer : Tree) (stockUki : U) (i : Initrd) (ctx : BuildContext U) (kernelRelease : Text)
    (cmdline zst raw S R : Bytes) (rootfs rebuilt : Tree) : Prop where
  release : extractKernelRelease t stockUki = .ok kernelRelease
  vmlinuz : layer.file ["boot".toList, "vmlinuz".toList] = some ctx.vmlinuz
  stockCmdline : ∃ s, partNamed ".cmdline" (parts stockUki) = some s ∧ s.content = cmdline
  relaid : Relaid (parts stockUki) (parts ctx.vmlinuzEfi) cmdline ctx.vmlinuz zst
  initrd : t.unzstd zst = .ok raw
  initramfs : t.unxz ctx.initramfsXz = .ok raw
  updates : UpdatesRootfs unpack i R raw (rootfsName ∉ i.trailing.records.map Record.name)
  stockRootfs : lastNamed i.base.members rootfsName = some S
  unsquashfs : t.unsquashfs S = .ok rootfs
  rebuiltRootfs : t.unsquashfs R = .ok rebuilt
  modules : ∀ path, rebuilt.file path =
    if modulesRoot kernelRelease <+: path then layer.file path else rootfs.file path

section

variable {workDir : String} {layer : Tree} {stockUki : U} {a : Assembled U}
  {cmdline stockZst S zst trailing : Bytes} {entries : List CpioEntry} {rootfs : Tree}
  (hasm : Assembly t parts workDir layer stockUki a cmdline stockZst S zst trailing entries rootfs)

include hasm

theorem Assembly.stockInitrdRaw_eq (hb : LawfulParts t.binutils parts) {s : Uki.Part} {raw : Bytes}
    (hs : partNamed ".initrd" (parts stockUki) = some s) (hraw : t.unzstd s.content = .ok raw) :
    a.stockInitrdRaw = raw := by
  obtain ⟨s', hs', rfl⟩ := hb.dumpSection_ok hasm.initrd
  cases hs.symm.trans hs'
  exact Except.ok.inj (hasm.unzstd.symm.trans hraw)

theorem Assembly.rebuildInitrd : rebuildInitrd t.user (workDir ++ "/stock-initrd.raw")
    a.stockInitrdRaw a.rebuiltRootfsSqsh =
      .ok (writeNewcArchive (rebuiltEntries entries a.rebuiltRootfsSqsh) trailing) :=
  bind_eq_ok_iff.mpr ⟨_, hasm.parse, bind_eq_ok_iff.mpr ⟨_, hasm.extract, rfl⟩⟩

/-- The squashfs that was made holds the modules of the layer. -/
theorem Assembly.exists_rebuilt (ht : t.Lawful parts sigKey) :
    ∃ rebuilt, t.unsquashfs a.rebuiltRootfsSqsh = .ok rebuilt ∧ ∀ path, rebuilt.file path =
      if modulesRoot a.kernelRelease <+: path then layer.file path else rootfs.file path := by
  obtain ⟨rebuilt, hrebuilt, hfiles⟩ := ht.unsquashfs hasm.mksquashfs
  exact ⟨rebuilt, hrebuilt, fun path => by rw [hfiles, file_replaceModules]⟩

end

theorem exists_replacesKernel (ht : t.Lawful parts sigKey)
    {unpack : Bytes → Bytes → Option File} (hu : LawfulUnpacker unpack) {workDir : String} {layer : Tree}
    {stockUki : U} {a : Assembled U} (h : assemble t workDir layer stockUki = .ok a)
    (hR : a.rebuiltRootfsSqsh.length < 2 ^ 32) {s : Uki.Part} {i : Initrd}
    (hs : partNamed ".initrd" (parts stockUki) = some s) (hi : t.unzstd s.content = .ok i.bytes) :
    ∃ cmdline zst raw S rootfs rebuilt,
      ReplacesKernel t parts unpack layer stockUki i
        ⟨a.samekeyVmlinuz, a.rebuiltInitramfsXz, a.rebuiltUki⟩ a.kernelRelease cmdline zst raw S
        a.rebuiltRootfsSqsh rootfs rebuilt := by
  obtain ⟨cmdline, stockZst, S, zst, trailing, entries, rootfs, hasm⟩ := exists_assembly ht.binutils h
  have hraw := hasm.stockInitrdRaw_eq ht.binutils hs hi
  obtain ⟨rebuilt, hrebuilt, hmodules⟩ := hasm.exists_rebuilt ht
  exact ⟨cmdline, zst, _, S, rootfs, rebuilt, hasm.release, hasm.vmlinuz,
    ht.binutils.dumpSection_ok hasm.cmdline, hasm.relaid, (ht.unzstd hasm.zstd).2, ht.unxz hasm.xz,
    updatesRootfs hu hR (hraw ▸ hasm.rebuildInitrd),
    lastNamed_of_extractStock (hraw ▸ hasm.parse) hasm.extract hasm.read, hasm.unsquashfs, hrebuilt,
    hmodules⟩

/-- **The script accepts what it assembled** exactly when the layer has a signed `ahci.ko`: it finds in
the rebuilt image the kernel, the initrd and the squashfs that were put in. -/
theorem main_accepts_assembled_iff (ht : t.Lawful parts sigKey)
    (hread : t.user.mayRead t.user.newMode .owner = true) {workDir : String} {layer : Tree}
    {stockUki : U} {a : Assembled U} (h : assemble t workDir layer stockUki = .ok a)
    (hkernel : a.samekeyVmlinuz ≠ []) (hfile : a.stockInitrdRaw.length < 2 ^ 32)
    (hR : a.rebuiltRootfsSqsh.length < 2 ^ 32) (ctx : BuildContext U) :
    (∃ entries trailing zst dir, Found t workDir a entries trailing zst dir) ∧
      (main t workDir layer stockUki = .ok ctx ↔
        ctx = ⟨a.samekeyVmlinuz, a.rebuiltInitramfsXz, a.rebuiltUki⟩ ∧
          ∃ ahci key, layer.file (ahciPath a.kernelRelease) = some ahci ∧ sigKey ahci = some key) := by
  obtain ⟨entries, trailing, zst, dir, hfound⟩ := exists_found ht hread h hkernel hfile hR
  refine ⟨⟨entries, trailing, zst, dir, hfound⟩, ?_⟩
  rw [← verifyAssembled_ok_iff ht h hfound, main, h, ok_bind]
  constructor
  · intro hmain
    obtain ⟨⟨⟩, hverify, hctx⟩ := bind_eq_ok_iff.mp hmain
    exact ⟨(Except.ok.inj hctx).symm, hverify⟩
  · rintro ⟨rfl, hverify⟩
    exact bind_eq_ok_iff.mpr ⟨(), hverify, rfl⟩

/-- **The build**: when the script gets to `docker build`, it replaced the kernel of the stock image
by the one of the layer, and the modules in the first archive's root filesystem by those of the layer;
the other sections except `.profile`, the command line, the other files of the initrd and of the root
filesystem are the stock ones, and `initramfs.xz` holds the initrd of the image. -/
theorem main_replaces_kernel (ht : t.Lawful parts sigKey) {unpack : Bytes → Bytes → Option File}
    (hu : LawfulUnpacker unpack) {workDir : String} {layer : Tree} {stockUki : U} {s : Uki.Part}
    {i : Initrd} {ctx : BuildContext U}
    (hs : partNamed ".initrd" (parts stockUki) = some s) (hi : t.unzstd s.content = .ok i.bytes)
    (h : main t workDir layer stockUki = .ok ctx)
    (hR : ∀ a, assemble t workDir layer stockUki = .ok a → a.rebuiltRootfsSqsh.length < 2 ^ 32) :
    ∃ kernelRelease cmdline zst raw S R rootfs rebuilt,
      ReplacesKernel t parts unpack layer stockUki i ctx kernelRelease cmdline zst raw S R rootfs
        rebuilt := by
  obtain ⟨a, ha, h⟩ := bind_eq_ok_iff.mp h
  obtain ⟨⟨⟩, -, hctx⟩ := bind_eq_ok_iff.mp h
  cases hctx
  obtain ⟨cmdline, zst, raw, S, rootfs, rebuilt, hreplaces⟩ :=
    exists_replacesKernel ht hu ha (hR a ha) hs hi
  exact ⟨_, cmdline, zst, raw, S, _, rootfs, rebuilt, hreplaces⟩

end

end Samekey

/-! ### A small build -/

theorem Uki.listBinutils_lawfulParts : LawfulParts listBinutils id where
  objdump := by
    intro image lines name hlines hname
    have h := listBinutils_lawful.objdump hlines hname
    rwa [Image.sections, List.filter_map, List.map_map] at h
  dumpSection_some := by
    intro image name s hs _
    rw [partNamed] at hs
    simp only [listBinutils, id] at hs ⊢
    rw [hs]
    rfl
  dumpSection_ok := by
    intro image name content h
    obtain ⟨s, hs, hc⟩ := Option.map_eq_some_iff.mp (orRaise_eq_ok_iff.mp h)
    exact ⟨s, hs, hc⟩
  removeSections := by
    rintro image _ names ⟨⟩
    exact .refl _
  addSections := by
    rintro image _ additions ⟨⟩
    exact .refl _

namespace Samekey

/-- The layer of a kernel image. -/
def sampleLayer : Tree :=
  [(["boot".toList, "vmlinuz".toList], [9]),
    (["usr", "lib", "modules", "6.1", "kernel", "drivers", "ata", "ahci.ko"].map String.toList, [7])]

def sampleRootfs : Tree :=
  [(["etc".toList, "os-release".toList], [6]),
    (["usr", "lib", "modules", "6.1", "old.ko"].map String.toList, [5])]

/-- Programs that store what they compress behind one byte, and know two squashfs. -/
def sampleTools : Tools Uki.Image where
  user := .user
  binutils := listBinutils
  zstd raw := .ok (0x28 :: raw)
  unzstd zst := .ok zst.tail
  xz raw := .ok (0xfd :: raw)
  unxz xz := .ok xz.tail
  unsquashfs sqsh := .ok (if sqsh = [1] then sampleRootfs
    else replaceModules (modulesRoot "6.1".toList) sampleLayer sampleRootfs)
  mksquashfs tree :=
    if tree = replaceModules (modulesRoot "6.1".toList) sampleLayer sampleRootfs then .ok [2]
    else .error .calledProcessError
  modinfo :=
    { all := fun m => sampleModinfo.all (if m = [7] then .ahci else .unsigned)
      field := fun name m => sampleModinfo.field name (if m = [7] then .ahci else .unsigned) }

theorem sampleTools_lawful :
    sampleTools.Lawful id fun m => Sample.sigKey (if m = [7] then .ahci else .unsigned) where
  binutils := listBinutils_lawfulParts
  unzstd := by
    rintro raw _ ⟨⟩
    exact ⟨List.cons_ne_nil _ _, rfl⟩
  unxz := by
    rintro raw _ ⟨⟩
    rfl
  unsquashfs := by
    intro tree sqsh h
    simp only [sampleTools] at h
    split at h
    · rename_i htree
      cases h
      exact ⟨_, rfl, fun path => by rw [htree, if_neg (by decide)]⟩
    · cases h
  modinfo :=
    { nonempty := sampleModinfo_lawful.nonempty
      solid := sampleModinfo_lawful.solid
      line := sampleModinfo_lawful.line
      field := sampleModinfo_lawful.field
      noLine := sampleModinfo_lawful.noLine
      noField := sampleModinfo_lawful.noField }

theorem initRecord_name : initRecord.name ≠ trailerName := by decide

/-- `init` and a squashfs in the first archive, and `init` again in the second. -/
def sampleInitrd : Initrd := extendedInitrd initRecord initRecord_name

/-- A stock image with that initrd. -/
def sampleUki : Uki.Image :=
  [⟨".uname", 0x1000, encodeUtf8 "6.1\n"⟩, ⟨".cmdline", 0x1010, [0x61, 0x62]⟩, ⟨".linux", 0x1018, [1]⟩,
    ⟨".initrd", 0x1020, 0x28 :: sampleInitrd.bytes⟩]

theorem exists_assembled_sample : ∃ a, assemble sampleTools "work" sampleLayer sampleUki = .ok a ∧
    a.samekeyVmlinuz = [9] ∧ a.rebuiltRootfsSqsh = [2] ∧ a.kernelRelease = "6.1".toList ∧
    a.stockInitrdRaw = sampleInitrd.bytes := by
  have h : (assemble sampleTools "work" sampleLayer sampleUki).map (fun a =>
      (a.samekeyVmlinuz, a.rebuiltRootfsSqsh, a.kernelRelease, a.stockInitrdRaw)) =
      .ok ([9], [2], "6.1".toList, sampleInitrd.bytes) := by
    decide +kernel
  cases ha : assemble sampleTools "work" sampleLayer sampleUki with
  | error e => rw [ha] at h; cases h
  | ok a =>
      rw [ha] at h
      have h := Except.ok.inj h
      simp only [Prod.mk.injEq] at h
      exact ⟨a, rfl, h⟩

/-- The `ahci.ko` of the layer is there, and signed. -/
theorem signed_sample : ∃ ahci key, sampleLayer.file (ahciPath "6.1".toList) = some ahci ∧
    Sample.sigKey (if ahci = [7] then .ahci else .unsigned) = some key :=
  ⟨[7], _, by decide +kernel, rfl⟩

theorem main_accepts_assembled_iff_sample : ∃ ctx,
    main sampleTools "work" sampleLayer sampleUki = .ok ctx ∧ ctx.vmlinuz = [9] := by
  obtain ⟨a, ha, hk, hR, hrel, hraw⟩ := exists_assembled_sample
  have hiff := main_accepts_assembled_iff sampleTools_lawful (by decide) ha (by rw [hk]; decide)
    (by rw [hraw]; decide +kernel) (by rw [hR]; decide)
  exact ⟨_, (hiff _).2.mpr ⟨rfl, by rw [hrel]; exact signed_sample⟩, hk⟩

/-- The first archive of the small build: the inodes are gone, and the squashfs is the new one. -/
def sampleRebuilt : Archive where
  members :=
    [recordOf ⟨0, 0o100755, 0, 0, 1, 0, 1, 8, 1, 0, 0, 5, 0⟩ (encodeUtf8 "init") [0]
        (.of_lt (by decide) (by decide) rfl),
      recordOf ⟨0, 0o100644, 0, 0, 1, 0, 1, 8, 1, 0, 0, 12, 0⟩ rootfsName [2]
        (.of_lt (by decide) (by decide) rfl)]
  trailer := stockArchive.trailer
  members_name := by decide
  trailer_name := stockArchive.trailer_name

theorem main_sample : ∃ ctx, main sampleTools "work" sampleLayer sampleUki = .ok ctx ∧
    ctx.vmlinuz = [9] ∧ ctx.initramfsXz =
      0xfd :: (Initrd.mk sampleRebuilt sampleInitrd.trailing).bytes := by
  have h : (main sampleTools "work" sampleLayer sampleUki).map (fun ctx =>
      (ctx.vmlinuz, ctx.initramfsXz)) = .ok ([9], 0xfd ::
        (Initrd.mk sampleRebuilt sampleInitrd.trailing).bytes) := by
    decide +kernel
  cases hctx : main sampleTools "work" sampleLayer sampleUki with
  | error e => rw [hctx] at h; cases h
  | ok ctx =>
      rw [hctx] at h
      exact ⟨ctx, rfl, Prod.mk.inj (Except.ok.inj h)⟩

theorem main_replaces_kernel_sample : ∃ unpack ctx kernelRelease cmdline zst raw S R rootfs rebuilt,
    ReplacesKernel sampleTools id unpack sampleLayer sampleUki sampleInitrd ctx kernelRelease cmdline
      zst raw S R rootfs rebuilt ∧ unpack raw = withRootfs R (unpack sampleInitrd.bytes) := by
  obtain ⟨unpack, hu⟩ := exists_lawfulUnpacker
  obtain ⟨ctx, hctx, -⟩ := main_sample
  obtain ⟨a, ha, -, hR, -⟩ := exists_assembled_sample
  obtain ⟨kernelRelease, cmdline, zst, raw, S, R, rootfs, rebuilt, h⟩ :=
    main_replaces_kernel sampleTools_lawful hu (i := sampleInitrd)
      (s := ⟨".initrd", 0x1020, 0x28 :: sampleInitrd.bytes⟩) (by rfl) (by rfl) hctx
      fun a' ha' => by cases ha.symm.trans ha'; rw [hR]; decide
  refine ⟨unpack, ctx, kernelRelease, cmdline, zst, raw, S, R, rootfs, rebuilt, h, ?_⟩
  obtain ⟨i', -, -, -, hplain⟩ := h.updates
  exact (hplain plain_extendedInitrd).2.1 (by decide +kernel)

end Samekey

end TalosP2P
