import TalosP2P.Support.Layout
import TalosP2P.Support.Python

/-!
# Uki — Sections

Both scripts rebuild the unified kernel image in one way: read the VMAs of `.cmdline`, `.linux` and
`.initrd` off `objdump -h`, remove these sections and `.profile`, and add the new payloads at the
old VMAs.  Neither compares a size with anything.

* `Binutils`, `Lawful`: the programs of binutils, and what is assumed of them.
* `relayout_perm`: the sections of the rebuilt image are those of `Layout.relay`.
* `rebuilt_noOverlap_iff`: exactly when the sections of the rebuilt image do not overlap.
-/

namespace TalosP2P.Uki

open Python Layout

abbrev Section := Region String

/-- What `objcopy` is told to add: `--add-section name=payload`, `--change-section-vma name=vma`. -/
structure Addition where
  name : String
  payload : Bytes
  vma : String

/-- The programs of binutils the scripts run on images of a type `U`. -/
structure Binutils (U : Type) where
  /-- The words of each line that `objdump -h` prints. -/
  objdump : U → Except Exc (List (List String))
  dumpSection : String → U → Except Exc Bytes
  removeSections : List String → U → Except Exc U
  addSections : List Addition → U → Except Exc U

/-! ### The scripts -/

def removed : List String := [".profile", ".cmdline", ".linux", ".initrd"]

section Scripts

variable {U : Type} (b : Binutils U)

/-- The VMA in the first line of `objdump -h` for the section; `missing` when there is none. -/
def sectionVma (missing : Exc) (uki : U) (name : String) : Except Exc String := do
  let lines ← b.objdump uki
  match lines.find? fun parts => parts.length ≥ 4 ∧ parts.getD 1 "" = name with
  | some parts => return "0x" ++ parts.getD 3 ""
  | none => throw missing

/-- The two runs of `objcopy`. -/
def relayout (uki : U) (cmdline linux initrd : Bytes) (cmdlineVma linuxVma initrdVma : String) :
    Except Exc U := do
  let stripped ← b.removeSections removed uki
  b.addSections [⟨".cmdline", cmdline, cmdlineVma⟩, ⟨".linux", linux, linuxVma⟩,
    ⟨".initrd", initrd, initrdVma⟩] stripped

/-- `get_section_vma`. -/
def Samekey.getSectionVma (binaryPath : String) (uki : U) (name : String) : Except Exc String :=
  sectionVma b (.runtimeError s!"unable to determine VMA for section {name} in {binaryPath}") uki name

/-- The rebuild in `build-samekey-installer-base.py`, up to `docker build`.  What is checked after
the kernel is read off the dumped `.initrd`. -/
def Samekey.rebuildUki (path : String) (checkInitrd : Bytes → Except Exc Unit) (stockUki : U)
    (stockCmdline samekeyVmlinuz rebuiltInitrdZst : Bytes) : Except Exc U := do
  let cmdlineVma ← Samekey.getSectionVma b path stockUki ".cmdline"
  let linuxVma ← Samekey.getSectionVma b path stockUki ".linux"
  let initrdVma ← Samekey.getSectionVma b path stockUki ".initrd"
  let rebuiltUki ← relayout b stockUki stockCmdline samekeyVmlinuz rebuiltInitrdZst
    cmdlineVma linuxVma initrdVma
  let verifyLinux ← b.dumpSection ".linux" rebuiltUki
  let verifyInitrdZst ← b.dumpSection ".initrd" rebuiltUki
  if verifyLinux ≠ samekeyVmlinuz then
    throw (.runtimeError "rebuilt UKI .linux section does not match samekey kernel")
  checkInitrd verifyInitrdZst
  return rebuiltUki

/-- The script that `build-installer.sh` runs for each of the three sections. -/
def Installer.printVma (binaryPath : String) (uki : U) (sectionName : String) : Except Exc String :=
  sectionVma b (.systemExit s!"section {sectionName} not found in {binaryPath}") uki sectionName

/-- The rebuild in `build-installer.sh`, up to `docker build`. -/
def Installer.rebuildUki (path : String) (uki : U) (cmdline vmlinuz initrdZst : Bytes) :
    Except Exc U := do
  let linuxVma ← Installer.printVma b path uki ".linux"
  let initrdVma ← Installer.printVma b path uki ".initrd"
  let cmdlineVma ← Installer.printVma b path uki ".cmdline"
  relayout b uki cmdline vmlinuz initrdZst cmdlineVma linuxVma initrdVma

end Scripts

/-! ### What is assumed of binutils -/

/-- The last `k` hexadecimal digits of a number, as text. -/
def hexText (k n : Nat) : String := String.ofList ((fixedHex k n).map Char.ofUInt8)

/-- A VMA as `objdump -h` prints it. -/
def vmaText (start : Nat) : String := hexText 16 start

/-- The section that an addition makes: at the given VMA, as long as its payload. -/
structure Places (a : Addition) (s : Section) : Prop where
  name : s.name = a.name
  size : s.size = a.payload.length
  start_lt : s.start < 2 ^ 64
  vma : a.vma = "0x" ++ vmaText s.start

/-- The programs show and change the sections of an image as their manual says: `objdump -h` lists
each of the removed sections by name and VMA, removing and adding leave the other sections where
they are, and an added section is placed at its VMA. -/
structure Lawful {U : Type} (b : Binutils U) (sections : U → List Section) : Prop where
  start_lt : ∀ {u : U}, ∀ s ∈ sections u, s.start < 2 ^ 64
  objdump : ∀ {u : U} {lines : List (List String)} {name : String}, b.objdump u = .ok lines →
    name ∈ removed →
    (lines.filter fun parts => parts.length ≥ 4 ∧ parts.getD 1 "" = name).map (·.getD 3 "") =
      ((sections u).filter fun s => s.name = name).map fun s => vmaText s.start
  removeSections : ∀ {u u' : U} {names : List String}, b.removeSections names u = .ok u' →
    (sections u').Perm (kept names (sections u))
  addSections : ∀ {u u' : U} {additions : List Addition} {placed : List Section},
    b.addSections additions u = .ok u' → List.Forall₂ Places additions placed →
    (sections u').Perm (sections u ++ placed)

/-! ### The rebuilt image -/

/-- The sections put back, with the lengths of their payloads. -/
def sizes (cmdline linux initrd : Bytes) : List (String × Nat) :=
  [(".cmdline", cmdline.length), (".linux", linux.length), (".initrd", initrd.length)]

/-- The payloads at the old VMAs clear each other and the sections that are kept. -/
def Fits (old : List Section) (cmdline linux initrd : Bytes) : Prop :=
  (putBack (sizes cmdline linux initrd) old).Pairwise Clear ∧
    ∀ k ∈ kept removed old, ∀ a ∈ putBack (sizes cmdline linux initrd) old, Clear k a

instance (old : List Section) (cmdline linux initrd : Bytes) :
    Decidable (Fits old cmdline linux initrd) := inferInstanceAs (Decidable (_ ∧ _))

section Correctness

variable {U : Type} {b : Binutils U} {sections : U → List Section}

/-- The VMA of the first section of the name. -/
theorem sectionVma_eq_ok (hb : Lawful b sections) {missing : Exc} {uki : U} {name vma : String}
    (hname : name ∈ removed) (h : sectionVma b missing uki name = .ok vma) :
    ∃ old, (sections uki).find? (fun s => s.name = name) = some old ∧
      vma = "0x" ++ vmaText old.start := by
  obtain ⟨lines, hlines, h⟩ := bind_eq_ok_iff.mp h
  have hfirst := congrArg List.head? (hb.objdump hlines hname)
  rw [List.head?_map, List.head?_map, List.head?_filter, List.head?_filter] at hfirst
  split at h
  · rename_i parts hparts
    rw [hparts, Option.map_some] at hfirst
    obtain ⟨old, hold, htext⟩ := Option.map_eq_some_iff.mp hfirst.symm
    cases h
    exact ⟨old, hold, by rw [htext]⟩
  · cases h

/-- **Relaying**: at the old VMAs, the sections of the image are relaid. -/
theorem relayout_perm (hb : Lawful b sections) {uki out : U} {cmdline linux initrd : Bytes}
    {c l i : Section}
    (hc : (sections uki).find? (fun s => s.name = ".cmdline") = some c)
    (hl : (sections uki).find? (fun s => s.name = ".linux") = some l)
    (hi : (sections uki).find? (fun s => s.name = ".initrd") = some i)
    (h : relayout b uki cmdline linux initrd ("0x" ++ vmaText c.start) ("0x" ++ vmaText l.start)
      ("0x" ++ vmaText i.start) = .ok out) :
    (sections out).Perm (relay removed (sizes cmdline linux initrd) (sections uki)) := by
  obtain ⟨stripped, hstripped, hadd⟩ := bind_eq_ok_iff.mp h
  have hplaces : ∀ {name : String} {payload : Bytes} {old : Section},
      (sections uki).find? (fun s => s.name = name) = some old →
      Places ⟨name, payload, "0x" ++ vmaText old.start⟩ { old with size := payload.length } := by
    intro name payload old hold
    have hname : old.name = name := by simpa using List.find?_some hold
    exact ⟨hname, rfl, hb.start_lt old (List.mem_of_find?_eq_some hold), rfl⟩
  have hput : putBack (sizes cmdline linux initrd) (sections uki) =
      [{ c with size := cmdline.length }, { l with size := linux.length },
        { i with size := initrd.length }] := by
    simp [putBack, sizes, resize, hc, hl, hi]
  -- `.profile` goes with the three and is not put back.
  rw [relay, hput]
  refine (hb.addSections hadd ?_).trans ((hb.removeSections hstripped).append_right _)
  exact .cons (hplaces hc) (.cons (hplaces hl) (.cons (hplaces hi) .nil))

theorem noOverlap_iff_fits {uki out : U} (hold : NoOverlap (sections uki))
    {cmdline linux initrd : Bytes}
    (h : (sections out).Perm (relay removed (sizes cmdline linux initrd) (sections uki))) :
    NoOverlap (sections out) ↔ Fits (sections uki) cmdline linux initrd := by
  rw [noOverlap_perm h, relay_noOverlap_iff hold, Fits]

theorem samekey_rebuildUki_perm (hb : Lawful b sections) {path : String}
    {checkInitrd : Bytes → Except Exc Unit} {stockUki out : U} {cmdline linux initrd : Bytes}
    (h : Samekey.rebuildUki b path checkInitrd stockUki cmdline linux initrd = .ok out) :
    (sections out).Perm (relay removed (sizes cmdline linux initrd) (sections stockUki)) := by
  obtain ⟨cmdlineVma, hcmdline, h⟩ := bind_eq_ok_iff.mp h
  obtain ⟨linuxVma, hlinux, h⟩ := bind_eq_ok_iff.mp h
  obtain ⟨initrdVma, hinitrd, h⟩ := bind_eq_ok_iff.mp h
  obtain ⟨rebuilt, hrebuilt, h⟩ := bind_eq_ok_iff.mp h
  obtain ⟨verifyLinux, -, h⟩ := bind_eq_ok_iff.mp h
  obtain ⟨verifyInitrd, -, h⟩ := bind_eq_ok_iff.mp h
  split at h
  · cases h
  · obtain ⟨-, -, h⟩ := bind_eq_ok_iff.mp h
    cases h
    obtain ⟨c, hc, rfl⟩ := sectionVma_eq_ok hb (by decide) hcmdline
    obtain ⟨l, hl, rfl⟩ := sectionVma_eq_ok hb (by decide) hlinux
    obtain ⟨i, hi, rfl⟩ := sectionVma_eq_ok hb (by decide) hinitrd
    exact relayout_perm hb hc hl hi hrebuilt

theorem installer_rebuildUki_perm (hb : Lawful b sections) {path : String} {uki out : U}
    {cmdline linux initrd : Bytes}
    (h : Installer.rebuildUki b path uki cmdline linux initrd = .ok out) :
    (sections out).Perm (relay removed (sizes cmdline linux initrd) (sections uki)) := by
  obtain ⟨linuxVma, hlinux, h⟩ := bind_eq_ok_iff.mp h
  obtain ⟨initrdVma, hinitrd, h⟩ := bind_eq_ok_iff.mp h
  obtain ⟨cmdlineVma, hcmdline, h⟩ := bind_eq_ok_iff.mp h
  obtain ⟨c, hc, rfl⟩ := sectionVma_eq_ok hb (by decide) hcmdline
  obtain ⟨l, hl, rfl⟩ := sectionVma_eq_ok hb (by decide) hlinux
  obtain ⟨i, hi, rfl⟩ := sectionVma_eq_ok hb (by decide) hinitrd
  exact relayout_perm hb hc hl hi h

/-- **The rebuilt image**: in both scripts, its sections do not overlap exactly when the payloads
fit. -/
theorem rebuilt_noOverlap_iff (hb : Lawful b sections) {uki : U} (hold : NoOverlap (sections uki))
    (path : String) (cmdline linux initrd : Bytes) (out : U) :
    (∀ checkInitrd, Samekey.rebuildUki b path checkInitrd uki cmdline linux initrd = .ok out →
      (NoOverlap (sections out) ↔ Fits (sections uki) cmdline linux initrd)) ∧
    (Installer.rebuildUki b path uki cmdline linux initrd = .ok out →
      (NoOverlap (sections out) ↔ Fits (sections uki) cmdline linux initrd)) :=
  ⟨fun _ h => noOverlap_iff_fits hold (samekey_rebuildUki_perm hb h),
    fun h => noOverlap_iff_fits hold (installer_rebuildUki_perm hb h)⟩

end Correctness

/-! ### Images as lists of sections -/

/-- A section with its content. -/
structure Part where
  name : String
  vma : UInt64
  content : Bytes
  deriving DecidableEq, Repr

/-- An image that is nothing but its sections. -/
abbrev Image := List Part

def Image.sections (image : Image) : List Section :=
  image.map fun s => ⟨s.name, s.vma.toNat, s.content.length⟩

/-- What `objdump -h` prints above the sections. -/
def headerLines : List (List String) :=
  [[], ["vmlinuz.efi:", "file", "format", "pei-x86-64"], [], ["Sections:"],
    ["Idx", "Name", "Size", "VMA", "LMA", "File", "off", "Algn"]]

/-- What it prints for a section: the numbers, and below them the flags. -/
def Part.lines (s : Part) (index : Nat) : List (List String) :=
  [[toString index, s.name, hexText 8 s.content.length, vmaText s.vma.toNat, vmaText s.vma.toNat,
    hexText 8 0, "2**0"], ["CONTENTS,", "ALLOC,", "LOAD,", "READONLY,", "DATA"]]

/-- The address after `0x`. -/
def address (vma : String) : UInt64 :=
  UInt64.ofNat (hexValue ((vma.toList.drop 2).map Char.toUInt8))

/-- The programs on such images. -/
def listBinutils : Binutils Image where
  objdump image := .ok (headerLines ++ image.zipIdx.flatMap fun p => p.1.lines p.2)
  dumpSection name image :=
    orRaise .calledProcessError ((image.find? fun s => s.name = name).map Part.content)
  removeSections names image := .ok (image.filter fun s => s.name ∉ names)
  addSections additions image :=
    .ok (image ++ additions.map fun a => ⟨a.name, address a.vma, a.payload⟩)

theorem address_vmaText {start : Nat} (h : start < 2 ^ 64) :
    address ("0x" ++ vmaText start) = UInt64.ofNat start := by
  have hdrop : ("0x" ++ vmaText start).toList.drop 2 = (fixedHex 16 start).map Char.ofUInt8 := by
    rw [String.toList_append]
    simp [vmaText, hexText]
  have hbytes : ((fixedHex 16 start).map Char.ofUInt8).map Char.toUInt8 = fixedHex 16 start := by
    rw [List.map_map]
    refine (List.map_congr_left fun c _ => ?_).trans (List.map_id _)
    exact UInt8.toUInt8_toUInt32 c
  rw [address, hdrop, hbytes, hexValue_fixedHex h]

theorem listBinutils_lawful : Lawful listBinutils Image.sections where
  start_lt := by
    intro image s hs
    obtain ⟨part, -, rfl⟩ := List.mem_map.mp hs
    exact part.vma.toNat_lt
  objdump := by
    intro image lines name hlines hname
    cases hlines
    have hheader : (headerLines.filter fun parts => parts.length ≥ 4 ∧ parts.getD 1 "" = name) = [] := by
      simp only [removed, List.mem_cons, List.not_mem_nil, or_false] at hname
      rcases hname with rfl | rfl | rfl | rfl <;> decide +kernel
    have hflags : "ALLOC," ≠ name := by
      rintro rfl
      simp [removed] at hname
    rw [List.filter_append, hheader, List.nil_append, Image.sections]
    generalize 0 = k
    induction image generalizing k with
    | nil => rfl
    | cons s image ih =>
        rw [List.zipIdx_cons, List.flatMap_cons, List.filter_append, List.map_append, ih]
        by_cases hn : s.name = name <;> simp [Part.lines, hn, hflags]
  removeSections := by
    rintro image _ names ⟨⟩
    rw [Image.sections, Image.sections, kept, List.filter_map]
    rfl
  addSections := by
    rintro image _ additions placed ⟨⟩ hplaces
    rw [Image.sections, Image.sections, List.map_append]
    refine .append_left _ (.of_eq ?_)
    induction hplaces with
    | nil => rfl
    | @cons a s _ _ hs _ ih =>
        obtain ⟨hname, hsize, hlt, hvma⟩ := hs
        have hstart : (address a.vma).toNat = s.start := by
          rw [hvma, address_vmaText hlt, UInt64.toNat_ofNat_of_lt' hlt]
        rw [List.map_cons, List.map_cons, ih, hstart, ← hname, ← hsize]

/-- A stock image: the kernel has room for eight bytes below the initrd. -/
def stockImage : Image :=
  [⟨".osrel", 0x1000, [0, 0, 0, 0]⟩, ⟨".cmdline", 0x1010, [0x61, 0x62]⟩,
    ⟨".linux", 0x1018, [1, 2, 3, 4]⟩, ⟨".initrd", 0x1020, [5, 6, 7]⟩]

/-- The stock image with other payloads. -/
def rebuiltImage (cmdline linux initrd : Bytes) : Image :=
  [⟨".osrel", 0x1000, [0, 0, 0, 0]⟩, ⟨".cmdline", 0x1010, cmdline⟩, ⟨".linux", 0x1018, linux⟩,
    ⟨".initrd", 0x1020, initrd⟩]

theorem rebuilt_noOverlap_iff_stockImage :
    NoOverlap (rebuiltImage [0x61, 0x62] (.replicate 8 9) [10]).sections ∧
    NoOverlap (rebuiltImage (.replicate 8 0x61) [9] [10]).sections := by
  have hstock : NoOverlap stockImage.sections := by decide +kernel
  have hsamekey := (rebuilt_noOverlap_iff listBinutils_lawful hstock "stock-vmlinuz.efi"
    [0x61, 0x62] (.replicate 8 9) [10] (rebuiltImage [0x61, 0x62] (.replicate 8 9) [10])).1
    (fun _ => .ok ()) (by decide +kernel)
  have hinstaller := (rebuilt_noOverlap_iff listBinutils_lawful hstock "vmlinuz.efi"
    (.replicate 8 0x61) [9] [10] (rebuiltImage (.replicate 8 0x61) [9] [10])).2 (by decide +kernel)
  exact ⟨hsamekey.mpr (by decide +kernel), hinstaller.mpr (by decide +kernel)⟩

/-- A kernel of nine bytes runs into the initrd, and both scripts go on. -/
theorem largerKernel_overlaps :
    Lawful listBinutils Image.sections ∧ NoOverlap stockImage.sections ∧
    Samekey.rebuildUki listBinutils "stock-vmlinuz.efi" (fun _ => .ok ()) stockImage [0x61, 0x62]
      (.replicate 9 9) [10] = .ok (rebuiltImage [0x61, 0x62] (.replicate 9 9) [10]) ∧
    Installer.rebuildUki listBinutils "vmlinuz.efi" stockImage [0x61, 0x62] (.replicate 9 9) [10] =
      .ok (rebuiltImage [0x61, 0x62] (.replicate 9 9) [10]) ∧
    ¬ NoOverlap (rebuiltImage [0x61, 0x62] (.replicate 9 9) [10]).sections :=
  ⟨listBinutils_lawful, by decide +kernel, by decide +kernel, by decide +kernel, by decide +kernel⟩

end TalosP2P.Uki
