import TalosP2P.Initrd.Boot
import TalosP2P.Support.NewcFiles

/-!
# Initrd — Unpack

What a rewrite of the initrd does to the files the kernel unpacks from it.  Either rewriter leaves
every name in its place and every entry as it was, but `rootfs.sqsh`.  That one keeps its attributes
and has the replacement for its data, unless another record of the name is unpacked after the one
that was rewritten: `build-installer.sh` rewrites the first of the first archive, the samekey script
all of them.

* `Installer.exists_rewritten_entries`, `Samekey.exists_rebuilt_entries`: the first archive.
* `rewriters_update_rootfs`: the files of the whole buffer, when its entries are plain.
-/

namespace TalosP2P

open Python Newc

/-- The rewritten `rootfs.sqsh` among the files of a buffer. -/
def withRootfs (R : Bytes) (files : Bytes → Option File) : Bytes → Option File :=
  Function.update files rootfsName ((files rootfsName).map (File.setData R))

theorem plainName_rootfs : PlainName rootfsName := by decide

/-- The entries of records that say what was written. -/
theorem map_named_of_content {β : Type} {fields : β → Fields} {name : β → Bytes} {data : β → Bytes}
    {rs : List Record} {xs : List β}
    (h : rs.map Record.content = xs.map fun x => (fields x, name x, data x)) :
    rs.map Record.named = xs.map fun x => (name x, (fields x).entry (data x)) := by
  have := congrArg (List.map fun c : Fields × Bytes × Bytes => (c.2.1, c.1.entry c.2.2)) h
  rwa [List.map_map, List.map_map] at this

/-! ### The first archive -/

namespace Installer

/-- The name of an entry, and what it tells. -/
def CpioEntry.named (e : CpioEntry) : Bytes × Entry := (encodeUtf8 e.name, e.fields.entry e.data)

theorem named_of_view {r : Record} {e : CpioEntry} (h : r.view CpioEntry.ofFields = some e) :
    e.named = r.named := by
  obtain ⟨-, hname⟩ := of_view h
  obtain ⟨name, -, rfl⟩ := Option.map_eq_some_iff.mp h
  exact Prod.ext hname rfl

/-- The rewritten first archive has the entries of the old one, but for the first `rootfs.sqsh`. -/
theorem exists_rewritten_entries {i : Initrd} {R out : Bytes} (hR : R.length < 2 ^ 32)
    (h : Rewrites i.bytes R (.ok out)) :
    ∃ (a : Archive) (pre post : List (Bytes × Entry)) (e : Entry),
      out = a.bytes ++ i.trailing.bytes ∧ rootfsName ∉ pre.map Prod.fst ∧
      i.base.members.map Record.named = pre ++ (rootfsName, e) :: post ∧
      a.members.map Record.named = pre ++ (rootfsName, e.setData R) :: post := by
  obtain ⟨E, T, hparse, hroot, rfl⟩ := rewrites_ok_iff.mp h
  obtain ⟨es, hes, heq⟩ := parses_archive_iff.mp hparse
  cases heq
  obtain ⟨a, hb, hc, -⟩ := exists_archive (inRange_replaceRootfs (inRange_of_members hes) hR)
  have hold : i.base.members.map Record.named = E.map CpioEntry.named :=
    (map_eq_of_view (fun r e he => named_of_view he) hes).symm
  have hnew : a.members.map Record.named = (replaceRootfs R E).map CpioEntry.named :=
    map_named_of_content hc
  obtain ⟨pre, e, post, rfl, hpre, hn, hrep⟩ := exists_replaceRootfs hroot R
  refine ⟨a, pre.map CpioEntry.named, post.map CpioEntry.named, e.fields.entry e.data,
    by rw [writeArchive, hb], ?_, ?_, ?_⟩
  · intro hmem
    obtain ⟨_, hp, hk⟩ := List.mem_map.mp hmem
    obtain ⟨e', he', rfl⟩ := List.mem_map.mp hp
    exact hpre e' he' (encodeUtf8_injective hk)
  · rw [hold, List.map_append, List.map_cons, CpioEntry.named, hn, rootfsName]
  · rw [hnew, hrep, List.map_append, List.map_cons]
    refine congrArg (fun p => _ ++ p :: _) (Prod.ext ?_ rfl)
    exact congrArg encodeUtf8 hn

end Installer

namespace Samekey

/-- The name of an entry, and what it tells. -/
def CpioEntry.named (e : CpioEntry) : Bytes × Entry := (encodeUtf8 e.name, e.fields.entry e.data)

theorem named_of_view {r : Record} {e : CpioEntry} (h : r.view CpioEntry.ofFields = some e) :
    e.named = r.named := by
  obtain ⟨-, hname⟩ := of_view h
  obtain ⟨name, -, rfl⟩ := Option.map_eq_some_iff.mp h
  exact Prod.ext hname rfl

theorem map_named_rebuiltEntries (es : List CpioEntry) (R : Bytes) :
    (rebuiltEntries es R).map CpioEntry.named = setAll rootfsName R (es.map CpioEntry.named) := by
  rw [rebuiltEntries, setAll, List.map_map, List.map_map]
  refine List.map_congr_left fun e _ => ?_
  have hname : e.named.1 = rootfsName ↔ e.name = "rootfs.sqsh" := encodeUtf8_injective.eq_iff
  by_cases hn : e.name = "rootfs.sqsh"
  · simp only [Function.comp, if_pos hn, if_pos (hname.mpr hn)]
    rfl
  · simp only [Function.comp, if_neg hn, if_neg fun h => hn (hname.mp h)]

/-- The rebuilt first archive has the entries of the old one, but for every `rootfs.sqsh`, and there
was one. -/
theorem exists_rebuilt_entries {i : Initrd} {R out : Bytes} {p : Process} {path : String}
    (hR : R.length < 2 ^ 32) (h : rebuildInitrd p path i.bytes R = .ok out) :
    ∃ a : Archive, out = a.bytes ++ i.trailing.bytes ∧
      rootfsName ∈ (i.base.members.map Record.named).map Prod.fst ∧
      a.members.map Record.named = setAll rootfsName R (i.base.members.map Record.named) := by
  obtain ⟨⟨E, T⟩, hparse, hrest⟩ := bind_eq_ok_iff.mp h
  obtain ⟨d, hextract, hout⟩ := bind_eq_ok_iff.mp hrest
  obtain ⟨es, t, hes, ht, heq⟩ := parse_archive_iff.mp hparse
  cases heq
  obtain ⟨htrange, htname⟩ := of_view ht
  have htn : t.name = "TRAILER!!!" := encodeUtf8_injective (htname.trans i.base.trailer_name)
  have hold : i.base.members.map Record.named = es.map CpioEntry.named :=
    (map_eq_of_view (fun r e he => named_of_view he) hes).symm
  have hsplit : rebuiltEntries (es ++ [t]) R = rebuiltEntries es R ++ [t] := by
    rw [rebuiltEntries, List.map_append, List.map_singleton, if_neg (by rw [htn]; decide)]
    rfl
  obtain ⟨a, hb, hc⟩ := exists_archive (inRange_rebuiltEntries hes hR) htrange htn
  refine ⟨a, by rw [← Except.ok.inj hout, hsplit, writeNewcArchive, hb], ?_, ?_⟩
  · -- The extraction found a `rootfs.sqsh`, and the trailer is none.
    obtain ⟨e, he, hn, -⟩ := exists_lastOf (of_extractStock_empty hextract).2.1
    rcases List.mem_append.mp he with he | he
    · rw [hold]
      exact List.mem_map.mpr ⟨_, List.mem_map_of_mem he, congrArg encodeUtf8 hn⟩
    · rw [List.mem_singleton.mp he, htn] at hn
      exact absurd hn (by decide)
  · rw [hold, ← map_named_rebuiltEntries]
    exact map_named_of_content hc

end Samekey

/-! ### The whole buffer -/

/-- Every entry of the buffer is plain. -/
def Newc.Initrd.Plain (i : Initrd) : Prop := ∀ p ∈ i.entries, Newc.Plain p

/-- The output is a buffer with the names of `i` in their places and its later archives.  When the
entries of `i` are plain, so are those of the output, and the kernel unpacks the files of `i` from it,
with the replacement where the rewritten record is the `last` of its name. -/
def UpdatesRootfs (unpack : Bytes → Bytes → Option File) (i : Initrd) (R out : Bytes) (last : Prop) :
    Prop :=
  ∃ i' : Initrd, out = i'.bytes ∧ i'.trailing = i.trailing ∧
    i'.records.map Record.name = i.records.map Record.name ∧
    (i.Plain → i'.Plain ∧ (last → unpack out = withRootfs R (unpack i.bytes)) ∧
      (¬ last → unpack out = unpack i.bytes))

/-- A first archive whose entries differ under `rootfs.sqsh` alone, by what the whole buffer has under
it. -/
theorem updatesRootfs_of_sameBut {unpack : Bytes → Bytes → Option File} (hu : LawfulUnpacker unpack)
    {i : Initrd} {a : Archive} {R : Bytes} {last : Prop}
    (h : SameBut rootfsName (i.base.members.map Record.named) (a.members.map Record.named))
    (hlast : last → lastUnder (Initrd.mk a i.trailing).entries rootfsName =
      (lastUnder i.entries rootfsName).map (Entry.setData R))
    (hearlier : ¬ last → lastUnder (Initrd.mk a i.trailing).entries rootfsName =
      lastUnder i.entries rootfsName) :
    UpdatesRootfs unpack i R (a.bytes ++ i.trailing.bytes) last := by
  have hsame : SameBut rootfsName i.entries (Initrd.mk a i.trailing).entries := by
    rw [Initrd.entries_eq, Initrd.entries_eq]
    exact h.append _
  refine ⟨⟨a, i.trailing⟩, rfl, rfl, ?_, fun hplain => ?_⟩
  · rw [Initrd.map_name_records, Initrd.map_name_records, hsame.map_fst]
  have hplain' : (Initrd.mk a i.trailing).Plain := hsame.plain plainName_rootfs hplain
  have hunpack := hu.plain hplain
  have hunpack' := hu.plain hplain'
  rw [Initrd.bytes] at hunpack'
  refine ⟨hplain', fun hl => ?_, fun hl => ?_⟩
  · funext n
    by_cases hn : n = rootfsName
    · rw [hn, hunpack', hlast hl, withRootfs, Function.update_self, hunpack, Option.map_map,
        Option.map_map]
      rfl
    · rw [hunpack', hsame.lastUnder_eq hn, withRootfs, Function.update_of_ne hn, hunpack]
  · funext n
    by_cases hn : n = rootfsName
    · rw [hn, hunpack', hearlier hl, hunpack]
    · rw [hunpack', hsame.lastUnder_eq hn, hunpack]

/-- The first record of a name is its last exactly when there is no other. -/
theorem count_eq_one_iff {k : Bytes} {pre post : List (Bytes × Entry)} {e : Entry}
    (hpre : k ∉ pre.map Prod.fst) :
    ((pre ++ (k, e) :: post).map Prod.fst).count k = 1 ↔ k ∉ post.map Prod.fst := by
  rw [List.map_append, List.map_cons, List.count_append, List.count_cons_self,
    List.count_eq_zero.mpr hpre, ← List.count_eq_zero]
  omega

section

variable {unpack : Bytes → Bytes → Option File} (hu : LawfulUnpacker unpack) {i : Initrd} {R out : Bytes}
  (hR : R.length < 2 ^ 32)

include hu hR

theorem Installer.updatesRootfs (h : Rewrites i.bytes R (.ok out)) :
    UpdatesRootfs unpack i R out ((i.records.map Record.name).count rootfsName = 1) := by
  obtain ⟨a, pre, post, e, rfl, hpre, hold, hnew⟩ := exists_rewritten_entries hR h
  have hroot : ∀ (b : Archive) (g : Entry),
      b.members.map Record.named = pre ++ (rootfsName, g) :: post →
      lastUnder (Initrd.mk b i.trailing).entries rootfsName =
        (lastUnder (post ++ i.trailing.records.map Record.named) rootfsName).or (some g) := by
    intro b g hb
    have hsingle : lastUnder [(rootfsName, g)] rootfsName = some g := by simp [lastUnder]
    rw [Initrd.entries_eq, hb, List.append_assoc, List.cons_append, ← List.singleton_append,
      lastUnder_append, lastUnder_append, lastUnder_eq_none_iff.mpr hpre, hsingle, Option.or_none]
  have hone : (i.records.map Record.name).count rootfsName = 1 ↔
      lastUnder (post ++ i.trailing.records.map Record.named) rootfsName = none := by
    rw [Initrd.map_name_records, Initrd.entries_eq, hold, List.append_assoc, List.cons_append,
      count_eq_one_iff hpre, lastUnder_eq_none_iff]
  refine updatesRootfs_of_sameBut hu (hold ▸ hnew ▸ sameBut_middle rfl) (fun hl => ?_) fun hl => ?_
  · rw [hroot a _ hnew, hroot i.base e hold, hone.mp hl]
    rfl
  · obtain ⟨g, hg⟩ := Option.ne_none_iff_exists'.mp (mt hone.mpr hl)
    rw [hroot a _ hnew, hroot i.base e hold, hg]
    rfl

theorem Samekey.updatesRootfs {p : Samekey.Process} {path : String}
    (h : rebuildInitrd p path i.bytes R = .ok out) :
    UpdatesRootfs unpack i R out (rootfsName ∉ i.trailing.records.map Record.name) := by
  obtain ⟨a, rfl, -, hnew⟩ := exists_rebuilt_entries hR h
  have hroot : ∀ b : Archive, lastUnder (Initrd.mk b i.trailing).entries rootfsName =
      (lastUnder (i.trailing.records.map Record.named) rootfsName).or
        (lastUnder (b.members.map Record.named) rootfsName) := fun b => by
    rw [Initrd.entries_eq, lastUnder_append]
  have hnone : rootfsName ∉ i.trailing.records.map Record.name ↔
      lastUnder (i.trailing.records.map Record.named) rootfsName = none := by
    rw [lastUnder_eq_none_iff, List.map_map]
    rfl
  refine updatesRootfs_of_sameBut hu (hnew ▸ sameBut_setAll _ _ _) (fun hl => ?_) fun hl => ?_
  · rw [hroot a, hroot i.base, hnone.mp hl, hnew, lastUnder_setAll, Option.none_or, Option.none_or]
  · obtain ⟨g, hg⟩ := Option.ne_none_iff_exists'.mp (mt hnone.mpr hl)
    rw [hroot a, hroot i.base, hg]
    rfl

end

/-- **What is unpacked.**  For every buffer and either rewriter, once it succeeds: the names and the
later archives are those of the buffer.  Where its entries are plain, the kernel unpacks the same
files from the output, but for the data of `rootfs.sqsh`: that is the replacement when no other record
of the name comes after the rewritten one.  For `build-installer.sh` this is when the buffer has one
such record; for the samekey script, when no later archive has one. -/
theorem rewriters_update_rootfs {unpack : Bytes → Bytes → Option File} (hu : LawfulUnpacker unpack)
    (i : Initrd) (p : Samekey.Process) (path : String) {R : Bytes} (hR : R.length < 2 ^ 32) :
    (∀ out, Installer.Rewrites i.bytes R (.ok out) →
      UpdatesRootfs unpack i R out ((i.records.map Record.name).count rootfsName = 1)) ∧
    ∀ out, Samekey.rebuildInitrd p path i.bytes R = .ok out →
      UpdatesRootfs unpack i R out (rootfsName ∉ i.trailing.records.map Record.name) :=
  ⟨fun _ h => Installer.updatesRootfs hu hR h, fun _ h => Samekey.updatesRootfs hu hR h⟩

theorem plain_extendedInitrd : (extendedInitrd initRecord (by decide)).Plain := by
  have hentries : (extendedInitrd initRecord (by decide)).entries =
      [(encodeUtf8 "init", ⟨0o100755, 0, 0, 1, [0]⟩), (rootfsName, ⟨0o100644, 0, 0, 1, [1]⟩),
        (encodeUtf8 "init", ⟨0o100755, 0, 0, 1, [0]⟩)] := by
    have hinit : initRecord.named = _ := named_recordOf _
    have hrootfs : (rootfsRecord 1).named = _ := named_recordOf _
    show [initRecord, rootfsRecord 1, initRecord].map Record.named = _
    rw [List.map_cons, List.map_cons, List.map_singleton, hinit, hrootfs]
    rfl
  rw [Newc.Initrd.Plain, hentries]
  decide

theorem rewriters_update_rootfs_extended :
    let i := extendedInitrd initRecord (by decide)
    ∃ (unpack : Bytes → Bytes → Option File) (out out' : Bytes),
      unpack out = withRootfs [3] (unpack i.bytes) ∧ unpack out' = withRootfs [3] (unpack i.bytes) ∧
        unpack out rootfsName = some ⟨0o100644, 0, 0, [3]⟩ := by
  intro i
  obtain ⟨unpack, hu⟩ := exists_lawfulUnpacker
  obtain ⟨⟨out, h⟩, out', h'⟩ := rewriters_succeed initRecord (by decide) [3] "stock-initrd.raw"
  obtain ⟨hi, hs⟩ := rewriters_update_rootfs hu i .user "stock-initrd.raw" (R := [3]) (by decide)
  obtain ⟨i₁, -, -, -, hplain⟩ := hi out h
  obtain ⟨i₂, -, -, -, hplain'⟩ := hs out' h'
  have hout := (hplain plain_extendedInitrd).2.1 (by decide)
  refine ⟨unpack, out, out', hout, (hplain' plain_extendedInitrd).2.1 (by decide), ?_⟩
  rw [hout, withRootfs, Function.update_self, hu.plain plain_extendedInitrd]
  decide

end TalosP2P
