import Mathlib.Data.List.Basic
import TalosP2P.Installer.Cpio

/-!
# Installer — Rewrite

The rewrite of the UKI's initrd in `build-installer.sh`: `parse_archive`, the loop that gives the
first `rootfs.sqsh` its replacement, `write_archive`.

An entry does not keep the name size of its header, and the writer counts the name again.
`Scans` is the loop of `parse_archive` with the thirteen fields of the header beside each entry.

* `readRecord_hex`: what a record is whose header holds hexadecimal digits.
* `Scans.sound`: every record before the trailer is whole.
* `rewrite_changes_rootfs`: the rewritten file scans to the same records but for the replacement
  and for name sizes of zero, which are written as one.
-/

namespace TalosP2P.Installer

open Python Newc Loop

/-- `entry.data = replacement_rootfs`, and the size with it. -/
def CpioEntry.setData (entry : CpioEntry) (replacementRootfs : Bytes) : CpioEntry :=
  { entry with data := replacementRootfs, filesize := replacementRootfs.length }

/-- The loop over the entries: the first `rootfs.sqsh` gets the replacement. -/
def replaceRootfs (replacementRootfs : Bytes) (entries : List CpioEntry) : List CpioEntry :=
  entries.replaceF fun entry =>
    if entry.name = "rootfs.sqsh" then some (entry.setData replacementRootfs) else none

/-- The rewrite, given up after `fuel` turns of `parse_archive`: the bytes of the output file. -/
def rewriteInitrd (fuel : Nat) (currentInitrd replacementRootfs : Bytes) :
    Option (Except Exc Bytes) :=
  (parseArchive fuel currentInitrd).map fun r => do
    let (entries, trailingData) ← r
    let updated := entries.any fun entry => entry.name = "rootfs.sqsh"
    if !updated then
      throw (.systemExit "rootfs.sqsh not found in UKI initrd")
    return writeArchive (replaceRootfs replacementRootfs entries) trailingData

/-- The rewrite ends with `r`. -/
def Rewrites (currentInitrd replacementRootfs : Bytes) (r : Except Exc Bytes) : Prop :=
  ∃ fuel, rewriteInitrd fuel currentInitrd replacementRootfs = some r

theorem rewrites_ok_iff {file R out : Bytes} :
    Rewrites file R (.ok out) ↔ ∃ E T, Parses file (.ok (E, T)) ∧
      (∃ e ∈ E, e.name = "rootfs.sqsh") ∧ out = writeArchive (replaceRootfs R E) T := by
  simp only [Rewrites, rewriteInitrd, Option.map_eq_some_iff]
  constructor
  · rintro ⟨fuel, r, hr, h⟩
    obtain ⟨⟨E, T⟩, rfl, hw⟩ := bind_eq_ok_iff.mp h
    simp only [pure_eq_ok] at hw
    split at hw
    · cases hw
    · rename_i hup
      cases hw
      exact ⟨E, T, ⟨fuel, hr⟩, by simpa using hup, rfl⟩
  · rintro ⟨E, T, ⟨fuel, hr⟩, hroot, rfl⟩
    refine ⟨fuel, _, hr, ?_⟩
    have hup : (E.any fun e => e.name = "rootfs.sqsh") = true := by simpa using hroot
    simp only [hup, ok_bind, pure_eq_ok, Bool.not_true, Bool.false_eq_true,
      if_false]

/-- The first `rootfs.sqsh` of a list of entries, and what becomes of the list. -/
theorem exists_replaceRootfs {E : List CpioEntry} (h : ∃ e ∈ E, e.name = "rootfs.sqsh")
    (R : Bytes) : ∃ pre e post, E = pre ++ e :: post ∧ (∀ e' ∈ pre, e'.name ≠ "rootfs.sqsh") ∧
      e.name = "rootfs.sqsh" ∧
      replaceRootfs R E = pre ++ e.setData R :: post := by
  obtain ⟨e₀, he₀, hn₀⟩ := h
  obtain ⟨e, e', pre, post, hpre, he, hE, hrep⟩ := List.exists_of_replaceF
    (p := fun e : CpioEntry => if e.name = "rootfs.sqsh" then some (e.setData R) else none) he₀
    (if_pos hn₀)
  split at he
  · rename_i hn
    cases he
    exact ⟨pre, e, post, hE, fun b hb hbn => by simpa [hbn] using hpre b hb, hn, hrep⟩
  · cases he

/-- A replaced payload keeps an entry in range. -/
theorem CpioEntry.InRange.setData {e : CpioEntry} (h : e.InRange) {R : Bytes}
    (hR : R.length < 2 ^ 32) : (e.setData R).InRange := by
  have hsize : (0 : Int) ≤ R.length ∧ (R.length : Int) < 2 ^ 32 := by omega
  rw [CpioEntry.InRange, Fields.forall_toList] at h ⊢
  simp only [CpioEntry.fields, CpioEntry.setData] at h ⊢
  simp only [h, hsize, and_self]

theorem inRange_replaceRootfs {E : List CpioEntry} {R : Bytes}
    (h : ∀ e ∈ E, e.InRange ∧ e.name ≠ "TRAILER!!!") (hR : R.length < 2 ^ 32) :
    ∀ e ∈ replaceRootfs R E, e.InRange ∧ e.name ≠ "TRAILER!!!" := by
  by_cases hroot : ∃ e ∈ E, e.name = "rootfs.sqsh"
  · obtain ⟨pre, e, post, rfl, -, hn, hrep⟩ := exists_replaceRootfs hroot R
    have he := h e (by simp)
    rw [hrep]
    intro e' he'
    rcases List.mem_append.mp he' with he' | he'
    · exact h e' (List.mem_append_left _ he')
    · rcases List.mem_cons.mp he' with rfl | he'
      · exact ⟨he.1.setData hR, he.2⟩
      · exact h e' (List.mem_append_right _ (List.mem_cons_of_mem _ he'))
  · rwa [replaceRootfs, List.replaceF_of_forall_none fun e he => if_neg fun hn => hroot ⟨e, he, hn⟩]

/-! ### Headers beside the entries -/

/-- One turn of `parse_archive` that keeps the fields of each header beside its entry. -/
def rawTurn (data : Bytes) : Int × List (Fields × CpioEntry) →
    Except Exc (Turn (Int × List (Fields × CpioEntry)) (List (Fields × CpioEntry) × Int)) :=
  scanTurn (fun f name d => (f, .ofFields f name d)) Prod.mk "TRAILER!!! not found in UKI initrd"
    data

/-- The loop of `parse_archive` reads these headers and entries, and `data[offset:]` follows the
trailer. -/
def Scans (data : Bytes) (raws : List (Fields × CpioEntry)) (offset : Int) : Prop :=
  Returns (rawTurn data) (0, []) (.ok (raws, offset))

theorem parseTurn_eq_map (data : Bytes) (s : Int × List (Fields × CpioEntry)) :
    parseTurn data (s.1, s.2.map Prod.snd) = (rawTurn data s).map
      (Turn.map (fun s => (s.1, s.2.map Prod.snd))
        fun r => (r.1.map Prod.snd, sliceFrom data r.2)) := by
  unfold parseTurn rawTurn
  refine scanTurn_map ?_ ?_ s
  · exact fun _ _ _ => rfl
  · exact fun _ _ => rfl

theorem parses_iff_scans {data T : Bytes} {E : List CpioEntry} :
    Parses data (.ok (E, T)) ↔
      ∃ raws o, Scans data raws o ∧ raws.map Prod.snd = E ∧ sliceFrom data o = T := by
  refine Iff.trans (Returns.map_iff (parseTurn_eq_map data) (s := (0, []))) ?_
  constructor
  · rintro ⟨r, hr, he⟩
    cases r with
    | error e => cases he
    | ok r =>
        cases he
        exact ⟨r.1, r.2, hr, rfl, rfl⟩
  · rintro ⟨raws, o, hs, rfl, rfl⟩
    exact ⟨_, hs, rfl⟩

/-- Every header `parse_archive` comes to holds hexadecimal digits. -/
def HexHeaders (data : Bytes) : Prop :=
  ∀ s, Reaches (parseTurn data) (0, []) s → s.1 + 110 ≤ data.length →
    ∀ c ∈ slice data (s.1 + 6) (s.1 + 110), IsHexDigit c

/-! ### Records with hexadecimal headers -/

theorem inRange_of_hex {data : Bytes} {o : Nat} {f : Fields} (hlen : o + 110 ≤ data.length)
    (hhex : ∀ c ∈ slice data ((o : Int) + 6) ((o : Int) + 110), IsHexDigit c)
    (h : Fields.readM (fun k => int (fieldBytes (data.drop o) k)) = .ok f) :
    ∀ v ∈ f.toList, 0 ≤ v ∧ v < 2 ^ 32 := by
  have hslice : slice data ((o : Int) + 6) ((o : Int) + 110) = (data.drop (o + 6)).take 104 := by
    have := slice_natCast data (o + 6) (o + 110)
    rw [Nat.add_sub_add_left] at this
    exact this
  rw [hslice] at hhex
  intro v hv
  obtain ⟨⟨k, hk⟩, rfl⟩ := List.get_of_mem hv
  have hk' : k < 13 := hk
  have hfield : fieldBytes (data.drop o) k = (((data.drop (o + 6)).take 104).drop (8 * k)).take 8 := by
    rw [fieldBytes, List.drop_drop, List.drop_take, List.drop_drop, List.take_take]
    congr 1
    · omega
    · rw [Nat.add_assoc]
  have hdigits : ∀ c ∈ fieldBytes (data.drop o) k, IsHexDigit c := fun c hc => by
    rw [hfield] at hc
    exact hhex c (List.mem_of_mem_drop (List.mem_of_mem_take hc))
  have hl : (fieldBytes (data.drop o) k).length = 8 := by
    rw [fieldBytes, List.length_take, List.length_drop, List.length_drop]; omega
  have hval := readM_int_eq_ok_iff.mp h k hk'
  rw [int16_of_hexDigits (List.ne_nil_of_length_pos (by omega)) hdigits] at hval
  have hlt := hexValue_lt (fieldBytes (data.drop o) k)
  rw [hl] at hlt
  rw [← Option.some.inj hval]
  omega

/-- **A record with a hexadecimal header.**  Its offsets stay aligned, and when the file goes on to
the next one its name and its data are whole. -/
theorem readRecord_hex {data : Bytes} {o : Nat} {r : RecordAt} (ho : 4 ∣ o)
    (hlen : o + 110 ≤ data.length)
    (hhex : ∀ c ∈ slice data ((o : Int) + 6) ((o : Int) + 110), IsHexDigit c)
    (h : readRecord data o = .ok r) :
    (∀ v ∈ r.fields.toList, 0 ≤ v ∧ v < 2 ^ 32) ∧ ∃ o' : Nat, r.next = o' ∧ 4 ∣ o' ∧
      (o' ≤ data.length → r.fields.filesize = r.filedata.length ∧
        max r.fields.namesize 1 = (encodeUtf8 r.name).length + 1) := by
  have hrange := inRange_of_hex hlen hhex (readM_of_readRecord h)
  obtain ⟨n, hn⟩ := Int.eq_ofNat_of_zero_le (hrange r.fields.namesize (by simp [Fields.toList])).1
  obtain ⟨m, hm⟩ := Int.eq_ofNat_of_zero_le (hrange r.fields.filesize (by simp [Fields.toList])).1
  obtain ⟨-, -, hname, hdata, hnext⟩ := (readRecord_eq_ok_iff ho hn hm).mp h
  refine ⟨hrange, _, hnext, ?_, fun hle => ⟨?_, ?_⟩⟩
  · exact Nat.dvd_add ho (Nat.dvd_add (four_dvd_add_padLen _) (four_dvd_add_padLen _))
  · rw [hm, hdata, List.length_take, List.length_drop, Nat.min_eq_left (by omega)]
  · have := congrArg List.length (encodeUtf8_of_decodeUtf8 hname)
    rw [List.length_take, List.length_drop, Nat.min_eq_left (by omega)] at this
    rw [hn, this]
    omega

/-- A header and its entry that belong together: the entry is what the header says, whole, and is
no trailer. -/
structure Sound (r : Fields × CpioEntry) : Prop where
  inRange : ∀ v ∈ r.1.toList, 0 ≤ v ∧ v < 2 ^ 32
  entry : r.2 = .ofFields r.1 r.2.name r.2.data
  filesize : r.1.filesize = r.2.data.length
  namesize : max r.1.namesize 1 = (encodeUtf8 r.2.name).length + 1
  name : r.2.name ≠ "TRAILER!!!"

/-- One turn from an aligned offset that is not past the end. -/
theorem rawTurn_hex {data : Bytes} {o : Nat} {acc : List (Fields × CpioEntry)}
    {t : Turn (Int × List (Fields × CpioEntry)) (List (Fields × CpioEntry) × Int)} (ho : 4 ∣ o)
    (hhex : (o : Int) + 110 ≤ data.length →
      ∀ c ∈ slice data ((o : Int) + 6) ((o : Int) + 110), IsHexDigit c)
    (h : rawTurn data (o, acc) = .ok t) :
    o ≤ data.length ∧ ∃ o' : Nat, 4 ∣ o' ∧ (t = .done (acc, (o' : Int)) ∨
      ∃ r, t = .next ((o' : Int), acc ++ [r]) ∧ (o' ≤ data.length → Sound r)) := by
  simp only [rawTurn, scanTurn] at h
  split at h
  · rename_i hlen
    obtain ⟨r, hr, h⟩ := bind_eq_ok_iff.mp h
    obtain ⟨hrange, o', hnext, ho', hwhole⟩ := readRecord_hex ho (by omega) (hhex hlen) hr
    refine ⟨by omega, o', ho', ?_⟩
    simp only [hnext] at h
    split at h
    · exact .inl (Except.ok.inj h).symm
    · rename_i hn
      refine .inr ⟨_, (Except.ok.inj h).symm, fun hle => ?_⟩
      obtain ⟨hd, hns⟩ := hwhole hle
      exact ⟨hrange, rfl, hd, hns, hn⟩
  · cases h

/-- **Whole records.**  When the headers hold hexadecimal digits, every record before the trailer
is sound, and what follows the trailer starts at an aligned offset. -/
theorem Scans.sound {data : Bytes} {raws : List (Fields × CpioEntry)} {offset : Int}
    (hhex : HexHeaders data) (h : Scans data raws offset) :
    (∀ r ∈ raws, Sound r) ∧ ∃ o : Nat, offset = o ∧ 4 ∣ o := by
  have hheader : ∀ s : Int × List (Fields × CpioEntry), Reaches (rawTurn data) (0, []) s →
      s.1 + 110 ≤ data.length → ∀ c ∈ slice data (s.1 + 6) (s.1 + 110), IsHexDigit c :=
    fun s hs => hhex _ (hs.map (parseTurn_eq_map data))
  have hstep : ∀ s s' : Int × List (Fields × CpioEntry), Reaches (rawTurn data) (0, []) s →
      (∃ o : Nat, s.1 = (o : Int) ∧ 4 ∣ o ∧ (o ≤ data.length → ∀ r ∈ s.2, Sound r)) →
      rawTurn data s = .ok (.next s') →
      ∃ o : Nat, s'.1 = (o : Int) ∧ 4 ∣ o ∧ (o ≤ data.length → ∀ r ∈ s'.2, Sound r) := by
    rintro ⟨_, acc⟩ s' hreach ⟨o, rfl, ho, hacc⟩ hturn
    obtain ⟨hle, o', ho', ht | ⟨r, ht, hr⟩⟩ := rawTurn_hex ho (hheader _ hreach) hturn
    · cases ht
    · cases ht
      refine ⟨o', rfl, ho', fun hle' r' hr' => ?_⟩
      rcases List.mem_append.mp hr' with hr' | hr'
      · exact hacc hle r' hr'
      · rw [List.mem_singleton.mp hr']
        exact hr hle'
  -- The offset is past the end only when the record before it is not whole; no turn starts there.
  obtain ⟨⟨_, acc⟩, hreach, ⟨o, rfl, ho, hacc⟩, hturn⟩ := h.invariant
    (P := fun s => ∃ o : Nat, s.1 = (o : Int) ∧ 4 ∣ o ∧ (o ≤ data.length → ∀ r ∈ s.2, Sound r))
    ⟨0, rfl, Nat.dvd_zero 4, fun _ => by simp⟩ hstep
  obtain ⟨hle, o', ho', ht | ⟨r, ht, -⟩⟩ := rawTurn_hex ho (hheader _ hreach) hturn
  · cases ht
    exact ⟨hacc hle, o', rfl, ho'⟩
  · cases ht

/-! ### The rewritten file -/

/-- A header and its entry after a rewrite: the writer counts the NUL of a name that had none. -/
def recounted (r : Fields × CpioEntry) : Fields × CpioEntry :=
  ({ r.1 with namesize := max r.1.namesize 1 }, r.2)

theorem Sound.fields {r : Fields × CpioEntry} (h : Sound r) : r.2.fields = (recounted r).1 := by
  obtain ⟨f, e⟩ := r
  have he := h.entry
  have hf := h.filesize
  have hn := h.namesize
  simp only at he hf hn
  rw [he]
  simp only [CpioEntry.fields, CpioEntry.ofFields, recounted, ← hf, hn]
  push_cast
  rfl

theorem Sound.inRange_entry {r : Fields × CpioEntry} (h : Sound r) : r.2.InRange := by
  have hrange := Fields.forall_toList.mp h.inRange
  have hns : 0 ≤ max r.1.namesize 1 ∧ max r.1.namesize 1 < 2 ^ 32 := by omega
  rw [CpioEntry.InRange, h.fields, Fields.forall_toList]
  simp only [recounted, hrange, hns, and_self]

/-- What `write_archive` wrote, scanned: the headers it wrote, with the sizes it counted. -/
theorem scans_write {es : List CpioEntry} (h : ∀ e ∈ es, e.InRange ∧ e.name ≠ "TRAILER!!!")
    (T : Bytes) : ∃ o : Nat, 4 ∣ o ∧ sliceFrom (writeArchive es T) o = T ∧
      Scans (writeArchive es T)
        (es.map fun e => (e.fields, .ofFields e.fields e.name e.data)) o := by
  obtain ⟨a, hb, hc, -⟩ := exists_archive h
  refine ⟨a.bytes.length, a.four_dvd_length, ?_, ?_⟩
  · rw [writeArchive, ← hb, sliceFrom_natCast, List.drop_left]
  · have hdrop : (writeArchive es T).drop 0 = a.bytes ++ T := by rw [writeArchive, ← hb]; rfl
    refine (returns_archive_iff (Nat.dvd_zero 4) hdrop _).mpr ⟨_, mapM_view hc, ?_⟩
    rw [Nat.zero_add]

/-- The headers and entries that give the entries before one entry, that entry and those after. -/
theorem exists_split {raws : List (Fields × CpioEntry)} {pre post : List CpioEntry} {e : CpioEntry}
    (h : raws.map Prod.snd = pre ++ e :: post) : ∃ pre' f post', raws = pre' ++ (f, e) :: post' ∧
      pre'.map Prod.snd = pre ∧ post'.map Prod.snd = post := by
  obtain ⟨pre', tail, rfl, hpre, htail⟩ := List.map_eq_append_iff.mp h
  obtain ⟨⟨f, e'⟩, post', rfl, he, hpost⟩ := List.map_eq_cons_iff.mp htail
  simp only at he
  subst he
  exact ⟨pre', f, post', rfl, hpre, hpost⟩

/-- What the writer makes of sound records. -/
theorem map_written {raws : List (Fields × CpioEntry)} (h : ∀ r ∈ raws, Sound r) :
    (raws.map Prod.snd).map (fun e => (e.fields, CpioEntry.ofFields e.fields e.name e.data)) =
      raws.map recounted := by
  rw [List.map_map]
  refine List.map_congr_left fun r hr => ?_
  rw [Function.comp, (h r hr).fields]
  exact Prod.ext rfl (h r hr).entry.symm

/-- What the writer makes of the replaced entry: its name is not empty, so its header changes in
the size alone. -/
theorem Sound.written_setData {r : Fields × CpioEntry} (h : Sound r) (hn : r.2.name = "rootfs.sqsh")
    (R : Bytes) :
    ((r.2.setData R).fields,
        CpioEntry.ofFields (r.2.setData R).fields (r.2.setData R).name (r.2.setData R).data) =
      ({ r.1 with filesize := R.length }, r.2.setData R) := by
  obtain ⟨f, e⟩ := r
  have hns := h.namesize
  have h12 : (encodeUtf8 e.name).length + 1 = 12 := by rw [hn]; decide
  have hf : e.fields = f := by
    rw [h.fields, recounted]
    simp only at hns ⊢
    rw [show max f.namesize 1 = f.namesize by omega]
  rw [show (e.setData R).fields = { f with filesize := R.length } by rw [← hf]; rfl]
  refine Prod.ext rfl ?_
  have he := h.entry
  simp only at he
  simp only [CpioEntry.setData]
  rw [he]
  rfl

/-- **The rewrite changes one payload.**  On every file with hexadecimal headers that
`parse_archive` accepts, the rewritten file scans to the same headers and entries in the same
order, but for the data and the size of the first `rootfs.sqsh` and for name sizes of zero, which
become one; what followed the trailer follows the new one, at an aligned offset. -/
theorem rewrite_changes_rootfs {file R T : Bytes} {E : List CpioEntry} (hhex : HexHeaders file)
    (h : Parses file (.ok (E, T))) (hroot : ∃ e ∈ E, e.name = "rootfs.sqsh")
    (hR : R.length < 2 ^ 32) :
    ∃ out, Rewrites file R (.ok out) ∧ Parses out (.ok (replaceRootfs R E, T)) ∧
      ∃ pre f e post, (∃ o, Scans file (pre ++ (f, e) :: post) o) ∧
        (pre ++ (f, e) :: post).map Prod.snd = E ∧
        (∀ r ∈ pre, r.2.name ≠ "rootfs.sqsh") ∧ e.name = "rootfs.sqsh" ∧
        ∃ o : Nat, 4 ∣ o ∧ sliceFrom out o = T ∧
          Scans out (pre.map recounted ++
            ({ f with filesize := R.length }, e.setData R) :: post.map recounted) o := by
  obtain ⟨raws, o₀, hscan, hE, hT₀⟩ := parses_iff_scans.mp h
  obtain ⟨hsound, -⟩ := hscan.sound hhex
  obtain ⟨preE, e, postE, hsplit, hpre, hn, hrep⟩ := exists_replaceRootfs hroot R
  obtain ⟨pre, f, post, rfl, rfl, rfl⟩ := exists_split (hE.trans hsplit)
  have hs : Sound (f, e) := hsound _ (by simp)
  have hspre : ∀ r ∈ pre, Sound r := fun r hr => hsound r (List.mem_append_left _ hr)
  have hspost : ∀ r ∈ post, Sound r := fun r hr =>
    hsound r (List.mem_append_right _ (List.mem_cons_of_mem _ hr))
  have hrange : ∀ e' ∈ E, e'.InRange ∧ e'.name ≠ "TRAILER!!!" := by
    rw [← hE]
    intro e' he'
    obtain ⟨r, hr, rfl⟩ := List.mem_map.mp he'
    exact ⟨(hsound r hr).inRange_entry, (hsound r hr).name⟩
  obtain ⟨o, ho, hT, hscan'⟩ := scans_write (inRange_replaceRootfs hrange hR) T
  rw [show (replaceRootfs R E).map
      (fun e => (e.fields, CpioEntry.ofFields e.fields e.name e.data)) = pre.map recounted ++
        ({ f with filesize := R.length }, e.setData R) :: post.map recounted by
    rw [hrep, List.map_append, List.map_cons, map_written hspre, map_written hspost,
      hs.written_setData hn]] at hscan'
  refine ⟨_, rewrites_ok_iff.mpr ⟨E, T, h, hroot, rfl⟩, parses_iff_scans.mpr ⟨_, o, hscan', ?_, hT⟩,
    pre, f, e, post, ⟨o₀, hscan⟩, hE, fun r hr => hpre r.2 (List.mem_map_of_mem hr), hn, o, ho, hT,
    hscan'⟩
  rw [hrep, List.map_append, List.map_cons, List.map_map, List.map_map]
  rfl

/-- A file whose first record has a name size of zero, and one byte after the trailer. -/
def namelessFile : Bytes :=
  Newc.header ⟨1, 0o100644, 0, 0, 1, 0, 0, 8, 1, 0, 0, 0, 0⟩ ++ (pad 110 ++
    (writeRecord ⟨2, 0o100644, 0, 0, 1, 0, 3, 8, 1, 0, 0, 12, 0⟩ (encodeUtf8 "rootfs.sqsh") [1, 2, 3]
      ++ (writeTrailer ++ [9])))

/-- The two headers of `namelessFile`, each with its entry. -/
def namelessRecords : List (Fields × CpioEntry) :=
  [(⟨1, 0o100644, 0, 0, 1, 0, 0, 8, 1, 0, 0, 0, 0⟩,
      ⟨"", 1, 0o100644, 0, 0, 1, 0, 0, 8, 1, 0, 0, 0, []⟩),
    (⟨2, 0o100644, 0, 0, 1, 0, 3, 8, 1, 0, 0, 12, 0⟩,
      ⟨"rootfs.sqsh", 2, 0o100644, 0, 0, 1, 0, 3, 8, 1, 0, 0, 0, [1, 2, 3]⟩)]

/-- The three turns of the loop on `namelessFile`. -/
theorem rawTurn_namelessFile :
    rawTurn namelessFile (0, []) = .ok (.next (112, namelessRecords.take 1)) ∧
      rawTurn namelessFile (112, namelessRecords.take 1) = .ok (.next (240, namelessRecords)) ∧
      rawTurn namelessFile (240, namelessRecords) = .ok (.done (namelessRecords, 364)) :=
  ⟨by decide +kernel, by decide +kernel, by decide +kernel⟩

theorem scans_namelessFile : Scans namelessFile namelessRecords 364 := by
  obtain ⟨h₀, h₁, h₂⟩ := rawTurn_namelessFile
  exact (Returns.next_iff h₀).mpr ((Returns.next_iff h₁).mpr (Returns.done h₂))

theorem parseTurn_namelessFile :
    parseTurn namelessFile (0, []) = .ok (.next (112, (namelessRecords.take 1).map Prod.snd)) ∧
      parseTurn namelessFile (112, (namelessRecords.take 1).map Prod.snd) =
        .ok (.next (240, namelessRecords.map Prod.snd)) ∧
      parseTurn namelessFile (240, namelessRecords.map Prod.snd) =
        .ok (.done (namelessRecords.map Prod.snd, [9])) := by
  obtain ⟨h₀, h₁, h₂⟩ := rawTurn_namelessFile
  have hrest : sliceFrom namelessFile 364 = [9] := by decide +kernel
  refine ⟨(parseTurn_eq_map _ (0, [])).trans ?_,
    (parseTurn_eq_map _ (112, namelessRecords.take 1)).trans ?_,
    (parseTurn_eq_map _ (240, namelessRecords)).trans ?_⟩
  · rw [h₀]
    rfl
  · rw [h₁]
    rfl
  · rw [h₂, ← hrest]
    rfl

/-- The bytes between two offsets are hexadecimal digits when a check of each says so. -/
theorem isHexDigit_of_all {data : Bytes} {i j : Int}
    (h : (slice data i j).all (fun c => (hexVal c).isSome) = true) : ∀ c ∈ slice data i j, IsHexDigit c :=
  List.all_eq_true.mp h

theorem hexHeaders_namelessFile : HexHeaders namelessFile := by
  obtain ⟨h₀, h₁, h₂⟩ := parseTurn_namelessFile
  intro s hs hlen
  rcases hs.of_next h₀ with rfl | hs
  · exact isHexDigit_of_all (by decide +kernel)
  · rcases hs.of_next h₁ with rfl | hs
    · exact isHexDigit_of_all (by decide +kernel)
    · rw [hs.of_done h₂]
      exact isHexDigit_of_all (by decide +kernel)

theorem parses_namelessFile : Parses namelessFile (.ok (namelessRecords.map Prod.snd, [9])) := by
  obtain ⟨h₀, h₁, h₂⟩ := parseTurn_namelessFile
  exact (Returns.next_iff h₀).mpr ((Returns.next_iff h₁).mpr (Returns.done h₂))

/-- A name size of zero is not kept. -/
theorem namelessFile_recounted : HexHeaders namelessFile ∧
    Parses namelessFile (.ok (namelessRecords.map Prod.snd, [9])) ∧
    (∃ e ∈ namelessRecords.map Prod.snd, e.name = "rootfs.sqsh") ∧
    Scans namelessFile namelessRecords 364 ∧
    namelessRecords.map (fun r => r.1.namesize) = [0, 12] ∧
    ∃ out raws o, Rewrites namelessFile [4] (.ok out) ∧ Scans out raws o ∧
      raws.map (fun r => r.1.namesize) = [1, 12] := by
  have hrange : ∀ e ∈ namelessRecords.map Prod.snd, e.InRange ∧ e.name ≠ "TRAILER!!!" := by
    decide
  obtain ⟨o, -, -, hscan⟩ := scans_write (inRange_replaceRootfs hrange (R := [4]) (by decide)) [9]
  refine ⟨hexHeaders_namelessFile, parses_namelessFile, by decide, scans_namelessFile, rfl, _, _, o,
    rewrites_ok_iff.mpr ⟨_, _, parses_namelessFile, by decide, rfl⟩, hscan, ?_⟩
  decide

theorem rewrite_changes_rootfs_namelessFile : ∃ out, Rewrites namelessFile [4, 5] (.ok out) ∧
    Parses out (.ok (replaceRootfs [4, 5] (namelessRecords.map Prod.snd), [9])) := by
  obtain ⟨out, hout, hparse, -⟩ := rewrite_changes_rootfs hexHeaders_namelessFile
    parses_namelessFile (R := [4, 5]) (by decide) (by decide)
  exact ⟨out, hout, hparse⟩

end TalosP2P.Installer
