import TalosP2P.Samekey.Cpio
import TalosP2P.Support.Truncation

/-!
# Samekey — Truncation

What `parse_newc_archive` makes of an archive that ends too early.  A `read` past the end of the
stream returns fewer bytes and raises nothing, and the end of the file at a header is the loop's
ordinary end.  So a cut is noticed in two places only: inside a header that is too short to hold the
first digit of the name size, and inside a character of a name.

* `parseTurn_cut_error`, `returns_of_cut`: the two kinds of cut of one record.
* `truncated_raises_iff`: where the reader raises on an archive the writer wrote.
-/

namespace TalosP2P.Samekey

open Python Newc Loop

/-- The cut, `j` bytes into the record of `e`, is one the reader notices. -/
def Noticed (e : CpioEntry) (j : Nat) : Prop :=
  (1 ≤ j ∧ j ≤ 94) ∨ (110 ≤ j ∧ decodeUtf8 ((encodeUtf8 e.name).take (j - 111)) = none)

/-! ### A cut header -/

theorem fieldBytes_take (header : Bytes) (j k : Nat) :
    fieldBytes (header.take j) k = (fieldBytes header k).take (j - (6 + 8 * k)) := by
  rw [fieldBytes, fieldBytes, List.drop_take, List.take_take, List.take_take, Nat.min_comm]

/-- A header without a digit of the name size is not read. -/
theorem headerFields_short {header : Bytes} {j : Nat} (hj : j ≤ 94) {f : Fields} :
    headerFields (header.take j) ≠ .ok f := by
  intro h
  have h₁₁ := (headerFields_eq_ok_iff.mp h).2.2 11 (by omega) (by omega) (by omega)
  have hnil : fieldBytes (header.take j) 11 = [] := by
    rw [fieldBytes_take, Nat.sub_eq_zero_of_le (by omega), List.take_zero]
  have hnone : int16 [] = none := by decide
  rw [hnil, hnone] at h₁₁
  cases h₁₁

/-- A header with a digit of the name size is read, with a name size that may be cut. -/
theorem headerFields_cut {e : CpioEntry} (he : e.Fits) {j : Nat} (hj : 95 ≤ j) :
    ∃ n : Nat, headerFields ((Newc.header e.fields).take j) = .ok { e.fields with namesize := n } := by
  have hfit : Fits08 e.fields.namesize := he _ (by simp [Fields.toList])
  have hfield : ∀ k (hk : k < 13), fieldBytes ((Newc.header e.fields).take j) k =
      (hex08 (e.fields.toList.get ⟨k, hk⟩)).take (j - (6 + 8 * k)) := fun k hk => by
    rw [fieldBytes_take, fieldBytes_header he hk]
  have hlen := hex08_length hfit
  have hne : (hex08 e.fields.namesize).take (j - 94) ≠ [] :=
    List.ne_nil_of_length_pos (by rw [List.length_take, hlen]; omega)
  have hhex : ∀ c ∈ (hex08 e.fields.namesize).take (j - 94), IsHexDigit c := fun c hc =>
    hex08_isHexDigit hfit (Int.natCast_nonneg _) c (List.mem_of_mem_take hc)
  refine ⟨hexValue ((hex08 e.fields.namesize).take (j - 94)),
    headerFields_eq_ok_iff.mpr ⟨rfl, rfl, fun k hk h₀ h₁₂ => ?_⟩⟩
  rw [hfield k hk]
  by_cases h₁₁ : k = 11
  · subst h₁₁
    exact int16_of_hexDigits hne hhex
  · have hv : Fits08 (e.fields.toList.get ⟨k, hk⟩) := he _ (List.get_mem _ _)
    rw [List.take_of_length_le (by rw [hex08_length hv]; omega), int16_hex08 hv]
    match k with
    | 0 => exact absurd rfl h₀
    | 12 => exact absurd rfl h₁₂
    | 1 | 2 | 3 | 4 | 5 | 6 | 7 | 8 | 9 | 10 => rfl
    | 11 => exact absurd rfl h₁₁
    | k + 13 => omega

/-! ### A cut record -/

/-- The name, the data and the padding of a record. -/
def afterHeader (e : CpioEntry) : Bytes :=
  e.rawName ++ (pad (110 + e.rawName.length) ++ (e.data ++ pad e.data.length))

theorem writeEntry_eq_append (e : CpioEntry) : writeEntry e = Newc.header e.fields ++ afterHeader e := by
  have hraw : e.rawName.length = (encodeUtf8 e.name).length + 1 := by
    rw [CpioEntry.rawName, List.length_append, List.length_singleton]
  rw [afterHeader, hraw]
  rfl

theorem length_writeEntry {e : CpioEntry} (he : e.Fits) : (writeEntry e).length =
    110 + (e.rawName.length + padLen (110 + e.rawName.length) +
      (e.data.length + padLen e.data.length)) := by
  rw [writeEntry_eq_append, List.length_append, length_header he]
  simp only [afterHeader, List.length_append, length_pad]
  omega

theorem take_header_cut {e : CpioEntry} (he : e.Fits) (j : Nat) :
    ((writeEntry e).take j).take 110 = (Newc.header e.fields).take j := by
  rw [writeEntry_eq_append, List.take_take, ← length_header he, Nat.min_comm, ← List.take_take,
    List.take_left]

/-- What is decoded of a name that may be cut: the character before the cut is taken for the NUL. -/
theorem shown_name {e : CpioEntry} (he : e.Fits) (j : Nat) :
    ((((writeEntry e).take j).drop 110).take e.rawName.length).dropLast =
      (encodeUtf8 e.name).take (j - 111) := by
  have hlen := length_writeEntry he
  have hdrop : ((writeEntry e).drop 110).take e.rawName.length = e.rawName := by
    rw [writeEntry_eq_append, ← length_header he, List.drop_left, afterHeader, List.take_left]
  have hcut : (((writeEntry e).take j).drop 110).take e.rawName.length = e.rawName.take (j - 110) := by
    have := take_drop_cut (y := []) (j := j) (show 110 + e.rawName.length ≤ (writeEntry e).length by
      omega)
    rwa [List.append_nil, hdrop] at this
  have hraw : e.rawName = encodeUtf8 e.name ++ [0] := rfl
  rw [hcut, List.dropLast_eq_take, List.take_take, List.length_take, hraw,
    List.take_append_of_le_length (by rw [List.length_append, List.length_singleton]; omega),
    List.length_append, List.length_singleton, List.take_eq_take_iff]
  omega

section Cut

variable {α : Type} {keep : Bytes → CpioEntry → α} {path : String}

/-- A cut that is noticed. -/
theorem parseTurn_cut_error {e : CpioEntry} (he : e.Fits) {j : Nat} (hj : Noticed e j)
    (acc : List α) : ∃ x, parseTurn keep path ((writeEntry e).take j, acc) = .error x := by
  cases ht : parseTurn keep path ((writeEntry e).take j, acc) with
  | error x => exact ⟨x, rfl⟩
  | ok t =>
      have hlen := length_writeEntry he
      rcases parseTurn_cases ht with ⟨hnil, -⟩ | ⟨e', rest, -, -, hread, -⟩
      · have := congrArg List.length hnil
        rw [List.length_take, List.length_nil] at this
        rcases hj with hj | hj
        · omega
        · omega
      · rw [take_header_cut he] at hread
        rcases hj with hj | ⟨hj, hname⟩
        · obtain ⟨f, -, hf, -⟩ := readEntry_inv hread
          exact absurd hf (headerFields_short hj.2)
        · rw [List.take_of_length_le (by rw [length_header he]; exact hj),
            readEntry_natCast (headerFields_header he) rfl rfl, shown_name he, decode, hname] at hread
          cases hread

/-- A cut that is not noticed: the loop goes on to the end of the file, or takes what is left of the
name for the trailer's. -/
theorem returns_of_cut {e : CpioEntry} (he : e.Fits) {j : Nat} (hj : j < (writeEntry e).length)
    (hcut : ¬ Noticed e j) (acc : List α) :
    ∃ r, Returns (parseTurn keep path) ((writeEntry e).take j, acc) (.ok r) := by
  rcases Nat.eq_zero_or_pos j with rfl | hpos
  · exact ⟨_, Returns.done parseTurn_nil⟩
  · obtain ⟨hshort, hname⟩ := not_or.mp hcut
    have hlen := length_writeEntry he
    -- Whatever is read of the record, nothing is left of the stream.
    suffices hread : ∃ x, readEntry (((writeEntry e).take j).take 110)
        (((writeEntry e).take j).drop 110) = .ok (x, []) by
      obtain ⟨x, hx⟩ := hread
      have hmagic : (((writeEntry e).take j).take 110).take 6 = magic := by
        rw [take_header_cut he, List.take_take, Nat.min_eq_left (by omega), take_header]
      have ht := @parseTurn_of_magic _ keep path _ hmagic acc
      rw [hx] at ht
      by_cases hn : x.name = "TRAILER!!!"
      · exact ⟨_, Returns.done (by rw [ht]; simp only [Except.map, if_pos hn]; rfl)⟩
      · refine ⟨_, (Returns.next_iff (by rw [ht]; simp only [Except.map, if_neg hn]; rfl)).mpr
          (Returns.done parseTurn_nil)⟩
    rw [take_header_cut he]
    obtain ⟨n, hf⟩ := headerFields_cut he (show 95 ≤ j by omega)
    rcases Nat.lt_or_ge j 110 with h110 | h110
    · have hnil : ((writeEntry e).take j).drop 110 = [] :=
        List.drop_eq_nil_of_le (by rw [List.length_take]; omega)
      rw [hnil, readEntry_natCast hf rfl rfl]
      simp only [List.take_nil, List.drop_nil, List.dropLast_nil]
      exact ⟨_, rfl⟩
    · obtain ⟨name, hu⟩ := Option.ne_none_iff_exists'.mp fun h => hname ⟨h110, h⟩
      rw [List.take_of_length_le (by rw [length_header he]; exact h110),
        readEntry_natCast (headerFields_header he) rfl rfl, shown_name he, decode, hu]
      refine ⟨_, congrArg Except.ok (Prod.ext rfl (List.drop_eq_nil_of_le ?_))⟩
      rw [List.length_drop, List.length_take]
      omega

end Cut

/-! ### A cut archive -/

theorem lt_length_of_noticed {e : CpioEntry} (he : e.Fits) {j : Nat} (h : Noticed e j) :
    j < (writeEntry e).length := by
  have hlen := length_writeEntry he
  have hraw : e.rawName.length = (encodeUtf8 e.name).length + 1 := by
    rw [CpioEntry.rawName, List.length_append, List.length_singleton]
  rcases h with h | ⟨-, hname⟩
  · omega
  · by_contra hle
    rw [List.take_of_length_le (by omega), decodeUtf8_encodeUtf8] at hname
    cases hname

/-- What stands before an entry of an archive stands before its last entry. -/
theorem prefix_of_concat_eq {E pre post : List CpioEntry} {t e : CpioEntry}
    (h : E ++ [t] = pre ++ e :: post) : pre <+: E := by
  rcases List.prefix_concat_iff.mp ⟨e :: post, h.symm⟩ with hpre | hpre
  · have hlen := congrArg List.length h
    rw [← hpre, List.length_append, List.length_cons] at hlen
    omega
  · exact hpre

/-- The entries before the cut are read, and the loop comes to the entry that is cut. -/
theorem parseNewcArchive_cut_iff {path : String} {pre post : List CpioEntry} {e : CpioEntry} {j : Nat}
    (hpre : ∀ e' ∈ pre, e'.Fits ∧ e'.name ≠ "TRAILER!!!") (hj : j ≤ (writeEntry e).length)
    {r : Except Exc (List CpioEntry × Bytes)} :
    parseNewcArchive path ((writeNewcArchive (pre ++ e :: post) []).take
        ((pre.flatMap writeEntry).length + j)) = r ↔
      Returns (parseTurn (fun _ e => e) path) ((writeEntry e).take j, [] ++ pre) r := by
  rw [parseNewcArchive, parseLoop_eq_iff, writeNewcArchive, List.append_nil,
    take_flatMap_cut pre post hj, returns_writeEntries hpre, List.map_id']

/-- **Where truncation is noticed.**  On an archive cut before the last character of the trailer's
name the reader raises exactly when the cut falls between the first byte of a header and the first
digit of its name size, or inside a character of a name.  The fields fit their eight characters, as
those of every entry that was read do. -/
theorem truncated_raises_iff (path : String) {E : List CpioEntry} {t : CpioEntry}
    (hE : ∀ e ∈ E, e.Fits ∧ e.name ≠ "TRAILER!!!") (ht : t.Fits ∧ t.name = "TRAILER!!!") {k : Nat}
    (hk : k < (E.flatMap writeEntry).length + 120) :
    (∃ x, parseNewcArchive path ((writeNewcArchive (E ++ [t]) []).take k) = .error x) ↔
      ∃ pre e post j, E ++ [t] = pre ++ e :: post ∧ k = (pre.flatMap writeEntry).length + j ∧
        Noticed e j := by
  have hfits : ∀ e ∈ E ++ [t], e.Fits := fun e he => by
    rcases List.mem_append.mp he with he | he
    · exact (hE e he).1
    · rw [List.mem_singleton.mp he]; exact ht.1
  have hbefore : ∀ {pre e post}, E ++ [t] = pre ++ e :: post →
      ∀ e' ∈ pre, e'.Fits ∧ e'.name ≠ "TRAILER!!!" :=
    fun heq e' he' => hE e' ((prefix_of_concat_eq heq).subset he')
  constructor
  · rintro ⟨x, hx⟩
    have htotal : k < ((E ++ [t]).flatMap writeEntry).length := by
      have h11 : t.rawName.length = 11 := by rw [CpioEntry.rawName, ht.2]; decide
      rw [List.flatMap_append, List.length_append, List.flatMap_singleton, length_writeEntry ht.1, h11]
      omega
    obtain ⟨pre, e, post, j, heq, hj, rfl⟩ := exists_cut htotal
    refine ⟨pre, e, post, j, heq, rfl, ?_⟩
    by_contra hn
    have he : e.Fits := hfits e (by rw [heq]; simp)
    obtain ⟨r, hr⟩ := @returns_of_cut _ (fun _ e => e) path _ he _ hj hn ([] ++ pre)
    rw [heq, (parseNewcArchive_cut_iff (hbefore heq) hj.le).mpr hr] at hx
    cases hx
  · rintro ⟨pre, e, post, j, heq, rfl, hn⟩
    have he : e.Fits := hfits e (by rw [heq]; simp)
    obtain ⟨x, hx⟩ := @parseTurn_cut_error _ (fun _ e => e) path _ he _ hn ([] ++ pre)
    rw [heq]
    exact ⟨x, (parseNewcArchive_cut_iff (hbefore heq) (lt_length_of_noticed he hn).le).mpr
      (Returns.error hx)⟩

/-- The theorem at a name of two bytes that is cut in two. -/
theorem truncated_raises_iff_cutName :
    let E : List CpioEntry := [⟨"é", 0o100644, 0, 0, 1, 0, 8, 1, 0, 0, [7]⟩]
    let t : CpioEntry := ⟨"TRAILER!!!", 0, 0, 0, 1, 0, 0, 0, 0, 0, []⟩
    (∃ x, parseNewcArchive "initrd" ((writeNewcArchive (E ++ [t]) []).take 112) = .error x) ↔
      ∃ pre e post j, E ++ [t] = pre ++ e :: post ∧ 112 = (pre.flatMap writeEntry).length + j ∧
        Noticed e j :=
  truncated_raises_iff "initrd" (by decide +kernel) (by decide +kernel) (by decide +kernel)

/-- A `rootfs.sqsh` of four bytes that is cut after two of them is read, with two bytes of data. -/
theorem cutRootfs_accepted :
    let rootfs : CpioEntry := ⟨"rootfs.sqsh", 0o100644, 0, 0, 1, 0, 8, 1, 0, 0, [1, 2, 3, 4]⟩
    let t : CpioEntry := ⟨"TRAILER!!!", 0, 0, 0, 1, 0, 0, 0, 0, 0, []⟩
    parseNewcArchive "initrd" ((writeNewcArchive [rootfs, t] []).take 126) =
      .ok ([{ rootfs with data := [1, 2] }], []) :=
  parseLoop_eq_iff.mpr ⟨3, by decide +kernel⟩

end TalosP2P.Samekey
