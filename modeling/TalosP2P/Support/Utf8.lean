import TalosP2P.Support.Text

/-!
# Support — Utf8

A text and its bytes.  A character of ASCII is one byte, and that byte stands for nothing else, so a
text is cut where its bytes are.

* `asciiByte_mem_writeText_iff`: the bytes hold the byte of an ASCII character when the text holds
  the character.
* `exists_of_writeText_eq_append_cons`: cut at an ASCII character.
* `exists_of_writeText_eq_append`: a prefix that is itself the bytes of a text.
* `splitOn_unlines`: lines that are written are read back.
* `exists_lines_of_writeText`: cut into lines.
-/

namespace TalosP2P.Python

/-- The byte of a character of ASCII. -/
def asciiByte (c : Char) : UInt8 := UInt8.ofNat c.toNat

theorem writeText_nil : writeText [] = [] := rfl

theorem writeText_append (s t : Text) : writeText (s ++ t) = writeText s ++ writeText t := by
  simp [writeText, encodeUtf8, String.ofList_append]

theorem writeText_cons (c : Char) (t : Text) :
    writeText (c :: t) = String.utf8EncodeChar c ++ writeText t := by
  rw [← List.singleton_append, writeText_append]
  congr 1
  simp [writeText, encodeUtf8, List.utf8Encode]

theorem utf8EncodeChar_ascii {c : Char} (h : c.toNat < 128) : String.utf8EncodeChar c = [asciiByte c] := by
  have hle : c.val.toNat ≤ 0x7f := by
    have := h
    rw [Char.toNat] at this
    omega
  simp only [String.utf8EncodeChar]
  rw [if_pos hle]
  rfl

/-- The bytes of another character are none of ASCII. -/
theorem le_of_mem_utf8EncodeChar {c : Char} (h : 128 ≤ c.toNat) {b : UInt8}
    (hb : b ∈ String.utf8EncodeChar c) : 128 ≤ b.toNat := by
  have hlt : ¬ c.val.toNat ≤ 0x7f := by
    rw [Char.toNat] at h
    exact Nat.not_le.mpr h
  have hcontinuation : ∀ n, 128 ≤ (UInt8.ofNat (n % 0x40 + 0x80)).toNat := fun n => by
    rw [UInt8.toNat_ofNat']
    omega
  have hfirst : ∀ n k m, 0 < k ∧ k + m ≤ 256 → 128 ≤ m → 128 ≤ (UInt8.ofNat (n % k + m)).toNat :=
    fun n k m hk hm => by
      have := Nat.mod_lt n hk.1
      rw [UInt8.toNat_ofNat', Nat.mod_eq_of_lt (by omega)]
      omega
  simp only [String.utf8EncodeChar, if_neg hlt] at hb
  split_ifs at hb <;> simp only [List.mem_cons, List.not_mem_nil, or_false] at hb
  · rcases hb with rfl | rfl
    · exact hfirst _ 0x20 0xc0 (by decide) (by decide)
    · exact hcontinuation _
  · rcases hb with rfl | rfl | rfl
    · exact hfirst _ 0x10 0xe0 (by decide) (by decide)
    · exact hcontinuation _
    · exact hcontinuation _
  · rcases hb with rfl | rfl | rfl | rfl
    · exact hfirst _ 0x08 0xf0 (by decide) (by decide)
    · exact hcontinuation _
    · exact hcontinuation _
    · exact hcontinuation _

/-- The byte of a character of ASCII stands for nothing else. -/
theorem asciiByte_mem_utf8EncodeChar {c d : Char} (hd : d.toNat < 128)
    (h : asciiByte d ∈ String.utf8EncodeChar c) : c = d := by
  have hbyte : ∀ {x : Char}, x.toNat < 128 → (asciiByte x).toNat = x.toNat := fun hx => by
    rw [asciiByte, UInt8.toNat_ofNat', Nat.mod_eq_of_lt (by omega)]
  rcases Nat.lt_or_ge c.toNat 128 with hc | hc
  · rw [utf8EncodeChar_ascii hc, List.mem_singleton] at h
    have heq := congrArg UInt8.toNat h
    rw [hbyte hc, hbyte hd] at heq
    exact Char.ext (UInt32.toNat_inj.mp heq.symm)
  · have := le_of_mem_utf8EncodeChar hc h
    rw [hbyte hd] at this
    omega

theorem asciiByte_mem_writeText_iff {d : Char} (hd : d.toNat < 128) {t : Text} :
    asciiByte d ∈ writeText t ↔ d ∈ t := by
  induction t with
  | nil => simp [writeText_nil]
  | cons c t ih =>
      rw [writeText_cons, List.mem_append, List.mem_cons, ih]
      refine or_congr_left ⟨fun h => (asciiByte_mem_utf8EncodeChar hd h).symm, ?_⟩
      rintro rfl
      rw [utf8EncodeChar_ascii hd]
      exact List.mem_singleton.mpr rfl

/-- **Cut at a character** of ASCII: the text is cut where its bytes are. -/
theorem exists_of_writeText_eq_append_cons {d : Char} (hd : d.toNat < 128) {t : Text} {b r : Bytes}
    (hb : asciiByte d ∉ b) (h : writeText t = b ++ asciiByte d :: r) :
    ∃ l t', t = l ++ d :: t' ∧ writeText l = b ∧ writeText t' = r := by
  induction t generalizing b with
  | nil => simp [writeText_nil] at h
  | cons c t ih =>
      rw [writeText_cons] at h
      by_cases hc : c = d
      · subst hc
        rw [utf8EncodeChar_ascii hd] at h
        cases b with
        | nil => exact ⟨[], t, rfl, rfl, (List.cons.inj h).2⟩
        | cons x b =>
            obtain rfl : x = asciiByte c := (List.cons.inj h).1.symm
            exact absurd List.mem_cons_self hb
      · rcases List.append_eq_append_iff.mp h with ⟨e, rfl, he⟩ | ⟨e, he, hr⟩
        · obtain ⟨l, t', rfl, rfl, rfl⟩ := ih (fun hmem => hb (List.mem_append_right _ hmem)) he
          exact ⟨c :: l, t', rfl, writeText_cons c l, rfl⟩
        · -- The character would hold the byte.
          cases e with
          | nil =>
              rw [List.append_nil] at he
              have hr' : writeText t = [] ++ asciiByte d :: r := hr.symm
              obtain ⟨l, t', rfl, hl, rfl⟩ := ih (by simp) hr'
              refine ⟨c :: l, t', rfl, ?_, rfl⟩
              rw [writeText_cons, hl, he, List.append_nil]
          | cons x e =>
              obtain rfl : x = asciiByte d := (List.cons.inj hr).1.symm
              exact absurd (asciiByte_mem_utf8EncodeChar hd (by rw [he]; simp)) hc

/-- A text whose bytes begin with those of another begins with it. -/
theorem writeText_prefix_iff {s t : Text} : s <+: t ↔ writeText s <+: writeText t := by
  constructor
  · rintro ⟨u, rfl⟩
    exact ⟨writeText u, (writeText_append s u).symm⟩
  · intro h
    have := toList_prefix_of_encodeUtf8 h
    rwa [String.toList_ofList, String.toList_ofList] at this

theorem exists_of_writeText_eq_append {s t : Text} {b : Bytes} (h : writeText t = writeText s ++ b) :
    ∃ u, t = s ++ u ∧ writeText u = b := by
  obtain ⟨u, rfl⟩ := writeText_prefix_iff.mpr ⟨b, h.symm⟩
  rw [writeText_append] at h
  exact ⟨u, rfl, List.append_cancel_left h⟩

theorem writeText_toList (s : String) : writeText s.toList = encodeUtf8 s := by
  rw [writeText, String.ofList_toList]

/-- Lines, each ended by a newline. -/
def unlines {α : Type*} (newline : α) (lines : List (List α)) : List α :=
  lines.flatMap fun line => line ++ [newline]

theorem unlines_cons {α : Type*} (newline : α) (line : List α) (lines : List (List α)) :
    unlines newline (line :: lines) = line ++ newline :: unlines newline lines := by
  simp [unlines]

theorem writeText_unlines (lines : List Text) :
    writeText (unlines '\n' lines) = unlines (asciiByte '\n') (lines.map writeText) := by
  induction lines with
  | nil => rfl
  | cons line lines ih =>
      rw [unlines_cons, writeText_append, writeText_cons, utf8EncodeChar_ascii (by decide), ih,
        List.map_cons, unlines_cons, List.singleton_append]

/-- The text is cut at the newlines, and nothing stands behind the last. -/
theorem splitOn_unlines {α : Type*} [DecidableEq α] {newline : α} {lines : List (List α)}
    (h : ∀ line ∈ lines, newline ∉ line) :
    (unlines newline lines).splitOn newline = lines ++ [[]] := by
  induction lines with
  | nil => rfl
  | cons line lines ih =>
      rw [unlines_cons, List.splitOn_append_cons_self_of_not_mem (h line List.mem_cons_self),
        ih fun l hl => h l (List.mem_cons_of_mem _ hl), List.cons_append]

/-- Lines without newlines are told apart. -/
theorem unlines_inj {α : Type*} {newline : α} {ls ls' : List (List α)} (h : ∀ line ∈ ls, newline ∉ line)
    (h' : ∀ line ∈ ls', newline ∉ line) : unlines newline ls = unlines newline ls' ↔ ls = ls' := by
  classical
  refine ⟨fun heq => ?_, fun heq => heq ▸ rfl⟩
  have hsplit := splitOn_unlines h
  rw [heq, splitOn_unlines h'] at hsplit
  exact (List.append_cancel_right hsplit).symm

/-- **Cut into lines**: the lines of the bytes are those of a text. -/
theorem exists_lines_of_writeText {bytes : List Bytes} (hbytes : ∀ line ∈ bytes, asciiByte '\n' ∉ line)
    {t : Text} (h : writeText t = unlines (asciiByte '\n') bytes) :
    ∃ lines : List Text, t = unlines '\n' lines ∧ lines.map writeText = bytes := by
  induction bytes generalizing t with
  | nil =>
      refine ⟨[], ?_, rfl⟩
      exact writeText_injective h
  | cons b bytes ih =>
      rw [unlines_cons] at h
      obtain ⟨l, t', rfl, rfl, ht'⟩ :=
        exists_of_writeText_eq_append_cons (by decide) (hbytes b List.mem_cons_self) h
      obtain ⟨lines, rfl, rfl⟩ := ih (fun line hline => hbytes line (List.mem_cons_of_mem _ hline)) ht'
      exact ⟨l :: lines, (unlines_cons '\n' l lines).symm, rfl⟩

end TalosP2P.Python
