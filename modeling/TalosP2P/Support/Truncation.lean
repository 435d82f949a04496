import TalosP2P.Support.Newc

/-!
# Support — Truncation

Newc bytes cut short.  The first `j` bytes of a record hold its header when `j` is at least 110,
and then a part of the name (`shownName`) and of the data (`shownData`).  `shown rs k` lists the
records whose header lies in the first `k` bytes, each with the number of bytes up to the cut,
counted from its own start: all but the last of them are whole.

* `take_header_cut`, `slice_shownName`, `slice_shownData`: what a reader finds in a cut record.
* `mem_shown_iff`: where a record that is shown stands.
* `shown_append`: what is shown of records and of the records behind them.
* `shown_pairwise`: only the last record that is shown can be cut.
-/

namespace TalosP2P.Newc

open Python

/-- What lies inside a part of a file is cut as the part is. -/
theorem take_drop_cut {x y : Bytes} {a b j : Nat} (h : a + b ≤ x.length) :
    (((x ++ y).take j).drop a).take b = ((x.drop a).take b).take (j - a) := by
  rw [List.drop_take, List.take_take, List.drop_append_of_le_length (by omega), Nat.min_comm,
    List.take_append_of_le_length (by rw [List.length_drop]; omega), List.take_take]

/-- The blocks before a cut, and the part of the block it falls in. -/
theorem take_flatMap_cut {α : Type} {f : α → Bytes} (pre post : List α) {x : α} {j : Nat}
    (hj : j ≤ (f x).length) : ((pre ++ x :: post).flatMap f).take ((pre.flatMap f).length + j) =
      pre.flatMap f ++ (f x).take j := by
  rw [List.flatMap_append, List.take_length_add_append, List.flatMap_cons,
    List.take_append_of_le_length hj]

/-- Where a cut falls. -/
theorem exists_cut {α : Type} {f : α → Bytes} {xs : List α} {k : Nat}
    (hk : k < (xs.flatMap f).length) : ∃ pre x post j, xs = pre ++ x :: post ∧
      j < (f x).length ∧ k = (pre.flatMap f).length + j := by
  induction xs generalizing k with
  | nil => exact absurd hk (Nat.not_lt_zero _)
  | cons x xs ih =>
      rw [List.flatMap_cons, List.length_append] at hk
      rcases Nat.lt_or_ge k (f x).length with h | h
      · exact ⟨[], x, xs, k, rfl, h, by simp⟩
      · obtain ⟨pre, y, post, j, rfl, hj, hkj⟩ := ih (k := k - (f x).length) (by omega)
        refine ⟨x :: pre, y, post, j, rfl, hj, ?_⟩
        rw [List.flatMap_cons, List.length_append]
        omega

namespace Record

/-- Where the data of a record starts. -/
def dataStart (r : Record) : Nat := 110 + r.rawName.length + padLen (110 + r.rawName.length)

/-- The part of the name in the first `j` bytes. -/
def shownName (r : Record) (j : Nat) : Bytes := r.name.take (j - 110)

/-- The part of the data in the first `j` bytes. -/
def shownData (r : Record) (j : Nat) : Bytes := r.data.take (j - r.dataStart)

/-- The name and the declared data lie in the first `j` bytes. -/
def Whole (r : Record) (j : Nat) : Prop := r.shownName j = r.name ∧ r.shownData j = r.data

instance (r : Record) (j : Nat) : Decidable (r.Whole j) := inferInstanceAs (Decidable (_ ∧ _))

theorem length_bytes_eq (r : Record) :
    r.bytes.length = r.dataStart + (r.data.length + padLen r.data.length) := r.length_bytes

theorem whole_of_length_le {r : Record} {j : Nat} (h : r.bytes.length ≤ j) : r.Whole j := by
  have hlen := r.length_bytes_eq
  have hstart : r.dataStart = 110 + r.rawName.length + padLen (110 + r.rawName.length) := rfl
  rw [length_rawName] at hstart
  constructor
  · exact List.take_of_length_le (by omega)
  · exact List.take_of_length_le (by omega)

theorem take_header_cut (r : Record) {rest : Bytes} {j : Nat} (hj : 110 ≤ j) :
    ((r.bytes ++ rest).take j).take 110 = r.header := by
  rw [List.take_take, Nat.min_eq_left hj, bytes, List.append_assoc, List.take_append_of_le_length
    (Nat.le_of_eq r.length_header.symm), List.take_of_length_le (Nat.le_of_eq r.length_header)]

theorem slice_shownName (r : Record) (rest : Bytes) (j : Nat) :
    (((r.bytes ++ rest).take j).drop 110).take r.name.length = r.shownName j := by
  have hlen := r.length_bytes_eq
  have hstart : r.dataStart = 110 + r.rawName.length + padLen (110 + r.rawName.length) := rfl
  have h : r.bytes.drop 110 = r.name ++ ([0] ++ (r.namePad ++ (r.data ++ r.dataPad))) := by
    rw [bytes, ← r.length_header, List.drop_left, rawName, List.append_assoc]
  rw [length_rawName] at hstart
  rw [take_drop_cut (by omega), h, List.take_left, shownName]

theorem slice_shownData (r : Record) (rest : Bytes) (j : Nat) :
    (((r.bytes ++ rest).take j).drop r.dataStart).take r.data.length = r.shownData j := by
  have hlen := r.length_bytes_eq
  have h : r.bytes.drop r.dataStart = r.data ++ r.dataPad := by
    have happ : r.bytes = (r.header ++ (r.rawName ++ r.namePad)) ++ (r.data ++ r.dataPad) := by
      simp only [bytes, List.append_assoc]
    have hstart : r.dataStart = (r.header ++ (r.rawName ++ r.namePad)).length := by
      simp only [dataStart, List.length_append, r.length_header, r.length_namePad, length_rawName,
        Nat.add_assoc]
    rw [happ, hstart, List.drop_left]
  rw [take_drop_cut (by omega), h, List.take_left, shownData]

end Record

/-- The records whose header lies in the first `k` bytes, each with the bytes from its start to the
cut. -/
def shown : List Record → Nat → List (Record × Nat)
  | [], _ => []
  | r :: rs, k => if k < 110 then [] else (r, k) :: shown rs (k - r.bytes.length)

theorem shown_cons {r : Record} {rs : List Record} {k : Nat} (h : 110 ≤ k) :
    shown (r :: rs) k = (r, k) :: shown rs (k - r.bytes.length) := by
  rw [shown, if_neg (Nat.not_lt.mpr h)]

theorem shown_of_lt {rs : List Record} {k : Nat} (h : k < 110) : shown rs k = [] := by
  cases rs with
  | nil => rfl
  | cons r rs => rw [shown, if_pos h]

/-- A record is shown when its header lies before the cut. -/
theorem mem_shown_iff {rs : List Record} {k : Nat} {p : Record × Nat} :
    p ∈ shown rs k ↔ 110 ≤ p.2 ∧ ∃ pre post, rs = pre ++ p.1 :: post ∧
      k = (pre.flatMap Record.bytes).length + p.2 := by
  obtain ⟨r', j⟩ := p
  induction rs generalizing k with
  | nil => simp [shown]
  | cons r rs ih =>
      have hlen := r.length_bytes_eq
      have hstart : 110 ≤ r.dataStart := by rw [Record.dataStart]; omega
      constructor
      · intro h
        rcases Nat.lt_or_ge k 110 with hk | hk
        · rw [shown_of_lt hk] at h; cases h
        · rw [shown_cons hk] at h
          rcases List.mem_cons.mp h with h | h
          · cases h
            exact ⟨hk, [], rs, rfl, by simp⟩
          · obtain ⟨hj, pre, post, rfl, hkj⟩ := ih.mp h
            simp only at hj hkj
            refine ⟨hj, r :: pre, post, rfl, ?_⟩
            rw [List.flatMap_cons, List.length_append]
            omega
      · rintro ⟨hj, pre, post, heq, rfl⟩
        simp only at hj heq
        cases pre with
        | nil =>
            cases heq
            rw [List.flatMap_nil, List.length_nil, Nat.zero_add, shown_cons hj]
            exact List.mem_cons_self
        | cons r₀ pre =>
            cases heq
            rw [List.flatMap_cons, List.length_append, shown_cons (by omega), Nat.add_assoc,
              Nat.add_sub_cancel_left]
            exact List.mem_cons_of_mem _ (ih.mpr ⟨hj, pre, post, rfl, rfl⟩)

theorem mem_of_mem_shown {rs : List Record} {k : Nat} {p : Record × Nat} (h : p ∈ shown rs k) :
    p.1 ∈ rs := by
  obtain ⟨-, pre, post, rfl, -⟩ := mem_shown_iff.mp h
  exact List.mem_append_right _ List.mem_cons_self

/-- Behind records that are cut nothing is shown. -/
theorem shown_append (rs rs' : List Record) (k : Nat) :
    shown (rs ++ rs') k = shown rs k ++ shown rs' (k - (rs.flatMap Record.bytes).length) := by
  induction rs generalizing k with
  | nil => rfl
  | cons r rs ih =>
      have hlen := r.length_bytes
      rw [List.flatMap_cons, List.length_append, List.cons_append]
      rcases Nat.lt_or_ge k 110 with hk | hk
      · rw [shown_of_lt hk, shown_of_lt hk, shown_of_lt (by omega)]
        rfl
      · rw [shown_cons hk, shown_cons hk, ih, List.cons_append, Nat.sub_sub]

/-- Only the last record that is shown can be cut. -/
theorem shown_pairwise (rs : List Record) (k : Nat) :
    (shown rs k).Pairwise fun p _ => p.1.Whole p.2 := by
  induction rs generalizing k with
  | nil => exact .nil
  | cons r rs ih =>
      rcases Nat.lt_or_ge k 110 with hk | hk
      · rw [shown_of_lt hk]; exact .nil
      · rw [shown_cons hk]
        refine .cons (fun q hq => Record.whole_of_length_le ?_) (ih _)
        obtain ⟨hj, pre, post, -, hkj⟩ := mem_shown_iff.mp hq
        show r.bytes.length ≤ k
        omega

/-- The records of an archive, the trailer among them. -/
def Archive.records (a : Archive) : List Record := a.members ++ [a.trailer]

theorem Archive.flatMap_records (a : Archive) : a.records.flatMap Record.bytes = a.bytes := by
  rw [records, List.flatMap_append, List.flatMap_singleton, bytes]

end TalosP2P.Newc
