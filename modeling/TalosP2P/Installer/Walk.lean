import Mathlib.Data.Int.Interval
import TalosP2P.Installer.Cpio
import TalosP2P.Support.Progress

/-!
# Installer — Walk

What the three `while offset + 110 <= len(data)` loops of `build-installer.sh` have in common.  Each
reads the record at its offset, stops at some names, goes on to the offset after any other record,
and raises when the data runs out.  `Walks` says so of a loop, whatever else its state holds.

* `Walks.keyed`: the offset alone decides where such a loop goes.
* `finite_follows`: it can go on from finitely many offsets.
* `readRecord_cut_iff`: a record of the format that is cut after its header.
* `Walks.returns_shown`: the loop over records cut anywhere ends at the first record shown whose
  name it stops at or cannot decode, and raises where there is none.
-/

namespace TalosP2P.Installer

open Python Newc Loop Relation

/-- From the record at offset `o`, whose name is not one of `stop`, the next offset is `o'`. -/
def Follows (stop : String → Prop) (data : Bytes) (o o' : Int) : Prop :=
  o + 110 ≤ data.length ∧ ∃ r, readRecord data o = .ok r ∧ ¬ stop r.name ∧ r.next = o'

/-- A loop that walks a file by its offset `key`, leaves it with `finish` at a name of `stop` and
raises `missing` at the end of the data. -/
structure Walks {σ ρ : Type} (data : Bytes) (stop : String → Prop) (missing : String)
    (key : σ → Int) (finish : σ → RecordAt → ρ) (turn : σ → Except Exc (Turn σ ρ)) : Prop where
  missing : ∀ s, ¬ key s + 110 ≤ data.length → turn s = .error (.systemExit missing)
  error : ∀ s e, key s + 110 ≤ data.length → readRecord data (key s) = .error e →
    turn s = .error e
  done : ∀ s r, key s + 110 ≤ data.length → readRecord data (key s) = .ok r → stop r.name →
    turn s = .ok (.done (finish s r))
  next : ∀ s r, key s + 110 ≤ data.length → readRecord data (key s) = .ok r → ¬ stop r.name →
    ∃ s', turn s = .ok (.next s') ∧ key s' = r.next

/-- The loops that collect what they keep of each record walk the file. -/
theorem walks_scanTurn {α ρ : Type} (keep : Fields → String → Bytes → α)
    (finish : List α → Int → ρ) (missing : String) (data : Bytes) :
    Walks data (· = "TRAILER!!!") missing Prod.fst (fun s r => finish s.2 r.next)
      (scanTurn keep finish missing data) where
  missing s h := by simp only [scanTurn, if_neg h]; rfl
  error s e h hr := by simp only [scanTurn, if_pos h, hr]; rfl
  done s r h hr hn := by simp only [scanTurn, if_pos h, hr, ok_bind, if_pos hn]; rfl
  next s r h hr hn :=
    ⟨_, by simp only [scanTurn, if_pos h, hr, ok_bind, if_neg hn]; rfl, rfl⟩

namespace Walks

variable {σ ρ : Type} {data : Bytes} {stop : String → Prop} {missing : String} {key : σ → Int}
  {finish : σ → RecordAt → ρ} {turn : σ → Except Exc (Turn σ ρ)}
  (hw : Walks data stop missing key finish turn)

include hw

/-- The offset decides where the loop goes. -/
theorem keyed : Keyed turn key (Follows stop data) where
  next_iff s k := by
    constructor
    · rintro ⟨hlen, r, hr, hn, rfl⟩
      exact hw.next s r hlen hr hn
    · rintro ⟨s', ht, rfl⟩
      by_cases hlen : key s + 110 ≤ data.length
      · cases hr : readRecord data (key s) with
        | error e => rw [hw.error s e hlen hr] at ht; cases ht
        | ok r =>
            by_cases hn : stop r.name
            · rw [hw.done s r hlen hr hn] at ht; cases ht
            · obtain ⟨s₁, hs₁, hk⟩ := hw.next s r hlen hr hn
              rw [hs₁] at ht
              cases ht
              exact ⟨hlen, r, hr, hn, hk.symm⟩
      · rw [hw.missing s hlen] at ht; cases ht

end Walks

/-- A record is read at no offset that lies more than six bytes below the end counted from
behind. -/
theorem lt_of_readRecord {data : Bytes} {o : Int} {r : RecordAt} (h : readRecord data o = .ok r) :
    -(data.length : Int) < o + 6 := by
  by_contra hlt
  have hmagic : slice data o (o + 6) = [] := by
    have : clamp data.length (o + 6) = 0 := by rw [clamp]; split <;> omega
    rw [slice, this, List.take_zero, List.drop_nil]
  have hne : ([] : Bytes) ≠ magic := by decide
  simp only [readRecord, hmagic, if_pos hne] at h
  cases h

/-- There are finitely many offsets the loops can go on from. -/
theorem finite_follows (stop : String → Prop) (data : Bytes) :
    {o | ∃ o', Follows stop data o o'}.Finite := by
  refine (Set.finite_Icc (-(data.length + 6 : Int)) data.length).subset ?_
  rintro o ⟨o', hlen, r, hr, -⟩
  have := lt_of_readRecord hr
  constructor
  · omega
  · omega

/-! ### Files cut short -/

/-- The loop ends at this record, because its name is one of `stop` or not UTF-8 as far as it is
shown. -/
def endsAt (stop : String → Prop) [DecidablePred stop] (p : Record × Nat) : Bool :=
  (decodeUtf8 (p.1.shownName p.2)).all fun name => stop name

section EndsAt

variable {stop : String → Prop} [DecidablePred stop] {p : Record × Nat}

theorem endsAt_of_none (h : decodeUtf8 (p.1.shownName p.2) = none) : endsAt stop p = true := by
  rw [endsAt, h, Option.all_none]

theorem endsAt_of_some {name : String} (h : decodeUtf8 (p.1.shownName p.2) = some name) :
    endsAt stop p = decide (stop name) := by
  rw [endsAt, h, Option.all_some]

end EndsAt

namespace Walks

variable {σ ρ : Type} {data : Bytes} {stop : String → Prop} [DecidablePred stop] {missing : String}
  {key : σ → Int} {finish : σ → RecordAt → ρ} {turn : σ → Except Exc (Turn σ ρ)}
  (hw : Walks data stop missing key finish turn)

include hw

/-- **Records cut anywhere.**  The loop ends at the first record shown that ends it, and raises
where there is none. -/
theorem returns_shown {rs : List Record} {k o : Nat} {s : σ} (ho : 4 ∣ o) (hs : key s = o)
    (hdrop : data.drop o = (rs.flatMap Record.bytes).take k) :
    ((shown rs k).find? (endsAt stop) = none → Returns turn s (.error (.systemExit missing))) ∧
      ∀ p, (shown rs k).find? (endsAt stop) = some p →
        (decodeUtf8 (p.1.shownName p.2) = none → Returns turn s (.error .unicodeDecodeError)) ∧
        ∀ name, decodeUtf8 (p.1.shownName p.2) = some name →
          ∃ s' x, Returns turn s (.ok (finish s' x)) ∧ x.name = name ∧
            x.filedata = p.1.shownData p.2 := by
  have hlength : data.length - o = min k (rs.flatMap Record.bytes).length := by
    rw [← List.length_drop, hdrop, List.length_take]
  induction rs generalizing k o s with
  | nil =>
      refine ⟨fun _ => Returns.error (hw.missing s ?_), fun p hp => by cases hp⟩
      rw [hs]
      simp only [List.flatMap_nil, List.length_nil] at hlength
      omega
  | cons r rs ih =>
      rw [List.flatMap_cons] at hdrop hlength
      have hr := r.length_bytes
      rcases Nat.lt_or_ge k 110 with hk | hk
      · rw [shown_of_lt hk]
        refine ⟨fun _ => Returns.error (hw.missing s ?_), fun p hp => by cases hp⟩
        rw [hs]
        omega
      · rw [List.length_append] at hlength
        have hlen : key s + 110 ≤ data.length := by rw [hs]; omega
        rw [shown_cons hk]
        rcases Option.eq_none_or_eq_some (decodeUtf8 (r.shownName k)) with hu | ⟨name, hu⟩
        · have he := readRecord_cut_error ho hk hdrop hu
          rw [← hs] at he
          rw [List.find?_cons_of_pos (endsAt_of_none (p := (r, k)) hu)]
          refine ⟨nofun, fun p hp => ?_⟩
          cases hp
          refine ⟨fun _ => Returns.error (hw.error s _ hlen he), fun name hn => ?_⟩
          rw [hu] at hn
          cases hn
        · have hx := (readRecord_cut_iff ho hk hdrop).mpr ⟨name, hu, rfl⟩
          rw [← hs] at hx
          by_cases hn : stop name
          · rw [List.find?_cons_of_pos ((endsAt_of_some (p := (r, k)) hu).trans (decide_eq_true hn))]
            refine ⟨nofun, fun p hp => ?_⟩
            cases hp
            refine ⟨fun hnone => ?_, fun name' hname' => ?_⟩
            · rw [hu] at hnone
              cases hnone
            · rw [hu] at hname'
              cases hname'
              exact ⟨s, _, Returns.done (hw.done s _ hlen hx hn), rfl, rfl⟩
          · obtain ⟨s', ht, hs'⟩ := hw.next s _ hlen hx hn
            have hgo : ¬ endsAt stop (r, k) = true := by
              rw [endsAt_of_some (p := (r, k)) hu, decide_eq_true_eq]
              exact hn
            rw [List.find?_cons_of_neg hgo]
            simp only [Returns.next_iff ht]
            refine ih (Nat.dvd_add ho r.four_dvd_length) hs' ?_ ?_
            · rw [← List.drop_drop, hdrop, List.drop_take, List.drop_left]
            · omega

end Walks

end TalosP2P.Installer
