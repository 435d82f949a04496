import Mathlib.Data.List.Find
import TalosP2P.Support.Search

/-!
# Support — Fields

The fields of a text, as `strings.Fields` gives them: what stands between the separators, where it is
not empty.  A separator may have several elements.

* `fields_append`: the fields on the two sides of a separator.
* `fields_eq_singleton`: a text without separators is one field.
-/

namespace TalosP2P.Search

variable {α : Type*} [DecidableEq α]

/-- A field that has come to its end. -/
def close (field : List α) : List (List α) := if field = [] then [] else [field]

/-- The fields, from a place in the text: how much of a separator is still to be passed over, and the
field that has begun. -/
def fieldsFrom (separators : List (List α)) : Nat → List α → List α → List (List α)
  | _, field, [] => close field
  | behind + 1, field, _ :: s => fieldsFrom separators behind field s
  | 0, field, c :: s =>
    match separators.find? fun w => w.isPrefixOf (c :: s) with
    | some w => close field ++ fieldsFrom separators (w.length - 1) [] s
    | none => fieldsFrom separators 0 (field ++ [c]) s

def fields (separators : List (List α)) (s : List α) : List (List α) := fieldsFrom separators 0 [] s

variable {separators : List (List α)} {w field s t : List α}

theorem fieldsFrom_drop (behind : Nat) (field s : List α) :
    fieldsFrom separators behind field s = fieldsFrom separators 0 field (s.drop behind) := by
  induction behind generalizing s with
  | zero => rfl
  | succ behind ih =>
      cases s with
      | nil => rfl
      | cons c s => exact ih s

theorem fieldsFrom_cons (field : List α) (c : α) (s : List α) :
    fieldsFrom separators 0 field (c :: s) =
      match separators.find? fun w => w.isPrefixOf (c :: s) with
      | some w => close field ++ fieldsFrom separators (w.length - 1) [] s
      | none => fieldsFrom separators 0 (field ++ [c]) s := rfl

omit [DecidableEq α] in
/-- No separator begins before another and ends in it. -/
theorem prefix_append_iff (h : Apart separators) (hw : w ∈ separators) (hs : s ≠ []) {q : List α}
    (hq : q ∈ separators) : q <+: s ++ (w ++ t) ↔ q <+: s := by
  refine ⟨fun hprefix => ?_, fun hprefix => hprefix.trans (List.prefix_append s _)⟩
  rcases List.prefix_or_prefix_of_prefix hprefix (List.prefix_append s _) with hqs | hsq
  · exact hqs
  · obtain ⟨rest, rfl⟩ := hsq
    rw [List.prefix_append_right_inj] at hprefix
    by_cases hrest : rest = []
    · rw [hrest, List.append_nil]
    · have hk : s.length < (s ++ rest).length := by
        rw [List.length_append]
        exact Nat.lt_add_of_pos_right (List.length_pos_iff.mpr hrest)
      obtain ⟨hleft, hright⟩ := h.inner _ hq w hw s.length hk (List.length_pos_iff.mpr hs).ne'
      rw [List.drop_left] at hleft hright
      rcases List.prefix_or_prefix_of_prefix hprefix (List.prefix_append w t) with hd | hd
      · exact absurd hd hleft
      · exact absurd hd hright

theorem find?_of_mem (h : Apart separators) (hw : w ∈ separators) (t : List α) :
    (separators.find? fun q => q.isPrefixOf (w ++ t)) = some w := by
  cases hfind : separators.find? fun q => q.isPrefixOf (w ++ t) with
  | none =>
      have hself : w.isPrefixOf (w ++ t) = true :=
        List.isPrefixOf_iff_prefix.mpr (List.prefix_append w t)
      exact absurd hself (List.find?_eq_none.mp hfind w hw)
  | some q =>
      have hq := List.mem_of_find?_eq_some hfind
      have hprefix : q <+: w ++ t :=
        List.isPrefixOf_iff_prefix.mp (by simpa using List.find?_some hfind)
      rcases List.prefix_or_prefix_of_prefix hprefix (List.prefix_append w t) with hqw | hwq
      · rw [h.same q hq w hw hqw]
      · rw [h.same w hw q hq hwq]

theorem fieldsFrom_append (h : Apart separators) (hw : w ∈ separators) {behind : Nat}
    (hbehind : behind ≤ s.length) : fieldsFrom separators behind field (s ++ (w ++ t)) =
      fieldsFrom separators behind field s ++ fieldsFrom separators 0 [] t := by
  induction s generalizing behind field with
  | nil =>
      obtain rfl : behind = 0 := Nat.le_zero.mp hbehind
      obtain ⟨c, w', rfl⟩ := List.exists_cons_of_ne_nil (h.nonempty w hw)
      have hfind := find?_of_mem h hw t
      rw [List.cons_append] at hfind
      rw [List.nil_append, List.cons_append, fieldsFrom_cons, hfind]
      simp only [List.length_cons, Nat.add_sub_cancel]
      rw [fieldsFrom_drop, List.drop_left]
      rfl
  | cons c s ih =>
      cases behind with
      | succ behind => exact ih (Nat.le_of_succ_le_succ hbehind)
      | zero =>
          have hfind : (separators.find? fun q => q.isPrefixOf (c :: (s ++ (w ++ t)))) =
              separators.find? fun q => q.isPrefixOf (c :: s) := by
            refine List.find?_congr fun q hq => ?_
            rw [Bool.eq_iff_iff, List.isPrefixOf_iff_prefix, List.isPrefixOf_iff_prefix]
            exact prefix_append_iff h hw (List.cons_ne_nil c s) hq
          rw [List.cons_append, fieldsFrom_cons, fieldsFrom_cons, hfind]
          split
          · rename_i q hq
            have hprefix : q <+: c :: s :=
              List.isPrefixOf_iff_prefix.mp (by simpa using List.find?_some hq)
            have hlen := hprefix.length_le
            rw [List.length_cons] at hlen
            rw [ih (by omega), List.append_assoc]
          · exact ih (Nat.zero_le _)

/-- **The two sides of a separator.** -/
theorem fields_append (h : Apart separators) (hw : w ∈ separators) (s t : List α) :
    fields separators (s ++ (w ++ t)) = fields separators s ++ fields separators t :=
  fieldsFrom_append h hw (Nat.zero_le _)

theorem fields_nil : fields separators [] = [] := rfl

/-- A separator at the front. -/
theorem fields_append_left (h : Apart separators) (hw : w ∈ separators) (t : List α) :
    fields separators (w ++ t) = fields separators t := by
  have hcut := fields_append h hw [] t
  rwa [List.nil_append, fields_nil, List.nil_append] at hcut

/-- A separator at the end. -/
theorem fields_append_right (h : Apart separators) (hw : w ∈ separators) (s : List α) :
    fields separators (s ++ w) = fields separators s := by
  have hcut := fields_append h hw s []
  rwa [List.append_nil, fields_nil, List.append_nil] at hcut

theorem fieldsFrom_of_no_separator (h : ∀ w ∈ separators, ¬ w <:+: s) :
    fieldsFrom separators 0 field s = close (field ++ s) := by
  induction s generalizing field with
  | nil => rw [fieldsFrom, List.append_nil]
  | cons c s ih =>
      have hnone : (separators.find? fun w => w.isPrefixOf (c :: s)) = none := by
        refine List.find?_eq_none.mpr fun w hw hprefix => h w hw ?_
        exact (List.isPrefixOf_iff_prefix.mp hprefix).isInfix
      rw [fieldsFrom_cons, hnone]
      simp only
      rw [ih fun w hw hin => h w hw (hin.trans (List.suffix_cons c s).isInfix), List.append_assoc]
      rfl

/-- **A text without separators** is one field. -/
theorem fields_eq_singleton (hne : s ≠ []) (h : ∀ w ∈ separators, ¬ w <:+: s) :
    fields separators s = [s] := by
  rw [fields, fieldsFrom_of_no_separator h, List.nil_append, close, if_neg hne]

end TalosP2P.Search
