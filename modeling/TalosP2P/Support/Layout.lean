import Mathlib.Order.CompletePartialOrder
import Mathlib.Order.Interval.Set.Disjoint
import Mathlib.Data.List.Pairwise
import Mathlib.Data.List.Perm.Basic

/-!
# Support — Layout

Named regions of an address space, and what becomes of them when some are taken out and put back at
their old addresses with other sizes.

* `disjoint_span_iff`: disjointness as a comparison of the ends.
* `relay_noOverlap_iff`: of a layout without overlap, only the regions put back have to be looked at.
-/

namespace TalosP2P.Layout

variable {ν : Type*}

/-- A region, from `start` on. -/
structure Region (ν : Type*) where
  name : ν
  start : Nat
  size : Nat
  deriving DecidableEq, Repr

variable {r t : Region ν} {rs ts : List (Region ν)}

/-- The address after the region. -/
def Region.stop (r : Region ν) : Nat := r.start + r.size

/-- The addresses of the region. -/
def Region.span (r : Region ν) : Set Nat := Set.Ico r.start r.stop

/-- No address belongs to two regions. -/
def NoOverlap (rs : List (Region ν)) : Prop := rs.Pairwise fun r t => Disjoint r.span t.span

/-- One of the regions is empty or ends before the other starts. -/
def Clear (r t : Region ν) : Prop :=
  r.size = 0 ∨ t.size = 0 ∨ r.stop ≤ t.start ∨ t.stop ≤ r.start

instance (r t : Region ν) : Decidable (Clear r t) := inferInstanceAs (Decidable (_ ∨ _))

instance : Std.Symm (@Clear ν) where
  symm r t h := by
    rcases h with h | h | h | h
    · exact .inr (.inl h)
    · exact .inl h
    · exact .inr (.inr (.inr h))
    · exact .inr (.inr (.inl h))

theorem disjoint_span_iff : Disjoint r.span t.span ↔ Clear r t := by
  rw [Region.span, Region.span, Set.Ico_disjoint_Ico, Clear]
  simp only [Region.stop]
  omega

theorem noOverlap_iff : NoOverlap rs ↔ rs.Pairwise Clear := by
  simp only [NoOverlap, disjoint_span_iff]

instance (rs : List (Region ν)) : Decidable (NoOverlap rs) := decidable_of_iff _ noOverlap_iff.symm

/-- The order in which the regions are listed does not matter. -/
theorem noOverlap_perm (h : rs.Perm ts) : NoOverlap rs ↔ NoOverlap ts :=
  h.pairwise_iff fun h => h.symm

theorem NoOverlap.filter {p : Region ν → Bool} (h : NoOverlap rs) : NoOverlap (rs.filter p) :=
  List.Pairwise.filter p h

/-! ### Regions put back -/

variable [DecidableEq ν] {names : List ν} {sizes : List (ν × Nat)}

/-- The first region of a name, with another size. -/
def resize (rs : List (Region ν)) (p : ν × Nat) : Option (Region ν) :=
  (rs.find? fun r => r.name = p.1).map fun r => { r with size := p.2 }

/-- The regions whose names are not taken out. -/
def kept (names : List ν) (rs : List (Region ν)) : List (Region ν) :=
  rs.filter fun r => r.name ∉ names

/-- The regions put back. -/
def putBack (sizes : List (ν × Nat)) (rs : List (Region ν)) : List (Region ν) :=
  sizes.filterMap (resize rs)

/-- The layout after every region of the names is taken out and the sizes are put back. -/
def relay (names : List ν) (sizes : List (ν × Nat)) (rs : List (Region ν)) : List (Region ν) :=
  kept names rs ++ putBack sizes rs

/-- **Relaying**: what is put back has to clear the rest and itself. -/
theorem relay_noOverlap_iff (h : NoOverlap rs) : NoOverlap (relay names sizes rs) ↔
    (putBack sizes rs).Pairwise Clear ∧ ∀ k ∈ kept names rs, ∀ a ∈ putBack sizes rs, Clear k a := by
  have hkept := noOverlap_iff.mp (h.filter (p := fun r => r.name ∉ names))
  rw [noOverlap_iff, relay, List.pairwise_append, kept]
  exact and_iff_right hkept

end TalosP2P.Layout
