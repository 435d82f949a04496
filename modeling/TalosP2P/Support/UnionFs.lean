import Mathlib.Data.List.Infix

/-!
# Support — UnionFs

A file system built by changes: an entry is put at a path, a path is removed with everything below it,
and everything below a path is hidden.  An entry that is put makes directories of what stands above
it, and takes away what stood below its path unless it is a directory itself.  A link names a
path from the root.

* `build_eq_some_iff`: a file is at a path when the last change that touches the path puts it there.
* `lastPuts_append_iff`, `lastPuts_append_put_cons_iff`: the last change, in parts of a history.
-/

namespace TalosP2P.UnionFs

variable {ν β : Type*}

/-- What stands at a path. -/
inductive Node (ν β : Type*) where
  | file (content : β)
  | directory
  | link (target : List ν)
  | other
  deriving DecidableEq, Repr

def Node.isDirectory : Node ν β → Bool
  | .directory => true
  | _ => false

/-- A change, at a path from the root. -/
inductive Change (ν β : Type*) where
  | put (path : List ν) (node : Node ν β)
  | remove (path : List ν)
  | hide (path : List ν)
  deriving DecidableEq, Repr

/-- The change does not say anything about the path. -/
def Change.Spares (q : List ν) : Change ν β → Prop
  | .put p n => q ≠ p ∧ (p <+: q → n.isDirectory = true) ∧ ¬ q <+: p
  | .remove p => ¬ p <+: q
  | .hide p => p <+: q → p = q

/-- The last of the changes that touches the path puts `n` there. -/
def LastPuts (changes : List (Change ν β)) (q : List ν) (n : Node ν β) : Prop :=
  ∃ before after, changes = before ++ .put q n :: after ∧ ∀ c ∈ after, c.Spares q

/-! ### The last change -/

theorem not_spares_put (q : List ν) (n : Node ν β) : ¬ (Change.put q n).Spares q := fun h => h.1 rfl

theorem LastPuts.mem {changes : List (Change ν β)} {q : List ν} {n : Node ν β}
    (h : LastPuts changes q n) : .put q n ∈ changes := by
  obtain ⟨before, after, rfl, -⟩ := h
  simp

/-- The last change that touches the path, in two parts of a history. -/
theorem lastPuts_append_iff {cs ds : List (Change ν β)} {q : List ν} {n : Node ν β} :
    LastPuts (cs ++ ds) q n ↔ LastPuts ds q n ∨ (∀ c ∈ ds, c.Spares q) ∧ LastPuts cs q n := by
  constructor
  · rintro ⟨before, after, heq, hafter⟩
    rcases List.append_eq_append_iff.mp heq with ⟨es, rfl, rfl⟩ | ⟨es, rfl, hes⟩
    · exact .inl ⟨es, after, rfl, hafter⟩
    · cases es with
      | nil => exact .inl ⟨[], after, hes.symm, hafter⟩
      | cons e es =>
          obtain ⟨rfl, rfl⟩ := List.cons.inj hes
          refine .inr ⟨fun c hc => hafter c (List.mem_append_right _ hc), before, es, rfl, fun c hc => ?_⟩
          exact hafter c (List.mem_append_left _ hc)
  · rintro (⟨before, after, rfl, hafter⟩ | ⟨hds, before, after, rfl, hafter⟩)
    · exact ⟨cs ++ before, after, by simp, hafter⟩
    · refine ⟨before, after ++ ds, by simp, fun c hc => ?_⟩
      exact (List.mem_append.mp hc).elim (hafter c) (hds c)

theorem lastPuts_singleton_iff {c : Change ν β} {q : List ν} {n : Node ν β} :
    LastPuts [c] q n ↔ c = .put q n := by
  constructor
  · rintro ⟨before, after, heq, -⟩
    cases before with
    | nil => exact (List.cons.inj heq).1
    | cons b before => simp at heq
  · rintro rfl
    exact ⟨[], [], rfl, by simp⟩

/-- The last change that touches the path, behind one that puts something there. -/
theorem lastPuts_append_put_cons_iff {cs ds : List (Change ν β)} {q : List ν} {n n' : Node ν β} :
    LastPuts (cs ++ .put q n' :: ds) q n ↔ LastPuts ds q n ∨ (∀ c ∈ ds, c.Spares q) ∧ n = n' := by
  rw [← List.singleton_append, lastPuts_append_iff, lastPuts_append_iff, lastPuts_singleton_iff]
  simp [not_spares_put, eq_comm]

/-! ### A file system -/

variable [DecidableEq ν]

instance (q : List ν) : DecidablePred (Change.Spares q : Change ν β → Prop)
  | .put p n => inferInstanceAs (Decidable (q ≠ p ∧ (p <+: q → n.isDirectory = true) ∧ ¬ q <+: p))
  | .remove p => inferInstanceAs (Decidable (¬ p <+: q))
  | .hide p => inferInstanceAs (Decidable (p <+: q → p = q))

/-- A file system. -/
abbrev Tree (ν β : Type*) := List ν → Option (Node ν β)

def Tree.apply (t : Tree ν β) : Change ν β → Tree ν β
  | .put p n => fun q =>
    if q = p then some n
    else if p <+: q then (if n.isDirectory then t q else none)
    else if q <+: p then some .directory
    else t q
  | .remove p => fun q => if p <+: q then none else t q
  | .hide p => fun q => if p <+: q ∧ p ≠ q then none else t q

/-- The file system after the changes, from an empty one. -/
def build (changes : List (Change ν β)) : Tree ν β := changes.foldl Tree.apply fun _ => none

/-- What is read at a path: a file that stands there, or the one a link leads to. -/
inductive Tree.Shows (t : Tree ν β) : List ν → β → Prop where
  | file {p : List ν} {d : β} (h : t p = some (.file d)) : Tree.Shows t p d
  | link {p q : List ν} {d : β} (h : t p = some (.link q)) (hq : Tree.Shows t q d) : Tree.Shows t p d

/-- What stands at a path is a file with the content, or a link that leads to one. -/
def Tree.Leads (t : Tree ν β) (n : Node ν β) (d : β) : Prop :=
  n = .file d ∨ ∃ q, n = .link q ∧ t.Shows q d

theorem build_concat (changes : List (Change ν β)) (c : Change ν β) :
    build (changes ++ [c]) = (build changes).apply c := by
  rw [build, List.foldl_append]
  rfl

/-! ### What a change leaves at a path -/

theorem Tree.apply_of_spares {c : Change ν β} {q : List ν} (h : c.Spares q) (t : Tree ν β) :
    t.apply c q = t q := by
  cases c with
  | put p n =>
      obtain ⟨hne, hbelow, habove⟩ := h
      by_cases hpq : p <+: q
      · simp [Tree.apply, hne, hpq, hbelow hpq]
      · simp [Tree.apply, hne, hpq, habove]
  | remove p => exact if_neg h
  | hide p => exact if_neg fun hp => hp.2 (h hp.1)

/-- A change that touches a path puts something there, or leaves nothing but a directory there. -/
theorem Tree.apply_of_not_spares {c : Change ν β} {q : List ν} (h : ¬ c.Spares q) (t : Tree ν β) :
    (∃ n, c = .put q n ∧ t.apply c q = some n) ∨
      ∀ n, n.isDirectory = false → t.apply c q ≠ some n := by
  cases c with
  | put p n =>
      by_cases heq : q = p
      · subst heq
        exact .inl ⟨n, rfl, if_pos rfl⟩
      · refine .inr fun n' hn' => ?_
        by_cases hpq : p <+: q
        · have hn : ¬ n.isDirectory = true := fun hn =>
            h ⟨heq, fun _ => hn, fun hqp => heq (hqp.eq_of_length_le hpq.length_le)⟩
          simp [Tree.apply, heq, hpq, hn]
        · have hqp : q <+: p := not_not.mp fun hqp => h ⟨heq, fun hp => absurd hp hpq, hqp⟩
          have hne : Node.directory ≠ n' := by
            rintro rfl
            exact absurd hn' (by simp [Node.isDirectory])
          simp [Tree.apply, heq, hpq, hqp, hne]
  | remove p =>
      have hp : p <+: q := not_not.mp h
      exact .inr fun n _ => by simp [Tree.apply, hp]
  | hide p =>
      obtain ⟨hp, hne⟩ := Classical.not_imp.mp h
      exact .inr fun n _ => by simp [Tree.apply, hp, hne]

/-- **Last wins**: what is no directory is at a path when the last change that touches the path puts
it there. -/
theorem build_eq_some_iff {changes : List (Change ν β)} {q : List ν} {n : Node ν β}
    (hn : n.isDirectory = false) : build changes q = some n ↔ LastPuts changes q n := by
  induction changes using List.reverseRecOn with
  | nil => simp [build, LastPuts]
  | append_singleton changes c ih =>
      rw [build_concat, lastPuts_append_iff, lastPuts_singleton_iff, List.forall_mem_singleton, ← ih]
      by_cases hspares : c.Spares q
      · have hne : c ≠ .put q n := fun heq => not_spares_put q _ (heq ▸ hspares)
        rw [Tree.apply_of_spares hspares]
        simp [hspares, hne]
      · rcases Tree.apply_of_not_spares hspares (build changes) with ⟨n', rfl, happly⟩ | hnone
        · rw [happly]
          simp [hspares]
        · have hne : c ≠ .put q n := by
            rintro rfl
            exact hnone n hn (if_pos rfl)
          simp [hspares, hne, hnone n hn]

/-- What is read at a path, by the last change that touches it. -/
theorem shows_build_iff {changes : List (Change ν β)} {q : List ν} {d : β} :
    (build changes).Shows q d ↔ ∃ n, LastPuts changes q n ∧ (build changes).Leads n d := by
  constructor
  · intro h
    cases h with
    | file h => exact ⟨_, (build_eq_some_iff rfl).mp h, .inl rfl⟩
    | link h hq => exact ⟨_, (build_eq_some_iff rfl).mp h, .inr ⟨_, rfl, hq⟩⟩
  · rintro ⟨n, hlast, rfl | ⟨p, rfl, hp⟩⟩
    · exact .file ((build_eq_some_iff rfl).mpr hlast)
    · exact .link ((build_eq_some_iff rfl).mpr hlast) hp

end TalosP2P.UnionFs
