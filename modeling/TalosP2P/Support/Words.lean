import Mathlib.Data.List.Infix
import Mathlib.Data.List.Nodup

/-!
# Support — Words

A text as words between separators, and words that are added to its end unless they are there.

* `infix_iff_delimited`: a search with a separator on both sides of the word and of the text finds
  the words that stand between separators or ends.
* `delimited_append_cons_iff`: the words of a text to which another one was added.
* `not_mem_of_mem_splitOn`: what a text is split into.
* `addWords_eq`: what is added, and that nothing else is.
* `delimited_of_mem_addWords`, `addWords_eq_self`: then every word is there, and none is added again.
-/

namespace TalosP2P.Words

variable {α : Type*} {sep : α} {word text : List α}

/-- The word stands in the text, between separators or the ends of the text. -/
def Delimited (sep : α) (word text : List α) : Prop :=
  ∃ pre post, text = pre ++ (word ++ post) ∧ (pre = [] ∨ ∃ front, pre = front ++ [sep]) ∧
    (post = [] ∨ ∃ back, post = sep :: back)

/-- What stands before `c` in a text that begins with it is nothing, or begins with it too. -/
theorem cons_eq_append_cons {c : α} {s t u : List α} (h : c :: s = t ++ c :: u) :
    (t = [] ∧ s = u) ∨ ∃ t', t = c :: t' ∧ s = t' ++ c :: u := by
  cases t with
  | nil => exact .inl ⟨rfl, (List.cons.inj h).2⟩
  | cons x t =>
      obtain ⟨rfl, hs⟩ := List.cons.inj h
      exact .inr ⟨t, rfl, hs⟩

/-- What stands before a separator at the end of a text. -/
theorem concat_eq_append_cons {c : α} {s t u : List α} (h : s ++ [c] = t ++ c :: u) :
    (u = [] ∧ s = t) ∨ ∃ u', u = u' ++ [c] ∧ s = t ++ c :: u' := by
  rcases List.eq_nil_or_concat' u with rfl | ⟨u', x, rfl⟩
  · exact .inl ⟨rfl, List.append_inj_left' h rfl⟩
  · have heq : s ++ [c] = (t ++ c :: u') ++ [x] := by rw [h]; simp
    obtain ⟨hs, hx⟩ := List.append_inj' heq rfl
    cases hx
    exact .inr ⟨u', rfl, hs⟩

/-- **The padded search** finds the words between separators. -/
theorem infix_iff_delimited :
    sep :: word ++ [sep] <:+: sep :: text ++ [sep] ↔ Delimited sep word text := by
  constructor
  · rintro ⟨p, q, h⟩
    have h' : sep :: (text ++ [sep]) = p ++ sep :: (word ++ sep :: q) := by
      rw [← List.cons_append, ← h]
      simp
    rcases cons_eq_append_cons h' with ⟨rfl, hq⟩ | ⟨p, rfl, hp⟩
    · rcases concat_eq_append_cons hq with ⟨rfl, rfl⟩ | ⟨q, rfl, rfl⟩
      · exact ⟨[], [], by simp, .inl rfl, .inl rfl⟩
      · exact ⟨[], sep :: q, rfl, .inl rfl, .inr ⟨q, rfl⟩⟩
    · have hp' : text ++ [sep] = (p ++ sep :: word) ++ sep :: q := by rw [hp]; simp
      rcases concat_eq_append_cons hp' with ⟨rfl, rfl⟩ | ⟨q, rfl, rfl⟩
      · exact ⟨p ++ [sep], [], by simp, .inr ⟨p, rfl⟩, .inl rfl⟩
      · exact ⟨p ++ [sep], sep :: q, by simp, .inr ⟨p, rfl⟩, .inr ⟨q, rfl⟩⟩
  · rintro ⟨pre, post, rfl, hpre, hpost⟩
    rcases hpre with rfl | ⟨front, rfl⟩ <;> rcases hpost with rfl | ⟨back, rfl⟩
    · exact ⟨[], [], by simp⟩
    · exact ⟨[], back ++ [sep], by simp⟩
    · exact ⟨sep :: front, [], by simp⟩
    · exact ⟨sep :: front, back ++ [sep], by simp⟩

theorem delimited_self (sep : α) (word : List α) : Delimited sep word word :=
  ⟨[], [], by simp, .inl rfl, .inl rfl⟩

theorem Delimited.append_left (h : Delimited sep word text) (u : List α) :
    Delimited sep word (text ++ sep :: u) := by
  obtain ⟨pre, post, rfl, hpre, hpost⟩ := h
  refine ⟨pre, post ++ sep :: u, by simp, hpre, .inr ?_⟩
  rcases hpost with rfl | ⟨back, rfl⟩
  · exact ⟨u, rfl⟩
  · exact ⟨back ++ sep :: u, rfl⟩

theorem Delimited.append_right {u : List α} (h : Delimited sep word u) (text : List α) :
    Delimited sep word (text ++ sep :: u) := by
  obtain ⟨pre, post, rfl, hpre, hpost⟩ := h
  refine ⟨text ++ sep :: pre, post, by simp, .inr ?_, hpost⟩
  rcases hpre with rfl | ⟨front, rfl⟩
  · exact ⟨text, rfl⟩
  · exact ⟨text ++ sep :: front, by simp⟩

/-- A word without separators stands on one side of a separator. -/
theorem delimited_append_cons_iff (hw : sep ∉ word) {u : List α} :
    Delimited sep word (text ++ sep :: u) ↔ Delimited sep word text ∨ Delimited sep word u := by
  constructor
  · rintro ⟨pre, post, h, hpre, hpost⟩
    rw [← List.append_assoc] at h
    rcases List.append_eq_append_iff.mp h with ⟨d, hd, hu⟩ | ⟨d, rfl, rfl⟩
    · cases d with
      | nil => exact .inl ⟨pre, [], by simpa using hd.symm, hpre, .inl rfl⟩
      | cons x d =>
          obtain ⟨rfl, rfl⟩ := List.cons.inj hu
          -- The separator stands in front of the word, not in it.
          rcases List.append_eq_append_iff.mp hd with ⟨e, -, rfl⟩ | ⟨e, rfl, he⟩
          · exact absurd (List.mem_append_right e List.mem_cons_self) hw
          · cases e with
            | nil => exact absurd (by rw [List.nil_append] at he; simp [← he]) hw
            | cons y e =>
                obtain ⟨rfl, rfl⟩ := List.cons.inj he
                refine .inr ⟨e, post, by simp, ?_, hpost⟩
                rcases hpre with hnil | ⟨front, hfront⟩
                · simp at hnil
                · rcases List.eq_nil_or_concat' e with rfl | ⟨e, y, rfl⟩
                  · exact .inl rfl
                  · have heq : (text ++ sep :: e) ++ [y] = front ++ [sep] := by simpa using hfront
                    obtain ⟨-, hy⟩ := List.append_inj' heq rfl
                    exact .inr ⟨e, by rw [(List.cons.inj hy).1]⟩
    · refine .inl ⟨pre, d, by simp, hpre, ?_⟩
      cases d with
      | nil => exact .inl rfl
      | cons x d =>
          rcases hpost with hnil | ⟨back, hback⟩
          · cases hnil
          · exact .inr ⟨d, by rw [(List.cons.inj hback).1]⟩
  · rintro (h | h)
    · exact h.append_left u
    · exact h.append_right text

theorem delimited_iff_eq {u : List α} (hu : sep ∉ u) : Delimited sep word u ↔ word = u := by
  constructor
  · rintro ⟨pre, post, rfl, hpre, hpost⟩
    rcases hpre with rfl | ⟨front, rfl⟩
    · rcases hpost with rfl | ⟨back, rfl⟩
      · simp
      · simp at hu
    · simp at hu
  · rintro rfl
    exact delimited_self sep word

/-- The pieces of a text that is split hold no separator. -/
theorem not_mem_of_mem_splitOn [DecidableEq α] {piece : List α} (h : piece ∈ text.splitOn sep) :
    sep ∉ piece := by
  induction text generalizing piece with
  | nil =>
      rw [List.splitOn_nil, List.mem_singleton] at h
      rw [h]
      exact List.not_mem_nil
  | cons x text ih =>
      rw [List.splitOn_cons_eq_if_modifyHead] at h
      split at h
      · rcases List.mem_cons.mp h with rfl | h
        · exact List.not_mem_nil
        · exact ih h
      · rename_i hx
        cases hs : text.splitOn sep with
        | nil => exact absurd hs (List.splitOn_ne_nil sep text)
        | cons p ps =>
            rw [hs, List.modifyHead_cons] at h
            rcases List.mem_cons.mp h with rfl | h
            · rw [List.mem_cons, not_or]
              refine ⟨fun heq => hx (by simp [heq]), ih ?_⟩
              rw [hs]
              exact List.mem_cons_self
            · refine ih ?_
              rw [hs]
              exact List.mem_cons_of_mem _ h

/-- The first piece begins the text, and every piece is found in it. -/
theorem infix_of_mem_splitOn [DecidableEq α] {piece : List α} (h : piece ∈ text.splitOn sep) :
    piece <:+: text ∧ ((text.splitOn sep).head? = some piece → piece <+: text) := by
  induction text generalizing piece with
  | nil =>
      rw [List.splitOn_nil, List.mem_singleton] at h
      subst h
      exact ⟨List.nil_infix, fun _ => List.nil_prefix⟩
  | cons x text ih =>
      have hcons : ∀ {u}, u ∈ text.splitOn sep → u <:+: x :: text := fun hu =>
        (ih hu).1.trans (List.suffix_cons x text).isInfix
      rw [List.splitOn_cons_eq_if_modifyHead] at h ⊢
      split at h
      · rename_i hx
        rw [if_pos hx]
        rcases List.mem_cons.mp h with rfl | h
        · exact ⟨List.nil_infix, fun _ => List.nil_prefix⟩
        · refine ⟨hcons h, fun hhead => ?_⟩
          obtain rfl := Option.some.inj hhead
          exact List.nil_prefix
      · rename_i hx
        rw [if_neg hx]
        cases hs : text.splitOn sep with
        | nil => exact absurd hs (List.splitOn_ne_nil sep text)
        | cons first pieces =>
            have hfirst : x :: first <+: x :: text :=
              List.cons_prefix_cons.mpr ⟨rfl, (ih (by simp [hs])).2 (by simp [hs])⟩
            rw [hs, List.modifyHead_cons] at h
            rcases List.mem_cons.mp h with rfl | h
            · exact ⟨hfirst.isInfix, fun _ => hfirst⟩
            · refine ⟨hcons (by simp [hs, h]), fun hhead => ?_⟩
              obtain rfl := Option.some.inj hhead
              exact hfirst

/-- The pieces of a text with another one behind it: the last piece goes on. -/
theorem exists_splitOn_append [DecidableEq α] (sep : α) (s : List α) :
    ∃ pieces last, ∀ t, (s ++ t).splitOn sep = pieces ++ (t.splitOn sep).modifyHead (last ++ ·) := by
  induction s with
  | nil =>
      refine ⟨[], [], fun t => ?_⟩
      cases ht : t.splitOn sep with
      | nil => simp [ht]
      | cons piece pieces => simp [ht]
  | cons x s ih =>
      obtain ⟨pieces, last, happend⟩ := ih
      by_cases hx : x = sep
      · refine ⟨[] :: pieces, last, fun t => ?_⟩
        rw [List.cons_append, List.splitOn_cons_eq_if_modifyHead, if_pos (by simp [hx]), happend]
        rfl
      · cases pieces with
        | nil =>
            refine ⟨[], x :: last, fun t => ?_⟩
            rw [List.cons_append, List.splitOn_cons_eq_if_modifyHead, if_neg (by simp [hx]), happend]
            cases t.splitOn sep with
            | nil => rfl
            | cons piece pieces => rfl
        | cons piece pieces =>
            refine ⟨(x :: piece) :: pieces, last, fun t => ?_⟩
            rw [List.cons_append, List.splitOn_cons_eq_if_modifyHead, if_neg (by simp [hx]), happend]
            rfl

theorem splitOn_append_of_not_mem [DecidableEq α] {t : List α} (h : sep ∉ t) (q : List α) :
    (t ++ q).splitOn sep = (q.splitOn sep).modifyHead (t ++ ·) := by
  induction t with
  | nil => cases hq : q.splitOn sep <;> simp [hq]
  | cons x t ih =>
      rw [List.mem_cons, not_or] at h
      rw [List.cons_append, List.splitOn_cons_eq_if_modifyHead, if_neg (by simpa using Ne.symm h.1),
        ih h.2]
      cases q.splitOn sep with
      | nil => rfl
      | cons piece pieces => rfl

/-- **A text in a line**: whatever stands between `p` and `q` without a separator is in one piece, and
the pieces before and after it do not change. -/
theorem exists_splitOn_middle [DecidableEq α] (sep : α) (p q : List α) :
    ∃ before front back after, (∀ piece ∈ before ++ [front], piece <:+: p) ∧
      (∀ piece ∈ back :: after, piece <:+: q) ∧
      ∀ t, sep ∉ t → (p ++ (t ++ q)).splitOn sep = before ++ (front ++ (t ++ back)) :: after := by
  obtain ⟨before, front, happend⟩ := exists_splitOn_append sep p
  cases hq : q.splitOn sep with
  | nil => exact absurd hq (List.splitOn_ne_nil sep q)
  | cons back after =>
      have hp : p.splitOn sep = before ++ [front] := by simpa using happend []
      refine ⟨before, front, back, after, fun piece h => ?_, fun piece h => ?_, fun t ht => ?_⟩
      · exact (infix_of_mem_splitOn (hp ▸ h)).1
      · exact (infix_of_mem_splitOn (hq ▸ h)).1
      · rw [happend, splitOn_append_of_not_mem ht, hq, List.modifyHead_cons, List.modifyHead_cons]

/-! ### Adding words -/

section

variable [DecidableEq α]

instance (sep : α) (word text : List α) : Decidable (Delimited sep word text) :=
  decidable_of_iff _ infix_iff_delimited

/-- The text, with the word added behind a separator unless it is there. -/
def addWord (sep : α) (text word : List α) : List α :=
  if Delimited sep word text then text else text ++ sep :: word

/-- The words added one after the other. -/
def addWords (sep : α) (text : List α) (words : List (List α)) : List α :=
  words.foldl (addWord sep) text

theorem addWords_cons (text word : List α) (words : List (List α)) :
    addWords sep text (word :: words) = addWords sep (addWord sep text word) words := rfl

theorem delimited_addWord_iff {u : List α} (hw : sep ∉ word) (hu : sep ∉ u) (hne : word ≠ u) :
    Delimited sep word (addWord sep text u) ↔ Delimited sep word text := by
  rw [addWord]
  split
  · rfl
  · rw [delimited_append_cons_iff hw, delimited_iff_eq hu]
    simp [hne]

theorem delimited_addWord (sep : α) (text word : List α) :
    Delimited sep word (addWord sep text word) := by
  rw [addWord]
  split
  · assumption
  · exact (delimited_self sep word).append_right text

/-- **What is added**: behind a separator each, the words that were not there, in their order. -/
theorem addWords_eq {words : List (List α)} (hsep : ∀ w ∈ words, sep ∉ w) (hnodup : words.Nodup) :
    addWords sep text words =
      text ++ (words.filter fun w => ¬ Delimited sep w text).flatMap (sep :: ·) := by
  induction words generalizing text with
  | nil => simp [addWords]
  | cons w words ih =>
      obtain ⟨hw, hnodup⟩ := List.nodup_cons.mp hnodup
      have hsep' : ∀ u ∈ words, sep ∉ u := fun u hu => hsep u (List.mem_cons_of_mem _ hu)
      have hfilter : (words.filter fun u => ¬ Delimited sep u (addWord sep text w)) =
          words.filter fun u => ¬ Delimited sep u text := by
        refine List.filter_congr fun u hu => ?_
        simp only [delimited_addWord_iff (hsep' u hu) (hsep w List.mem_cons_self)
          fun h => hw (h ▸ hu)]
      rw [addWords_cons, ih hsep' hnodup, hfilter, List.filter_cons, addWord]
      by_cases hd : Delimited sep w text
      · simp [hd]
      · simp [hd]

/-- A word that is there stays where it is. -/
theorem Delimited.addWords (h : Delimited sep word text) (words : List (List α)) :
    Delimited sep word (Words.addWords sep text words) := by
  induction words generalizing text with
  | nil => exact h
  | cons w words ih =>
      rw [addWords_cons]
      refine ih ?_
      rw [addWord]
      split
      · exact h
      · exact h.append_left w

theorem delimited_of_mem_addWords {words : List (List α)} (hw : word ∈ words) (text : List α) :
    Delimited sep word (addWords sep text words) := by
  induction words generalizing text with
  | nil => cases hw
  | cons w words ih =>
      rw [addWords_cons]
      rcases List.mem_cons.mp hw with rfl | hw
      · exact (delimited_addWord sep text word).addWords words
      · exact ih hw _

/-- The text ends as it did, or as one of the words. -/
theorem getLast?_addWords {words : List (List α)} (hne : ∀ w ∈ words, w ≠ []) {c : α}
    (h : (addWords sep text words).getLast? = some c) :
    text.getLast? = some c ∨ ∃ w ∈ words, w.getLast? = some c := by
  induction words generalizing text with
  | nil => exact .inl h
  | cons w words ih =>
      rw [addWords_cons] at h
      rcases ih (fun u hu => hne u (List.mem_cons_of_mem _ hu)) h with h | ⟨u, hu, h⟩
      · rw [addWord] at h
        split at h
        · exact .inl h
        · obtain ⟨x, w', rfl⟩ := List.exists_cons_of_ne_nil (hne w List.mem_cons_self)
          rw [List.getLast?_append_cons, List.getLast?_cons_cons] at h
          exact .inr ⟨x :: w', List.mem_cons_self, h⟩
      · exact .inr ⟨u, List.mem_cons_of_mem _ hu, h⟩

theorem addWords_eq_self {words : List (List α)} (h : ∀ w ∈ words, Delimited sep w text) :
    addWords sep text words = text := by
  induction words with
  | nil => rfl
  | cons w words ih =>
      rw [addWords_cons, addWord, if_pos (h w List.mem_cons_self),
        ih fun u hu => h u (List.mem_cons_of_mem _ hu)]

end

end TalosP2P.Words
