import TalosP2P.Support.Kconfig
import TalosP2P.Support.Replace
import TalosP2P.Support.Words

/-!
# Support — KconfigEdit

An edit of a `.config` as text: the first place where one assignment is spelt is overwritten with
another.  Kconfig reads lines and keeps the last assignment; the edit finds what is spelt in a
comment, in another symbol's name or value, or on a line that a later one overrides, just as well.

* `mem_lines_edited`: the one line the edit changes.
* `setBy_edited_key`, `setBy_edited_other`: what that line sets before and after.
* `sets_iff_sound`: the texts on which the edit sets the symbol and nothing else.
-/

namespace TalosP2P.Kconfig

open Python Replace Words

/-- A value as Kconfig writes it. -/
def quote (value : Text) : Text := '"' :: (value ++ ['"'])

/-- A value that is written without a backslash. -/
def Plain (value : Text) : Prop := ∀ c ∈ value, c ≠ '"' ∧ c ≠ '\\'

instance (value : Text) : Decidable (Plain value) :=
  List.decidableBAll (fun c => c ≠ '"' ∧ c ≠ '\\') value

/-- A symbol, the value whose assignment is overwritten, and the value that is put in its place. -/
structure Edit where
  key : Text
  oldValue : Text
  newValue : Text
  key_solid : '=' ∉ key
  plain : Plain (key ++ (oldValue ++ newValue))
  ne : oldValue ≠ newValue
  /-- None of them holds what every assignment begins with. -/
  mark : 'C' ∉ key ++ (oldValue ++ newValue)
  /-- The assignments stand in one line. -/
  line : '\n' ∉ key ++ (oldValue ++ newValue) ∧ '\r' ∉ key ++ (oldValue ++ newValue)

namespace Edit

variable (e : Edit)

/-- The assignment that is looked for. -/
def old : Text := assignLine e.key (quote e.oldValue)

/-- The assignment that is put in its place. -/
def new : Text := assignLine e.key (quote e.newValue)

/-- The edited text. -/
def edited (text : Text) : Text := if e.old <:+: text then replaceFirst e.old e.new text else text

/-- What the edit is for: the symbol has the new value, every other symbol the value it had, and a
second edit changes nothing. -/
structure Sets (text : Text) : Prop where
  value : effective (e.edited text) e.key = some e.newValue
  others : ∀ sym, sym ≠ e.key → effective (e.edited text) sym = effective text sym
  again : e.edited (e.edited text) = e.edited text

/-- The assignment is spelt behind the first quote of a value, where it is not read. -/
def Hidden (raw : Text) : Prop := ∃ r, raw = '"' :: r ∧ e.old <:+: r

/-- A value that is the new one, or the old one, which the edit overwrites. -/
def Ready (raw : Text) : Prop := quote e.oldValue <+: raw ∨ readValue raw = e.newValue

/-- The texts the edit is right for: the old assignment is spelt once at most, the last assignment
of the symbol is the old one or sets the new value, and the old one is not spelt in what another
symbol's last assignment sets. -/
structure Sound (text : Text) : Prop where
  once : ¬ OccursTwice e.old text
  last : ∃ raw, lastAssignment (lines text) e.key = some raw ∧ e.Ready raw
  others : ∀ sym raw, sym ≠ e.key → lastAssignment (lines text) sym = some raw →
    e.old <:+: assignLine sym raw → e.Hidden raw

/-! ### Spelling -/

variable {e}

theorem assignLine_append (sym raw back : Text) :
    assignLine sym raw ++ back = assignLine sym (raw ++ back) := by
  simp [assignLine]

theorem exists_assignLine_eq {key value : Text} (hkey : 'C' ∉ key) (hvalue : 'C' ∉ value) :
    ∃ t, assignLine key (quote value) = 'C' :: t ∧ 'C' ∉ t := by
  refine ⟨"ONFIG_".toList ++ (key ++ '=' :: quote value), rfl, ?_⟩
  simp [quote, hkey, hvalue]

theorem exists_old_eq (e : Edit) : ∃ t, e.old = 'C' :: t ∧ 'C' ∉ t :=
  exists_assignLine_eq (fun h => e.mark (by simp [h])) fun h => e.mark (by simp [h])

theorem exists_new_eq (e : Edit) : ∃ t, e.new = 'C' :: t ∧ 'C' ∉ t :=
  exists_assignLine_eq (fun h => e.mark (by simp [h])) fun h => e.mark (by simp [h])

theorem old_ne_new (e : Edit) : e.old ≠ e.new := fun h => by
  have hquote : e.oldValue ++ ['"'] = e.newValue ++ ['"'] := by
    have := List.append_cancel_left (List.append_cancel_left h)
    simpa [quote] using this
  exact e.ne (List.append_cancel_right hquote)

theorem old_ne_nil (e : Edit) : e.old ≠ [] := by
  obtain ⟨t, h, -⟩ := exists_old_eq e
  rw [h]
  exact List.cons_ne_nil _ _

theorem not_mem_assignLine {c : Char} {key value : Text} (hc : c ∉ config ++ ['=', '"'])
    (hkey : c ∉ key) (hvalue : c ∉ value) : c ∉ assignLine key (quote value) := by
  simp only [List.mem_append, List.mem_cons, not_or] at hc
  simp [assignLine, quote, hc, hkey, hvalue]

theorem old_line (e : Edit) : '\n' ∉ e.old ∧ '\r' ∉ e.old := by
  have h := e.line
  simp only [List.mem_append, not_or] at h
  exact ⟨not_mem_assignLine (by decide) h.1.1 h.1.2.1, not_mem_assignLine (by decide) h.2.1 h.2.2.1⟩

theorem new_line (e : Edit) : '\n' ∉ e.new ∧ '\r' ∉ e.new := by
  have h := e.line
  simp only [List.mem_append, not_or] at h
  exact ⟨not_mem_assignLine (by decide) h.1.1 h.1.2.2, not_mem_assignLine (by decide) h.2.1 h.2.2.2⟩

theorem old_plain (e : Edit) : Plain e.oldValue := fun c h => e.plain c (by simp [h])

theorem new_plain (e : Edit) : Plain e.newValue := fun c h => e.plain c (by simp [h])

/-! ### What a value holds -/

theorem readValue_quote {value : Text} (h : Plain value) (back : Text) :
    readValue (quote value ++ back) = value := by
  have hquoted : quoted (value ++ '"' :: back) = some value := quoted_of_plain h back
  simp [quote, readValue, hquoted]

theorem readValue_of_head {raw : Text} (h : raw.head? ≠ some '"') : readValue raw = raw := by
  cases raw with
  | nil => rfl
  | cons c raw =>
      rw [readValue]
      intro s hs
      obtain ⟨rfl, -⟩ := List.cons.inj hs
      simp at h

/-- What stands behind the first quote of a value is not read. -/
theorem readValue_hidden (e : Edit) (r back : Text) :
    readValue ('"' :: r ++ (e.new ++ back)) = readValue ('"' :: r ++ (e.old ++ back)) := by
  have hconfig : Plain (config ++ ['=']) := by decide
  have hstem : Plain (config ++ (e.key ++ ['='])) := fun c hc => by
    rcases List.mem_append.mp hc with h | h
    · exact hconfig c (List.mem_append_left _ h)
    · rcases List.mem_append.mp h with h | h
      · exact e.plain c (List.mem_append_left _ h)
      · exact hconfig c (List.mem_append_right _ h)
  obtain ⟨value, hvalue⟩ := exists_quoted (by simp) hstem r
  have hread : ∀ v, quoted (r ++ (assignLine e.key (quote v) ++ back)) = some value := fun v => by
    have := hvalue (v ++ '"' :: back)
    simpa [assignLine, quote] using this
  simp [readValue, old, new, hread]

/-! ### The edited line -/

/-- What a line that holds an assignment sets a symbol to: nothing, the assigned value, or a value
in which the assignment is spelt. -/
theorem setBy_cases {key : Text} (hkey : '=' ∉ key) (sym front back : Text) :
    (∀ v, setBy sym (front ++ (assignLine key (quote v) ++ back)) = none) ∨
    ((front = [] ↔ sym = key) ∧
      ∀ v, setBy sym (front ++ (assignLine key (quote v) ++ back)) = some (quote v ++ back)) ∨
    ∃ r, front = assignLine sym r ∧ ∀ v, setBy sym (front ++ (assignLine key (quote v) ++ back)) =
      some (r ++ (assignLine key (quote v) ++ back)) := by
  rcases front_cases front with rfl | hnone | ⟨n, hn, rfl⟩ | ⟨sym', r, hsym', rfl⟩
  · have hline : ∀ v, [] ++ (assignLine key (quote v) ++ back) = assignLine key (quote v ++ back) :=
      fun v => assignLine_append key (quote v) back
    by_cases heq : sym = key
    · exact .inr (.inl ⟨by simp [heq], fun v => setBy_eq_some_iff.mpr ⟨heq ▸ hline v, heq ▸ hkey⟩⟩)
    · exact .inl fun v => by rw [hline, setBy_eq_none hkey heq]
  · exact .inl fun v => by rw [assignLine_append, setBy, hnone, Option.bind_none]
  · -- The name the line sets goes on behind what stands in front of the assignment.
    have hline : ∀ v, config ++ n ++ (assignLine key (quote v) ++ back) =
        assignLine (n ++ (config ++ key)) (quote v ++ back) := fun v => by simp [assignLine]
    have hname : '=' ∉ n ++ (config ++ key) := by
      have hconfig : '=' ∉ config := by decide
      simp [hn, hkey, hconfig]
    by_cases heq : sym = n ++ (config ++ key)
    · refine .inr (.inl ⟨?_, fun v => setBy_eq_some_iff.mpr ⟨heq ▸ hline v, heq ▸ hname⟩⟩)
      have hfront : config ++ n ≠ [] := fun h => absurd (List.append_eq_nil_iff.mp h).1 (by decide)
      have hlen : sym ≠ key := fun h => by
        have hlength := congrArg List.length (heq.symm.trans h)
        have hconfig : config.length = 7 := by decide
        simp only [List.length_append] at hlength
        omega
      exact iff_of_false hfront hlen
    · exact .inl fun v => by rw [hline, setBy_eq_none hname heq]
  · have hline : ∀ v, assignLine sym' r ++ (assignLine key (quote v) ++ back) =
        assignLine sym' (r ++ (assignLine key (quote v) ++ back)) := fun v =>
      assignLine_append sym' r _
    by_cases heq : sym = sym'
    · subst heq
      exact .inr (.inr ⟨r, rfl, fun v => setBy_eq_some_iff.mpr ⟨hline v, hsym'⟩⟩)
    · exact .inl fun v => by rw [hline, setBy_eq_none hsym' heq]

/-- The line sets a symbol after the edit when it did before. -/
theorem setBy_edited_eq_none_iff (e : Edit) (sym front back : Text) :
    setBy sym (front ++ (e.new ++ back)) = none ↔ setBy sym (front ++ (e.old ++ back)) = none := by
  rw [old, new]
  rcases setBy_cases e.key_solid sym front back with hset | ⟨-, hset⟩ | ⟨r, -, hset⟩
  · rw [hset, hset]
  · rw [hset, hset]
    simp
  · rw [hset, hset]
    simp

theorem exists_setBy_edited {sym front back raw : Text}
    (h : setBy sym (front ++ (e.old ++ back)) = some raw) :
    ∃ raw', setBy sym (front ++ (e.new ++ back)) = some raw' := by
  refine Option.ne_none_iff_exists'.mp fun hnone => ?_
  rw [(setBy_edited_eq_none_iff e sym front back).mp hnone] at h
  cases h

/-- A value in which the assignment is spelt is read as before, if it begins with a quote, and as
another one, which is not the new value, if it does not. -/
theorem readValue_spelt (e : Edit) (r back : Text) :
    (∃ r', r = '"' :: r' ∧ readValue (r ++ (e.new ++ back)) = readValue (r ++ (e.old ++ back))) ∨
    ((r ++ (e.old ++ back)).head? ≠ some '"' ∧
      readValue (r ++ (e.new ++ back)) ≠ readValue (r ++ (e.old ++ back)) ∧
      readValue (r ++ (e.new ++ back)) ≠ e.newValue ∧ readValue (r ++ (e.old ++ back)) ≠ e.newValue) := by
  by_cases hr : r.head? = some '"'
  · obtain ⟨r', rfl⟩ : ∃ r', r = '"' :: r' := ⟨r.tail, (List.cons_head?_tail hr).symm⟩
    exact .inl ⟨r', rfl, readValue_hidden e r' back⟩
  · have hhead : ∀ v, (r ++ (assignLine e.key (quote v) ++ back)).head? ≠ some '"' := fun v => by
      cases r with
      | nil =>
          obtain ⟨t, ht⟩ : ∃ t, assignLine e.key (quote v) = 'C' :: t := ⟨_, rfl⟩
          simp [ht]
      | cons c r => exact hr
    have hvalue : ∀ v, r ++ (assignLine e.key (quote v) ++ back) ≠ e.newValue := fun v h => by
      refine (new_plain e '"' ?_).1 rfl
      rw [← h]
      simp [assignLine, quote]
    refine .inr ⟨hhead _, ?_, ?_, ?_⟩
    · rw [old, new, readValue_of_head (hhead _), readValue_of_head (hhead _)]
      exact fun h => old_ne_new e (List.append_cancel_right (List.append_cancel_left h)).symm
    · rw [new, readValue_of_head (hhead _)]
      exact hvalue _
    · rw [old, readValue_of_head (hhead _)]
      exact hvalue _

/-- What the edited line sets the symbol to. -/
theorem setBy_edited_key (e : Edit) {front : Text} (hfront : ¬ e.old <:+: front) (back : Text) :
    (setBy e.key (front ++ (e.new ++ back))).map readValue = some e.newValue ↔
      ∃ raw, setBy e.key (front ++ (e.old ++ back)) = some raw ∧ e.Ready raw := by
  rcases setBy_cases e.key_solid e.key front back with hset | ⟨-, hset⟩ | ⟨r, rfl, hset⟩
  · rw [old, new, hset, hset]
    simp
  · rw [old, new, hset, hset]
    simp [readValue_quote (new_plain e), Ready]
  · have hquote : ¬ quote e.oldValue <+: r ++ (e.old ++ back) := by
      -- The assignment would stand at the beginning of the line, and so in front of itself.
      rintro ⟨d, hd⟩
      obtain ⟨t, hold, ht⟩ := exists_old_eq e
      refine hfront (List.IsPrefix.isInfix ?_)
      have hprefix : e.old <+: assignLine e.key r ++ (e.old ++ back) :=
        ⟨d, by rw [assignLine_append, ← hd, ← assignLine_append, old]⟩
      rw [hold] at hprefix ⊢
      exact prefix_of_prefix_append ht (List.append_ne_nil_of_left_ne_nil (by decide) _) hprefix
    have hold := hset e.oldValue
    have hnew := hset e.newValue
    rw [← old] at hold
    rw [← new] at hnew
    rw [hold, hnew]
    rcases readValue_spelt e r back with ⟨-, -, hread⟩ | ⟨-, -, hnewValue, holdValue⟩
    · simp [Ready, hquote, hread]
    · simp [Ready, hquote, hnewValue, holdValue]

/-- What the edited line sets another symbol to. -/
theorem setBy_edited_other (e : Edit) {back : Text} (hback : ¬ e.old <:+: back) (sym front : Text) :
    (setBy sym (front ++ (e.new ++ back))).map readValue =
        (setBy sym (front ++ (e.old ++ back))).map readValue ↔
      ∀ raw, setBy sym (front ++ (e.old ++ back)) = some raw → e.Hidden raw := by
  rcases setBy_cases e.key_solid sym front back with hset | ⟨-, hset⟩ | ⟨r, rfl, hset⟩
  · rw [old, new, hset, hset]
    simp
  · have hhidden : ¬ e.Hidden (quote e.oldValue ++ back) := by
      rintro ⟨r, hr, hin⟩
      obtain ⟨t, hold, ht⟩ := exists_old_eq e
      rw [quote, List.cons_append] at hr
      rw [← (List.cons.inj hr).2, hold] at hin
      rw [hold] at hback
      refine hback (infix_of_infix_append ?_ hin)
      have := e.mark
      simp_all
    rw [old, new, hset, hset]
    simp [readValue_quote (new_plain e), readValue_quote (old_plain e), e.ne.symm, hhidden]
  · have hold := hset e.oldValue
    have hnew := hset e.newValue
    rw [← old] at hold
    rw [← new] at hnew
    rw [hold, hnew]
    rcases readValue_spelt e r back with ⟨r', rfl, hread⟩ | ⟨hhead, hread, -⟩
    · have hhidden : e.Hidden ('"' :: r' ++ (e.old ++ back)) :=
        ⟨r' ++ (e.old ++ back), rfl, r', back, by simp⟩
      rw [Option.map_some, Option.map_some, hread]
      exact iff_of_true rfl fun raw hraw => Option.some.inj hraw ▸ hhidden
    · have hhidden : ¬ e.Hidden (r ++ (e.old ++ back)) := by
        rintro ⟨r', hr', -⟩
        exact hhead (by rw [hr']; rfl)
      simp [hread, hhidden]

/-! ### The edited lines -/

section

variable {before after : List Text}

theorem not_infix_lastAssignment {ls : List Text} {sym raw : Text} (h : ∀ line ∈ ls, ¬ e.old <:+: line)
    (hlast : lastAssignment ls sym = some raw) : ¬ e.old <:+: assignLine sym raw :=
  h _ (exists_of_lastAssignment hlast)

/-- Where the old assignment is not spelt, the new value has to stand already. -/
theorem ready_iff {ls : List Text} {raw : Text} (h : ∀ line ∈ ls, ¬ e.old <:+: line)
    (hlast : lastAssignment ls e.key = some raw) : e.Ready raw ↔ readValue raw = e.newValue := by
  refine or_iff_right fun hquote => not_infix_lastAssignment h hlast ?_
  obtain ⟨d, rfl⟩ := hquote
  exact ⟨[], d, assignLine_append e.key _ d⟩

theorem lastAssignment_edited_key (hbefore : ∀ line ∈ before, ¬ e.old <:+: line)
    (hafter : ∀ line ∈ after, ¬ e.old <:+: line) {front : Text} (hfront : ¬ e.old <:+: front)
    (back : Text) :
    (lastAssignment (before ++ (front ++ (e.new ++ back)) :: after) e.key).map readValue =
        some e.newValue ↔
      ∃ raw, lastAssignment (before ++ (front ++ (e.old ++ back)) :: after) e.key = some raw ∧
        e.Ready raw := by
  rw [lastAssignment_append_cons, lastAssignment_append_cons]
  cases ha : lastAssignment after e.key with
  | some raw => simp [ready_iff hafter ha]
  | none =>
      have hnone := setBy_edited_eq_none_iff e e.key front back
      have hkey := setBy_edited_key e hfront back
      cases hold : setBy e.key (front ++ (e.old ++ back)) with
      | some raw =>
          obtain ⟨raw', hnew⟩ := exists_setBy_edited hold
          rw [hold, hnew] at hkey
          simpa [hold, hnew] using hkey
      | none =>
          rw [hnone.mpr hold]
          cases hb : lastAssignment before e.key with
          | some raw => simp [ready_iff hbefore hb]
          | none => simp

theorem lastAssignment_edited_other (hbefore : ∀ line ∈ before, ¬ e.old <:+: line)
    (hafter : ∀ line ∈ after, ¬ e.old <:+: line) {back : Text} (hback : ¬ e.old <:+: back)
    (front sym : Text) :
    (lastAssignment (before ++ (front ++ (e.new ++ back)) :: after) sym).map readValue =
        (lastAssignment (before ++ (front ++ (e.old ++ back)) :: after) sym).map readValue ↔
      ∀ raw, lastAssignment (before ++ (front ++ (e.old ++ back)) :: after) sym = some raw →
        e.old <:+: assignLine sym raw → e.Hidden raw := by
  rw [lastAssignment_append_cons, lastAssignment_append_cons]
  cases ha : lastAssignment after sym with
  | some raw => simp [not_infix_lastAssignment hafter ha]
  | none =>
      have hnone := setBy_edited_eq_none_iff e sym front back
      have hother := setBy_edited_other e hback sym front
      cases hold : setBy sym (front ++ (e.old ++ back)) with
      | some raw =>
          obtain ⟨raw', hnew⟩ := exists_setBy_edited hold
          have hin : e.old <:+: assignLine sym raw := by
            rw [← (setBy_eq_some_iff.mp hold).1]
            exact ⟨front, back, by simp⟩
          rw [hold, hnew] at hother
          simpa [hold, hnew, hin] using hother
      | none =>
          rw [hnone.mpr hold]
          cases hb : lastAssignment before sym with
          | some raw => simp [not_infix_lastAssignment hbefore hb]
          | none => simp

end

/-! ### The edited text -/

variable {text : Text}

theorem lines_eq (h : '\r' ∉ text) : lines text = text.splitOn '\n' := by
  rw [lines, dropReturns_eq_self h]

theorem not_mem_edited (h : '\r' ∉ text) : '\r' ∉ e.edited text := by
  rw [edited]
  split
  · rename_i hin
    obtain ⟨p, q, hcut⟩ := exists_firstCut (old_ne_nil e) hin
    rw [replaceFirst_of_firstCut (old_ne_nil e) hcut]
    rw [hcut.eq] at h
    simp only [List.mem_append, not_or] at h ⊢
    exact ⟨h.1, (new_line e).2, h.2.2⟩
  · exact h

theorem edited_of_firstCut {p q : Text} (hcut : FirstCut e.old p q text) :
    e.edited text = p ++ (e.new ++ q) := by
  rw [edited, if_pos ⟨p, q, by rw [hcut.eq]; simp⟩, replaceFirst_of_firstCut (old_ne_nil e) hcut]

theorem edited_eq_self_iff : e.edited text = text ↔ ¬ e.old <:+: text := by
  constructor
  · intro h hin
    obtain ⟨p, q, hcut⟩ := exists_firstCut (old_ne_nil e) hin
    rw [edited_of_firstCut hcut] at h
    exact old_ne_new e (List.append_cancel_right (List.append_cancel_left (h.trans hcut.eq))).symm
  · exact fun hin => if_neg hin

theorem not_old_prefix (e : Edit) (q : Text) : ¬ e.old <+: e.new ++ q := by
  rintro ⟨d, hd⟩
  rw [old, new, assignLine_append, assignLine_append] at hd
  have hraw : quote e.oldValue ++ d = quote e.newValue ++ q :=
    (List.cons.inj (List.append_cancel_left (List.append_cancel_left hd))).2
  have hread := congrArg readValue hraw
  rw [readValue_quote (old_plain e), readValue_quote (new_plain e)] at hread
  exact e.ne hread

/-- A second edit changes nothing when the old assignment is spelt only once. -/
theorem edited_edited_iff {p q : Text} (hcut : FirstCut e.old p q text) :
    e.edited (e.edited text) = e.edited text ↔ ¬ OccursTwice e.old text := by
  obtain ⟨t, hold, ht⟩ := exists_old_eq e
  obtain ⟨u, hnew, hu⟩ := exists_new_eq e
  have hp := hcut.not_infix
  have hq := not_old_prefix e q
  rw [edited_eq_self_iff, occursTwice_iff hcut, edited_of_firstCut hcut]
  rw [hold] at hp hq ⊢
  rw [hnew] at hq ⊢
  rw [infix_append_iff ht hu]
  tauto

/-- The line the edit changes, and those around it. -/
theorem exists_lines_edited {p q : Text} (h : '\r' ∉ text) (hcut : FirstCut e.old p q text) :
    ∃ before front back after, (∀ line ∈ before ++ [front], ¬ e.old <:+: line) ∧
      (∀ line ∈ back :: after, line <:+: q) ∧
      lines text = before ++ (front ++ (e.old ++ back)) :: after ∧
      lines (e.edited text) = before ++ (front ++ (e.new ++ back)) :: after := by
  obtain ⟨before, front, back, after, hbefore, hafter, hsplit⟩ := exists_splitOn_middle '\n' p q
  refine ⟨before, front, back, after, fun line hline hin => ?_, hafter, ?_, ?_⟩
  · exact hcut.not_infix (hin.trans (hbefore line hline))
  · rw [lines_eq h, hcut.eq, hsplit _ (old_line e).1]
  · rw [lines_eq (not_mem_edited h), edited_of_firstCut hcut, hsplit _ (new_line e).1]

theorem sets_iff_sound_of_infix (h : '\r' ∉ text) (hin : e.old <:+: text) :
    e.Sets text ↔ e.Sound text := by
  obtain ⟨p, q, hcut⟩ := exists_firstCut (old_ne_nil e) hin
  by_cases hq : e.old <:+: q
  · have htwice := (occursTwice_iff hcut).mpr hq
    exact ⟨fun hsets => absurd htwice ((edited_edited_iff hcut).mp hsets.again),
      fun hsound => absurd htwice hsound.once⟩
  · obtain ⟨before, front, back, after, hp, hback, hold, hnew⟩ := exists_lines_edited h hcut
    have hbefore : ∀ line ∈ before, ¬ e.old <:+: line := fun line hline =>
      hp line (List.mem_append_left _ hline)
    have hafter : ∀ line ∈ after, ¬ e.old <:+: line := fun line hline hin =>
      hq (hin.trans (hback line (List.mem_cons_of_mem _ hline)))
    have hvalue := lastAssignment_edited_key hbefore hafter (hp front (by simp)) back
    have hothers := lastAssignment_edited_other hbefore hafter
      (fun hin => hq (hin.trans (hback back (by simp)))) front
    rw [← hold, ← hnew] at hvalue
    simp only [← hold, ← hnew] at hothers
    have honce := edited_edited_iff hcut
    exact ⟨fun hsets => ⟨honce.mp hsets.again, hvalue.mp hsets.value, fun sym raw hne =>
        (hothers sym).mp (hsets.others sym hne) raw⟩,
      fun hsound => ⟨hvalue.mpr hsound.last, fun sym hne => (hothers sym).mpr fun raw =>
        hsound.others sym raw hne, honce.mpr hsound.once⟩⟩

theorem sets_iff_sound_of_not_infix (h : '\r' ∉ text) (hin : ¬ e.old <:+: text) :
    e.Sets text ↔ e.Sound text := by
  have hlines : ∀ line ∈ lines text, ¬ e.old <:+: line := fun line hline hold => by
    rw [lines_eq h] at hline
    exact hin (hold.trans (infix_of_mem_splitOn hline).1)
  have hself := edited_eq_self_iff.mpr hin
  constructor
  · intro hsets
    have hvalue := hsets.value
    rw [hself, effective, Option.map_eq_some_iff] at hvalue
    obtain ⟨raw, hlast, hread⟩ := hvalue
    refine ⟨?_, ⟨raw, hlast, .inr hread⟩, fun sym raw _ hlast hspelt => ?_⟩
    · rintro ⟨p, m, q, rfl⟩
      exact hin ⟨p, m ++ (e.old ++ q), by simp⟩
    · exact absurd hspelt (not_infix_lastAssignment hlines hlast)
  · rintro ⟨-, ⟨raw, hlast, hready⟩, -⟩
    refine ⟨?_, fun sym _ => by rw [hself], by rw [hself, hself]⟩
    rw [hself, effective, hlast, Option.map_some, (ready_iff hlines hlast).mp hready]

/-- **The edit** sets the symbol, and nothing else, exactly on the texts it is right for. -/
theorem sets_iff_sound (h : '\r' ∉ text) : e.Sets text ↔ e.Sound text := by
  by_cases hin : e.old <:+: text
  · exact sets_iff_sound_of_infix h hin
  · exact sets_iff_sound_of_not_infix h hin

end Edit

end TalosP2P.Kconfig
