import TalosP2P.Support.Utf8

/-!
# Support — Utf8Ignore

`bytes.decode("utf-8", errors="ignore")`.  The decoder skips the bytes that begin no character: a
first byte with the continuation bytes it takes before it finds that it can take no more.

A byte of ASCII is never skipped and continues nothing, so the bytes are decoded apart on its two
sides.

* `decodeIgnore_append`: cut at a byte of ASCII.
* `infix_decodeIgnore_iff`: where a text of ASCII is read.
-/

namespace TalosP2P.Python

/-- The number of continuation bytes a first byte asks for; none where it is no first byte. -/
def continuations (b : UInt8) : Option Nat :=
  if b < 0x80 then some 0
  else if b < 0xc2 then none
  else if b < 0xe0 then some 1
  else if b < 0xf0 then some 2
  else if b < 0xf5 then some 3
  else none

def isContinuation (c : UInt8) : Bool := 0x80 ≤ c && c < 0xc0

/-- Whether `c` may follow the first byte `b`: no overlong form, no surrogate, nothing above
`U+10FFFF`. -/
def follows (b c : UInt8) : Bool :=
  isContinuation c && (b != 0xe0 || 0xa0 ≤ c) && (b != 0xed || c < 0xa0) &&
    (b != 0xf0 || 0x90 ≤ c) && (b != 0xf4 || c < 0x90)

/-- The continuation bytes the decoder takes for a first byte that asks for `n`. -/
def taken (b : UInt8) : Nat → Bytes → Bytes
  | 0, _ | _ + 1, [] => []
  | n + 1, c :: s => if follows b c then c :: (s.take n).takeWhile isContinuation else []

/-- The character of a first byte and its continuation bytes. -/
def codePoint (b : UInt8) (s : Bytes) : Char :=
  let lead := match s.length with
    | 0 => b.toNat
    | 1 => b.toNat % 0x20
    | 2 => b.toNat % 0x10
    | _ => b.toNat % 0x08
  Char.ofNat (s.foldl (fun n c => 64 * n + c.toNat % 64) lead)

theorem length_taken_le (b : UInt8) (n : Nat) (s : Bytes) : (taken b n s).length ≤ s.length := by
  cases n with
  | zero => exact Nat.zero_le _
  | succ n =>
      cases s with
      | nil => exact Nat.le_refl 0
      | cons c s =>
          rw [taken]
          split
          · have hle := (List.takeWhile_prefix (l := s.take n) isContinuation).length_le
            have htake := List.length_take_le' n s
            rw [List.length_cons, List.length_cons]
            omega
          · exact Nat.zero_le _

/-- `decode("utf-8", errors="ignore")`. -/
def decodeIgnore : Bytes → Text
  | [] => []
  | b :: s =>
    match continuations b with
    | none => decodeIgnore s
    | some n =>
      let next := taken b n s
      (if next.length = n then [codePoint b next] else []) ++ decodeIgnore (s.drop next.length)
termination_by b => b.length
decreasing_by
  · simp
  · simp only [List.length_drop, List.length_cons]
    omega

/-! ### A byte of ASCII -/

section

variable {a : UInt8} {s t u : Bytes} {c : Char} {p : Text}

theorem isContinuation_ascii (ha : a < 0x80) : isContinuation a = false := by
  rw [isContinuation, Bool.and_eq_false_iff]
  exact .inl (decide_eq_false (UInt8.not_le.mpr ha))

theorem follows_ascii (b : UInt8) (ha : a < 0x80) : follows b a = false := by
  simp [follows, isContinuation_ascii ha]

/-- A continuation stops before a byte of ASCII. -/
theorem takeWhile_take_ascii (ha : a < 0x80) (n : Nat) :
    ((s ++ a :: t).take n).takeWhile isContinuation = (s.take n).takeWhile isContinuation := by
  induction s generalizing n with
  | nil =>
      cases n with
      | zero => rfl
      | succ n => simp [isContinuation_ascii ha]
  | cons x s ih =>
      cases n with
      | zero => rfl
      | succ n =>
          rw [List.cons_append, List.take_succ_cons, List.take_succ_cons, List.takeWhile_cons,
            List.takeWhile_cons, ih]

theorem taken_ascii (ha : a < 0x80) (b : UInt8) (n : Nat) : taken b n (s ++ a :: t) = taken b n s := by
  cases n with
  | zero => rfl
  | succ n =>
      cases s with
      | nil => simp [taken, follows_ascii b ha]
      | cons x s => rw [List.cons_append, taken, taken, takeWhile_take_ascii ha]

theorem decodeIgnore_ascii (ha : a < 0x80) (s : Bytes) :
    decodeIgnore (a :: s) = Char.ofNat a.toNat :: decodeIgnore s := by
  rw [decodeIgnore, continuations, if_pos ha]
  rfl

/-- **Cut at a byte of ASCII.** -/
theorem decodeIgnore_append (ha : a < 0x80) (s t : Bytes) :
    decodeIgnore (s ++ a :: t) = decodeIgnore s ++ decodeIgnore (a :: t) := by
  induction s using decodeIgnore.induct with
  | case1 => rw [decodeIgnore, List.nil_append, List.nil_append]
  | case2 b s hb ih =>
      rw [List.cons_append, decodeIgnore, decodeIgnore, hb]
      exact ih
  | case3 b s n hb next ih =>
      rw [List.cons_append, decodeIgnore, decodeIgnore, hb]
      simp only [taken_ascii ha, List.append_assoc]
      rw [List.drop_append_of_le_length (length_taken_le b n s)]
      exact congrArg _ ih

/-! ### What a character is read of -/

/-- The continuation bytes are the first ones of what follows. -/
theorem taken_begins (b : UInt8) (n : Nat) (s : Bytes) : taken b n s <+: s := by
  cases n with
  | zero => exact List.nil_prefix
  | succ n =>
      cases s with
      | nil => exact List.nil_prefix
      | cons x s =>
          rw [taken]
          split
          · exact List.cons_prefix_cons.mpr ⟨rfl,
              (List.takeWhile_prefix _).trans (List.take_prefix n s)⟩
          · exact List.nil_prefix

theorem takeWhile_take_of_le {f : UInt8 → Bool} {m : Nat} (h : (s.takeWhile f).length ≤ m) :
    (s.take m).takeWhile f = s.takeWhile f := by
  induction s generalizing m with
  | nil => rw [List.take_nil]
  | cons x s ih =>
      by_cases hx : f x = true
      · rw [List.takeWhile_cons_of_pos hx, List.length_cons] at h
        obtain ⟨m, rfl⟩ : ∃ k, m = k + 1 := ⟨m - 1, by omega⟩
        rw [List.take_succ_cons, List.takeWhile_cons_of_pos hx, List.takeWhile_cons_of_pos hx,
          ih (by omega)]
      · cases m with
        | zero => rw [List.takeWhile_cons_of_neg hx, List.take_zero, List.takeWhile_nil]
        | succ m =>
            rw [List.take_succ_cons, List.takeWhile_cons_of_neg hx, List.takeWhile_cons_of_neg hx]

/-- What comes after the continuation bytes does not matter. -/
theorem taken_take {b : UInt8} {n m : Nat} (h : (taken b n s).length ≤ m) :
    taken b n (s.take m) = taken b n s := by
  cases n with
  | zero => rfl
  | succ n =>
      cases s with
      | nil => rw [List.take_nil]
      | cons x s =>
          cases m with
          | zero =>
              rw [List.length_eq_zero_iff.mp (Nat.le_zero.mp h)]
              rfl
          | succ m =>
              rw [List.take_succ_cons]
              rw [taken] at h ⊢
              split at h
              · rename_i hx
                rw [List.length_cons] at h
                rw [taken, if_pos hx, if_pos hx, List.take_take, Nat.min_comm, ← List.take_take,
                  takeWhile_take_of_le (by omega)]
              · rename_i hx
                rw [taken, if_neg hx, if_neg hx]

theorem toNat_ofNat_of_isValidChar {n : Nat} (h : n.isValidChar) : (Char.ofNat n).toNat = n := by
  rw [Char.ofNat, dif_pos h]
  rfl

theorem isContinuation_bounds {x : UInt8} (h : isContinuation x = true) :
    0x80 ≤ x.toNat ∧ x.toNat < 0xc0 := by
  rw [isContinuation, Bool.and_eq_true, decide_eq_true_eq, decide_eq_true_eq] at h
  exact ⟨UInt8.le_iff_toNat_le.mp h.1, UInt8.lt_iff_toNat_lt.mp h.2⟩

/-- No overlong form, no surrogate, nothing above `U+10FFFF`. -/
theorem follows_bounds {b x : UInt8} (h : follows b x = true) : isContinuation x = true ∧
    (b.toNat = 0xe0 → 0xa0 ≤ x.toNat) ∧ (b.toNat = 0xed → x.toNat < 0xa0) ∧
    (b.toNat = 0xf0 → 0x90 ≤ x.toNat) ∧ (b.toNat = 0xf4 → x.toNat < 0x90) := by
  simp only [follows, Bool.and_eq_true, Bool.or_eq_true, bne_iff_ne, decide_eq_true_eq] at h
  obtain ⟨⟨⟨⟨hx, he0⟩, hed⟩, hf0⟩, hf4⟩ := h
  have at_ : ∀ {k : UInt8}, b.toNat = k.toNat → b = k := fun h => UInt8.toNat_inj.mp h
  exact ⟨hx, fun hb => UInt8.le_iff_toNat_le.mp (he0.resolve_left (not_not.mpr (at_ hb))),
    fun hb => UInt8.lt_iff_toNat_lt.mp (hed.resolve_left (not_not.mpr (at_ hb))),
    fun hb => UInt8.le_iff_toNat_le.mp (hf0.resolve_left (not_not.mpr (at_ hb))),
    fun hb => UInt8.lt_iff_toNat_lt.mp (hf4.resolve_left (not_not.mpr (at_ hb)))⟩

theorem of_taken {b x : UInt8} {n : Nat} {rest : Bytes} (h : taken b n s = x :: rest) :
    follows b x = true ∧ ∀ y ∈ rest, isContinuation y = true := by
  cases n with
  | zero => cases h
  | succ n =>
      cases s with
      | nil => cases h
      | cons z s =>
          rw [taken] at h
          split at h
          · rename_i hz
            obtain ⟨rfl, rfl⟩ := List.cons.inj h
            exact ⟨hz, fun y hy => List.mem_takeWhile_imp hy⟩
          · cases h

theorem continuations_cases {b : UInt8} {n : Nat} (h : continuations b = some n) :
    n = 0 ∧ b.toNat < 0x80 ∨ n = 1 ∧ 0xc2 ≤ b.toNat ∧ b.toNat < 0xe0 ∨
      n = 2 ∧ 0xe0 ≤ b.toNat ∧ b.toNat < 0xf0 ∨ n = 3 ∧ 0xf0 ≤ b.toNat ∧ b.toNat < 0xf5 := by
  have hlt : ∀ {k : UInt8}, b < k ↔ b.toNat < k.toNat := UInt8.lt_iff_toNat_lt
  rw [continuations] at h
  simp only [hlt] at h
  split_ifs at h
  all_goals
    cases h
    simp_all

/-- A character of more than one byte is none of ASCII. -/
theorem le_codePoint {b : UInt8} {n : Nat} (hb : continuations b = some n) (hn : n ≠ 0)
    (hlen : (taken b n s).length = n) : 128 ≤ (codePoint b (taken b n s)).toNat := by
  have high : ∀ {m : Nat}, 128 ≤ m → m.isValidChar → 128 ≤ (Char.ofNat m).toNat := by
    intro m hm hvalid
    rwa [toNat_ofNat_of_isValidChar hvalid]
  rcases continuations_cases hb with ⟨rfl, -⟩ | ⟨rfl, hlow, hup⟩ | ⟨rfl, hlow, hup⟩ | ⟨rfl, hlow, hup⟩
  · exact absurd rfl hn
  · obtain ⟨x, hx⟩ := List.length_eq_one_iff.mp hlen
    obtain ⟨hfollows, -⟩ := of_taken hx
    obtain ⟨hxcont, -⟩ := follows_bounds hfollows
    have hxb := isContinuation_bounds hxcont
    rw [hx]
    refine high ?_ (.inl ?_)
    all_goals
      simp only [List.length_singleton, List.foldl_cons, List.foldl_nil]
      omega
  · obtain ⟨x, y, hx⟩ := List.length_eq_two.mp hlen
    obtain ⟨hfollows, hrest⟩ := of_taken hx
    obtain ⟨hxcont, he0, hed, -⟩ := follows_bounds hfollows
    have hxb := isContinuation_bounds hxcont
    have hyb := isContinuation_bounds (hrest y List.mem_cons_self)
    rw [hx]
    refine high ?_ ?_
    · simp only [List.length_cons, List.length_nil, List.foldl_cons, List.foldl_nil]
      omega
    · simp only [List.length_cons, List.length_nil, List.foldl_cons, List.foldl_nil, Nat.isValidChar]
      omega
  · obtain ⟨x, y, z, hx⟩ := List.length_eq_three.mp hlen
    obtain ⟨hfollows, hrest⟩ := of_taken hx
    obtain ⟨hxcont, -, -, hf0, hf4⟩ := follows_bounds hfollows
    have hxb := isContinuation_bounds hxcont
    have hyb := isContinuation_bounds (hrest y List.mem_cons_self)
    have hzb := isContinuation_bounds (hrest z (by simp))
    rw [hx]
    refine high ?_ ?_
    · simp only [List.length_cons, List.length_nil, List.foldl_cons, List.foldl_nil]
      omega
    · simp only [List.length_cons, List.length_nil, List.foldl_cons, List.foldl_nil, Nat.isValidChar]
      omega

/-- A character of ASCII is read where its byte stands, and the rest on its two sides. -/
theorem exists_of_decodeIgnore {x y : Text} (hc : c.toNat < 128)
    (h : decodeIgnore s = x ++ c :: y) :
    ∃ t u, s = t ++ asciiByte c :: u ∧ decodeIgnore t = x ∧ decodeIgnore u = y := by
  induction s using decodeIgnore.induct generalizing x with
  | case1 =>
      rw [decodeIgnore] at h
      simp at h
  | case2 b s hb ih =>
      rw [decodeIgnore, hb] at h
      obtain ⟨t, u, rfl, ht, hu⟩ := ih h
      refine ⟨b :: t, u, rfl, ?_, hu⟩
      rw [decodeIgnore, hb]
      exact ht
  | case3 b s n hb next =>
      rename_i ih
      rw [decodeIgnore, hb] at h
      simp only at h ih
      have hprefix : s.take (taken b n s).length = taken b n s :=
        (List.prefix_iff_eq_take.mp (taken_begins b n s)).symm
      -- the bytes behind the character
      have behind : ∀ {x' : Text}, decodeIgnore (s.drop (taken b n s).length) = x' ++ c :: y →
          x = (if (taken b n s).length = n then [codePoint b (taken b n s)] else []) ++ x' →
          ∃ t u, b :: s = t ++ asciiByte c :: u ∧ decodeIgnore t = x ∧ decodeIgnore u = y := by
        intro x' h' hx
        obtain ⟨t, u, hs, ht, hu⟩ := ih h'
        refine ⟨b :: (taken b n s ++ t), u, ?_, ?_, hu⟩
        · rw [List.cons_append, List.append_assoc, ← hs]
          conv_lhs => rw [← List.take_append_drop (taken b n s).length s, hprefix]
        · have htake : taken b n s ++ t = s.take ((taken b n s).length + t.length) := by
            rw [List.take_add, hprefix, hs, List.take_left]
          have htaken : taken b n (taken b n s ++ t) = taken b n s := by
            rw [htake]
            exact taken_take (Nat.le_add_right ..)
          rw [decodeIgnore, hb]
          simp only [htaken, List.drop_left]
          rw [ht, hx]
      by_cases hlen : (taken b n s).length = n
      · rw [if_pos hlen, List.singleton_append] at h
        cases x with
        | nil =>
            obtain ⟨hchar, hrest⟩ := List.cons.inj h
            have hn : n = 0 := by
              by_contra hn
              have hle := le_codePoint hb hn hlen
              rw [hchar] at hle
              omega
            subst hn
            have hbyte : asciiByte c = b := by
              have hlow : b.toNat < 0x80 := by
                rcases continuations_cases hb with ⟨-, hlow⟩ | ⟨h, -⟩ | ⟨h, -⟩ | ⟨h, -⟩
                · exact hlow
                all_goals cases h
              have hvalue : c.toNat = b.toNat := by
                have hvalid : b.toNat.isValidChar := .inl (by omega)
                rw [← hchar]
                exact toNat_ofNat_of_isValidChar hvalid
              rw [asciiByte, hvalue, UInt8.ofNat_toNat]
            exact ⟨[], s, by rw [hbyte]; rfl, by rw [decodeIgnore], hrest⟩
        | cons ch x =>
            obtain ⟨rfl, hrest⟩ := List.cons.inj h
            exact behind hrest (by rw [if_pos hlen]; rfl)
      · rw [if_neg hlen, List.nil_append] at h
        exact behind h (by rw [if_neg hlen]; rfl)

/-- The bytes of a text of ASCII. -/
theorem asciiByte_lt (hc : c.toNat < 128) : asciiByte c < 0x80 := by
  rw [UInt8.lt_iff_toNat_lt, asciiByte, UInt8.toNat_ofNat', Nat.mod_eq_of_lt (by omega)]
  exact hc

theorem decodeIgnore_asciiByte (hc : c.toNat < 128) (s : Bytes) :
    decodeIgnore (asciiByte c :: s) = c :: decodeIgnore s := by
  have hbyte : (asciiByte c).toNat = c.toNat := by
    rw [asciiByte, UInt8.toNat_ofNat', Nat.mod_eq_of_lt (by omega)]
  rw [decodeIgnore_ascii (asciiByte_lt hc), hbyte, Char.ofNat_toNat]

/-- The bytes of a text of ASCII, with bytes that are skipped between them. -/
inductive Spells : Text → Bytes → Prop where
  | last {c : Char} : Spells [c] [asciiByte c]
  | cons {c : Char} {p : Text} {skipped s : Bytes} (h : Spells p s)
      (hskipped : decodeIgnore skipped = []) : Spells (c :: p) (asciiByte c :: (skipped ++ s))

theorem Spells.head {d : Char} (h : Spells (d :: p) s) : ∃ s', s = asciiByte d :: s' := by
  cases h with
  | last => exact ⟨[], rfl⟩
  | cons h hskipped => exact ⟨_, rfl⟩

theorem Spells.ne_nil (h : Spells p s) : p ≠ [] := by
  cases h <;> exact List.cons_ne_nil _ _

theorem Spells.decodeIgnore_append (hp : ∀ c ∈ p, c.toNat < 128) (h : Spells p s) (t : Bytes) :
    decodeIgnore (s ++ t) = p ++ decodeIgnore t := by
  induction h with
  | last => exact decodeIgnore_asciiByte (hp _ List.mem_cons_self) t
  | @cons c p skipped s h hskipped ih =>
      obtain ⟨d, p', rfl⟩ := List.exists_cons_of_ne_nil h.ne_nil
      obtain ⟨s', rfl⟩ := h.head
      have hd : d.toNat < 128 := hp d (by simp)
      rw [List.cons_append, decodeIgnore_asciiByte (hp c List.mem_cons_self), List.append_assoc,
        List.cons_append, Python.decodeIgnore_append (asciiByte_lt hd), hskipped, List.nil_append,
        ← List.cons_append, ih fun x hx => hp x (List.mem_cons_of_mem _ hx)]
      rfl

/-- **Where a text of ASCII is read**: where its bytes stand in their order, with nothing but bytes
that are skipped between them. -/
theorem infix_decodeIgnore_iff (hp : ∀ c ∈ p, c.toNat < 128) (hne : p ≠ []) :
    p <:+: decodeIgnore s ↔ ∃ b, Spells p b ∧ b <:+: s := by
  constructor
  · rintro ⟨x, y, h⟩
    have hcut : ∀ p : Text, (∀ c ∈ p, c.toNat < 128) → p ≠ [] → ∀ (s : Bytes) (x : Text),
        decodeIgnore s = x ++ p ++ y → ∃ t b u, s = t ++ b ++ u ∧ decodeIgnore t = x ∧ Spells p b := by
      intro p
      induction p with
      | nil => exact fun _ hne => absurd rfl hne
      | cons c p ih =>
          intro hp _ s x h
          rw [List.append_assoc, List.cons_append] at h
          obtain ⟨t, u, rfl, ht, hu⟩ := exists_of_decodeIgnore (hp c List.mem_cons_self) h
          cases p with
          | nil => exact ⟨t, [asciiByte c], u, by simp, ht, .last⟩
          | cons d p =>
              obtain ⟨skipped, b, u', rfl, hskipped, hb⟩ :=
                ih (fun x hx => hp x (List.mem_cons_of_mem _ hx)) (List.cons_ne_nil _ _) u [] hu
              exact ⟨t, asciiByte c :: (skipped ++ b), u', by simp, ht, .cons hb hskipped⟩
    obtain ⟨t, b, u, rfl, -, hb⟩ := hcut p hp hne s x h.symm
    exact ⟨b, hb, t, u, rfl⟩
  · rintro ⟨b, hb, t, u, rfl⟩
    obtain ⟨c, p', rfl⟩ := List.exists_cons_of_ne_nil hne
    obtain ⟨b', rfl⟩ := hb.head
    have hread := hb.decodeIgnore_append hp u
    rw [List.append_assoc, List.cons_append,
      Python.decodeIgnore_append (asciiByte_lt (hp c List.mem_cons_self)), ← List.cons_append, hread]
    exact ⟨decodeIgnore t, decodeIgnore u, by simp⟩

/-- The bytes themselves. -/
theorem spells_map (hne : p ≠ []) : Spells p (p.map asciiByte) := by
  induction p with
  | nil => exact absurd rfl hne
  | cons c p ih =>
      cases p with
      | nil => exact .last
      | cons d p =>
          have hnil : decodeIgnore [] = [] := by rw [decodeIgnore]
          exact .cons (ih (List.cons_ne_nil _ _)) hnil

end

end TalosP2P.Python
