import TalosP2P.Support.Runs

/-!
# Workflow — Sanitize

`sanitize` of the publish workflow, which makes an image tag of a text: white space is stripped, every
run of characters a tag cannot hold becomes a dash, runs of dashes become one, and dashes and dots are
stripped.

* `sanitize_error_iff`: it aborts on the texts without a letter, a digit or an underscore.
* `tag_of_sanitize`, `sanitize_tag`: what it returns is a tag, and a tag is returned as it is.
-/

namespace TalosP2P.Workflow

open Python

/-- `[0-9A-Za-z]`. -/
def isAlnum (c : Char) : Bool :=
  ('0' ≤ c && c ≤ '9') || ('A' ≤ c && c ≤ 'Z') || ('a' ≤ c && c ≤ 'z')

/-- `[0-9A-Za-z_]`. -/
def isWord (c : Char) : Bool := isAlnum c || c == '_'

/-- `[0-9A-Za-z._-]`. -/
def isTagChar (c : Char) : Bool := isWord c || c == '.' || c == '-'

/-- The characters `strip("-.")` takes away. -/
def isEdge (c : Char) : Bool := c == '-' || c == '.'

/-- The error of a tag of which nothing is left. -/
def emptyTag : Exc := .systemExit "derived tag was empty after sanitization"

/-- `re.sub(r"[^0-9A-Za-z._-]+", "-", tag.strip())`. -/
def replaced (tag : Text) : Text := replaceRuns (fun c => !isTagChar c) '-' (strip tag)

/-- `re.sub(r"-+", "-", cleaned).strip("-.")`. -/
def collapsed (cleaned : Text) : Text := stripWhere isEdge (replaceRuns (· = '-') '-' cleaned)

def sanitize (tag : Text) : Except Exc Text :=
  let cleaned := collapsed (replaced tag)
  if cleaned = [] then .error emptyTag else .ok cleaned

/-- A text in the form `sanitize` gives. -/
structure IsTag (tag : Text) : Prop where
  nonempty : tag ≠ []
  chars : ∀ c ∈ tag, isTagChar c = true
  noDashes : ¬ ['-', '-'] <:+: tag
  front : ∀ c, tag.head? = some c → c ≠ '-' ∧ c ≠ '.'
  back : ∀ c, tag.getLast? = some c → c ≠ '-' ∧ c ≠ '.'

/-! ### The passes -/

theorem isEdge_eq_false_iff {c : Char} : isEdge c = false ↔ c ≠ '-' ∧ c ≠ '.' := by
  simp [isEdge]

theorem isWord_iff {c : Char} : isWord c = true ↔ isTagChar c = true ∧ isEdge c = false := by
  rw [isEdge_eq_false_iff, isTagChar]
  constructor
  · intro h
    refine ⟨by simp [h], ?_, ?_⟩
    · rintro rfl; revert h; decide
    · rintro rfl; revert h; decide
  · rintro ⟨h, hdash, hdot⟩
    simpa [hdash, hdot] using h

theorem toNat_of_isTagChar {c : Char} (h : isTagChar c = true) :
    0x2d ≤ c.toNat ∧ c.toNat ≤ 0x7a := by
  have hle : ∀ {a b : Char}, a ≤ b ↔ a.toNat ≤ b.toNat := UInt32.le_iff_toNat_le
  simp only [isTagChar, isWord, isAlnum, Bool.or_eq_true, Bool.and_eq_true, decide_eq_true_eq,
    beq_iff_eq, hle] at h
  rcases h with ((((⟨h₁, h₂⟩ | ⟨h₁, h₂⟩) | ⟨h₁, h₂⟩) | rfl) | rfl) | rfl
  · exact ⟨Nat.le_trans (by decide) h₁, Nat.le_trans h₂ (by decide)⟩
  · exact ⟨Nat.le_trans (by decide) h₁, Nat.le_trans h₂ (by decide)⟩
  · exact ⟨Nat.le_trans (by decide) h₁, Nat.le_trans h₂ (by decide)⟩
  · decide
  · decide
  · decide

/-- No character of a tag is white space. -/
theorem isWhitespace_of_isTagChar {c : Char} (h : isTagChar c = true) : isWhitespace c = false := by
  obtain ⟨hlow, hhigh⟩ := toNat_of_isTagChar h
  simp only [isWhitespace, Bool.or_eq_false_iff, Bool.and_eq_false_iff, decide_eq_false_iff_not,
    beq_eq_false_iff_ne]
  omega

theorem isTagChar_of_mem_replaced {tag : Text} {c : Char} (h : c ∈ replaced tag) :
    isTagChar c = true := by
  rcases mem_replaceRunsFrom h with ⟨rfl, -⟩ | ⟨-, hc⟩
  · decide
  · simpa using hc

theorem mem_collapsed {cleaned : Text} {c : Char} (h : c ∈ collapsed cleaned) : c ∈ cleaned := by
  rcases mem_replaceRunsFrom ((stripWhere_infix_self _ _).subset h) with ⟨rfl, x, hx, hdash⟩ | ⟨hc, -⟩
  · rwa [of_decide_eq_true hdash] at hx
  · exact hc

/-- The passes leave the letters, the digits and the underscores of a text. -/
theorem mem_passes_iff {tag : Text} {c : Char} (hc : isWord c = true) :
    c ∈ replaceRuns (· = '-') '-' (replaced tag) ↔ c ∈ strip tag := by
  obtain ⟨htag, hedge⟩ := isWord_iff.mp hc
  have hdash := (isEdge_eq_false_iff.mp hedge).1
  rw [mem_replaceRuns_iff (by simpa using hdash) hdash, replaced,
    mem_replaceRuns_iff (by simp [htag]) hdash]

/-- Stripping white space takes no such character away. -/
theorem mem_strip_of_isWord {tag : Text} {c : Char} (hc : isWord c = true) (h : c ∈ tag) :
    c ∈ strip tag := by
  refine mem_stripWhere h ?_
  exact isWhitespace_of_isTagChar (isWord_iff.mp hc).1

theorem collapsed_eq_nil_iff {tag : Text} :
    collapsed (replaced tag) = [] ↔ ∀ c ∈ tag, isWord c = false := by
  rw [collapsed, stripWhere_eq_nil_iff]
  constructor
  · intro h c hc
    by_contra hword
    rw [Bool.not_eq_false] at hword
    have hedge := h c ((mem_passes_iff hword).mpr (mem_strip_of_isWord hword hc))
    rw [(isWord_iff.mp hword).2] at hedge
    cases hedge
  · intro h c hc
    by_contra hedge
    rw [Bool.not_eq_true] at hedge
    have htag : isTagChar c = true := by
      rcases mem_replaceRunsFrom hc with ⟨rfl, -⟩ | ⟨hc, -⟩
      · decide
      · exact isTagChar_of_mem_replaced hc
    have hword := isWord_iff.mpr ⟨htag, hedge⟩
    have := h c ((stripWhere_infix_self _ _).subset ((mem_passes_iff hword).mp hc))
    rw [hword] at this
    cases this

/-! ### The normal form -/

theorem sanitize_error_iff {tag : Text} :
    sanitize tag = .error emptyTag ↔ ∀ c ∈ tag, isWord c = false := by
  rw [← collapsed_eq_nil_iff, sanitize]
  split
  · simpa
  · simpa

theorem sanitize_ok_iff {tag cleaned : Text} :
    sanitize tag = .ok cleaned ↔ cleaned = collapsed (replaced tag) ∧ cleaned ≠ [] := by
  rw [sanitize]
  split
  · rename_i h
    simp only [reduceCtorEq, false_iff]
    rintro ⟨rfl, hne⟩
    exact hne h
  · rename_i h
    rw [Except.ok.injEq]
    constructor
    · rintro rfl
      exact ⟨rfl, h⟩
    · rintro ⟨rfl, -⟩
      rfl

/-- What `sanitize` returns is a tag. -/
theorem tag_of_sanitize {tag cleaned : Text} (h : sanitize tag = .ok cleaned) : IsTag cleaned := by
  obtain ⟨rfl, hne⟩ := sanitize_ok_iff.mp h
  exact
    { nonempty := hne
      chars := fun c hc => isTagChar_of_mem_replaced (mem_collapsed hc)
      noDashes := fun hpair => no_pair_replaceRuns (by simp) (replaced tag)
        (hpair.trans (stripWhere_infix_self _ _))
      front := fun c hc => isEdge_eq_false_iff.mp (head?_stripWhere hc)
      back := fun c hc => isEdge_eq_false_iff.mp (getLast?_stripWhere hc) }

/-- A tag is returned as it is. -/
theorem sanitize_tag {tag : Text} (h : IsTag tag) : sanitize tag = .ok tag := by
  have hspace : ∀ c ∈ tag, isWhitespace c = false := fun c hc => isWhitespace_of_isTagChar (h.chars c hc)
  have hstrip : strip tag = tag :=
    stripWhere_eq_self (fun c hc => hspace c (List.mem_of_mem_head? hc))
      (fun c hc => hspace c (List.mem_of_mem_getLast? hc))
  have hreplaced : replaced tag = tag := by
    rw [replaced, hstrip]
    exact replaceRuns_eq_self fun c hc => by simp [h.chars c hc]
  have hcollapsed : collapsed tag = tag := by
    rw [collapsed, (replaceRuns_eq_self_iff fun c => by simp).mpr h.noDashes]
    exact stripWhere_eq_self (fun c hc => isEdge_eq_false_iff.mpr (h.front c hc))
      (fun c hc => isEdge_eq_false_iff.mpr (h.back c hc))
  exact sanitize_ok_iff.mpr ⟨by rw [hreplaced, hcollapsed], h.nonempty⟩

/-- **The sanitizer is a retraction**: it aborts on the texts without a letter, a digit or an
underscore; of any other it makes a tag, which it does not change again; and a tag is what it
returns. -/
theorem sanitize_retraction (tag : Text) :
    (sanitize tag = .error emptyTag ↔ ∀ c ∈ tag, isWord c = false) ∧
      ((∃ c ∈ tag, isWord c = true) →
        ∃ cleaned, sanitize tag = .ok cleaned ∧ IsTag cleaned ∧ sanitize cleaned = .ok cleaned) ∧
      (IsTag tag → sanitize tag = .ok tag) := by
  refine ⟨sanitize_error_iff, ?_, sanitize_tag⟩
  rintro ⟨c, hc, hword⟩
  have hne : collapsed (replaced tag) ≠ [] := fun hnil => by
    have := collapsed_eq_nil_iff.mp hnil c hc
    rw [hword] at this
    cases this
  have hclean := sanitize_ok_iff.mpr ⟨rfl, hne⟩
  exact ⟨_, hclean, tag_of_sanitize hclean, sanitize_tag (tag_of_sanitize hclean)⟩

/-- Dashes that a dot hides come to the end, and are taken away with it. -/
example : sanitize " v1.0 (rc)--.".toList = .ok "v1.0-rc".toList := by decide +kernel

end TalosP2P.Workflow
