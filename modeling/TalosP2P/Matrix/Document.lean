import TalosP2P.Support.Yaml

/-!
# Matrix — Document

How the scripts under `hack/p2p` read the release matrix.  `get_path` of the gate goes down a path
and gives `None` where it ends; `require_string` of the other scripts fails there.

* `requireString_ok_iff`: what `require_string` accepts, in terms of `get_path`.
* `exists_map_of_requireString`: a field that is read is in a mapping.
-/

namespace TalosP2P.Matrix

open Python

/-- `get_path(data, path)`. -/
def getPath (data : Value) : List String → Value
  | [] => data
  | key :: path =>
    match data with
    | .map entries =>
      match Value.lookup key.toList entries with
      | none => .null
      | some value => getPath value path
    | _ => .null

/-- `isinstance(value, dict)`. -/
def isMapping : Value → Bool
  | .map _ => true
  | _ => false

/-- A `str` in a message, between quotes. -/
def quoted (s : Str) : String := "'" ++ s.shown ++ "'"

/-- `'.'.join(path)`. -/
def dotted (path : List String) : String := ".".intercalate path

/-- The loop of `require_string`: the value at the path, or `missing` where the path ends. -/
def descend (missing : Exc) (current : Value) : List String → Except Exc Value
  | [] => .ok current
  | key :: path =>
    match current with
    | .map entries =>
      match Value.lookup key.toList entries with
      | none => .error missing
      | some value => descend missing value path
    | _ => .error missing

/-- `require_string(document, path)` of the scripts that stop at the first failure. -/
def requireString (document : Value) (path : List String) : Except Exc Str := do
  let field := dotted path
  let current ← descend (.systemExit s!"missing required field: {field}") document path
  match current with
  | .str s =>
    if Str.strip s = [] then throw (.systemExit s!"field must be a non-empty string: {field}")
    return Str.strip s
  | _ => throw (.systemExit s!"field must be a non-empty string: {field}")

@[simp]
theorem getPath_nil (v : Value) : getPath v [] = v := rfl

theorem getPath_append (data : Value) (path path' : List String) :
    getPath data (path ++ path') = getPath (getPath data path) path' := by
  have hnull : getPath .null path' = .null := by cases path' <;> rfl
  induction path generalizing data with
  | nil => rfl
  | cons key path ih =>
      cases data with
      | map entries =>
          simp only [List.cons_append, getPath]
          cases Value.lookup key.toList entries with
          | none => exact hnull.symm
          | some value => exact ih value
      | _ => exact hnull.symm

/-- What is found under a key is found in a mapping. -/
theorem exists_map_of_getPath {data : Value} {path : List String} {key : String}
    (h : getPath data (path ++ [key]) ≠ .null) : ∃ entries, getPath data path = .map entries := by
  rw [getPath_append] at h
  cases hv : getPath data path with
  | map entries => exact ⟨entries, rfl⟩
  | _ => exact absurd (by rw [hv]; rfl) h

/-- A subscript goes the first step of a path that is there. -/
theorem item_of_getPath {data : Value} {key : String} {path : List String}
    (h : getPath data (key :: path) ≠ .null) :
    ∃ v, data.item key.toList = .ok v ∧ getPath v path = getPath data (key :: path) := by
  cases data with
  | map entries =>
      simp only [getPath] at h ⊢
      cases hl : Value.lookup key.toList entries with
      | none => simp [hl] at h
      | some v => exact ⟨v, by simp [Value.item, hl], rfl⟩
  | _ => exact absurd rfl h

/-- Where both find a value they find the same one. -/
theorem descend_ok_iff {missing : Exc} {current v : Value} {path : List String} (hv : ∃ s, v = .str s) :
    descend missing current path = .ok v ↔ getPath current path = v := by
  obtain ⟨s, rfl⟩ := hv
  induction path generalizing current with
  | nil => simp [descend, getPath]
  | cons key path ih =>
      cases current with
      | map entries =>
          simp only [descend, getPath]
          cases Value.lookup key.toList entries with
          | none => simp
          | some value => exact ih
      | _ => simp [descend, getPath]

/-- **`require_string`** gives a text that is not blank, stripped. -/
theorem requireString_ok_iff {document : Value} {path : List String} {t : Str} :
    requireString document path = .ok t ↔
      ∃ s, getPath document path = .str s ∧ Str.strip s = t ∧ t ≠ [] := by
  simp only [requireString]
  constructor
  · intro h
    obtain ⟨current, hd, h⟩ := bind_eq_ok_iff.mp h
    cases current with
    | str s =>
        simp only [pure_eq_ok] at h
        split at h
        · cases h
        · rename_i hne
          cases h
          exact ⟨s, (descend_ok_iff ⟨s, rfl⟩).mp hd, rfl, hne⟩
    | _ => cases h
  · rintro ⟨s, hs, rfl, hne⟩
    rw [(descend_ok_iff ⟨s, rfl⟩).mpr hs]
    simp only [ok_bind, pure_eq_ok, if_neg hne]

theorem ne_null_of_requireString {document : Value} {path : List String} {t : Str}
    (h : requireString document path = .ok t) : getPath document path ≠ .null := by
  obtain ⟨s, hs, -⟩ := requireString_ok_iff.mp h
  rw [hs]
  exact fun h => by cases h

/-- The text of a field, without the white space at its ends. -/
def field (document : Value) (path : List String) : Str :=
  match getPath document path with
  | .str s => Str.strip s
  | _ => []

theorem field_of_requireString {document : Value} {path : List String} {t : Str}
    (h : requireString document path = .ok t) : field document path = t := by
  obtain ⟨s, hs, rfl, -⟩ := requireString_ok_iff.mp h
  simp only [field, hs]

/-- A field that is read is in a mapping. -/
theorem exists_map_of_requireString {document : Value} {path : List String} {key : String}
    {t : Str} (h : requireString document (path ++ [key]) = .ok t) :
    ∃ entries, getPath document path = .map entries :=
  exists_map_of_getPath (ne_null_of_requireString h)

end TalosP2P.Matrix
