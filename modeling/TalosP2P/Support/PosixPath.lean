import Mathlib.Data.List.DropRight
import TalosP2P.Support.Text
import TalosP2P.Support.Words

/-!
# Support — PosixPath

Paths as texts, as Python's `PurePosixPath` and `os.path` take them apart, and the entry of a file
system a path leads to.

* `entry_eq_of_purePosixPath_eq`: texts that are one `PurePosixPath` lead to one entry.
-/

namespace TalosP2P.PosixPath

open Python Words

/-- The names in a path: empty ones and `.` are dropped. -/
def names (s : Text) : List Text := (s.splitOn '/').filter fun c => c ≠ [] ∧ c ≠ ['.']

/-- What a path begins with: POSIX tells two slashes from one, and from more. -/
def root (s : Text) : Text :=
  if "///".toList <+: s then ['/']
  else if "//".toList <+: s then ['/', '/']
  else if ['/'] <+: s then ['/']
  else []

/-- `str(PurePosixPath(s))`. -/
def purePosixPath (s : Text) : Text :=
  let t := root s ++ ['/'].intercalate (names s)
  if t = [] then ['.'] else t

/-- A name of a path that `os.path.normpath` appends to those in front of it. -/
def normStep (absolute : Bool) (acc : List Text) (c : Text) : List Text :=
  if c ≠ ['.', '.'] ∨ (absolute = false ∧ acc = []) ∨ acc.getLast? = some ['.', '.'] then acc ++ [c]
  else acc.dropLast

/-- `os.path.normpath(s)`. -/
def normpath (s : Text) : Text :=
  let t := root s ++ ['/'].intercalate ((names s).foldl (normStep (root s ≠ [])) [])
  if t = [] then ['.'] else t

/-- `os.path.dirname(s)`. -/
def dirname (s : Text) : Text :=
  let head := s.rdropWhile (· ≠ '/')
  if head.all (· = '/') then head else head.rdropWhile (· = '/')

/-- The path from the root, where `..` goes up. -/
def resolve (start path : List Text) : List Text :=
  path.foldl (fun acc c => if c = ['.', '.'] then acc.dropLast else acc ++ [c]) start

/-- The entry a path leads to, from the root. -/
def entry (s : Text) : List Text := resolve [] (names s)

/-- The entry a symbolic link leads to. -/
def target (link : List Text) (s : Text) : List Text :=
  if ['/'] <+: s then entry s else resolve link.dropLast (names s)

/-! ### One path, two spellings -/

theorem names_cons_slash (s : Text) : names ('/' :: s) = names s := by
  rw [names, List.splitOn_cons_eq_if_modifyHead, if_pos (by simp), List.filter_cons_of_neg (by simp)]
  rfl

theorem names_append_slash (s t : Text) : names (s ++ '/' :: t) = names s ++ names t := by
  rw [names, List.splitOn_append_cons_self, List.filter_append]
  rfl

theorem names_root_append (s t : Text) : names (root s ++ t) = names t := by
  rw [root]
  split_ifs
  · exact names_cons_slash t
  · rw [List.cons_append, names_cons_slash]
    exact names_cons_slash t
  · exact names_cons_slash t
  · rfl

/-- A name holds no slash, and is neither empty nor `.`. -/
theorem of_mem_names {s c : Text} (h : c ∈ names s) : '/' ∉ c ∧ c ≠ [] ∧ c ≠ ['.'] := by
  obtain ⟨hc, hkept⟩ := List.mem_filter.mp h
  exact ⟨not_mem_of_mem_splitOn hc, of_decide_eq_true hkept⟩

theorem names_intercalate {cs : List Text} (h : ∀ c ∈ cs, '/' ∉ c ∧ c ≠ [] ∧ c ≠ ['.']) :
    names (['/'].intercalate cs) = cs := by
  cases cs with
  | nil => rfl
  | cons c cs =>
      rw [names, List.splitOn_intercalate '/' (fun l hl => (h l hl).1) (List.cons_ne_nil c cs)]
      exact List.filter_eq_self.mpr fun l hl => decide_eq_true (h l hl).2

theorem names_purePosixPath (s : Text) : names (purePosixPath s) = names s := by
  have happend : names (root s ++ ['/'].intercalate (names s)) = names s := by
    rw [names_root_append, names_intercalate fun c hc => of_mem_names hc]
  rw [purePosixPath]
  split
  · rename_i hnil
    rw [hnil] at happend
    exact happend
  · exact happend

theorem entry_eq_of_purePosixPath_eq {s t : Text} (h : purePosixPath s = purePosixPath t) :
    entry s = entry t := by
  rw [entry, entry, ← names_purePosixPath s, h, names_purePosixPath]

end TalosP2P.PosixPath
