import TalosP2P.Support.PosixPath

/-!
# Support — Tar

The members of a tar archive, and what `tarfile` reads of one of them: a link is followed to another
member of the archive.

* `extractfile_eq_some_iff`: a member is read when it is a regular file, or a link that leads to one.
-/

namespace TalosP2P.Tar

open Python PosixPath

/-- What a member is. -/
inductive Kind where
  | regular (data : Bytes)
  | directory
  | symlink (linkname : Text)
  | hardlink (linkname : Text)
  | special
  deriving DecidableEq, Repr

structure Member where
  name : Text
  mode : Nat
  kind : Kind
  deriving DecidableEq, Repr

/-- An archive: `getmembers()`. -/
abbrev Archive := List Member

/-- `_getmember(linkname, normalize=True)`: the last member with the name. -/
def getmember (archive : Archive) (linkname : Text) : Option Nat :=
  (List.range archive.length).reverse.find? fun i =>
    (archive[i]?.map fun m => normpath m.name) = some (normpath linkname)

/-- The name a symbolic link points at: `"/".join(filter(None, (dirname(name), linkname)))`. -/
def symlinkName (name linkname : Text) : Text :=
  ['/'].intercalate ([dirname name, linkname].filter (· ≠ []))

/-- `archive.extractfile(member)` and its content, from the place of the member: `none` for a member
that is neither a file nor a link.  The number is how deep the calls may go. -/
def extractfile (archive : Archive) : Nat → Nat → Except Exc (Option Bytes)
  | 0, _ => .error (.runtimeError "maximum recursion depth exceeded")
  | depth + 1, i =>
    match archive[i]? with
    | none => .error .keyError
    | some m =>
      match m.kind with
      | .regular data => .ok (some data)
      | .directory | .special => .ok none
      | .symlink linkname =>
        match getmember archive (symlinkName m.name linkname) with
        | some j => extractfile archive depth j
        | none => .error .keyError
      -- A hard link is to a member before it.
      | .hardlink linkname =>
        match getmember (archive.take i) linkname with
        | some j => extractfile archive depth j
        | none => .error .keyError

/-! ### What is read -/

/-- The member a link names. -/
def linkTarget (archive : Archive) (i : Nat) (m : Member) : Option Nat :=
  match m.kind with
  | .symlink linkname => getmember archive (symlinkName m.name linkname)
  | .hardlink linkname => getmember (archive.take i) linkname
  | _ => none

/-- The member at `i` is a regular file with the content, or leads to one over fewer links than the
depth. -/
inductive Holds (archive : Archive) : Nat → Nat → Bytes → Prop where
  | regular {depth i : Nat} {m : Member} {data : Bytes} (hm : archive[i]? = some m)
      (hkind : m.kind = .regular data) : Holds archive (depth + 1) i data
  | link {depth i j : Nat} {m : Member} {data : Bytes} (hm : archive[i]? = some m)
      (hlink : linkTarget archive i m = some j) (hj : Holds archive depth j data) :
      Holds archive (depth + 1) i data

/-- **A member is read** when it is a regular file, or a link that leads to one. -/
theorem extractfile_eq_some_iff {archive : Archive} {depth i : Nat} {data : Bytes} :
    extractfile archive depth i = .ok (some data) ↔ Holds archive depth i data := by
  induction depth generalizing i with
  | zero => exact ⟨fun h => (nomatch h), fun h => (nomatch h)⟩
  | succ depth ih =>
      constructor
      · intro h
        rw [extractfile] at h
        cases hm : archive[i]? with
        | none => simp [hm] at h
        | some m =>
            cases hkind : m.kind with
            | regular data' =>
                simp only [hm, hkind] at h
                cases h
                exact .regular hm hkind
            | directory => simp [hm, hkind] at h
            | special => simp [hm, hkind] at h
            | symlink linkname =>
                cases hj : getmember archive (symlinkName m.name linkname) with
                | none => simp [hm, hkind, hj] at h
                | some j =>
                    simp only [hm, hkind, hj] at h
                    exact .link hm (by simp [linkTarget, hkind, hj]) (ih.mp h)
            | hardlink linkname =>
                cases hj : getmember (archive.take i) linkname with
                | none => simp [hm, hkind, hj] at h
                | some j =>
                    simp only [hm, hkind, hj] at h
                    exact .link hm (by simp [linkTarget, hkind, hj]) (ih.mp h)
      · intro h
        cases h with
        | regular hm hkind => simp [extractfile, hm, hkind]
        | @link _ _ j m _ hm hlink hj =>
            have hread := ih.mpr hj
            rw [linkTarget] at hlink
            split at hlink
            · rename_i hkind
              simp [extractfile, hm, hkind, hlink, hread]
            · rename_i hkind
              simp [extractfile, hm, hkind, hlink, hread]
            · cases hlink

end TalosP2P.Tar
