import TalosP2P.Samekey.Cpio

/-!
# Samekey — WorkDir

The two steps of `main()` that decide by `Path.exists()` whether an entry was found: the extraction
of `init` and `rootfs.sqsh` from the stock initrd, and the extraction of `rootfs.sqsh` from the
rebuilt one.  Both write a file when they meet its entry and clear nothing first, and `WORK_DIR` may
name a directory of an earlier run.

A name leads to a place, its own or, through links, another; two names may lead to one.  At a place
there is a regular file, a directory, or nothing, and a link may lead nowhere.  A file is read and
written by the bits of its mode and given a mode by its owner, except that root is refused nothing.
Devices are left out.

* `foldlM_extractEntry`: where the extraction loop is refused, and what it leaves when it is not.
* `stock_independent_iff`, `rebuilt_independent_iff`: each step by itself.
* `independent_iff`: exactly when the steps behave as in an empty directory.
-/

namespace TalosP2P.Samekey

open Python

/-! ### Files and permissions -/

/-- The user a script runs as. -/
structure Process where
  root : Bool
  umask : Nat
  deriving DecidableEq, Repr

/-- A user without privileges. -/
def Process.user : Process := ⟨false, 0o022⟩

/-- What a user is to a file. -/
inductive Access where
  | owner
  | group
  | others
  deriving DecidableEq, Repr

/-- The bit of a mode that lets the user write. -/
def Access.writeBit : Access → Int
  | .owner => 0o200
  | .group => 0o20
  | .others => 0o2

/-- The bit of a mode that lets the user read. -/
def Access.readBit : Access → Int
  | .owner => 0o400
  | .group => 0o40
  | .others => 0o4

def Process.mayRead (p : Process) (mode : Int) (access : Access) : Bool :=
  p.root || mode / access.readBit % 2 == 1

def Process.mayWrite (p : Process) (mode : Int) (access : Access) : Bool :=
  p.root || mode / access.writeBit % 2 == 1

def Process.mayChmod (p : Process) (access : Access) : Bool := p.root || access == .owner

/-- The mode of a file that is made. -/
def Process.newMode (p : Process) : Int := 0o666 - Int.ofNat (0o666 &&& p.umask)

/-- Where a link leads that leads to no file: into a directory that is not there or may not be written,
or round in a circle. -/
inductive DeadEnd where
  | missing
  | closed
  | circle
  deriving DecidableEq, Repr

/-- What a place holds. -/
inductive Node where
  | file (data : Bytes) (mode : Int) (access : Access)
  | directory
  | deadEnd (reason : DeadEnd)
  deriving DecidableEq, Repr

/-- The content of a work dir. -/
structure WorkDir where
  /-- Where a name leads. -/
  place : String → String
  node : String → Option Node

/-- A directory without entries. -/
def WorkDir.empty : WorkDir := ⟨id, fun _ => none⟩

/-- What a name leads to. -/
def WorkDir.resolve (dir : WorkDir) (name : String) : Option Node := dir.node (dir.place name)

def WorkDir.put (dir : WorkDir) (name : String) (node : Node) : WorkDir :=
  { dir with node := Function.update dir.node (dir.place name) (some node) }

/-- The exception of `open`. -/
def DeadEnd.opening : DeadEnd → Exc
  | .missing => .fileNotFoundError
  | .closed => .permissionError
  | .circle => .osError

/-- `Path.exists`. -/
def WorkDir.has (dir : WorkDir) (name : String) : Bool :=
  match dir.resolve name with
  | some (.file ..) | some .directory => true
  | some (.deadEnd _) | none => false

/-- `Path.write_bytes`. -/
def writeBytes (p : Process) (dir : WorkDir) (name : String) (data : Bytes) : Except Exc WorkDir :=
  match dir.resolve name with
  | some (.file _ mode access) =>
    if p.mayWrite mode access then .ok (dir.put name (.file data mode access))
    else .error .permissionError
  | some .directory => .error .isADirectoryError
  | some (.deadEnd reason) => .error reason.opening
  | none => .ok (dir.put name (.file data p.newMode .owner))

/-- The modes `os.chmod` takes: those of a C `int`. -/
def ModeFits (mode : Int) : Prop := -2 ^ 31 ≤ mode ∧ mode < 2 ^ 31

instance : DecidablePred ModeFits := fun _ => inferInstanceAs (Decidable (_ ∧ _))

/-- `Path.chmod`, which sets the permission bits of the mode. -/
def chmod (p : Process) (dir : WorkDir) (name : String) (mode : Int) : Except Exc WorkDir :=
  if ModeFits mode then
    match dir.resolve name with
    | some (.file data _ access) =>
      if p.mayChmod access then .ok (dir.put name (.file data (mode % 4096) access))
      else .error .permissionError
    | some .directory => .ok dir
    | some (.deadEnd .circle) => .error .osError
    | some (.deadEnd _) | none => .error .fileNotFoundError
  else .error .overflowError

/-- One turn of the extraction loop over `cpio_entries`. -/
def extractEntry (p : Process) (dir : WorkDir) (entry : CpioEntry) : Except Exc WorkDir :=
  if entry.name = "init" then do
    let dir ← writeBytes p dir "init" entry.data
    chmod p dir "init" entry.mode
  else if entry.name = "rootfs.sqsh" then do
    let dir ← writeBytes p dir "rootfs.sqsh" entry.data
    chmod p dir "rootfs.sqsh" entry.mode
  else .ok dir

def stockMissing : Exc := .runtimeError "stock initrd is missing init or rootfs.sqsh"

/-- The extraction from the stock initrd. -/
def extractStock (p : Process) (dir : WorkDir) (cpioEntries : List CpioEntry) :
    Except Exc WorkDir := do
  let dir ← cpioEntries.foldlM (extractEntry p) dir
  if ¬ dir.has "init" ∨ ¬ dir.has "rootfs.sqsh" then
    throw stockMissing
  return dir

def rebuiltMissing : Exc := .runtimeError "rebuilt initrd is missing rootfs.sqsh"

/-- The extraction from the rebuilt initrd: the loop ends at the first `rootfs.sqsh`. -/
def extractRebuilt (p : Process) (dir : WorkDir) (verifyEntries : List CpioEntry) :
    Except Exc WorkDir := do
  let dir ← match verifyEntries.find? fun entry => entry.name = "rootfs.sqsh" with
    | some entry => writeBytes p dir "verify-rootfs.sqsh" entry.data
    | none => .ok dir
  if ¬ dir.has "verify-rootfs.sqsh" then
    throw rebuiltMissing
  return dir

/-! ### One entry -/

@[simp]
theorem WorkDir.resolve_put_self (dir : WorkDir) (name : String) (node : Node) :
    (dir.put name node).resolve name = some node := Function.update_self ..

theorem WorkDir.resolve_put_of_ne {dir : WorkDir} {name other : String} (node : Node)
    (h : dir.place other ≠ dir.place name) : (dir.put name node).resolve other = dir.resolve other :=
  Function.update_of_ne h _ _

theorem WorkDir.put_put (dir : WorkDir) (name : String) (node node' : Node) :
    (dir.put name node).put name node' = dir.put name node' := by
  simp [put]

/-- An entry the loop writes. -/
def Extracted (e : CpioEntry) : Prop := e.name = "init" ∨ e.name = "rootfs.sqsh"

instance : DecidablePred Extracted := fun _ => inferInstanceAs (Decidable (_ ∨ _))

/-- What refuses an entry that is written over `node`. -/
def refusal (p : Process) (node : Option Node) (e : CpioEntry) : Option Exc :=
  match node with
  | some (.file _ mode access) =>
    if ¬ p.mayWrite mode access then some .permissionError
    else if ¬ ModeFits e.mode then some .overflowError
    else if ¬ p.mayChmod access then some .permissionError
    else none
  | some .directory => some .isADirectoryError
  | some (.deadEnd reason) => some reason.opening
  | none => if ModeFits e.mode then none else some .overflowError

/-- The user's part in the file an entry is written over. -/
def accessOf : Option Node → Access
  | some (.file _ _ access) => access
  | _ => .owner

theorem extractEntry_of_not {p : Process} {dir : WorkDir} {e : CpioEntry} (h : ¬ Extracted e) :
    extractEntry p dir e = .ok dir := by
  rw [Extracted, not_or] at h
  rw [extractEntry, if_neg h.1, if_neg h.2]

theorem writeBytes_chmod (p : Process) (dir : WorkDir) (e : CpioEntry) (n : String) :
    (do let dir ← writeBytes p dir n e.data; chmod p dir n e.mode) =
      match refusal p (dir.resolve n) e with
      | some x => .error x
      | none => .ok (dir.put n (.file e.data (e.mode % 4096) (accessOf (dir.resolve n)))) := by
  cases hn : dir.resolve n with
  | none =>
      by_cases hm : ModeFits e.mode <;>
        simp [writeBytes, hn, chmod, refusal, accessOf, hm, Process.mayChmod, WorkDir.put_put]
  | some node =>
      cases node with
      | directory => simp [writeBytes, hn, refusal]
      | deadEnd reason => simp [writeBytes, hn, refusal]
      | file data mode access =>
          by_cases hw : p.mayWrite mode access = true
          · by_cases hm : ModeFits e.mode
            · by_cases hc : p.mayChmod access = true <;>
                simp [writeBytes, hn, chmod, refusal, accessOf, hw, hm, hc, WorkDir.put_put]
            · simp [writeBytes, hn, chmod, refusal, hw, hm]
          · simp [writeBytes, hn, refusal, hw]

theorem extractEntry_eq {p : Process} {dir : WorkDir} {e : CpioEntry} (h : Extracted e) :
    extractEntry p dir e = match refusal p (dir.resolve e.name) e with
      | some x => .error x
      | none => .ok (dir.put e.name
          (.file e.data (e.mode % 4096) (accessOf (dir.resolve e.name)))) := by
  rcases h with h | h
  · rw [extractEntry, if_pos h, writeBytes_chmod, h]
  · rw [extractEntry, if_neg (by rw [h]; decide), if_pos h, writeBytes_chmod, h]

/-! ### The extraction loop -/

/-- The names `init` and `rootfs.sqsh` lead to different places. -/
def WorkDir.Apart (dir : WorkDir) : Prop := dir.place "init" ≠ dir.place "rootfs.sqsh"

instance (dir : WorkDir) : Decidable dir.Apart := inferInstanceAs (Decidable (_ ≠ _))

theorem WorkDir.apart_empty : WorkDir.empty.Apart := by decide

/-- The names of the two entries. -/
def Target (n : String) : Prop := n = "init" ∨ n = "rootfs.sqsh"

theorem WorkDir.Apart.place_ne {dir : WorkDir} (h : dir.Apart) {n m : String} (hn : Target n)
    (hm : Target m) (hne : n ≠ m) : dir.place n ≠ dir.place m := by
  rcases hn with rfl | rfl <;> rcases hm with rfl | rfl
  · exact absurd rfl hne
  · exact h
  · exact h.symm
  · exact absurd rfl hne

/-- The last entry of a name. -/
def lastOf (n : String) (es : List CpioEntry) : Option CpioEntry :=
  (es.filter fun e => e.name = n).getLast?

theorem lastOf_concat (n : String) (es : List CpioEntry) (e : CpioEntry) :
    lastOf n (es ++ [e]) = if e.name = n then some e else lastOf n es := by
  rw [lastOf, List.filter_append]
  by_cases h : e.name = n
  · simp [h]
  · simp [h, lastOf]

/-- The file an entry becomes in a directory where nothing was. -/
def CpioEntry.node (e : CpioEntry) : Node := .file e.data (e.mode % 4096) .owner

/-- What refuses an entry after others were extracted to an empty directory. -/
def freshRefusal (p : Process) (before : List CpioEntry) (e : CpioEntry) : Option Exc :=
  refusal p ((lastOf e.name before).map CpioEntry.node) e

/-- The entries up to the first one that is refused in an empty directory, with that one. -/
def reached (p : Process) (before : List CpioEntry) : List CpioEntry → List CpioEntry
  | [] => []
  | e :: es =>
    if Extracted e ∧ freshRefusal p before e ≠ none then [e] else e :: reached p (before ++ [e]) es

/-- What refuses the entries in an empty directory: a mode `chmod` does not take, or a file that an
earlier entry of the name made read-only. -/
def refused (p : Process) (before : List CpioEntry) : List CpioEntry → Option Exc
  | [] => none
  | e :: es =>
    if Extracted e ∧ freshRefusal p before e ≠ none then freshRefusal p before e
    else refused p (before ++ [e]) es

/-- What stands under the name of an entry refuses it where an empty directory does not, or
otherwise. -/
def Obstructed (p : Process) (dir : WorkDir) (e : CpioEntry) : Prop :=
  Extracted e ∧ refusal p (dir.resolve e.name) e ≠ refusal p none e

instance (p : Process) (dir : WorkDir) : DecidablePred (Obstructed p dir) :=
  fun _ => inferInstanceAs (Decidable (_ ∧ _))

/-- Nothing, or a file the user may write and give a mode. -/
def Free (p : Process) : Option Node → Prop
  | none => True
  | some (.file _ mode access) => p.mayWrite mode access = true ∧ p.mayChmod access = true
  | some _ => False

theorem refusal_of_free {p : Process} {node : Option Node} (h : Free p node) (e : CpioEntry) :
    refusal p node e = refusal p none e := by
  cases node with
  | none => rfl
  | some node =>
      cases node with
      | file data mode access =>
          by_cases hm : ModeFits e.mode <;> simp [refusal, h.1, h.2, hm]
      | directory => exact h.elim
      | deadEnd reason => exact h.elim

theorem free_of_refusal {p : Process} {node : Option Node} {e : CpioEntry}
    (h : refusal p node e = none) : Free p node := by
  cases node with
  | none => trivial
  | some node =>
      cases node with
      | file data mode access =>
          simp only [refusal] at h
          split at h
          · cases h
          · rename_i hw
            split at h
            · cases h
            · split at h
              · cases h
              · rename_i hc
                exact ⟨not_not.mp hw, not_not.mp hc⟩
      | directory => cases h
      | deadEnd reason => cases h

/-- An obstacle refuses its entry. -/
theorem Obstructed.exists_refusal {p : Process} {dir : WorkDir} {e : CpioEntry}
    (h : Obstructed p dir e) : ∃ x, refusal p (dir.resolve e.name) e = some x := by
  rw [← Option.ne_none_iff_exists']
  exact fun hnone => h.2 (refusal_of_free (free_of_refusal hnone) e)

/-- What a file that was written refuses, it refuses whoever was its owner before. -/
theorem refusal_written {p : Process} {access : Access} (h : p.mayChmod access = true) (e' e : CpioEntry) :
    refusal p (some (.file e'.data (e'.mode % 4096) access)) e = refusal p (some e'.node) e := by
  have hw : p.mayWrite (e'.mode % 4096) access = p.mayWrite (e'.mode % 4096) .owner := by
    cases hroot : p.root with
    | true => simp [Process.mayWrite, hroot]
    | false =>
        have howner : access = .owner := by simpa [Process.mayChmod, hroot] using h
        rw [howner]
  have hc : p.mayChmod Access.owner = true := by simp [Process.mayChmod]
  simp only [refusal, CpioEntry.node, hw, h, hc]

theorem mayChmod_accessOf {p : Process} {node : Option Node} (h : Free p node) :
    p.mayChmod (accessOf node) = true := by
  cases node with
  | none => simp [accessOf, Process.mayChmod]
  | some node =>
      cases node with
      | file data mode access => exact h.2
      | directory => exact h.elim
      | deadEnd reason => exact h.elim

/-- A work dir after entries were extracted to it: under the names of these their last ones, over what
was free; everything else is as it was. -/
structure After (p : Process) (dir : WorkDir) (before : List CpioEntry) (d : WorkDir) : Prop where
  place : d.place = dir.place
  kept : ∀ n, Target n → lastOf n before = none → d.resolve n = dir.resolve n
  written : ∀ n, Target n → ∀ e ∈ lastOf n before, Free p (dir.resolve n) ∧
    ∃ access, p.mayChmod access = true ∧ d.resolve n = some (.file e.data (e.mode % 4096) access)
  others : ∀ q, q ≠ dir.place "init" → q ≠ dir.place "rootfs.sqsh" → d.node q = dir.node q

theorem After.nil (p : Process) (dir : WorkDir) : After p dir [] dir where
  place := rfl
  kept _ _ _ := rfl
  written _ _ _ he := by cases he
  others _ _ _ := rfl

section

variable {p : Process} {dir d : WorkDir} {before : List CpioEntry} {e : CpioEntry}

/-- An entry of another name. -/
theorem After.skip (h : After p dir before d) (hx : ¬ Extracted e) : After p dir (before ++ [e]) d := by
  have hlast : ∀ n, Target n → lastOf n (before ++ [e]) = lastOf n before := fun n hn => by
    rw [lastOf_concat, if_neg fun heq => hx (by rw [Extracted, heq]; exact hn)]
  exact ⟨h.place, fun n hn hnone => h.kept n hn (hlast n hn ▸ hnone),
    fun n hn e' he' => h.written n hn e' (hlast n hn ▸ he'), h.others⟩

/-- An entry that is not refused. -/
theorem After.put (ha : dir.Apart) (h : After p dir before d) (hx : Extracted e)
    (hfree : Free p (dir.resolve e.name)) {access : Access} (hc : p.mayChmod access = true) :
    After p dir (before ++ [e]) (d.put e.name (.file e.data (e.mode % 4096) access)) := by
  refine ⟨h.place, fun n hn hnone => ?_, fun n hn e' he' => ?_, fun q hi hr => ?_⟩
  · rw [lastOf_concat] at hnone
    split at hnone
    · cases hnone
    · rename_i hne
      rw [WorkDir.resolve_put_of_ne _ (h.place ▸ ha.place_ne hn hx (Ne.symm hne))]
      exact h.kept n hn hnone
  · rw [lastOf_concat] at he'
    split at he'
    · rename_i heq
      cases he'
      subst heq
      exact ⟨hfree, access, hc, WorkDir.resolve_put_self ..⟩
    · rename_i hne
      rw [WorkDir.resolve_put_of_ne _ (h.place ▸ ha.place_ne hn hx (Ne.symm hne))]
      exact h.written n hn e' he'
  · have hq : q ≠ d.place e.name := by
      rw [h.place]
      rcases hx with hx | hx <;> rw [hx]
      · exact hi
      · exact hr
    exact (Function.update_of_ne hq _ _).trans (h.others q hi hr)

/-- **One turn** of the loop, on an entry that nothing in the prior content obstructs: it is refused as
in an empty directory. -/
theorem extractEntry_after (ha : dir.Apart) (h : After p dir before d) (hx : Extracted e)
    (ho : ¬ Obstructed p dir e) :
    match freshRefusal p before e with
    | some x => extractEntry p d e = .error x
    | none => ∃ d', extractEntry p d e = .ok d' ∧ After p dir (before ++ [e]) d' := by
  have hfresh : refusal p (d.resolve e.name) e = freshRefusal p before e ∧
      (freshRefusal p before e = none →
        Free p (dir.resolve e.name) ∧ p.mayChmod (accessOf (d.resolve e.name)) = true) := by
    cases hlast : lastOf e.name before with
    | none =>
        have heq : refusal p (dir.resolve e.name) e = refusal p none e := by
          by_contra hne
          exact ho ⟨hx, hne⟩
        rw [h.kept e.name hx hlast, freshRefusal, hlast]
        refine ⟨heq, fun hnone => ?_⟩
        have hfree := free_of_refusal (heq.trans hnone)
        exact ⟨hfree, mayChmod_accessOf hfree⟩
    | some e' =>
        obtain ⟨hfree, access, hc, hd⟩ := h.written e.name hx e' hlast
        rw [hd, refusal_written hc, freshRefusal, hlast]
        exact ⟨rfl, fun _ => ⟨hfree, hc⟩⟩
  rw [extractEntry_eq hx, hfresh.1]
  cases hr : freshRefusal p before e with
  | some x => rfl
  | none => exact ⟨_, rfl, h.put ha hx (hfresh.2 hr).1 (hfresh.2 hr).2⟩

/-- **The loop**: the first obstacle on its way refuses it, where there is one; else it is refused as in
an empty directory, or extracts all. -/
theorem foldlM_extractEntry (ha : dir.Apart) (h : After p dir before d) (es : List CpioEntry) :
    match (reached p before es).find? fun e => Obstructed p dir e with
    | some e => ∃ x, refusal p (dir.resolve e.name) e = some x ∧
        es.foldlM (extractEntry p) d = .error x
    | none =>
      match refused p before es with
      | some x => es.foldlM (extractEntry p) d = .error x
      | none => ∃ d', es.foldlM (extractEntry p) d = .ok d' ∧ After p dir (before ++ es) d' := by
  induction es generalizing before d with
  | nil => exact ⟨d, rfl, by rwa [List.append_nil]⟩
  | cons e es ih =>
      have hsplit : before ++ e :: es = before ++ [e] ++ es := by
        rw [List.append_assoc, List.singleton_append]
      by_cases ho : Obstructed p dir e
      · have hfind : (reached p before (e :: es)).find? (fun e => Obstructed p dir e) = some e := by
          rw [reached]
          split <;> exact List.find?_cons_of_pos (decide_eq_true ho)
        obtain ⟨x, hr⟩ := ho.exists_refusal
        -- the name was not written before: what was written over it was free
        have hkept : d.resolve e.name = dir.resolve e.name := by
          cases hlast : lastOf e.name before with
          | none => exact h.kept e.name ho.1 hlast
          | some e' => exact absurd (refusal_of_free (h.written e.name ho.1 e' hlast).1 e) ho.2
        rw [hfind, List.foldlM_cons, extractEntry_eq ho.1, hkept, hr]
        exact ⟨x, hr, rfl⟩
      · by_cases hx : Extracted e
        · have hturn := extractEntry_after ha h hx ho
          cases hr : freshRefusal p before e with
          | some x =>
              rw [hr] at hturn
              have hstop : Extracted e ∧ freshRefusal p before e ≠ none := ⟨hx, by rw [hr]; simp⟩
              rw [reached, if_pos hstop, refused, if_pos hstop,
                List.find?_cons_of_neg (by simpa using ho), List.find?_nil, hr, List.foldlM_cons, hturn]
              rfl
          | none =>
              rw [hr] at hturn
              obtain ⟨d', hd', hafter⟩ := hturn
              have hgo : ¬ (Extracted e ∧ freshRefusal p before e ≠ none) := fun hs => hs.2 hr
              rw [reached, if_neg hgo, refused, if_neg hgo,
                List.find?_cons_of_neg (by simpa using ho), List.foldlM_cons, hd', ok_bind, hsplit]
              exact ih hafter
        · have hgo : ¬ (Extracted e ∧ freshRefusal p before e ≠ none) := fun hs => hx hs.1
          rw [reached, if_neg hgo, refused, if_neg hgo, List.find?_cons_of_neg (by simpa using ho),
            List.foldlM_cons, extractEntry_of_not hx, ok_bind, hsplit]
          exact ih (h.skip hx)

end

/-! ### Leftovers -/

/-- No entry of the initrd has the name. -/
def Lacks (es : List CpioEntry) (name : String) : Prop := ∀ e ∈ es, e.name ≠ name

instance (es : List CpioEntry) (name : String) : Decidable (Lacks es name) :=
  inferInstanceAs (Decidable (∀ e ∈ es, e.name ≠ name))

theorem lastOf_eq_none_iff {n : String} {es : List CpioEntry} : lastOf n es = none ↔ Lacks es n := by
  rw [lastOf, List.getLast?_eq_none_iff, List.filter_eq_nil_iff]
  simp [Lacks]

/-- The last entry of a name the initrd has. -/
theorem exists_lastOf {n : String} {es : List CpioEntry} (h : ¬ Lacks es n) :
    ∃ e ∈ es, e.name = n ∧ lastOf n es = some e := by
  obtain ⟨e, he⟩ := Option.ne_none_iff_exists'.mp (mt lastOf_eq_none_iff.mp h)
  have hmem := List.mem_filter.mp (List.mem_of_getLast? he)
  exact ⟨e, hmem.1, by simpa using hmem.2, he⟩

/-- The bytes of a file. -/
def Node.content : Node → Option Bytes
  | .file data _ _ => some data
  | _ => none

/-- Two outcomes of a step agree: one error, or one content under each of the names. -/
def Agree (names : List String) : Except Exc WorkDir → Except Exc WorkDir → Prop
  | .error e, .error e' => e = e'
  | .ok d, .ok d' => ∀ n ∈ names, (d.resolve n).map Node.content = (d'.resolve n).map Node.content
  | _, _ => False

/-- The first step behaves as in an empty directory: it ends in the same way, an entry is reported
missing exactly when the initrd lacks it, and the files extracted are entries of the initrd. -/
structure StockIndependent (p : Process) (dir : WorkDir) (cpioEntries : List CpioEntry) : Prop where
  agree : Agree ["init", "rootfs.sqsh"] (extractStock p dir cpioEntries)
    (extractStock p .empty cpioEntries)
  missing : extractStock p dir cpioEntries = .error stockMissing ↔
    Lacks cpioEntries "init" ∨ Lacks cpioEntries "rootfs.sqsh"
  files : ∀ d, extractStock p dir cpioEntries = .ok d → ∀ n ∈ ["init", "rootfs.sqsh"],
    ∃ e ∈ cpioEntries, e.name = n ∧ ∃ access,
      d.resolve n = some (.file e.data (e.mode % 4096) access)

/-- The second step does. -/
structure RebuiltIndependent (p : Process) (dir : WorkDir) (verifyEntries : List CpioEntry) :
    Prop where
  agree : Agree ["verify-rootfs.sqsh"] (extractRebuilt p dir verifyEntries)
    (extractRebuilt p .empty verifyEntries)
  missing : extractRebuilt p dir verifyEntries = .error rebuiltMissing ↔
    Lacks verifyEntries "rootfs.sqsh"

/-- Nothing obstructs the loop, and the initrd has both entries, or one it lacks has no leftover and
no mode stops the loop; or a file that may not be written is met first, and the initrd has both entries
and would be refused in an empty directory too. -/
def StockClean (p : Process) (dir : WorkDir) (es : List CpioEntry) : Prop :=
  match (reached p [] es).find? fun e => Obstructed p dir e with
  | none => (¬ Lacks es "init" ∧ ¬ Lacks es "rootfs.sqsh") ∨
      (refused p [] es = none ∧ ((Lacks es "init" ∧ dir.has "init" = false) ∨
        (Lacks es "rootfs.sqsh" ∧ dir.has "rootfs.sqsh" = false)))
  | some e => (¬ Lacks es "init" ∧ ¬ Lacks es "rootfs.sqsh") ∧
      refusal p (dir.resolve e.name) e = some .permissionError ∧
      refused p [] es = some .permissionError

/-- Nothing, or a file the user may write. -/
def MayOpen (p : Process) : Option Node → Prop
  | none => True
  | some (.file _ mode access) => p.mayWrite mode access = true
  | some _ => False

/-- The rebuilt initrd's `rootfs.sqsh` meets nothing or a file that may be written, or it lacks one and
there is no leftover. -/
def RebuiltClean (p : Process) (dir : WorkDir) (es : List CpioEntry) : Prop :=
  if Lacks es "rootfs.sqsh" then dir.has "verify-rootfs.sqsh" = false
  else MayOpen p (dir.resolve "verify-rootfs.sqsh")

section

variable {p : Process} {dir d : WorkDir} {es : List CpioEntry}

/-- What refuses an entry in an empty directory. -/
theorem freshRefusal_cases (p : Process) (before : List CpioEntry) (e : CpioEntry) :
    freshRefusal p before e = none ∨ freshRefusal p before e = some .overflowError ∨
      freshRefusal p before e = some .permissionError := by
  have hc : p.mayChmod Access.owner = true := by simp [Process.mayChmod]
  rw [freshRefusal]
  cases lastOf e.name before with
  | none =>
      by_cases hm : ModeFits e.mode <;> simp [refusal, hm]
  | some e' =>
      by_cases hw : p.mayWrite (e'.mode % 4096) .owner = true <;>
        by_cases hm : ModeFits e.mode <;> simp [refusal, CpioEntry.node, hw, hm, hc]

theorem refused_cases (p : Process) (before es : List CpioEntry) :
    refused p before es = none ∨ refused p before es = some .overflowError ∨
      refused p before es = some .permissionError := by
  induction es generalizing before with
  | nil => exact .inl rfl
  | cons e es ih =>
      rw [refused]
      split
      · exact freshRefusal_cases p before e
      · exact ih _

/-- An obstacle is no mode that `chmod` does not take. -/
theorem Obstructed.ne_overflowError {e : CpioEntry} (h : Obstructed p dir e) {x : Exc}
    (hx : refusal p (dir.resolve e.name) e = some x) :
    x ≠ .overflowError ∧ x ≠ stockMissing := by
  obtain ⟨-, hne⟩ := h
  rw [hx] at hne
  cases hn : dir.resolve e.name with
  | none =>
      rw [hn] at hx
      exact absurd hx.symm hne
  | some node =>
      rw [hn] at hx
      cases node with
      | directory =>
          cases hx
          exact ⟨nofun, nofun⟩
      | deadEnd reason =>
          cases hx
          cases reason <;> exact ⟨nofun, nofun⟩
      | file data mode access =>
          by_cases hw : p.mayWrite mode access = true <;> by_cases hm : ModeFits e.mode <;>
            by_cases hc : p.mayChmod access = true <;>
              simp [refusal, hw, hm, hc] at hx hne <;> subst hx <;> simp_all [stockMissing]

theorem reached_empty (es : List CpioEntry) :
    (reached p [] es).find? (fun e => Obstructed p .empty e) = none :=
  List.find?_eq_none.mpr fun _ _ h => (of_decide_eq_true h).2 rfl

theorem WorkDir.has_of_file {n : String} {data : Bytes} {mode : Int} {access : Access}
    (h : d.resolve n = some (.file data mode access)) : d.has n = true := by
  rw [has, h]

/-- Which names are there after the loop. -/
theorem After.has_eq_false_iff (h : After p dir es d) {n : String} (hn : Target n) :
    d.has n = false ↔ Lacks es n ∧ dir.has n = false := by
  cases hlast : lastOf n es with
  | none =>
      rw [WorkDir.has, h.kept n hn hlast, ← WorkDir.has]
      simp [lastOf_eq_none_iff.mp hlast]
  | some e =>
      obtain ⟨-, access, -, hd⟩ := h.written n hn e hlast
      have hl : ¬ Lacks es n := fun hl => by
        rw [lastOf_eq_none_iff.mpr hl] at hlast
        cases hlast
      simp [WorkDir.has_of_file hd, hl]

/-- The first step, where nothing obstructs the loop. -/
theorem extractStock_free (ha : dir.Apart)
    (hfree : (reached p [] es).find? (fun e => Obstructed p dir e) = none) :
    match refused p [] es with
    | some x => extractStock p dir es = .error x
    | none => ∃ d, After p dir es d ∧ extractStock p dir es =
        if (Lacks es "init" ∧ dir.has "init" = false) ∨
          (Lacks es "rootfs.sqsh" ∧ dir.has "rootfs.sqsh" = false)
        then .error stockMissing else .ok d := by
  have hrun := foldlM_extractEntry ha (.nil p dir) es
  rw [hfree] at hrun
  cases hr : refused p [] es with
  | some x =>
      rw [hr] at hrun
      rw [extractStock, hrun]
      rfl
  | none =>
      rw [hr] at hrun
      obtain ⟨d, hd, hafter⟩ := hrun
      rw [List.nil_append] at hafter
      refine ⟨d, hafter, ?_⟩
      rw [extractStock, hd]
      simp only [ok_bind, pure_eq_ok, Bool.not_eq_true, hafter.has_eq_false_iff (.inl rfl),
        hafter.has_eq_false_iff (.inr rfl)]
      split <;> rfl

/-- The first step in an empty directory. -/
theorem extractStock_empty (p : Process) (es : List CpioEntry) :
    match refused p [] es with
    | some x => extractStock p .empty es = .error x
    | none => ∃ d, After p .empty es d ∧ extractStock p .empty es =
        if Lacks es "init" ∨ Lacks es "rootfs.sqsh" then .error stockMissing else .ok d := by
  have h := extractStock_free WorkDir.apart_empty (reached_empty (p := p) es)
  cases hr : refused p [] es with
  | some x => rwa [hr] at h
  | none =>
      rw [hr] at h
      have hhas : ∀ n, WorkDir.empty.has n = false := fun _ => rfl
      simpa only [hhas, and_true] using h

/-- An extraction into an empty directory that does not raise found both entries. -/
theorem of_extractStock_empty (h : extractStock p .empty es = .ok d) :
    ¬ Lacks es "init" ∧ ¬ Lacks es "rootfs.sqsh" ∧ After p .empty es d := by
  have hstep := extractStock_empty p es
  cases hr : refused p [] es with
  | some x =>
      rw [hr] at hstep
      rw [hstep] at h
      cases h
  | none =>
      rw [hr] at hstep
      obtain ⟨d', hafter, heq⟩ := hstep
      rw [heq] at h
      split at h
      · cases h
      · rename_i hlacks
        rw [not_or] at hlacks
        cases h
        exact ⟨hlacks.1, hlacks.2, hafter⟩

/-- The files of both entries after the loop, whatever was there before. -/
theorem After.exists_file (h : After p dir es d) {n : String} (hn : Target n) (hl : ¬ Lacks es n) :
    ∃ e ∈ es, e.name = n ∧ lastOf n es = some e ∧
      ∃ access, d.resolve n = some (.file e.data (e.mode % 4096) access) := by
  obtain ⟨e, he, hen, hlast⟩ := exists_lastOf hl
  obtain ⟨-, access, -, hd⟩ := h.written n hn e hlast
  exact ⟨e, he, hen, hlast, access, hd⟩

/-- **The first step.**  Exactly when the extraction from the stock initrd behaves as in an empty
directory. -/
theorem stock_independent_iff (ha : dir.Apart) :
    StockIndependent p dir es ↔ StockClean p dir es := by
  have hempty := extractStock_empty p es
  rw [StockClean]
  cases hfind : (reached p [] es).find? fun e => Obstructed p dir e with
  | some e =>
      have ho : Obstructed p dir e := by simpa using List.find?_some hfind
      have hrun := foldlM_extractEntry ha (.nil p dir) es
      rw [hfind] at hrun
      obtain ⟨x, hx, hrun⟩ := hrun
      have hd : extractStock p dir es = .error x := by
        rw [extractStock, hrun]
        rfl
      obtain ⟨hover, hmiss⟩ := ho.ne_overflowError hx
      -- the loop stops with `x`, which the empty directory has to stop with as well
      have hmissing : extractStock p dir es = .error stockMissing ↔ False := by
        rw [hd, Except.error.injEq]
        exact iff_false_intro hmiss
      have hlacks : (Lacks es "init" ∨ Lacks es "rootfs.sqsh" ↔ False) ↔
          ¬ Lacks es "init" ∧ ¬ Lacks es "rootfs.sqsh" := by
        rw [iff_false, not_or]
      constructor
      · intro h
        have hboth := hlacks.mp ((h.missing.symm.trans hmissing))
        have hagree := h.agree
        rw [hd] at hagree
        rcases refused_cases p [] es with hr | hr | hr
        · rw [hr] at hempty
          obtain ⟨d, -, heq⟩ := hempty
          rw [heq, if_neg (not_or.mpr hboth)] at hagree
          exact hagree.elim
        · rw [hr] at hempty
          rw [hempty] at hagree
          exact absurd hagree hover
        · rw [hr] at hempty
          rw [hempty] at hagree
          obtain rfl : x = .permissionError := hagree
          exact ⟨hboth, hx, hr⟩
      · rintro ⟨hboth, hperm, hr⟩
        rw [hr] at hempty
        obtain rfl := Option.some.inj (hx.symm.trans hperm)
        refine ⟨?_, hmissing.trans (hlacks.mpr hboth).symm, fun d h => ?_⟩
        · rw [hd, hempty]
          rfl
        · rw [hd] at h
          cases h
  | none =>
      have hstep := extractStock_free ha hfind
      rcases hr : refused p [] es with _ | x
      · rw [hr] at hstep hempty
        obtain ⟨d, hafter, hd⟩ := hstep
        obtain ⟨d₀, hafter₀, he⟩ := hempty
        by_cases hboth : ¬ Lacks es "init" ∧ ¬ Lacks es "rootfs.sqsh"
        · -- Both entries are there: the loop overwrites whatever stood under their names.
          rw [if_neg (by simp [hboth.1, hboth.2])] at hd he
          have hl : ∀ n ∈ ["init", "rootfs.sqsh"], Target n ∧ ¬ Lacks es n := by
            simpa [Target] using hboth
          refine iff_of_true ⟨?_, ?_, ?_⟩ (.inl hboth)
          · rw [hd, he]
            intro n hn
            obtain ⟨e, -, -, hlast, access, hf⟩ := hafter.exists_file (hl n hn).1 (hl n hn).2
            obtain ⟨e', -, -, hlast', access', hf'⟩ := hafter₀.exists_file (hl n hn).1 (hl n hn).2
            obtain rfl := Option.some.inj (hlast.symm.trans hlast')
            rw [hf, hf']
            rfl
          · rw [hd]
            simp [hboth.1, hboth.2]
          · intro d' hd' n hn
            obtain rfl := Except.ok.inj (hd.symm.trans hd')
            obtain ⟨e, he, hen, -, access, hf⟩ := hafter.exists_file (hl n hn).1 (hl n hn).2
            exact ⟨e, he, hen, access, hf⟩
        · have hlacks : Lacks es "init" ∨ Lacks es "rootfs.sqsh" := by tauto
          rw [if_pos hlacks] at he
          by_cases hleft : (Lacks es "init" ∧ dir.has "init" = false) ∨
              (Lacks es "rootfs.sqsh" ∧ dir.has "rootfs.sqsh" = false)
          · rw [if_pos hleft] at hd
            refine iff_of_true ⟨?_, ?_, ?_⟩ (.inr ⟨rfl, hleft⟩)
            · rw [hd, he]
              rfl
            · exact iff_of_true hd hlacks
            · intro d' hd'
              rw [hd] at hd'
              cases hd'
          · rw [if_neg hleft] at hd
            refine iff_of_false (fun h => ?_) fun h => h.elim hboth fun h => hleft h.2
            have hmissing := h.missing.mpr hlacks
            rw [hd] at hmissing
            cases hmissing
      · -- Either loop stops at an entry that is refused in any directory.
        rw [hr] at hstep hempty
        have hmiss : x ≠ stockMissing := by
          rcases refused_cases p [] es with h | h | h <;> rw [hr] at h <;> cases h <;> exact nofun
        rw [or_iff_left (fun h => by cases h.1)]
        constructor
        · intro h
          rw [← not_or]
          intro hlacks
          have hmissing := h.missing.mpr hlacks
          rw [hstep] at hmissing
          exact hmiss (Except.error.inj hmissing)
        · intro hboth
          refine ⟨?_, ?_, fun d h => ?_⟩
          · rw [hstep, hempty]
            rfl
          · rw [hstep]
            exact iff_of_false (fun h => hmiss (Except.error.inj h)) (not_or.mpr hboth)
          · rw [hstep] at h
            cases h

theorem extractRebuilt_of_lacks (h : Lacks es "rootfs.sqsh") :
    extractRebuilt p dir es =
      if dir.has "verify-rootfs.sqsh" = false then .error rebuiltMissing else .ok dir := by
  have hfind : es.find? (fun entry => entry.name = "rootfs.sqsh") = none :=
    List.find?_eq_none.mpr fun e he => by simpa using h e he
  simp only [extractRebuilt, hfind, ok_bind, pure_eq_ok, Bool.not_eq_true]
  split <;> rfl

/-- A new file belongs to the user. -/
theorem writeBytes_of_mayOpen {n : String} (h : MayOpen p (dir.resolve n)) (data : Bytes) :
    ∃ mode access, writeBytes p dir n data = .ok (dir.put n (.file data mode access)) ∧
      (dir.resolve n = none → mode = p.newMode ∧ access = .owner) := by
  cases hn : dir.resolve n with
  | none => exact ⟨_, _, by rw [writeBytes, hn], fun _ => ⟨rfl, rfl⟩⟩
  | some node =>
      rw [hn] at h
      cases node with
      | file _ mode access => exact ⟨mode, access, by rw [writeBytes, hn]; exact if_pos h, nofun⟩
      | directory => exact h.elim
      | deadEnd reason => exact h.elim

theorem writeBytes_of_not_mayOpen {n : String} (h : ¬ MayOpen p (dir.resolve n)) (data : Bytes) :
    ∃ x ≠ rebuiltMissing, writeBytes p dir n data = .error x := by
  cases hn : dir.resolve n with
  | none => exact absurd (by rw [hn]; trivial) h
  | some node =>
      rw [hn] at h
      cases node with
      | file _ mode access =>
          exact ⟨.permissionError, nofun, by rw [writeBytes, hn]; exact if_neg h⟩
      | directory => exact ⟨.isADirectoryError, nofun, by rw [writeBytes, hn]⟩
      | deadEnd reason => exact ⟨reason.opening, by cases reason <;> exact nofun, by rw [writeBytes, hn]⟩

/-- The second step, where the initrd has an entry: its file is written, or `open` raises. -/
theorem exists_extractRebuilt (h : ¬ Lacks es "rootfs.sqsh") :
    ∃ e ∈ es, e.name = "rootfs.sqsh" ∧ ∀ (p : Process) (dir : WorkDir),
      (MayOpen p (dir.resolve "verify-rootfs.sqsh") → ∃ mode access, extractRebuilt p dir es =
        .ok (dir.put "verify-rootfs.sqsh" (.file e.data mode access)) ∧
          (dir.resolve "verify-rootfs.sqsh" = none → mode = p.newMode ∧ access = .owner)) ∧
      (¬ MayOpen p (dir.resolve "verify-rootfs.sqsh") →
        ∃ x ≠ rebuiltMissing, extractRebuilt p dir es = .error x) := by
  cases hfind : es.find? (fun entry => entry.name = "rootfs.sqsh") with
  | none => exact absurd (fun e he => by simpa using List.find?_eq_none.mp hfind e he) h
  | some e =>
      refine ⟨e, List.mem_of_find?_eq_some hfind, by simpa using List.find?_some hfind,
        fun p dir => ⟨fun hw => ?_, fun hw => ?_⟩⟩
      · obtain ⟨mode, access, hok, hnew⟩ := writeBytes_of_mayOpen hw e.data
        refine ⟨mode, access, ?_, hnew⟩
        have hhas := WorkDir.has_of_file (dir.resolve_put_self "verify-rootfs.sqsh"
          (.file e.data mode access))
        simp [extractRebuilt, hfind, hok, hhas]
      · obtain ⟨x, hx, herror⟩ := writeBytes_of_not_mayOpen hw e.data
        exact ⟨x, hx, by simp [extractRebuilt, hfind, herror]⟩

/-- **The second step.** -/
theorem rebuilt_independent_iff : RebuiltIndependent p dir es ↔ RebuiltClean p dir es := by
  rw [RebuiltClean]
  by_cases hl : Lacks es "rootfs.sqsh"
  · have hdir := @extractRebuilt_of_lacks p dir es hl
    have hempty : extractRebuilt p .empty es = .error rebuiltMissing := extractRebuilt_of_lacks hl
    rw [if_pos hl]
    cases hhas : dir.has "verify-rootfs.sqsh" with
    | false =>
        rw [hhas, if_pos rfl] at hdir
        refine iff_of_true ⟨?_, iff_of_true hdir hl⟩ rfl
        rw [hdir, hempty]
        rfl
    | true =>
        rw [hhas, if_neg (by simp)] at hdir
        refine iff_of_false (fun h => ?_) (by simp)
        have hmissing := h.missing.mpr hl
        rw [hdir] at hmissing
        cases hmissing
  · obtain ⟨e, -, -, hstep⟩ := exists_extractRebuilt hl
    obtain ⟨mode', access', hempty, -⟩ := (hstep p .empty).1 trivial
    rw [if_neg hl]
    by_cases hw : MayOpen p (dir.resolve "verify-rootfs.sqsh")
    · obtain ⟨mode, access, hdir, -⟩ := (hstep p dir).1 hw
      refine iff_of_true ⟨?_, ?_⟩ hw
      · rw [hdir, hempty]
        intro n hn
        rw [List.mem_singleton.mp hn, WorkDir.resolve_put_self, WorkDir.resolve_put_self]
        rfl
      · rw [hdir]
        exact iff_of_false nofun hl
    · obtain ⟨x, -, hdir⟩ := (hstep p dir).2 hw
      refine iff_of_false (fun h => ?_) hw
      have hagree := h.agree
      rw [hdir, hempty] at hagree
      exact hagree

end

/-- Both steps behave as in an empty directory: `dir` is the work dir when the first one begins, `dir'`
when the second does. -/
def Independent (p : Process) (dir dir' : WorkDir) (cpioEntries verifyEntries : List CpioEntry) : Prop :=
  StockIndependent p dir cpioEntries ∧ RebuiltIndependent p dir' verifyEntries

/-- **Leftovers.**  For every user, every content of the work dir before either step, and every two
initrds, the steps behave as in an empty directory exactly when what stands under the names they write
is free, and nothing stands for an entry that is missing. -/
theorem independent_iff (p : Process) {dir : WorkDir} (ha : dir.Apart) (dir' : WorkDir)
    (cpioEntries verifyEntries : List CpioEntry) :
    Independent p dir dir' cpioEntries verifyEntries ↔
      StockClean p dir cpioEntries ∧ RebuiltClean p dir' verifyEntries :=
  and_congr (stock_independent_iff ha) rebuilt_independent_iff

/-- The work dir of an earlier run. -/
def usedWorkDir : WorkDir where
  place := id
  node name :=
    if name = "init" then some (.file [1] 0o755 .owner)
    else if name = "rootfs.sqsh" then some (.file [2] 0o644 .owner)
    else if name = "verify-rootfs.sqsh" then some (.file [3] 0o644 .owner)
    else none

/-- An initrd without `rootfs.sqsh` in a used work dir: both steps go on with the old file. -/
theorem usedWorkDir_dependent :
    let init : CpioEntry := ⟨"init", 0o100755, 0, 0, 1, 0, 8, 1, 0, 0, [4]⟩
    Lacks [init] "rootfs.sqsh" ∧ usedWorkDir.Apart ∧
      extractStock .user .empty [init] = .error stockMissing ∧
      extractRebuilt .user .empty [init] = .error rebuiltMissing ∧
      (∃ d, extractStock .user usedWorkDir [init] = .ok d ∧
        d.resolve "rootfs.sqsh" = some (.file [2] 0o644 .owner)) ∧
      (∃ d, extractRebuilt .user usedWorkDir [init] = .ok d ∧
        d.resolve "verify-rootfs.sqsh" = some (.file [3] 0o644 .owner)) ∧
      ¬ Independent .user usedWorkDir usedWorkDir [init] [init] := by
  intro init
  have hstock : ∃ d, extractStock .user usedWorkDir [init] = .ok d ∧
      d.resolve "rootfs.sqsh" = some (.file [2] 0o644 .owner) := ⟨_, rfl, rfl⟩
  refine ⟨by decide, by decide, rfl, rfl, hstock, ⟨_, rfl, rfl⟩, fun h => ?_⟩
  obtain ⟨d, hd, -⟩ := hstock
  have hmissing := h.1.missing.mpr (.inr (by decide))
  rw [hd] at hmissing
  cases hmissing

/-- The `init` of an earlier run, with the mode it has in the initrd. -/
def readOnlyWorkDir : WorkDir where
  place := id
  node name := if name = "init" then some (.file [4] 0o555 .owner) else none

/-- It refuses the next run, unless that is root's. -/
theorem independent_iff_readOnly :
    let init : CpioEntry := ⟨"init", 0o100555, 0, 0, 1, 0, 8, 1, 0, 0, [4]⟩
    let rootfs : CpioEntry := ⟨"rootfs.sqsh", 0o100644, 0, 0, 1, 0, 8, 1, 0, 0, [5]⟩
    ¬ Independent .user readOnlyWorkDir .empty [init, rootfs] [rootfs] ∧
      Independent ⟨true, 0o022⟩ readOnlyWorkDir .empty [init, rootfs] [rootfs] := by
  intro init rootfs
  have huser : (reached .user [] [init, rootfs]).find? (fun e => Obstructed .user readOnlyWorkDir e) =
      some init := by decide
  have hroot : (reached ⟨true, 0o022⟩ [] [init, rootfs]).find?
      (fun e => Obstructed ⟨true, 0o022⟩ readOnlyWorkDir e) = none := by decide
  constructor
  · intro h
    have hclean := ((independent_iff .user (by decide) _ _ _).mp h).1
    rw [StockClean, huser] at hclean
    exact absurd hclean.2.2 (by decide)
  · refine (independent_iff ⟨true, 0o022⟩ (by decide) _ _ _).mpr ⟨?_, ?_⟩
    · rw [StockClean, hroot]
      exact .inl (by decide)
    · rw [RebuiltClean, if_neg (by decide)]
      trivial

end TalosP2P.Samekey
