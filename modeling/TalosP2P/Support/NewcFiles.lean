import TalosP2P.Support.Newc

/-!
# Support — NewcFiles

The files that unpacking an initramfs buffer leaves.  The unpacker is a parameter, a function of the
bytes of the buffer; what is assumed of it (`LawfulUnpacker`) is about buffers of plain entries: regular
files at the root, none of them linked to another, and the root directory.  Of such a buffer it makes,
under each name, the file the last entry of that name tells of.

* `SameBut`: lists of entries that differ in the data under one name; `SameBut.lastUnder_eq` is the
  frame, and `SameBut.plain` keeps the entries plain.
* `exists_lawfulUnpacker`: there is such an unpacker.
-/

namespace TalosP2P.Newc

open Python

/-- What a record tells of the file under its name. -/
@[ext]
structure Entry where
  mode : Int
  uid : Int
  gid : Int
  nlink : Int
  data : Bytes
  deriving DecidableEq, Repr

/-- A file that was unpacked. -/
@[ext]
structure File where
  mode : Int
  uid : Int
  gid : Int
  data : Bytes
  deriving DecidableEq, Repr

def Fields.entry (f : Fields) (data : Bytes) : Entry := ⟨f.mode, f.uid, f.gid, f.nlink, data⟩

/-- The file an entry tells of. -/
def Entry.file (e : Entry) : File := ⟨e.mode, e.uid, e.gid, e.data⟩

/-- The same entry with other data. -/
def Entry.setData (d : Bytes) (e : Entry) : Entry := { e with data := d }

/-- The same file with other data. -/
def File.setData (d : Bytes) (f : File) : File := { f with data := d }

/-- A record's name, and its entry. -/
def Record.named (r : Record) : Bytes × Entry := (r.name, r.fields.entry r.data)

theorem named_recordOf {f : Fields} {name data : Bytes} (h : Describes f name data) :
    (recordOf f name data h).named = (name, f.entry data) := by
  rw [Record.named, fields_recordOf]
  rfl

/-- The entries of a buffer, in the order they are unpacked. -/
def Initrd.entries (i : Initrd) : List (Bytes × Entry) := i.records.map Record.named

theorem Initrd.entries_eq (i : Initrd) :
    i.entries = i.base.members.map Record.named ++ i.trailing.records.map Record.named := by
  rw [entries, records_eq, List.map_append]

theorem Initrd.map_name_records (i : Initrd) : i.records.map Record.name = i.entries.map Prod.fst := by
  rw [entries, List.map_map]
  rfl

/-! ### The last entry of a name -/

def lastUnder (es : List (Bytes × Entry)) (n : Bytes) : Option Entry :=
  (es.filter fun p => p.1 = n).getLast?.map Prod.snd

theorem lastUnder_append (es es' : List (Bytes × Entry)) (n : Bytes) :
    lastUnder (es ++ es') n = (lastUnder es' n).or (lastUnder es n) := by
  simp only [lastUnder, List.filter_append, List.getLast?_append]
  cases (es'.filter fun p => p.1 = n).getLast? <;> simp

theorem lastUnder_eq_none_iff {es : List (Bytes × Entry)} {n : Bytes} :
    lastUnder es n = none ↔ n ∉ es.map Prod.fst := by
  rw [lastUnder, Option.map_eq_none_iff, List.getLast?_eq_none_iff, List.filter_eq_nil_iff]
  simp only [List.mem_map, decide_eq_true_eq, not_exists, not_and]

/-! ### Unpacking -/

/-- A name of a file at the root: one component, not too long, and none of the names the archive built
into the kernel has. -/
structure PlainName (n : Bytes) : Prop where
  nonempty : n ≠ []
  short : n.length ≤ 255
  slash : 0x2f ∉ n
  nul : 0 ∉ n
  dots : n ≠ encodeUtf8 "." ∧ n ≠ encodeUtf8 ".."
  builtIn : n ≠ encodeUtf8 "dev" ∧ n ≠ encodeUtf8 "root"

instance : DecidablePred PlainName := fun n =>
  decidable_of_iff (n ≠ [] ∧ n.length ≤ 255 ∧ 0x2f ∉ n ∧ 0 ∉ n ∧
      (n ≠ encodeUtf8 "." ∧ n ≠ encodeUtf8 "..") ∧ (n ≠ encodeUtf8 "dev" ∧ n ≠ encodeUtf8 "root"))
    ⟨fun ⟨h₁, h₂, h₃, h₄, h₅, h₆⟩ => ⟨h₁, h₂, h₃, h₄, h₅, h₆⟩,
      fun h => ⟨h.nonempty, h.short, h.slash, h.nul, h.dots, h.builtIn⟩⟩

/-- A regular file with no other link, or the root directory, with an owner. -/
structure Plain (p : Bytes × Entry) : Prop where
  kind : (p.2.mode / 0o10000 = 8 ∧ p.2.nlink ≤ 1 ∧ PlainName p.1) ∨
    (p.2.mode / 0o10000 = 4 ∧ p.1 = encodeUtf8 "." ∧ p.2.data = [])
  owner : p.2.uid ≠ 2 ^ 32 - 1 ∧ p.2.gid ≠ 2 ^ 32 - 1

instance : DecidablePred Plain := fun p =>
  decidable_of_iff (((p.2.mode / 0o10000 = 8 ∧ p.2.nlink ≤ 1 ∧ PlainName p.1) ∨
      (p.2.mode / 0o10000 = 4 ∧ p.1 = encodeUtf8 "." ∧ p.2.data = [])) ∧
        (p.2.uid ≠ 2 ^ 32 - 1 ∧ p.2.gid ≠ 2 ^ 32 - 1))
    ⟨fun ⟨hkind, howner⟩ => ⟨hkind, howner⟩, fun h => ⟨h.kind, h.owner⟩⟩

/-- What is assumed of the kernel's unpacker. -/
structure LawfulUnpacker (unpack : Bytes → Bytes → Option File) : Prop where
  plain : ∀ {i : Initrd}, (∀ p ∈ i.entries, Plain p) →
    ∀ n, unpack i.bytes n = (lastUnder i.entries n).map Entry.file

/-- A buffer is read in one way only, so its bytes decide what is unpacked of it. -/
theorem exists_lawfulUnpacker : ∃ unpack, LawfulUnpacker unpack := by
  classical
  refine ⟨fun bytes n => if h : ∃ i : Initrd, i.bytes = bytes then
    (lastUnder h.choose.entries n).map Entry.file else none, ⟨fun {i} _ n => ?_⟩⟩
  have h : ∃ j : Initrd, j.bytes = i.bytes := ⟨i, rfl⟩
  rw [dif_pos h, Initrd.bytes_injective h.choose_spec]

/-! ### Lists that differ under one name -/

/-- Two lists have the same names and attributes in the same places, and the same data but under
`k`. -/
def SameBut (k : Bytes) (es es' : List (Bytes × Entry)) : Prop :=
  List.Forall₂ (fun p p' => p'.1 = p.1 ∧ p'.2.setData [] = p.2.setData [] ∧ (p.1 ≠ k → p' = p)) es es'

theorem SameBut.map_fst {k : Bytes} {es es' : List (Bytes × Entry)} (h : SameBut k es es') :
    es'.map Prod.fst = es.map Prod.fst := by
  induction h with
  | nil => rfl
  | cons hp _ ih => rw [List.map_cons, List.map_cons, hp.1, ih]

theorem SameBut.refl (k : Bytes) (es : List (Bytes × Entry)) : SameBut k es es :=
  List.forall₂_same.mpr fun _ _ => ⟨rfl, rfl, fun _ => rfl⟩

theorem SameBut.append {k : Bytes} {es es' : List (Bytes × Entry)} (h : SameBut k es es')
    (post : List (Bytes × Entry)) : SameBut k (es ++ post) (es' ++ post) :=
  List.rel_append h (SameBut.refl k post)

/-- The entries under any other name are the same. -/
theorem SameBut.lastUnder_eq {k n : Bytes} {es es' : List (Bytes × Entry)} (h : SameBut k es es')
    (hn : n ≠ k) : lastUnder es' n = lastUnder es n := by
  have hfilter : (es'.filter fun p => p.1 = n) = es.filter fun p => p.1 = n := by
    induction h with
    | nil => rfl
    | @cons p p' _ _ hp _ ih =>
        by_cases hpn : p.1 = n
        · rw [hp.2.2 (hpn ▸ hn), List.filter_cons_of_pos (by simpa using hpn),
            List.filter_cons_of_pos (by simpa using hpn), ih]
        · rw [List.filter_cons_of_neg (by simpa [hp.1] using hpn),
            List.filter_cons_of_neg (by simpa using hpn), ih]
  rw [lastUnder, lastUnder, hfilter]

/-- Other data under the name of a file leaves every entry plain. -/
theorem SameBut.plain {k : Bytes} (hk : PlainName k) {es es' : List (Bytes × Entry)}
    (h : SameBut k es es') (hes : ∀ p ∈ es, Plain p) : ∀ p' ∈ es', Plain p' := by
  induction h with
  | nil => exact fun p' hp' => absurd hp' List.not_mem_nil
  | @cons p p' es es' hp _ ih =>
      rw [List.forall_mem_cons] at hes ⊢
      refine ⟨?_, ih hes.2⟩
      obtain ⟨hname, hattributes, hsame⟩ := hp
      by_cases hpk : p.1 = k
      · obtain ⟨hmode, huid, hgid, hnlink⟩ : p'.2.mode = p.2.mode ∧ p'.2.uid = p.2.uid ∧
            p'.2.gid = p.2.gid ∧ p'.2.nlink = p.2.nlink := by
          simpa [Entry.setData, Entry.ext_iff] using hattributes
        obtain ⟨hkind, howner⟩ := hes.1
        refine ⟨.inl ?_, by rwa [huid, hgid]⟩
        rcases hkind with hregular | ⟨-, hdot, -⟩
        · rwa [hname, hmode, hnlink]
        · exact absurd (hpk.symm.trans hdot) hk.dots.1
      · rw [hsame hpk]
        exact hes.1

/-- Every entry under `k` given the data `d`. -/
def setAll (k d : Bytes) (es : List (Bytes × Entry)) : List (Bytes × Entry) :=
  es.map fun p => if p.1 = k then (p.1, p.2.setData d) else p

theorem sameBut_setAll (k d : Bytes) (es : List (Bytes × Entry)) : SameBut k es (setAll k d es) := by
  rw [SameBut, setAll, List.forall₂_map_right_iff]
  refine List.forall₂_same.mpr fun p _ => ?_
  by_cases hp : p.1 = k
  · rw [if_pos hp]
    exact ⟨rfl, rfl, fun hne => absurd hp hne⟩
  · rw [if_neg hp]
    exact ⟨rfl, rfl, fun _ => rfl⟩

theorem lastUnder_setAll (k d : Bytes) (es : List (Bytes × Entry)) :
    lastUnder (setAll k d es) k = (lastUnder es k).map (Entry.setData d) := by
  have hfilter : ((setAll k d es).filter fun p => p.1 = k) =
      (es.filter fun p => p.1 = k).map fun p => (p.1, p.2.setData d) := by
    induction es with
    | nil => rfl
    | cons p es ih =>
        rw [setAll, List.map_cons, ← setAll]
        by_cases hp : p.1 = k
        · rw [if_pos hp, List.filter_cons_of_pos (by simpa using hp),
            List.filter_cons_of_pos (by simpa using hp), ih, List.map_cons]
        · rw [if_neg hp, List.filter_cons_of_neg (by simpa using hp),
            List.filter_cons_of_neg (by simpa using hp), ih]
  rw [lastUnder, lastUnder, hfilter, List.getLast?_map, Option.map_map, Option.map_map]
  rfl

theorem sameBut_middle {k : Bytes} {pre post : List (Bytes × Entry)} {e e' : Entry}
    (h : e'.setData [] = e.setData []) : SameBut k (pre ++ (k, e) :: post) (pre ++ (k, e') :: post) :=
  List.rel_append (SameBut.refl k pre)
    (.cons ⟨rfl, h, fun hne => absurd rfl hne⟩ (SameBut.refl k post))

end TalosP2P.Newc
