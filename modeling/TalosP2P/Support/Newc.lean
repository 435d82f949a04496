import Mathlib.Algebra.BigOperators.Ring.List
import Mathlib.Logic.Function.Basic
import TalosP2P.Support.Overwrite
import TalosP2P.Support.Python

/-!
# Support — Newc

The `newc` cpio format, as the kernel reads an initramfs buffer.  A record is a 110-byte header
(the magic `070701` and thirteen fields of eight hexadecimal digits of either case), a name ended
by a NUL, the data, and up to three bytes of padding after the name and after the data.  An
archive is a list of records and a record named `TRAILER!!!`; an initramfs buffer is a list of
archives, with zero bytes between them and after them.

A `Record` carries its own bytes — the digits as they were written and the padding — with the
proofs that they are well formed, so `Record.bytes`, `Archive.bytes` and `Initrd.bytes` are
functions, and every buffer of the format is one of their values.

* `Record.bytes_append_inj`, `Archive.bytes_append_inj`, `Initrd.bytes_injective`: bytes decode in
  one way only.
* `Archive.four_dvd_length`: an archive keeps what follows it aligned.
* `unpack_eq_lastNamed`: unpacking the records in order leaves, under each name, the data of the
  last record with that name.
-/

namespace TalosP2P.Newc

open Python

/-- The thirteen header fields, in the order of the header. -/
structure Fields where
  ino : Int
  mode : Int
  uid : Int
  gid : Int
  nlink : Int
  mtime : Int
  filesize : Int
  devmajor : Int
  devminor : Int
  rdevmajor : Int
  rdevminor : Int
  namesize : Int
  check : Int
  deriving DecidableEq, Repr

namespace Fields

def toList (f : Fields) : List Int :=
  [f.ino, f.mode, f.uid, f.gid, f.nlink, f.mtime, f.filesize, f.devmajor, f.devminor,
    f.rdevmajor, f.rdevminor, f.namesize, f.check]

/-- The fields read one by one; the first field that cannot be read is the error. -/
def readM {ε : Type*} (g : Nat → Except ε Int) : Except ε Fields := do
  let ino ← g 0
  let mode ← g 1
  let uid ← g 2
  let gid ← g 3
  let nlink ← g 4
  let mtime ← g 5
  let filesize ← g 6
  let devmajor ← g 7
  let devminor ← g 8
  let rdevmajor ← g 9
  let rdevminor ← g 10
  let namesize ← g 11
  let check ← g 12
  pure ⟨ino, mode, uid, gid, nlink, mtime, filesize, devmajor, devminor, rdevmajor, rdevminor,
    namesize, check⟩

@[simp]
theorem length_toList (f : Fields) : f.toList.length = 13 := rfl

/-- A property of every field, field by field. -/
theorem forall_toList {P : Int → Prop} {f : Fields} : (∀ v ∈ f.toList, P v) ↔
    P f.ino ∧ P f.mode ∧ P f.uid ∧ P f.gid ∧ P f.nlink ∧ P f.mtime ∧ P f.filesize ∧ P f.devmajor ∧
      P f.devminor ∧ P f.rdevmajor ∧ P f.rdevminor ∧ P f.namesize ∧ P f.check := by
  simp [toList]

/-- Reading succeeds when every field reads as the one in its place. -/
theorem readM_eq_ok_iff {ε : Type*} {g : Nat → Except ε Int} {f : Fields} :
    readM g = .ok f ↔ ∀ k (h : k < 13), g k = .ok (f.toList.get ⟨k, h⟩) := by
  constructor
  · intro h
    simp only [readM, bind, Except.bind, pure, Except.pure] at h
    repeat' (split at h; · cases h)
    cases h
    intro k hk
    match k with
    | 0 | 1 | 2 | 3 | 4 | 5 | 6 | 7 | 8 | 9 | 10 | 11 | 12 => assumption
    | k + 13 => omega
  · intro h
    have hk : ∀ k (hk : k < 13), g k = .ok (f.toList.get ⟨k, hk⟩) := h
    simp only [readM, hk 0 (by omega), hk 1 (by omega), hk 2 (by omega), hk 3 (by omega),
      hk 4 (by omega), hk 5 (by omega), hk 6 (by omega), hk 7 (by omega), hk 8 (by omega),
      hk 9 (by omega), hk 10 (by omega), hk 11 (by omega), hk 12 (by omega)]
    rfl

end Fields

/-- Fields agree when they agree place by place. -/
theorem Fields.ext_get {f g : Fields}
    (h : ∀ k (hk : k < 13), f.toList.get ⟨k, hk⟩ = g.toList.get ⟨k, hk⟩) : f = g := by
  obtain ⟨a₀, a₁, a₂, a₃, a₄, a₅, a₆, a₇, a₈, a₉, a₁₀, a₁₁, a₁₂⟩ := f
  obtain ⟨b₀, b₁, b₂, b₃, b₄, b₅, b₆, b₇, b₈, b₉, b₁₀, b₁₁, b₁₂⟩ := g
  obtain rfl : a₀ = b₀ := h 0 (by omega)
  obtain rfl : a₁ = b₁ := h 1 (by omega)
  obtain rfl : a₂ = b₂ := h 2 (by omega)
  obtain rfl : a₃ = b₃ := h 3 (by omega)
  obtain rfl : a₄ = b₄ := h 4 (by omega)
  obtain rfl : a₅ = b₅ := h 5 (by omega)
  obtain rfl : a₆ = b₆ := h 6 (by omega)
  obtain rfl : a₇ = b₇ := h 7 (by omega)
  obtain rfl : a₈ = b₈ := h 8 (by omega)
  obtain rfl : a₉ = b₉ := h 9 (by omega)
  obtain rfl : a₁₀ = b₁₀ := h 10 (by omega)
  obtain rfl : a₁₁ = b₁₁ := h 11 (by omega)
  obtain rfl : a₁₂ = b₁₂ := h 12 (by omega)
  rfl

/-! ### Headers -/

def magic : Bytes := encodeUtf8 "070701"

theorem magic_eq : magic = [0x30, 0x37, 0x30, 0x37, 0x30, 0x31] := by decide

@[simp]
theorem length_magic : magic.length = 6 := by decide

/-- The eight characters of field `k` of a header. -/
def fieldBytes (header : Bytes) (k : Nat) : Bytes := (header.drop (6 + 8 * k)).take 8

/-- The header the format `08x` writes. -/
def header (f : Fields) : Bytes := magic ++ f.toList.flatMap hex08

/-- The bytes of padding after `n` bytes. -/
def padLen (n : Nat) : Nat := (4 - n % 4) % 4

def pad (n : Nat) : Bytes := List.replicate (padLen n) 0

@[simp]
theorem length_pad (n : Nat) : (pad n).length = padLen n := by simp [pad]

theorem four_dvd_add_padLen (n : Nat) : 4 ∣ n + padLen n := by
  rw [padLen]; omega

/-- The `k`-th block of a concatenation of blocks of one length. -/
theorem take_drop_flatMap {α β : Type*} {f : α → List β} {n : Nat} {xs : List α}
    (hf : ∀ x ∈ xs, (f x).length = n) (k : Nat) (hk : k < xs.length) :
    ((xs.flatMap f).drop (n * k)).take n = f xs[k] := by
  induction xs generalizing k with
  | nil => exact absurd hk (Nat.not_lt_zero _)
  | cons x xs ih =>
      have hx := hf x List.mem_cons_self
      cases k with
      | zero =>
          rw [Nat.mul_zero, List.drop_zero, List.flatMap_cons, List.take_append_of_le_length
            (Nat.le_of_eq hx.symm), List.take_of_length_le (Nat.le_of_eq hx)]
          rfl
      | succ k =>
          have hle : (f x).length ≤ n * (k + 1) := by
            rw [hx]; exact Nat.le_mul_of_pos_right _ (Nat.succ_pos k)
          rw [List.flatMap_cons, List.drop_append, List.drop_eq_nil_of_le hle, List.nil_append, hx,
            Nat.mul_succ, Nat.add_sub_cancel]
          exact ih (fun y hy => hf y (List.mem_cons_of_mem _ hy)) k (Nat.lt_of_succ_lt_succ hk)

theorem length_header {f : Fields} (hf : ∀ v ∈ f.toList, Fits08 v) : (header f).length = 110 := by
  have : (f.toList.map fun v => (hex08 v).length) = f.toList.map fun _ => 8 :=
    List.map_congr_left fun v hv => hex08_length (hf v hv)
  rw [header, List.length_append, length_magic, List.length_flatMap, this]
  simp [Fields.toList]

theorem take_header (f : Fields) : (header f).take 6 = magic := by
  rw [header, List.take_append_of_le_length (by simp), List.take_of_length_le (by simp)]

theorem fieldBytes_header {f : Fields} (hf : ∀ v ∈ f.toList, Fits08 v) {k : Nat} (hk : k < 13) :
    fieldBytes (header f) k = hex08 (f.toList.get ⟨k, hk⟩) := by
  rw [fieldBytes, header, List.drop_append, List.drop_eq_nil_of_le (by simp), List.nil_append,
    length_magic, Nat.add_sub_cancel_left]
  exact take_drop_flatMap (fun v hv => hex08_length (hf v hv)) k hk

/-! ### Records -/

def trailerName : Bytes := encodeUtf8 "TRAILER!!!"

/-- One record, with the header and the padding as they were written. -/
@[ext]
structure Record where
  header : Bytes
  name : Bytes
  namePad : Bytes
  data : Bytes
  dataPad : Bytes
  length_header : header.length = 110
  take_header : header.take 6 = magic
  hex_header : ∀ c ∈ header.drop 6, IsHexDigit c
  namesize : hexValue (fieldBytes header 11) = name.length + 1
  filesize : hexValue (fieldBytes header 6) = data.length
  length_namePad : namePad.length = padLen (110 + (name.length + 1))
  length_dataPad : dataPad.length = padLen data.length

namespace Record

/-- The name as it is stored, with its NUL. -/
def rawName (r : Record) : Bytes := r.name ++ [0]

@[simp]
theorem length_rawName (r : Record) : r.rawName.length = r.name.length + 1 := by simp [rawName]

def bytes (r : Record) : Bytes := r.header ++ (r.rawName ++ (r.namePad ++ (r.data ++ r.dataPad)))

theorem fieldBytes_isHexDigit (r : Record) (k : Nat) : ∀ c ∈ fieldBytes r.header k, IsHexDigit c := by
  intro c hc
  rw [fieldBytes, ← List.drop_drop] at hc
  exact r.hex_header c (List.mem_of_mem_drop (List.mem_of_mem_take hc))

theorem fieldBytes_length (r : Record) {k : Nat} (hk : k < 13) :
    (fieldBytes r.header k).length = 8 := by
  rw [fieldBytes, List.length_take, List.length_drop, r.length_header]
  omega

/-- Every field of a record is a number for `int(·, 16)`. -/
theorem int16_fieldBytes (r : Record) {k : Nat} (hk : k < 13) :
    int16 (fieldBytes r.header k) = some (hexValue (fieldBytes r.header k) : Int) :=
  int16_of_hexDigits (List.ne_nil_of_length_pos (by rw [r.fieldBytes_length hk]; omega))
    (r.fieldBytes_isHexDigit k)

/-- The thirteen fields as numbers. -/
def fields (r : Record) : Fields :=
  let v := fun k => (hexValue (fieldBytes r.header k) : Int)
  ⟨v 0, v 1, v 2, v 3, v 4, v 5, v 6, v 7, v 8, v 9, v 10, v 11, v 12⟩

theorem fields_get (r : Record) {k : Nat} (hk : k < 13) :
    r.fields.toList.get ⟨k, hk⟩ = hexValue (fieldBytes r.header k) := by
  match k with
  | 0 | 1 | 2 | 3 | 4 | 5 | 6 | 7 | 8 | 9 | 10 | 11 | 12 => rfl

theorem fields_inRange (r : Record) : ∀ v ∈ r.fields.toList, 0 ≤ v ∧ v < 2 ^ 32 := by
  intro v hv
  obtain ⟨⟨k, hk⟩, rfl⟩ := List.get_of_mem hv
  have hk' : k < 13 := hk
  have hlt := hexValue_lt (fieldBytes r.header k)
  rw [r.fieldBytes_length hk'] at hlt
  rw [r.fields_get hk']
  omega

theorem fields_namesize (r : Record) : r.fields.namesize = (r.rawName.length : Nat) := by
  rw [length_rawName, ← r.namesize]; rfl

theorem fields_filesize (r : Record) : r.fields.filesize = (r.data.length : Nat) := by
  rw [← r.filesize]; rfl

theorem length_bytes (r : Record) :
    r.bytes.length = 110 + r.rawName.length + padLen (110 + r.rawName.length) +
      (r.data.length + padLen r.data.length) := by
  simp only [bytes, List.length_append, r.length_header, r.length_namePad, r.length_dataPad,
    length_rawName]
  omega

theorem four_dvd_length (r : Record) : 4 ∣ r.bytes.length := by
  rw [length_bytes]
  exact Nat.dvd_add (four_dvd_add_padLen _) (four_dvd_add_padLen _)

/-- The header fixes every length, so a record is read off the front of a byte string in one way
only. -/
theorem bytes_append_inj {r r' : Record} {s t : Bytes} (h : r.bytes ++ s = r'.bytes ++ t) :
    r = r' ∧ s = t := by
  simp only [bytes, rawName, List.append_assoc] at h
  obtain ⟨hh, h⟩ := List.append_inj h (by rw [r.length_header, r'.length_header])
  have hn : r.name.length = r'.name.length := by
    have h₁ := r.namesize
    have h₂ := r'.namesize
    rw [hh] at h₁; omega
  have hd : r.data.length = r'.data.length := by rw [← r.filesize, ← r'.filesize, hh]
  obtain ⟨hname, h⟩ := List.append_inj h hn
  obtain ⟨-, h⟩ := List.append_inj h rfl
  obtain ⟨hnp, h⟩ := List.append_inj h (by rw [r.length_namePad, r'.length_namePad, hn])
  obtain ⟨hdata, h⟩ := List.append_inj h hd
  obtain ⟨hdp, h⟩ := List.append_inj h (by rw [r.length_dataPad, r'.length_dataPad, hd])
  exact ⟨Record.ext hh hname hnp hdata hdp, h⟩

end Record

/-! ### Written records -/

/-- The record a writer lays out for a header, a name and data. -/
def writeRecord (f : Fields) (name data : Bytes) : Bytes :=
  header f ++ ((name ++ [0]) ++ (pad (110 + (name.length + 1)) ++ (data ++ pad data.length)))

/-- Fields of the format's range that tell the sizes of the name and of the data. -/
structure Describes (f : Fields) (name data : Bytes) : Prop where
  inRange : ∀ v ∈ f.toList, Fits08 v ∧ 0 ≤ v
  namesize : f.namesize = (name.length + 1 : Nat)
  filesize : f.filesize = data.length

/-- Fields between `0` and `2³²`, with the sizes of the name and of the data in their places. -/
theorem Describes.of_lt {f : Fields} {name data : Bytes}
    (h : ∀ v ∈ f.toList, 0 ≤ v ∧ v < 2 ^ 32) (hn : f.namesize = (name.length + 1 : Nat))
    (hd : f.filesize = data.length) : Describes f name data where
  inRange v hv := by
    obtain ⟨h₁, h₂⟩ := h v hv
    exact ⟨⟨by push_cast; omega, by push_cast; omega⟩, h₁⟩
  namesize := hn
  filesize := hd

/-- The record `writeRecord` lays out is one of the format. -/
def recordOf (f : Fields) (name data : Bytes) (h : Describes f name data) : Record where
  header := Newc.header f
  name := name
  namePad := pad (110 + (name.length + 1))
  data := data
  dataPad := pad data.length
  length_header := length_header fun v hv => (h.inRange v hv).1
  take_header := Newc.take_header f
  hex_header := by
    intro c hc
    rw [Newc.header, List.drop_append, List.drop_eq_nil_of_le (by simp), List.nil_append] at hc
    obtain ⟨v, hv, hc⟩ := List.mem_flatMap.mp (List.mem_of_mem_drop hc)
    exact hex08_isHexDigit (h.inRange v hv).1 (h.inRange v hv).2 c hc
  namesize := by
    have hv := h.inRange f.namesize (by simp [Fields.toList])
    have h₁ := hexValue_hex08 hv.1 hv.2
    have h₂ := h.namesize
    rw [fieldBytes_header (fun v hv => (h.inRange v hv).1) (by omega)]
    show hexValue (hex08 f.namesize) = _
    omega
  filesize := by
    have hv := h.inRange f.filesize (by simp [Fields.toList])
    have h₁ := hexValue_hex08 hv.1 hv.2
    have h₂ := h.filesize
    rw [fieldBytes_header (fun v hv => (h.inRange v hv).1) (by omega)]
    show hexValue (hex08 f.filesize) = _
    omega
  length_namePad := length_pad _
  length_dataPad := length_pad _

theorem bytes_recordOf {f : Fields} {name data : Bytes} (h : Describes f name data) :
    (recordOf f name data h).bytes = writeRecord f name data := rfl

theorem fields_recordOf {f : Fields} {name data : Bytes} (h : Describes f name data) :
    (recordOf f name data h).fields = f := by
  refine Fields.ext_get fun k hk => ?_
  have hv := h.inRange _ (List.get_mem f.toList ⟨k, hk⟩)
  rw [Record.fields_get _ hk]
  show (hexValue (fieldBytes (Newc.header f) k) : Int) = _
  rw [fieldBytes_header (fun v hv => (h.inRange v hv).1) hk, hexValue_hex08 hv.1 hv.2]

/-- What a record says: its fields, its name and its data. -/
def Record.content (r : Record) : Fields × Bytes × Bytes := (r.fields, r.name, r.data)

/-- Written records are records of the format that say what was written. -/
theorem exists_records {α : Type*} (fields : α → Fields) (name data : α → Bytes) {xs : List α}
    (h : ∀ x ∈ xs, Describes (fields x) (name x) (data x)) :
    ∃ rs : List Record,
      rs.flatMap Record.bytes = xs.flatMap (fun x => writeRecord (fields x) (name x) (data x)) ∧
      rs.map Record.content = xs.map fun x => (fields x, name x, data x) := by
  induction xs with
  | nil => exact ⟨[], rfl, rfl⟩
  | cons x xs ih =>
      have hx := h x List.mem_cons_self
      obtain ⟨rs, hb, hc⟩ := ih fun y hy => h y (List.mem_cons_of_mem _ hy)
      refine ⟨recordOf _ _ _ hx :: rs, ?_, ?_⟩
      · rw [List.flatMap_cons, List.flatMap_cons, hb, bytes_recordOf]
      · rw [List.map_cons, List.map_cons, hc, Record.content, fields_recordOf]
        rfl

/-- Records that say what was written are no trailers unless a trailer was written. -/
theorem name_ne_of_content {β : Type} {fields : β → Fields} {name : β → String} {data : β → Bytes}
    {rs : List Record} {xs : List β}
    (h : rs.map Record.content = xs.map fun x => (fields x, encodeUtf8 (name x), data x))
    (hxs : ∀ x ∈ xs, name x ≠ "TRAILER!!!") : ∀ r ∈ rs, r.name ≠ trailerName := by
  intro r hr hn
  have hmem : r.content ∈ xs.map fun x => (fields x, encodeUtf8 (name x), data x) := by
    rw [← h]; exact List.mem_map_of_mem hr
  obtain ⟨x, hx, hxr⟩ := List.mem_map.mp hmem
  have hname : encodeUtf8 (name x) = trailerName := (congrArg (fun c => c.2.1) hxr).trans hn
  exact hxs x hx (encodeUtf8_injective hname)

/-! ### Records as a reader keeps them -/

/-- What a reader that decodes the name keeps of a record; nothing when the name is not UTF-8. -/
def Record.view {α : Type} (keep : Fields → String → Bytes → α) (r : Record) : Option α :=
  (decodeUtf8 r.name).map fun name => keep r.fields name r.data

theorem view_recordOf {α : Type} (keep : Fields → String → Bytes → α) {f : Fields} {name : String}
    {data : Bytes} (h : Describes f (encodeUtf8 name) data) :
    (recordOf f (encodeUtf8 name) data h).view keep = some (keep f name data) := by
  have hname : decodeUtf8 (recordOf f (encodeUtf8 name) data h).name = some name :=
    decodeUtf8_encodeUtf8 name
  rw [Record.view, fields_recordOf, hname]
  rfl

/-- Records that say what was written are kept as what was written. -/
theorem mapM_view {α β : Type} {keep : Fields → String → Bytes → α} {fields : β → Fields}
    {name : β → String} {data : β → Bytes} {rs : List Record} {xs : List β}
    (h : rs.map Record.content = xs.map fun x => (fields x, encodeUtf8 (name x), data x)) :
    rs.mapM (Record.view keep) = some (xs.map fun x => keep (fields x) (name x) (data x)) := by
  induction xs generalizing rs with
  | nil =>
      obtain rfl : rs = [] := List.map_eq_nil_iff.mp h
      rfl
  | cons x xs ih =>
      obtain ⟨r, rs, rfl, hr, hrs⟩ := List.map_eq_cons_iff.mp h
      have hv : r.view keep = some (keep (fields x) (name x) (data x)) := by
        have h₁ : r.fields = fields x := congrArg Prod.fst hr
        have h₂ : r.name = encodeUtf8 (name x) := congrArg (fun p => p.2.1) hr
        have h₃ : r.data = data x := congrArg (fun p => p.2.2) hr
        rw [Record.view, h₁, h₂, h₃, decodeUtf8_encodeUtf8, Option.map_some]
      rw [List.mapM_cons, hv, ih hrs]
      rfl

theorem map_view {α : Type} {keep : Fields → String → Bytes → α} {rs : List Record} {xs : List α}
    (h : rs.mapM (Record.view keep) = some xs) : rs.map (Record.view keep) = xs.map some := by
  induction rs generalizing xs with
  | nil => cases h; rfl
  | cons r rs ih =>
      rw [List.mapM_cons] at h
      cases hv : r.view keep with
      | none => rw [hv] at h; cases h
      | some x =>
          cases hm : rs.mapM (Record.view keep) with
          | none => rw [hv, hm] at h; cases h
          | some xs' =>
              rw [hv, hm] at h
              cases h
              rw [List.map_cons, List.map_cons, hv, ih hm]

/-- What a reader keeps, it keeps of a record. -/
theorem exists_record_of_mem {α : Type} {keep : Fields → String → Bytes → α} {rs : List Record}
    {xs : List α} (h : rs.mapM (Record.view keep) = some xs) {x : α} (hx : x ∈ xs) :
    ∃ r ∈ rs, r.view keep = some x := by
  have hmem : some x ∈ rs.map (Record.view keep) := by
    rw [map_view h]; exact List.mem_map_of_mem hx
  exact List.mem_map.mp hmem

/-- What a reader keeps says in order what the records say. -/
theorem map_eq_of_view {α β : Type} {keep : Fields → String → Bytes → α} {f : α → β}
    {g : Record → β} (hfg : ∀ r x, r.view keep = some x → f x = g r) {rs : List Record} {xs : List α}
    (h : rs.mapM (Record.view keep) = some xs) : xs.map f = rs.map g := by
  have hview : ∀ r ∈ rs, (r.view keep).map f = some (g r) := by
    intro r hr
    have hmem : r.view keep ∈ xs.map some := by rw [← map_view h]; exact List.mem_map_of_mem hr
    obtain ⟨x, -, hx⟩ := List.mem_map.mp hmem
    rw [← hx, Option.map_some, hfg r x hx.symm]
  refine List.map_injective_iff.mpr (Option.some_injective β) ?_
  calc (xs.map f).map some = (xs.map some).map (Option.map f) := by simp [Function.comp_def]
    _ = (rs.map (Record.view keep)).map (Option.map f) := by rw [map_view h]
    _ = (rs.map g).map some := by
        rw [List.map_map, List.map_map]
        exact List.map_congr_left hview

/-! ### Archives and initramfs buffers -/

/-- The members of an archive, and the trailer that ends it. -/
@[ext]
structure Archive where
  members : List Record
  trailer : Record
  members_name : ∀ r ∈ members, r.name ≠ trailerName
  trailer_name : trailer.name = trailerName

namespace Archive

def bytes (a : Archive) : Bytes := a.members.flatMap Record.bytes ++ a.trailer.bytes

theorem four_dvd_length (a : Archive) : 4 ∣ a.bytes.length := by
  rw [bytes, List.length_append, List.length_flatMap]
  refine Nat.dvd_add (List.dvd_sum fun n hn => ?_) a.trailer.four_dvd_length
  obtain ⟨r, -, rfl⟩ := List.mem_map.mp hn
  exact r.four_dvd_length

theorem bytes_append_inj {a a' : Archive} {s t : Bytes} (h : a.bytes ++ s = a'.bytes ++ t) :
    a = a' ∧ s = t := by
  obtain ⟨rs, tr, hrs, htr⟩ := a
  obtain ⟨rs', tr', hrs', htr'⟩ := a'
  simp only [bytes, List.append_assoc] at h
  suffices hs : rs = rs' ∧ tr = tr' ∧ s = t from ⟨Archive.ext hs.1 hs.2.1, hs.2.2⟩
  -- The trailers stand in one place, since a member of either archive is no trailer.
  induction rs generalizing rs' with
  | nil =>
      cases rs' with
      | nil =>
          obtain ⟨rfl, hst⟩ := Record.bytes_append_inj (by simpa using h)
          exact ⟨rfl, rfl, hst⟩
      | cons r' rs' =>
          obtain ⟨rfl, -⟩ := Record.bytes_append_inj (by simpa using h)
          exact absurd htr (hrs' _ List.mem_cons_self)
  | cons r rs ih =>
      cases rs' with
      | nil =>
          obtain ⟨rfl, -⟩ := Record.bytes_append_inj (by simpa using h)
          exact absurd htr' (hrs _ List.mem_cons_self)
      | cons r' rs' =>
          simp only [List.flatMap_cons, List.append_assoc] at h
          obtain ⟨rfl, htail⟩ := Record.bytes_append_inj h
          obtain ⟨rfl, hs⟩ := ih (fun r hr => hrs r (List.mem_cons_of_mem _ hr)) rs'
            (fun r hr => hrs' r (List.mem_cons_of_mem _ hr)) htail
          exact ⟨rfl, hs⟩

/-- An archive starts with the magic. -/
theorem exists_bytes_eq (a : Archive) : ∃ b, a.bytes = magic ++ b := by
  have hr : ∀ r : Record, ∃ b, r.bytes = magic ++ b := fun r => by
    rw [Record.bytes, ← List.take_append_drop 6 r.header, r.take_header, List.append_assoc]
    exact ⟨_, rfl⟩
  cases hm : a.members with
  | nil =>
      obtain ⟨b, hb⟩ := hr a.trailer
      exact ⟨b, by rw [bytes, hm, List.flatMap_nil, List.nil_append, hb]⟩
  | cons r rs =>
      obtain ⟨b, hb⟩ := hr r
      exact ⟨b ++ (rs.flatMap Record.bytes ++ a.trailer.bytes), by
        simp only [bytes, hm, List.flatMap_cons, hb, List.append_assoc]⟩

end Archive

/-- What follows the first archive of a buffer: archives, each after a number of zero bytes that
keeps it aligned, and zero bytes to the end. -/
@[ext]
structure Trailing where
  archives : List (Nat × Archive)
  zeros : Nat
  aligned : ∀ p ∈ archives, 4 ∣ p.1

def gap (n : Nat) : Bytes := List.replicate n 0

def Trailing.bytes (t : Trailing) : Bytes :=
  t.archives.flatMap (fun p => gap p.1 ++ p.2.bytes) ++ gap t.zeros

/-- The records after the first archive, in the order they are unpacked. -/
def Trailing.records (t : Trailing) : List Record := t.archives.flatMap fun p => p.2.members

/-- An initramfs buffer. -/
@[ext]
structure Initrd where
  base : Archive
  trailing : Trailing

namespace Initrd

def bytes (i : Initrd) : Bytes := i.base.bytes ++ i.trailing.bytes

/-- The archives in the order they are unpacked. -/
def archives (i : Initrd) : List Archive := i.base :: i.trailing.archives.map Prod.snd

/-- The records in the order they are unpacked. -/
def records (i : Initrd) : List Record := i.archives.flatMap Archive.members

theorem records_eq (i : Initrd) : i.records = i.base.members ++ i.trailing.records := by
  rw [records, archives, List.flatMap_cons, List.flatMap_map, Trailing.records]

end Initrd

theorem gap_append_inj {m n : Nat} {a a' : Archive} {s t : Bytes}
    (h : gap m ++ (a.bytes ++ s) = gap n ++ (a'.bytes ++ t)) : m = n ∧ a = a' ∧ s = t := by
  -- The magic does not start with a zero byte, so neither gap is longer than the other.
  induction m generalizing n with
  | zero =>
      cases n with
      | zero => exact ⟨rfl, Archive.bytes_append_inj h⟩
      | succ n =>
          obtain ⟨b, hb⟩ := a.exists_bytes_eq
          rw [hb, magic_eq] at h
          exact absurd (List.cons.inj h).1 (by decide)
  | succ m ih =>
      cases n with
      | zero =>
          obtain ⟨b, hb⟩ := a'.exists_bytes_eq
          rw [hb, magic_eq] at h
          exact absurd (List.cons.inj h).1 (by decide)
      | succ n =>
          obtain ⟨rfl, hs⟩ := ih (List.cons.inj h).2
          exact ⟨rfl, hs⟩

/-- Zero bytes to the end hold no archive. -/
theorem gap_ne_archive {m n : Nat} {a : Archive} {s : Bytes} : gap m ≠ gap n ++ (a.bytes ++ s) := by
  intro h
  obtain ⟨b, hb⟩ := a.exists_bytes_eq
  have hmem : (0x37 : UInt8) ∈ gap m := by
    rw [h, hb]
    exact List.mem_append_right _ (List.mem_append_left _ (List.mem_append_left _ (by decide)))
  exact absurd (List.eq_of_mem_replicate hmem) (by decide)

theorem Trailing.bytes_injective {t t' : Trailing} (h : t.bytes = t'.bytes) : t = t' := by
  obtain ⟨as, z, has⟩ := t
  obtain ⟨as', z', has'⟩ := t'
  suffices hs : as = as' ∧ z = z' from Trailing.ext hs.1 hs.2
  simp only [bytes] at h
  induction as generalizing as' with
  | nil =>
      cases as' with
      | nil => exact ⟨rfl, by simpa [gap] using congrArg List.length h⟩
      | cons p as' =>
          simp only [List.flatMap_nil, List.nil_append, List.flatMap_cons, List.append_assoc] at h
          exact absurd h gap_ne_archive
  | cons p as ih =>
      cases as' with
      | nil =>
          simp only [List.flatMap_nil, List.nil_append, List.flatMap_cons, List.append_assoc] at h
          exact absurd h.symm gap_ne_archive
      | cons p' as' =>
          simp only [List.flatMap_cons, List.append_assoc] at h
          obtain ⟨h₁, h₂, htail⟩ := gap_append_inj h
          obtain ⟨rfl, hz⟩ := ih (fun q hq => has q (List.mem_cons_of_mem _ hq)) as'
            (fun q hq => has' q (List.mem_cons_of_mem _ hq)) htail
          exact ⟨by rw [Prod.ext h₁ h₂], hz⟩

/-- A buffer is read in one way only. -/
theorem Initrd.bytes_injective {i i' : Initrd} (h : i.bytes = i'.bytes) : i = i' := by
  obtain ⟨hb, ht⟩ := Archive.bytes_append_inj h
  exact Initrd.ext hb (Trailing.bytes_injective ht)

/-! ### Unpacking -/

/-- The data of the last record named `n`. -/
def lastNamed (rs : List Record) (n : Bytes) : Option Bytes :=
  (rs.filter fun r => r.name = n).getLast?.map Record.data

/-- Unpacking in order, each record replacing the file an earlier one left under its name. -/
def unpack (rs : List Record) : Bytes → Option Bytes :=
  overwrite (fun _ => True) Record.name Record.data (fun _ => none) rs

theorem lastNamed_append (rs rs' : List Record) (n : Bytes) :
    lastNamed (rs ++ rs') n = (lastNamed rs' n).or (lastNamed rs n) := by
  simp only [lastNamed, List.filter_append, List.getLast?_append]
  cases (rs'.filter fun r => r.name = n).getLast? <;> simp

/-- The last record of a name, told by the names and the data. -/
theorem lastNamed_of_map {β : Type} {name : β → String} {data : β → Bytes} {rs : List Record}
    {xs : List β} (h : rs.map (fun r => (r.name, r.data)) =
      xs.map fun x => (encodeUtf8 (name x), data x)) (s : String) :
    lastNamed rs (encodeUtf8 s) = (xs.filter fun x => name x = s).getLast?.map data := by
  have hrecords : ((rs.map fun r => (r.name, r.data)).filter fun c => c.1 = encodeUtf8 s).getLast?.map
      Prod.snd = lastNamed rs (encodeUtf8 s) := by
    rw [List.filter_map, List.getLast?_map, Option.map_map]
    rfl
  have hname : (fun c : Bytes × Bytes => decide (c.1 = encodeUtf8 s)) ∘
      (fun x => (encodeUtf8 (name x), data x)) = fun x => decide (name x = s) :=
    funext fun x => decide_eq_decide.mpr encodeUtf8_injective.eq_iff
  rw [← hrecords, h, List.filter_map, List.getLast?_map, Option.map_map, hname]
  rfl

/-- The last record of a name among records that say what was written. -/
theorem lastNamed_of_content {β : Type} {fields : β → Fields} {name : β → String} {data : β → Bytes}
    {rs : List Record} {xs : List β}
    (h : rs.map Record.content = xs.map fun x => (fields x, encodeUtf8 (name x), data x))
    (s : String) :
    lastNamed rs (encodeUtf8 s) = (xs.filter fun x => name x = s).getLast?.map data := by
  have hsnd := congrArg (List.map Prod.snd) h
  rw [List.map_map, List.map_map] at hsnd
  exact lastNamed_of_map hsnd s

/-- **Last wins**: what unpacking leaves under a name is the last record of that name. -/
theorem unpack_eq_lastNamed (rs : List Record) : unpack rs = lastNamed rs := by
  funext n
  rw [unpack, overwrite_apply fun _ _ => trivial, Option.or_none]
  rfl

/-- What the first archive leaves under a name is there in the end unless a later archive has the
name. -/
theorem Initrd.unpack_records (i : Initrd) (n : Bytes) :
    unpack i.records n = (lastNamed i.trailing.records n).or (lastNamed i.base.members n) := by
  rw [unpack_eq_lastNamed, i.records_eq, lastNamed_append]

end TalosP2P.Newc
