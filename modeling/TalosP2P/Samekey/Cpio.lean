import TalosP2P.Support.Loop
import TalosP2P.Support.Newc

/-!
# Samekey — Cpio

The cpio codec of `build-samekey-installer-base.py`: `parse_newc_archive` reads a stream record by
record, `write_newc_archive` writes the records one after the other.  The reader pads relative to
the record it reads, keeps the trailer as an entry, drops `ino` and `check`, and takes what
`int(·, 16)` takes.

* `readEntry_append`: one turn on a record laid out at the front of the stream.
* `parseLoop_eq_iff`: the reader's loop ends on every input.
* `Writable`: the entry lists the writer writes in records that read back;
  `parse_write` is the round trip, and `writable_of_parse` says that whatever the reader accepted
  is one of them.
-/

namespace TalosP2P.Samekey

open Python Newc Loop

/-- An entry as the script keeps it: no `ino`, no `check`. -/
structure CpioEntry where
  name : String
  mode : Int
  uid : Int
  gid : Int
  nlink : Int
  mtime : Int
  devmajor : Int
  devminor : Int
  rdevmajor : Int
  rdevminor : Int
  data : Bytes
  deriving DecidableEq, Repr

namespace CpioEntry

/-- The entry the script makes of what it read. -/
def ofFields (f : Fields) (name : String) (data : Bytes) : CpioEntry where
  name := name
  mode := f.mode
  uid := f.uid
  gid := f.gid
  nlink := f.nlink
  mtime := f.mtime
  devmajor := f.devmajor
  devminor := f.devminor
  rdevmajor := f.rdevmajor
  rdevminor := f.rdevminor
  data := data

/-- The name and the NUL after it. -/
def rawName (e : CpioEntry) : Bytes := encodeUtf8 e.name ++ [0]

/-- The fields the writer gives an entry: `ino` and `check` are zero. -/
def fields (e : CpioEntry) : Fields where
  ino := 0
  mode := e.mode
  uid := e.uid
  gid := e.gid
  nlink := e.nlink
  mtime := e.mtime
  filesize := e.data.length
  devmajor := e.devmajor
  devminor := e.devminor
  rdevmajor := e.rdevmajor
  rdevminor := e.rdevminor
  namesize := e.rawName.length
  check := 0

end CpioEntry

/-! ### `parse_newc_archive` -/

/-- The fields of a header.  The slices are `header[14:22]` to `header[94:102]`: `ino` and `check`
are not read, and stand here as zero. -/
def headerFields (header : Bytes) : Except Exc Fields :=
  Fields.readM fun k =>
    if k = 0 ∨ k = 12 then .ok 0 else int (slice header (6 + 8 * k : Nat) (14 + 8 * k : Nat))

/-- The padding after `size` bytes, as a number of bytes to read. -/
def padding (size : Int) : Int := (4 - size % 4) % 4

/-- `if padding: stream.read(padding)`. -/
def skip (stream : Bytes) (size : Int) : Except Exc Bytes :=
  if padding size = 0 then .ok stream else (read stream (padding size)).map Prod.snd

/-- What follows a header of the stream: the entry, and the stream after it. -/
def readEntry (header stream : Bytes) : Except Exc (CpioEntry × Bytes) := do
  let f ← headerFields header
  let (rawName, stream) ← read stream f.namesize
  -- counted from the record's start, wherever in the file the record starts
  let stream ← skip stream (110 + f.namesize)
  let name ← decode rawName.dropLast
  let (data, stream) ← read stream f.filesize
  let stream ← skip stream f.filesize
  return (.ofFields f name data, stream)

/-- One turn of the loop.  `keep` is what is appended for a header and its entry; the script keeps
the entry alone. -/
def parseTurn {α : Type} (keep : Bytes → CpioEntry → α) (archivePath : String) :
    Bytes × List α → Except Exc (Turn (Bytes × List α) (List α × Bytes))
  | (stream, entries) => do
    let (header, stream) ← read stream 110
    -- the end of the file, with or without a trailer before it
    if header = [] then
      return .done (entries, stream)
    if slice header 0 6 ≠ magic then
      throw (.runtimeError
        ("unexpected cpio magic " ++ reprBytes (slice header 0 6) ++ " in " ++ archivePath))
    let (entry, stream) ← readEntry header stream
    let entries := entries ++ [keep header entry]
    if entry.name = "TRAILER!!!" then
      return .done (entries, stream)
    return .next (stream, entries)

/-! ### One turn -/

theorem headerFields_eq_ok_iff {header : Bytes} {f : Fields} :
    headerFields header = .ok f ↔ f.ino = 0 ∧ f.check = 0 ∧
      ∀ k (hk : k < 13), k ≠ 0 → k ≠ 12 →
        int16 (fieldBytes header k) = some (f.toList.get ⟨k, hk⟩) := by
  have hslice : ∀ k, slice header (6 + 8 * k : Nat) (14 + 8 * k : Nat) = fieldBytes header k :=
    fun k => by rw [slice_natCast, fieldBytes]; congr 1; omega
  rw [headerFields, Fields.readM_eq_ok_iff]
  simp only [int, hslice]
  constructor
  · intro h
    refine ⟨?_, ?_, fun k hk h₀ h₁₂ => ?_⟩
    · have := h 0 (by omega)
      rw [if_pos (Or.inl rfl)] at this
      exact (Except.ok.inj this).symm
    · have := h 12 (by omega)
      rw [if_pos (Or.inr rfl)] at this
      exact (Except.ok.inj this).symm
    · have := h k hk
      rwa [if_neg (by omega), orRaise_eq_ok_iff] at this
  · rintro ⟨h₀, h₁₂, h⟩ k hk
    split
    · rename_i hk'
      rcases hk' with rfl | rfl
      · exact congrArg Except.ok h₀.symm
      · exact congrArg Except.ok h₁₂.symm
    · rw [orRaise_eq_ok_iff]
      exact h k hk (by omega) (by omega)

theorem padding_natCast (n : Nat) : padding n = (padLen n : Nat) := by
  rw [padding, padLen]; omega

theorem skip_natCast (stream : Bytes) (n : Nat) :
    skip stream n = .ok (stream.drop (padLen n)) := by
  rw [skip, padding_natCast]
  split
  · rw [show padLen n = 0 by omega]; rfl
  · rw [read_natCast]; rfl

/-- What `readEntry` makes of any stream, when the sizes are not negative: a stream that is too short
gives less of the name and of the data. -/
theorem readEntry_natCast {header stream : Bytes} {f : Fields} {n m : Nat}
    (hf : headerFields header = .ok f) (hn : f.namesize = n) (hm : f.filesize = m) :
    readEntry header stream = (decode (stream.take n).dropLast).map fun name =>
      (.ofFields f name ((stream.drop (n + padLen (110 + n))).take m),
        stream.drop (n + padLen (110 + n) + (m + padLen m))) := by
  have h110 : (110 : Int) + n = (110 + n : Nat) := by push_cast; rfl
  simp only [readEntry, hf, hn, hm, read_natCast, h110, skip_natCast, ok_bind, pure_eq_ok,
    List.drop_drop, Nat.add_assoc]
  cases decode (stream.take n).dropLast <;> rfl

/-- **One record.**  A header whose fields are numbers, followed by a name, the data and the
padding of these lengths, whatever the padding holds. -/
theorem readEntry_append {h raw p₁ d p₂ rest : Bytes} {f : Fields} (hf : headerFields h = .ok f)
    (hn : f.namesize = (raw.length : Nat)) (hp₁ : p₁.length = padLen (110 + raw.length))
    (hd : f.filesize = (d.length : Nat)) (hp₂ : p₂.length = padLen d.length) :
    readEntry h (raw ++ (p₁ ++ (d ++ (p₂ ++ rest)))) =
      (decode raw.dropLast).map fun name => (.ofFields f name d, rest) := by
  rw [readEntry_natCast hf hn hd, List.take_left, ← hp₁, ← hp₂]
  simp only [← List.drop_drop, List.drop_left, List.take_left]

/-- A turn that finds the magic does what `readEntry` makes of the header and what follows it. -/
theorem parseTurn_of_magic {α : Type} {keep : Bytes → CpioEntry → α} {path : String}
    {stream : Bytes} (hm : (stream.take 110).take 6 = magic) (acc : List α) :
    parseTurn keep path (stream, acc) = (readEntry (stream.take 110) (stream.drop 110)).map fun r =>
      if r.1.name = "TRAILER!!!" then .done (acc ++ [keep (stream.take 110) r.1], r.2)
      else .next (r.2, acc ++ [keep (stream.take 110) r.1]) := by
  have hread : read stream 110 = .ok (stream.take 110, stream.drop 110) := read_natCast stream 110
  have hslice : slice (stream.take 110) 0 6 = magic := (slice_natCast _ 0 6).trans hm
  have hne : stream.take 110 ≠ [] := fun h0 => by
    rw [h0] at hm
    exact absurd hm (by decide)
  simp only [parseTurn, hread, hslice, hne, bind, Except.bind, pure, Except.pure, if_false,
    ne_eq, not_true]
  cases readEntry (stream.take 110) (stream.drop 110) with
  | error e => rfl
  | ok r =>
      simp only [Except.map]
      split <;> rfl

/-- A turn over a whole header does what `readEntry` makes of what follows it. -/
theorem parseTurn_append {α : Type} {keep : Bytes → CpioEntry → α} {path : String}
    {h : Bytes} (hh : h.length = 110) (hm : h.take 6 = magic) (stream : Bytes) (acc : List α) :
    parseTurn keep path (h ++ stream, acc) =
      (readEntry h stream).map fun r =>
        if r.1.name = "TRAILER!!!" then .done (acc ++ [keep h r.1], r.2)
        else .next (r.2, acc ++ [keep h r.1]) := by
  have htake : (h ++ stream).take 110 = h := by rw [← hh, List.take_left]
  have hdrop : (h ++ stream).drop 110 = stream := by rw [← hh, List.drop_left]
  rw [parseTurn_of_magic (by rw [htake, hm]), htake, hdrop]

theorem parseTurn_nil {α : Type} {keep : Bytes → CpioEntry → α} {path : String} {acc : List α} :
    parseTurn keep path ([], acc) = .ok (.done (acc, [])) := rfl

/-- Everything a turn that does not raise can do. -/
theorem parseTurn_cases {α : Type} {keep : Bytes → CpioEntry → α} {path : String}
    {stream : Bytes} {acc : List α} {t : Turn (Bytes × List α) (List α × Bytes)}
    (h : parseTurn keep path (stream, acc) = .ok t) :
    (stream = [] ∧ t = .done (acc, [])) ∨
    ∃ e rest, stream ≠ [] ∧ (stream.take 110).take 6 = magic ∧
      readEntry (stream.take 110) (stream.drop 110) = .ok (e, rest) ∧
      t = if e.name = "TRAILER!!!" then .done (acc ++ [keep (stream.take 110) e], rest)
        else .next (rest, acc ++ [keep (stream.take 110) e]) := by
  have hread : read stream 110 = .ok (stream.take 110, stream.drop 110) := read_natCast stream 110
  have hslice : slice (stream.take 110) 0 6 = (stream.take 110).take 6 := slice_natCast _ 0 6
  by_cases hs : stream = []
  · subst hs
    exact .inl ⟨rfl, (Except.ok.inj h).symm⟩
  · have hhead : stream.take 110 ≠ [] := by simp [hs]
    simp only [parseTurn, hread, hslice, hhead, bind, Except.bind, pure, Except.pure, if_false]
      at h
    split at h
    · cases h
    · rename_i hm
      cases he : readEntry (stream.take 110) (stream.drop 110) with
      | error e => rw [he] at h; cases h
      | ok p =>
          obtain ⟨e, rest⟩ := p
          rw [he] at h
          refine .inr ⟨e, rest, hs, not_not.mp hm, rfl, ?_⟩
          simp only at h
          split at h
          · rename_i hn; rw [if_pos hn]; exact (Except.ok.inj h).symm
          · rename_i hn; rw [if_neg hn]; exact (Except.ok.inj h).symm

/-- What `readEntry` returns, whatever it was given. -/
theorem readEntry_inv {header stream rest : Bytes} {e : CpioEntry}
    (h : readEntry header stream = .ok (e, rest)) :
    ∃ (f : Fields) (raw : Bytes), headerFields header = .ok f ∧ raw.length ≤ stream.length ∧
      decodeUtf8 raw.dropLast = some e.name ∧ e = .ofFields f e.name e.data ∧
      e.data.length + rest.length ≤ stream.length := by
  have hskip : ∀ {s s' : Bytes} {n : Int}, skip s n = .ok s' → s'.length ≤ s.length := by
    intro s s' n hs
    rw [skip] at hs
    split at hs
    · cases hs; exact Nat.le_refl _
    · cases hr : read s (padding n) with
      | error e => rw [hr] at hs; cases hs
      | ok p =>
          rw [hr] at hs
          cases hs
          rw [← read_append hr, List.length_append]
          exact Nat.le_add_left _ _
  obtain ⟨f, hf, h⟩ := bind_eq_ok_iff.mp h
  obtain ⟨⟨raw, s₁⟩, hraw, h⟩ := bind_eq_ok_iff.mp h
  obtain ⟨s₂, hs₂, h⟩ := bind_eq_ok_iff.mp h
  obtain ⟨name, hname, h⟩ := bind_eq_ok_iff.mp h
  obtain ⟨⟨data, s₃⟩, hdata, h⟩ := bind_eq_ok_iff.mp h
  obtain ⟨s₄, hs₄, h⟩ := bind_eq_ok_iff.mp h
  cases h
  have h₁ := congrArg List.length (read_append hraw)
  have h₃ := congrArg List.length (read_append hdata)
  have h₂ := hskip hs₂
  have h₄ := hskip hs₄
  rw [List.length_append] at h₁ h₃
  refine ⟨f, raw, hf, by omega, ?_, rfl, ?_⟩
  · exact orRaise_eq_ok_iff.mp hname
  · show data.length + rest.length ≤ stream.length
    omega

/-! ### The loop -/

/-- A turn that goes round again has read at least one byte. -/
theorem parseTurn_decreasing {α : Type} {keep : Bytes → CpioEntry → α} {path : String}
    (s s' : Bytes × List α) (h : parseTurn keep path s = .ok (.next s')) :
    s'.1.length < s.1.length := by
  obtain ⟨stream, acc⟩ := s
  rcases parseTurn_cases h with ⟨-, ht⟩ | ⟨e, rest, hs, -, he, ht⟩
  · cases ht
  · obtain ⟨-, -, -, -, -, -, hlen⟩ := readEntry_inv he
    split at ht
    · cases ht
    · cases ht
      have : 0 < stream.length := List.length_pos_iff.mpr hs
      rw [List.length_drop] at hlen
      show rest.length < stream.length
      omega

/-- The loop of `parse_newc_archive` over a file, keeping `keep` of each record. -/
def parseLoop {α : Type} (keep : Bytes → CpioEntry → α) (archivePath : String) (file : Bytes) :
    Except Exc (List α × Bytes) :=
  Loop.eval (fun s : Bytes × List α => s.1.length) (@parseTurn_decreasing α keep archivePath)
    (file, [])

/-- `parse_newc_archive`: the entries, and what follows the trailer. -/
def parseNewcArchive (archivePath : String) (file : Bytes) : Except Exc (List CpioEntry × Bytes) :=
  parseLoop (fun _ e => e) archivePath file

theorem parseLoop_eq_iff {α : Type} {keep : Bytes → CpioEntry → α} {path : String} {file : Bytes}
    {r : Except Exc (List α × Bytes)} :
    parseLoop keep path file = r ↔ Returns (parseTurn keep path) (file, []) r :=
  Loop.eval_eq_iff _ _

/-- The loop keeps what it is told to keep, and reads the same file meanwhile. -/
theorem parseLoop_map {α β : Type} (g : α → β) (keep : Bytes → CpioEntry → α) (path : String)
    (file : Bytes) :
    parseLoop (fun h e => g (keep h e)) path file =
      (parseLoop keep path file).map fun r => (r.1.map g, r.2) := by
  have hstep : ∀ s : Bytes × List α,
      parseTurn (fun h e => g (keep h e)) path (s.1, s.2.map g) =
        (parseTurn keep path s).map
          (Turn.map (fun s => (s.1, s.2.map g)) fun r => (r.1.map g, r.2)) := by
    rintro ⟨stream, acc⟩
    simp only [parseTurn, bind, Except.bind, pure, Except.pure]
    cases read stream 110 with
    | error e => rfl
    | ok p =>
        simp only
        split
        · rfl
        · split
          · rfl
          · cases readEntry p.1 p.2 with
            | error e => rfl
            | ok q =>
                simp only
                split <;> simp [Except.map, Turn.map]
  exact parseLoop_eq_iff.mpr ((Returns.map_iff hstep).mpr ⟨_, parseLoop_eq_iff.mp rfl, rfl⟩)

/-! ### `write_newc_archive` -/

/-- The record of one entry. -/
def writeEntry (e : CpioEntry) : Bytes :=
  let namesize := (encodeUtf8 e.name).length + 1
  Newc.header e.fields ++ ((encodeUtf8 e.name ++ [0]) ++
    (List.replicate ((4 - (110 + namesize) % 4) % 4) 0 ++
      (e.data ++ List.replicate ((4 - e.data.length % 4) % 4) 0)))

/-- `write_newc_archive`: the bytes of the file. -/
def writeNewcArchive (entries : List CpioEntry) (trailingData : Bytes) : Bytes :=
  entries.flatMap writeEntry ++ trailingData

/-- Every number of the entry's header fits its eight characters. -/
def CpioEntry.Fits (e : CpioEntry) : Prop := ∀ v ∈ e.fields.toList, Fits08 v

instance (e : CpioEntry) : Decidable e.Fits :=
  inferInstanceAs (Decidable (∀ v ∈ e.fields.toList, Fits08 v))

theorem headerFields_header {e : CpioEntry} (he : e.Fits) :
    headerFields (Newc.header e.fields) = .ok e.fields := by
  refine headerFields_eq_ok_iff.mpr ⟨rfl, rfl, fun k hk _ _ => ?_⟩
  rw [fieldBytes_header he hk]
  exact int16_hex08 (he _ (List.get_mem _ _))

/-- One turn over a record the writer wrote. -/
theorem parseTurn_writeEntry {α : Type} (keep : Bytes → CpioEntry → α) (path : String)
    {e : CpioEntry} (he : e.Fits) (rest : Bytes) (acc : List α) :
    parseTurn keep path (writeEntry e ++ rest, acc) =
      .ok (if e.name = "TRAILER!!!" then .done (acc ++ [keep (Newc.header e.fields) e], rest)
        else .next (rest, acc ++ [keep (Newc.header e.fields) e])) := by
  have hraw : (encodeUtf8 e.name ++ [0]).length = (encodeUtf8 e.name).length + 1 := by simp
  have hread : readEntry (Newc.header e.fields) ((encodeUtf8 e.name ++ [0]) ++
      (pad (110 + ((encodeUtf8 e.name).length + 1)) ++ (e.data ++ (pad e.data.length ++ rest)))) =
      .ok (e, rest) := by
    rw [@readEntry_append _ (encodeUtf8 e.name ++ [0]) _ e.data _ _ _ (headerFields_header he) rfl
      (by rw [length_pad, hraw]) rfl (length_pad _), List.dropLast_concat, decode,
      decodeUtf8_encodeUtf8]
    rfl
  have happ : writeEntry e ++ rest = Newc.header e.fields ++ ((encodeUtf8 e.name ++ [0]) ++
      (pad (110 + ((encodeUtf8 e.name).length + 1)) ++ (e.data ++ (pad e.data.length ++ rest)))) := by
    simp only [writeEntry, pad, padLen, List.append_assoc]
  rw [happ, parseTurn_append (length_header he) (take_header _), hread]
  rfl

/-- The loop over the records of entries that do not end the archive. -/
theorem returns_writeEntries {α : Type} {keep : Bytes → CpioEntry → α} {path : String}
    {es : List CpioEntry} (hes : ∀ e ∈ es, e.Fits ∧ e.name ≠ "TRAILER!!!") (rest : Bytes)
    (acc : List α) (r : Except Exc (List α × Bytes)) :
    Returns (parseTurn keep path) (es.flatMap writeEntry ++ rest, acc) r ↔
      Returns (parseTurn keep path)
        (rest, acc ++ es.map fun e => keep (Newc.header e.fields) e) r := by
  induction es generalizing acc with
  | nil => simp
  | cons e es ih =>
      have he := hes e List.mem_cons_self
      have hturn := parseTurn_writeEntry keep path he.1
        (es.flatMap writeEntry ++ rest) acc
      rw [if_neg he.2] at hturn
      rw [List.flatMap_cons, List.append_assoc, Returns.next_iff hturn,
        ih (fun e' h' => hes e' (List.mem_cons_of_mem _ h')), List.map_cons, List.append_assoc]
      rfl

/-- The entry lists, with what follows them, that a file can hold: the trailer only at the end,
and nothing after the entries unless there is one. -/
structure Writable (entries : List CpioEntry) (trailingData : Bytes) : Prop where
  fits : ∀ e ∈ entries, e.Fits
  ends : (∃ front t, entries = front ++ [t] ∧ t.name = "TRAILER!!!" ∧
      ∀ e ∈ front, e.name ≠ "TRAILER!!!") ∨
    (trailingData = [] ∧ ∀ e ∈ entries, e.name ≠ "TRAILER!!!")

/-- **Round trip**, for everything the loop keeps. -/
theorem parseLoop_write {α : Type} (keep : Bytes → CpioEntry → α) (path : String)
    {es : List CpioEntry} {trailing : Bytes} (h : Writable es trailing) :
    parseLoop keep path (writeNewcArchive es trailing) =
      .ok (es.map (fun e => keep (Newc.header e.fields) e), trailing) := by
  rw [parseLoop_eq_iff, writeNewcArchive]
  rcases h.ends with ⟨front, t, rfl, ht, hfront⟩ | ⟨rfl, hes⟩
  · have htf : t.Fits := h.fits t (by simp)
    rw [List.flatMap_append, List.append_assoc, returns_writeEntries
      (fun e he => ⟨h.fits e (List.mem_append_left _ he), hfront e he⟩)]
    have hturn := parseTurn_writeEntry keep path htf trailing
      ([] ++ front.map fun e => keep (Newc.header e.fields) e)
    rw [if_pos ht] at hturn
    simpa using Returns.done hturn
  · rw [returns_writeEntries fun e he => ⟨h.fits e he, hes e he⟩]
    exact Returns.done parseTurn_nil

/-- **Round trip** of the script's codec. -/
theorem parse_write (path : String) {es : List CpioEntry} {trailing : Bytes}
    (h : Writable es trailing) :
    parseNewcArchive path (writeNewcArchive es trailing) = .ok (es, trailing) := by
  rw [parseNewcArchive, parseLoop_write _ _ h, List.map_id']

/-! ### Archives of the format -/

theorem headerFields_record (r : Record) :
    headerFields r.header = .ok { r.fields with ino := 0, check := 0 } := by
  refine headerFields_eq_ok_iff.mpr ⟨rfl, rfl, fun k hk h₀ h₁₂ => ?_⟩
  rw [r.int16_fieldBytes hk, ← r.fields_get hk]
  match k with
  | 0 => exact absurd rfl h₀
  | 12 => exact absurd rfl h₁₂
  | 1 | 2 | 3 | 4 | 5 | 6 | 7 | 8 | 9 | 10 | 11 => rfl
  | k + 13 => omega

/-- One turn over a record of the format, which is read when its name is UTF-8. -/
theorem parseTurn_record {path : String} (r : Record) (rest : Bytes) (acc : List CpioEntry)
    {t : Turn (Bytes × List CpioEntry) (List CpioEntry × Bytes)} :
    parseTurn (fun _ e => e) path (r.bytes ++ rest, acc) = .ok t ↔
      ∃ e, r.view CpioEntry.ofFields = some e ∧
        t = if r.name = trailerName then .done (acc ++ [e], rest) else .next (rest, acc ++ [e]) := by
  have hn : ({ r.fields with ino := 0, check := 0 } : Fields).namesize = (r.rawName.length : Nat) :=
    r.fields_namesize
  have happ : r.bytes ++ rest =
      r.header ++ (r.rawName ++ (r.namePad ++ (r.data ++ (r.dataPad ++ rest)))) := by
    simp only [Record.bytes, List.append_assoc]
  have hdrop : r.rawName.dropLast = r.name := by rw [Record.rawName, List.dropLast_concat]
  rw [happ, parseTurn_append r.length_header r.take_header, readEntry_append (headerFields_record r)
    hn (by rw [r.length_namePad, r.length_rawName]) r.fields_filesize r.length_dataPad, hdrop,
    Record.view, decode]
  cases hu : decodeUtf8 r.name with
  | none => simp [orRaise, Except.map]
  | some name =>
      have htr : r.name = trailerName ↔ name = "TRAILER!!!" := by
        rw [← encodeUtf8_of_decodeUtf8 hu, trailerName]
        exact encodeUtf8_injective.eq_iff
      simp only [orRaise, Except.map, Option.map_some, Option.some.injEq, exists_eq_left', htr,
        Except.ok.injEq]
      exact eq_comm

/-- The loop reads records that do not end the archive. -/
theorem reads_members {path : String} {rs : List Record} (hrs : ∀ r ∈ rs, r.name ≠ trailerName)
    (rest : Bytes) : Reads (parseTurn (fun _ e => e) path) (Record.view CpioEntry.ofFields) rs
      (rs.flatMap Record.bytes ++ rest) rest := by
  induction rs with
  | nil => exact .nil _
  | cons r rs ih =>
      rw [List.flatMap_cons, List.append_assoc]
      refine .cons (fun acc t => ?_) (ih fun r' h' => hrs r' (List.mem_cons_of_mem _ h'))
      simp only [parseTurn_record r, if_neg (hrs r List.mem_cons_self)]

/-- `parse_newc_archive` on an archive of the format and what follows it: the members, the trailer
as one more entry, and the rest. -/
theorem parse_archive_iff {path : String} {a : Archive} {rest : Bytes}
    {x : List CpioEntry × Bytes} :
    parseNewcArchive path (a.bytes ++ rest) = .ok x ↔
      ∃ es t, a.members.mapM (Record.view CpioEntry.ofFields) = some es ∧
        a.trailer.view CpioEntry.ofFields = some t ∧ x = (es ++ [t], rest) := by
  rw [parseNewcArchive, parseLoop_eq_iff, Archive.bytes, List.append_assoc,
    (reads_members a.members_name (a.trailer.bytes ++ rest)).returns_iff]
  obtain ⟨t, ht⟩ : ∃ t, a.trailer.view CpioEntry.ofFields = some t := by
    rw [Record.view, a.trailer_name, trailerName, decodeUtf8_encodeUtf8]
    exact ⟨_, rfl⟩
  refine exists_congr fun es => ?_
  have hturn := (@parseTurn_record path a.trailer rest ([] ++ es) _).mpr ⟨t, ht, rfl⟩
  rw [if_pos a.trailer_name] at hturn
  have hdone := Returns.done hturn
  constructor
  · rintro ⟨hes, h⟩
    exact ⟨t, hes, ht, (Except.ok.inj (hdone.unique h)).symm⟩
  · rintro ⟨t', hes, ht', rfl⟩
    rw [ht] at ht'
    cases ht'
    exact ⟨hes, hdone⟩

/-! ### What the reader accepts -/

theorem fits_of_readEntry {header stream rest : Bytes} {e : CpioEntry}
    (h : readEntry header stream = .ok (e, rest)) (hs : stream.length < 2 ^ 32 - 1) : e.Fits := by
  obtain ⟨f, raw, hf, hraw, hname, he, hdata⟩ := readEntry_inv h
  have hfit : ∀ k (hk : k < 13), k ≠ 0 → k ≠ 12 → Fits08 (f.toList.get ⟨k, hk⟩) :=
    fun k hk h₀ h₁₂ => fits08_of_int16 ((headerFields_eq_ok_iff.mp hf).2.2 k hk h₀ h₁₂)
      (by rw [fieldBytes, List.length_take]; omega)
  have hnat : ∀ n : Nat, n < 2 ^ 32 → Fits08 n := fun n hn => by
    constructor <;> push_cast <;> omega
  have hnl : e.rawName.length < 2 ^ 32 := by
    rw [CpioEntry.rawName, encodeUtf8_of_decodeUtf8 hname]
    simp only [List.length_append, List.length_dropLast, List.length_cons, List.length_nil]
    omega
  have hzero : Fits08 0 := by decide
  have hdl : Fits08 e.data.length := hnat _ (by omega)
  rw [CpioEntry.Fits, he, Fields.forall_toList]
  exact ⟨hzero, hfit 1 (by omega) (by omega) (by omega), hfit 2 (by omega) (by omega) (by omega),
    hfit 3 (by omega) (by omega) (by omega), hfit 4 (by omega) (by omega) (by omega),
    hfit 5 (by omega) (by omega) (by omega), hdl, hfit 7 (by omega) (by omega) (by omega),
    hfit 8 (by omega) (by omega) (by omega), hfit 9 (by omega) (by omega) (by omega),
    hfit 10 (by omega) (by omega) (by omega), hnat _ hnl, hzero⟩

/-- What the loop keeps: it reads a suffix of the file, and every entry so far fits and is no
trailer. -/
theorem parseTurn_fits {path : String} {file : Bytes} (hfile : file.length < 2 ^ 32)
    (s s' : Bytes × List CpioEntry)
    (hs : s.1.length ≤ file.length ∧ ∀ e ∈ s.2, e.Fits ∧ e.name ≠ "TRAILER!!!")
    (hturn : parseTurn (fun _ e => e) path s = .ok (.next s')) :
    s'.1.length ≤ file.length ∧ ∀ e ∈ s'.2, e.Fits ∧ e.name ≠ "TRAILER!!!" := by
  obtain ⟨stream, acc⟩ := s
  obtain ⟨hlen, hacc⟩ := hs
  have hdec := parseTurn_decreasing _ _ hturn
  refine ⟨by omega, ?_⟩
  rcases parseTurn_cases hturn with ⟨-, ht⟩ | ⟨e, rest, hs, -, he, ht⟩
  · cases ht
  · have hpos : 0 < stream.length := List.length_pos_iff.mpr hs
    simp only at hlen
    have hfit := fits_of_readEntry he (by rw [List.length_drop]; omega)
    split at ht
    · cases ht
    · rename_i hn
      cases ht
      intro e' he'
      rcases List.mem_append.mp he' with he' | he'
      · exact hacc e' he'
      · rw [List.mem_singleton.mp he']
        exact ⟨hfit, hn⟩

/-- Whatever the reader accepted is in the writer's domain. -/
theorem writable_of_parse {path : String} {file : Bytes} {es : List CpioEntry} {trailing : Bytes}
    (h : parseNewcArchive path file = .ok (es, trailing)) (hfile : file.length < 2 ^ 32) :
    Writable es trailing := by
  obtain ⟨⟨stream, acc⟩, -, ⟨hlen, hacc⟩, hturn⟩ := (parseLoop_eq_iff.mp h).invariant
    (P := fun s => s.1.length ≤ file.length ∧ ∀ e ∈ s.2, e.Fits ∧ e.name ≠ "TRAILER!!!")
    ⟨Nat.le_refl _, by simp⟩ fun s s' _ => parseTurn_fits hfile s s'
  · simp only at hlen
    rcases parseTurn_cases hturn with ⟨-, ht⟩ | ⟨e, rest, hs, -, he, ht⟩
    · cases ht
      exact ⟨fun e he => (hacc e he).1, .inr ⟨rfl, fun e he => (hacc e he).2⟩⟩
    · have hpos : 0 < stream.length := List.length_pos_iff.mpr hs
      have hfit := fits_of_readEntry he (by rw [List.length_drop]; omega)
      split at ht
      · rename_i hn
        cases ht
        refine ⟨fun e' he' => ?_, .inl ⟨acc, e, rfl, hn, fun e' he' => (hacc e' he').2⟩⟩
        rcases List.mem_append.mp he' with he' | he'
        · exact (hacc e' he').1
        · rwa [List.mem_singleton.mp he']
      · cases ht

end TalosP2P.Samekey
