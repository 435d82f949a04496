import TalosP2P.Uki.Sections

/-!
# Uki — Parts

What the sections of a rebuilt unified kernel image hold.  An image may have a section of one name
more than once, as one with several profiles does; both scripts take out every section of the four
names and put one of each back, but for `.profile`.

* `LawfulParts`: what is assumed of binutils, with the contents of the sections.
* `parts_relayout`: the rebuilt image is the kept sections and the three new ones.
* `Relaid.filter_eq`: so each of the three names has one section, and it holds the payload.
-/

namespace TalosP2P.Uki

open Python Layout

/-- The first section of a name, which is the one the programs look at. -/
def partNamed (name : String) (image : Image) : Option Part := image.find? fun s => s.name = name

/-- The programs show and change the sections of an image as their manual says, contents included.
An empty section is not dumped, so of that nothing is said. -/
structure LawfulParts {U : Type} (b : Binutils U) (parts : U → Image) : Prop where
  objdump : ∀ {u : U} {lines : List (List String)} {name : String}, b.objdump u = .ok lines →
    name ∈ removed →
    (lines.filter fun words => words.length ≥ 4 ∧ words.getD 1 "" = name).map (·.getD 3 "") =
      ((parts u).filter fun s => s.name = name).map fun s => vmaText s.vma.toNat
  dumpSection_some : ∀ {u : U} {name : String} {s : Part}, partNamed name (parts u) = some s →
    s.content ≠ [] → b.dumpSection name u = .ok s.content
  dumpSection_ok : ∀ {u : U} {name : String} {content : Bytes}, b.dumpSection name u = .ok content →
    ∃ s, partNamed name (parts u) = some s ∧ s.content = content
  removeSections : ∀ {u u' : U} {names : List String}, b.removeSections names u = .ok u' →
    (parts u').Perm ((parts u).filter fun s => s.name ∉ names)
  addSections : ∀ {u u' : U} {additions : List Addition}, b.addSections additions u = .ok u' →
    (parts u').Perm (parts u ++ additions.map fun a => ⟨a.name, address a.vma, a.payload⟩)

/-- The sections of `out` are those of `uki` but for the four names, and one section for each payload
at the VMA of the first old one. -/
def Relaid (uki out : Image) (cmdline linux initrd : Bytes) : Prop :=
  ∃ c l i, partNamed ".cmdline" uki = some c ∧ partNamed ".linux" uki = some l ∧
    partNamed ".initrd" uki = some i ∧
    out.Perm ((uki.filter fun s => s.name ∉ removed) ++
      [{ c with content := cmdline }, { l with content := linux }, { i with content := initrd }])

section

variable {U : Type} {b : Binutils U} {parts : U → Image}

/-- What is said of the contents says what was assumed of the layout. -/
theorem LawfulParts.lawful (hb : LawfulParts b parts) : Lawful b fun u => (parts u).sections where
  start_lt := by
    intro u s hs
    obtain ⟨part, -, rfl⟩ := List.mem_map.mp hs
    exact part.vma.toNat_lt
  objdump := by
    intro u lines name hlines hname
    rw [hb.objdump hlines hname, Image.sections, List.filter_map, List.map_map]
    rfl
  removeSections := by
    intro u u' names h
    refine ((hb.removeSections h).map _).trans (.of_eq ?_)
    rw [Image.sections, kept, List.filter_map]
    rfl
  addSections := by
    intro u u' additions placed h hplaces
    refine ((hb.addSections h).map _).trans (.of_eq ?_)
    rw [List.map_append, List.map_map]
    refine congrArg (_ ++ ·) ?_
    clear h
    induction hplaces with
    | nil => rfl
    | @cons a s _ _ hs _ ih =>
        have hstart : (address a.vma).toNat = s.start := by
          rw [hs.vma, address_vmaText hs.start_lt, UInt64.toNat_ofNat_of_lt' hs.start_lt]
        rw [List.map_cons, ih]
        exact congrArg (· :: _) (by simp only [Function.comp, hstart, ← hs.name, ← hs.size])

/-- The text the scripts read is the VMA of the first section of the name. -/
theorem address_sectionVma (hb : LawfulParts b parts) {missing : Exc} {uki : U} {name vma : String}
    (hname : name ∈ removed) (h : sectionVma b missing uki name = .ok vma) :
    ∃ s, partNamed name (parts uki) = some s ∧ address vma = s.vma ∧ s.name = name := by
  obtain ⟨old, hold, rfl⟩ := sectionVma_eq_ok hb.lawful hname h
  rw [Image.sections, List.find?_map, Option.map_eq_some_iff] at hold
  obtain ⟨s, hs, rfl⟩ := hold
  have hsn : partNamed name (parts uki) = some s := hs
  refine ⟨s, hsn, ?_, by simpa using List.find?_some hs⟩
  rw [address_vmaText s.vma.toNat_lt, UInt64.ofNat_toNat]

/-- **The rebuilt image**, from the VMAs that were read. -/
theorem parts_relayout (hb : LawfulParts b parts) {uki out : U} {cmdline linux initrd : Bytes}
    {e₁ e₂ e₃ : Exc} {cmdlineVma linuxVma initrdVma : String}
    (hc : sectionVma b e₁ uki ".cmdline" = .ok cmdlineVma)
    (hl : sectionVma b e₂ uki ".linux" = .ok linuxVma)
    (hi : sectionVma b e₃ uki ".initrd" = .ok initrdVma)
    (h : relayout b uki cmdline linux initrd cmdlineVma linuxVma initrdVma = .ok out) :
    Relaid (parts uki) (parts out) cmdline linux initrd := by
  obtain ⟨stripped, hstripped, hadd⟩ := bind_eq_ok_iff.mp h
  obtain ⟨c, hc, hca, hcn⟩ := address_sectionVma hb (by decide) hc
  obtain ⟨l, hl, hla, hln⟩ := address_sectionVma hb (by decide) hl
  obtain ⟨i, hi, hia, hin⟩ := address_sectionVma hb (by decide) hi
  refine ⟨c, l, i, hc, hl, hi, (hb.addSections hadd).trans ?_⟩
  refine ((hb.removeSections hstripped).append_right _).trans (.of_eq ?_)
  simp only [List.map_cons, List.map_nil, hca, hla, hia]
  rw [← hcn, ← hln, ← hin]

end

/-! ### The sections of a relaid image -/

section

variable {uki out : Image} {cmdline linux initrd : Bytes}

/-- A relaid image has one section of each of the three names, with the payload. -/
theorem Relaid.filter_eq (h : Relaid uki out cmdline linux initrd) {name : String} {payload : Bytes}
    (hp : (name, payload) ∈ [(".cmdline", cmdline), (".linux", linux), (".initrd", initrd)]) :
    ∃ old, partNamed name uki = some old ∧
      out.filter (fun s => s.name = name) = [{ old with content := payload }] := by
  obtain ⟨c, l, i, hc, hl, hi, hout⟩ := h
  have hcn : c.name = ".cmdline" := by simpa using List.find?_some hc
  have hln : l.name = ".linux" := by simpa using List.find?_some hl
  have hin : i.name = ".initrd" := by simpa using List.find?_some hi
  simp only [List.mem_cons, Prod.mk.injEq, List.not_mem_nil, or_false] at hp
  have hremoved : name ∈ removed := by
    rcases hp with ⟨rfl, -⟩ | ⟨rfl, -⟩ | ⟨rfl, -⟩ <;> decide
  -- No kept section has the name, whatever the old image had of it.
  have hkept : ((uki.filter fun s => s.name ∉ removed).filter fun s => s.name = name) = [] := by
    refine List.filter_eq_nil_iff.mpr fun s hs => ?_
    have hs := (List.mem_filter.mp hs).2
    simp only [decide_eq_true_eq] at hs ⊢
    rintro rfl
    exact hs hremoved
  have hfilter := hout.filter fun s => s.name = name
  rw [List.filter_append, hkept, List.nil_append] at hfilter
  rcases hp with ⟨rfl, rfl⟩ | ⟨rfl, rfl⟩ | ⟨rfl, rfl⟩
  · exact ⟨c, hc, List.perm_singleton.mp (by simpa [hcn, hln, hin] using hfilter)⟩
  · exact ⟨l, hl, List.perm_singleton.mp (by simpa [hcn, hln, hin] using hfilter)⟩
  · exact ⟨i, hi, List.perm_singleton.mp (by simpa [hcn, hln, hin] using hfilter)⟩

theorem Relaid.find?_eq (h : Relaid uki out cmdline linux initrd) {n : String} {d : Bytes}
    (hp : (n, d) ∈ [(".cmdline", cmdline), (".linux", linux), (".initrd", initrd)]) :
    ∃ s, partNamed n out = some s ∧ s.content = d := by
  obtain ⟨old, -, hfilter⟩ := h.filter_eq hp
  refine ⟨{ old with content := d }, ?_, rfl⟩
  rw [partNamed, ← List.head?_filter, hfilter]
  rfl

end

/-- What is dumped from a relaid image is the payload. -/
theorem dumpSection_relaid {U : Type} {b : Binutils U} {parts : U → Image} (hb : LawfulParts b parts)
    {uki : Image} {out : U} {cmdline linux initrd : Bytes}
    (h : Relaid uki (parts out) cmdline linux initrd) {n : String} {d : Bytes}
    (hp : (n, d) ∈ [(".cmdline", cmdline), (".linux", linux), (".initrd", initrd)])
    (hne : d ≠ []) : b.dumpSection n out = .ok d := by
  obtain ⟨s, hs, rfl⟩ := h.find?_eq hp
  exact hb.dumpSection_some hs hne

end TalosP2P.Uki
