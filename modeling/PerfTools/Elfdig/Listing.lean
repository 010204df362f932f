import PerfTools.Elfdig.Sections

/-!
# What elfdig lists

For a file with all its sections the tool writes one line for each symbol, one for each dynamic
symbol and one for each dynamic entry before the first empty one, in the order of the tables, and
nothing else.
-/

namespace PerfTools.Elfdig

open Elf Memory Printf Exec

/-! ## The lines -/

/-- Where entry k of the table in section i starts. -/
def entryAt (src : List UInt8) (i size k : Nat) : Nat := shdr src i Shdr.shOffset + k * size

/-- The name of entry k in the table of section i, in the strings of section j. -/
def entryName (src : List UInt8) (i j k : Nat) : CString :=
  cstringOf ((fileImage src j).drop (fieldAt src (entryAt src i Sym.size k) Sym.stName))

/-- The name of the section that a symbol belongs to; reserved indices have none. -/
def sectionText (src : List UInt8) (index : Nat) : Text :=
  if index < ehdr src Ehdr.eShnum then (sectionName src index).chars else []

/-- The line of symbol k in section i, with its name from section j. -/
def symbolLine (src : List UInt8) (i j k : Nat) : Text :=
  ascii "value " ++ Hex.fixed 8 (fieldAt src (entryAt src i Sym.size k) Sym.stValue) ++
    ascii " size " ++ Hex.fixed 8 (fieldAt src (entryAt src i Sym.size k) Sym.stSize) ++
    ascii " shndx " ++ padLeft space 16
      (sectionText src (fieldAt src (entryAt src i Sym.size k) Sym.stShndx)) ++
    ascii " name " ++ (entryName src i j k).chars ++ [newline]

def tag (src : List UInt8) (i k : Nat) : Nat := fieldAt src (entryAt src i Dyn.size k) Dyn.dTag

/-- The line of dynamic entry k in section i. -/
def dynLine (src : List UInt8) (i k : Nat) : Text :=
  Hex.fixed 8 (tag src i k) ++ padLeft space 16 (ascii (dynType (toInt (tag src i k)))) ++
    ascii "  " ++ Hex.fixed 8 (fieldAt src (entryAt src i Dyn.size k) Dyn.dVal) ++ [newline]

/-- The sections that elfdig reads, by their indices. -/
structure Tables where
  strtab : Nat
  symtab : Nat
  dynstr : Nat
  dynsym : Nat
  dynamic : Nat

/-- The lines in the order of the tables; the first entry without a tag ends the dynamic ones. -/
def listedLines (src : List UInt8) (t : Tables) : List Text :=
  (List.range (shdr src t.symtab Shdr.shSize / Sym.size)).map (symbolLine src t.symtab t.strtab) ++
  (List.range (shdr src t.dynsym Shdr.shSize / Sym.size)).map (symbolLine src t.dynsym t.dynstr) ++
  ((List.range (shdr src t.dynamic Shdr.shSize / Dyn.size)).takeWhile
    fun k => tag src t.dynamic k ≠ 0).map (dynLine src t.dynamic)

/-! ## The file -/

/-- Section i is the only one of the name. -/
@[mk_iff]
structure OneNamed (src : List UInt8) (name : String) (i : Nat) : Prop where
  index : i < ehdr src Ehdr.eShnum
  named : (sectionName src i).chars = ascii name
  only : ∀ j < ehdr src Ehdr.eShnum, (sectionName src j).chars = ascii name → j = i

instance (src : List UInt8) (name : String) (i : Nat) : Decidable (OneNamed src name i) :=
  decidable_of_iff _ (oneNamed_iff src name i).symm

/-- A file with one section of each name, all of them below 2 GiB, and every symbol name in its
table. -/
@[mk_iff]
structure ListedFile (src : List UInt8) (t : Tables) : Prop where
  headed : HeadedFile src
  offset : ehdr src Ehdr.eShoff < 2 ^ 31
  namesRead : Readable src (ehdr src Ehdr.eShstrndx)
  strtab : OneNamed src ".strtab" t.strtab
  symtab : OneNamed src ".symtab" t.symtab
  dynstr : OneNamed src ".dynstr" t.dynstr
  dynsym : OneNamed src ".dynsym" t.dynsym
  dynamic : OneNamed src ".dynamic" t.dynamic
  strtabRead : Readable src t.strtab
  symtabRead : Readable src t.symtab
  dynstrRead : Readable src t.dynstr
  dynsymRead : Readable src t.dynsym
  dynamicRead : Readable src t.dynamic
  symNames : ∀ k < shdr src t.symtab Shdr.shSize / Sym.size, readString (fileImage src t.strtab)
    (fieldAt src (entryAt src t.symtab Sym.size k) Sym.stName) =
      .ok (entryName src t.symtab t.strtab k)
  dynsymNames : ∀ k < shdr src t.dynsym Shdr.shSize / Sym.size, readString (fileImage src t.dynstr)
    (fieldAt src (entryAt src t.dynsym Sym.size k) Sym.stName) =
      .ok (entryName src t.dynsym t.dynstr k)
  dynEntsize : shdr src t.dynamic Shdr.shEntsize = Dyn.size

instance (src : List UInt8) (t : Tables) : Decidable (ListedFile src t) :=
  decidable_of_iff _ (listedFile_iff src t).symm

theorem OneNamed.firstNamed {src : List UInt8} {name : String} {i : Nat}
    (h : OneNamed src name i) : firstNamed src name = some i := by
  cases hfirst : Elf.firstNamed src name with
  | none => exact absurd h.named (firstNamed_none hfirst h.index)
  | some j => rw [h.only j (firstNamed_some hfirst).1 (firstNamed_some hfirst).2]

/-! ## Loading -/

/-- The text that a run has written to stderr. -/
def output (es : List Event) : Text := es.flatMap Event.stderr

@[simp] theorem output_append (es fs : List Event) : output (es ++ fs) = output es ++ output fs :=
  List.flatMap_append

/-- So far: the object, the output, and no message. -/
structure ListedSoFar (obj : ElfObj) (out : Text) (s : Proc ElfObj) : Prop where
  vars : s.vars = obj
  written : output s.trace = out
  silent : ∀ function message, .perr function message ∉ s.trace

namespace ListedSoFar

variable {obj : ElfObj} {out : Text} {s : Proc ElfObj} (hs : ListedSoFar obj out s)
include hs

theorem append (es : List Event) (hes : ∀ function message, .perr function message ∉ es)
    (pos : Nat) : ListedSoFar obj (out ++ output es) ⟨pos, s.trace ++ es, s.vars⟩ := by
  refine ⟨hs.vars, by rw [output_append, hs.written], fun function message hmem => ?_⟩
  rcases List.mem_append.mp hmem with hmem | hmem
  · exact hs.silent _ _ hmem
  · exact hes _ _ hmem

theorem read (target : Target) (pos : Nat) :
    ListedSoFar obj out ⟨pos, s.trace ++ [.read target true], s.vars⟩ := by
  have hnext := hs.append [.read target true] (by simp) pos
  rwa [show output [.read target true] = [] from rfl, List.append_nil] at hnext

theorem text (t : Text) : ListedSoFar obj (out ++ t) ⟨s.pos, s.trace ++ [.text t], s.vars⟩ := by
  have hnext := hs.append [.text t] (by simp) s.pos
  rwa [show output [.text t] = t from List.append_nil t] at hnext

theorem set (f : ElfObj → ElfObj) : ListedSoFar (f obj) out { s with vars := f s.vars } :=
  ⟨congrArg f hs.vars, hs.written, hs.silent⟩

end ListedSoFar

/-- The object once the section headers are loaded. -/
def headedObj (src : List UInt8) : ElfObj :=
  { ElfObj.unset with
    head := some (some (chunk src 0 Ehdr.size))
    sections := some (some (sectionArray src))
    sectionNum := some (ehdr src Ehdr.eShnum)
    shstrtab := some (contentsOf src (ehdr src Ehdr.eShstrndx))
    shstrtabLen := some (toInt (shdr src (ehdr src Ehdr.eShstrndx) Shdr.shSize)) }

def withSymbols (src : List UInt8) (t : Tables) (obj : ElfObj) : ElfObj :=
  { obj with
    strtab := some (contentsOf src t.strtab)
    symNum := some (shdr src t.symtab Shdr.shSize / Sym.size : Nat)
    sym := some (contentsOf src t.symtab) }

def withDynamicSymbols (src : List UInt8) (t : Tables) (obj : ElfObj) : ElfObj :=
  { obj with
    dynstr := some (contentsOf src t.dynstr)
    dynsymNum := some (shdr src t.dynsym Shdr.shSize / Sym.size : Nat)
    dynsym := some (contentsOf src t.dynsym) }

def withDynamics (src : List UInt8) (t : Tables) (obj : ElfObj) : ElfObj :=
  { obj with
    dyn := some (contentsOf src t.dynamic)
    dynNum := some (shdr src t.dynamic Shdr.shSize / Dyn.size : Nat) }

/-- The object that elf_init returns. -/
def loadedObj (src : List UInt8) (t : Tables) : ElfObj :=
  withDynamics src t (withDynamicSymbols src t (withSymbols src t (headedObj src)))

theorem headedObj_headed (src : List UInt8) : Headed src (headedObj src) := ⟨rfl, rfl, rfl, rfl⟩

section

variable {host : Host} {s : Proc ElfObj} {E : Stop → Proc ElfObj → Prop} {obj : ElfObj}
  {out : Text} {t : Tables} (hhost : host.Healthy) (h : ListedFile host.file t)
include hhost h

private theorem wp_elfSectionHeadRead_listed {Q : Unit → Proc ElfObj → Prop}
    (hQ : ∀ s', ListedSoFar (headedObj host.file) [] s' → Q () s') :
    wp (elfSectionHeadRead host) Q E ElfObj.start := by
  apply wp_elfSectionHeadRead (h.headed.array h.offset) hhost.malloc
  intro s hs hvars hnames
  obtain ⟨_, ⟨pos, rfl⟩, hshstrtab, htrace⟩ := hnames
  have hfield (f : Field) : fieldAt host.file (ehdr host.file Ehdr.eShoff +
      ehdr host.file Ehdr.eShstrndx * Shdr.size) f =
        shdr host.file (ehdr host.file Ehdr.eShstrndx) f := by
    rw [shdr, shdrAt, h.headed.entsize]
  rw [hfield, hfield, transfer_described hhost.malloc h.namesRead.1 h.namesRead.2.1
    (Or.inr h.namesRead.2.2)] at hshstrtab htrace
  have hlen := hs.shstrtabLen
  rw [hfield] at hlen
  apply hQ
  constructor
  · rw [hvars, hs.head, hs.sections, hs.sectionNum, hlen, hshstrtab, headedObj, contentsOf,
      if_pos h.namesRead]
  · rw [htrace]
    rfl
  · intro function message hmem
    rw [htrace] at hmem
    simp at hmem

private theorem wp_elfSectionOf_listed {Q : Option Ptr → Proc ElfObj → Prop} {i : Nat}
    (hi : i < ehdr host.file Ehdr.eShnum) (hread : Readable host.file i)
    (hs : ListedSoFar obj out s)
    (hQ : ∀ s', ListedSoFar obj out s' → Q (contentsOf host.file i) s') :
    wp (elfSectionOf host (some (sectionEntry host.file i))) Q E s := by
  rw [wp_elfSectionOf h.headed h.offset hi, wp_elfFileRead,
    transfer_described hhost.malloc hread.1 hread.2.1 (Or.inr hread.2.2)]
  have hcontents : contentsOf host.file i = some (chunk host.file
      (shdr host.file i Shdr.shOffset) (shdr host.file i Shdr.shSize)) := if_pos hread
  rw [← hcontents]
  exact hQ _ (hs.read _ _)

omit hhost in
private theorem wp_elfSectionHead_listed {Q : Option Ptr → Proc ElfObj → Prop} {name : String}
    {i : Nat} (hname : 0 ∉ ascii name) (hone : OneNamed host.file name i)
    (hobj : Headed host.file obj) (hs : ListedSoFar obj out s)
    (hQ : Q (some (sectionEntry host.file i)) s) : wp (elfSectionHead name) Q E s := by
  rw [wp_elfSectionHead h.headed h.offset hname h.namesRead (by rw [hs.vars]; exact hobj),
    hone.firstNamed]
  exact hQ

private theorem wp_elfSymRead_listed {Q : Int → Proc ElfObj → Prop}
    (hobj : Headed host.file obj) (hs : ListedSoFar obj out s)
    (hQ : ∀ r s', ListedSoFar (withSymbols host.file t obj) out s' → Q r s') :
    wp (elfSymRead host) Q E s := by
  obtain ⟨p, hstrtab⟩ : ∃ p, contentsOf host.file t.strtab = some p := ⟨_, if_pos h.strtabRead⟩
  rw [elfSymRead, elfSection, wp_bind, wp_bind]
  apply wp_elfSectionHead_listed h (by decide) h.strtab hobj hs
  apply wp_elfSectionOf_listed hhost h h.strtab.index h.strtabRead hs
  intro s₁ hs₁
  rw [hstrtab]
  dsimp only
  rw [wp_bind, wp_setVars, wp_bind]
  have hset := hs₁.set fun obj => { obj with strtab := some (some p) }
  have hheaded : Headed host.file { obj with strtab := some (some p) } :=
    ⟨hobj.sections, hobj.sectionNum, hobj.shstrtab, hobj.shstrtabLen⟩
  apply wp_elfSectionHead_listed h (by decide) h.symtab hheaded hset
  dsimp only
  rw [wp_bind, h.headed.entry_get h.offset h.symtab.index (by decide), wp_lift_ok, wp_bind,
    wp_setVars, wp_bind]
  apply wp_elfSectionOf_listed hhost h h.symtab.index h.symtabRead (hset.set fun obj =>
    { obj with symNum := some (shdr host.file t.symtab Shdr.shSize / Sym.size : Nat) })
  intro s₂ hs₂
  rw [wp_bind, wp_setVars, wp_pure]
  apply hQ
  have hlast := hs₂.set fun obj => { obj with sym := some (contentsOf host.file t.symtab) }
  rwa [withSymbols, hstrtab]

private theorem wp_elfDynsymRead_listed {Q : Int → Proc ElfObj → Prop}
    (hobj : Headed host.file obj) (hs : ListedSoFar obj out s)
    (hQ : ∀ r s', ListedSoFar (withDynamicSymbols host.file t obj) out s' → Q r s') :
    wp (elfDynsymRead host) Q E s := by
  obtain ⟨p, hdynstr⟩ : ∃ p, contentsOf host.file t.dynstr = some p := ⟨_, if_pos h.dynstrRead⟩
  rw [elfDynsymRead, elfSection, wp_bind, wp_bind]
  apply wp_elfSectionHead_listed h (by decide) h.dynstr hobj hs
  apply wp_elfSectionOf_listed hhost h h.dynstr.index h.dynstrRead hs
  intro s₁ hs₁
  rw [hdynstr]
  dsimp only
  rw [wp_bind, wp_setVars, wp_bind]
  have hset := hs₁.set fun obj => { obj with dynstr := some (some p) }
  have hheaded : Headed host.file { obj with dynstr := some (some p) } :=
    ⟨hobj.sections, hobj.sectionNum, hobj.shstrtab, hobj.shstrtabLen⟩
  apply wp_elfSectionHead_listed h (by decide) h.dynsym hheaded hset
  dsimp only
  rw [wp_bind, h.headed.entry_get h.offset h.dynsym.index (by decide), wp_lift_ok, wp_bind,
    wp_setVars, wp_bind]
  apply wp_elfSectionOf_listed hhost h h.dynsym.index h.dynsymRead (hset.set fun obj =>
    { obj with dynsymNum := some (shdr host.file t.dynsym Shdr.shSize / Sym.size : Nat) })
  intro s₂ hs₂
  rw [wp_bind, wp_setVars, wp_pure]
  apply hQ
  have hlast := hs₂.set fun obj => { obj with dynsym := some (contentsOf host.file t.dynsym) }
  rwa [withDynamicSymbols, hdynstr]

private theorem wp_elfDynRead_listed {Q : Int → Proc ElfObj → Prop}
    (hobj : Headed host.file obj) (hs : ListedSoFar obj out s)
    (hQ : ∀ r s', ListedSoFar (withDynamics host.file t obj) out s' → Q r s') :
    wp (elfDynRead host) Q E s := by
  have hsize := h.dynamicRead.2.1
  have height : toInt Dyn.size = (8 : Nat) := by decide
  have hnum : intDiv (toInt (shdr host.file t.dynamic Shdr.shSize)) (toInt Dyn.size) =
      .ok (shdr host.file t.dynamic Shdr.shSize / Dyn.size : Nat) := by
    rw [height, toInt_of_lt hsize, intDiv, if_neg (by decide), ← Int.ofNat_tdiv, Dyn.size]
    exact checked_natCast (by omega)
  rw [elfDynRead, wp_bind]
  apply wp_elfSectionHead_listed h (by decide) h.dynamic hobj hs
  dsimp only
  rw [wp_bind, h.headed.entry_get h.offset h.dynamic.index (by decide), wp_lift_ok, h.dynEntsize,
    if_neg (fun hbad => hbad.2 (by decide)), wp_bind,
    h.headed.entry_get h.offset h.dynamic.index (by decide), wp_lift_ok, wp_bind, hnum, wp_lift_ok,
    wp_bind]
  apply wp_elfSectionOf_listed hhost h h.dynamic.index h.dynamicRead hs
  intro s₁ hs₁
  rw [wp_bind, wp_setVars, wp_pure]
  exact hQ _ _ (hs₁.set (withDynamics host.file t))

private theorem wp_elfInit_listed {Q : Bool → Proc ElfObj → Prop}
    (hQ : ∀ s', ListedSoFar (loadedObj host.file t) [] s' → Q true s') :
    wp (elfInit host) Q E ElfObj.start := by
  have hlen := h.headed.header
  rw [Ehdr.size] at hlen
  have hheaded := headedObj_headed host.file
  rw [elfInit, if_neg (by rw [hhost.canOpen]; decide), if_neg (by omega),
    if_neg (by rw [hhost.malloc]; decide), wp_bind]
  apply wp_elfSectionHeadRead_listed hhost h
  intro s₁ hs₁
  rw [wp_bind]
  apply wp_elfSymRead_listed hhost h hheaded hs₁
  intro _ s₂ hs₂
  rw [wp_bind]
  have hheaded₂ : Headed host.file (withSymbols host.file t (headedObj host.file)) :=
    ⟨rfl, rfl, rfl, rfl⟩
  apply wp_elfDynsymRead_listed hhost h hheaded₂ hs₂
  intro _ s₃ hs₃
  rw [wp_bind]
  have hheaded₃ : Headed host.file (withDynamicSymbols host.file t
      (withSymbols host.file t (headedObj host.file))) := ⟨rfl, rfl, rfl, rfl⟩
  apply wp_elfDynRead_listed hhost h hheaded₃ hs₃
  intro _ s₄ hs₄
  exact hQ s₄ hs₄

/-! ## Showing -/

omit hhost h in
private theorem symbolLine_text (value size : Nat) (sectionName name : CString) :
    (lit "value " ++ [Directive.hex zeroDigit false 8 value] ++ lit " size " ++
      [Directive.hex zeroDigit false 8 size] ++ lit " shndx " ++ [Directive.str 16 sectionName] ++
      lit " name " ++ [Directive.str 0 name] ++ lit "\n").flatMap Directive.text =
      ascii "value " ++ Hex.fixed 8 value ++ ascii " size " ++ Hex.fixed 8 size ++
        ascii " shndx " ++ padLeft space 16 sectionName.chars ++ ascii " name " ++ name.chars ++
        [newline] := by
  have hsection : (Directive.str 16 sectionName).text = padLeft space 16 sectionName.chars := rfl
  have hname : (Directive.str 0 name).text = name.chars := by simp [Directive.text, padLeft]
  have hlf : ascii "\n" = [newline] := rfl
  simp only [List.flatMap_append, lit_text, List.flatMap_singleton, Directive.text_hexWord,
    hsection, hname, hlf]

omit hhost h in
private theorem dynLine_text (n value : Nat) :
    [Directive.hex zeroDigit false 8 n].flatMap Directive.text ++
      ([Directive.str 16 (cstringOf (ascii (dynType (toInt n))))].flatMap Directive.text ++
        (lit "  " ++ [Directive.hex zeroDigit false 8 value] ++ lit "\n").flatMap
          Directive.text) =
      Hex.fixed 8 n ++ padLeft space 16 (ascii (dynType (toInt n))) ++ ascii "  " ++
        Hex.fixed 8 value ++ [newline] := by
  have htype : (Directive.str 16 (cstringOf (ascii (dynType (toInt n))))).text =
      padLeft space 16 (ascii (dynType (toInt n))) := by
    rw [Directive.text, cstringOf_chars (dynType_plain (toInt n)).1]
  have hlf : ascii "\n" = [newline] := rfl
  simp only [List.flatMap_append, lit_text, List.flatMap_singleton, Directive.text_hexWord, htype,
    hlf, List.append_assoc]

omit hhost h in
private theorem entry_get {i size k : Nat} (hread : Readable host.file i)
    (hk : k < shdr host.file i Shdr.shSize / size) {f : Field} (hf : f.off + f.width ≤ size) :
    ((chunk host.file (shdr host.file i Shdr.shOffset) (shdr host.file i Shdr.shSize)).add
      (k * size)).get f = .ok (fieldAt host.file (entryAt host.file i size k) f) := by
  have hle : (k + 1) * size ≤ shdr host.file i Shdr.shSize / size * size :=
    Nat.mul_le_mul_right _ hk
  have hdiv := Nat.div_mul_le_self (shdr host.file i Shdr.shSize) size
  rw [Nat.succ_mul] at hle
  have hviews := Ptr.views_add
    (Ptr.views_mono (chunk_views hread.2.2) (by omega : k * size + size ≤ _))
  rw [Ptr.get_of_views hviews hf, Ptr.add_position, chunk_position, entryAt]

omit hhost in
private theorem wp_symSectionName {Q : CString → Proc ElfObj → Prop} {index : Nat}
    (hs : Headed host.file s.vars)
    (hQ : ∀ name, name.chars = sectionText host.file index → Q name s) :
    wp (symSectionName index) Q E s := by
  rw [symSectionName, wp_bind, elfSectionHeadByIndex, wp_bind, wp_field hs.sectionNum, wp_ite]
  constructor
  · intro hbeyond
    apply hQ empty
    rw [sectionText, if_neg (by omega)]
    rfl
  · intro hlt
    have hi : index < ehdr host.file Ehdr.eShnum := by omega
    have hname := h.headed.held index hi
    have hsize := h.namesRead.2.1
    have hin : shdr host.file index Shdr.shName < (nameTable host.file).length := by
      unfold readString at hname
      split_ifs at hname with hlt
      omega
    have hle : (nameTable host.file).length ≤
        shdr host.file (ehdr host.file Ehdr.eShstrndx) Shdr.shSize := by simp [nameTable]
    rw [wp_bind, wp_field hs.sections, wp_bind, deref_some, wp_lift_ok, wp_pure,
      Int.toNat_natCast]
    dsimp only
    rw [← sectionEntry, wp_bind, h.headed.entry_get h.offset hi (by decide), wp_lift_ok,
      elfSectionName, wp_bind, wp_field hs.shstrtabLen, wp_bind, wp_field hs.shstrtab,
      toInt_of_lt hsize, toInt_of_lt (by omega), if_neg (by omega), ← toInt_of_lt (by omega),
      stringAt_contents h.namesRead hname, wp_lift_ok]
    apply hQ
    rw [sectionText, if_pos hi]

omit hhost in
private theorem wp_showSymbol {Q : Unit → Proc ElfObj → Prop} {symName : Int → DigRun CString}
    {i j k : Nat} (hi : Readable host.file i) (hk : k < shdr host.file i Shdr.shSize / Sym.size)
    (hobj : Headed host.file obj) (hs : ListedSoFar obj out s)
    (hname : wp (symName (toInt (fieldAt host.file (entryAt host.file i Sym.size k) Sym.stName)))
      (fun name s' => name = entryName host.file i j k ∧ s' = s) E s)
    (hQ : ∀ s', ListedSoFar obj (out ++ symbolLine host.file i j k) s' → Q () s') :
    wp (showSymbol symName ((chunk host.file (shdr host.file i Shdr.shOffset)
      (shdr host.file i Shdr.shSize)).add (k * Sym.size))) Q E s := by
  have hget : ∀ {f : Field}, f.off + f.width ≤ Sym.size → ((chunk host.file
      (shdr host.file i Shdr.shOffset) (shdr host.file i Shdr.shSize)).add (k * Sym.size)).get f =
        .ok (fieldAt host.file (entryAt host.file i Sym.size k) f) := entry_get hi hk
  rw [showSymbol, wp_bind, hget (by decide), wp_lift_ok, wp_bind]
  apply wp_symSectionName h (by rw [hs.vars]; exact hobj)
  intro sectionName hsection
  rw [wp_bind, hget (by decide), wp_lift_ok, wp_bind]
  apply wp_mono hname _ fun _ _ he => he
  rintro name _ ⟨rfl, rfl⟩
  rw [wp_bind, hget (by decide), wp_lift_ok, wp_bind, hget (by decide), wp_lift_ok, wp_print]
  rw [symbolLine_text, hsection]
  exact hQ _ (hs.text (symbolLine host.file i j k))

omit hhost in
private theorem wp_showSymbols {Q : Unit → Proc ElfObj → Prop} {symName : Int → DigRun CString}
    {i j : Nat} (hi : Readable host.file i) (hobj : Headed host.file obj)
    (hs : ListedSoFar obj out s)
    (hname : ∀ k < shdr host.file i Shdr.shSize / Sym.size, ∀ s : Proc ElfObj, s.vars = obj →
      wp (symName (toInt (fieldAt host.file (entryAt host.file i Sym.size k) Sym.stName)))
        (fun name s' => name = entryName host.file i j k ∧ s' = s) E s)
    (hQ : ∀ s', ListedSoFar obj (out ++ ((List.range (shdr host.file i Shdr.shSize / Sym.size)).map
      (symbolLine host.file i j)).flatten) s' → Q () s') :
    wp (forEachEntry (contentsOf host.file i) (shdr host.file i Shdr.shSize / Sym.size : Nat)
      (showSymbol symName)) Q E s := by
  have hcontents : contentsOf host.file i = some (chunk host.file
      (shdr host.file i Shdr.shOffset) (shdr host.file i Shdr.shSize)) := if_pos hi
  rw [forEachEntry, hcontents, Int.toNat_natCast]
  apply wp_mono (wp_loop _ (i := 0) (fun k s => ListedSoFar obj
    (out ++ ((List.range k).map (symbolLine host.file i j)).flatten) s) _ _) _ fun _ _ he => he
  · intro k s _ hk hs
    rw [Nat.zero_add] at hk
    rw [wp_bind, deref_some, wp_lift_ok]
    apply wp_showSymbol h hi hk hobj hs (hname k hk s hs.vars)
    intro s' hs'
    rw [List.range_succ, List.map_append, List.flatten_append, ← List.append_assoc]
    simpa using hs'
  · simpa using hs
  · intro _ s hs
    rw [Nat.zero_add] at hs
    exact hQ s hs

omit hhost h in
private theorem wp_elfDynShowAll {Q : Unit → Proc ElfObj → Prop} {d k : Nat}
    (hd : Readable host.file d) (hk : k < shdr host.file d Shdr.shSize / Dyn.size)
    (hs : ListedSoFar obj out s)
    (hQ : ∀ s', ListedSoFar obj (out ++ dynLine host.file d k) s' → Q () s') :
    wp (elfDynShowAll ((chunk host.file (shdr host.file d Shdr.shOffset)
      (shdr host.file d Shdr.shSize)).add (k * Dyn.size))) Q E s := by
  rw [elfDynShowAll, wp_bind, entry_get hd hk (by decide), wp_lift_ok, wp_bind, wp_print, wp_bind,
    wp_print, wp_bind, entry_get hd hk (by decide), wp_lift_ok, wp_print]
  apply hQ
  rw [dynLine, ← dynLine_text, ← List.append_assoc, ← List.append_assoc]
  exact ((hs.text _).text _).text _

omit hhost h in
/-- The lines of the dynamic entries up to the first one without a tag. -/
private theorem wp_showDynamics {Q : Unit → Proc ElfObj → Prop} {d n i : Nat}
    (hd : Readable host.file d) (hn : i + n = shdr host.file d Shdr.shSize / Dyn.size)
    (hs : ListedSoFar obj out s)
    (hQ : ∀ s', ListedSoFar obj (out ++ (((List.range' i n).takeWhile
      fun k => tag host.file d k ≠ 0).map (dynLine host.file d)).flatten) s' → Q () s') :
    wp (forEachDyn (contentsOf host.file d) elfDynShowAll n i) Q E s := by
  have hcontents : contentsOf host.file d = some (chunk host.file
      (shdr host.file d Shdr.shOffset) (shdr host.file d Shdr.shSize)) := if_pos hd
  induction n generalizing i s out with
  | zero => exact hQ s (by simpa using hs)
  | succ n ih =>
    have hget : ∀ {f : Field}, f.off + f.width ≤ Dyn.size → ((chunk host.file
        (shdr host.file d Shdr.shOffset) (shdr host.file d Shdr.shSize)).add (i * Dyn.size)).get f =
          .ok (fieldAt host.file (entryAt host.file d Dyn.size i) f) := entry_get hd (by omega)
    rw [List.range'_succ] at hQ
    rw [forEachDyn, hcontents, wp_bind, deref_some, wp_lift_ok, wp_bind, hget (by decide),
      wp_lift_ok, wp_ite]
    constructor
    · intro hnull
      have hzero : tag host.file d i = 0 := hnull
      apply hQ
      rw [List.takeWhile_cons_of_neg (by simpa using hzero)]
      simpa using hs
    · intro htag
      have hne : tag host.file d i ≠ 0 := htag
      rw [List.takeWhile_cons_of_pos (by simpa using hne), List.map_cons, List.flatten_cons,
        ← List.append_assoc] at hQ
      rw [wp_bind]
      apply wp_elfDynShowAll hd (by omega) hs
      intro s' hs'
      rw [← hcontents]
      exact ih (by omega) hs' hQ

omit hhost h in
private theorem wp_symName {j n : Nat} {name : CString} (hread : Readable host.file j)
    (hname : readString (fileImage host.file j) n = .ok name) {f : ElfObj → Option (Option Ptr)}
    (hf : f s.vars = some (contentsOf host.file j)) :
    wp (do
      let table ← field f
      lift (stringAt table (toInt n))) (fun found s' => found = name ∧ s' = s) E s := by
  rw [wp_bind, wp_field hf, stringAt_contents hread hname, wp_lift_ok]
  exact ⟨rfl, rfl⟩

omit hhost h in
private theorem wp_elfFini {Q : Unit → Proc ElfObj → Prop}
    (hs : ListedSoFar (loadedObj host.file t) out s) (hQ : Q () s) : wp elfFini Q E s := by
  have hvars := hs.vars
  rw [elfFini, wp_bind, wp_field (by rw [hvars]; rfl), wp_bind, wp_field (by rw [hvars]; rfl),
    wp_bind, wp_field (by rw [hvars]; rfl), wp_bind, wp_field (by rw [hvars]; rfl), wp_bind,
    wp_field (by rw [hvars]; rfl), wp_bind, wp_field (by rw [hvars]; rfl), wp_pure]
  exact hQ

private theorem wp_main_listed :
    wp (main host) (fun r s => r = 0 ∧ ListedSoFar (loadedObj host.file t)
      (listedLines host.file t).flatten s) E ElfObj.start := by
  have hobj : Headed host.file (loadedObj host.file t) := ⟨rfl, rfl, rfl, rfl⟩
  rw [main, wp_bind]
  apply wp_elfInit_listed hhost h
  intro s₀ hs₀
  rw [wp_bind, wp_runIf]
  refine ⟨fun hnone => absurd hnone (by decide), fun _ => ?_⟩
  rw [wp_bind, elfForEachSym, wp_bind, wp_field (by rw [hs₀.vars]; rfl), wp_bind,
    wp_field (by rw [hs₀.vars]; rfl)]
  apply wp_showSymbols h h.symtabRead hobj hs₀
  · intro k hk s hvars
    exact wp_symName h.strtabRead (h.symNames k hk) (by rw [hvars]; rfl)
  intro s₁ hs₁
  rw [wp_bind, elfForEachDynsym, wp_bind, wp_field (by rw [hs₁.vars]; rfl), wp_bind,
    wp_field (by rw [hs₁.vars]; rfl)]
  apply wp_showSymbols h h.dynsymRead hobj hs₁
  · intro k hk s hvars
    exact wp_symName h.dynstrRead (h.dynsymNames k hk) (by rw [hvars]; rfl)
  intro s₂ hs₂
  rw [wp_bind, elfForEachDyn, wp_bind, wp_field (by rw [hs₂.vars]; rfl), wp_bind,
    wp_field (by rw [hs₂.vars]; rfl), Int.toNat_natCast]
  apply wp_showDynamics h.dynamicRead (Nat.zero_add _) hs₂
  intro s₃ hs₃
  rw [wp_bind]
  apply wp_elfFini hs₃
  rw [wp_pure]
  refine ⟨rfl, ?_⟩
  rw [listedLines, List.flatten_append, List.flatten_append, List.range_eq_range',
    List.range_eq_range', List.range_eq_range']
  simpa [List.range_eq_range'] using hs₃

end

/-- elfdig writes one line for each symbol, then one for each dynamic symbol, then one for each
dynamic entry before the first empty one, and nothing else. -/
theorem main_lists {host : Host} {t : Tables} (hhost : host.Healthy) (h : ListedFile host.file t) :
    ∃ s, main host ElfObj.start = (.ok 0, s) ∧
      output s.trace = (listedLines host.file t).flatten ∧
      ∀ function message, .perr function message ∉ s.trace := by
  obtain ⟨_, s, hrun, rfl, hs⟩ := returns_of_wp (wp_main_listed hhost h)
  exact ⟨s, hrun, hs.written, hs.silent⟩

/-! ## One symbol of each kind -/

/-- A file with a symbol in a section, an absolute dynamic symbol and one dynamic entry. -/
def linkedFile : List UInt8 :=
  Ehdr.bytes 0 176 0 0 40 7 6 ++ ascii "\x00a\x00\x00" ++ Sym.bytes 0 0 0 0 ++ Sym.bytes 1 4096 4 1 ++
    ascii "\x00b\x00\x00" ++ Sym.bytes 1 0 0 0xfff1 ++ Dyn.bytes 1 5 ++ Dyn.bytes 0 0 ++
    ascii "\x00.strtab\x00.symtab\x00.dynstr\x00.dynsym\x00.dynamic\x00.shstrtab\x00" ++
    List.replicate 40 0 ++ Shdr.bytes 1 shtStrtab 52 4 0 ++ Shdr.bytes 9 2 56 32 16 ++
    Shdr.bytes 17 shtStrtab 88 4 0 ++ Shdr.bytes 25 11 92 16 16 ++ Shdr.bytes 33 6 108 16 8 ++
    Shdr.bytes 42 shtStrtab 124 52 0

theorem linkedFile_listed : ListedFile linkedFile ⟨1, 2, 3, 4, 5⟩ := by decide +kernel

theorem main_lists_linkedFile :
    ∃ s, main (Host.ideal linkedFile) ElfObj.start = (.ok 0, s) ∧ output s.trace =
      ascii "value 00000000 size 00000000 shndx                  name \n" ++
      ascii "value 00001000 size 00000004 shndx          .strtab name a\n" ++
      ascii "value 00000000 size 00000000 shndx                  name b\n" ++
      ascii "00000001          NEEDED  00000005\n" := by
  obtain ⟨s, hrun, hout, -⟩ := main_lists (Host.ideal_healthy linkedFile) linkedFile_listed
  refine ⟨s, hrun, hout.trans ?_⟩
  decide +kernel

end PerfTools.Elfdig
