import PerfTools.Elf.DumpLines
import PerfTools.Elf.DumpSteps
import PerfTools.Elf.Headers
import PerfTools.Elf.Names

/-!
# What elf -s dumps

The file dump goes through its parts in a fixed order: the file header, the section headers, the
string table, the symbols, four sections by their names and the dynamic entries. What each part
shows depends on what can be read; a part that is not there stops the tool.
-/

namespace PerfTools.Elf

open Memory Printf Exec

/-- What a dump shows: a part of the file, or a record of a table. -/
inductive Shown
  | part (offset size : UInt32) (bytes : List UInt8)
  | record (table : RecordTable) (i : Nat) (bytes : List UInt8)
  deriving DecidableEq, Repr

/-- The bytes that a dumper is given. -/
def givenBytes (size : UInt32) : Option Ptr → List UInt8
  | none => []
  | some p => p.tail.take size.toNat

def Event.shown : Event → Option Shown
  | .dump none offset size data _ => some (.part offset size (givenBytes size data))
  | .dump (some (table, i)) _ size data _ => some (.record table i (givenBytes size data))
  | _ => none

def shown (es : List Event) : List Shown := es.filterMap Event.shown

@[simp] theorem shown_append (es fs : List Event) : shown (es ++ fs) = shown es ++ shown fs :=
  List.filterMap_append

@[simp] theorem shown_log {γ : Type} (s : Proc γ) (es : List Event) :
    shown (s.log es).trace = shown s.trace ++ shown es := shown_append _ _

@[simp] theorem shown_text (t : Text) : shown [.text t] = [] := rfl

@[simp] theorem shown_part (offset size : UInt32) (data : Option Ptr) (t : Text) :
    shown [.dump none offset size data t] = [.part offset size (givenBytes size data)] := rfl

@[simp] theorem shown_record (table : RecordTable) (i : Nat) (offset size : UInt32)
    (data : Option Ptr) (t : Text) : shown [.dump (some (table, i)) offset size data t] =
      [.record table i (givenBytes size data)] := rfl

/-! ## The file -/

/-- A 32-bit ELF file with at most a hundred sections: the section headers and every section with
contents are in the file, at positions that 32 bits count, and the sections with a name of their
own are what they are by it. -/
@[mk_iff]
structure FileInput (src : List UInt8) : Prop where
  header : Ehdr.size ≤ src.length
  entsize : Shdr.size ≤ ehdr src Ehdr.eShentsize
  slots : ehdr src Ehdr.eShnum ≤ 100
  inside : ehdr src Ehdr.eShoff + ehdr src Ehdr.eShnum * ehdr src Ehdr.eShentsize ≤ src.length
  counted : ehdr src Ehdr.eShoff + ehdr src Ehdr.eShnum * ehdr src Ehdr.eShentsize < 2 ^ 32
  names : ehdr src Ehdr.eShstrndx < ehdr src Ehdr.eShnum
  nameType : shdr src (ehdr src Ehdr.eShstrndx) Shdr.shType = shtStrtab
  held : NamesHeld src
  place : ∀ i < ehdr src Ehdr.eShnum, shdr src i Shdr.shSize = 0 ∨
    Ehdr.size ≤ shdr src i Shdr.shOffset ∧ shdr src i Shdr.shOffset + shdr src i Shdr.shSize < 2 ^ 32
  contents : ∀ i < ehdr src Ehdr.eShnum, shdr src i Shdr.shType ≠ shtNobits →
    shdr src i Shdr.shSize = 0 ∨ Described src i
  strtab : ∀ i < ehdr src Ehdr.eShnum, (sectionName src i).chars = ascii ".strtab" →
    shdr src i Shdr.shType ≠ shtNobits
  symtab : ∀ i < ehdr src Ehdr.eShnum, (sectionName src i).chars = ascii ".symtab" →
    shdr src i Shdr.shType ≠ shtNobits ∧ shdr src i Shdr.shEntsize = Sym.size ∧
      Sym.size ∣ shdr src i Shdr.shSize
  symbols : ∀ i < ehdr src Ehdr.eShnum, ∀ j < ehdr src Ehdr.eShnum,
    (sectionName src i).chars = ascii ".symtab" → (sectionName src j).chars = ascii ".strtab" →
    ∀ k < shdr src i Shdr.shSize / Sym.size, ∃ name, readString (fileImage src j)
      (fieldAt src (shdr src i Shdr.shOffset + k * Sym.size) Sym.stName) = .ok name
  dynamic : ∀ i < ehdr src Ehdr.eShnum, (sectionName src i).chars = ascii ".dynamic" →
    shdr src i Shdr.shType ≠ shtNobits ∧ Dyn.size ∣ shdr src i Shdr.shSize

set_option synthInstance.maxSize 512 in
instance (src : List UInt8) : Decidable (FileInput src) :=
  decidable_of_iff _ (fileInput_iff src).symm

/-- The header of section i as it is loaded. -/
def headOf (src : List UInt8) (i : Nat) : Ptr :=
  chunk src (shdrAt src i) (ehdr src Ehdr.eShentsize)

namespace FileInput

variable {src : List UInt8} (h : FileInput src) {i : Nat} (hi : i < ehdr src Ehdr.eShnum)
include h hi

theorem head_get {f : Field} (hf : f.off + f.width ≤ Shdr.size) :
    (headOf src i).get f = .ok (shdr src i f) :=
  chunk_get ((shdrAt_end hi).trans h.inside) (hf.trans h.entsize)

omit hi in
theorem table (hrange : ∀ i < ehdr src Ehdr.eShnum, shdrAt src i < 2 ^ 31) : SectionTable src :=
  ⟨h.header, h.entsize, h.slots, h.inside, hrange, h.names⟩

theorem transfer_contents {host : Host} (hfile : host.file = src)
    (hmalloc : ∀ target n, host.malloc target n = true) (target : Target) (pos : Nat)
    (hsize : shdr src i Shdr.shSize ≠ 0) :
    (host.transfer target (toUnsigned (toInt (shdr src i Shdr.shSize))).toNat pos
      (toInt (shdr src i Shdr.shOffset)) (toInt (shdr src i Shdr.shSize))).1 = contentsOf src i := by
  have hplace := (h.place i hi).resolve_left hsize
  have hoffset := toInt_cases (shdr_lt src i (f := Shdr.shOffset) rfl)
  have hlen := toInt_cases (shdr_lt src i (f := Shdr.shSize) rfl)
  unfold contentsOf
  by_cases hread : Readable src i
  · rw [if_pos hread, transfer_described hmalloc hread.1 hread.2.1
      (Or.inr (by rw [hfile]; exact hread.2.2)), hfile]
  · rw [if_neg hread]
    by_cases hbelow : shdr src i Shdr.shOffset < 2 ^ 31 ∧ shdr src i Shdr.shSize < 2 ^ 31
    · rw [toInt_of_lt hbelow.1, toInt_of_lt hbelow.2]
      refine Host.transfer_outside (by omega) ?_
      unfold Readable Described at hread
      rw [hfile]
      omega
    · unfold Host.transfer
      rw [Ehdr.size] at hplace
      split_ifs with hok hseek hshort
      · rfl
      · rfl
      · omega
      · rfl

end FileInput

/-! ## Looking up and reading -/

/-- Between two parts of the dump: the headers are loaded, and out has been shown. -/
structure ShownSoFar (host : Host) (out : List Shown) (s : Proc ElfVars) : Prop where
  loaded : Loaded host s.vars
  offset : s.vars.sectionOffset = ehdr host.file Ehdr.eShoff
  size : s.vars.sectionSize = ehdr host.file Ehdr.eShentsize
  shown : Elf.shown s.trace = out

namespace ShownSoFar

variable {host : Host} {out : List Shown} {s : Proc ElfVars} (hs : ShownSoFar host out s)
include hs

theorem withScreen {screen : Screen} (h : Restartable screen) :
    ShownSoFar host out (s.withScreen screen) :=
  ⟨hs.loaded.withScreen h, hs.offset, hs.size, hs.shown⟩

theorem log (es : List Event) : ShownSoFar host (out ++ Elf.shown es) (s.log es) :=
  ⟨hs.loaded, hs.offset, hs.size, by rw [shown_log, hs.shown]⟩

theorem read {es : List Event} (h : Elf.shown es = []) (pos : Nat) :
    ShownSoFar host out ⟨pos, s.trace ++ es, s.vars⟩ :=
  ⟨hs.loaded, hs.offset, hs.size, by rw [shown_append, hs.shown, h, List.append_nil]⟩

theorem setVars {v : ElfVars} (hv : SameHeaders s.vars v) (hscreen : v.screen = s.vars.screen) :
    ShownSoFar host out ⟨s.pos, s.trace, v⟩ := by
  refine ⟨⟨?_, ?_, ?_, ?_, ?_⟩, hv.sectionOffset.trans hs.offset, hv.sectionSize.trans hs.size,
    hs.shown⟩
  · exact hv.elfHeader.trans hs.loaded.header
  · exact hv.sectionNum.trans hs.loaded.sectionNum
  · rw [hv.elfSectionHead]
    exact hs.loaded.heads
  · rw [hscreen]
    exact hs.loaded.screen
  · rw [hv.elfShstrtab]
    exact hs.loaded.names

theorem text (t : Text) : ShownSoFar host out ⟨s.pos, s.trace ++ [.text t], s.vars⟩ :=
  hs.read (shown_text t) s.pos

theorem slot_eq {i : Nat} (hi : i < ehdr host.file Ehdr.eShnum) :
    slot s.vars.elfSectionHead i = .ok (some (headOf host.file i)) := by
  rw [slot, if_neg (by omega), Int.toNat_natCast, hs.loaded.heads i hi]
  rfl

end ShownSoFar

theorem Host.shown_transfer {host : Host} {target : Target} {request pos : Nat}
    {offset size : Int} : shown (host.transfer target request pos offset size).2.2 = [] := by
  unfold Host.transfer
  split_ifs <;> rfl

/-- The headers are in their slots, and their names are there. -/
structure Searchable (src : List UInt8) (v : ElfVars) : Prop where
  sectionNum : v.sectionNum = ehdr src Ehdr.eShnum
  heads : ∀ i < ehdr src Ehdr.eShnum, slot v.elfSectionHead i = .ok (some (headOf src i))
  names : ∃ p, v.elfShstrtab = some p ∧ p.tail = nameTable src

section

variable {host : Host} {s : Proc ElfVars} {E : Stop → Proc ElfVars → Prop} {out : List Shown}
  (h : FileInput host.file) (hnames : Readable host.file (ehdr host.file Ehdr.eShstrndx))
  (hmalloc : ∀ target n, host.malloc target n = true)

include hnames in
private theorem elfShstrtab_eq (hs : ShownSoFar host out s) :
    ∃ p, s.vars.elfShstrtab = some p ∧ p.tail = nameTable host.file :=
  ⟨_, hs.loaded.names _ _ rfl rfl hnames.1 hnames.2.1 hnames.2.2, rfl⟩

include h

theorem wp_findHead_searchable {Q : Int × Option Ptr → Proc ElfVars → Prop} {name : String}
    (hname : 0 ∉ ascii name) (hs : Searchable host.file s.vars)
    (hbad : firstNamed host.file name = none → ∀ e s, E e s)
    (hQ : ∀ i : Nat, firstNamed host.file name = some i → Q (i, some (headOf host.file i)) s) :
    wp (findHead name) Q E s := by
  obtain ⟨table, htable, htail⟩ := hs.names
  have hheads : ∀ k < ehdr host.file Ehdr.eShnum, ∃ head,
      slot s.vars.elfSectionHead k = .ok (some head) ∧
        head.get Shdr.shName = .ok (shdr host.file k Shdr.shName) :=
    fun k hk => ⟨_, hs.heads k hk, h.head_get hk (by decide)⟩
  have hfind := elfFindShstrtab_eq hname htail h.held hheads
  rw [findHead]
  simp only [wp_bind, wp_vars, hs.sectionNum, htable, hfind, wp_lift_ok]
  cases hfirst : firstNamed host.file name with
  | none => exact hbad hfirst _ _
  | some i =>
    have hslot : slot s.vars.elfSectionHead (indexOrMissing (some i)) =
        .ok (some (headOf host.file i)) := hs.heads i (firstNamed_some hfirst).1
    rw [hslot]
    exact hQ i hfirst

include hnames in
theorem wp_findHead {Q : Int × Option Ptr → Proc ElfVars → Prop} {name : String}
    (hname : 0 ∉ ascii name) (hs : ShownSoFar host out s)
    (hbad : firstNamed host.file name = none → ∀ e s, E e s)
    (hQ : ∀ i : Nat, firstNamed host.file name = some i → Q (i, some (headOf host.file i)) s) :
    wp (findHead name) Q E s :=
  wp_findHead_searchable h hname
    ⟨hs.loaded.sectionNum, fun _ hi => hs.slot_eq hi, elfShstrtab_eq hnames hs⟩ hbad hQ

include hmalloc in
theorem wp_readContents {Q : Int × Int × Option Ptr → Proc ElfVars → Prop} {i : Nat}
    (hi : i < ehdr host.file Ehdr.eShnum) (hs : ShownSoFar host out s)
    (hQ : ∀ data s', (shdr host.file i Shdr.shSize ≠ 0 → data = contentsOf host.file i) →
      ShownSoFar host out s' →
      Q (toInt (shdr host.file i Shdr.shOffset), toInt (shdr host.file i Shdr.shSize), data) s') :
    wp (readContents host (some (headOf host.file i))) Q E s := by
  rw [readContents]
  simp only [wp_bind, deref_some, wp_lift_ok, h.head_get hi (f := Shdr.shOffset) (by decide),
    h.head_get hi (f := Shdr.shSize) (by decide), wp_elfFileRead, wp_pure]
  apply hQ
  · exact h.transfer_contents hi rfl hmalloc _ _
  · exact hs.read Host.shown_transfer _

end

/-! ## Parts of the file -/

/-- What the dump of section i shows: nothing where the contents cannot be read. -/
def heldBytes (src : List UInt8) (i : Nat) : List UInt8 :=
  if Readable src i then fileImage src i else []

def shownPart (src : List UInt8) (i : Nat) : Shown :=
  .part (UInt32.ofNat (shdr src i Shdr.shOffset)) (UInt32.ofNat (shdr src i Shdr.shSize))
    (heldBytes src i)

/-- The dump of section i stays within the loop counter. -/
def DumpFits (src : List UInt8) (i : Nat) : Prop :=
  Readable src i → shdr src i Shdr.shOffset % 16 + shdr src i Shdr.shSize < 2 ^ 31

instance (src : List UInt8) (i : Nat) : Decidable (DumpFits src i) :=
  inferInstanceAs (Decidable (_ → _))

/-- What the two dumpers for parts of the file have in common. -/
structure Dumper (f : UInt32 → UInt32 → Option Ptr → Except Fault Text) : Prop where
  nothing : ∀ offset size data, size = 0 ∨ data = none → f offset size data = .ok []
  prints : ∀ a : DumpArgs, ∃ t, f a.offset a.size (some a.ptr) = .ok t
  fails : ∀ (offset size : UInt32) p, size.toNat < 2 ^ 31 →
    2 ^ 31 ≤ offset.toNat % 16 + size.toNat → ∃ e, f offset size (some p) = .error e

private theorem ne_zero_of_overflow {offset size : UInt32}
    (h : 2 ^ 31 ≤ offset.toNat % 16 + size.toNat) : size ≠ 0 := by
  rintro rfl
  have hgap := Nat.mod_lt offset.toNat (show 0 < 16 by decide)
  rw [show (0 : UInt32).toNat = 0 from rfl] at h
  omega

theorem binaryDump_dumper : Dumper binaryDump where
  nothing offset size data h := by
    rcases h with rfl | rfl
    · cases data <;> rfl
    · rfl
  prints a := ⟨_, binaryDump_lines a⟩
  fails offset size p hsize hlong := by
    obtain ⟨e, he⟩ := dumpBody_fails plainGutter offset p () hsize (Or.inl hlong)
    exact ⟨e, by simp only [binaryDump, if_neg (ne_zero_of_overflow hlong), he, error_bind]⟩

theorem binaryDumpWithChar_dumper : Dumper binaryDumpWithChar where
  nothing offset size data h := by
    rcases h with rfl | rfl
    · cases data <;> rfl
    · rfl
  prints a := ⟨_, binaryDumpWithChar_lines a⟩
  fails offset size p hsize hlong := by
    obtain ⟨e, he⟩ := dumpBody_fails charGutter offset p blankTailer hsize (Or.inl hlong)
    exact ⟨e, by simp only [binaryDumpWithChar, if_neg (ne_zero_of_overflow hlong), he, error_bind]⟩

@[simp] theorem givenBytes_zero (data : Option Ptr) : givenBytes 0 data = [] := by
  cases data <;> rfl

theorem givenBytes_contentsOf (src : List UInt8) (i : Nat) :
    givenBytes (UInt32.ofNat (shdr src i Shdr.shSize)) (contentsOf src i) = heldBytes src i := by
  unfold contentsOf heldBytes
  split_ifs
  · rw [givenBytes, chunk_tail, shdr_toNat src i rfl, List.take_take, Nat.min_self]
    rfl
  · rfl

section

variable {host : Host} {s : Proc ElfVars} {E : Stop → Proc ElfVars → Prop} {out : List Shown}

theorem wp_dumpPart {Q : Unit → Proc ElfVars → Prop}
    {f : UInt32 → UInt32 → Option Ptr → Except Fault Text} (hf : Dumper f) {i : Nat}
    {data : Option Ptr} (hs : ShownSoFar host out s)
    (hdata : shdr host.file i Shdr.shSize ≠ 0 → data = contentsOf host.file i)
    (hbad : ¬DumpFits host.file i → ∀ e s, E e s)
    (hQ : ∀ s', DumpFits host.file i → ShownSoFar host (out ++ [shownPart host.file i]) s' →
      Q () s') :
    wp (dumped none (toUnsigned (toInt (shdr host.file i Shdr.shOffset)))
      (toUnsigned (toInt (shdr host.file i Shdr.shSize))) data
      (f (toUnsigned (toInt (shdr host.file i Shdr.shOffset)))
        (toUnsigned (toInt (shdr host.file i Shdr.shSize))) data)) Q E s := by
  have hoffset := shdr_toNat host.file i (f := Shdr.shOffset) rfl
  have hsize := shdr_toNat host.file i (f := Shdr.shSize) rfl
  rw [toUnsigned_toInt (shdr_lt _ _ rfl), toUnsigned_toInt (shdr_lt _ _ rfl), dumped, wp_bind]
  have hevent (t : Text) (hbytes : givenBytes (UInt32.ofNat (shdr host.file i Shdr.shSize)) data =
      heldBytes host.file i) : shown [.dump none (UInt32.ofNat (shdr host.file i Shdr.shOffset))
        (UInt32.ofNat (shdr host.file i Shdr.shSize)) data t] = [shownPart host.file i] := by
    rw [shown_part, hbytes, shownPart]
  by_cases hzero : shdr host.file i Shdr.shSize = 0
  · have hfits : DumpFits host.file i := by
      intro _
      omega
    have hbytes : givenBytes (UInt32.ofNat (shdr host.file i Shdr.shSize)) data =
        heldBytes host.file i := by
      rw [hzero]
      unfold heldBytes fileImage
      rw [hzero]
      simp
    rw [hf.nothing _ _ _ (Or.inl (by rw [hzero]; rfl)), wp_lift_ok, wp_emit]
    apply hQ _ hfits
    rw [← hevent [] hbytes]
    exact hs.log _
  · rw [hdata hzero] at hevent ⊢
    have hbytes := givenBytes_contentsOf host.file i
    by_cases hread : Readable host.file i
    · have hcontents : contentsOf host.file i = some (chunk host.file
          (shdr host.file i Shdr.shOffset) (shdr host.file i Shdr.shSize)) := if_pos hread
      by_cases hfits : shdr host.file i Shdr.shOffset % 16 + shdr host.file i Shdr.shSize < 2 ^ 31
      · have hviews := (chunk_views hread.2.2).1
        obtain ⟨t, ht⟩ := hf.prints ⟨UInt32.ofNat (shdr host.file i Shdr.shOffset),
          UInt32.ofNat (shdr host.file i Shdr.shSize),
          chunk host.file (shdr host.file i Shdr.shOffset) (shdr host.file i Shdr.shSize),
          by omega, by rw [hsize]; exact hviews, by omega⟩
        rw [← hcontents] at ht
        rw [ht, wp_lift_ok, wp_emit]
        apply hQ _ fun _ => hfits
        rw [← hevent t hbytes]
        exact hs.log _
      · obtain ⟨e, he⟩ := hf.fails (UInt32.ofNat (shdr host.file i Shdr.shOffset))
          (UInt32.ofNat (shdr host.file i Shdr.shSize)) (chunk host.file
            (shdr host.file i Shdr.shOffset) (shdr host.file i Shdr.shSize))
          (by rw [hsize]; exact hread.2.1) (by omega)
        rw [← hcontents] at he
        rw [he, wp_lift_error]
        exact hbad (fun h => hfits (h hread)) _ _
    · have hnone : contentsOf host.file i = none := if_neg hread
      rw [hf.nothing _ _ _ (Or.inr hnone), wp_lift_ok, wp_emit]
      apply hQ _ fun h => absurd h hread
      rw [← hevent [] hbytes]
      exact hs.log _

end

/-- What is shown for a section of a name, when there is one. -/
def partNamed (src : List UInt8) (part : Nat → Shown) (name : String) : List Shown :=
  ((firstNamed src name).map part).toList

/-- The section is there, and its dump stays within the loop counter. -/
def PartRuns (src : List UInt8) (name : String) : Prop :=
  ∃ i, firstNamed src name = some i ∧ DumpFits src i

section

variable {host : Host} {s : Proc ElfVars} {E : Stop → Proc ElfVars → Prop} {out : List Shown}
  (h : FileInput host.file) (hnames : Readable host.file (ehdr host.file Ehdr.eShstrndx))
  (hmalloc : ∀ target n, host.malloc target n = true)
include h hnames hmalloc

theorem wp_elfSectionDumpByName {Q : Unit → Proc ElfVars → Prop} {name : String}
    (hname : 0 ∉ ascii name) (hs : ShownSoFar host out s)
    (hbad : ¬PartRuns host.file name → ∀ e s, E e s)
    (hQ : ∀ s', PartRuns host.file name →
      ShownSoFar host (out ++ partNamed host.file (shownPart host.file) name) s' → Q () s') :
    wp (elfSectionDumpByName host name) Q E s := by
  rw [elfSectionDumpByName, wp_bind]
  apply wp_findHead h hnames hname hs
  · intro hnone
    apply hbad
    rintro ⟨i, hi, -⟩
    rw [hnone] at hi
    cases hi
  · intro i hi
    simp only [wp_bind]
    apply wp_readContents h hmalloc (firstNamed_some hi).1 hs
    intro data s' hdata hs'
    apply wp_dumpPart binaryDump_dumper hs' hdata
    · intro hlong
      apply hbad
      rintro ⟨j, hj, hfits⟩
      rw [hi] at hj
      exact hlong (Option.some.inj hj ▸ hfits)
    · intro s'' hfits hs''
      apply hQ _ ⟨i, hi, hfits⟩
      rw [partNamed, hi]
      exact hs''

end

/-! ## The section headers -/

def shownHead (src : List UInt8) (i : Nat) : Shown :=
  .record .sectionHeaders i ((src.drop (shdrAt src i)).take Shdr.size)

/-- The four lines that describe section i fit into the screen: 58 characters besides the name. -/
def NameFits (src : List UInt8) (i : Nat) : Prop :=
  (sectionName src i).chars.length + 58 < screenMax

instance (src : List UInt8) (i : Nat) : Decidable (NameFits src i) :=
  inferInstanceAs (Decidable (_ < _))

section

variable {host : Host} {s : Proc ElfVars} {E : Stop → Proc ElfVars → Prop} {out : List Shown}
  (h : FileInput host.file)
include h

private theorem wp_elfSectionHeaderDump {Q : Unit → Proc ElfVars → Prop} {i : Nat}
    (hi : i < ehdr host.file Ehdr.eShnum) {table : Ptr} (htail : table.tail = nameTable host.file)
    {offsetInFile : Int} (hs : ShownSoFar host out s)
    (hbad : ¬NameFits host.file i → ∀ e s, E e s)
    (hQ : ∀ s', NameFits host.file i → ShownSoFar host (out ++ [shownHead host.file i]) s' →
      Q () s') :
    wp (elfSectionHeaderDump i (some (headOf host.file i)) (some table) offsetInFile) Q E s := by
  have hget : ∀ {f : Field}, f.off + f.width ≤ Shdr.size →
      member (some (headOf host.file i)) f = .ok (shdr host.file i f) := fun hf => h.head_get hi hf
  have hname : stringAt (some table) (shdr host.file i Shdr.shName : Nat) =
      .ok (sectionName host.file i) := by
    rw [stringAt, deref_some, ok_bind, if_neg (by omega), Int.toNat_natCast, htail]
    exact h.held i hi
  have hlf : Format.Writes (lit "\n") 1 := .lit (by decide)
  have hline : Format.Writes (lit "NAME " ++ [.str 0 (sectionName host.file i)] ++ lit "\n")
      (5 + (sectionName host.file i).chars.length + 1) :=
    ((Format.Writes.lit (by decide)).append (.str _)).append hlf
  have hoff : Format.Writes (lit "OFF " ++
      [.hex space false 8 (shdr host.file i Shdr.shOffset)] ++ lit "\n") (4 + 8 + 1) :=
    ((Format.Writes.lit (by decide)).append (.hex (by decide) _)).append hlf
  have hsiz : Format.Writes (lit "SIZ " ++ [.hex space false 8 (shdr host.file i Shdr.shSize)] ++
      lit " END " ++ [.hex space false 8
        ((shdr host.file i Shdr.shOffset + shdr host.file i Shdr.shSize) % 2 ^ 32)] ++ lit "\n")
      (4 + 8 + 5 + 8 + 1) :=
    ((((Format.Writes.lit (by decide)).append (.hex (by decide) _)).append
      (.lit (by decide))).append (.hex (by decide) _)).append hlf
  have hadd : Format.Writes (lit "add " ++
      [.hex zeroDigit false 8 (shdr host.file i Shdr.shAddr)] ++ lit "\n") (4 + 8 + 1) :=
    ((Format.Writes.lit (by decide)).append (.hex (by decide) _)).append hlf
  have hlong : ∀ {n : Nat}, n ≤ (sectionName host.file i).chars.length + 58 → screenMax ≤ n →
      ∀ e s, E e s := by
    intro n hn hfull
    apply hbad
    unfold NameFits
    omega
  rw [elfSectionHeaderDump]
  simp only [wp_bind, hget (f := Shdr.shName) (by decide), hname, wp_lift_ok]
  apply wp_binPrintf_start rfl hline hs.loaded.screen (hlong (by omega))
  intro screen₁ hroom₁ h₁
  rw [printMember, wp_bind, hget (f := Shdr.shOffset) (by decide), wp_lift_ok]
  apply wp_binPrintf_next rfl hoff h₁ hroom₁ (hlong (by omega))
  intro screen₂ hroom₂ h₂
  rw [wp_lift_ok, hget (f := Shdr.shSize) (by decide), wp_lift_ok]
  apply wp_binPrintf_next rfl hsiz h₂ hroom₂ (hlong (by omega))
  intro screen₃ hroom₃ h₃
  rw [printMember, wp_bind, hget (f := Shdr.shAddr) (by decide), wp_lift_ok]
  apply wp_binPrintf_next rfl hadd h₃ hroom₃ (hlong (by omega))
  intro screen₄ hroom₄ h₄
  have hread : (UInt32.ofNat Shdr.size).toNat ≤ (headOf host.file i).tail.length := by
    have hviews := (chunk_views ((shdrAt_end hi).trans h.inside)).1
    exact h.entsize.trans hviews
  simp only [Proc.withScreen_withScreen]
  apply wp_dumpWithBuffer_restartable (by decide) hread
  · have hgap := Nat.mod_lt (toUnsigned offsetInFile).toNat (show 0 < 16 by decide)
    rw [show (UInt32.ofNat Shdr.size).toNat = 40 by decide]
    omega
  · exact h₄.restartable
  intro screen t hscreen
  have hfits : NameFits host.file i := by
    unfold NameFits
    omega
  have hbytes : givenBytes (UInt32.ofNat Shdr.size) (some (headOf host.file i)) =
      (host.file.drop (shdrAt host.file i)).take Shdr.size := by
    rw [givenBytes, headOf, chunk_tail, List.take_take]
    congr 1
    exact Nat.min_eq_left h.entsize
  apply hQ _ hfits
  have hnext := (hs.withScreen hscreen).log [.dump (some (.sectionHeaders, i))
    (toUnsigned offsetInFile) (UInt32.ofNat Shdr.size) (some (headOf host.file i)) t]
  rw [shown_record, hbytes] at hnext
  exact hnext

private theorem wp_dumpSectionHead {Q : Unit → Proc ElfVars → Prop} {i : Nat}
    (hnames : Readable host.file (ehdr host.file Ehdr.eShstrndx))
    (hrange : ∀ i < ehdr host.file Ehdr.eShnum, shdrAt host.file i < 2 ^ 31)
    (hi : i < ehdr host.file Ehdr.eShnum) (hs : ShownSoFar host out s)
    (hbad : ¬NameFits host.file i → ∀ e s, E e s)
    (hQ : ∀ s', NameFits host.file i → ShownSoFar host (out ++ [shownHead host.file i]) s' →
      Q () s') :
    wp (dumpSectionHead i) Q E s := by
  obtain ⟨table, htable, htail⟩ := elfShstrtab_eq hnames hs
  have hat := hrange i hi
  have hdistance : checked ((i : Int) * ehdr host.file Ehdr.eShentsize) =
      .ok ((i * ehdr host.file Ehdr.eShentsize : Nat) : Int) := by
    rw [← Nat.cast_mul]
    exact checked_natCast (by unfold shdrAt at hat; omega)
  have hoffset : checked ((ehdr host.file Ehdr.eShoff : Int) +
      ((i * ehdr host.file Ehdr.eShentsize : Nat) : Int)) = .ok (shdrAt host.file i : Int) := by
    rw [← Nat.cast_add]
    exact checked_natCast hat
  rw [dumpSectionHead]
  simp only [wp_bind, wp_vars, hs.size, hs.offset, hdistance, hoffset, wp_lift_ok, hs.slot_eq hi,
    htable]
  exact wp_elfSectionHeaderDump h hi htail hs hbad hQ

theorem wp_dumpSectionHeads {Q : Unit → Proc ElfVars → Prop}
    (hnames : Readable host.file (ehdr host.file Ehdr.eShstrndx))
    (hrange : ∀ i < ehdr host.file Ehdr.eShnum, shdrAt host.file i < 2 ^ 31)
    (hs : ShownSoFar host out s)
    (hbad : ¬(∀ i < ehdr host.file Ehdr.eShnum, NameFits host.file i) → ∀ e s, E e s)
    (hQ : ∀ s', (∀ i < ehdr host.file Ehdr.eShnum, NameFits host.file i) →
      ShownSoFar host (out ++ (List.range (ehdr host.file Ehdr.eShnum)).map (shownHead host.file))
        s' → Q () s') :
    wp (loop dumpSectionHead (ehdr host.file Ehdr.eShnum) 0) Q E s := by
  apply wp_mono (wp_loop _ (i := 0) (n := ehdr host.file Ehdr.eShnum)
    (fun k t => (∀ i < k, NameFits host.file i) ∧
      ShownSoFar host (out ++ (List.range k).map (shownHead host.file)) t) ?_ ?_) ?_
    fun _ _ he => he
  · intro k t _ hk hinv
    rw [Nat.zero_add] at hk
    apply wp_dumpSectionHead h hnames hrange hk hinv.2
    · intro hlong
      apply hbad
      intro hall
      exact hlong (hall k hk)
    · intro t' hfits ht'
      constructor
      · intro i hi
        rcases Nat.lt_succ_iff_lt_or_eq.mp hi with hlt | rfl
        · exact hinv.1 i hlt
        · exact hfits
      · rw [List.range_succ, List.map_append, List.map_singleton, ← List.append_assoc]
        exact ht'
  · exact ⟨by simp, by simpa using hs⟩
  · intro _ t ht
    rw [Nat.zero_add] at ht
    exact hQ t ht.1 ht.2

end

/-! ## The symbols -/

/-- The number of symbols that are dumped; a size beyond an int is a negative number. -/
def symCount (src : List UInt8) (i : Nat) : Nat :=
  if shdr src i Shdr.shSize < 2 ^ 31 then shdr src i Shdr.shSize / Sym.size else 0

/-- The label of symbol k of section i. -/
def symLabel (src : List UInt8) (i k : Nat) : Nat :=
  shdr src i Shdr.shOffset + 8 * (k * (k + 1))

def shownSymbol (src : List UInt8) (i k : Nat) : Shown :=
  .record (.symbols (headOf src i)) k
    ((src.drop (shdr src i Shdr.shOffset + k * Sym.size)).take Sym.size)

/-- With any symbols, they and the strings of section j can be read, and the labels stay in an
int. -/
def SymbolsRun (src : List UInt8) (i j : Nat) : Prop :=
  symCount src i ≠ 0 → Readable src i ∧ Readable src j ∧
    ∀ k < symCount src i, symLabel src i k < 2 ^ 31

section

variable {host : Host} {s : Proc ElfVars} {E : Stop → Proc ElfVars → Prop} {out : List Shown}

private theorem symbol_views {src : List UInt8} {i k : Nat} (hread : Readable src i)
    (hk : k < symCount src i) :
    ((chunk src (shdr src i Shdr.shOffset) (shdr src i Shdr.shSize)).add (k * Sym.size)).Views src
      Sym.size ∧ ((chunk src (shdr src i Shdr.shOffset) (shdr src i Shdr.shSize)).add
        (k * Sym.size)).position = shdr src i Shdr.shOffset + k * Sym.size := by
  constructor
  · apply Ptr.views_add
    apply Ptr.views_mono (chunk_views hread.2.2)
    rw [symCount, if_pos hread.2.1] at hk
    have hle : (k + 1) * Sym.size ≤ shdr src i Shdr.shSize / Sym.size * Sym.size :=
      Nat.mul_le_mul_right _ hk
    have hdiv := Nat.div_mul_le_self (shdr src i Shdr.shSize) Sym.size
    rw [Nat.succ_mul] at hle
    omega
  · rw [Ptr.add_position, chunk_position]

private theorem wp_dumpSymbol {Q : Int → Proc ElfVars → Prop} {i k : Nat} {label : Int}
    {strtab : Option Ptr} (hs : ShownSoFar host out s) (hread : Readable host.file i)
    (hk : k < symCount host.file i)
    (hstring : ∃ name, stringAt strtab (toInt (fieldAt host.file
      (shdr host.file i Shdr.shOffset + k * Sym.size) Sym.stName)) = .ok name)
    (hlabel : label + (k * Sym.size : Nat) = symLabel host.file i k)
    (hbad : ¬symLabel host.file i k < 2 ^ 31 → ∀ e s, E e s)
    (hQ : ∀ s', symLabel host.file i k < 2 ^ 31 →
      ShownSoFar host (out ++ [shownSymbol host.file i k]) s' → Q (symLabel host.file i k) s') :
    wp (dumpSymbol (headOf host.file i) (some (chunk host.file (shdr host.file i Shdr.shOffset)
      (shdr host.file i Shdr.shSize))) strtab k label) Q E s := by
  obtain ⟨hviews, hposition⟩ := symbol_views hread hk
  obtain ⟨name, hname⟩ := hstring
  have hget : ∀ {f : Field}, f.off + f.width ≤ Sym.size →
      ((chunk host.file (shdr host.file i Shdr.shOffset) (shdr host.file i Shdr.shSize)).add
        (k * Sym.size)).get f = .ok (fieldAt host.file
          (shdr host.file i Shdr.shOffset + k * Sym.size) f) := by
    intro f hf
    rw [Ptr.get_of_views hviews hf, hposition]
  have hsmall : k * Sym.size < 2 ^ 31 := by
    rw [symCount, if_pos hread.2.1] at hk
    rw [Sym.size] at hk ⊢
    have hlt := hread.2.1
    omega
  rw [dumpSymbol, wp_bind, ← Nat.cast_mul, checked_natCast hsmall, wp_lift_ok, wp_bind, hlabel]
  by_cases hfits : symLabel host.file i k < 2 ^ 31
  · have hlong := hviews.1
    have hgap := Nat.mod_lt (toUnsigned (symLabel host.file i k : Nat)).toNat (show 0 < 16 by decide)
    have hsize : (UInt32.ofNat Sym.size).toNat = 16 := by decide
    obtain ⟨t, ht⟩ := binaryDump_dumper.prints ⟨toUnsigned (symLabel host.file i k : Nat),
      UInt32.ofNat Sym.size, _, by decide, by rw [hsize]; exact hlong, by omega⟩
    rw [checked_natCast hfits, wp_lift_ok, wp_bind, deref_some, wp_lift_ok, wp_bind,
      hget (by decide), wp_lift_ok, wp_bind, hname, wp_lift_ok, wp_bind, wp_print, wp_bind,
      hget (by decide), wp_lift_ok, wp_bind, hget (by decide), wp_lift_ok, wp_bind,
      hget (by decide), wp_lift_ok, wp_bind, wp_print, wp_bind, wp_print, wp_bind,
      hget (by decide), wp_lift_ok, wp_bind, wp_print, wp_bind, hget (by decide), wp_lift_ok,
      wp_bind, wp_print, wp_bind, wp_print, wp_bind, dumped, wp_bind, ht, wp_lift_ok, wp_emit,
      wp_bind, wp_print, wp_pure]
    apply hQ _ hfits
    have hbytes : givenBytes (UInt32.ofNat Sym.size) (some ((chunk host.file
        (shdr host.file i Shdr.shOffset) (shdr host.file i Shdr.shSize)).add (k * Sym.size))) =
          (host.file.drop (shdr host.file i Shdr.shOffset + k * Sym.size)).take Sym.size := by
      rw [← hposition, ← hviews.2]
      rfl
    refine ⟨hs.loaded, hs.offset, hs.size, ?_⟩
    simp only [shown_append, shown_text, shown_record, hs.shown, hbytes, List.append_nil]
    rfl
  · have hlong : (2 : Int) ^ 31 ≤ (symLabel host.file i k : Nat) := by omega
    rw [checked_overflow hlong, wp_lift_error]
    exact hbad hfits _ _

/-- Without the symbols or without their names the first round stops. -/
private theorem wp_dumpSymbol_stops {Q : Int → Proc ElfVars → Prop} {header : Ptr}
    {symBuf strtab : Option Ptr} {k : Nat} {label : Int} (hnone : symBuf = none ∨ strtab = none)
    (hE : ∀ e s, E e s) : wp (dumpSymbol header symBuf strtab k label) Q E s := by
  rw [dumpSymbol, wp_bind, wp_lift]
  refine ⟨fun distance _ => ?_, fun _ _ => hE _ _⟩
  rw [wp_bind, wp_lift]
  refine ⟨fun next _ => ?_, fun _ _ => hE _ _⟩
  rw [wp_bind, wp_lift]
  refine ⟨fun buf hbuf => ?_, fun _ _ => hE _ _⟩
  rw [wp_bind, wp_lift]
  refine ⟨fun stName _ => ?_, fun _ _ => hE _ _⟩
  rcases hnone with rfl | rfl
  · cases hbuf
  · rw [wp_bind, stringAt, deref_none, error_bind, wp_lift_error]
    exact hE _ _

private theorem symNum_eq (src : List UInt8) (i : Nat) : ∃ num,
    intDiv (toInt (shdr src i Shdr.shSize)) (toInt Sym.size) = .ok num ∧
      num.toNat = symCount src i := by
  have hsixteen : toInt Sym.size = 16 := by decide
  rw [hsixteen, intDiv, if_neg (by decide), symCount, Sym.size]
  rcases toInt_cases (shdr_lt src i (f := Shdr.shSize) rfl) with ⟨hlt, hcast⟩ | ⟨hge, hcast⟩
  · refine ⟨(toInt (shdr src i Shdr.shSize)).tdiv 16, checked_of_range ?_ ?_, ?_⟩ <;>
      rw [hcast, Int.tdiv_eq_ediv_of_nonneg (by omega)]
    · omega
    · omega
    · rw [if_pos hlt]
      omega
  · have hlt := shdr_lt src i (f := Shdr.shSize) rfl
    have hneg : (toInt (shdr src i Shdr.shSize)).tdiv 16 =
        -(-toInt (shdr src i Shdr.shSize) / 16) := by
      rw [← Int.tdiv_eq_ediv_of_nonneg (by omega), Int.neg_tdiv, neg_neg]
    refine ⟨(toInt (shdr src i Shdr.shSize)).tdiv 16, checked_of_range ?_ ?_, ?_⟩ <;> rw [hneg]
    · omega
    · omega
    · rw [if_neg (by omega)]
      omega

private theorem symRest_eq {src : List UInt8} {i : Nat} (h : Sym.size ∣ shdr src i Shdr.shSize) :
    (toInt (shdr src i Shdr.shSize)).tmod (toInt Sym.size) = 0 := by
  have hsixteen : toInt Sym.size = 16 := by decide
  rw [hsixteen]
  apply Int.tmod_eq_zero_of_dvd
  rw [Sym.size] at h
  rcases toInt_cases (shdr_lt src i (f := Shdr.shSize) rfl) with ⟨-, hcast⟩ | ⟨-, hcast⟩ <;>
    rw [hcast] <;> omega

private theorem wp_dumpSymbols {Q : Unit → Proc ElfVars → Prop} {i : Nat} {strtab : Option Ptr}
    (hread : Readable host.file i) (hstrings : ∀ k < symCount host.file i, ∃ name,
      stringAt strtab (toInt (fieldAt host.file (shdr host.file i Shdr.shOffset + k * Sym.size)
        Sym.stName)) = .ok name) (hs : ShownSoFar host out s)
    (hbad : ¬(∀ k < symCount host.file i, symLabel host.file i k < 2 ^ 31) → ∀ e s, E e s)
    (hQ : ∀ s', (∀ k < symCount host.file i, symLabel host.file i k < 2 ^ 31) → ShownSoFar host
      (out ++ (List.range (symCount host.file i)).map (shownSymbol host.file i)) s' → Q () s') :
    wp (fold (dumpSymbol (headOf host.file i) (some (chunk host.file
        (shdr host.file i Shdr.shOffset) (shdr host.file i Shdr.shSize))) strtab)
      (symCount host.file i) 0 (toInt (shdr host.file i Shdr.shOffset))) (fun _ => Q ()) E s := by
  apply wp_mono (wp_fold _ (i := 0) (n := symCount host.file i) (fun k (label : Int) t =>
    label + (k * Sym.size : Nat) = symLabel host.file i k ∧
      (∀ m < k, symLabel host.file i m < 2 ^ 31) ∧
      ShownSoFar host (out ++ (List.range k).map (shownSymbol host.file i)) t) ?_ ?_) ?_
    fun _ _ he => he
  · intro k label t _ hk hinv
    rw [Nat.zero_add] at hk
    apply wp_dumpSymbol hinv.2.2 hread hk (hstrings k hk) hinv.1
    · intro hlong
      apply hbad
      intro hall
      exact hlong (hall k hk)
    · intro t' hfits ht'
      refine ⟨?_, ?_, ?_⟩
      · unfold symLabel Sym.size
        push_cast
        ring
      · intro m hm
        rcases Nat.lt_succ_iff_lt_or_eq.mp hm with hlt | rfl
        · exact hinv.2.1 m hlt
        · exact hfits
      · rw [List.range_succ, List.map_append, List.map_singleton, ← List.append_assoc]
        exact ht'
  · refine ⟨?_, by simp, by simpa using hs⟩
    rw [toInt_of_lt hread.1]
    simp [symLabel]
  · intro _ t ht
    rw [Nat.zero_add] at ht
    exact hQ t ht.2.1 ht.2.2

private theorem wp_symbolLoop {Q : Unit → Proc ElfVars → Prop} {i j : Nat}
    {symBuf strtab : Option Ptr} (hstrings : ∀ k < symCount host.file i, ∃ name,
      readString (fileImage host.file j) (fieldAt host.file
        (shdr host.file i Shdr.shOffset + k * Sym.size) Sym.stName) = .ok name)
    (hsym : shdr host.file i Shdr.shSize ≠ 0 → symBuf = contentsOf host.file i)
    (hstr : shdr host.file j Shdr.shSize ≠ 0 → strtab = contentsOf host.file j)
    (hs : ShownSoFar host out s) (hbad : ¬SymbolsRun host.file i j → ∀ e s, E e s)
    (hQ : ∀ s', SymbolsRun host.file i j → ShownSoFar host
      (out ++ (List.range (symCount host.file i)).map (shownSymbol host.file i)) s' → Q () s') :
    wp (fold (dumpSymbol (headOf host.file i) symBuf strtab) (symCount host.file i) 0
      (toInt (shdr host.file i Shdr.shOffset))) (fun _ => Q ()) E s := by
  by_cases hzero : symCount host.file i = 0
  · rw [hzero] at hQ ⊢
    exact hQ _ (fun hne => absurd hzero hne) (by simpa using hs)
  have hsizei : shdr host.file i Shdr.shSize ≠ 0 := by
    intro hnone
    apply hzero
    rw [symCount, hnone]
    rfl
  have hsizej : shdr host.file j Shdr.shSize ≠ 0 := by
    intro hnone
    obtain ⟨name, hname⟩ := hstrings 0 (Nat.pos_of_ne_zero hzero)
    rw [fileImage, hnone, List.take_zero, readString, if_neg (by simp)] at hname
    cases hname
  rw [hsym hsizei, hstr hsizej]
  have hstop : contentsOf host.file i = none ∨ contentsOf host.file j = none →
      ¬SymbolsRun host.file i j → wp (fold (dumpSymbol (headOf host.file i)
        (contentsOf host.file i) (contentsOf host.file j)) (symCount host.file i) 0
          (toInt (shdr host.file i Shdr.shOffset))) (fun _ => Q ()) E s := by
    intro hnone hnot
    obtain ⟨n, hn⟩ := Nat.exists_eq_succ_of_ne_zero hzero
    rw [hn, fold, wp_bind]
    exact wp_dumpSymbol_stops hnone (hbad hnot)
  by_cases hreadi : Readable host.file i
  · by_cases hreadj : Readable host.file j
    · have hcontents : contentsOf host.file i = some (chunk host.file
          (shdr host.file i Shdr.shOffset) (shdr host.file i Shdr.shSize)) := if_pos hreadi
      rw [hcontents]
      apply wp_dumpSymbols hreadi _ hs
      · intro hlong
        apply hbad
        intro hrun
        exact hlong (hrun hzero).2.2
      · intro s' hfits hs'
        exact hQ s' (fun _ => ⟨hreadi, hreadj, hfits⟩) hs'
      · intro k hk
        obtain ⟨name, hname⟩ := hstrings k hk
        exact ⟨name, stringAt_contents hreadj hname⟩
    · exact hstop (Or.inr (if_neg hreadj)) fun hrun => hreadj (hrun hzero).2.1
  · exact hstop (Or.inl (if_neg hreadi)) fun hrun => hreadi (hrun hzero).1

theorem wp_elfDumpSymtab {Q : Unit → Proc ElfVars → Prop} {i j : Nat} {symBuf strtab : Option Ptr}
    (h : FileInput host.file) (hi : i < ehdr host.file Ehdr.eShnum)
    (hentsize : shdr host.file i Shdr.shEntsize = Sym.size)
    (hdvd : Sym.size ∣ shdr host.file i Shdr.shSize)
    (hstrings : ∀ k < shdr host.file i Shdr.shSize / Sym.size, ∃ name,
      readString (fileImage host.file j) (fieldAt host.file
        (shdr host.file i Shdr.shOffset + k * Sym.size) Sym.stName) = .ok name)
    (hsym : shdr host.file i Shdr.shSize ≠ 0 → symBuf = contentsOf host.file i)
    (hstr : shdr host.file j Shdr.shSize ≠ 0 → strtab = contentsOf host.file j)
    (hs : ShownSoFar host out s) (hbad : ¬SymbolsRun host.file i j → ∀ e s, E e s)
    (hQ : ∀ s', SymbolsRun host.file i j → ShownSoFar host
      (out ++ (List.range (symCount host.file i)).map (shownSymbol host.file i)) s' → Q () s') :
    wp (elfDumpSymtab (some (headOf host.file i)) symBuf strtab) Q E s := by
  obtain ⟨num, hnum, hcount⟩ := symNum_eq host.file i
  have hrest := symRest_eq hdvd
  have hsixteen : toInt Sym.size = Sym.size := by decide
  have hle : symCount host.file i ≤ shdr host.file i Shdr.shSize / Sym.size := by
    unfold symCount
    split_ifs
    · exact le_refl _
    · exact Nat.zero_le _
  rw [elfDumpSymtab, wp_bind, deref_some, wp_lift_ok, wp_bind, h.head_get hi (by decide),
    wp_lift_ok, wp_bind, h.head_get hi (by decide), wp_lift_ok, wp_bind,
    h.head_get hi (by decide), wp_lift_ok, hentsize, wp_bind, hnum, wp_lift_ok, wp_bind,
    wp_runIf]
  refine ⟨fun hne => absurd hsixteen hne, fun _ => ?_⟩
  rw [wp_bind, wp_runIf]
  refine ⟨fun hne => absurd hrest hne, fun _ => ?_⟩
  rw [wp_bind, wp_print, wp_bind, wp_print, wp_bind, hcount]
  exact wp_symbolLoop (fun k hk => hstrings k (by omega)) hsym hstr ((hs.text _).text _) hbad hQ

end

/-! ## The dynamic entries -/

/-- The number of dynamic entries that are dumped; a size beyond an int is a negative number. -/
def dynCount (src : List UInt8) (i : Nat) : Nat :=
  if shdr src i Shdr.shSize < 2 ^ 31 then shdr src i Shdr.shSize / Dyn.size else 0

def shownDynamic (src : List UInt8) (i k : Nat) : Shown :=
  .record (.dynamics (headOf src i)) k
    ((src.drop (shdr src i Shdr.shOffset + k * Dyn.size)).take Dyn.size)

/-- Any dynamic entries can be read. -/
def DynamicsRun (src : List UInt8) (i : Nat) : Prop := dynCount src i ≠ 0 → Readable src i

section

variable {host : Host} {s : Proc ElfVars} {E : Stop → Proc ElfVars → Prop} {out : List Shown}

theorem dynNum_eq (src : List UInt8) (i : Nat) :
    (dynNum (shdr src i Shdr.shSize)).toNat = dynCount src i := by
  have hword := shdr_lt src i (f := Shdr.shSize) rfl
  rw [dynNum, dynCount, Dyn.size]
  rcases toInt_cases hword with ⟨hlt, hcast⟩ | ⟨hge, hcast⟩
  · have hnum : (toInt (shdr src i Shdr.shSize) % 2 ^ 64).toNat = shdr src i Shdr.shSize := by omega
    rw [hnum, toInt_of_lt (by omega), if_pos hlt, Int.toNat_natCast]
  · have hnum : (toInt (shdr src i Shdr.shSize) % 2 ^ 64).toNat =
        shdr src i Shdr.shSize + (2 ^ 64 - 2 ^ 32) := by omega
    rw [hnum, toInt, if_neg (show ¬shdr src i Shdr.shSize < 2 ^ 31 by omega)]
    split_ifs <;> omega

private theorem dynamic_views {src : List UInt8} {i k : Nat} (hread : Readable src i)
    (hk : k < dynCount src i) :
    ((chunk src (shdr src i Shdr.shOffset) (shdr src i Shdr.shSize)).add (k * Dyn.size)).Views src
      Dyn.size := by
  apply Ptr.views_add
  apply Ptr.views_mono (chunk_views hread.2.2)
  rw [dynCount, if_pos hread.2.1] at hk
  rw [Dyn.size] at hk ⊢
  omega

private theorem dynLine_room {k : Nat} (hk : k < 10 ^ 9) :
    Format.room (lit "Dyn " ++ [.dec 0 (k : Nat)] ++ lit "\n") ≤ 14 := by
  have hindex := decDigits_length (by decide) hk
  rw [Format.room_append, Format.room_append, Format.room_lit, Format.room_lit, Format.room,
    List.map_singleton, List.sum_singleton, Directive.room]
  have hlengths : (ascii "Dyn ").length = 4 ∧ (ascii "\n").length = 1 := by decide
  omega

private theorem wp_dumpDynamic {Q : Unit → Proc ElfVars → Prop} {i k : Nat}
    (h : FileInput host.file) (hi : i < ehdr host.file Ehdr.eShnum) (hs : ShownSoFar host out s)
    (hread : Readable host.file i) (hk : k < dynCount host.file i)
    (hQ : ∀ s', ShownSoFar host (out ++ [shownDynamic host.file i k]) s' → Q () s') :
    wp (dumpDynamic (headOf host.file i) (contentsOf host.file i) k) Q E s := by
  have hviews := dynamic_views hread hk
  have hcontents : contentsOf host.file i = some (chunk host.file
      (shdr host.file i Shdr.shOffset) (shdr host.file i Shdr.shSize)) := if_pos hread
  rw [hcontents]
  generalize hdyn : (chunk host.file (shdr host.file i Shdr.shOffset)
    (shdr host.file i Shdr.shSize)).add (k * Dyn.size) = dyn at hviews
  have hget : ∀ {f : Field}, f.off + f.width ≤ Dyn.size →
      ∃ n, dyn.get f = .ok n := fun hf => ⟨_, Ptr.get_of_views hviews hf⟩
  obtain ⟨tag, htag⟩ := hget (f := Dyn.dTag) (by decide)
  obtain ⟨val, hval⟩ := hget (f := Dyn.dVal) (by decide)
  have htype := dynType_plain (toInt tag)
  have hfirst : Format.room (lit "Dyn " ++ [.dec 0 (k : Nat)] ++ lit "\n") ≤ 14 := by
    apply dynLine_room
    rw [dynCount, if_pos hread.2.1, Dyn.size] at hk
    have hsize := hread.2.1
    omega
  have hsecond : Format.room ([.str 0 (cstringOf (ascii (dynType (toInt tag))))] ++ lit "\n") ≤
      16 := by
    rw [Format.room_append, Format.room_lit, Format.room, List.map_singleton, List.sum_singleton,
      Directive.room, cstringOf_chars htype.1]
    have hlf : (ascii "\n").length = 1 := rfl
    omega
  have hthird : Format.room [.hex zeroDigit false 8 val] = 8 := rfl
  rw [dumpDynamic, wp_bind]
  apply wp_binPrintf_restart hs.loaded.screen rfl (by unfold screenMax; omega)
  intro screen₁ h₁
  rw [wp_bind, deref_some, wp_lift_ok, hdyn, wp_bind, htag, wp_lift_ok, wp_bind]
  apply wp_binPrintf_buffered h₁ rfl (by unfold screenMax; omega)
  intro screen₂ h₂
  rw [wp_bind, hval, wp_lift_ok, wp_bind]
  apply wp_binPrintf_buffered h₂ rfl (by unfold screenMax; omega)
  intro screen₃ h₃
  rw [wp_bind, h.head_get hi (by decide), wp_lift_ok]
  simp only [Proc.withScreen_withScreen]
  have hsize : (UInt32.ofNat Dyn.size).toNat = 8 := by decide
  apply wp_dumpWithBuffer_restartable (by decide) (by rw [hsize]; exact hviews.1)
  · have hgap := Nat.mod_lt (UInt32.ofNat (shdr host.file i Shdr.shOffset + k * Dyn.size)).toNat
      (show 0 < 16 by decide)
    omega
  · exact h₃.restartable
  intro screen t hscreen
  have hbytes : givenBytes (UInt32.ofNat Dyn.size) (some dyn) =
      (host.file.drop (shdr host.file i Shdr.shOffset + k * Dyn.size)).take Dyn.size := by
    rw [← show dyn.position = shdr host.file i Shdr.shOffset + k * Dyn.size by
      rw [← hdyn, Ptr.add_position, chunk_position], ← hviews.2]
    rfl
  apply hQ
  have hnext := (hs.withScreen hscreen).log [.dump (some (.dynamics (headOf host.file i), k))
    (UInt32.ofNat (shdr host.file i Shdr.shOffset + k * Dyn.size)) (UInt32.ofNat Dyn.size)
    (some dyn) t]
  rw [shown_record, hbytes] at hnext
  exact hnext

theorem wp_elfDynamicDump {Q : Unit → Proc ElfVars → Prop} {i : Nat} {buf : Option Ptr}
    (h : FileInput host.file) (hi : i < ehdr host.file Ehdr.eShnum)
    (hbuf : shdr host.file i Shdr.shSize ≠ 0 → buf = contentsOf host.file i)
    (hs : ShownSoFar host out s) (hbad : ¬DynamicsRun host.file i → ∀ e s, E e s)
    (hQ : ∀ s', DynamicsRun host.file i → ShownSoFar host
      (out ++ (List.range (dynCount host.file i)).map (shownDynamic host.file i)) s' → Q () s') :
    wp (elfDynamicDump (some (headOf host.file i)) buf) Q E s := by
  rw [elfDynamicDump, wp_bind, deref_some, wp_lift_ok, wp_bind, h.head_get hi (by decide),
    wp_lift_ok, dynNum_eq]
  by_cases hzero : dynCount host.file i = 0
  · rw [hzero] at hQ ⊢
    exact hQ _ (fun hne => absurd hzero hne) (by simpa using hs)
  have hsize : shdr host.file i Shdr.shSize ≠ 0 := by
    intro hnone
    apply hzero
    rw [dynCount, hnone]
    rfl
  rw [hbuf hsize]
  by_cases hread : Readable host.file i
  · apply wp_mono (wp_loop _ (i := 0) (n := dynCount host.file i) (fun k t =>
      ShownSoFar host (out ++ (List.range k).map (shownDynamic host.file i)) t) ?_ ?_) ?_
      fun _ _ he => he
    · intro k t _ hk ht
      rw [Nat.zero_add] at hk
      apply wp_dumpDynamic h hi ht hread hk
      intro t' ht'
      rw [List.range_succ, List.map_append, List.map_singleton, ← List.append_assoc]
      exact ht'
    · simpa using hs
    · intro _ t ht
      rw [Nat.zero_add] at ht
      exact hQ t (fun _ => hread) ht
  · have hnone : contentsOf host.file i = none := if_neg hread
    obtain ⟨n, hn⟩ := Nat.exists_eq_succ_of_ne_zero hzero
    have hroom := dynLine_room (k := 0) (by decide)
    rw [hnone, hn, loop, wp_bind, dumpDynamic, wp_bind]
    apply wp_binPrintf_restart hs.loaded.screen rfl (by unfold screenMax; omega)
    intro screen _
    rw [wp_bind, deref_none, wp_lift_error]
    exact hbad (fun hrun => hread (hrun hzero)) _ _

end

end PerfTools.Elf
