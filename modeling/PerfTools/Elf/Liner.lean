import PerfTools.Elf.DumpShows
import PerfTools.Elf.Headers
import PerfTools.Elf.Names

/-!
# What elf -r shows

The liner dump prints the file header, the program headers and then, for every section but the
first, the bytes that the file holds at the section's offset, under the section's name. That is
the file image of a section that has one. A section without file contents (SHT_NOBITS) has none,
but its offset and size are read all the same.
-/

namespace PerfTools.Elf

open Memory Printf Exec Lines

/-- A file whose tables lie inside it, with every section that has contents. -/
structure LinerInput (src : List UInt8) : Prop where
  table : SectionTable src
  programs : ProgramTable src
  namesInside : Described src (ehdr src Ehdr.eShstrndx)
  offsets : ∀ i < ehdr src Ehdr.eShnum, shdr src i Shdr.shOffset < 2 ^ 31
  sizes : ∀ i < ehdr src Ehdr.eShnum, shdr src i Shdr.shSize < 2 ^ 31
  contents : ∀ i, 1 ≤ i → i < ehdr src Ehdr.eShnum → shdr src i Shdr.shType ≠ shtNobits →
    Described src i
  names : ∀ i, 1 ≤ i → i < ehdr src Ehdr.eShnum →
    readString (nameTable src) (shdr src i Shdr.shName) = .ok (sectionName src i) ∧
    (sectionName src i).chars.length < 4000

/-- A dump of the bytes of a section under its name. -/
structure ShowsSection (src : List UInt8) (i : Nat) (t : Text) : Prop where
  bytes : decodeDump t = ((src.drop (shdr src i Shdr.shOffset)).take
    (shdr src i Shdr.shSize)).zipIdx (shdr src i Shdr.shOffset)
  named : shdr src i Shdr.shSize ≠ 0 →
    (lines newline t).flatMap (List.drop 60) = (sectionName src i).chars.filter (· ≠ newline)
  empty : shdr src i Shdr.shSize = 0 → t = []

section

variable {host : Host} {s : Proc ElfVars} {E : Stop → Proc ElfVars → Prop}

/-- From s₀ to s the tool has printed the dumps ts. -/
private structure Printed (host : Host) (s₀ : Proc ElfVars) (ts : List Text) (s : Proc ElfVars) :
    Prop where
  loaded : Loaded host s.vars
  dumps : dumps s.trace = dumps s₀.trace ++ ts

private theorem Printed.append {s₀ s : Proc ElfVars} {ts us : List Text} {s' : Proc ElfVars}
    (h : Printed host s₀ ts s) (h' : Printed host s us s') : Printed host s₀ (ts ++ us) s' :=
  ⟨h'.loaded, by rw [h'.dumps, h.dumps, List.append_assoc]⟩

/-- What the dump of section i is, whatever its type. -/
private structure SectionOutcome (src : List UInt8) (i : Nat) (t : Text) : Prop where
  nothing : shdr src i Shdr.shSize = 0 ∨ ¬Described src i → t = []
  something : shdr src i Shdr.shSize ≠ 0 → Described src i →
    shdr src i Shdr.shOffset % 16 + shdr src i Shdr.shSize < 2 ^ 31 ∧ ShowsSection src i t

/-- The condition under which the dump of section i runs past the loop counter. -/
private def Overflows (src : List UInt8) (i : Nat) : Prop :=
  Described src i ∧ 2 ^ 31 ≤ shdr src i Shdr.shOffset % 16 + shdr src i Shdr.shSize

private theorem wp_printName {Q : Unit → Proc ElfVars → Prop} {name : CString}
    (hlen : name.chars.length < 4000) (hscreen : Restartable s.vars.screen)
    (hQ : ∀ screen, (∃ str : CString, screen.Shows str ∧ str.chars = name.chars ++ [newline]) →
      Restartable screen → Q () (s.withScreen screen)) :
    wp (binPrintf 0 ([.str 0 name] ++ lit "\n")) Q E
      (s.withScreen s.vars.screen.binBufferReset) := by
  obtain ⟨g, hg⟩ := hscreen
  have htext : (vsprintf ([.str 0 name] ++ lit "\n")).chars = name.chars ++ [newline] := by
    have hflat : ([Directive.str 0 name] ++ lit "\n").flatMap Directive.text =
        name.chars ++ [newline] := by
      simp [lit, ascii, Directive.text, padLeft, newline]
    rw [vsprintf, hflat, cstringOf_chars]
    simp [name.nulFree, newline]
  refine wp_binPrintf (BufferText.restart_agrees hg) rfl rfl ?_ fun screen hagrees => ?_
  · rw [htext]
    simp [BufferText.restart, screenMax]
    omega
  · obtain ⟨str, hshown, hseen⟩ := hagrees.seen
    refine hQ screen ⟨str, hshown, ?_⟩ ⟨_, hagrees⟩
    rw [hseen rfl, BufferText.seen, htext]
    simp [BufferText.restart]

private theorem stringAt_names (h : LinerInput host.file) {v : ElfVars} (hv : Loaded host v)
    {index : Nat} {name : CString} (hname : readString (nameTable host.file) index = .ok name) :
    stringAt v.elfShstrtab (toInt index) = .ok name := by
  have hsize := h.sizes _ h.table.names
  have htable := hv.names _ _ rfl rfl (h.offsets _ h.table.names) hsize h.namesInside
  have hlt : index < (nameTable host.file).length := by
    unfold readString at hname
    split_ifs at hname with hin
    omega
  have hlen : (nameTable host.file).length ≤
      shdr host.file (ehdr host.file Ehdr.eShstrndx) Shdr.shSize := by
    simp [nameTable]
  rw [htable, toInt_of_lt (by omega), stringAt, deref_some, ok_bind, if_neg (by omega),
    Int.toNat_natCast]
  exact hname

private theorem showsSection_dump {src : List UInt8} {i : Nat}
    (hoffset : shdr src i Shdr.shOffset < 2 ^ 31) (hsize : shdr src i Shdr.shSize < 2 ^ 31)
    (hne : shdr src i Shdr.shSize ≠ 0) {a : DumpArgs}
    (ha : a.offset = UInt32.ofNat (shdr src i Shdr.shOffset))
    (hb : a.size = UInt32.ofNat (shdr src i Shdr.shSize))
    (hc : a.ptr = chunk src (shdr src i Shdr.shOffset) (shdr src i Shdr.shSize))
    {str : CString} (hchars : str.chars = (sectionName src i).chars ++ [newline]) :
    ShowsSection src i (unlines newline (noteLines a.base a.rows (lines newline str.chars))) := by
  have hoff : a.offset.toNat = shdr src i Shdr.shOffset := by rw [ha, shdr_toNat src i rfl]
  have hsz : a.size.toNat = shdr src i Shdr.shSize := by rw [hb, shdr_toNat src i rfl]
  refine ⟨?_, fun _ => ?_, fun hzero => absurd hzero hne⟩
  · rw [(a.string_shows str).decodeDump_eq (by omega), DumpArgs.data, hoff, hsz, hc, chunk_tail,
      List.take_take, Nat.min_self]
  · rw [a.string_columns, hchars, List.filter_append]
    simp

private theorem wp_dumpContents {Q : Unit → Proc ElfVars → Prop} {i : Nat} {s₀ : Proc ElfVars}
    {data : Option Ptr} (h : LinerInput host.file) (hi : i < ehdr host.file Ehdr.eShnum)
    (hdescribed : Described host.file i → data =
      some (chunk host.file (shdr host.file i Shdr.shOffset) (shdr host.file i Shdr.shSize)))
    (hmissing : ¬Described host.file i → shdr host.file i Shdr.shSize ≠ 0 → data = none)
    (hs : Printed host s₀ [] s)
    (hshown : ∃ str : CString, s.vars.screen.Shows str ∧
      str.chars = (sectionName host.file i).chars ++ [newline])
    (hbad : Overflows host.file i → ∀ e s, E e s)
    (hQ : ∀ t s', SectionOutcome host.file i t → Printed host s₀ [t] s' → Q () s') :
    wp (dumpWithBuffer none (UInt32.ofNat (shdr host.file i Shdr.shOffset))
      (UInt32.ofNat (shdr host.file i Shdr.shSize)) data) Q E s := by
  have hoffset := shdr_toNat host.file i (f := Shdr.shOffset) rfl
  have hsize := shdr_toNat host.file i (f := Shdr.shSize) rfl
  by_cases hnone : shdr host.file i Shdr.shSize = 0 ∨ ¬Described host.file i
  · refine wp_dumpWithBuffer_nothing ?_ (hQ [] _ ⟨fun _ => rfl, fun hne hin => ?_⟩ ⟨hs.loaded, ?_⟩)
    · by_cases hzero : shdr host.file i Shdr.shSize = 0
      · exact Or.inl (by rw [hzero]; rfl)
      · exact Or.inr (hmissing (hnone.resolve_left hzero) hzero)
    · exact absurd hin (hnone.resolve_left hne)
    · simp [hs.dumps]
  push Not at hnone
  obtain ⟨hne, hin⟩ := hnone
  rw [hdescribed hin]
  obtain ⟨str, hshown, hchars⟩ := hshown
  by_cases hfits : shdr host.file i Shdr.shOffset % 16 + shdr host.file i Shdr.shSize < 2 ^ 31
  · have hread := (chunk_views hin).1
    let a : DumpArgs := ⟨UInt32.ofNat (shdr host.file i Shdr.shOffset),
      UInt32.ofNat (shdr host.file i Shdr.shSize), chunk host.file (shdr host.file i Shdr.shOffset)
        (shdr host.file i Shdr.shSize), by omega, by rw [hsize]; exact hread, by omega⟩
    have hshows : ShowsSection host.file i _ := showsSection_dump (a := a) (h.offsets i hi)
      (h.sizes i hi) hne rfl rfl rfl hchars
    refine wp_dumpWithBuffer a hs.loaded.screen hshown fun screen hscreen => hQ _ _
      ⟨fun hnot => ?_, fun _ _ => ⟨hfits, hshows⟩⟩ ⟨hs.loaded.withScreen hscreen, ?_⟩
    · exact absurd hin (hnot.resolve_left hne)
    · simp [hs.dumps]
  · obtain ⟨e, he⟩ := binaryDumpWithString_overflow
      (UInt32.ofNat (shdr host.file i Shdr.shOffset)) (UInt32.ofNat (shdr host.file i Shdr.shSize))
      (chunk host.file (shdr host.file i Shdr.shOffset) (shdr host.file i Shdr.shSize))
      s.vars.screen.chars (some 0) (by rw [hsize]; exact h.sizes i hi) (by omega)
    rw [dumpWithBuffer]
    simp only [wp_bind, wp_vars, Screen.dump, he, error_bind, wp_lift_error]
    exact hbad ⟨hin, by omega⟩ _ _

private theorem wp_dumpSection {Q : Unit → Proc ElfVars → Prop} {i : Nat}
    (hmalloc : ∀ target n, host.malloc target n = true) (h : LinerInput host.file)
    (hpos : 1 ≤ i) (hi : i < ehdr host.file Ehdr.eShnum) (hs : Loaded host s.vars)
    (hbad : Overflows host.file i → ∀ e s, E e s)
    (hQ : ∀ t s', SectionOutcome host.file i t → Printed host s [t] s' → Q () s') :
    wp (dumpSection host i) Q E s := by
  obtain ⟨hname, hnameLen⟩ := h.names i hpos hi
  have hget : ∀ {f : Field}, f.off + f.width ≤ Shdr.size →
      (chunk host.file (shdrAt host.file i) (ehdr host.file Ehdr.eShentsize)).get f =
        .ok (shdr host.file i f) := fun hf => h.table.head_get hi hf
  have hslot : slot s.vars.elfSectionHead i =
      .ok (some (chunk host.file (shdrAt host.file i) (ehdr host.file Ehdr.eShentsize))) := by
    rw [slot, if_neg (by omega), Int.toNat_natCast, hs.heads i hi]
  have hmember : member (some (chunk host.file (shdrAt host.file i) (ehdr host.file Ehdr.eShentsize)))
      Shdr.shName = .ok (shdr host.file i Shdr.shName) := hget (by decide)
  have hnameAt := stringAt_names h hs hname
  rw [dumpSection]
  simp only [wp_bind, wp_vars, hslot, wp_lift_ok, readContents, deref_some,
    hget (f := Shdr.shOffset) (by decide), hget (f := Shdr.shSize) (by decide), wp_elfFileRead,
    wp_pure, wp_binBufferReset, hmember, hnameAt]
  refine wp_printName hnameLen hs.screen fun screen hshown hscreen => ?_
  rw [toUnsigned_toInt (shdr_lt _ _ rfl), toUnsigned_toInt (shdr_lt _ _ rfl)]
  refine wp_dumpContents h hi ?_ ?_ ⟨hs.withScreen hscreen, ?_⟩ hshown hbad hQ
  · intro hin
    rw [← toUnsigned_toInt (shdr_lt _ _ rfl),
      transfer_described hmalloc (h.offsets i hi) (h.sizes i hi) (Or.inr hin)]
  · intro hout hne
    rw [toInt_of_lt (h.offsets i hi), toInt_of_lt (h.sizes i hi)]
    exact Host.transfer_outside (by omega) (by unfold Described at hout; omega)
  · simp [Host.dumps_transfer]

/-- The liner dump stops early only at a section that runs past the loop counter. -/
private theorem elfLinerDump_outcome (flags : Flags) (hhost : host.Healthy)
    (h : LinerInput host.file) :
    wp (elfLinerDump host flags)
      (fun _ s => ∃ front sections, dumps s.trace = front ++ sections ∧
        front.length = (if flags.dumpHeader then 1 else 0) +
          (if flags.dumpPheader then ehdr host.file Ehdr.ePhnum else 0) ∧
        sections.length = ehdr host.file Ehdr.eShnum - 1 ∧
        ∀ k t, sections[k]? = some t → SectionOutcome host.file (k + 1) t)
      (fun _ _ => ∃ i, 1 ≤ i ∧ i < ehdr host.file Ehdr.eShnum ∧ Overflows host.file i)
      ElfVars.start := by
  rw [elfLinerDump]
  simp only [wp_bind, openFile, if_pos hhost.canOpen, wp_pure]
  refine wp_elfInitRead h.table hhost.malloc fun s₀ hinit => ?_
  refine wp_dumpHeader h.table.header hinit.loaded fun es₁ s₁ htrace₁ hloaded₁ hlen₁ => ?_
  refine wp_dumpProgramHeaders hhost.malloc h.table.header h.programs hloaded₁
    fun es₂ s₂ htrace₂ hloaded₂ hlen₂ _ => ?_
  have hs₂ : Printed host s₀ (dumps es₁ ++ dumps es₂) s₂ :=
    ⟨hloaded₂, by rw [htrace₂, htrace₁, dumps_append, dumps_append, List.append_assoc]⟩
  rw [wp_vars, hs₂.loaded.sectionNum]
  refine wp_mono (wp_loop _ (fun i s => ∃ sections, sections.length = i - 1 ∧
    Printed host s₀ (dumps es₁ ++ dumps es₂ ++ sections) s ∧
    ∀ k t, sections[k]? = some t → SectionOutcome host.file (k + 1) t) ?_
    ⟨[], rfl, by simpa using hs₂, by simp⟩) ?_ fun _ _ he => he
  · rintro i s hpos hi ⟨sections, hlen, hs, hall⟩
    refine wp_dumpSection hhost.malloc h hpos (by omega) hs.loaded
      (fun hbad _ _ => ⟨i, hpos, by omega, hbad⟩) fun t s' ht hs' => ⟨sections ++ [t], ?_, ?_, ?_⟩
    · simp
      omega
    · simpa using hs.append hs'
    · intro k u hu
      by_cases hk : k < sections.length
      · rw [List.getElem?_append_left hk] at hu
        exact hall k u hu
      · have hk' : k = sections.length := by
          have hlt := (List.getElem?_eq_some_iff.mp hu).1
          simp at hlt
          omega
        subst hk'
        rw [List.getElem?_concat_length] at hu
        rw [← Option.some.inj hu, hlen, Nat.sub_add_cancel hpos]
        exact ht
  · rintro - s ⟨sections, hlen, hs, hall⟩
    refine ⟨dumps es₁ ++ dumps es₂, sections, by rw [hs.dumps, hinit.dumps, List.nil_append],
      ?_, ?_, hall⟩
    · rw [List.length_append, hlen₁, hlen₂]
    · rw [hlen]
      omega

end

/-- The liner dump shows every section but the first: its file image under its name, and nothing
for a section without one. -/
def SectionsShown (host : Host) (flags : Flags) : Prop :=
  ∃ s front sections, elfLinerDump host flags ElfVars.start = (.ok (), s) ∧
    dumps s.trace = front ++ sections ∧
    front.length = (if flags.dumpHeader then 1 else 0) +
      (if flags.dumpPheader then ehdr host.file Ehdr.ePhnum else 0) ∧
    sections.length = ehdr host.file Ehdr.eShnum - 1 ∧
    ∀ k t, sections[k]? = some t →
      if shdr host.file (k + 1) Shdr.shType = shtNobits then decodeDump t = []
      else ShowsSection host.file (k + 1) t

/-- Section i, if it has no contents, describes no bytes of the file, and if it has some, its
dump stays within the loop counter. -/
def ImageClear (src : List UInt8) (i : Nat) : Prop :=
  if shdr src i Shdr.shType = shtNobits then shdr src i Shdr.shSize = 0 ∨ ¬Described src i
  else shdr src i Shdr.shOffset % 16 + shdr src i Shdr.shSize < 2 ^ 31

section

variable {src : List UInt8} {i : Nat}

private theorem showsSection_empty (h : shdr src i Shdr.shSize = 0) : ShowsSection src i [] :=
  ⟨by rw [h]; rfl, fun hne => absurd h hne, fun _ => rfl⟩

private theorem ShowsSection.decodeDump_ne_nil {t : Text} (h : ShowsSection src i t)
    (hne : shdr src i Shdr.shSize ≠ 0) (hin : Described src i) : decodeDump t ≠ [] := by
  intro hnil
  have hlen := congrArg List.length (h.bytes.symm.trans hnil)
  unfold Described at hin
  simp at hlen
  omega

private theorem ImageClear.not_overflows (h : ImageClear src i) : ¬Overflows src i := by
  rintro ⟨hin, hlong⟩
  unfold ImageClear at h
  split_ifs at h
  · rcases h with hzero | hout
    · omega
    · exact hout hin
  · omega

end

section

variable {host : Host} {flags : Flags} (hhost : host.Healthy) (h : LinerInput host.file)
include hhost h

private theorem imageClear_of_shown (hshown : SectionsShown host flags) {i : Nat} (hpos : 1 ≤ i)
    (hi : i < ehdr host.file Ehdr.eShnum) : ImageClear host.file i := by
  have hrun := elfLinerDump_outcome flags hhost h
  obtain ⟨s, front, sections, hreturn, hdumps, hfront, hlen, hshown⟩ := hshown
  rw [wp_of_eq hreturn] at hrun
  obtain ⟨front', sections', hdumps', hfront', -, hall⟩ := hrun
  have hsections := (List.append_inj (hdumps.symm.trans hdumps') (hfront.trans hfront'.symm)).2
  obtain ⟨t, ht⟩ : ∃ t, sections[i - 1]? = some t := ⟨_, List.getElem?_eq_getElem (by omega)⟩
  have hshownAt := hshown (i - 1) t ht
  have houtcome := hall (i - 1) t (by rw [← hsections, ht])
  rw [Nat.sub_add_cancel hpos] at hshownAt houtcome
  unfold ImageClear
  split_ifs at hshownAt ⊢ with htype
  · by_contra hbad
    push Not at hbad
    exact (houtcome.something hbad.1 hbad.2).2.decodeDump_ne_nil hbad.1 hbad.2 hshownAt
  · by_cases hzero : shdr host.file i Shdr.shSize = 0
    · omega
    · exact (houtcome.something hzero (h.contents i hpos hi htype)).1

private theorem shown_of_imageClear
    (hclear : ∀ i, 1 ≤ i → i < ehdr host.file Ehdr.eShnum → ImageClear host.file i) :
    SectionsShown host flags := by
  have hnever : ¬ ∃ i, 1 ≤ i ∧ i < ehdr host.file Ehdr.eShnum ∧ Overflows host.file i := by
    intro hstop
    obtain ⟨i, hpos, hi, hbad⟩ := hstop
    exact (hclear i hpos hi).not_overflows hbad
  obtain ⟨⟨⟩, s, hreturn, front, sections, hdumps, hfront, hlen, hall⟩ := returns_of_wp
    (wp_mono (elfLinerDump_outcome flags hhost h) (fun _ _ hq => hq) fun _ _ => hnever)
  refine ⟨s, front, sections, hreturn, hdumps, hfront, hlen, fun k t ht => ?_⟩
  have hk : k + 1 < ehdr host.file Ehdr.eShnum := by
    have hlt := (List.getElem?_eq_some_iff.mp ht).1
    omega
  have houtcome := hall k t ht
  have hclearAt := hclear (k + 1) (by omega) hk
  unfold ImageClear at hclearAt
  split_ifs at hclearAt ⊢ with htype
  · rw [houtcome.nothing hclearAt]
    rfl
  · by_cases hzero : shdr host.file (k + 1) Shdr.shSize = 0
    · rw [houtcome.nothing (Or.inl hzero)]
      exact showsSection_empty hzero
    · exact (houtcome.something hzero (h.contents _ (by omega) hk htype)).2

/-- Exactly then the liner dump shows the sections as they are in the file. -/
theorem elfLinerDump_shows_iff : SectionsShown host flags ↔
    ∀ i, 1 ≤ i → i < ehdr host.file Ehdr.eShnum → ImageClear host.file i :=
  ⟨fun hshown _ => imageClear_of_shown hhost h hshown, shown_of_imageClear hhost h⟩

end

/-! ## A section without contents -/

/-- A file whose .bss, of four bytes, is described at the place of the section names. -/
def bssFile : List UInt8 :=
  Ehdr.bytes 0 52 0 0 40 3 1 ++ List.replicate 40 0 ++ Shdr.bytes 1 shtStrtab 172 16 0 ++
    Shdr.bytes 11 shtNobits 172 4 0 ++ ascii "\x00.shstrtab\x00.bss\x00"

theorem bssFile_input : LinerInput bssFile := by
  have hnum : ehdr bssFile Ehdr.eShnum = 3 := by decide +kernel
  have hindex : ehdr bssFile Ehdr.eShstrndx = 1 := by decide +kernel
  refine ⟨⟨by decide +kernel, by decide +kernel, by decide +kernel, by decide +kernel,
    by decide +kernel, by decide +kernel⟩, ⟨by decide +kernel, by decide +kernel, by decide +kernel,
    by decide +kernel, by decide +kernel⟩, ?_, by decide +kernel, by decide +kernel, ?_, ?_⟩
  · unfold Described
    decide +kernel
  · intro i hpos hi
    rw [hnum] at hi
    unfold Described
    interval_cases i <;> decide +kernel
  · intro i hpos hi
    rw [hnum] at hi
    interval_cases i <;> decide +kernel

/-- Its .bss is dumped with the bytes of the section names. -/
theorem bssFile_not_shown :
    LinerInput bssFile ∧ ¬SectionsShown (Host.ideal bssFile) Flags.initial := by
  refine ⟨bssFile_input, fun hshown => ?_⟩
  have hclear := imageClear_of_shown (Host.ideal_healthy bssFile) bssFile_input hshown (i := 2)
    (by decide) (by decide +kernel)
  have hbad : ¬ImageClear bssFile 2 := by
    unfold ImageClear Described
    decide +kernel
  exact hbad hclear

theorem elfLinerDump_shows_iff_bssFile : SectionsShown (Host.ideal bssFile) Flags.initial ↔
    ∀ i, 1 ≤ i → i < ehdr bssFile Ehdr.eShnum → ImageClear bssFile i :=
  elfLinerDump_shows_iff (Host.ideal_healthy bssFile) bssFile_input

end PerfTools.Elf
