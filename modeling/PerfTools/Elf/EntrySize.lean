import PerfTools.Elf.Headers
import PerfTools.Elfdig.Loading

/-!
# Declared entry sizes

A header declares how far apart the entries of its tables are. elf.c reads section header i at
the position that the declared size gives, elfdig.c and the program header dump step over the
table by structures. They find the same entries where the declared size is that of the structure,
or where there is only one entry.
-/

namespace PerfTools.Elf

open Memory Printf Exec Elfdig

/-- Both tables lie in the file, with entries that hold at least a structure. -/
structure TablesInside (src : List UInt8) : Prop where
  header : Ehdr.size ≤ src.length
  length : src.length ≤ 2 ^ 32
  slots : ehdr src Ehdr.eShnum ≤ 100
  shentsize : Shdr.size ≤ ehdr src Ehdr.eShentsize
  phentsize : ehdr src Ehdr.ePhnum = 0 ∨ Phdr.size ≤ ehdr src Ehdr.ePhentsize
  sectionSize : ehdr src Ehdr.eShentsize * ehdr src Ehdr.eShnum < 2 ^ 31
  sections : ehdr src Ehdr.eShoff + ehdr src Ehdr.eShentsize * ehdr src Ehdr.eShnum ≤ src.length
  programSize : ehdr src Ehdr.ePhentsize * ehdr src Ehdr.ePhnum < 2 ^ 31
  programs : ehdr src Ehdr.ePhoff + ehdr src Ehdr.ePhentsize * ehdr src Ehdr.ePhnum ≤ src.length

/-- The pointer shows n bytes of the file from the position on. -/
structure RecordAt (src : List UInt8) (position n : Nat) (p : Ptr) : Prop where
  position : p.position = position
  bytes : p.Views src n

/-- Entry i of each table is the structure at table offset + i * declared entry size: in elf.c's
slots, in elfdig's array, for the section names and for the dumped program headers. -/
structure EntriesHonoured (host : Host) (flags : Flags) : Prop where
  stored : ∃ s, elfInitRead host ElfVars.start = (.ok (), s) ∧
    ∀ i < ehdr host.file Ehdr.eShnum, ∃ p, s.vars.elfSectionHead[i]? = some (some p) ∧
      RecordAt host.file (shdrAt host.file i) Shdr.size p
  indexed : ∃ s, elfSectionHeadRead host ElfObj.start = (.ok (), s) ∧
    ∀ i < ehdr host.file Ehdr.eShnum, ∃ p, elfSectionHeadByIndex i s = (.ok (some p), s) ∧
      RecordAt host.file (shdrAt host.file i) Shdr.size p
  picked : ∃ p q ok ok', .read (.nameTable p) ok ∈ (elfInitRead host ElfVars.start).2.trace ∧
    .read (.nameTable q) ok' ∈ (elfSectionHeadRead host ElfObj.start).2.trace ∧
    RecordAt host.file (shdrAt host.file (ehdr host.file Ehdr.eShstrndx)) Shdr.size p ∧
    RecordAt host.file (shdrAt host.file (ehdr host.file Ehdr.eShstrndx)) Shdr.size q
  dumped : ∀ i < ehdr host.file Ehdr.ePhnum, ∃ label size p t,
    .dump (some (.programHeaders, i)) label size (some p) t ∈
      (elfLinerDump host flags ElfVars.start).2.trace ∧
    size.toNat = ehdr host.file Ehdr.ePhentsize ∧
    RecordAt host.file (phdrAt host.file i) size.toNat p ∧ label.toNat = phdrAt host.file i

/-- The declared sizes are those of the structures as far as a second entry makes use of them,
and every entry starts at an offset that an int holds. -/
structure EntriesFit (src : List UInt8) : Prop where
  names : ehdr src Ehdr.eShstrndx < ehdr src Ehdr.eShnum
  sections : ehdr src Ehdr.eShentsize = Shdr.size ∨ ehdr src Ehdr.eShnum = 1
  sectionRange : shdrAt src (ehdr src Ehdr.eShnum - 1) < 2 ^ 31
  programs : ehdr src Ehdr.ePhentsize = Phdr.size ∨ ehdr src Ehdr.ePhnum ≤ 1
  programRange : ehdr src Ehdr.ePhnum = 0 ∨ phdrAt src (ehdr src Ehdr.ePhnum - 1) < 2 ^ 31

/-! ## When the sizes fit -/

section

variable {src : List UInt8} (h : TablesInside src) (hfit : EntriesFit src)
include h hfit

private theorem sectionTable_of_fit : SectionTable src := by
  have hinside := h.sections
  have hrange := hfit.sectionRange
  refine ⟨h.header, h.shentsize, h.slots, by rwa [Nat.mul_comm], fun i hi => ?_, hfit.names⟩
  have hle : i * ehdr src Ehdr.eShentsize ≤ (ehdr src Ehdr.eShnum - 1) * ehdr src Ehdr.eShentsize :=
    Nat.mul_le_mul_right _ (by omega)
  unfold shdrAt at hrange ⊢
  omega

private theorem entry_fits {i : Nat} (hi : i < ehdr src Ehdr.eShnum) :
    shdrAt src i = ehdr src Ehdr.eShoff + i * Shdr.size ∧
      i * Shdr.size + Shdr.size ≤ ehdr src Ehdr.eShentsize * ehdr src Ehdr.eShnum := by
  have hsize := h.shentsize
  unfold shdrAt
  rcases hfit.sections with heq | hone
  · have hle : (i + 1) * Shdr.size ≤ ehdr src Ehdr.eShnum * Shdr.size := Nat.mul_le_mul_right _ hi
    rw [heq, Nat.mul_comm Shdr.size]
    exact ⟨rfl, by rwa [← Nat.succ_mul]⟩
  · have hzero : i = 0 := by omega
    subst hzero
    rw [hone]
    omega

private theorem sectionArray_of_fit : SectionArray src := by
  have hrange := hfit.sectionRange
  have hnames := entry_fits h hfit hfit.names
  refine ⟨h.header, h.sectionSize, ?_, h.sections, hnames.2⟩
  unfold shdrAt at hrange
  omega

private theorem programTable_of_fit (hnum : ehdr src Ehdr.ePhnum ≠ 0) : ProgramTable src := by
  have hrange := hfit.programRange.resolve_left hnum
  have hle (i : Nat) (hi : i < ehdr src Ehdr.ePhnum) : phdrAt src i < 2 ^ 31 := by
    have hmul : ehdr src Ehdr.ePhentsize * i ≤
        ehdr src Ehdr.ePhentsize * (ehdr src Ehdr.ePhnum - 1) :=
      Nat.mul_le_mul_left _ (by omega)
    unfold phdrAt at hrange ⊢
    omega
  refine ⟨h.phentsize, h.programSize, h.programs, ?_, hle⟩
  have hzero := hle 0 (by omega)
  simpa [phdrAt] using hzero

private theorem head_recordAt {i : Nat} (hi : i < ehdr src Ehdr.eShnum) :
    RecordAt src (shdrAt src i) Shdr.size
      (chunk src (shdrAt src i) (ehdr src Ehdr.eShentsize)) :=
  ⟨rfl, Ptr.views_mono (chunk_views ((sectionTable_of_fit h hfit).shdrAt_inside hi)) h.shentsize⟩

private theorem entry_recordAt {i : Nat} (hi : i < ehdr src Ehdr.eShnum) :
    RecordAt src (shdrAt src i) Shdr.size (sectionEntry src i) := by
  obtain ⟨hat, hin⟩ := entry_fits h hfit hi
  refine ⟨by rw [sectionEntry_position, hat], ?_⟩
  exact Ptr.views_add (Ptr.views_mono (chunk_views h.sections) hin)

end

private theorem program_recordAt {src : List UInt8} (h : TablesInside src) (hfit : EntriesFit src)
    {i : Nat} (hi : i < ehdr src Ehdr.ePhnum) : RecordAt src (phdrAt src i)
      (ehdr src Ehdr.ePhentsize) ((programTable src).add (i * Phdr.size)) := by
  have hsize := h.phentsize
  have hlast : ehdr src Ehdr.ePhentsize * (i + 1) ≤ ehdr src Ehdr.ePhentsize * ehdr src Ehdr.ePhnum :=
    Nat.mul_le_mul_left _ hi
  have hat : i * Phdr.size = ehdr src Ehdr.ePhentsize * i := by
    rcases hfit.programs with heq | hone
    · rw [heq, Nat.mul_comm]
    · have hzero : i = 0 := by omega
      rw [hzero, Nat.zero_mul, Nat.mul_zero]
  rw [Nat.mul_succ, ← hat] at hlast
  refine ⟨?_, Ptr.views_add (Ptr.views_mono (chunk_views h.programs) hlast)⟩
  rw [Ptr.add_position, hat]
  rfl

private theorem unaffected_dumps (src : List UInt8) (n : Nat) : Unaffected fun s =>
    ∀ i < n, ∃ e ∈ s.trace, IsProgramDump src i e := by
  refine ⟨fun _ _ hs => hs, fun _ _ _ _ hs i hi => ?_⟩
  obtain ⟨e, he, hdump⟩ := hs i hi
  exact ⟨e, List.mem_append_left _ he, hdump⟩

section

variable {host : Host} {flags : Flags} (hhost : host.Healthy) (h : TablesInside host.file)
  (hfit : EntriesFit host.file)
include hhost h hfit

private theorem initRead_of_fit :
    ∃ s, elfInitRead host ElfVars.start = (.ok (), s) ∧ InitRead host s := by
  obtain ⟨⟨⟩, s, hrun, hs⟩ := returns_of_wp (wp_elfInitRead (Q := fun _ s => InitRead host s)
    (sectionTable_of_fit h hfit) hhost.malloc fun _ hs => hs)
  exact ⟨s, hrun, hs⟩

private theorem stored_of_fit : ∃ s, elfInitRead host ElfVars.start = (.ok (), s) ∧
    ∀ i < ehdr host.file Ehdr.eShnum, ∃ p, s.vars.elfSectionHead[i]? = some (some p) ∧
      RecordAt host.file (shdrAt host.file i) Shdr.size p := by
  obtain ⟨s, hrun, hs⟩ := initRead_of_fit hhost h hfit
  exact ⟨s, hrun, fun i hi => ⟨_, hs.loaded.heads i hi, head_recordAt h hfit hi⟩⟩

private theorem sectionsRead_of_fit : ∃ s, elfSectionHeadRead host ElfObj.start = (.ok (), s) ∧
    SectionsRead host s.vars ∧ ∃ ok, .read (.nameTable (sectionEntry host.file
      (ehdr host.file Ehdr.eShstrndx))) ok ∈ s.trace := by
  have hread := wp_elfSectionHeadRead (Q := fun _ s => SectionsRead host s.vars ∧
    ∃ ok, .read (.nameTable (sectionEntry host.file (ehdr host.file Ehdr.eShstrndx))) ok ∈ s.trace)
    (E := fun _ _ => False) (sectionArray_of_fit h hfit) hhost.malloc fun s hs _ hnames => by
      obtain ⟨_, ⟨pos, rfl⟩, -, htrace⟩ := hnames
      rw [htrace]
      exact ⟨hs, _, List.mem_append_right _ Host.transfer_reports⟩
  obtain ⟨⟨⟩, s, hrun, hs⟩ := returns_of_wp hread
  exact ⟨s, hrun, hs⟩

private theorem indexed_of_fit : ∃ s, elfSectionHeadRead host ElfObj.start = (.ok (), s) ∧
    ∀ i < ehdr host.file Ehdr.eShnum, ∃ p, elfSectionHeadByIndex i s = (.ok (some p), s) ∧
      RecordAt host.file (shdrAt host.file i) Shdr.size p := by
  obtain ⟨s, hrun, hs, -⟩ := sectionsRead_of_fit hhost h hfit
  exact ⟨s, hrun, fun i hi => ⟨_, elfSectionHeadByIndex_eq hs hi, entry_recordAt h hfit hi⟩⟩

private theorem picked_of_fit : ∃ p q ok ok',
    .read (.nameTable p) ok ∈ (elfInitRead host ElfVars.start).2.trace ∧
    .read (.nameTable q) ok' ∈ (elfSectionHeadRead host ElfObj.start).2.trace ∧
    RecordAt host.file (shdrAt host.file (ehdr host.file Ehdr.eShstrndx)) Shdr.size p ∧
    RecordAt host.file (shdrAt host.file (ehdr host.file Ehdr.eShstrndx)) Shdr.size q := by
  obtain ⟨s, hrun, hs⟩ := initRead_of_fit hhost h hfit
  obtain ⟨ok, hpicked⟩ := hs.picked
  obtain ⟨s', hrun', -, ok', hpicked'⟩ := sectionsRead_of_fit hhost h hfit
  refine ⟨_, _, ok, ok', by rw [hrun]; exact hpicked, by rw [hrun']; exact hpicked', ?_, ?_⟩
  · exact head_recordAt h hfit hfit.names
  · exact entry_recordAt h hfit hfit.names

private theorem dumped_of_fit (hflag : flags.dumpPheader = true) :
    ∀ i < ehdr host.file Ehdr.ePhnum, ∃ e ∈ (elfLinerDump host flags ElfVars.start).2.trace,
      IsProgramDump host.file i e := by
  rcases Nat.eq_zero_or_pos (ehdr host.file Ehdr.ePhnum) with hzero | hpos
  · intro i hi
    omega
  refine last_of_wp (I := fun s : Proc ElfVars => ∀ i < ehdr host.file Ehdr.ePhnum,
    ∃ e ∈ s.trace, IsProgramDump host.file i e) ?_
  rw [elfLinerDump]
  simp only [wp_bind, openFile, if_pos hhost.canOpen, wp_pure]
  refine wp_elfInitRead (sectionTable_of_fit h hfit) hhost.malloc fun s₀ hinit => ?_
  refine wp_dumpHeader h.header hinit.loaded fun es₁ s₁ _ hloaded₁ _ => ?_
  refine wp_dumpProgramHeaders hhost.malloc h.header (programTable_of_fit h hfit (by omega)) hloaded₁
    fun es₂ s₂ htrace₂ _ _ hall => ?_
  have hsections := Keeps.loop (n := s₂.vars.sectionNum - 1) (i := 1) fun i _ _ =>
    (unaffected_dumps host.file (ehdr host.file Ehdr.ePhnum)).dumpSection host i
  rw [wp_vars]
  refine wp_mono (hsections s₂ fun i hi => ?_) (fun _ _ hs => hs.2) fun _ _ hs => hs
  obtain ⟨e, he, hdump⟩ := hall hflag i hi
  exact ⟨e, by rw [htrace₂]; exact List.mem_append_right _ he, hdump⟩

private theorem honoured_of_fit (hflag : flags.dumpPheader = true) :
    EntriesHonoured host flags := by
  refine ⟨stored_of_fit hhost h hfit, indexed_of_fit hhost h hfit, picked_of_fit hhost h hfit,
    fun i hi => ?_⟩
  have htable := programTable_of_fit h hfit (by omega)
  obtain ⟨_, he, t, rfl⟩ := dumped_of_fit hhost h hfit hflag i hi
  have hsize : (UInt32.ofNat (ehdr host.file Ehdr.ePhentsize)).toNat =
      ehdr host.file Ehdr.ePhentsize := by
    rw [UInt32.toNat_ofNat']
    have hlt := ehdr_lt host.file (f := Ehdr.ePhentsize) rfl
    exact Nat.mod_eq_of_lt (by omega)
  have hlabel : (UInt32.ofNat (phdrAt host.file i)).toNat = phdrAt host.file i := by
    rw [UInt32.toNat_ofNat']
    have hlt := htable.range i hi
    exact Nat.mod_eq_of_lt (by omega)
  refine ⟨_, _, _, t, he, hsize, ?_, hlabel⟩
  rw [hsize]
  exact program_recordAt h hfit hi

end

/-! ## When the entries are found -/

/-- What holds of the program headers that the liner dump of any file shows. -/
def ProgramRule (host : Host) : Event → Prop
  | .dump (some (.programHeaders, i)) _ _ (some p) _ =>
    ∃ buf, Fetched host (toInt (ehdr host.file Ehdr.ePhoff))
        (ehdr host.file Ehdr.ePhentsize * ehdr host.file Ehdr.ePhnum : Nat) buf ∧
      p = buf.add (i * Phdr.size) ∧
      toInt (ehdr host.file Ehdr.ePhoff) + (ehdr host.file Ehdr.ePhentsize * i : Nat) < 2 ^ 31
  | _ => True

private theorem programRule_quiet (host : Host) (e : Event) (h : e.Quiet) :
    ProgramRule host e := by
  unfold ProgramRule
  split
  · exact absurd h id
  · trivial

section

variable {host : Host}

private theorem program_unaffected (host : Host) :
    Unaffected (Tracing (HeadsRead host) (ProgramRule host)) :=
  Tracing.unaffected HeadsRead.withScreen (programRule_quiet host)

private theorem keeps_dumpProgramHeader {buf : Ptr} {i : Nat}
    (hbuf : Fetched host (toInt (ehdr host.file Ehdr.ePhoff))
      (ehdr host.file Ehdr.ePhentsize * ehdr host.file Ehdr.ePhnum : Nat) buf) :
    Keeps (Tracing (HeadsRead host) (ProgramRule host))
      (dumpProgramHeader (toInt (ehdr host.file Ehdr.ePhoff)) (ehdr host.file Ehdr.ePhentsize) i
        (buf.add (i * Phdr.size))) := by
  have hscreen := (program_unaffected host).screen
  refine Keeps.bind (keeps_binBufferReset hscreen) fun _ => Yields.lift_bind fun type _ => ?_
  refine Keeps.bind (keeps_binPrintf hscreen _ _) fun _ => ?_
  refine Keeps.bind (keeps_printMember hscreen _ _ _ _ _ _) fun _ => ?_
  refine Keeps.bind (keeps_printMember hscreen _ _ _ _ _ _) fun _ => ?_
  refine Yields.lift_bind fun distance hdistance => Yields.lift_bind fun offset hoffset => ?_
  obtain ⟨rfl, -, -⟩ := checked_eq_ok hdistance
  obtain ⟨rfl, -, hlt⟩ := checked_eq_ok hoffset
  exact Tracing.dumpWithBuffer HeadsRead.withScreen fun _ _ _ =>
    ⟨buf, hbuf, rfl, by exact_mod_cast hlt⟩

private theorem keeps_dumpProgramHeaders (flags : Flags) :
    Keeps (Tracing (HeadsRead host) (ProgramRule host)) (dumpProgramHeaders host flags) := by
  refine Tracing.vars_bind fun v hv => Yields.lift_bind fun phoff hphoff => ?_
  refine Yields.lift_bind fun phentsize hphentsize => Yields.lift_bind fun phnum hphnum => ?_
  refine Yields.lift_bind fun size hsize => ?_
  obtain ⟨rfl, -, hlt⟩ := checked_eq_ok hsize
  rw [ehdr_of_member hv.header hphoff, ehdr_of_member hv.header hphentsize,
    ehdr_of_member hv.header hphnum, ← Nat.cast_mul] at *
  refine keeps_elfFileRead_bind (programRule_quiet host) (by rintro p ⟨⟩) (by omega)
    fun phBuf hphBuf => ?_
  refine Keeps.bind (Tracing.setVars fun v hv => ⟨hv.header, hv.offset, hv.size, hv.num,
    hv.heads⟩) fun _ => Keeps.runIf fun _ => ?_
  refine Yields.lift_bind fun phoff hphoff => Yields.lift_bind fun phentsize hphentsize => ?_
  refine Yields.lift_bind fun phnum hphnum => Keeps.loop fun i _ _ => Yields.lift_bind fun p hp => ?_
  rw [ehdr_of_member hv.header hphoff, ehdr_of_member hv.header hphentsize]
  cases phBuf with
  | none => cases hp
  | some buf =>
    rw [← Except.ok.inj hp]
    exact keeps_dumpProgramHeader (hphBuf buf rfl)

private theorem elfLinerDump_programRule (host : Host) (flags : Flags) :
    ∀ e ∈ (elfLinerDump host flags ElfVars.start).2.trace, ProgramRule host e := by
  refine last_of_wp (I := fun s : Proc ElfVars => ∀ e ∈ s.trace, ProgramRule host e) ?_
  rw [elfLinerDump, wp_bind, openFile]
  split_ifs
  · rw [wp_pure, wp_bind]
    refine wp_mono (wp_elfInitRead_traced host (programRule_quiet host) fun _ _ _ => trivial)
      (fun _ s hs => ?_) fun _ _ he => he
    refine wp_mono ((?_ : Keeps (Tracing (HeadsRead host) (ProgramRule host)) _) s hs)
      (fun _ _ h => h.2.events) fun _ _ h => h.events
    refine Keeps.bind (Keeps.runIf fun _ => (program_unaffected host).elfHeaderDump) fun _ => ?_
    refine Keeps.bind (keeps_dumpProgramHeaders flags) fun _ => Tracing.vars_bind fun v _ => ?_
    exact Keeps.loop fun i _ _ => (program_unaffected host).dumpSection host i
  · rw [wp_stop]
    simp [ElfVars.start]

end

section

variable {host : Host} {flags : Flags} (h : TablesInside host.file)
  (hall : EntriesHonoured host flags)
include h hall

private theorem pos_of_honoured : 0 < ehdr host.file Ehdr.eShnum ∧
    ehdr host.file Ehdr.eShstrndx * Shdr.size = ehdr host.file Ehdr.eShstrndx *
      ehdr host.file Ehdr.eShentsize ∧
    ehdr host.file Ehdr.eShstrndx < ehdr host.file Ehdr.eShnum := by
  obtain ⟨p, q, ok, ok', -, hread, -, hq⟩ := hall.picked
  have hrule := last_of_keeps (keeps_elfSectionHeadRead host (P := fun e => ∀ q ok,
    e = .read (.nameTable q) ok → ∃ table, Fetched host (toInt (ehdr host.file Ehdr.eShoff))
      (ehdr host.file Ehdr.eShentsize * ehdr host.file Ehdr.eShnum : Nat) table ∧
      ehdr host.file Ehdr.eShstrndx * Shdr.size < table.tail.length ∧
      q = table.add (ehdr host.file Ehdr.eShstrndx * Shdr.size))
    (by rintro _ h q ok rfl; exact absurd h id)
    (by rintro table ok hf hlt _ _ ⟨⟩; exact ⟨table, hf, hlt, rfl⟩)) (s := ElfObj.start)
    ⟨by rintro p ⟨⟩, by simp [ElfObj.start]⟩
  obtain ⟨table, hf, hlt, rfl⟩ := hrule.events _ hread q ok' rfl
  have hlength := hf.length (by omega)
  rw [hlength, Int.toNat_natCast] at hlt
  have hnum : 0 < ehdr host.file Ehdr.eShnum := by
    by_contra hzero
    rw [Nat.eq_zero_of_not_pos hzero] at hlt
    omega
  have hone := Nat.le_mul_of_pos_right (ehdr host.file Ehdr.eShentsize) hnum
  have hsize := h.shentsize
  have hposition := hf.position_eq (ehdr_lt_word _ rfl) (n := ehdr host.file Ehdr.eShentsize *
    ehdr host.file Ehdr.eShnum) (by rw [Shdr.size] at hsize; omega) h.sections h.length
  have hat := hq.position
  rw [Ptr.add_position, hposition.2, shdrAt] at hat
  have heq : ehdr host.file Ehdr.eShstrndx * Shdr.size =
    ehdr host.file Ehdr.eShstrndx * ehdr host.file Ehdr.eShentsize := by omega
  refine ⟨hnum, heq, ?_⟩
  rw [heq, Nat.mul_comm] at hlt
  exact Nat.lt_of_mul_lt_mul_left hlt

private theorem sections_of_honoured :
    ehdr host.file Ehdr.eShentsize = Shdr.size ∨ ehdr host.file Ehdr.eShnum = 1 := by
  obtain ⟨hnum, -, -⟩ := pos_of_honoured h hall
  by_contra hbad
  push Not at hbad
  obtain ⟨s, hrun, hat⟩ := hall.indexed
  obtain ⟨p, hp, hrecord⟩ := hat 1 (by omega)
  have hread := keeps_elfSectionHeadRead host (P := fun _ => True) (fun _ _ => trivial)
    (fun _ _ _ _ => trivial) ElfObj.start ⟨by rintro p ⟨⟩, by simp [ElfObj.start]⟩
  rw [wp_of_eq hrun] at hread
  obtain ⟨table, htable, rfl⟩ := elfSectionHeadByIndex_some hp
  have hone := Nat.le_mul_of_pos_right (ehdr host.file Ehdr.eShentsize) hnum
  have hsize := h.shentsize
  have hposition := (hread.2.vars table htable).position_eq (ehdr_lt_word _ rfl)
    (n := ehdr host.file Ehdr.eShentsize * ehdr host.file Ehdr.eShnum)
    (by rw [Shdr.size] at hsize; omega) h.sections h.length
  have heq := hrecord.position
  rw [Ptr.add_position, hposition.2, shdrAt] at heq
  exact hbad.1 (by simpa using heq.symm)

private theorem sectionRange_of_honoured :
    shdrAt host.file (ehdr host.file Ehdr.eShnum - 1) < 2 ^ 31 := by
  obtain ⟨hnum, -, -⟩ := pos_of_honoured h hall
  obtain ⟨s, hrun, hat⟩ := hall.stored
  have hread := wp_elfInitRead_traced host (P := fun _ => True) (fun _ _ => trivial)
    fun _ _ _ => trivial
  rw [wp_of_eq hrun] at hread
  obtain ⟨p, hp, -⟩ := hat 0 hnum
  obtain ⟨q, hq, -⟩ := hat (ehdr host.file Ehdr.eShnum - 1) (by omega)
  obtain ⟨hfirst, -⟩ := hread.vars.heads 0 p hp
  obtain ⟨-, hlast⟩ := hread.vars.heads _ q hq
  rw [Nat.cast_zero, zero_mul, add_zero] at hfirst
  have hone := Nat.le_mul_of_pos_right (ehdr host.file Ehdr.eShentsize) hnum
  have hsize := h.shentsize
  have hposition := hfirst.position_eq (ehdr_lt_word _ rfl)
    (n := ehdr host.file Ehdr.eShentsize * ehdr host.file Ehdr.eShnum)
    (by rw [Shdr.size] at hsize; omega) h.sections h.length
  rw [toInt_of_lt hposition.1] at hlast
  unfold shdrAt
  exact_mod_cast hlast

/-- A dumped program header, in the words of the rule. -/
private theorem programRule_of_honoured {i : Nat} (hi : i < ehdr host.file Ehdr.ePhnum) :
    phdrAt host.file i < 2 ^ 31 ∧ i * Phdr.size = ehdr host.file Ehdr.ePhentsize * i := by
  obtain ⟨label, size, p, t, hdump, -, hrecord, -⟩ := hall.dumped i hi
  obtain ⟨buf, hbuf, rfl, hlt⟩ := elfLinerDump_programRule host flags _ hdump
  have hone := Nat.le_mul_of_pos_right (ehdr host.file Ehdr.ePhentsize) (Nat.zero_lt_of_lt hi)
  have hsize := h.phentsize.resolve_left (by omega)
  have hposition := hbuf.position_eq (ehdr_lt_word _ rfl)
    (n := ehdr host.file Ehdr.ePhentsize * ehdr host.file Ehdr.ePhnum)
    (by rw [Phdr.size] at hsize; omega) h.programs h.length
  have heq := hrecord.position
  rw [Ptr.add_position, hposition.2, phdrAt] at heq
  rw [toInt_of_lt hposition.1] at hlt
  refine ⟨?_, by omega⟩
  unfold phdrAt
  exact_mod_cast hlt

private theorem fit_of_honoured : EntriesFit host.file := by
  refine ⟨(pos_of_honoured h hall).2.2, sections_of_honoured h hall,
    sectionRange_of_honoured h hall, ?_, ?_⟩
  · by_cases hnum : ehdr host.file Ehdr.ePhnum ≤ 1
    · exact Or.inr hnum
    · have heq := (programRule_of_honoured h hall (i := 1) (by omega)).2
      exact Or.inl (by omega)
  · by_cases hnum : ehdr host.file Ehdr.ePhnum = 0
    · exact Or.inl hnum
    · exact Or.inr (programRule_of_honoured h hall (by omega)).1

end

/-- Both tools find every entry where the header says exactly when the sizes fit. -/
theorem entriesHonoured_iff {host : Host} {flags : Flags} (hhost : host.Healthy)
    (h : TablesInside host.file) (hflag : flags.dumpPheader = true) :
    EntriesHonoured host flags ↔ EntriesFit host.file :=
  ⟨fit_of_honoured h, fun hfit => honoured_of_fit hhost h hfit hflag⟩

/-! ## Entries with room behind them -/

/-- A file with two section headers of 48 bytes and two program headers of 40. -/
def wideEntries : List UInt8 :=
  Ehdr.bytes 148 52 40 2 48 2 1 ++ List.replicate 48 0 ++
    (Shdr.bytes 1 shtStrtab 228 11 0 ++ List.replicate 8 0) ++ List.replicate 80 0 ++
    ascii "\x00.shstrtab\x00"

theorem wideEntries_inside : TablesInside wideEntries := by
  constructor <;> decide +kernel

/-- Its second section header is found by one of the tools only. -/
theorem wideEntries_not_honoured : TablesInside wideEntries ∧
    ¬EntriesHonoured (Host.ideal wideEntries) Flags.initial := by
  refine ⟨wideEntries_inside, fun hall => ?_⟩
  have hsections := sections_of_honoured wideEntries_inside hall
  revert hsections
  decide +kernel

theorem entriesHonoured_iff_wideEntries :
    EntriesHonoured (Host.ideal wideEntries) Flags.initial ↔ EntriesFit wideEntries :=
  entriesHonoured_iff (Host.ideal_healthy wideEntries) wideEntries_inside rfl

end PerfTools.Elf
