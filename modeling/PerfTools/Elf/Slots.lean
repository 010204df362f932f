import PerfTools.Elf.DumpSteps

/-!
# The array of section headers

elf_section_head has a hundred slots, and the loop that fills them is bounded by e_shnum alone.
The load stays in the array, and every later walk finds its slots filled, exactly for files with
at most a hundred section headers.
-/

namespace PerfTools.Elf

open Memory Printf Exec

/-- The liner dump behind elf_init_read. -/
def elfLinerDumpBody (host : Host) (flags : Flags) : ElfRun Unit := do
  runIf flags.dumpHeader elfHeaderDump
  dumpProgramHeaders host flags
  let v ← vars
  loop (dumpSection host) (v.sectionNum - 1) 1

theorem elfLinerDump_eq (host : Host) (flags : Flags) : elfLinerDump host flags = (do
    openFile host
    elfInitRead host
    elfLinerDumpBody host flags) := rfl

/-- The slots and the number of sections are those of v. -/
def SameSlots (v : ElfVars) (s : Proc ElfVars) : Prop :=
  s.vars.elfSectionHead = v.elfSectionHead ∧ s.vars.sectionNum = v.sectionNum

/-- The load fills slot i with header i and changes nothing else; afterwards a walk over the
sections uses filled slots only: finding a name does not depend on any other slot, and no dump
changes a slot or the number of sections. -/
structure SlotsSound (host : Host) : Prop where
  loaded : ∃ s₀ s, elfInitRead host ElfVars.start = (.ok (), s) ∧ NamesRead host s₀ ∧
    LoadedUpTo host s₀ (ehdr host.file Ehdr.eShnum) s
  filled : ∀ s, elfInitRead host ElfVars.start = (.ok (), s) → ∀ i < s.vars.sectionNum,
    slot s.vars.elfSectionHead i =
      .ok (some (chunk host.file (shdrAt host.file i) (ehdr host.file Ehdr.eShentsize)))
  found : ∀ s, elfInitRead host ElfVars.start = (.ok (), s) → ∀ heads name,
    (∀ i < s.vars.sectionNum, heads[i]? = s.vars.elfSectionHead[i]?) →
      elfFindShstrtab heads s.vars.sectionNum s.vars.elfShstrtab name =
        elfFindShstrtab s.vars.elfSectionHead s.vars.sectionNum s.vars.elfShstrtab name
  kept : ∀ s, elfInitRead host ElfVars.start = (.ok (), s) → ∀ flags,
    Keeps (SameSlots s.vars) (elfFileDumpBody host flags) ∧
      Keeps (SameSlots s.vars) (elfLinerDumpBody host flags)

private theorem slot_congr {heads heads' : List (Option Ptr)} {i : Nat}
    (h : heads[i]? = heads'[i]?) : slot heads i = slot heads' i := by
  unfold slot
  rw [if_neg (by omega), if_neg (by omega), Int.toNat_natCast, h]

private theorem findFrom_congr {heads heads' : List (Option Ptr)} (shstrtab : Option Ptr)
    (name : Text) {n i : Nat} (h : ∀ k, i ≤ k → k < i + n → heads[k]? = heads'[k]?) :
    findFrom heads shstrtab name n i = findFrom heads' shstrtab name n i := by
  induction n generalizing i with
  | zero => rfl
  | succ n ih =>
    have hslot := slot_congr (h i le_rfl (by omega))
    have hrest := ih (i := i + 1) fun k hk hlt => h k (by omega) (by omega)
    simp only [findFrom, hslot, hrest]

private theorem carried_sameSlots (v : ElfVars) : Carried (SameSlots v) where
  vars _ _ hw hs := ⟨hw.elfSectionHead.trans hs.1, hw.sectionNum.trans hs.2⟩
  events _ _ _ _ hs := hs

theorem Carried.elfLinerDumpBody {I : Proc ElfVars → Prop} (hI : Carried I)
    (hevents : ∀ s pos es, I s → I ⟨pos, s.trace ++ es, s.vars⟩) (host : Host) (flags : Flags) :
    Keeps I (elfLinerDumpBody host flags) := by
  refine Keeps.bind (Keeps.runIf fun _ => hI.writes.elfHeaderDump) fun _ => ?_
  refine Keeps.bind ?_ fun _ => keeps_vars_bind fun w => ?_
  · apply keeps_vars_bind
    intro w
    refine Yields.lift_bind fun ePhoff _ => Yields.lift_bind fun ePhentsize _ => ?_
    refine Yields.lift_bind fun ePhnum _ => Yields.lift_bind fun size _ => ?_
    intro s hs
    rw [wp_bind, wp_elfFileRead]
    refine (?_ : Keeps I _) _ (hevents _ _ _ hs)
    refine Keeps.bind (hI.setVars fun v => ⟨rfl, rfl, rfl, rfl, rfl, rfl⟩) fun _ => ?_
    exact Keeps.runIf fun _ => hI.writes.elfPhDump2 _ _
  · exact Keeps.loop fun i _ _ => hI.unaffected.dumpSection host i

section

variable {host : Host} (h : ReadableTable host.file)
  (hmalloc : ∀ target n, host.malloc target n = true)
include h hmalloc

private theorem slotsSound_of_le (hslots : ehdr host.file Ehdr.eShnum ≤ 100) : SlotsSound host := by
  obtain ⟨⟨⟩, s, hrun, s₀, hnames, hloaded⟩ := returns_of_wp (wp_elfInitRead_heads
    (Q := fun _ s => ∃ s₀, NamesRead host s₀ ∧ LoadedUpTo host s₀ (ehdr host.file Ehdr.eShnum) s)
    h hmalloc hslots fun s₀ s hs₀ hs => ⟨s₀, hs₀, hs⟩)
  have hsame (t : Proc ElfVars) (ht : elfInitRead host ElfVars.start = (.ok (), t)) : t = s := by
    rw [hrun] at ht
    exact (Prod.mk.inj ht).2.symm
  have hnum : s.vars.sectionNum = ehdr host.file Ehdr.eShnum := by
    rw [hloaded.frame, hnames.vars]
  refine ⟨⟨s₀, s, hrun, hnames, hloaded⟩, fun t ht i hi => ?_, fun t ht heads name hheads => ?_,
    fun t ht flags => ?_⟩
  · rw [hsame t ht] at hi ⊢
    rw [slot, if_neg (by omega), Int.toNat_natCast, hloaded.heads i (by omega)]
  · apply findFrom_congr
    intro k _ hk
    exact hheads k (by omega)
  · exact ⟨(carried_sameSlots t.vars).elfFileDumpBody host flags,
      (carried_sameSlots t.vars).elfLinerDumpBody (fun _ _ _ hs => hs) host flags⟩

private theorem le_of_slotsSound (hsound : SlotsSound host) : ehdr host.file Ehdr.eShnum ≤ 100 := by
  by_contra hmany
  obtain ⟨s₀, s, hrun, -⟩ := hsound.loaded
  have hfull := wp_elfInitRead_full (Q := fun _ _ => False)
    (E := fun stop _ => stop = .fault .outOfBounds) h hmalloc (by omega) fun _ => rfl
  rw [wp_of_eq hrun] at hfull
  exact hfull

/-- The table of section headers stays in its array exactly when it has at most a hundred
entries. -/
theorem slotsSound_iff : SlotsSound host ↔ ehdr host.file Ehdr.eShnum ≤ 100 :=
  ⟨le_of_slotsSound h hmalloc, slotsSound_of_le h hmalloc⟩

end

/-! ## A hundred and one sections -/

/-- A file of 101 section headers, all of them empty but the one of the section names. -/
def manySections : List UInt8 :=
  Ehdr.bytes 0 52 0 0 40 101 1 ++ List.replicate 40 0 ++ Shdr.bytes 1 shtStrtab 0 1 0 ++
    List.replicate 3960 0

theorem manySections_readable : ReadableTable manySections := by
  have hshoff : ehdr manySections Ehdr.eShoff = 52 := by decide +kernel
  have hentsize : ehdr manySections Ehdr.eShentsize = 40 := by decide +kernel
  have hnum : ehdr manySections Ehdr.eShnum = 101 := by decide +kernel
  have hindex : ehdr manySections Ehdr.eShstrndx = 1 := by decide +kernel
  have hlength : manySections.length = 4092 := by decide +kernel
  refine ⟨?_, ?_, ?_, fun i hi => ?_, ?_, ?_⟩
  · exact hlength.ge.trans' (by decide)
  · exact hentsize.ge
  · rw [hshoff, hnum, hentsize, hlength]
  · rw [hnum] at hi
    rw [shdrAt, hshoff, hentsize]
    omega
  · rw [shdrAt, hshoff, hindex, hentsize, hlength]
    decide
  · rw [shdrAt, hshoff, hindex, hentsize]
    decide

theorem slotsSound_iff_manySections :
    SlotsSound (Host.ideal manySections) ↔ ehdr manySections Ehdr.eShnum ≤ 100 :=
  slotsSound_iff manySections_readable (Host.ideal_healthy manySections).malloc

/-- Header 100 of the file is stored behind the array. -/
theorem manySections_not_sound :
    ReadableTable manySections ∧ ¬SlotsSound (Host.ideal manySections) := by
  refine ⟨manySections_readable, fun hsound => ?_⟩
  have hle := le_of_slotsSound manySections_readable
    (Host.ideal_healthy manySections).malloc hsound
  revert hle
  decide +kernel

end PerfTools.Elf
