import PerfTools.Elf.Tracing

/-!
# What the dumps leave alone

Once the headers are loaded, a dump prints, reads the contents of sections and remembers a few
buffers. A condition on the loaded headers, or on the reads by which they were loaded, is kept by
every step of both dumps, wherever they stop.
-/

namespace PerfTools.Elf

open Memory Printf Exec

/-- The events of the dumps, records included. -/
def Event.Later : Event → Prop
  | .read (.contents _) _ => True
  | .read _ _ => False
  | .check _ => False
  | _ => True

theorem Event.Plain.later {e : Event} (h : e.Plain) : e.Later := by
  unfold Event.Plain at h
  unfold Event.Later
  split <;> simp_all

/-- The events that a step without a read leaves behind. -/
def Event.Written : Event → Prop
  | .read _ _ => False
  | .check _ => False
  | _ => True

theorem Event.Written.later {e : Event} (h : e.Written) : e.Later := by
  unfold Event.Written at h
  unfold Event.Later
  split <;> simp_all

theorem keeps_vars_bind {I : Proc ElfVars → Prop} {α : Type} {R : α → Prop} {f : ElfVars → ElfRun α}
    (h : ∀ v, Yields I R (f v)) : Yields I R (Elf.vars >>= f) := by
  intro s hs
  rw [wp_bind, wp_vars]
  exact h s.vars s hs

/-- A condition that neither the annotation buffer nor anything written has a part in. -/
structure Writes (I : Proc ElfVars → Prop) : Prop where
  screen : ∀ s screen, I s → I (s.withScreen screen)
  events : ∀ s es, (∀ e ∈ es, Event.Written e) → I s → I (s.log es)

namespace Writes

variable {I : Proc ElfVars → Prop} (hI : Writes I)
include hI

theorem emit {e : Event} (he : e.Written) : Keeps I (emit e) := fun s hs =>
  ⟨trivial, hI.events s [e] (by simpa using he) hs⟩

theorem print (fmt : Format) : Keeps I (print fmt) := hI.emit trivial

theorem dumped {record : Option (RecordTable × Nat)} {offset size : UInt32} {data : Option Ptr}
    {x : Except Fault Text} : Keeps I (dumped record offset size data x) :=
  Yields.lift_bind fun _ _ => hI.emit trivial

theorem dumpWithBuffer {record : Option (RecordTable × Nat)} {offset size : UInt32}
    {data : Option Ptr} : Keeps I (dumpWithBuffer record offset size data) :=
  keeps_dumpWithBuffer hI.screen fun s _ _ _ hs => hI.events s _ (by simp [Event.Written]) hs

theorem binPrintf (first : Int) (fmt : Format) : Keeps I (binPrintf first fmt) :=
  keeps_binPrintf hI.screen first fmt

theorem printMember (p : Option Ptr) (label : String) (pad : UInt8) (upper : Bool) (width : Nat)
    (f : Field) : Keeps I (printMember p label pad upper width f) :=
  keeps_printMember hI.screen p label pad upper width f

theorem elfHeaderDump : Keeps I elfHeaderDump :=
  keeps_elfHeaderDump hI.screen fun s _ _ _ hs => hI.events s _ (by simp [Event.Written]) hs

theorem dumpSectionHead (i : Nat) : Keeps I (dumpSectionHead i) := by
  apply keeps_vars_bind
  intro v
  refine Yields.lift_bind fun distance _ => Yields.lift_bind fun offsetInFile _ => ?_
  refine Yields.lift_bind fun head _ => Yields.lift_bind fun shName _ => ?_
  refine Yields.lift_bind fun name _ => Keeps.bind (hI.binPrintf _ _) fun _ => ?_
  refine Keeps.bind (hI.printMember _ _ _ _ _ _) fun _ => Yields.lift_bind fun shOffset _ => ?_
  refine Yields.lift_bind fun shSize _ => Keeps.bind (hI.binPrintf _ _) fun _ => ?_
  exact Keeps.bind (hI.printMember _ _ _ _ _ _) fun _ => hI.dumpWithBuffer

theorem dumpSymbol (header : Ptr) (symBuf strtab : Option Ptr) (i : Nat) (offsetInFile : Int) :
    Keeps I (dumpSymbol header symBuf strtab i offsetInFile) := by
  refine Yields.lift_bind fun distance _ => Yields.lift_bind fun next _ => ?_
  refine Yields.lift_bind fun buf _ => Yields.lift_bind fun stName _ => ?_
  refine Yields.lift_bind fun name _ => Keeps.bind (hI.print _) fun _ => ?_
  refine Yields.lift_bind fun stValue _ => Yields.lift_bind fun stSize _ => ?_
  refine Yields.lift_bind fun stShndx _ => Keeps.bind (hI.print _) fun _ => ?_
  refine Keeps.bind (hI.print _) fun _ => Yields.lift_bind fun stInfo _ => ?_
  refine Keeps.bind (hI.print _) fun _ => Yields.lift_bind fun stOther _ => ?_
  refine Keeps.bind (hI.print _) fun _ => Keeps.bind (hI.print _) fun _ => ?_
  exact Keeps.bind hI.dumped fun _ => Keeps.bind (hI.print _) fun _ => Yields.pure trivial

theorem elfDumpSymtab (header symBuf strtab : Option Ptr) :
    Keeps I (elfDumpSymtab header symBuf strtab) := by
  refine Yields.lift_bind fun header _ => Yields.lift_bind fun shOffset _ => ?_
  refine Yields.lift_bind fun shSize _ => Yields.lift_bind fun shEntsize _ => ?_
  refine Yields.lift_bind fun symNum _ => Yields.guard_bind fun _ => Yields.guard_bind fun _ => ?_
  refine Keeps.bind (hI.print _) fun _ => Keeps.bind (hI.print _) fun _ => ?_
  have hfold : Keeps I (Exec.fold (Elf.dumpSymbol header symBuf strtab) symNum.toNat 0
      (toInt shOffset)) :=
    Yields.fold (fun _ _ => True) (fun k a _ _ _ => hI.dumpSymbol header symBuf strtab k a) trivial
  exact Keeps.bind hfold fun _ => Yields.pure trivial

theorem dumpDynamic (header : Ptr) (buf : Option Ptr) (i : Nat) :
    Keeps I (dumpDynamic header buf i) := by
  refine Keeps.bind (hI.binPrintf _ _) fun _ => Yields.lift_bind fun p _ => ?_
  refine Yields.lift_bind fun tag _ => Keeps.bind (hI.binPrintf _ _) fun _ => ?_
  refine Yields.lift_bind fun val _ => Keeps.bind (hI.binPrintf _ _) fun _ => ?_
  exact Yields.lift_bind fun shOffset _ => hI.dumpWithBuffer

theorem elfDynamicDump (header buf : Option Ptr) : Keeps I (elfDynamicDump header buf) :=
  Yields.lift_bind fun header _ => Yields.lift_bind fun _ _ =>
    Keeps.loop fun i _ _ => hI.dumpDynamic header buf i

theorem gapText (s : String) : Keeps I (gapText s) :=
  Keeps.bind (hI.print _) fun _ => Keeps.bind (hI.print _) fun _ => hI.print _

theorem elfPhDump2 (elfHeader buf : Option Ptr) : Keeps I (elfPhDump2 elfHeader buf) := by
  refine Yields.lift_bind fun ePhoff _ => Yields.lift_bind fun ePhentsize _ => ?_
  refine Yields.lift_bind fun ePhnum _ => Keeps.loop fun i _ _ => Yields.lift_bind fun p _ => ?_
  refine Keeps.bind (keeps_binBufferReset hI.screen) fun _ => Yields.lift_bind fun type _ => ?_
  refine Keeps.bind (hI.binPrintf _ _) fun _ => Keeps.bind (hI.printMember _ _ _ _ _ _) fun _ => ?_
  refine Keeps.bind (hI.printMember _ _ _ _ _ _) fun _ => Yields.lift_bind fun distance _ => ?_
  exact Yields.lift_bind fun offset _ => hI.dumpWithBuffer

end Writes

/-- The variables that elf_init_read has set. -/
structure SameHeaders (v w : ElfVars) : Prop where
  elfHeader : w.elfHeader = v.elfHeader
  elfShstrtab : w.elfShstrtab = v.elfShstrtab
  sectionOffset : w.sectionOffset = v.sectionOffset
  sectionSize : w.sectionSize = v.sectionSize
  sectionNum : w.sectionNum = v.sectionNum
  elfSectionHead : w.elfSectionHead = v.elfSectionHead

/-- A condition that later events and the variables of the dumps have no part in. -/
structure Carried (I : Proc ElfVars → Prop) : Prop where
  vars : ∀ s v, SameHeaders s.vars v → I s → I ⟨s.pos, s.trace, v⟩
  events : ∀ s pos es, (∀ e ∈ es, Event.Later e) → I s → I ⟨pos, s.trace ++ es, s.vars⟩

namespace Carried

variable {I : Proc ElfVars → Prop} (hI : Carried I)
include hI

theorem screen (s : Proc ElfVars) (screen : Screen) (hs : I s) : I (s.withScreen screen) :=
  hI.vars s { s.vars with screen } ⟨rfl, rfl, rfl, rfl, rfl, rfl⟩ hs

theorem writes : Writes I :=
  ⟨hI.screen, fun s es hes hs => hI.events s s.pos es (fun e he => (hes e he).later) hs⟩

theorem setVars {f : ElfVars → ElfVars} (hf : ∀ v, SameHeaders v (f v)) : Keeps I (setVars f) :=
  fun s hs => ⟨trivial, hI.vars s (f s.vars) (hf s.vars) hs⟩

theorem unaffected : Unaffected I :=
  ⟨hI.screen, fun s pos es hes hs => hI.events s pos es (fun e he => (hes e he).later) hs⟩

omit hI in
theorem findHead (name : String) : Keeps I (findHead name) :=
  keeps_vars_bind fun _ => Yields.lift_bind fun _ _ => Yields.lift_bind fun _ _ => Yields.pure trivial

theorem readContents (host : Host) (head : Option Ptr) : Keeps I (readContents host head) :=
  hI.unaffected.readContents host head

theorem elfSectionDumpByName (host : Host) (name : String) :
    Keeps I (elfSectionDumpByName host name) :=
  Keeps.bind (findHead name) fun _ => Keeps.bind (hI.readContents host _) fun _ => hI.writes.dumped

theorem behindStrtab (host : Host) (flags : Flags) (strtabIndex : Int)
    (strtab : Int × Int × Option Ptr) : Keeps I (do
      Elf.setVars fun v => { v with strtabIndex, elfStrtabBuf := strtab.2.2 }
      runIf flags.dumpStrtab
        (Elf.dumped none (toUnsigned strtab.1) (toUnsigned strtab.2.1) strtab.2.2
          (binaryDumpWithChar (toUnsigned strtab.1) (toUnsigned strtab.2.1) strtab.2.2))
      let (symtabIndex, symtabHead) ← Elf.findHead ".symtab"
      let (_, _, symBuf) ← Elf.readContents host symtabHead
      Elf.setVars fun v => { v with symtabIndex, elfSymBuf := symBuf }
      runIf flags.dumpSymtab (Elf.elfDumpSymtab symtabHead symBuf strtab.2.2)
      Elf.gapText "THE CONTENT OF TEXT DATA BSS RODATA"
      runIf flags.dumpRodata (Elf.elfSectionDumpByName host ".rodata")
      runIf flags.dumpData (Elf.elfSectionDumpByName host ".data")
      runIf flags.dumpBss (Elf.elfSectionDumpByName host ".bss")
      runIf flags.dumpText (Elf.elfSectionDumpByName host ".text")
      runIf flags.dumpDyn do
        let (_, dynHead) ← Elf.findHead ".dynamic"
        let (_, _, dynBuf) ← Elf.readContents host dynHead
        Elf.elfDynamicDump dynHead dynBuf : ElfRun Unit) := by
  refine Keeps.bind (hI.setVars fun v => ⟨rfl, rfl, rfl, rfl, rfl, rfl⟩) fun _ => ?_
  refine Keeps.bind (Keeps.runIf fun _ => hI.writes.dumped) fun _ => ?_
  refine Keeps.bind (findHead _) fun symtab => Keeps.bind (hI.readContents host _) fun _ => ?_
  refine Keeps.bind (hI.setVars fun v => ⟨rfl, rfl, rfl, rfl, rfl, rfl⟩) fun _ => ?_
  refine Keeps.bind (Keeps.runIf fun _ => hI.writes.elfDumpSymtab _ _ _) fun _ => ?_
  refine Keeps.bind (hI.writes.gapText _) fun _ => ?_
  refine Keeps.bind (Keeps.runIf fun _ => hI.elfSectionDumpByName host _) fun _ => ?_
  refine Keeps.bind (Keeps.runIf fun _ => hI.elfSectionDumpByName host _) fun _ => ?_
  refine Keeps.bind (Keeps.runIf fun _ => hI.elfSectionDumpByName host _) fun _ => ?_
  refine Keeps.bind (Keeps.runIf fun _ => hI.elfSectionDumpByName host _) fun _ => ?_
  refine Keeps.runIf fun _ => Keeps.bind (findHead _) fun dynamic => ?_
  exact Keeps.bind (hI.readContents host _) fun _ => hI.writes.elfDynamicDump _ _

theorem elfFileDumpBody (host : Host) (flags : Flags) : Keeps I (elfFileDumpBody host flags) := by
  refine Keeps.bind (Keeps.runIf fun _ => hI.writes.elfHeaderDump) fun _ => ?_
  refine keeps_vars_bind fun v => Keeps.bind (Keeps.runIf fun _ => ?_) fun _ => ?_
  · refine Keeps.bind (hI.writes.print _) fun _ => Keeps.bind (hI.writes.print _) fun _ => ?_
    exact Keeps.loop fun i _ _ => hI.writes.dumpSectionHead i
  refine Keeps.bind (findHead _) fun strtab => Keeps.bind (hI.readContents host _) fun contents => ?_
  exact hI.behindStrtab host flags strtab.1 contents

end Carried

end PerfTools.Elf
