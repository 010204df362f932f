import PerfTools.Elf.FailedReads

/-!
# Dumps after a failure

Neither dump stops because of a read or a check that failed: behind elf_init_read they end at a
fault, or with the exit codes of the symbol dump, which come after it has read a string table. So
they stop at every failure exactly when there is none.
-/

namespace PerfTools.Elf

open Memory Printf Exec

/-- The run has ended with an error. -/
def Refused (result : Except Stop Unit) : Prop :=
  ∃ code : Int, code ≠ 0 ∧ result = .error (.exit code)

/-- elf -r stops at a failure. -/
def LinerStops (host : Host) (flags : Flags) : Prop :=
  StopsAtFailure (Refused (elfLinerDump host flags ElfVars.start).1)
    (elfLinerDump host flags ElfVars.start).2.trace

/-- elf -s stops at a failure. -/
def FileStops (host : Host) (flags : Flags) : Prop :=
  StopsAtFailure (Refused (elfFileDump host flags ElfVars.start).1)
    (elfFileDump host flags ElfVars.start).2.trace

/-! ## Steps that do not exit -/

section

variable {host : Host} {flags : Flags}

private theorem vars_faults : FaultsOnly (vars : ElfRun ElfVars) := .of_wp fun _ => trivial

private theorem elfFileRead_faults (target : Target) (offset size : Int) :
    FaultsOnly (elfFileRead host target offset size) :=
  .of_wp fun _ => (wp_elfFileRead target offset size).mpr trivial

private theorem binPrintf_faults (first : Int) (fmt : Format) :
    FaultsOnly (binPrintf first fmt) := by
  apply StopsIn.bind vars_faults
  intro v
  apply StopsIn.bind (FaultsOnly.lift _)
  intro x
  exact StopsIn.modify _

private theorem printMember_faults (p : Option Ptr) (label : String) (pad : UInt8) (upper : Bool)
    (width : Nat) (f : Field) : FaultsOnly (printMember p label pad upper width f) := by
  apply StopsIn.bind (FaultsOnly.lift _)
  intro n
  exact binPrintf_faults _ _

private theorem dumpWithBuffer_faults {record : Option (RecordTable × Nat)} {offset size : UInt32}
    {data : Option Ptr} : FaultsOnly (dumpWithBuffer record offset size data) := by
  apply StopsIn.bind vars_faults
  intro v
  apply StopsIn.bind (FaultsOnly.lift _)
  intro x
  exact StopsIn.bind (.modify _) fun _ => .modify _

private theorem readSectionHead_faults (i : Nat) : FaultsOnly (readSectionHead host i) := by
  apply StopsIn.bind vars_faults
  intro v
  apply StopsIn.bind (FaultsOnly.lift _)
  intro distance
  apply StopsIn.bind (FaultsOnly.lift _)
  intro offset
  apply StopsIn.bind (elfFileRead_faults _ _ _)
  intro head
  split_ifs
  · exact StopsIn.modify _
  · exact StopsIn.stopped ⟨_, rfl⟩

private theorem elfInitRead_faults : FaultsOnly (elfInitRead host) := by
  unfold elfInitRead
  repeat' first
    | apply StopsIn.modify
    | apply StopsIn.loop
    | apply StopsIn.runIf
    | apply elfFileRead_faults
    | apply FaultsOnly.lift
    | apply readSectionHead_faults
    | apply StopsIn.bind
    | intro _

private theorem elfHeaderDump_faults : FaultsOnly elfHeaderDump := by
  unfold elfHeaderDump
  repeat' first
    | apply StopsIn.modify
    | apply vars_faults
    | apply FaultsOnly.lift
    | apply binPrintf_faults
    | apply printMember_faults
    | apply dumpWithBuffer_faults
    | apply StopsIn.bind
    | intro _

private theorem readContents_faults (head : Option Ptr) : FaultsOnly (readContents host head) := by
  apply StopsIn.bind (FaultsOnly.lift _)
  intro p
  apply StopsIn.bind (FaultsOnly.lift _)
  intro shOffset
  apply StopsIn.bind (FaultsOnly.lift _)
  intro shSize
  exact StopsIn.bind (elfFileRead_faults _ _ _) fun _ => .pure _

private theorem dumpProgramHeader_faults (pOffset pSize : Int) (i : Nat) (p : Ptr) :
    FaultsOnly (dumpProgramHeader pOffset pSize i p) := by
  unfold dumpProgramHeader
  repeat' first
    | apply StopsIn.modify
    | apply FaultsOnly.lift
    | apply binPrintf_faults
    | apply printMember_faults
    | apply dumpWithBuffer_faults
    | apply StopsIn.bind
    | intro _

private theorem elfPhDump2_faults (elfHeader buf : Option Ptr) :
    FaultsOnly (elfPhDump2 elfHeader buf) := by
  apply StopsIn.bind (FaultsOnly.lift _)
  intro ePhoff
  apply StopsIn.bind (FaultsOnly.lift _)
  intro ePhentsize
  apply StopsIn.bind (FaultsOnly.lift _)
  intro ePhnum
  apply StopsIn.loop
  intro i
  exact StopsIn.bind (FaultsOnly.lift _) fun _ => dumpProgramHeader_faults _ _ _ _

private theorem dumpProgramHeaders_faults : FaultsOnly (dumpProgramHeaders host flags) := by
  apply StopsIn.bind vars_faults
  intro v
  apply StopsIn.bind (FaultsOnly.lift _)
  intro ePhoff
  apply StopsIn.bind (FaultsOnly.lift _)
  intro ePhentsize
  apply StopsIn.bind (FaultsOnly.lift _)
  intro ePhnum
  apply StopsIn.bind (FaultsOnly.lift _)
  intro size
  apply StopsIn.bind (elfFileRead_faults _ _ _)
  intro phBuf
  apply StopsIn.bind (.modify _)
  intro _
  exact StopsIn.runIf (elfPhDump2_faults _ _)

private theorem dumpSection_faults (i : Nat) : FaultsOnly (dumpSection host i) := by
  unfold dumpSection
  repeat' first
    | apply StopsIn.modify
    | apply vars_faults
    | apply FaultsOnly.lift
    | apply readContents_faults
    | apply binPrintf_faults
    | apply dumpWithBuffer_faults
    | apply StopsIn.bind
    | intro _

private theorem elfLinerDumpBody_faults : FaultsOnly (elfLinerDumpBody host flags) := by
  apply StopsIn.bind (StopsIn.runIf elfHeaderDump_faults)
  intro _
  apply StopsIn.bind dumpProgramHeaders_faults
  intro _
  apply StopsIn.bind vars_faults
  intro v
  exact StopsIn.loop dumpSection_faults _ _

private theorem dumpSectionHead_faults (i : Nat) : FaultsOnly (dumpSectionHead i) := by
  unfold dumpSectionHead elfSectionHeaderDump
  repeat' first
    | apply vars_faults
    | apply FaultsOnly.lift
    | apply binPrintf_faults
    | apply printMember_faults
    | apply dumpWithBuffer_faults
    | apply StopsIn.bind
    | intro _

private theorem findHead_faults (name : String) : FaultsOnly (findHead name) := by
  apply StopsIn.bind vars_faults
  intro v
  apply StopsIn.bind (FaultsOnly.lift _)
  intro index
  exact StopsIn.bind (FaultsOnly.lift _) fun _ => .pure _

end

/-! ## elf -r -/

theorem stopsAtFailure_of_closed {host : Host} (hclosed : host.canOpen = false)
    (next : ElfRun Unit) (refused : Prop) :
    StopsAtFailure refused ((openFile host >>= fun _ => next) ElfVars.start).2.trace := by
  have hstart : ((openFile host >>= fun _ => next) ElfVars.start).2 = ElfVars.start := by
    rw [openFile, hclosed]
    rfl
  apply stopsAtFailure_of_safe
  intro e he
  rw [hstart] at he
  exact absurd he List.not_mem_nil

theorem linerStops_iff {host : Host} {flags : Flags} (hopen : host.canOpen = true) :
    LinerStops host flags ↔ LinerServed host := by
  have hfaults : FaultsOnly (elfLinerDump host flags) := by
    rw [elfLinerDump_eq, openFile, if_pos hopen]
    exact StopsIn.bind (.pure _) fun _ => elfInitRead_faults.bind fun _ => elfLinerDumpBody_faults
  rw [← clean_elfLinerDump_iff flags hopen]
  constructor
  · intro h
    apply StopsAtFailure.safe h
    intro front e rest _ _ hrefused
    obtain ⟨code, -, hcode⟩ := hrefused
    obtain ⟨f, hf⟩ := hfaults.stop _ _ hcode
    cases hf
  · intro hclean
    exact stopsAtFailure_of_safe hclean

/-! ## elf -s -/

/-- What has been added to the trace is safe. -/
def Follows (front : List Event) (s : Proc ElfVars) : Prop :=
  ∃ es, s.trace = front ++ es ∧ ∀ e ∈ es, e.Safe

/-- What has been added is safe, and more than messages. -/
def FollowsOn (front : List Event) (s : Proc ElfVars) : Prop :=
  ∃ es, s.trace = front ++ es ∧ (∀ e ∈ es, e.Safe) ∧ ∃ e ∈ es, ¬ e.Message

private theorem carried_follows (front : List Event) : Carried (Follows front) where
  vars _ _ _ hs := hs
  events s pos es hes hs := by
    obtain ⟨fs, htrace, hsafe⟩ := hs
    refine ⟨fs ++ es, ?_, List.forall_mem_append.mpr ⟨hsafe, fun e he => (hes e he).safe⟩⟩
    rw [htrace, List.append_assoc]

private theorem carried_followsOn (front : List Event) : Carried (FollowsOn front) where
  vars _ _ _ hs := hs
  events s pos es hes hs := by
    obtain ⟨fs, htrace, hsafe, e, he, hother⟩ := hs
    refine ⟨fs ++ es, ?_, List.forall_mem_append.mpr ⟨hsafe, fun e he => (hes e he).safe⟩, e,
      List.mem_append_left _ he, hother⟩
    rw [htrace, List.append_assoc]

section

variable {host : Host} {flags : Flags} {front : List Event} {s : Proc ElfVars}

private theorem wp_readContents_follows (head : Option Ptr) (hs : Follows front s) :
    wp (readContents host head) (fun _ => FollowsOn front) (fun e _ => ∃ f, e = .fault f) s := by
  rw [readContents, wp_bind, wp_lift]
  refine ⟨fun p _ => ?_, fun f _ => ⟨f, rfl⟩⟩
  rw [wp_bind, wp_lift]
  refine ⟨fun shOffset _ => ?_, fun f _ => ⟨f, rfl⟩⟩
  rw [wp_bind, wp_lift]
  refine ⟨fun shSize _ => ?_, fun f _ => ⟨f, rfl⟩⟩
  rw [wp_bind, wp_elfFileRead]
  obtain ⟨es, htrace, hsafe⟩ := hs
  refine ⟨es ++ _, by rw [htrace, List.append_assoc], List.forall_mem_append.mpr ⟨hsafe, fun e he =>
    (Host.transfer_plain e he).later.safe⟩, _, List.mem_append_right _ Host.transfer_reports, id⟩

private theorem wp_elfFileDumpBody_exits (hs : Follows front s) :
    wp (elfFileDumpBody host flags) (fun _ _ => True)
      (fun e s' => (∃ f, e = .fault f) ∨ FollowsOn front s') s := by
  have hI := carried_follows front
  have hE (f : Fault) (s' : Proc ElfVars) :
      (∃ f', Stop.fault f = .fault f') ∨ FollowsOn front s' := Or.inl ⟨f, rfl⟩
  apply FaultsOnly.wp_bind (StopsIn.runIf elfHeaderDump_faults)
    (Keeps.runIf fun _ => hI.writes.elfHeaderDump) hE hs
  intro _ s hs
  rw [wp_bind, wp_vars]
  apply FaultsOnly.wp_bind (I := Follows front) _ _ hE hs
  · intro _ s hs
    apply FaultsOnly.wp_bind (findHead_faults _) (Carried.findHead _) hE hs
    intro strtab s hs
    rw [wp_bind]
    apply wp_mono (wp_readContents_follows strtab.2 hs) _ fun _ _ h => Or.inl h
    intro contents s hs
    exact wp_mono ((carried_followsOn front).behindStrtab host flags strtab.1 contents s hs)
      (fun _ _ _ => trivial) fun _ _ h => Or.inr h
  · exact StopsIn.runIf (.bind (.modify _) fun _ => .bind (.modify _) fun _ =>
      .loop dumpSectionHead_faults _ _)
  · apply Keeps.runIf
    intro _
    apply Keeps.bind (hI.writes.print _)
    intro _
    apply Keeps.bind (hI.writes.print _)
    intro _
    exact Keeps.loop fun i _ _ => hI.writes.dumpSectionHead i

end

private theorem FollowsOn.after {front back rest : List Event} {e : Event} {s : Proc ElfVars}
    (h : FollowsOn front s) (htrace : s.trace = back ++ e :: rest) (he : ¬ e.Safe) :
    ∃ e' ∈ rest, ¬ e'.Message := by
  obtain ⟨es, hes, hsafe, e', he', hother⟩ := h
  have hnot : e ∉ es := fun hmem => he (hsafe e hmem)
  refine ⟨e', ?_, hother⟩
  rw [hes, List.append_eq_append_iff] at htrace
  rcases htrace with ⟨mid, -, hmid⟩ | ⟨mid, -, hmid⟩
  · rw [hmid] at hnot
    exact absurd (List.mem_append_right _ (List.mem_cons_self ..)) hnot
  · cases mid with
    | nil =>
      rw [List.nil_append] at hmid
      rw [← hmid] at hnot
      exact absurd (List.mem_cons_self ..) hnot
    | cons f mid =>
      rw [List.cons_append, List.cons.injEq] at hmid
      rw [hmid.2]
      exact List.mem_append_right _ he'

theorem fileStops_iff {host : Host} {flags : Flags} (hopen : host.canOpen = true) :
    FileStops host flags ↔ InitServed host := by
  have hexits : wp (elfFileDump host flags) (fun _ _ => True)
      (fun e s => (∃ f, e = .fault f) ∨ ∃ front, FollowsOn front s) ElfVars.start := by
    rw [elfFileDump, wp_bind, openFile, if_pos hopen, wp_pure, wp_bind]
    apply wp_mono (StopsIn.wp elfInitRead_faults _) _ fun _ _ h => Or.inl h
    intro _ s _
    have hbody : wp (elfFileDumpBody host flags) (fun _ _ => True)
        (fun e s' => (∃ f, e = .fault f) ∨ FollowsOn s.trace s') s :=
      wp_elfFileDumpBody_exits ⟨[], (List.append_nil _).symm, by simp⟩
    exact wp_mono hbody (fun _ _ h => h) fun _ _ h => h.imp_right fun h => ⟨_, h⟩
  rw [← clean_elfFileDump_iff flags hopen]
  constructor
  · intro h
    apply StopsAtFailure.safe h
    intro front e rest htrace hunsafe hrefused
    obtain ⟨code, -, hcode⟩ := hrefused
    rcases stop_of_wp hexits hcode with ⟨f, hf⟩ | ⟨front', hfollows⟩
    · cases hf
    · exact hfollows.after htrace hunsafe
  · intro hclean
    exact stopsAtFailure_of_safe hclean

end PerfTools.Elf
