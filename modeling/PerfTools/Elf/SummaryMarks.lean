import PerfTools.Elf.AbsentSections
import PerfTools.Elf.Summary

/-!
# What the summary says about the dump

The dump looks its sections up by name and takes the first one of each name. The summary compares
the names again, section by section, under switches of its own choice. The two agree only on files
whose names are used once, and only if the section of the section names is dumped for another
reason.
-/

namespace PerfTools.Elf

open Memory Printf Exec

/-! ## Reading a trace -/

/-- The title above the symbols. -/
def symbolsTitle : Text :=
  (lit "Symbol size : " ++ [Directive.dec 0 Sym.size] ++ lit "\n").flatMap Directive.text

/-- One step of a reader of the trace. It remembers the header of the section whose contents have
just been read, and collects the headers of the sections whose contents are dumped: a dump, or
the title of the symbols, is the next thing that follows the read. A read that has failed gives
nothing to dump. -/
def follow : Option Ptr × List Ptr → Event → Option Ptr × List Ptr
  | (_, out), .read (.contents p) ok => (if ok then some p else none, out)
  | (some p, out), .dump _ _ _ _ _ => (none, out ++ [p])
  | (some p, out), .text t => (none, if t = symbolsTitle then out ++ [p] else out)
  | (_, out), _ => (none, out)

/-- The headers of the sections whose contents have been dumped. -/
def dumpedHeaders (es : List Event) : List Ptr := (es.foldl follow (none, [])).2

/-- What stands above the rows of the summary. -/
def summaryTitle : List Event :=
  [.text (ascii "\n\nSummary\n\n"), .text (ascii "Not dumped section :\n       index name \n")]

/-- The rows of the summary, by which of them are marked. -/
def summaryRows (src : List UInt8) (mark : Nat → Bool) : List Event :=
  (List.range (ehdr src Ehdr.eShnum)).map fun i =>
    .text ((summaryRow (mark i) i (sectionName src i)).flatMap Directive.text)

/-- The summary of the dump that has led to s has a row for each section, and marks those that
have been dumped. -/
def SummaryTrue (host : Host) (flags : SummaryFlags) (s : Proc ElfVars) : Prop :=
  ∃ mark rest, (elfDumpSummary flags s).2.trace =
      s.trace ++ (summaryTitle ++ summaryRows host.file mark ++ rest) ∧
    ∀ i < ehdr host.file Ehdr.eShnum,
      mark i = true ↔ headOf host.file i ∈ dumpedHeaders s.trace

/-- The read of the contents of section i succeeds; of an empty section only the seek can fail, and
a seek to -1 passes for a success. -/
def ContentsRead (src : List UInt8) (i : Nat) : Prop :=
  Readable src i ∨ shdr src i Shdr.shSize = 0 ∧
    (shdr src i Shdr.shOffset < 2 ^ 31 ∨ shdr src i Shdr.shOffset = 2 ^ 32 - 1)

instance (src : List UInt8) (i : Nat) : Decidable (ContentsRead src i) := instDecidableOr

/-- Every section of the name is the first one, and it can be read. -/
def OnlyOne (src : List UInt8) (name : String) : Prop :=
  ∀ i < ehdr src Ehdr.eShnum, (sectionName src i).chars = ascii name →
    firstNamed src name = some i ∧ ContentsRead src i

/-- The lookups of the dump with their switches. -/
def lookups (flags : Flags) : List (Bool × String) :=
  [(flags.dumpStrtab, ".strtab"), (flags.dumpSymtab, ".symtab"), (flags.dumpRodata, ".rodata"),
    (flags.dumpData, ".data"), (flags.dumpBss, ".bss"), (flags.dumpText, ".text"),
    (flags.dumpDyn, ".dynamic")]

/-- The section is the first one of a name that is looked up, and it can be read; nothing is dumped
of a .dynamic without entries. -/
def Selected (src : List UInt8) (flags : Flags) (i : Nat) : Prop :=
  ContentsRead src i ∧ ∃ x ∈ lookups flags, x.1 = true ∧ firstNamed src x.2 = some i ∧
    (x.2 = ".dynamic" → dynCount src i ≠ 0)

/-- The condition under which the summary is true. The .text section goes by the switch of .bss,
and .dynamic has no switch. -/
structure MarksAgree (src : List UInt8) (flags : SummaryFlags) : Prop where
  names : Selected src flags.toFlags (ehdr src Ehdr.eShstrndx)
  strtab : flags.dumpStrtab = true → ∀ i, firstNamed src ".strtab" = some i → ContentsRead src i
  symtab : flags.dumpSymtab = true → ∀ i, firstNamed src ".symtab" = some i → ContentsRead src i
  comment : flags.dumpComment = true →
    ∀ i < ehdr src Ehdr.eShnum, (sectionName src i).chars ≠ ascii ".comment"
  rodata : flags.dumpRodata = true → OnlyOne src ".rodata"
  data : flags.dumpData = true → OnlyOne src ".data"
  bss : flags.dumpBss = true → OnlyOne src ".bss"
  text : flags.dumpBss = true → OnlyOne src ".text" ∧
    (flags.dumpText = false → firstNamed src ".text" = none)
  textAlone : flags.dumpBss = false → flags.dumpText = true →
    ∀ i, firstNamed src ".text" = some i → ContentsRead src i → i = ehdr src Ehdr.eShstrndx
  dynamic : flags.dumpDyn = true → ∀ i, firstNamed src ".dynamic" = some i → ContentsRead src i →
    dynCount src i ≠ 0 → i = ehdr src Ehdr.eShstrndx

/-! ## What the dump leaves behind -/

/-- A state of the dump: the variables but for the screen, and where the reader of the trace is. -/
private structure Stage (v : ElfVars) (last : Option Ptr) (out : List Ptr) (s : Proc ElfVars) :
    Prop where
  vars : ∃ screen, s.vars = { v with screen }
  trace : s.trace.foldl follow (none, []) = (last, out)

private theorem follow_written {es : List Event} (hes : ∀ e ∈ es, e.Written) (out : List Ptr) :
    es.foldl follow (none, out) = (none, out) := by
  induction es with
  | nil => rfl
  | cons e es ih =>
    have he := hes e (List.mem_cons_self ..)
    have hstep : follow (none, out) e = (none, out) := by
      cases e with
      | read => exact absurd he id
      | _ => rfl
    rw [List.foldl_cons, hstep]
    exact ih fun e he => hes e (List.mem_cons_of_mem _ he)

private theorem follow_transfer {host : Host} {p : Ptr} {request pos : Nat} {offset size : Int}
    (last : Option Ptr) (out : List Ptr) :
    (host.transfer (.contents p) request pos offset size).2.2.foldl follow (last, out) =
      (if (host.transfer (.contents p) request pos offset size).1.isSome then some p else none,
        out) := by
  unfold Host.transfer
  split_ifs <;> cases last <;> first | rfl | simp_all

/-- What the reader remembers behind the read of section i. -/
private def readHead (src : List UInt8) (i : Nat) : Option Ptr :=
  if ContentsRead src i then some (headOf src i) else none

private theorem transfer_contentsRead {host : Host} (h : FileInput host.file)
    (hmalloc : ∀ target n, host.malloc target n = true) {i : Nat}
    (hi : i < ehdr host.file Ehdr.eShnum) (target : Target) (pos : Nat) :
    (host.transfer target (toUnsigned (toInt (shdr host.file i Shdr.shSize))).toNat pos
      (toInt (shdr host.file i Shdr.shOffset)) (toInt (shdr host.file i Shdr.shSize))).1.isSome =
        true ↔ ContentsRead host.file i := by
  by_cases hsize : shdr host.file i Shdr.shSize = 0
  · have hoffset := shdr_lt host.file i (f := Shdr.shOffset) rfl
    have hcases := toInt_cases hoffset
    have hread : ContentsRead host.file i ↔ ¬ toInt (shdr host.file i Shdr.shOffset) < -1 := by
      unfold ContentsRead Readable
      omega
    have hzero : toInt 0 = 0 := rfl
    rw [hread, hsize, hzero]
    unfold Host.transfer
    rw [if_pos (hmalloc _ _)]
    split_ifs with hseek hshort
    · simp [hseek]
    · omega
    · simp [hseek]
  · rw [h.transfer_contents hi rfl hmalloc target pos hsize, contentsOf]
    have hread : ContentsRead host.file i ↔ Readable host.file i := by
      unfold ContentsRead
      tauto
    rw [hread]
    split_ifs with hreadable
    · exact iff_of_true rfl hreadable
    · exact iff_of_false Bool.false_ne_true hreadable

section

variable {v : ElfVars} {last : Option Ptr} {out : List Ptr} {s : Proc ElfVars} {host : Host}

private theorem Stage.withScreen (s : Proc ElfVars) (screen : Screen) (hs : Stage v last out s) :
    Stage v last out (s.withScreen screen) := by
  obtain ⟨old, hvars⟩ := hs.vars
  exact ⟨⟨screen, by rw [Proc.withScreen, hvars]⟩, hs.trace⟩

private theorem Stage.writes (v : ElfVars) (out : List Ptr) : Writes (Stage v none out) where
  screen := Stage.withScreen
  events s es hes hs := by
    refine ⟨hs.vars, ?_⟩
    rw [Proc.log, List.foldl_append, hs.trace, follow_written hes]

private theorem Stage.emit (hs : Stage v last out s) (e : Event) :
    Stage v (follow (last, out) e).1 (follow (last, out) e).2
      { s with trace := s.trace ++ [e] } := by
  refine ⟨hs.vars, ?_⟩
  rw [List.foldl_append, hs.trace]
  rfl

private theorem Stage.setVars (hs : Stage v last out s) (f : ElfVars → ElfVars)
    (hf : ∀ w screen, f { w with screen } = { f w with screen }) :
    Stage (f v) last out { s with vars := f s.vars } := by
  obtain ⟨screen, hvars⟩ := hs.vars
  exact ⟨⟨screen, by rw [hvars, hf]⟩, hs.trace⟩

/-- What is done under a switch without a read in front of it. -/
private theorem wp_written {m : ElfRun Unit} (hs : Stage v none out s)
    (hm : ∀ I, Writes I → Keeps I m) :
    wp m (fun _ => Stage v none out) (fun _ _ => True) s :=
  wp_mono (hm _ (Stage.writes v out) s hs) (fun _ _ h => h.2) fun _ _ _ => trivial

private theorem wp_readContents_stage (h : FileInput host.file)
    (hmalloc : ∀ target n, host.malloc target n = true) {i : Nat}
    (hi : i < ehdr host.file Ehdr.eShnum) (hs : Stage v last out s) :
    wp (readContents host (some (headOf host.file i)))
      (fun _ => Stage v (readHead host.file i) out) (fun _ _ => True) s := by
  rw [readContents]
  simp only [wp_bind, deref_some, wp_lift_ok, h.head_get hi (f := Shdr.shOffset) (by decide),
    h.head_get hi (f := Shdr.shSize) (by decide), wp_elfFileRead, wp_pure]
  refine ⟨hs.vars, ?_⟩
  rw [List.foldl_append, hs.trace, follow_transfer, readHead]
  simp only [transfer_contentsRead h hmalloc hi]

private theorem Stage.dump (hs : Stage v last out s) (record : Option (RecordTable × Nat))
    (offset size : UInt32) (data : Option Ptr) (t : Text) :
    Stage v none (out ++ last.toList)
      { s with trace := s.trace ++ [.dump record offset size data t] } := by
  have hnext := hs.emit (.dump record offset size data t)
  cases last with
  | none => rwa [Option.toList_none, List.append_nil]
  | some p => exact hnext

private theorem wp_dumped_stage {offset size : UInt32} {data : Option Ptr}
    {x : Except Fault Text} (hs : Stage v last out s) :
    wp (dumped none offset size data x) (fun _ => Stage v none (out ++ last.toList))
      (fun _ _ => True) s := by
  rw [dumped, wp_bind, wp_lift]
  exact ⟨fun t _ => hs.dump none offset size data t, fun _ _ => trivial⟩

private theorem wp_elfDumpSymtab_stage {p : Ptr} {symBuf strtab : Option Ptr}
    (hs : Stage v last out s) :
    wp (elfDumpSymtab (some p) symBuf strtab) (fun _ => Stage v none (out ++ last.toList))
      (fun _ _ => True) s := by
  rw [elfDumpSymtab, wp_bind, deref_some, wp_lift_ok, wp_bind, wp_lift]
  refine ⟨fun shOffset _ => ?_, fun _ _ => trivial⟩
  rw [wp_bind, wp_lift]
  refine ⟨fun shSize _ => ?_, fun _ _ => trivial⟩
  rw [wp_bind, wp_lift]
  refine ⟨fun shEntsize _ => ?_, fun _ _ => trivial⟩
  rw [wp_bind, wp_lift]
  refine ⟨fun symNum _ => ?_, fun _ _ => trivial⟩
  rw [wp_bind, wp_runIf]
  refine ⟨fun _ => trivial, fun hentsize => ?_⟩
  rw [wp_bind, wp_runIf]
  refine ⟨fun _ => trivial, fun _ => ?_⟩
  rw [wp_bind, wp_print, not_not.mp hentsize]
  have hnext : Stage v none (out ++ last.toList)
      { s with trace := s.trace ++ [.text symbolsTitle] } := by
    have htitle := hs.emit (.text symbolsTitle)
    cases last with
    | none => rwa [Option.toList_none, List.append_nil]
    | some p =>
      simp only [follow, if_true] at htitle
      exact htitle
  apply wp_written hnext
  intro I hI
  apply Keeps.bind (hI.print _)
  intro _
  apply Keeps.bind
  · exact Yields.fold (fun _ _ => True) (fun k a _ _ _ => hI.dumpSymbol p symBuf strtab k a) trivial
  · intro _
    exact Yields.pure trivial

private theorem Stage.searchable (hs : Stage v last out s) {src : List UInt8}
    (hv : Searchable src v) : Searchable src s.vars := by
  obtain ⟨screen, hvars⟩ := hs.vars
  rw [hvars]
  exact ⟨hv.sectionNum, hv.heads, hv.names⟩

variable (h : FileInput host.file) (hmalloc : ∀ target n, host.malloc target n = true)
  (hv : Searchable host.file v)

/-- The header that a lookup under a switch selects. -/
private def chosen (src : List UInt8) (x : Bool × String) : List Ptr :=
  if x.1 then (((firstNamed src x.2).filter fun i => x.2 ≠ ".dynamic" ∨ dynCount src i ≠ 0).bind
    (readHead src)).toList
  else []

private theorem chosen_off (src : List UInt8) {flag : Bool} (hflag : ¬flag = true) (name : String) :
    chosen src (flag, name) = [] :=
  if_neg hflag

private theorem chosen_on {src : List UInt8} {flag : Bool} (hflag : flag = true) {name : String}
    {i : Nat} (hi : firstNamed src name = some i) (hname : name ≠ ".dynamic" ∨ dynCount src i ≠ 0) :
    chosen src (flag, name) = (readHead src i).toList := by
  rw [chosen, if_pos hflag, hi, Option.filter_some, if_pos (by simpa using hname)]
  rfl

include h hv

private theorem wp_findHead_stage {Q : Int × Option Ptr → Proc ElfVars → Prop} {name : String}
    (hname : 0 ∉ ascii name) (hs : Stage v last out s)
    (hQ : ∀ i : Nat, firstNamed host.file name = some i → Q (i, some (headOf host.file i)) s) :
    wp (findHead name) Q (fun _ _ => True) s :=
  wp_findHead_searchable h hname (hs.searchable hv) (fun _ _ _ => trivial) hQ

include hmalloc

private theorem wp_sectionDump_stage {name : String} (hname : 0 ∉ ascii name)
    (hother : name ≠ ".dynamic") (flag : Bool) (hs : Stage v none out s) :
    wp (runIf flag (elfSectionDumpByName host name))
      (fun _ => Stage v none (out ++ chosen host.file (flag, name))) (fun _ _ => True) s := by
  rw [wp_runIf]
  constructor
  · intro hflag
    rw [elfSectionDumpByName, wp_bind]
    apply wp_findHead_stage h hv hname hs
    intro i hi
    dsimp only
    rw [wp_bind]
    apply wp_mono (wp_readContents_stage h hmalloc (firstNamed_some hi).1 hs) _ fun _ _ _ => trivial
    intro _ s₁ hs₁
    rw [chosen_on hflag hi (.inl hother)]
    exact wp_dumped_stage hs₁
  · intro hflag
    rw [chosen_off _ hflag, List.append_nil]
    exact hs

omit h hmalloc hv in
private theorem wp_dumpDynamic_stage {p : Ptr} {buf : Option Ptr} {k : Nat}
    (hs : Stage v last out s) : wp (dumpDynamic p buf k)
      (fun _ => Stage v none (out ++ last.toList)) (fun _ _ => True) s := by
  have hprintf (first : Int) (fmt : Format) : Keeps (Stage v last out) (binPrintf first fmt) :=
    keeps_binPrintf Stage.withScreen first fmt
  rw [dumpDynamic, wp_bind]
  apply wp_mono (hprintf _ _ s hs) _ fun _ _ _ => trivial
  intro _ s₁ hs₁
  rw [wp_bind, wp_lift]
  refine ⟨fun data _ => ?_, fun _ _ => trivial⟩
  rw [wp_bind, wp_lift]
  refine ⟨fun tag _ => ?_, fun _ _ => trivial⟩
  rw [wp_bind]
  apply wp_mono (hprintf _ _ s₁ hs₁.2) _ fun _ _ _ => trivial
  intro _ s₂ hs₂
  rw [wp_bind, wp_lift]
  refine ⟨fun val _ => ?_, fun _ _ => trivial⟩
  rw [wp_bind]
  apply wp_mono (hprintf _ _ s₂ hs₂.2) _ fun _ _ _ => trivial
  intro _ s₃ hs₃
  rw [wp_bind, wp_lift]
  refine ⟨fun shOffset _ => ?_, fun _ _ => trivial⟩
  rw [dumpWithBuffer, wp_bind, wp_vars, wp_bind, wp_lift]
  refine ⟨fun x _ => ?_, fun _ _ => trivial⟩
  exact (Stage.withScreen s₃ x.2 hs₃.2).dump _ _ _ _ x.1

omit hmalloc hv in
private theorem wp_elfDynamicDump_stage {i : Nat} (hi : i < ehdr host.file Ehdr.eShnum)
    {buf : Option Ptr} (hs : Stage v last out s) :
    wp (elfDynamicDump (some (headOf host.file i)) buf) (fun _ s' => ∃ last', Stage v last'
      (out ++ if dynCount host.file i ≠ 0 then last.toList else []) s')
      (fun _ _ => True) s := by
  rw [elfDynamicDump, wp_bind, deref_some, wp_lift_ok, wp_bind, h.head_get hi (by decide),
    wp_lift_ok, dynNum_eq]
  cases hcount : dynCount host.file i with
  | zero => exact ⟨_, by simpa using hs⟩
  | succ n =>
    rw [loop, wp_bind, if_pos (Nat.succ_ne_zero n)]
    apply wp_mono (wp_dumpDynamic_stage hs) _ fun _ _ _ => trivial
    intro _ s₁ hs₁
    have hrest : Keeps (Stage v none (out ++ last.toList))
        (loop (dumpDynamic (headOf host.file i) buf) n 1) :=
      Keeps.loop fun k _ _ => (Stage.writes _ _).dumpDynamic (headOf host.file i) buf k
    apply wp_mono (hrest s₁ hs₁) _ fun _ _ _ => trivial
    intro _ s₂ hs₂
    exact ⟨_, hs₂.2⟩

private theorem wp_dynamics_stage (flag : Bool) (hs : Stage v none out s) :
    wp (runIf flag do
      let (_, dynHead) ← findHead ".dynamic"
      let (_, _, dynBuf) ← readContents host dynHead
      elfDynamicDump dynHead dynBuf)
      (fun _ s' => ∃ last, Stage v last (out ++ chosen host.file (flag, ".dynamic")) s')
      (fun _ _ => True) s := by
  rw [wp_runIf]
  constructor
  · intro hflag
    rw [wp_bind]
    apply wp_findHead_stage h hv (by decide) hs
    intro i hi
    dsimp only
    rw [wp_bind]
    apply wp_mono (wp_readContents_stage h hmalloc (firstNamed_some hi).1 hs) _ fun _ _ _ => trivial
    intro _ s₁ hs₁
    have hchosen : chosen host.file (flag, ".dynamic") =
        if dynCount host.file i ≠ 0 then (readHead host.file i).toList else [] := by
      rw [chosen, if_pos hflag, hi, Option.filter_some]
      split_ifs <;> simp_all
    rw [hchosen]
    exact wp_elfDynamicDump_stage h (firstNamed_some hi).1 hs₁
  · intro hflag
    rw [chosen_off _ hflag, List.append_nil]
    exact ⟨none, hs⟩

omit h hmalloc hv in
private theorem wp_strtab_stage {i : Nat} (hi : firstNamed host.file ".strtab" = some i)
    (flag : Bool) {offset size : UInt32} {data : Option Ptr} {x : Except Fault Text}
    (hs : Stage v (readHead host.file i) out s) :
    wp (runIf flag (dumped none offset size data x))
      (fun _ s' => ∃ last, Stage v last (out ++ chosen host.file (flag, ".strtab")) s')
      (fun _ _ => True) s := by
  rw [wp_runIf]
  constructor
  · intro hflag
    rw [chosen_on hflag hi (.inl (by decide))]
    exact wp_mono (wp_dumped_stage hs) (fun _ _ h => ⟨_, h⟩) fun _ _ _ => trivial
  · intro hflag
    rw [chosen_off _ hflag, List.append_nil]
    exact ⟨_, hs⟩

omit h hmalloc hv in
private theorem wp_symtab_stage {i : Nat} (hi : firstNamed host.file ".symtab" = some i)
    (flag : Bool) {symBuf strtab : Option Ptr} (hs : Stage v (readHead host.file i) out s) :
    wp (runIf flag (elfDumpSymtab (some (headOf host.file i)) symBuf strtab))
      (fun _ s' => ∃ last, Stage v last (out ++ chosen host.file (flag, ".symtab")) s')
      (fun _ _ => True) s := by
  rw [wp_runIf]
  constructor
  · intro hflag
    rw [chosen_on hflag hi (.inl (by decide))]
    exact wp_mono (wp_elfDumpSymtab_stage hs) (fun _ _ h => ⟨_, h⟩) fun _ _ _ => trivial
  · intro hflag
    rw [chosen_off _ hflag, List.append_nil]
    exact ⟨_, hs⟩

omit h hmalloc hv in
private theorem wp_gapText_stage (hs : Stage v last out s) :
    wp (gapText "THE CONTENT OF TEXT DATA BSS RODATA") (fun _ => Stage v none out)
      (fun _ _ => True) s := by
  have hne : ascii "\n\n" ≠ symbolsTitle := by decide
  have hfirst : follow (last, out) (.text (ascii "\n\n")) = (none, out) := by
    cases last with
    | none => rfl
    | some p => rw [follow, if_neg hne]
  have hnext := hs.emit (.text (ascii "\n\n"))
  rw [hfirst] at hnext
  rw [gapText, wp_bind, wp_print, lit_text]
  apply wp_written hnext
  intro I hI
  exact Keeps.bind (hI.print _) fun _ => hI.print _

private theorem wp_sections_stage (flags : Flags) (hs : Stage v last out s) :
    wp (do
      gapText "THE CONTENT OF TEXT DATA BSS RODATA"
      runIf flags.dumpRodata (elfSectionDumpByName host ".rodata")
      runIf flags.dumpData (elfSectionDumpByName host ".data")
      runIf flags.dumpBss (elfSectionDumpByName host ".bss")
      runIf flags.dumpText (elfSectionDumpByName host ".text")
      runIf flags.dumpDyn do
        let (_, dynHead) ← findHead ".dynamic"
        let (_, _, dynBuf) ← readContents host dynHead
        elfDynamicDump dynHead dynBuf)
      (fun _ s' => ∃ last, Stage v last (out ++ ((lookups flags).drop 2).flatMap
        (chosen host.file)) s') (fun _ _ => True) s := by
  rw [wp_bind]
  apply wp_mono (wp_gapText_stage hs) _ fun _ _ _ => trivial
  intro _ s₁ hs₁
  rw [wp_bind]
  apply wp_mono (wp_sectionDump_stage h hmalloc hv (by decide) (by decide) _ hs₁) _ fun _ _ _ => trivial
  intro _ s₂ hs₂
  rw [wp_bind]
  apply wp_mono (wp_sectionDump_stage h hmalloc hv (by decide) (by decide) _ hs₂) _ fun _ _ _ => trivial
  intro _ s₃ hs₃
  rw [wp_bind]
  apply wp_mono (wp_sectionDump_stage h hmalloc hv (by decide) (by decide) _ hs₃) _ fun _ _ _ => trivial
  intro _ s₄ hs₄
  rw [wp_bind]
  apply wp_mono (wp_sectionDump_stage h hmalloc hv (by decide) (by decide) _ hs₄) _ fun _ _ _ => trivial
  intro _ s₅ hs₅
  apply wp_mono (wp_dynamics_stage h hmalloc hv _ hs₅) _ fun _ _ _ => trivial
  intro _ s₆ hs₆
  simpa only [lookups, List.drop_succ_cons, List.drop_zero, List.flatMap_cons, List.flatMap_nil,
    List.append_nil, List.append_assoc] using hs₆

/-- What the dump leaves behind for the summary. -/
private structure Dumped (host : Host) (flags : Flags) (header : Option Ptr) (s : Proc ElfVars) :
    Prop where
  searchable : Searchable host.file s.vars
  header : s.vars.elfHeader = header
  strtab : ∃ i : Nat, firstNamed host.file ".strtab" = some i ∧ s.vars.strtabIndex = i
  symtab : ∃ i : Nat, firstNamed host.file ".symtab" = some i ∧ s.vars.symtabIndex = i
  headers : dumpedHeaders s.trace = (lookups flags).flatMap (chosen host.file)

private theorem wp_elfFileDumpBody_stage (flags : Flags) (hs : Stage v none [] s) :
    wp (elfFileDumpBody host flags) (fun _ => Dumped host flags v.elfHeader) (fun _ _ => True)
      s := by
  rw [elfFileDumpBody, wp_bind]
  apply wp_mono (wp_written hs fun I hI => Keeps.runIf fun _ => hI.elfHeaderDump) _
    fun _ _ _ => trivial
  intro _ s₁ hs₁
  rw [wp_bind, wp_vars, wp_bind]
  apply wp_mono (wp_written hs₁ fun I hI => Keeps.runIf fun _ => Keeps.bind (hI.print _) fun _ =>
    Keeps.bind (hI.print _) fun _ => Keeps.loop fun i _ _ => hI.dumpSectionHead i) _
    fun _ _ _ => trivial
  intro _ s₂ hs₂
  rw [wp_bind]
  apply wp_findHead_stage h hv (by decide) hs₂
  intro j hj
  dsimp only
  rw [wp_bind]
  apply wp_mono (wp_readContents_stage h hmalloc (firstNamed_some hj).1 hs₂) _ fun _ _ _ => trivial
  intro r s₃ hs₃
  obtain ⟨strtabOffset, strtabSize, strtab⟩ := r
  dsimp only
  rw [wp_bind, wp_setVars, wp_bind]
  apply wp_mono (wp_strtab_stage hj _ (hs₃.setVars (fun v => { v with
    strtabIndex := (j : Int), elfStrtabBuf := strtab }) fun _ _ => rfl)) _ fun _ _ _ => trivial
  intro _ s₄ hlast₄
  obtain ⟨last, hs₄⟩ := hlast₄
  have hv₄ : Searchable host.file { v with strtabIndex := (j : Int), elfStrtabBuf := strtab } :=
    ⟨hv.sectionNum, hv.heads, hv.names⟩
  rw [wp_bind]
  apply wp_findHead_stage h hv₄ (by decide) hs₄
  intro i hi
  dsimp only
  rw [wp_bind]
  apply wp_mono (wp_readContents_stage h hmalloc (firstNamed_some hi).1 hs₄) _ fun _ _ _ => trivial
  intro r s₅ hs₅
  obtain ⟨_, _, symBuf⟩ := r
  dsimp only
  rw [wp_bind, wp_setVars, wp_bind]
  apply wp_mono (wp_symtab_stage hi _ (hs₅.setVars (fun v => { v with
    symtabIndex := (i : Int), elfSymBuf := symBuf }) fun _ _ => rfl)) _ fun _ _ _ => trivial
  intro _ s₆ hlast₆
  obtain ⟨last, hs₆⟩ := hlast₆
  have hv₆ : Searchable host.file { v with
      strtabIndex := (j : Int), elfStrtabBuf := strtab, symtabIndex := (i : Int)
      elfSymBuf := symBuf } := ⟨hv.sectionNum, hv.heads, hv.names⟩
  apply wp_mono (wp_sections_stage h hmalloc hv₆ flags hs₆) _ fun _ _ _ => trivial
  intro _ s₇ hlast₇
  obtain ⟨last, hs₇⟩ := hlast₇
  have htrace := congrArg Prod.snd hs₇.trace
  obtain ⟨screen, hvars⟩ := hs₇.vars
  refine ⟨hs₇.searchable hv₆, by rw [hvars], ⟨j, hj, by rw [hvars]⟩, ⟨i, hi, by rw [hvars]⟩, ?_⟩
  rw [dumpedHeaders, htrace]
  simp only [lookups, List.nil_append, List.drop_succ_cons, List.drop_zero, List.flatMap_cons,
    List.append_assoc]

end

/-! ## Loading dumps nothing -/

/-- Nothing has been dumped, and no contents have been read. -/
private def Untouched (s : Proc ElfVars) : Prop := s.trace.foldl follow (none, []) = (none, [])

section

variable {host : Host}

private theorem keeps_elfFileRead_untouched {target : Target} (htarget : ∀ p, target ≠ .contents p)
    (offset size : Int) : Keeps Untouched (elfFileRead host target offset size) := by
  intro s hs
  rw [wp_elfFileRead]
  refine ⟨trivial, ?_⟩
  unfold Untouched at hs ⊢
  obtain ⟨messages, hevents⟩ := host.transfer_events target (toUnsigned size).toNat s.pos offset size
  have hwritten : ∀ e ∈ messages.map (Event.perr "elf_file_read"), e.Written := by
    intro e he
    obtain ⟨_, -, rfl⟩ := List.mem_map.mp he
    trivial
  dsimp only
  rw [hevents, List.foldl_append, hs, List.foldl_append, follow_written hwritten]
  cases target with
  | contents p => exact absurd rfl (htarget p)
  | _ => rfl

private theorem keeps_setVars_untouched (f : ElfVars → ElfVars) : Keeps Untouched (setVars f) :=
  fun _ hs => ⟨trivial, hs⟩

private theorem keeps_readSectionHead_untouched (i : Nat) :
    Keeps Untouched (readSectionHead host i) := by
  apply keeps_vars_bind
  intro v
  apply Yields.lift_bind
  intro distance _
  apply Yields.lift_bind
  intro offset _
  apply Keeps.bind (keeps_elfFileRead_untouched (by simp) _ _)
  intro head
  split_ifs
  · exact keeps_setVars_untouched _
  · exact Yields.stop _

private theorem keeps_elfInitRead_untouched : Keeps Untouched (elfInitRead host) := by
  have hemit (e : Event) (he : follow (none, []) e = (none, [])) :
      Keeps Untouched (emit e : ElfRun Unit) := by
    intro s hs
    refine ⟨trivial, ?_⟩
    unfold Untouched at hs ⊢
    rw [List.foldl_append, hs]
    exact he
  apply Keeps.bind (keeps_elfFileRead_untouched (by simp) _ _)
  intro header
  apply Keeps.bind (keeps_setVars_untouched _)
  intro _
  apply Yields.lift_bind
  intro shoff _
  apply Yields.lift_bind
  intro shentsize _
  apply Yields.lift_bind
  intro shnum _
  apply Keeps.bind (keeps_setVars_untouched _)
  intro _
  apply Yields.lift_bind
  intro shstrndx _
  apply Yields.lift_bind
  intro distance _
  apply Yields.lift_bind
  intro offset _
  apply Keeps.bind (keeps_elfFileRead_untouched (by simp) _ _)
  intro nameHeader
  apply Keeps.bind (keeps_setVars_untouched _)
  intro _
  apply Yields.lift_bind
  intro head _
  apply Yields.lift_bind
  intro type _
  apply Keeps.bind (hemit _ rfl)
  intro _
  apply Keeps.bind (Keeps.runIf fun _ => hemit _ rfl)
  intro _
  apply Yields.lift_bind
  intro nameOffset _
  apply Yields.lift_bind
  intro nameSize _
  apply Keeps.bind (keeps_elfFileRead_untouched (by simp) _ _)
  intro names
  apply Keeps.bind (keeps_setVars_untouched _)
  intro _
  exact Keeps.loop fun i _ _ => keeps_readSectionHead_untouched i

variable (hhost : host.Healthy) (h : FileInput host.file) {flags : Flags} {s₀ s : Proc ElfVars}
  (hinit : elfInitRead host ElfVars.start = (.ok (), s₀))
  (hdump : elfFileDumpBody host flags s₀ = (.ok (), s))
include hhost h hinit hdump

private theorem dumped_of_run : Readable host.file (ehdr host.file Ehdr.eShstrndx) ∧
    Dumped host flags (some (chunk host.file 0 Ehdr.size)) s := by
  have hloaded := wp_elfInitRead_file (Q := fun _ => FileLoaded host) (E := fun _ _ => True) h
    hhost.malloc (fun _ _ _ => trivial) fun _ hs => hs
  have hkeeps : Keeps Untouched (elfInitRead host) := keeps_elfInitRead_untouched
  have huntouched := hkeeps ElfVars.start rfl
  rw [wp_of_eq hinit] at hloaded huntouched
  have hnames := names_of_dump h hloaded hdump
  have hv : Searchable host.file s₀.vars :=
    ⟨hloaded.shown.loaded.sectionNum, fun _ hi => hloaded.shown.slot_eq hi,
      _, hloaded.names.trans (if_pos hnames), rfl⟩
  have hstage : Stage s₀.vars none [] s₀ := ⟨⟨_, rfl⟩, huntouched.2⟩
  have hbody := wp_elfFileDumpBody_stage h hhost.malloc hv flags hstage
  rw [wp_of_eq hdump, hloaded.shown.loaded.header] at hbody
  exact ⟨hnames, hbody⟩

end

/-! ## The rows -/

section

variable {I : Proc ElfVars → Prop} (hI : Writes I)
include hI

private theorem keeps_summarizeSymbol (symBuf strBuf : Option Ptr) (i : Nat) :
    Keeps I (summarizeSymbol symBuf strBuf i) := by
  apply Yields.lift_bind
  intro buf _
  apply Yields.lift_bind
  intro stValue _
  apply Yields.lift_bind
  intro stSize _
  apply Yields.lift_bind
  intro stInfo _
  apply Yields.lift_bind
  intro stShndx _
  apply Yields.lift_bind
  intro idx _
  apply Yields.lift_bind
  intro stName _
  apply Yields.lift_bind
  intro name _
  exact hI.print _

private theorem keeps_elfSummarySymtab (header symBuf strBuf : Option Ptr) :
    Keeps I (elfSummarySymtab header symBuf strBuf) := by
  apply Yields.lift_bind
  intro header _
  apply Yields.lift_bind
  intro shSize _
  apply Yields.lift_bind
  intro shEntsize _
  apply Yields.lift_bind
  intro symNum _
  apply Yields.guard_bind
  intro _
  apply Yields.guard_bind
  intro _
  apply Keeps.bind (hI.print _)
  intro _
  exact Keeps.loop fun i _ _ => keeps_summarizeSymbol hI symBuf strBuf i

end

section

variable {host : Host} (h : FileInput host.file) {s : Proc ElfVars}
  (hnames : Readable host.file (ehdr host.file Ehdr.eShstrndx))
  (hs : Searchable host.file s.vars)
  (hheader : s.vars.elfHeader = some (chunk host.file 0 Ehdr.size))
include h hnames hs hheader

/-- The mark of section i. -/
private def markOf (src : List UInt8) (flags : SummaryFlags) (v : ElfVars) (i : Nat) : Bool :=
  sectionDumped flags v (ehdr src Ehdr.eShstrndx) i (sectionName src i).chars

/-- The row of section i. -/
private def rowOf (src : List UInt8) (flags : SummaryFlags) (v : ElfVars) (i : Nat) : Event :=
  .text ((summaryRow (markOf src flags v i) i (sectionName src i)).flatMap Directive.text)

private theorem wp_summarizeSection {Q : Unit → Proc ElfVars → Prop}
    {E : Stop → Proc ElfVars → Prop} {flags : SummaryFlags} {i : Nat}
    (hi : i < ehdr host.file Ehdr.eShnum)
    (hQ : Q () (s.log [rowOf host.file flags s.vars i])) :
    wp (summarizeSection flags i) Q E s := by
  obtain ⟨p, hp, htail⟩ := hs.names
  have hname : stringAt (some p) (toInt (shdr host.file i Shdr.shName)) =
      .ok (sectionName host.file i) := by
    have hread := h.held i hi
    have hlen : (nameTable host.file).length ≤
        shdr host.file (ehdr host.file Ehdr.eShstrndx) Shdr.shSize := by simp [nameTable]
    have hsize := hnames.2.1
    have hlt : shdr host.file i Shdr.shName < (nameTable host.file).length := by
      unfold readString at hread
      split_ifs at hread with hin
      omega
    rw [stringAt, deref_some, ok_bind, toInt_of_lt (by omega), if_neg (by omega),
      Int.toNat_natCast, htail]
    exact hread
  have hmember : member (some (chunk host.file 0 Ehdr.size)) Ehdr.eShstrndx =
      .ok (ehdr host.file Ehdr.eShstrndx) := member_header h.header (by decide)
  have hhead : member (some (headOf host.file i)) Shdr.shName =
      .ok (shdr host.file i Shdr.shName) := h.head_get hi (by decide)
  rw [summarizeSection, wp_bind, wp_vars, wp_bind, hheader, hmember, wp_lift_ok, wp_bind,
    hs.heads i hi, wp_lift_ok, wp_bind, hhead, wp_lift_ok, wp_bind, hp, hname, wp_lift_ok, wp_print]
  exact hQ

/-- Whatever becomes of the symbols, the rows are written before. -/
private theorem summary_trace (flags : SummaryFlags) :
    ∃ rest, (elfDumpSummary flags s).2.trace = s.trace ++ (summaryTitle ++
      summaryRows host.file (markOf host.file flags s.vars) ++ rest) := by
  apply last_of_wp (I := fun s' : Proc ElfVars => ∃ rest, s'.trace = s.trace ++ (summaryTitle ++
    summaryRows host.file (markOf host.file flags s.vars) ++ rest))
  rw [elfDumpSummary, wp_bind, wp_print, wp_bind, wp_print, wp_bind, wp_vars, wp_bind]
  simp only [lit_text]
  rw [hs.sectionNum]
  apply wp_mono (wp_loop _ (i := 0) (n := ehdr host.file Ehdr.eShnum) (fun k t =>
    t = s.log (summaryTitle ++ (List.range k).map (rowOf host.file flags s.vars)))
    (E := fun _ _ => False) ?_ ?_) ?_ fun _ _ he => absurd he id
  · intro k t _ hk ht
    rw [Nat.zero_add] at hk
    subst ht
    apply wp_summarizeSection (s := s.log _) h hnames hs hheader hk
    rw [Proc.log_log, List.range_succ, List.map_append, List.append_assoc]
    rfl
  · simp [Proc.log, summaryTitle]
  · intro _ t ht
    rw [Nat.zero_add] at ht
    rw [wp_bind, wp_lift]
    have hwrites : Writes fun s' : Proc ElfVars => ∃ rest, s'.trace = t.trace ++ rest := by
      constructor
      · intro _ _ hrest
        exact hrest
      · intro s' es _ hlast
        obtain ⟨rest, hrest⟩ := hlast
        exact ⟨rest ++ es, by rw [Proc.log, hrest, List.append_assoc]⟩
    have hkept (rest : List Event) : s.trace ++ (summaryTitle ++ summaryRows host.file
        (markOf host.file flags s.vars) ++ rest) = t.trace ++ rest := by
      rw [ht, ← List.append_assoc]
      rfl
    simp only [hkept]
    constructor
    · intro head _
      apply wp_mono (keeps_elfSummarySymtab hwrites head _ _ t ⟨[], (List.append_nil _).symm⟩)
      · intro _ _ hrest
        exact hrest.2
      · intro _ _ hrest
        exact hrest
    · intro _ _
      exact ⟨[], (List.append_nil _).symm⟩

end

/-! ## When the marks agree -/

section

variable {src : List UInt8} {flags : SummaryFlags} {v : ElfVars} {i : Nat}

private theorem selected_iff {flags : Flags} : Selected src flags i ↔ ContentsRead src i ∧
    (flags.dumpStrtab = true ∧ firstNamed src ".strtab" = some i ∨
    flags.dumpSymtab = true ∧ firstNamed src ".symtab" = some i ∨
    flags.dumpRodata = true ∧ firstNamed src ".rodata" = some i ∨
    flags.dumpData = true ∧ firstNamed src ".data" = some i ∨
    flags.dumpBss = true ∧ firstNamed src ".bss" = some i ∨
    flags.dumpText = true ∧ firstNamed src ".text" = some i ∨
    flags.dumpDyn = true ∧ firstNamed src ".dynamic" = some i ∧ dynCount src i ≠ 0) := by
  simp [Selected, lookups]

/-- The names that the dump looks up. -/
private def lookupNames : List String :=
  [".strtab", ".symtab", ".rodata", ".data", ".bss", ".text", ".dynamic"]

private theorem Selected.named {flags : Flags} {name : String} (h : Selected src flags i)
    (hname : (sectionName src i).chars = ascii name)
    (honly : ∀ other ∈ lookupNames, ascii other = ascii name → other = name) :
    (true, name) ∈ lookups flags ∧ firstNamed src name = some i ∧ ContentsRead src i := by
  obtain ⟨hread, ⟨flag, other⟩, hx, hflag, hfirst, -⟩ := h
  have hmem : other ∈ lookupNames := List.mem_map_of_mem (f := Prod.snd) hx
  have heq := honly other hmem ((firstNamed_some hfirst).2.symm.trans hname)
  dsimp only at hflag hfirst
  rw [hflag, heq] at hx
  exact ⟨hx, heq ▸ hfirst, hread⟩

private theorem markOf_iff (flags : SummaryFlags) {i : Nat}
    (hstrtab : ∃ i : Nat, firstNamed src ".strtab" = some i ∧ v.strtabIndex = i)
    (hsymtab : ∃ i : Nat, firstNamed src ".symtab" = some i ∧ v.symtabIndex = i) :
    markOf src flags v i = true ↔ i = ehdr src Ehdr.eShstrndx ∨
      flags.dumpStrtab = true ∧ firstNamed src ".strtab" = some i ∨
      flags.dumpSymtab = true ∧ firstNamed src ".symtab" = some i ∨
      flags.dumpComment = true ∧ (sectionName src i).chars = ascii ".comment" ∨
      flags.dumpRodata = true ∧ (sectionName src i).chars = ascii ".rodata" ∨
      flags.dumpData = true ∧ (sectionName src i).chars = ascii ".data" ∨
      flags.dumpBss = true ∧ (sectionName src i).chars = ascii ".bss" ∨
      flags.dumpBss = true ∧ (sectionName src i).chars = ascii ".text" := by
  obtain ⟨j, hj, hstrtab⟩ := hstrtab
  obtain ⟨k, hk, hsymtab⟩ := hsymtab
  have hcast (m : Nat) : ((i : Int) = m) ↔ some m = some i := by
    rw [Option.some.injEq]
    omega
  simp only [markOf, sectionDumped, hstrtab, hsymtab, hj, hk, Bool.or_eq_true, Bool.and_eq_true,
    decide_eq_true_eq, hcast, or_assoc]

variable (hstrtab : ∃ i : Nat, firstNamed src ".strtab" = some i ∧ v.strtabIndex = i)
  (hsymtab : ∃ i : Nat, firstNamed src ".symtab" = some i ∧ v.symtabIndex = i)
include hstrtab hsymtab

/-- A section of none of the other names is marked for its index or as the .text section. -/
private theorem marked_otherwise {i : Nat} {name : String} (hmarked : markOf src flags v i = true)
    (hname : (sectionName src i).chars = ascii name)
    (hother : ∀ other ∈ [".strtab", ".symtab", ".comment", ".rodata", ".data", ".bss"],
      ascii other ≠ ascii name) :
    i = ehdr src Ehdr.eShstrndx ∨
      flags.dumpBss = true ∧ (sectionName src i).chars = ascii ".text" := by
  have hne {other : String} (heq : (sectionName src i).chars = ascii other)
      (hmem : other ∈ [".strtab", ".symtab", ".comment", ".rodata", ".data", ".bss"]) : False :=
    hother other hmem (heq.symm.trans hname)
  rcases (markOf_iff _ hstrtab hsymtab).mp hmarked with h | ⟨-, h⟩ | ⟨-, h⟩ | ⟨-, h⟩ | ⟨-, h⟩ |
    ⟨-, h⟩ | ⟨-, h⟩ | h
  · exact .inl h
  · exact absurd (hne (firstNamed_some h).2 (by simp)) id
  · exact absurd (hne (firstNamed_some h).2 (by simp)) id
  · exact absurd (hne h (by simp)) id
  · exact absurd (hne h (by simp)) id
  · exact absurd (hne h (by simp)) id
  · exact absurd (hne h (by simp)) id
  · exact .inr h

private theorem agree_of_marks (hshstrndx : ehdr src Ehdr.eShstrndx < ehdr src Ehdr.eShnum)
    (h : ∀ i < ehdr src Ehdr.eShnum, markOf src flags v i = true ↔ Selected src flags.toFlags i) :
    MarksAgree src flags := by
  have hmark (i : Nat) := markOf_iff flags (i := i) hstrtab hsymtab
  have honly {name : String} (hmarked : ∀ i, (sectionName src i).chars = ascii name →
      markOf src flags v i = true) (hname : ∀ other ∈ lookupNames, ascii other = ascii name →
      other = name) : OnlyOne src name :=
    fun i hi hi' => (((h i hi).mp (hmarked i hi')).named hi' hname).2
  constructor
  case names => exact (h _ hshstrndx).mp ((hmark _).mpr (by simp))
  case strtab =>
    intro hflag i hfirst
    exact ((h i (firstNamed_some hfirst).1).mp ((hmark i).mpr (by simp [hflag, hfirst]))).1
  case symtab =>
    intro hflag i hfirst
    exact ((h i (firstNamed_some hfirst).1).mp ((hmark i).mpr (by simp [hflag, hfirst]))).1
  case comment =>
    intro hflag i hi hname
    have hselected := (h i hi).mp ((hmark i).mpr (by simp [hflag, hname]))
    have hx := (hselected.named hname (by decide)).1
    simp [lookups] at hx
  case rodata =>
    intro hflag
    exact honly (fun i hname => (hmark i).mpr (by simp [hflag, hname])) (by decide)
  case data =>
    intro hflag
    exact honly (fun i hname => (hmark i).mpr (by simp [hflag, hname])) (by decide)
  case bss =>
    intro hflag
    exact honly (fun i hname => (hmark i).mpr (by simp [hflag, hname])) (by decide)
  case text =>
    intro hflag
    refine ⟨honly (fun i hname => (hmark i).mpr (by simp [hflag, hname])) (by decide), ?_⟩
    intro htext
    cases hfirst : firstNamed src ".text" with
    | none => rfl
    | some i =>
      obtain ⟨hi, hname⟩ := firstNamed_some hfirst
      have hselected := (h i hi).mp ((hmark i).mpr (by simp [hflag, hname]))
      have hx := (hselected.named hname (by decide)).1
      simp [lookups, htext] at hx
  case textAlone =>
    intro hbss htext i hfirst hread
    obtain ⟨hi, hname⟩ := firstNamed_some hfirst
    have hmarked := (h i hi).mpr (selected_iff.mpr ⟨hread, by simp [htext, hfirst]⟩)
    rcases marked_otherwise hstrtab hsymtab hmarked hname (by decide) with heq | ⟨hflag, -⟩
    · exact heq
    · rw [hbss] at hflag
      cases hflag
  case dynamic =>
    intro hflag i hfirst hread hcount
    obtain ⟨hi, hname⟩ := firstNamed_some hfirst
    have hmarked := (h i hi).mpr (selected_iff.mpr ⟨hread, by simp [hflag, hfirst, hcount]⟩)
    rcases marked_otherwise hstrtab hsymtab hmarked hname (by decide) with heq | ⟨-, htext⟩
    · exact heq
    · exact absurd (htext.symm.trans hname) (by decide)

private theorem marks_of_agree (h : MarksAgree src flags) {i : Nat}
    (hi : i < ehdr src Ehdr.eShnum) :
    markOf src flags v i = true ↔ Selected src flags.toFlags i := by
  rw [markOf_iff _ hstrtab hsymtab]
  constructor
  · intro hmarked
    rcases hmarked with rfl | ⟨hflag, hfirst⟩ | ⟨hflag, hfirst⟩ | ⟨hflag, hname⟩ | ⟨hflag, hname⟩ |
      ⟨hflag, hname⟩ | ⟨hflag, hname⟩ | ⟨hflag, hname⟩
    · exact h.names
    · exact selected_iff.mpr ⟨h.strtab hflag i hfirst, by simp [hflag, hfirst]⟩
    · exact selected_iff.mpr ⟨h.symtab hflag i hfirst, by simp [hflag, hfirst]⟩
    · exact absurd hname (h.comment hflag i hi)
    · obtain ⟨hfirst, hread⟩ := h.rodata hflag i hi hname
      exact selected_iff.mpr ⟨hread, by simp [hflag, hfirst]⟩
    · obtain ⟨hfirst, hread⟩ := h.data hflag i hi hname
      exact selected_iff.mpr ⟨hread, by simp [hflag, hfirst]⟩
    · obtain ⟨hfirst, hread⟩ := h.bss hflag i hi hname
      exact selected_iff.mpr ⟨hread, by simp [hflag, hfirst]⟩
    · obtain ⟨honly, hon⟩ := h.text hflag
      obtain ⟨hfirst, hread⟩ := honly i hi hname
      have htext : flags.dumpText = true := by
        by_contra hoff
        cases hfirst.symm.trans (hon (by simpa using hoff))
      exact selected_iff.mpr ⟨hread, by simp [htext, hfirst]⟩
  · intro hselected
    obtain ⟨hread, hselected⟩ := selected_iff.mp hselected
    rcases hselected with hstr | hsym | ⟨hflag, hfirst⟩ | ⟨hflag, hfirst⟩ | ⟨hflag, hfirst⟩ |
      ⟨hflag, hfirst⟩ | ⟨hflag, hfirst, hcount⟩
    · simp [hstr]
    · simp [hsym]
    · simp [hflag, (firstNamed_some hfirst).2]
    · simp [hflag, (firstNamed_some hfirst).2]
    · simp [hflag, (firstNamed_some hfirst).2]
    · by_cases hbss : flags.dumpBss = true
      · simp [hbss, (firstNamed_some hfirst).2]
      · exact .inl (h.textAlone (by simpa using hbss) hflag i hfirst hread)
    · exact .inl (h.dynamic hflag i hfirst hread hcount)

end

/-! ## The rows against the dump -/

private theorem summaryRow_mark {mark mark' : Bool} {i : Nat} {name : CString}
    (h : (summaryRow mark i name).flatMap Directive.text =
      (summaryRow mark' i name).flatMap Directive.text) : mark = mark' := by
  have hfirst (m : Bool) : ((summaryRow m i name).flatMap Directive.text).head? =
      some (if m then 89 else 32) := by
    cases m <;> rfl
  have hhead := congrArg List.head? h
  rw [hfirst, hfirst] at hhead
  cases mark <;> cases mark' <;> first | rfl | exact absurd hhead (by decide)

private theorem summaryRows_inj {src : List UInt8} {mark mark' : Nat → Bool}
    (h : summaryRows src mark = summaryRows src mark') {i : Nat} (hi : i < ehdr src Ehdr.eShnum) :
    mark i = mark' i := by
  have hrow := List.map_inj_left.mp h i (List.mem_range.mpr hi)
  exact summaryRow_mark (Event.text.inj hrow)

section

variable {host : Host} {flags : Flags} {s : Proc ElfVars} {i : Nat}

private theorem headOf_inj (h : FileInput host.file) {j : Nat}
    (heq : headOf host.file i = headOf host.file j) : i = j := by
  have hentsize := h.entsize
  have hposition := congrArg Ptr.position heq
  simp only [headOf, chunk_position, shdrAt, Nat.add_left_cancel_iff] at hposition
  rw [Shdr.size] at hentsize
  exact Nat.eq_of_mul_eq_mul_right (by omega) hposition

private theorem mem_chosen (h : FileInput host.file) {x : Bool × String} :
    headOf host.file i ∈ chosen host.file x ↔ ContentsRead host.file i ∧ x.1 = true ∧
      firstNamed host.file x.2 = some i ∧ (x.2 = ".dynamic" → dynCount host.file i ≠ 0) := by
  have hhead {j : Nat} : readHead host.file j = some (headOf host.file i) ↔
      ContentsRead host.file j ∧ j = i := by
    unfold readHead
    split_ifs with hread
    · simp only [Option.some.injEq, hread, true_and]
      exact ⟨headOf_inj h, fun heq => by rw [heq]⟩
    · simp [hread]
  unfold chosen
  split_ifs with hflag
  · simp only [hflag, true_and, Option.mem_toList, Option.bind_eq_some_iff,
      Option.filter_eq_some_iff, hhead]
    constructor
    · rintro ⟨j, ⟨hfirst, hcount⟩, hread, rfl⟩
      exact ⟨hread, hfirst, by simpa [imp_iff_not_or] using hcount⟩
    · rintro ⟨hread, hfirst, hcount⟩
      exact ⟨i, ⟨hfirst, by simpa [imp_iff_not_or] using hcount⟩, hread, rfl⟩
  · simp [hflag]

private theorem mem_dumpedHeaders (h : FileInput host.file) {header : Option Ptr}
    (hs : Dumped host flags header s) :
    headOf host.file i ∈ dumpedHeaders s.trace ↔ Selected host.file flags i := by
  rw [hs.headers, List.mem_flatMap]
  simp only [mem_chosen h]
  constructor
  · rintro ⟨x, hx, hread, hselected⟩
    exact ⟨hread, x, hx, hselected⟩
  · rintro ⟨hread, x, hx, hselected⟩
    exact ⟨x, hx, hread, hselected⟩

end

section

variable {host : Host} (hhost : host.Healthy) (h : FileInput host.file)
  {flags : SummaryFlags} {s₀ s : Proc ElfVars}
  (hinit : elfInitRead host ElfVars.start = (.ok (), s₀))
  (hdump : elfFileDumpBody host flags.toFlags s₀ = (.ok (), s))
include hhost h hinit hdump

private theorem marks_of_summaryTrue (htrue : SummaryTrue host flags s) :
    MarksAgree host.file flags := by
  obtain ⟨hnames, hs⟩ := dumped_of_run hhost h hinit hdump
  obtain ⟨mark, rest, htrace, hmark⟩ := htrue
  obtain ⟨rest', htrace'⟩ := summary_trace h hnames hs.searchable hs.header flags
  rw [htrace', List.append_cancel_left_eq, List.append_assoc, List.append_assoc,
    List.append_cancel_left_eq] at htrace
  have hrows := List.append_inj_left htrace (by simp [summaryRows])
  apply agree_of_marks hs.strtab hs.symtab h.names
  intro i hi
  rw [summaryRows_inj hrows hi, hmark i hi, mem_dumpedHeaders h hs]

private theorem summaryTrue_of_marks (hagree : MarksAgree host.file flags) :
    SummaryTrue host flags s := by
  obtain ⟨hnames, hs⟩ := dumped_of_run hhost h hinit hdump
  obtain ⟨rest, htrace⟩ := summary_trace h hnames hs.searchable hs.header flags
  refine ⟨_, rest, htrace, fun i hi => ?_⟩
  rw [mem_dumpedHeaders h hs]
  exact marks_of_agree hs.strtab hs.symtab hagree hi

end

/-- Behind a dump that has come to its end, the summary is true exactly when no name that it
compares is used twice, the sections it marks can be read, the switches it looks at are those of the
dump, and the section of the section names is dumped under another name. -/
theorem summaryTrue_iff {host : Host} (hhost : host.Healthy) (h : FileInput host.file)
    {flags : SummaryFlags} {s₀ s : Proc ElfVars}
    (hinit : elfInitRead host ElfVars.start = (.ok (), s₀))
    (hdump : elfFileDumpBody host flags.toFlags s₀ = (.ok (), s)) :
    SummaryTrue host flags s ↔ MarksAgree host.file flags :=
  ⟨marks_of_summaryTrue hhost h hinit hdump, summaryTrue_of_marks hhost h hinit hdump⟩

/-- A file whose section names are in its .strtab. -/
def sharedStrings : List UInt8 :=
  Ehdr.bytes 0 52 0 0 40 3 1 ++ List.replicate 40 0 ++ Shdr.bytes 1 shtStrtab 172 17 0 ++
    Shdr.bytes 9 2 0 0 16 ++ ascii "\x00.strtab\x00.symtab\x00"

/-- The switches for the headers, the strings and the symbols. -/
def stringsOnly : SummaryFlags where
  dumpHeader := true
  dumpSectionHeader := true
  dumpStrtab := true
  dumpSymtab := true
  dumpRodata := false
  dumpData := false
  dumpBss := false
  dumpText := false
  dumpPheader := true
  dumpDyn := false
  dumpComment := false

private theorem sharedStrings_facts : FileInput sharedStrings ∧
    ehdr sharedStrings Ehdr.eShstrndx = 1 ∧
    (∀ i < ehdr sharedStrings Ehdr.eShnum, shdrAt sharedStrings i < 2 ^ 31) ∧
    (∀ i < ehdr sharedStrings Ehdr.eShnum, NameFits sharedStrings i) ∧
    Readable sharedStrings 1 ∧ Readable sharedStrings 2 ∧
    DumpFits sharedStrings 1 ∧ symCount sharedStrings 2 = 0 ∧
    firstNamed sharedStrings ".strtab" = some 1 ∧ firstNamed sharedStrings ".symtab" = some 2 := by
  decide +kernel

/-- Both of its sections are dumped and marked. -/
theorem summaryTrue_sharedStrings : ∃ s₀ s,
    elfInitRead (Host.ideal sharedStrings) ElfVars.start = (.ok (), s₀) ∧
    elfFileDumpBody (Host.ideal sharedStrings) stringsOnly.toFlags s₀ = (.ok (), s) ∧
    SummaryTrue (Host.ideal sharedStrings) stringsOnly s := by
  obtain ⟨hinput, hnames, hbelow, hlines, hread, hread', hfits, hcount, hstrtab, hsymtab⟩ :=
    sharedStrings_facts
  have hoff {P : Prop} (h : false = true) : P := Bool.noConfusion h
  have hruns : RunsThrough sharedStrings stringsOnly.toFlags := by
    refine ⟨hbelow, hnames ▸ hread, fun _ => hlines, ⟨1, hstrtab, fun _ => hfits⟩, ⟨2, hsymtab⟩,
      ?_, hoff, hoff, hoff, hoff, hoff⟩
    intro _ i j hi _ hne
    obtain rfl : i = 2 := Option.some.inj (hi.symm.trans hsymtab)
    exact absurd hcount hne
  have hhost := Host.ideal_healthy sharedStrings
  obtain ⟨s₀, s, hinit, hdump⟩ := dump_returns hhost hinput hruns
  refine ⟨s₀, s, hinit, hdump, (summaryTrue_iff hhost hinput hinit hdump).mpr ?_⟩
  have hfirst : firstNamed sharedStrings ".strtab" = some (ehdr sharedStrings Ehdr.eShstrndx) :=
    hstrtab.trans (congrArg some hnames.symm)
  refine ⟨⟨.inl (hnames ▸ hread), (true, ".strtab"), by decide, rfl, hfirst, fun h =>
    absurd h (by decide)⟩, ?_, ?_, hoff, hoff, hoff, hoff, hoff, fun _ => hoff, hoff⟩
  · intro _ i hi
    obtain rfl : i = 1 := Option.some.inj (hi.symm.trans hstrtab)
    exact .inl hread
  · intro _ i hi
    obtain rfl : i = 2 := Option.some.inj (hi.symm.trans hsymtab)
    exact .inl hread'

/-- With the switches of the source, .shstrtab is marked and not dumped. -/
theorem summary_everySection : FileInput everySection ∧ ∃ s₀ s,
    elfInitRead (Host.ideal everySection) ElfVars.start = (.ok (), s₀) ∧
    elfFileDumpBody (Host.ideal everySection) SummaryFlags.initial.toFlags s₀ = (.ok (), s) ∧
    ¬SummaryTrue (Host.ideal everySection) SummaryFlags.initial s := by
  have hhost := Host.ideal_healthy everySection
  obtain ⟨s₀, s, hinit, hdump⟩ := dump_returns hhost everySection_input everySection_runs
  refine ⟨everySection_input, s₀, s, hinit, hdump, fun htrue => ?_⟩
  have hnames := (marks_of_summaryTrue hhost everySection_input hinit hdump htrue).names
  have hnone : ∀ name ∈ lookupNames,
      firstNamed everySection name ≠ some (ehdr everySection Ehdr.eShstrndx) := by decide +kernel
  obtain ⟨-, x, hx, -, hfirst, -⟩ := hnames
  exact hnone x.2 (List.mem_map_of_mem (f := Prod.snd) hx) hfirst

end PerfTools.Elf
