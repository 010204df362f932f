import PerfTools.Elf.FileDump

/-!
# Sections that are not there

The file dump looks seven sections up by their names and uses what the search returns as an
index. Two of them are looked up whatever the switches say, and a missing one gives the index -1.
The dump comes to its end, with everything shown that is there, exactly when every section that it
looks up is there and what it reads lies below 2 GiB.
-/

namespace PerfTools.Elf

open Memory Printf Exec

/-! ## What is shown -/

/-- The records that are shown of a table of a name, when there is one. -/
def recordsNamed (src : List UInt8) (name : String) (count : Nat → Nat)
    (record : Nat → Nat → Shown) : List Shown :=
  (firstNamed src name).elim [] fun i => (List.range (count i)).map (record i)

/-- The dumps of a file in their order, by what is shown for a part of the file and by how many
records of a table are shown. -/
def listing (src : List UInt8) (part : Nat → Shown) (symbols dynamics : Nat → Nat)
    (flags : Flags) : List Shown :=
  (if flags.dumpHeader then [.part 0 (UInt32.ofNat Ehdr.size) (src.take Ehdr.size)] else []) ++
  (if flags.dumpSectionHeader then
    (List.range (ehdr src Ehdr.eShnum)).map (shownHead src) else []) ++
  (if flags.dumpStrtab then partNamed src part ".strtab" else []) ++
  (if flags.dumpSymtab then recordsNamed src ".symtab" symbols (shownSymbol src) else []) ++
  (if flags.dumpRodata then partNamed src part ".rodata" else []) ++
  (if flags.dumpData then partNamed src part ".data" else []) ++
  (if flags.dumpBss then partNamed src part ".bss" else []) ++
  (if flags.dumpText then partNamed src part ".text" else []) ++
  (if flags.dumpDyn then recordsNamed src ".dynamic" dynamics (shownDynamic src) else [])

/-- The dump of a section with its contents; a section without contents is shown as what can be
read at its place. -/
def wholePart (src : List UInt8) (i : Nat) : Shown :=
  .part (UInt32.ofNat (shdr src i Shdr.shOffset)) (UInt32.ofNat (shdr src i Shdr.shSize))
    (if shdr src i Shdr.shType = shtNobits then heldBytes src i else fileImage src i)

/-- The tool comes to its end and has dumped, in the fixed order, everything that is switched on
and there. -/
def SurvivesAbsence (host : Host) (flags : Flags) : Prop :=
  ∃ s, elfFileDump host flags ElfVars.start = (.ok (), s) ∧
    shown s.trace = listing host.file (wholePart host.file)
      (fun i => shdr host.file i Shdr.shSize / Sym.size)
      (fun i => shdr host.file i Shdr.shSize / Dyn.size) flags

/-- What the tool shows when it comes to its end. -/
def outcome (src : List UInt8) (flags : Flags) : List Shown :=
  listing src (shownPart src) (symCount src) (dynCount src) flags

/-- The condition under which it does. -/
structure RunsThrough (src : List UInt8) (flags : Flags) : Prop where
  headers : ∀ i < ehdr src Ehdr.eShnum, shdrAt src i < 2 ^ 31
  names : Readable src (ehdr src Ehdr.eShstrndx)
  lines : flags.dumpSectionHeader = true → ∀ i < ehdr src Ehdr.eShnum, NameFits src i
  strtab : ∃ i, firstNamed src ".strtab" = some i ∧ (flags.dumpStrtab = true → DumpFits src i)
  symtab : ∃ i, firstNamed src ".symtab" = some i
  symbols : flags.dumpSymtab = true → ∀ i j, firstNamed src ".symtab" = some i →
    firstNamed src ".strtab" = some j → SymbolsRun src i j
  rodata : flags.dumpRodata = true → PartRuns src ".rodata"
  data : flags.dumpData = true → PartRuns src ".data"
  bss : flags.dumpBss = true → PartRuns src ".bss"
  text : flags.dumpText = true → PartRuns src ".text"
  dynamic : flags.dumpDyn = true → ∃ i, firstNamed src ".dynamic" = some i ∧ DynamicsRun src i

section

variable {host : Host} {s : Proc ElfVars} {E : Stop → Proc ElfVars → Prop} {out : List Shown}

private theorem wp_runIf_shown {Q : Unit → Proc ElfVars → Prop} {flag : Bool} {m : ElfRun Unit}
    {C : Prop} {o : List Shown} (hs : ShownSoFar host out s)
    (hm : (¬C → ∀ e s, E e s) → (∀ s', C → ShownSoFar host (out ++ o) s' → Q () s') →
      wp m Q E s)
    (hbad : flag = true → ¬C → ∀ e s, E e s)
    (hQ : ∀ s', (flag = true → C) → ShownSoFar host (out ++ if flag then o else []) s' → Q () s') :
    wp (runIf flag m) Q E s := by
  rw [wp_runIf]
  constructor
  · intro hflag
    apply hm (hbad hflag)
    intro s' hC hs'
    apply hQ s' fun _ => hC
    rwa [if_pos hflag]
  · intro hflag
    apply hQ s fun hset => absurd hset hflag
    rwa [if_neg hflag, List.append_nil]

private theorem wp_header {Q : Unit → Proc ElfVars → Prop} (h : FileInput host.file)
    (hs : ShownSoFar host out s)
    (hQ : ∀ s', ShownSoFar host
      (out ++ [.part 0 (UInt32.ofNat Ehdr.size) (host.file.take Ehdr.size)]) s' → Q () s') :
    wp elfHeaderDump Q E s := by
  apply wp_elfHeaderDump h.header hs.loaded.header hs.loaded.screen
  intro screen t hscreen
  have hbytes : givenBytes (UInt32.ofNat Ehdr.size) (some (chunk host.file 0 Ehdr.size)) =
      host.file.take Ehdr.size := by
    rw [givenBytes, chunk_tail, List.drop_zero, List.take_take]
    rfl
  apply hQ
  have hnext := (hs.withScreen hscreen).log [.dump none 0 (UInt32.ofNat Ehdr.size)
    (some (chunk host.file 0 Ehdr.size)) t]
  rw [shown_part, hbytes] at hnext
  exact hnext

private theorem wp_gapText {Q : Unit → Proc ElfVars → Prop} {t : String}
    (hs : ShownSoFar host out s) (hQ : ∀ s', ShownSoFar host out s' → Q () s') :
    wp (gapText t) Q E s := by
  rw [gapText, wp_bind, wp_print, wp_bind, wp_print, wp_print]
  exact hQ _ (((hs.text _).text _).text _)

private theorem wp_dynamics {Q : Unit → Proc ElfVars → Prop} (h : FileInput host.file)
    (hnames : Readable host.file (ehdr host.file Ehdr.eShstrndx))
    (hmalloc : ∀ target n, host.malloc target n = true) (hs : ShownSoFar host out s)
    (hbad : ¬(∃ i, firstNamed host.file ".dynamic" = some i ∧ DynamicsRun host.file i) →
      ∀ e s, E e s)
    (hQ : ∀ s', (∃ i, firstNamed host.file ".dynamic" = some i ∧ DynamicsRun host.file i) →
      ShownSoFar host (out ++ recordsNamed host.file ".dynamic" (dynCount host.file)
        (shownDynamic host.file)) s' → Q () s') :
    wp (do
      let (_, dynHead) ← findHead ".dynamic"
      let (_, _, dynBuf) ← readContents host dynHead
      elfDynamicDump dynHead dynBuf) Q E s := by
  rw [wp_bind]
  apply wp_findHead h hnames (by decide) hs
  · intro hnone
    apply hbad
    rintro ⟨i, hi, -⟩
    rw [hnone] at hi
    cases hi
  intro i hi
  dsimp only
  rw [wp_bind]
  apply wp_readContents h hmalloc (firstNamed_some hi).1 hs
  intro buf s₁ hbuf hs₁
  dsimp only
  apply wp_elfDynamicDump h (firstNamed_some hi).1 hbuf hs₁
  · intro hno
    apply hbad
    rintro ⟨i', hi', hrun⟩
    rw [hi] at hi'
    cases hi'
    exact hno hrun
  · intro s₂ hrun hs₂
    apply hQ s₂ ⟨i, hi, hrun⟩
    rw [recordsNamed, hi]
    exact hs₂

private theorem wp_elfFileDumpBody (h : FileInput host.file)
    (hmalloc : ∀ target n, host.malloc target n = true) {flags : Flags}
    (hrange : ∀ i < ehdr host.file Ehdr.eShnum, shdrAt host.file i < 2 ^ 31)
    (hnames : Readable host.file (ehdr host.file Ehdr.eShstrndx)) (hs : ShownSoFar host [] s) :
    wp (elfFileDumpBody host flags)
      (fun _ s' => RunsThrough host.file flags ∧ shown s'.trace = outcome host.file flags)
      (fun _ _ => ¬RunsThrough host.file flags) s := by
  rw [elfFileDumpBody, wp_bind]
  apply wp_runIf_shown hs (C := True) (fun _ hQ => wp_header h hs fun s' => hQ s' trivial)
    fun _ hno => absurd trivial hno
  intro s₁ _ hs₁
  rw [wp_bind, wp_vars, wp_bind, hs₁.loaded.sectionNum]
  apply wp_runIf_shown hs₁
  · intro hbad hQ
    rw [wp_bind, wp_print, wp_bind, wp_print]
    exact wp_dumpSectionHeads h hnames hrange ((hs₁.text _).text _) hbad hQ
  · intro hflag hno _ _ hrun
    exact hno (hrun.lines hflag)
  intro s₂ hlines hs₂
  rw [wp_bind]
  apply wp_findHead h hnames (by decide) hs₂
  · intro hnone _ _ hrun
    obtain ⟨i, hi, -⟩ := hrun.strtab
    rw [hnone] at hi
    cases hi
  intro j hj
  dsimp only
  rw [wp_bind]
  apply wp_readContents h hmalloc (firstNamed_some hj).1 hs₂
  intro strtab s₃ hstrtab hs₃
  dsimp only
  rw [wp_bind, wp_setVars, wp_bind]
  have hset₃ := hs₃.setVars (v := { s₃.vars with strtabIndex := (j : Int), elfStrtabBuf := strtab })
    ⟨rfl, rfl, rfl, rfl, rfl, rfl⟩ rfl
  apply wp_runIf_shown hset₃ (wp_dumpPart binaryDumpWithChar_dumper hset₃ hstrtab)
  · intro hflag hno _ _ hrun
    obtain ⟨i, hi, hfits⟩ := hrun.strtab
    rw [hj] at hi
    cases hi
    exact hno (hfits hflag)
  intro s₄ hfits hs₄
  rw [wp_bind]
  apply wp_findHead h hnames (by decide) hs₄
  · intro hnone _ _ hrun
    obtain ⟨i, hi⟩ := hrun.symtab
    rw [hnone] at hi
    cases hi
  intro i hi
  dsimp only
  rw [wp_bind]
  apply wp_readContents h hmalloc (firstNamed_some hi).1 hs₄
  intro symBuf s₅ hsymBuf hs₅
  dsimp only
  rw [wp_bind, wp_setVars, wp_bind]
  have hset₅ := hs₅.setVars (v := { s₅.vars with symtabIndex := (i : Int), elfSymBuf := symBuf })
    ⟨rfl, rfl, rfl, rfl, rfl, rfl⟩ rfl
  have hsymtab := h.symtab i (firstNamed_some hi).1 (firstNamed_some hi).2
  have hsymbols := h.symbols i (firstNamed_some hi).1 j (firstNamed_some hj).1
    (firstNamed_some hi).2 (firstNamed_some hj).2
  apply wp_runIf_shown hset₅ (wp_elfDumpSymtab h (firstNamed_some hi).1 hsymtab.2.1 hsymtab.2.2
    hsymbols hsymBuf hstrtab hset₅)
  · intro hflag hno _ _ hrun
    exact hno (hrun.symbols hflag i j hi hj)
  intro s₆ hsyms hs₆
  rw [wp_bind]
  apply wp_gapText hs₆
  intro s' hgap
  rw [wp_bind]
  apply wp_runIf_shown hgap (wp_elfSectionDumpByName h hnames hmalloc (by decide) hgap)
  · intro hflag hno _ _ hrun
    exact hno (hrun.rodata hflag)
  intro s₇ hrodata hs₇
  rw [wp_bind]
  apply wp_runIf_shown hs₇ (wp_elfSectionDumpByName h hnames hmalloc (by decide) hs₇)
  · intro hflag hno _ _ hrun
    exact hno (hrun.data hflag)
  intro s₈ hdata hs₈
  rw [wp_bind]
  apply wp_runIf_shown hs₈ (wp_elfSectionDumpByName h hnames hmalloc (by decide) hs₈)
  · intro hflag hno _ _ hrun
    exact hno (hrun.bss hflag)
  intro s₉ hbss hs₉
  rw [wp_bind]
  apply wp_runIf_shown hs₉ (wp_elfSectionDumpByName h hnames hmalloc (by decide) hs₉)
  · intro hflag hno _ _ hrun
    exact hno (hrun.text hflag)
  intro s₁₀ htext hs₁₀
  apply wp_runIf_shown hs₁₀ (wp_dynamics h hnames hmalloc hs₁₀)
  · intro hflag hno _ _ hrun
    exact hno (hrun.dynamic hflag)
  intro s₁₁ hdynamic hs₁₁
  constructor
  · refine ⟨hrange, hnames, hlines, ⟨j, hj, hfits⟩, ⟨i, hi⟩, ?_, hrodata, hdata, hbss, htext,
      hdynamic⟩
    intro hflag i' j' hi' hj'
    rw [hi] at hi'
    rw [hj] at hj'
    cases hi'
    cases hj'
    exact hsyms hflag
  · have hparts : partNamed host.file (shownPart host.file) ".strtab" =
        [shownPart host.file j] := by
      rw [partNamed, hj]
      rfl
    have hrecords : recordsNamed host.file ".symtab" (symCount host.file) (shownSymbol host.file) =
        (List.range (symCount host.file i)).map (shownSymbol host.file i) := by
      rw [recordsNamed, hi]
      rfl
    rw [hs₁₁.shown, outcome, listing, hparts, hrecords, List.nil_append]

/-! ## Loading -/

private theorem shown_of_dumps {es : List Event} (h : dumps es = []) : shown es = [] := by
  induction es with
  | nil => rfl
  | cons e es ih =>
    cases e with
    | dump => cases h
    | _ => exact ih h

private theorem nameTable_size {src : List UInt8} (h : FileInput src) :
    shdr src (ehdr src Ehdr.eShstrndx) Shdr.shSize ≠ 0 := by
  intro hzero
  have hread := h.held _ h.names
  rw [nameTable, hzero, List.take_zero, readString, if_neg (by simp)] at hread
  cases hread

/-- Loading stops where the header of the section of the names starts beyond 2 GiB: its position
becomes a negative offset or no int at all. -/
private theorem wp_elfInitRead_beyond {Q : Unit → Proc ElfVars → Prop} (h : FileInput host.file)
    (hmalloc : ∀ target n, host.malloc target n = true)
    (hbeyond : 2 ^ 31 ≤ shdrAt host.file (ehdr host.file Ehdr.eShstrndx)) (hE : ∀ e s, E e s) :
    wp (elfInitRead host) Q E ElfVars.start := by
  have hm : ∀ {f : Field}, f.off + f.width ≤ Ehdr.size →
      member (some (chunk host.file 0 Ehdr.size)) f = .ok (ehdr host.file f) := fun hf =>
    member_header h.header hf
  have hend := shdrAt_end h.names
  have hcounted := h.counted
  have hentsize := h.entsize
  rw [Shdr.size] at hentsize
  rw [elfInitRead, wp_bind]
  apply (wp_elfFileRead_inside (hmalloc _ _) (by decide) (Or.inr (by simpa using h.header))).mpr
  simp only [wp_bind, wp_setVars, hm (f := Ehdr.eShoff) (by decide),
    hm (f := Ehdr.eShentsize) (by decide), hm (f := Ehdr.eShnum) (by decide),
    hm (f := Ehdr.eShstrndx) (by decide), wp_lift_ok]
  rw [wp_lift]
  refine ⟨fun distance hdistance => ?_, fun _ _ => hE _ _⟩
  rw [wp_lift]
  refine ⟨fun offset hoffset => ?_, fun _ _ => hE _ _⟩
  have hshift := (checked_eq_ok hdistance).1
  have hsum := checked_eq_ok hoffset
  have hneg : offset < -1 := by
    have hat : (shdrAt host.file (ehdr host.file Ehdr.eShstrndx) : Int) =
        ehdr host.file Ehdr.eShoff + distance := by
      rw [hshift]
      unfold shdrAt
      push_cast
      rfl
    have hcases := toInt_cases (ehdr_lt_word host.file (f := Ehdr.eShoff) rfl)
    omega
  have hnone : ∀ request pos, (host.transfer .nameHeader request pos offset
      (ehdr host.file Ehdr.eShentsize : Nat)).1 = none := by
    intro request pos
    unfold Host.transfer
    rw [if_pos (hmalloc _ _), if_pos hneg]
  rw [wp_elfFileRead, hnone, wp_setVars, deref_none, wp_lift_error]
  exact hE _ _

/-- The state behind elf_init_read; the names are NULL if they could not be read. -/
structure FileLoaded (host : Host) (s : Proc ElfVars) : Prop where
  below : ∀ i < ehdr host.file Ehdr.eShnum, shdrAt host.file i < 2 ^ 31
  shown : ShownSoFar host [] s
  names : s.vars.elfShstrtab = contentsOf host.file (ehdr host.file Ehdr.eShstrndx)

theorem wp_elfInitRead_file {Q : Unit → Proc ElfVars → Prop} (h : FileInput host.file)
    (hmalloc : ∀ target n, host.malloc target n = true)
    (hbad : ¬(∀ i < ehdr host.file Ehdr.eShnum, shdrAt host.file i < 2 ^ 31) → ∀ e s, E e s)
    (hQ : ∀ s, FileLoaded host s → Q () s) : wp (elfInitRead host) Q E ElfVars.start := by
  by_cases hbelow : shdrAt host.file (ehdr host.file Ehdr.eShstrndx) < 2 ^ 31
  · apply wp_elfInitRead_names hmalloc h.header h.entsize ((shdrAt_end h.names).trans h.inside) hbelow
    intro s₀ hs₀ hnames
    obtain ⟨target, pos, hfetched⟩ := hnames
    have hvars := hs₀.vars
    apply wp_readSectionHeads hmalloc h.slots (fun i hi => (shdrAt_end hi).trans h.inside)
      (by rw [hvars]) (by rw [hvars]) (by rw [hvars]; rfl) hbad
    intro s hall hs
    have hframe := hs.frame
    obtain ⟨es, htrace, hes⟩ := hs.trace
    apply hQ
    refine ⟨hall, ⟨⟨by rw [hframe, hvars], by rw [hframe, hvars], hs.heads, ?_, ?_⟩,
      by rw [hframe, hvars], by rw [hframe, hvars], ?_⟩, ?_⟩
    · rw [hframe, hvars]
      exact initial_restartable
    · rw [hframe]
      exact hs₀.names
    · rw [htrace, shown_append, shown_of_dumps hs₀.dumps, shown_of_dumps hes]
      rfl
    · rw [hframe]
      rw [hfetched]
      apply h.transfer_contents h.names rfl hmalloc
      exact nameTable_size h
  · apply wp_elfInitRead_beyond h hmalloc (by omega)
    apply hbad
    intro hall
    exact hbelow (hall _ h.names)

/-- The headers are loaded, but not the section names. -/
private def Unnamed (host : Host) (s : Proc ElfVars) : Prop :=
  s.vars.elfShstrtab = none ∧ s.vars.sectionNum = ehdr host.file Ehdr.eShnum ∧
    slot s.vars.elfSectionHead (0 : Nat) = .ok (some (headOf host.file 0))

private theorem carried_unnamed (host : Host) : Carried (Unnamed host) where
  vars _ _ hv hs :=
    ⟨hv.elfShstrtab.trans hs.1, hv.sectionNum.trans hs.2.1, by rw [hv.elfSectionHead]; exact hs.2.2⟩
  events _ _ _ _ hs := hs

/-- Without the section names the first search stops. -/
private theorem wp_elfFileDumpBody_unnamed {Q : Unit → Proc ElfVars → Prop} {flags : Flags}
    (h : FileInput host.file) (hs : Unnamed host s) (hE : ∀ e s, E e s) :
    wp (elfFileDumpBody host flags) Q E s := by
  have hcount : 0 < ehdr host.file Ehdr.eShnum := (Nat.zero_le _).trans_lt h.names
  have hI := carried_unnamed host
  have hheads (n : Nat) : Keeps (Unnamed host) (runIf flags.dumpSectionHeader do
      print (lit "===================Section===============\n")
      print (lit "Size Section Header " ++ [.dec 0 Shdr.size] ++ lit "\n")
      loop dumpSectionHead n 0) := by
    apply Keeps.runIf
    intro _
    apply Keeps.bind (hI.writes.print _)
    intro _
    apply Keeps.bind (hI.writes.print _)
    intro _
    exact Keeps.loop fun i _ _ => hI.writes.dumpSectionHead i
  rw [elfFileDumpBody, wp_bind]
  apply wp_mono (Keeps.runIf (fun _ => hI.writes.elfHeaderDump) s hs) _ fun e s _ => hE e s
  intro _ s₁ hs₁
  rw [wp_bind, wp_vars, wp_bind]
  apply wp_mono (hheads _ s₁ hs₁.2) _ fun e s _ => hE e s
  intro _ s₂ hs₂
  obtain ⟨-, hnone, hnum, hslot⟩ := hs₂
  rw [wp_bind, findHead, wp_bind, wp_vars, wp_bind, hnone, hnum,
    elfFindShstrtab_unnamed hcount hslot (h.head_get hcount (by decide)), wp_lift_error]
  exact hE _ _

theorem names_of_dump {flags : Flags} {t : Proc ElfVars} (h : FileInput host.file)
    (hs : FileLoaded host s) (hrun : elfFileDumpBody host flags s = (.ok (), t)) :
    Readable host.file (ehdr host.file Ehdr.eShstrndx) := by
  by_contra hnames
  have hunnamed : Unnamed host s := by
    refine ⟨?_, hs.shown.loaded.sectionNum, hs.shown.slot_eq ((Nat.zero_le _).trans_lt h.names)⟩
    rw [hs.names]
    exact if_neg hnames
  have hstop : wp (elfFileDumpBody host flags) (fun _ _ => False) (fun _ _ => True) s :=
    wp_elfFileDumpBody_unnamed h hunnamed fun _ _ => trivial
  rw [wp_of_eq hrun] at hstop
  exact hstop

/-- The whole file dump: it comes to its end exactly when everything that it looks up is there and
everything that it reads can be read. -/
private theorem wp_elfFileDump (hhost : host.Healthy) (h : FileInput host.file) (flags : Flags) :
    wp (elfFileDump host flags)
      (fun _ s' => RunsThrough host.file flags ∧ shown s'.trace = outcome host.file flags)
      (fun _ _ => ¬RunsThrough host.file flags) ElfVars.start := by
  rw [elfFileDump, wp_bind, openFile, if_pos hhost.canOpen, wp_pure, wp_bind]
  apply wp_elfInitRead_file h hhost.malloc
  · intro hno _ _ hrun
    exact hno hrun.headers
  intro s hs
  by_cases hnames : Readable host.file (ehdr host.file Ehdr.eShstrndx)
  · exact wp_elfFileDumpBody h hhost.malloc hs.below hnames hs.shown
  · apply wp_elfFileDumpBody_unnamed h
    · refine ⟨?_, hs.shown.loaded.sectionNum, hs.shown.slot_eq ((Nat.zero_le _).trans_lt h.names)⟩
      rw [hs.names]
      exact if_neg hnames
    · intro _ _ hrun
      exact hnames hrun.names

theorem dump_returns (hhost : host.Healthy) (h : FileInput host.file) {flags : Flags}
    (hruns : RunsThrough host.file flags) : ∃ s₀ s,
      elfInitRead host ElfVars.start = (.ok (), s₀) ∧ elfFileDumpBody host flags s₀ = (.ok (), s) := by
  obtain ⟨⟨⟩, s, hrun, -⟩ := returns_of_wp (wp_mono (wp_elfFileDump hhost h flags)
    (fun _ _ hs => hs) fun _ _ hstop => hstop hruns)
  rw [elfFileDump, openFile, if_pos hhost.canOpen] at hrun
  change (elfInitRead host >>= fun _ => elfFileDumpBody host flags) ElfVars.start = _ at hrun
  rw [bind_apply] at hrun
  rcases hinit : elfInitRead host ElfVars.start with ⟨e | ⟨⟨⟩⟩, s₀⟩
  · rw [hinit] at hrun
    cases hrun
  · rw [hinit] at hrun
    exact ⟨s₀, s, rfl, hrun⟩

end

/-! ## When nothing is left out -/

private theorem recordsNamed_length_le (src : List UInt8) (name : String) {count count' : Nat → Nat}
    (record : Nat → Nat → Shown) (h : ∀ i, count i ≤ count' i) :
    (recordsNamed src name count record).length ≤ (recordsNamed src name count' record).length := by
  unfold recordsNamed
  cases firstNamed src name with
  | none => rfl
  | some i => simpa using h i

private theorem partNamed_length (src : List UInt8) (part part' : Nat → Shown) (name : String) :
    (partNamed src part name).length = (partNamed src part' name).length := by
  unfold partNamed
  cases firstNamed src name <;> rfl

private theorem ite_length_eq (flag : Bool) {l l' : List Shown} (h : l.length = l'.length) :
    (if flag then l else []).length = (if flag then l' else []).length := by
  split_ifs
  · exact h
  · rfl

private theorem ite_length_le (flag : Bool) {l l' : List Shown} (h : l.length ≤ l'.length) :
    (if flag then l else []).length ≤ (if flag then l' else []).length := by
  split_ifs
  · exact h
  · rfl

private theorem eq_of_ite {flag : Bool} {l l' : List Shown}
    (h : (if flag then l else []) = if flag then l' else []) (hflag : flag = true) : l = l' := by
  rwa [if_pos hflag, if_pos hflag] at h

/-- Two listings of a file agree as a whole only if they agree part by part, when one of them
never shows more records. -/
private theorem listing_inj {src : List UInt8} {part part' : Nat → Shown}
    {symbols symbols' dynamics dynamics' : Nat → Nat} {flags : Flags}
    (hsymbols : ∀ i, symbols i ≤ symbols' i) (hdynamics : ∀ i, dynamics i ≤ dynamics' i)
    (h : listing src part symbols dynamics flags = listing src part' symbols' dynamics' flags) :
    (flags.dumpStrtab = true → partNamed src part ".strtab" = partNamed src part' ".strtab") ∧
    (flags.dumpSymtab = true → recordsNamed src ".symtab" symbols (shownSymbol src) =
      recordsNamed src ".symtab" symbols' (shownSymbol src)) ∧
    (flags.dumpRodata = true → partNamed src part ".rodata" = partNamed src part' ".rodata") ∧
    (flags.dumpData = true → partNamed src part ".data" = partNamed src part' ".data") ∧
    (flags.dumpBss = true → partNamed src part ".bss" = partNamed src part' ".bss") ∧
    (flags.dumpText = true → partNamed src part ".text" = partNamed src part' ".text") ∧
    (flags.dumpDyn = true → recordsNamed src ".dynamic" dynamics (shownDynamic src) =
      recordsNamed src ".dynamic" dynamics' (shownDynamic src)) := by
  have hpart (flag : Bool) (name : String) :=
    ite_length_eq flag (partNamed_length src part part' name)
  have hsyms := ite_length_le flags.dumpSymtab
    (recordsNamed_length_le src ".symtab" (shownSymbol src) hsymbols)
  have hdyns := ite_length_le flags.dumpDyn
    (recordsNamed_length_le src ".dynamic" (shownDynamic src) hdynamics)
  have hstrtab := hpart flags.dumpStrtab ".strtab"
  have hrodata := hpart flags.dumpRodata ".rodata"
  have hdata := hpart flags.dumpData ".data"
  have hbss := hpart flags.dumpBss ".bss"
  have htext := hpart flags.dumpText ".text"
  have hlen := congrArg List.length h
  unfold listing at h hlen
  simp only [List.length_append] at hlen
  obtain ⟨h, hdyn⟩ := List.append_inj' h (by omega)
  obtain ⟨h, htext⟩ := List.append_inj' h htext
  obtain ⟨h, hbss⟩ := List.append_inj' h hbss
  obtain ⟨h, hdata⟩ := List.append_inj' h hdata
  obtain ⟨h, hrodata⟩ := List.append_inj' h hrodata
  obtain ⟨h, hsym⟩ := List.append_inj' h (by omega)
  obtain ⟨-, hstrtab⟩ := List.append_inj' h hstrtab
  exact ⟨eq_of_ite hstrtab, eq_of_ite hsym, eq_of_ite hrodata, eq_of_ite hdata, eq_of_ite hbss,
    eq_of_ite htext, eq_of_ite hdyn⟩

/-- Section i has no contents, or they can be read, and their dump stays within its loop
counter. -/
def PartWhole (src : List UInt8) (i : Nat) : Prop :=
  (shdr src i Shdr.shType ≠ shtNobits → shdr src i Shdr.shSize ≠ 0 → Readable src i) ∧
    DumpFits src i

instance (src : List UInt8) (i : Nat) : Decidable (PartWhole src i) :=
  inferInstanceAs (Decidable (_ ∧ _))

/-- A section of the name is there, with all its contents. -/
def PartPresent (src : List UInt8) (name : String) : Prop :=
  ∃ i, firstNamed src name = some i ∧ PartWhole src i

/-- Every section that the dump looks up is there, and what it reads lies below 2 GiB. -/
structure Complete (src : List UInt8) (flags : Flags) : Prop where
  headers : ∀ i < ehdr src Ehdr.eShnum, shdrAt src i < 2 ^ 31
  names : Readable src (ehdr src Ehdr.eShstrndx)
  lines : flags.dumpSectionHeader = true → ∀ i < ehdr src Ehdr.eShnum, NameFits src i
  strtab : ∃ i, firstNamed src ".strtab" = some i ∧ (flags.dumpStrtab = true → PartWhole src i)
  symtab : ∃ i, firstNamed src ".symtab" = some i
  symbols : flags.dumpSymtab = true → ∀ i j, firstNamed src ".symtab" = some i →
    firstNamed src ".strtab" = some j → shdr src i Shdr.shSize ≠ 0 →
    Readable src i ∧ Readable src j ∧
      ∀ k < shdr src i Shdr.shSize / Sym.size, symLabel src i k < 2 ^ 31
  rodata : flags.dumpRodata = true → PartPresent src ".rodata"
  data : flags.dumpData = true → PartPresent src ".data"
  bss : flags.dumpBss = true → PartPresent src ".bss"
  text : flags.dumpText = true → PartPresent src ".text"
  dynamic : flags.dumpDyn = true → ∃ i, firstNamed src ".dynamic" = some i ∧
    (shdr src i Shdr.shSize ≠ 0 → Readable src i)

section

variable {src : List UInt8} {i : Nat}

/-- The dump of a section leaves nothing out when its contents, if it has any, can be read. -/
private theorem shownPart_eq_iff (h : FileInput src) (hi : i < ehdr src Ehdr.eShnum) :
    shownPart src i = wholePart src i ↔
      (shdr src i Shdr.shType ≠ shtNobits → shdr src i Shdr.shSize ≠ 0 → Readable src i) := by
  rw [shownPart, wholePart, Shown.part.injEq]
  simp only [true_and]
  constructor
  · intro heq htype hsize
    by_contra hread
    have hin := (h.contents i hi htype).resolve_left hsize
    unfold Described at hin
    rw [heldBytes, if_neg hread, if_neg htype, fileImage] at heq
    have hlen := congrArg List.length heq
    simp only [List.length_nil, List.length_take, List.length_drop] at hlen
    omega
  · intro hread
    by_cases htype : shdr src i Shdr.shType = shtNobits
    · rw [if_pos htype]
    · rw [if_neg htype, heldBytes]
      split_ifs with hok
      · rfl
      · have hzero : shdr src i Shdr.shSize = 0 := by
          by_contra hsize
          exact hok (hread htype hsize)
        rw [fileImage, hzero, List.take_zero]

private theorem partNamed_eq_iff (h : FileInput src) {name : String} :
    PartRuns src name ∧ partNamed src (shownPart src) name = partNamed src (wholePart src) name ↔
      PartPresent src name := by
  unfold PartRuns PartPresent partNamed
  constructor
  · rintro ⟨⟨i, hi, hfits⟩, heq⟩
    rw [hi] at heq
    have hhead : shownPart src i = wholePart src i := by simpa using heq
    exact ⟨i, hi, (shownPart_eq_iff h (firstNamed_some hi).1).mp hhead, hfits⟩
  · rintro ⟨i, hi, hread, hfits⟩
    refine ⟨⟨i, hi, hfits⟩, ?_⟩
    rw [hi, Option.map_some, Option.map_some,
      (shownPart_eq_iff h (firstNamed_some hi).1).mpr hread]

private theorem recordsNamed_count {name : String} {count count' : Nat → Nat}
    {record : Nat → Nat → Shown} (hi : firstNamed src name = some i)
    (h : recordsNamed src name count record = recordsNamed src name count' record) :
    count i = count' i := by
  have hlen := congrArg List.length h
  simpa [recordsNamed, hi] using hlen

private theorem symCount_le (src : List UInt8) (i : Nat) :
    symCount src i ≤ shdr src i Shdr.shSize / Sym.size := by
  unfold symCount
  split_ifs
  · exact le_rfl
  · exact Nat.zero_le _

private theorem dynCount_le (src : List UInt8) (i : Nat) :
    dynCount src i ≤ shdr src i Shdr.shSize / Dyn.size := by
  unfold dynCount
  split_ifs
  · exact le_rfl
  · exact Nat.zero_le _

private theorem symbols_of_run (h : FileInput src) {j : Nat}
    (hi : firstNamed src ".symtab" = some i) (hrun : SymbolsRun src i j)
    (hall : symCount src i = shdr src i Shdr.shSize / Sym.size)
    (hsize : shdr src i Shdr.shSize ≠ 0) : Readable src i ∧ Readable src j ∧
      ∀ k < shdr src i Shdr.shSize / Sym.size, symLabel src i k < 2 ^ 31 := by
  have hdvd := (h.symtab i (firstNamed_some hi).1 (firstNamed_some hi).2).2.2
  have hpos : shdr src i Shdr.shSize / Sym.size ≠ 0 := by
    rw [Sym.size] at hdvd ⊢
    omega
  rw [← hall] at hpos ⊢
  exact hrun hpos

private theorem dynamics_of_run (h : FileInput src) (hi : firstNamed src ".dynamic" = some i)
    (hrun : DynamicsRun src i) (hall : dynCount src i = shdr src i Shdr.shSize / Dyn.size)
    (hsize : shdr src i Shdr.shSize ≠ 0) : Readable src i := by
  have hdvd := (h.dynamic i (firstNamed_some hi).1 (firstNamed_some hi).2).2
  have hpos : shdr src i Shdr.shSize / Dyn.size ≠ 0 := by
    rw [Dyn.size] at hdvd ⊢
    omega
  rw [← hall] at hpos
  exact hrun hpos

private theorem complete_of_run (h : FileInput src) {flags : Flags} (hrun : RunsThrough src flags)
    (heq : outcome src flags = listing src (wholePart src)
      (fun i => shdr src i Shdr.shSize / Sym.size) (fun i => shdr src i Shdr.shSize / Dyn.size)
      flags) : Complete src flags := by
  obtain ⟨hstrtab, hsym, hrodata, hdata, hbss, htext, hdyn⟩ :=
    listing_inj (symCount_le src) (dynCount_le src) heq
  refine ⟨hrun.headers, hrun.names, hrun.lines, ?_, hrun.symtab, ?_,
    fun hflag => (partNamed_eq_iff h).mp ⟨hrun.rodata hflag, hrodata hflag⟩,
    fun hflag => (partNamed_eq_iff h).mp ⟨hrun.data hflag, hdata hflag⟩,
    fun hflag => (partNamed_eq_iff h).mp ⟨hrun.bss hflag, hbss hflag⟩,
    fun hflag => (partNamed_eq_iff h).mp ⟨hrun.text hflag, htext hflag⟩, ?_⟩
  · obtain ⟨i, hi, hfits⟩ := hrun.strtab
    refine ⟨i, hi, fun hflag => ?_⟩
    obtain ⟨j, hj, hwhole⟩ := (partNamed_eq_iff h).mp ⟨⟨i, hi, hfits hflag⟩, hstrtab hflag⟩
    rw [hi] at hj
    cases hj
    exact hwhole
  · intro hflag i j hi hj
    exact symbols_of_run h hi (hrun.symbols hflag i j hi hj) (recordsNamed_count hi (hsym hflag))
  · intro hflag
    obtain ⟨i, hi, hentries⟩ := hrun.dynamic hflag
    exact ⟨i, hi, dynamics_of_run h hi hentries (recordsNamed_count hi (hdyn hflag))⟩

private theorem recordsNamed_eq {name : String} {count count' : Nat → Nat}
    {record : Nat → Nat → Shown} (h : ∀ i, firstNamed src name = some i → count i = count' i) :
    recordsNamed src name count record = recordsNamed src name count' record := by
  unfold recordsNamed
  cases hi : firstNamed src name with
  | none => rfl
  | some i => rw [Option.elim_some, Option.elim_some, h i hi]

private theorem ite_eq {flag : Bool} {l l' : List Shown} (h : flag = true → l = l') :
    (if flag then l else []) = if flag then l' else [] := by
  split_ifs with hflag
  · exact h hflag
  · rfl

private theorem count_eq {size n : Nat} (h : size ≠ 0 → size < 2 ^ 31) :
    (if size < 2 ^ 31 then size / n else 0) = size / n := by
  split_ifs with hlt
  · rfl
  · have hzero : size = 0 := by
      by_contra hne
      exact hlt (h hne)
    rw [hzero, Nat.zero_div]

private theorem run_of_complete (h : FileInput src) {flags : Flags} (hall : Complete src flags) :
    RunsThrough src flags ∧ outcome src flags = listing src (wholePart src)
      (fun i => shdr src i Shdr.shSize / Sym.size) (fun i => shdr src i Shdr.shSize / Dyn.size)
      flags := by
  obtain ⟨j, hj, hstrtab⟩ := hall.strtab
  obtain ⟨i, hi⟩ := hall.symtab
  have hpart {name : String} (hname : PartPresent src name) := (partNamed_eq_iff h).mpr hname
  have hparts : flags.dumpStrtab = true → partNamed src (shownPart src) ".strtab" =
      partNamed src (wholePart src) ".strtab" := fun hflag => (hpart ⟨j, hj, hstrtab hflag⟩).2
  have hsymbols : flags.dumpSymtab = true → ∀ i, firstNamed src ".symtab" = some i →
      symCount src i = shdr src i Shdr.shSize / Sym.size := by
    intro hflag i hi
    exact count_eq fun hsize => (hall.symbols hflag i j hi hj hsize).1.2.1
  have hdynamics : flags.dumpDyn = true → ∀ i, firstNamed src ".dynamic" = some i →
      dynCount src i = shdr src i Shdr.shSize / Dyn.size := by
    intro hflag i hi
    obtain ⟨i', hi', hread⟩ := hall.dynamic hflag
    rw [hi] at hi'
    cases hi'
    exact count_eq fun hsize => (hread hsize).2.1
  constructor
  · refine ⟨hall.headers, hall.names, hall.lines, ⟨j, hj, fun hflag => (hstrtab hflag).2⟩,
      hall.symtab, ?_, fun hflag => (hpart (hall.rodata hflag)).1,
      fun hflag => (hpart (hall.data hflag)).1, fun hflag => (hpart (hall.bss hflag)).1,
      fun hflag => (hpart (hall.text hflag)).1, ?_⟩
    · intro hflag i j hi hj hcount
      rw [hsymbols hflag i hi] at hcount ⊢
      apply hall.symbols hflag i j hi hj
      intro hzero
      exact hcount (by rw [hzero, Nat.zero_div])
    · intro hflag
      obtain ⟨i, hi, hread⟩ := hall.dynamic hflag
      refine ⟨i, hi, fun hcount => hread fun hzero => hcount ?_⟩
      rw [hdynamics hflag i hi, hzero, Nat.zero_div]
  · rw [outcome, listing, listing, ite_eq hparts,
      ite_eq fun hflag => recordsNamed_eq (hsymbols hflag),
      ite_eq fun hflag => (hpart (hall.rodata hflag)).2,
      ite_eq fun hflag => (hpart (hall.data hflag)).2,
      ite_eq fun hflag => (hpart (hall.bss hflag)).2,
      ite_eq fun hflag => (hpart (hall.text hflag)).2,
      ite_eq fun hflag => recordsNamed_eq (hdynamics hflag)]

end

section

variable {host : Host} (hhost : host.Healthy) (h : FileInput host.file) {flags : Flags}
include hhost h

private theorem complete_of_survives (hsurvives : SurvivesAbsence host flags) :
    Complete host.file flags := by
  have hdump := wp_elfFileDump hhost h flags
  obtain ⟨s, hrun, hshown⟩ := hsurvives
  rw [wp_of_eq hrun] at hdump
  apply complete_of_run h hdump.1
  rw [← hdump.2, hshown]

private theorem survives_of_complete (hall : Complete host.file flags) :
    SurvivesAbsence host flags := by
  obtain ⟨hruns, heq⟩ := run_of_complete h hall
  obtain ⟨⟨⟩, s, hrun, -, hshown⟩ := returns_of_wp
    (wp_mono (wp_elfFileDump hhost h flags) (fun _ _ hs => hs) fun _ _ hstop => hstop hruns)
  exact ⟨s, hrun, hshown.trans heq⟩

end

/-- elf -s comes to its end with everything dumped that is there exactly when every section that
it looks up is there, switched on or not, and what it reads lies below 2 GiB. -/
theorem survivesAbsence_iff {host : Host} (hhost : host.Healthy) (h : FileInput host.file)
    (flags : Flags) : SurvivesAbsence host flags ↔ Complete host.file flags :=
  ⟨complete_of_survives hhost h, survives_of_complete hhost h⟩

/-! ## A file with and a file without -/

/-- A file with one section of each kind that is dumped. -/
def everySection : List UInt8 :=
  Ehdr.bytes 0 172 0 0 40 9 8 ++ ascii "\x00a\x00\x00" ++
    (Sym.bytes 0 0 0 0 ++ Sym.bytes 1 0 4 3) ++ List.replicate 12 144 ++ Dyn.bytes 0 0 ++
    ascii "\x00.strtab\x00.symtab\x00.text\x00.rodata\x00.data\x00.bss\x00.dynamic\x00.shstrtab\x00" ++
    List.replicate 3 0 ++ List.replicate 40 0 ++ Shdr.bytes 1 shtStrtab 52 4 0 ++
    Shdr.bytes 9 2 56 32 16 ++ Shdr.bytes 17 1 88 4 0 ++ Shdr.bytes 23 1 92 4 0 ++
    Shdr.bytes 31 1 96 4 0 ++ Shdr.bytes 37 shtNobits 100 16 0 ++ Shdr.bytes 42 6 100 8 8 ++
    Shdr.bytes 51 shtStrtab 108 61 0

/-- A file whose only section is the one of the section names. -/
def namesAlone : List UInt8 :=
  Ehdr.bytes 0 52 0 0 40 2 1 ++ List.replicate 40 0 ++ Shdr.bytes 1 shtStrtab 132 11 0 ++
    ascii "\x00.shstrtab\x00"

theorem everySection_input : FileInput everySection := by decide +kernel

theorem namesAlone_input : FileInput namesAlone := by decide +kernel

private theorem everySection_facts :
    (∀ i < ehdr everySection Ehdr.eShnum, shdrAt everySection i < 2 ^ 31) ∧
    Readable everySection (ehdr everySection Ehdr.eShstrndx) ∧
    (∀ i < ehdr everySection Ehdr.eShnum, NameFits everySection i) ∧
    (∀ i < 9, PartWhole everySection i) ∧ Readable everySection 7 ∧
    (Readable everySection 2 ∧ Readable everySection 1 ∧
      ∀ k < shdr everySection 2 Shdr.shSize / Sym.size, symLabel everySection 2 k < 2 ^ 31) ∧
    [".strtab", ".symtab", ".text", ".rodata", ".data", ".bss", ".dynamic"].map
      (firstNamed everySection) = [some 1, some 2, some 3, some 4, some 5, some 6, some 7] := by
  decide +kernel

private theorem everySection_complete : Complete everySection Flags.initial := by
  obtain ⟨hbelow, hnames, hlines, hwhole, hdynamics, hsymbols, hnamed⟩ := everySection_facts
  simp only [List.map_cons, List.cons.injEq] at hnamed
  obtain ⟨hstrtab, hsymtab, htext, hrodata, hdata, hbss, hdynamic, -⟩ := hnamed
  constructor
  · exact hbelow
  · exact hnames
  · exact fun _ => hlines
  · exact ⟨1, hstrtab, fun _ => hwhole 1 (by decide)⟩
  · exact ⟨2, hsymtab⟩
  · intro _ i j hi hj _
    obtain rfl : i = 2 := Option.some.inj (hi.symm.trans hsymtab)
    obtain rfl : j = 1 := Option.some.inj (hj.symm.trans hstrtab)
    exact hsymbols
  · exact fun _ => ⟨4, hrodata, hwhole 4 (by decide)⟩
  · exact fun _ => ⟨5, hdata, hwhole 5 (by decide)⟩
  · exact fun _ => ⟨6, hbss, hwhole 6 (by decide)⟩
  · exact fun _ => ⟨3, htext, hwhole 3 (by decide)⟩
  · exact fun _ => ⟨7, hdynamic, fun _ => hdynamics⟩

/-- All of it is dumped. -/
theorem survivesAbsence_everySection : SurvivesAbsence (Host.ideal everySection) Flags.initial :=
  (survivesAbsence_iff (Host.ideal_healthy everySection) everySection_input _).mpr
    everySection_complete

theorem everySection_runs : RunsThrough everySection Flags.initial :=
  (run_of_complete everySection_input everySection_complete).1

/-- A stripped file stops the tool, whatever it is asked to dump. -/
theorem namesAlone_stops : FileInput namesAlone ∧
    ¬∃ flags, SurvivesAbsence (Host.ideal namesAlone) flags := by
  refine ⟨namesAlone_input, ?_⟩
  rintro ⟨flags, hsurvives⟩
  obtain ⟨i, hi, -⟩ := (complete_of_survives (Host.ideal_healthy namesAlone) namesAlone_input
    hsurvives).strtab
  have hnone : firstNamed namesAlone ".strtab" = none := by decide +kernel
  cases hnone.symm.trans hi

end PerfTools.Elf
