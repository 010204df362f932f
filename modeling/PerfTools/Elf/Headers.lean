import PerfTools.Elf.Loading

/-!
# The headers of a liner dump

The liner dump starts with the file header and the program headers. Of a program header table
that lies in the file every record is dumped; record i is the structure that a pointer to the
first one reaches after i steps, under the offset that the declared entry size gives.
-/

namespace PerfTools.Elf

open Memory Printf Exec

/-- Where program header i starts. -/
def phdrAt (src : List UInt8) (i : Nat) : Nat := ehdr src Ehdr.ePhoff + ehdr src Ehdr.ePhentsize * i

/-- The program headers are in the file, at offsets that an int holds. -/
structure ProgramTable (src : List UInt8) : Prop where
  entsize : ehdr src Ehdr.ePhnum = 0 ∨ Phdr.size ≤ ehdr src Ehdr.ePhentsize
  size : ehdr src Ehdr.ePhentsize * ehdr src Ehdr.ePhnum < 2 ^ 31
  inside : ehdr src Ehdr.ePhoff + ehdr src Ehdr.ePhentsize * ehdr src Ehdr.ePhnum ≤ src.length
  offset : ehdr src Ehdr.ePhoff < 2 ^ 31
  range : ∀ i < ehdr src Ehdr.ePhnum, phdrAt src i < 2 ^ 31

/-- The table as it is read. -/
def programTable (src : List UInt8) : Ptr :=
  chunk src (ehdr src Ehdr.ePhoff) (ehdr src Ehdr.ePhentsize * ehdr src Ehdr.ePhnum)

/-- The dump of program header i. -/
def IsProgramDump (src : List UInt8) (i : Nat) (e : Event) : Prop :=
  ∃ t, e = .dump (some (.programHeaders, i)) (UInt32.ofNat (phdrAt src i))
    (UInt32.ofNat (ehdr src Ehdr.ePhentsize)) (some ((programTable src).add (i * Phdr.size))) t

theorem Loaded.withScreen {host : Host} {v : ElfVars} (h : Loaded host v) {screen : Screen}
    (hscreen : Restartable screen) : Loaded host { v with screen } :=
  ⟨h.header, h.sectionNum, h.heads, hscreen, h.names⟩

section

variable {host : Host} {s : Proc ElfVars} {E : Stop → Proc ElfVars → Prop}

private theorem etypeText_fits (n : Nat) :
    isEmptyFormat (lit (etypeText n)) = false ∧ Format.room (lit (etypeText n)) ≤ 32 := by
  unfold etypeText
  split <;> decide

private theorem machineText_fits (n : Nat) :
    isEmptyFormat (lit (machineText n)) = false ∧ Format.room (lit (machineText n)) ≤ 32 := by
  unfold machineText
  split_ifs <;> decide

theorem wp_elfHeaderDump {Q : Unit → Proc ElfVars → Prop}
    (h : Ehdr.size ≤ host.file.length)
    (hheader : s.vars.elfHeader = some (chunk host.file 0 Ehdr.size))
    (hscreen : Restartable s.vars.screen)
    (hQ : ∀ screen t, Restartable screen → Q () ((s.withScreen screen).log
      [.dump none 0 (UInt32.ofNat Ehdr.size) (some (chunk host.file 0 Ehdr.size)) t])) :
    wp elfHeaderDump Q E s := by
  have hm : ∀ {f : Field}, f.off + f.width ≤ Ehdr.size →
      member (some (chunk host.file 0 Ehdr.size)) f = .ok (ehdr host.file f) := fun hf =>
    member_header h hf
  rw [elfHeaderDump]
  simp only [wp_bind, wp_binBufferReset, wp_vars]
  have hv : (s.withScreen s.vars.screen.binBufferReset).vars.elfHeader =
      some (chunk host.file 0 Ehdr.size) := hheader
  simp only [hv, hm (f := Ehdr.eType) (by decide), hm (f := Ehdr.eMachine) (by decide), wp_lift_ok]
  refine wp_message (k := 0) hscreen.reset (by decide) (etypeText_fits _).1 (etypeText_fits _).2
    fun _ h1 => ?_
  refine wp_message (k := 1) h1 (by decide) (machineText_fits _).1 (machineText_fits _).2
    fun _ h2 => ?_
  refine wp_printMember (k := 2) h2 (by decide) (hm (by decide)) rfl (by decide) fun _ h3 => ?_
  refine wp_message (k := 3) h3 (by decide) (by decide) (by decide) fun _ h4 => ?_
  refine wp_printMember (k := 4) h4 (by decide) (hm (by decide)) rfl (by decide) fun _ h5 => ?_
  refine wp_printMember (k := 5) h5 (by decide) (hm (by decide)) rfl (by decide) fun _ h6 => ?_
  refine wp_printMember (k := 6) h6 (by decide) (hm (by decide)) rfl (by decide) fun _ h7 => ?_
  refine wp_message (k := 7) h7 (by decide) (by decide) (by decide) fun _ h8 => ?_
  refine wp_printMember (k := 8) h8 (by decide) (hm (by decide)) rfl (by decide) fun _ h9 => ?_
  refine wp_printMember (k := 9) h9 (by decide) (hm (by decide)) rfl (by decide) fun _ h10 => ?_
  refine wp_printMember (k := 10) h10 (by decide) (hm (by decide)) rfl (by decide) fun _ h11 => ?_
  refine wp_printMember (k := 11) h11 (by decide) (hm (by decide)) rfl (by decide) fun _ h12 => ?_
  have hsize : (UInt32.ofNat Ehdr.size).toNat = Ehdr.size := by decide
  have hread : Ehdr.size ≤ (chunk host.file 0 Ehdr.size).tail.length := (chunk_views (by simpa)).1
  simp only [Proc.withScreen_withScreen]
  exact wp_dumpWithBuffer_restartable (by decide) (hsize ▸ hread) (by decide) h12.restartable
    fun screen t hs => hQ screen t hs

theorem wp_dumpHeader {Q : Unit → Proc ElfVars → Prop} {flags : Flags}
    (hheader : Ehdr.size ≤ host.file.length) (hs : Loaded host s.vars)
    (hQ : ∀ es s', s'.trace = s.trace ++ es → Loaded host s'.vars →
      (dumps es).length = (if flags.dumpHeader then 1 else 0) → Q () s') :
    wp (runIf flags.dumpHeader elfHeaderDump) Q E s := by
  rw [wp_runIf]
  refine ⟨fun hflag => ?_, fun hflag => hQ [] s (by simp) hs (by simp [hflag, dumps])⟩
  refine wp_elfHeaderDump hheader hs.header hs.screen fun screen t hscreen => ?_
  exact hQ _ _ rfl (hs.withScreen hscreen) (by simp [hflag])

private theorem wp_dumpProgramHeader {Q : Unit → Proc ElfVars → Prop} {pOffset pSize i : Nat}
    {p : Ptr} (hsize : Phdr.size ≤ pSize) (hlt : pSize < 2 ^ 16) (hp : pSize ≤ p.tail.length)
    (hat : pOffset + pSize * i < 2 ^ 31) (hscreen : Restartable s.vars.screen)
    (hQ : ∀ screen t, Restartable screen → Q () ((s.withScreen screen).log
      [.dump (some (.programHeaders, i)) (UInt32.ofNat (pOffset + pSize * i)) (UInt32.ofNat pSize)
        (some p) t])) :
    wp (dumpProgramHeader pOffset pSize i p) Q E s := by
  have hget : ∀ {f : Field}, f.off + f.width ≤ Phdr.size → p.get f = .ok (fieldAt p.tail 0 f) :=
    fun hf => if_pos (hf.trans (hsize.trans hp))
  have hdistance : checked ((pSize : Int) * i) = .ok ((pSize * i : Nat) : Int) := by
    rw [← Nat.cast_mul]
    exact checked_natCast (by omega)
  have hoffset : checked ((pOffset : Int) + ((pSize * i : Nat) : Int)) =
      .ok ((pOffset + pSize * i : Nat) : Int) := by
    rw [← Nat.cast_add]
    exact checked_natCast hat
  rw [dumpProgramHeader]
  simp only [wp_bind, wp_binBufferReset, hget (f := Phdr.pType) (by decide), wp_lift_ok]
  have htype := phType_plain (fieldAt p.tail 0 Phdr.pType)
  refine wp_message (k := 0) hscreen.reset (by decide) rfl ?_ fun _ h1 => ?_
  · rw [Format.room_append, Format.room_lit, Format.room, List.map_singleton, List.sum_singleton,
      Directive.room, cstringOf_chars htype.1]
    have hlf : (ascii "\n").length = 1 := rfl
    omega
  refine wp_printMember (k := 1) h1 (by decide) (hget (by decide)) rfl (by decide) fun _ h2 => ?_
  refine wp_printMember (k := 2) h2 (by decide) (hget (by decide)) rfl (by decide) fun _ h3 => ?_
  simp only [hdistance, hoffset, wp_lift_ok, Proc.withScreen_withScreen]
  have hnat : (UInt32.ofNat pSize).toNat = pSize := by
    rw [UInt32.toNat_ofNat']
    exact Nat.mod_eq_of_lt (by omega)
  have hgap := Nat.mod_lt (UInt32.ofNat (pOffset + pSize * i)).toNat (show 0 < 16 by decide)
  rw [Phdr.size] at hsize
  rw [toUnsigned_natCast (by omega), toUnsigned_natCast (by omega)]
  exact wp_dumpWithBuffer_restartable (by omega) (by omega) (by omega) h3.restartable hQ

theorem ProgramTable.entry_length {src : List UInt8} (h : ProgramTable src)
    (hsize : Phdr.size ≤ ehdr src Ehdr.ePhentsize) {i : Nat} (hi : i < ehdr src Ehdr.ePhnum) :
    ehdr src Ehdr.ePhentsize ≤ ((programTable src).add (i * Phdr.size)).tail.length := by
  have hinside := h.inside
  have hlast : ehdr src Ehdr.ePhentsize * (i + 1) ≤ ehdr src Ehdr.ePhentsize * ehdr src Ehdr.ePhnum :=
    Nat.mul_le_mul_left _ hi
  have hstep : i * Phdr.size ≤ ehdr src Ehdr.ePhentsize * i := by
    rw [Nat.mul_comm]
    exact Nat.mul_le_mul_right i hsize
  rw [Nat.mul_succ] at hlast
  simp [programTable]
  omega

theorem wp_dumpProgramHeaders {Q : Unit → Proc ElfVars → Prop} {flags : Flags}
    (hmalloc : ∀ target n, host.malloc target n = true) (hheader : Ehdr.size ≤ host.file.length)
    (h : ProgramTable host.file) (hs : Loaded host s.vars)
    (hQ : ∀ es s', s'.trace = s.trace ++ es → Loaded host s'.vars → (dumps es).length =
        (if flags.dumpPheader then ehdr host.file Ehdr.ePhnum else 0) →
      (flags.dumpPheader = true → ∀ i < ehdr host.file Ehdr.ePhnum,
        ∃ e ∈ es, IsProgramDump host.file i e) → Q () s') :
    wp (dumpProgramHeaders host flags) Q E s := by
  have hm : ∀ {f : Field}, f.off + f.width ≤ Ehdr.size →
      member s.vars.elfHeader f = .ok (ehdr host.file f) := fun hf => by
    rw [hs.header]
    exact member_header hheader hf
  rw [dumpProgramHeaders]
  simp only [wp_bind, wp_vars, hm (f := Ehdr.ePhoff) (by decide),
    hm (f := Ehdr.ePhentsize) (by decide), hm (f := Ehdr.ePhnum) (by decide), wp_lift_ok,
    ← Nat.cast_mul, checked_natCast h.size, toInt_of_lt h.offset]
  rw [wp_elfFileRead_inside (hmalloc _ _) h.size (Or.inr h.inside), wp_setVars, wp_runIf]
  have hloaded : Loaded host { s.vars with elfPhBuf := some (programTable host.file) } :=
    ⟨hs.header, hs.sectionNum, hs.heads, hs.screen, hs.names⟩
  refine ⟨fun hflag => ?_, fun hflag => hQ [.read .programTable true] _ rfl hloaded
    (by simp [hflag, dumps]) fun hset => absurd hset hflag⟩
  rw [elfPhDump2]
  simp only [wp_bind, hm (f := Ehdr.ePhoff) (by decide),
    hm (f := Ehdr.ePhentsize) (by decide), hm (f := Ehdr.ePhnum) (by decide), wp_lift_ok,
    toInt_of_lt h.offset, deref_some]
  refine wp_mono (wp_loop _ (i := 0) (fun n t => Loaded host t.vars ∧ ∃ es, t.trace = s.trace ++ es ∧
    (dumps es).length = n ∧ ∀ i < n, ∃ e ∈ es, IsProgramDump host.file i e) ?_
    ⟨hloaded, [.read .programTable true], rfl, rfl, by simp⟩) ?_ fun _ _ he => he
  · rintro i t - hi ⟨hl, es, htrace, hlen, hall⟩
    have hsize := h.entsize.resolve_left (by omega)
    rw [wp_bind, ← programTable, wp_lift_ok]
    refine wp_dumpProgramHeader hsize (ehdr_lt _ rfl) (h.entry_length hsize (by omega))
      (h.range i (by omega)) hl.screen fun screen u hscreen => ?_
    refine ⟨hl.withScreen hscreen, es ++ [.dump (some (.programHeaders, i))
      (UInt32.ofNat (phdrAt host.file i)) (UInt32.ofNat (ehdr host.file Ehdr.ePhentsize))
      (some ((programTable host.file).add (i * Phdr.size))) u], ?_, ?_, fun k hk => ?_⟩
    · rw [← List.append_assoc, ← htrace]
      rfl
    · rw [dumps_append, List.length_append, hlen, dumps_dump, List.length_singleton]
    · by_cases hki : k < i
      · obtain ⟨e, he, hdump⟩ := hall k hki
        exact ⟨e, List.mem_append_left _ he, hdump⟩
      · have hki : k = i := by omega
        exact ⟨_, List.mem_append_right _ List.mem_cons_self, u, by rw [hki]⟩
  · rintro - t ⟨hl, es, htrace, hlen, hall⟩
    rw [Nat.zero_add] at hlen hall
    exact hQ es t htrace hl (by simp [hflag, hlen]) fun _ => hall

end

end PerfTools.Elf
