import PerfTools.Elf.FailureStops
import PerfTools.Elfdig.Library

/-!
# The reads of elf_init that must not fail

elf_section_head_read uses what it reads without a look at it and never asks for the type of the
section with the names; elf_init returns an object whatever has happened there. It stops at a
failure exactly when there is none. Together with the two dumps of elf.c this says for which files
no failed read is followed by anything but an error.
-/

namespace PerfTools.Elfdig

open Elf Memory Printf Exec

/-- elf_init stops at a failure. -/
def InitStops (host : Host) : Prop :=
  StopsAtFailure ((elfInit host ElfObj.start).1 = .ok false) (elfInit host ElfObj.start).2.trace

section

variable (src : List UInt8)

/-- The size of the section header table. -/
def tableSize : Nat := ehdr src Ehdr.eShentsize * ehdr src Ehdr.eShnum

/-- Where it is read. -/
def tableAt : Nat := seekTo Ehdr.size (toInt (ehdr src Ehdr.eShoff))

/-- The header that e_shstrndx chooses. -/
def nameEntry : Ptr :=
  (chunk src (tableAt src) (tableSize src)).add (ehdr src Ehdr.eShstrndx * Shdr.size)

/-- A member of it. -/
def nameMember (f : Field) : Nat := fieldAt src (nameEntry src).position f

end

/-- Whatever elf_section_head_read reads is there, and the names are in a section of their type. -/
structure ObjectServed (host : Host) : Prop where
  header : Served host .header Ehdr.size 0 0 Ehdr.size
  table : tableSize host.file < 2 ^ 31 → Served host .sectionTable (tableSize host.file) Ehdr.size
    (toInt (ehdr host.file Ehdr.eShoff)) (tableSize host.file)
  type : tableSize host.file < 2 ^ 31 →
    ehdr host.file Ehdr.eShstrndx * Shdr.size + (Shdr.shSize.off + Shdr.shSize.width) ≤
      tableSize host.file → nameMember host.file Shdr.shType = shtStrtab
  names : tableSize host.file < 2 ^ 31 →
    ehdr host.file Ehdr.eShstrndx * Shdr.size + (Shdr.shSize.off + Shdr.shSize.width) ≤
      tableSize host.file → Served host (.nameTable (nameEntry host.file))
        (toInt (nameMember host.file Shdr.shSize) % 2 ^ 64).toNat
        (tableAt host.file + tableSize host.file) (toInt (nameMember host.file Shdr.shOffset))
        (toInt (nameMember host.file Shdr.shSize))

/-! ## elf_section_head_read -/

section

variable {host : Host} {s : Proc ElfObj} {α : Type} {Q : α → Proc ElfObj → Prop}

private theorem wp_elfFileRead_iff {target : Target} {offset size : Int}
    {next : Option Ptr → DigRun α} (hQ : ∀ a s, Q a s → Clean s)
    (hfails : ¬ Event.Safe (.read target false)) (hnone : Keeps (fun s => ¬ Clean s) (next none)) :
    wp (elfFileRead host target offset size >>= next) Q (fun _ => Clean) s ↔
      Served host target (size % 2 ^ 64).toNat s.pos offset size ∧
        wp (next (some ⟨host.memory target (size % 2 ^ 64).toNat
          (host.filled s.pos offset size), 0⟩)) Q (fun _ => Clean)
          ⟨seekTo s.pos offset + size.toNat, s.trace ++ [.read target true], s.vars⟩ :=
  wp_fileRead_iff (fun _ => rfl) hQ hfails hnone

private theorem wp_elfFileRead_chunk_iff {target : Target} {offset size : Int} {n : Nat}
    (hsize : size = n) (hn : n < 2 ^ 64) {next : Option Ptr → DigRun α}
    (hQ : ∀ a s, Q a s → Clean s) (hfails : ¬ Event.Safe (.read target false))
    (hnone : Keeps (fun s => ¬ Clean s) (next none)) :
    wp (elfFileRead host target offset size >>= next) Q (fun _ => Clean) s ↔
      Served host target n s.pos offset n ∧
        wp (next (some (chunk host.file (seekTo s.pos offset) n))) Q (fun _ => Clean)
          ⟨seekTo s.pos offset + n, s.trace ++ [.read target true], s.vars⟩ := by
  have hrequest : ((n : Int) % 2 ^ 64).toNat = n := by omega
  rw [hsize, wp_elfFileRead_iff hQ hfails hnone, hrequest]
  apply and_congr_right
  intro hserved
  rw [hserved.memory_eq, Int.toNat_natCast]

end

section

variable {host : Host} {s : Proc ElfObj} {Q : Unit → Proc ElfObj → Prop}

/-- The chosen header is in the table. -/
private def NamesAsked (src : List UInt8) : Prop :=
  ehdr src Ehdr.eShstrndx * Shdr.size + (Shdr.shSize.off + Shdr.shSize.width) ≤ tableSize src

private def NamesServed (host : Host) : Prop :=
  NamesAsked host.file → nameMember host.file Shdr.shType = shtStrtab ∧
    Served host (.nameTable (nameEntry host.file))
      (toInt (nameMember host.file Shdr.shSize) % 2 ^ 64).toNat
      (tableAt host.file + tableSize host.file) (toInt (nameMember host.file Shdr.shOffset))
      (toInt (nameMember host.file Shdr.shSize))

private theorem wp_names_iff (hQ : ∀ a s, Q a s ↔ Clean s) (hs : Clean s)
    (hpos : s.pos = tableAt host.file + tableSize host.file)
    (hholds : Holds host.file (nameEntry host.file)
      (tableSize host.file - ehdr host.file Ehdr.eShstrndx * Shdr.size)) :
    wp (do
      let shOffset ← lift ((nameEntry host.file).get Shdr.shOffset)
      let shSize ← lift ((nameEntry host.file).get Shdr.shSize)
      let elfShstrtab ← elfFileRead host (.nameTable (nameEntry host.file)) (toInt shOffset)
        (toInt shSize)
      setVars fun obj =>
        { obj with shstrtab := some elfShstrtab, shstrtabLen := some (toInt shSize) }) Q
      (fun _ => Clean) s ↔ NamesServed host := by
  have hoffsetEnd : Shdr.shOffset.off + Shdr.shOffset.width = 20 := rfl
  have hsizeEnd : Shdr.shSize.off + Shdr.shSize.width = 24 := rfl
  rw [wp_get_iff hs hholds, wp_get_iff hs hholds, NamesServed]
  by_cases hasked : NamesAsked host.file
  · have hin := hasked
    unfold NamesAsked at hin
    have hsafe : Event.Safe (.read (.nameTable (nameEntry host.file)) true) ↔
        nameMember host.file Shdr.shType = shtStrtab := by
      have hget := hholds.get_iff (f := Shdr.shType) (i := shtStrtab)
      have htypeEnd : Shdr.shType.off + Shdr.shType.width = 8 := rfl
      rw [Event.Safe, and_iff_right rfl, hget, and_iff_right (by omega)]
      exact eq_comm
    rw [forall_prop_of_true (by omega), forall_prop_of_true (by omega),
      forall_prop_of_true hasked, wp_elfFileRead_iff (fun a s => (hQ a s).mp) (by simp [Event.Safe])
        (keeps_unclean_setVars _), hpos, wp_setVars, hQ, clean_append, and_iff_right hs,
      List.forall_mem_singleton, hsafe]
    exact and_comm
  · apply iff_of_true
    · intro _ hin
      unfold NamesAsked at hasked
      omega
    · intro h
      exact absurd h hasked

private theorem wp_elfSectionHeadRead_iff (hQ : ∀ a s, Q a s ↔ Clean s) :
    wp (elfSectionHeadRead host) Q (fun _ => Clean) ElfObj.start ↔ ObjectServed host := by
  have hclean (a : Unit) (s : Proc ElfObj) : Q a s → Clean s := (hQ a s).mp
  have hsrv : ObjectServed host ↔ Served host .header Ehdr.size 0 0 Ehdr.size ∧
      (tableSize host.file < 2 ^ 31 → Served host .sectionTable (tableSize host.file) Ehdr.size
        (toInt (ehdr host.file Ehdr.eShoff)) (tableSize host.file) ∧ NamesServed host) := by
    constructor
    · intro h
      exact ⟨h.header, fun hsize => ⟨h.table hsize, fun hasked => ⟨h.type hsize hasked,
        h.names hsize hasked⟩⟩⟩
    · intro h
      exact ⟨h.1, fun hsize => (h.2 hsize).1, fun hsize hasked => ((h.2 hsize).2 hasked).1,
        fun hsize hasked => ((h.2 hsize).2 hasked).2⟩
  rw [hsrv, elfSectionHeadRead,
    wp_elfFileRead_chunk_iff rfl (by decide) hclean (by simp [Event.Safe])]
  · apply and_congr_right
    intro hheader
    have hfile : Ehdr.size ≤ host.file.length := by
      have hinside := hheader.inside
      rw [Int.toNat_natCast] at hinside
      exact hinside.trans (Nat.sub_le _ _)
    have hm {f : Field} (hf : f.off + f.width ≤ Ehdr.size) := member_header hfile hf
    have hseek : seekTo ElfObj.start.pos 0 = 0 := rfl
    have hstart : Clean (⟨0 + Ehdr.size, ElfObj.start.trace ++ [.read .header true],
      ElfObj.start.vars⟩ : Proc ElfObj) := by simp [Clean, Event.Safe, ElfObj.start]
    rw [hseek, hm (by decide), lift_ok_bind, hm (by decide), lift_ok_bind, hm (by decide),
      lift_ok_bind, wp_checked_iff hstart]
    have hcast : (ehdr host.file Ehdr.eShentsize : Int) * ehdr host.file Ehdr.eShnum =
        tableSize host.file := (Nat.cast_mul _ _).symm
    by_cases hsize : tableSize host.file < 2 ^ 31
    · rw [forall_prop_of_true (by omega), forall_prop_of_true hsize,
        wp_elfFileRead_chunk_iff hcast (by omega) hclean (by simp [Event.Safe])]
      · apply and_congr_right
        intro hserved
        rw [wp_bind, wp_setVars, hm (by decide), lift_ok_bind, deref_some, lift_ok_bind]
        apply wp_names_iff hQ _ rfl (hserved.holds.add _)
        exact clean_append.mpr ⟨hstart, by simp [Event.Safe]⟩
      · apply Keeps.bind (keeps_unclean_setVars _)
        intro _
        apply Yields.lift_bind
        intro shstrndx _
        apply Yields.lift_bind
        intro table htable
        cases htable
    · exact iff_of_true (fun h => absurd (by omega) hsize) fun h => absurd h hsize
  · apply Yields.lift_bind
    intro shoff hshoff
    cases hshoff

end

/-! ## The loaders -/

/-- A condition that the object and the reads of contents have no part in. -/
private structure Loads (I : Proc ElfObj → Prop) : Prop where
  vars : ∀ s obj, I s → I ⟨s.pos, s.trace, obj⟩
  events : ∀ s pos es, (∀ e ∈ es, Event.Plain e) → I s → I ⟨pos, s.trace ++ es, s.vars⟩

namespace Loads

variable {I : Proc ElfObj → Prop} (hI : Loads I) {host : Host}

private theorem field {α : Type} (f : ElfObj → Option α) : Keeps I (field f) := by
  intro s hs
  rw [Elfdig.field, wp_bind, wp_vars, wp_lift]
  exact ⟨fun _ _ => ⟨trivial, hs⟩, fun _ _ => hs⟩

private theorem lift {α : Type} (x : Except Fault α) : Keeps I (lift x) := by
  intro s hs
  rw [wp_lift]
  exact ⟨fun _ _ => ⟨trivial, hs⟩, fun _ _ => hs⟩

private theorem elfSectionHead (name : String) : Keeps I (elfSectionHead name) := by
  apply Keeps.bind (field _)
  intro sectionNum
  apply Keeps.bind (field _)
  intro sections
  exact Keeps.bind (field _) fun _ => lift _

include hI

private theorem setVars (g : ElfObj → ElfObj) : Keeps I (setVars g) :=
  fun s hs => ⟨trivial, hI.vars s (g s.vars) hs⟩

private theorem perr (function message : String) : Keeps I (perr function message) :=
  fun s hs => ⟨trivial, hI.events s s.pos [.perr function message] (by simp [Event.Plain]) hs⟩

private theorem elfSectionOf (head : Option Ptr) : Keeps I (elfSectionOf host head) := by
  apply Yields.lift_bind
  intro p _
  apply Yields.lift_bind
  intro offset _
  apply Yields.lift_bind
  intro len _ s hs
  rw [Elfdig.elfFileRead, wp_of_eq (fileRead_apply host _ _ (fun _ => rfl) _ s)]
  exact ⟨trivial, hI.events s _ _ Host.transfer_plain hs⟩

private theorem elfSection (name : String) : Keeps I (elfSection host name) :=
  Keeps.bind (elfSectionHead name) fun _ => hI.elfSectionOf _

private theorem elfSymRead : Keeps I (elfSymRead host) := by
  apply Keeps.bind (hI.elfSection _)
  intro strtab
  cases strtab with
  | none => exact Keeps.bind (hI.perr _ _) fun _ => Yields.pure trivial
  | some strtab =>
    apply Keeps.bind (hI.setVars _)
    intro _
    apply Keeps.bind (elfSectionHead _)
    intro symHead
    cases symHead with
    | none => exact Keeps.bind (hI.perr _ _) fun _ => Yields.pure trivial
    | some symHead =>
      apply Yields.lift_bind
      intro shSize _
      apply Keeps.bind (hI.setVars _)
      intro _
      apply Keeps.bind (hI.elfSectionOf _)
      intro sym
      exact Keeps.bind (hI.setVars _) fun _ => Yields.pure trivial

private theorem elfDynsymRead : Keeps I (elfDynsymRead host) := by
  apply Keeps.bind (hI.elfSection _)
  intro dynstr
  cases dynstr with
  | none =>
    apply Keeps.bind (hI.perr _ _)
    intro _
    exact Keeps.bind (hI.setVars _) fun _ => Yields.pure trivial
  | some dynstr =>
    apply Keeps.bind (hI.setVars _)
    intro _
    apply Keeps.bind (elfSectionHead _)
    intro dynsymHead
    cases dynsymHead with
    | none =>
      apply Keeps.bind (hI.perr _ _)
      intro _
      exact Keeps.bind (hI.setVars _) fun _ => Yields.pure trivial
    | some dynsymHead =>
      apply Yields.lift_bind
      intro shSize _
      apply Keeps.bind (hI.setVars _)
      intro _
      apply Keeps.bind (hI.elfSectionOf _)
      intro dynsym
      exact Keeps.bind (hI.setVars _) fun _ => Yields.pure trivial

private theorem elfDynRead : Keeps I (elfDynRead host) := by
  apply Keeps.bind (elfSectionHead _)
  intro sh
  cases sh with
  | none => exact Keeps.bind (hI.perr _ _) fun _ => Yields.pure trivial
  | some sh =>
    apply Yields.lift_bind
    intro entsize _
    split_ifs
    · exact Yields.pure trivial
    · apply Yields.lift_bind
      intro size _
      apply Yields.lift_bind
      intro num _
      apply Keeps.bind (hI.elfSectionOf _)
      intro dyn
      exact Keeps.bind (hI.setVars _) fun _ => Yields.pure trivial

end Loads

private theorem loads_clean : Loads Clean where
  vars _ _ hs := hs
  events _ _ _ hes hs := clean_append.mpr ⟨hs, fun e he => (hes e he).later.safe⟩

private theorem loads_unclean : Loads (fun s => ¬ Clean s) where
  vars _ _ hs := hs
  events _ _ _ _ hs := mt (fun h => (clean_append.mp h).1) hs

/-! ## elf_init -/

section

variable {host : Host}

/-- elf_init behind its own checks. -/
private def loadObject (host : Host) : DigRun Bool := do
  elfSectionHeadRead host
  let _ ← elfSymRead host
  let _ ← elfDynsymRead host
  let _ ← elfDynRead host
  return true

private theorem clean_loadObject_iff :
    Clean (loadObject host ElfObj.start).2 ↔ ObjectServed host := by
  have hrest {I : Proc ElfObj → Prop} (hI : Loads I) : Keeps I (do
      let _ ← elfSymRead host
      let _ ← elfDynsymRead host
      let _ ← elfDynRead host
      return true : DigRun Bool) :=
    Keeps.bind hI.elfSymRead fun _ => Keeps.bind hI.elfDynsymRead fun _ =>
      Keeps.bind hI.elfDynRead fun _ => Yields.pure trivial
  rw [← wp_last (I := Clean) (m := loadObject host), loadObject, wp_bind]
  apply wp_elfSectionHeadRead_iff
  intro _ s
  constructor
  · exact holds_of_wp (hrest loads_unclean) fun _ _ h => h
  · intro hs
    exact wp_last.mpr (last_of_keeps (hrest loads_clean) hs)

private theorem loadObject_ne : (loadObject host ElfObj.start).1 ≠ .ok false := by
  have hfound : Yields (fun _ => True) (· = true) (loadObject host) :=
    (Keeps.any _).bind fun _ => (Keeps.any _).bind fun _ => (Keeps.any _).bind fun _ =>
      (Keeps.any _).bind fun _ => Yields.pure rfl
  intro h
  have htrue := (value_of_wp (hfound ElfObj.start trivial) h).1
  exact Bool.false_ne_true htrue

private theorem initStops_of_refused (h : elfInit host ElfObj.start = (.ok false, ElfObj.start)) :
    InitStops host := by
  unfold InitStops
  rw [h]
  apply stopsAtFailure_of_safe
  intro e he
  exact absurd he List.not_mem_nil

theorem initStops_iff : InitStops host ↔ (host.canOpen = true → host.file.length ≠ 0 →
    host.malloc .object ElfObj.size = true → ObjectServed host) := by
  by_cases hopen : host.canOpen = false
  · refine iff_of_true (initStops_of_refused ?_) fun h => absurd h (by simp [hopen])
    rw [elfInit, if_pos hopen]
    rfl
  by_cases hfile : host.file.length = 0
  · refine iff_of_true (initStops_of_refused ?_) fun _ h => absurd hfile h
    rw [elfInit, if_neg hopen, if_pos hfile]
    rfl
  by_cases hmalloc : host.malloc .object ElfObj.size = false
  · refine iff_of_true (initStops_of_refused ?_) fun _ _ h => absurd h (by simp [hmalloc])
    rw [elfInit, if_neg hopen, if_neg hfile, if_pos hmalloc]
    rfl
  have hload : elfInit host = loadObject host := by
    rw [elfInit, if_neg hopen, if_neg hfile, if_neg hmalloc]
    rfl
  rw [forall_prop_of_true (by simpa using hopen), forall_prop_of_true hfile,
    forall_prop_of_true (by simpa using hmalloc), ← clean_loadObject_iff, InitStops, hload]
  constructor
  · intro h
    apply h.safe
    intro _ _ _ _ _ hrefused
    exact absurd hrefused loadObject_ne
  · exact stopsAtFailure_of_safe

end

/-- No failed step is followed by anything but an error. -/
structure FailuresStop (host : Host) (flags : Flags) : Prop where
  liner : LinerStops host flags
  file : FileStops host flags
  init : InitStops host

/-- The tools stop at every failed read and check exactly for files in which none of them fails. -/
theorem failures_stop_iff (host : Host) (flags : Flags) : FailuresStop host flags ↔
    (host.canOpen = true → LinerServed host ∧
      (host.malloc .object ElfObj.size = true → ObjectServed host)) := by
  have hinit : InitStops host ↔ (host.canOpen = true → host.file.length ≠ 0 →
      host.malloc .object ElfObj.size = true → ObjectServed host) := initStops_iff
  constructor
  · intro h hopen
    have hserved := (linerStops_iff hopen).mp h.liner
    have hinside := hserved.init.header.inside
    refine ⟨hserved, hinit.mp h.init hopen ?_⟩
    rw [Int.toNat_natCast, Ehdr.size] at hinside
    omega
  · intro h
    by_cases hopen : host.canOpen = true
    · exact ⟨(linerStops_iff hopen).mpr (h hopen).1, (fileStops_iff hopen).mpr (h hopen).1.init,
        hinit.mpr fun _ _ => (h hopen).2⟩
    · have hclosed : host.canOpen = false := by simpa using hopen
      exact ⟨stopsAtFailure_of_closed hclosed _ _, stopsAtFailure_of_closed hclosed _ _,
        hinit.mpr fun hopen' => absurd hopen' hopen⟩

/-- Without a whole file header both tools go on through the null pointer. -/
theorem short_header_goes_on :
    (elfLinerDump (Host.ideal []) Flags.initial ElfVars.start).1 = .error (.fault .nullDeref) ∧
      (elfFileDump (Host.ideal []) Flags.initial ElfVars.start).1 = .error (.fault .nullDeref) ∧
      (elfInit (Host.ideal [127]) ElfObj.start).1 = .error (.fault .nullDeref) ∧
      ¬ FailuresStop (Host.ideal []) Flags.initial ∧ ¬ InitStops (Host.ideal [127]) := by
  refine ⟨rfl, rfl, rfl, fun h => ?_, fun h => ?_⟩
  · have hinside := ((linerStops_iff rfl).mp h.liner).init.header.inside
    exact absurd hinside (by decide)
  · have hinside := (initStops_iff.mp h rfl (by decide) rfl).header.inside
    exact absurd hinside (by decide)

end PerfTools.Elfdig
