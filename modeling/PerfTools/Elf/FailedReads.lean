import PerfTools.Elf.FailedSteps
import PerfTools.Elf.Headers
import PerfTools.Elf.Slots

/-!
# The reads of elf.c that must not fail

elf_init_read looks at no result of elf_file_read, and reports section names of another type
before it reads them all the same. Both dumps therefore stop at a failure exactly when there is
none: the file has everything that is read of it, up to the first int that overflows, the first
member behind a short header, or the section header behind the hundredth.

A seek to -1 fails and passes for success. The read then goes on from where the last one ended,
which is why the positions depend on each other.
-/

namespace PerfTools.Elf

open Memory Printf Exec

section

variable (src : List UInt8)

/-- The offset at which section header i is read. -/
def headOffset (i : Nat) : Int := toInt (ehdr src Ehdr.eShoff) + i * ehdr src Ehdr.eShentsize

/-- Where the header of the section names is read. -/
def nameHeaderAt : Nat := seekTo Ehdr.size (headOffset src (ehdr src Ehdr.eShstrndx))

/-- A member of this header. -/
def nameHeader (f : Field) : Nat := fieldAt src (nameHeaderAt src) f

/-- The file position in front of the read of section header i. -/
def headPos : Nat → Nat
  | 0 => seekTo (nameHeaderAt src + ehdr src Ehdr.eShentsize)
      (toInt (nameHeader src Shdr.shOffset)) + (toInt (nameHeader src Shdr.shSize)).toNat
  | i + 1 => seekTo (headPos i) (headOffset src i) + ehdr src Ehdr.eShentsize

/-- The offset of the header of the section names is computed without an overflow. -/
def NameHeaderAsked : Prop :=
  ehdr src Ehdr.eShstrndx * ehdr src Ehdr.eShentsize < 2 ^ 31 ∧
    headOffset src (ehdr src Ehdr.eShstrndx) < 2 ^ 31

/-- A section header that is read when all those in front of it are there. -/
def HeadAsked (i : Nat) : Prop := i ≤ 100 ∧ headOffset src i < 2 ^ 31

/-- All section headers are read and stored. -/
def HeadsStored : Prop :=
  ehdr src Ehdr.eShnum ≤ 100 ∧ ∀ i < ehdr src Ehdr.eShnum, headOffset src i < 2 ^ 31

/-- elf_init_read comes to its end when nothing fails. -/
structure InitDone : Prop where
  nameHeader : NameHeaderAsked src
  entsize : Shdr.shSize.off + Shdr.shSize.width ≤ ehdr src Ehdr.eShentsize
  heads : HeadsStored src

end

/-- The header of the section names is one, and the names and the section headers can be read. -/
structure NamesServed (host : Host) : Prop where
  type : nameHeader host.file Shdr.shType = shtStrtab
  names : Shdr.shSize.off + Shdr.shSize.width ≤ ehdr host.file Ehdr.eShentsize → Served host
    (.nameTable (chunk host.file (nameHeaderAt host.file) (ehdr host.file Ehdr.eShentsize)))
    (toUnsigned (toInt (nameHeader host.file Shdr.shSize))).toNat
    (nameHeaderAt host.file + ehdr host.file Ehdr.eShentsize)
    (toInt (nameHeader host.file Shdr.shOffset)) (toInt (nameHeader host.file Shdr.shSize))
  heads : Shdr.shSize.off + Shdr.shSize.width ≤ ehdr host.file Ehdr.eShentsize →
    ∀ i < ehdr host.file Ehdr.eShnum, HeadAsked host.file i → Served host (.sectionHeader i)
      (ehdr host.file Ehdr.eShentsize) (headPos host.file i) (headOffset host.file i)
      (ehdr host.file Ehdr.eShentsize)

/-- Whatever elf_init_read reads is there. -/
structure InitServed (host : Host) : Prop where
  header : Served host .header Ehdr.size 0 0 Ehdr.size
  nameHeader : NameHeaderAsked host.file → Served host .nameHeader
    (ehdr host.file Ehdr.eShentsize) Ehdr.size
    (headOffset host.file (ehdr host.file Ehdr.eShstrndx)) (ehdr host.file Ehdr.eShentsize)
  rest : NameHeaderAsked host.file →
    Shdr.shType.off + Shdr.shType.width ≤ ehdr host.file Ehdr.eShentsize → NamesServed host

/-! ## The loop over the section headers -/

/-- The file header is there, and elf_init_read has taken from it what it takes. -/
structure HeaderStored (host : Host) (s : Proc ElfVars) : Prop where
  clean : Clean s
  file : Ehdr.size ≤ host.file.length
  header : s.vars.elfHeader = some (chunk host.file 0 Ehdr.size)
  offset : s.vars.sectionOffset = toInt (ehdr host.file Ehdr.eShoff)
  size : s.vars.sectionSize = ehdr host.file Ehdr.eShentsize
  num : s.vars.sectionNum = ehdr host.file Ehdr.eShnum
  slots : s.vars.elfSectionHead.length = 100
  screen : Restartable s.vars.screen

theorem HeaderStored.log {host : Host} {s : Proc ElfVars} (h : HeaderStored host s) {e : Event}
    (he : e.Safe) (pos : Nat) : HeaderStored host ⟨pos, s.trace ++ [e], s.vars⟩ :=
  ⟨clean_append.mpr ⟨h.clean, by simpa using he⟩, h.file, h.header, h.offset, h.size, h.num,
    h.slots, h.screen⟩

/-- The state in front of section header i. -/
structure HeadsUpTo (host : Host) (i : Nat) (s : Proc ElfVars) : Prop extends
    HeaderStored host s where
  pos : s.pos = headPos host.file i

section

variable {host : Host} {s : Proc ElfVars} {α : Type} {Q : α → Proc ElfVars → Prop}

private theorem seek_twice (offset : Int) (s : Proc ElfVars) : (do
    let _tmp ← lseek offset
    lseek offset : ElfRun Int) s = lseek offset s := by
  by_cases hneg : offset < 0
  · simp only [Exec.bind_apply, lseek, if_pos hneg]
  · simp only [Exec.bind_apply, lseek, if_neg hneg]

theorem keeps_unclean_elfFileRead (target : Target) (offset size : Int) :
    Keeps (fun s => ¬ Clean s) (elfFileRead host target offset size) :=
  keeps_unclean_fileRead target _ (seek_twice offset) size

theorem wp_elfFileRead_iff {target : Target} {offset size : Int} {next : Option Ptr → ElfRun α}
    (hQ : ∀ a s, Q a s → Clean s) (hfails : ¬ Event.Safe (.read target false))
    (hnone : Keeps (fun s => ¬ Clean s) (next none)) :
    wp (elfFileRead host target offset size >>= next) Q (fun _ => Clean) s ↔
      Served host target (toUnsigned size).toNat s.pos offset size ∧
        wp (next (some ⟨host.memory target (toUnsigned size).toNat
          (host.filled s.pos offset size), 0⟩)) Q (fun _ => Clean)
          ⟨seekTo s.pos offset + size.toNat, s.trace ++ [.read target true], s.vars⟩ :=
  wp_fileRead_iff (seek_twice offset) hQ hfails hnone

private theorem keeps_unclean_readSectionHead (i : Nat) :
    Keeps (fun s => ¬ Clean s) (readSectionHead host i) := by
  apply keeps_vars_bind
  intro v
  apply Yields.lift_bind
  intro distance _
  apply Yields.lift_bind
  intro offset _
  apply Keeps.bind (keeps_unclean_elfFileRead _ _ _)
  intro head
  split_ifs
  · exact keeps_unclean_setVars _
  · exact Yields.stop _

theorem headOffset_mono (src : List UInt8) {i j : Nat} (h : i ≤ j) :
    headOffset src i ≤ headOffset src j := by
  have hprod : i * ehdr src Ehdr.eShentsize ≤ j * ehdr src Ehdr.eShentsize :=
    Nat.mul_le_mul_right _ h
  unfold headOffset
  omega

theorem wp_elfFileRead_chunk_iff {target : Target} {offset : Int} {n : Nat} (hn : n < 2 ^ 32)
    {next : Option Ptr → ElfRun α} (hQ : ∀ a s, Q a s → Clean s)
    (hfails : ¬ Event.Safe (.read target false)) (hnone : Keeps (fun s => ¬ Clean s) (next none)) :
    wp (elfFileRead host target offset n >>= next) Q (fun _ => Clean) s ↔
      Served host target n s.pos offset n ∧
        wp (next (some (chunk host.file (seekTo s.pos offset) n))) Q (fun _ => Clean)
          ⟨seekTo s.pos offset + n, s.trace ++ [.read target true], s.vars⟩ := by
  have hrequest : (toUnsigned (n : Int)).toNat = n := by
    rw [toUnsigned_toNat (by omega) (by omega), Int.toNat_natCast]
  rw [wp_elfFileRead_iff hQ hfails hnone, hrequest]
  apply and_congr_right
  intro hserved
  rw [hserved.memory_eq, Int.toNat_natCast]

end

section

variable {host : Host} {s : Proc ElfVars} {Q : Unit → Proc ElfVars → Prop}

private theorem wp_readSectionHead_iff {i : Nat} {P : Prop} (hQ : ∀ a s, Q a s → Clean s)
    (hs : HeadsUpTo host i s) (hi : i ≤ 100)
    (hnext : i < 100 → ∀ s', HeadsUpTo host (i + 1) s' → (Q () s' ↔ P)) :
    wp (readSectionHead host i) Q (fun _ => Clean) s ↔ (headOffset host.file i < 2 ^ 31 →
      Served host (.sectionHeader i) (ehdr host.file Ehdr.eShentsize) (headPos host.file i)
        (headOffset host.file i) (ehdr host.file Ehdr.eShentsize) ∧ (i < 100 → P)) := by
  have hentsize := ehdr_lt host.file (f := Ehdr.eShentsize) rfl
  have hlow := (toInt_range (ehdr host.file Ehdr.eShoff)).1
  have hprod : i * ehdr host.file Ehdr.eShentsize ≤ 100 * ehdr host.file Ehdr.eShentsize :=
    Nat.mul_le_mul_right _ hi
  have hoffset : toInt (ehdr host.file Ehdr.eShoff) + ehdr host.file Ehdr.eShentsize * i =
      headOffset host.file i := by
    rw [headOffset, mul_comm]
  have hdistance : ((i * ehdr host.file Ehdr.eShentsize : Nat) : Int) =
      ehdr host.file Ehdr.eShentsize * i := by
    rw [Nat.cast_mul, mul_comm]
  rw [readSectionHead, wp_bind, wp_vars, hs.offset, hs.size, wp_checked_iff hs.clean,
    forall_prop_of_true (by omega), wp_checked_iff hs.clean, hoffset]
  have hrange : -2 ^ 31 ≤ headOffset host.file i := by omega
  rw [and_iff_right hrange]
  apply imp_congr_right
  intro _
  rw [wp_elfFileRead_chunk_iff (by omega) hQ (by simp [Event.Safe]), hs.pos, hs.slots]
  · apply and_congr_right
    intro _
    have hread := hs.log (e := .read (.sectionHeader i) true) rfl
      (seekTo (headPos host.file i) (headOffset host.file i) + ehdr host.file Ehdr.eShentsize)
    by_cases hlast : i < 100
    · rw [if_pos hlast, wp_setVars, forall_prop_of_true hlast]
      apply hnext hlast
      exact ⟨⟨hread.clean, hs.file, hs.header, hs.offset, hs.size, hs.num,
        List.length_set.trans hs.slots, hs.screen⟩, rfl⟩
    · rw [if_neg hlast]
      exact iff_of_true hread.clean fun h => absurd h hlast
  · split_ifs
    · exact keeps_unclean_setVars _
    · exact Yields.stop _

private theorem wp_loop_iff {n i : Nat} {P : Prop} (hQ : ∀ a s, Q a s → Clean s)
    (hs : HeadsUpTo host i s) (hi : i ≤ 100)
    (hnext : ∀ s', HeadsUpTo host (i + n) s' → (Q () s' ↔ P)) :
    wp (loop (readSectionHead host) n i) Q (fun _ => Clean) s ↔
      (∀ j, i ≤ j → j < i + n → HeadAsked host.file j → Served host (.sectionHeader j)
        (ehdr host.file Ehdr.eShentsize) (headPos host.file j) (headOffset host.file j)
        (ehdr host.file Ehdr.eShentsize)) ∧
      (i + n ≤ 100 → (∀ j, i ≤ j → j < i + n → headOffset host.file j < 2 ^ 31) → P) := by
  induction n generalizing i s with
  | zero =>
    rw [loop, wp_pure, hnext s hs]
    constructor
    · intro hP
      exact ⟨fun j hle hlt => by omega, fun _ _ => hP⟩
    · intro h
      exact h.2 hi fun j hle hlt => by omega
  | succ n ih =>
    have hrest : Keeps (fun s => ¬ Clean s) (loop (readSectionHead host) n (i + 1)) :=
      Keeps.loop fun j _ _ => keeps_unclean_readSectionHead j
    have hround (hlast : i < 100) (s' : Proc ElfVars) (hs' : HeadsUpTo host (i + 1) s') :=
      ih hs' hlast fun t ht => hnext t (by rwa [Nat.add_assoc, Nat.add_comm 1] at ht)
    rw [loop, wp_bind, wp_readSectionHead_iff (fun _ _ h => holds_of_wp hrest hQ h) hs hi hround]
    constructor
    · intro h
      refine ⟨fun j hle hlt hasked => ?_, fun hle hall => ?_⟩
      · rcases Nat.eq_or_lt_of_le hle with rfl | hlater
        · exact (h hasked.2).1
        · have hbefore := (headOffset_mono host.file hle).trans_lt hasked.2
          have hlast : i < 100 := hlater.trans_le hasked.1
          exact ((h hbefore).2 hlast).1 j hlater (by omega) hasked
      · exact ((h (hall i le_rfl (by omega))).2 (by omega)).2 (by omega)
          fun j hle hlt => hall j (by omega) (by omega)
    · intro h hoffset
      refine ⟨h.1 i le_rfl (by omega) ⟨hi, hoffset⟩, fun hlast => ⟨fun j hle hlt => ?_, ?_⟩⟩
      · exact h.1 j (by omega) (by omega)
      · intro hle hall
        apply h.2 (by omega)
        intro j hij hlt
        rcases Nat.eq_or_lt_of_le hij with rfl | hlater
        · exact hoffset
        · exact hall j hlater (by omega)

/-! ## elf_init_read -/

/-- What elf_init_read does behind its check of the type. -/
private def readNames (host : Host) (head : Ptr) (shnum : Nat) : ElfRun Unit := do
  let nameOffset ← lift (head.get Shdr.shOffset)
  let nameSize ← lift (head.get Shdr.shSize)
  let names ← elfFileRead host (.nameTable head) (toInt nameOffset) (toInt nameSize)
  setVars fun v => { v with elfShstrtab := names }
  loop (readSectionHead host) shnum 0

private theorem keeps_unclean_loop (n i : Nat) :
    Keeps (fun s => ¬ Clean s) (loop (readSectionHead host) n i) :=
  Keeps.loop fun j _ _ => keeps_unclean_readSectionHead j

private theorem keeps_unclean_readNames (head : Ptr) (shnum : Nat) :
    Keeps (fun s => ¬ Clean s) (readNames host head shnum) := by
  apply Yields.lift_bind
  intro nameOffset _
  apply Yields.lift_bind
  intro nameSize _
  apply Keeps.bind (keeps_unclean_elfFileRead _ _ _)
  intro names
  apply Keeps.bind (keeps_unclean_setVars _)
  intro _
  exact keeps_unclean_loop _ _

private theorem wp_readNames_iff {P : Prop} (hQ : ∀ a s, Q a s → Clean s)
    (hs : HeaderStored host s)
    (hpos : s.pos = nameHeaderAt host.file + ehdr host.file Ehdr.eShentsize)
    (htype : nameHeader host.file Shdr.shType = shtStrtab)
    (hholds : Holds host.file (chunk host.file (nameHeaderAt host.file)
      (ehdr host.file Ehdr.eShentsize)) (ehdr host.file Ehdr.eShentsize))
    (hnext : ∀ s', HeadsUpTo host (ehdr host.file Ehdr.eShnum) s' → (Q () s' ↔ P)) :
    wp (readNames host (chunk host.file (nameHeaderAt host.file) (ehdr host.file Ehdr.eShentsize))
      (ehdr host.file Ehdr.eShnum)) Q (fun _ => Clean) s ↔ NamesServed host ∧
        (Shdr.shSize.off + Shdr.shSize.width ≤ ehdr host.file Ehdr.eShentsize →
          HeadsStored host.file → P) := by
  have hget : Shdr.shSize.off + Shdr.shSize.width ≤ ehdr host.file Ehdr.eShentsize →
      (chunk host.file (nameHeaderAt host.file) (ehdr host.file Ehdr.eShentsize)).get Shdr.shType =
        .ok shtStrtab := by
    intro hin
    exact hholds.get_iff.mpr ⟨le_trans (by decide) hin, htype.symm⟩
  have hnone : Keeps (fun s => ¬ Clean s) (do
      setVars fun v => { v with elfShstrtab := none }
      loop (readSectionHead host) (ehdr host.file Ehdr.eShnum) 0) :=
    Keeps.bind (keeps_unclean_setVars _) fun _ => keeps_unclean_loop _ _
  rw [readNames, wp_get_iff hs.clean hholds, wp_get_iff hs.clean hholds]
  by_cases hin : Shdr.shSize.off + Shdr.shSize.width ≤ ehdr host.file Ehdr.eShentsize
  · rw [forall_prop_of_true (le_trans (by decide) hin), forall_prop_of_true hin,
      wp_elfFileRead_iff hQ (by simp [Event.Safe]) hnone, hpos, wp_bind, wp_setVars]
    rw [wp_loop_iff (P := P) hQ ?hread (Nat.zero_le _)]
    case hread =>
      have hlog := hs.log (e := .read (.nameTable (chunk host.file (nameHeaderAt host.file)
        (ehdr host.file Ehdr.eShentsize))) true) ⟨rfl, hget hin⟩ (headPos host.file 0)
      exact ⟨⟨hlog.clean, hs.file, hs.header, hs.offset, hs.size, hs.num, hs.slots, hs.screen⟩, rfl⟩
    · constructor
      · intro h
        refine ⟨⟨htype, fun _ => h.1, fun _ i hi hasked => ?_⟩, fun _ hstored => ?_⟩
        · exact h.2.1 i (Nat.zero_le _) (by omega) hasked
        · exact h.2.2 (by have := hstored.1; omega) fun i _ hi => hstored.2 i (by omega)
      · intro h
        refine ⟨h.1.names hin, fun i _ hi hasked => ?_, fun hle hall => ?_⟩
        · exact h.1.heads hin i (by omega) hasked
        · exact h.2 hin ⟨by omega, fun i hi => hall i (Nat.zero_le _) (by omega)⟩
    · rwa [Nat.zero_add]
  · exact iff_of_true (fun _ h => absurd h hin) ⟨⟨htype, fun h => absurd h hin,
      fun h => absurd h hin⟩, fun h => absurd h hin⟩

private theorem wp_checkType_iff {P : Prop} (hQ : ∀ a s, Q a s → Clean s)
    (hs : HeaderStored host s)
    (hpos : s.pos = nameHeaderAt host.file + ehdr host.file Ehdr.eShentsize)
    (hholds : Holds host.file (chunk host.file (nameHeaderAt host.file)
      (ehdr host.file Ehdr.eShentsize)) (ehdr host.file Ehdr.eShentsize))
    (hnext : ∀ s', HeadsUpTo host (ehdr host.file Ehdr.eShnum) s' → (Q () s' ↔ P)) :
    wp (do
      let type ← lift ((chunk host.file (nameHeaderAt host.file)
        (ehdr host.file Ehdr.eShentsize)).get Shdr.shType)
      emit (.check (type = shtStrtab))
      runIf (type ≠ shtStrtab) (perr "elf_init_read" "err")
      readNames host (chunk host.file (nameHeaderAt host.file) (ehdr host.file Ehdr.eShentsize))
        (ehdr host.file Ehdr.eShnum)) Q (fun _ => Clean) s ↔
      (Shdr.shType.off + Shdr.shType.width ≤ ehdr host.file Ehdr.eShentsize → NamesServed host ∧
        (Shdr.shSize.off + Shdr.shSize.width ≤ ehdr host.file Ehdr.eShentsize →
          HeadsStored host.file → P)) := by
  rw [wp_get_iff hs.clean hholds, chunk_position]
  apply imp_congr_right
  intro _
  rw [wp_bind, wp_emit, wp_bind, wp_runIf_perr]
  by_cases htype : fieldAt host.file (nameHeaderAt host.file) Shdr.shType = shtStrtab
  · have hcheck := hs.log (e := .check (decide (fieldAt host.file (nameHeaderAt host.file)
      Shdr.shType = shtStrtab))) (decide_eq_true htype) s.pos
    rw [if_neg (not_not.mpr htype), List.append_nil]
    exact wp_readNames_iff hQ hcheck hpos htype hholds hnext
  · apply iff_of_false
    · apply not_wp_of_keeps (keeps_unclean_readNames _ _) hQ
      intro hclean
      have hcheck := (clean_append.mp (clean_append.mp hclean).1).2 _ (List.mem_singleton_self _)
      exact htype (of_decide_eq_true hcheck)
    · intro h
      exact htype h.1.type

private theorem keeps_unclean_null {p : Option Ptr} (hp : p = none) (f : Field)
    (next : Nat → ElfRun Unit) : Keeps (fun s => ¬ Clean s) (lift (member p f) >>= next) := by
  apply Yields.lift_bind
  intro n hn
  rw [hp] at hn
  cases hn

/-- What the part of elf_init_read behind the header comes to, when what follows it is P. -/
private def RestServed (host : Host) (P : Prop) : Prop :=
  NameHeaderAsked host.file →
    Served host .nameHeader (ehdr host.file Ehdr.eShentsize) Ehdr.size
      (headOffset host.file (ehdr host.file Ehdr.eShstrndx)) (ehdr host.file Ehdr.eShentsize) ∧
    (Shdr.shType.off + Shdr.shType.width ≤ ehdr host.file Ehdr.eShentsize →
      NamesServed host ∧ (Shdr.shSize.off + Shdr.shSize.width ≤ ehdr host.file Ehdr.eShentsize →
        HeadsStored host.file → P))

private theorem wp_readNameHeader_iff {P : Prop} (hQ : ∀ a s, Q a s → Clean s)
    (hs : HeaderStored host s) (hpos : s.pos = Ehdr.size)
    (hnext : ∀ s', HeadsUpTo host (ehdr host.file Ehdr.eShnum) s' → (Q () s' ↔ P)) :
    wp (do
      let shstrndx ← lift (member (some (chunk host.file 0 Ehdr.size)) Ehdr.eShstrndx)
      let distance ← lift (checked (shstrndx * ehdr host.file Ehdr.eShentsize))
      let offset ← lift (checked (toInt (ehdr host.file Ehdr.eShoff) + distance))
      let nameHeader ← elfFileRead host .nameHeader offset (ehdr host.file Ehdr.eShentsize)
      setVars fun v => { v with elfShstrtabHeader := nameHeader }
      let head ← lift (deref nameHeader)
      let type ← lift (head.get Shdr.shType)
      emit (.check (type = shtStrtab))
      runIf (type ≠ shtStrtab) (perr "elf_init_read" "err")
      let nameOffset ← lift (head.get Shdr.shOffset)
      let nameSize ← lift (head.get Shdr.shSize)
      let names ← elfFileRead host (.nameTable head) (toInt nameOffset) (toInt nameSize)
      setVars fun v => { v with elfShstrtab := names }
      loop (readSectionHead host) (ehdr host.file Ehdr.eShnum) 0) Q (fun _ => Clean) s ↔
      RestServed host P := by
  have hentsize := ehdr_lt host.file (f := Ehdr.eShentsize) rfl
  have hlow := (toInt_range (ehdr host.file Ehdr.eShoff)).1
  have hcast : ((ehdr host.file Ehdr.eShstrndx * ehdr host.file Ehdr.eShentsize : Nat) : Int) =
      ehdr host.file Ehdr.eShstrndx * ehdr host.file Ehdr.eShentsize := Nat.cast_mul _ _
  rw [member_header hs.file (by decide), lift_ok_bind, wp_checked_iff hs.clean,
    wp_checked_iff hs.clean, ← headOffset]
  by_cases hasked : NameHeaderAsked host.file
  · have hdistance := hasked.1
    have hoffset := hasked.2
    have hge : -2 ^ 31 ≤ headOffset host.file (ehdr host.file Ehdr.eShstrndx) := by
      unfold headOffset
      omega
    rw [forall_prop_of_true (by omega), forall_prop_of_true ⟨hge, hoffset⟩, RestServed,
      forall_prop_of_true hasked,
      wp_elfFileRead_chunk_iff (by omega) hQ (by simp [Event.Safe]), hpos]
    · apply and_congr_right
      intro hserved
      have hread := hs.log (e := .read .nameHeader true) rfl s.pos
      rw [wp_bind, wp_setVars, deref_some, lift_ok_bind]
      exact wp_checkType_iff hQ ⟨hread.clean, hs.file, hs.header, hs.offset, hs.size, hs.num,
        hs.slots, hs.screen⟩ rfl hserved.holds hnext
    · apply Keeps.bind (keeps_unclean_setVars _)
      intro _
      apply Yields.lift_bind
      intro head hhead
      cases hhead
  · apply iff_of_true
    · intro hdistance hoffset
      exact absurd ⟨by omega, hoffset.2⟩ hasked
    · intro h
      exact absurd h hasked

theorem wp_elfInitRead_iff {P : Prop} (hQ : ∀ a s, Q a s → Clean s)
    (hnext : ∀ s', HeadsUpTo host (ehdr host.file Ehdr.eShnum) s' → (Q () s' ↔ P)) :
    wp (elfInitRead host) Q (fun _ => Clean) ElfVars.start ↔
      Served host .header Ehdr.size 0 0 Ehdr.size ∧ RestServed host P := by
  rw [elfInitRead, wp_elfFileRead_chunk_iff (by decide) hQ (by simp [Event.Safe])]
  · apply and_congr_right
    intro hheader
    have hfile : Ehdr.size ≤ host.file.length := by
      have hinside := hheader.inside
      rw [Int.toNat_natCast] at hinside
      exact hinside.trans (Nat.sub_le _ _)
    have hseek : seekTo ElfVars.start.pos 0 = 0 := rfl
    rw [wp_bind, wp_setVars, hseek, member_header hfile (by decide), lift_ok_bind,
      member_header hfile (by decide), lift_ok_bind, member_header hfile (by decide), lift_ok_bind,
      wp_bind, wp_setVars]
    refine wp_readNameHeader_iff hQ ⟨?_, hfile, rfl, rfl, rfl, rfl, rfl, initial_restartable⟩
      rfl hnext
    simp [Clean, Event.Safe, ElfVars.start]
  · apply Keeps.bind (keeps_unclean_setVars _)
    intro _
    exact keeps_unclean_null rfl _ _

private theorem restServed_iff {P : Prop} :
    Served host .header Ehdr.size 0 0 Ehdr.size ∧ RestServed host P ↔
      InitServed host ∧ (InitDone host.file → P) := by
  constructor
  · intro h
    refine ⟨⟨h.1, fun hasked => (h.2 hasked).1, fun hasked hin => ((h.2 hasked).2 hin).1⟩, ?_⟩
    intro hdone
    have hnames := (h.2 hdone.nameHeader).2 (le_trans (by decide) hdone.entsize)
    exact hnames.2 hdone.entsize hdone.heads
  · intro h
    refine ⟨h.1.header, fun hasked => ⟨h.1.nameHeader hasked, fun hin => ⟨h.1.rest hasked hin, ?_⟩⟩⟩
    intro hentsize hheads
    exact h.2 ⟨hasked, hentsize, hheads⟩

end

/-! ## The dumps -/

theorem Event.Later.safe {e : Event} (h : e.Later) : e.Safe := by
  cases e with
  | read target ok =>
    cases target with
    | contents _ => trivial
    | _ => exact absurd h id
  | check _ => exact absurd h id
  | _ => trivial

theorem carried_clean : Carried Clean where
  vars _ _ _ hs := hs
  events _ _ _ hes hs := clean_append.mpr ⟨hs, fun e he => (hes e he).safe⟩

theorem carried_unclean : Carried (fun s => ¬ Clean s) where
  vars _ _ _ hs := hs
  events _ _ _ _ hs := mt (fun h => (clean_append.mp h).1) hs

/-- The program header table is there, if its size is an int. -/
def ProgramsServed (host : Host) : Prop :=
  ehdr host.file Ehdr.ePhentsize * ehdr host.file Ehdr.ePhnum < 2 ^ 31 →
    Served host .programTable (ehdr host.file Ehdr.ePhentsize * ehdr host.file Ehdr.ePhnum)
      (headPos host.file (ehdr host.file Ehdr.eShnum)) (toInt (ehdr host.file Ehdr.ePhoff))
      (ehdr host.file Ehdr.ePhentsize * ehdr host.file Ehdr.ePhnum : Nat)

/-- Whatever the liner dump reads before it comes to the sections is there. -/
structure LinerServed (host : Host) : Prop where
  init : InitServed host
  programs : InitDone host.file → ProgramsServed host

section

variable {host : Host} (flags : Flags)

theorem clean_elfFileDump_iff (hopen : host.canOpen = true) :
    Clean (elfFileDump host flags ElfVars.start).2 ↔ InitServed host := by
  have hbody := carried_clean.elfFileDumpBody host flags
  have hQ (a : Unit) (s : Proc ElfVars)
      (h : wp (elfFileDumpBody host flags) (fun _ => Clean) (fun _ => Clean) s) : Clean s :=
    holds_of_wp (carried_unclean.elfFileDumpBody host flags) (fun _ _ hs => hs) h
  have hnext (s : Proc ElfVars) (hs : HeadsUpTo host (ehdr host.file Ehdr.eShnum) s) :
      wp (elfFileDumpBody host flags) (fun _ => Clean) (fun _ => Clean) s ↔ True :=
    iff_true_intro (wp_last.mpr (last_of_keeps hbody hs.clean))
  rw [← wp_last (I := Clean) (m := elfFileDump host flags), elfFileDump, wp_bind, openFile,
    if_pos hopen, wp_pure, wp_bind, wp_elfInitRead_iff hQ hnext, restServed_iff]
  exact and_iff_left fun _ => trivial

private theorem wp_dumpProgramHeaders_iff {s : Proc ElfVars}
    (hs : HeadsUpTo host (ehdr host.file Ehdr.eShnum) s) :
    wp (dumpProgramHeaders host flags) (fun _ => Clean) (fun _ => Clean) s ↔
      ProgramsServed host := by
  have hm {f : Field} (hf : f.off + f.width ≤ Ehdr.size) := member_header hs.file hf
  have hcast : ((ehdr host.file Ehdr.ePhentsize * ehdr host.file Ehdr.ePhnum : Nat) : Int) =
      ehdr host.file Ehdr.ePhentsize * ehdr host.file Ehdr.ePhnum := Nat.cast_mul _ _
  have hrest (p : Option Ptr) {I : Proc ElfVars → Prop} (hI : Carried I) : Keeps I (do
      setVars fun v => { v with elfPhBuf := p }
      Exec.runIf flags.dumpPheader (elfPhDump2 (some (chunk host.file 0 Ehdr.size)) p)) :=
    Keeps.bind (hI.setVars fun v => ⟨rfl, rfl, rfl, rfl, rfl, rfl⟩) fun _ =>
      Keeps.runIf fun _ => hI.writes.elfPhDump2 _ _
  rw [dumpProgramHeaders, wp_bind, wp_vars, hs.header, hm (by decide), lift_ok_bind,
    hm (by decide), lift_ok_bind, hm (by decide), lift_ok_bind, wp_checked_iff hs.clean,
    wp_elfFileRead_iff (fun _ _ h => h) (by simp [Event.Safe]) (hrest none carried_unclean), hs.pos,
    ProgramsServed, hcast]
  have hrequest (hsize : ehdr host.file Ehdr.ePhentsize * ehdr host.file Ehdr.ePhnum < 2 ^ 31) :
      (toUnsigned (ehdr host.file Ehdr.ePhentsize * ehdr host.file Ehdr.ePhnum)).toNat =
        ehdr host.file Ehdr.ePhentsize * ehdr host.file Ehdr.ePhnum := by
    rw [← hcast, toUnsigned_toNat (by omega) (by omega), Int.toNat_natCast]
  constructor
  · intro h hsize
    have hserved := (h (by omega)).1
    rwa [hrequest hsize] at hserved
  · intro h hsize
    rw [hrequest (by omega)]
    have hread := hs.log (e := .read .programTable true) rfl s.pos
    exact ⟨h (by omega), wp_last.mpr (last_of_keeps (hrest _ carried_clean) hread.clean)⟩

private theorem wp_elfLinerDumpBody_iff {s : Proc ElfVars}
    (hs : HeadsUpTo host (ehdr host.file Ehdr.eShnum) s) :
    wp (elfLinerDumpBody host flags) (fun _ => Clean) (fun _ => Clean) s ↔
      ProgramsServed host := by
  obtain ⟨⟨⟩, s', hrun, hs'⟩ : ∃ a s', Exec.runIf flags.dumpHeader elfHeaderDump s = (.ok a, s') ∧
      HeadsUpTo host (ehdr host.file Ehdr.eShnum) s' := by
    apply returns_of_wp
    rw [wp_runIf]
    refine ⟨fun _ => ?_, fun _ => hs⟩
    apply wp_elfHeaderDump hs.file hs.header hs.screen
    intro screen t hscreen
    have hlog := hs.log (e := .dump none 0 (UInt32.ofNat Ehdr.size)
      (some (chunk host.file 0 Ehdr.size)) t) trivial s.pos
    exact ⟨⟨hlog.clean, hs.file, hs.header, hs.offset, hs.size, hs.num, hs.slots, hscreen⟩, hs.pos⟩
  have hsections {I : Proc ElfVars → Prop} (hI : Carried I) : Keeps I (do
      let v ← vars
      loop (dumpSection host) (v.sectionNum - 1) 1) :=
    keeps_vars_bind fun v => Keeps.loop fun i _ _ => hI.unaffected.dumpSection host i
  rw [elfLinerDumpBody, wp_bind, wp_of_eq hrun, wp_bind, ← wp_dumpProgramHeaders_iff flags hs']
  constructor
  · intro h
    exact wp_mono h (fun _ _ => holds_of_wp (hsections carried_unclean) fun _ _ hs => hs)
      fun _ _ h => h
  · intro h
    exact wp_mono h (fun _ _ hclean => wp_last.mpr (last_of_keeps (hsections carried_clean) hclean))
      fun _ _ h => h

theorem clean_elfLinerDump_iff (hopen : host.canOpen = true) :
    Clean (elfLinerDump host flags ElfVars.start).2 ↔ LinerServed host := by
  have hunclean := carried_unclean.elfLinerDumpBody (fun _ _ _ hs => mt (fun h =>
    (clean_append.mp h).1) hs) host flags
  have hQ (a : Unit) (s : Proc ElfVars)
      (h : wp (elfLinerDumpBody host flags) (fun _ => Clean) (fun _ => Clean) s) : Clean s :=
    holds_of_wp hunclean (fun _ _ hs => hs) h
  rw [← wp_last (I := Clean) (m := elfLinerDump host flags), elfLinerDump_eq, wp_bind, openFile,
    if_pos hopen, wp_pure, wp_bind, wp_elfInitRead_iff hQ fun _ => wp_elfLinerDumpBody_iff flags,
    restServed_iff]
  exact ⟨fun h => ⟨h.1, h.2⟩, fun h => ⟨h.init, h.programs⟩⟩

end

end PerfTools.Elf
