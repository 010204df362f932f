import PerfTools.Elfdig.Library
import PerfTools.Elf.Tracing

/-!
# Loading the section headers into the object

elf_section_head_read reads the whole section header table at once and walks it by pointer
arithmetic, so that header i is found after i structures, whatever entry size the file declares.
-/

namespace PerfTools.Elfdig

open Elf Memory Printf Exec

/-- The section header table as it is read. -/
def sectionArray (src : List UInt8) : Ptr :=
  chunk src (ehdr src Ehdr.eShoff) (ehdr src Ehdr.eShentsize * ehdr src Ehdr.eShnum)

/-- Section header i as the pointer arithmetic finds it. -/
def sectionEntry (src : List UInt8) (i : Nat) : Ptr := (sectionArray src).add (i * Shdr.size)

theorem sectionEntry_position (src : List UInt8) (i : Nat) :
    (sectionEntry src i).position = ehdr src Ehdr.eShoff + i * Shdr.size := by
  rw [sectionEntry, Ptr.add_position, sectionArray, chunk_position]

/-- The header and the section header table are in the file, at offsets that an int holds, and
so is the header that e_shstrndx chooses. -/
structure SectionArray (src : List UInt8) : Prop where
  header : Ehdr.size ≤ src.length
  size : ehdr src Ehdr.eShentsize * ehdr src Ehdr.eShnum < 2 ^ 31
  offset : ehdr src Ehdr.eShoff < 2 ^ 31
  inside : ehdr src Ehdr.eShoff + ehdr src Ehdr.eShentsize * ehdr src Ehdr.eShnum ≤ src.length
  names : ehdr src Ehdr.eShstrndx * Shdr.size + Shdr.size ≤
    ehdr src Ehdr.eShentsize * ehdr src Ehdr.eShnum

/-- The members that elf_section_head_read assigns. -/
structure SectionsRead (host : Host) (obj : ElfObj) : Prop where
  head : obj.head = some (some (chunk host.file 0 Ehdr.size))
  sections : obj.sections = some (some (sectionArray host.file))
  sectionNum : obj.sectionNum = some (ehdr host.file Ehdr.eShnum)
  shstrtabLen : obj.shstrtabLen = some (toInt (fieldAt host.file
    (ehdr host.file Ehdr.eShoff + ehdr host.file Ehdr.eShstrndx * Shdr.size) Shdr.shSize))
  shstrtab : ∀ offset size : Nat, fieldAt host.file
    (ehdr host.file Ehdr.eShoff + ehdr host.file Ehdr.eShstrndx * Shdr.size) Shdr.shOffset = offset →
    fieldAt host.file (ehdr host.file Ehdr.eShoff + ehdr host.file Ehdr.eShstrndx * Shdr.size)
      Shdr.shSize = size →
    offset < 2 ^ 31 → size < 2 ^ 31 → offset + size ≤ host.file.length →
    obj.shstrtab = some (some (chunk host.file offset size))

/-- What the read of the section names gives. -/
def NamesTransfer (host : Host) (x : Option Ptr × Nat × List Event) : Prop :=
  ∃ pos, x = host.transfer (.nameTable (sectionEntry host.file (ehdr host.file Ehdr.eShstrndx)))
    (toInt (fieldAt host.file (ehdr host.file Ehdr.eShoff +
      ehdr host.file Ehdr.eShstrndx * Shdr.size) Shdr.shSize) % 2 ^ 64).toNat pos
    (toInt (fieldAt host.file (ehdr host.file Ehdr.eShoff +
      ehdr host.file Ehdr.eShstrndx * Shdr.size) Shdr.shOffset))
    (toInt (fieldAt host.file (ehdr host.file Ehdr.eShoff +
      ehdr host.file Ehdr.eShstrndx * Shdr.size) Shdr.shSize))

section

variable {host : Host} {s : Proc ElfObj} {E : Stop → Proc ElfObj → Prop}

theorem wp_elfFileRead {Q : Option Ptr → Proc ElfObj → Prop} (target : Target) (offset size : Int) :
    wp (elfFileRead host target offset size) Q E s ↔
      Q (host.transfer target (size % 2 ^ 64).toNat s.pos offset size).1
        ⟨(host.transfer target (size % 2 ^ 64).toNat s.pos offset size).2.1,
          s.trace ++ (host.transfer target (size % 2 ^ 64).toNat s.pos offset size).2.2,
          s.vars⟩ := by
  apply wp_of_eq
  exact fileRead_apply host target _ (fun _ => rfl) size s

theorem wp_elfFileRead_inside {Q : Option Ptr → Proc ElfObj → Prop} {target : Target}
    {offset size : Nat} (hmalloc : host.malloc target size = true) (hsize : size < 2 ^ 31)
    (hinside : size = 0 ∨ offset + size ≤ host.file.length) :
    wp (elfFileRead host target offset size) Q E s ↔
      Q (some (chunk host.file offset size))
        ⟨offset + size, s.trace ++ [.read target true], s.vars⟩ := by
  have hrequest : ((size : Int) % 2 ^ 64).toNat = size := by omega
  rw [wp_elfFileRead, hrequest, Host.transfer_inside hmalloc rfl hinside]

theorem transfer_described {target : Target} (hmalloc : ∀ target n, host.malloc target n = true)
    {offset size pos : Nat} (hoffset : offset < 2 ^ 31) (hsize : size < 2 ^ 31)
    (hinside : size = 0 ∨ offset + size ≤ host.file.length) :
    host.transfer target (toInt size % 2 ^ 64).toNat pos (toInt offset) (toInt size) =
      (some (chunk host.file offset size), offset + size, [.read target true]) := by
  have hrequest : ((size : Int) % 2 ^ 64).toNat = size := by omega
  rw [toInt_of_lt hoffset, toInt_of_lt hsize, hrequest,
    Host.transfer_inside (hmalloc _ _) rfl hinside]

namespace SectionArray

variable {src : List UInt8} (h : SectionArray src)
include h

theorem entry_get {i : Nat} {f : Field} (hf : f.off + f.width ≤ Shdr.size)
    (hi : i * Shdr.size + Shdr.size ≤ ehdr src Ehdr.eShentsize * ehdr src Ehdr.eShnum) :
    (sectionEntry src i).get f = .ok (fieldAt src (ehdr src Ehdr.eShoff + i * Shdr.size) f) := by
  have hget := Ptr.get_of_views (Ptr.views_add (Ptr.views_mono (chunk_views h.inside) hi)) hf
  rwa [Ptr.add_position, chunk_position] at hget

end SectionArray

/-- elf_section_head_read on a file with a section table; the other members stay as they are. -/
theorem wp_elfSectionHeadRead {Q : Unit → Proc ElfObj → Prop} (h : SectionArray host.file)
    (hmalloc : ∀ target n, host.malloc target n = true)
    (hQ : ∀ s, SectionsRead host s.vars →
      s.vars = { ElfObj.unset with
        head := s.vars.head, sections := s.vars.sections, sectionNum := s.vars.sectionNum,
        shstrtab := s.vars.shstrtab, shstrtabLen := s.vars.shstrtabLen } →
      (∃ names, NamesTransfer host names ∧ s.vars.shstrtab = some names.1 ∧
        s.trace = [.read .header true, .read .sectionTable true] ++ names.2.2) → Q () s) :
    wp (elfSectionHeadRead host) Q E ElfObj.start := by
  have hm : ∀ {f : Field}, f.off + f.width ≤ Ehdr.size →
      member (some (chunk host.file 0 Ehdr.size)) f = .ok (ehdr host.file f) := fun hf =>
    member_header h.header hf
  have hget := fun f hf => h.entry_get (f := f) hf h.names
  rw [elfSectionHeadRead, wp_bind]
  refine (wp_elfFileRead_inside (hmalloc _ _) (by decide) (Or.inr (by simpa using h.header))).mpr ?_
  simp only [wp_bind, hm (f := Ehdr.eShoff) (by decide), hm (f := Ehdr.eShentsize) (by decide),
    hm (f := Ehdr.eShnum) (by decide), hm (f := Ehdr.eShstrndx) (by decide), wp_lift_ok,
    ← Nat.cast_mul, checked_natCast h.size, toInt_of_lt h.offset]
  refine (wp_elfFileRead_inside (hmalloc _ _) h.size (Or.inr h.inside)).mpr ?_
  simp only [wp_setVars, deref_some, wp_lift_ok]
  rw [← sectionArray, ← sectionEntry]
  simp only [hget Shdr.shOffset (by decide), hget Shdr.shSize (by decide), wp_lift_ok,
    wp_elfFileRead, wp_setVars]
  refine hQ _ ⟨rfl, rfl, rfl, rfl, ?_⟩ rfl ⟨_, ⟨_, rfl⟩, rfl, rfl⟩
  intro offset size hoffset hsize ho hs hin
  simp only [hoffset, hsize, transfer_described hmalloc ho hs (Or.inr hin)]

theorem elfSectionHeadByIndex_eq {s : Proc ElfObj} (h : SectionsRead host s.vars) {i : Nat}
    (hi : i < ehdr host.file Ehdr.eShnum) :
    elfSectionHeadByIndex i s = (.ok (some (sectionEntry host.file i)), s) := by
  have hnot : ¬(i : Int) ≥ ehdr host.file Ehdr.eShnum := by omega
  unfold elfSectionHeadByIndex field
  simp only [Exec.bind_apply, Elf.vars, h.sectionNum, h.sections, initialized, Exec.lift,
    if_neg hnot, deref_some, Int.toNat_natCast]
  rfl

theorem elfSectionHeadByIndex_some {s s' : Proc ElfObj} {i : Nat} {p : Ptr}
    (h : elfSectionHeadByIndex i s = (.ok (some p), s')) :
    ∃ table, s.vars.sections = some (some table) ∧ p = table.add (i * Shdr.size) := by
  have hwp : wp (elfSectionHeadByIndex i) (fun r _ => ∀ p, r = some p → ∃ table,
      s.vars.sections = some (some table) ∧ p = table.add (i * Shdr.size))
      (fun _ _ => True) s := by
    unfold elfSectionHeadByIndex field
    simp only [wp_bind, wp_vars, wp_lift]
    refine ⟨fun num _ => ?_, fun _ _ => trivial⟩
    rw [wp_ite]
    refine ⟨fun _ => by rintro p ⟨⟩, fun _ => ?_⟩
    simp only [wp_bind, wp_vars, wp_lift, wp_pure]
    refine ⟨fun sections hsections => ⟨fun table htable => ?_, fun _ _ => trivial⟩,
      fun _ _ => trivial⟩
    rintro p ⟨⟩
    refine ⟨table, ?_, by rw [Int.toNat_natCast]⟩
    cases hset : s.vars.sections with
    | none => rw [hset] at hsections; cases hsections
    | some q =>
      rw [hset] at hsections
      cases hsections
      cases sections with
      | none => cases htable
      | some q => cases htable; rfl
  rw [wp_of_eq h] at hwp
  exact hwp p rfl

/-! ## On any file -/

/-- The table, whenever it is there, has been read at the offset in the file header. -/
def TableRead (host : Host) (obj : ElfObj) : Prop :=
  ∀ p, obj.sections = some (some p) → Fetched host (toInt (ehdr host.file Ehdr.eShoff))
    (ehdr host.file Ehdr.eShentsize * ehdr host.file Ehdr.eShnum : Nat) p

private theorem yields_elfFileRead_bind {α : Type} {V : ElfObj → Prop} {P : Event → Prop}
    {target : Target} {offset size : Int} (hsize : size < 2 ^ 32) {R : α → Prop}
    {f : Option Ptr → DigRun α} (hP : ∀ e, e.Quiet → P e) (htarget : ∀ ok, P (.read target ok))
    (h : ∀ p, (∀ q, p = some q → Fetched host offset size q) → Yields (Tracing V P) R (f p)) :
    Yields (Tracing V P) R (elfFileRead host target offset size >>= f) := by
  intro s hs
  rw [wp_bind, wp_elfFileRead]
  refine h _ (fun q hq => Host.transfer_fetched (fun hpos => by omega) hq) _
    (hs.append (fun e he => ?_) hs.vars _)
  obtain ⟨messages, hevents⟩ := host.transfer_events target (size % 2 ^ 64).toNat s.pos offset size
  rw [hevents, List.mem_append, List.mem_map, List.mem_singleton] at he
  rcases he with ⟨message, -, rfl⟩ | rfl
  · exact hP _ trivial
  · exact htarget _

variable (host) in
theorem keeps_elfSectionHeadRead {P : Event → Prop} (hP : ∀ e, e.Quiet → P e)
    (hnames : ∀ table ok, Fetched host (toInt (ehdr host.file Ehdr.eShoff))
        (ehdr host.file Ehdr.eShentsize * ehdr host.file Ehdr.eShnum : Nat) table →
      ehdr host.file Ehdr.eShstrndx * Shdr.size < table.tail.length →
      P (.read (.nameTable (table.add (ehdr host.file Ehdr.eShstrndx * Shdr.size))) ok)) :
    Keeps (Tracing (TableRead host) P) (elfSectionHeadRead host) := by
  refine yields_elfFileRead_bind (by decide) hP (fun ok => hP _ trivial) fun header hheader => ?_
  refine Yields.lift_bind fun shoff hshoff => Yields.lift_bind fun shentsize hshentsize => ?_
  refine Yields.lift_bind fun shnum hshnum => Yields.lift_bind fun size hsize => ?_
  obtain ⟨rfl, -, hlt⟩ := checked_eq_ok hsize
  rw [ehdr_of_member hheader hshoff, ehdr_of_member hheader hshentsize,
    ehdr_of_member hheader hshnum] at *
  refine yields_elfFileRead_bind (by omega) hP (fun ok => hP _ trivial) fun sections hsections => ?_
  rw [← Nat.cast_mul] at hsections
  refine Keeps.bind (Tracing.setVars fun obj _ p hp => hsections p (Option.some.inj hp)) fun _ => ?_
  refine Yields.lift_bind fun shstrndx hshstrndx => Yields.lift_bind fun table htable => ?_
  rw [ehdr_of_member hheader hshstrndx]
  refine Yields.lift_bind fun shOffset hoffset => Yields.lift_bind fun shSize _ => ?_
  have hrange := toInt_range shSize
  refine yields_elfFileRead_bind (by omega) hP (fun ok => hnames table ok ?_ ?_) fun names _ => ?_
  · cases sections with
    | none => cases htable
    | some q => exact hsections _ (by rw [Except.ok.inj htable])
  · have hin := (Ptr.get_eq_ok hoffset).1
    simp [Shdr.shOffset] at hin
    omega
  · exact Tracing.setVars fun obj hobj => hobj

end

end PerfTools.Elfdig
