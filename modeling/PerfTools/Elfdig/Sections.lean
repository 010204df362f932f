import PerfTools.Elfdig.Loading
import PerfTools.Elf.Names

/-!
# The sections of the object

Once the section headers are in the object, its sections are found by name and by index, and their
contents are read at the offset and with the size of their headers.
-/

namespace PerfTools.Elfdig

open Elf Memory Printf Exec

/-- A 32-bit ELF file by its section headers: the table is in the file, its entries have the size
of the structure, and every name is in the name table. -/
@[mk_iff]
structure HeadedFile (src : List UInt8) : Prop where
  header : Ehdr.size ≤ src.length
  entsize : ehdr src Ehdr.eShentsize = Shdr.size
  inside : ehdr src Ehdr.eShoff + ehdr src Ehdr.eShnum * ehdr src Ehdr.eShentsize ≤ src.length
  names : ehdr src Ehdr.eShstrndx < ehdr src Ehdr.eShnum
  held : NamesHeld src

instance (src : List UInt8) : Decidable (HeadedFile src) :=
  decidable_of_iff _ (headedFile_iff src).symm

/-- The object holds the section headers and their names. -/
structure Headed (src : List UInt8) (obj : ElfObj) : Prop where
  sections : obj.sections = some (some (sectionArray src))
  sectionNum : obj.sectionNum = some (ehdr src Ehdr.eShnum)
  shstrtab : obj.shstrtab = some (contentsOf src (ehdr src Ehdr.eShstrndx))
  shstrtabLen : obj.shstrtabLen = some (toInt (shdr src (ehdr src Ehdr.eShstrndx) Shdr.shSize))

namespace HeadedFile

variable {src : List UInt8} (h : HeadedFile src)
include h

theorem array (hoffset : ehdr src Ehdr.eShoff < 2 ^ 31) : SectionArray src := by
  have hnum := ehdr_lt src (f := Ehdr.eShnum) rfl
  have hindex : (ehdr src Ehdr.eShstrndx + 1) * Shdr.size ≤ ehdr src Ehdr.eShnum * Shdr.size :=
    Nat.mul_le_mul_right _ h.names
  have hinside := h.inside
  rw [h.entsize] at hinside
  refine ⟨h.header, ?_, hoffset, ?_, ?_⟩
  · rw [h.entsize, Shdr.size]
    omega
  · rwa [h.entsize, Nat.mul_comm Shdr.size]
  · rw [h.entsize, Nat.mul_comm Shdr.size]
    rwa [Nat.succ_mul] at hindex

theorem entry_get (hoffset : ehdr src Ehdr.eShoff < 2 ^ 31) {i : Nat}
    (hi : i < ehdr src Ehdr.eShnum) {f : Field} (hf : f.off + f.width ≤ Shdr.size) :
    (sectionEntry src i).get f = .ok (shdr src i f) := by
  have hle : (i + 1) * Shdr.size ≤ ehdr src Ehdr.eShnum * Shdr.size := Nat.mul_le_mul_right _ hi
  rw [Nat.succ_mul] at hle
  rw [(h.array hoffset).entry_get hf (by rwa [h.entsize, Nat.mul_comm Shdr.size]), shdr, shdrAt,
    h.entsize]

end HeadedFile

/-! ## Sections by name -/

theorem findSection_eq {table shstrtab : Ptr} {name : Text} {names : Nat → CString}
    (hname : 0 ∉ name) {n i : Nat} (hheads : ∀ k, i ≤ k → k < i + n → ∃ offset,
      (table.add (k * Shdr.size)).get Shdr.shName = .ok offset ∧
        readString shstrtab.tail offset = .ok (names k)) :
    findSection (some table) (some shstrtab) name n i =
      .ok (((List.range' i n).find? fun k => (names k).chars = name).map
        fun k => table.add (k * Shdr.size)) := by
  induction n generalizing i with
  | zero => rfl
  | succ n ih =>
    obtain ⟨offset, hget, hread⟩ := hheads i le_rfl (by omega)
    have hrest := ih (i := i + 1) fun k hk hlt => hheads k (by omega) (by omega)
    simp only [findSection, deref_some, ok_bind, hget, sameString_eq hname hread, List.range'_succ]
    by_cases heq : (names i).chars = name
    · rw [List.find?_cons_of_pos (by simpa using heq)]
      simp [heq]
    · rw [List.find?_cons_of_neg (by simpa using heq), ← hrest]
      simp [heq]

section

variable {host : Host} {s : Proc ElfObj} {E : Stop → Proc ElfObj → Prop}
  (h : HeadedFile host.file) (hoffset : ehdr host.file Ehdr.eShoff < 2 ^ 31)

theorem wp_field {α : Type} {Q : α → Proc ElfObj → Prop} {f : ElfObj → Option α} {a : α}
    (hf : f s.vars = some a) : wp (field f) Q E s ↔ Q a s := by
  rw [field, wp_bind, wp_vars, hf]
  rfl

include h hoffset

theorem wp_elfSectionHead {Q : Option Ptr → Proc ElfObj → Prop} {name : String}
    (hname : 0 ∉ ascii name) (hread : Readable host.file (ehdr host.file Ehdr.eShstrndx))
    (hs : Headed host.file s.vars) : wp (elfSectionHead name) Q E s ↔
      Q ((firstNamed host.file name).map (sectionEntry host.file)) s := by
  have htable : (chunk host.file (shdr host.file (ehdr host.file Ehdr.eShstrndx) Shdr.shOffset)
      (shdr host.file (ehdr host.file Ehdr.eShstrndx) Shdr.shSize)).tail = nameTable host.file := rfl
  have hheads : ∀ k, 0 ≤ k → k < 0 + ehdr host.file Ehdr.eShnum → ∃ offset,
      ((sectionArray host.file).add (k * Shdr.size)).get Shdr.shName = .ok offset ∧
        readString (chunk host.file (shdr host.file (ehdr host.file Ehdr.eShstrndx) Shdr.shOffset)
          (shdr host.file (ehdr host.file Ehdr.eShstrndx) Shdr.shSize)).tail offset =
          .ok (sectionName host.file k) := by
    intro k _ hk
    rw [Nat.zero_add] at hk
    rw [htable]
    exact ⟨_, h.entry_get hoffset hk (by decide), h.held k hk⟩
  have hfind := findSection_eq hname hheads
  rw [elfSectionHead, wp_bind, wp_field hs.sectionNum, wp_bind, wp_field hs.sections, wp_bind,
    wp_field hs.shstrtab, contentsOf, if_pos hread, hfind, wp_lift_ok, ← List.range_eq_range']
  rfl

theorem wp_elfSectionOf {Q : Option Ptr → Proc ElfObj → Prop} {i : Nat}
    (hi : i < ehdr host.file Ehdr.eShnum) :
    wp (elfSectionOf host (some (sectionEntry host.file i))) Q E s ↔
      wp (elfFileRead host (.contents (sectionEntry host.file i))
        (toInt (shdr host.file i Shdr.shOffset)) (toInt (shdr host.file i Shdr.shSize))) Q E s := by
  rw [elfSectionOf, wp_bind, deref_some, wp_lift_ok, wp_bind,
    h.entry_get hoffset hi (by decide), wp_lift_ok, wp_bind, h.entry_get hoffset hi (by decide),
    wp_lift_ok]

end

end PerfTools.Elfdig
