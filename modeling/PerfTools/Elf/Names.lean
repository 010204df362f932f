import PerfTools.Elf.Loading
import Mathlib.Tactic.MkIffOfInductiveProp

/-!
# Sections by name

Both tools look a section up by comparing the names of the section headers, in the order of the
table, with the name that is asked for. When every name can be read, what they find is the first
section of that name.
-/

namespace PerfTools.Elf

open Memory Printf Exec

/-- The section names: the contents of the section that e_shstrndx chooses. -/
def nameTable (src : List UInt8) : List UInt8 :=
  (src.drop (shdr src (ehdr src Ehdr.eShstrndx) Shdr.shOffset)).take
    (shdr src (ehdr src Ehdr.eShstrndx) Shdr.shSize)

def sectionName (src : List UInt8) (i : Nat) : CString :=
  cstringOf ((nameTable src).drop (shdr src i Shdr.shName))

/-- The part of the file that the header of section i describes. -/
def Described (src : List UInt8) (i : Nat) : Prop :=
  shdr src i Shdr.shOffset + shdr src i Shdr.shSize ≤ src.length

/-- The file image of section i. -/
def fileImage (src : List UInt8) (i : Nat) : List UInt8 :=
  (src.drop (shdr src i Shdr.shOffset)).take (shdr src i Shdr.shSize)

/-- The contents of section i are in the file, below 2 GiB. -/
def Readable (src : List UInt8) (i : Nat) : Prop :=
  shdr src i Shdr.shOffset < 2 ^ 31 ∧ shdr src i Shdr.shSize < 2 ^ 31 ∧ Described src i

instance (src : List UInt8) (i : Nat) : Decidable (Readable src i) :=
  inferInstanceAs (Decidable (_ ∧ _ ∧ _ ≤ _))

/-- The contents of section i, where they can be read. -/
def contentsOf (src : List UInt8) (i : Nat) : Option Ptr :=
  if Readable src i then some (chunk src (shdr src i Shdr.shOffset) (shdr src i Shdr.shSize))
  else none

/-- The first section of a name. -/
def firstNamed (src : List UInt8) (name : String) : Option Nat :=
  (List.range (ehdr src Ehdr.eShnum)).find? fun i => (sectionName src i).chars = ascii name

/-- The name of every section is in the name table, with its terminator. -/
def NamesHeld (src : List UInt8) : Prop :=
  ∀ i < ehdr src Ehdr.eShnum,
    readString (nameTable src) (shdr src i Shdr.shName) = .ok (sectionName src i)

instance (src : List UInt8) (i : Nat) : Decidable (Described src i) :=
  inferInstanceAs (Decidable (_ ≤ _))

instance (src : List UInt8) : Decidable (NamesHeld src) :=
  inferInstanceAs (Decidable (∀ i < _, _ = _))

instance (mem : List UInt8) (i : Nat) : Decidable (∃ name, readString mem i = .ok name) :=
  decidable_of_iff ((readString mem i).isOk = true) <| by
    cases readString mem i <;> simp [Except.isOk, Except.toBool]

theorem firstNamed_some {src : List UInt8} {name : String} {i : Nat}
    (h : firstNamed src name = some i) :
    i < ehdr src Ehdr.eShnum ∧ (sectionName src i).chars = ascii name := by
  have hmem := List.mem_of_find?_eq_some h
  have hname := List.find?_some h
  exact ⟨List.mem_range.mp hmem, by simpa using hname⟩

theorem firstNamed_none {src : List UInt8} {name : String} (h : firstNamed src name = none) {i : Nat}
    (hi : i < ehdr src Ehdr.eShnum) : (sectionName src i).chars ≠ ascii name := by
  have hnone := List.find?_eq_none.mp h i (List.mem_range.mpr hi)
  simpa using hnone

/-! ## Comparing names -/

theorem readString_split {mem : List UInt8} {i : Nat} {s : CString}
    (h : readString mem i = .ok s) : ∃ rest, mem.drop i = s.chars ++ 0 :: rest := by
  unfold readString at h
  split_ifs at h with hlt
  rw [← Except.ok.inj h]
  have hsplit := List.takeWhile_append_dropWhile (p := fun b : UInt8 => decide (b ≠ 0))
    (l := mem.drop i)
  have hlen := congrArg List.length hsplit
  simp only [cstringOf] at hlt ⊢
  rw [List.length_append, List.length_drop] at hlen
  cases hrest : (mem.drop i).dropWhile fun b => decide (b ≠ 0) with
  | nil =>
    rw [hrest, List.length_nil] at hlen
    omega
  | cons b rest =>
    have hzero := List.head?_dropWhile_not (fun b : UInt8 => decide (b ≠ 0)) (mem.drop i)
    rw [hrest] at hzero
    simp only [List.head?_cons, ne_eq, decide_not, Bool.not_eq_eq_eq_not, Bool.not_false,
      decide_eq_true_eq] at hzero
    rw [hzero] at hrest
    exact ⟨rest, by rw [← hrest, hsplit]⟩

theorem sameBytes_eq {s : CString} {rest : List UInt8} {name : Text} (hname : 0 ∉ name) :
    sameBytes (s.chars ++ 0 :: rest) name = .ok (decide (s.chars = name)) := by
  obtain ⟨chars, hnul⟩ := s
  induction chars generalizing name with
  | nil =>
    cases name with
    | nil => rfl
    | cons c cs =>
      have hne : (0 : UInt8) ≠ c := fun h => hname (by simp [h])
      simp [sameBytes, hne]
  | cons b bs ih =>
    simp only [List.mem_cons, not_or] at hnul
    cases name with
    | nil =>
      have hne : b ≠ 0 := fun h => hnul.1 h.symm
      simp [sameBytes, hne]
    | cons c cs =>
      simp only [List.mem_cons, not_or] at hname
      have hrest := ih hname.2 hnul.2
      simp only at hrest
      by_cases hbc : b = c
      · simp [sameBytes, hbc, hrest]
      · simp [sameBytes, hbc]

theorem sameString_eq {p : Ptr} {index : Nat} {s : CString} {name : Text} (hname : 0 ∉ name)
    (h : readString p.tail index = .ok s) :
    sameString (some p) index name = .ok (decide (s.chars = name)) := by
  obtain ⟨rest, hrest⟩ := readString_split h
  rw [sameString, deref_some, ok_bind, hrest, sameBytes_eq hname]

theorem stringAt_natCast (p : Ptr) (i : Nat) :
    stringAt (some p) i = readString p.tail i := by
  rw [stringAt, deref_some, ok_bind, if_neg (by omega), Int.toNat_natCast]

theorem stringAt_contents {src : List UInt8} {j : Nat} (hread : Readable src j) {n : Nat}
    {name : CString} (hname : readString (fileImage src j) n = .ok name) :
    stringAt (contentsOf src j) (toInt n) = .ok name := by
  have hlen : (fileImage src j).length ≤ shdr src j Shdr.shSize := by simp [fileImage]
  have hlt : n < (fileImage src j).length := by
    unfold readString at hname
    split_ifs at hname with hin
    omega
  have hsize := hread.2.1
  rw [contentsOf, if_pos hread, toInt_of_lt (by omega), stringAt_natCast]
  exact hname

/-! ## The search of elf.c -/

/-- An index that a search found, or the one for a missing section. -/
def indexOrMissing (found : Option Nat) : Int := found.elim (-1) Nat.cast

section

variable {src : List UInt8} {heads : List (Option Ptr)} {shstrtab : Ptr} {name : Text}

theorem findFrom_eq {names : Nat → CString} (hname : 0 ∉ name) {n i : Nat}
    (hheads : ∀ k, i ≤ k → k < i + n → ∃ head offset, slot heads k = .ok (some head) ∧
      head.get Shdr.shName = .ok offset ∧ readString shstrtab.tail offset = .ok (names k)) :
    findFrom heads (some shstrtab) name n i =
      .ok (indexOrMissing ((List.range' i n).find? fun k => (names k).chars = name)) := by
  induction n generalizing i with
  | zero => rfl
  | succ n ih =>
    obtain ⟨head, offset, hslot, hget, hread⟩ := hheads i le_rfl (by omega)
    have hrest := ih (i := i + 1) fun k hk hlt => hheads k (by omega) (by omega)
    simp only [findFrom, hslot, ok_bind, member, deref_some, hget, sameString_eq hname hread,
      List.range'_succ]
    by_cases heq : (names i).chars = name
    · rw [List.find?_cons_of_pos (by simpa using heq)]
      simp [heq, indexOrMissing]
    · rw [List.find?_cons_of_neg (by simpa using heq), ← hrest]
      simp [heq]

/-- With every header in its slot and every name in the table, elf_find_shstrtab finds the first
section of a name. -/
theorem elfFindShstrtab_eq {name : String} (hname : 0 ∉ ascii name)
    (htable : shstrtab.tail = nameTable src) (hnames : NamesHeld src)
    (hheads : ∀ k < ehdr src Ehdr.eShnum, ∃ head, slot heads k = .ok (some head) ∧
      head.get Shdr.shName = .ok (shdr src k Shdr.shName)) :
    elfFindShstrtab heads (ehdr src Ehdr.eShnum) (some shstrtab) (ascii name) =
      .ok (indexOrMissing (firstNamed src name)) := by
  have hfind : ∀ k, 0 ≤ k → k < 0 + ehdr src Ehdr.eShnum → ∃ head offset,
      slot heads k = .ok (some head) ∧ head.get Shdr.shName = .ok offset ∧
        readString shstrtab.tail offset = .ok (sectionName src k) := by
    intro k _ hk
    rw [Nat.zero_add] at hk
    obtain ⟨head, hslot, hget⟩ := hheads k hk
    rw [htable]
    exact ⟨head, _, hslot, hget, hnames k hk⟩
  rw [elfFindShstrtab, findFrom_eq hname hfind, firstNamed, List.range_eq_range']

theorem elfFindShstrtab_unnamed {name : Text} {n : Nat} (hn : 0 < n) {head : Option Ptr} {k : Nat}
    (hslot : slot heads 0 = .ok head) (hget : member head Shdr.shName = .ok k) :
    elfFindShstrtab heads n none name = .error .nullDeref := by
  obtain ⟨m, rfl⟩ : ∃ m, n = m + 1 := ⟨n - 1, by omega⟩
  rw [elfFindShstrtab, findFrom, Nat.cast_zero, hslot, ok_bind, hget]
  rfl

end

end PerfTools.Elf
