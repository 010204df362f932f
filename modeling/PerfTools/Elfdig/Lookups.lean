import PerfTools.Elfdig.Listing

/-!
# Names by their index

The three lookups of elfdig.c take the index of a name as an int and add it to the start of a
string table. Only elf_section_name looks at the index, and at one bound: an index behind the table
gives the name at its start. The index at the end of the table, and a negative one, pass.
-/

namespace PerfTools.Elfdig

open Elf Memory Printf Exec

/-- The functions that look up a name. -/
inductive Lookup
  | elfSectionName
  | elfSymName
  | elfDynsymName

def Lookup.run : Lookup → Int → DigRun CString
  | elfSectionName => Elfdig.elfSectionName
  | elfSymName => Elfdig.elfSymName
  | elfDynsymName => Elfdig.elfDynsymName

/-- An object with three string tables that are not empty and end in NUL. -/
structure Tabled (table : Lookup → Ptr) (obj : ElfObj) : Prop where
  shstrtab : obj.shstrtab = some (some (table .elfSectionName))
  shstrtabLen : obj.shstrtabLen = some ((table .elfSectionName).tail.length : Int)
  strtab : obj.strtab = some (some (table .elfSymName))
  dynstr : obj.dynstr = some (some (table .elfDynsymName))
  ended : ∀ l, EndsInNul (table l).tail

/-- The lookup gives a string that starts, and so ends, in its table. -/
def Inside (table : Lookup → Ptr) (s : Proc ElfObj) (l : Lookup) (n : Nat) : Prop :=
  ∃ i < (table l).tail.length, ∃ name, readString (table l).tail i = .ok name ∧
    l.run (toInt n) s = (.ok name, s)

/-- The indices that are looked up well. -/
def Lookup.Takes (table : Lookup → Ptr) : Lookup → Nat → Prop
  | elfSectionName, n => n < 2 ^ 31 ∧ n ≠ (table elfSectionName).tail.length
  | elfSymName, n => n < 2 ^ 31 ∧ n < (table elfSymName).tail.length
  | elfDynsymName, n => n < 2 ^ 31 ∧ n < (table elfDynsymName).tail.length

section

variable {table : Lookup → Ptr} {s : Proc ElfObj} {l : Lookup} {n : Nat}

private theorem stringAt_eq_ok {p : Ptr} {i : Int} {name : CString}
    (h : stringAt (some p) i = .ok name) : 0 ≤ i ∧ i < p.tail.length := by
  rw [stringAt, deref_some, ok_bind] at h
  split_ifs at h with hneg
  unfold readString at h
  split_ifs at h with hlt
  constructor <;> omega

private theorem field_bind {α β : Type} {f : ElfObj → Option α} {a : α} (hf : f s.vars = some a)
    (g : α → DigRun β) : (field f >>= g) s = g a s := by
  simp [field, vars, bind_apply, hf, initialized, lift]

/-- The index that the lookup adds to the start of its table. -/
def Lookup.start (table : Lookup → Ptr) : Lookup → Nat → Int
  | elfSectionName, n =>
    if toInt n > (table elfSectionName).tail.length then 0 else toInt n
  | elfSymName, n => toInt n
  | elfDynsymName, n => toInt n

theorem Tabled.run_eq (h : Tabled table s.vars) (l : Lookup) (n : Nat) :
    l.run (toInt n) s = lift (stringAt (some (table l)) (l.start table n)) s := by
  cases l with
  | elfSectionName =>
    simp only [Lookup.run, Elfdig.elfSectionName, field_bind h.shstrtabLen, field_bind h.shstrtab,
      Lookup.start]
    split_ifs <;> rfl
  | elfSymName => exact field_bind h.strtab _
  | elfDynsymName => exact field_bind h.dynstr _

theorem Tabled.inside_iff_start (h : Tabled table s.vars) :
    Inside table s l n ↔
      0 ≤ l.start table n ∧ l.start table n < (table l).tail.length := by
  constructor
  · intro hinside
    obtain ⟨_, _, name, _, hrun⟩ := hinside
    rw [h.run_eq] at hrun
    cases hread : stringAt (some (table l)) (l.start table n) with
    | ok _ => exact stringAt_eq_ok hread
    | error _ =>
      rw [hread] at hrun
      cases hrun
  · intro hstart
    obtain ⟨i, hi⟩ := Int.eq_ofNat_of_zero_le hstart.1
    rw [hi] at hstart
    have hlt : i < (table l).tail.length := by omega
    have hread := (h.ended l).readString hlt
    refine ⟨i, hlt, _, hread, ?_⟩
    rw [h.run_eq, hi, stringAt_natCast, hread]
    rfl

theorem Lookup.takes_iff_start (hn : n < 2 ^ 32) (hlen : 0 < (table l).tail.length) :
    l.Takes table n ↔ 0 ≤ l.start table n ∧ l.start table n < (table l).tail.length := by
  have hindex := toInt_cases hn
  cases l with
  | elfSectionName =>
    simp only [Lookup.Takes, Lookup.start]
    split_ifs <;> omega
  | elfSymName =>
    simp only [Lookup.Takes, Lookup.start]
    omega
  | elfDynsymName =>
    simp only [Lookup.Takes, Lookup.start]
    omega

end

/-- A lookup stays inside its table exactly for the indices it takes. -/
theorem inside_iff {table : Lookup → Ptr} {s : Proc ElfObj} (h : Tabled table s.vars) (l : Lookup)
    {n : Nat} (hn : n < 2 ^ 32) : Inside table s l n ↔ l.Takes table n := by
  have hlen : 0 < (table l).tail.length := (h.ended l).length_pos
  rw [h.inside_iff_start, Lookup.takes_iff_start hn hlen]

/-- An object whose tables hold the names "" and "f". -/
def shortTable : Ptr := ⟨⟨ascii "\x00f\x00", 0⟩, 0⟩

def shortObj : Proc ElfObj where
  pos := 0
  trace := []
  vars := { ElfObj.unset with
    shstrtab := some (some shortTable)
    shstrtabLen := some 3
    strtab := some (some shortTable)
    dynstr := some (some shortTable) }

private theorem shortObj_tabled : Tabled (fun _ => shortTable) shortObj.vars where
  shstrtab := rfl
  shstrtabLen := rfl
  strtab := rfl
  dynstr := rfl
  ended _ := by decide

/-- Index 4 is behind the table; elf_section_name gives the name at its start. -/
theorem inside_iff_behind :
    Inside (fun _ => shortTable) shortObj .elfSectionName 4 ↔
      Lookup.Takes (fun _ => shortTable) .elfSectionName 4 :=
  inside_iff shortObj_tabled .elfSectionName (by decide)

/-- No string starts at the end of the table, which elf_section_name lets pass. -/
theorem lookups_leave :
    ¬ ∀ (table : Lookup → Ptr) (s : Proc ElfObj), Tabled table s.vars → ∀ l, ∀ n < 2 ^ 32,
      Inside table s l n := by
  intro h
  obtain ⟨_, _, _, _, hrun⟩ := h _ _ shortObj_tabled .elfSectionName 3 (by decide)
  cases hrun

end PerfTools.Elfdig
