import PerfTools.Elfdig.Sections

/-!
# The two searches for a section

elf.c searches an array of pointers to section headers and returns an index, elfdig.c searches the
headers one behind the other and returns a pointer. On the same headers and names both find the
first header of the name.
-/

namespace PerfTools.Elfdig

open Elf Memory Printf Exec

/-- The headers as the two tools keep them. -/
structure HeldAs (headers : List (List UInt8)) (heads : List (Option Ptr)) (table : Ptr) : Prop where
  size : ∀ h ∈ headers, h.length = Shdr.size
  slots : ∀ (i : Nat) (h : List UInt8), headers[i]? = some h →
    ∃ p : Ptr, heads[i]? = some (some p) ∧ p.tail.take Shdr.size = h
  entries : ∀ (i : Nat) (h : List UInt8), headers[i]? = some h →
    (table.add (i * Shdr.size)).tail.take Shdr.size = h

/-- A table of names that every header has its name in. -/
structure NamesAll (names : List UInt8) (headers : List (List UInt8)) : Prop where
  ended : EndsInNul names
  inside : ∀ h ∈ headers, fieldAt h 0 Shdr.shName < names.length

/-- The name of a header. Names may be suffixes of one another. -/
def headerName (names h : List UInt8) : CString :=
  cstringOf (names.drop (fieldAt h 0 Shdr.shName))

/-- Header i is the first of the name. -/
def FirstOf (names : List UInt8) (headers : List (List UInt8)) (name : Text) (i : Nat) : Prop :=
  (∃ h, headers[i]? = some h ∧ (headerName names h).chars = name) ∧
    ∀ j < i, ∀ h, headers[j]? = some h → (headerName names h).chars ≠ name

/-- No header has the name. -/
def Missing (names : List UInt8) (headers : List (List UInt8)) (name : Text) : Prop :=
  ∀ h ∈ headers, (headerName names h).chars ≠ name

/-- The result of elf_find_shstrtab and that of elf_section_head tell the same: the first header of
the name, or that there is none. -/
structure SameFinding (names : List UInt8) (headers : List (List UInt8)) (name : Text) (table : Ptr)
    (r : Int) (p : Option Ptr) : Prop where
  index : ∀ i : Nat, r = i ↔ FirstOf names headers name i
  pointer : ∀ i : Nat, p = some (table.add (i * Shdr.size)) ↔ FirstOf names headers name i
  noIndex : r = -1 ↔ Missing names headers name
  noPointer : p = none ↔ Missing names headers name

section

variable {names : List UInt8} {headers : List (List UInt8)} {name : Text}

/-- The name of header k. -/
private def nameAt (names : List UInt8) (headers : List (List UInt8)) (k : Nat) : CString :=
  headerName names (headers.getD k [])

/-- The index of the first header of the name. -/
private def firstHeader (names : List UInt8) (headers : List (List UInt8)) (name : Text) :
    Option Nat :=
  (List.range' 0 headers.length).find? fun k => (nameAt names headers k).chars = name

private theorem nameAt_eq {i : Nat} {h : List UInt8} (hi : headers[i]? = some h) :
    nameAt names headers i = headerName names h := by
  rw [nameAt, List.getD_eq_getElem?_getD, hi]
  rfl

private theorem firstHeader_eq_some {i : Nat} :
    firstHeader names headers name = some i ↔ FirstOf names headers name i := by
  rw [firstHeader, List.find?_range'_eq_some, List.mem_range'_1, Nat.zero_add]
  constructor
  · intro hfirst
    obtain ⟨hname, ⟨-, hi⟩, hbefore⟩ := hfirst
    have hget : headers[i]? = some headers[i] := List.getElem?_eq_getElem hi
    rw [nameAt_eq hget] at hname
    refine ⟨⟨_, hget, by simpa using hname⟩, fun j hj h hh => ?_⟩
    have hother := hbefore j (Nat.zero_le j) hj
    rw [nameAt_eq hh] at hother
    simpa using hother
  · intro hfirst
    obtain ⟨⟨h, hget, hname⟩, hbefore⟩ := hfirst
    obtain ⟨hi, -⟩ := List.getElem?_eq_some_iff.mp hget
    refine ⟨?_, ⟨Nat.zero_le i, hi⟩, fun j _ hj => ?_⟩
    · rw [nameAt_eq hget]
      simpa using hname
    · have hget' : headers[j]? = some headers[j] := List.getElem?_eq_getElem (hj.trans hi)
      rw [nameAt_eq hget']
      simpa using hbefore j hj _ hget'

private theorem firstHeader_eq_none :
    firstHeader names headers name = none ↔ Missing names headers name := by
  rw [firstHeader, List.find?_range'_eq_none, Nat.zero_add]
  constructor
  · intro hnone h hh
    obtain ⟨i, hi, hget⟩ := List.mem_iff_getElem.mp hh
    have hget' : headers[i]? = some h := by rw [List.getElem?_eq_getElem hi, hget]
    have hother := hnone i (Nat.zero_le i) hi
    rw [nameAt_eq hget'] at hother
    simpa using hother
  · intro hmissing i _ hi
    have hget : headers[i]? = some headers[i] := List.getElem?_eq_getElem hi
    rw [nameAt_eq hget]
    simpa using hmissing _ (List.getElem_mem hi)

private theorem get_name {p : Ptr} {h : List UInt8} (hlen : h.length = Shdr.size)
    (hp : p.tail.take Shdr.size = h) : p.get Shdr.shName = .ok (fieldAt h 0 Shdr.shName) := by
  have hle : Shdr.size ≤ p.tail.length := by
    rw [← hp, List.length_take] at hlen
    omega
  have hfield : fieldAt h 0 Shdr.shName = fieldAt p.tail 0 Shdr.shName := by
    rw [← hp]
    unfold fieldAt
    rw [List.drop_take, List.take_take]
    rfl
  rw [hfield]
  exact if_pos (le_trans (by decide) hle)

private theorem indexOrMissing_eq (found : Option Nat) (i : Nat) :
    indexOrMissing found = i ↔ found = some i := by
  cases found with
  | none => exact iff_of_false (by simp [indexOrMissing]) (Option.some_ne_none i).symm
  | some j => simp [indexOrMissing]

private theorem indexOrMissing_missing (found : Option Nat) :
    indexOrMissing found = -1 ↔ found = none := by
  cases found with
  | none => exact iff_of_true rfl rfl
  | some j => exact iff_of_false (by simp [indexOrMissing]) (Option.some_ne_none j)

private theorem headers_apart {table : Ptr} {i j : Nat} :
    table.add (i * Shdr.size) = table.add (j * Shdr.size) ↔ i = j := by
  constructor
  · intro h
    have hoff : table.off + i * Shdr.size = table.off + j * Shdr.size := congrArg Ptr.off h
    rw [Shdr.size] at hoff
    omega
  · intro h
    rw [h]

private theorem sameFinding (names : List UInt8) (headers : List (List UInt8)) (name : Text)
    (table : Ptr) : SameFinding names headers name table
      (indexOrMissing (firstHeader names headers name))
      ((firstHeader names headers name).map fun k => table.add (k * Shdr.size)) where
  index i := by rw [indexOrMissing_eq, firstHeader_eq_some]
  pointer i := by
    rw [Option.map_eq_some_iff, ← firstHeader_eq_some]
    simp only [headers_apart, exists_eq_right]
  noIndex := by rw [indexOrMissing_missing, firstHeader_eq_none]
  noPointer := by rw [Option.map_eq_none_iff, firstHeader_eq_none]

end

/-- On the same headers and names, elf_find_shstrtab and elf_section_head find the same. -/
theorem finders_agree {names : List UInt8} {headers : List (List UInt8)} {heads : List (Option Ptr)}
    {table strings strings' : Ptr} {s : Proc ElfObj} {name : String}
    (hheld : HeldAs headers heads table) (hnames : NamesAll names headers)
    (hstrings : strings.tail = names) (hstrings' : strings'.tail = names)
    (hsections : s.vars.sections = some (some table))
    (hnum : s.vars.sectionNum = some headers.length)
    (hshstrtab : s.vars.shstrtab = some (some strings')) (hname : 0 ∉ ascii name) :
    ∃ r p, elfFindShstrtab heads headers.length (some strings) (ascii name) = .ok r ∧
      elfSectionHead name s = (.ok p, s) ∧
      SameFinding names headers (ascii name) table r p := by
  have hread (k : Nat) (h : List UInt8) (hget : headers[k]? = some h) :
      readString names (fieldAt h 0 Shdr.shName) = .ok (nameAt names headers k) := by
    rw [nameAt_eq hget]
    exact hnames.ended.readString (hnames.inside h (List.mem_of_getElem? hget))
  have hindex : elfFindShstrtab heads headers.length (some strings) (ascii name) =
      .ok (indexOrMissing (firstHeader names headers (ascii name))) := by
    apply findFrom_eq hname
    intro k _ hk
    rw [Nat.zero_add] at hk
    have hget : headers[k]? = some headers[k] := List.getElem?_eq_getElem hk
    obtain ⟨p, hp, hbytes⟩ := hheld.slots k _ hget
    refine ⟨p, _, ?_, get_name (hheld.size _ (List.getElem_mem hk)) hbytes, ?_⟩
    · rw [slot, if_neg (by omega), Int.toNat_natCast, hp]
    · rw [hstrings]
      exact hread k _ hget
  have hpointer : findSection (some table) (some strings') (ascii name) headers.length 0 =
      .ok ((firstHeader names headers (ascii name)).map fun k => table.add (k * Shdr.size)) := by
    apply findSection_eq hname
    intro k _ hk
    rw [Nat.zero_add] at hk
    have hget : headers[k]? = some headers[k] := List.getElem?_eq_getElem hk
    refine ⟨_, get_name (hheld.size _ (List.getElem_mem hk)) (hheld.entries k _ hget), ?_⟩
    rw [hstrings']
    exact hread k _ hget
  have hrun : wp (elfSectionHead name) (fun p t => p = (firstHeader names headers (ascii name)).map
      (fun k => table.add (k * Shdr.size)) ∧ t = s) (fun _ _ => False) s := by
    rw [elfSectionHead, wp_bind, wp_field hnum, wp_bind, wp_field hsections, wp_bind,
      wp_field hshstrtab, hpointer, wp_lift_ok]
    exact ⟨rfl, rfl⟩
  obtain ⟨_, _, hhead, rfl, rfl⟩ := returns_of_wp hrun
  exact ⟨_, _, hindex, hhead, sameFinding names headers (ascii name) table⟩

/-- Names of which one is a suffix of another. -/
def suffixNames : List UInt8 := ascii "\x00.rel.text\x00"

/-- A null header, .rel.text and .text. -/
def suffixHeaders : List (List UInt8) :=
  [Shdr.bytes 0 0 0 0 0, Shdr.bytes 1 9 0 0 8, Shdr.bytes 5 1 0 0 0]

/-- The headers in blocks of their own. -/
def suffixHeads : List (Option Ptr) := suffixHeaders.map fun h => some ⟨⟨h, 0⟩, 0⟩

/-- The headers one behind the other. -/
def suffixTable : Ptr := ⟨⟨suffixHeaders.flatten, 0⟩, 0⟩

def suffixStrings : Ptr := ⟨⟨suffixNames, 0⟩, 0⟩

def suffixObj : Proc ElfObj where
  pos := 0
  trace := []
  vars := { ElfObj.unset with
    sections := some (some suffixTable)
    sectionNum := some 3
    shstrtab := some (some suffixStrings) }

private theorem suffixHeaders_held : HeldAs suffixHeaders suffixHeads suffixTable where
  size := by decide
  slots i h hi := by
    refine ⟨⟨⟨h, 0⟩, 0⟩, ?_, ?_⟩
    · rw [suffixHeads, List.getElem?_map, hi]
      rfl
    · have hsize : ∀ h ∈ suffixHeaders, h.take Shdr.size = h := by decide
      exact hsize h (List.mem_of_getElem? hi)
  entries i h hi := by
    have hentries : ∀ i < 3, suffixHeaders[i]? =
        some ((suffixTable.add (i * Shdr.size)).tail.take Shdr.size) := by decide
    obtain ⟨hlt, -⟩ := List.getElem?_eq_some_iff.mp hi
    exact Option.some.inj ((hentries i hlt).symm.trans hi)

private theorem suffixNames_all : NamesAll suffixNames suffixHeaders where
  ended := by decide
  inside := by decide

/-- Both find .text as header 2. -/
theorem finders_agree_suffix :
    ∃ r p, elfFindShstrtab suffixHeads suffixHeaders.length (some suffixStrings) (ascii ".text") =
        .ok r ∧ elfSectionHead ".text" suffixObj = (.ok p, suffixObj) ∧
      SameFinding suffixNames suffixHeaders (ascii ".text") suffixTable r p :=
  finders_agree suffixHeaders_held suffixNames_all rfl rfl rfl rfl rfl (by decide)

end PerfTools.Elfdig
