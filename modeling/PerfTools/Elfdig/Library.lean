import PerfTools.Elf.Tool

/-!
# The elfdig library

elfdig.c keeps what it has read of a file in an object that comes from malloc and is filled
member by member. A member that has not been assigned holds whatever the memory held, which no
value here stands for: using it is a fault. The object is asked for by pointer; as there is only
one, the pointer is its being there or not.
-/

namespace PerfTools.Elfdig

open Elf Memory Printf Exec

/-- struct elf_obj without the descriptor. The two lengths that nothing reads are left out. -/
structure ElfObj where
  head : Option (Option Ptr)
  sections : Option (Option Ptr)
  sectionNum : Option Nat
  sym : Option (Option Ptr)
  symNum : Option Int
  dynsym : Option (Option Ptr)
  dynsymNum : Option Int
  dyn : Option (Option Ptr)
  dynNum : Option Int
  shstrtab : Option (Option Ptr)
  shstrtabLen : Option Int
  strtab : Option (Option Ptr)
  dynstr : Option (Option Ptr)

/-- The object as malloc returns it. -/
def ElfObj.unset : ElfObj :=
  ⟨none, none, none, none, none, none, none, none, none, none, none, none, none⟩

/-- sizeof(struct elf_obj) -/
def ElfObj.size : Nat := 128

/-- The process when main calls elf_init. -/
def ElfObj.start : Proc ElfObj := ⟨0, [], unset⟩

abbrev DigRun := Exec (Proc ElfObj)

def initialized {α : Type} : Option α → Except Fault α
  | some a => .ok a
  | none => .error .uninitialized

/-- A member of the object. -/
def field {α : Type} (f : ElfObj → Option α) : DigRun α := do
  let obj ← vars
  lift (initialized (f obj))

/-! ## Sections -/

/-- The loop of elf_section_head, with the number of sections that remain. -/
def findSection (sections shstrtab : Option Ptr) (name : Text) :
    Nat → Nat → Except Fault (Option Ptr)
  | 0, _ => .ok none
  | n + 1, i => do
    let p ← deref sections
    let shName ← (p.add (i * Shdr.size)).get Shdr.shName
    if ← sameString shstrtab shName name then return some (p.add (i * Shdr.size))
    else findSection sections shstrtab name n (i + 1)

def elfSectionHead (name : String) : DigRun (Option Ptr) := do
  let sectionNum ← field ElfObj.sectionNum
  let sections ← field ElfObj.sections
  let shstrtab ← field ElfObj.shstrtab
  lift (findSection sections shstrtab (ascii name) sectionNum 0)

/-- A name behind the table is shown as the name at its start. -/
def elfSectionName (index : Int) : DigRun CString := do
  let maxLength ← field ElfObj.shstrtabLen
  let shstrtab ← field ElfObj.shstrtab
  if index > maxLength then lift (stringAt shstrtab 0) else lift (stringAt shstrtab index)

def elfSectionHeadByIndex (index : Int) : DigRun (Option Ptr) := do
  let sectionNum ← field ElfObj.sectionNum
  if index ≥ sectionNum then return none
  else do
    let sections ← field ElfObj.sections
    let p ← lift (deref sections)
    return some (p.add (index.toNat * Shdr.size))

section Reading

variable (host : Host)

/-- elf_file_read; malloc takes the int as a size_t. -/
def elfFileRead (target : Target) (offset size : Int) : DigRun (Option Ptr) :=
  fileRead host target (size % 2 ^ 64).toNat (lseek offset) offset size

def elfSectionHeadRead : DigRun Unit := do
  let elfHeader ← elfFileRead host .header 0 Ehdr.size
  let shoff ← lift (member elfHeader Ehdr.eShoff)
  let shentsize ← lift (member elfHeader Ehdr.eShentsize)
  let shnum ← lift (member elfHeader Ehdr.eShnum)
  let size ← lift (checked (shentsize * shnum))
  let sections ← elfFileRead host .sectionTable (toInt shoff) size
  setVars fun obj => { obj with
    head := some elfHeader, sections := some sections, sectionNum := some shnum }
  let shstrndx ← lift (member elfHeader Ehdr.eShstrndx)
  let table ← lift (deref sections)
  let head := table.add (shstrndx * Shdr.size)
  let shOffset ← lift (head.get Shdr.shOffset)
  let shSize ← lift (head.get Shdr.shSize)
  let elfShstrtab ← elfFileRead host (.nameTable head) (toInt shOffset) (toInt shSize)
  setVars fun obj => { obj with shstrtab := some elfShstrtab, shstrtabLen := some (toInt shSize) }

/-- _elf_section -/
def elfSectionOf (sectionHead : Option Ptr) : DigRun (Option Ptr) := do
  let head ← lift (deref sectionHead)
  let offset ← lift (head.get Shdr.shOffset)
  let len ← lift (head.get Shdr.shSize)
  elfFileRead host (.contents head) (toInt offset) (toInt len)

def elfSection (name : String) : DigRun (Option Ptr) := do
  let head ← elfSectionHead name
  elfSectionOf host head

def elfSymRead : DigRun Int := do
  match ← elfSection host ".strtab" with
  | none =>
    perr "elf_sym_read" "can not get .strtab section"
    return -1
  | some strtab =>
    setVars fun obj => { obj with strtab := some (some strtab) }
    match ← elfSectionHead ".symtab" with
    | none =>
      perr "elf_sym_read" "sym tab"
      return -1
    | some symHead =>
      let shSize ← lift (symHead.get Shdr.shSize)
      setVars fun obj => { obj with symNum := some (shSize / Sym.size : Nat) }
      let sym ← elfSectionOf host (some symHead)
      setVars fun obj => { obj with sym := some sym }
      return 0

def elfDynsymRead : DigRun Int := do
  match ← elfSection host ".dynstr" with
  | none =>
    perr "elf_dynsym_read" "can not get .dynstr section"
    setVars fun obj => { obj with dynstr := some none }
    return 0
  | some dynstr =>
    setVars fun obj => { obj with dynstr := some (some dynstr) }
    match ← elfSectionHead ".dynsym" with
    | none =>
      perr "elf_dynsym_read" "no sym tab"
      setVars fun obj => { obj with dynsym := some none, dynsymNum := some 0 }
      return 0
    | some dynsymHead =>
      let shSize ← lift (dynsymHead.get Shdr.shSize)
      setVars fun obj => { obj with dynsymNum := some (shSize / Sym.size : Nat) }
      let dynsym ← elfSectionOf host (some dynsymHead)
      setVars fun obj => { obj with dynsym := some dynsym }
      return 0

def elfDynRead : DigRun Int := do
  match ← elfSectionHead ".dynamic" with
  | none =>
    perr "elf_dyn_read" "no .dynamic section"
    return -1
  | some sh =>
    let entsize ← lift (sh.get Shdr.shEntsize)
    if toInt entsize ≠ 0 ∧ toInt entsize ≠ Dyn.size then return -1
    else do
      let size ← lift (sh.get Shdr.shSize)
      let num ← lift (intDiv (toInt size) (toInt entsize))
      let dyn ← elfSectionOf host (some sh)
      setVars fun obj => { obj with dyn := some dyn, dynNum := some num }
      return 0

/-- elf_init; the result tells whether there is an object. -/
def elfInit : DigRun Bool :=
  if host.canOpen = false then return false
  else if host.file.length = 0 then return false
  else if host.malloc .object ElfObj.size = false then return false
  else do
    elfSectionHeadRead host
    let _ ← elfSymRead host
    let _ ← elfDynsymRead host
    let _ ← elfDynRead host
    return true

end Reading

/-! ## Traversals -/

/-- The loop of elf_for_each_sym and of elf_for_each_dynsym. -/
def forEachEntry (entries : Option Ptr) (num : Int) (callback : Ptr → DigRun Unit) : DigRun Unit :=
  loop (fun i => do
    let p ← lift (deref entries)
    callback (p.add (i * Sym.size))) num.toNat 0

def elfForEachSym (callback : Ptr → DigRun Unit) : DigRun Unit := do
  let symNum ← field ElfObj.symNum
  let sym ← field ElfObj.sym
  forEachEntry sym symNum callback

def elfForEachDynsym (callback : Ptr → DigRun Unit) : DigRun Unit := do
  let symNum ← field ElfObj.dynsymNum
  let sym ← field ElfObj.dynsym
  forEachEntry sym symNum callback

/-- The loop of elf_for_each_dyn; DT_NULL ends it. -/
def forEachDyn (dyn : Option Ptr) (callback : Ptr → DigRun Unit) : Nat → Nat → DigRun Unit
  | 0, _ => pure ()
  | n + 1, i => do
    let p ← lift (deref dyn)
    let tag ← lift ((p.add (i * Dyn.size)).get Dyn.dTag)
    if tag = 0 then return ()
    else do
      callback (p.add (i * Dyn.size))
      forEachDyn dyn callback n (i + 1)

def elfForEachDyn (callback : Ptr → DigRun Unit) : DigRun Unit := do
  let dyn ← field ElfObj.dyn
  let dynNum ← field ElfObj.dynNum
  forEachDyn dyn callback dynNum.toNat 0

/-! ## What main prints -/

def empty : CString := ⟨[], by simp⟩

def elfSymName (index : Int) : DigRun CString := do
  let strtab ← field ElfObj.strtab
  lift (stringAt strtab index)

def elfDynsymName (index : Int) : DigRun CString := do
  let dynstr ← field ElfObj.dynstr
  lift (stringAt dynstr index)

/-- The name of the section that a symbol belongs to. -/
def symSectionName (stShndx : Nat) : DigRun CString := do
  match ← elfSectionHeadByIndex stShndx with
  | some sh =>
    let shName ← lift (sh.get Shdr.shName)
    elfSectionName (toInt shName)
  | none => return empty

/-- The line of a symbol: elf_sym_show_all and elf_dynsym_show_all differ in where names are. -/
def showSymbol (symName : Int → DigRun CString) (sym : Ptr) : DigRun Unit := do
  let stShndx ← lift (sym.get Sym.stShndx)
  let sectionName ← symSectionName stShndx
  let stName ← lift (sym.get Sym.stName)
  let name ← symName (toInt stName)
  let stValue ← lift (sym.get Sym.stValue)
  let stSize ← lift (sym.get Sym.stSize)
  print (lit "value " ++ [.hex zeroDigit false 8 stValue] ++ lit " size " ++
    [.hex zeroDigit false 8 stSize] ++ lit " shndx " ++ [.str 16 sectionName] ++ lit " name " ++
    [.str 0 name] ++ lit "\n")

def elfSymShowAll (sym : Ptr) : DigRun Unit := showSymbol elfSymName sym

def elfDynsymShowAll (sym : Ptr) : DigRun Unit := showSymbol elfDynsymName sym

def elfDynShowAll (dyn : Ptr) : DigRun Unit := do
  let tag ← lift (dyn.get Dyn.dTag)
  print [.hex zeroDigit false 8 tag]
  print [.str 16 (cstringOf (ascii (dynType (toInt tag))))]
  let val ← lift (dyn.get Dyn.dVal)
  print (lit "  " ++ [.hex zeroDigit false 8 val] ++ lit "\n")

/-- elf_fini; what it frees it looks at first. -/
def elfFini : DigRun Unit := do
  let _ ← field ElfObj.head
  let _ ← field ElfObj.sections
  let _ ← field ElfObj.sym
  let _ ← field ElfObj.shstrtab
  let _ ← field ElfObj.strtab
  let _ ← field ElfObj.dyn

/-- main with a file name; the traversals use the object without looking at the pointer. -/
def main (host : Host) : DigRun Int := do
  let obj ← elfInit host
  runIf (obj = false) (stop (.fault .nullDeref))
  elfForEachSym elfSymShowAll
  elfForEachDynsym elfDynsymShowAll
  elfForEachDyn elfDynShowAll
  elfFini
  return 0

end PerfTools.Elfdig
