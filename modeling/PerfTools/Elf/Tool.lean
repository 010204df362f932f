import PerfTools.Elf.Format
import PerfTools.Elf.Process

/-!
# The elf tool

elf.c reads the section headers one by one into an array of a hundred slots. The liner dump
(elf -r) then shows the program headers and the contents of every section, the file dump
(elf -s) the section headers, the symbols, some sections and the dynamic entries. Everything
read from the file goes through int variables; int arithmetic that leaves the range is a fault,
as is every access outside a block or an array.
-/

namespace PerfTools.Elf

open Memory Printf Exec

/-- The dump_* switches. -/
structure Flags where
  dumpHeader : Bool
  dumpSectionHeader : Bool
  dumpStrtab : Bool
  dumpSymtab : Bool
  dumpRodata : Bool
  dumpData : Bool
  dumpBss : Bool
  dumpText : Bool
  dumpPheader : Bool
  dumpDyn : Bool

/-- Their values in the source. -/
def Flags.initial : Flags := ⟨true, true, true, true, true, true, true, true, true, true⟩

/-- The global variables of elf.c. -/
structure ElfVars where
  elfHeader : Option Ptr
  elfShstrtabHeader : Option Ptr
  elfShstrtab : Option Ptr
  sectionOffset : Int
  sectionSize : Int
  sectionNum : Nat
  elfSectionHead : List (Option Ptr)
  strtabIndex : Int
  symtabIndex : Int
  elfPhBuf : Option Ptr
  elfStrtabBuf : Option Ptr
  elfSymBuf : Option Ptr
  screen : Screen

def ElfVars.initial : ElfVars :=
  ⟨none, none, none, 0, 0, 0, List.replicate 100 none, 0, 0, none, none, none, Screen.initial⟩

/-- The process when main calls one of the two dumps. -/
def ElfVars.start : Proc ElfVars := ⟨0, [], initial⟩

abbrev ElfRun := Exec (Proc ElfVars)

/-- A member of a structure behind a pointer. -/
def member (p : Option Ptr) (f : Field) : Except Fault Nat := do
  let p ← deref p
  p.get f

/-- The string at an index of a table. -/
def stringAt (table : Option Ptr) (index : Int) : Except Fault CString := do
  let p ← deref table
  if index < 0 then .error .outOfBounds else readString p.tail index.toNat

/-- The bytes of a C string compared with a name, read no further than the first difference. -/
def sameBytes : List UInt8 → Text → Except Fault Bool
  | [], _ => .error .outOfBounds
  | b :: _, [] => .ok (b = 0)
  | b :: bs, c :: cs => if b = c then sameBytes bs cs else .ok false

/-- !strcmp(table + index, name) -/
def sameString (table : Option Ptr) (index : Nat) (name : Text) : Except Fault Bool := do
  let p ← deref table
  sameBytes (p.tail.drop index) name

/-- An element of an array of pointers. -/
def slot (heads : List (Option Ptr)) (i : Int) : Except Fault (Option Ptr) :=
  if i < 0 then .error .outOfBounds
  else match heads[i.toNat]? with
    | some p => .ok p
    | none => .error .outOfBounds

/-! ## The annotation buffer as a variable -/

def binBufferReset : ElfRun Unit := setVars fun v => { v with screen := v.screen.binBufferReset }

def binPrintf (first : Int) (fmt : Format) : ElfRun Unit := do
  let v ← vars
  let (_, screen) ← lift (v.screen.binPrintf first (some fmt))
  setVars fun v => { v with screen }

/-- A line of the buffer that shows one member of a structure. -/
def printMember (p : Option Ptr) (label : String) (pad : UInt8) (upper : Bool) (width : Nat)
    (f : Field) : ElfRun Unit := do
  let n ← lift (member p f)
  binPrintf 0 (lit label ++ [.hex pad upper width n] ++ lit "\n")

/-- binary_dump_with_string(offset, size, data, bin_buffer()) -/
def dumpWithBuffer (record : Option (RecordTable × Nat)) (offset size : UInt32)
    (data : Option Ptr) : ElfRun Unit := do
  let v ← vars
  let (t, screen) ← lift (v.screen.dump offset size data)
  setVars fun v => { v with screen }
  emit (.dump record offset size data t)

/-! ## Reading -/

section Reading

variable (host : Host)

/-- elf_file_read; mem_get takes an unsigned int. -/
def elfFileRead (target : Target) (offset size : Int) : ElfRun (Option Ptr) :=
  fileRead host target (toUnsigned size).toNat
    (do
      let _tmp ← lseek offset
      lseek offset)
    offset size

/-- One round of the loop that reads the section headers. -/
def readSectionHead (i : Nat) : ElfRun Unit := do
  let v ← vars
  let distance ← lift (checked (v.sectionSize * i))
  let offset ← lift (checked (v.sectionOffset + distance))
  let head ← elfFileRead host (.sectionHeader i) offset v.sectionSize
  if i < v.elfSectionHead.length then
    setVars fun v => { v with elfSectionHead := v.elfSectionHead.set i head }
  else stop (.fault .outOfBounds)

def elfInitRead : ElfRun Unit := do
  let header ← elfFileRead host .header 0 Ehdr.size
  setVars fun v => { v with elfHeader := header }
  let shoff ← lift (member header Ehdr.eShoff)
  let shentsize ← lift (member header Ehdr.eShentsize)
  let shnum ← lift (member header Ehdr.eShnum)
  setVars fun v => { v with
    sectionOffset := toInt shoff, sectionSize := shentsize, sectionNum := shnum }
  let shstrndx ← lift (member header Ehdr.eShstrndx)
  let distance ← lift (checked (shstrndx * shentsize))
  let offset ← lift (checked (toInt shoff + distance))
  let nameHeader ← elfFileRead host .nameHeader offset shentsize
  setVars fun v => { v with elfShstrtabHeader := nameHeader }
  let head ← lift (deref nameHeader)
  let type ← lift (head.get Shdr.shType)
  emit (.check (type = shtStrtab))
  runIf (type ≠ shtStrtab) (perr "elf_init_read" "err")
  let nameOffset ← lift (head.get Shdr.shOffset)
  let nameSize ← lift (head.get Shdr.shSize)
  let names ← elfFileRead host (.nameTable head) (toInt nameOffset) (toInt nameSize)
  setVars fun v => { v with elfShstrtab := names }
  loop (readSectionHead host) shnum 0

end Reading

/-! ## Dumping -/

def elfHeaderDump : ElfRun Unit := do
  binBufferReset
  let v ← vars
  let eType ← lift (member v.elfHeader Ehdr.eType)
  binPrintf 0 (lit (etypeText eType))
  let eMachine ← lift (member v.elfHeader Ehdr.eMachine)
  binPrintf 0 (lit (machineText eMachine))
  printMember v.elfHeader "entry " zeroDigit true 8 Ehdr.eEntry
  binPrintf 0 (lit "PROGRAM HEADER\n")
  printMember v.elfHeader "OFFSET     : " space true 0 Ehdr.ePhoff
  printMember v.elfHeader "ENTRY SIZE : " space true 0 Ehdr.ePhentsize
  printMember v.elfHeader "ENTRY NUM  : " space true 0 Ehdr.ePhnum
  binPrintf 0 (lit "SECTION HEADER\n")
  printMember v.elfHeader "OFFSET     : " space true 0 Ehdr.eShoff
  printMember v.elfHeader "ENTRY SIZE : " space true 0 Ehdr.eShentsize
  printMember v.elfHeader "ENTRY NUM  : " space true 0 Ehdr.eShnum
  printMember v.elfHeader "shstrndx   : " space true 0 Ehdr.eShstrndx
  dumpWithBuffer none 0 (UInt32.ofNat Ehdr.size) v.elfHeader

def elfSectionHeaderDump (i : Nat) (header : Option Ptr) (sectionName : Option Ptr)
    (offsetInFile : Int) : ElfRun Unit := do
  let shName ← lift (member header Shdr.shName)
  let name ← lift (stringAt sectionName shName)
  binPrintf 1 (lit "NAME " ++ [.str 0 name] ++ lit "\n")
  printMember header "OFF " space false 8 Shdr.shOffset
  let shOffset ← lift (member header Shdr.shOffset)
  let shSize ← lift (member header Shdr.shSize)
  binPrintf 0 (lit "SIZ " ++ [.hex space false 8 shSize] ++ lit " END " ++
    [.hex space false 8 ((shOffset + shSize) % 2 ^ 32)] ++ lit "\n")
  printMember header "add " zeroDigit false 8 Shdr.shAddr
  dumpWithBuffer (some (.sectionHeaders, i)) (toUnsigned offsetInFile)
    (UInt32.ofNat Shdr.size) header

/-- The loop of elf_find_shstrtab, with the number of sections that remain. -/
def findFrom (heads : List (Option Ptr)) (shstrtab : Option Ptr) (name : Text) :
    Nat → Nat → Except Fault Int
  | 0, _ => .ok (-1)
  | n + 1, i => do
    let head ← slot heads i
    let shName ← member head Shdr.shName
    if ← sameString shstrtab shName name then return i
    else findFrom heads shstrtab name n (i + 1)

def elfFindShstrtab (heads : List (Option Ptr)) (sectionNum : Nat) (shstrtab : Option Ptr)
    (name : Text) : Except Fault Int :=
  findFrom heads shstrtab name sectionNum 0

/-- One round of the loop of elf_dump_symtab; the next offset is the result. -/
def dumpSymbol (header : Ptr) (symBuf strtab : Option Ptr) (i : Nat) (offsetInFile : Int) :
    ElfRun Int := do
  let distance ← lift (checked (i * Sym.size))
  let offsetInFile ← lift (checked (offsetInFile + distance))
  let buf ← lift (deref symBuf)
  let sym := buf.add (i * Sym.size)
  let stName ← lift (sym.get Sym.stName)
  let name ← lift (stringAt strtab (toInt stName))
  print (lit "name  " ++ [.hex space false 0 stName] ++ lit " (" ++ [.str 0 name] ++ lit ")\n")
  let stValue ← lift (sym.get Sym.stValue)
  let stSize ← lift (sym.get Sym.stSize)
  let stShndx ← lift (sym.get Sym.stShndx)
  print (lit "value " ++ [.hex space false 0 stValue] ++ lit " size " ++
    [.hex space false 0 stSize] ++ lit " shndx " ++ [.hex space false 0 stShndx] ++ lit "\n")
  print (lit "offset(value) into section(shndx) with length(size)\n")
  let stInfo ← lift (sym.get Sym.stInfo)
  print (lit "info  " ++ [.dec 0 stInfo] ++ lit " (Type and Bind)\n")
  let stOther ← lift (sym.get Sym.stOther)
  print (lit "other " ++ [.dec 0 stOther] ++ lit " (Visiable)\n")
  print (lit "The Raw Data:\n\n")
  dumped (some (.symbols header, i)) (toUnsigned offsetInFile) (UInt32.ofNat Sym.size) (some sym)
    (binaryDump (toUnsigned offsetInFile) (UInt32.ofNat Sym.size) (some sym))
  print (lit "\n")
  return offsetInFile

/-- int division; the quotient of the smallest int by -1 is an overflow. -/
def intDiv (a b : Int) : Except Fault Int :=
  if b = 0 then .error .divByZero else checked (a.tdiv b)

def elfDumpSymtab (header symBuf strtab : Option Ptr) : ElfRun Unit := do
  let header ← lift (deref header)
  let shOffset ← lift (header.get Shdr.shOffset)
  let shSize ← lift (header.get Shdr.shSize)
  let shEntsize ← lift (header.get Shdr.shEntsize)
  let symNum ← lift (intDiv (toInt shSize) (toInt shEntsize))
  runIf (toInt shEntsize ≠ Sym.size) (stop (.exit (-1)))
  runIf ((toInt shSize).tmod (toInt shEntsize) ≠ 0) (stop (.exit (-1)))
  print (lit "Symbol size : " ++ [.dec 0 (toInt shEntsize)] ++ lit "\n")
  print (lit "Symbol num  : " ++ [.dec 0 symNum] ++ lit "\n")
  let _ ← fold (dumpSymbol header symBuf strtab) symNum.toNat 0 (toInt shOffset)

/-- One round of the loop of elf_ph_dump2; p has moved i structures on. -/
def dumpProgramHeader (pOffset pSize : Int) (i : Nat) (p : Ptr) : ElfRun Unit := do
  binBufferReset
  let type ← lift (p.get Phdr.pType)
  binPrintf 0 ([.str 0 (cstringOf (ascii (phType type)))] ++ lit "\n")
  printMember (some p) "0x" zeroDigit false 6 Phdr.pVaddr
  printMember (some p) "0x" zeroDigit false 6 Phdr.pPaddr
  let distance ← lift (checked (pSize * i))
  let offsetInFile ← lift (checked (pOffset + distance))
  dumpWithBuffer (some (.programHeaders, i)) (toUnsigned offsetInFile) (toUnsigned pSize) (some p)

def elfPhDump2 (elfHeader buf : Option Ptr) : ElfRun Unit := do
  let ePhoff ← lift (member elfHeader Ehdr.ePhoff)
  let ePhentsize ← lift (member elfHeader Ehdr.ePhentsize)
  let ePhnum ← lift (member elfHeader Ehdr.ePhnum)
  loop (fun i => do
    let p ← lift (deref buf)
    dumpProgramHeader (toInt ePhoff) ePhentsize i (p.add (i * Phdr.size))) ePhnum 0

/-- The number of dynamic entries: an int divided by a size_t, stored in an int. -/
def dynNum (shSize : Nat) : Int := toInt ((toInt shSize % 2 ^ 64).toNat / Dyn.size)

/-- One round of the loop of elf_dynamic_dump. -/
def dumpDynamic (header : Ptr) (buf : Option Ptr) (i : Nat) : ElfRun Unit := do
  binPrintf 1 (lit "Dyn " ++ [.dec 0 i] ++ lit "\n")
  let p ← lift (deref buf)
  let dyn := p.add (i * Dyn.size)
  let tag ← lift (dyn.get Dyn.dTag)
  binPrintf 0 ([.str 0 (cstringOf (ascii (dynType (toInt tag))))] ++ lit "\n")
  let val ← lift (dyn.get Dyn.dVal)
  binPrintf 0 [.hex zeroDigit false 8 val]
  let shOffset ← lift (header.get Shdr.shOffset)
  dumpWithBuffer (some (.dynamics header, i)) (UInt32.ofNat (shOffset + i * Dyn.size))
    (UInt32.ofNat Dyn.size) (some dyn)

def elfDynamicDump (header buf : Option Ptr) : ElfRun Unit := do
  let header ← lift (deref header)
  let shSize ← lift (header.get Shdr.shSize)
  loop (dumpDynamic header buf) (dynNum shSize).toNat 0

section Dumps

variable (host : Host)

/-- The contents of a section, read at the offset and with the size of its header. -/
def readContents (head : Option Ptr) : ElfRun (Int × Int × Option Ptr) := do
  let p ← lift (deref head)
  let shOffset ← lift (p.get Shdr.shOffset)
  let shSize ← lift (p.get Shdr.shSize)
  let data ← elfFileRead host (.contents p) (toInt shOffset) (toInt shSize)
  return (toInt shOffset, toInt shSize, data)

/-- elf_section_head[elf_find_shstrtab(..., name)]; a missing section gives the index -1. -/
def findHead (name : String) : ElfRun (Int × Option Ptr) := do
  let v ← vars
  let index ← lift (elfFindShstrtab v.elfSectionHead v.sectionNum v.elfShstrtab (ascii name))
  let head ← lift (slot v.elfSectionHead index)
  return (index, head)

def elfSectionDumpByName (name : String) : ElfRun Unit := do
  let (_, head) ← findHead name
  let (offset, size, data) ← readContents host head
  dumped none (toUnsigned offset) (toUnsigned size) data
    (binaryDump (toUnsigned offset) (toUnsigned size) data)

/-- One round of the loop over the section headers. -/
def dumpSectionHead (i : Nat) : ElfRun Unit := do
  let v ← vars
  let distance ← lift (checked (i * v.sectionSize))
  let offsetInFile ← lift (checked (v.sectionOffset + distance))
  let head ← lift (slot v.elfSectionHead i)
  elfSectionHeaderDump i head v.elfShstrtab offsetInFile

/-- The macro GAP. -/
def gapText (s : String) : ElfRun Unit := do
  print (lit "\n\n")
  print (lit s)
  print (lit "\n================================================================\n\n")

/-- _elf_file_dump -/
def elfFileDumpBody (flags : Flags) : ElfRun Unit := do
  runIf flags.dumpHeader elfHeaderDump
  let v ← vars
  runIf flags.dumpSectionHeader do
    print (lit "===================Section===============\n")
    print (lit "Size Section Header " ++ [.dec 0 Shdr.size] ++ lit "\n")
    loop dumpSectionHead v.sectionNum 0
  let (strtabIndex, strtabHead) ← findHead ".strtab"
  let (strtabOffset, strtabSize, strtabBuf) ← readContents host strtabHead
  setVars fun v => { v with strtabIndex, elfStrtabBuf := strtabBuf }
  runIf flags.dumpStrtab
    (dumped none (toUnsigned strtabOffset) (toUnsigned strtabSize) strtabBuf
      (binaryDumpWithChar (toUnsigned strtabOffset) (toUnsigned strtabSize) strtabBuf))
  let (symtabIndex, symtabHead) ← findHead ".symtab"
  let (_, _, symBuf) ← readContents host symtabHead
  setVars fun v => { v with symtabIndex, elfSymBuf := symBuf }
  runIf flags.dumpSymtab (elfDumpSymtab symtabHead symBuf strtabBuf)
  gapText "THE CONTENT OF TEXT DATA BSS RODATA"
  runIf flags.dumpRodata (elfSectionDumpByName host ".rodata")
  runIf flags.dumpData (elfSectionDumpByName host ".data")
  runIf flags.dumpBss (elfSectionDumpByName host ".bss")
  runIf flags.dumpText (elfSectionDumpByName host ".text")
  runIf flags.dumpDyn do
    let (_, dynHead) ← findHead ".dynamic"
    let (_, _, dynBuf) ← readContents host dynHead
    elfDynamicDump dynHead dynBuf

def openFile : ElfRun Unit := if host.canOpen then pure () else stop (.exit (-1))

/-- elf -s; what is freed at the end is not used again. -/
def elfFileDump (flags : Flags) : ElfRun Unit := do
  openFile host
  elfInitRead host
  elfFileDumpBody host flags

/-- One round of the loop over the sections: their contents under their names. -/
def dumpSection (i : Nat) : ElfRun Unit := do
  let v ← vars
  let head ← lift (slot v.elfSectionHead i)
  let (offset, size, data) ← readContents host head
  binBufferReset
  let shName ← lift (member head Shdr.shName)
  let name ← lift (stringAt v.elfShstrtab (toInt shName))
  binPrintf 0 ([.str 0 name] ++ lit "\n")
  dumpWithBuffer none (toUnsigned offset) (toUnsigned size) data

/-- The program headers of the liner dump. -/
def dumpProgramHeaders (flags : Flags) : ElfRun Unit := do
  let v ← vars
  let ePhoff ← lift (member v.elfHeader Ehdr.ePhoff)
  let ePhentsize ← lift (member v.elfHeader Ehdr.ePhentsize)
  let ePhnum ← lift (member v.elfHeader Ehdr.ePhnum)
  let size ← lift (checked (ePhentsize * ePhnum))
  let phBuf ← elfFileRead host .programTable (toInt ePhoff) size
  setVars fun v => { v with elfPhBuf := phBuf }
  runIf flags.dumpPheader (elfPhDump2 v.elfHeader phBuf)

/-- elf -r; section 0 is left out. -/
def elfLinerDump (flags : Flags) : ElfRun Unit := do
  openFile host
  elfInitRead host
  runIf flags.dumpHeader elfHeaderDump
  dumpProgramHeaders host flags
  let v ← vars
  loop (dumpSection host) (v.sectionNum - 1) 1

end Dumps

end PerfTools.Elf
