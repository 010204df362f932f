import PerfTools.Elf.Tool

/-!
# The summary of a file dump

elf_dump_summary lists the sections of the file and marks those that it takes to have been
dumped; below them it lists the symbols, one to a line. The program itself never calls it. It
uses what _elf_file_dump has left in the global variables, so that it can only follow that dump.
-/

namespace PerfTools.Elf

open Memory Printf Exec

/-- The switches that the summary looks at; the file dump never looks at the last one. -/
structure SummaryFlags extends Flags where
  dumpComment : Bool

/-- Their values in the source. -/
def SummaryFlags.initial : SummaryFlags := { Flags.initial with dumpComment := false }

/-- _sym_bind -/
def symBind (n : Nat) : String :=
  match n with
  | 0 => "LOCAL"
  | 1 => "GLOBAL"
  | 2 => "WEAK"
  | 3 => "NUM"
  | 10 => "LOOS"
  | 12 => "HIOS"
  | 13 => "LOPROC"
  | 15 => "HIPROC"
  | _ => "UNKNOW"

/-- _sym_type -/
def symType (n : Nat) : String :=
  match n with
  | 0 => "NOTYPE"
  | 1 => "OBJECT"
  | 2 => "FUNC"
  | 3 => "SECTION"
  | 4 => "FILE"
  | 5 => "COMMON"
  | 6 => "TLS"
  | 7 => "NUM"
  | 10 => "LOOS"
  | 12 => "HIOS"
  | 13 => "LOPROC"
  | 15 => "HIPROC"
  | _ => "UNKNOW"

/-- _sym_idx; sprintf has room for four digits and the terminator, and strdup does not fail. -/
def symIdx (n : Nat) : Except Fault CString :=
  if 0 < n ∧ n < 0xff00 then
    let num := vsprintf [.dec 4 n]
    if num.chars.length < 5 then .ok num else .error .outOfBounds
  else if n = 0 then .ok (cstringOf (ascii "UND"))
  else if n = 0xfff1 then .ok (cstringOf (ascii "ABS"))
  else if n = 0xfff2 then .ok (cstringOf (ascii "COM"))
  else .ok (cstringOf (ascii " UN"))

/-- One round of the loop of elf_summary_symtab. -/
def summarizeSymbol (symBuf strBuf : Option Ptr) (i : Nat) : ElfRun Unit := do
  let buf ← lift (deref symBuf)
  let sym := buf.add (i * Sym.size)
  let stValue ← lift (sym.get Sym.stValue)
  let stSize ← lift (sym.get Sym.stSize)
  let stInfo ← lift (sym.get Sym.stInfo)
  let stShndx ← lift (sym.get Sym.stShndx)
  let idx ← lift (symIdx stShndx)
  let stName ← lift (sym.get Sym.stName)
  let name ← lift (stringAt strBuf (toInt stName))
  print ([.dec 6 i] ++ lit ": " ++ [.hex zeroDigit false 8 stValue] ++ lit " " ++
    [.hex space false 8 stSize] ++ lit " " ++
    [.str 8 (cstringOf (ascii (symType (stInfo % 16))))] ++ lit " " ++
    [.str 8 (cstringOf (ascii (symBind (stInfo / 16))))] ++ lit " " ++ [.str 4 idx] ++ lit " " ++
    [.str 0 name] ++ lit "\n")

def elfSummarySymtab (header symBuf strBuf : Option Ptr) : ElfRun Unit := do
  let header ← lift (deref header)
  let shSize ← lift (header.get Shdr.shSize)
  let shEntsize ← lift (header.get Shdr.shEntsize)
  let symNum ← lift (intDiv (toInt shSize) (toInt shEntsize))
  runIf (toInt shEntsize ≠ Sym.size) (stop (.exit (-1)))
  runIf ((toInt shSize).tmod (toInt shEntsize) ≠ 0) (stop (.exit (-1)))
  print (lit "   Num:   offset     Size     Tpye     Bind  Ndx Name\n")
  loop (summarizeSymbol symBuf strBuf) symNum.toNat 0

/-- The value of section_dumped for section i; name is what strcmp sees of it. -/
def sectionDumped (flags : SummaryFlags) (v : ElfVars) (shstrndx i : Nat) (name : Text) : Bool :=
  i = shstrndx ||
  (flags.dumpStrtab && (i : Int) = v.strtabIndex) ||
  (flags.dumpSymtab && (i : Int) = v.symtabIndex) ||
  (flags.dumpComment && name = ascii ".comment") ||
  (flags.dumpRodata && name = ascii ".rodata") ||
  (flags.dumpData && name = ascii ".data") ||
  (flags.dumpBss && name = ascii ".bss") ||
  -- the source asks for dump_bss twice, and never for dump_text
  (flags.dumpBss && name = ascii ".text")

/-- The row of section i: the mark, the index and the name. -/
def summaryRow (mark : Bool) (i : Nat) (name : CString) : Format :=
  lit (if mark then "YES" else "   ") ++ lit " " ++ [.dec 8 i] ++ lit " " ++ [.str 0 name] ++
    lit "\n"

/-- One round of the loop of elf_dump_summary. -/
def summarizeSection (flags : SummaryFlags) (i : Nat) : ElfRun Unit := do
  let v ← vars
  let eShstrndx ← lift (member v.elfHeader Ehdr.eShstrndx)
  let head ← lift (slot v.elfSectionHead i)
  let shName ← lift (member head Shdr.shName)
  let name ← lift (stringAt v.elfShstrtab (toInt shName))
  print (summaryRow (sectionDumped flags v eShstrndx i name.chars) i name)

def elfDumpSummary (flags : SummaryFlags) : ElfRun Unit := do
  print (lit "\n\nSummary\n\n")
  print (lit "Not dumped section :\n       index name \n")
  let v ← vars
  loop (summarizeSection flags) v.sectionNum 0
  let head ← lift (slot v.elfSectionHead v.symtabIndex)
  elfSummarySymtab head v.elfSymBuf v.elfStrtabBuf

end PerfTools.Elf
