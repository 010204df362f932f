import PerfTools.Lib.Memory
import PerfTools.Lib.Printf

/-!
# The 32-bit ELF structures

Sizes and members of the records that the tools read, little-endian, as the C library's elf.h
lays them out, with the texts for their type codes.
-/

namespace PerfTools.Elf

open Memory Printf

/-! ## Elf32_Ehdr -/

namespace Ehdr

def size : Nat := 52

def eType : Field := ⟨16, 2⟩
def eMachine : Field := ⟨18, 2⟩
def eEntry : Field := ⟨24, 4⟩
def ePhoff : Field := ⟨28, 4⟩
def eShoff : Field := ⟨32, 4⟩
def ePhentsize : Field := ⟨42, 2⟩
def ePhnum : Field := ⟨44, 2⟩
def eShentsize : Field := ⟨46, 2⟩
def eShnum : Field := ⟨48, 2⟩
def eShstrndx : Field := ⟨50, 2⟩

end Ehdr

/-! ## Elf32_Shdr -/

namespace Shdr

def size : Nat := 40

def shName : Field := ⟨0, 4⟩
def shType : Field := ⟨4, 4⟩
def shAddr : Field := ⟨12, 4⟩
def shOffset : Field := ⟨16, 4⟩
def shSize : Field := ⟨20, 4⟩
def shEntsize : Field := ⟨36, 4⟩

end Shdr

/-! ## Elf32_Phdr -/

namespace Phdr

def size : Nat := 32

def pType : Field := ⟨0, 4⟩
def pVaddr : Field := ⟨8, 4⟩
def pPaddr : Field := ⟨12, 4⟩

end Phdr

/-! ## Elf32_Sym -/

namespace Sym

def size : Nat := 16

def stName : Field := ⟨0, 4⟩
def stValue : Field := ⟨4, 4⟩
def stSize : Field := ⟨8, 4⟩
def stInfo : Field := ⟨12, 1⟩
def stOther : Field := ⟨13, 1⟩
def stShndx : Field := ⟨14, 2⟩

end Sym

/-! ## Elf32_Dyn -/

namespace Dyn

def size : Nat := 8

def dTag : Field := ⟨0, 4⟩
def dVal : Field := ⟨4, 4⟩

end Dyn

/-! ## Writing the structures -/

/-- A file header with the members that place the tables. -/
def Ehdr.bytes (ePhoff eShoff ePhentsize ePhnum eShentsize eShnum eShstrndx : Nat) : List UInt8 :=
  [127, 69, 76, 70, 1, 1, 1] ++ List.replicate 9 0 ++ leBytes 2 1 ++ leBytes 2 3 ++ leBytes 4 1 ++
    leBytes 4 0 ++ leBytes 4 ePhoff ++ leBytes 4 eShoff ++ leBytes 4 0 ++ leBytes 2 Ehdr.size ++
    leBytes 2 ePhentsize ++ leBytes 2 ePhnum ++ leBytes 2 eShentsize ++ leBytes 2 eShnum ++
    leBytes 2 eShstrndx

/-- A section header with the members that describe the contents. -/
def Shdr.bytes (shName shType shOffset shSize shEntsize : Nat) : List UInt8 :=
  leBytes 4 shName ++ leBytes 4 shType ++ leBytes 8 0 ++ leBytes 4 shOffset ++ leBytes 4 shSize ++
    leBytes 12 0 ++ leBytes 4 shEntsize

def Sym.bytes (stName stValue stSize stShndx : Nat) : List UInt8 :=
  leBytes 4 stName ++ leBytes 4 stValue ++ leBytes 4 stSize ++ leBytes 2 0 ++ leBytes 2 stShndx

def Dyn.bytes (dTag dVal : Nat) : List UInt8 := leBytes 4 dTag ++ leBytes 4 dVal

def shtStrtab : Nat := 3
def shtNobits : Nat := 8

/-! ## Texts of the type codes -/

/-- The text for e_type. -/
def etypeText (eType : Nat) : String :=
  match eType with
  | 0 => "unknown type\n"
  | 1 => "Relocable file\n"
  | 2 => "Executable file\n"
  | 3 => "DYN file\n"
  | _ => "unknow\n"

/-- The text for e_machine. -/
def machineText (eMachine : Nat) : String :=
  if eMachine = 3 then "i386\n"
  else if eMachine = 62 then "x84_64\n"
  else if eMachine = 22 then "s390\n"
  else "other\n"

/-- The text for p_type. -/
def phType (type : Nat) : String :=
  match type with
  | 0 => "NULL"
  | 1 => "LOAD"
  | 2 => "DYN"
  | 3 => "INTERP"
  | 4 => "NOTE"
  | 5 => "SHLIB"
  | 6 => "PHDR"
  | 7 => "TLS"
  | 8 => "NUM"
  | _ => "UNK"

/-- The text for d_tag. -/
def dynType (n : Int) : String :=
  match n with
  | 0 => "NULL"
  | 1 => "NEEDED"
  | 2 => "PLTRELSE"
  | 3 => "PLTGOT"
  | 4 => "HASH"
  | 5 => "STRTAB"
  | 6 => "SYMTAB"
  | 7 => "RELA"
  | 8 => "RELASZ"
  | 9 => "RELAENT"
  | 10 => "STRSZ"
  | 11 => "SYMENT"
  | 12 => "INIT"
  | 13 => "FINI"
  | 14 => "SONAME"
  | 15 => "RPATH"
  | 16 => "SYMBOLIC"
  | 17 => "REL"
  | 18 => "RELSZ"
  | 19 => "RELENT"
  | 20 => "PLTREL"
  | 21 => "DEBUG"
  | 22 => "TEXTREL"
  | 23 => "JMPREL"
  | 24 => "BIND_NOW"
  | 25 => "INIT_ARRAY"
  | 26 => "FINI_ARRAY"
  | 27 => "INIT_ARRAYSZ"
  | 28 => "FINI_ARRAYSZ"
  | 29 => "RUNPATH"
  | 30 => "FLAGS"
  | 32 => "ENCODING"
  | 33 => "PREINIT_ARRAYSZ"
  | 38 => "NUM"
  | 0x6000000d => "LOOS"
  | 0x6ffff000 => "HIOS"
  | 0x70000000 => "LOPROC"
  | 0x7fffffff => "HIPROC"
  | _ => "UNK"

theorem phType_plain (type : Nat) : 0 ∉ ascii (phType type) ∧ (ascii (phType type)).length ≤ 6 := by
  unfold phType
  split <;> decide

theorem dynType_plain (n : Int) : 0 ∉ ascii (dynType n) ∧ (ascii (dynType n)).length ≤ 15 := by
  unfold dynType
  split <;> decide

end PerfTools.Elf
