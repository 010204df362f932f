import PerfTools.Lib.Exec
import PerfTools.Lib.FlatMemory
import PerfTools.Lib.Printf

/-!
# Starting the other processors

smp-imps finds the tables in which the BIOS describes a machine with several processors, and starts
the other ones with messages of the local APIC. It runs without memory protection, and its tables,
the code it copies and the reset vector share one memory. What a device answers may depend on
everything that was done before.
-/

namespace PerfTools.Smp

open Memory Exec Printf FlatMemory

/-! ## Constants -/

def biosResetVector : UInt32 := 0x467
def ebdaSegAddr : UInt32 := 0x40E
def lapicAddrDefault : UInt32 := 0xFEE00000
def cmosResetCode : UInt8 := 0xF
def cmosResetJump : UInt8 := 0xa
def cmosBaseMemory : UInt8 := 0x15
def defEntries : Nat := 23
def impsMaxCpus : Nat := 255

def impsFpsSignature : Nat := 0x5F ||| (0x4D <<< 8) ||| (0x50 <<< 16) ||| (0x5F <<< 24)
def impsCthSignature : Nat := 0x50 ||| (0x43 <<< 8) ||| (0x4D <<< 16) ||| (0x50 <<< 24)
def impsFpsImcrpBit : UInt8 := 0x80
def impsFpsDefaultMax : Nat := 7

def impsBctProcessor : UInt8 := 0
def impsBctBus : UInt8 := 1
def impsBctIoapic : UInt8 := 2
def impsBctIoInterrupt : UInt8 := 3
def impsBctLocalInterrupt : UInt8 := 4
def impsFlagEnabled : UInt8 := 1
def impsCpuflagBoot : UInt8 := 2

def ioapicId : UInt32 := 0
def ioapicVer : UInt32 := 1
def lapicId : UInt32 := 0x20
def lapicSpiv : UInt32 := 0xF0
def lapicSpivEnableApic : UInt32 := 0x100
def lapicEsr : UInt32 := 0x280
def lapicIcr : UInt32 := 0x300
def lapicIcrTmLevel : UInt32 := 0x8000
def lapicIcrLevelassert : UInt32 := 0x4000
def lapicIcrStatusPend : UInt32 := 0x1000
def lapicIcrDmInit : UInt32 := 0x500
def lapicIcrDmSipi : UInt32 := 0x600
def apicVerNew : UInt8 := 0x10

/-- The APIC_ID of a register value. -/
def apicId (x : UInt32) : UInt8 := (x >>> 24).toUInt8

/-- The APIC_VERSION of a register value. -/
def apicVersion (x : UInt32) : UInt8 := x.toUInt8

/-- Where the code for the other processors is copied to. -/
def bootaddr : UInt32 := (512 - 64) * 1024

/-! ## Structures of the tables -/

namespace Fps

def size : Nat := 16
def sig : Field := ⟨0, 4⟩
def cthPtr : Field := ⟨4, 4⟩
def length : Field := ⟨8, 1⟩
def specRev : Field := ⟨9, 1⟩
def featureInfo (i : Nat) : Field := ⟨11 + i, 1⟩

end Fps

namespace Cth

def size : Nat := 44
def sig : Field := ⟨0, 4⟩
def baseLength : Field := ⟨4, 2⟩
def specRev : Field := ⟨6, 1⟩
def entryCount : Field := ⟨34, 2⟩
def lapicAddr : Field := ⟨36, 4⟩
def extendedLength : Field := ⟨40, 2⟩
def extendedChecksum : Field := ⟨42, 1⟩

end Cth

namespace ImpsProcessor

def size : Nat := 20
def apicId : UInt32 := 1
def apicVer : UInt32 := 2
def flags : UInt32 := 3

end ImpsProcessor

/-! ## The machine and the program's state -/

/-- What the program does outside of memory, and what it gets back. -/
inductive Access
  | print (text : Text)
  | delay (microseconds : Nat)
  | cmosWrite (reg value : UInt8)
  | lapicWrite (reg value : UInt32)
  | lapicRead (reg value : UInt32)
  | ioapicSelect (reg : UInt32)
  | testBooted (booted : Bool)
  deriving DecidableEq

/-- What the including kernel has to define, and the devices. -/
structure Platform where
  physToVirtual : UInt32 → UInt32
  cmosReadByte : UInt8 → UInt8
  readMsrLo : UInt32 → UInt32
  lapic : List Access → UInt32 → UInt32
  ioapic : UInt32 → UInt32
  testBooted : List Access → Bool
  /-- From patch_code_start to patch_code_end. -/
  patchCode : List UInt8
  /-- Where the linker has put defconfig. -/
  defconfig : UInt32

structure ImpsState where
  memory : Ram
  trace : List Access
  impsEnabled : Bool
  impsNumCpus : Nat
  impsLapicAddr : UInt32
  impsCpuApicMap : Vector UInt8 impsMaxCpus
  impsApicCpuMap : Vector UInt8 impsMaxCpus

abbrev Imps := Exec ImpsState

/-! ## Accesses -/

def log (e : Access) : Imps Unit := modify fun s => { s with trace := s.trace ++ [e] }

def kernelPrint (fmt : Format) : Imps Unit := log (.print (fmt.flatMap Directive.text))

def udelay (microseconds : Nat) : Imps Unit := log (.delay microseconds)

def impsLapicWrite (reg value : UInt32) : Imps Unit := log (.lapicWrite reg value)

def storeBytes (a : UInt32) (bs : List UInt8) : Imps Unit :=
  modify fun s => { s with memory := store s.memory a bs }

/-- An assignment to an element of an array with one element for each CPU. -/
def setCpu (map : Vector UInt8 impsMaxCpus) (i : Nat) (value : UInt8) :
    Except Fault (Vector UInt8 impsMaxCpus) :=
  if h : i < impsMaxCpus then .ok (map.set i value h) else .error .outOfBounds

variable (pl : Platform)

def impsLapicRead (reg : UInt32) : Imps UInt32 := do
  let s ← get
  log (.lapicRead reg (pl.lapic s.trace reg))
  pure (pl.lapic s.trace reg)

def testBooted : Imps Bool := do
  let s ← get
  log (.testBooted (pl.testBooted s.trace))
  pure (pl.testBooted s.trace)

/-! ## Checksums -/

def sumFrom (m : Ram) : Nat → UInt32 → UInt32 → UInt32
  | 0, _, sum => sum
  | length + 1, start, sum => sumFrom m length (start + 1) (sum + (m start).toUInt32)

def getChecksum (m : Ram) (start : UInt32) (length : Nat) : UInt32 :=
  sumFrom m length start 0 &&& 0xFF

/-! ## Starting a processor -/

/-- The wait for the end of a send, when to is so many below 1000. At 1000 it makes no difference
any more whether the message is still pending. -/
def waitSent : Nat → Imps Bool
  | 0 => do
    udelay 100
    let _ ← impsLapicRead pl lapicIcr
    pure false
  | n + 1 => do
    udelay 100
    let status ← impsLapicRead pl lapicIcr
    if status &&& lapicIcrStatusPend = 0 then pure true else waitSent n

def sendIpi (dst v : UInt32) : Imps Bool := do
  impsLapicWrite (lapicIcr + 0x10) (dst <<< 24)
  impsLapicWrite lapicIcr v
  waitSent pl 1000

/-- The wait for the other processor, when to is so many below 100. A processor that is found to
run only at the last test counts as one that does not respond. -/
def waitBooted : Nat → Imps Bool
  | 0 => do
    let _ ← testBooted pl
    pure false
  | n + 1 => do
    if ← testBooted pl then pure true
    else do
      udelay 10000
      waitBooted n

def clearApicErrors : Imps Unit := do
  impsLapicWrite lapicEsr 0
  let _ ← impsLapicRead pl lapicEsr
  pure ()

/-- The warm reset code in the CMOS, and the vector that it makes the BIOS jump to. -/
def setResetVector (code : UInt8) (vector : UInt32) : Imps Unit := do
  log (.cmosWrite cmosResetCode code)
  storeBytes (pl.physToVirtual biosResetVector) (leBytes 4 vector.toNat)

def assertInit : UInt32 := lapicIcrTmLevel ||| lapicIcrLevelassert ||| lapicIcrDmInit

def deassertInit : UInt32 := lapicIcrTmLevel ||| lapicIcrDmInit

/-- The message that starts a processor at bootaddr. -/
def startupIpi : UInt32 := lapicIcrDmSipi ||| ((bootaddr >>> 12) &&& 0xFF)

def sendInit (id : UInt32) : Imps Unit := do
  let _ ← sendIpi pl id assertInit
  udelay 10000
  let _ ← sendIpi pl id deassertInit
  udelay 10000

/-- A round of the loop that sends the Startup IPIs. -/
def sendStartup (id : UInt32) : Imps Unit := do
  let _ ← sendIpi pl id startupIpi
  udelay 1000

def bootCpu (proc : UInt32) : Imps Bool := do
  let s ← get
  let id := (s.memory (proc + ImpsProcessor.apicId)).toUInt32
  storeBytes bootaddr pl.patchCode
  setResetVector pl cmosResetJump ((bootaddr &&& 0xFF000) <<< 12)
  clearApicErrors pl
  sendInit pl id
  let s ← get
  runIf (apicVerNew ≤ s.memory (proc + ImpsProcessor.apicVer)) (loop (fun _ => sendStartup pl id) 2 1)
  let success ← waitBooted pl 100
  kernelPrint (if success then lit "#" ++ [.dec 0 s.impsNumCpus] ++ lit "  Application Processor (AP)"
    else lit "CPU Not Responding, DISABLED")
  clearApicErrors pl
  setResetVector pl 0 0
  kernelPrint (lit "\n")
  pure success

/-! ## The entries of the configuration table -/

/-- The numbers of a processor that has started. -/
def enterCpu (id : UInt8) : Imps Unit := do
  let s ← get
  let cpuApicMap ← lift (setCpu s.impsCpuApicMap s.impsNumCpus id)
  modify fun s => { s with impsCpuApicMap := cpuApicMap }
  let apicCpuMap ← lift (setCpu s.impsApicCpuMap id.toNat (UInt8.ofNat s.impsNumCpus))
  modify fun s => { s with impsApicCpuMap := apicCpuMap, impsNumCpus := s.impsNumCpus + 1 }

def addProcessor (proc : UInt32) : Imps Unit := do
  let s ← get
  let id := s.memory (proc + ImpsProcessor.apicId)
  let flags := s.memory (proc + ImpsProcessor.flags)
  kernelPrint (lit "  Processor [APIC id " ++ [.dec 0 id.toNat] ++ lit " ver " ++
    [.dec 0 (s.memory (proc + ImpsProcessor.apicVer)).toNat] ++ lit "]:  ")
  if flags &&& impsFlagEnabled = 0 then kernelPrint (lit "DISABLED\n")
  else if flags &&& impsCpuflagBoot ≠ 0 then kernelPrint (lit "#0  BootStrap Processor (BSP)\n")
  else do
    let started ← bootCpu pl proc
    runIf (started = true) (enterCpu id)

def addBus (bus : UInt32) : Imps Unit := do
  let s ← get
  kernelPrint (lit "  Bus id " ++ [.dec 0 (s.memory (bus + 1)).toNat] ++ lit " is " ++
    [.str 0 (cstringOf (bytesAt s.memory 6 (bus + 2) ++ [0]))] ++ lit "\n")

def addIoapic (ioapic : UInt32) : Imps Unit := do
  let s ← get
  kernelPrint (lit "  I/O APIC id " ++ [.dec 0 (s.memory (ioapic + 1)).toNat] ++ lit " ver " ++
    [.dec 0 (s.memory (ioapic + 2)).toNat] ++ lit ", address: 0x" ++
    [.hex space false 0 (load s.memory ioapic ⟨4, 4⟩)] ++ lit "  ")
  kernelPrint (if s.memory (ioapic + 3) &&& impsFlagEnabled = 0 then lit "DISABLED\n" else lit "\n")

/-- The cases for entries that are no processors. -/
def addOther (type : UInt8) (start : UInt32) : Imps Unit :=
  if type = impsBctBus then addBus start else runIf (type = impsBctIoapic) (addIoapic start)

def impsReadConfigTable : Nat → UInt32 → Imps Unit
  | 0, _ => pure ()
  | count + 1, start => do
    let s ← get
    if s.memory start = impsBctProcessor then do
      addProcessor pl start
      impsReadConfigTable count (start + 20)
    else do
      addOther (s.memory start) start
      impsReadConfigTable count (start + 8)

/-! ## The tables of the BIOS -/

/-- The checks of a configuration table, for a table that is at address cth. -/
def badTable (fps cth : UInt32) : Imps Bool := do
  let s ← get
  let m := s.memory
  let sum := getChecksum m cth (load m cth Cth.baseLength)
  if load m cth Cth.sig ≠ impsCthSignature ∨ sum ≠ 0 then do
    kernelPrint (lit "    Bad MP Config Table sig 0x" ++ [.hex space false 0 (load m fps Fps.cthPtr)] ++
      lit " and/or checksum 0x" ++ [.hex space false 0 sum.toNat] ++ lit "\n")
    pure true
  else if load m cth Cth.specRev ≠ load m fps Fps.specRev then do
    kernelPrint (lit "    Bad MP Config Table sub-revision # " ++ [.dec 0 (load m cth Cth.specRev)] ++
      lit "\n")
    pure true
  else
    let sum := (getChecksum m (cth + UInt32.ofNat (load m cth Cth.baseLength))
      (load m cth Cth.extendedLength) + UInt32.ofNat (load m cth Cth.extendedChecksum)) &&& 0xFF
    if load m cth Cth.extendedLength ≠ 0 ∧ sum ≠ 0 then do
      kernelPrint (lit "    Bad Extended MP Config Table checksum 0x" ++
        [.hex space false 0 sum.toNat] ++ lit "\n")
      pure true
    else pure false

/-- The address of the configuration table that the floating pointer structure gives. -/
def cthAddr (m : Ram) (fps : UInt32) : UInt32 :=
  pl.physToVirtual (UInt32.ofNat (load m fps Fps.cthPtr))

def impsBadBios (fps : UInt32) : Imps Bool := do
  let s ← get
  let type := load s.memory fps (Fps.featureInfo 0)
  if impsFpsDefaultMax < type then do
    kernelPrint (lit "    Invalid MP System Configuration type " ++ [.dec 0 type] ++ lit "\n")
    pure true
  else if load s.memory fps Fps.cthPtr ≠ 0 then badTable fps (cthAddr pl s.memory fps)
  else if type = 0 then do
    kernelPrint (lit "    Missing configuration information\n")
    pure true
  else pure false

/-- The primary CPU gets number 0. -/
def setupPrimaryCpu : Imps UInt8 := do
  let spiv ← impsLapicRead pl lapicSpiv
  impsLapicWrite lapicSpiv (spiv ||| lapicSpivEnableApic)
  let reg ← impsLapicRead pl lapicId
  let id := apicId reg
  let s ← get
  let cpuApicMap ← lift (setCpu s.impsCpuApicMap 0 id)
  modify fun s => { s with impsCpuApicMap := cpuApicMap }
  let apicCpuMap ← lift (setCpu s.impsApicCpuMap id.toNat 0)
  modify fun s => { s with impsApicCpuMap := apicCpuMap }
  pure id

/-! ## The default configurations -/

/-- The static value of defconfig. -/
def defconfigBytes : List UInt8 :=
  let interrupt (type intType irq intin : UInt8) : List UInt8 :=
    [type, intType, 0, 0, 0, irq, 0xFF, intin]
  [impsBctProcessor, 0, 0, 0] ++ List.replicate 16 0 ++
    ([impsBctProcessor, 1, 0, 0] ++ List.replicate 16 0) ++
    ([impsBctBus, 0] ++ ascii "EISA  ") ++ ([255, 1] ++ ascii "PCI   ") ++
    ([impsBctIoapic, 0, 0, impsFlagEnabled] ++ leBytes 4 0xFEC00000) ++
    interrupt impsBctIoInterrupt 3 0 0 ++ interrupt impsBctIoInterrupt 0 1 1 ++
    interrupt impsBctIoInterrupt 0 0 2 ++
    (List.range' 3 13).flatMap (fun i =>
      interrupt impsBctIoInterrupt 0 (UInt8.ofNat i) (UInt8.ofNat i)) ++
    interrupt impsBctLocalInterrupt 3 15 0 ++ interrupt impsBctLocalInterrupt 1 15 1

/-- The address of defconfig.proc[i]. -/
def defaultProc (i : Nat) : Except Fault UInt32 :=
  if i < 2 then .ok (pl.defconfig + UInt32.ofNat (ImpsProcessor.size * i)) else .error .outOfBounds

def setDefaults (type : Nat) (id : UInt8) : Imps Unit := do
  log (.ioapicSelect ioapicId)
  storeBytes (pl.defconfig + 57) [apicId (pl.ioapic ioapicId)]
  log (.ioapicSelect ioapicVer)
  storeBytes (pl.defconfig + 58) [apicVersion (pl.ioapic ioapicVer)]
  let primary ← lift (defaultProc pl id.toNat)
  storeBytes (primary + ImpsProcessor.flags) [impsFlagEnabled ||| impsCpuflagBoot]
  let other ← lift (defaultProc pl (if id = 0 then 1 else 0))
  storeBytes (other + ImpsProcessor.flags) [impsFlagEnabled]
  modify fun s => { s with impsNumCpus := 2 }
  runIf (type = 1 ∨ type = 5) (storeBytes (pl.defconfig + 42) (ascii "ISA   "))
  runIf (type = 4 ∨ type = 7) (storeBytes (pl.defconfig + 42) (ascii "MCA   "))
  runIf (4 < type) do
    storeBytes (pl.defconfig + ImpsProcessor.apicVer) [0x10]
    storeBytes (pl.defconfig + 20 + ImpsProcessor.apicVer) [0x10]
    storeBytes (pl.defconfig + 48) [impsBctBus]
  runIf (type = 2) do
    storeBytes (pl.defconfig + 80) [255]
    storeBytes (pl.defconfig + 168) [255]
  runIf (type = 7) (storeBytes (pl.defconfig + 64) [255])

/-- The local APIC's address, of the configuration table or the default one. -/
def biosLapicAddr (m : Ram) (fps : UInt32) : UInt32 :=
  if load m fps Fps.cthPtr ≠ 0 then UInt32.ofNat (load m (cthAddr pl m fps) Cth.lapicAddr)
  else lapicAddrDefault

/-- The tables are read, the configuration table or the default one. -/
def readTables (fps : UInt32) (id : UInt8) : Imps Unit := do
  let s ← get
  let m := s.memory
  let cth := cthAddr pl m fps
  if load m fps Fps.cthPtr ≠ 0 then do
    kernelPrint (lit "  OEM id: " ++ [.str 0 (cstringOf (bytesAt m 8 (cth + 8) ++ [0]))] ++
      lit "  Product id: " ++ [.str 0 (cstringOf (bytesAt m 12 (cth + 16) ++ [0]))] ++ lit "\n")
    impsReadConfigTable pl (load m cth Cth.entryCount) (cth + UInt32.ofNat Cth.size)
  else do
    setDefaults pl (load m fps (Fps.featureInfo 0)) id
    impsReadConfigTable pl defEntries pl.defconfig

/-- The part of imps_read_bios behind the checks. -/
def startCpus (fps : UInt32) : Imps Unit := do
  let id ← setupPrimaryCpu pl
  readTables pl fps id
  modify fun s => { s with impsEnabled := true }

def impsReadBios (fps : UInt32) : Imps Unit := do
  let s ← get
  let m := s.memory
  kernelPrint (lit "Intel MultiProcessor Spec 1." ++ [.dec 0 (load m fps Fps.specRev)] ++
    lit " BIOS support detected\n")
  let bad ← impsBadBios pl fps
  if bad = true then kernelPrint (lit "    Disabling MPS support\n")
  else do
    let lapicAddr := biosLapicAddr pl m fps
    modify fun s => { s with impsLapicAddr := lapicAddr }
    kernelPrint (lit "    APIC config: \"" ++
      lit (if load m fps (Fps.featureInfo 1) &&& impsFpsImcrpBit.toNat ≠ 0 then "IMCR and PIC"
        else "Virtual Wire") ++
      lit " mode\"    Local APIC address: 0x" ++ [.hex space false 0 lapicAddr.toNat] ++ lit "\n")
    if lapicAddr ≠ pl.readMsrLo 0x1b &&& 0xFFFFF000 then
      kernelPrint (lit "Inconsistent Local APIC address, Disabling SMP support\n")
    else do
      modify fun s => { s with impsLapicAddr := pl.physToVirtual lapicAddr }
      startCpus pl fps

/-! ## The search for the floating pointer structure -/

/-- What imps_scan takes for the floating pointer structure. -/
def IsFps (m : Ram) (start : UInt32) : Prop :=
  load m (pl.physToVirtual start) Fps.sig = impsFpsSignature ∧
    load m (pl.physToVirtual start) Fps.length = 1 ∧
    (load m (pl.physToVirtual start) Fps.specRev = 1 ∨
      load m (pl.physToVirtual start) Fps.specRev = 4) ∧
    getChecksum m start 16 = 0

instance (m : Ram) (start : UInt32) : Decidable (IsFps pl m start) :=
  inferInstanceAs (Decidable (_ ∧ _))

def scanFrom : Nat → UInt32 → Imps Bool
  | 0, _ => pure false
  | n + 1, start => do
    let s ← get
    if IsFps pl s.memory start then do
      kernelPrint (lit "Found MP Floating Structure Pointer at " ++
        [.hex space false 0 start.toNat] ++ lit "\n")
      impsReadBios pl (pl.physToVirtual start)
      pure true
    else scanFrom n (start + 16)

/-- imps_scan; the length is a multiple of 16 in all calls. -/
def impsScan (start length : UInt32) : Imps Bool := do
  kernelPrint (lit "Scanning from 0x" ++ [.hex space false 0 start.toNat] ++ lit " for " ++
    [.dec 0 length.toNat] ++ lit " bytes\n")
  scanFrom pl (length.toNat / 16) start

/-- The amount of installed lower memory. -/
def memLower : Nat :=
  (((pl.cmosReadByte (cmosBaseMemory + 1)).toNat <<< 8) |||
    (pl.cmosReadByte cmosBaseMemory).toNat) <<< 10

/-- The address of the extended BIOS data area, or 0 where it cannot be right. -/
def ebdaAddr (m : Ram) : Nat :=
  let ebda := load m (pl.physToVirtual ebdaSegAddr) ⟨0, 2⟩ <<< 4
  if memLower pl - 1024 < ebda ∨
    memLower pl < ebda + (m (pl.physToVirtual (UInt32.ofNat ebda))).toNat * 1024 then 0
  else ebda

/-- The scan of the ROM, for when nothing has been found in low memory. -/
def scanRom (low : Bool) : Imps Bool :=
  if low = true then pure true else impsScan pl 0xF0000 0x10000

def impsProbe : Imps Nat := do
  modify fun s => { s with impsEnabled := false, impsNumCpus := 1 }
  let s ← get
  if memLower pl < 512 * 1024 ∨ 640 * 1024 < memLower pl then pure 0
  else do
    let ebda := ebdaAddr pl s.memory
    let low ← impsScan pl (UInt32.ofNat (if ebda ≠ 0 then ebda else memLower pl - 1024)) 1024
    let found ← scanRom pl low
    let s ← get
    pure (if found = true ∧ s.impsEnabled = true then s.impsNumCpus else 0)

/-! ## Starting without the tables -/

/-- The body of the loop of imps_force, with the local structure at address p. -/
def forceCpu (p : UInt32) (id : UInt8) (i : Nat) : Imps Unit := do
  storeBytes (p + ImpsProcessor.flags)
    [if id.toNat = i then impsFlagEnabled ||| impsCpuflagBoot else impsFlagEnabled]
  storeBytes (p + ImpsProcessor.apicId) [UInt8.ofNat i]
  addProcessor pl p

def impsForce (p : UInt32) (ncpus : Int) : Imps Nat := do
  kernelPrint (lit "Intel MultiProcessor \"Force\" Support\n")
  modify fun s => { s with impsLapicAddr := pl.physToVirtual (pl.readMsrLo 0x1b &&& 0xFFFFF000) }
  let id ← setupPrimaryCpu pl
  storeBytes p [impsBctProcessor]
  storeBytes (p + ImpsProcessor.apicVer) [0x10]
  storeBytes (p + 4) (leBytes 4 0 ++ leBytes 4 0)
  loop (forceCpu pl p id) ncpus.toNat 0
  let s ← get
  pure s.impsNumCpus

end PerfTools.Smp
