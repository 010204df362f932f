import Mathlib.Tactic.MkIffOfInductiveProp
import PerfTools.Lib.Exec
import PerfTools.Elf.BinBuffer

/-!
# A run of the ELF tools

Both tools read one regular file through lseek and read, allocate their buffers with malloc and
write to stderr, with messages to stdout. A run is a program over the file position, the tool's
own variables and a trace of what was written and read.

The trace says more than the tools print: each read carries what it is for, each dump the
record it belongs to and the pointer it was given. Nothing a tool computes depends on that.
-/

namespace PerfTools.Elf

open Memory Printf

/-- What memory and reads are for; the tables and sections are named by the header that
describes them. -/
inductive Target
  | object
  | header
  | nameHeader
  | nameTable (header : Ptr)
  | sectionHeader (i : Nat)
  | sectionTable
  | programTable
  | contents (header : Ptr)
  deriving DecidableEq, Repr

/-- The tables that are dumped record by record; some are described by a section header. -/
inductive RecordTable
  | sectionHeaders
  | programHeaders
  | symbols (header : Ptr)
  | dynamics (header : Ptr)
  deriving DecidableEq, Repr

inductive Event
  | text (t : Text)
  | dump (record : Option (RecordTable × Nat)) (offset size : UInt32) (data : Option Ptr) (t : Text)
  | perr (function message : String)
  | read (target : Target) (ok : Bool)
  | check (ok : Bool)
  deriving DecidableEq, Repr

/-- What an event writes to stderr. -/
def Event.stderr : Event → Text
  | .text t => t
  | .dump _ _ _ _ t => t
  | _ => []

/-- What the dumpers wrote, call by call. -/
def dumps (es : List Event) : List Text :=
  es.filterMap fun
    | .dump _ _ _ _ t => some t
    | _ => none

@[simp] theorem dumps_append (es fs : List Event) : dumps (es ++ fs) = dumps es ++ dumps fs := by
  simp [dumps]

/-- The system a tool runs on: the file, whether it can be opened, which requests for memory
succeed and what fresh memory holds. -/
structure Host where
  file : List UInt8
  canOpen : Bool
  malloc : Target → Nat → Bool
  junk : Target → Nat → UInt8

/-- The file can be opened and memory is never short. -/
structure Host.Healthy (host : Host) : Prop where
  canOpen : host.canOpen = true
  malloc : ∀ target n, host.malloc target n = true

/-- A system with one file on which nothing goes wrong. -/
def Host.ideal (file : List UInt8) : Host := ⟨file, true, fun _ _ => true, fun _ _ => 0⟩

theorem Host.ideal_healthy (file : List UInt8) : (Host.ideal file).Healthy := ⟨rfl, fun _ _ => rfl⟩

/-- A process; γ holds the tool's own variables. -/
structure Proc (γ : Type) where
  pos : Nat
  trace : List Event
  vars : γ

variable {γ : Type}

def emit (e : Event) : Exec (Proc γ) Unit :=
  Exec.modify fun s => { s with trace := s.trace ++ [e] }

def perr (function message : String) : Exec (Proc γ) Unit := emit (.perr function message)

/-- fprintf(stderr, ...) -/
def print (fmt : Format) : Exec (Proc γ) Unit := emit (.text (fmt.flatMap Directive.text))

def setVars (f : γ → γ) : Exec (Proc γ) Unit := Exec.modify fun s => { s with vars := f s.vars }

def vars : Exec (Proc γ) γ := fun s => (.ok s.vars, s)

/-- A call of a dumper. -/
def dumped (record : Option (RecordTable × Nat)) (offset size : UInt32) (data : Option Ptr)
    (x : Except Fault Text) : Exec (Proc γ) Unit := do
  let t ← Exec.lift x
  emit (.dump record offset size data t)

/-- lseek(fd, offset, SEEK_SET) on a regular file. A negative offset is refused. -/
def lseek (offset : Int) : Exec (Proc γ) Int := fun s =>
  if offset < 0 then (.ok (-1), s) else (.ok offset, { s with pos := offset.toNat })

/-- read(fd, buf, size) on a regular file: the count and the bytes stored. A negative size is a
count beyond the largest one and is refused. -/
def readFile (host : Host) (size : Int) : Exec (Proc γ) (Int × Block) := fun s =>
  if size < 0 then (.ok (-1, ⟨[], s.pos⟩), s)
  else
    let bytes := (host.file.drop s.pos).take size.toNat
    (.ok (bytes.length, ⟨bytes, s.pos⟩), { s with pos := s.pos + bytes.length })

/-- Allocated memory of n bytes of which the first ones have been filled. -/
def Host.memory (host : Host) (target : Target) (n : Nat) (filled : Block) : Block :=
  ⟨filled.bytes ++ (List.range' filled.bytes.length (n - filled.bytes.length)).map
    (host.junk target), filled.origin⟩

/-- The body that the two elf_file_read functions share; they differ in the width of the request
for memory and in how often they seek. -/
def fileRead (host : Host) (target : Target) (request : Nat) (seek : Exec (Proc γ) Int)
    (offset size : Int) : Exec (Proc γ) (Option Ptr) :=
  if host.malloc target request then do
    let at' ← seek
    if at' ≠ offset then
      perr "elf_file_read" "lseek"
      emit (.read target false)
      return none
    else
      let (n, filled) ← readFile host size
      if n ≠ size then
        perr "elf_file_read" "read"
        emit (.read target false)
        return none
      else
        emit (.read target true)
        return some ⟨host.memory target request filled, 0⟩
  else do
    perr "elf_file_read" "no memory"
    emit (.read target false)
    return none

/-- The file position after a seek that was not found to fail. -/
def seekTo (pos : Nat) (offset : Int) : Nat := if offset = -1 then pos else offset.toNat

theorem seekTo_natCast (pos offset : Nat) : seekTo pos offset = offset := by
  rw [seekTo, if_neg (by omega), Int.toNat_natCast]

/-- The bytes that a read stores. -/
def Host.filled (host : Host) (pos : Nat) (offset size : Int) : Block :=
  ⟨(host.file.drop (seekTo pos offset)).take size.toNat, seekTo pos offset⟩

/-- What a read gives, where it leaves the file position and what it reports. An offset or a
size of -1 equals the error return that it is compared with. -/
def Host.transfer (host : Host) (target : Target) (request pos : Nat) (offset size : Int) :
    Option Ptr × Nat × List Event :=
  if host.malloc target request then
    if offset < -1 then
      (none, pos, [.perr "elf_file_read" "lseek", .read target false])
    else if size < -1 ∨ (host.filled pos offset size).bytes.length < size then
      (none, seekTo pos offset + (host.filled pos offset size).bytes.length,
        [.perr "elf_file_read" "read", .read target false])
    else
      (some ⟨host.memory target request (host.filled pos offset size), 0⟩,
        seekTo pos offset + (host.filled pos offset size).bytes.length, [.read target true])
  else (none, pos, [.perr "elf_file_read" "no memory", .read target false])

@[simp] theorem emit_apply (e : Event) (s : Proc γ) :
    emit e s = (.ok (), { s with trace := s.trace ++ [e] }) := rfl

@[simp] theorem emit_bind {α : Type} (e : Event) (f : Unit → Exec (Proc γ) α) (s : Proc γ) :
    (emit e >>= f) s = f () { s with trace := s.trace ++ [e] } := rfl

section Rules

variable {α : Type} {E : Stop → Proc γ → Prop} {s : Proc γ}

@[simp] theorem wp_emit {Q : Unit → Proc γ → Prop} (e : Event) :
    Exec.wp (emit e) Q E s ↔ Q () { s with trace := s.trace ++ [e] } := Iff.rfl

@[simp] theorem wp_perr {Q : Unit → Proc γ → Prop} (function message : String) :
    Exec.wp (perr function message) Q E s ↔
      Q () { s with trace := s.trace ++ [.perr function message] } := Iff.rfl

theorem wp_runIf_perr {Q : Unit → Proc γ → Prop} {c : Prop} [Decidable c]
    (function message : String) :
    Exec.wp (Exec.runIf c (perr function message)) Q E s ↔
      Q () { s with trace := s.trace ++ if c then [.perr function message] else [] } := by
  unfold Exec.runIf
  split_ifs
  · rfl
  · rw [List.append_nil, Exec.wp_pure]

@[simp] theorem wp_print {Q : Unit → Proc γ → Prop} (fmt : Format) :
    Exec.wp (print fmt) Q E s ↔
      Q () { s with trace := s.trace ++ [.text (fmt.flatMap Directive.text)] } := Iff.rfl

@[simp] theorem wp_setVars {Q : Unit → Proc γ → Prop} (f : γ → γ) :
    Exec.wp (setVars f) Q E s ↔ Q () { s with vars := f s.vars } := Iff.rfl

@[simp] theorem wp_vars {Q : γ → Proc γ → Prop} : Exec.wp vars Q E s ↔ Q s.vars s := Iff.rfl

end Rules

private theorem seek_check {seek : Exec (Proc γ) Int} {offset : Int}
    (hseek : ∀ s, seek s = lseek offset s) (s : Proc γ) :
    (offset < -1 ∧ seek s = (.ok (-1), s)) ∨ (-1 ≤ offset ∧
      seek s = (.ok offset, { s with pos := seekTo s.pos offset })) := by
  rw [hseek, lseek, seekTo]
  by_cases hneg : offset < -1
  · exact Or.inl ⟨hneg, if_pos (by omega)⟩
  · refine Or.inr ⟨by omega, ?_⟩
    by_cases hone : offset = -1
    · simp [hone]
    · rw [if_neg (by omega), if_neg hone]

private theorem readFile_check (host : Host) (offset size : Int) {s : Proc γ} {pos : Nat}
    (hpos : s.pos = seekTo pos offset) :
    ((size < -1 ∨ (host.filled pos offset size).bytes.length < size) ∧
      ∃ n b, n ≠ size ∧ readFile host size s = (.ok (n, b),
        { s with pos := seekTo pos offset + (host.filled pos offset size).bytes.length })) ∨
    (¬(size < -1 ∨ (host.filled pos offset size).bytes.length < size) ∧
      readFile host size s = (.ok (size, host.filled pos offset size),
        { s with pos := seekTo pos offset + (host.filled pos offset size).bytes.length })) := by
  have hfilled : host.filled pos offset size = ⟨(host.file.drop s.pos).take size.toNat, s.pos⟩ := by
    rw [Host.filled, hpos]
  have hle : (host.filled pos offset size).bytes.length ≤ size.toNat := by simp [Host.filled]
  unfold readFile
  by_cases hneg : size < 0
  · have hnil : size.toNat = 0 := by omega
    have hbytes : host.filled pos offset size = ⟨[], s.pos⟩ := by
      rw [hfilled, hnil, List.take_zero]
    rw [if_pos hneg, hbytes, ← hpos]
    by_cases hone : size = -1
    · exact Or.inr ⟨by simp [hone], by simp [hone]⟩
    · exact Or.inl ⟨Or.inl (by omega), -1, ⟨[], s.pos⟩, by omega, by simp⟩
  · rw [if_neg hneg, ← hpos]
    by_cases hshort : (host.filled pos offset size).bytes.length < size
    · refine Or.inl ⟨Or.inr hshort, (host.filled pos offset size).bytes.length,
        host.filled pos offset size, by omega, ?_⟩
      simp only [hfilled]
    · refine Or.inr ⟨by omega, ?_⟩
      have heq : ((host.filled pos offset size).bytes.length : Int) = size := by omega
      simp only [hfilled] at heq ⊢
      rw [heq]

theorem fileRead_apply (host : Host) (target : Target) (request : Nat) {seek : Exec (Proc γ) Int}
    {offset : Int} (hseek : ∀ s, seek s = lseek offset s) (size : Int) (s : Proc γ) :
    fileRead host target request seek offset size s =
      (.ok (host.transfer target request s.pos offset size).1,
        ⟨(host.transfer target request s.pos offset size).2.1,
          s.trace ++ (host.transfer target request s.pos offset size).2.2, s.vars⟩) := by
  unfold fileRead Host.transfer
  by_cases hmalloc : host.malloc target request = true
  · simp only [hmalloc, if_true]
    rcases seek_check hseek s with ⟨hneg, hrun⟩ | ⟨hok, hrun⟩
    · simp only [Exec.bind_apply, hrun, perr, if_pos hneg, show (-1 : Int) ≠ offset by omega,
        ne_eq, not_false_eq_true, if_true, emit_apply, List.append_assoc]
      rfl
    · simp only [Exec.bind_apply, hrun, ne_eq, not_true_eq_false, if_false,
        if_neg (show ¬offset < -1 by omega)]
      have hpos : ({ s with pos := seekTo s.pos offset } : Proc γ).pos = seekTo s.pos offset := rfl
      rcases readFile_check host offset size hpos with
        ⟨hbad, n, b, hn, hread⟩ | ⟨hgood, hread⟩
      · simp only [hread, hn, not_false_eq_true, if_true, perr, emit_bind, if_pos hbad,
          List.append_assoc]
        rfl
      · simp only [hread, not_true_eq_false, if_false, emit_bind, if_neg hgood]
        rfl
  · simp only [hmalloc, Bool.false_eq_true, if_false, perr, emit_bind, List.append_assoc]
    rfl

/-- What a read that succeeds has put under its pointer. -/
structure Fetched (host : Host) (offset size : Int) (p : Ptr) : Prop where
  off : p.off = 0
  offset_ge : -1 ≤ offset
  position : offset ≠ -1 → (p.position : Int) = offset
  length : 0 ≤ size → p.tail.length = size.toNat
  bytes : 0 ≤ size → p.tail = (host.file.drop p.position).take size.toNat

namespace Fetched

variable {host : Host} {offset size : Int} {p : Ptr}

theorem views (h : Fetched host offset size p) (hsize : 0 ≤ size) :
    p.Views host.file size.toNat := by
  refine ⟨(h.length hsize).ge, ?_⟩
  rw [List.take_of_length_le (h.length hsize).le]
  exact h.bytes hsize

theorem get_eq (h : Fetched host offset size p) (hoffset : 0 ≤ offset) (hsize : 0 ≤ size)
    {f : Field} {n : Nat} (hn : p.get f = .ok n) : n = fieldAt host.file offset.toNat f := by
  have hin := (Ptr.get_eq_ok hn).1
  have hposition := h.position (by omega)
  rw [h.length hsize] at hin
  rw [Ptr.get_of_views (h.views hsize) hin] at hn
  rw [← Except.ok.inj hn, show p.position = offset.toNat by omega]

theorem position_eq {offset n : Nat} (h : Fetched host (toInt offset) size p)
    (hoffset : offset < 2 ^ 32) (hn : 2 ≤ n) (hinside : offset + n ≤ host.file.length)
    (hfile : host.file.length ≤ 2 ^ 32) : offset < 2 ^ 31 ∧ p.position = offset := by
  have hge := h.offset_ge
  have hcases := toInt_cases hoffset
  have hat : offset < 2 ^ 31 ∧ toInt offset = offset := by omega
  have hposition := h.position (by omega)
  exact ⟨hat.1, by omega⟩

end Fetched

namespace Host

variable {host : Host} {target : Target} {request pos : Nat} {offset size : Int}

theorem memory_full {b : Block} (h : b.bytes.length = request) :
    host.memory target request b = b := by
  simp [memory, h]

theorem transfer_fetched (hrequest : 0 ≤ size → request = size.toNat) {p : Ptr}
    (h : (host.transfer target request pos offset size).1 = some p) :
    Fetched host offset size p := by
  unfold transfer at h
  split_ifs at h with hmalloc hseek hread
  have hp := (Option.some.inj h).symm
  have hfull : 0 ≤ size →
      (host.filled pos offset size).bytes.length = size.toNat := by
    intro hsize
    have hle : (host.filled pos offset size).bytes.length ≤ size.toNat := by simp [filled]
    omega
  refine ⟨by rw [hp], by omega, fun hne => ?_, fun hsize => ?_, fun hsize => ?_⟩
  · rw [hp, Ptr.position, memory, filled, seekTo, if_neg hne]
    simp
    omega
  · rw [hp, memory_full (by rw [hfull hsize, hrequest hsize]), Ptr.tail, List.drop_zero, hfull hsize]
  · rw [hp, memory_full (by rw [hfull hsize, hrequest hsize])]
    simp [Ptr.tail, Ptr.position, filled]

theorem transfer_inside (hmalloc : host.malloc target request = true) {offset size : Nat}
    (hrequest : request = size) (hinside : size = 0 ∨ offset + size ≤ host.file.length) :
    host.transfer target request pos offset size =
      (some (chunk host.file offset size), offset + size, [.read target true]) := by
  have hlen : ((host.file.drop offset).take size).length = size := by simp; omega
  have hfilled : host.filled pos offset size = ⟨(host.file.drop offset).take size, offset⟩ := by
    rw [filled, seekTo_natCast, Int.toNat_natCast]
  unfold transfer
  rw [if_pos hmalloc, if_neg (by omega), hfilled, hlen, if_neg (by omega),
    memory_full (by rw [hlen, hrequest]), seekTo_natCast, chunk]

theorem transfer_outside {offset size : Nat} (hsize : 0 < size)
    (houtside : host.file.length < offset + size) :
    (host.transfer target request pos offset size).1 = none := by
  unfold transfer
  split_ifs with hmalloc hseek hread
  · rfl
  · rfl
  · rw [filled, seekTo_natCast] at hread
    simp at hread
    omega
  · rfl

variable (host target request pos offset size) in
/-- A read reports itself last, and messages only when it fails. -/
theorem transfer_events : ∃ messages : List String,
    (host.transfer target request pos offset size).2.2 =
      messages.map (.perr "elf_file_read") ++
        [.read target (host.transfer target request pos offset size).1.isSome] := by
  unfold transfer
  split_ifs
  · exact ⟨["lseek"], rfl⟩
  · exact ⟨["read"], rfl⟩
  · exact ⟨[], rfl⟩
  · exact ⟨["no memory"], rfl⟩

theorem transfer_reports : .read target (host.transfer target request pos offset size).1.isSome ∈
    (host.transfer target request pos offset size).2.2 := by
  obtain ⟨messages, hevents⟩ := host.transfer_events target request pos offset size
  rw [hevents]
  simp

theorem dumps_transfer : dumps (host.transfer target request pos offset size).2.2 = [] := by
  unfold transfer
  split_ifs <;> rfl

end Host

/-! ## Reads that succeed -/

/-- There is memory for the read, and the file has the bytes behind the offset. -1 is what lseek
and read return for an error, and passes for success when it is what was asked for. -/
@[mk_iff]
structure Served (host : Host) (target : Target) (request pos : Nat) (offset size : Int) :
    Prop where
  memory : host.malloc target request = true
  sought : -1 ≤ offset
  count : -1 ≤ size
  inside : size.toNat ≤ host.file.length - seekTo pos offset

section

variable {host : Host} {target : Target} {request pos : Nat} {offset size : Int}

theorem Host.filled_length (host : Host) (pos : Nat) (offset size : Int) :
    (host.filled pos offset size).bytes.length =
      min size.toNat (host.file.length - seekTo pos offset) := by
  rw [Host.filled, List.length_take, List.length_drop]

theorem Served.filled_length (h : Served host target request pos offset size) :
    (host.filled pos offset size).bytes.length = size.toNat := by
  rw [host.filled_length, Nat.min_eq_left h.inside]

theorem Served.transfer (h : Served host target request pos offset size) :
    host.transfer target request pos offset size =
      (some ⟨host.memory target request (host.filled pos offset size), 0⟩,
        seekTo pos offset + size.toNat, [.read target true]) := by
  have hlen := h.filled_length
  have hsought := h.sought
  have hcount := h.count
  rw [Host.transfer, if_pos h.memory, if_neg (by omega), if_neg (by omega), hlen]

theorem transfer_isSome : (host.transfer target request pos offset size).1.isSome ↔
    Served host target request pos offset size := by
  have hlen := host.filled_length pos offset size
  rw [served_iff]
  unfold Host.transfer
  split_ifs with hmemory hseek hread
  · exact iff_of_false Bool.false_ne_true fun h => by omega
  · exact iff_of_false Bool.false_ne_true fun h => by omega
  · exact iff_of_true rfl ⟨hmemory, by omega, by omega, by omega⟩
  · exact iff_of_false Bool.false_ne_true fun h => hmemory h.1

theorem transfer_unserved (h : ¬ Served host target request pos offset size) :
    (host.transfer target request pos offset size).1 = none ∧
      .read target false ∈ (host.transfer target request pos offset size).2.2 := by
  have hnone : (host.transfer target request pos offset size).1 = none :=
    Option.not_isSome_iff_eq_none.mp (transfer_isSome.not.mpr h)
  have hreports : .read target (host.transfer target request pos offset size).1.isSome ∈
    (host.transfer target request pos offset size).2.2 := Host.transfer_reports
  rw [hnone] at hreports
  exact ⟨hnone, hreports⟩

end

theorem Served.memory_eq {host : Host} {target : Target} {pos size : Nat} {offset : Int}
    (h : Served host target size pos offset size) :
    (⟨host.memory target size (host.filled pos offset size), 0⟩ : Ptr) =
      chunk host.file (seekTo pos offset) size := by
  have hlen : (host.filled pos offset size).bytes.length = size := h.filled_length
  rw [Host.memory_full hlen]
  rfl

end PerfTools.Elf
