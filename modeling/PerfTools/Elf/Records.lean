import PerfTools.Elf.Tracing

/-!
# Records and their labels

The file dump shows three tables record by record, and labels each record with a position in the
file. Every walker computes its label in its own way. The section headers and the dynamic entries
compute it from the index; the symbols add i records to the previous label, which leaves the
right sequence after the second symbol.
-/

namespace PerfTools.Elf

open Memory Printf Exec

namespace RecordTable

/-- Where a table starts in the file. -/
def offset (src : List UInt8) : RecordTable → Nat
  | .sectionHeaders => ehdr src Ehdr.eShoff
  | .programHeaders => ehdr src Ehdr.ePhoff
  | .symbols header => fieldAt header.tail 0 Shdr.shOffset
  | .dynamics header => fieldAt header.tail 0 Shdr.shOffset

def recordSize (src : List UInt8) : RecordTable → Nat
  | .sectionHeaders => ehdr src Ehdr.eShentsize
  | .programHeaders => ehdr src Ehdr.ePhentsize
  | .symbols _ => Sym.size
  | .dynamics _ => Dyn.size

def size (src : List UInt8) : RecordTable → Nat
  | .sectionHeaders => ehdr src Ehdr.eShnum * ehdr src Ehdr.eShentsize
  | .programHeaders => ehdr src Ehdr.ePhnum * ehdr src Ehdr.ePhentsize
  | .symbols header => fieldAt header.tail 0 Shdr.shSize
  | .dynamics header => fieldAt header.tail 0 Shdr.shSize

/-- The table lies in a file whose positions 32 bits can count. -/
def Inside (src : List UInt8) (table : RecordTable) : Prop :=
  table.offset src + table.size src ≤ src.length ∧ src.length ≤ 2 ^ 32

/-- The records whose label is their position. -/
def LabelHolds : RecordTable → Nat → Prop
  | .symbols _, i => i ≤ 1
  | _, _ => True

end RecordTable

/-- The dump of size bytes at p shows record i of the table under the position of the record. -/
structure LabelledByPosition (src : List UInt8) (table : RecordTable) (i : Nat)
    (label size : UInt32) (p : Ptr) : Prop where
  bytes : p.Views src size.toNat
  position : p.position = table.offset src + i * table.recordSize src
  label : label.toNat = p.position

/-- What holds of each event of a file dump. -/
def LabelRule (src : List UInt8) : Event → Prop
  | .dump (some (table, i)) label size (some p) _ =>
    table.Inside src → (LabelledByPosition src table i label size p ↔ table.LabelHolds i)
  | _ => True

theorem labelRule_quiet (src : List UInt8) (e : Event) (h : e.Quiet) : LabelRule src e := by
  unfold LabelRule
  split
  · exact absurd h id
  · trivial

/-! ## The labels -/

section

variable {host : Host} {label size : UInt32} {p : Ptr} {i : Nat}

private theorem labelled_of {src : List UInt8} {table : RecordTable} {n : Nat}
    (hbytes : p.Views src n) (hsize : size.toNat ≤ n)
    (hposition : p.position = table.offset src + i * table.recordSize src)
    (hlabel : label.toNat = p.position ↔ table.LabelHolds i) :
    LabelledByPosition src table i label size p ↔ table.LabelHolds i :=
  ⟨fun h => hlabel.mp h.label,
    fun h => ⟨Ptr.views_mono hbytes hsize, hposition, hlabel.mpr h⟩⟩

private theorem sectionHeader_label {offsetInFile distance : Int}
    (hp : Fetched host (toInt (ehdr host.file Ehdr.eShoff) + i * ehdr host.file Ehdr.eShentsize)
      (ehdr host.file Ehdr.eShentsize) p) (hi : i < ehdr host.file Ehdr.eShnum)
    (hdistance : checked (i * ehdr host.file Ehdr.eShentsize) = .ok distance)
    (hoffset : checked (toInt (ehdr host.file Ehdr.eShoff) + distance) = .ok offsetInFile)
    (hread : Shdr.size ≤ p.tail.length) :
    RecordTable.sectionHeaders.Inside host.file →
      (LabelledByPosition host.file .sectionHeaders i (toUnsigned offsetInFile)
        (UInt32.ofNat Shdr.size) p ↔ RecordTable.sectionHeaders.LabelHolds i) := by
  rintro ⟨hinside, hfile⟩
  simp only [RecordTable.offset, RecordTable.size] at hinside
  obtain ⟨rfl, -, -⟩ := checked_eq_ok hdistance
  obtain ⟨rfl, -, hlt⟩ := checked_eq_ok hoffset
  have hge := hp.offset_ge
  have hentsize := hp.length (by omega)
  rw [Int.toNat_natCast] at hentsize
  have hlast : (i + 1) * ehdr host.file Ehdr.eShentsize ≤
      ehdr host.file Ehdr.eShnum * ehdr host.file Ehdr.eShentsize := Nat.mul_le_mul_right _ hi
  rw [Nat.succ_mul] at hlast
  have hshoff := toInt_cases (ehdr_lt_word host.file (f := Ehdr.eShoff) rfl)
  rw [Shdr.size] at hread
  have hat : toInt (ehdr host.file Ehdr.eShoff) + (i * ehdr host.file Ehdr.eShentsize : Nat) =
      (ehdr host.file Ehdr.eShoff + i * ehdr host.file Ehdr.eShentsize : Nat) := by
    push_cast at hge ⊢
    omega
  push_cast at hat hlt
  have hposition := hp.position (by omega)
  rw [hat] at hposition hlt
  refine labelled_of (hp.views (by omega)) ?_ ?_ ?_
  · rw [show (UInt32.ofNat Shdr.size).toNat = 40 by decide]
    omega
  · simp only [RecordTable.offset, RecordTable.recordSize]
    omega
  · rw [hat, toUnsigned_toNat (by omega) (by omega)]
    exact ⟨fun _ => trivial, fun _ => by omega⟩

private theorem entry_position {offset size recordSize : Nat} {buf : Ptr}
    (hbuf : Fetched host (toInt offset) (toInt size) buf) (hoffset : offset < 2 ^ 32)
    (hinside : offset + size ≤ host.file.length) (hfile : host.file.length ≤ 2 ^ 32)
    (hrecord : 2 ≤ recordSize) (hsize : size < 2 ^ 31) (hi : i * recordSize + recordSize ≤ size) :
    offset < 2 ^ 31 ∧ (buf.add (i * recordSize)).position = offset + i * recordSize ∧
      (buf.add (i * recordSize)).Views host.file recordSize := by
  obtain ⟨hlt, hposition⟩ := hbuf.position_eq hoffset (by omega : 2 ≤ size) hinside hfile
  have hviews := hbuf.views (by rw [toInt_of_lt hsize]; omega)
  rw [toInt_of_lt hsize, Int.toNat_natCast] at hviews
  exact ⟨hlt, by rw [Ptr.add_position, hposition], Ptr.views_add (Ptr.views_mono hviews hi)⟩

private theorem symbol_label {header buf : Ptr} {offset size : Nat} {offsetInFile : Int}
    (hbuf : Fetched host (toInt offset) (toInt size) buf)
    (hoffset : header.get Shdr.shOffset = .ok offset) (hsize : header.get Shdr.shSize = .ok size)
    (hi : i * Sym.size + Sym.size ≤ size) (hlt : size < 2 ^ 31)
    (hlabel : offsetInFile = toInt offset + (8 * (i * (i + 1)) : Nat))
    (hrange : -2 ^ 31 ≤ offsetInFile ∧ offsetInFile < 2 ^ 31) :
    (RecordTable.symbols header).Inside host.file →
      (LabelledByPosition host.file (.symbols header) i (toUnsigned offsetInFile)
        (UInt32.ofNat Sym.size) (buf.add (i * Sym.size)) ↔
          (RecordTable.symbols header).LabelHolds i) := by
  rintro ⟨hinside, hfile⟩
  obtain ⟨-, rfl⟩ := Ptr.get_eq_ok hoffset
  obtain ⟨-, rfl⟩ := Ptr.get_eq_ok hsize
  simp only [RecordTable.offset, RecordTable.size] at hinside
  obtain ⟨hoff, hposition, hviews⟩ := entry_position hbuf (fieldAt_lt _ _ Shdr.shOffset) hinside hfile
    (by decide) hlt hi
  rw [toInt_of_lt hoff] at hlabel
  refine labelled_of hviews (by decide) hposition ?_
  rw [toUnsigned_toNat (by omega) (by omega), hposition, RecordTable.LabelHolds, hlabel, Sym.size]
  have hzero : (fieldAt header.tail 0 Shdr.shOffset : Int) + (8 * (i * (i + 1)) : Nat) =
      (fieldAt header.tail 0 Shdr.shOffset + 8 * (i * (i + 1)) : Nat) := by push_cast; ring
  rw [hzero, Int.toNat_natCast]
  rcases Nat.lt_or_ge i 2 with hsmall | hlarge
  · interval_cases i <;> simp
  · have hmul : i * 3 ≤ i * (i + 1) := Nat.mul_le_mul_left i (by omega)
    constructor <;> intro h <;> omega

private theorem dynNum_bound {n : Nat} (hn : n < 2 ^ 32) (hi : i < (dynNum n).toNat) :
    n < 2 ^ 31 ∧ i * Dyn.size + Dyn.size ≤ n := by
  rw [dynNum, Dyn.size] at hi
  rw [Dyn.size]
  rcases toInt_cases hn with ⟨hlt, hcast⟩ | ⟨hge, hcast⟩
  · have hnum : (toInt n % 2 ^ 64).toNat = n := by omega
    rw [hnum, toInt_of_lt (by omega)] at hi
    omega
  · have hnum : (toInt n % 2 ^ 64).toNat = n + (2 ^ 64 - 2 ^ 32) := by omega
    rw [hnum, toInt] at hi
    split_ifs at hi <;> omega

private theorem dynamic_label {header buf : Ptr} {offset size : Nat}
    (hbuf : Fetched host (toInt offset) (toInt size) buf)
    (hoffset : header.get Shdr.shOffset = .ok offset) (hsize : header.get Shdr.shSize = .ok size)
    (hi : i < (dynNum size).toNat) :
    (RecordTable.dynamics header).Inside host.file →
      (LabelledByPosition host.file (.dynamics header) i (UInt32.ofNat (offset + i * Dyn.size))
        (UInt32.ofNat Dyn.size) (buf.add (i * Dyn.size)) ↔
          (RecordTable.dynamics header).LabelHolds i) := by
  rintro ⟨hinside, hfile⟩
  obtain ⟨-, rfl⟩ := Ptr.get_eq_ok hoffset
  obtain ⟨-, rfl⟩ := Ptr.get_eq_ok hsize
  simp only [RecordTable.offset, RecordTable.size] at hinside
  obtain ⟨hlt, hin⟩ := dynNum_bound (fieldAt_lt _ _ Shdr.shSize) hi
  obtain ⟨hoff, hposition, hviews⟩ := entry_position hbuf (fieldAt_lt _ _ Shdr.shOffset) hinside hfile
    (by decide) hlt hin
  refine labelled_of hviews (by decide) hposition ⟨fun _ => trivial, fun _ => ?_⟩
  rw [hposition, UInt32.toNat_ofNat', Nat.mod_eq_of_lt]
  rw [Dyn.size] at hin ⊢
  omega

end

/-! ## The file dump -/

section

variable {host : Host}

/-- The variables and the trace between two steps of the file dump. -/
private abbrev Traced (host : Host) : Proc ElfVars → Prop :=
  Tracing (HeadsRead host) (LabelRule host.file)

private theorem traced_unaffected : Unaffected (Traced host) :=
  Tracing.unaffected HeadsRead.withScreen (labelRule_quiet host.file)

private theorem keeps_read_bind {α : Type} {target : Target} {offset size : Int}
    (htarget : ∀ p, target ≠ .nameTable p) (hsize : size < 2 ^ 32) {R : α → Prop}
    {f : Option Ptr → ElfRun α}
    (h : ∀ p, (∀ q, p = some q → Fetched host offset size q) → Yields (Traced host) R (f p)) :
    Yields (Traced host) R (elfFileRead host target offset size >>= f) :=
  keeps_elfFileRead_bind (labelRule_quiet host.file) htarget hsize h

private theorem keeps_print (fmt : Format) : Keeps (Traced host) (print fmt) :=
  Tracing.emit trivial

private theorem keeps_elfSectionHeaderDump {i : Nat} {header sectionName : Option Ptr}
    {offsetInFile : Int} (h : ∀ p, header = some p → Shdr.size ≤ p.tail.length →
      ∀ t, LabelRule host.file (.dump (some (.sectionHeaders, i)) (toUnsigned offsetInFile)
        (UInt32.ofNat Shdr.size) (some p) t)) :
    Keeps (Traced host) (elfSectionHeaderDump i header sectionName offsetInFile) := by
  refine Yields.lift_bind fun shName _ => Yields.lift_bind fun name _ => ?_
  refine Keeps.bind (keeps_binPrintf traced_unaffected.screen _ _) fun _ => ?_
  refine Keeps.bind (keeps_printMember traced_unaffected.screen _ _ _ _ _ _) fun _ => ?_
  refine Yields.lift_bind fun shOffset _ => Yields.lift_bind fun shSize _ => ?_
  refine Keeps.bind (keeps_binPrintf traced_unaffected.screen _ _) fun _ => ?_
  refine Keeps.bind (keeps_printMember traced_unaffected.screen _ _ _ _ _ _) fun _ => ?_
  refine Tracing.dumpWithBuffer HeadsRead.withScreen fun screen x hx => ?_
  cases header with
  | none => trivial
  | some p => exact h p rfl (Screen.dump_readable (by decide) hx) x.1

private theorem keeps_dumpSectionHead {i : Nat} (hi : i < ehdr host.file Ehdr.eShnum) :
    Keeps (Traced host) (dumpSectionHead i) := by
  refine Tracing.vars_bind fun v hv => ?_
  refine Yields.lift_bind fun distance hdistance => Yields.lift_bind fun offsetInFile hoffset => ?_
  refine Yields.lift_bind fun head hhead => keeps_elfSectionHeaderDump fun p hp hread t => ?_
  rw [hv.size] at hdistance
  rw [hv.offset] at hoffset
  have hslot : v.elfSectionHead[i]? = some (some p) := by
    unfold slot at hhead
    rw [if_neg (by omega), Int.toNat_natCast] at hhead
    cases hget : v.elfSectionHead[i]? with
    | none => rw [hget] at hhead; cases hhead
    | some q => rw [hget] at hhead; rw [Except.ok.inj hhead, hp]
  exact sectionHeader_label (hv.heads i p hslot).1 hi hdistance hoffset hread

private theorem yields_dumpSymbol {header : Ptr} {symBuf strtab : Option Ptr} {i : Nat}
    {offsetInFile : Int} (h : ∀ q, symBuf = some q → -2 ^ 31 ≤ offsetInFile + i * Sym.size →
      offsetInFile + i * Sym.size < 2 ^ 31 → ∀ t, LabelRule host.file
        (.dump (some (.symbols header, i)) (toUnsigned (offsetInFile + i * Sym.size))
          (UInt32.ofNat Sym.size) (some (q.add (i * Sym.size))) t)) :
    Yields (Traced host) (fun next => next = offsetInFile + i * Sym.size)
      (dumpSymbol header symBuf strtab i offsetInFile) := by
  unfold dumpSymbol
  refine Yields.lift_bind fun distance hdistance => Yields.lift_bind fun next hnext => ?_
  obtain ⟨rfl, -, -⟩ := checked_eq_ok hdistance
  obtain ⟨rfl, hge, hlt⟩ := checked_eq_ok hnext
  refine Yields.lift_bind fun buf hbuf => Yields.lift_bind fun stName _ => ?_
  refine Yields.lift_bind fun name _ => Keeps.bind (keeps_print _) fun _ => ?_
  refine Yields.lift_bind fun stValue _ => Yields.lift_bind fun stSize _ => ?_
  refine Yields.lift_bind fun stShndx _ => Keeps.bind (keeps_print _) fun _ => ?_
  refine Keeps.bind (keeps_print _) fun _ => Yields.lift_bind fun stInfo _ => ?_
  refine Keeps.bind (keeps_print _) fun _ => Yields.lift_bind fun stOther _ => ?_
  refine Keeps.bind (keeps_print _) fun _ => Keeps.bind (keeps_print _) fun _ => ?_
  refine Keeps.bind (Tracing.dumped fun t _ => ?_) fun _ =>
    Keeps.bind (keeps_print _) fun _ => Yields.pure rfl
  cases symBuf with
  | none => cases hbuf
  | some q =>
    rw [← Except.ok.inj hbuf]
    exact h q rfl hge hlt t

/-- Before symbol i the running label is eight times i (i - 1) behind the start of the table. -/
private theorem yields_dumpSymbols {header : Ptr} {symBuf strtab : Option Ptr} {offset size n : Nat}
    (hbuf : ∀ q, symBuf = some q → Fetched host (toInt offset) (toInt size) q)
    (hoffset : header.get Shdr.shOffset = .ok offset) (hsize : header.get Shdr.shSize = .ok size)
    (hlt : 0 < n → size < 2 ^ 31) (hn : n * Sym.size ≤ size) :
    Yields (Traced host) (fun _ => True)
      (fold (dumpSymbol header symBuf strtab) n 0 (toInt offset)) := by
  refine Yields.keeps (Yields.fold (fun i (label : Int) =>
    label = toInt offset + (8 * (i * (i - 1)) : Nat)) ?_ (by simp))
  intro i label _ hi hlabel
  have hentry : i * Sym.size + Sym.size ≤ size := by
    have hlast : (i + 1) * Sym.size ≤ n * Sym.size := Nat.mul_le_mul_right _ (by omega)
    rw [Nat.succ_mul] at hlast
    omega
  have hnext : label + i * Sym.size = toInt offset + (8 * (i * (i + 1)) : Nat) := by
    rw [hlabel, Sym.size]
    cases i with
    | zero => simp
    | succ i => push_cast; ring
  have hresult : label + i * Sym.size = toInt offset + (8 * ((i + 1) * (i + 1 - 1)) : Nat) := by
    rw [hnext, Nat.add_sub_cancel, Nat.mul_comm (i + 1)]
  rw [← hresult]
  refine yields_dumpSymbol fun q hq hge hrange t => ?_
  exact symbol_label (hbuf q hq) hoffset hsize hentry (hlt (by omega)) hnext ⟨hge, hrange⟩

private theorem symNum_bound {size : Nat} {symNum : Int} (hlt : size < 2 ^ 32)
    (h : intDiv (toInt size) Sym.size = .ok symNum) :
    symNum.toNat = 0 ∨ size < 2 ^ 31 ∧ symNum.toNat * Sym.size ≤ size := by
  have hdiv : symNum = (toInt size).tdiv Sym.size := (checked_eq_ok h).1
  rw [Sym.size] at hdiv ⊢
  rcases toInt_cases hlt with ⟨hsmall, hcast⟩ | ⟨hlarge, hcast⟩
  · rw [hcast, Int.tdiv_eq_ediv_of_nonneg (by omega)] at hdiv
    omega
  · have hneg : (toInt size).tdiv (16 : Nat) = -((-toInt size) / (16 : Nat)) := by
      rw [← Int.tdiv_eq_ediv_of_nonneg (by omega), Int.neg_tdiv, neg_neg]
    omega

private theorem keeps_elfDumpSymtab {head : Ptr} {symBuf strtab : Option Ptr} {offset size : Nat}
    (hbuf : ∀ q, symBuf = some q → Fetched host (toInt offset) (toInt size) q)
    (hoffset : head.get Shdr.shOffset = .ok offset) (hsize : head.get Shdr.shSize = .ok size) :
    Keeps (Traced host) (elfDumpSymtab (some head) symBuf strtab) := by
  refine Yields.lift_bind fun header hheader => ?_
  rw [← Except.ok.inj hheader]
  refine Yields.lift_bind fun shOffset h1 => Yields.lift_bind fun shSize h2 => ?_
  rw [hoffset] at h1
  rw [hsize] at h2
  rw [← Except.ok.inj h1, ← Except.ok.inj h2]
  refine Yields.lift_bind fun shEntsize _ => Yields.lift_bind fun symNum hnum => ?_
  refine Yields.guard_bind fun hentsize => Yields.guard_bind fun _ => ?_
  refine Keeps.bind (keeps_print _) fun _ => Keeps.bind (keeps_print _) fun _ => ?_
  have hlt : size < 2 ^ 32 := by
    rw [(Ptr.get_eq_ok hsize).2]
    exact fieldAt_lt _ _ Shdr.shSize
  have hfits : symNum.toNat = 0 ∨ size < 2 ^ 31 ∧ symNum.toNat * Sym.size ≤ size := by
    rw [not_not.mp hentsize] at hnum
    exact symNum_bound hlt hnum
  refine Keeps.bind (yields_dumpSymbols hbuf hoffset hsize ?_ ?_) fun _ => Yields.pure trivial
  · omega
  · rcases hfits with hzero | hfits
    · rw [hzero]
      omega
    · exact hfits.2

private theorem keeps_elfDynamicDump {head : Ptr} {buf : Option Ptr} {offset size : Nat}
    (hbuf : ∀ q, buf = some q → Fetched host (toInt offset) (toInt size) q)
    (hoffset : head.get Shdr.shOffset = .ok offset) (hsize : head.get Shdr.shSize = .ok size) :
    Keeps (Traced host) (elfDynamicDump (some head) buf) := by
  refine Yields.lift_bind fun header hheader => ?_
  rw [← Except.ok.inj hheader]
  refine Yields.lift_bind fun shSize h2 => Keeps.loop fun i _ hi => ?_
  rw [hsize] at h2
  rw [← Except.ok.inj h2] at hi
  refine Keeps.bind (keeps_binPrintf traced_unaffected.screen _ _) fun _ => ?_
  refine Yields.lift_bind fun p hp => Yields.lift_bind fun tag _ => ?_
  refine Keeps.bind (keeps_binPrintf traced_unaffected.screen _ _) fun _ => ?_
  refine Yields.lift_bind fun val _ => ?_
  refine Keeps.bind (keeps_binPrintf traced_unaffected.screen _ _) fun _ => ?_
  refine Yields.lift_bind fun shOffset h1 => ?_
  rw [hoffset] at h1
  rw [← Except.ok.inj h1]
  refine Tracing.dumpWithBuffer HeadsRead.withScreen fun _ _ _ => ?_
  cases buf with
  | none => cases hp
  | some q =>
    rw [← Except.ok.inj hp]
    exact dynamic_label (hbuf q rfl) hoffset hsize (by omega)

private theorem yields_findHead (name : String) :
    Yields (Traced host) (fun _ => True) (findHead name) :=
  Tracing.vars_bind fun _ _ => Yields.lift_bind fun _ _ => Yields.lift_bind fun _ _ =>
    Yields.pure trivial

/-- Contents that have been read come from the offset in the header. -/
private def ContentsOf (host : Host) (head data : Option Ptr) : Prop :=
  ∃ p offset size, head = some p ∧ p.get Shdr.shOffset = .ok offset ∧
    p.get Shdr.shSize = .ok size ∧
    ∀ q, data = some q → Fetched host (toInt offset) (toInt size) q

private theorem yields_readContents (head : Option Ptr) :
    Yields (Traced host) (fun r => ContentsOf host head r.2.2) (readContents host head) := by
  unfold readContents
  refine Yields.lift_bind fun p hp => Yields.lift_bind fun shOffset hoffset => ?_
  refine Yields.lift_bind fun shSize hsize => ?_
  have hlt := toInt_range shSize
  refine keeps_read_bind (by rintro p ⟨⟩) (by omega) fun data hdata => Yields.pure ⟨p, shOffset, shSize, ?_, hoffset,
    hsize, hdata⟩
  cases head with
  | none => cases hp
  | some q => rw [Except.ok.inj hp]

private theorem keeps_elfSectionDumpByName (name : String) :
    Keeps (Traced host) (elfSectionDumpByName host name) := by
  refine Keeps.bind (yields_findHead name) fun _ => ?_
  refine Yields.bind (yields_readContents _) fun _ _ => Tracing.dumped fun _ _ => trivial

private theorem keeps_gapText (s : String) : Keeps (Traced host) (gapText s) :=
  Keeps.bind (keeps_print _) fun _ => Keeps.bind (keeps_print _) fun _ => keeps_print _

private theorem keeps_elfFileDumpBody (flags : Flags) :
    Keeps (Traced host) (elfFileDumpBody host flags) := by
  refine Keeps.bind (Keeps.runIf fun _ => traced_unaffected.elfHeaderDump) fun _ => ?_
  refine Tracing.vars_bind fun v hv => Keeps.bind (Keeps.runIf fun _ => ?_) fun _ => ?_
  · refine Keeps.bind (keeps_print _) fun _ => Keeps.bind (keeps_print _) fun _ => ?_
    refine Keeps.loop fun i _ hi => keeps_dumpSectionHead ?_
    rwa [hv.num, Nat.zero_add] at hi
  refine Keeps.bind (yields_findHead _) fun strtab => ?_
  refine Yields.bind (yields_readContents _) fun strtabRead _ => ?_
  refine Keeps.bind (Tracing.setVars fun v hv => ⟨hv.header, hv.offset, hv.size, hv.num,
    hv.heads⟩) fun _ => ?_
  refine Keeps.bind (Keeps.runIf fun _ => Tracing.dumped fun _ _ => trivial) fun _ => ?_
  refine Keeps.bind (yields_findHead _) fun symtab => ?_
  refine Yields.bind (yields_readContents _) fun symtabRead hsymtab => ?_
  refine Keeps.bind (Tracing.setVars fun v hv => ⟨hv.header, hv.offset, hv.size, hv.num,
    hv.heads⟩) fun _ => ?_
  refine Keeps.bind (Keeps.runIf fun _ => ?_) fun _ => Keeps.bind (keeps_gapText _) fun _ => ?_
  · obtain ⟨head, offset, size, hhead, hoffset, hsize, hread⟩ := hsymtab
    rw [hhead]
    exact keeps_elfDumpSymtab hread hoffset hsize
  refine Keeps.bind (Keeps.runIf fun _ => keeps_elfSectionDumpByName _) fun _ => ?_
  refine Keeps.bind (Keeps.runIf fun _ => keeps_elfSectionDumpByName _) fun _ => ?_
  refine Keeps.bind (Keeps.runIf fun _ => keeps_elfSectionDumpByName _) fun _ => ?_
  refine Keeps.bind (Keeps.runIf fun _ => keeps_elfSectionDumpByName _) fun _ => ?_
  refine Keeps.runIf fun _ => Keeps.bind (yields_findHead _) fun dynamic => ?_
  refine Yields.bind (yields_readContents _) fun dynamicRead hdynamic => ?_
  obtain ⟨head, offset, size, hhead, hoffset, hsize, hread⟩ := hdynamic
  rw [hhead]
  exact keeps_elfDynamicDump hread hoffset hsize

end

private theorem elfFileDump_labelRule (host : Host) (flags : Flags) :
    ∀ e ∈ (elfFileDump host flags ElfVars.start).2.trace, LabelRule host.file e := by
  refine last_of_wp (I := fun s : Proc ElfVars => ∀ e ∈ s.trace, LabelRule host.file e) ?_
  rw [elfFileDump, wp_bind, openFile]
  split_ifs
  · rw [wp_pure, wp_bind]
    refine wp_mono (wp_elfInitRead_traced host (labelRule_quiet _) fun _ _ _ => trivial)
      (fun _ s hs => ?_) fun _ _ he => he
    exact wp_mono (keeps_elfFileDumpBody flags s hs) (fun _ _ h => h.2.events)
      fun _ _ h => h.events
  · rw [wp_stop]
    simp [ElfVars.start]

/-- Every record that a file dump shows of a table inside the file is labelled by its position,
except the symbols from the third on. -/
theorem elfFileDump_labels_iff (host : Host) (flags : Flags) {table : RecordTable} {i : Nat}
    {label size : UInt32} {p : Ptr} {t : Text}
    (h : .dump (some (table, i)) label size (some p) t ∈
      (elfFileDump host flags ElfVars.start).2.trace)
    (hinside : table.Inside host.file) :
    LabelledByPosition host.file table i label size p ↔ table.LabelHolds i :=
  elfFileDump_labelRule host flags _ h hinside

/-! ## Three symbols -/

/-- A file with the sections that the file dump asks for; its .symtab has three symbols. -/
def threeSymbols : List UInt8 :=
  Ehdr.bytes 0 52 0 0 40 9 1 ++ List.replicate 40 0 ++ Shdr.bytes 1 shtStrtab 412 61 0 ++
    Shdr.bytes 11 shtStrtab 473 1 0 ++ Shdr.bytes 19 2 474 48 16 ++ Shdr.bytes 27 1 522 0 0 ++
    Shdr.bytes 35 1 522 0 0 ++ Shdr.bytes 41 shtNobits 522 0 0 ++ Shdr.bytes 46 1 522 0 0 ++
    Shdr.bytes 52 6 522 0 8 ++
    ascii ("\x00.shstrtab\x00.strtab\x00.symtab\x00.rodata\x00.data\x00.bss\x00.text\x00" ++
      ".dynamic\x00") ++ List.replicate 49 0

/-- The dump of the third symbol of a table inside the file, under another position. -/
private def isThirdElsewhere (src : List UInt8) : Event → Bool
  | .dump (some (.symbols header, 2)) label _ (some p) _ =>
    decide (fieldAt header.tail 0 Shdr.shOffset + fieldAt header.tail 0 Shdr.shSize ≤ src.length ∧
      src.length ≤ 2 ^ 32) && label.toNat != p.position
  | _ => false

private theorem threeSymbols_third : ∃ header label size p t,
    .dump (some (.symbols header, 2)) label size (some p) t ∈
      (elfFileDump (Host.ideal threeSymbols) Flags.initial ElfVars.start).2.trace ∧
    (RecordTable.symbols header).Inside threeSymbols ∧ label.toNat ≠ p.position := by
  have hany : (elfFileDump (Host.ideal threeSymbols) Flags.initial ElfVars.start).2.trace.any
      (isThirdElsewhere threeSymbols) = true := by decide +kernel
  obtain ⟨e, he, hthird⟩ := List.any_eq_true.mp hany
  unfold isThirdElsewhere at hthird
  split at hthird
  · rw [Bool.and_eq_true, decide_eq_true_eq, bne_iff_ne] at hthird
    exact ⟨_, _, _, _, _, he, hthird.1, hthird.2⟩
  · cases hthird

theorem elfFileDump_labels_iff_threeSymbols : ∃ header label size p t,
    .dump (some (.symbols header, 2)) label size (some p) t ∈
      (elfFileDump (Host.ideal threeSymbols) Flags.initial ElfVars.start).2.trace ∧
    (LabelledByPosition threeSymbols (.symbols header) 2 label size p ↔
      (RecordTable.symbols header).LabelHolds 2) := by
  obtain ⟨header, label, size, p, t, hdump, hinside, -⟩ := threeSymbols_third
  exact ⟨header, label, size, p, t, hdump,
    elfFileDump_labels_iff (Host.ideal threeSymbols) Flags.initial hdump hinside⟩

/-- The third symbol, at position 506, is dumped under the label 522. -/
theorem threeSymbols_mislabelled : ∃ header label size p t,
    .dump (some (.symbols header, 2)) label size (some p) t ∈
      (elfFileDump (Host.ideal threeSymbols) Flags.initial ElfVars.start).2.trace ∧
    (RecordTable.symbols header).Inside threeSymbols ∧
    ¬LabelledByPosition threeSymbols (.symbols header) 2 label size p := by
  obtain ⟨header, label, size, p, t, hdump, hinside, hlabel⟩ := threeSymbols_third
  exact ⟨header, label, size, p, t, hdump, hinside, fun h => hlabel h.label⟩

end PerfTools.Elf
