import PerfTools.Elf.Loading

/-!
# Invariants of a run

A condition on the tool's variables together with a condition that every event of the trace
meets. Such an invariant is kept by a program when each of its steps keeps it, whatever the file
holds and wherever the program stops.
-/

namespace PerfTools.Elf

open Memory Printf Exec

structure Tracing {γ : Type} (V : γ → Prop) (P : Event → Prop) (s : Proc γ) : Prop where
  vars : V s.vars
  events : ∀ e ∈ s.trace, P e

namespace Tracing

variable {γ α : Type} {V : γ → Prop} {P : Event → Prop}

theorem append {s : Proc γ} (h : Tracing V P s) {es : List Event} (hes : ∀ e ∈ es, P e)
    {v : γ} (hv : V v) (pos : Nat) : Tracing V P ⟨pos, s.trace ++ es, v⟩ := by
  refine ⟨hv, fun e he => ?_⟩
  rcases List.mem_append.mp he with he | he
  · exact h.events e he
  · exact hes e he

theorem emit {e : Event} (h : P e) : Keeps (Tracing V P) (emit e) := fun s hs =>
  ⟨trivial, hs.append (by simpa using h) hs.vars s.pos⟩

theorem setVars {f : γ → γ} (h : ∀ v, V v → V (f v)) : Keeps (Tracing V P) (setVars f) :=
  fun _ hs => ⟨trivial, h _ hs.vars, hs.events⟩

theorem vars_bind {R : α → Prop} {f : γ → Exec (Proc γ) α}
    (h : ∀ v, V v → Yields (Tracing V P) R (f v)) : Yields (Tracing V P) R (Elf.vars >>= f) :=
  fun s hs => h s.vars hs.vars s hs

theorem dumped {record : Option (RecordTable × Nat)} {offset size : UInt32} {data : Option Ptr}
    {x : Except Fault Text} (h : ∀ t, x = .ok t → P (.dump record offset size data t)) :
    Keeps (Tracing V P) (dumped record offset size data x) :=
  Yields.lift_bind fun t ht => emit (h t ht)

end Tracing

/-! ## The steps of the elf tool -/

section

variable {I : Proc ElfVars → Prop} (hscreen : ∀ s screen, I s → I (s.withScreen screen))
include hscreen

theorem keeps_binBufferReset : Keeps I binBufferReset := fun s hs =>
  ⟨trivial, hscreen s s.vars.screen.binBufferReset hs⟩

theorem keeps_binPrintf (first : Int) (fmt : Format) : Keeps I (binPrintf first fmt) := by
  intro s hs
  rw [binPrintf, wp_bind, wp_vars, wp_bind, wp_lift]
  exact ⟨fun x _ => ⟨trivial, hscreen s x.2 hs⟩, fun _ _ => hs⟩

theorem keeps_printMember (p : Option Ptr) (label : String) (pad : UInt8) (upper : Bool)
    (width : Nat) (f : Field) : Keeps I (printMember p label pad upper width f) :=
  Yields.lift_bind fun _ _ => keeps_binPrintf hscreen 0 _

theorem keeps_dumpWithBuffer {record : Option (RecordTable × Nat)} {offset size : UInt32}
    {data : Option Ptr} (h : ∀ (s : Proc ElfVars) (screen : Screen) x,
      screen.dump offset size data = .ok x → I s → I (s.log [.dump record offset size data x.1])) :
    Keeps I (dumpWithBuffer record offset size data) := by
  intro s hs
  rw [dumpWithBuffer, wp_bind, wp_vars, wp_bind, wp_lift]
  exact ⟨fun x hx => ⟨trivial, h _ _ x hx (hscreen s x.2 hs)⟩, fun _ _ => hs⟩

theorem keeps_elfHeaderDump (h : ∀ (s : Proc ElfVars) size data t, I s →
    I (s.log [.dump none 0 size data t])) : Keeps I elfHeaderDump := by
  have hprintf := keeps_binPrintf hscreen
  have hmember := keeps_printMember hscreen
  refine Keeps.bind (keeps_binBufferReset hscreen) fun _ => ?_
  intro s hs
  rw [wp_bind, wp_vars]
  refine (?_ : Keeps I _) s hs
  refine Yields.lift_bind fun eType _ => Keeps.bind (hprintf _ _) fun _ => ?_
  refine Yields.lift_bind fun eMachine _ => Keeps.bind (hprintf _ _) fun _ => ?_
  refine Keeps.bind (hmember _ _ _ _ _ _) fun _ => Keeps.bind (hprintf _ _) fun _ => ?_
  refine Keeps.bind (hmember _ _ _ _ _ _) fun _ => Keeps.bind (hmember _ _ _ _ _ _) fun _ => ?_
  refine Keeps.bind (hmember _ _ _ _ _ _) fun _ => Keeps.bind (hprintf _ _) fun _ => ?_
  refine Keeps.bind (hmember _ _ _ _ _ _) fun _ => Keeps.bind (hmember _ _ _ _ _ _) fun _ => ?_
  refine Keeps.bind (hmember _ _ _ _ _ _) fun _ => Keeps.bind (hmember _ _ _ _ _ _) fun _ => ?_
  exact keeps_dumpWithBuffer hscreen fun s _ _ _ hs => h s _ _ _ hs

end

/-- The events that are neither about a record nor about the section names. -/
def Event.Quiet : Event → Prop
  | .dump (some _) _ _ _ _ => False
  | .read (.nameTable _) _ => False
  | _ => True

theorem Host.transfer_quiet {host : Host} {target : Target} {request pos : Nat} {offset size : Int}
    (htarget : ∀ p, target ≠ .nameTable p) :
    ∀ e ∈ (host.transfer target request pos offset size).2.2, e.Quiet := by
  intro e he
  obtain ⟨messages, hevents⟩ := host.transfer_events target request pos offset size
  rw [hevents, List.mem_append, List.mem_map, List.mem_singleton] at he
  rcases he with ⟨message, -, rfl⟩ | rfl
  · trivial
  · cases target with
    | nameTable p => exact absurd rfl (htarget p)
    | _ => trivial

/-- The events of a dump that is not part of a table. -/
def Event.Plain : Event → Prop
  | .dump (some _) _ _ _ _ => False
  | .read (.contents _) _ => True
  | .read _ _ => False
  | .check _ => False
  | _ => True

theorem Event.Plain.quiet {e : Event} (h : e.Plain) : e.Quiet := by
  unfold Event.Plain at h
  unfold Event.Quiet
  split <;> simp_all

theorem Host.transfer_plain {host : Host} {head : Ptr} {request pos : Nat} {offset size : Int} :
    ∀ e ∈ (host.transfer (.contents head) request pos offset size).2.2, e.Plain := by
  intro e he
  obtain ⟨messages, hevents⟩ := host.transfer_events (.contents head) request pos offset size
  rw [hevents, List.mem_append, List.mem_map, List.mem_singleton] at he
  rcases he with ⟨message, -, rfl⟩ | rfl <;> trivial

/-- An invariant that is about neither the annotation buffer nor the events of a plain dump. -/
structure Unaffected (I : Proc ElfVars → Prop) : Prop where
  screen : ∀ s screen, I s → I (s.withScreen screen)
  plain : ∀ s pos es, (∀ e ∈ es, Event.Plain e) → I s → I ⟨pos, s.trace ++ es, s.vars⟩

namespace Unaffected

variable {I : Proc ElfVars → Prop} (hI : Unaffected I)
include hI

theorem dumpWithBuffer {offset size : UInt32} {data : Option Ptr} :
    Keeps I (dumpWithBuffer none offset size data) :=
  keeps_dumpWithBuffer hI.screen fun s _ _ _ hs => hI.plain s s.pos _ (by simp [Event.Plain]) hs

theorem elfHeaderDump : Keeps I elfHeaderDump :=
  keeps_elfHeaderDump hI.screen fun s _ _ _ hs => hI.plain s s.pos _ (by simp [Event.Plain]) hs

theorem readContents (host : Host) (head : Option Ptr) : Keeps I (readContents host head) := by
  refine Yields.lift_bind fun p _ => Yields.lift_bind fun shOffset _ => ?_
  refine Yields.lift_bind fun shSize _ => ?_
  intro s hs
  rw [wp_bind, wp_elfFileRead]
  exact ⟨trivial, hI.plain s _ _ Host.transfer_plain hs⟩

theorem dumpSection (host : Host) (i : Nat) : Keeps I (dumpSection host i) := by
  intro s hs
  rw [Elf.dumpSection, wp_bind, wp_vars]
  refine (?_ : Keeps I _) s hs
  refine Yields.lift_bind fun head _ => Keeps.bind (hI.readContents host head) fun contents => ?_
  refine Keeps.bind (keeps_binBufferReset hI.screen) fun _ => ?_
  refine Yields.lift_bind fun shName _ => Yields.lift_bind fun name _ => ?_
  exact Keeps.bind (keeps_binPrintf hI.screen _ _) fun _ => hI.dumpWithBuffer

end Unaffected

theorem Tracing.unaffected {V : ElfVars → Prop} {P : Event → Prop}
    (hscreen : ∀ v screen, V v → V { v with screen }) (hP : ∀ e, e.Quiet → P e) :
    Unaffected (Tracing V P) :=
  ⟨fun _ screen hs => ⟨hscreen _ screen hs.vars, hs.events⟩,
    fun _ pos _ hes hs => hs.append (fun e he => hP e (hes e he).quiet) hs.vars pos⟩

theorem Tracing.dumpWithBuffer {V : ElfVars → Prop} {P : Event → Prop}
    (hscreen : ∀ v screen, V v → V { v with screen }) {record : Option (RecordTable × Nat)}
    {offset size : UInt32} {data : Option Ptr} (h : ∀ (screen : Screen) x,
      screen.dump offset size data = .ok x → P (.dump record offset size data x.1)) :
    Keeps (Tracing V P) (dumpWithBuffer record offset size data) :=
  keeps_dumpWithBuffer (fun _ screen hs => ⟨hscreen _ screen hs.vars, hs.events⟩)
    fun s screen x hx hs => hs.append (by simpa using h screen x hx) hs.vars s.pos

theorem keeps_elfFileRead_bind {V : ElfVars → Prop} {P : Event → Prop} (hP : ∀ e, e.Quiet → P e)
    {host : Host} {α : Type} {target : Target} {offset size : Int}
    (htarget : ∀ p, target ≠ .nameTable p) (hsize : size < 2 ^ 32) {R : α → Prop}
    {f : Option Ptr → ElfRun α}
    (h : ∀ p, (∀ q, p = some q → Fetched host offset size q) → Yields (Tracing V P) R (f p)) :
    Yields (Tracing V P) R (elfFileRead host target offset size >>= f) := by
  intro s hs
  rw [wp_bind, wp_elfFileRead]
  exact h _ (fun q hq => Host.transfer_fetched (fun hpos => toUnsigned_toNat hpos hsize) hq) _
    (hs.append (fun e he => hP e (Host.transfer_quiet htarget e he)) hs.vars _)

/-! ## What the loader has read from where -/

/-- Whatever has been stored in a slot comes from the position of the slot's header. -/
structure HeadsRead (host : Host) (v : ElfVars) : Prop where
  header : ∀ p, v.elfHeader = some p → Fetched host 0 Ehdr.size p
  offset : v.sectionOffset = toInt (ehdr host.file Ehdr.eShoff)
  size : v.sectionSize = ehdr host.file Ehdr.eShentsize
  num : v.sectionNum = ehdr host.file Ehdr.eShnum
  heads : ∀ (i : Nat) p, v.elfSectionHead[i]? = some (some p) →
    Fetched host (toInt (ehdr host.file Ehdr.eShoff) + i * ehdr host.file Ehdr.eShentsize)
      (ehdr host.file Ehdr.eShentsize) p ∧
    toInt (ehdr host.file Ehdr.eShoff) + i * ehdr host.file Ehdr.eShentsize < 2 ^ 31

section

variable {host : Host} {P : Event → Prop}

theorem HeadsRead.withScreen (v : ElfVars) (screen : Screen) (h : HeadsRead host v) :
    HeadsRead host { v with screen } :=
  ⟨h.header, h.offset, h.size, h.num, h.heads⟩

theorem member_eq_ok {p : Option Ptr} {f : Field} {n : Nat} (h : member p f = .ok n) :
    ∃ q, p = some q ∧ q.get f = .ok n := by
  cases p with
  | none => cases h
  | some q => exact ⟨q, rfl, h⟩

theorem ehdr_of_member {p : Option Ptr} (hp : ∀ q, p = some q → Fetched host 0 Ehdr.size q)
    {f : Field} {n : Nat} (h : member p f = .ok n) : n = ehdr host.file f := by
  obtain ⟨q, hq, hget⟩ := member_eq_ok h
  exact (hp q hq).get_eq le_rfl (by decide) hget

private theorem keeps_readSectionHead (hP : ∀ e, e.Quiet → P e) (i : Nat) :
    Keeps (Tracing (HeadsRead host) P) (readSectionHead host i) := by
  refine Tracing.vars_bind fun v hv => Yields.lift_bind fun distance hdistance => ?_
  refine Yields.lift_bind fun offset hoffset => ?_
  obtain ⟨rfl, -, -⟩ := checked_eq_ok hdistance
  obtain ⟨rfl, -, hrange⟩ := checked_eq_ok hoffset
  have hlt := ehdr_lt host.file (f := Ehdr.eShentsize) rfl
  rw [hv.offset, hv.size, mul_comm] at hrange ⊢
  refine keeps_elfFileRead_bind hP (by rintro p ⟨⟩) (by omega) fun head hhead => ?_
  split_ifs
  · refine Tracing.setVars fun v hv => ⟨hv.header, hv.offset, hv.size, hv.num, fun j p hp => ?_⟩
    by_cases hj : j = i
    · subst hj
      rw [List.getElem?_set_self'] at hp
      cases hold : v.elfSectionHead[j]? with
      | none => rw [hold] at hp; cases hp
      | some old =>
        rw [hold] at hp
        exact ⟨hhead p (Option.some.inj hp), hrange⟩
    · rw [List.getElem?_set_ne (Ne.symm hj)] at hp
      exact hv.heads j p hp
  · exact Yields.stop _

/-- The header that elf_init_read takes for that of the section names. -/
def NameHeader (host : Host) (p : Ptr) : Prop :=
  Fetched host (toInt (ehdr host.file Ehdr.eShoff) +
    ehdr host.file Ehdr.eShstrndx * ehdr host.file Ehdr.eShentsize)
    (ehdr host.file Ehdr.eShentsize) p

variable (host) in
/-- elf_init_read on any file: what it stores when it returns, and which names it reads. -/
theorem wp_elfInitRead_traced (hP : ∀ e, e.Quiet → P e)
    (hnames : ∀ p ok, NameHeader host p → P (.read (.nameTable p) ok)) :
    wp (elfInitRead host) (fun _ => Tracing (HeadsRead host) P)
      (fun _ s => ∀ e ∈ s.trace, P e) ElfVars.start := by
  rw [elfInitRead, wp_bind, wp_elfFileRead, wp_bind, wp_setVars]
  have hfetched (q : Ptr) (hq : (host.transfer .header (toUnsigned (Ehdr.size : Nat)).toNat
      ElfVars.start.pos 0 (Ehdr.size : Nat)).1 = some q) : Fetched host 0 Ehdr.size q :=
    Host.transfer_fetched (fun _ => by decide) hq
  have hevents : ∀ e ∈ ElfVars.start.trace ++ (host.transfer .header
      (toUnsigned (Ehdr.size : Nat)).toNat ElfVars.start.pos 0 (Ehdr.size : Nat)).2.2, P e :=
    fun e he => hP e (Host.transfer_quiet (by rintro p ⟨⟩) e he)
  rw [wp_bind, wp_lift]
  refine ⟨fun shoff hshoff => ?_, fun _ _ => hevents⟩
  rw [wp_bind, wp_lift]
  refine ⟨fun shentsize hshentsize => ?_, fun _ _ => hevents⟩
  rw [wp_bind, wp_lift]
  refine ⟨fun shnum hshnum => ?_, fun _ _ => hevents⟩
  rw [ehdr_of_member hfetched hshoff, ehdr_of_member hfetched hshentsize,
    ehdr_of_member hfetched hshnum, wp_bind, wp_setVars]
  refine wp_mono ((?_ : Keeps (Tracing (HeadsRead host) P) _) _
    ⟨⟨hfetched, rfl, rfl, rfl, fun i p hp => ?_⟩, hevents⟩) (fun _ _ h => h.2) fun _ _ h => h.events
  · refine Yields.lift_bind fun shstrndx hshstrndx => Yields.lift_bind fun distance hdistance => ?_
    refine Yields.lift_bind fun offset hoffset => ?_
    obtain ⟨rfl, -, -⟩ := checked_eq_ok hdistance
    obtain ⟨rfl, -, -⟩ := checked_eq_ok hoffset
    rw [ehdr_of_member hfetched hshstrndx]
    have hentsize := ehdr_lt host.file (f := Ehdr.eShentsize) rfl
    refine keeps_elfFileRead_bind hP (by rintro p ⟨⟩) (by omega) fun nameHeader hnameHeader => ?_
    refine Keeps.bind (Tracing.setVars fun v hv => ⟨hv.header, hv.offset, hv.size, hv.num,
      hv.heads⟩) fun _ => ?_
    refine Yields.lift_bind fun head hhead => Yields.lift_bind fun type _ => ?_
    refine Keeps.bind (Tracing.emit (hP _ trivial)) fun _ => ?_
    refine Keeps.bind (Keeps.runIf fun _ => Tracing.emit (hP _ trivial)) fun _ => ?_
    refine Yields.lift_bind fun nameOffset _ => Yields.lift_bind fun nameSize _ => ?_
    have hname : NameHeader host head := by
      cases nameHeader with
      | none => cases hhead
      | some q => exact hnameHeader _ (by rw [Except.ok.inj hhead])
    intro s hs
    rw [wp_bind, wp_elfFileRead]
    refine (?_ : Keeps (Tracing (HeadsRead host) P) _) _ (hs.append (fun e he => ?_) hs.vars _)
    · refine Keeps.bind (Tracing.setVars fun v hv => ⟨hv.header, hv.offset, hv.size, hv.num,
        hv.heads⟩) fun _ => ?_
      exact Keeps.loop fun i _ _ => keeps_readSectionHead hP i
    · obtain ⟨messages, hreport⟩ := host.transfer_events (.nameTable head)
        (toUnsigned (toInt nameSize)).toNat s.pos (toInt nameOffset) (toInt nameSize)
      rw [hreport, List.mem_append, List.mem_map, List.mem_singleton] at he
      rcases he with ⟨message, -, rfl⟩ | rfl
      · exact hP _ trivial
      · exact hnames _ _ hname
  · have hnone : (List.replicate 100 (none : Option Ptr))[i]? = some (some p) := hp
    rw [List.getElem?_replicate] at hnone
    split_ifs at hnone
    cases hnone

end

end PerfTools.Elf
