import Mathlib.Data.List.Forall2
import PerfTools.Smp.Boot

/-!
# The entries of a configuration table

A table is read entry by entry, also while the processors that it names are started. Every processor
that is enabled and not the primary one gets one start; those that respond get the next number, and
the two maps between numbers and APIC ids stay inverse to each other.
-/

namespace PerfTools.Smp

open Memory Exec Printf FlatMemory

/-! ## Entries -/

/-- struct imps_processor, with signature, features and the reserved bytes as the rest. -/
structure Processor where
  apicId : UInt8
  apicVer : UInt8
  flags : UInt8
  rest : List UInt8
  rest_length : rest.length = 16

inductive Entry
  | processor (p : Processor)
  | other (type : UInt8) (rest : List UInt8) (htype : type ≠ impsBctProcessor)
      (hrest : rest.length = 7)

namespace Processor

def bytes (p : Processor) : List UInt8 :=
  [impsBctProcessor, p.apicId, p.apicVer, p.flags] ++ p.rest

/-- Enabled, and not the primary processor. -/
def Secondary (p : Processor) : Prop :=
  p.flags &&& impsFlagEnabled ≠ 0 ∧ p.flags &&& impsCpuflagBoot = 0

instance (p : Processor) : Decidable p.Secondary := inferInstanceAs (Decidable (_ ∧ _))

theorem blank_length : (List.replicate 16 (0 : UInt8)).length = 16 := rfl

theorem bytes_length (p : Processor) : p.bytes.length = 20 := by
  rw [bytes, List.length_append, p.rest_length]
  rfl

end Processor

namespace Entry

def bytes : Entry → List UInt8
  | processor p => p.bytes
  | other type rest _ _ => type :: rest

def secondary : Entry → List Processor
  | processor p => if p.Secondary then [p] else []
  | other .. => []

end Entry

theorem bus_ne_processor : impsBctBus ≠ impsBctProcessor := by decide

def tableBytes (es : List Entry) : List UInt8 := es.flatMap Entry.bytes

/-- The processors that the table says can be started. -/
def secondaries (es : List Entry) : List Processor := es.flatMap Entry.secondary

/-! ## Numbers -/

/-- The processor was found to run in time. -/
def Startup.responds (st : Startup) : Bool := (st.answers.take 100).contains true

/-- The APIC ids of the processors that have responded, in the order of the table. -/
def responding (ps : List Processor) (sts : List Startup) : List UInt8 :=
  ((ps.zip sts).filter fun x => x.2.responds).map fun x => x.1.apicId

/-- The CPUs by their numbers; none is a number that has been counted but not given. -/
structure Numbered (cpus : List (Option UInt8)) (s : ImpsState) : Prop where
  count : s.impsNumCpus = cpus.length
  cpu : ∀ (k : Nat) (id : UInt8), cpus[k]? = some (some id) → s.impsCpuApicMap[k]? = some id
  apic : ∀ id : UInt8, some id ∈ cpus →
    ∃ n : UInt8, s.impsApicCpuMap[id.toNat]? = some n ∧ cpus[n.toNat]? = some (some id)

/-- The start belongs to the processor. -/
structure StartOf (p : Processor) (st : Startup) : Prop where
  signals : st.signals = signalsFor p.apicId p.apicVer
  answers : Polled 100 st.responds st.answers

/-- What has been done from s to s' are the starts of these processors. -/
structure Walked (pl : Platform) (ps : List Processor) (sts : List Startup)
    (cpus : List (Option UInt8)) (s s' : ImpsState) : Prop where
  starts : List.Forall₂ StartOf ps sts
  startups : startups s'.trace = startups s.trace ++ sts
  numbered : Numbered (cpus ++ (responding ps sts).map some) s'
  kept : ∀ k < cpus.length, s'.impsCpuApicMap[k]? = s.impsCpuApicMap[k]?
  waited : waited s'.trace ≤ waited s.trace + bootTime * ps.length
  frame : ∀ x, ¬ Scratch pl x → s'.memory x = s.memory x
  idle : ps = [] → s'.memory = s.memory ∧ resetCode s'.trace = resetCode s.trace
  clean : ps ≠ [] → resetCode s'.trace = some 0 ∧
    Holds s'.memory (pl.physToVirtual biosResetVector) (leBytes 4 0)
  enabled : s'.impsEnabled = s.impsEnabled
  lapicAddr : s'.impsLapicAddr = s.impsLapicAddr

section

variable {pl : Platform} {ps qs : List Processor} {sts sts' : List Startup}
  {cpus : List (Option UInt8)} {s s₁ s₂ : ImpsState} {E : Stop → ImpsState → Prop} {es : List Entry}

theorem Numbered.of_logs {a : List Startup} {n : Nat} (h : Numbered cpus s) (hlogs : Logs a n s s₁) :
    Numbered cpus s₁ := by
  rw [hlogs.same]
  exact ⟨h.count, h.cpu, h.apic⟩

theorem Walked.of_logs (h : Logs (Smp.startups s.trace) 0 s s₁) (hcpus : Numbered cpus s) :
    Walked pl [] [] cpus s s₁ where
  starts := .nil
  startups := by rw [h.startups, List.append_nil]
  numbered := by
    rw [responding, List.zip_nil_left]
    simpa using hcpus.of_logs h
  kept k _ := by rw [h.same]
  waited := h.waited
  frame x _ := by rw [h.same]
  idle _ := ⟨by rw [h.same], h.resetCode⟩
  clean h := absurd rfl h
  enabled := by rw [h.same]
  lapicAddr := by rw [h.same]

theorem responding_append (h : ps.length = sts.length) :
    responding (ps ++ qs) (sts ++ sts') = responding ps sts ++ responding qs sts' := by
  rw [responding, List.zip_append h, List.filter_append, List.map_append]
  rfl

theorem Walked.append (h : Walked pl ps sts cpus s s₁)
    (h' : Walked pl qs sts' (cpus ++ (responding ps sts).map some) s₁ s₂) :
    Walked pl (ps ++ qs) (sts ++ sts') cpus s s₂ where
  starts := List.rel_append h.starts h'.starts
  startups := by rw [h'.startups, h.startups, List.append_assoc]
  numbered := by
    rw [responding_append h.starts.length_eq, List.map_append, ← List.append_assoc]
    exact h'.numbered
  kept k hk := (h'.kept k (by rw [List.length_append]; omega)).trans (h.kept k hk)
  waited := by
    have h1 := h.waited
    have h2 := h'.waited
    rw [List.length_append, Nat.mul_add]
    omega
  frame x hx := (h'.frame x hx).trans (h.frame x hx)
  idle hnil := by
    obtain ⟨hps, hqs⟩ := List.append_eq_nil_iff.mp hnil
    have h1 := h.idle hps
    have h2 := h'.idle hqs
    exact ⟨h2.1.trans h1.1, h2.2.trans h1.2⟩
  clean hne := by
    by_cases hqs : qs = []
    · have h2 := h'.idle hqs
      rw [h2.1, h2.2]
      exact h.clean (by simpa [hqs] using hne)
    · exact h'.clean hqs
  enabled := h'.enabled.trans h.enabled
  lapicAddr := h'.lapicAddr.trans h.lapicAddr

/-! ## The entries one by one -/

theorem setCpu_ok {map : Vector UInt8 impsMaxCpus} {i : Nat} {value : UInt8} (h : i < impsMaxCpus) :
    setCpu map i value = .ok (map.set i value h) := dif_pos h

theorem wp_enterCpu {id : UInt8} (hcpus : Numbered cpus s) (hroom : cpus.length < impsMaxCpus)
    (hid : id.toNat < impsMaxCpus) :
    wp (enterCpu id) (fun _ s' => Numbered (cpus ++ [some id]) s' ∧
      (∀ k < cpus.length, s'.impsCpuApicMap[k]? = s.impsCpuApicMap[k]?) ∧
      s' = { s with impsCpuApicMap := s'.impsCpuApicMap, impsApicCpuMap := s'.impsApicCpuMap,
                    impsNumCpus := s'.impsNumCpus }) E s := by
  have hcount := hcpus.count
  simp only [enterCpu, wp_bind, wp_get, hcount, setCpu_ok hroom, setCpu_ok hid, wp_lift_ok, wp_modify]
  refine ⟨⟨?_, fun k id' hk => ?_, fun id' hid' => ?_⟩, fun k hk => ?_, trivial⟩
  · rw [List.length_append]
    rfl
  · dsimp only
    rcases Nat.lt_trichotomy k cpus.length with hlt | rfl | hgt
    · rw [List.getElem?_append_left hlt] at hk
      rw [Vector.getElem?_set_ne _ (by omega)]
      exact hcpus.cpu k id' hk
    · rw [List.getElem?_concat_length] at hk
      rw [Vector.getElem?_set_self]
      exact Option.some.inj hk
    · rw [List.getElem?_eq_none (by rw [List.length_append]; exact hgt)] at hk
      cases hk
  · dsimp only
    by_cases heq : id' = id
    · subst heq
      refine ⟨UInt8.ofNat cpus.length, Vector.getElem?_set_self _, ?_⟩
      have hn : (UInt8.ofNat cpus.length).toNat = cpus.length :=
        UInt8.toNat_ofNat_of_lt' (Nat.lt_trans hroom (by decide))
      rw [hn, List.getElem?_concat_length]
    · have hmem : some id' ∈ cpus := by simpa [heq] using hid'
      obtain ⟨n, hn, hcpu⟩ := hcpus.apic id' hmem
      refine ⟨n, ?_, ?_⟩
      · rw [Vector.getElem?_set_ne _ fun h => heq (UInt8.toNat.inj h.symm)]
        exact hn
      · rw [List.getElem?_append_left (List.getElem?_eq_some_iff.mp hcpu).1]
        exact hcpu
  · exact Vector.getElem?_set_ne _ (by omega)

/-- The members that add_processor reads. -/
structure ProcessorAt (m : Ram) (proc : UInt32) (p : Processor) : Prop where
  apicId : m (proc + ImpsProcessor.apicId) = p.apicId
  apicVer : m (proc + ImpsProcessor.apicVer) = p.apicVer
  flags : m (proc + ImpsProcessor.flags) = p.flags

theorem ProcessorAt.of_holds {m : Ram} {proc : UInt32} {p : Processor} (h : Holds m proc p.bytes) :
    ProcessorAt m proc p :=
  ⟨h.byte (i := 1) rfl, h.byte (i := 2) rfl, h.byte (i := 3) rfl⟩

theorem walked_of_booted {p : Processor} {success : Bool} {s₃ : ImpsState}
    (h₁ : Logs (startups s.trace) 0 s s₁) (h₂ : Booted pl p.apicId p.apicVer success s₁ s₂)
    (h₃ : s₃ = { s₂ with impsCpuApicMap := s₃.impsCpuApicMap, impsApicCpuMap := s₃.impsApicCpuMap,
                         impsNumCpus := s₃.impsNumCpus })
    (hnumbered : Numbered (cpus ++ if success then [some p.apicId] else []) s₃)
    (hkept : ∀ k < cpus.length, s₃.impsCpuApicMap[k]? = s₂.impsCpuApicMap[k]?) :
    ∃ sts, Walked pl [p] sts cpus s s₃ := by
  obtain ⟨answers, hpolled, hstartups⟩ := h₂.startups
  have hresponds : Startup.responds ⟨signalsFor p.apicId p.apicVer, answers⟩ = success :=
    hpolled.success_eq.symm
  have hmemory : s₃.memory = bootMemory pl s.memory := by
    rw [h₃]
    dsimp only
    rw [h₂.memory, h₁.same]
  refine ⟨[⟨signalsFor p.apicId p.apicVer, answers⟩], ?_, ?_, ?_, ?_, ?_, ?_, ?_, ?_, ?_, ?_⟩
  · exact .cons ⟨rfl, hresponds ▸ hpolled⟩ .nil
  · rw [h₃]
    dsimp only
    rw [hstartups, h₁.startups]
  · have hnumbers : (responding [p] [⟨signalsFor p.apicId p.apicVer, answers⟩]).map some =
        if success then [some p.apicId] else [] := by
      cases success <;> simp [responding, hresponds]
    rw [hnumbers]
    exact hnumbered
  · intro k hk
    rw [hkept k hk, h₂.same, h₁.same]
  · have hw₁ := h₁.waited
    have hw₂ := h₂.waited
    rw [h₃, List.length_singleton]
    dsimp only
    omega
  · intro x hx
    rw [hmemory, bootMemory_of_not_scratch hx]
  · intro h
    cases h
  · intro _
    refine ⟨?_, ?_⟩
    · rw [h₃]
      exact h₂.resetCode
    · rw [hmemory]
      exact holds_store (by simp)
  · rw [h₃, h₂.same, h₁.same]
  · rw [h₃, h₂.same, h₁.same]

theorem addProcessor_spec {p : Processor} {proc : UInt32} (hp : ProcessorAt s.memory proc p)
    (hver : ¬ Scratch pl (proc + ImpsProcessor.apicVer)) (hcpus : Numbered cpus s)
    (hroom : p.Secondary → cpus.length < impsMaxCpus ∧ p.apicId.toNat < impsMaxCpus) :
    wp (addProcessor pl proc)
      (fun _ s' => ∃ sts, Walked pl (Entry.processor p).secondary sts cpus s s')
      (fun _ _ => False) s := by
  simp only [addProcessor, wp_bind, wp_get, hp.apicId, hp.flags]
  apply wp_mono wp_kernelPrint _ fun _ _ h => h
  intro _ s₁ h₁
  have hquiet (hnot : ¬ p.Secondary) (fmt : Format) : wp (kernelPrint fmt)
      (fun _ s' => ∃ sts, Walked pl (Entry.processor p).secondary sts cpus s s')
      (fun _ _ => False) s₁ := by
    apply wp_mono wp_kernelPrint _ fun _ _ h => h
    intro _ s₂ h₂
    rw [Entry.secondary, if_neg hnot]
    exact ⟨[], .of_logs (h₁.quiet h₂) hcpus⟩
  rw [wp_ite]
  refine ⟨fun hdisabled => hquiet (fun h => h.1 hdisabled) _, fun henabled => ?_⟩
  rw [wp_ite]
  refine ⟨fun hboot => hquiet (fun h => hboot h.2) _, fun hother => ?_⟩
  have hsecondary : p.Secondary := ⟨henabled, not_not.mp hother⟩
  have hmemory : s₁.memory = s.memory := by rw [h₁.same]
  rw [Entry.secondary, if_pos hsecondary, wp_bind]
  apply wp_mono bootCpu_spec _ fun _ _ h => h
  intro success s₂ h₂
  rw [hmemory, patchedMemory_of_not_scratch hver, hp.apicId, hp.apicVer] at h₂
  have hcpus₂ : Numbered cpus s₂ := by
    rw [h₂.same, h₁.same]
    exact ⟨hcpus.count, hcpus.cpu, hcpus.apic⟩
  rw [wp_runIf]
  constructor
  · rintro rfl
    apply wp_mono (wp_enterCpu hcpus₂ (hroom hsecondary).1 (hroom hsecondary).2) _ fun _ _ h => h
    rintro _ s₃ ⟨hnumbered, hkept, h₃⟩
    exact walked_of_booted h₁ h₂ h₃ hnumbered hkept
  · intro hfailed
    rw [Bool.not_eq_true] at hfailed
    subst hfailed
    exact walked_of_booted h₁ h₂ rfl (by simpa using hcpus₂) fun _ _ => rfl

/-! ## The whole table -/

theorem tableBytes_cons (e : Entry) (es : List Entry) :
    tableBytes (e :: es) = e.bytes ++ tableBytes es := rfl

theorem secondaries_cons (e : Entry) (es : List Entry) :
    secondaries (e :: es) = e.secondary ++ secondaries es := rfl

/-- Buses, I/O APICs and interrupts are only printed. -/
theorem wp_addOther {start : UInt32} {type : UInt8} :
    wp (addOther type start) (fun _ => Logs (startups s.trace) 0 s) E s := by
  rw [addOther, wp_ite, wp_runIf]
  refine ⟨fun _ => ?_, fun _ => ⟨fun _ => ?_, fun _ => ⟨rfl, rfl, rfl, Nat.le_refl _⟩⟩⟩
  · rw [addBus, wp_bind]
    exact wp_kernelPrint (E := E)
  · rw [addIoapic, wp_bind, wp_get, wp_bind]
    apply wp_mono wp_kernelPrint _ fun _ _ h => h
    intro _ s₁ h₁
    apply wp_mono wp_kernelPrint _ fun _ _ h => h
    intro _ s₂ h₂
    exact h₁.quiet h₂

theorem responding_length_le : (responding ps sts).length ≤ ps.length := by
  rw [responding, List.length_map]
  refine (List.length_filter_le _ _).trans ?_
  rw [List.length_zip]
  exact Nat.min_le_left _ _

/-- The table is in memory at this address, out of the way of boot_cpu. -/
structure TableAt (pl : Platform) (m : Ram) (start : UInt32) (es : List Entry) : Prop where
  size : (tableBytes es).length ≤ 2 ^ 32
  holds : Holds m start (tableBytes es)
  clear : ∀ x, Covers start (tableBytes es).length x → ¬ Scratch pl x

theorem TableAt.tail {m m' : Ram} {start : UInt32} {e : Entry} (h : TableAt pl m start (e :: es))
    (hframe : ∀ x, ¬ Scratch pl x → m' x = m x) :
    TableAt pl m' (start + UInt32.ofNat e.bytes.length) es := by
  have hlen : (tableBytes (e :: es)).length = e.bytes.length + (tableBytes es).length := by
    rw [tableBytes_cons, List.length_append]
  have hpart (x : UInt32)
      (hx : Covers (start + UInt32.ofNat e.bytes.length) (tableBytes es).length x) :
      ¬ Scratch pl x := h.clear x (hx.of_part hlen.ge h.size)
  have hsize : (tableBytes es).length ≤ 2 ^ 32 := by
    have hall := h.size
    omega
  exact ⟨hsize, (holds_append.mp h.holds).2.congr hsize fun x hx => hframe x (hpart x hx), hpart⟩

theorem impsReadConfigTable_spec {start : UInt32} (htable : TableAt pl s.memory start es)
    (hcpus : Numbered cpus s) (hroom : cpus.length + (secondaries es).length ≤ impsMaxCpus)
    (hids : ∀ p ∈ secondaries es, p.apicId.toNat < impsMaxCpus) :
    wp (impsReadConfigTable pl es.length start)
      (fun _ s' => ∃ sts, Walked pl (secondaries es) sts cpus s s') (fun _ _ => False) s := by
  induction es generalizing s start cpus with
  | nil => exact ⟨[], .of_logs ⟨rfl, rfl, rfl, Nat.le_refl _⟩ hcpus⟩
  | cons e es ih =>
    rw [List.length_cons, impsReadConfigTable, wp_bind, wp_get]
    rw [secondaries_cons, List.length_append] at hroom
    simp only [secondaries_cons, List.mem_append] at hids
    -- behind the entry the walk goes on with the numbers that are given by then
    have hrest {sts : List Startup} {s₁ : ImpsState} (h₁ : Walked pl e.secondary sts cpus s s₁) :
        wp (impsReadConfigTable pl es.length (start + UInt32.ofNat e.bytes.length))
          (fun _ s' => ∃ sts, Walked pl (secondaries (e :: es)) sts cpus s s')
          (fun _ _ => False) s₁ := by
      have hle : (responding e.secondary sts).length ≤ e.secondary.length := responding_length_le
      have hroom₁ : (cpus ++ (responding e.secondary sts).map some).length +
          (secondaries es).length ≤ impsMaxCpus := by
        rw [List.length_append, List.length_map]
        omega
      apply wp_mono (ih (htable.tail h₁.frame) h₁.numbered hroom₁ fun p hp => hids p (Or.inr hp)) _
        fun _ _ h => h
      rintro _ s₂ ⟨sts', h₂⟩
      exact ⟨sts ++ sts', h₁.append h₂⟩
    cases e with
    | processor p =>
      have htype : s.memory start = impsBctProcessor := by
        simpa using htable.holds.byte (i := 0) rfl
      rw [wp_ite, wp_bind]
      refine ⟨fun _ => ?_, fun hne => absurd htype hne⟩
      have hver : ¬ Scratch pl (start + ImpsProcessor.apicVer) := by
        apply htable.clear
        apply covers_self (i := 2) _ htable.size
        rw [tableBytes_cons, List.length_append, Entry.bytes, p.bytes_length]
        omega
      have hp := ProcessorAt.of_holds (holds_append.mp htable.holds).1
      apply wp_mono (addProcessor_spec hp hver hcpus fun hsecondary => ?_) _ fun _ _ h => h
      · rintro _ s₁ ⟨sts, h₁⟩
        have h := hrest h₁
        rw [Entry.bytes, p.bytes_length] at h
        exact h
      · have hself : (Entry.processor p).secondary = [p] := if_pos hsecondary
        rw [hself] at hroom hids
        exact ⟨by simp only [List.length_singleton] at hroom; omega,
          hids p (Or.inl List.mem_cons_self)⟩
    | other type rest htype hrestlen =>
      have hfirst : s.memory start = type := by simpa using htable.holds.byte (i := 0) rfl
      rw [wp_ite]
      refine ⟨fun h => absurd (hfirst.symm.trans h) htype, fun _ => ?_⟩
      rw [wp_bind]
      apply wp_mono wp_addOther _ fun _ _ h => h
      intro _ s₁ h₁
      have h := hrest (.of_logs h₁ hcpus)
      rw [Entry.bytes, List.length_cons, hrestlen] at h
      exact h

end

end PerfTools.Smp
