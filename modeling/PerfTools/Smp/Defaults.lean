import Mathlib.Tactic.IntervalCases
import PerfTools.Smp.Probe

/-!
# Default configurations

Without a configuration table a machine has one of seven default configurations, all with two
processors. The table for it is part of the program, which adapts it to the configuration. The
second processor is counted twice: before it is started, and when it has responded.
-/

namespace PerfTools.Smp

open Memory Exec Printf FlatMemory

/-! ## The table of a default configuration -/

def defaultCpu (type : Nat) (bsp id : UInt8) : Processor where
  apicId := id
  apicVer := if 4 < type then 0x10 else 0
  flags := if id = bsp then impsFlagEnabled ||| impsCpuflagBoot else impsFlagEnabled
  rest := List.replicate 16 0
  rest_length := Processor.blank_length

/-- The one of the two processors that is not the primary one. -/
def otherCpu (bsp : UInt8) : UInt8 := if bsp = 0 then 1 else 0

/-- An entry that only some configurations have. -/
def optionalEntry (present : Prop) [Decidable present] (type : UInt8) (rest : List UInt8)
    (htype : type ≠ impsBctProcessor) (hrest : rest.length = 7) : Entry :=
  .other (if present then type else 255) rest (by
    split_ifs
    · exact htype
    · decide) hrest

def ioInterrupt (present : Prop) [Decidable present] (intType irq intin : UInt8) : Entry :=
  optionalEntry present impsBctIoInterrupt [intType, 0, 0, 0, irq, 0xFF, intin] (by decide) rfl

def localInterrupt (intType intin : UInt8) : Entry :=
  .other impsBctLocalInterrupt [intType, 0, 0, 0, 15, 0xFF, intin] (by decide) rfl

def busName (type : Nat) : List UInt8 :=
  if type = 4 ∨ type = 7 then ascii "MCA   "
  else if type = 1 ∨ type = 5 then ascii "ISA   "
  else ascii "EISA  "

theorem busEntry_length (type : Nat) : (0 :: busName type).length = 7 := by
  unfold busName
  split_ifs <;> rfl

/-- The processors and the buses. -/
def defaultDevices (type : Nat) (bsp : UInt8) : List Entry :=
  [.processor (defaultCpu type bsp 0), .processor (defaultCpu type bsp 1),
    .other impsBctBus (0 :: busName type) bus_ne_processor (busEntry_length type),
    optionalEntry (4 < type) impsBctBus (1 :: ascii "PCI   ") bus_ne_processor rfl]

/-- The I/O APIC, with what it says of itself. -/
def defaultIoapic (id ver : UInt8) : Entry :=
  .other impsBctIoapic ([id, ver, impsFlagEnabled] ++ leBytes 4 0xFEC00000) (by decide) rfl

def defaultInterrupts (type : Nat) : List Entry :=
  [ioInterrupt (type ≠ 7) 3 0 0, ioInterrupt True 0 1 1, ioInterrupt (type ≠ 2) 0 0 2] ++
    (List.range' 3 13).map (fun i =>
      ioInterrupt (¬ (type = 2 ∧ i = 13)) 0 (UInt8.ofNat i) (UInt8.ofNat i)) ++
    [localInterrupt 3 0, localInterrupt 1 1]

/-- The entries for a default configuration. -/
def defaultEntries (type : Nat) (bsp id ver : UInt8) : List Entry :=
  defaultDevices type bsp ++ defaultIoapic id ver :: defaultInterrupts type

theorem secondary_defaultCpu {type : Nat} {bsp id : UInt8} :
    (defaultCpu type bsp id).Secondary ↔ id ≠ bsp := by
  unfold Processor.Secondary defaultCpu
  dsimp only
  split_ifs with h
  · exact iff_of_false (by decide) (not_not.mpr h)
  · exact iff_of_true (by decide) h

theorem secondaries_default (type : Nat) {bsp : UInt8} (id ver : UInt8)
    (hbsp : bsp = 0 ∨ bsp = 1) :
    secondaries (defaultEntries type bsp id ver) = [defaultCpu type bsp (otherCpu bsp)] := by
  have hsplit : secondaries (defaultEntries type bsp id ver) =
      (Entry.processor (defaultCpu type bsp 0)).secondary ++
        (Entry.processor (defaultCpu type bsp 1)).secondary := by
    rw [← List.append_nil (Entry.secondary (.processor (defaultCpu type bsp 1)))]
    rfl
  rw [hsplit]
  simp only [Entry.secondary, secondary_defaultCpu]
  rcases hbsp with rfl | rfl <;> rfl

/-! ## The changes to the table -/

/-- From s to s' nothing has been done but changes to the table, which has these bytes now: those of
the processors and the buses, of the I/O APIC, and of the interrupts. -/
structure Patched (pl : Platform) (bs io cs : List UInt8) (n : Nat) (s s' : ImpsState) : Prop where
  devices : bs.length = 56
  ioapic : io.length = 8
  interrupts : cs.length = 144
  holds : Holds s'.memory pl.defconfig (bs ++ (io ++ cs))
  startups : startups s'.trace = startups s.trace
  resetCode : resetCode s'.trace = resetCode s.trace
  waited : waited s'.trace ≤ waited s.trace
  same : s' = { s with memory := s'.memory, trace := s'.trace, impsNumCpus := n }

def adaptedDevices (type : Nat) (bs : List UInt8) : List UInt8 :=
  let bs := if type = 1 ∨ type = 5 then overwrite bs 42 (ascii "ISA   ") else bs
  let bs := if type = 4 ∨ type = 7 then overwrite bs 42 (ascii "MCA   ") else bs
  if 4 < type then overwrite (overwrite (overwrite bs 2 [0x10]) 22 [0x10]) 48 [impsBctBus] else bs

def adaptedInterrupts (type : Nat) (cs : List UInt8) : List UInt8 :=
  let cs := if type = 2 then overwrite (overwrite cs 16 [255]) 104 [255] else cs
  if type = 7 then overwrite cs 0 [255] else cs

section

variable {pl : Platform} {bs io cs ds : List UInt8} {n i : Nat} {s s₁ : ImpsState} {a : UInt32}
  {E : Stop → ImpsState → Prop} {bsp : UInt8}

theorem wp_then {m m' : Imps Unit} {P : ImpsState → Prop} {Q : Unit → ImpsState → Prop}
    (h : wp m (fun _ => P) E s) (hrest : ∀ s₁, P s₁ → wp m' Q E s₁) :
    wp (m >>= fun _ => m') Q E s := by
  rw [wp_bind]
  exact wp_mono h (fun _ s₁ h₁ => hrest s₁ h₁) fun _ _ h => h

theorem wp_runIf_ite {c : Prop} [Decidable c] {m : Imps Unit} {P : List UInt8 → ImpsState → Prop}
    (hthen : c → wp m (fun _ => P bs) E s) (helse : ¬ c → P cs s) :
    wp (runIf c m) (fun _ => P (if c then bs else cs)) E s := by
  rw [wp_runIf]
  constructor
  · intro hc
    rw [if_pos hc]
    exact hthen hc
  · intro hc
    rw [if_neg hc]
    exact helse hc

namespace Patched

theorem length (h : Patched pl bs io cs n s s₁) : (bs ++ (io ++ cs)).length = 208 := by
  rw [List.length_append, List.length_append, h.devices, h.ioapic, h.interrupts]

theorem wp_select (h : Patched pl bs io cs n s s₁) {reg : UInt32} :
    wp (log (.ioapicSelect reg)) (fun _ => Patched pl bs io cs n s) E s₁ where
  devices := h.devices
  ioapic := h.ioapic
  interrupts := h.interrupts
  holds := h.holds
  startups := (log_plain ⟨rfl, fun _ => rfl⟩).startups.trans h.startups
  resetCode := (log_plain ⟨rfl, fun _ => rfl⟩).resetCode.trans h.resetCode
  waited := (log_plain (e := .ioapicSelect reg) ⟨rfl, fun _ => rfl⟩).waited.trans h.waited
  same := by
    dsimp only
    rw [h.same]

theorem wp_write {bs' io' cs' : List UInt8} (h : Patched pl bs io cs n s s₁)
    (hbs : bs'.length = bs.length) (hio : io'.length = io.length) (hcs : cs'.length = cs.length)
    (hholds : Holds (store s₁.memory a ds) pl.defconfig (bs' ++ (io' ++ cs'))) :
    wp (storeBytes a ds) (fun _ => Patched pl bs' io' cs' n s) E s₁ where
  devices := hbs.trans h.devices
  ioapic := hio.trans h.ioapic
  interrupts := hcs.trans h.interrupts
  holds := hholds
  startups := h.startups
  resetCode := h.resetCode
  waited := h.waited
  same := by
    dsimp only
    rw [h.same]

theorem wp_device (h : Patched pl bs io cs n s s₁) (ha : a = pl.defconfig + UInt32.ofNat i)
    (hin : i + ds.length ≤ 56) :
    wp (storeBytes a ds) (fun _ => Patched pl (overwrite bs i ds) io cs n s) E s₁ := by
  have hin' : i + ds.length ≤ bs.length := by rwa [h.devices]
  have hlen := h.length
  have hholds : Holds (store s₁.memory (pl.defconfig + UInt32.ofNat i) ds) pl.defconfig _ :=
    h.holds.store (by omega) (by omega)
  rw [overwrite_append_left hin', ← ha] at hholds
  exact h.wp_write (overwrite_length hin') rfl rfl hholds

theorem wp_ioapic (h : Patched pl bs io cs n s s₁) (ha : a = pl.defconfig + UInt32.ofNat (56 + i))
    (hin : i + ds.length ≤ 8) :
    wp (storeBytes a ds) (fun _ => Patched pl bs (overwrite io i ds) cs n s) E s₁ := by
  have hin' : i + ds.length ≤ io.length := by rwa [h.ioapic]
  have hlen := h.length
  have hholds : Holds (store s₁.memory (pl.defconfig + UInt32.ofNat (bs.length + i)) ds)
      pl.defconfig _ := h.holds.store (by rw [h.devices]; omega) (by omega)
  rw [overwrite_append_right, overwrite_append_left hin', h.devices, ← ha] at hholds
  exact h.wp_write rfl (overwrite_length hin') rfl hholds

theorem wp_interrupt (h : Patched pl bs io cs n s s₁)
    (ha : a = pl.defconfig + UInt32.ofNat (64 + i)) (hin : i + ds.length ≤ 144) :
    wp (storeBytes a ds) (fun _ => Patched pl bs io (overwrite cs i ds) n s) E s₁ := by
  have hin' : i + ds.length ≤ cs.length := by rwa [h.interrupts]
  have hlen := h.length
  have hholds :
      Holds (store s₁.memory (pl.defconfig + UInt32.ofNat (bs.length + (io.length + i))) ds)
        pl.defconfig _ := h.holds.store (by rw [h.devices, h.ioapic]; omega) (by omega)
  rw [overwrite_append_right, overwrite_append_right, h.devices, h.ioapic, ← Nat.add_assoc,
    ← ha] at hholds
  exact h.wp_write rfl rfl (overwrite_length hin') hholds

theorem wp_count (h : Patched pl bs io cs n s s₁) {k : Nat} :
    wp (modify fun s : ImpsState => { s with impsNumCpus := k })
      (fun _ => Patched pl bs io cs k s) E s₁ := by
  refine ⟨h.devices, h.ioapic, h.interrupts, h.holds, h.startups, h.resetCode, h.waited, ?_⟩
  dsimp only
  rw [h.same]

/-- The changes that depend on the number of the configuration. -/
theorem wp_adapt (h : Patched pl bs io cs n s s₁) (type : Nat) :
    wp (do
      runIf (type = 1 ∨ type = 5) (storeBytes (pl.defconfig + 42) (ascii "ISA   "))
      runIf (type = 4 ∨ type = 7) (storeBytes (pl.defconfig + 42) (ascii "MCA   "))
      runIf (4 < type) do
        storeBytes (pl.defconfig + ImpsProcessor.apicVer) [0x10]
        storeBytes (pl.defconfig + 20 + ImpsProcessor.apicVer) [0x10]
        storeBytes (pl.defconfig + 48) [impsBctBus]
      runIf (type = 2) do
        storeBytes (pl.defconfig + 80) [255]
        storeBytes (pl.defconfig + 168) [255]
      runIf (type = 7) (storeBytes (pl.defconfig + 64) [255]))
      (fun _ => Patched pl (adaptedDevices type bs) io (adaptedInterrupts type cs) n s) E s₁ := by
  refine wp_then (wp_runIf_ite (P := fun x => Patched pl x io cs n s)
    (fun _ => h.wp_device (i := 42) rfl (by decide)) fun _ => h) fun s₂ h₂ => ?_
  refine wp_then (wp_runIf_ite (P := fun x => Patched pl x io cs n s)
    (fun _ => h₂.wp_device (i := 42) rfl (by decide)) fun _ => h₂) fun s₃ h₃ => ?_
  refine wp_then (wp_runIf_ite (P := fun x => Patched pl x io cs n s)
    (fun _ => wp_then (h₃.wp_device (i := 2) rfl (by decide)) fun _ h =>
      wp_then (h.wp_device (i := 22) (UInt32.add_assoc _ _ _) (by decide)) fun _ h =>
        h.wp_device (i := 48) rfl (by decide)) fun _ => h₃) fun s₄ h => ?_
  have h₄ : Patched pl (adaptedDevices type bs) io cs n s s₄ := h
  refine wp_then (wp_runIf_ite (P := fun x => Patched pl (adaptedDevices type bs) io x n s)
    (fun _ => wp_then (h₄.wp_interrupt (i := 16) rfl (by decide)) fun _ h =>
      h.wp_interrupt (i := 104) rfl (by decide)) fun _ => h₄) fun s₅ h₅ => ?_
  exact wp_runIf_ite (P := fun x => Patched pl (adaptedDevices type bs) io x n s)
    (fun _ => h₅.wp_interrupt (i := 0) rfl (by decide)) fun _ => h₅

end Patched

theorem adaptedDevices_default {type : Nat} (htype : 1 ≤ type) (hmax : type ≤ 7)
    (hbsp : bsp = 0 ∨ bsp = 1) :
    adaptedDevices type (overwrite (overwrite (defconfigBytes.take 56)
      (ImpsProcessor.size * bsp.toNat + 3) [impsFlagEnabled ||| impsCpuflagBoot])
      (ImpsProcessor.size * (if bsp = 0 then 1 else 0) + 3) [impsFlagEnabled]) =
      tableBytes (defaultDevices type bsp) := by
  rcases hbsp with rfl | rfl
  · interval_cases type <;> decide +kernel
  · interval_cases type <;> decide +kernel

theorem adaptedInterrupts_default {type : Nat} (htype : 1 ≤ type) (hmax : type ≤ 7) :
    adaptedInterrupts type (defconfigBytes.drop 64) = tableBytes (defaultInterrupts type) := by
  interval_cases type <;> decide +kernel

theorem defaultIoapic_bytes {id ver : UInt8} :
    overwrite (overwrite ((defconfigBytes.drop 56).take 8) 1 [id]) 2 [ver] =
      (defaultIoapic id ver).bytes := by
  have hentry : (defconfigBytes.drop 56).take 8 =
      [impsBctIoapic, 0, 0, impsFlagEnabled] ++ leBytes 4 0xFEC00000 := by decide +kernel
  rw [hentry]
  rfl

theorem defaultProc_ok {i : Nat} (hi : i < 2) :
    defaultProc pl i = .ok (pl.defconfig + UInt32.ofNat (ImpsProcessor.size * i)) := if_pos hi

theorem setDefaults_spec {type : Nat} (htype : 1 ≤ type) (hmax : type ≤ 7)
    (hbsp : bsp = 0 ∨ bsp = 1) (h : Holds s.memory pl.defconfig defconfigBytes) :
    wp (setDefaults pl type bsp) (fun _ => Patched pl (tableBytes (defaultDevices type bsp))
      (defaultIoapic (apicId (pl.ioapic ioapicId)) (apicVersion (pl.ioapic ioapicVer))).bytes
      (tableBytes (defaultInterrupts type)) 2 s) E s := by
  have hprimary : bsp.toNat < 2 := by rcases hbsp with rfl | rfl <;> decide
  have hother : (if bsp = 0 then 1 else 0) < 2 := by split_ifs <;> decide
  have hsplit : defconfigBytes = defconfigBytes.take 56 ++
      ((defconfigBytes.drop 56).take 8 ++ defconfigBytes.drop 64) := by decide +kernel
  have h₀ : Patched pl (defconfigBytes.take 56) ((defconfigBytes.drop 56).take 8)
      (defconfigBytes.drop 64) s.impsNumCpus s s :=
    ⟨by decide +kernel, by decide +kernel, by decide +kernel, hsplit ▸ h, rfl, rfl, Nat.le_refl _,
      rfl⟩
  rw [setDefaults]
  refine wp_then h₀.wp_select fun s₁ h₁ => ?_
  refine wp_then (h₁.wp_ioapic (i := 1) rfl (by simp)) fun s₂ h₂ => ?_
  refine wp_then h₂.wp_select fun s₃ h₃ => ?_
  refine wp_then (h₃.wp_ioapic (i := 2) rfl (by simp)) fun s₄ h₄ => ?_
  rw [wp_bind, defaultProc_ok hprimary, wp_lift_ok]
  refine wp_then (h₄.wp_device (i := ImpsProcessor.size * bsp.toNat + 3)
    (by rw [add_ofNat_add]; rfl) (by rw [List.length_singleton, ImpsProcessor.size]; omega))
    fun s₅ h₅ => ?_
  rw [wp_bind, defaultProc_ok hother, wp_lift_ok]
  refine wp_then (h₅.wp_device (i := ImpsProcessor.size * (if bsp = 0 then 1 else 0) + 3)
    (by rw [add_ofNat_add]; rfl) (by rw [List.length_singleton, ImpsProcessor.size]; omega))
    fun s₆ h₆ => ?_
  refine wp_then h₆.wp_count fun s₇ h₇ => ?_
  refine wp_mono (h₇.wp_adapt type) (fun _ s₈ h₈ => ?_) fun _ _ h => h
  rw [adaptedDevices_default htype hmax hbsp, defaultIoapic_bytes,
    adaptedInterrupts_default htype hmax] at h₈
  exact h₈

end

/-! ## Probing -/

/-- The floating pointer structure names a default configuration; its table is as the linker has put
it into memory, out of the way of boot_cpu. -/
structure Defaulted (pl : Platform) (m : Ram) (fps : UInt32) : Prop where
  table : load m fps Fps.cthPtr = 0
  holds : Holds m pl.defconfig defconfigBytes
  clear : ∀ x, Covers pl.defconfig defconfigBytes.length x → ¬ Scratch pl x

section

variable {pl : Platform} {bs io cs : List UInt8} {s s₁ s₂ : ImpsState} {E : Stop → ImpsState → Prop}
  {bsp : UInt8}

theorem Patched.numbered (h : Patched pl bs io cs 2 s₁ s₂) (hprimary : Primary bsp s s₁) :
    Numbered [some bsp, none] s₂ where
  count := by
    rw [h.same]
    rfl
  cpu k id hk := by
    cases k with
    | zero =>
      rw [h.same]
      exact hprimary.cpu.trans (Option.some.inj hk)
    | succ k =>
      cases k with
      | zero => cases Option.some.inj hk
      | succ k => cases hk
  apic id hid := by
    have hself : id = bsp := by simpa using hid
    rw [hself, h.same]
    exact ⟨0, hprimary.apic, rfl⟩

theorem wp_readTables_default {fps : UInt32} {id : UInt8} {Q : Unit → ImpsState → Prop}
    (htable : load s.memory fps Fps.cthPtr = 0)
    (h : wp (setDefaults pl (load s.memory fps (Fps.featureInfo 0)) id)
      (fun _ s₁ => wp (impsReadConfigTable pl defEntries pl.defconfig) Q E s₁) E s) :
    wp (readTables pl fps id) Q E s := by
  rw [readTables, wp_bind, wp_get, wp_ite]
  refine ⟨fun hne => absurd htable hne, fun _ => ?_⟩
  rw [wp_bind]
  exact h

theorem tableBytes_default {type : Nat} {id ver : UInt8} :
    tableBytes (defaultEntries type bsp id ver) = tableBytes (defaultDevices type bsp) ++
      ((defaultIoapic id ver).bytes ++ tableBytes (defaultInterrupts type)) := by
  rw [defaultEntries, tableBytes, List.flatMap_append]
  rfl

theorem Patched.tableAt {type n : Nat} {id ver : UInt8}
    (h : Patched pl (tableBytes (defaultDevices type bsp)) (defaultIoapic id ver).bytes
      (tableBytes (defaultInterrupts type)) n s s₁)
    (hclear : ∀ x, Covers pl.defconfig defconfigBytes.length x → ¬ Scratch pl x) :
    TableAt pl s₁.memory pl.defconfig (defaultEntries type bsp id ver) where
  size := by
    rw [tableBytes_default, h.length]
    decide
  holds := by
    rw [tableBytes_default]
    exact h.holds
  clear := by
    rw [tableBytes_default, h.length]
    exact hclear

theorem responding_one {p : Processor} {st : Startup} :
    responding [p] [st] = if st.responds = true then [p.apicId] else [] := by
  rw [responding, List.zip_cons_cons, List.zip_nil_left, List.filter_cons]
  split_ifs <;> rfl

/-- What the walk through the table leaves when it has only the second processor. -/
theorem Walked.second {p : Processor} {sts : List Startup}
    (h : Walked pl [p] sts [some bsp, none] s₁ s₂) :
    ∃ st, sts = [st] ∧ StartOf p st ∧ s₂.impsNumCpus = (if st.responds = true then 3 else 2) ∧
      s₂.impsCpuApicMap[1]? = s₁.impsCpuApicMap[1]? ∧
      (st.responds = true → s₂.impsCpuApicMap[2]? = some p.apicId) := by
  obtain ⟨st, rest, hst, hrest, rfl⟩ := List.forall₂_cons_left_iff.mp h.starts
  obtain rfl := List.forall₂_nil_left_iff.mp hrest
  have hnumbered := h.numbered
  rw [responding_one] at hnumbered
  refine ⟨st, rfl, hst, ?_, h.kept 1 Nat.one_lt_two, fun hresponds => ?_⟩
  · rw [hnumbered.count]
    split_ifs <;> rfl
  · rw [if_pos hresponds] at hnumbered
    exact hnumbered.cpu 2 p.apicId rfl

/-- What imps_probe does when it returns n: it starts the processor p with st, and gives it number 2
when that succeeds. -/
structure SecondStarted (p : Processor) (n : Nat) (st : Startup) (s s' : ImpsState) : Prop where
  startups : startups s'.trace = startups s.trace ++ [st]
  start : StartOf p st
  count : n = if st.responds = true then 3 else 2
  kept : s'.impsCpuApicMap[1]? = s.impsCpuApicMap[1]?
  second : st.responds = true → s'.impsCpuApicMap[2]? = some p.apicId

theorem impsProbe_secondStarted {a : UInt32} (hfound : firstFps pl s.memory = some a)
    (hgood : GoodBios pl s.memory (pl.physToVirtual a))
    (hdefault : Defaulted pl s.memory (pl.physToVirtual a))
    (hprimary : ∀ t, apicId (pl.lapic t lapicId) = bsp) (hbsp : bsp = 0 ∨ bsp = 1) :
    wp (impsProbe pl) (fun n s' => ∃ st, SecondStarted (defaultCpu
      (load s.memory (pl.physToVirtual a) (Fps.featureInfo 0)) bsp (otherCpu bsp)) n st s s')
      (fun _ _ => False) s := by
  have hvalid : bsp.toNat < impsMaxCpus := by rcases hbsp with rfl | rfl <;> decide
  have hother : (otherCpu bsp).toNat < impsMaxCpus := by rcases hbsp with rfl | rfl <;> decide
  have hroom : 3 ≤ impsMaxCpus := by decide
  have htype := Nat.pos_of_ne_zero (hgood.default hdefault.table)
  apply wp_impsProbe
  · intro s₁ hnone
    rw [hfound] at hnone
    cases hnone
  · intro b s₁ hb h₁
    obtain rfl := Option.some.inj (hfound.symm.trans hb)
    have hmemory₁ : s₁.memory = s.memory := by rw [h₁.same]; rfl
    apply wp_impsReadBios
    · intro s₂ _ h₂ _
      have h₁₂ := h₁.trans h₂
      rw [startCpus, wp_bind]
      apply wp_mono (setupPrimaryCpu_spec hprimary hvalid) _ fun _ _ h => h
      rintro id s₃ ⟨rfl, h₃⟩
      have hmemory₃ : s₃.memory = s.memory := by rw [h₃.same, h₁₂.same]; rfl
      rw [wp_bind]
      apply wp_readTables_default (hmemory₃ ▸ hdefault.table)
      rw [hmemory₃]
      apply wp_mono (setDefaults_spec htype hgood.type hbsp (hmemory₃ ▸ hdefault.holds)) _
        fun _ _ h => h
      intro _ s₄ h₄
      have hsecond := secondaries_default (load s.memory (pl.physToVirtual a) (Fps.featureInfo 0))
        (apicId (pl.ioapic ioapicId)) (apicVersion (pl.ioapic ioapicVer)) hbsp
      apply wp_mono (impsReadConfigTable_spec (h₄.tableAt hdefault.clear) (h₄.numbered h₃)
        (by rw [hsecond]; exact hroom) (by rw [hsecond]; simpa [defaultCpu] using hother)) _
        fun _ _ h => h
      rintro _ s₅ ⟨sts, h₅⟩
      rw [hsecond] at h₅
      obtain ⟨st, rfl, hstart, hcount, hkept, hnumber⟩ := h₅.second
      refine ⟨st, ?_, hstart, hcount, ?_, hnumber⟩
      · have hstartups := h₅.startups
        rw [h₄.startups, h₃.startups, h₁₂.startups] at hstartups
        exact hstartups
      · have hfirst : s₄.impsCpuApicMap[1]? = s₃.impsCpuApicMap[1]? := by rw [h₄.same]
        have hsame : s₂.impsCpuApicMap[1]? = s.impsCpuApicMap[1]? := by
          rw [h₁₂.same]
          rfl
        exact hkept.trans (hfirst.trans ((h₃.kept 1 Nat.one_ne_zero).trans hsame))
    · intro s₂ hbad
      exact absurd (hmemory₁ ▸ hgood) hbad

/-- With a default configuration imps_probe counts the second processor before it is started, and
once more when it has responded: it returns one more than the number of CPUs that run, and the
second processor gets number 2. Number 1 is given to none. -/
theorem impsProbe_default {a : UInt32} (hfound : firstFps pl s.memory = some a)
    (hgood : GoodBios pl s.memory (pl.physToVirtual a))
    (hdefault : Defaulted pl s.memory (pl.physToVirtual a))
    (hprimary : ∀ t, apicId (pl.lapic t lapicId) = bsp) (hbsp : bsp = 0 ∨ bsp = 1) :
    ∃ n s' st, impsProbe pl s = (.ok n, s') ∧ startups s'.trace = startups s.trace ++ [st] ∧
      StartOf (defaultCpu (load s.memory (pl.physToVirtual a) (Fps.featureInfo 0)) bsp
        (otherCpu bsp)) st ∧
      n = (if st.responds = true then 3 else 2) ∧
      s'.impsCpuApicMap[1]? = s.impsCpuApicMap[1]? ∧
      (st.responds = true → s'.impsCpuApicMap[2]? = some (otherCpu bsp)) := by
  obtain ⟨n, s', hrun, st, h⟩ :=
    returns_of_wp (impsProbe_secondStarted hfound hgood hdefault hprimary hbsp)
  exact ⟨n, s', st, hrun, h.startups, h.start, h.count, h.kept, h.second⟩

end

/-- The board without its tables, in default configuration 5. -/
def plainBoardStart : ImpsState :=
  { boardStart with memory := store (store (fun _ => 0) 0x9FC00
      (ascii "_MP_" ++ leBytes 4 0 ++ [1, 4, 155, 5, 0, 0, 0, 0])) 0x200000 defconfigBytes }

theorem plainBoard_found : firstFps board plainBoardStart.memory = some 0x9FC00 := by
  decide +kernel

theorem plainBoard_good : GoodBios board plainBoardStart.memory 0x9FC00 where
  type := by decide +kernel
  table h := absurd (by decide +kernel) h
  default _ := by decide +kernel
  lapic := by decide +kernel

theorem plainBoard_defaulted : Defaulted board plainBoardStart.memory 0x9FC00 where
  table := by decide +kernel
  holds := by decide +kernel
  clear := by
    have hclear : ∀ i < 208, ¬ Scratch board (0x200000 + UInt32.ofNat i) := by decide +kernel
    intro x hx
    rw [hx.eq_add]
    exact hclear _ hx

theorem impsProbe_default_board : ∃ n s' st, impsProbe board plainBoardStart = (.ok n, s') ∧
    startups s'.trace = startups plainBoardStart.trace ++ [st] ∧
    StartOf (defaultCpu (load plainBoardStart.memory 0x9FC00 (Fps.featureInfo 0)) 0 (otherCpu 0))
      st ∧
    n = (if st.responds = true then 3 else 2) ∧
    s'.impsCpuApicMap[1]? = plainBoardStart.impsCpuApicMap[1]? ∧
    (st.responds = true → s'.impsCpuApicMap[2]? = some (otherCpu 0)) :=
  impsProbe_default plainBoard_found plainBoard_good plainBoard_defaulted
    (fun _ => show apicId 0 = 0 by decide) (Or.inl rfl)

end PerfTools.Smp
