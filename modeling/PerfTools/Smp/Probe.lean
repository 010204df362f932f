import Mathlib.Data.List.Nodup
import Mathlib.Data.List.Perm.Subperm
import PerfTools.Smp.Search
import PerfTools.Smp.Table

/-!
# Probing a machine

What imps_probe returns, and what has been done by then: without good tables nothing, with a
configuration table one start for each secondary processor, and consecutive numbers for those that
respond.
-/

namespace PerfTools.Smp

open Memory Exec Printf FlatMemory

/-! ## Found or not -/

section

variable {pl : Platform} {s : ImpsState}

/-- imps_probe only looks at the bottom megabyte. It returns 0 exactly when there are no tables there,
or those of the first floating pointer structure are not good, and has then done nothing. -/
theorem impsProbe_ne_zero_iff {n : Nat} {s' : ImpsState} (h : impsProbe pl s = (.ok n, s')) :
    (SaneMemory pl → ∀ a ∈ candidates pl s.memory, a.toNat + 16 ≤ 2 ^ 20) ∧
      (n ≠ 0 ↔ ∃ a, firstFps pl s.memory = some a ∧ a.toNat + 16 ≤ 2 ^ 20 ∧
        GoodBios pl s.memory (pl.physToVirtual a)) ∧
      (n = 0 → Untouched (fresh s) s') := by
  refine ⟨fun hsane a ha => candidates_toNat hsane ha, ?_⟩
  have hwp : wp (impsProbe pl) (fun n s' => (n ≠ 0 ↔ ∃ a, firstFps pl s.memory = some a ∧
      a.toNat + 16 ≤ 2 ^ 20 ∧ GoodBios pl s.memory (pl.physToVirtual a)) ∧
      (n = 0 → Untouched (fresh s) s')) (fun _ _ => True) s := by
    apply wp_impsProbe
    · intro s₁ hnone h₁
      refine ⟨iff_of_false (not_not.mpr rfl) ?_, fun _ => h₁⟩
      rintro ⟨a, ha, -⟩
      rw [hnone] at ha
      cases ha
    · intro b s₁ hb h₁
      have hmemory : s₁.memory = s.memory := by rw [h₁.same]; rfl
      apply wp_impsReadBios
      · intro s₂ hgood h₂ _
        have hcounted : Counted s₂ := by
          rw [Counted, h₂.same, h₁.same]
          exact Nat.le_refl 1
        apply wp_mono (startCpus_spec hcounted) _ fun _ _ _ => trivial
        intro _ s₃ h₃
        exact ⟨iff_of_true h₃ ⟨b, hb, firstFps_toNat hb, hmemory ▸ hgood⟩, fun h => absurd h h₃⟩
      · intro s₂ hbad h₂
        have hzero : cpusFound s₂ = 0 := by
          rw [cpusFound, h₂.same, h₁.same]
          rfl
        rw [hzero]
        refine ⟨iff_of_false (not_not.mpr rfl) ?_, fun _ => h₁.trans h₂⟩
        rintro ⟨a, ha, -, hgood⟩
        obtain rfl := Option.some.inj (hb.symm.trans ha)
        exact hbad (hmemory ▸ hgood)
  exact (wp_of_eq h).mp hwp

end

/-- The processors of the board, the last one disabled, and a bus. -/
def boardEntries : List Entry :=
  [.processor ⟨0, 0x11, 3, List.replicate 16 0, by decide⟩,
    .processor ⟨4, 0x11, 1, List.replicate 16 0, by decide⟩,
    .processor ⟨6, 0x11, 0, List.replicate 16 0, by decide⟩,
    .other impsBctBus (0 :: ascii "ISA   ") (by decide) (by decide)]

def boardTable : List UInt8 :=
  ascii "PCMP" ++ leBytes 2 112 ++ [4, 135] ++ ascii "BOARD   " ++ ascii "EXAMPLE     " ++
    leBytes 6 0 ++ leBytes 2 4 ++ leBytes 4 0xFEE00000 ++ leBytes 4 0 ++ tableBytes boardEntries

/-- 640 kilobytes, the tables at the end of them. -/
def boardMemory : Ram :=
  store (store (fun _ => 0) 0x9FC00 (ascii "_MP_" ++ leBytes 4 0x9FC10 ++ [1, 4, 139, 0, 0, 0, 0, 0]))
    0x9FC10 boardTable

/-- A board on which the other processors run at the first test. -/
def board : Platform where
  physToVirtual a := a
  cmosReadByte reg := if reg = 0x16 then 2 else 0x80
  readMsrLo _ := 0xFEE00900
  lapic _ _ := 0
  ioapic _ := 0
  testBooted _ := true
  patchCode := [0xEB, 0xFE]
  defconfig := 0x200000

def boardStart : ImpsState :=
  ⟨boardMemory, [], false, 1, 0, Vector.replicate impsMaxCpus 0, Vector.replicate impsMaxCpus 0⟩

theorem impsProbe_ne_zero_iff_board :
    ∃ a, firstFps board boardStart.memory = some a ∧ a.toNat + 16 ≤ 2 ^ 20 ∧
      GoodBios board boardStart.memory a := by
  have hvalue : (impsProbe board boardStart).1 = .ok 2 := by decide +kernel
  have h : impsProbe board boardStart = (.ok 2, (impsProbe board boardStart).2) := by rw [← hvalue]
  exact (impsProbe_ne_zero_iff h).2.1.mp (by decide)

/-! ## The primary CPU -/

/-- From s to s' the primary CPU has got number 0. -/
structure Primary (bsp : UInt8) (s s' : ImpsState) : Prop where
  startups : startups s'.trace = startups s.trace
  resetCode : resetCode s'.trace = resetCode s.trace
  waited : waited s'.trace ≤ waited s.trace
  cpu : s'.impsCpuApicMap[0]? = some bsp
  apic : s'.impsApicCpuMap[bsp.toNat]? = some 0
  kept : ∀ k ≠ 0, s'.impsCpuApicMap[k]? = s.impsCpuApicMap[k]?
  same : s' = { s with trace := s'.trace, impsCpuApicMap := s'.impsCpuApicMap,
                       impsApicCpuMap := s'.impsApicCpuMap }

section

variable {pl : Platform} {s s₁ s₂ : ImpsState} {E : Stop → ImpsState → Prop} {bsp : UInt8}

theorem setupPrimaryCpu_spec (hbsp : ∀ t, apicId (pl.lapic t lapicId) = bsp)
    (hvalid : bsp.toNat < impsMaxCpus) :
    wp (setupPrimaryCpu pl) (fun id s' => id = bsp ∧ Primary bsp s s') E s := by
  simp only [setupPrimaryCpu, wp_bind]
  apply wp_mono wp_impsLapicRead _ fun _ _ h => h
  intro spiv s₁ h₁
  apply wp_mono (wp_impsLapicWrite (by decide) (by decide)) _ fun _ _ h => h
  intro _ s₂ h₂
  have h₁₂ := h₁.quiet h₂
  have hzero : 0 < impsMaxCpus := by decide
  simp only [impsLapicRead, wp_bind, wp_get, log, wp_modify, wp_pure, hbsp, setCpu_ok hvalid,
    setCpu_ok hzero, wp_lift_ok]
  have h := h₁₂.quiet (log_plain (e := .lapicRead lapicId (pl.lapic s₂.trace lapicId))
    ⟨rfl, fun _ => rfl⟩)
  refine ⟨trivial, h.startups, h.resetCode, h.waited, Vector.getElem?_set_self hzero,
    Vector.getElem?_set_self hvalid, fun k hk => ?_, ?_⟩
  · dsimp only
    rw [Vector.getElem?_set_ne _ (Ne.symm hk), h₁₂.same]
  · rw [h₁₂.same]

theorem Primary.numbered (h : Primary bsp s s₁) {n : Nat} (hcount : s.impsNumCpus = n + 1) :
    Numbered (some bsp :: List.replicate n none) s₁ where
  count := by
    rw [h.same, List.length_cons, List.length_replicate]
    exact hcount
  cpu k id hk := by
    cases k with
    | zero => exact h.cpu.trans (Option.some.inj hk)
    | succ k =>
      rw [List.getElem?_cons_succ, List.getElem?_replicate] at hk
      split_ifs at hk
      cases Option.some.inj hk
  apic id hid := by
    have hself : id = bsp := by simpa [List.mem_replicate] using hid
    rw [hself]
    exact ⟨0, h.apic, rfl⟩

/-! ## Machines with a configuration table -/

/-- The configuration table of the floating pointer structure lists these entries. -/
structure Described (pl : Platform) (m : Ram) (fps : UInt32) (es : List Entry) : Prop where
  table : load m fps Fps.cthPtr ≠ 0
  count : load m (cthAddr pl m fps) Cth.entryCount = es.length
  entries : TableAt pl m (cthAddr pl m fps + UInt32.ofNat Cth.size) es

/-- The APIC ids of the CPUs that can be started, the primary one first. -/
def apicIds (bsp : UInt8) (ps : List Processor) : List UInt8 := bsp :: ps.map Processor.apicId

/-- The ids name CPUs, each one other than the others. -/
structure ProperIds (pl : Platform) (bsp : UInt8) (ps : List Processor) : Prop where
  primary : ∀ t, apicId (pl.lapic t lapicId) = bsp
  distinct : (apicIds bsp ps).Nodup
  valid : ∀ id ∈ apicIds bsp ps, id.toNat < impsMaxCpus

/-- The two maps are inverse to each other on these CPUs. -/
structure Mapped (cpus : List UInt8) (s : ImpsState) : Prop where
  count : s.impsNumCpus = cpus.length
  cpu : ∀ (k : Nat) (id : UInt8), cpus[k]? = some id → s.impsCpuApicMap[k]? = some id
  apic : ∀ (k : Nat) (id : UInt8), cpus[k]? = some id →
    s.impsApicCpuMap[id.toNat]? = some (UInt8.ofNat k)

/-- From s to s' these processors have been started, and those that respond have got numbers. -/
structure Started (pl : Platform) (bsp : UInt8) (ps : List Processor) (sts : List Startup)
    (s s' : ImpsState) : Prop where
  starts : List.Forall₂ StartOf ps sts
  startups : startups s'.trace = startups s.trace ++ sts
  mapped : Mapped (bsp :: responding ps sts) s'
  waited : waited s'.trace ≤ waited s.trace + bootTime * ps.length
  frame : ∀ x, ¬ Scratch pl x → s'.memory x = s.memory x
  clean : ps ≠ [] → resetCode s'.trace = some 0 ∧
    Holds s'.memory (pl.physToVirtual biosResetVector) (leBytes 4 0)
  enabled : s'.impsEnabled = true

theorem responding_sublist {ps : List Processor} {sts : List Startup} :
    (responding ps sts).Sublist (ps.map Processor.apicId) := by
  induction ps generalizing sts with
  | nil => exact .slnil
  | cons p ps ih =>
    cases sts with
    | nil => exact List.nil_sublist _
    | cons st sts =>
      rw [responding, List.zip_cons_cons, List.filter_cons]
      split_ifs
      · exact (@ih sts).cons_cons _
      · exact (@ih sts).cons _

theorem length_le_of_proper {ids : List UInt8} (hdistinct : ids.Nodup)
    (hvalid : ∀ id ∈ ids, id.toNat < impsMaxCpus) : ids.length ≤ impsMaxCpus := by
  have hnodup : (ids.map UInt8.toNat).Nodup :=
    List.Nodup.map (fun _ _ h => UInt8.toNat.inj h) hdistinct
  have hsub : ids.map UInt8.toNat ⊆ List.range impsMaxCpus := by
    intro k hk
    obtain ⟨id, hid, rfl⟩ := List.mem_map.mp hk
    exact List.mem_range.mpr (hvalid id hid)
  simpa using (hnodup.subperm hsub).length_le

theorem Numbered.mapped {cpus : List UInt8} (h : Numbered (cpus.map some) s)
    (hdistinct : cpus.Nodup) : Mapped cpus s where
  count := by simpa using h.count
  cpu k id hk := h.cpu k id (by rw [List.getElem?_map, hk]; rfl)
  apic k id hk := by
    obtain ⟨n, hn, hcpu⟩ := h.apic id (List.mem_map_of_mem (List.mem_of_getElem? hk))
    have hsame : cpus[n.toNat]? = some id := by simpa using hcpu
    have hk' : n.toNat = k :=
      (List.getElem?_inj (List.getElem?_eq_some_iff.mp hsame).1 hdistinct).mp (hsame.trans hk.symm)
    rw [hn, ← hk', UInt8.ofNat_toNat]

/-- The walk through a table, and the primary CPU before it. -/
theorem Started.of_walked {ps : List Processor} {sts : List Startup} {s₀ : ImpsState}
    (h₀ : Untouched (fresh s) s₀) (h₁ : Primary bsp s₀ s₁) (h₂ : Walked pl ps sts [some bsp] s₁ s₂)
    (hdistinct : (apicIds bsp ps).Nodup) :
    Started pl bsp ps sts s { s₂ with impsEnabled := true } where
  starts := h₂.starts
  startups := by
    have h := h₂.startups
    rw [h₁.startups, h₀.startups] at h
    exact h
  mapped := by
    have hproper : (bsp :: responding ps sts).Nodup :=
      List.Nodup.sublist (responding_sublist.cons_cons bsp) hdistinct
    have hnumbered : Numbered ((bsp :: responding ps sts).map some) s₂ := h₂.numbered
    have h := hnumbered.mapped hproper
    exact ⟨h.count, h.cpu, h.apic⟩
  waited := h₂.waited.trans (Nat.add_le_add_right (h₁.waited.trans h₀.waited) _)
  frame x hx := by
    have hmemory : s₁.memory = s.memory := by
      rw [h₁.same, h₀.same]
      rfl
    exact (h₂.frame x hx).trans (congrFun hmemory x)
  clean := h₂.clean
  enabled := rfl

theorem Primary.of_logs (h : Primary bsp s s₁) (h' : Logs (Smp.startups s₁.trace) 0 s₁ s₂) :
    Primary bsp s s₂ where
  startups := h'.startups.trans h.startups
  resetCode := h'.resetCode.trans h.resetCode
  waited := h'.waited.trans h.waited
  cpu := by rw [h'.same]; exact h.cpu
  apic := by rw [h'.same]; exact h.apic
  kept k hk := by rw [h'.same]; exact h.kept k hk
  same := by rw [h'.same, h.same]

theorem wp_readTables {fps : UInt32} {id : UInt8} {Q : Unit → ImpsState → Prop}
    (htable : load s.memory fps Fps.cthPtr ≠ 0)
    (h : ∀ s₁, Logs (startups s.trace) 0 s s₁ →
      wp (impsReadConfigTable pl (load s.memory (cthAddr pl s.memory fps) Cth.entryCount)
        (cthAddr pl s.memory fps + UInt32.ofNat Cth.size)) Q E s₁) :
    wp (readTables pl fps id) Q E s := by
  rw [readTables, wp_bind, wp_get, wp_ite]
  refine ⟨fun _ => ?_, fun hnone => absurd htable hnone⟩
  rw [wp_bind]
  apply wp_mono wp_kernelPrint _ fun _ _ h => h
  exact fun _ s₁ h₁ => h s₁ h₁

theorem impsProbe_started {a : UInt32} {es : List Entry}
    (hfound : firstFps pl s.memory = some a) (hgood : GoodBios pl s.memory (pl.physToVirtual a))
    (htable : Described pl s.memory (pl.physToVirtual a) es)
    (hids : ProperIds pl bsp (secondaries es)) :
    wp (impsProbe pl) (fun n s' => n = s'.impsNumCpus ∧
      ∃ sts, Started pl bsp (secondaries es) sts s s') (fun _ _ => False) s := by
  apply wp_impsProbe
  · intro s₁ hnone
    rw [hfound] at hnone
    cases hnone
  · intro b s₁ hb h₁
    obtain rfl := Option.some.inj (hfound.symm.trans hb)
    have hmemory₁ : s₁.memory = s.memory := by rw [h₁.same]; rfl
    apply wp_impsReadBios
    · intro s₂ _ h₂ _
      have h₁₂ := h₁.trans h₂
      rw [startCpus, wp_bind]
      apply wp_mono (setupPrimaryCpu_spec hids.primary
        (hids.valid _ List.mem_cons_self)) _ fun _ _ h => h
      rintro id s₃ ⟨rfl, h₃⟩
      have hmemory₃ : s₃.memory = s.memory := by rw [h₃.same, h₁₂.same]; rfl
      rw [wp_bind]
      apply wp_readTables (hmemory₃ ▸ htable.table)
      intro s₄ h₄
      have h₃₄ := h₃.of_logs h₄
      have hmemory₄ : s₄.memory = s.memory := by rw [h₄.same]; exact hmemory₃
      rw [hmemory₃, htable.count]
      have hcpus : Numbered [some id] s₄ := by
        apply h₃₄.numbered (n := 0)
        rw [h₁₂.same]
        rfl
      have hroom := length_le_of_proper hids.distinct hids.valid
      rw [apicIds, List.length_cons, List.length_map] at hroom
      apply wp_mono (impsReadConfigTable_spec (hmemory₄ ▸ htable.entries) hcpus
        (by rw [List.length_singleton]; omega) fun p hp =>
          hids.valid _ (List.mem_cons_of_mem _ (List.mem_map_of_mem hp))) _ fun _ _ h => h
      rintro _ s₅ ⟨sts, h₅⟩
      exact ⟨rfl, sts, .of_walked h₁₂ h₃₄ h₅ hids.distinct⟩
    · intro s₂ hbad
      exact absurd (hmemory₁ ▸ hgood) hbad

/-- With a good configuration table imps_probe starts the processors of the table and returns the
number of CPUs that run: the primary one and the processors that have responded. CPU numbers and APIC
ids are inverse to each other. -/
theorem impsProbe_mapped {a : UInt32} {es : List Entry}
    (hfound : firstFps pl s.memory = some a) (hgood : GoodBios pl s.memory (pl.physToVirtual a))
    (htable : Described pl s.memory (pl.physToVirtual a) es)
    (hids : ProperIds pl bsp (secondaries es)) :
    ∃ n s' sts, impsProbe pl s = (.ok n, s') ∧ startups s'.trace = startups s.trace ++ sts ∧
      List.Forall₂ StartOf (secondaries es) sts ∧
      n = 1 + (responding (secondaries es) sts).length ∧
      Mapped (bsp :: responding (secondaries es) sts) s' := by
  obtain ⟨n, s', hrun, hn, sts, h⟩ := returns_of_wp (impsProbe_started hfound hgood htable hids)
  refine ⟨n, s', sts, hrun, h.startups, h.starts, ?_, h.mapped⟩
  rw [hn, h.mapped.count, List.length_cons, Nat.add_comm]

end

theorem board_found : firstFps board boardMemory = some 0x9FC00 := by decide +kernel

theorem board_good : GoodBios board boardMemory 0x9FC00 where
  type := by decide +kernel
  table _ := ⟨by decide +kernel, by decide +kernel, by decide +kernel, by decide +kernel⟩
  default h := absurd h (by decide +kernel)
  lapic := by decide +kernel

theorem board_described : Described board boardMemory 0x9FC00 boardEntries where
  table := by decide +kernel
  count := by decide +kernel
  entries := {
    size := by decide +kernel
    holds := by decide +kernel
    clear := by
      have hclear : ∀ i < 68, ¬ Scratch board (0x9FC3C + UInt32.ofNat i) := by decide +kernel
      intro x hx
      rw [hx.eq_add]
      exact hclear _ hx }

theorem board_proper : ProperIds board 0 (secondaries boardEntries) where
  primary _ := show apicId 0 = 0 by decide
  distinct := by decide +kernel
  valid := by decide +kernel

theorem board_count : (impsProbe board boardStart).1 = .ok 2 := by decide +kernel

/-- The processor with APIC id 4 responds. -/
theorem impsProbe_mapped_board : ∃ s' sts, impsProbe board boardStart = (.ok 2, s') ∧
    startups s'.trace = startups boardStart.trace ++ sts ∧
    List.Forall₂ StartOf (secondaries boardEntries) sts ∧
    2 = 1 + (responding (secondaries boardEntries) sts).length ∧
    Mapped (0 :: responding (secondaries boardEntries) sts) s' := by
  obtain ⟨n, s', sts, hrun, hstartups, hstarts, hcount, hmapped⟩ :=
    impsProbe_mapped (s := boardStart) board_found board_good board_described board_proper
  have hn : n = 2 := Except.ok.inj ((congrArg Prod.fst hrun).symm.trans board_count)
  subst hn
  exact ⟨s', sts, hrun, hstartups, hstarts, hcount, hmapped⟩

/-- Each processor of a good configuration table that is enabled and not the primary one gets an
INIT and, with a new APIC, two startup messages, once and in the order of the table; no other processor
gets any. The waits are bounded, and memory, the reset code and the reset vector are left in order. -/
theorem impsProbe_signals {pl : Platform} {s : ImpsState} {bsp : UInt8} {a : UInt32} {es : List Entry}
    (hfound : firstFps pl s.memory = some a) (hgood : GoodBios pl s.memory (pl.physToVirtual a))
    (htable : Described pl s.memory (pl.physToVirtual a) es)
    (hids : ProperIds pl bsp (secondaries es)) :
    ∃ n s' sts, impsProbe pl s = (.ok n, s') ∧ startups s'.trace = startups s.trace ++ sts ∧
      List.Forall₂ StartOf (secondaries es) sts ∧
      waited s'.trace ≤ waited s.trace + bootTime * (secondaries es).length ∧
      (∀ x, ¬ Scratch pl x → s'.memory x = s.memory x) ∧
      (secondaries es ≠ [] → resetCode s'.trace = some 0 ∧
        Holds s'.memory (pl.physToVirtual biosResetVector) (leBytes 4 0)) := by
  obtain ⟨n, s', hrun, -, sts, h⟩ := returns_of_wp (impsProbe_started hfound hgood htable hids)
  exact ⟨n, s', sts, hrun, h.startups, h.starts, h.waited, h.frame, h.clean⟩

theorem impsProbe_signals_board : ∃ n s' sts, impsProbe board boardStart = (.ok n, s') ∧
    startups s'.trace = startups boardStart.trace ++ sts ∧
    List.Forall₂ StartOf (secondaries boardEntries) sts ∧
    waited s'.trace ≤ waited boardStart.trace + bootTime * (secondaries boardEntries).length ∧
    (∀ x, ¬ Scratch board x → s'.memory x = boardMemory x) ∧
    (secondaries boardEntries ≠ [] → resetCode s'.trace = some 0 ∧
      Holds s'.memory (board.physToVirtual biosResetVector) (leBytes 4 0)) :=
  impsProbe_signals board_found board_good board_described board_proper

end PerfTools.Smp
