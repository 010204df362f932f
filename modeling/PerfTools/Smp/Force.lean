import PerfTools.Smp.Probe

/-!
# Starting without tables

imps_force takes the APIC ids for consecutive. It describes one processor after the other in a
structure of its own, and starts all but the primary one.
-/

namespace PerfTools.Smp

open Memory Exec Printf FlatMemory

/-! ## The processors -/

/-- What imps_force says of the processor with number i. -/
def forcedCpu (bsp : UInt8) (i : Nat) : Processor where
  apicId := UInt8.ofNat i
  apicVer := 0x10
  flags := if bsp.toNat = i then impsFlagEnabled ||| impsCpuflagBoot else impsFlagEnabled
  rest := List.replicate 16 0
  rest_length := Processor.blank_length

/-- The processors that are started, in the order of their ids. -/
def forcedCpus (bsp : UInt8) (n : Nat) : List Processor :=
  ((List.range n).filter fun i => bsp.toNat ≠ i).map (forcedCpu bsp)

section

variable {bsp : UInt8} {n i : Nat}

theorem secondary_forcedCpu : (forcedCpu bsp i).Secondary ↔ bsp.toNat ≠ i := by
  unfold Processor.Secondary forcedCpu
  dsimp only
  split_ifs with h
  · exact iff_of_false (by decide) (not_not.mpr h)
  · exact iff_of_true (by decide) h

theorem forcedCpus_succ : forcedCpus bsp (n + 1) =
    forcedCpus bsp n ++ (Entry.processor (forcedCpu bsp n)).secondary := by
  rw [forcedCpus, List.range_succ, List.filter_append, List.map_append, Entry.secondary]
  congr 1
  by_cases h : bsp.toNat = n
  · rw [if_neg (fun hsecondary => secondary_forcedCpu.mp hsecondary h)]
    simp [h]
  · rw [if_pos (secondary_forcedCpu.mpr h)]
    simp [h]

theorem forcedCpus_ids : apicIds bsp (forcedCpus bsp n) =
    bsp :: ((List.range n).filter fun i => bsp.toNat ≠ i).map UInt8.ofNat := by
  rw [apicIds, forcedCpus, List.map_map]
  rfl

theorem toNat_id (hi : i < impsMaxCpus) : (UInt8.ofNat i).toNat = i :=
  UInt8.toNat_ofNat_of_lt' (Nat.lt_trans hi (by decide))

theorem forcedCpus_valid (hn : n ≤ impsMaxCpus) (hbsp : bsp.toNat < impsMaxCpus) :
    ∀ id ∈ apicIds bsp (forcedCpus bsp n), id.toNat < impsMaxCpus := by
  rw [forcedCpus_ids]
  intro id hid
  rcases List.mem_cons.mp hid with rfl | hid
  · exact hbsp
  · obtain ⟨i, hi, rfl⟩ := List.mem_map.mp hid
    have hlt := Nat.lt_of_lt_of_le (List.mem_range.mp (List.mem_filter.mp hi).1) hn
    rwa [toNat_id hlt]

theorem forcedCpus_distinct (hn : n ≤ impsMaxCpus) : (apicIds bsp (forcedCpus bsp n)).Nodup := by
  rw [forcedCpus_ids]
  have hlt {i : Nat} (hi : i ∈ (List.range n).filter fun i => bsp.toNat ≠ i) : i < impsMaxCpus :=
    Nat.lt_of_lt_of_le (List.mem_range.mp (List.mem_filter.mp hi).1) hn
  refine List.nodup_cons.mpr ⟨fun hmem => ?_, ?_⟩
  · obtain ⟨i, hi, hid⟩ := List.mem_map.mp hmem
    have hne := of_decide_eq_true (List.mem_filter.mp hi).2
    exact hne (by rw [← hid, toNat_id (hlt hi)])
  · refine List.Nodup.map_on (fun i hi j hj h => ?_) (List.nodup_range.filter _)
    rw [← toNat_id (hlt hi), h, toNat_id (hlt hj)]

end

/-! ## The loop -/

/-- The starts of these processors from s to s'. The structure at address p still has its
version. -/
structure Forced (ps : List Processor) (sts : List Startup) (bsp : UInt8) (p : UInt32)
    (s s' : ImpsState) : Prop where
  starts : List.Forall₂ StartOf ps sts
  startups : startups s'.trace = startups s.trace ++ sts
  numbered : Numbered (some bsp :: (responding ps sts).map some) s'
  version : s'.memory (p + ImpsProcessor.apicVer) = 0x10

section

variable {pl : Platform} {s s₁ s₂ : ImpsState} {E : Stop → ImpsState → Prop} {bsp : UInt8}
  {p : UInt32} {m : Ram} {n i : Nat}

theorem add_ne_add {x y : UInt32} (h : x ≠ y) : p + x ≠ p + y := fun heq =>
  h ((UInt32.add_right_inj p).mp heq)

theorem store_byte {a x : UInt32} {b : UInt8} : store m a [b] x = if x = a then b else m x := by
  by_cases h : x = a
  · rw [if_pos h, h, store, UInt32.sub_self]
    rfl
  · rw [if_neg h]
    apply store_of_not_covers
    intro hcovers
    have hzero : (x - a).toNat = 0 := Nat.lt_one_iff.mp hcovers
    have hx := hcovers.eq_add
    rw [hzero, add_ofNat_zero] at hx
    exact h hx

theorem processorAt_forced (hversion : m (p + ImpsProcessor.apicVer) = 0x10) :
    ProcessorAt (store (store m (p + ImpsProcessor.flags)
      [if bsp.toNat = i then impsFlagEnabled ||| impsCpuflagBoot else impsFlagEnabled])
      (p + ImpsProcessor.apicId) [UInt8.ofNat i]) p (forcedCpu bsp i) := by
  refine ⟨?_, ?_, ?_⟩
  · rw [store_byte, if_pos rfl]
    rfl
  · rw [store_byte, if_neg (add_ne_add (by decide)), store_byte,
      if_neg (add_ne_add (by decide)), hversion]
    rfl
  · rw [store_byte, if_neg (add_ne_add (by decide)), store_byte, if_pos rfl]
    rfl

theorem forceCpu_spec (hstack : ¬ Scratch pl (p + ImpsProcessor.apicVer))
    (hbsp : bsp.toNat < impsMaxCpus) (hn : n < impsMaxCpus)
    (h : ∃ sts, Forced (forcedCpus bsp n) sts bsp p s s₁) :
    wp (forceCpu pl p bsp n) (fun _ s₂ => ∃ sts, Forced (forcedCpus bsp (n + 1)) sts bsp p s s₂)
      (fun _ _ => False) s₁ := by
  obtain ⟨sts, h⟩ := h
  simp only [forceCpu, storeBytes, wp_bind, wp_modify]
  have hp : ProcessorAt _ p (forcedCpu bsp n) := processorAt_forced h.version
  have hcpus {m : Ram} : Numbered (some bsp :: (responding (forcedCpus bsp n) sts).map some)
      { s₁ with memory := m } := ⟨h.numbered.count, h.numbered.cpu, h.numbered.apic⟩
  have hroom (hsecondary : (forcedCpu bsp n).Secondary) :
      (some bsp :: (responding (forcedCpus bsp n) sts).map some).length < impsMaxCpus ∧
        (forcedCpu bsp n).apicId.toNat < impsMaxCpus := by
    have hall : (apicIds bsp (forcedCpus bsp (n + 1))).length ≤ impsMaxCpus :=
      length_le_of_proper (forcedCpus_distinct hn) (forcedCpus_valid hn hbsp)
    have hle : (responding (forcedCpus bsp n) sts).length ≤ (forcedCpus bsp n).length :=
      responding_length_le
    rw [apicIds, List.length_cons, List.length_map, forcedCpus_succ, List.length_append,
      Entry.secondary, if_pos hsecondary, List.length_singleton] at hall
    constructor
    · rw [List.length_cons, List.length_map]
      omega
    · exact lt_of_eq_of_lt (toNat_id hn) hn
  apply wp_mono (addProcessor_spec hp hstack hcpus hroom) _ fun _ _ h => h
  rintro _ s₂ ⟨sts', h₂⟩
  refine ⟨sts ++ sts', ?_, ?_, ?_, ?_⟩
  · rw [forcedCpus_succ]
    exact List.rel_append h.starts h₂.starts
  · rw [h₂.startups, ← List.append_assoc]
    exact congrArg (· ++ sts') h.startups
  · rw [forcedCpus_succ, responding_append h.starts.length_eq, List.map_append]
    exact h₂.numbered
  · rw [h₂.frame _ hstack]
    exact hp.apicVer

theorem impsForce_spec {ncpus : Int} (hstack : ¬ Scratch pl (p + ImpsProcessor.apicVer))
    (hn : ncpus ≤ impsMaxCpus) (hcount : s.impsNumCpus = 1)
    (hprimary : ∀ t, apicId (pl.lapic t lapicId) = bsp) (hbsp : bsp.toNat < impsMaxCpus) :
    wp (impsForce pl p ncpus) (fun n s' => n = s'.impsNumCpus ∧
      ∃ sts, Forced (forcedCpus bsp ncpus.toNat) sts bsp p s s') (fun _ _ => False) s := by
  rw [impsForce, wp_bind]
  apply wp_mono wp_kernelPrint _ fun _ _ h => h
  intro _ s₁ h₁
  rw [wp_bind, wp_modify, wp_bind]
  apply wp_mono (setupPrimaryCpu_spec hprimary hbsp) _ fun _ _ h => h
  rintro id s₂ ⟨rfl, h₂⟩
  simp only [storeBytes, wp_bind, wp_modify]
  have hnumbered : Numbered [some id] s₂ := by
    apply h₂.numbered (n := 0)
    rw [h₁.same]
    exact hcount
  have hloop {t : ImpsState} (ht : ∃ sts, Forced (forcedCpus id 0) sts id p s t) :
      wp (loop (forceCpu pl p id) ncpus.toNat 0)
        (fun _ t => ∃ sts, Forced (forcedCpus id ncpus.toNat) sts id p s t)
        (fun _ _ => False) t := by
    have hlt {k : Nat} (hk : k < 0 + ncpus.toNat) : k < impsMaxCpus := by
      rw [Nat.zero_add] at hk
      exact Nat.lt_of_lt_of_le hk (Int.toNat_le.mpr hn)
    have h := wp_loop (n := ncpus.toNat) (forceCpu pl p id)
      (fun k t => ∃ sts, Forced (forcedCpus id k) sts id p s t)
      (fun k t _ hk h => forceCpu_spec hstack hbsp (hlt hk) h) ht
    rwa [Nat.zero_add] at h
  refine wp_mono (hloop ⟨[], .nil, ?_, ⟨hnumbered.count, hnumbered.cpu, hnumbered.apic⟩, ?_⟩)
    (fun _ s₃ h₃ => ⟨rfl, h₃⟩) fun _ _ h => h
  · rw [List.append_nil]
    exact h₂.startups.trans h₁.startups
  · have hout :
        ¬ Covers (p + 4) (leBytes 4 0 ++ leBytes 4 0).length (p + ImpsProcessor.apicVer) := by
      intro hcovers
      have hfar : ∀ k < 8, (ImpsProcessor.apicVer : UInt32) ≠ 4 + UInt32.ofNat k := by decide
      have hx := hcovers.eq_add
      rw [UInt32.add_assoc] at hx
      exact hfar _ hcovers ((UInt32.add_right_inj p).mp hx)
    dsimp only
    rw [store_of_not_covers hout, store_byte, if_pos rfl]

/-- imps_force starts each processor with an APIC id below ncpus but the primary one, once and in
the order of their ids, and returns the number of CPUs that run. CPU numbers and APIC ids are
inverse to each other. -/
theorem impsForce_mapped {ncpus : Int} (hstack : ¬ Scratch pl (p + ImpsProcessor.apicVer))
    (hn : ncpus ≤ impsMaxCpus) (hcount : s.impsNumCpus = 1)
    (hprimary : ∀ t, apicId (pl.lapic t lapicId) = bsp) (hbsp : bsp.toNat < impsMaxCpus) :
    ∃ n s' sts, impsForce pl p ncpus s = (.ok n, s') ∧
      startups s'.trace = startups s.trace ++ sts ∧
      List.Forall₂ StartOf (forcedCpus bsp ncpus.toNat) sts ∧
      n = 1 + (responding (forcedCpus bsp ncpus.toNat) sts).length ∧
      Mapped (bsp :: responding (forcedCpus bsp ncpus.toNat) sts) s' := by
  obtain ⟨n, s', hrun, hvalue, sts, h⟩ :=
    returns_of_wp (impsForce_spec hstack hn hcount hprimary hbsp)
  have hdistinct : (apicIds bsp (forcedCpus bsp ncpus.toNat)).Nodup :=
    forcedCpus_distinct (Int.toNat_le.mpr hn)
  have hnumbered : Numbered ((bsp :: responding (forcedCpus bsp ncpus.toNat) sts).map some) s' :=
    h.numbered
  have hmapped := hnumbered.mapped (hdistinct.sublist (responding_sublist.cons_cons bsp))
  refine ⟨n, s', sts, hrun, h.startups, h.starts, ?_, hmapped⟩
  rw [hvalue, hmapped.count, List.length_cons, Nat.add_comm]

end

theorem impsForce_mapped_board : ∃ n s' sts, impsForce board 0x80000 2 boardStart = (.ok n, s') ∧
    startups s'.trace = startups boardStart.trace ++ sts ∧
    List.Forall₂ StartOf (forcedCpus 0 2) sts ∧
    n = 1 + (responding (forcedCpus 0 2) sts).length ∧
    Mapped (0 :: responding (forcedCpus 0 2) sts) s' :=
  impsForce_mapped (by decide +kernel) (by decide) rfl
    (fun _ => show apicId 0 = 0 by decide) (by decide)

end PerfTools.Smp
