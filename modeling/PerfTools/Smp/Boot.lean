import PerfTools.Smp.Signals

/-!
# Starting one processor

boot_cpu changes memory in two places only, the copied code and the reset vector, and leaves the
reset vector cleared. It sends its messages to the one processor, and its waits are bounded.
-/

namespace PerfTools.Smp

open Memory Exec Printf FlatMemory

variable (pl : Platform)

/-- The memory that boot_cpu writes to. -/
def Scratch (x : UInt32) : Prop :=
  Covers bootaddr pl.patchCode.length x ∨ Covers (pl.physToVirtual biosResetVector) 4 x

instance (x : UInt32) : Decidable (Scratch pl x) := inferInstanceAs (Decidable (_ ∨ _))

/-- The memory while boot_cpu sends its messages. -/
def patchedMemory (m : Ram) : Ram :=
  store (store m bootaddr pl.patchCode) (pl.physToVirtual biosResetVector)
    (leBytes 4 ((bootaddr &&& 0xFF000) <<< 12).toNat)

/-- The memory when boot_cpu is done. -/
def bootMemory (m : Ram) : Ram :=
  store (store m bootaddr pl.patchCode) (pl.physToVirtual biosResetVector) (leBytes 4 0)

/-- The messages to a processor with this APIC. -/
def signalsFor (id ver : UInt8) : List (UInt32 × UInt32) :=
  [(id.toUInt32, assertInit), (id.toUInt32, deassertInit)] ++
    if apicVerNew ≤ ver then [(id.toUInt32, startupIpi), (id.toUInt32, startupIpi)] else []

/-- Microseconds that one start waits at most. -/
def bootTime : Nat := 1422400

/-- What has been done from s to s' is one start. -/
structure Booted (id ver : UInt8) (success : Bool) (s s' : ImpsState) : Prop where
  startups : ∃ answers, Polled 100 success answers ∧
    startups s'.trace = startups s.trace ++ [⟨signalsFor id ver, answers⟩]
  resetCode : resetCode s'.trace = some 0
  waited : waited s'.trace ≤ waited s.trace + bootTime
  memory : s'.memory = bootMemory pl s.memory
  same : s' = { s with memory := s'.memory, trace := s'.trace }

section

variable {pl} {s : ImpsState} {E : Stop → ImpsState → Prop} {x : UInt32} {m : Ram}

theorem store_of_not_scratch {n : Nat} (h : ¬ Scratch pl x) :
    store (store m bootaddr pl.patchCode) (pl.physToVirtual biosResetVector) (leBytes 4 n) x = m x := by
  unfold Scratch at h
  rw [not_or] at h
  rw [store_of_not_covers (by simpa using h.2), store_of_not_covers h.1]

theorem patchedMemory_of_not_scratch (h : ¬ Scratch pl x) : patchedMemory pl m x = m x :=
  store_of_not_scratch h

theorem bootMemory_of_not_scratch (h : ¬ Scratch pl x) : bootMemory pl m x = m x :=
  store_of_not_scratch h

theorem startups_cmosWrite {t : List Access} {reg value : UInt8} :
    startups (t ++ [.cmosWrite reg value]) = startups t := by
  rw [startups, watch_concat]
  rfl

theorem wp_sendStartups {c : Prop} [Decidable c] {id : UInt8} {sts : List Startup} {st : Startup}
    (h : startups s.trace = sts ++ [st]) :
    wp (runIf c (loop (fun _ => sendStartup pl id.toUInt32) 2 1)) (fun _ => Logs (sts ++
      [{ st with signals := st.signals ++
        if c then [(id.toUInt32, startupIpi), (id.toUInt32, startupIpi)] else [] }]) 202200 s) E s := by
  rw [wp_runIf]
  constructor
  · intro hc
    simp only [loop, wp_bind]
    apply wp_mono (wp_sendStartup h) _ fun _ _ h => h
    intro _ s₁ h₁
    apply wp_mono (wp_sendStartup h₁.startups) _ fun _ _ h => h
    intro _ s₂ h₂
    rw [if_pos hc]
    simp only [List.append_assoc, List.cons_append, List.nil_append] at h₂
    exact h₁.trans h₂
  · intro hc
    rw [if_neg hc, List.append_nil, ← h]
    exact ⟨rfl, rfl, rfl, Nat.le_add_right _ _⟩

theorem bootCpu_spec {proc : UInt32} :
    wp (bootCpu pl proc) (Booted pl (s.memory (proc + ImpsProcessor.apicId))
      (patchedMemory pl s.memory (proc + ImpsProcessor.apicVer)) · s) E s := by
  rw [bootCpu]
  simp only [wp_bind, wp_get, storeBytes, setResetVector, log, wp_modify]
  apply wp_mono wp_clearApicErrors _ fun _ _ h => h
  intro _ s₁ h₁
  apply wp_mono wp_sendInit _ fun _ _ h => h
  intro _ s₂ h₂
  have h₁₂ := h₁.trans (h₁.startups ▸ h₂)
  have hmemory : s₂.memory = patchedMemory pl s.memory := by
    rw [h₁₂.same]
    rfl
  rw [wp_get, hmemory]
  apply wp_mono (wp_sendStartups h₁₂.startups) _ fun _ _ h => h
  intro _ s₃ h₃
  have h₁₃ := h₁₂.trans h₃
  apply wp_mono (waitBooted_spec 100 h₃.startups) _ fun _ _ h => h
  rintro success s₄ ⟨answers, hpolled, h₄⟩
  apply wp_mono wp_kernelPrint _ fun _ _ h => h
  intro _ s₅ h₅
  apply wp_mono wp_clearApicErrors _ fun _ _ h => h
  intro _ s₆ h₆
  simp only [wp_modify]
  apply wp_mono wp_kernelPrint _ fun _ _ h => h
  intro _ s₇ h₇
  have h := ((h₁₃.trans h₄).quiet h₅).quiet h₆
  refine ⟨⟨answers, hpolled, ?_⟩, ?_, ?_, ?_, ?_⟩
  · rw [h₇.startups, startups_cmosWrite, h.startups, startups_cmosWrite]
    rfl
  · rw [h₇.resetCode]
    exact resetCode_concat_some rfl
  · have hw := h.waited
    have hw₇ := h₇.waited
    simp only [waited_concat, Access.microseconds] at hw hw₇
    unfold bootTime
    omega
  · rw [h₇.same]
    dsimp only
    rw [h.same]
    exact store_store (by simp)
  · rw [h₇.same]
    dsimp only
    rw [h.same]

end

end PerfTools.Smp
