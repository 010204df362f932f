import PerfTools.Smp.Bios

/-!
# Where the tables are looked for

imps_probe looks at every paragraph of the first kilobyte of the extended BIOS data area, or of the
last kilobyte of lower memory where there is no such area, and then at those of the BIOS ROM. The
first one that passes for a floating pointer structure decides.
-/

namespace PerfTools.Smp

open Memory Exec Printf FlatMemory

/-- The addresses of n paragraphs. -/
def paragraphs : Nat → UInt32 → List UInt32
  | 0, _ => []
  | n + 1, start => start :: paragraphs n (start + 16)

variable (pl : Platform)

/-- The bytes of lower memory; the CMOS has the kilobytes in two bytes. -/
def lowerMemory : Nat :=
  1024 * ((pl.cmosReadByte cmosBaseMemory).toNat +
    256 * (pl.cmosReadByte (cmosBaseMemory + 1)).toNat)

/-- There can be tables. -/
def SaneMemory : Prop := 512 * 1024 ≤ lowerMemory pl ∧ lowerMemory pl ≤ 640 * 1024

instance : Decidable (SaneMemory pl) := inferInstanceAs (Decidable (_ ∧ _))

/-- Where the extended BIOS data area begins: the segment is in two bytes. -/
def ebdaStart (m : Ram) : Nat :=
  16 * ((m (pl.physToVirtual ebdaSegAddr)).toNat +
    256 * (m (pl.physToVirtual ebdaSegAddr + 1)).toNat)

/-- The area, whose first byte is its size in kilobytes, is in lower memory. -/
structure HasEbda (m : Ram) : Prop where
  start : ebdaStart pl m ≠ 0
  first : ebdaStart pl m + 1024 ≤ lowerMemory pl
  size : ebdaStart pl m + 1024 * (m (pl.physToVirtual (UInt32.ofNat (ebdaStart pl m)))).toNat ≤
    lowerMemory pl

instance (m : Ram) : Decidable (HasEbda pl m) :=
  decidable_of_iff (_ ∧ _ ∧ _) ⟨fun h => ⟨h.1, h.2.1, h.2.2⟩, fun h => ⟨h.start, h.first, h.size⟩⟩

/-- The beginning of the first area that is scanned. -/
def lowArea (m : Ram) : Nat := if HasEbda pl m then ebdaStart pl m else lowerMemory pl - 1024

def candidates (m : Ram) : List UInt32 :=
  paragraphs 64 (UInt32.ofNat (lowArea pl m)) ++ paragraphs 4096 0xF0000

/-- A floating pointer structure of one paragraph, of the revision 1.1 or 1.4; the sum of its bytes
is 0. -/
structure FpsAt (m : Ram) (a : UInt32) : Prop where
  sig : load m (pl.physToVirtual a) Fps.sig = impsFpsSignature
  length : load m (pl.physToVirtual a) Fps.length = 1
  specRev : load m (pl.physToVirtual a) Fps.specRev = 1 ∨ load m (pl.physToVirtual a) Fps.specRev = 4
  checksum : byteSum (bytesAt m 16 a) % 256 = 0

instance (m : Ram) (a : UInt32) : Decidable (FpsAt pl m a) :=
  decidable_of_iff (_ ∧ _ ∧ _ ∧ _) ⟨fun h => ⟨h.1, h.2.1, h.2.2.1, h.2.2.2⟩,
    fun h => ⟨h.sig, h.length, h.specRev, h.checksum⟩⟩

def firstFps (m : Ram) : Option UInt32 :=
  if SaneMemory pl then (candidates pl m).find? fun a => decide (FpsAt pl m a) else none

section

variable {pl} {s : ImpsState} {E : Stop → ImpsState → Prop} {m : Ram} {a : UInt32}

theorem isFps_iff : IsFps pl m a ↔ FpsAt pl m a := by
  rw [IsFps, getChecksum_eq_zero_iff]
  exact ⟨fun h => ⟨h.1, h.2.1, h.2.2.1, h.2.2.2⟩, fun h => ⟨h.sig, h.length, h.specRev, h.checksum⟩⟩

theorem memLower_eq : memLower pl = lowerMemory pl := by
  have hlo := (pl.cmosReadByte cmosBaseMemory).toNat_lt
  rw [memLower, lowerMemory, ← Nat.shiftLeft_add_eq_or_of_lt hlo, Nat.shiftLeft_eq, Nat.shiftLeft_eq]
  omega

theorem sane_iff : SaneMemory pl ↔ ¬ (memLower pl < 512 * 1024 ∨ 640 * 1024 < memLower pl) := by
  rw [memLower_eq, SaneMemory]
  omega

theorem ebdaWord_eq : load m (pl.physToVirtual ebdaSegAddr) ⟨0, 2⟩ <<< 4 = ebdaStart pl m := by
  rw [load, add_ofNat_zero, Nat.shiftLeft_eq, ebdaStart, bytesAt, bytesAt, bytesAt, leNat_cons,
    leNat_cons]
  exact Nat.mul_comm _ _

theorem hasEbda_iff (hsane : SaneMemory pl) : HasEbda pl m ↔ ebdaStart pl m ≠ 0 ∧
    ¬ (lowerMemory pl - 1024 < ebdaStart pl m ∨ lowerMemory pl < ebdaStart pl m +
      (m (pl.physToVirtual (UInt32.ofNat (ebdaStart pl m)))).toNat * 1024) := by
  obtain ⟨hge, -⟩ := hsane
  have hkilo : 1024 ≤ lowerMemory pl := le_trans (by decide) hge
  rw [not_or, Nat.not_lt, Nat.not_lt, Nat.le_sub_iff_add_le hkilo, Nat.mul_comm _ 1024]
  exact ⟨fun h => ⟨h.start, h.first, h.size⟩, fun h => ⟨h.1, h.2.1, h.2.2⟩⟩

theorem lowArea_eq (hsane : SaneMemory pl) :
    lowArea pl m = if ebdaAddr pl m ≠ 0 then ebdaAddr pl m else memLower pl - 1024 := by
  have hiff := hasEbda_iff (m := m) hsane
  unfold lowArea ebdaAddr
  dsimp only
  rw [ebdaWord_eq, memLower_eq]
  by_cases hebda : HasEbda pl m
  · obtain ⟨hstart, hin⟩ := hiff.mp hebda
    rw [if_pos hebda, if_neg hin, if_pos hstart]
  · rw [if_neg hebda]
    split_ifs with hout hzero hstart
    · exact absurd rfl hzero
    · rfl
    · exact absurd (hiff.mpr ⟨hstart, hout⟩) hebda
    · rfl

theorem wp_scanFrom {n : Nat} {Q : Bool → ImpsState → Prop}
    (hnone : (paragraphs n a).find? (fun a => decide (FpsAt pl s.memory a)) = none → Q false s)
    (hsome : ∀ b s₁, (paragraphs n a).find? (fun a => decide (FpsAt pl s.memory a)) = some b →
      Untouched s s₁ → wp (impsReadBios pl (pl.physToVirtual b)) (fun _ => Q true) E s₁) :
    wp (scanFrom pl n a) Q E s := by
  induction n generalizing a with
  | zero => exact hnone rfl
  | succ n ih =>
    rw [scanFrom, wp_bind, wp_get, wp_ite]
    constructor
    · intro hfps
      rw [wp_bind]
      apply wp_mono wp_kernelPrint _ fun _ _ h => h
      intro _ s₁ h₁
      rw [wp_bind]
      exact hsome a s₁ (List.find?_cons_of_pos (decide_eq_true (isFps_iff.mp hfps))) (.of_logs h₁)
    · intro hfps
      have hskip := List.find?_cons_of_neg (l := paragraphs n (a + 16)) (a := a)
        (p := fun a => decide (FpsAt pl s.memory a)) (by simpa [isFps_iff] using hfps)
      exact ih (fun h => hnone (hskip.trans h)) fun b s₁ h => hsome b s₁ (hskip.trans h)

theorem wp_impsScan {start length : UInt32} {Q : Bool → ImpsState → Prop}
    (hnone : ∀ s₁, (paragraphs (length.toNat / 16) start).find?
      (fun a => decide (FpsAt pl s.memory a)) = none → Untouched s s₁ → Q false s₁)
    (hsome : ∀ b s₁, (paragraphs (length.toNat / 16) start).find?
      (fun a => decide (FpsAt pl s.memory a)) = some b → Untouched s s₁ →
      wp (impsReadBios pl (pl.physToVirtual b)) (fun _ => Q true) E s₁) :
    wp (impsScan pl start length) Q E s := by
  rw [impsScan, wp_bind]
  apply wp_mono wp_kernelPrint _ fun _ _ h => h
  intro _ s₁ h₁
  have hmemory : s₁.memory = s.memory := by rw [h₁.same]
  apply wp_scanFrom
  · intro h
    rw [hmemory] at h
    exact hnone s₁ h (.of_logs h₁)
  · intro b s₂ h h₂
    rw [hmemory] at h
    exact hsome b s₂ h ((Untouched.of_logs h₁).trans h₂)

/-- The state in which imps_probe begins to look. -/
def fresh (s : ImpsState) : ImpsState := { s with impsEnabled := false, impsNumCpus := 1 }

/-- What imps_probe returns when it has read the tables. -/
def cpusFound (s : ImpsState) : Nat := if s.impsEnabled = true then s.impsNumCpus else 0

theorem wp_impsProbe {Q : Nat → ImpsState → Prop}
    (hnone : ∀ s₁, firstFps pl s.memory = none → Untouched (fresh s) s₁ → Q 0 s₁)
    (hsome : ∀ b s₁, firstFps pl s.memory = some b → Untouched (fresh s) s₁ →
      wp (impsReadBios pl (pl.physToVirtual b)) (fun _ s₂ => Q (cpusFound s₂) s₂) E s₁) :
    wp (impsProbe pl) Q E s := by
  rw [impsProbe, wp_bind, wp_modify, wp_bind, wp_get, wp_ite]
  constructor
  · intro hinsane
    exact hnone _ (if_neg fun h => sane_iff.mp h hinsane) ⟨rfl, rfl, rfl, Nat.le_refl _⟩
  · intro hsane
    have hsane := sane_iff.mpr hsane
    have hfirst : firstFps pl s.memory =
        (candidates pl s.memory).find? fun a => decide (FpsAt pl s.memory a) := if_pos hsane
    rw [candidates, List.find?_append] at hfirst
    have harea := lowArea_eq (m := s.memory) hsane
    dsimp only
    rw [← harea]
    -- behind the tables the result is read from the variables that they have set
    have hresult (s₃ : ImpsState) (h : Q (cpusFound s₃) s₃) :
        Q (if true = true ∧ s₃.impsEnabled = true then s₃.impsNumCpus else 0) s₃ := by
      simpa [cpusFound] using h
    simp only [wp_bind]
    apply wp_impsScan (s := fresh s)
    · intro s₁ hlow h₁
      have hmemory : s₁.memory = s.memory := by rw [h₁.same]; rfl
      have hlow : (paragraphs 64 (UInt32.ofNat (lowArea pl s.memory))).find?
        (fun a => decide (FpsAt pl s.memory a)) = none := hlow
      rw [hlow, Option.none_or] at hfirst
      rw [scanRom, if_neg Bool.false_ne_true]
      apply wp_impsScan
      · intro s₂ hrom h₂
        rw [hmemory] at hrom
        exact hnone s₂ (hfirst.trans hrom) (h₁.trans h₂)
      · intro b s₂ hrom h₂
        rw [hmemory] at hrom
        apply wp_mono (hsome b s₂ (hfirst.trans hrom) (h₁.trans h₂)) _ fun _ _ h => h
        exact fun _ s₃ h => hresult s₃ h
    · intro b s₁ hlow h₁
      have hlow : (paragraphs 64 (UInt32.ofNat (lowArea pl s.memory))).find?
        (fun a => decide (FpsAt pl s.memory a)) = some b := hlow
      rw [hlow, Option.some_or] at hfirst
      apply wp_mono (hsome b s₁ hfirst h₁) _ fun _ _ h => h
      exact fun _ s₃ h => hresult s₃ h

/-! ## The result of the search -/

/-- The primary CPU is counted. -/
def Counted (s : ImpsState) : Prop := 1 ≤ s.impsNumCpus

theorem keeps_get : Keeps Counted (get : Imps ImpsState) := fun _ hs => ⟨trivial, hs⟩

theorem keeps_modify {f : ImpsState → ImpsState} (h : ∀ s, Counted s → Counted (f s)) :
    Keeps Counted (modify f) := fun s hs => ⟨trivial, h s hs⟩

theorem keeps_log (e : Access) : Keeps Counted (log e) := keeps_modify fun _ h => h

theorem keeps_kernelPrint (fmt : Format) : Keeps Counted (kernelPrint fmt) := keeps_log _

theorem keeps_storeBytes (a : UInt32) (bs : List UInt8) : Keeps Counted (storeBytes a bs) :=
  keeps_modify fun _ h => h

theorem keeps_impsLapicRead (reg : UInt32) : Keeps Counted (impsLapicRead pl reg) := by
  intro s hs
  apply wp_mono wp_impsLapicRead _ fun _ _ h => h
  intro _ s₁ h₁
  rw [Counted, h₁.same]
  exact ⟨trivial, hs⟩

theorem keeps_bootCpu (proc : UInt32) : Keeps Counted (bootCpu pl proc) := by
  intro s hs
  apply wp_mono bootCpu_spec _ fun _ _ h => h
  intro _ s₁ h₁
  rw [Counted, h₁.same]
  exact ⟨trivial, hs⟩

theorem keeps_enterCpu (id : UInt8) : Keeps Counted (enterCpu id) := by
  refine Keeps.bind keeps_get fun s => .lift_bind fun map _ => ?_
  refine Keeps.bind (keeps_modify fun _ h => h) fun _ => .lift_bind fun map' _ => ?_
  exact keeps_modify fun _ _ => Nat.le_add_left 1 _

theorem keeps_addProcessor (proc : UInt32) : Keeps Counted (addProcessor pl proc) := by
  refine Keeps.bind keeps_get fun s => Keeps.bind (keeps_kernelPrint _) fun _ => ?_
  split_ifs
  · exact keeps_kernelPrint _
  · exact keeps_kernelPrint _
  · exact Keeps.bind (keeps_bootCpu proc) fun _ => Keeps.runIf fun _ => keeps_enterCpu _

theorem keeps_addOther (type : UInt8) (start : UInt32) : Keeps Counted (addOther type start) := by
  unfold addOther
  split_ifs
  · exact Keeps.bind keeps_get fun _ => keeps_kernelPrint _
  · refine Keeps.runIf fun _ => Keeps.bind keeps_get fun _ => Keeps.bind (keeps_kernelPrint _) ?_
    exact fun _ => keeps_kernelPrint _

theorem keeps_impsReadConfigTable (n : Nat) (start : UInt32) :
    Keeps Counted (impsReadConfigTable pl n start) := by
  induction n generalizing start with
  | zero => exact Yields.pure trivial
  | succ n ih =>
    refine Keeps.bind keeps_get fun s => ?_
    split_ifs
    · exact Keeps.bind (keeps_addProcessor start) fun _ => ih _
    · exact Keeps.bind (keeps_addOther _ start) fun _ => ih _

theorem keeps_setupPrimaryCpu : Keeps Counted (setupPrimaryCpu pl) := by
  refine Keeps.bind (keeps_impsLapicRead _) fun _ => Keeps.bind (keeps_log _) fun _ => ?_
  refine Keeps.bind (keeps_impsLapicRead _) fun _ => Keeps.bind keeps_get fun _ => ?_
  refine .lift_bind fun _ _ => Keeps.bind (keeps_modify fun _ h => h) fun _ => ?_
  exact .lift_bind fun _ _ => Keeps.bind (keeps_modify fun _ h => h) fun _ => .pure trivial

theorem keeps_setDefaults (type : Nat) (id : UInt8) : Keeps Counted (setDefaults pl type id) := by
  have hstore (c : Prop) [Decidable c] (a : UInt32) (bs : List UInt8) :
      Keeps Counted (runIf c (storeBytes a bs)) := Keeps.runIf fun _ => keeps_storeBytes a bs
  refine Keeps.bind (keeps_log _) fun _ => Keeps.bind (keeps_storeBytes _ _) fun _ => ?_
  refine Keeps.bind (keeps_log _) fun _ => Keeps.bind (keeps_storeBytes _ _) fun _ => ?_
  refine .lift_bind fun _ _ => Keeps.bind (keeps_storeBytes _ _) fun _ => ?_
  refine .lift_bind fun _ _ => Keeps.bind (keeps_storeBytes _ _) fun _ => ?_
  refine Keeps.bind (keeps_modify fun _ _ => Nat.le_succ 1) fun _ => ?_
  refine Keeps.bind (hstore _ _ _) fun _ => Keeps.bind (hstore _ _ _) fun _ => ?_
  refine Keeps.bind (Keeps.runIf fun _ => ?_) fun _ => Keeps.bind (Keeps.runIf fun _ => ?_) fun _ =>
    hstore _ _ _
  · refine Keeps.bind (keeps_storeBytes _ _) fun _ => Keeps.bind (keeps_storeBytes _ _) fun _ => ?_
    exact keeps_storeBytes _ _
  · exact Keeps.bind (keeps_storeBytes _ _) fun _ => keeps_storeBytes _ _

theorem keeps_readTables (fps : UInt32) (id : UInt8) : Keeps Counted (readTables pl fps id) := by
  refine Keeps.bind keeps_get fun s => ?_
  dsimp only
  split_ifs
  · exact Keeps.bind (keeps_kernelPrint _) fun _ => keeps_impsReadConfigTable _ _
  · exact Keeps.bind (keeps_setDefaults _ _) fun _ => keeps_impsReadConfigTable _ _

theorem startCpus_spec {fps : UInt32} (hs : Counted s) :
    wp (startCpus pl fps) (fun _ s' => cpusFound s' ≠ 0) (fun _ _ => True) s := by
  have hkeeps : Keeps Counted (setupPrimaryCpu pl >>= readTables pl fps) :=
    Keeps.bind keeps_setupPrimaryCpu fun _ => keeps_readTables _ _
  have h := hkeeps s hs
  rw [wp_bind] at h
  rw [startCpus, wp_bind]
  apply wp_mono h _ fun _ _ _ => trivial
  intro id s₁ h₁
  rw [wp_bind]
  apply wp_mono h₁ _ fun _ _ _ => trivial
  rintro _ s₂ ⟨-, h₂⟩
  exact Nat.ne_of_gt h₂

theorem paragraphs_toNat {n : Nat} {start : UInt32} (h : start.toNat + 16 * n ≤ 2 ^ 20)
    (ha : a ∈ paragraphs n start) : a.toNat + 16 ≤ 2 ^ 20 := by
  induction n generalizing start with
  | zero => exact absurd ha List.not_mem_nil
  | succ n ih =>
    rcases List.mem_cons.mp ha with rfl | ha
    · omega
    · apply ih _ ha
      rw [UInt32.toNat_add]
      simp only [UInt32.reduceToNat]
      omega

theorem candidates_toNat (hsane : SaneMemory pl) (ha : a ∈ candidates pl m) :
    a.toNat + 16 ≤ 2 ^ 20 := by
  obtain ⟨-, hle⟩ := hsane
  have hlow : lowArea pl m ≤ lowerMemory pl - 1024 := by
    unfold lowArea
    split_ifs with hebda
    · exact Nat.le_sub_of_add_le hebda.first
    · exact le_rfl
  rcases List.mem_append.mp ha with ha | ha
  · apply paragraphs_toNat _ ha
    rw [UInt32.toNat_ofNat_of_lt' (by simp only [UInt32.size]; omega)]
    omega
  · exact paragraphs_toNat (by decide) ha

theorem firstFps_toNat (h : firstFps pl m = some a) : a.toNat + 16 ≤ 2 ^ 20 := by
  rw [firstFps] at h
  split_ifs at h with hsane
  exact candidates_toNat hsane (List.mem_of_find?_eq_some h)

end

end PerfTools.Smp
