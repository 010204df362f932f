import PerfTools.Smp.Boot

/-!
# Which tables are accepted

The checks of imps_bad_bios in terms of the bytes of the tables, and the search for the floating
pointer structure: the first paragraph that passes for one decides, and when its tables do not pass
their checks, nothing else is tried and nothing is done.
-/

namespace PerfTools.Smp

open Memory Exec Printf FlatMemory

/-! ## Checksums -/

def byteSum (bs : List UInt8) : Nat := (bs.map UInt8.toNat).sum

section

variable {m : Ram} {start : UInt32} {n : Nat}

theorem byteSum_cons (b : UInt8) (bs : List UInt8) : byteSum (b :: bs) = b.toNat + byteSum bs := rfl

theorem sumFrom_eq (sum : UInt32) :
    sumFrom m n start sum = sum + UInt32.ofNat (byteSum (bytesAt m n start)) := by
  induction n generalizing start sum with
  | zero => exact (UInt32.add_zero sum).symm
  | succ n ih =>
    rw [sumFrom, ih, bytesAt, byteSum_cons, UInt32.ofNat_add, UInt32.ofNat_uInt8ToNat,
      UInt32.add_assoc]

theorem low_byte (x : UInt32) : (x &&& 0xFF).toNat = x.toNat % 256 := by
  rw [UInt32.toNat_and]
  exact Nat.and_two_pow_sub_one_eq_mod x.toNat 8

theorem getChecksum_toNat : (getChecksum m start n).toNat = byteSum (bytesAt m n start) % 256 := by
  rw [getChecksum, low_byte, sumFrom_eq, UInt32.zero_add, UInt32.toNat_ofNat']
  exact Nat.mod_mod_of_dvd _ (by decide)

theorem getChecksum_eq_zero_iff :
    getChecksum m start n = 0 ↔ byteSum (bytesAt m n start) % 256 = 0 := by
  rw [← getChecksum_toNat]
  exact UInt32.toNat_inj.symm

end

/-! ## The checks -/

/-- The checks of a configuration table. -/
structure GoodTable (m : Ram) (fps cth : UInt32) : Prop where
  sig : load m cth Cth.sig = impsCthSignature
  checksum : byteSum (bytesAt m (load m cth Cth.baseLength) cth) % 256 = 0
  specRev : load m cth Cth.specRev = load m fps Fps.specRev
  extended : load m cth Cth.extendedLength ≠ 0 →
    (byteSum (bytesAt m (load m cth Cth.extendedLength)
      (cth + UInt32.ofNat (load m cth Cth.baseLength))) + load m cth Cth.extendedChecksum) % 256 = 0

/-- The checks of imps_bad_bios. -/
structure GoodTables (pl : Platform) (m : Ram) (fps : UInt32) : Prop where
  type : load m fps (Fps.featureInfo 0) ≤ impsFpsDefaultMax
  table : load m fps Fps.cthPtr ≠ 0 → GoodTable m fps (cthAddr pl m fps)
  default : load m fps Fps.cthPtr = 0 → load m fps (Fps.featureInfo 0) ≠ 0

/-- All checks of imps_read_bios. -/
structure GoodBios (pl : Platform) (m : Ram) (fps : UInt32) : Prop extends GoodTables pl m fps where
  lapic : biosLapicAddr pl m fps = pl.readMsrLo 0x1b &&& 0xFFFFF000

section

variable {pl : Platform} {s : ImpsState} {E : Stop → ImpsState → Prop} {fps cth : UInt32} {m : Ram}

theorem extendedSum_eq_zero_iff {n : Nat} {start : UInt32} {checksum : Nat} (h : checksum < 256) :
    (getChecksum m start n + UInt32.ofNat checksum) &&& 0xFF = 0 ↔
      (byteSum (bytesAt m n start) + checksum) % 256 = 0 := by
  have hlt : byteSum (bytesAt m n start) % 256 < 256 := Nat.mod_lt _ (by decide)
  rw [← UInt32.toNat_inj, low_byte, UInt32.toNat_add, getChecksum_toNat,
    UInt32.toNat_ofNat_of_lt' (Nat.lt_trans h (by decide))]
  simp only [UInt32.toNat_zero]
  omega

/-- Only prints, and the value says whether the condition fails. -/
def Checks (P : Prop) (s : ImpsState) (bad : Bool) (s' : ImpsState) : Prop :=
  (bad = true ↔ ¬ P) ∧ Logs (startups s.trace) 0 s s'

theorem wp_printBad {P : Prop} {fmt : Format} (hP : ¬ P) :
    wp (kernelPrint fmt >>= fun _ => pure true) (Checks P s) E s := by
  rw [wp_bind]
  apply wp_mono wp_kernelPrint _ fun _ _ h => h
  intro _ s₁ h₁
  exact ⟨iff_of_true rfl hP, h₁⟩

theorem wp_good {P : Prop} (hP : P) : wp (pure false : Imps Bool) (Checks P s) E s :=
  ⟨iff_of_false Bool.false_ne_true (not_not.mpr hP), rfl, rfl, rfl, Nat.le_refl _⟩

theorem badTable_spec : wp (badTable fps cth) (Checks (GoodTable s.memory fps cth) s) E s := by
  rw [badTable, wp_bind, wp_get]
  simp only [wp_ite]
  refine ⟨fun hbad => wp_printBad fun h => ?_, fun hsum =>
    ⟨fun hrev => wp_printBad fun h => hrev h.specRev, fun hrev =>
      ⟨fun hext => wp_printBad fun h => hext.2 ?_, fun hext => wp_good ?_⟩⟩⟩
  · rcases hbad with hsig | hsum
    · exact hsig h.sig
    · exact hsum (getChecksum_eq_zero_iff.mpr h.checksum)
  · exact (extendedSum_eq_zero_iff load_lt).mpr (h.extended hext.1)
  · obtain ⟨hsig, hzero⟩ := not_or.mp hsum
    refine ⟨not_not.mp hsig, getChecksum_eq_zero_iff.mp (not_not.mp hzero), not_not.mp hrev,
      fun hne => ?_⟩
    apply (extendedSum_eq_zero_iff load_lt).mp
    by_contra h
    exact hext ⟨hne, h⟩

theorem impsBadBios_spec :
    wp (impsBadBios pl fps) (Checks (GoodTables pl s.memory fps) s) E s := by
  rw [impsBadBios, wp_bind, wp_get]
  simp only [wp_ite]
  refine ⟨fun htype => wp_printBad fun h => absurd h.type (Nat.not_le.mpr htype), fun htype =>
    ⟨fun hcth => ?_, fun hcth => ⟨fun hzero => wp_printBad fun h => ?_, fun hzero => wp_good ?_⟩⟩⟩
  · apply wp_mono badTable_spec _ fun _ _ h => h
    rintro bad s₁ ⟨hbad, h₁⟩
    refine ⟨hbad.trans (not_congr ⟨fun h => ?_, fun h => h.table hcth⟩), h₁⟩
    exact ⟨Nat.not_lt.mp htype, fun _ => h, fun h => absurd h hcth⟩
  · exact h.default (not_not.mp hcth) hzero
  · exact ⟨Nat.not_lt.mp htype, fun h => absurd h hcth, fun _ => hzero⟩

/-! ## What is left alone -/

/-- From s to s' no processor has been started, and nothing has changed but the trace and the address
of the local APIC. -/
structure Untouched (s s' : ImpsState) : Prop where
  same : s' = { s with trace := s'.trace, impsLapicAddr := s'.impsLapicAddr }
  startups : startups s'.trace = startups s.trace
  resetCode : resetCode s'.trace = resetCode s.trace
  waited : waited s'.trace ≤ waited s.trace

namespace Untouched

variable {s₁ s₂ : ImpsState}

theorem of_logs (h : Logs (Smp.startups s.trace) 0 s s₁) : Untouched s s₁ :=
  ⟨by rw [h.same], h.startups, h.resetCode, h.waited⟩

theorem trans (h : Untouched s s₁) (h' : Untouched s₁ s₂) : Untouched s s₂ :=
  ⟨by rw [h'.same, h.same], h'.startups.trans h.startups, h'.resetCode.trans h.resetCode,
    h'.waited.trans h.waited⟩

theorem lapicAddr (s : ImpsState) (a : UInt32) : Untouched s { s with impsLapicAddr := a } :=
  ⟨rfl, rfl, rfl, Nat.le_refl _⟩

end Untouched

/-- The rule for imps_read_bios: with good tables it starts the CPUs, with others it does nothing. -/
theorem wp_impsReadBios {Q : Unit → ImpsState → Prop}
    (hgood : ∀ s₁, GoodBios pl s.memory fps → Untouched s s₁ →
      s₁.impsLapicAddr = pl.physToVirtual (biosLapicAddr pl s.memory fps) →
      wp (startCpus pl fps) Q E s₁)
    (hbad : ∀ s₁, ¬ GoodBios pl s.memory fps → Untouched s s₁ → Q () s₁) :
    wp (impsReadBios pl fps) Q E s := by
  simp only [impsReadBios, wp_bind, wp_get]
  apply wp_mono wp_kernelPrint _ fun _ _ h => h
  intro _ s₁ h₁
  have hmemory : s₁.memory = s.memory := by rw [h₁.same]
  apply wp_mono impsBadBios_spec _ fun _ _ h => h
  rintro bad s₂ ⟨hchecks, h₂⟩
  rw [hmemory] at hchecks
  have h₁₂ := Untouched.of_logs (h₁.quiet h₂)
  rw [wp_ite]
  constructor
  · intro htrue
    apply wp_mono wp_kernelPrint _ fun _ _ h => h
    intro _ s₃ h₃
    exact hbad s₃ (fun h => hchecks.mp htrue h.toGoodTables) (h₁₂.trans (.of_logs h₃))
  · intro hfalse
    have htables := not_not.mp (mt hchecks.mpr hfalse)
    rw [wp_bind, wp_modify, wp_bind]
    apply wp_mono wp_kernelPrint _ fun _ _ h => h
    intro _ s₃ h₃
    have h₁₃ := (h₁₂.trans (.lapicAddr s₂ _)).trans (.of_logs h₃)
    rw [wp_ite]
    constructor
    · intro hlapic
      apply wp_mono wp_kernelPrint _ fun _ _ h => h
      intro _ s₄ h₄
      exact hbad s₄ (fun h => hlapic h.lapic) (h₁₃.trans (.of_logs h₄))
    · intro hlapic
      rw [wp_bind, wp_modify]
      exact hgood _ ⟨htables, not_not.mp hlapic⟩ (h₁₃.trans (.lapicAddr s₃ _)) rfl

end

end PerfTools.Smp
