import Mathlib.Data.List.ModifyLast
import PerfTools.Smp.Imps

/-!
# What the other processors see

The trace of a run, read as the local APIC reads it: two writes to the interrupt command register
are one message, and an INIT is the beginning of a start. What boot_cpu does is stated in these
terms: which messages it sends, how long it waits, and when it takes a processor for started.
-/

namespace PerfTools.Smp

open Memory Exec Printf FlatMemory

/-! ## Traces -/

/-- The start of a processor: the messages, each with its destination, and what the tests of the
processor gave. -/
structure Startup where
  signals : List (UInt32 × UInt32)
  answers : List Bool
  deriving DecidableEq

/-- The upper half of the interrupt command register, and the starts up to now. -/
structure Watch where
  icrHigh : UInt32
  startups : List Startup

namespace Watch

def send (w : Watch) (v : UInt32) : Watch :=
  let signal := (w.icrHigh >>> 24, v)
  { w with startups :=
      if v = assertInit then w.startups ++ [⟨[signal], []⟩]
      else w.startups.modifyLast fun st => { st with signals := st.signals ++ [signal] } }

def see (w : Watch) : Access → Watch
  | .lapicWrite reg value =>
    if reg = lapicIcr + 0x10 then { w with icrHigh := value }
    else if reg = lapicIcr then w.send value
    else w
  | .testBooted booted =>
    { w with startups := w.startups.modifyLast fun st => { st with answers := st.answers ++ [booted] } }
  | _ => w

end Watch

def watch (trace : List Access) : Watch := trace.foldl Watch.see ⟨0, []⟩

def startups (trace : List Access) : List Startup := (watch trace).startups

def Access.microseconds : Access → Nat
  | .delay n => n
  | _ => 0

/-- How long the program has waited. -/
def waited (trace : List Access) : Nat := (trace.map Access.microseconds).sum

def Access.resetCode? : Access → Option UInt8
  | .cmosWrite reg value => if reg = cmosResetCode then some value else none
  | _ => none

/-- The warm reset code that was written last. -/
def resetCode (trace : List Access) : Option UInt8 := (trace.filterMap Access.resetCode?).getLast?

section

variable {t : List Access} {e : Access}

theorem watch_concat : watch (t ++ [e]) = (watch t).see e := List.foldl_concat _ _ _ _

theorem waited_concat : waited (t ++ [e]) = waited t + e.microseconds := by
  simp [waited]

theorem resetCode_concat_none (h : e.resetCode? = none) : resetCode (t ++ [e]) = resetCode t := by
  simp [resetCode, h]

theorem resetCode_concat_some {v : UInt8} (h : e.resetCode? = some v) :
    resetCode (t ++ [e]) = some v := by
  simp [resetCode, h]

end

/-- An access that is neither part of a start nor a write of the reset code. -/
def Access.Plain (e : Access) : Prop :=
  e.resetCode? = none ∧ ∀ w : Watch, (w.see e).startups = w.startups

/-- From s to s' nothing but the trace has changed, with these starts in it and delays of at most
us microseconds more. -/
structure Logs (after : List Startup) (us : Nat) (s s' : ImpsState) : Prop where
  same : s' = { s with trace := s'.trace }
  startups : startups s'.trace = after
  resetCode : resetCode s'.trace = resetCode s.trace
  waited : waited s'.trace ≤ waited s.trace + us

namespace Logs

variable {a b : List Startup} {n k : Nat} {s s₁ s₂ : ImpsState}

theorem trans (h : Logs a n s s₁) (h' : Logs b k s₁ s₂) : Logs b (n + k) s s₂ where
  same := by rw [h'.same, h.same]
  startups := h'.startups
  resetCode := h'.resetCode.trans h.resetCode
  waited := by
    have h1 := h.waited
    have h2 := h'.waited
    omega

theorem quiet (h : Logs a n s s₁) (h' : Logs (Smp.startups s₁.trace) k s₁ s₂) :
    Logs a (n + k) s s₂ := by
  rw [h.startups] at h'
  exact h.trans h'

theorem mono (h : Logs a n s s₁) (hle : n ≤ k) : Logs a k s s₁ :=
  ⟨h.same, h.startups, h.resetCode, Nat.le_trans h.waited (Nat.add_le_add_left hle _)⟩

end Logs

section

variable {pl : Platform} {s : ImpsState} {E : Stop → ImpsState → Prop}

theorem log_plain {e : Access} (he : e.Plain) :
    Logs (startups s.trace) e.microseconds s { s with trace := s.trace ++ [e] } where
  same := rfl
  startups := by rw [startups, watch_concat]; exact he.2 _
  resetCode := resetCode_concat_none he.1
  waited := by rw [waited_concat]

theorem wp_log {e : Access} (he : e.Plain) :
    wp (log e) (fun _ => Logs (startups s.trace) e.microseconds s) E s := log_plain he

theorem wp_kernelPrint {fmt : Format} :
    wp (kernelPrint fmt) (fun _ => Logs (startups s.trace) 0 s) E s := wp_log ⟨rfl, fun _ => rfl⟩

theorem wp_udelay {n : Nat} : wp (udelay n) (fun _ => Logs (startups s.trace) n s) E s :=
  wp_log ⟨rfl, fun _ => rfl⟩

theorem wp_impsLapicRead {reg : UInt32} :
    wp (impsLapicRead pl reg) (fun _ => Logs (startups s.trace) 0 s) E s := by
  rw [impsLapicRead, wp_bind]
  exact log_plain (e := .lapicRead reg (pl.lapic s.trace reg)) ⟨rfl, fun _ => rfl⟩

theorem wp_impsLapicWrite {reg value : UInt32} (h : reg ≠ lapicIcr + 0x10) (h' : reg ≠ lapicIcr) :
    wp (impsLapicWrite reg value) (fun _ => Logs (startups s.trace) 0 s) E s := by
  apply wp_log
  refine ⟨rfl, fun w => ?_⟩
  rw [Watch.see, if_neg h, if_neg h']

theorem wp_clearApicErrors :
    wp (clearApicErrors pl) (fun _ => Logs (startups s.trace) 0 s) E s := by
  rw [clearApicErrors, wp_bind]
  apply wp_mono (wp_impsLapicWrite (by decide) (by decide)) _ fun _ _ h => h
  intro _ s₁ h₁
  rw [wp_bind]
  apply wp_mono wp_impsLapicRead _ fun _ _ h => h
  intro _ s₂ h₂
  exact h₁.quiet h₂

theorem waitSent_spec (n : Nat) :
    wp (waitSent pl n) (fun _ => Logs (startups s.trace) (100 * (n + 1)) s) E s := by
  induction n generalizing s with
  | zero =>
    rw [waitSent, wp_bind]
    apply wp_mono wp_udelay _ fun _ _ h => h
    intro _ s₁ h₁
    rw [wp_bind]
    apply wp_mono wp_impsLapicRead _ fun _ _ h => h
    intro _ s₂ h₂
    exact h₁.quiet h₂
  | succ n ih =>
    rw [waitSent, wp_bind]
    apply wp_mono wp_udelay _ fun _ _ h => h
    intro _ s₁ h₁
    rw [wp_bind]
    apply wp_mono wp_impsLapicRead _ fun _ _ h => h
    intro status s₂ h₂
    have h := h₁.quiet h₂
    rw [wp_ite]
    refine ⟨fun _ => h.mono (by omega), fun _ => ?_⟩
    apply wp_mono ih _ fun _ _ h => h
    intro _ s₃ h₃
    exact (h.quiet h₃).mono (by omega)

theorem wp_waitSent :
    wp (waitSent pl 1000) (fun _ => Logs (startups s.trace) 100100 s) E s := waitSent_spec 1000

/-- The message, as the list of the starts shows it. -/
def signalled (sts : List Startup) (dst v : UInt32) : List Startup :=
  (Watch.send ⟨dst <<< 24, sts⟩ v).startups

theorem signalled_eq {t : List Access} {dst v : UInt32} :
    startups (t ++ [.lapicWrite (lapicIcr + 0x10) (dst <<< 24)] ++ [.lapicWrite lapicIcr v]) =
      signalled (startups t) dst v := by
  rw [startups, watch_concat, watch_concat]
  rfl

theorem wp_sendIpi {dst v : UInt32} :
    wp (sendIpi pl dst v) (fun _ => Logs (signalled (startups s.trace) dst v) 100100 s) E s := by
  simp only [sendIpi, wp_bind, impsLapicWrite, log, wp_modify]
  apply wp_mono wp_waitSent _ fun _ _ h => h
  intro _ s₁ h₁
  have hsent : Logs (signalled (startups s.trace) dst v) 0 s
      { s with trace := s.trace ++ [.lapicWrite (lapicIcr + 0x10) (dst <<< 24)] ++
        [.lapicWrite lapicIcr v] } := by
    refine ⟨rfl, signalled_eq, ?_, ?_⟩
    · rw [resetCode_concat_none rfl, resetCode_concat_none rfl]
    · rw [waited_concat, waited_concat]
      rfl
  exact (hsent.quiet h₁).mono (by omega)

/-! ## One start -/

theorem destination (id : UInt8) : id.toUInt32 <<< 24 >>> 24 = id.toUInt32 := by
  have hlt := id.toNat_lt
  apply UInt32.toNat.inj
  simp only [UInt32.toNat_shiftRight, UInt32.toNat_shiftLeft, UInt8.toNat_toUInt32,
    UInt32.reduceToNat, Nat.reduceMod, Nat.shiftRight_eq_div_pow, Nat.shiftLeft_eq]
  omega

theorem signalled_assertInit (sts : List Startup) (id : UInt8) :
    signalled sts id.toUInt32 assertInit = sts ++ [⟨[(id.toUInt32, assertInit)], []⟩] := by
  rw [signalled, Watch.send, destination]
  rfl

theorem signalled_other {v : UInt32} (hv : v ≠ assertInit) (sts : List Startup) (st : Startup)
    (id : UInt8) : signalled (sts ++ [st]) id.toUInt32 v =
      sts ++ [{ st with signals := st.signals ++ [(id.toUInt32, v)] }] := by
  rw [signalled, Watch.send, destination]
  simp only [if_neg hv, List.modifyLast_concat]

theorem wp_sendInit {id : UInt8} :
    wp (sendInit pl id.toUInt32) (fun _ => Logs (startups s.trace ++
      [⟨[(id.toUInt32, assertInit), (id.toUInt32, deassertInit)], []⟩]) 220200 s) E s := by
  rw [sendInit, wp_bind]
  apply wp_mono wp_sendIpi _ fun _ _ h => h
  intro _ s₁ h₁
  rw [signalled_assertInit] at h₁
  rw [wp_bind]
  apply wp_mono wp_udelay _ fun _ _ h => h
  intro _ s₂ h₂
  rw [wp_bind]
  apply wp_mono wp_sendIpi _ fun _ _ h => h
  intro _ s₃ h₃
  rw [(h₁.quiet h₂).startups, signalled_other (by decide)] at h₃
  apply wp_mono wp_udelay _ fun _ _ h => h
  intro _ s₄ h₄
  exact ((h₁.quiet h₂).trans h₃).quiet h₄

theorem wp_sendStartup {id : UInt8} {sts : List Startup} {st : Startup}
    (h : startups s.trace = sts ++ [st]) :
    wp (sendStartup pl id.toUInt32) (fun _ => Logs (sts ++
      [{ st with signals := st.signals ++ [(id.toUInt32, startupIpi)] }]) 101100 s) E s := by
  rw [sendStartup, wp_bind]
  apply wp_mono wp_sendIpi _ fun _ _ h => h
  intro _ s₁ h₁
  rw [h, signalled_other (by decide)] at h₁
  apply wp_mono wp_udelay _ fun _ _ h => h
  intro _ s₂ h₂
  exact h₁.quiet h₂

/-- The tests of a wait for so many rounds: until the first that succeeds, and one more behind the
last round, which no longer counts. -/
inductive Polled : Nat → Bool → List Bool → Prop
  | late (answer : Bool) : Polled 0 false [answer]
  | running (n : Nat) : Polled (n + 1) true [true]
  | wait {n : Nat} {success : Bool} {answers : List Bool} (h : Polled n success answers) :
      Polled (n + 1) success (false :: answers)

theorem Polled.success_eq {n : Nat} {success : Bool} {answers : List Bool}
    (h : Polled n success answers) : success = (answers.take n).contains true := by
  induction h with
  | late answer => rfl
  | running n => rfl
  | wait _ ih => rw [ih]; rfl

theorem startups_testBooted {t : List Access} {sts : List Startup} {st : Startup}
    (h : startups t = sts ++ [st]) (booted : Bool) : startups (t ++ [.testBooted booted]) =
      sts ++ [{ st with answers := st.answers ++ [booted] }] := by
  rw [startups] at h
  rw [startups, watch_concat, Watch.see]
  simp only [h, List.modifyLast_concat]

theorem wp_testBooted {sts : List Startup} {st : Startup} (h : startups s.trace = sts ++ [st]) :
    wp (testBooted pl)
      (fun booted => Logs (sts ++ [{ st with answers := st.answers ++ [booted] }]) 0 s)
      E s := by
  rw [testBooted, wp_bind]
  exact ⟨rfl, startups_testBooted h _, resetCode_concat_none rfl, Nat.le_of_eq waited_concat⟩

theorem waitBooted_spec (n : Nat) {sts : List Startup} {st : Startup}
    (h : startups s.trace = sts ++ [st]) :
    wp (waitBooted pl n) (fun success s' => ∃ answers, Polled n success answers ∧
      Logs (sts ++ [{ st with answers := st.answers ++ answers }]) (10000 * n) s s') E s := by
  induction n generalizing s st with
  | zero =>
    rw [waitBooted, wp_bind]
    apply wp_mono (wp_testBooted h) _ fun _ _ h => h
    intro answer s₁ h₁
    exact ⟨[answer], .late answer, h₁⟩
  | succ n ih =>
    rw [waitBooted, wp_bind]
    apply wp_mono (wp_testBooted h) _ fun _ _ h => h
    intro answer s₁ h₁
    rw [wp_ite]
    refine ⟨fun hrun => ?_, fun hrun => ?_⟩
    · rw [hrun] at h₁
      exact ⟨[true], .running n, h₁.mono (by omega)⟩
    · rw [Bool.not_eq_true] at hrun
      rw [hrun] at h₁
      rw [wp_bind]
      apply wp_mono wp_udelay _ fun _ _ h => h
      intro _ s₂ h₂
      have h₁₂ := h₁.quiet h₂
      apply wp_mono (ih h₁₂.startups) _ fun _ _ h => h
      rintro success s₃ ⟨answers, hpolled, h₃⟩
      rw [List.append_assoc] at h₃
      exact ⟨false :: answers, .wait hpolled, (h₁₂.trans h₃).mono (by omega)⟩

end

end PerfTools.Smp
