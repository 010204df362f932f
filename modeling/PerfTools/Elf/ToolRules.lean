import PerfTools.Elf.BufferHistory
import PerfTools.Elf.Tool

/-!
# Rules for the steps of the elf tool

The weakest precondition of each step that the tool's functions are made of: a read, a message
to the annotation buffer, a dump under the buffer's text. `Buffered` bounds the text that the
buffer holds, so that a sequence of messages of known size is known to fit.
-/

namespace PerfTools.Elf

open Memory Printf Exec Lines

def Proc.withScreen (s : Proc ElfVars) (screen : Screen) : Proc ElfVars :=
  { s with vars := { s.vars with screen } }

def Proc.log {γ : Type} (s : Proc γ) (es : List Event) : Proc γ := { s with trace := s.trace ++ es }

@[simp] theorem Proc.withScreen_withScreen (s : Proc ElfVars) (screen screen' : Screen) :
    (s.withScreen screen).withScreen screen' = s.withScreen screen' := rfl

@[simp] theorem Proc.withScreen_screen (s : Proc ElfVars) (screen : Screen) :
    (s.withScreen screen).vars.screen = screen := rfl

@[simp] theorem Proc.log_log {γ : Type} (s : Proc γ) (es fs : List Event) :
    (s.log es).log fs = s.log (es ++ fs) := by
  simp [Proc.log]

@[simp] theorem Proc.withScreen_trace (s : Proc ElfVars) (screen : Screen) :
    (s.withScreen screen).trace = s.trace := rfl

@[simp] theorem dumps_log {γ : Type} (s : Proc γ) (es : List Event) :
    dumps (s.log es).trace = dumps s.trace ++ dumps es := dumps_append _ _

@[simp] theorem dumps_dump (record : Option (RecordTable × Nat)) (offset size : UInt32)
    (data : Option Ptr) (t : Text) : dumps [.dump record offset size data t] = [t] := rfl

/-- The buffer holds a text of at most n characters that no dump has cut. -/
def Buffered (screen : Screen) (n : Nat) : Prop :=
  ∃ g : BufferText, g.Agrees screen ∧ g.cut = false ∧ g.text.length ≤ n

/-- The buffer can be restarted. -/
def Restartable (screen : Screen) : Prop := ∃ g : BufferText, g.Agrees screen

theorem Buffered.restartable {screen : Screen} {n : Nat} (h : Buffered screen n) :
    Restartable screen := by
  obtain ⟨g, hg, _⟩ := h
  exact ⟨g, hg⟩

/-- The buffer holds a text of n characters that no dump has cut. -/
def Written (screen : Screen) (n : Nat) : Prop :=
  ∃ g : BufferText, g.Agrees screen ∧ g.cut = false ∧ g.text.length = n

theorem Written.restartable {screen : Screen} {n : Nat} (h : Written screen n) :
    Restartable screen := by
  obtain ⟨g, hg, _⟩ := h
  exact ⟨g, hg⟩

theorem Restartable.written {screen : Screen} (h : Restartable screen) :
    Written screen.binBufferReset 0 := by
  obtain ⟨g, hg⟩ := h
  exact ⟨_, BufferText.restart_agrees hg, rfl, rfl⟩

theorem initial_restartable : Restartable Screen.initial := ⟨_, BufferText.initial_agrees⟩

theorem Restartable.reset {screen : Screen} (h : Restartable screen) :
    Buffered screen.binBufferReset 0 := by
  obtain ⟨g, hg⟩ := h
  exact ⟨_, BufferText.restart_agrees hg, rfl, le_rfl⟩

section

variable {host : Host} {s : Proc ElfVars} {E : Stop → Proc ElfVars → Prop}

theorem wp_elfFileRead {Q : Option Ptr → Proc ElfVars → Prop} (target : Target)
    (offset size : Int) :
    wp (elfFileRead host target offset size) Q E s ↔
      Q (host.transfer target (toUnsigned size).toNat s.pos offset size).1
        ⟨(host.transfer target (toUnsigned size).toNat s.pos offset size).2.1,
          s.trace ++ (host.transfer target (toUnsigned size).toNat s.pos offset size).2.2,
          s.vars⟩ := by
  apply wp_of_eq
  apply fileRead_apply
  intro t
  rw [Exec.bind_apply, lseek]
  by_cases hneg : offset < 0
  · rw [if_pos hneg]
    simp only [lseek, if_pos hneg]
  · rw [if_neg hneg]
    simp only [lseek, if_neg hneg]

theorem wp_elfFileRead_inside {Q : Option Ptr → Proc ElfVars → Prop} {target : Target}
    {offset size : Nat} (hmalloc : host.malloc target size = true) (hsize : size < 2 ^ 31)
    (hinside : size = 0 ∨ offset + size ≤ host.file.length) :
    wp (elfFileRead host target offset size) Q E s ↔
      Q (some (chunk host.file offset size))
        ⟨offset + size, s.trace ++ [.read target true], s.vars⟩ := by
  have hrequest : (toUnsigned (size : Int)).toNat = size := by
    rw [toUnsigned_toNat (by omega) (by omega), Int.toNat_natCast]
  rw [wp_elfFileRead, hrequest, Host.transfer_inside hmalloc rfl hinside]

theorem transfer_described {target : Target} (hmalloc : ∀ target n, host.malloc target n = true)
    {offset size pos : Nat} (hoffset : offset < 2 ^ 31) (hsize : size < 2 ^ 31)
    (hinside : size = 0 ∨ offset + size ≤ host.file.length) :
    host.transfer target (toUnsigned (toInt size)).toNat pos (toInt offset) (toInt size) =
      (some (chunk host.file offset size), offset + size, [.read target true]) := by
  have hrequest : (toUnsigned (size : Int)).toNat = size := by
    rw [toUnsigned_toNat (by omega) (by omega), Int.toNat_natCast]
  rw [toInt_of_lt hoffset, toInt_of_lt hsize, hrequest,
    Host.transfer_inside (hmalloc _ _) rfl hinside]

@[simp] theorem wp_binBufferReset {Q : Unit → Proc ElfVars → Prop} :
    wp binBufferReset Q E s ↔ Q () (s.withScreen s.vars.screen.binBufferReset) := Iff.rfl

theorem wp_binPrintf {Q : Unit → Proc ElfVars → Prop} {g : BufferText} {fmt : Format}
    (h : g.Agrees s.vars.screen) (hcut : g.cut = false) (hne : isEmptyFormat fmt = false)
    (hroom : (g.text ++ (vsprintf fmt).chars).length < screenMax)
    (hQ : ∀ screen,
      BufferText.Agrees ⟨g.text ++ (vsprintf fmt).chars, true, false, g.stale⟩ screen →
        Q () (s.withScreen screen)) : wp (binPrintf 0 fmt) Q E s := by
  have hnext : g.next (.printf 0 (some fmt)) =
      ⟨g.text ++ (vsprintf fmt).chars, true, false, g.stale⟩ := by
    simp [BufferText.next, BufferText.printf, hne, hcut]
  obtain ⟨screen, hrun, hagrees⟩ := BufferText.printf_agrees h 0 (some fmt)
    (by rw [hnext]; exact hroom)
  rw [hnext] at hagrees
  have hlift : wp (binPrintf 0 fmt) Q E s ↔ Q () (s.withScreen screen) := by
    rw [binPrintf]
    simp only [wp_bind, wp_vars, hrun, wp_lift_ok, wp_setVars]
    rfl
  exact hlift.mpr (hQ screen hagrees)

theorem wp_binPrintf_buffered {Q : Unit → Proc ElfVars → Prop} {n : Nat} {fmt : Format}
    (h : Buffered s.vars.screen n) (hne : isEmptyFormat fmt = false)
    (hroom : n + fmt.room < screenMax)
    (hQ : ∀ screen, Buffered screen (n + fmt.room) → Q () (s.withScreen screen)) :
    wp (binPrintf 0 fmt) Q E s := by
  obtain ⟨g, hg, hcut, hlen⟩ := h
  have htext := vsprintf_length fmt
  refine wp_binPrintf hg hcut hne ?_ fun screen hscreen => hQ screen ⟨_, hscreen, rfl, ?_⟩
  · rw [List.length_append]
    omega
  · rw [List.length_append]
    omega

theorem Screen.binPrintf_first (screen : Screen) (first : Int) (fmt : Option Format) :
    screen.binPrintf first fmt =
      (if first ≠ 0 then screen.binBufferReset else screen).binPrintf 0 fmt := by
  unfold Screen.binPrintf
  rfl

/-- A message behind a text of known length: with its terminator it fits into the screen, or the
tool writes beyond it. -/
private theorem wp_binPrintf_written {Q : Unit → Proc ElfVars → Prop} {m n : Nat} {first : Int}
    {fmt : Format} (hne : isEmptyFormat fmt = false) (hfmt : fmt.Writes n)
    (h : Written (if first ≠ 0 then s.vars.screen.binBufferReset else s.vars.screen) m)
    (hm : m < screenMax) (hbad : screenMax ≤ m + n → ∀ e s, E e s)
    (hQ : ∀ screen, m + n < screenMax → Written screen (m + n) → Q () (s.withScreen screen)) :
    wp (binPrintf first fmt) Q E s := by
  obtain ⟨g, hg, hcut, hlen⟩ := h
  have hchars := hfmt.chars_length
  have hfirst := s.vars.screen.binPrintf_first first (some fmt)
  generalize (if first ≠ 0 then s.vars.screen.binBufferReset else s.vars.screen) = screen at hg hfirst
  have hnext : (g.next (.printf 0 (some fmt))).text.length = m + n := by
    simp [BufferText.next, BufferText.printf, hne, hchars, hlen]
  rw [binPrintf]
  simp only [wp_bind, wp_vars, hfirst]
  by_cases hroom : m + n < screenMax
  · obtain ⟨screen', hrun, hagrees⟩ := BufferText.printf_agrees hg 0 (some fmt)
      (by rw [hnext]; exact hroom)
    rw [hrun, wp_lift_ok, wp_setVars]
    apply hQ screen' hroom
    refine ⟨_, hagrees, ?_, hnext⟩
    simp [BufferText.next, BufferText.printf, hne, hcut]
  · have hindex : screen.index = m := hg.index.trans hlen
    have hwrite : screen.write (vsprintf fmt).chars = .error .outOfBounds := by
      rw [Screen.write, if_neg]
      rw [hg.length, hindex, hchars]
      omega
    have hrun : screen.binPrintf 0 (some fmt) = .error .outOfBounds := by
      simp [Screen.binPrintf, hne, hwrite, hindex, hm.le.not_gt]
    rw [hrun, wp_lift_error]
    exact hbad (by omega) _ _

theorem wp_binPrintf_start {Q : Unit → Proc ElfVars → Prop} {n : Nat} {fmt : Format}
    (hne : isEmptyFormat fmt = false) (hfmt : fmt.Writes n) (h : Restartable s.vars.screen)
    (hbad : screenMax ≤ n → ∀ e s, E e s)
    (hQ : ∀ screen, n < screenMax → Written screen n → Q () (s.withScreen screen)) :
    wp (binPrintf 1 fmt) Q E s := by
  have hstart : Written (if (1 : Int) ≠ 0 then s.vars.screen.binBufferReset else s.vars.screen) 0 :=
    h.written
  apply wp_binPrintf_written hne hfmt hstart (by decide)
  · rwa [Nat.zero_add]
  · rwa [Nat.zero_add]

theorem wp_binPrintf_next {Q : Unit → Proc ElfVars → Prop} {m n : Nat} {fmt : Format}
    (hne : isEmptyFormat fmt = false) (hfmt : fmt.Writes n) (h : Written s.vars.screen m)
    (hm : m < screenMax) (hbad : screenMax ≤ m + n → ∀ e s, E e s)
    (hQ : ∀ screen, m + n < screenMax → Written screen (m + n) → Q () (s.withScreen screen)) :
    wp (binPrintf 0 fmt) Q E s :=
  wp_binPrintf_written hne hfmt (by simpa using h) hm hbad hQ

theorem wp_binPrintf_restart {Q : Unit → Proc ElfVars → Prop} {fmt : Format}
    (h : Restartable s.vars.screen) (hne : isEmptyFormat fmt = false) (hroom : fmt.room < screenMax)
    (hQ : ∀ screen, Buffered screen fmt.room → Q () (s.withScreen screen)) :
    wp (binPrintf 1 fmt) Q E s := by
  obtain ⟨g, hg⟩ := h
  have htext := vsprintf_length fmt
  have hnext : (g.next (.printf 1 (some fmt))).text = (vsprintf fmt).chars := by
    simp [BufferText.next, BufferText.printf, BufferText.restart, hne]
  obtain ⟨screen, hrun, hagrees⟩ := BufferText.printf_agrees hg 1 (some fmt)
    (by rw [hnext]; omega)
  rw [binPrintf]
  simp only [wp_bind, wp_vars, hrun, wp_lift_ok, wp_setVars]
  apply hQ screen
  refine ⟨_, hagrees, ?_, by rw [hnext]; exact htext⟩
  simp [BufferText.next, BufferText.printf, BufferText.restart, hne]

theorem wp_message {Q : Unit → Proc ElfVars → Prop} {k : Nat} {fmt : Format}
    (h : Buffered s.vars.screen (32 * k)) (hk : k < 100) (hne : isEmptyFormat fmt = false)
    (hroom : fmt.room ≤ 32)
    (hQ : ∀ screen, Buffered screen (32 * (k + 1)) → Q () (s.withScreen screen)) :
    wp (binPrintf 0 fmt) Q E s := by
  refine wp_binPrintf_buffered h hne (by unfold screenMax; omega) fun screen hs => hQ screen ?_
  obtain ⟨g, hg, hcut, hlen⟩ := hs
  exact ⟨g, hg, hcut, by omega⟩

theorem wp_printMember {Q : Unit → Proc ElfVars → Prop} {k : Nat} {p : Option Ptr} {label : String}
    {pad : UInt8} {upper : Bool} {width n : Nat} {f : Field}
    (h : Buffered s.vars.screen (32 * k)) (hk : k < 100) (hmember : member p f = .ok n)
    (hne : isEmptyFormat (lit label ++ [.hex pad upper width n] ++ lit "\n") = false)
    (hroom : (ascii label).length + max width 8 + (ascii "\n").length ≤ 32)
    (hQ : ∀ screen, Buffered screen (32 * (k + 1)) → Q () (s.withScreen screen)) :
    wp (printMember p label pad upper width f) Q E s := by
  rw [printMember, wp_bind, hmember, wp_lift_ok]
  exact wp_message h hk hne (by rw [Format.room_hex]; exact hroom) hQ

theorem wp_dumpWithBuffer {Q : Unit → Proc ElfVars → Prop}
    {record : Option (RecordTable × Nat)} (a : DumpArgs) (h : Restartable s.vars.screen)
    {str : CString} (hshown : s.vars.screen.Shows str)
    (hQ : ∀ screen, Restartable screen →
      Q () ((s.withScreen screen).log [.dump record a.offset a.size (some a.ptr)
        (unlines newline (noteLines a.base a.rows (lines newline str.chars)))])) :
    wp (dumpWithBuffer record a.offset a.size (some a.ptr)) Q E s := by
  obtain ⟨g, hg⟩ := h
  have hvalid : (BufferCall.dump a.offset a.size (some a.ptr)).Valid :=
    Or.inr (Or.inr ⟨a, rfl, rfl, rfl⟩)
  obtain ⟨t, screen, hrun, hagrees⟩ := BufferText.dump_agrees hg hvalid
  obtain ⟨screen', hrun', _⟩ := Screen.dump_shows hshown a
  have heq := hrun.symm.trans hrun'
  rw [Except.ok.injEq, Prod.mk.injEq] at heq
  have hlift : wp (dumpWithBuffer record a.offset a.size (some a.ptr)) Q E s ↔
      Q () ((s.withScreen screen).log [.dump record a.offset a.size (some a.ptr) t]) := by
    rw [dumpWithBuffer]
    simp only [wp_bind, wp_vars, hrun, wp_lift_ok, wp_setVars, wp_emit]
    rfl
  rw [hlift, heq.1]
  exact hQ screen ⟨_, hagrees⟩

theorem wp_dumpWithBuffer_restartable {Q : Unit → Proc ElfVars → Prop}
    {record : Option (RecordTable × Nat)} {offset size : UInt32} {p : Ptr}
    (hpos : 0 < size.toNat) (hread : size.toNat ≤ p.tail.length)
    (hfits : offset.toNat % 16 + size.toNat < 2 ^ 31) (h : Restartable s.vars.screen)
    (hQ : ∀ screen t, Restartable screen →
      Q () ((s.withScreen screen).log [.dump record offset size (some p) t])) :
    wp (dumpWithBuffer record offset size (some p)) Q E s := by
  obtain ⟨g, hg⟩ := h
  obtain ⟨str, hshown, _⟩ := hg.shown
  exact wp_dumpWithBuffer ⟨offset, size, p, hpos, hread, hfits⟩ ⟨g, hg⟩ hshown
    fun screen hscreen => hQ screen _ hscreen

theorem wp_dumpWithBuffer_nothing {Q : Unit → Proc ElfVars → Prop}
    {record : Option (RecordTable × Nat)} {offset size : UInt32} {data : Option Ptr}
    (h : size = 0 ∨ data = none)
    (hQ : Q () (s.log [.dump record offset size data []])) :
    wp (dumpWithBuffer record offset size data) Q E s := by
  have hrun : s.vars.screen.dump offset size data = .ok ([], s.vars.screen) := by
    rcases h with rfl | rfl
    · cases data <;> rfl
    · rfl
  rw [dumpWithBuffer]
  simp only [wp_bind, wp_vars, hrun, wp_lift_ok, wp_setVars, wp_emit]
  exact hQ

end

end PerfTools.Elf
