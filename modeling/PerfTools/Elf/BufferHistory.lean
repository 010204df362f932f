import Mathlib.Data.List.Induction
import Mathlib.Data.List.Infix
import PerfTools.Elf.BinBuffer

/-!
# What the annotation buffer shows over a run

The abstract buffer is the text formatted since the last restart, together with two marks:
whether its terminator has been written, and whether a dump has cut it. Until the terminator is
written, an old text stays on the screen. Every call keeps the screen in agreement with it, so that
after any sequence of calls the screen shows that text, or its first line when a dump has cut it.
-/

namespace PerfTools.Elf

open Memory Printf Lines

inductive BufferCall
  | reset
  | printf (first : Int) (fmt : Option Format)
  | dump (offset size : UInt32) (buf : Option Ptr)

namespace BufferCall

/-- A dump either prints nothing or has a readable buffer and an end its counter can reach. -/
def Valid : BufferCall → Prop
  | .dump offset size buf =>
    size = 0 ∨ buf = none ∨
      ∃ a : DumpArgs, a.offset = offset ∧ a.size = size ∧ buf = some a.ptr
  | _ => True

def exec (s : Screen) : BufferCall → Except Fault Screen
  | .reset => .ok s.binBufferReset
  | .printf first fmt => do
    let (_, s) ← s.binPrintf first fmt
    return s
  | .dump offset size buf => do
    let (_, s) ← s.dump offset size buf
    return s

end BufferCall

/-- The screen after a sequence of calls from the start of the program. -/
def runCalls (calls : List BufferCall) : Except Fault Screen :=
  calls.foldlM BufferCall.exec Screen.initial

/-- The abstract buffer. -/
structure BufferText where
  /-- the texts formatted since the last restart -/
  text : Text
  /-- the text is followed by its terminator -/
  terminated : Bool
  /-- a dump has cut the text -/
  cut : Bool
  /-- what is left of an older text -/
  stale : Text

namespace BufferText

def initial : BufferText := ⟨[], true, false, []⟩

/-- What is left of the text for a reader. -/
def seen (g : BufferText) : Text := if g.cut then g.text.takeWhile (· ≠ newline) else g.text

/-- What is on the screen. -/
def screen (g : BufferText) : Text := if g.terminated then g.seen else g.stale

/-- A restart forgets the text; the terminator is only there when the buffer showed nothing. -/
def restart (g : BufferText) : BufferText := ⟨[], g.screen.isEmpty, false, g.screen⟩

def printf (g : BufferText) : Option Format → BufferText
  | none => g
  | some fmt =>
    if isEmptyFormat fmt then g
    else { g with text := g.text ++ (vsprintf fmt).chars, terminated := true }

def next (g : BufferText) : BufferCall → BufferText
  | .reset => g.restart
  | .printf first fmt => (if first ≠ 0 then g.restart else g).printf fmt
  | .dump _ size buf =>
    if size = 0 ∨ buf = none then g
    else { g with cut := g.cut || g.text.contains newline,
                  stale := g.stale.takeWhile (· ≠ newline) }

/-- The abstract buffer after a sequence of calls. -/
def after (calls : List BufferCall) : BufferText := calls.foldl next initial

/-- The screen agrees with the abstract buffer. -/
structure Agrees (g : BufferText) (s : Screen) : Prop where
  length : s.chars.length = screenMax
  index : s.index = g.text.length
  shown : ∃ str, s.Shows str ∧ str.chars = g.screen
  nulFree : 0 ∉ g.text
  unwritten : g.terminated = false → g.text = [] ∧ g.cut = false
  cutLine : g.cut = true → newline ∈ g.text

theorem initial_agrees : initial.Agrees Screen.initial :=
  ⟨by simp [Screen.initial], rfl, ⟨_, Screen.initial_shows, rfl⟩, by simp [initial],
    by simp [initial], by simp [initial]⟩

variable {g : BufferText} {s : Screen}

theorem Agrees.seen (h : g.Agrees s) :
    ∃ str, s.Shows str ∧ (g.terminated = true → str.chars = g.seen) := by
  obtain ⟨str, hshown, hscreen⟩ := h.shown
  exact ⟨str, hshown, fun hterm => by rw [hscreen, screen, if_pos hterm]⟩

theorem restart_agrees (h : g.Agrees s) : g.restart.Agrees s.binBufferReset := by
  obtain ⟨str, hshown, hscreen⟩ := h.shown
  refine ⟨h.length, rfl, ⟨str, hshown, ?_⟩, by simp [restart], by simp [restart], by simp [restart]⟩
  rw [screen]
  split_ifs with hterm
  · rw [hscreen, List.isEmpty_iff.mp hterm]
    rfl
  · exact hscreen

/-- The three cases of an append: behind a restart, behind the text, behind a cut. -/
private theorem write_agrees (h : g.Agrees s) (t : CString)
    (hroom : (g.text ++ t.chars).length < screenMax) :
    ∃ s', s.write t.chars = .ok s' ∧
      Agrees { g with text := g.text ++ t.chars, terminated := true } s' := by
  obtain ⟨str, hshown, hseen⟩ := h.seen
  have hroom' : s.index + t.chars.length < s.chars.length := by
    rw [h.length, h.index]
    simpa using hroom
  have hnul : 0 ∉ g.text ++ t.chars := by simpa [h.nulFree] using t.nulFree
  by_cases hcut : g.cut = true
  · have hterm : g.terminated = true := by
      by_contra hterm
      have hfalse := (h.unwritten (by simpa using hterm)).2
      simp [hcut] at hfalse
    obtain ⟨l, m, hsplit, hl⟩ := List.eq_append_cons_of_mem (h.cutLine hcut)
    have hline (u : Text) : (l ++ newline :: u).takeWhile (· ≠ newline) = l := by
      apply takeWhile_append_stop
      · intro b hb
        simpa using fun e : b = newline => hl (e ▸ hb)
      · simp
    have hstr : str.chars = l := by rw [hseen hterm, seen, if_pos hcut, hsplit, hline]
    obtain ⟨s', hwrite, hindex, hlength, hshown'⟩ := Screen.write_hidden hshown
      (by rw [h.index, hstr, hsplit]; simp) hroom'
    refine ⟨s', hwrite, hlength.trans h.length, by rw [hindex, h.index, List.length_append],
      ⟨str, hshown', ?_⟩, hnul, by simp, fun _ => by simp [h.cutLine hcut]⟩
    rw [hstr, screen, if_pos rfl, BufferText.seen, if_pos hcut, hsplit, List.append_assoc,
      List.cons_append, hline]
  · have hprefix : s.chars.take s.index = g.text := by
      by_cases hterm : g.terminated = true
      · obtain ⟨rest, hrest⟩ := hshown
        rw [hseen hterm, seen, if_neg hcut] at hrest
        rw [hrest, h.index, List.take_left]
      · have htext := (h.unwritten (by simpa using hterm)).1
        simp [h.index, htext]
    obtain ⟨s', hwrite, hindex, hlength, hshown'⟩ :=
      Screen.write_shows (show s.chars.take s.index = (⟨g.text, h.nulFree⟩ : CString).chars
        from hprefix) hroom'
    refine ⟨s', hwrite, hlength.trans h.length, by rw [hindex, h.index, List.length_append],
      ⟨_, hshown', ?_⟩, hnul, by simp, fun hc => absurd hc hcut⟩
    rw [screen, if_pos rfl, BufferText.seen, if_neg hcut]

theorem printf_agrees (h : g.Agrees s) (first : Int) (fmt : Option Format)
    (hroom : (g.next (.printf first fmt)).text.length < screenMax) :
    ∃ s', s.binPrintf first fmt = .ok ((g.next (.printf first fmt)).text.length, s') ∧
      (g.next (.printf first fmt)).Agrees s' := by
  have hstart : (if first ≠ 0 then g.restart else g).Agrees
      (if first ≠ 0 then s.binBufferReset else s) := by
    split_ifs
    · exact restart_agrees h
    · exact h
  simp only [next] at hroom ⊢
  generalize (if first ≠ 0 then g.restart else g) = g₁ at hstart hroom ⊢
  unfold Screen.binPrintf
  generalize (if first ≠ 0 then s.binBufferReset else s) = s₁ at hstart ⊢
  cases fmt with
  | none =>
    refine ⟨s₁, ?_, hstart⟩
    change Except.ok ((s₁.index : Int), s₁) = _
    rw [hstart.index]
    rfl
  | some fmt =>
    simp only [printf] at hroom ⊢
    split_ifs at hroom ⊢ with hempty hmax
    · exact ⟨s₁, by rw [hstart.index], hstart⟩
    · rw [hstart.index] at hmax
      simp at hroom
      omega
    · obtain ⟨s', hwrite, hagrees⟩ := write_agrees hstart (vsprintf fmt) hroom
      refine ⟨s', ?_, hagrees⟩
      rw [hwrite, ok_bind, hagrees.index]
      rfl

theorem dump_agrees (h : g.Agrees s) {offset size : UInt32} {buf : Option Ptr}
    (hvalid : (BufferCall.dump offset size buf).Valid) :
    ∃ t s', s.dump offset size buf = .ok (t, s') ∧
      (g.next (.dump offset size buf)).Agrees s' := by
  by_cases hnone : size = 0 ∨ buf = none
  · refine ⟨[], s, ?_, by rw [next, if_pos hnone]; exact h⟩
    rcases hnone with rfl | rfl
    · cases buf <;> rfl
    · rfl
  · obtain hzero | hnull | ⟨a, rfl, rfl, rfl⟩ := hvalid
    · exact absurd (Or.inl hzero) hnone
    · exact absurd (Or.inr hnull) hnone
    · obtain ⟨str, hshown, hscreen⟩ := h.shown
      obtain ⟨s', hrun, hindex, hlength, shown, hshown', hchars⟩ := Screen.dump_shows hshown a
      refine ⟨_, s', hrun, ?_⟩
      rw [next, if_neg hnone]
      refine ⟨hlength.trans h.length, hindex.trans h.index, ⟨shown, hshown', ?_⟩,
        h.nulFree, fun hterm => ?_, fun hcut => ?_⟩
      · rw [hchars, hscreen, screen, screen]
        split_ifs with hterm
        swap
        · rfl
        by_cases hcut : g.cut = true
        · simp [seen, hcut, List.takeWhile_takeWhile]
        · by_cases hnl : newline ∈ g.text
          · simp [seen, hcut, hnl]
          · have htake : g.text.takeWhile (· ≠ newline) = g.text := by
              rw [List.takeWhile_eq_self_iff]
              intro b hb
              simpa using fun e : b = newline => hnl (e ▸ hb)
            have hcontains : g.text.contains newline = false := by simpa using hnl
            rw [Bool.not_eq_true] at hcut
            simp only [seen, hcut, hcontains, Bool.or_false, Bool.false_eq_true, if_false, htake]
      · obtain ⟨htext, hcut⟩ := h.unwritten hterm
        simp [htext, hcut]
      · rcases Bool.or_eq_true _ _ ▸ hcut with hcut | hcut
        · exact h.cutLine hcut
        · simpa using hcut

theorem exec_agrees (h : g.Agrees s) {c : BufferCall} (hvalid : c.Valid)
    (hroom : (g.next c).text.length < screenMax) :
    ∃ s', c.exec s = .ok s' ∧ (g.next c).Agrees s' := by
  cases c with
  | reset => exact ⟨_, rfl, restart_agrees h⟩
  | printf first fmt =>
    obtain ⟨s', hrun, hagrees⟩ := printf_agrees h first fmt hroom
    exact ⟨s', by rw [BufferCall.exec, hrun]; rfl, hagrees⟩
  | dump offset size buf =>
    obtain ⟨t, s', hrun, hagrees⟩ := dump_agrees h hvalid
    exact ⟨s', by rw [BufferCall.exec, hrun]; rfl, hagrees⟩

end BufferText

/-- The text formatted since a restart always fits on the screen, at every call of the run. -/
def FitsScreen (calls : List BufferCall) : Prop :=
  ∀ p ∈ calls.inits, (BufferText.after p).text.length < screenMax

instance (calls : List BufferCall) : Decidable (FitsScreen calls) :=
  inferInstanceAs (Decidable (∀ p ∈ calls.inits, (BufferText.after p).text.length < screenMax))

/-- A whole run keeps the agreement. -/
theorem runCalls_agrees (calls : List BufferCall) (hvalid : ∀ c ∈ calls, c.Valid)
    (hfits : FitsScreen calls) :
    ∃ s, runCalls calls = .ok s ∧ (BufferText.after calls).Agrees s := by
  induction calls using List.reverseRecOn with
  | nil => exact ⟨_, rfl, BufferText.initial_agrees⟩
  | append_singleton calls c ih =>
    obtain ⟨s, hrun, hagrees⟩ := ih (fun c' hc' => hvalid c' (by simp [hc']))
      fun p hp => hfits p ((List.mem_inits _ _).mpr (((List.mem_inits _ _).mp hp).trans
        (List.prefix_append _ _)))
    have hroom := hfits _ ((List.mem_inits _ _).mpr List.prefix_rfl)
    have hafter : BufferText.after (calls ++ [c]) = (BufferText.after calls).next c := by
      simp [BufferText.after]
    rw [hafter] at hroom ⊢
    obtain ⟨s', hexec, hagrees'⟩ := BufferText.exec_agrees hagrees (hvalid c (by simp)) hroom
    refine ⟨s', ?_, hagrees'⟩
    rw [runCalls] at hrun ⊢
    rw [List.foldlM_append, hrun, ok_bind]
    simp [hexec]

/-- The buffer over a run: every append reports the length of all that was formatted since the
last restart. Once a text has been formatted behind the restart, or when the buffer showed
nothing at the restart, a reader sees exactly that text, or its first line after a dump that has
cut it. -/
theorem binBuffer_history (calls : List BufferCall) (hvalid : ∀ c ∈ calls, c.Valid)
    (hfits : FitsScreen calls) :
    ∃ s, runCalls calls = .ok s ∧
      ((BufferText.after calls).terminated = true →
        ∃ str, s.binBuffer = .ok str ∧ str.chars = (BufferText.after calls).seen) ∧
      ∀ first fmt, FitsScreen (calls ++ [.printf first fmt]) →
        ∃ s', s.binPrintf first fmt =
          .ok ((BufferText.after (calls ++ [.printf first fmt])).text.length, s') := by
  obtain ⟨s, hrun, hagrees⟩ := runCalls_agrees calls hvalid hfits
  refine ⟨s, hrun, fun hterm => ?_, fun first fmt hnext => ?_⟩
  · obtain ⟨str, hshown, hseen⟩ := hagrees.seen
    exact ⟨str, hshown.binBuffer_eq, hseen hterm⟩
  · have hafter : BufferText.after (calls ++ [.printf first fmt]) =
        (BufferText.after calls).next (.printf first fmt) := by
      simp [BufferText.after]
    have hroom := hnext _ ((List.mem_inits _ _).mpr List.prefix_rfl)
    rw [hafter] at hroom ⊢
    obtain ⟨s', hprintf, _⟩ := BufferText.printf_agrees hagrees first fmt hroom
    exact ⟨s', hprintf⟩

/-- Two lines are formatted, then one byte is dumped with them. -/
def twoLineRun : List BufferCall :=
  [.printf 1 (some (lit "name\nsize\n")), .dump 0 1 (some ⟨⟨[0x7f], 0⟩, 0⟩)]

theorem twoLineRun_valid : ∀ c ∈ twoLineRun, c.Valid := by
  intro c hc
  rcases List.mem_pair.mp hc with rfl | rfl
  · trivial
  · exact Or.inr (Or.inr ⟨⟨0, 1, ⟨⟨[0x7f], 0⟩, 0⟩, by decide, by decide, by decide⟩, rfl, rfl, rfl⟩)

theorem binBuffer_history_twoLineRun :
    ∃ s str, runCalls twoLineRun = .ok s ∧ s.binBuffer = .ok str ∧ str.chars = ascii "name" := by
  obtain ⟨s, hrun, hseen, _⟩ := binBuffer_history twoLineRun twoLineRun_valid (by decide +kernel)
  obtain ⟨str, hstr, hchars⟩ := hseen (by decide +kernel)
  exact ⟨s, str, hrun, hstr, hchars.trans (by decide +kernel)⟩

/-- A dump does change what a later reader sees: of the two lines the first is left. -/
theorem binBuffer_not_preserved :
    ¬ ∀ calls : List BufferCall, (∀ c ∈ calls, c.Valid) → FitsScreen calls →
      ∃ s str, runCalls calls = .ok s ∧ s.binBuffer = .ok str ∧
        str.chars = (BufferText.after calls).text := by
  intro h
  have hfits : FitsScreen twoLineRun := by decide +kernel
  obtain ⟨s, str, hrun, hstr, htext⟩ := h twoLineRun twoLineRun_valid hfits
  obtain ⟨s', hrun', hagrees⟩ := runCalls_agrees twoLineRun twoLineRun_valid hfits
  obtain rfl : s' = s := by rw [hrun, Except.ok.injEq] at hrun'; exact hrun'.symm
  obtain ⟨shown, hshown, hseen⟩ := hagrees.seen
  obtain rfl : shown = str := by
    rw [hshown.binBuffer_eq, Except.ok.injEq] at hstr
    exact hstr
  rw [hseen (by decide +kernel)] at htext
  revert htext
  decide +kernel

end PerfTools.Elf
