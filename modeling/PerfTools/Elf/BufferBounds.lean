import PerfTools.Elf.BufferHistory

/-!
# The bounds of the annotation buffer

bin_printf looks at the index before it formats and leaves the length of the text to vsprintf.
An append therefore stays inside the buffer exactly when the text and its terminator fit behind
the text of the calls since the last restart; the return value -1 is never reached.
-/

namespace PerfTools.Elf

open Memory Printf

namespace Screen

/-- The characters that a call formats. -/
def appended : Option Format → Text
  | none => []
  | some fmt => if isEmptyFormat fmt then [] else (vsprintf fmt).chars

/-- The text of the call and its terminator have room in the buffer. -/
def HasRoom (s : Screen) (first : Int) (fmt : Option Format) : Prop :=
  (if first ≠ 0 then 0 else s.index) + (appended fmt).length < screenMax

/-- No character is stored outside the buffer, and a text without room is refused: the result
is -1, the characters and the index are those of before. -/
structure Bounded (s : Screen) (first : Int) (fmt : Option Format) : Prop where
  inside : ∃ r s', s.binPrintf first fmt = .ok (r, s') ∧ s'.chars.length = s.chars.length
  refused : ¬s.HasRoom first fmt → s.binPrintf first fmt = .ok (-1, s)

end Screen

/-- Every append of the run is reached and bounded. -/
def RunBounded (calls : List BufferCall) : Prop :=
  ∀ p first fmt, p ++ [.printf first fmt] <+: calls →
    ∃ s, runCalls p = .ok s ∧ s.Bounded first fmt

namespace BufferText

variable {g : BufferText} {s : Screen}

private theorem next_printf_text (g : BufferText) (first : Int) (fmt : Option Format) :
    (g.next (.printf first fmt)).text =
      (if first ≠ 0 then [] else g.text) ++ Screen.appended fmt := by
  have hstart : (if first ≠ 0 then g.restart else g).text = if first ≠ 0 then [] else g.text := by
    split_ifs <;> rfl
  cases fmt with
  | none => simp only [next, printf, hstart, Screen.appended, List.append_nil]
  | some fmt =>
    simp only [next, printf, Screen.appended]
    split_ifs <;> simp_all

private theorem hasRoom_iff (h : g.Agrees s) (first : Int) (fmt : Option Format) :
    s.HasRoom first fmt ↔ (g.next (.printf first fmt)).text.length < screenMax := by
  have hindex := h.index
  rw [Screen.HasRoom, next_printf_text, List.length_append]
  split_ifs
  · rfl
  · rw [hindex]

private theorem hasRoom_of_ok (h : g.Agrees s) (hlt : g.text.length < screenMax) {first : Int}
    {fmt : Option Format} {r : Int} {s' : Screen} (hrun : s.binPrintf first fmt = .ok (r, s')) :
    s.HasRoom first fmt := by
  have hlength := h.length
  have hindex := h.index
  unfold Screen.HasRoom
  cases fmt with
  | none =>
    simp only [Screen.appended, List.length_nil, Nat.add_zero]
    split_ifs <;> omega
  | some fmt =>
    by_cases hempty : isEmptyFormat fmt
    · simp only [Screen.appended, hempty, if_true, List.length_nil, Nat.add_zero]
      split_ifs <;> omega
    · have hstart : (if first ≠ 0 then s.binBufferReset else s).index =
          if first ≠ 0 then 0 else s.index := by
        split_ifs <;> rfl
      have hchars : (if first ≠ 0 then s.binBufferReset else s).chars = s.chars := by
        split_ifs <;> rfl
      have hmax : ¬(if first ≠ 0 then s.binBufferReset else s).index > screenMax := by
        rw [hstart]
        split_ifs <;> omega
      simp only [Screen.binPrintf, hempty, Bool.false_eq_true, if_false,
        Screen.write, hstart, hchars] at hrun
      simp only [Screen.appended, hempty, Bool.false_eq_true, if_false]
      split_ifs at hrun ⊢ with hfits <;> simp_all
      all_goals omega

end BufferText

private theorem FitsScreen.initial {p calls : List BufferCall} (h : FitsScreen calls)
    (hp : p <+: calls) : FitsScreen p := fun q hq =>
  h q ((List.mem_inits _ _).mpr (((List.mem_inits _ _).mp hq).trans hp))

private theorem FitsScreen.last {calls : List BufferCall} (h : FitsScreen calls) :
    (BufferText.after calls).text.length < screenMax :=
  h calls ((List.mem_inits _ _).mpr List.prefix_rfl)

private theorem fitsScreen_concat {calls : List BufferCall} {c : BufferCall}
    (h : FitsScreen calls) (hlast : (BufferText.after (calls ++ [c])).text.length < screenMax) :
    FitsScreen (calls ++ [c]) := by
  intro p hp
  rcases List.prefix_concat_iff.mp ((List.mem_inits _ _).mp hp) with hp | hp
  · rw [hp]
    exact hlast
  · exact h p ((List.mem_inits _ _).mpr hp)

private theorem after_concat (calls : List BufferCall) (c : BufferCall) :
    BufferText.after (calls ++ [c]) = (BufferText.after calls).next c := by
  simp [BufferText.after]

private theorem fitsScreen_of_bounded (calls : List BufferCall) (hvalid : ∀ c ∈ calls, c.Valid)
    (h : RunBounded calls) : FitsScreen calls := by
  induction calls using List.reverseRecOn with
  | nil =>
    intro p hp
    rw [List.prefix_nil.mp ((List.mem_inits _ _).mp hp)]
    decide
  | append_singleton calls c ih =>
    have hvalid' : ∀ c' ∈ calls, c'.Valid := fun c' hc' => hvalid c' (by simp [hc'])
    have hfits := ih hvalid' fun p first fmt hp => h p first fmt (hp.trans (List.prefix_append _ _))
    apply fitsScreen_concat hfits
    have hlast := hfits.last
    rw [after_concat]
    cases c with
    | reset => exact Nat.zero_lt_of_lt hlast
    | printf first fmt =>
      obtain ⟨s, hrun, hbounded⟩ := h calls first fmt List.prefix_rfl
      obtain ⟨s', hrun', hagrees⟩ := runCalls_agrees calls hvalid' hfits
      obtain rfl : s' = s := by
        rw [hrun, Except.ok.injEq] at hrun'
        exact hrun'.symm
      obtain ⟨r, t, hok, -⟩ := hbounded.inside
      exact (BufferText.hasRoom_iff hagrees first fmt).mp
        (BufferText.hasRoom_of_ok hagrees hlast hok)
    | dump offset size buf =>
      rw [BufferText.next]
      split_ifs
      · exact hlast
      · exact hlast

private theorem bounded_of_fitsScreen (calls : List BufferCall) (hvalid : ∀ c ∈ calls, c.Valid)
    (h : FitsScreen calls) : RunBounded calls := by
  intro p first fmt hp
  have hcalls := (List.prefix_append p [BufferCall.printf first fmt]).trans hp
  obtain ⟨s, hrun, hagrees⟩ := runCalls_agrees p (fun c hc => hvalid c (hcalls.subset hc))
    (h.initial hcalls)
  have hnext := (h.initial hp).last
  rw [after_concat] at hnext
  obtain ⟨s', hprintf, hagrees'⟩ := BufferText.printf_agrees hagrees first fmt hnext
  refine ⟨s, hrun, ⟨_, s', hprintf, hagrees'.length.trans hagrees.length.symm⟩, fun hroom => ?_⟩
  exact absurd ((BufferText.hasRoom_iff hagrees first fmt).mpr hnext) hroom

/-- The appends of a run are bounded exactly when the text since the last restart always fits. -/
theorem runBounded_iff (calls : List BufferCall) (hvalid : ∀ c ∈ calls, c.Valid) :
    RunBounded calls ↔ FitsScreen calls :=
  ⟨fitsScreen_of_bounded calls hvalid, bounded_of_fitsScreen calls hvalid⟩

/-! ## A name as long as the buffer -/

/-- A name of 4096 characters, printed in the way that section names are. -/
def longName : List BufferCall :=
  [.printf 0 (some [.str 0 ⟨List.replicate screenMax 97, by simp⟩])]

private theorem longName_valid : ∀ c ∈ longName, c.Valid := by
  intro c hc
  rw [List.mem_singleton.mp hc]
  trivial

theorem runBounded_iff_longName : RunBounded longName ↔ FitsScreen longName :=
  runBounded_iff longName longName_valid

/-- Its terminator is stored behind the buffer. -/
theorem longName_not_bounded : (∀ c ∈ longName, c.Valid) ∧ ¬RunBounded longName := by
  refine ⟨longName_valid, fun h => ?_⟩
  have hfits := fitsScreen_of_bounded longName longName_valid h
  have hlast := hfits.last
  revert hlast
  decide +kernel

end PerfTools.Elf
