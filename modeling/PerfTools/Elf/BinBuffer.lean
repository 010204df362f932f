import PerfTools.Elf.NoteLines

/-!
# The annotation buffer of binary_dump.c

A screen of 4096 characters, statically zero, and the index at which the next text is appended.
The annotating dumper is given the screen itself and cuts it in place.
-/

namespace PerfTools.Elf

open Memory Printf Lines

def screenMax : Nat := 4096

/-- The variables screen and buf_index. -/
structure Screen where
  chars : List UInt8
  index : Nat

namespace Screen

/-- The screen before the first call. -/
def initial : Screen := ⟨List.replicate screenMax 0, 0⟩

/-- The string that bin_buffer points to. -/
def binBuffer (s : Screen) : Except Fault CString := readString s.chars 0

def binBufferReset (s : Screen) : Screen := { s with index := 0 }

/-- The character text with its terminator written from the index on. -/
def write (s : Screen) (t : Text) : Except Fault Screen :=
  if s.index + t.length + 1 ≤ s.chars.length then
    .ok ⟨s.chars.take s.index ++ t ++ 0 :: s.chars.drop (s.index + t.length + 1),
      s.index + t.length⟩
  else .error .outOfBounds

/-- Append a formatted text; a null or empty format only reports the index. The message for an
index beyond the screen goes to the other output. -/
def binPrintf (first : Int) (fmt : Option Format) (s : Screen) : Except Fault (Int × Screen) :=
  let s := if first ≠ 0 then s.binBufferReset else s
  match fmt with
  | none => .ok (s.index, s)
  | some fmt =>
    if isEmptyFormat fmt then .ok (s.index, s)
    else if s.index > screenMax then .ok (-1, s)
    else do
      let s ← s.write (vsprintf fmt).chars
      return (s.index, s)

/-- The annotating dumper with the screen as its string. -/
def dump (offset size : UInt32) (buf : Option Ptr) (s : Screen) : Except Fault (Text × Screen) := do
  let (t, chars) ← binaryDumpWithString offset size buf s.chars (some 0)
  return (t, { s with chars })

/-- The string str is what the screen shows. -/
def Shows (s : Screen) (str : CString) : Prop := ∃ rest, s.chars = str.chars ++ 0 :: rest

variable {s : Screen}

theorem Shows.binBuffer_eq {str : CString} (h : s.Shows str) : s.binBuffer = .ok str := by
  obtain ⟨rest, hrest⟩ := h
  exact readString_of_drop hrest

theorem initial_shows : initial.Shows ⟨[], by simp⟩ := ⟨List.replicate 4095 0, rfl⟩

theorem write_shows {str t : CString} (h : s.chars.take s.index = str.chars)
    (hroom : s.index + t.chars.length < s.chars.length) :
    ∃ s', s.write t.chars = .ok s' ∧ s'.index = s.index + t.chars.length ∧
      s'.chars.length = s.chars.length ∧
      s'.Shows ⟨str.chars ++ t.chars, by simpa [str.nulFree] using t.nulFree⟩ := by
  refine ⟨_, if_pos hroom, rfl, ?_, s.chars.drop (s.index + t.chars.length + 1), ?_⟩
  · simp
    omega
  · rw [h]

theorem write_hidden {str : CString} {t : Text} (h : s.Shows str)
    (hindex : str.chars.length < s.index) (hroom : s.index + t.length < s.chars.length) :
    ∃ s', s.write t = .ok s' ∧ s'.index = s.index + t.length ∧
      s'.chars.length = s.chars.length ∧ s'.Shows str := by
  obtain ⟨rest, hrest⟩ := h
  refine ⟨_, if_pos hroom, rfl, ?_, rest.take (s.index - str.chars.length - 1) ++
    (t ++ 0 :: s.chars.drop (s.index + t.length + 1)), ?_⟩
  · simp
    omega
  · have htake : s.chars.take s.index =
        str.chars ++ 0 :: rest.take (s.index - str.chars.length - 1) := by
      rw [hrest, List.take_append, List.take_of_length_le (by omega),
        show s.index - str.chars.length = s.index - str.chars.length - 1 + 1 by omega,
        List.take_succ_cons]
      simp
    simp only [htake, List.append_assoc, List.cons_append]

theorem dump_shows {str : CString} (h : s.Shows str) (a : DumpArgs) :
    ∃ s', s.dump a.offset a.size (some a.ptr) =
        .ok (unlines newline (noteLines a.base a.rows (lines newline str.chars)), s') ∧
      s'.index = s.index ∧ s'.chars.length = s.chars.length ∧
      ∃ shown : CString, s'.Shows shown ∧ shown.chars = str.chars.takeWhile (· ≠ newline) := by
  obtain ⟨rest, hrest⟩ := h
  have hrun := binaryDumpWithString_lines a str rest
  rw [← hrest] at hrun
  refine ⟨⟨str.chars.map cutByte ++ 0 :: rest, s.index⟩, by rw [dump, hrun]; rfl, rfl,
    by simp [hrest], ?_⟩
  by_cases hnl : newline ∈ str.chars
  · obtain ⟨l, m, hsplit, hl⟩ := List.eq_append_cons_of_mem hnl
    have hnul : 0 ∉ l := fun hm => str.nulFree (by simp [hsplit, hm])
    refine ⟨⟨l, hnul⟩, ⟨m.map cutByte ++ 0 :: rest, ?_⟩, ?_⟩
    · simp [hsplit, map_cutByte hl, cutByte]
    · rw [hsplit, takeWhile_append_stop _ (by simp)]
      intro b hb
      simpa using fun e : b = newline => hl (e ▸ hb)
  · refine ⟨str, ⟨rest, by rw [map_cutByte hnl]⟩, ?_⟩
    rw [eq_comm, List.takeWhile_eq_self_iff]
    intro b hb
    simpa using fun e : b = newline => hnl (e ▸ hb)

theorem dump_readable {offset size : UInt32} {p : Ptr} {x : Text × Screen}
    (hsize : size.toNat < 2 ^ 31) (h : s.dump offset size (some p) = .ok x) :
    size.toNat ≤ p.tail.length := by
  unfold dump at h
  rcases hrun : binaryDumpWithString offset size (some p) s.chars (some 0) with e | y
  · rw [hrun] at h
    cases h
  · exact binaryDumpWithString_readable hsize hrun

end Screen

end PerfTools.Elf
