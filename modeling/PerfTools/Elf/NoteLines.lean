import PerfTools.Elf.DumpLines

/-!
# Lines of the annotated dump

The annotating dumper cuts its string at the newlines, one cut for each line of bytes and one
for each line after them. `Noted` describes the memory between two cuts: the part already
printed, with its newlines overwritten, and the part to come. From it follow the lines that are
printed, `noteLines`, and what is left of the string in memory.
-/

namespace PerfTools.Elf

open Memory Printf Grid Lines

/-- What a cut does to one byte of the string. -/
def cutByte (b : UInt8) : UInt8 := if b = newline then 0 else b

theorem map_cutByte {l : List UInt8} (hl : newline ∉ l) : l.map cutByte = l := by
  have hid : ∀ b ∈ l, cutByte b = id b := by
    intro b hb
    have hne : b ≠ newline := fun h => hl (h ▸ hb)
    simp [cutByte, hne]
  simpa using List.map_congr_left hid

/-- The cursor stands behind pre, before the string s and its terminator; behind the last line
of a string that does not end in a newline both cursors are null. -/
structure Noted (pre s rest : List UInt8) (c : NoteCursor) : Prop where
  mem : c.mem = pre ++ s ++ 0 :: rest
  nulFree : 0 ∉ s
  cursor : (c.head = some pre.length ∧ c.tail = some pre.length) ∨ (c.head = none ∧ s = [])

namespace Noted

variable {pre s rest : List UInt8} {c : NoteCursor}

theorem more_eq (h : Noted pre s rest c) : c.more = .ok (decide (s ≠ [])) := by
  rcases h.cursor with ⟨hhead, _⟩ | ⟨hhead, hs⟩
  · cases s with
    | nil => simp [NoteCursor.more, hhead, h.mem]
    | cons b bs =>
      have hb : b ≠ 0 := fun e => h.nulFree (by simp [e])
      simp [NoteCursor.more, hhead, h.mem, hb]
  · simp [NoteCursor.more, hhead, hs]

theorem cut_eq (h : Noted pre s rest c) (hs : s ≠ []) :
    ∃ l s' pre' c', c.cut = .ok (l, c') ∧ Noted pre' s' rest c' ∧
      lines newline s = l :: lines newline s' ∧ pre' ++ s'.map cutByte = pre ++ s.map cutByte ∧
      s'.length < s.length := by
  obtain ⟨hhead, htail⟩ : c.head = some pre.length ∧ c.tail = some pre.length := by
    rcases h.cursor with hc | ⟨_, hnil⟩
    · exact hc
    · exact absurd hnil hs
  have hdrop : c.mem.drop pre.length = s ++ 0 :: rest := by
    rw [h.mem, List.append_assoc, List.drop_left]
  rcases exists_line newline hs with ⟨hnl, hlines⟩ | ⟨l, s', hnl, rfl, hlines⟩
  · have hmap := map_cutByte hnl
    refine ⟨s, [], pre ++ s, ⟨c.mem, none, none⟩, ?_, ?_, hlines, by simp [hmap], ?_⟩
    · have hstr := strchr_missing hdrop h.nulFree hnl (by decide)
      have hread := readString_of_drop (s := ⟨s, h.nulFree⟩) hdrop
      simp only [NoteCursor.cut, hhead, htail, hstr, hread, ok_bind, pure_eq_ok]
    · exact ⟨by simp [h.mem], by simp, Or.inr ⟨rfl, rfl⟩⟩
    · simpa using List.length_pos_iff.mpr hs
  · have hl : 0 ∉ l := fun hm => h.nulFree (by simp [hm])
    have hs' : 0 ∉ s' := fun hm => h.nulFree (by simp [hm])
    have hmap := map_cutByte hnl
    have hset : c.mem.set (pre.length + l.length) 0 = pre ++ l ++ 0 :: (s' ++ 0 :: rest) := by
      simp [h.mem]
    refine ⟨l, s', pre ++ l ++ [0], ⟨c.mem.set (pre.length + l.length) 0,
      some (pre.length + l.length + 1), some (pre.length + l.length + 1)⟩, ?_, ?_, hlines, ?_, ?_⟩
    · have hfound := strchr_found (t := s' ++ 0 :: rest) (by simpa using hdrop) hl hnl
      have hcut : (c.mem.set (pre.length + l.length) 0).drop pre.length =
          l ++ 0 :: (s' ++ 0 :: rest) := by
        rw [hset, List.append_assoc, List.drop_left]
      have hread := readString_of_drop (s := ⟨l, hl⟩) hcut
      simp only [NoteCursor.cut, hhead, htail, hfound, hread, ok_bind, pure_eq_ok]
    · refine ⟨by simp [hset], hs', Or.inl ⟨?_, ?_⟩⟩ <;> simp [Nat.add_assoc]
    · simp [hmap, cutByte]
    · simp
      omega

end Noted

/-- The lines that carry bytes, given the annotation lines. A full line shows its annotation
behind the separator; a partial last one ends with its bytes. -/
def stringLines : Nat → List Row → List Text → List Text
  | _, [], _ => []
  | offset, r :: rs, as =>
    (if r.length = 16 then noteLine offset r (as.headD []) else label offset ++ rowText r) ::
      stringLines ((offset + 16) % 2 ^ 32) rs as.tail

/-- The annotation lines that found no line with bytes, and the blank line behind them. -/
def overflow (as : List Text) : List Text := indented as ++ [[]]

/-- All lines of the annotated dump. When the bytes end on a full line and annotations are left,
the first of them is printed on that line, behind the one that belongs there. -/
def noteLines : Nat → List Row → List Text → List Text
  | _, [], _ => []
  | offset, [r], as =>
    match as with
    | [] => if r.length = 16 then [noteLine offset r []] else [label offset ++ rowText r]
    | [x] =>
      if r.length = 16 then [noteLine offset r x] else noteLine offset (padRow r) x :: overflow []
    | x :: y :: more =>
      if r.length = 16 then noteLine offset r (x ++ y) :: overflow more
      else noteLine offset (padRow r) x :: overflow (y :: more)
  | offset, r :: rs, as =>
    noteLine offset r (as.headD []) :: noteLines ((offset + 16) % 2 ^ 32) rs as.tail

/-- What the code after the loop prints for the annotations that are left. -/
private def noteTail (postGap : Nat) : List Text → Text
  | [] => [newline]
  | x :: more =>
    (if postGap ≠ 0 then postGapPad postGap else []) ++ x ++ [newline] ++
      unlines newline (overflow more)

private theorem stringLines_tail {rs : List Row} (h : Lined rs) (hne : rs ≠ []) (offset : Nat)
    (as : List Text) :
    joined newline (stringLines offset rs as) ++
        noteTail (rs.flatten.length % 16) (as.drop (rs.flatten.length / 16)) =
      unlines newline (noteLines offset rs as) := by
  induction h generalizing offset as with
  | nil => contradiction
  | last r hr hlen =>
    have hlen' : r.length ≠ 16 := by omega
    have hpos : r.length ≠ 0 := by simpa using hr
    have hmod := Nat.mod_eq_of_lt hlen
    have hdiv := Nat.div_eq_of_lt hlen
    rcases as with _ | ⟨x, _ | ⟨y, more⟩⟩ <;>
      simp [stringLines, noteLines, noteTail, hlen', hmod, hdiv, hpos, postGapPad_eq hlen,
        noteLine, padRow_text]
  | full r b rs hlen hrs ih =>
    have hfull : (r ++ [some b]).length = 16 := by simp [hlen]
    have hmod : ((r ++ [some b]) :: rs).flatten.length % 16 = rs.flatten.length % 16 := by
      rw [List.flatten_cons, List.length_append, hfull, Nat.add_mod_left]
    have hdiv : ((r ++ [some b]) :: rs).flatten.length / 16 = rs.flatten.length / 16 + 1 := by
      rw [List.flatten_cons, List.length_append, hfull, Nat.add_div_left _ (by decide)]
    rw [hmod, hdiv]
    cases rs with
    | nil =>
      rcases as with _ | ⟨x, _ | ⟨y, more⟩⟩ <;>
        simp [stringLines, noteLines, noteTail, hlen, noteLine]
    | cons r' rs =>
      have hstep := ih (by simp) ((offset + 16) % 2 ^ 32) as.tail
      have hlines : stringLines ((offset + 16) % 2 ^ 32) (r' :: rs) as.tail ≠ [] := by
        simp [stringLines]
      rw [stringLines, if_pos hfull, noteLines, joined_cons _ hlines, unlines_cons, ← hstep,
        List.drop_tail]
      · simp
      · simp

private theorem stringGutter_line {pre s rest : List UInt8} {c : NoteCursor}
    (h : Noted pre s rest c) {r : Row} (b : UInt8) (hr : r.length = 15) :
    ∃ s' pre' c', stringGutter.line 0 (r ++ [some b]) c =
        .ok (ascii " | " ++ (lines newline s).headD [], c') ∧ Noted pre' s' rest c' ∧
      lines newline s' = (lines newline s).tail ∧
      pre' ++ s'.map cutByte = pre ++ s.map cutByte := by
  rw [Gutter.line_full _ b _ (by omega), Gutter.cells_const (fun _ _ _ => rfl)]
  by_cases hs : s = []
  · refine ⟨s, pre, c, ?_, h, by simp [hs], rfl⟩
    simp [stringGutter, h.more_eq, hs]
  · obtain ⟨l, s', pre', c', hcut, hc', hlines, hmem, _⟩ := h.cut_eq hs
    refine ⟨s', pre', c', ?_, hc', by simp [hlines], hmem⟩
    simp [stringGutter, h.more_eq, hs, hcut, hlines]

private theorem dumpRows_string {rs : List Row} (hrs : Lined rs) (hne : rs ≠ []) (offset : Nat)
    {pre s rest : List UInt8} {c : NoteCursor} (h : Noted pre s rest c) :
    ∃ s' pre' c', dumpRows stringGutter offset rs c =
        .ok (joined newline (stringLines offset rs (lines newline s)), c') ∧
      Noted pre' s' rest c' ∧
      lines newline s' = (lines newline s).drop (rs.flatten.length / 16) ∧
      pre' ++ s'.map cutByte = pre ++ s.map cutByte := by
  induction hrs generalizing offset pre s c with
  | nil => contradiction
  | last r hr hlen =>
    have hlen' : r.length ≠ 16 := by omega
    refine ⟨s, pre, c, ?_, h, by simp [Nat.div_eq_of_lt hlen], rfl⟩
    simp [dumpRows, hlen', Gutter.cells_const (g := stringGutter) (fun _ _ _ => rfl), stringLines]
  | full r b rs hlen hrs ih =>
    have hfull : (r ++ [some b]).length = 16 := by simp [hlen]
    have hdiv : ((r ++ [some b]) :: rs).flatten.length / 16 = rs.flatten.length / 16 + 1 := by
      rw [List.flatten_cons, List.length_append, hfull, Nat.add_div_left _ (by decide)]
    obtain ⟨s₁, pre₁, c₁, hline, hc₁, hlines₁, hmem₁⟩ := stringGutter_line h b hlen
    rw [dumpRows, if_pos hfull, hline, ok_bind, hdiv]
    by_cases hnil : rs = []
    · refine ⟨s₁, pre₁, c₁, ?_, hc₁, by simp [hlines₁, hnil], hmem₁⟩
      simp [hnil, stringLines, hlen, full_row_text, noteLine]
    · obtain ⟨s₂, pre₂, c₂, hrun, hc₂, hlines₂, hmem₂⟩ := ih hnil ((offset + 16) % 2 ^ 32) hc₁
      have hnext : stringGutter.next c₁ = c₁ := rfl
      have hne' : stringLines ((offset + 16) % 2 ^ 32) rs (lines newline s).tail ≠ [] := by
        obtain ⟨r', rs', rfl⟩ := List.exists_cons_of_ne_nil hnil
        simp [stringLines]
      rw [hlines₁] at hrun hlines₂
      refine ⟨s₂, pre₂, c₂, ?_, hc₂, by rw [hlines₂, List.drop_tail], hmem₂.trans hmem₁⟩
      simp only [hnil, if_false, hnext, hrun, ok_bind, pure_eq_ok, stringLines, joined_cons _ hne']
      simp [hlen, full_row_text, noteLine]

private theorem noteRest_eq {n : Nat} {pre s rest : List UInt8} {c : NoteCursor}
    (h : Noted pre s rest c) (hn : s.length < n) :
    ∃ c', noteRest n c = .ok (unlines newline (indented (lines newline s)), c') ∧
      c'.mem = pre ++ s.map cutByte ++ 0 :: rest := by
  induction n generalizing pre s c with
  | zero => omega
  | succ n ih =>
    by_cases hs : s = []
    · refine ⟨c, ?_, by simp [h.mem, hs]⟩
      simp [noteRest, h.more_eq, hs, indented]
    · obtain ⟨l, s', pre', c', hcut, hc', hlines, hmem, hlt⟩ := h.cut_eq hs
      obtain ⟨c₂, hrun, hmem₂⟩ := ih hc' (by omega)
      refine ⟨c₂, ?_, by rw [hmem₂, hmem]⟩
      simp [noteRest, h.more_eq, hs, hcut, hrun, hlines, indented]

private theorem postGapNote_rest {n j : Nat} {pre s rest : List UInt8} {c : NoteCursor}
    (h : Noted pre s rest c) (hn : s.length < n) :
    ∃ x c₁ y c₂, postGapNote c j = .ok (x, c₁) ∧ noteRest n c₁ = .ok (y, c₂) ∧
      x ++ y ++ [newline] = noteTail (j % 16) (lines newline s) ∧
      c₂.mem = pre ++ s.map cutByte ++ 0 :: rest := by
  by_cases hs : s = []
  · obtain ⟨c₂, hrun, hmem⟩ := noteRest_eq h hn
    refine ⟨[], c, _, c₂, ?_, hrun, ?_, hmem⟩
    · simp [postGapNote, h.more_eq, hs]
    · simp [hs, noteTail, indented]
  · obtain ⟨l, s', pre', c', hcut, hc', hlines, hmem, hlt⟩ := h.cut_eq hs
    obtain ⟨c₂, hrun, hmem₂⟩ := noteRest_eq hc' (show s'.length < n by omega)
    refine ⟨(if j % 16 ≠ 0 then postGapPad (j % 16) else []) ++ l ++ [newline], c', _, c₂, ?_, hrun,
      ?_, by rw [hmem₂, hmem]⟩
    · simp only [postGapNote, h.more_eq, hs, hcut, ok_bind, pure_eq_ok, ne_eq, not_false_eq_true,
        decide_true, if_true]
    · simp [hlines, noteTail, overflow, unlines_append]

/-- The annotated dump: its lines, and the string's memory with every newline overwritten. -/
theorem binaryDumpWithString_lines (a : DumpArgs) (str : CString) (rest : List UInt8) :
    binaryDumpWithString a.offset a.size (some a.ptr) (str.chars ++ 0 :: rest) (some 0) =
      .ok (unlines newline (noteLines a.base a.rows (lines newline str.chars)),
        str.chars.map cutByte ++ 0 :: rest) := by
  have hstart : Noted [] str.chars rest ⟨str.chars ++ 0 :: rest, some 0, some 0⟩ :=
    ⟨rfl, str.nulFree, Or.inl ⟨rfl, rfl⟩⟩
  obtain ⟨s, pre, c, hrun, hc, hlines, hmem⟩ :=
    dumpRows_string a.lined a.rows_ne_nil a.base hstart
  have hlen : s.length < (str.chars ++ 0 :: rest).length + 1 := by
    have hl := congrArg List.length hmem
    simp only [List.length_append, List.length_map, List.length_nil, List.length_cons] at hl ⊢
    omega
  obtain ⟨x, c₁, y, c₂, hnote, hrest, htext, hmem₂⟩ :=
    postGapNote_rest (j := a.gap + a.size.toNat) hc hlen
  have htail := stringLines_tail a.lined a.rows_ne_nil a.base (lines newline str.chars)
  rw [a.rows_flatten, a.cells_length] at htail hlines
  rw [← htail, ← hlines, ← htext]
  simp only [binaryDumpWithString, if_neg a.size_ne_zero, dumpBody_rows, hrun, ok_bind, pure_eq_ok,
    hnote, hrest, hmem₂, hmem]
  simp

theorem binaryDumpWithString_overflow (offset size : UInt32) (p : Ptr) (mem : List UInt8)
    (str : Option Nat) (hsize : size.toNat < 2 ^ 31)
    (h : 2 ^ 31 ≤ offset.toNat % 16 + size.toNat) :
    ∃ e, binaryDumpWithString offset size (some p) mem str = .error e := by
  have hne : size ≠ 0 := by
    rintro rfl
    have hgap := Nat.mod_lt offset.toNat (show 0 < 16 by decide)
    simp at h
    omega
  obtain ⟨e, he⟩ := dumpBody_fails stringGutter offset p ⟨mem, str, str⟩ hsize (Or.inl h)
  exact ⟨e, by simp only [binaryDumpWithString, if_neg hne, he, error_bind]⟩

theorem binaryDumpWithString_readable {offset size : UInt32} {p : Ptr} {mem : List UInt8}
    {str : Option Nat} {x : Text × List UInt8} (hsize : size.toNat < 2 ^ 31)
    (h : binaryDumpWithString offset size (some p) mem str = .ok x) :
    size.toNat ≤ p.tail.length := by
  by_contra hshort
  have hne : size ≠ 0 := by
    rintro rfl
    exact hshort (Nat.zero_le _)
  obtain ⟨e, he⟩ := dumpBody_fails stringGutter offset p ⟨mem, str, str⟩ hsize
    (Or.inr (Nat.lt_of_not_le hshort))
  simp only [binaryDumpWithString, if_neg hne, he, error_bind] at h
  cases h

end PerfTools.Elf
