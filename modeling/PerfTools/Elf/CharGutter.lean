import PerfTools.Elf.DumpShows

/-!
# The character gutter

Right of its sixteen columns of bytes every line of the dump with characters repeats them as
characters. The tailer that holds them is cleared when a line is begun, so that line i shows the
cells of row i and nothing else, whether the row is full or not.
-/

namespace PerfTools.Elf

open Memory Printf Grid Lines

theorem gutterText_length {r : Row} (hr : r.length ≤ 16) : (gutterText r).length = 16 := by
  simp [gutterText, hr]

theorem gutterText_getElem? (r : Row) {c : Nat} (hc : c < 16) :
    (gutterText r)[c]? = some (gutterChar r[c]?.join) := by
  by_cases hcell : c < r.length
  · have hmap : c < (r.map gutterChar).length := by simpa using hcell
    rw [gutterText, List.getElem?_append_left hmap, List.getElem?_map,
      List.getElem?_eq_getElem hcell]
    rfl
  · have hmap : (r.map gutterChar).length ≤ c := by simpa using hcell
    rw [gutterText, List.getElem?_append_right hmap, List.getElem?_replicate, List.length_map,
      if_pos (by omega), List.getElem?_eq_none (by omega)]
    rfl

private theorem charLine_head (offset : Nat) {r : Row} (hr : r.length ≤ 16) :
    (label offset ++ rowText (padRow r)).length = 58 := by
  simp [padRow]
  omega

private theorem charLine_columns (offset : Nat) {r : Row} (hr : r.length ≤ 16) :
    (charLine (offset, r)).length = 76 ∧ ((charLine (offset, r)).drop 58).take 2 = ascii "| " ∧
      ∀ c < 16, (charLine (offset, r))[60 + c]? = some (gutterChar r[c]?.join) := by
  have hhead := charLine_head offset hr
  have hsep : (ascii "| ").length = 2 := rfl
  have hline : charLine (offset, r) =
      label offset ++ rowText (padRow r) ++ ascii "| " ++ gutterText r := rfl
  rw [hline]
  refine ⟨?_, ?_, fun c hc => ?_⟩
  · rw [List.length_append, List.length_append, hhead, hsep, gutterText_length hr]
  · rw [List.append_assoc, List.drop_left' hhead, List.take_left' hsep]
  · have hleft : (label offset ++ rowText (padRow r) ++ ascii "| ").length = 60 := by
      rw [List.length_append, hhead, hsep]
    rw [List.getElem?_append_right (by omega), hleft, Nat.add_sub_cancel_left]
    apply gutterText_getElem? r hc

namespace DumpArgs

variable (a : DumpArgs)

theorem char_lines :
    lines newline (unlines newline ((labelled a.base a.rows).map charLine) ++ [newline]) =
      (labelled a.base a.rows).map charLine ++ [[]] := by
  rw [lines_unlines_append]
  · rfl
  · intro l hl
    obtain ⟨p, _, rfl⟩ := List.mem_map.mp hl
    apply newline_notMem_noteLine
    exact gutterText_notMem (by decide) (fun c => (printable_ne c).2) p.2

private theorem cell_at {i c : Nat} (hc : c < 16) :
    ((a.cells.drop (16 * i)).take 16)[c]?.join =
      if a.offset.toNat ≤ a.base + 16 * i + c
        then a.data[a.base + 16 * i + c - a.offset.toNat]? else none := by
  have hbase := a.base_add_gap
  rw [List.getElem?_take_of_lt hc, List.getElem?_drop, a.cells_entry]
  split_ifs with hgap hpos hpos
  · congr 1
    omega
  · omega
  · omega
  · rfl

private theorem gutterChar_at (pos : Nat) :
    gutterChar (if a.offset.toNat ≤ pos then a.data[pos - a.offset.toNat]? else none) =
      if a.offset.toNat ≤ pos ∧ pos < a.offset.toNat + a.size.toNat
        then printable (a.data.getD (pos - a.offset.toNat) 0) else space := by
  have hlen := a.data_length
  by_cases hpos : a.offset.toNat ≤ pos
  · by_cases hlt : pos < a.offset.toNat + a.size.toNat
    · have hin : pos - a.offset.toNat < a.data.length := by omega
      rw [if_pos hpos, if_pos ⟨hpos, hlt⟩, List.getD_eq_getElem?_getD,
        List.getElem?_eq_getElem hin]
      rfl
    · have hout : a.data.length ≤ pos - a.offset.toNat := by omega
      rw [if_pos hpos, if_neg fun h => hlt h.2, List.getElem?_eq_none hout]
      rfl
  · rw [if_neg hpos, if_neg fun h => hpos h.1]
    rfl

/-- The gutter of the dump with characters: there is one line for each sixteen positions, each
of 76 characters with its separator in columns 58 and 59, and behind it column c shows the byte
of its position, or a blank where the buffer has none. -/
theorem binaryDumpWithChar_gutter (hend : a.offset.toNat + a.size.toNat ≤ 2 ^ 32) :
    ∃ t hex, binaryDumpWithChar a.offset a.size (some a.ptr) = .ok t ∧
      lines newline t = hex ++ [[]] ∧
      hex.length = rowCount 16 (a.offset.toNat % 16 + a.size.toNat) ∧
      ∀ i l, hex[i]? = some l →
        l.length = 76 ∧ (l.drop 58).take 2 = ascii "| " ∧
        labelOf l = some (a.offset.toNat / 16 * 16 + 16 * i) ∧
        ∀ c < 16, let pos := a.offset.toNat / 16 * 16 + 16 * i + c
          l[60 + c]? = some
            (if a.offset.toNat ≤ pos ∧ pos < a.offset.toNat + a.size.toNat
              then printable (a.data.getD (pos - a.offset.toNat) 0) else space) := by
  refine ⟨_, (labelled a.base a.rows).map charLine, binaryDumpWithChar_lines a, a.char_lines,
    ?_, fun i l hl => ?_⟩
  · rw [List.length_map, labelled_length, rows, rows_length, cells_length]
    rfl
  · rw [List.getElem?_map, Option.map_eq_some_iff] at hl
    obtain ⟨p, hp, rfl⟩ := hl
    obtain ⟨hlabel, hrow⟩ := a.labelled_row i hp hend
    obtain ⟨hlt, hmem⟩ := labelled_lt a.base_lt (List.mem_of_getElem? hp)
    have hlen : p.2.length ≤ 16 := a.lined.length_le hmem
    obtain ⟨hwidth, hsep, hcolumn⟩ := charLine_columns p.1 hlen
    have hshow : ShowsRow p.1 p.2 (charLine p) := showsRow_note p.1 hlen _
    refine ⟨hwidth, hsep, by rw [hshow.labelOf_eq hlt, hlabel]; rfl, fun c hc => ?_⟩
    have hcell := a.cell_at (i := i) hc
    rw [← hrow] at hcell
    have hchar := hcolumn c hc
    rw [hcell, a.gutterChar_at] at hchar
    exact hchar

end DumpArgs

/-- Bytes from the middle of one line to the middle of the next. -/
def twoPartialLines : DumpArgs where
  offset := 0x1e
  size := 5
  ptr := ⟨⟨ascii "Ab0" ++ [0, 0x7f], 0x1e⟩, 0⟩
  nonempty := by decide
  readable := by decide
  indexFits := by decide

theorem binaryDumpWithChar_gutter_twoPartialLines :
    ∃ t hex, binaryDumpWithChar twoPartialLines.offset twoPartialLines.size
        (some twoPartialLines.ptr) = .ok t ∧ lines newline t = hex ++ [[]] ∧ hex.length = 2 ∧
      ∀ l, hex[1]? = some l → l.length = 76 ∧ l[61]? = some 64 ∧ l[63]? = some space := by
  obtain ⟨t, hex, hrun, hlines, hlen, hline⟩ :=
    twoPartialLines.binaryDumpWithChar_gutter (by decide)
  refine ⟨t, hex, hrun, hlines, hlen, fun l hl => ?_⟩
  obtain ⟨hwidth, -, -, hcolumn⟩ := hline 1 l hl
  exact ⟨hwidth, hcolumn 1 (by decide), hcolumn 3 (by decide)⟩

end PerfTools.Elf
