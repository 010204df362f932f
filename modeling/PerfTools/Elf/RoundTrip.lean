import PerfTools.Elf.DumpShows

/-!
# Round trip and agreement of the dumpers

A plain dump is read back column by column: each line carries a multiple of sixteen as its
label, and an entry stands exactly where the buffer has a byte. The annotated dumps differ from
it only right of the separator and in lines without a label.
-/

namespace PerfTools.Elf

open Memory Printf Grid Lines

namespace DumpArgs

variable (a : DumpArgs)

private theorem decode_of_shows {a : DumpArgs} {t : Text} (h : a.Shows t)
    (hend : a.offset.toNat + a.size.toNat ≤ 2 ^ 32) :
    decode t = some (a.offset.toNat, a.data) := by
  have hdata := h.decodeDump_eq hend
  have hne : a.data ≠ [] := by
    intro hnil
    have hlen := a.data_length
    have hpos := a.nonempty
    simp only [hnil, List.length_nil] at hlen
    omega
  obtain ⟨b, bs, hcons⟩ := List.exists_cons_of_ne_nil hne
  rw [decode, hdata, List.zipIdx_map_fst, hcons, List.zipIdx_cons, List.head?_cons, Option.map_some]

private theorem plain_line {i : Nat} {line : Text}
    (hline : ((labelled a.base a.rows).map plainLine)[i]? = some line)
    (hend : a.offset.toNat + a.size.toNat ≤ 2 ^ 32) :
    labelOf line = some (a.base + 16 * i) ∧ ∀ c < 16, entryAt line c =
      if a.gap ≤ 16 * i + c then a.data[16 * i + c - a.gap]? else none := by
  rw [List.getElem?_map, Option.map_eq_some_iff] at hline
  obtain ⟨p, hp, rfl⟩ := hline
  obtain ⟨hlabel, hrow⟩ := a.labelled_row i hp hend
  have hlt := (labelled_lt a.base_lt (List.mem_of_getElem? hp)).1
  have hshow := showsRow_plain p
  refine ⟨by rw [hshow.labelOf_eq hlt, hlabel], fun c hc => ?_⟩
  rw [hshow.entryAt_eq hc, hrow, List.getElem?_take_of_lt hc, List.getElem?_drop, a.cells_entry]

/-- The plain dump is read back exactly: the lines are labelled from offset / 16 * 16 in steps
of sixteen, the entry in a column is there exactly for the positions of the buffer, and no other
arguments print the same text. The last of the lines is the blank one that ends every dump. -/
theorem binaryDump_roundTrip (hend : a.offset.toNat + a.size.toNat ≤ 2 ^ 32) :
    ∃ t hex, binaryDump a.offset a.size (some a.ptr) = .ok t ∧
      decode t = some (a.offset.toNat, a.data) ∧
      lines newline t = hex ++ [[]] ∧
      hex.length = rowCount 16 (a.offset.toNat % 16 + a.size.toNat) ∧
      (∀ i line, hex[i]? = some line →
        labelOf line = some (a.offset.toNat / 16 * 16 + 16 * i) ∧
        ∀ c < 16, let pos := a.offset.toNat / 16 * 16 + 16 * i + c
          ((entryAt line c).isSome ↔
            a.offset.toNat ≤ pos ∧ pos < a.offset.toNat + a.size.toNat) ∧
          (a.offset.toNat ≤ pos → entryAt line c = a.data[pos - a.offset.toNat]?)) ∧
      ∀ b : DumpArgs, b.offset.toNat + b.size.toNat ≤ 2 ^ 32 →
        binaryDump b.offset b.size (some b.ptr) = .ok t → b.offset = a.offset ∧ b.data = a.data := by
  have hdecode := decode_of_shows a.plain_shows hend
  refine ⟨_, (labelled a.base a.rows).map plainLine, binaryDump_lines a, hdecode, a.plain_lines,
    ?_, fun i line hline => ?_, fun b hb hrun => ?_⟩
  · rw [List.length_map, labelled_length, rows, rows_length, cells_length]
    rfl
  · obtain ⟨hlabel, hentry⟩ := a.plain_line hline hend
    refine ⟨hlabel, fun c hc => ?_⟩
    have hbase : a.offset.toNat / 16 * 16 + a.gap = a.offset.toNat := a.base_add_gap
    have hlen := a.data_length
    have hentry' := hentry c hc
    have hle : a.gap ≤ 16 * i + c ↔ a.offset.toNat ≤ a.offset.toNat / 16 * 16 + 16 * i + c := by
      omega
    constructor
    · rw [hentry']
      split_ifs with h
      · rw [isSome_getElem?, hlen]
        omega
      · simp
        omega
    · intro hpos
      rw [hentry', if_pos (by omega)]
      congr 1
      omega
  · rw [binaryDump_lines b, Except.ok.injEq] at hrun
    have hb' := decode_of_shows b.plain_shows hb
    rw [hrun, hdecode, Option.some_inj, Prod.mk.injEq] at hb'
    exact ⟨UInt32.toNat_inj.mp hb'.1.symm, hb'.2.symm⟩

/-- The dumpers agree on the bytes: left of the separator they print the same lines, and each
text reads back as the buffer. Comments are printed as formats and must not hold a directive. -/
theorem dumpers_agree (hend : a.offset.toNat + a.size.toNat ≤ 2 ^ 32) (str : CString)
    (rest : List UInt8) (argv : List CString)
    (hargv : ∀ arg ∈ argv, percent ∉ arg.chars ∧ newline ∉ arg.chars) :
    ∃ plain char comment string mem,
      binaryDump a.offset a.size (some a.ptr) = .ok plain ∧
      binaryDumpWithChar a.offset a.size (some a.ptr) = .ok char ∧
      binaryDumpWithComment a.offset a.size (some a.ptr) argv.length argv = .ok comment ∧
      binaryDumpWithString a.offset a.size (some a.ptr) (str.chars ++ 0 :: rest) (some 0) =
        .ok (string, mem) ∧
      ∀ t ∈ [char, comment, string], hexParts t = hexParts plain ∧
        decodeDump t = a.data.zipIdx a.offset.toNat := by
  have hcomment := binaryDumpWithComment_lines (fun arg harg => (hargv arg harg).1) a
  have hshows : ∀ t, a.Shows t → hexParts t =
      hexParts (unlines newline ((labelled a.base a.rows).map plainLine) ++ [newline]) ∧
      decodeDump t = a.data.zipIdx a.offset.toNat := fun t ht =>
    ⟨by rw [ht.hexParts_eq, a.plain_shows.hexParts_eq], ht.decodeDump_eq hend⟩
  refine ⟨_, _, _, _, _, binaryDump_lines a, binaryDumpWithChar_lines a, hcomment,
    binaryDumpWithString_lines a str rest, ?_⟩
  intro t ht
  simp only [List.mem_cons, List.not_mem_nil, or_false] at ht
  rcases ht with rfl | rfl | rfl
  · exact hshows _ a.char_shows
  · exact hshows _ (a.comment_shows (fun arg harg => (hargv arg harg).2) _)
  · exact hshows _ (a.string_shows str)

end DumpArgs

/-- Twenty bytes from the middle of one line to the end of the next. -/
def twoLines : DumpArgs where
  offset := 0x3c
  size := 20
  ptr := ⟨⟨(List.range 20).map fun k => UInt8.ofNat (k + 65), 0x3c⟩, 0⟩
  nonempty := by decide
  readable := by decide
  indexFits := by decide

theorem binaryDump_roundTrip_twoLines :
    ∃ t hex, binaryDump twoLines.offset twoLines.size (some twoLines.ptr) = .ok t ∧
      decode t = some (0x3c, twoLines.data) ∧ lines newline t = hex ++ [[]] ∧ hex.length = 2 := by
  obtain ⟨t, hex, hrun, hdecode, hlines, hlen, _⟩ := twoLines.binaryDump_roundTrip (by decide)
  exact ⟨t, hex, hrun, hdecode, hlines, hlen⟩

theorem dumpers_agree_twoLines :
    ∃ plain string mem, binaryDump twoLines.offset twoLines.size (some twoLines.ptr) = .ok plain ∧
      binaryDumpWithString twoLines.offset twoLines.size (some twoLines.ptr)
        (ascii "text
more" ++ 0 :: []) (some 0) = .ok (string, mem) ∧
      hexParts string = hexParts plain := by
  obtain ⟨plain, _, _, string, mem, hplain, _, _, hstring, hagree⟩ :=
    twoLines.dumpers_agree (by decide) ⟨ascii "text
more", by decide⟩ [] [⟨ascii "note", by decide⟩]
      (by decide)
  exact ⟨plain, string, mem, hplain, hstring, (hagree string (by simp)).1⟩

end PerfTools.Elf
