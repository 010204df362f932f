import PerfTools.Elf.Annotation

/-!
# Comments and annotations

The commenting dumper is given its texts one by one, the annotating dumper as one string. Both
mean to show text k on hex line k. The commenting one uses its arguments as formats, and its
padding of a partial last line never reaches the branch that prints a comment; the annotating
one does not end a last line that is full. Where none of this happens they place texts alike.
-/

namespace PerfTools.Elf

open Memory Printf Grid Lines

theorem commentLines_getElem? (argv : List CString) (offset : Nat) (rs : List Row) (i k : Nat) :
    (commentLines argv offset rs i)[k]? = (labelled offset rs)[k]?.map fun p =>
      if p.2.length = 16 then noteLine p.1 p.2 (commentText argv (i + k))
        else label p.1 ++ rowText (padRow p.2) := by
  induction rs generalizing offset i k with
  | nil => simp [commentLines, labelled]
  | cons r rs ih =>
    cases k with
    | zero => rfl
    | succ k =>
      rw [commentLines, labelled, List.getElem?_cons_succ, List.getElem?_cons_succ, ih,
        Nat.add_right_comm i 1 k]
      rfl

private theorem commentText_eq (argv : List CString) (i : Nat) :
    commentText argv i = ((argv.drop i).map CString.chars).headD [] := by
  cases h : argv[i]? with
  | none =>
    have hout : argv.length ≤ i := List.getElem?_eq_none_iff.mp h
    simp [commentText, h, List.drop_of_length_le hout]
  | some arg =>
    obtain ⟨hi, hget⟩ := List.getElem?_eq_some_iff.mp h
    simp [commentText, h, List.drop_eq_getElem_cons hi, hget]

/-- Comments printed as they stand are in place unless one belongs on a partial last line. -/
private theorem commentLines_placed {rs : List Row} (h : Lined rs) (hne : rs ≠ []) {offset : Nat}
    (hoff : offset < 2 ^ 32) (argv : List CString) (i : Nat) :
    AnnotationsPlaced rs.length ((argv.drop i).map CString.chars)
        (commentLines argv offset rs i ++
          overflow ((argv.drop (i + rs.flatten.length / 16)).map CString.chars)) ↔
      rs.flatten.length % 16 = 0 ∨ (argv.drop i).length ≤ rs.flatten.length / 16 := by
  induction h generalizing offset i with
  | nil => contradiction
  | last r hr hlen =>
    have hne16 : r.length ≠ 16 := by omega
    have hpos : 0 < r.length := List.length_pos_iff.mpr hr
    have hhead : (label offset ++ rowText (padRow r)).length = 58 := by
      simp [padRow]
      omega
    have hlines : commentLines argv offset [r] i = [label offset ++ rowText (padRow r)] := by
      rw [commentLines, if_neg hne16]
      rfl
    rw [hlines, List.flatten_singleton, Nat.div_eq_of_lt hlen, Nat.mod_eq_of_lt hlen,
      Nat.add_zero, Nat.le_zero, or_iff_right (by omega)]
    constructor
    · intro hplaced
      by_contra hmore
      obtain ⟨arg, rest, hdrop⟩ : ∃ arg rest, argv.drop i = arg :: rest :=
        List.exists_cons_of_ne_nil fun hnil => hmore (by rw [hnil]; rfl)
      obtain ⟨line, hget, hline⟩ := hplaced.placed 0 arg.chars (by rw [hdrop]; rfl)
      obtain rfl : label offset ++ rowText (padRow r) = line := by simpa using hget
      rw [if_pos (by simp), List.drop_of_length_le (by omega)] at hline
      cases hline
    · intro hnone
      have hhex : isHexLine (label offset ++ rowText (padRow r)) = true := by
        have hshow := (showsRow_short offset (padRow r)).labelOf_eq hoff
        rw [isHexLine, hshow]
        rfl
      rw [List.length_eq_zero_iff.mp hnone, List.length_singleton, List.map_nil,
        List.singleton_append, AnnotationsPlaced.cons_iff hhex (by simp)]
      · apply AnnotationsPlaced.overflow_placed
      · intro _
        apply List.drop_of_length_le
        omega
  | full r b rs hlen hrs ih =>
    have hfull : (r ++ [some b]).length = 16 := by simp [hlen]
    have hmod : ((r ++ [some b]) :: rs).flatten.length % 16 = rs.flatten.length % 16 := by
      rw [List.flatten_cons, List.length_append, hfull, Nat.add_mod_left]
    have hdiv : ((r ++ [some b]) :: rs).flatten.length / 16 = rs.flatten.length / 16 + 1 := by
      rw [List.flatten_cons, List.length_append, hfull, Nat.add_div_left _ (by decide)]
    have htail : ((argv.drop i).map CString.chars).tail = (argv.drop (i + 1)).map CString.chars := by
      rw [← List.map_tail, List.tail_drop]
    obtain ⟨hhex, hnote, hnone⟩ := noteLine_annotates hoff hfull (commentText argv i)
    rw [commentLines, if_pos hfull, List.cons_append, List.length_cons,
      AnnotationsPlaced.cons_iff hhex, hmod, hdiv, htail]
    · by_cases hnil : rs = []
      · subst hnil
        have hright : ([] : List Row).flatten.length % 16 = 0 := rfl
        rw [or_iff_left_of_imp fun _ => hright]
        exact iff_of_true (AnnotationsPlaced.overflow_placed _) hright
      · have hcount : i + (rs.flatten.length / 16 + 1) = i + 1 + rs.flatten.length / 16 := by
          omega
        rw [hcount, ih hnil (Nat.mod_lt _ (by decide)), List.length_drop, List.length_drop]
        omega
    · intro x hx
      rw [hnote, commentText_eq, List.headD_eq_head?_getD, hx]
      rfl
    · intro hnil
      rw [hnone, commentText_eq, hnil]
      rfl

namespace DumpArgs

variable (a : DumpArgs)

theorem rows_length_eq :
    a.rows.length = rowCount 16 (a.offset.toNat % 16 + a.size.toNat) := by
  rw [rows, rows_length, cells_length]
  rfl

private theorem comment_on_line {shown : List CString} {out as : List Text}
    (h : AnnotationsPlaced a.rows.length as (commentLines shown a.base a.rows 0 ++ out)) {k : Nat}
    (hk : k < (a.gap + a.size.toNat) / 16) {x : Text} (hx : as[k]? = some x) :
    commentText shown k = x := by
  have hlen := a.cells_length
  have hcount : k < rowCount 16 a.cells.length := by
    rw [rowCount]
    omega
  have hrow : a.rows[k]? = some ((a.cells.drop (16 * k)).take 16) := rows_getElem? 16 a.cells hcount
  have hfull : ((a.cells.drop (16 * k)).take 16).length = 16 := by
    rw [List.length_take, List.length_drop]
    omega
  have hrows : k < a.rows.length := (List.getElem?_eq_some_iff.mp hrow).1
  have hlabel := labelled_getElem? a.base_lt a.rows k
  have hget := commentLines_getElem? shown a.base a.rows 0 k
  rw [hlabel, hrow, Option.map_some, Option.map_some, if_pos hfull, Nat.zero_add] at hget
  obtain ⟨hbound, -⟩ := List.getElem?_eq_some_iff.mp hget
  obtain ⟨line, hline, hnote⟩ := h.placed k x hx
  rw [List.getElem?_append_left hbound, hget, Option.some_inj] at hline
  obtain ⟨-, hdrop, -⟩ := noteLine_annotates (Nat.mod_lt (a.base + 16 * k) (by decide)) hfull
    (commentText shown k)
  rw [if_pos hrows, ← hline, hdrop] at hnote
  exact List.append_cancel_left hnote

private theorem printed_newline {argv : List CString} (hargv : ∀ arg ∈ argv, newline ∉ arg.chars) :
    ∀ arg ∈ argv.map printed, newline ∉ arg.chars := by
  intro arg harg
  obtain ⟨arg, hmem, rfl⟩ := List.mem_map.mp harg
  rw [printed]
  cases h : formatNoArgs arg.chars with
  | error e => exact hargv arg hmem
  | ok t =>
    intro hnl
    have hsub : (cstringOf t).chars ⊆ t := List.takeWhile_subset _
    exact hargv arg hmem ((formatNoArgs_printed h).1 (hsub hnl))

/-- The comments are placed exactly when the bytes end with a line, or when there are no more
comments than full lines, and when the comments on these are no formats with directives. -/
private theorem comment_placed_iff {argv : List CString}
    (hargv : ∀ arg ∈ argv, newline ∉ arg.chars) :
    (∃ t, binaryDumpWithComment a.offset a.size (some a.ptr) argv.length argv = .ok t ∧
      AnnotationsPlaced a.rows.length (argv.map CString.chars) (lines newline t)) ↔
      ((a.gap + a.size.toNat) % 16 = 0 ∨ argv.length ≤ (a.gap + a.size.toNat) / 16) ∧
      ∀ k < (a.gap + a.size.toNat) / 16, ∀ arg, argv[k]? = some arg → percent ∉ arg.chars := by
  have hrest : ∀ arg ∈ argv.drop ((a.gap + a.size.toNat) / 16), newline ∉ arg.chars :=
    fun arg harg => hargv arg (List.mem_of_mem_drop harg)
  have hplaced := commentLines_placed a.lined a.rows_ne_nil a.base_lt argv 0
  rw [a.rows_flatten, a.cells_length, Nat.zero_add, List.drop_zero] at hplaced
  have hiff (hliteral : ∀ k < (a.gap + a.size.toNat) / 16, ∀ arg, argv[k]? = some arg →
      percent ∉ arg.chars) :
      (∃ t, binaryDumpWithComment a.offset a.size (some a.ptr) argv.length argv = .ok t ∧
        AnnotationsPlaced a.rows.length (argv.map CString.chars) (lines newline t)) ↔
      (a.gap + a.size.toNat) % 16 = 0 ∨ argv.length ≤ (a.gap + a.size.toNat) / 16 := by
    rw [binaryDumpWithComment_shown a fun k hk => printComment_eq (hliteral k hk), ← hplaced,
      ← a.comment_lines hargv hrest]
    simp
  constructor
  · rintro ⟨t, hrun, hall⟩
    have hliteral : ∀ k < (a.gap + a.size.toNat) / 16, ∀ arg, argv[k]? = some arg →
        percent ∉ arg.chars := by
      intro k hk arg harg
      have hprint := binaryDumpWithComment_printed hrun hk
      have htext := binaryDumpWithComment_shown a fun k hk => binaryDumpWithComment_printed hrun hk
      rw [hrun, Except.ok.injEq] at htext
      rw [htext, a.comment_lines (printed_newline hargv) hrest] at hall
      have hsame := a.comment_on_line hall hk (by rw [List.getElem?_map, harg]; rfl)
      rw [hsame, printComment_format harg] at hprint
      exact formatNoArgs_eq_self.mp hprint
    exact ⟨(hiff hliteral).mp ⟨t, hrun, hall⟩, hliteral⟩
  · rintro ⟨hlength, hliteral⟩
    exact (hiff hliteral).mpr hlength

private theorem joined_nulFree (argv : List CString) :
    0 ∉ joined newline (argv.map CString.chars) := by
  induction argv with
  | nil => simp [joined]
  | cons arg argv ih =>
    by_cases hnil : argv = []
    · simpa [hnil] using arg.nulFree
    · rw [List.map_cons, joined_cons _ (by simpa using hnil), List.mem_append, not_or]
      refine ⟨arg.nulFree, ?_⟩
      rw [List.mem_cons, not_or]
      exact ⟨by decide, ih⟩

private theorem exists_joined {argv : List CString}
    (hargv : ∀ arg ∈ argv, arg.chars ≠ [] ∧ newline ∉ arg.chars) :
    ∃ str : CString, str.chars = joined newline (argv.map CString.chars) ∧
      lines newline str.chars = argv.map CString.chars := by
  refine ⟨⟨_, joined_nulFree argv⟩, rfl, ?_⟩
  apply lines_joined <;> intro l hl <;> obtain ⟨arg, harg, rfl⟩ := List.mem_map.mp hl
  · exact (hargv arg harg).2
  · exact (hargv arg harg).1

/-- Both dumpers show every text in its place exactly when there is a full line for each of
them and none of them holds a percent sign. -/
theorem dumpers_place_alike_iff (argv : List CString) (rest : List UInt8)
    (hargv : ∀ arg ∈ argv, arg.chars ≠ [] ∧ newline ∉ arg.chars) :
    (∃ comment string mem,
      binaryDumpWithComment a.offset a.size (some a.ptr) argv.length argv = .ok comment ∧
      binaryDumpWithString a.offset a.size (some a.ptr)
        (joined newline (argv.map CString.chars) ++ 0 :: rest) (some 0) = .ok (string, mem) ∧
      AnnotationsPlaced (rowCount 16 (a.offset.toNat % 16 + a.size.toNat))
        (argv.map CString.chars) (lines newline comment) ∧
      AnnotationsPlaced (rowCount 16 (a.offset.toNat % 16 + a.size.toNat))
        (argv.map CString.chars) (lines newline string)) ↔
      argv.length ≤ (a.offset.toNat % 16 + a.size.toNat) / 16 ∧
      ∀ arg ∈ argv, percent ∉ arg.chars := by
  obtain ⟨str, hchars, hlines⟩ := exists_joined hargv
  have hstring := binaryDumpWithString_lines a str rest
  have hplaced := a.string_placed_iff str
  rw [hlines] at hstring hplaced
  rw [List.length_map] at hplaced
  have hcomment := a.comment_placed_iff fun arg harg => (hargv arg harg).2
  rw [a.rows_length_eq] at hcomment
  rw [← hchars]
  have hcount : rowCount 16 (a.offset.toNat % 16 + a.size.toNat) =
      (a.gap + a.size.toNat + 15) / 16 := rfl
  have hgap : a.offset.toNat % 16 = a.gap := rfl
  constructor
  · rintro ⟨comment, string, mem, hrun, hrun', hall, hall'⟩
    rw [hstring] at hrun'
    obtain ⟨rfl, -⟩ := Prod.mk.inj (Except.ok.inj hrun')
    obtain ⟨hlength, hliteral⟩ := hcomment.mp ⟨comment, hrun, hall⟩
    have hlength' := hplaced.mp hall'
    rw [hcount, hgap] at hlength'
    have hfull : argv.length ≤ (a.gap + a.size.toNat) / 16 := by omega
    refine ⟨hfull, fun arg harg => ?_⟩
    obtain ⟨k, hk, rfl⟩ := List.getElem_of_mem harg
    exact hliteral k (by omega) _ (List.getElem?_eq_getElem hk)
  · rintro ⟨hfull, hliteral⟩
    rw [hgap] at hfull
    obtain ⟨comment, hrun, hall⟩ := hcomment.mpr ⟨Or.inr hfull, fun k _ arg harg =>
      hliteral arg (List.mem_of_getElem? harg)⟩
    have hall' := hplaced.mpr (Or.inr (by rw [hcount]; omega))
    exact ⟨comment, _, _, hrun, hstring, hall, hall'⟩

end DumpArgs

/-- Five bytes, which leave the line partial. -/
def partialLine : DumpArgs where
  offset := 0x40
  size := 6
  ptr := ⟨⟨[1, 2, 3, 4, 5, 6], 0x40⟩, 0⟩
  nonempty := by decide
  readable := by decide
  indexFits := by decide

/-- One comment for a partial line: it is printed below the line. -/
theorem partialLine_not_alike :
    ¬ ∃ comment string mem,
      binaryDumpWithComment partialLine.offset partialLine.size (some partialLine.ptr) 1
        [⟨ascii "note", by decide⟩] = .ok comment ∧
      binaryDumpWithString partialLine.offset partialLine.size (some partialLine.ptr)
        (ascii "note" ++ [0]) (some 0) = .ok (string, mem) ∧
      AnnotationsPlaced 1 [ascii "note"] (lines newline comment) ∧
      AnnotationsPlaced 1 [ascii "note"] (lines newline string) := by
  rintro ⟨comment, -, -, hrun, -, hall, -⟩
  let note : CString := ⟨ascii "note", by decide⟩
  have hcond := (@DumpArgs.comment_placed_iff partialLine [note] (by decide)).mp ⟨comment, hrun, hall⟩
  revert hcond
  decide

/-- One comment for the full line. -/
theorem dumpers_place_alike_iff_oneLine :
    ∃ comment string mem,
      binaryDumpWithComment oneLine.offset oneLine.size (some oneLine.ptr) 1
        [⟨ascii "note", by decide⟩] = .ok comment ∧
      binaryDumpWithString oneLine.offset oneLine.size (some oneLine.ptr)
        (ascii "note" ++ [0]) (some 0) = .ok (string, mem) ∧
      AnnotationsPlaced 1 [ascii "note"] (lines newline comment) ∧
      AnnotationsPlaced 1 [ascii "note"] (lines newline string) :=
  (oneLine.dumpers_place_alike_iff [⟨ascii "note", by decide⟩] [] (by decide)).mpr (by decide)

end PerfTools.Elf
