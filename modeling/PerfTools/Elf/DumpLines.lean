import PerfTools.Elf.DumpLayout

/-!
# Lines of the dumps

The text of each dumper as a list of lines, one for each row of bytes and one for each
annotation that found no row. The plain, the character and the commenting dumper keep at most a
line index between rows; the annotating one keeps the cursor of a string that it cuts in place,
which `Noted` relates to the part of the string that is still to be printed.
-/

namespace PerfTools.Elf

open Memory Printf Grid Lines

variable {σ : Type}

/-- Rows as the dump breaks them: all are full but the last, and a full one ends in a byte. -/
inductive Lined : List Row → Prop
  | nil : Lined []
  | last (r : Row) : r ≠ [] → r.length < 16 → Lined [r]
  | full (r : Row) (b : UInt8) (rs : List Row) :
      r.length = 15 → Lined rs → Lined ((r ++ [some b]) :: rs)

theorem rows_lined (cs : Row) (hfill : Filled cs) : Lined (rows 16 cs) := by
  induction hn : cs.length using Nat.strong_induction_on generalizing cs with
  | _ n ih =>
    by_cases hnil : cs = []
    · simpa [hnil] using Lined.nil
    · by_cases hshort : cs.length < 16
      · rw [rows_of_length_le hnil (by omega)]
        exact Lined.last cs hnil hshort
      · obtain ⟨b, hb⟩ : ∃ b, cs[15]? = some (some b) := by
          have hget := hfill 15 le_rfl
          rw [List.getElem?_eq_getElem (by omega)] at hget ⊢
          cases h : cs[15] with
          | none => simp [h] at hget
          | some b => exact ⟨b, rfl⟩
        have hsplit : cs = (cs.take 15 ++ [some b]) ++ cs.drop 16 := by
          have htake : cs.take 16 = cs.take 15 ++ [some b] := by
            rw [List.take_add_one, hb]
            rfl
          rw [← htake, List.take_append_drop]
        have hlen : (cs.take 15 ++ [some b]).length = 16 := by simp; omega
        have hrest := ih (cs.drop 16).length (by rw [List.length_drop]; omega) (cs.drop 16)
          (fun k hk => by rw [List.getElem?_drop]; exact hfill _ (by omega)) rfl
        conv => rw [hsplit, rows_append (by decide) hlen]
        exact Lined.full _ b _ (by simpa using hlen) hrest

/-- The rows with their labels. -/
def labelled : Nat → List Row → List (Nat × Row)
  | _, [] => []
  | offset, r :: rs => (offset, r) :: labelled ((offset + 16) % 2 ^ 32) rs

/-- The row filled up with empty cells. -/
def padRow (r : Row) : Row := r ++ List.replicate (16 - r.length) none

/-- A line with something behind the separator. -/
def noteLine (offset : Nat) (r : Row) (t : Text) : Text :=
  label offset ++ rowText r ++ ascii "| " ++ t

namespace DumpArgs

variable (a : DumpArgs)

theorem lined : Lined a.rows := rows_lined a.cells a.cells_filled

theorem rows_ne_nil : a.rows ≠ [] := by
  intro h
  have hflat := flatten_rows (by decide : 0 < 16) a.cells
  rw [← rows, h] at hflat
  exact a.cells_ne_nil hflat.symm

theorem rows_flatten : a.rows.flatten = a.cells := flatten_rows (by decide) a.cells

end DumpArgs

theorem labelled_ne_nil {offset : Nat} {rs : List Row} (h : rs ≠ []) :
    labelled offset rs ≠ [] := by
  cases rs with
  | nil => contradiction
  | cons r rs => simp [labelled]

theorem rowText_append (r s : Row) : rowText (r ++ s) = rowText r ++ rowText s := by
  simp [rowText]

theorem rowText_byte (b : UInt8) : rowText [some b] = Hex.fixed 2 b.toNat ++ [space] := by
  simp [rowText, cellText]

theorem rowText_gap (k : Nat) : rowText (List.replicate k none) = blanks k := by
  induction k with
  | zero => rfl
  | succ k ih =>
    rw [List.replicate_succ, rowText, List.flatMap_cons, ← rowText, ih, blanks, blanks,
      Nat.mul_succ, Nat.add_comm, List.replicate_add]
    rfl

/-- The last byte of a full line prints no blank of its own, the separator brings it. -/
theorem full_row_text (r : Row) (b : UInt8) (t : Text) :
    (rowText (r ++ [some b])).dropLast ++ (ascii " | " ++ t) =
      rowText (r ++ [some b]) ++ ascii "| " ++ t := by
  rw [rowText_append, rowText_byte, ← List.append_assoc (rowText r), List.dropLast_concat]
  simp [ascii, space]

theorem postGapPad_eq {k : Nat} (hk : k < 16) :
    postGapPad k = blanks (16 - k) ++ ascii "| " := by
  interval_cases k <;> rfl

theorem padRow_text (r : Row) :
    rowText (padRow r) = rowText r ++ blanks (16 - r.length) := by
  rw [padRow, rowText_append, rowText_gap]

theorem padRow_full {r : Row} (hr : 16 ≤ r.length) : padRow r = r := by
  simp [padRow, Nat.sub_eq_zero_of_le hr]

namespace Gutter

/-- In a full row the hook for the last byte runs on the variables the other cells left. -/
theorem line_full (g : Gutter σ) {r : Row} {c : Nat} (b : UInt8) (s : σ)
    (hc : c + r.length = 15) : g.line c (r ++ [some b]) s = g.full (g.cells c r s) b := by
  induction r generalizing c s with
  | nil =>
    have hc15 : c = 15 := by simpa using hc
    simp [line, cells, hc15]
  | cons o r ih =>
    simp only [List.length_cons] at hc
    have ih' := fun s => ih (c := c + 1) s (by omega)
    cases o with
    | none => simp [line, cells, ih']
    | some d => simp [line, cells, ih', show c ≠ 15 by omega]

theorem cells_const {g : Gutter σ} (h : ∀ s c b, g.cell s c b = s) (c : Nat) (r : Row) (s : σ) :
    g.cells c r s = s := by
  induction r generalizing c s with
  | nil => rfl
  | cons o r ih => cases o <;> simp [cells, ih, h]

end Gutter

/-! ## The plain dump -/

/-- A line of the plain dump; behind a full row there is no blank. -/
def plainLine (p : Nat × Row) : Text :=
  if p.2.length = 16 then label p.1 ++ (rowText p.2).dropLast else label p.1 ++ rowText p.2

private theorem dumpRows_plain {rs : List Row} (h : Lined rs) (hne : rs ≠ []) (offset : Nat) :
    dumpRows plainGutter offset rs () =
      .ok (joined newline ((labelled offset rs).map plainLine), ()) := by
  induction h generalizing offset with
  | nil => contradiction
  | last r hr hlen =>
    have hlen' : r.length ≠ 16 := by omega
    simp [dumpRows, labelled, plainLine, hlen']
  | full r b rs hlen hrs ih =>
    have hline : plainGutter.line 0 (r ++ [some b]) () = .ok ([], ()) := by
      rw [Gutter.line_full _ b () (by omega)]
      rfl
    have hfull : (r ++ [some b]).length = 16 := by simp [hlen]
    rw [dumpRows, if_pos hfull, hline, ok_bind]
    by_cases hnil : rs = []
    · simp [hnil, labelled, plainLine, hlen]
    · have hmap : (labelled ((offset + 16) % 2 ^ 32) rs).map plainLine ≠ [] := by
        simpa using labelled_ne_nil hnil
      have hnext : plainGutter.next () = () := rfl
      simp only [hnil, if_false, hnext, ih hnil, ok_bind, labelled, List.map_cons,
        joined_cons _ hmap]
      simp [plainLine, hlen]

/-- The plain dump: one line for each row, then a blank line. -/
theorem binaryDump_lines (a : DumpArgs) :
    binaryDump a.offset a.size (some a.ptr) =
      .ok (unlines newline ((labelled a.base a.rows).map plainLine) ++ [newline]) := by
  have hmap : (labelled a.base a.rows).map plainLine ≠ [] := by
    simpa using labelled_ne_nil a.rows_ne_nil
  simp only [binaryDump, if_neg a.size_ne_zero, dumpBody_rows,
    dumpRows_plain a.lined a.rows_ne_nil, ok_bind, pure_eq_ok, ← joined_append_sep hmap]
  simp

/-! ## The dump with characters -/

/-- What the gutter shows for a cell. -/
def gutterChar : Option UInt8 → UInt8
  | none => space
  | some b => printable b

def gutterText (r : Row) : Text :=
  r.map gutterChar ++ List.replicate (16 - r.length) space

def charLine (p : Nat × Row) : Text := noteLine p.1 (padRow p.2) (gutterText p.2)

theorem printable_ne (c : UInt8) : printable c ≠ 0 ∧ printable c ≠ newline := by
  have h : ∀ n < 256, printable (UInt8.ofNat n) ≠ 0 ∧ printable (UInt8.ofNat n) ≠ newline := by
    decide +kernel
  simpa using h c.toNat c.toNat_lt

theorem gutterText_notMem {b : UInt8} (hspace : b ≠ space) (hb : ∀ c, printable c ≠ b) (r : Row) :
    b ∉ gutterText r := by
  rw [gutterText, List.mem_append, not_or]
  constructor
  · intro h
    obtain ⟨o, _, ho⟩ := List.mem_map.mp h
    cases o with
    | none => exact hspace ho.symm
    | some c => exact hb c ho
  · intro h
    exact hspace (List.eq_of_mem_replicate h)

private theorem charGutter_cells {r : Row} {done : List UInt8} {c : Nat} (hdone : done.length = c)
    (hc : c + r.length ≤ 16) :
    charGutter.cells c r (done ++ List.replicate (16 - c) space ++ [0]) =
      done ++ r.map gutterChar ++ List.replicate (16 - c - r.length) space ++ [0] := by
  induction r generalizing done c with
  | nil => simp [Gutter.cells]
  | cons o r ih =>
    simp only [List.length_cons] at hc
    have hblank : List.replicate (16 - c) space = space :: List.replicate (16 - (c + 1)) space := by
      rw [show 16 - c = 16 - (c + 1) + 1 by omega, List.replicate_succ]
    have hstep (d : UInt8) := ih (c := c + 1) (by simp [hdone] : (done ++ [d]).length = c + 1)
      (by omega)
    rw [hblank]
    cases o with
    | none =>
      rw [Gutter.cells, show done ++ space :: List.replicate (16 - (c + 1)) space =
        done ++ [space] ++ List.replicate (16 - (c + 1)) space by simp, hstep]
      simp [gutterChar]
      omega
    | some b =>
      have hset : charGutter.cell (done ++ space :: List.replicate (16 - (c + 1)) space ++ [0]) c b =
          done ++ [printable b] ++ List.replicate (16 - (c + 1)) space ++ [0] := by
        simp [charGutter, ← hdone]
      rw [Gutter.cells, hset, hstep]
      simp [gutterChar]
      omega

private theorem charGutter_row {r : Row} (hr : r.length ≤ 16) :
    charGutter.cells 0 r blankTailer = gutterText r ++ [0] := by
  have hnone : ([] : List UInt8).length = 0 := rfl
  simpa [blankTailer, gutterText] using charGutter_cells (r := r) hnone (by omega)

private theorem readString_gutterText (r : Row) :
    readString (gutterText r ++ [0]) 0 =
      .ok ⟨gutterText r, gutterText_notMem (by decide) (fun c => (printable_ne c).1) r⟩ :=
  readString_of_drop (t := []) rfl

private theorem charGutter_line {r : Row} (b : UInt8) (hr : r.length = 15) :
    charGutter.line 0 (r ++ [some b]) blankTailer =
      .ok (ascii " | " ++ gutterText (r ++ [some b]), gutterText (r ++ [some b]) ++ [0]) := by
  have hset : (gutterText r ++ [0]).set 15 (printable b) = gutterText (r ++ [some b]) ++ [0] := by
    simp [gutterText, hr, gutterChar]
  rw [Gutter.line_full _ b _ (by omega), charGutter_row (by omega)]
  simp only [charGutter, hset, readString_gutterText, ok_bind, pure_eq_ok]

/-- The blanks of a partial last row together with the gutter, nothing behind a full one. -/
private def charTail (rs : List Row) (tail : Text) : Text :=
  if rs.flatten.length % 16 ≠ 0 then postGapPad (rs.flatten.length % 16) ++ tail else []

private theorem dumpRows_char {rs : List Row} (h : Lined rs) (hne : rs ≠ []) (offset : Nat) :
    ∃ t r, dumpRows charGutter offset rs blankTailer = .ok (t, gutterText r ++ [0]) ∧
      t ++ charTail rs (gutterText r) = joined newline ((labelled offset rs).map charLine) := by
  induction h generalizing offset with
  | nil => contradiction
  | last r hr hlen =>
    have hlen' : r.length ≠ 16 := by omega
    have hpos : r.length ≠ 0 := by simpa using hr
    refine ⟨label offset ++ rowText r, r, ?_, ?_⟩
    · simp [dumpRows, hlen', charGutter_row (by omega : r.length ≤ 16)]
    · simp [charTail, labelled, charLine, noteLine, padRow_text, Nat.mod_eq_of_lt hlen, hpos,
        postGapPad_eq hlen]
  | full r b rs hlen hrs ih =>
    have hfull : (r ++ [some b]).length = 16 := by simp [hlen]
    have hpad : padRow (r ++ [some b]) = r ++ [some b] := padRow_full (by omega)
    rw [dumpRows, if_pos hfull, charGutter_line b hlen, ok_bind]
    by_cases hnil : rs = []
    · refine ⟨_, _, if_pos hnil, ?_⟩
      simp [charTail, labelled, charLine, hnil, hlen, hpad, full_row_text, noteLine]
    · obtain ⟨t, r', hrun, htext⟩ := ih hnil ((offset + 16) % 2 ^ 32)
      have hmap : (labelled ((offset + 16) % 2 ^ 32) rs).map charLine ≠ [] := by
        simpa using labelled_ne_nil hnil
      have hnext : charGutter.next (gutterText (r ++ [some b]) ++ [0]) = blankTailer := rfl
      have htail : charTail ((r ++ [some b]) :: rs) = charTail rs := by
        have hmod : ((r ++ [some b]) :: rs).flatten.length % 16 = rs.flatten.length % 16 := by
          rw [List.flatten_cons, List.length_append, hfull, Nat.add_mod_left]
        funext tail
        rw [charTail, charTail, hmod]
      simp only [hnil, if_false, hnext, hrun, ok_bind, htail, labelled, List.map_cons,
        joined_cons _ hmap, ← htext]
      refine ⟨_, r', rfl, ?_⟩
      simp [charLine, noteLine, hpad, full_row_text]

theorem binaryDumpWithChar_lines (a : DumpArgs) :
    binaryDumpWithChar a.offset a.size (some a.ptr) =
      .ok (unlines newline ((labelled a.base a.rows).map charLine) ++ [newline]) := by
  have hmap : (labelled a.base a.rows).map charLine ≠ [] := by
    simpa using labelled_ne_nil a.rows_ne_nil
  obtain ⟨t, r, hrun, htext⟩ := dumpRows_char a.lined a.rows_ne_nil a.base
  rw [charTail, a.rows_flatten, a.cells_length] at htext
  simp only [binaryDumpWithChar, if_neg a.size_ne_zero, dumpBody_rows, hrun, ok_bind, pure_eq_ok,
    ← joined_append_sep hmap, ← htext, readString_gutterText]
  split_ifs <;> simp

/-! ## The dump with comments -/

/-- The comment with the given index, empty behind the last one. -/
def commentText (argv : List CString) (lineIndex : Nat) : Text :=
  match argv[lineIndex]? with
  | some arg => arg.chars
  | none => []

/-- The lines with bytes; a partial last one is only filled up with blanks. -/
def commentLines (argv : List CString) : Nat → List Row → Nat → List Text
  | _, [], _ => []
  | offset, r :: rs, i =>
    (if r.length = 16 then noteLine offset r (commentText argv i)
      else label offset ++ rowText (padRow r)) ::
      commentLines argv ((offset + 16) % 2 ^ 32) rs (i + 1)

/-- Annotation lines without bytes. -/
def indented (as : List Text) : List Text := as.map (indent ++ ·)

/-- The comments as the format conversion prints them; one that fails stands for itself. -/
def printed (arg : CString) : CString :=
  match formatNoArgs arg.chars with
  | .ok t => cstringOf t
  | .error _ => arg

section Comments

variable {argv shown : List CString}

theorem printComment_format {i : Nat} {arg : CString} (h : argv[i]? = some arg) :
    printComment argv.length argv i = formatNoArgs arg.chars := by
  have hi : i < argv.length := (List.getElem?_eq_some_iff.mp h).1
  rw [printComment, if_pos (Int.ofNat_lt.mpr hi), h]

theorem printComment_eq {i : Nat} (h : ∀ arg, argv[i]? = some arg → percent ∉ arg.chars) :
    printComment argv.length argv i = .ok (commentText argv i) := by
  by_cases hi : i < argv.length
  · have hget := List.getElem?_eq_getElem hi
    rw [printComment_format hget, formatNoArgs_literal (h _ hget), commentText, hget]
  · simp [printComment, commentText, hi]

private theorem commentPad_eq (postGap : Nat) {n k : Nat} (hk : postGap ≤ k) (i : Nat) :
    commentPad argv.length argv postGap n k i = .ok (blanks n, i) := by
  induction n generalizing k with
  | zero => rfl
  | succ n ih =>
    have hblank : blanks (n + 1) = ascii "   " ++ blanks n := by
      rw [← rowText_gap, List.replicate_succ, rowText, List.flatMap_cons, ← rowText, rowText_gap]
      rfl
    simp [commentPad, show k + 1 ≠ postGap by omega, ih (show postGap ≤ k + 1 by omega), hblank]

private theorem commentGutter_line {r : Row} (b : UInt8) (hr : r.length = 15) (i : Nat) :
    (commentGutter argv.length argv).line 0 (r ++ [some b]) i = (do
      let t ← printComment argv.length argv i
      return (ascii " | " ++ t, i + 1)) := by
  rw [Gutter.line_full _ b _ (by omega), Gutter.cells_const (fun _ _ _ => rfl)]
  rfl

private theorem dumpRows_comment {rs : List Row} (h : Lined rs) (hne : rs ≠ []) (offset i : Nat)
    (hshown : ∀ k, i ≤ k → k < i + rs.flatten.length / 16 →
      printComment argv.length argv k = .ok (commentText shown k)) :
    ∃ t, dumpRows (commentGutter argv.length argv) offset rs i =
        .ok (t, i + rs.flatten.length / 16) ∧
      t ++ (if rs.flatten.length % 16 ≠ 0 then blanks (16 - rs.flatten.length % 16) else []) =
        joined newline (commentLines shown offset rs i) := by
  induction h generalizing offset i with
  | nil => contradiction
  | last r hr hlen =>
    have hlen' : r.length ≠ 16 := by omega
    have hpos : r.length ≠ 0 := by simpa using hr
    refine ⟨label offset ++ rowText r, ?_, ?_⟩
    · simp [dumpRows, hlen', Gutter.cells_const (g := commentGutter argv.length argv)
        (fun _ _ _ => rfl), Nat.div_eq_of_lt hlen]
    · simp [commentLines, hlen', padRow_text, Nat.mod_eq_of_lt hlen, hpos]
  | full r b rs hlen hrs ih =>
    have hfull : (r ++ [some b]).length = 16 := by simp [hlen]
    have hmod : ((r ++ [some b]) :: rs).flatten.length % 16 = rs.flatten.length % 16 := by
      rw [List.flatten_cons, List.length_append, hfull, Nat.add_mod_left]
    have hdiv : ((r ++ [some b]) :: rs).flatten.length / 16 = rs.flatten.length / 16 + 1 := by
      rw [List.flatten_cons, List.length_append, hfull, Nat.add_div_left _ (by decide)]
    rw [hdiv] at hshown
    have hprint := hshown i le_rfl (by omega)
    rw [dumpRows, if_pos hfull, commentGutter_line b hlen, hprint, hmod, hdiv]
    simp only [ok_bind, pure_eq_ok]
    by_cases hnil : rs = []
    · refine ⟨label offset ++ (rowText (r ++ [some b])).dropLast ++
        (ascii " | " ++ commentText shown i), ?_, ?_⟩
      · simp [hnil]
      · simp [hnil, commentLines, hlen, full_row_text, noteLine]
    · obtain ⟨t, hrun, htext⟩ := ih hnil ((offset + 16) % 2 ^ 32) (i + 1)
        fun k hk hlt => hshown k (by omega) (by omega)
      have hlines : commentLines shown ((offset + 16) % 2 ^ 32) rs (i + 1) ≠ [] := by
        obtain ⟨r', rs', rfl⟩ := List.exists_cons_of_ne_nil hnil
        simp [commentLines]
      have hnext : (commentGutter argv.length argv).next (i + 1) = i + 1 := rfl
      simp only [hnil, if_false, hnext, hrun, ok_bind, commentLines, joined_cons _ hlines, ← htext]
      refine ⟨_, by rw [Nat.add_assoc, Nat.add_comm 1], ?_⟩
      simp [hlen, full_row_text, noteLine]

private theorem dumpRows_printed {rs : List Row} (h : Lined rs) (hne : rs ≠ []) {offset i : Nat}
    {x : Text × Nat} (hrun : dumpRows (commentGutter argv.length argv) offset rs i = .ok x) :
    ∀ k, i ≤ k → k < i + rs.flatten.length / 16 →
      ∃ t, printComment argv.length argv k = .ok t := by
  induction h generalizing offset i x with
  | nil => contradiction
  | last r hr hlen =>
    intro k hk hlt
    simp [Nat.div_eq_of_lt hlen] at hlt
    omega
  | full r b rs hlen hrs ih =>
    have hfull : (r ++ [some b]).length = 16 := by simp [hlen]
    have hdiv : ((r ++ [some b]) :: rs).flatten.length / 16 = rs.flatten.length / 16 + 1 := by
      rw [List.flatten_cons, List.length_append, hfull, Nat.add_div_left _ (by decide)]
    rw [dumpRows, if_pos hfull, commentGutter_line b hlen] at hrun
    intro k hk hlt
    rw [hdiv] at hlt
    cases hprint : printComment argv.length argv i with
    | error e => simp [hprint] at hrun
    | ok t =>
      rcases Nat.eq_or_lt_of_le hk with rfl | hk
      · exact ⟨t, hprint⟩
      · have hnil : rs ≠ [] := by
          rintro rfl
          simp only [List.flatten_nil, List.length_nil] at hlt
          omega
        have hnext : (commentGutter argv.length argv).next (i + 1) = i + 1 := rfl
        simp only [hprint, ok_bind, pure_eq_ok, hnil, if_false, hnext] at hrun
        cases hrest : dumpRows (commentGutter argv.length argv) ((offset + 16) % 2 ^ 32) rs
            (i + 1) with
        | error e =>
          rw [hrest, error_bind] at hrun
          cases hrun
        | ok y =>
          apply ih hnil hrest k hk
          omega

private theorem commentRest_eq {n i : Nat} (hn : i + n ≤ argv.length) :
    commentRest argv n i =
      .ok (unlines newline (indented (((argv.drop i).take n).map CString.chars))) := by
  induction n generalizing i with
  | zero => simp [commentRest, indented]
  | succ n ih =>
    have hi : i < argv.length := by omega
    rw [commentRest, List.getElem?_eq_getElem hi]
    simp only [ih (show i + 1 + n ≤ argv.length by omega), ok_bind, pure_eq_ok,
      List.drop_eq_getElem_cons hi, List.take_succ_cons, List.map_cons, indented, unlines_cons]
    simp only [List.append_assoc, List.cons_append, List.nil_append]

/-- The dump with comments: full lines carry the first comments as their formats print, all
others follow on lines of their own. -/
theorem binaryDumpWithComment_shown (a : DumpArgs)
    (hshown : ∀ k < (a.gap + a.size.toNat) / 16,
      printComment argv.length argv k = .ok (commentText shown k)) :
    binaryDumpWithComment a.offset a.size (some a.ptr) argv.length argv =
      .ok (unlines newline (commentLines shown a.base a.rows 0 ++
        indented ((argv.drop ((a.gap + a.size.toNat) / 16)).map CString.chars)) ++ [newline]) := by
  have hflat : a.rows.flatten.length = a.gap + a.size.toNat := by
    rw [a.rows_flatten, a.cells_length]
  have hprinted : ∀ k, 0 ≤ k → k < 0 + a.rows.flatten.length / 16 →
      printComment argv.length argv k = .ok (commentText shown k) := by
    rw [hflat, Nat.zero_add]
    exact fun k _ hk => hshown k hk
  obtain ⟨t, hrun, htext⟩ := dumpRows_comment a.lined a.rows_ne_nil a.base 0 hprinted
  have hlines : commentLines shown a.base a.rows 0 ≠ [] := by
    obtain ⟨r, rs, hrs⟩ := List.exists_cons_of_ne_nil a.rows_ne_nil
    simp [hrs, commentLines]
  rw [hflat] at hrun htext
  have hrest : commentRest argv
      ((argv.length : Int) - ((a.gap + a.size.toNat) / 16 : Nat)).toNat
        ((a.gap + a.size.toNat) / 16) =
      .ok (unlines newline (indented ((argv.drop ((a.gap + a.size.toNat) / 16)).map
        CString.chars))) := by
    by_cases hle : (a.gap + a.size.toNat) / 16 ≤ argv.length
    · rw [commentRest_eq (by omega), List.take_of_length_le (by simp; omega)]
    · rw [show ((argv.length : Int) - ((a.gap + a.size.toNat) / 16 : Nat)).toNat = 0 by omega,
        List.drop_of_length_le (by omega)]
      rfl
  rw [unlines_append, ← joined_append_sep hlines, ← htext]
  simp only [binaryDumpWithComment, if_neg a.size_ne_zero, dumpBody_rows, hrun, ok_bind, pure_eq_ok,
    Nat.zero_add]
  split_ifs with hpad
  · simp only [commentPad_eq _ le_rfl, ok_bind, hrest, List.append_assoc]
  · simp only [ok_bind, hrest, List.append_nil, List.append_assoc]

theorem binaryDumpWithComment_lines (hargv : ∀ arg ∈ argv, percent ∉ arg.chars) (a : DumpArgs) :
    binaryDumpWithComment a.offset a.size (some a.ptr) argv.length argv =
      .ok (unlines newline (commentLines argv a.base a.rows 0 ++
        indented ((argv.drop ((a.gap + a.size.toNat) / 16)).map CString.chars)) ++ [newline]) := by
  apply binaryDumpWithComment_shown a
  intro k _
  apply printComment_eq
  intro arg harg
  exact hargv arg (List.mem_of_getElem? harg)

theorem printComment_printed {i : Nat} {t : Text} (h : printComment argv.length argv i = .ok t) :
    t = commentText (argv.map printed) i := by
  by_cases hi : i < argv.length
  · have hget := List.getElem?_eq_getElem hi
    rw [printComment_format hget] at h
    have hnul : 0 ∉ t := fun hmem => argv[i].nulFree ((formatNoArgs_printed h).1 hmem)
    rw [commentText, List.getElem?_map, hget, Option.map_some, printed, h]
    exact (cstringOf_chars hnul).symm
  · have hout : argv.length ≤ i := Nat.le_of_not_lt hi
    simp only [printComment, Nat.cast_lt, hi, if_false, Except.ok.injEq] at h
    rw [← h, commentText, List.getElem?_eq_none (by simpa using hout)]

theorem binaryDumpWithComment_printed {a : DumpArgs} {t : Text}
    (hrun : binaryDumpWithComment a.offset a.size (some a.ptr) argv.length argv = .ok t) {k : Nat}
    (hk : k < (a.gap + a.size.toNat) / 16) :
    printComment argv.length argv k = .ok (commentText (argv.map printed) k) := by
  have hflat : a.rows.flatten.length = a.gap + a.size.toNat := by
    rw [a.rows_flatten, a.cells_length]
  cases hrows : dumpRows (commentGutter argv.length argv) a.base a.rows 0 with
  | error e =>
    simp only [binaryDumpWithComment, if_neg a.size_ne_zero, dumpBody_rows, hrows,
      error_bind] at hrun
    cases hrun
  | ok x =>
    obtain ⟨u, hu⟩ := dumpRows_printed a.lined a.rows_ne_nil hrows k (Nat.zero_le k)
      (by rw [hflat, Nat.zero_add]; exact hk)
    rw [hu, printComment_printed hu]

end Comments

end PerfTools.Elf
