import Mathlib.Data.List.Forall2
import PerfTools.Elf.DumpDecode
import PerfTools.Elf.NoteLines

/-!
# What the dumpers show

The text of every dumper shows the bytes it was given, so that it decodes to them. Two results
follow: the plain dump determines its arguments, and the four dumpers agree on the part of the
text left of the separator.
-/

namespace PerfTools.Elf

open Memory Printf Grid Lines

private theorem showsRow_padded (offset : Nat) {r : Row} (hr : r.length ≤ 16) (t : Text) :
    ShowsRow offset r (label offset ++ rowText (padRow r) ++ t) := by
  refine ⟨3 * (16 - r.length), ?_⟩
  rw [padRow_text, blanks, ← List.append_assoc, List.take_append_of_le_length]
  simp
  omega

theorem showsRow_note (offset : Nat) {r : Row} (hr : r.length ≤ 16) (t : Text) :
    ShowsRow offset r (noteLine offset (padRow r) t) := by
  simpa [noteLine] using showsRow_padded offset hr (ascii "| " ++ t)

private theorem showsRow_full (offset : Nat) {r : Row} (hr : r.length = 16) (t : Text) :
    ShowsRow offset r (noteLine offset r t) := by
  simpa [padRow_full hr.ge] using showsRow_note offset hr.le t

theorem showsRow_short (offset : Nat) (r : Row) :
    ShowsRow offset r (label offset ++ rowText r) := ⟨0, by simp⟩

theorem showsRow_plain (p : Nat × Row) : ShowsRow p.1 p.2 (plainLine p) := by
  by_cases hr : p.2.length = 16
  · refine ⟨0, ?_⟩
    have hne : rowText p.2 ≠ [] := by
      intro h
      have hlen := congrArg List.length h
      simp [hr] at hlen
    rw [plainLine, if_pos hr, ← List.dropLast_append_of_ne_nil hne, List.dropLast_eq_take,
      List.take_take]
    simp [hr]
  · rw [plainLine, if_neg hr]
    exact showsRow_short p.1 p.2

theorem newline_notMem_label (offset : Nat) : newline ∉ label offset := by
  rw [label, List.mem_append, not_or]
  refine ⟨fun h => ?_, by decide⟩
  have hdigit := Hex.toNat_of_mem_fixed h
  exact absurd hdigit.1 (by decide)

theorem newline_notMem_rowText (r : Row) : newline ∉ rowText r := by
  rw [rowText, List.mem_flatMap]
  rintro ⟨o, _, ho⟩
  cases o with
  | none => exact absurd ho (by decide)
  | some b =>
    rcases List.mem_append.mp ho with h | h
    · have hdigit := Hex.toNat_of_mem_fixed h
      exact absurd hdigit.1 (by decide)
    · exact absurd h (by decide)

theorem newline_notMem_noteLine (offset : Nat) (r : Row) {t : Text} (ht : newline ∉ t) :
    newline ∉ noteLine offset r t := by
  have hsep : newline ∉ ascii "| " := by decide
  simp only [noteLine, List.mem_append, not_or]
  exact ⟨⟨⟨newline_notMem_label _, newline_notMem_rowText _⟩, hsep⟩, ht⟩

theorem isHexLine_nil : isHexLine [] = false := rfl

theorem isHexLine_indent (t : Text) : isHexLine (indent ++ t) = false := by
  have htake : (indent ++ t).take 8 = List.replicate 8 space := by
    rw [List.take_append_of_le_length (by simp [indent])]
    rfl
  have hvalue : Hex.value (List.replicate 8 space) = none := rfl
  simp only [isHexLine, labelOf, htake, hvalue, ite_self, Option.isSome_none]

theorem newline_notMem_indent : newline ∉ indent := by
  rw [indent, List.mem_replicate]
  rintro ⟨_, h⟩
  exact absurd h (by decide)

namespace DumpArgs

variable (a : DumpArgs)

private theorem forall₂_map {f : Nat × Row → Text} {ps : List (Nat × Row)}
    (h : ∀ p ∈ ps, ShowsRow p.1 p.2 (f p)) :
    List.Forall₂ (fun p line => ShowsRow p.1 p.2 line) ps (ps.map f) := by
  rw [List.forall₂_map_right_iff, List.forall₂_same]
  exact h

theorem plain_lines :
    lines newline (unlines newline ((labelled a.base a.rows).map plainLine) ++ [newline]) =
      (labelled a.base a.rows).map plainLine ++ [[]] := by
  rw [lines_unlines_append]
  · rfl
  · intro line hline
    obtain ⟨p, _, rfl⟩ := List.mem_map.mp hline
    rw [plainLine]
    split_ifs <;> rw [List.mem_append, not_or]
    · exact ⟨newline_notMem_label _, fun h => newline_notMem_rowText _ (List.dropLast_subset _ h)⟩
    · exact ⟨newline_notMem_label _, newline_notMem_rowText _⟩

theorem plain_shows :
    a.Shows (unlines newline ((labelled a.base a.rows).map plainLine) ++ [newline]) :=
  ⟨_, [[]], a.plain_lines, forall₂_map fun p _ => showsRow_plain p, by simp [isHexLine_nil]⟩

theorem char_shows :
    a.Shows (unlines newline ((labelled a.base a.rows).map charLine) ++ [newline]) := by
  refine ⟨(labelled a.base a.rows).map charLine, [[]], ?_, forall₂_map fun p hp => ?_,
    by simp [isHexLine_nil]⟩
  · rw [lines_unlines_append]
    · rfl
    · intro line hline
      obtain ⟨p, _, rfl⟩ := List.mem_map.mp hline
      exact newline_notMem_noteLine _ _
        (gutterText_notMem (by decide) (fun c => (printable_ne c).2) p.2)
  · exact showsRow_note p.1 (a.lined.length_le (labelled_lt a.base_lt hp).2) _

private theorem commentLines_shown (argv : List CString) {rs : List Row} (h : ∀ r ∈ rs, r.length ≤ 16)
    (offset i : Nat) :
    List.Forall₂ (fun p line => ShowsRow p.1 p.2 line) (labelled offset rs)
      (commentLines argv offset rs i) := by
  induction rs generalizing offset i with
  | nil => exact .nil
  | cons r rs ih =>
    refine .cons ?_ (ih (fun r' hr' => h r' (List.mem_cons_of_mem _ hr')) _ _)
    have hle := h r List.mem_cons_self
    split_ifs with hr
    · exact showsRow_full offset hr _
    · simpa using showsRow_padded offset hle []

private theorem commentLines_newline {argv : List CString} (h : ∀ arg ∈ argv, newline ∉ arg.chars)
    (rs : List Row) (offset i : Nat) : ∀ line ∈ commentLines argv offset rs i, newline ∉ line := by
  induction rs generalizing offset i with
  | nil => simp [commentLines]
  | cons r rs ih =>
    intro line hline
    rcases List.mem_cons.mp hline with rfl | hline
    · split_ifs
      · apply newline_notMem_noteLine
        rw [commentText]
        cases harg : argv[i]? with
        | none => simp
        | some arg => exact h arg (List.mem_of_getElem? harg)
      · rw [List.mem_append, not_or]
        exact ⟨newline_notMem_label _, newline_notMem_rowText _⟩
    · exact ih _ _ line hline

private theorem indented_newline {as : List Text} (h : ∀ x ∈ as, newline ∉ x) :
    ∀ line ∈ indented as, newline ∉ line := by
  intro line hline
  obtain ⟨x, hx, rfl⟩ := List.mem_map.mp hline
  rw [List.mem_append, not_or]
  exact ⟨newline_notMem_indent, h x hx⟩

private theorem indented_unlabelled (as : List Text) :
    ∀ line ∈ indented as, isHexLine line = false := by
  intro line hline
  obtain ⟨x, _, rfl⟩ := List.mem_map.mp hline
  exact isHexLine_indent x

theorem comment_lines {shown argv : List CString} (hshown : ∀ arg ∈ shown, newline ∉ arg.chars)
    (hargv : ∀ arg ∈ argv, newline ∉ arg.chars) :
    lines newline (unlines newline (commentLines shown a.base a.rows 0 ++
        indented (argv.map CString.chars)) ++ [newline]) =
      commentLines shown a.base a.rows 0 ++ overflow (argv.map CString.chars) := by
  rw [lines_unlines_append, overflow, ← List.append_assoc]
  · rfl
  · intro line hline
    rcases List.mem_append.mp hline with hline | hline
    · exact commentLines_newline hshown _ _ _ line hline
    · refine indented_newline (fun x hx => ?_) line hline
      obtain ⟨arg, harg, rfl⟩ := List.mem_map.mp hx
      exact hargv arg harg

theorem overflow_unlabelled (as : List Text) :
    ∀ line ∈ overflow as, isHexLine line = false := by
  intro line hline
  rcases List.mem_append.mp hline with hline | hline
  · exact indented_unlabelled as line hline
  · rw [List.mem_singleton.mp hline, isHexLine_nil]

theorem comment_shows {argv : List CString} (h : ∀ arg ∈ argv, newline ∉ arg.chars) (k : Nat) :
    a.Shows (unlines newline (commentLines argv a.base a.rows 0 ++
      indented ((argv.drop k).map CString.chars)) ++ [newline]) := by
  have hdrop : ∀ arg ∈ argv.drop k, newline ∉ arg.chars :=
    fun arg harg => h arg (List.mem_of_mem_drop harg)
  exact ⟨_, _, a.comment_lines h hdrop,
    commentLines_shown argv (fun r hr => a.lined.length_le hr) _ _, overflow_unlabelled _⟩

private theorem noteLines_shown {rs : List Row} (h : Lined rs) (offset : Nat) (as : List Text) :
    ∃ hex others, noteLines offset rs as = hex ++ others ∧
      List.Forall₂ (fun p line => ShowsRow p.1 p.2 line) (labelled offset rs) hex ∧
      ∀ line ∈ others, isHexLine line = false := by
  induction h generalizing offset as with
  | nil => exact ⟨[], [], rfl, .nil, by simp⟩
  | last r _ hlen =>
    have hne : r.length ≠ 16 := by omega
    have hnote (t : Text) : ShowsRow offset r (noteLine offset (padRow r) t) :=
      showsRow_note offset (by omega) t
    rcases as with _ | ⟨x, _ | ⟨y, more⟩⟩
    · exact ⟨[_], [], by simp only [noteLines, if_neg hne]; rfl,
        .cons (showsRow_short offset r) .nil, by simp⟩
    · exact ⟨[_], overflow [], by simp only [noteLines, if_neg hne]; rfl,
        .cons (hnote x) .nil, overflow_unlabelled _⟩
    · exact ⟨[_], overflow (y :: more), by simp only [noteLines, if_neg hne]; rfl,
        .cons (hnote x) .nil, overflow_unlabelled _⟩
  | full r b rs hlen hrs ih =>
    have hfull : (r ++ [some b]).length = 16 := by simp [hlen]
    have hnote (t : Text) : ShowsRow offset (r ++ [some b]) (noteLine offset (r ++ [some b]) t) :=
      showsRow_full offset hfull t
    cases rs with
    | nil =>
      rcases as with _ | ⟨x, _ | ⟨y, more⟩⟩
      · exact ⟨[_], [], by simp only [noteLines, if_pos hfull]; rfl, .cons (hnote _) .nil, by simp⟩
      · exact ⟨[_], [], by simp only [noteLines, if_pos hfull]; rfl, .cons (hnote _) .nil, by simp⟩
      · exact ⟨[_], overflow more, by simp only [noteLines, if_pos hfull]; rfl,
          .cons (hnote _) .nil, overflow_unlabelled _⟩
    | cons r' rs =>
      obtain ⟨hex, others, hlines, hshown, hothers⟩ := ih ((offset + 16) % 2 ^ 32) as.tail
      refine ⟨_ :: hex, others, ?_, .cons (hnote (as.headD [])) hshown, hothers⟩
      rw [noteLines, hlines, List.cons_append]
      simp

private theorem overflow_newline {as : List Text} (h : ∀ x ∈ as, newline ∉ x) :
    ∀ line ∈ overflow as, newline ∉ line := by
  intro line hline
  rcases List.mem_append.mp hline with hline | hline
  · exact indented_newline h line hline
  · simp [List.mem_singleton.mp hline]

private theorem noteLines_newline (offset : Nat) (rs : List Row) {as : List Text}
    (has : ∀ x ∈ as, newline ∉ x) : ∀ line ∈ noteLines offset rs as, newline ∉ line := by
  have hshort (n : Nat) (r : Row) : newline ∉ label n ++ rowText r := by
    rw [List.mem_append, not_or]
    exact ⟨newline_notMem_label _, newline_notMem_rowText _⟩
  fun_induction noteLines offset rs as with
  | case1 => simp
  | case2 offset r => simpa using newline_notMem_noteLine offset r (t := []) (by simp)
  | case3 offset r => simpa using hshort offset r
  | case4 offset r x => simpa using newline_notMem_noteLine offset r (has x (by simp))
  | case5 offset r x =>
    rw [List.forall_mem_cons]
    exact ⟨newline_notMem_noteLine offset _ (has x (by simp)), overflow_newline (by simp)⟩
  | case6 offset r x y more =>
    have hxy : newline ∉ x ++ y := by
      rw [List.mem_append, not_or]
      exact ⟨has x (by simp), has y (by simp)⟩
    rw [List.forall_mem_cons]
    exact ⟨newline_notMem_noteLine offset _ hxy, overflow_newline fun z hz => has z (by simp [hz])⟩
  | case7 offset r x y more =>
    rw [List.forall_mem_cons]
    refine ⟨newline_notMem_noteLine offset _ (has x (by simp)), overflow_newline fun z hz => ?_⟩
    exact has z (List.mem_cons_of_mem _ hz)
  | case8 offset r rs as _ ih =>
    have hhead : newline ∉ as.headD [] := by
      cases as with
      | nil => simp
      | cons x more => exact has x List.mem_cons_self
    rw [List.forall_mem_cons]
    exact ⟨newline_notMem_noteLine offset _ hhead, ih fun z hz => has z (List.mem_of_mem_tail hz)⟩

theorem string_lines (str : CString) :
    lines newline (unlines newline (noteLines a.base a.rows (lines newline str.chars))) =
      noteLines a.base a.rows (lines newline str.chars) :=
  lines_unlines (noteLines_newline _ _ fun _ hx => sep_notMem_of_mem_lines hx)

theorem string_shows (str : CString) :
    a.Shows (unlines newline (noteLines a.base a.rows (lines newline str.chars))) := by
  obtain ⟨hex, others, hlines, hshown, hothers⟩ :=
    noteLines_shown a.lined a.base (lines newline str.chars)
  exact ⟨hex, others, by rw [a.string_lines, hlines], hshown, hothers⟩

private theorem noteLine_columns (offset : Nat) {r : Row} (hr : r.length = 16) (t : Text) :
    (noteLine offset r t).drop 60 = t := by
  rw [noteLine, List.drop_left' (by simp [hr, ascii])]

private theorem short_columns (offset : Nat) {r : Row} (hr : r.length < 16) :
    (label offset ++ rowText r).drop 60 = [] := by
  rw [List.drop_eq_nil_iff]
  simp
  omega

private theorem overflow_columns (as : List Text) :
    (overflow as).flatMap (List.drop 60) = as.flatten := by
  have hindent (t : Text) : (indent ++ t).drop 60 = t := List.drop_left' (by simp [indent])
  rw [overflow, List.flatMap_append]
  simp [indented, List.flatMap_map, hindent]

private theorem noteLines_columns {rs : List Row} (h : Lined rs) (hne : rs ≠ []) (offset : Nat)
    (as : List Text) : (noteLines offset rs as).flatMap (List.drop 60) = as.flatten := by
  induction h generalizing offset as with
  | nil => contradiction
  | last r hr hlen =>
    have hlen' : r.length ≠ 16 := by omega
    have hpad : (padRow r).length = 16 := by
      simp [padRow]
      omega
    rcases as with _ | ⟨x, _ | ⟨y, more⟩⟩ <;>
      simp [noteLines, hlen', noteLine_columns offset hpad, short_columns offset hlen,
        overflow_columns]
  | full r b rs hlen hrs ih =>
    have hfull : (r ++ [some b]).length = 16 := by simp [hlen]
    cases rs with
    | nil =>
      rcases as with _ | ⟨x, _ | ⟨y, more⟩⟩ <;>
        simp [noteLines, hlen, noteLine_columns offset hfull, overflow_columns]
    | cons r' rs =>
      have hrest := ih (by simp) ((offset + 16) % 2 ^ 32) as.tail
      rw [noteLines, List.flatMap_cons, hrest, noteLine_columns offset hfull]
      · cases as <;> simp
      · simp

theorem string_columns (str : CString) :
    (lines newline (unlines newline (noteLines a.base a.rows (lines newline str.chars)))).flatMap
      (List.drop 60) = str.chars.filter (· ≠ newline) := by
  rw [a.string_lines, noteLines_columns a.lined a.rows_ne_nil, flatten_lines]

theorem labelled_row (i : Nat) {p : Nat × Row} (hp : (labelled a.base a.rows)[i]? = some p)
    (hend : a.offset.toNat + a.size.toNat ≤ 2 ^ 32) :
    p.1 = a.base + 16 * i ∧ p.2 = (a.cells.drop (16 * i)).take 16 := by
  rw [labelled_getElem? a.base_lt, Option.map_eq_some_iff] at hp
  obtain ⟨r, hr, rfl⟩ := hp
  have hcells := a.cells_length
  have hbase := a.base_add_gap
  have hpos := a.nonempty
  have hi : i < rowCount 16 a.cells.length := by
    rw [← rows_length, ← rows]
    exact (List.getElem?_eq_some_iff.mp hr).1
  have hrow := rows_getElem? 16 a.cells hi
  rw [← rows, hr, Option.some_inj] at hrow
  refine ⟨Nat.mod_eq_of_lt ?_, hrow⟩
  rw [rowCount] at hi
  omega

theorem cells_entry {k : Nat} :
    a.cells[k]?.join = if a.gap ≤ k then a.data[k - a.gap]? else none := by
  split_ifs with hk
  · rw [cells, List.getElem?_append_right (by simpa using hk), List.length_replicate,
      List.getElem?_map]
    cases a.data[k - a.gap]? <;> rfl
  · rw [cells, List.getElem?_append_left (by simpa using hk), List.getElem?_replicate,
      if_pos (by omega)]
    rfl

end DumpArgs

end PerfTools.Elf
