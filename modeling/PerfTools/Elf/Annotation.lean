import PerfTools.Elf.DumpShows

/-!
# Placement of the annotation lines

Annotation k belongs on hex line k, and the annotations beyond the last hex line on lines of
their own. The annotating dumper keeps to this unless the data ends on a 16-byte boundary while
annotations are left: it then prints the next one before it has ended the line.
-/

namespace PerfTools.Elf

open Memory Printf Grid Lines

/-- The lines out of a dump with n hex lines show every annotation of the list as in its place,
and no other line shows any. -/
structure AnnotationsPlaced (n : Nat) (as out : List Text) : Prop where
  hexLines : ∀ k line, out[k]? = some line → (isHexLine line = true ↔ k < n)
  placed : ∀ k x, as[k]? = some x → ∃ line, out[k]? = some line ∧
    if k < n then line.drop 58 = ascii "| " ++ x else line = indent ++ x
  unannotated : ∀ k line, out[k]? = some line → as.length ≤ k → line.drop 60 = []

namespace AnnotationsPlaced

theorem cons_iff {n : Nat} {as out : List Text} {line : Text} (hhex : isHexLine line = true)
    (hnote : ∀ x, as.head? = some x → line.drop 58 = ascii "| " ++ x)
    (hnone : as = [] → line.drop 60 = []) :
    AnnotationsPlaced (n + 1) as (line :: out) ↔ AnnotationsPlaced n as.tail out := by
  constructor
  · rintro ⟨hlines, hplaced, hrest⟩
    refine ⟨fun k l hl => ?_, fun k x hx => ?_, fun k l hl hk => ?_⟩
    · simpa using hlines (k + 1) l (by simpa using hl)
    · rw [List.getElem?_tail] at hx
      simpa using hplaced (k + 1) x hx
    · rw [List.length_tail] at hk
      exact hrest (k + 1) l (by simpa using hl) (by omega)
  · rintro ⟨hlines, hplaced, hrest⟩
    refine ⟨fun k l hl => ?_, fun k x hx => ?_, fun k l hl hk => ?_⟩
    · cases k with
      | zero =>
        obtain rfl : line = l := by simpa using hl
        simp [hhex]
      | succ k => simpa using hlines k l (by simpa using hl)
    · cases k with
      | zero => exact ⟨line, rfl, by simpa using hnote x (by simpa [List.head?_eq_getElem?] using hx)⟩
      | succ k => simpa using hplaced k x (by simpa [List.getElem?_tail] using hx)
    · cases k with
      | zero =>
        obtain rfl : line = l := by simpa using hl
        exact hnone (List.length_eq_zero_iff.mp (Nat.le_zero.mp hk))
      | succ k => exact hrest k l (by simpa using hl) (by rw [List.length_tail]; omega)

theorem nothing : AnnotationsPlaced 0 [] [] := ⟨by simp, by simp, by simp⟩

theorem overflow_placed (as : List Text) : AnnotationsPlaced 0 as (overflow as) := by
  refine ⟨fun k line hline => ?_, fun k x hx => ?_, fun k line hline hk => ?_⟩
  · simp [DumpArgs.overflow_unlabelled as line (List.mem_of_getElem? hline)]
  · have hlt : k < as.length := (List.getElem?_eq_some_iff.mp hx).1
    refine ⟨indent ++ x, ?_, by simp⟩
    rw [overflow, indented, List.getElem?_append_left (by simpa using hlt), List.getElem?_map, hx]
    rfl
  · rw [overflow, indented, List.getElem?_append_right (by simpa using hk), List.length_map] at hline
    obtain rfl : line = [] := (List.mem_singleton.mp (List.mem_of_getElem? hline))
    rfl

/-- When two annotations share the hex line, the blank line stands where the last one belongs. -/
theorem not_of_shared (x y : Text) (more : List Text) (line : Text) :
    ¬ AnnotationsPlaced 1 (x :: y :: more) (line :: overflow more) := by
  intro h
  obtain ⟨z, hz⟩ : ∃ z, (x :: y :: more)[more.length + 1]? = some z :=
    ⟨_, List.getElem?_eq_getElem (by simp)⟩
  obtain ⟨l, hl, hline⟩ := h.placed _ z hz
  have hblank : (line :: overflow more)[more.length + 1]? = some [] := by
    simp [overflow, indented]
  rw [hblank, Option.some_inj] at hl
  rw [if_neg (by omega), ← hl] at hline
  have hlen := congrArg List.length hline
  simp [indent] at hlen

end AnnotationsPlaced

theorem noteLine_annotates {offset : Nat} (hoff : offset < 2 ^ 32) {r : Row}
    (hr : r.length = 16) (t : Text) :
    isHexLine (noteLine offset r t) = true ∧ (noteLine offset r t).drop 58 = ascii "| " ++ t ∧
      (noteLine offset r t).drop 60 = t := by
  have hshow : ShowsRow offset r (noteLine offset r t) := by
    simpa [padRow_full hr.ge] using showsRow_note offset hr.le t
  refine ⟨by rw [isHexLine, hshow.labelOf_eq hoff]; rfl, ?_, ?_⟩
  · rw [noteLine, List.append_assoc, List.drop_left' (by simp [hr])]
  · rw [noteLine, List.drop_left' (by simp [hr, ascii])]

private theorem noteLines_placed {rs : List Row} (h : Lined rs) (hne : rs ≠ []) {offset : Nat}
    (hoff : offset < 2 ^ 32) (as : List Text) :
    AnnotationsPlaced rs.length as (noteLines offset rs as) ↔
      rs.flatten.length % 16 ≠ 0 ∨ as.length ≤ rs.length := by
  induction h generalizing offset as with
  | nil => contradiction
  | last r hr hlen =>
    have hne16 : r.length ≠ 16 := by omega
    have hpos : 0 < r.length := List.length_pos_iff.mpr hr
    have hpad : (padRow r).length = 16 := by simp [padRow]; omega
    refine iff_of_true ?_ (Or.inl (by simp; omega))
    cases as with
    | nil =>
      have hshow := (showsRow_short offset r).labelOf_eq hoff
      rw [noteLines, if_neg hne16, List.length_singleton, AnnotationsPlaced.cons_iff]
      · exact AnnotationsPlaced.nothing
      · rw [isHexLine, hshow]
        rfl
      · simp
      · intro _
        exact List.drop_of_length_le (by simp; omega)
    | cons x more =>
      obtain ⟨hhex, hdrop, -⟩ := noteLine_annotates hoff hpad x
      have hlines : noteLines offset [r] (x :: more) =
          noteLine offset (padRow r) x :: overflow more := by
        cases more <;> simp only [noteLines, if_neg hne16]
      rw [hlines, List.length_singleton, AnnotationsPlaced.cons_iff hhex (by simpa using hdrop)
        (by simp)]
      exact AnnotationsPlaced.overflow_placed more
  | full r b rs hlen hrs ih =>
    have hfull : (r ++ [some b]).length = 16 := by simp [hlen]
    have hnote := noteLine_annotates hoff hfull
    cases rs with
    | nil =>
      rcases as with _ | ⟨x, _ | ⟨y, more⟩⟩
      · refine iff_of_true ?_ (Or.inr (by simp))
        obtain ⟨hhex, -, hdrop⟩ := hnote []
        rw [noteLines, if_pos hfull, List.length_singleton,
          AnnotationsPlaced.cons_iff hhex (by simp) fun _ => hdrop]
        exact AnnotationsPlaced.nothing
      · refine iff_of_true ?_ (Or.inr (by simp))
        obtain ⟨hhex, hdrop, -⟩ := hnote x
        rw [noteLines, if_pos hfull, List.length_singleton,
          AnnotationsPlaced.cons_iff hhex (by simpa using hdrop) (by simp)]
        exact AnnotationsPlaced.nothing
      · refine iff_of_false ?_ (by simp [hlen])
        rw [noteLines, if_pos hfull, List.length_singleton]
        exact AnnotationsPlaced.not_of_shared x y more _
    | cons r' rs =>
      obtain ⟨hhex, hdrop, hdrop60⟩ := hnote (as.headD [])
      have hmod : ((r ++ [some b]) :: r' :: rs).flatten.length % 16 =
          (r' :: rs).flatten.length % 16 := by
        rw [List.flatten_cons, List.length_append, hfull, Nat.add_mod_left]
      rw [noteLines, List.length_cons, AnnotationsPlaced.cons_iff hhex,
        ih (by simp) (Nat.mod_lt _ (by decide)), hmod, List.length_tail, Nat.sub_le_iff_le_add]
      · intro x hx
        obtain ⟨more, rfl⟩ := List.head?_eq_some_iff.mp hx
        exact hdrop
      · rintro rfl
        exact hdrop60
      · simp

namespace DumpArgs

variable (a : DumpArgs)

theorem string_placed_iff (str : CString) :
    AnnotationsPlaced (rowCount 16 (a.offset.toNat % 16 + a.size.toNat)) (lines newline str.chars)
        (lines newline (unlines newline (noteLines a.base a.rows (lines newline str.chars)))) ↔
      (a.offset.toNat % 16 + a.size.toNat) % 16 ≠ 0 ∨
        (lines newline str.chars).length ≤ rowCount 16 (a.offset.toNat % 16 + a.size.toNat) := by
  have hlen : a.rows.length = rowCount 16 (a.offset.toNat % 16 + a.size.toNat) := by
    rw [rows, rows_length, cells_length]
    rfl
  have hplaced := noteLines_placed a.lined a.rows_ne_nil a.base_lt (lines newline str.chars)
  rw [a.rows_flatten, a.cells_length, hlen] at hplaced
  rw [a.string_lines, hplaced]
  rfl

/-- The annotations are placed exactly when the data ends inside a line or when there is a hex
line for each of them. -/
theorem binaryDumpWithString_placed_iff (str : CString) (rest : List UInt8) :
    (∃ t mem, binaryDumpWithString a.offset a.size (some a.ptr) (str.chars ++ 0 :: rest) (some 0) =
        .ok (t, mem) ∧
      AnnotationsPlaced (rowCount 16 (a.offset.toNat % 16 + a.size.toNat))
        (lines newline str.chars) (lines newline t)) ↔
      (a.offset.toNat % 16 + a.size.toNat) % 16 ≠ 0 ∨
        (lines newline str.chars).length ≤
          rowCount 16 (a.offset.toNat % 16 + a.size.toNat) := by
  rw [← a.string_placed_iff str, binaryDumpWithString_lines]
  constructor
  · rintro ⟨t, mem, hrun, hplaced⟩
    obtain ⟨rfl, -⟩ := Prod.mk.inj (Except.ok.inj hrun)
    exact hplaced
  · exact fun h => ⟨_, _, rfl, h⟩

end DumpArgs

/-- One full line. -/
def oneLine : DumpArgs where
  offset := 0x40
  size := 16
  ptr := ⟨⟨(List.range 16).map UInt8.ofNat, 0x40⟩, 0⟩
  nonempty := by decide
  readable := by decide
  indexFits := by decide

/-- Two annotations for one full line: both are printed on it. -/
theorem oneLine_not_placed :
    ¬ ∃ t mem, binaryDumpWithString oneLine.offset oneLine.size (some oneLine.ptr)
        (ascii "first
second" ++ [0]) (some 0) = .ok (t, mem) ∧
      AnnotationsPlaced 1 (lines newline (ascii "first
second")) (lines newline t) := by
  rintro ⟨t, mem, hrun, hplaced⟩
  rw [binaryDumpWithString_lines oneLine ⟨ascii "first
second", by decide⟩ []] at hrun
  obtain ⟨rfl, -⟩ := Prod.mk.inj (Except.ok.inj hrun)
  have hcond := (oneLine.string_placed_iff ⟨ascii "first
second", by decide⟩).mp hplaced
  revert hcond
  decide

end PerfTools.Elf
