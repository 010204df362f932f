import PerfTools.Lib.Grid
import PerfTools.Lib.Lines
import PerfTools.Elf.BinaryDump

/-!
# Layout of the dumps

The loop of the dumpers walks bytes with one counter; here its text is given row by row. A row
is the list of the cells a line shows, the leading gap being cells without a byte, and
`dumpRows` prints one row after the other. `dumpBody_rows` is the refinement: for every dumper
the head and the loop print the rows of the data.
-/

namespace PerfTools.Elf

open Memory Printf Grid

/-- The cells of one line, a cell before the first byte being none. -/
abbrev Row := List (Option UInt8)

def cellText : Option UInt8 → Text
  | none => ascii "   "
  | some b => Hex.fixed 2 b.toNat ++ [space]

def rowText (r : Row) : Text := r.flatMap cellText

variable {σ : Type}

namespace Gutter

/-- The dumper's variables after the cells of a row, from column c on. -/
def cells (g : Gutter σ) : Nat → Row → σ → σ
  | _, [], s => s
  | c, none :: r, s => g.cells (c + 1) r s
  | c, some b :: r, s => g.cells (c + 1) r (g.cell s c b)

/-- What a full row adds right of its bytes, from column c on. -/
def line (g : Gutter σ) : Nat → Row → σ → Except Fault (Text × σ)
  | _, [], s => .ok ([], s)
  | c, none :: r, s => g.line (c + 1) r s
  | c, some b :: r, s => if c = 15 then g.full s b else g.line (c + 1) r (g.cell s c b)

end Gutter

/-- The dump of a list of rows, a full one being followed by a new line only when there is a
further row. -/
def dumpRows (g : Gutter σ) : Nat → List Row → σ → Except Fault (Text × σ)
  | _, [], s => .ok ([], s)
  | offset, r :: rs, s =>
    if r.length = 16 then do
      let (t, s) ← g.line 0 r s
      if rs = [] then return (label offset ++ (rowText r).dropLast ++ t, s)
      else
        let (rest, s) ← dumpRows g ((offset + 16) % 2 ^ 32) rs (g.next s)
        return (label offset ++ (rowText r).dropLast ++ t ++ [newline] ++ rest, s)
    else return (label offset ++ rowText r, g.cells 0 r s)

/-- The dump of the cells of a line from column c on, and of the lines after it. This is the
loop with the gap as part of the data. -/
private def dumpCells (g : Gutter σ) : Row → Nat → Nat → σ → Except Fault (Text × σ)
  | [], _, _, s => .ok ([], s)
  | none :: cs, c, offset, s => do
    let (rest, s) ← dumpCells g cs (c + 1) offset s
    return (ascii "   " ++ rest, s)
  | some b :: cs, c, offset, s =>
    if c = 15 then do
      let (t, s) ← g.full s b
      if cs = [] then return (Hex.fixed 2 b.toNat ++ t, s)
      else
        let (rest, s) ← dumpCells g cs 0 ((offset + 16) % 2 ^ 32) (g.next s)
        return (Hex.fixed 2 b.toNat ++ t ++ [newline] ++ label ((offset + 16) % 2 ^ 32) ++ rest, s)
    else do
      let (rest, s) ← dumpCells g cs (c + 1) offset (g.cell s c b)
      return (Hex.fixed 2 b.toNat ++ [space] ++ rest, s)

private theorem dumpLoop_cells (g : Gutter σ) (p : Ptr) {gap stop n j : Nat} (offset : Nat) (s : σ)
    (hgap : gap ≤ j) (hread : j - gap + n ≤ p.tail.length) (hmax : j + n ≤ intMax)
    (hstop : j + n = stop) :
    dumpLoop g p gap stop n j offset s =
      dumpCells g (((p.tail.drop (j - gap)).take n).map some) (j % 16) offset s := by
  induction n generalizing j offset s with
  | zero => simp [dumpLoop, dumpCells]
  | succ n ih =>
    have hlt : j - gap < p.tail.length := by omega
    have hdrop : p.tail.drop (j - gap) = p.tail[j - gap] :: p.tail.drop (j + 1 - gap) := by
      rw [List.drop_eq_getElem_cons hlt, show j - gap + 1 = j + 1 - gap by omega]
    have ih' := fun offset s => ih (j := j + 1) offset s (by omega) (by omega) (by omega) (by omega)
    rw [dumpLoop, if_neg (by omega), Ptr.byte_of_lt hlt, ok_bind, hdrop, List.take_succ_cons,
      List.map_cons, dumpCells]
    by_cases hcol : (j + 1) % 16 = 0
    · rw [if_pos hcol, if_pos (show j % 16 = 15 by omega)]
      congr 1
      funext x
      by_cases hn : n = 0
      · subst hn
        simp [dumpLoop, hstop]
      · have hne : j + 1 ≠ stop := by omega
        have hnil : List.map some (List.take n (List.drop (j + 1 - gap) p.tail)) ≠ [] := by
          rw [Ne, List.map_eq_nil_iff, List.take_eq_nil_iff, List.drop_eq_nil_iff]
          omega
        simp only [hne, hnil, ih', hcol, ne_eq, not_false_eq_true, if_true, if_false]
    · rw [if_neg hcol, if_neg (show j % 16 ≠ 15 by omega), ih',
        show (j + 1) % 16 = j % 16 + 1 by omega]

private theorem cellText_ne_nil (o : Option UInt8) : cellText o ≠ [] := by
  cases o <;> simp [cellText, ascii]

private theorem dropLast_cell_append (o : Option UInt8) {r : Row} (hr : r ≠ []) :
    (rowText (o :: r)).dropLast = cellText o ++ (rowText r).dropLast := by
  obtain ⟨a, r, rfl⟩ := List.exists_cons_of_ne_nil hr
  rw [rowText, List.flatMap_cons, List.dropLast_append_of_ne_nil, rowText]
  simp [cellText_ne_nil]

/-- A row that fills its line up to column 15 and ends in a byte, and the lines behind it. -/
private theorem dumpCells_full (g : Gutter σ) {r : Row} (hr : r ≠ []) (rest : Row) {c : Nat}
    (offset : Nat) (s : σ) (hc : c + r.length = 16) (hlast : r.getLast hr ≠ none) :
    dumpCells g (r ++ rest) c offset s = (do
      let (t, s) ← g.line c r s
      if rest = [] then return ((rowText r).dropLast ++ t, s)
      else
        let (x, s) ← dumpCells g rest 0 ((offset + 16) % 2 ^ 32) (g.next s)
        return ((rowText r).dropLast ++ t ++ [newline] ++ label ((offset + 16) % 2 ^ 32) ++ x, s))
    := by
  induction r generalizing c s with
  | nil => contradiction
  | cons o r ih =>
    by_cases hnil : r = []
    · subst hnil
      have hc15 : c = 15 := by simpa using hc
      cases o with
      | none => simp at hlast
      | some b =>
        simp [dumpCells, Gutter.line, hc15, rowText, cellText]
    · have hlen : r.length ≠ 0 := by simpa using hnil
      have hc15 : c ≠ 15 := by simp only [List.length_cons] at hc; omega
      have ih' := fun s => ih hnil s (c := c + 1) (by simp only [List.length_cons] at hc; omega)
        (by simpa [List.getLast_cons hnil] using hlast)
      rw [dropLast_cell_append o hnil]
      cases o with
      | none =>
        simp only [List.cons_append, dumpCells, Gutter.line, ih', cellText, bind_assoc]
        congr 1
        funext x
        split_ifs <;> simp
      | some b =>
        simp only [List.cons_append, dumpCells, Gutter.line, if_neg hc15, ih', cellText,
          bind_assoc]
        congr 1
        funext x
        split_ifs <;> simp

private theorem dumpCells_partial (g : Gutter σ) {r : Row} {c : Nat} (offset : Nat) (s : σ)
    (hc : c + r.length < 16) :
    dumpCells g r c offset s = .ok (rowText r, g.cells c r s) := by
  induction r generalizing c s with
  | nil => simp [dumpCells, rowText, Gutter.cells]
  | cons o r ih =>
    simp only [List.length_cons] at hc
    have ih' := fun s => ih (c := c + 1) s (by omega)
    cases o with
    | none => simp [dumpCells, Gutter.cells, ih', rowText, cellText]
    | some b =>
      simp [dumpCells, Gutter.cells, ih', rowText, cellText, show c ≠ 15 by omega]

/-- Cells from column 15 on hold bytes; only the leading gap does not. -/
def Filled (cs : Row) : Prop := ∀ k, 15 ≤ k → cs[k]? ≠ some none

private theorem dumpCells_rows (g : Gutter σ) (cs : Row) (hcs : cs ≠ []) (hfill : Filled cs)
    (offset : Nat) (s : σ) :
    dumpRows g offset (rows 16 cs) s = (do
      let (t, s) ← dumpCells g cs 0 offset s
      return (label offset ++ t, s)) := by
  induction hn : cs.length using Nat.strong_induction_on generalizing cs offset s with
  | _ n ih =>
    by_cases hshort : cs.length < 16
    · rw [rows_of_length_le hcs (by omega), dumpRows, if_neg (by omega),
        dumpCells_partial g offset s (by omega)]
      rfl
    · have hlen : (cs.take 16).length = 16 := by simp; omega
      have hne : cs.take 16 ≠ [] := by
        intro h
        simp [h] at hlen
      have hlast : (cs.take 16).getLast hne ≠ none := by
        intro h
        have hget := hfill 15 (by omega)
        rw [List.getLast_eq_getElem] at h
        simp only [hlen, List.getElem_take] at h
        exact hget (by rw [List.getElem?_eq_getElem (by omega), h])
      have hsplit : cs = cs.take 16 ++ cs.drop 16 := (List.take_append_drop 16 cs).symm
      have hfull := dumpCells_full g hne (cs.drop 16) offset s (c := 0) (by omega) hlast
      rw [← hsplit] at hfull
      have hrows : rows 16 cs = cs.take 16 :: rows 16 (cs.drop 16) := by
        conv_lhs => rw [hsplit]
        exact rows_append (by decide) hlen _
      rw [hrows, dumpRows, if_pos hlen, hfull, bind_assoc]
      congr 1
      funext x
      by_cases hrest : cs.drop 16 = []
      · simp [hrest]
      · have hpos : 0 < (cs.drop 16).length := List.length_pos_iff.mpr hrest
        have hrs : rows 16 (cs.drop 16) ≠ [] := by
          intro h
          have hcount := congrArg List.length h
          simp only [rows_length, rowCount, List.length_nil] at hcount
          omega
        have hih := fun offset s => ih (cs.drop 16).length (by rw [List.length_drop]; omega)
          (cs.drop 16) hrest (fun k hk => by
            rw [List.getElem?_drop]
            exact hfill _ (by omega)) offset s rfl
        simp only [hrest, hrs, if_false, hih, bind_assoc]
        simp

private theorem dumpCells_gap (g : Gutter σ) (gap : Nat) (cs : Row) (c offset : Nat) (s : σ) :
    dumpCells g (List.replicate gap none ++ cs) c offset s = (do
      let (t, s) ← dumpCells g cs (c + gap) offset s
      return (blanks gap ++ t, s)) := by
  induction gap generalizing c with
  | zero => cases h : dumpCells g cs c offset s <;> simp [blanks, h]
  | succ gap ih =>
    have hblank : blanks (gap + 1) = ascii "   " ++ blanks gap := by
      rw [blanks, Nat.mul_succ, Nat.add_comm, List.replicate_add]
      rfl
    simp only [List.replicate_succ, List.cons_append, dumpCells, ih, bind_assoc, hblank]
    rw [show c + 1 + gap = c + (gap + 1) by omega]
    simp

/-- Arguments with which a dumper prints something: a readable buffer that is not empty, and a
last index that the loop counter can hold. -/
structure DumpArgs where
  offset : UInt32
  size : UInt32
  ptr : Ptr
  nonempty : 0 < size.toNat
  readable : size.toNat ≤ ptr.tail.length
  indexFits : offset.toNat % 16 + size.toNat < 2 ^ 31

namespace DumpArgs

def gap (a : DumpArgs) : Nat := a.offset.toNat % 16

def base (a : DumpArgs) : Nat := a.offset.toNat / 16 * 16

/-- The dumped bytes. -/
def data (a : DumpArgs) : List UInt8 := a.ptr.tail.take a.size.toNat

def cells (a : DumpArgs) : Row := List.replicate a.gap none ++ a.data.map some

def rows (a : DumpArgs) : List Row := Grid.rows 16 a.cells

variable (a : DumpArgs)

@[simp] theorem data_length : a.data.length = a.size.toNat := by
  simp [data, a.readable]

@[simp] theorem cells_length : a.cells.length = a.gap + a.size.toNat := by
  simp [cells]

theorem gap_lt : a.gap < 16 := Nat.mod_lt _ (by decide)

theorem base_add_gap : a.base + a.gap = a.offset.toNat := Nat.div_add_mod' _ _

theorem size_ne_zero : a.size ≠ 0 := by
  intro h
  simpa [h] using a.nonempty

theorem cells_filled : Filled a.cells := by
  intro k hk
  have hgap := a.gap_lt
  rw [cells, List.getElem?_append_right (by simp; omega), List.getElem?_map]
  simp

theorem cells_ne_nil : a.cells ≠ [] := by
  intro h
  have hlen := congrArg List.length h
  have hpos := a.nonempty
  simp at hlen
  omega

end DumpArgs

theorem dumpBody_rows (g : Gutter σ) (a : DumpArgs) (s : σ) :
    dumpBody g a.offset a.size a.ptr s = (do
      let (t, s) ← dumpRows g a.base a.rows s
      return (t, s, a.gap + a.size.toNat)) := by
  have hgap := a.gap_lt
  have hpos := a.nonempty
  have hread := a.readable
  have hfits := a.indexFits
  have hstop : (a.gap + a.size.toNat) % 2 ^ 32 = a.gap + a.size.toNat :=
    Nat.mod_eq_of_lt (by unfold DumpArgs.gap; omega)
  have hend : a.gap + a.size.toNat = a.gap + a.size.toNat := rfl
  have hloop := dumpLoop_cells g a.ptr a.base s (le_refl a.gap) (by omega)
    (by unfold DumpArgs.gap intMax; omega) hend
  have hbody : dumpBody g a.offset a.size a.ptr s = (do
      let (t, s) ← dumpLoop g a.ptr a.gap ((a.gap + a.size.toNat) % 2 ^ 32)
        ((a.gap + a.size.toNat) % 2 ^ 32 - a.gap) a.gap a.base s
      return (label a.base ++ blanks a.gap ++ t, s, max a.gap ((a.gap + a.size.toNat) % 2 ^ 32))) :=
    rfl
  rw [Nat.sub_self, List.drop_zero, Nat.mod_eq_of_lt hgap] at hloop
  rw [DumpArgs.rows, dumpCells_rows g a.cells a.cells_ne_nil a.cells_filled, DumpArgs.cells,
    dumpCells_gap,
    hbody, hstop, Nat.add_sub_cancel_left, hloop, DumpArgs.data, Nat.zero_add,
    Nat.max_eq_right (Nat.le_add_right _ _)]
  simp only [bind_assoc]
  rfl

/-- The loop fails when one of its rounds has the largest int as its counter or no byte to read. -/
private theorem dumpLoop_fails (g : Gutter σ) (p : Ptr) (gap stop : Nat) {n j k : Nat}
    (offset : Nat) (s : σ) (hk : k < n)
    (hbad : j + k = intMax ∨ p.byte (j + k - gap) = .error .outOfBounds) :
    ∃ e, dumpLoop g p gap stop n j offset s = .error e := by
  induction n generalizing j k offset s with
  | zero => omega
  | succ n ih =>
    rw [dumpLoop]
    by_cases hmax : j = intMax
    · exact ⟨.overflow, if_pos hmax⟩
    rw [if_neg hmax]
    rcases hbyte : p.byte (j - gap) with e | b
    · exact ⟨e, rfl⟩
    have hpos : k ≠ 0 := by
      rintro rfl
      rcases hbad with hcount | hread
      · exact hmax hcount
      · rw [Nat.add_zero, hbyte] at hread
        cases hread
    have hrest := fun offset s => ih (j := j + 1) (k := k - 1) offset s (by omega)
      (by rwa [show j + 1 + (k - 1) = j + k by omega])
    rw [ok_bind]
    split_ifs with hfull hmore
    · rcases g.full s b with e | ⟨t, s⟩
      · exact ⟨e, rfl⟩
      · obtain ⟨e, he⟩ := hrest ((offset + 16) % 2 ^ 32) (g.next s)
        exact ⟨e, by simp only [ok_bind, he, error_bind]⟩
    · rcases g.full s b with e | ⟨t, s⟩
      · exact ⟨e, rfl⟩
      · obtain ⟨e, he⟩ := hrest offset s
        exact ⟨e, by simp only [ok_bind, he, error_bind]⟩
    · obtain ⟨e, he⟩ := hrest offset (g.cell s (j % 16) b)
      exact ⟨e, by simp only [he, error_bind]⟩

/-- A dump fails when its last index is beyond the loop counter or its buffer is too short. -/
theorem dumpBody_fails (g : Gutter σ) (offset : UInt32) {size : UInt32} (p : Ptr) (s : σ)
    (hsize : size.toNat < 2 ^ 31)
    (h : 2 ^ 31 ≤ offset.toNat % 16 + size.toNat ∨ p.tail.length < size.toNat) :
    ∃ e, dumpBody g offset size p s = .error e := by
  have hgap := Nat.mod_lt offset.toNat (show 0 < 16 by decide)
  have hstop : (offset.toNat % 16 + size.toNat) % 2 ^ 32 = offset.toNat % 16 + size.toNat :=
    Nat.mod_eq_of_lt (by omega)
  have hround : ∃ k < size.toNat, offset.toNat % 16 + k = intMax ∨
      p.byte (offset.toNat % 16 + k - offset.toNat % 16) = .error .outOfBounds := by
    rcases h with hlong | hshort
    · exact ⟨intMax - offset.toNat % 16, by unfold intMax; omega, Or.inl (by unfold intMax; omega)⟩
    · exact ⟨p.tail.length, hshort, Or.inr (by simp [Ptr.byte])⟩
  obtain ⟨k, hk, hbad⟩ := hround
  obtain ⟨e, he⟩ := dumpLoop_fails g p (offset.toNat % 16) (offset.toNat % 16 + size.toNat)
    (offset.toNat / 16 * 16) s hk hbad
  exact ⟨e, by simp only [dumpBody, hstop, Nat.add_sub_cancel_left, he, error_bind]⟩

end PerfTools.Elf
