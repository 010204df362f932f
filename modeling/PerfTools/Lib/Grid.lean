import Mathlib.Data.List.Basic

/-!
# Rows of a grid

A list is laid out in rows of a fixed width, row after row. The rows are given by position, so
that the cell in row r and column c is the element at w * r + c, and by a rule that takes one
full row off the front, which is what a loop that breaks its lines does.
-/

namespace PerfTools.Grid

variable {α : Type*}

/-- The number of rows of width w that n cells take. -/
def rowCount (w n : Nat) : Nat := (n + w - 1) / w

/-- The rows of a list; only the last one may be shorter than w. -/
def rows (w : Nat) (l : List α) : List (List α) :=
  (List.range (rowCount w l.length)).map fun r => (l.drop (w * r)).take w

@[simp] theorem rows_length (w : Nat) (l : List α) :
    (rows w l).length = rowCount w l.length := by
  simp [rows]

theorem rowCount_add {w : Nat} (hw : 0 < w) (n : Nat) :
    rowCount w (w + n) = rowCount w n + 1 := by
  have h : w + n + w - 1 = n + w - 1 + w := by omega
  rw [rowCount, h, Nat.add_div_right _ hw, rowCount]

theorem rowCount_of_le {w n : Nat} (hn : 0 < n) (hle : n ≤ w) : rowCount w n = 1 := by
  have h : n + w - 1 = n - 1 + w := by omega
  rw [rowCount, h, Nat.add_div_right _ (by omega), Nat.div_eq_of_lt (by omega)]

@[simp] theorem rows_nil {w : Nat} (hw : 0 < w) : rows w ([] : List α) = [] := by
  simp [rows, rowCount, Nat.div_eq_of_lt (show w - 1 < w by omega)]

theorem rows_append {w : Nat} (hw : 0 < w) {row : List α} (hrow : row.length = w) (l : List α) :
    rows w (row ++ l) = row :: rows w l := by
  subst hrow
  rw [rows, List.length_append, rowCount_add hw, List.range_succ_eq_map, List.map_cons,
    List.map_map]
  congr 1
  · simp
  · rw [rows]
    apply List.map_congr_left
    intro r _
    have hpos : row.length * (r + 1) = row.length + row.length * r := by
      rw [Nat.mul_succ, Nat.add_comm]
    rw [Function.comp_apply, hpos, List.drop_append, List.drop_of_length_le (by omega),
      Nat.add_sub_cancel_left, List.nil_append]

theorem rows_of_length_le {w : Nat} {l : List α} (hl : l ≠ []) (hle : l.length ≤ w) :
    rows w l = [l] := by
  have hpos : 0 < l.length := List.length_pos_iff.mpr hl
  simp [rows, rowCount_of_le hpos hle, List.take_of_length_le hle]

theorem flatten_rows {w : Nat} (hw : 0 < w) (l : List α) : (rows w l).flatten = l := by
  induction hn : l.length using Nat.strongRecOn generalizing l with
  | _ n ih =>
    by_cases hnil : l = []
    · simp [hnil, hw]
    · by_cases hshort : l.length ≤ w
      · simp [rows_of_length_le hnil hshort]
      · have hlen : (l.take w).length = w := by simp; omega
        have hrest := ih (l.drop w).length (by rw [List.length_drop]; omega) (l.drop w) rfl
        conv_lhs => rw [← List.take_append_drop w l, rows_append hw hlen]
        rw [List.flatten_cons, hrest, List.take_append_drop]

theorem rows_getElem? (w : Nat) (l : List α) {r : Nat} (hr : r < rowCount w l.length) :
    (rows w l)[r]? = some ((l.drop (w * r)).take w) := by
  simp [rows, hr]

end PerfTools.Grid
