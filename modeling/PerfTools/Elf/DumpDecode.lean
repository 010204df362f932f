import Mathlib.Data.List.DropRight
import PerfTools.Elf.DumpLines

/-!
# Reading a dump back

A decoder for dump texts: the label of a line, the entries of its sixteen columns, and the
bytes of a whole text with their positions. `ShowsRow` says that a line shows a row under a
label, whatever stands behind column 57, so that one set of lemmas serves the lines of all four
dumpers.
-/

namespace PerfTools.Elf

open Memory Printf Grid Lines

/-- The number in the first eight characters of a line, when they are digits. -/
def labelOf (line : Text) : Option Nat :=
  if 8 ≤ line.length then Hex.value (line.take 8) else none

def isHexLine (line : Text) : Bool := (labelOf line).isSome

/-- The byte shown in column c. -/
def entryAt (l : Text) (c : Nat) : Option UInt8 := do
  let hi ← l[10 + 3 * c]?
  let lo ← l[11 + 3 * c]?
  Hex.byteValue hi lo

/-- The bytes of a line with their positions. -/
def decodeLine (line : Text) : List (UInt8 × Nat) :=
  match labelOf line with
  | none => []
  | some l => (List.range 16).filterMap fun c => (entryAt line c).map (·, l + c)

def decodeDump (t : Text) : List (UInt8 × Nat) := (lines newline t).flatMap decodeLine

/-- The position of the first byte, and all bytes. -/
def decode (t : Text) : Option (Nat × List UInt8) :=
  (decodeDump t).head?.map fun e => (e.2, (decodeDump t).map Prod.fst)

/-- The part of a line that shows bytes, without the blanks at its end. -/
def hexPart (line : Text) : Text := (line.take 57).rdropWhile (· = space)

/-- The hex lines of a text, cut behind the bytes. -/
def hexParts (t : Text) : List Text := ((lines newline t).filter isHexLine).map hexPart

/-- Up to column 57 the line is the row under its label, filled up with blanks. -/
def ShowsRow (offset : Nat) (r : Row) (line : Text) : Prop :=
  ∃ k, line.take 57 = (label offset ++ rowText r ++ List.replicate k space).take 57

@[simp] theorem label_length (offset : Nat) : (label offset).length = 10 := by
  simp [label, ascii]

@[simp] theorem rowText_length (r : Row) : (rowText r).length = 3 * r.length := by
  induction r with
  | nil => rfl
  | cons o r ih =>
    have hcell : (cellText o).length = 3 := by cases o <;> simp [cellText, ascii]
    rw [rowText, List.flatMap_cons, ← rowText, List.length_append, hcell, ih, List.length_cons]
    omega

theorem rowText_cons (o : Option UInt8) (r : Row) : rowText (o :: r) = cellText o ++ rowText r := by
  simp [rowText]

theorem space_not_digit : Hex.digitValue space = none := rfl

/-- A cell starts three characters behind the one before it. -/
private theorem rowText_drop (r : Row) (c : Nat) :
    (rowText r).drop (3 * c) = rowText (r.drop c) := by
  induction c generalizing r with
  | zero => rfl
  | succ c ih =>
    cases r with
    | nil => simp [rowText]
    | cons o r =>
      have hcell : (cellText o).length = 3 := by cases o <;> simp [cellText, ascii]
      rw [rowText_cons, List.drop_append, List.drop_of_length_le (by omega), hcell,
        show 3 * (c + 1) - 3 = 3 * c by omega, ih, List.nil_append, List.drop_succ_cons]

private theorem entryAt_drop (line : Text) (c : Nat) :
    entryAt line c = ((line.drop (10 + 3 * c))[0]?.bind fun hi =>
      (line.drop (10 + 3 * c))[1]?.bind fun lo => Hex.byteValue hi lo) := by
  simp only [List.getElem?_drop, Nat.add_zero]
  rw [show 10 + 3 * c + 1 = 11 + 3 * c by omega]
  rfl

private theorem entryAt_row (offset : Nat) (r : Row) (k c : Nat) :
    entryAt (label offset ++ rowText r ++ List.replicate k space) c = r[c]?.join := by
  have hlabel : (label offset).drop (10 + 3 * c) = [] :=
    List.drop_of_length_le (by simp)
  rw [entryAt_drop, List.append_assoc, List.drop_append, hlabel, label_length,
    Nat.add_sub_cancel_left, List.nil_append, List.drop_append, rowText_drop]
  by_cases hc : c < r.length
  · rw [List.drop_eq_getElem_cons hc, rowText_cons, List.getElem?_eq_getElem hc, Option.join_some]
    cases r[c] with
    | none => simp [cellText, ascii, Hex.byteValue, Hex.digitValue]
    | some b => simp [cellText, Hex.fixed_two, Hex.byteValue_digits]
  · rw [List.drop_of_length_le (by omega), List.getElem?_eq_none (show r.length ≤ c by omega),
      Option.join_none]
    generalize 3 * c - (rowText r).length = m
    cases h : (List.replicate k space).drop m with
    | nil => simp [rowText]
    | cons b bs =>
      have hb : b = space := List.eq_of_mem_replicate (List.mem_of_mem_drop (h ▸ List.mem_cons_self))
      cases bs <;> simp [rowText, hb, Hex.byteValue, space_not_digit]

namespace ShowsRow

variable {offset : Nat} {r : Row} {line : Text}

theorem labelOf_eq (h : ShowsRow offset r line) (hoff : offset < 2 ^ 32) :
    labelOf line = some offset := by
  obtain ⟨k, hk⟩ := h
  have hlen := congrArg List.length hk
  have htake := congrArg (List.take 8) hk
  simp only [List.length_take, List.length_append, label_length] at hlen
  rw [List.take_take, List.take_take, List.append_assoc, label, List.append_assoc,
    Nat.min_eq_left (by decide), List.take_left' (by simp)] at htake
  rw [labelOf, if_pos (by omega), htake, Hex.value_fixed (by simpa using hoff)]

theorem entryAt_eq (h : ShowsRow offset r line) {c : Nat} (hc : c < 16) :
    entryAt line c = r[c]?.join := by
  obtain ⟨k, hk⟩ := h
  have htake (l : Text) : entryAt (l.take 57) c = entryAt l c := by
    simp only [entryAt]
    rw [List.getElem?_take_of_lt (by omega), List.getElem?_take_of_lt (by omega)]
  rw [← htake line, hk, htake, entryAt_row]

/-- The hex part depends on the row and its label only. -/
theorem hexPart_eq (h : ShowsRow offset r line) :
    hexPart line = hexPart (label offset ++ rowText r) := by
  obtain ⟨k, hk⟩ := h
  have hblank (l : Text) (n : Nat) :
      (l ++ List.replicate n space).rdropWhile (· = space) = l.rdropWhile (· = space) := by
    induction n generalizing l with
    | zero => simp
    | succ n ih =>
      rw [List.replicate_succ', ← List.append_assoc, List.rdropWhile_concat_pos _ _ _ (by simp), ih]
  rw [hexPart, hk, List.take_append, List.take_replicate, hblank, hexPart]

end ShowsRow

/-- The bytes of a labelled row with their positions. -/
def rowEntries (p : Nat × Row) : List (UInt8 × Nat) :=
  (p.2.zipIdx p.1).filterMap fun e => e.1.map (·, e.2)

private theorem columns_entries (r : Row) (l : Nat) {n : Nat} (hn : r.length ≤ n) :
    ((List.range n).filterMap fun c => (r[c]?.join).map (·, l + c)) = rowEntries (l, r) := by
  induction r generalizing l n with
  | nil => simp [rowEntries]
  | cons o r ih =>
    obtain ⟨m, rfl⟩ := Nat.exists_eq_add_of_le' (show 1 ≤ n by simp at hn; omega)
    have hrec := ih (l + 1) (n := m) (by simpa using hn)
    rw [List.range_succ_eq_map, List.filterMap_cons, List.filterMap_map]
    simp only [rowEntries, List.zipIdx_cons, List.filterMap_cons, List.getElem?_cons_zero,
      Option.join_some, Nat.add_zero, Function.comp_def, List.getElem?_cons_succ] at hrec ⊢
    rw [← hrec]
    simp only [Nat.add_right_comm l 1, Nat.succ_eq_add_one, Nat.add_assoc l]

theorem ShowsRow.decodeLine_eq {offset : Nat} {r : Row} {line : Text}
    (h : ShowsRow offset r line) (hoff : offset < 2 ^ 32) (hr : r.length ≤ 16) :
    decodeLine line = rowEntries (offset, r) := by
  rw [decodeLine, h.labelOf_eq hoff, ← columns_entries r offset hr]
  apply List.filterMap_congr
  intro c hc
  rw [h.entryAt_eq (List.mem_range.mp hc)]

/-- The labels are the offsets of the rows modulo 2^32. -/
theorem labelled_getElem? {offset : Nat} (hoff : offset < 2 ^ 32) (rs : List Row) (i : Nat) :
    (labelled offset rs)[i]? = rs[i]?.map (((offset + 16 * i) % 2 ^ 32), ·) := by
  induction rs generalizing offset i with
  | nil => simp [labelled]
  | cons r rs ih =>
    cases i with
    | zero =>
      have hmod := Nat.mod_eq_of_lt hoff
      simpa [labelled] using hmod.symm
    | succ i =>
      rw [labelled, List.getElem?_cons_succ, List.getElem?_cons_succ,
        ih (Nat.mod_lt _ (by decide)), Nat.mod_add_mod, Nat.mul_succ]
      simp only [Nat.add_assoc, Nat.add_comm 16]

@[simp] theorem labelled_length (offset : Nat) (rs : List Row) :
    (labelled offset rs).length = rs.length := by
  induction rs generalizing offset with
  | nil => rfl
  | cons r rs ih => simp [labelled, ih]

theorem labelled_lt {offset : Nat} (hoff : offset < 2 ^ 32) {rs : List Row} {p : Nat × Row}
    (hp : p ∈ labelled offset rs) : p.1 < 2 ^ 32 ∧ p.2 ∈ rs := by
  induction rs generalizing offset with
  | nil => simp [labelled] at hp
  | cons r rs ih =>
    rcases List.mem_cons.mp hp with rfl | hp
    · exact ⟨hoff, List.mem_cons_self⟩
    · obtain ⟨hlt, hmem⟩ := ih (Nat.mod_lt _ (by decide)) hp
      exact ⟨hlt, List.mem_cons_of_mem _ hmem⟩

theorem Lined.length_le {rs : List Row} (h : Lined rs) {r : Row} (hr : r ∈ rs) :
    r.length ≤ 16 := by
  induction h with
  | nil => simp at hr
  | last r' _ hlen =>
    rw [List.mem_singleton.mp hr]
    omega
  | full r' b rs hlen _ ih =>
    rcases List.mem_cons.mp hr with rfl | hr
    · simp [hlen]
    · exact ih hr

/-- The entries of all rows, when no label wraps, are the bytes with their positions. -/
theorem labelled_entries {rs : List Row} (h : Lined rs) {offset : Nat}
    (hend : offset + rs.flatten.length ≤ 2 ^ 32) :
    (labelled offset rs).flatMap rowEntries = rowEntries (offset, rs.flatten) := by
  induction h generalizing offset with
  | nil => rfl
  | last r _ _ => simp [labelled]
  | full r b rs hlen hrs ih =>
    have hfull : (r ++ [some b]).length = 16 := by simp [hlen]
    rw [List.flatten_cons, List.length_append, hfull] at hend
    rw [labelled, List.flatMap_cons, List.flatten_cons]
    cases hrs' : rs with
    | nil => simp [labelled]
    | cons r' rs' =>
      have hpos : 0 < rs.flatten.length := by
        cases hrs with
        | nil => simp at hrs'
        | last r₁ hr₁ _ => simpa using List.length_pos_iff.mpr hr₁
        | full r₁ b₁ rs₁ _ _ => simp
      rw [← hrs', Nat.mod_eq_of_lt (by omega), ih (by omega)]
      simp only [rowEntries, List.zipIdx_append, List.filterMap_append, hfull]

namespace DumpArgs

variable (a : DumpArgs)

theorem base_lt : a.base < 2 ^ 32 := by
  have hlt := a.offset.toNat_lt
  have hbase := a.base_add_gap
  omega

theorem cells_entries : rowEntries (a.base, a.cells) = a.data.zipIdx a.offset.toNat := by
  have hgap (k n : Nat) : rowEntries (n, List.replicate k none) = [] := by
    induction k generalizing n with
    | zero => rfl
    | succ k ih =>
      simpa [rowEntries, List.replicate_succ, List.zipIdx_cons] using ih (n + 1)
  have hdata (l : List UInt8) (n : Nat) : rowEntries (n, l.map some) = l.zipIdx n := by
    induction l generalizing n with
    | nil => rfl
    | cons b l ih => simpa [rowEntries, List.zipIdx_cons] using ih (n + 1)
  have hsplit : rowEntries (a.base, a.cells) =
      rowEntries (a.base, List.replicate a.gap none) ++
        rowEntries (a.base + a.gap, a.data.map some) := by
    simp only [cells, rowEntries, List.zipIdx_append, List.filterMap_append, List.length_replicate]
  rw [hsplit, hgap, hdata, a.base_add_gap, List.nil_append]

/-- The text shows the bytes: one line for each row, then lines without a label. -/
def Shows (t : Text) : Prop :=
  ∃ hex others, lines newline t = hex ++ others ∧
    List.Forall₂ (fun p line => ShowsRow p.1 p.2 line) (labelled a.base a.rows) hex ∧
    ∀ line ∈ others, isHexLine line = false

namespace Shows

variable {a} {t : Text}

private theorem decodeLines_eq {ps : List (Nat × Row)} {hex : List Text}
    (h : List.Forall₂ (fun p line => ShowsRow p.1 p.2 line) ps hex)
    (hps : ∀ p ∈ ps, p.1 < 2 ^ 32 ∧ p.2.length ≤ 16) :
    hex.flatMap decodeLine = ps.flatMap rowEntries := by
  induction h with
  | nil => rfl
  | cons hline _ ih =>
    obtain ⟨hlt, hlen⟩ := hps _ List.mem_cons_self
    rw [List.flatMap_cons, List.flatMap_cons, hline.decodeLine_eq hlt hlen,
      ih fun p hp => hps p (List.mem_cons_of_mem _ hp)]

/-- What a text shows, when the bytes end within the 32-bit range, decodes to the bytes with
their positions. -/
theorem decodeDump_eq (h : a.Shows t) (hend : a.offset.toNat + a.size.toNat ≤ 2 ^ 32) :
    decodeDump t = a.data.zipIdx a.offset.toNat := by
  obtain ⟨hex, others, hlines, hshown, hothers⟩ := h
  have hnone : others.flatMap decodeLine = [] := by
    rw [List.flatMap_eq_nil_iff]
    intro line hline
    have hlabel := hothers line hline
    rw [isHexLine, Option.isSome_eq_false_iff, Option.isNone_iff_eq_none] at hlabel
    rw [decodeLine, hlabel]
  have hflat : a.base + a.rows.flatten.length ≤ 2 ^ 32 := by
    rw [a.rows_flatten, a.cells_length, ← Nat.add_assoc, a.base_add_gap]
    exact hend
  rw [decodeDump, hlines, List.flatMap_append, hnone, List.append_nil,
    decodeLines_eq hshown, labelled_entries a.lined hflat, a.rows_flatten, a.cells_entries]
  intro p hp
  obtain ⟨hlt, hmem⟩ := labelled_lt a.base_lt hp
  exact ⟨hlt, a.lined.length_le hmem⟩

private theorem hexLines_eq {ps : List (Nat × Row)} {hex : List Text}
    (h : List.Forall₂ (fun p line => ShowsRow p.1 p.2 line) ps hex) (hps : ∀ p ∈ ps, p.1 < 2 ^ 32) :
    hex.filter isHexLine = hex ∧ hex.map hexPart =
      ps.map fun p => hexPart (label p.1 ++ rowText p.2) := by
  induction h with
  | nil => exact ⟨rfl, rfl⟩
  | cons hline _ ih =>
    have hlabel := hline.labelOf_eq (hps _ List.mem_cons_self)
    obtain ⟨hfilter, hmap⟩ := ih fun p hp => hps p (List.mem_cons_of_mem _ hp)
    constructor
    · rw [List.filter_cons_of_pos (by simp [isHexLine, hlabel]), hfilter]
    · rw [List.map_cons, List.map_cons, hline.hexPart_eq, hmap]

/-- The hex lines, cut behind the bytes, depend on the bytes only. -/
theorem hexParts_eq (h : a.Shows t) :
    hexParts t = (labelled a.base a.rows).map fun p => hexPart (label p.1 ++ rowText p.2) := by
  obtain ⟨hex, others, hlines, hshown, hothers⟩ := h
  have hnone : others.filter isHexLine = [] := by
    rw [List.filter_eq_nil_iff]
    intro line hline
    simp [hothers line hline]
  obtain ⟨hfilter, hmap⟩ := hexLines_eq hshown fun p hp => (labelled_lt a.base_lt hp).1
  rw [hexParts, hlines, List.filter_append, hnone, List.append_nil, hfilter, hmap]

end Shows

end DumpArgs

end PerfTools.Elf
