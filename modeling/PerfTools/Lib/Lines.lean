import Mathlib.Data.List.Basic

/-!
# Lines of a text

A text is a list over any alphabet with one letter that ends a line. `lines` reads the lines
back, `unlines` writes them, and `exists_line` takes the first line off a text, which is the
step a program that cuts a string at its separators makes.
-/

namespace PerfTools.Lines

variable {α : Type*}

/-- The lines of a text. Every separator ends a line; what stands after the last separator is
a line of its own unless it is empty. -/
def lines [DecidableEq α] (sep : α) : List α → List (List α)
  | [] => []
  | c :: cs =>
    if c = sep then [] :: lines sep cs
    else match lines sep cs with
      | [] => [[c]]
      | l :: ls => (c :: l) :: ls

/-- Each line followed by the separator. -/
def unlines (sep : α) (ls : List (List α)) : List α := ls.flatMap (· ++ [sep])

variable {sep : α}

@[simp] theorem unlines_nil : unlines sep [] = [] := rfl

@[simp] theorem unlines_cons (l : List α) (ls : List (List α)) :
    unlines sep (l :: ls) = l ++ sep :: unlines sep ls := by
  simp [unlines]

theorem unlines_append (ls ms : List (List α)) :
    unlines sep (ls ++ ms) = unlines sep ls ++ unlines sep ms := by
  simp [unlines]

/-- Lines with a separator between them. -/
def joined (sep : α) (ls : List (List α)) : List α := [sep].intercalate ls

@[simp] theorem joined_singleton (l : List α) : joined sep [l] = l := by
  simp [joined, List.intercalate]

theorem joined_cons (l : List α) {ls : List (List α)} (hls : ls ≠ []) :
    joined sep (l :: ls) = l ++ sep :: joined sep ls := by
  obtain ⟨m, ms, rfl⟩ := List.exists_cons_of_ne_nil hls
  simp [joined, List.intercalate]

theorem joined_append_sep {ls : List (List α)} (hls : ls ≠ []) :
    joined sep ls ++ [sep] = unlines sep ls := by
  induction ls with
  | nil => contradiction
  | cons l ls ih =>
    by_cases h : ls = []
    · simp [h]
    · simp [joined_cons l h, ih h]

variable [DecidableEq α]

@[simp] theorem lines_nil : lines sep [] = [] := rfl

@[simp] theorem lines_sep (t : List α) : lines sep (sep :: t) = [] :: lines sep t := by
  simp [lines]

theorem lines_append_sep {l : List α} (hl : sep ∉ l) (t : List α) :
    lines sep (l ++ sep :: t) = l :: lines sep t := by
  induction l with
  | nil => simp
  | cons c cs ih =>
    have hc : c ≠ sep := fun h => hl (by simp [h])
    have hcs : sep ∉ cs := fun h => hl (by simp [h])
    simp [lines, hc, ih hcs]

theorem lines_of_notMem {l : List α} (hl : sep ∉ l) (hne : l ≠ []) : lines sep l = [l] := by
  induction l with
  | nil => contradiction
  | cons c cs ih =>
    have hc : c ≠ sep := fun h => hl (by simp [h])
    have hcs : sep ∉ cs := fun h => hl (by simp [h])
    cases cs with
    | nil => simp [lines, hc]
    | cons d ds =>
      rw [lines, if_neg hc, ih hcs (by simp)]

theorem lines_unlines_append {ls : List (List α)} (hls : ∀ l ∈ ls, sep ∉ l) (t : List α) :
    lines sep (unlines sep ls ++ t) = ls ++ lines sep t := by
  induction ls with
  | nil => simp
  | cons l ls ih =>
    have hl : sep ∉ l := hls l (by simp)
    have hls' : ∀ m ∈ ls, sep ∉ m := fun m hm => hls m (by simp [hm])
    rw [unlines_cons, List.append_assoc, List.cons_append, lines_append_sep hl, ih hls',
      List.cons_append]

theorem lines_unlines {ls : List (List α)} (hls : ∀ l ∈ ls, sep ∉ l) :
    lines sep (unlines sep ls) = ls := by
  simpa using lines_unlines_append hls []

/-- Lines that are not empty are read back when only separators stand between them. -/
theorem lines_joined {ls : List (List α)} (hls : ∀ l ∈ ls, sep ∉ l) (hne : ∀ l ∈ ls, l ≠ []) :
    lines sep (joined sep ls) = ls := by
  induction ls with
  | nil => rfl
  | cons l ls ih =>
    have hl : sep ∉ l := hls l List.mem_cons_self
    by_cases hnil : ls = []
    · subst hnil
      rw [joined_singleton]
      exact lines_of_notMem hl (hne l List.mem_cons_self)
    · rw [joined_cons l hnil, lines_append_sep hl, ih]
      · exact fun m hm => hls m (List.mem_cons_of_mem l hm)
      · exact fun m hm => hne m (List.mem_cons_of_mem l hm)

theorem sep_notMem_of_mem_lines {t l : List α} (h : l ∈ lines sep t) : sep ∉ l := by
  induction t generalizing l with
  | nil => simp at h
  | cons c cs ih =>
    by_cases hc : c = sep
    · simp only [lines, hc, if_true, List.mem_cons] at h
      rcases h with rfl | h
      · simp
      · exact ih h
    · cases hcs : lines sep cs with
      | nil =>
        simp only [lines, hc, if_false, hcs, List.mem_singleton] at h
        subst h
        simpa using Ne.symm hc
      | cons m ms =>
        simp only [lines, hc, if_false, hcs, List.mem_cons] at h
        rcases h with rfl | h
        · have hm : sep ∉ m := ih (by simp [hcs])
          simp [hm, Ne.symm hc]
        · exact ih (by simp [hcs, h])

theorem flatten_lines (t : List α) : (lines sep t).flatten = t.filter (· ≠ sep) := by
  induction t with
  | nil => rfl
  | cons c cs ih =>
    by_cases hc : c = sep
    · simp [hc, ih]
    · cases hcs : lines sep cs with
      | nil =>
        rw [hcs] at ih
        rw [List.filter_cons_of_pos (by simpa using hc), ← ih]
        simp [lines, hc, hcs]
      | cons m ms =>
        rw [hcs] at ih
        rw [List.filter_cons_of_pos (by simpa using hc), ← ih]
        simp [lines, hc, hcs]

/-- The first line of a non-empty text: either the text has no separator, or it splits at the
first one. -/
theorem exists_line (sep : α) {t : List α} (ht : t ≠ []) :
    (sep ∉ t ∧ lines sep t = [t]) ∨
      ∃ l t', sep ∉ l ∧ t = l ++ sep :: t' ∧ lines sep t = l :: lines sep t' := by
  by_cases h : sep ∈ t
  · obtain ⟨l, t', rfl, hl⟩ := List.eq_append_cons_of_mem h
    exact Or.inr ⟨l, t', hl, rfl, lines_append_sep hl t'⟩
  · exact Or.inl ⟨h, lines_of_notMem h ht⟩

end PerfTools.Lines
