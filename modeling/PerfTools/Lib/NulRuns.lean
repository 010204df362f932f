import PerfTools.Lib.Memory

/-!
# Runs between NULs

A memory that ends in NUL is a sequence of strings with NULs between them. Its runs are the
strings that are not empty, each with the index of its first byte.
-/

namespace PerfTools.Memory

/-- A run starts at a byte that is not NUL, behind one that is or at the start. -/
def RunStarts (mem : List UInt8) (i : Nat) : Prop :=
  mem[i]? ≠ some 0 ∧ (i = 0 ∨ mem[i - 1]? = some 0)

instance (mem : List UInt8) (i : Nat) : Decidable (RunStarts mem i) :=
  inferInstanceAs (Decidable (_ ∧ _))

/-- The runs in increasing order. -/
def nulRuns (mem : List UInt8) : List (Nat × CString) :=
  ((List.range mem.length).filter fun i => RunStarts mem i).map fun i => (i, cstringOf (mem.drop i))

/-- The runs of a memory that starts at index i, behind the byte prev. -/
def runsFrom : UInt8 → Nat → List UInt8 → List (Nat × CString)
  | _, _, [] => []
  | prev, i, b :: bs =>
    if prev = 0 ∧ b ≠ 0 then (i, cstringOf (b :: bs)) :: runsFrom b (i + 1) bs
    else runsFrom b (i + 1) bs

/-- The byte in front of an index; there is a NUL in front of the memory. -/
private def byteBefore (mem : List UInt8) (i : Nat) : UInt8 :=
  if i = 0 then 0 else mem.getD (i - 1) 0

private theorem runsFrom_drop (mem : List UInt8) {i : Nat} (hi : i ≤ mem.length) :
    runsFrom (byteBefore mem i) i (mem.drop i) =
      ((List.range' i (mem.length - i)).filter fun k => RunStarts mem k).map
        fun k => (k, cstringOf (mem.drop k)) := by
  induction hn : mem.length - i generalizing i with
  | zero =>
    rw [List.drop_eq_nil_of_le (by omega)]
    rfl
  | succ n ih =>
    have hlt : i < mem.length := by omega
    have hrest := ih (i := i + 1) (by omega) (by omega)
    have hnext : byteBefore mem (i + 1) = mem[i] := by
      rw [byteBefore, if_neg (by omega), Nat.add_sub_cancel, List.getD_eq_getElem?_getD,
        List.getElem?_eq_getElem hlt, Option.getD_some]
    have hstarts : RunStarts mem i ↔ byteBefore mem i = 0 ∧ mem[i] ≠ 0 := by
      rw [RunStarts, byteBefore, List.getElem?_eq_getElem hlt, and_comm]
      apply and_congr
      · split_ifs with hzero
        · simp [hzero]
        · have hlt' : i - 1 < mem.length := by omega
          simp [hzero, List.getElem?_eq_getElem hlt']
      · simp
    rw [hnext] at hrest
    rw [List.drop_eq_getElem_cons hlt, runsFrom, hrest, List.range'_succ]
    by_cases hrun : RunStarts mem i
    · rw [if_pos (hstarts.mp hrun), List.filter_cons_of_pos (by simpa using hrun), List.map_cons,
        List.drop_eq_getElem_cons hlt]
    · rw [if_neg fun h => hrun (hstarts.mpr h), List.filter_cons_of_neg (by simpa using hrun)]

theorem nulRuns_eq (mem : List UInt8) : nulRuns mem = runsFrom 0 0 mem := by
  rw [nulRuns, List.range_eq_range']
  exact (runsFrom_drop mem (Nat.zero_le _)).symm

theorem EndsInNul.readRun {mem : List UInt8} (h : EndsInNul mem) {run : Nat × CString}
    (hrun : run ∈ nulRuns mem) : Memory.readString mem run.1 = .ok run.2 := by
  obtain ⟨i, hi, rfl⟩ := List.mem_map.mp hrun
  exact h.readString (List.mem_range.mp (List.mem_filter.mp hi).1)

/-! ## The first run -/

theorem runsFrom_nuls (i k : Nat) (t : List UInt8) :
    runsFrom 0 i (List.replicate k 0 ++ t) = runsFrom 0 (i + k) t := by
  induction k generalizing i with
  | zero => rfl
  | succ k ih =>
    rw [List.replicate_succ, List.cons_append, runsFrom, if_neg (by simp), ih]
    congr 1
    omega

theorem runsFrom_inside {prev : UInt8} (hprev : prev ≠ 0) {chars : List UInt8} (hnul : 0 ∉ chars)
    (i : Nat) (rest : List UInt8) :
    runsFrom prev i (chars ++ 0 :: rest) = runsFrom 0 (i + chars.length) (0 :: rest) := by
  induction chars generalizing prev i with
  | nil => simp [runsFrom, hprev]
  | cons b bs ih =>
    have hb : b ≠ 0 := fun h => hnul (by simp [h])
    rw [List.cons_append, runsFrom, if_neg (by simp [hprev]),
      ih hb (fun h => hnul (List.mem_cons_of_mem _ h)), List.length_cons]
    congr 1
    omega

theorem runsFrom_string {name : CString} (hname : name.chars ≠ []) (i : Nat) (rest : List UInt8) :
    runsFrom 0 i (name.chars ++ 0 :: rest) =
      (i, name) :: runsFrom 0 (i + name.chars.length) (0 :: rest) := by
  have hstring := cstringOf_append name rest
  have hnul := name.nulFree
  cases hchars : name.chars with
  | nil => exact absurd hchars hname
  | cons b bs =>
    rw [hchars] at hstring hnul
    rw [List.cons_append] at hstring ⊢
    have hb : b ≠ 0 := fun h => hnul (by simp [h])
    rw [runsFrom, if_pos ⟨rfl, hb⟩, hstring,
      runsFrom_inside hb fun h => hnul (List.mem_cons_of_mem _ h), List.length_cons]
    congr 2
    omega

theorem EndsInNul.nuls_or_run {mem : List UInt8} (h : EndsInNul mem) :
    mem = List.replicate mem.length 0 ∨
      ∃ (k : Nat) (name : CString) (rest : List UInt8), name.chars ≠ [] ∧
        mem = List.replicate k 0 ++ (name.chars ++ 0 :: rest) := by
  induction mem with
  | nil => exact absurd h (by decide)
  | cons b bs ih =>
    by_cases hb : b = 0
    · rw [hb]
      by_cases hbs : bs = []
      · rw [hbs]
        exact Or.inl rfl
      · have hlen := List.length_pos_iff.mpr hbs
        rcases ih (h.drop (i := 1) (by simpa using hlen)) with hnuls | ⟨k, name, rest, hname, hrun⟩
        · rw [List.length_cons, List.replicate_succ, ← hnuls]
          exact Or.inl rfl
        · refine Or.inr ⟨k + 1, name, rest, hname, ?_⟩
          rw [hrun, List.replicate_succ, List.cons_append]
    · obtain ⟨rest, hrest⟩ := h.split
      refine Or.inr ⟨0, _, rest, ?_, hrest⟩
      simp [cstringOf, hb]

/-! ## Two NULs at the end -/

/-- The memory ends in two NULs. -/
def EndsInTwoNuls (mem : List UInt8) : Prop := [0, 0] <:+ mem

instance (mem : List UInt8) : Decidable (EndsInTwoNuls mem) :=
  inferInstanceAs (Decidable (_ <:+ _))

theorem endsInTwoNuls_nuls {n : Nat} (hn : 2 ≤ n) : EndsInTwoNuls (List.replicate n 0) := by
  refine ⟨List.replicate (n - 2) 0, ?_⟩
  change List.replicate (n - 2) 0 ++ List.replicate 2 0 = _
  rw [List.replicate_append_replicate, Nat.sub_add_cancel hn]

/-- What stands in front of a run and the NUL behind it does not count. -/
theorem endsInTwoNuls_append {front rest : List UInt8} {name : CString} (hname : name.chars ≠ []) :
    EndsInTwoNuls (front ++ (name.chars ++ 0 :: rest)) ↔ EndsInTwoNuls (0 :: rest) := by
  unfold EndsInTwoNuls
  rw [← List.append_assoc]
  constructor
  · intro hend
    rcases Nat.lt_or_ge (0 :: rest).length 2 with hlen | hlen
    · have hnil : rest = [] := by
        rw [List.length_cons] at hlen
        exact List.eq_nil_of_length_eq_zero (by omega)
      obtain ⟨t, ht⟩ := hend
      rw [hnil, show t ++ [0, 0] = t ++ [0] ++ [0] by simp] at ht
      have hlast := congrArg List.getLast? (List.append_cancel_right ht)
      rw [List.getLast?_append, List.getLast?_append, List.getLast?_eq_some_getLast hname] at hlast
      have hzero : 0 = name.chars.getLast hname := by simpa using hlast
      exact absurd (hzero ▸ List.getLast_mem hname) name.nulFree
    · exact List.suffix_of_suffix_length_le hend (List.suffix_append _ _) hlen
  · intro hend
    exact hend.trans (List.suffix_append _ _)

end PerfTools.Memory
