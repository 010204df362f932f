import PerfTools.Lib.NulRuns
import PerfTools.Elf.Names

/-!
# The dumps of string tables

Two functions of elf.c list the strings of a table with their indices. Their loop is bounded by
the size of the table, the loop in it that skips NULs by nothing: when the table ends in two
NULs it goes on behind the table.
-/

namespace PerfTools.Elf

open Memory Printf Exec

/-- while (*p == 0): how far it goes. -/
def skipNuls : List UInt8 → Except Fault Nat
  | [] => .error .outOfBounds
  | b :: bs => if b = 0 then do return (← skipNuls bs) + 1 else .ok 0

/-- The line of a string. -/
def stringLine (entry : Nat × CString) : Format :=
  lit "index " ++ [.hex space false 4 entry.1] ++ lit " " ++ [.str 0 entry.2] ++ lit "\n"

/-- The loop for a number of rounds, with its variables i and p; true when it has ended by
then. -/
def dumpStrings (size : Int) : Nat → Nat → Ptr → ElfRun Bool
  | 0, _, _ => return false
  | rounds + 1, i, p =>
    if i < size - 1 then do
      let k ← lift (skipNuls p.tail)
      let s ← lift (readString (p.add k).tail 0)
      print (stringLine (i + k, s))
      let len := s.chars.length
      dumpStrings size rounds (i + k + len) ((p.add k).add len)
    else return true

/-- The body that the two functions share. -/
def dumpTable (title : String) (strtab : Ptr) (size : Int) (rounds : Nat) : ElfRun Bool := do
  print (lit title)
  let ended ← dumpStrings size rounds 0 strtab
  runIf ended (print (lit "\n"))
  return ended

def elfStrtabDump : Ptr → Int → Nat → ElfRun Bool := dumpTable "string table\n"

/-- _elf_shstrtab_dump -/
def elfShstrtabDump : Ptr → Int → Nat → ElfRun Bool := dumpTable "section head string table\n"

/-- What one fprintf adds to the trace. -/
def wrote (fmt : Format) : Event := .text (fmt.flatMap Directive.text)

/-- A dump ends and lists every run of the table once and in order; its index is that of its
string. -/
structure Listed (dump : Ptr → Int → Nat → ElfRun Bool) (title : String) (strtab : Ptr)
    (s : Proc ElfVars) : Prop where
  run : ∃ most, ∀ rounds, most ≤ rounds → dump strtab strtab.tail.length rounds s =
    (.ok true, { s with
      trace := s.trace ++ (wrote (lit title) ::
        (nulRuns strtab.tail).map (fun entry => wrote (stringLine entry)) ++
          [wrote (lit "\n")]) })
  resolves : ∀ entry ∈ nulRuns strtab.tail, stringAt (some strtab) (entry.1 : Nat) = .ok entry.2

section

variable {p : Ptr} {s : Proc ElfVars} {i : Nat}

theorem skipNuls_run {b : UInt8} (hb : b ≠ 0) (k : Nat) (bs : List UInt8) :
    skipNuls (List.replicate k 0 ++ b :: bs) = .ok k := by
  induction k with
  | zero => simp [skipNuls, hb]
  | succ k ih => simp [skipNuls, List.replicate_succ, ih]

theorem skipNuls_nuls (k : Nat) : skipNuls (List.replicate k 0) = .error .outOfBounds := by
  induction k with
  | zero => rfl
  | succ k ih => simp [skipNuls, List.replicate_succ, ih]

theorem dumpStrings_run {size k : Nat} {name : CString} {rest : List UInt8}
    (hsize : size = i + p.tail.length) (hname : name.chars ≠ [])
    (htail : p.tail = List.replicate k 0 ++ (name.chars ++ 0 :: rest)) (n : Nat) :
    dumpStrings size (n + 1) i p s =
      dumpStrings size n (i + k + name.chars.length) (p.add (k + name.chars.length))
        { s with trace := s.trace ++ [wrote (stringLine (i + k, name))] } := by
  have hskip : skipNuls p.tail = .ok k := by
    rw [htail]
    cases hchars : name.chars with
    | nil => exact absurd hchars hname
    | cons b bs => exact skipNuls_run (fun h => name.nulFree (by simp [hchars, h])) k _
  have hread : readString (p.add k).tail 0 = .ok name := by
    apply readString_of_drop
    rw [Ptr.add_tail, htail, List.drop_left' (List.length_replicate ..)]
    rfl
  have hin : (i : Int) < size - 1 := by
    have hlen := congrArg List.length htail
    have hpos := List.length_pos_iff.mpr hname
    simp only [List.length_append, List.length_cons] at hlen
    omega
  rw [← Ptr.add_add, dumpStrings, if_pos hin, hskip, lift_ok_bind, hread, lift_ok_bind]
  rfl

private theorem tail_behind_run {k : Nat} {name : CString} {rest : List UInt8}
    (htail : p.tail = List.replicate k 0 ++ (name.chars ++ 0 :: rest)) :
    (p.add (k + name.chars.length)).tail = 0 :: rest := by
  rw [Ptr.add_tail, htail, ← List.append_assoc]
  apply List.drop_left'
  simp

private theorem behind_run {k : Nat} {name : CString} {rest : List UInt8} (hname : name.chars ≠ [])
    (htail : p.tail = List.replicate k 0 ++ (name.chars ++ 0 :: rest)) (h : EndsInNul p.tail) :
    EndsInNul (p.add (k + name.chars.length)).tail ∧
      (EndsInTwoNuls (p.add (k + name.chars.length)).tail ↔ EndsInTwoNuls p.tail) ∧
      k + name.chars.length + (p.add (k + name.chars.length)).tail.length = p.tail.length := by
  have hlen := congrArg List.length htail
  simp only [List.length_append, List.length_replicate, List.length_cons] at hlen
  rw [tail_behind_run htail, List.length_cons]
  refine ⟨?_, ?_, by omega⟩
  · rw [← tail_behind_run htail, Ptr.add_tail]
    exact h.drop (by omega)
  · rw [htail, endsInTwoNuls_append hname]

theorem dumpStrings_ends {size n : Nat} (hsize : size = i + p.tail.length)
    (hn : p.tail.length ≤ n) (h : EndsInNul p.tail) (hend : ¬ EndsInTwoNuls p.tail) :
    dumpStrings size n i p s = (.ok true, { s with
      trace := s.trace ++
        (runsFrom 0 i p.tail).map fun entry => wrote (stringLine entry) }) := by
  induction n generalizing i p s with
  | zero => exact absurd h.length_pos (by omega)
  | succ n ih =>
    rcases h.nuls_or_run with hnuls | ⟨k, name, rest, hname, htail⟩
    · have hlen : p.tail.length = 1 := by
        by_contra hlen
        have hpos := h.length_pos
        rw [hnuls] at hend
        exact hend (endsInTwoNuls_nuls (by omega))
      rw [dumpStrings, if_neg (by omega), hnuls, hlen]
      simp [runsFrom, pure]
    · have hpos := List.length_pos_iff.mpr hname
      obtain ⟨hrest, htwo, hlen⟩ := behind_run hname htail h
      rw [← htwo] at hend
      rw [dumpStrings_run hsize hname htail, ih (by omega) (by omega) hrest hend,
        tail_behind_run htail, htail, runsFrom_nuls, runsFrom_string hname, List.map_cons,
        List.append_assoc, Nat.add_assoc]
      rfl

theorem dumpStrings_leaves {size : Nat} (n : Nat) (hsize : size = i + p.tail.length)
    (h : EndsInNul p.tail) (hend : EndsInTwoNuls p.tail) :
    (dumpStrings size n i p s).1 ≠ .ok true := by
  induction n generalizing i p s with
  | zero => simp [dumpStrings, pure]
  | succ n ih =>
    rcases h.nuls_or_run with hnuls | ⟨k, name, rest, hname, htail⟩
    · have hlen : 2 ≤ p.tail.length := hend.length_le
      have hskip : skipNuls p.tail = .error .outOfBounds := by rw [hnuls, skipNuls_nuls]
      rw [dumpStrings, if_pos (by omega), hskip, lift_error_bind]
      simp [stop]
    · obtain ⟨hrest, htwo, hlen⟩ := behind_run hname htail h
      rw [← htwo] at hend
      rw [dumpStrings_run hsize hname htail]
      exact ih (by omega) hrest hend

theorem dumpTable_apply (title : String) (size : Int) (rounds : Nat) :
    dumpTable title p size rounds s =
      match dumpStrings size rounds 0 p { s with trace := s.trace ++ [wrote (lit title)] } with
      | (.ok true, t) => (.ok true, { t with trace := t.trace ++ [wrote (lit "\n")] })
      | (.ok false, t) => (.ok false, t)
      | (.error e, t) => (.error e, t) := by
  rw [dumpTable, print, emit_bind, bind_apply, ← wrote]
  rcases dumpStrings size rounds 0 p { s with trace := s.trace ++ [wrote (lit title)] } with
    ⟨_ | _ | _, _⟩ <;> rfl

theorem listed_iff {title : String} (h : EndsInNul p.tail) :
    Listed (dumpTable title) title p s ↔ ¬ EndsInTwoNuls p.tail := by
  constructor
  · intro hlisted hend
    obtain ⟨most, hrun⟩ := hlisted.run
    have hlast := hrun most le_rfl
    have hleaves := dumpStrings_leaves (s := { s with trace := s.trace ++ [wrote (lit title)] })
      most (Nat.zero_add _).symm h hend
    rw [dumpTable_apply] at hlast
    split at hlast
    · next hloop => exact hleaves (congrArg Prod.fst hloop)
    · cases hlast
    · cases hlast
  · intro hend
    constructor
    · refine ⟨p.tail.length, fun rounds hrounds => ?_⟩
      rw [dumpTable_apply, dumpStrings_ends (Nat.zero_add _).symm hrounds h hend, nulRuns_eq]
      simp
    · intro entry hentry
      rw [stringAt_natCast]
      exact h.readRun hentry

end

/-- Both dumps list every string of a table that is not empty exactly when it does not end in two
NULs. -/
theorem tables_listed_iff {strtab : Ptr} (h : EndsInNul strtab.tail) (s : Proc ElfVars) :
    Listed elfStrtabDump "string table\n" strtab s ∧
        Listed elfShstrtabDump "section head string table\n" strtab s ↔
      ¬ EndsInTwoNuls strtab.tail := by
  rw [elfStrtabDump, elfShstrtabDump, listed_iff h, listed_iff h, and_self]

/-- A table with an empty string in it and one NUL at the end. -/
def innerTable : Ptr := ⟨⟨ascii "\x00\x00main\x00", 0⟩, 0⟩

theorem tables_listed_inner :
    Listed elfStrtabDump "string table\n" innerTable ElfVars.start ∧
        Listed elfShstrtabDump "section head string table\n" innerTable ElfVars.start ↔
      ¬ EndsInTwoNuls innerTable.tail :=
  tables_listed_iff (show EndsInNul innerTable.tail by decide) _

/-- A table of one NUL more. -/
def paddedTable : Ptr := ⟨⟨ascii "\x00main\x00\x00", 0⟩, 0⟩

theorem paddedTable_not_listed :
    ¬ ∀ (strtab : Ptr) (s : Proc ElfVars), EndsInNul strtab.tail →
      Listed elfStrtabDump "string table\n" strtab s ∧
        Listed elfShstrtabDump "section head string table\n" strtab s := by
  intro hall
  obtain ⟨hlisted, -⟩ := hall paddedTable ElfVars.start (by decide)
  exact (listed_iff (by decide)).mp hlisted (by decide)

end PerfTools.Elf
