import PerfTools.Elf.Summary
import PerfTools.Elfdig.Library

/-!
# How many records a table has

Three functions divide the size of a table by the entry size that its header declares. The two
that show symbols check the entry size and the remainder, but only behind the division. The one
that reads the dynamic entries checks the entry size in front of it, lets the entry size 0 pass,
and never looks at the remainder.
-/

namespace PerfTools.Elf

open Memory Printf Exec Elfdig

/-- What elf_dump_symtab does with n symbols. -/
def dumpSymbols (header : Ptr) (symBuf strtab : Option Ptr) (shOffset n : Nat) : ElfRun Unit := do
  print (lit "Symbol size : " ++ [.dec 0 Sym.size] ++ lit "\n")
  print (lit "Symbol num  : " ++ [.dec 0 n] ++ lit "\n")
  let _ ← fold (dumpSymbol header symBuf strtab) n 0 (toInt shOffset)

/-- What elf_summary_symtab does with n symbols. -/
def summarizeSymbols (symBuf strBuf : Option Ptr) (n : Nat) : ElfRun Unit := do
  print (lit "   Num:   offset     Size     Tpye     Bind  Ndx Name\n")
  loop (summarizeSymbol symBuf strBuf) n 0

/-- What elf_dyn_read does with n entries. -/
def keepDynamics (host : Host) (header : Ptr) (n : Nat) : DigRun Int := do
  let dyn ← elfSectionOf host (some header)
  setVars fun obj => { obj with dyn := some dyn, dynNum := some n }
  return 0

variable {σ α : Type}

/-- The run does not divide by zero; it refuses the table, or it goes on with the number of
records that make up the table. -/
structure Counts (m : Exec σ α) (refusal : Except Stop α) (next : Nat → Exec σ α)
    (size record : Nat) (s : σ) : Prop where
  divides : (m s).1 ≠ .error (.fault .divByZero)
  count : m s = (refusal, s) ∨ record ∣ size ∧ m s = next (size / record) s

/-- The three functions on the table that a section header describes. -/
structure CountsRecords (host : Host) (header : Ptr) : Prop where
  dumped : ∀ symBuf strtab s, Counts (elfDumpSymtab (some header) symBuf strtab)
    (.error (.exit (-1))) (dumpSymbols header symBuf strtab (fieldAt header.tail 0 Shdr.shOffset))
    (fieldAt header.tail 0 Shdr.shSize) Sym.size s
  summarized : ∀ symBuf strBuf s, Counts (elfSummarySymtab (some header) symBuf strBuf)
    (.error (.exit (-1))) (summarizeSymbols symBuf strBuf)
    (fieldAt header.tail 0 Shdr.shSize) Sym.size s
  dynamics : ∀ s, elfSectionHead ".dynamic" s = (.ok (some header), s) →
    Counts (elfDynRead host) (.ok (-1)) (keepDynamics host header)
      (fieldAt header.tail 0 Shdr.shSize) Dyn.size s

/-- The entry size is not zero, and a table of dynamic entries has no remainder. -/
def CountsFit (header : Ptr) : Prop :=
  fieldAt header.tail 0 Shdr.shEntsize ≠ 0 ∧
    (fieldAt header.tail 0 Shdr.shEntsize = Dyn.size → Dyn.size ∣ fieldAt header.tail 0 Shdr.shSize)

instance (header : Ptr) : Decidable (CountsFit header) := inferInstanceAs (Decidable (_ ∧ _))

/-! ## Nothing behind the checks divides -/

private theorem deref_ne (p : Option Ptr) : deref p ≠ .error .divByZero := by
  cases p <;> simp

private theorem get_ne (p : Ptr) (f : Field) : p.get f ≠ .error .divByZero := by
  unfold Ptr.get
  split_ifs <;> simp

private theorem checked_ne (i : Int) : checked i ≠ .error .divByZero := by
  unfold checked
  split_ifs <;> simp

private theorem stringAt_ne (table : Option Ptr) (i : Int) :
    stringAt table i ≠ .error .divByZero := by
  unfold stringAt
  cases table with
  | none => simp
  | some p =>
    rw [deref_some, ok_bind, readString]
    split_ifs <;> simp

private theorem symIdx_ne (n : Nat) : symIdx n ≠ .error .divByZero := by
  unfold symIdx
  dsimp only
  split_ifs <;> simp

private theorem byte_ne (p : Ptr) (k : Nat) : p.byte k ≠ .error .divByZero := by
  unfold Ptr.byte
  split <;> simp

private theorem dumpLoop_ne (p : Ptr) (gap stop n j offset : Nat) :
    dumpLoop plainGutter p gap stop n j offset () ≠ .error .divByZero := by
  induction n generalizing j offset with
  | zero => simp [dumpLoop]
  | succ n ih =>
    unfold dumpLoop
    split_ifs
    · simp
    · apply bind_ne_error (byte_ne p _)
      intro _
      apply bind_ne_error (by simp [plainGutter])
      intro _
      exact bind_ne_error (ih _ _) (by simp)
    · apply bind_ne_error (byte_ne p _)
      intro _
      apply bind_ne_error (by simp [plainGutter])
      intro _
      exact bind_ne_error (ih _ _) (by simp)
    · apply bind_ne_error (byte_ne p _)
      intro _
      exact bind_ne_error (ih _ _) (by simp)

private theorem dumpBody_ne (offset size : UInt32) (p : Ptr) :
    dumpBody plainGutter offset size p () ≠ .error .divByZero := by
  apply bind_ne_error (dumpLoop_ne p _ _ _ _ _)
  intro _ h
  cases h

private theorem binaryDump_ne (offset size : UInt32) (p : Option Ptr) :
    binaryDump offset size p ≠ .error .divByZero := by
  cases p with
  | none =>
    intro h
    cases h
  | some p =>
    by_cases hzero : size = 0
    · rw [binaryDump, if_pos hzero]
      intro h
      cases h
    · rw [binaryDump, if_neg hzero]
      apply bind_ne_error (dumpBody_ne offset size p)
      intro _ h
      cases h

private theorem emit_avoids (e : Event) : Avoids .divByZero (emit e : ElfRun Unit) := .modify _

private theorem print_avoids (fmt : Format) : Avoids .divByZero (print fmt : ElfRun Unit) :=
  emit_avoids _

private theorem dumpSymbol_avoids (header : Ptr) (symBuf strtab : Option Ptr) (i : Nat) (n : Int) :
    Avoids .divByZero (dumpSymbol header symBuf strtab i n) := by
  unfold dumpSymbol
  repeat' first
    | apply Avoids.bind
    | apply Avoids.pure
    | apply print_avoids
    | apply emit_avoids
    | apply Avoids.lift
    | apply checked_ne
    | apply deref_ne
    | apply get_ne
    | apply stringAt_ne
    | apply binaryDump_ne
    | intro _

private theorem summarizeSymbol_avoids (symBuf strBuf : Option Ptr) (i : Nat) :
    Avoids .divByZero (summarizeSymbol symBuf strBuf i) := by
  unfold summarizeSymbol
  repeat' first
    | apply Avoids.bind
    | apply print_avoids
    | apply Avoids.lift
    | apply deref_ne
    | apply get_ne
    | apply symIdx_ne
    | apply stringAt_ne
    | intro _

private theorem dumpSymbols_avoids (header : Ptr) (symBuf strtab : Option Ptr) (shOffset n : Nat) :
    Avoids .divByZero (dumpSymbols header symBuf strtab shOffset n) := by
  apply Avoids.bind (.modify _)
  intro _
  apply Avoids.bind (.modify _)
  intro _
  apply Avoids.bind (.fold (dumpSymbol_avoids header symBuf strtab) n 0 _)
  intro _
  exact .pure _

private theorem summarizeSymbols_avoids (symBuf strBuf : Option Ptr) (n : Nat) :
    Avoids .divByZero (summarizeSymbols symBuf strBuf n) := by
  apply Avoids.bind (.modify _)
  intro _
  exact .loop (summarizeSymbol_avoids symBuf strBuf) n 0

private theorem keepDynamics_avoids (host : Host) (header : Ptr) (n : Nat) :
    Avoids .divByZero (keepDynamics host header n) := by
  apply Avoids.bind
  · apply Avoids.bind (.lift (deref_ne _))
    intro _
    apply Avoids.bind (.lift (get_ne _ _))
    intro offset
    apply Avoids.bind (.lift (get_ne _ _))
    intro size
    constructor
    intro s
    rw [Elfdig.elfFileRead, fileRead_apply _ _ _ (fun _ => rfl)]
    simp
  · intro _
    apply Avoids.bind (.modify _)
    intro _
    exact .pure _

/-! ## The division -/

section

variable {header : Ptr}

private theorem get_members (hread : Shdr.size ≤ header.tail.length) {f : Field}
    (hf : f.off + f.width ≤ Shdr.size) : header.get f = .ok (fieldAt header.tail 0 f) :=
  if_pos (hf.trans hread)

private theorem toInt_eq_iff {n k : Nat} (hn : n < 2 ^ 32) (hk : k < 2 ^ 31) :
    toInt n = k ↔ n = k := by
  have hcases := toInt_cases hn
  omega

private theorem intDiv_members {size entsize : Nat} (hsize : size < 2 ^ 31)
    (hentsize : entsize < 2 ^ 32) (hne : entsize ≠ 0) :
    ∃ q, intDiv (toInt size) (toInt entsize) = .ok q ∧
      (entsize < 2 ^ 31 → q = (size / entsize : Nat)) := by
  have hzero : toInt entsize ≠ 0 := fun h => hne ((toInt_eq_iff hentsize (by decide)).mp h)
  have hle : ((size : Int).tdiv (toInt entsize)).natAbs ≤ size := by
    rw [Int.natAbs_tdiv]
    exact Nat.div_le_self _ _
  refine ⟨(size : Int).tdiv (toInt entsize), ?_, fun h => ?_⟩
  · rw [intDiv, if_neg hzero, toInt_of_lt hsize]
    apply checked_of_range <;> omega
  · rw [toInt_of_lt h]
    rfl

/-- The checks that the two functions on symbols share. -/
private def checkedSymbols (size entsize : Nat) (next : Int → ElfRun Unit) : ElfRun Unit := do
  let symNum ← lift (intDiv (toInt size) (toInt entsize))
  runIf (toInt entsize ≠ Sym.size) (stop (.exit (-1)))
  runIf ((toInt size).tmod (toInt entsize) ≠ 0) (stop (.exit (-1)))
  next symNum

private theorem checkedSymbols_zero (size : Nat) (next : Int → ElfRun Unit) (s : Proc ElfVars) :
    checkedSymbols size 0 next s = (.error (.fault .divByZero), s) := rfl

private theorem checkedSymbols_counts {size entsize : Nat} (hsize : size < 2 ^ 31)
    (hentsize : entsize < 2 ^ 32) (hne : entsize ≠ 0) {next : Int → ElfRun Unit}
    {next' : Nat → ElfRun Unit} (hnext : ∀ n : Nat, entsize = Sym.size → next n = next' n)
    (havoids : ∀ n, Avoids .divByZero (next' n)) (s : Proc ElfVars) :
    Counts (checkedSymbols size entsize next) (.error (.exit (-1))) next' size Sym.size s := by
  obtain ⟨q, hq, hquot⟩ := intDiv_members hsize hentsize hne
  have hiff := toInt_eq_iff hentsize (show Sym.size < 2 ^ 31 by decide)
  have hrefuses (h : checkedSymbols size entsize next = stop (.exit (-1))) :
      Counts (checkedSymbols size entsize next) (.error (.exit (-1))) next' size Sym.size s := by
    rw [h]
    exact ⟨by simp [stop], .inl rfl⟩
  unfold checkedSymbols at hrefuses ⊢
  rw [hq, lift_ok_bind] at hrefuses ⊢
  by_cases heq : entsize = Sym.size
  · have hrest : (toInt size).tmod (toInt entsize) = 0 ↔ Sym.size ∣ size := by
      rw [hiff.mpr heq, toInt_of_lt hsize, Int.tmod_eq_emod_of_nonneg (by omega)]
      omega
    rw [guard_bind_neg (not_not.mpr (hiff.mpr heq))] at hrefuses ⊢
    by_cases hdvd : Sym.size ∣ size
    · rw [guard_bind_neg (not_not.mpr (hrest.mpr hdvd)), hquot (by rw [heq]; decide),
        hnext _ heq, heq]
      exact ⟨(havoids _).ne s, .inr ⟨hdvd, rfl⟩⟩
    · apply hrefuses
      apply guard_bind_pos
      exact mt hrest.mp hdvd
  · apply hrefuses
    apply guard_bind_pos
    exact mt hiff.mp heq

/-- Names of sections, with .dynamic at the index n. -/
private def dynamicNames (n : Nat) : Ptr :=
  ⟨⟨List.replicate n 0 ++ (ascii ".dynamic" ++ [0]), 0⟩, 0⟩

private theorem dynamicNames_same (n : Nat) :
    sameString (some (dynamicNames n)) n (ascii ".dynamic") = .ok true := by
  have hdrop : (dynamicNames n).tail.drop n = ascii ".dynamic" ++ [0] :=
    List.drop_left' (List.length_replicate ..)
  rw [sameString, deref_some, ok_bind, hdrop]
  rfl

/-- An object in which the header is found as the one of .dynamic. -/
private def found (header : Ptr) : Proc ElfObj where
  pos := 0
  trace := []
  vars := { ElfObj.unset with
    sections := some (some header)
    sectionNum := some 1
    shstrtab := some (some (dynamicNames (fieldAt header.tail 0 Shdr.shName))) }

variable (hread : Shdr.size ≤ header.tail.length)
include hread

private theorem elfDumpSymtab_eq (symBuf strtab : Option Ptr) :
    elfDumpSymtab (some header) symBuf strtab =
      checkedSymbols (fieldAt header.tail 0 Shdr.shSize) (fieldAt header.tail 0 Shdr.shEntsize)
        (fun symNum => do
          print (lit "Symbol size : " ++
            [.dec 0 (toInt (fieldAt header.tail 0 Shdr.shEntsize))] ++ lit "\n")
          print (lit "Symbol num  : " ++ [.dec 0 symNum] ++ lit "\n")
          let _ ← fold (dumpSymbol header symBuf strtab) symNum.toNat 0
            (toInt (fieldAt header.tail 0 Shdr.shOffset))) := by
  rw [elfDumpSymtab, deref_some, lift_ok_bind, get_members hread (by decide), lift_ok_bind,
    get_members hread (by decide), lift_ok_bind, get_members hread (by decide), lift_ok_bind]
  rfl

private theorem elfSummarySymtab_eq (symBuf strBuf : Option Ptr) :
    elfSummarySymtab (some header) symBuf strBuf =
      checkedSymbols (fieldAt header.tail 0 Shdr.shSize) (fieldAt header.tail 0 Shdr.shEntsize)
        (fun symNum => do
          print (lit "   Num:   offset     Size     Tpye     Bind  Ndx Name\n")
          loop (summarizeSymbol symBuf strBuf) symNum.toNat 0) := by
  rw [elfSummarySymtab, deref_some, lift_ok_bind, get_members hread (by decide), lift_ok_bind,
    get_members hread (by decide), lift_ok_bind]
  rfl

private theorem elfDynRead_eq (host : Host) {s : Proc ElfObj}
    (hfound : elfSectionHead ".dynamic" s = (.ok (some header), s)) :
    elfDynRead host s =
      if toInt (fieldAt header.tail 0 Shdr.shEntsize) ≠ 0 ∧
          toInt (fieldAt header.tail 0 Shdr.shEntsize) ≠ Dyn.size then (.ok (-1), s)
      else (do
        let num ← lift (intDiv (toInt (fieldAt header.tail 0 Shdr.shSize))
          (toInt (fieldAt header.tail 0 Shdr.shEntsize)))
        let dyn ← elfSectionOf host (some header)
        setVars fun obj => { obj with dyn := some dyn, dynNum := some num }
        return 0 : DigRun Int) s := by
  rw [elfDynRead, bind_apply, hfound]
  dsimp only
  rw [get_members hread (by decide), lift_ok_bind]
  split_ifs
  · rfl
  · rw [get_members hread (by decide), lift_ok_bind]

private theorem elfDynRead_keeps (host : Host) {s : Proc ElfObj}
    (hfound : elfSectionHead ".dynamic" s = (.ok (some header), s))
    (hsize : fieldAt header.tail 0 Shdr.shSize < 2 ^ 31)
    (heq : fieldAt header.tail 0 Shdr.shEntsize = Dyn.size) :
    elfDynRead host s =
      keepDynamics host header (fieldAt header.tail 0 Shdr.shSize / Dyn.size) s := by
  obtain ⟨q, hq, hquot⟩ := intDiv_members hsize (show Dyn.size < 2 ^ 32 by decide) (by decide)
  rw [elfDynRead_eq hread host hfound, heq, if_neg (fun h => h.2 rfl), hq, lift_ok_bind,
    hquot (by decide)]
  rfl

private theorem elfDynRead_counts (host : Host) {s : Proc ElfObj}
    (hfound : elfSectionHead ".dynamic" s = (.ok (some header), s))
    (hsize : fieldAt header.tail 0 Shdr.shSize < 2 ^ 31) (hfit : CountsFit header) :
    Counts (elfDynRead host) (.ok (-1)) (keepDynamics host header)
      (fieldAt header.tail 0 Shdr.shSize) Dyn.size s := by
  obtain ⟨hne, hdvd⟩ := hfit
  have hentsize : fieldAt header.tail 0 Shdr.shEntsize < 2 ^ 32 := fieldAt_lt _ _ Shdr.shEntsize
  by_cases heq : fieldAt header.tail 0 Shdr.shEntsize = Dyn.size
  · have hkept := elfDynRead_keeps hread host hfound hsize heq
    refine ⟨?_, .inr ⟨hdvd heq, hkept⟩⟩
    rw [hkept]
    exact (keepDynamics_avoids host header _).ne s
  · have hrefused : elfDynRead host s = (.ok (-1), s) := by
      rw [elfDynRead_eq hread host hfound, if_pos]
      constructor
      · exact mt (toInt_eq_iff hentsize (show 0 < 2 ^ 31 by decide)).mp hne
      · exact mt (toInt_eq_iff hentsize (show Dyn.size < 2 ^ 31 by decide)).mp heq
    refine ⟨?_, .inl hrefused⟩
    rw [hrefused]
    intro h
    cases h

private theorem keepDynamics_returns (host : Host) (n : Nat) (s : Proc ElfObj) :
    (keepDynamics host header n s).1 ≠ .ok (-1) := by
  have hoffset := get_members hread (f := Shdr.shOffset) (by decide)
  have hsize := get_members hread (f := Shdr.shSize) (by decide)
  rw [keepDynamics, elfSectionOf, deref_some, lift_ok_bind, hoffset, lift_ok_bind, hsize,
    lift_ok_bind, Elfdig.elfFileRead, bind_apply, fileRead_apply _ _ _ (fun _ => rfl)]
  intro h
  cases h

private theorem dvd_of_counts (host : Host) {s : Proc ElfObj}
    (hfound : elfSectionHead ".dynamic" s = (.ok (some header), s))
    (hsize : fieldAt header.tail 0 Shdr.shSize < 2 ^ 31)
    (heq : fieldAt header.tail 0 Shdr.shEntsize = Dyn.size)
    (h : Counts (elfDynRead host) (.ok (-1)) (keepDynamics host header)
      (fieldAt header.tail 0 Shdr.shSize) Dyn.size s) :
    Dyn.size ∣ fieldAt header.tail 0 Shdr.shSize := by
  rcases h.count with hrefused | ⟨hdvd, -⟩
  · rw [elfDynRead_keeps hread host hfound hsize heq] at hrefused
    exact absurd (congrArg Prod.fst hrefused) (keepDynamics_returns hread host _ _)
  · exact hdvd

private theorem found_finds :
    elfSectionHead ".dynamic" (found header) = (.ok (some header), found header) := by
  have hfind : findSection (some header) (some (dynamicNames (fieldAt header.tail 0 Shdr.shName)))
      (ascii ".dynamic") 1 0 = .ok (some header) := by
    rw [findSection, deref_some, ok_bind, Nat.zero_mul, Ptr.add_zero,
      get_members hread (by decide), ok_bind, dynamicNames_same]
    rfl
  rw [elfSectionHead, found]
  exact congrArg (fun x => Exec.lift x (found header)) hfind

end

/-- The counts are right for every entry size but 0, and but the size of a dynamic entry on a
table that it does not divide. -/
theorem countsRecords_iff (host : Host) (header : Ptr) (hread : Shdr.size ≤ header.tail.length)
    (hsize : fieldAt header.tail 0 Shdr.shSize < 2 ^ 31) :
    CountsRecords host header ↔ CountsFit header := by
  constructor
  · intro h
    constructor
    · intro hzero
      have hrun := (h.dumped none none ElfVars.start).divides
      rw [elfDumpSymtab_eq hread, hzero, checkedSymbols_zero] at hrun
      exact hrun rfl
    · intro heq
      have hfound := found_finds hread
      exact dvd_of_counts hread host hfound hsize heq (h.dynamics _ hfound)
  · intro h
    have hentsize : fieldAt header.tail 0 Shdr.shEntsize < 2 ^ 32 := fieldAt_lt _ _ Shdr.shEntsize
    constructor
    · intro symBuf strtab s
      rw [elfDumpSymtab_eq hread]
      apply checkedSymbols_counts hsize hentsize h.1
      · intro n heq
        rw [heq]
        rfl
      · exact dumpSymbols_avoids header symBuf strtab _
    · intro symBuf strBuf s
      rw [elfSummarySymtab_eq hread]
      apply checkedSymbols_counts hsize hentsize h.1
      · intro n _
        rfl
      · exact summarizeSymbols_avoids symBuf strBuf
    · intro s hfound
      exact elfDynRead_counts hread host hfound hsize h

/-- Two symbols of 16 bytes. -/
theorem countsRecords_symbols :
    CountsRecords (Host.ideal []) (chunk (Shdr.bytes 0 2 0 32 16) 0 Shdr.size) :=
  (countsRecords_iff (Host.ideal []) _ (by decide) (by decide)).mpr (by decide)

/-- The entry size 0, and twelve bytes of dynamic entries. -/
theorem countsRecords_fails :
    (elfDumpSymtab (some (chunk (Shdr.bytes 0 2 0 16 0) 0 Shdr.size)) none none ElfVars.start).1 =
      .error (.fault .divByZero) ∧
    ¬CountsRecords (Host.ideal []) (chunk (Shdr.bytes 0 2 0 16 0) 0 Shdr.size) ∧
    ¬CountsRecords (Host.ideal []) (chunk (Shdr.bytes 0 6 0 12 8) 0 Shdr.size) := by
  have hdivides : (elfDumpSymtab (some (chunk (Shdr.bytes 0 2 0 16 0) 0 Shdr.size)) none none
      ElfVars.start).1 = .error (.fault .divByZero) := by
    rw [elfDumpSymtab_eq (by decide)]
    rfl
  refine ⟨hdivides, fun h => (h.dumped none none ElfVars.start).divides hdivides, fun h => ?_⟩
  have hcounts := h.dynamics _ (found_finds (by decide))
  have hdvd := dvd_of_counts (by decide) (Host.ideal []) (found_finds (by decide)) (by decide)
    (by decide) hcounts
  exact absurd hdvd (by decide)

end PerfTools.Elf
