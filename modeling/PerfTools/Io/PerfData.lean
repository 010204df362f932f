import PerfTools.Io.ReadWrite

/-!
# The perf.data walker

The tool in t.c skips a number of bytes and shows every record of 24 bytes behind them on a line.
The skip and the count of what has been read are ints.
-/

namespace PerfTools.Io

open Memory Printf Exec Numbers

/-- What getopt returns, with the argument of -s. -/
inductive Opt
  | help
  | skip (optarg : CString)
  | version
  | unknown (option : UInt8)

/-- A record and its two last members. -/
def recordSize : Nat := 24
def pidField : Field := ⟨16, 4⟩
def tidField : Field := ⟨20, 4⟩

/-- The line of a record: the bytes from 15 down to 8 one by one, and two ints. -/
def recordText (buf : List UInt8) : Text :=
  [15, 14, 13, 12, 11, 10, 9, 8].flatMap
    (fun i => (Directive.hex zeroDigit false 2 (buf.getD i 0).toNat).text) ++
    (ascii " pid=" ++ decDigits (toInt (fieldAt buf 0 pidField)) ++ ascii " tid=" ++
      decDigits (toInt (fieldAt buf 0 tidField)) ++ ascii "\n")

def usageText : Text :=
  ascii "tools to parse perf.data" ++ ascii "command [option] file\n" ++
    ascii "option can be used:\n" ++ ascii "\t-h\n\t\tshow this message\n" ++
    ascii "\t-v\n\t\tshow version\n" ++ ascii "\t-s num\n\t\tskip num's byte when read\n"

/-- The loop over the options: the skip, or the exit code of an option that ends the program. -/
def options : List Opt → Int → Exec World (Int ⊕ Int)
  | [], argSkip => return .inl argSkip
  | .help :: _, _ => do
    print usageText
    return .inr 0
  | .skip optarg :: rest, _ => do
    let argSkip ← lift (atoi optarg.chars)
    options rest argSkip
  | .version :: _, _ => do
    print (ascii "0.1\n")
    return .inr 0
  | .unknown option :: _, _ => do
    print (ascii "unknow option " ++ [option])
    return .inr 1

/-- The position in the file, and total_read. -/
structure Walk where
  pos : Nat
  totalRead : Int

/-- One round of the loop; the last one has no next state. No file is a descriptor that every
read fails on. -/
def walkRound (file : Option (List UInt8)) (w : Walk) : Exec World (Option Walk) :=
  match file with
  | none => do
    print (ascii "read error")
    return none
  | some content =>
    let buf := (content.drop w.pos).take recordSize
    if buf.length = 0 then do
      print (ascii "read finished\n")
      return none
    else if buf.length ≠ recordSize then return none
    else do
      let totalRead ← lift (checked (w.totalRead + recordSize))
      print (recordText buf)
      return some ⟨w.pos + recordSize, totalRead⟩

/-- The loop for a number of rounds; true when it has ended by then. -/
def walk (file : Option (List UInt8)) : Nat → Walk → Exec World Bool
  | 0, _ => return false
  | n + 1, w => do
    match ← walkRound file w with
    | none => return true
    | some w => walk file n w

/-- main with at most the given number of rounds; no exit code means that the loop goes on. A
failed open or lseek is reported, and the program goes on. -/
def perfMain (rounds : Nat) (opts : List Opt) (filename : CString) : Exec World (Option Int) := do
  match ← options opts 0 with
  | .inr code => return some code
  | .inl argSkip => do
    print (filename.chars ++ ascii "\n")
    let file := (← get).files filename.chars
    runIf (file = none) (print (ascii "open error\n"))
    let moved := file ≠ none ∧ lseek argSkip ≠ -1
    runIf (¬ moved) (print (ascii "lseek error\n"))
    let ended ← walk file rounds ⟨if moved then argSkip.toNat else 0, 0⟩
    return if ended then some 0 else none

/-- The line of the record at position p of a file. -/
def recordLine (content : List UInt8) (p : Nat) : Text :=
  Hex.fixed 16 (fieldAt content p ⟨8, 8⟩) ++
    (ascii " pid=" ++ decDigits (toInt (fieldAt content p pidField)) ++ ascii " tid=" ++
      decDigits (toInt (fieldAt content p tidField)) ++ ascii "\n")

/-- The lines of the whole records behind position p, and the end of the file when no part of a
record is left. -/
def recordLines (content : List UInt8) (p : Nat) : Text :=
  (List.range ((content.length - p) / recordSize)).flatMap
    (fun k => recordLine content (p + recordSize * k)) ++
    if (content.length - p) % recordSize = 0 then ascii "read finished\n" else []

/-- The options that skip s bytes. -/
inductive Skips : List Opt → Nat → Prop
  | all : Skips [] 0
  | behind {optarg : CString} {s : Nat} : decimal optarg.chars = s → Skips [.skip optarg] s

/-- The tool ends and shows every whole record behind the first s bytes. -/
def RecordsShown (files : Files) (name : CString) (content : List UInt8) (s : Nat) : Prop :=
  ∀ opts, Skips opts s → ∃ most, ∀ rounds, most ≤ rounds →
    perfMain rounds opts name ⟨files, []⟩ =
      (.ok (some 0), ⟨files, name.chars ++ ascii "\n" ++ recordLines content s⟩)

section

variable {files : Files} {name : CString} {content : List UInt8}

/-! ## The loop -/

theorem recordText_eq {p : Nat} (hin : p + recordSize ≤ content.length) :
    recordText ((content.drop p).take recordSize) = recordLine content p := by
  rw [recordSize] at hin
  have hfield (f : Field) (hf : f.off + f.width ≤ 24) :
      fieldAt ((content.drop p).take 24) 0 f = fieldAt content p f := by
    have hdrop : (((content.drop p).take 24).drop f.off).take f.width =
        ((content.drop p).drop f.off).take f.width := by
      rw [List.drop_take, List.take_take, Nat.min_eq_left (by omega)]
    rw [fieldAt, Nat.zero_add, hdrop, List.drop_drop, fieldAt]
  have hchars : [15, 14, 13, 12, 11, 10, 9, 8].flatMap
      (fun i => (Directive.hex zeroDigit false 2
        (((content.drop p).take 24).getD i 0).toNat).text) =
      Hex.fixed 16 (fieldAt content p ⟨8, 8⟩) := by
    have hlen : ((content.drop (p + 8)).take 8).length = 8 := by
      rw [List.length_take, List.length_drop]
      omega
    have hdigits := fixed_leNat ((content.drop (p + 8)).take 8)
    have hbytes : (content.drop (p + 8)).take 8 =
        (List.range' 8 8).map fun i => ((content.drop p).take 24).getD i 0 := by
      apply List.ext_getElem
      · rw [hlen, List.length_map, List.length_range']
      · intro j hj _
        have hbuf : 8 + j < ((content.drop p).take 24).length := by
          rw [List.length_take, List.length_drop]
          omega
        rw [List.getElem_map, List.getElem_range', Nat.one_mul,
          List.getD_eq_getElem?_getD, List.getElem?_eq_getElem hbuf, Option.getD_some]
        simp only [List.getElem_take, List.getElem_drop, Nat.add_assoc]
    rw [hlen] at hdigits
    simp only [Directive.text_hexByte]
    change _ = Hex.fixed (2 * 8) (leNat ((content.drop (p + 8)).take 8))
    rw [hdigits, hbytes, ← List.map_reverse, List.flatMap_map]
    rfl
  rw [recordText, recordLine, recordSize, hchars, hfield pidField (by decide),
    hfield tidField (by decide)]

theorem recordLines_succ {p : Nat} (hin : p + recordSize ≤ content.length) :
    recordLines content p = recordLine content p ++ recordLines content (p + recordSize) := by
  have hcount : (content.length - p) / recordSize =
      (content.length - (p + recordSize)) / recordSize + 1 := by
    rw [recordSize] at hin ⊢
    omega
  have hmod : (content.length - p) % recordSize =
      (content.length - (p + recordSize)) % recordSize := by
    rw [recordSize] at hin ⊢
    omega
  have hshift (k : Nat) : p + recordSize * (k + 1) = p + recordSize + recordSize * k := by
    rw [recordSize]
    omega
  rw [recordLines, recordLines, hcount, hmod, List.range_succ_eq_map, List.flatMap_cons,
    List.flatMap_map, Nat.mul_zero, Nat.add_zero, List.append_assoc]
  simp only [Nat.succ_eq_add_one, hshift]

theorem recordLines_last {p : Nat} (hout : content.length < p + recordSize) :
    recordLines content p =
      if (content.length - p) % recordSize = 0 then ascii "read finished\n" else [] := by
  have hnone : (content.length - p) / recordSize = 0 := by
    rw [recordSize] at hout ⊢
    omega
  rw [recordLines, hnone]
  rfl

theorem walkRound_record {p : Nat} (t : Int) (out : Text) (hin : p + recordSize ≤ content.length) :
    walkRound (some content) ⟨p, t⟩ ⟨files, out⟩ =
      match checked (t + recordSize) with
      | .ok total => (.ok (some ⟨p + recordSize, total⟩), ⟨files, out ++ recordLine content p⟩)
      | .error e => (.error (.fault e), ⟨files, out⟩) := by
  have hlen : ((content.drop p).take recordSize).length = recordSize := by
    rw [List.length_take, List.length_drop]
    omega
  simp only [walkRound]
  rw [if_neg (by rw [hlen]; decide), if_neg (not_not_intro hlen), recordText_eq hin]
  cases checked (t + recordSize) with
  | ok total => rfl
  | error e => rfl

theorem walkRound_last {p : Nat} (t : Int) (out : Text) (hout : content.length < p + recordSize) :
    walkRound (some content) ⟨p, t⟩ ⟨files, out⟩ =
      (.ok none, ⟨files, out ++ recordLines content p⟩) := by
  have hlen : ((content.drop p).take recordSize).length = content.length - p := by
    rw [List.length_take, List.length_drop]
    omega
  have hmod : (content.length - p) % recordSize = content.length - p := by
    apply Nat.mod_eq_of_lt
    rw [recordSize] at hout ⊢
    omega
  simp only [walkRound]
  rw [hlen, recordLines_last hout, hmod]
  by_cases hzero : content.length - p = 0
  · rw [if_pos hzero, if_pos hzero]
    rfl
  · rw [if_neg hzero, if_neg hzero, List.append_nil, if_pos]
    · rfl
    · rw [recordSize] at hout ⊢
      omega

/-- The bytes that are read from position p on can be counted by an int. -/
def Countable (content : List UInt8) (p : Nat) (t : Int) : Prop :=
  t + (recordSize * ((content.length - p) / recordSize) : Nat) < 2 ^ 31

theorem walk_run {n p : Nat} {t : Int} {out : Text} (hn : (content.length - p) / recordSize < n)
    (ht : 0 ≤ t) (htotal : Countable content p t) :
    walk (some content) n ⟨p, t⟩ ⟨files, out⟩ =
      (.ok true, ⟨files, out ++ recordLines content p⟩) := by
  induction n generalizing p t out with
  | zero => exact absurd hn (Nat.not_lt_zero _)
  | succ n ih =>
    rw [walk, bind_apply]
    rcases Nat.lt_or_ge content.length (p + recordSize) with hout | hin
    · rw [walkRound_last t out hout]
      rfl
    · rw [Countable, recordSize] at htotal
      rw [recordSize] at hin hn
      have htotal' : Countable content (p + 24) (t + 24) := by
        rw [Countable, recordSize]
        omega
      have hchecked : checked (t + recordSize) = .ok (t + recordSize) := by
        rw [recordSize]
        exact checked_of_range (by omega) (by omega)
      rw [walkRound_record t out hin, hchecked, recordLines_succ hin, ← List.append_assoc]
      exact ih (by rw [recordSize]; omega) (by omega) htotal'

theorem walk_overflow (n : Nat) {p : Nat} {t : Int} {out : Text} (ht : 0 ≤ t) (hint : t < 2 ^ 31)
    (htotal : ¬ Countable content p t) :
    (walk (some content) n ⟨p, t⟩ ⟨files, out⟩).1 ≠ .ok true := by
  induction n generalizing p t out with
  | zero => simp [walk, pure]
  | succ n ih =>
    rw [Countable, recordSize] at htotal
    have hin : p + recordSize ≤ content.length := by
      rw [recordSize]
      omega
    rw [walk, bind_apply, walkRound_record t out hin]
    cases hchecked : checked (t + recordSize) with
    | error e => simp
    | ok total =>
      obtain ⟨htotal', -, hlt⟩ := checked_eq_ok hchecked
      rw [recordSize] at hin hlt htotal'
      apply ih (by omega) (by omega)
      rw [Countable, recordSize]
      omega

/-! ## The tool -/

theorem options_run {opts : List Opt} {s : Nat} (h : Skips opts s) (hs : s < 2 ^ 31) (w : World) :
    options opts 0 w = (.ok (.inl (s : Int)), w) := by
  cases h with
  | all => rfl
  | @behind optarg _ hdecimal =>
    have hatoi : atoi optarg.chars = .ok s := by
      rw [atoi, hdecimal]
      exact checked_of_range (by omega) (by omega)
    rw [options, hatoi, lift_ok_bind]
    rfl

theorem perfMain_run {opts : List Opt} {s : Nat} (rounds : Nat) (h : Skips opts s)
    (hs : s < 2 ^ 31) (hfile : files name.chars = some content) :
    perfMain rounds opts name ⟨files, []⟩ =
      (walk (some content) rounds ⟨s, 0⟩ >>= fun ended => pure (if ended then some 0 else none))
        ⟨files, name.chars ++ ascii "\n"⟩ := by
  have hmoved : some content ≠ none ∧ lseek s ≠ -1 := by
    rw [lseek]
    refine ⟨by simp, ?_⟩
    split_ifs <;> omega
  rw [perfMain, bind_apply, options_run h hs]
  simp only [bind_apply, Exec.get, print, Exec.modify, hfile, List.nil_append]
  rw [runIf, if_neg (by simp), runIf, if_neg (not_not_intro hmoved), if_pos hmoved,
    Int.toNat_natCast]
  rfl

/-- A skip that is no int. -/
theorem perfMain_overflow (rounds : Nat) {s : Nat} (hs : 2 ^ 31 ≤ s) :
    perfMain rounds [.skip (decArg s)] name ⟨files, []⟩ =
      (.error (.fault .overflow), ⟨files, []⟩) := by
  have hatoi : atoi (decArg s).chars = .error .overflow := by
    rw [atoi, decArg, decimal_decText]
    exact checked_overflow (by omega)
  rw [perfMain, bind_apply, options, hatoi]
  rfl

private theorem bounds_of_shown {s : Nat} (hfile : files name.chars = some content)
    (h : RecordsShown files name content s) : s < 2 ^ 31 ∧ Countable content s 0 := by
  obtain ⟨most, hrun⟩ := h [.skip (decArg s)] (.behind (decimal_decText s))
  have hlast := hrun most le_rfl
  rcases Nat.lt_or_ge s (2 ^ 31) with hs | hs
  · refine ⟨hs, ?_⟩
    by_contra hcount
    have hopen : (walk (some content) most ⟨s, 0⟩ ⟨files, name.chars ++ ascii "\n"⟩).1 ≠ .ok true :=
      walk_overflow most le_rfl (by decide) hcount
    rw [perfMain_run most (.behind (decimal_decText s)) hs hfile, bind_apply] at hlast
    rcases hwalk : walk (some content) most ⟨s, 0⟩ ⟨files, name.chars ++ ascii "\n"⟩ with
      ⟨e | ended, w⟩
    · rw [hwalk] at hlast
      cases hlast
    · rw [hwalk] at hlast hopen
      cases ended with
      | true => exact hopen rfl
      | false => cases hlast
  · rw [perfMain_overflow most hs] at hlast
    cases hlast

/-- Every whole record is shown exactly when the skip is an int and the bytes of the records can be
counted by one. -/
theorem recordsShown_iff {s : Nat} (hfile : files name.chars = some content) :
    RecordsShown files name content s ↔
      s < 2 ^ 31 ∧ 24 * ((content.length - s) / 24) < 2 ^ 31 := by
  have hcountable : Countable content s 0 ↔ 24 * ((content.length - s) / 24) < 2 ^ 31 := by
    rw [Countable, recordSize]
    omega
  rw [← hcountable]
  constructor
  · exact bounds_of_shown hfile
  · rintro ⟨hs, hcount⟩ opts hopts
    refine ⟨(content.length - s) / recordSize + 1, fun rounds hrounds => ?_⟩
    rw [perfMain_run rounds hopts hs hfile, bind_apply, walk_run (by omega) le_rfl hcount]
    rfl

end

/-- Two gigabytes that are all to be skipped. -/
def twoGigabytes : List UInt8 := List.replicate (2 ^ 31) 0

theorem largeSkip_fails :
    ¬ RecordsShown (oneFile twoGigabytes) fileName twoGigabytes twoGigabytes.length := by
  intro h
  have hfile : oneFile twoGigabytes fileName.chars = some twoGigabytes := rfl
  have hskip := (bounds_of_shown hfile h).1
  rw [twoGigabytes, List.length_replicate] at hskip
  exact absurd hskip (Nat.lt_irrefl _)

/-- Behind the first byte there are two records and one byte more. -/
theorem recordsShown_trailing :
    RecordsShown (oneFile (List.replicate 50 65)) fileName (List.replicate 50 65) 1 := by
  have hfile : oneFile (List.replicate 50 65) fileName.chars = some (List.replicate 50 65) := rfl
  exact (recordsShown_iff hfile).mpr (by decide)

end PerfTools.Io
