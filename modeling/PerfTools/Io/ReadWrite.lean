import PerfTools.Io.Pread

/-!
# The read and write tools

read8, read32 and write32 move to an offset of a file and read a byte, read a word or write one.
read8 prints its byte as a signed char and does not look at the number of bytes it got, so that
at the end of a file it prints what its variable held before.
-/

namespace PerfTools.Io

open Memory Printf Exec Numbers

/-- lseek to an offset, with the result that an int keeps. -/
def lseek (offset : Int) : Int := if offset < 0 then -1 else offset

/-- The part that the three tools have in common: open the file and move to the offset. -/
def atOffset (filename offset : CString) (body : List UInt8 → Int → Exec World Int) :
    Exec World Int := do
  match (← get).files filename.chars with
  | none =>
    print (ascii "open error\n")
    return -1
  | some content => do
    let offsetInFile ← lift (atoi offset.chars)
    if lseek offsetInFile = -1 then
      print (ascii "lseek error\n")
      return -1
    else body content offsetInFile

/-- The line of %02x for a char, and the char itself on a line of its own. -/
def charLines (ch : UInt8) : Text :=
  (Directive.hex zeroDigit false 2 (toUnsigned (charToInt ch)).toNat).text ++ ascii "\n" ++
    ([ch] ++ ascii "\n")

/-- read8; stale is what the variable ch holds before the byte is read into it. -/
def read8 (stale : UInt8) (argv : List CString) : Exec World Int :=
  match argv with
  | [_, filename, offset] => atOffset filename offset fun content offsetInFile =>
    match pread content 1 offsetInFile with
    | none => do
      print (ascii "read error")
      return -1
    | some bytes => do
      print (charLines (bytes.headD stale))
      return 0
  | _ => do
    print (ascii "read a char from offset in file\n" ++ ascii "\tcommand file offset\n")
    return -1

/-- What read32 prints for a word. -/
def readText (offset : Int) (result : Nat) : Text :=
  ascii "read int from offset 0x" ++ hexDigits offset.toNat ++ ascii " -> " ++
    (ascii "0x" ++ (Directive.hex zeroDigit false 8 result).text ++ ascii "\n")

def read32 (argv : List CString) : Exec World Int :=
  match argv with
  | [_, filename, offset] => atOffset filename offset fun content offsetInFile =>
    match pread content 4 offsetInFile with
    | none => do
      print (ascii "read error")
      return -1
    | some bytes =>
      if bytes.length < 4 then do
        print (ascii "read error")
        return -1
      else do
        print (readText offsetInFile (leNat bytes))
        return 0
  | _ => do
    print (ascii "read a char from offset in file\n" ++ ascii "\tcommand file offset\n")
    return -1

/-- What write32 prints; %x takes the low half of the unsigned long. -/
def writtenText (offset : Int) (value : Nat) : Text :=
  ascii "write int 0x" ++ (Directive.hex zeroDigit false 8 (value % 2 ^ 32)).text ++
    ascii " to offset 0x" ++ hexDigits offset.toNat ++ ascii "\n"

def write32 (argv : List CString) : Exec World Int :=
  match argv with
  | [_, filename, offset, value] => atOffset filename offset fun content offsetInFile => do
    let valueToWrite := ((← lift (atoi value.chars)) % 2 ^ 64).toNat
    match pwrite content ((leBytes 8 valueToWrite).take 4) offsetInFile with
    | none =>
      print (ascii "write error")
      return -1
    | some content =>
      setFile filename.chars content
      print (writtenText offsetInFile valueToWrite)
      return 0
  | _ => do
    print (ascii "write int to offset in file\n" ++ ascii "\tcommand file offset value\n")
    return -1

/-- A run that ends with an error; the files are as they were. -/
def Reports (main : Exec World Int) (files : Files) : Prop :=
  ∃ out, main ⟨files, []⟩ = (.ok (-1), ⟨files, out⟩)

/-- The run of read8 that shows a byte with two digits. -/
def ShowsByte (main : Exec World Int) (files : Files) (b : UInt8) : Prop :=
  Succeeds main files files (Hex.fixed 2 b.toNat ++ ascii "\n" ++ ([b] ++ ascii "\n"))

/-- The run of read32 that shows a word with eight digits. -/
def ShowsWord (main : Exec World Int) (files : Files) (o v : Nat) : Prop :=
  Succeeds main files files (ascii "read int from offset 0x" ++ hexDigits o ++ ascii " -> " ++
    (ascii "0x" ++ Hex.fixed 8 v ++ ascii "\n"))

/-- The three tools agree at offset o of a file, whatever text gives the offset. -/
structure Agree (files : Files) (name : CString) (content : List UInt8) (o : Nat) : Prop where
  byte : ∀ stale prog offset, decimal offset.chars = o →
    match content[o]? with
    | some b => ShowsByte (read8 stale [prog, name, offset]) files b
    | none => Reports (read8 stale [prog, name, offset]) files
  word : ∀ prog offset, decimal offset.chars = o →
    if o + 4 ≤ content.length then
      ∃ bytes : List UInt8, bytes.length = 4 ∧
        ShowsWord (read32 [prog, name, offset]) files o (leNat bytes) ∧
        ∀ i b, bytes[i]? = some b → ∀ stale prog' offset', decimal offset'.chars = (o + i : Nat) →
          ShowsByte (read8 stale [prog', name, offset']) files b
    else Reports (read32 [prog, name, offset]) files
  written : ∀ prog prog' offset offset' value files' out v, decimal offset.chars = o →
    decimal offset'.chars = o → decimal value.chars = v → -2 ^ 31 ≤ v → v < 2 ^ 31 →
    Succeeds (write32 [prog, name, offset, value]) files files' out →
    ShowsWord (read32 [prog', name, offset']) files' o (v % 2 ^ 32).toNat ∧
      ∀ name' k, ¬ (name' = name.chars ∧ o ≤ k ∧ k < o + 4) →
        byteAt files' name' k = byteAt files name' k

section

variable {files : Files} {name : CString} {content : List UInt8}

/-! ## Runs -/

theorem atOffset_run (offset : CString) (body : List UInt8 → Int → Exec World Int) {p : Nat}
    (hfile : files name.chars = some content) (hp : decimal offset.chars = p) (hlt : p < 2 ^ 31) :
    atOffset name offset body ⟨files, []⟩ = body content p ⟨files, []⟩ := by
  have hatoi : atoi offset.chars = .ok p := by
    rw [atoi, hp]
    exact checked_of_range (by omega) (by omega)
  have hseek : lseek p ≠ -1 := by
    rw [lseek]
    split_ifs <;> omega
  simp only [atOffset, bind_apply, Exec.get, hfile, hatoi, Exec.lift]
  rw [if_neg hseek]

theorem atOffset_overflow (offset : CString) (body : List UInt8 → Int → Exec World Int) {p : Nat}
    (hfile : files name.chars = some content) (hp : decimal offset.chars = p) (hge : 2 ^ 31 ≤ p) :
    atOffset name offset body ⟨files, []⟩ = (.error (.fault .overflow), ⟨files, []⟩) := by
  have hatoi : atoi offset.chars = .error .overflow := by
    rw [atoi, hp]
    exact checked_overflow (by omega)
  simp only [atOffset, bind_apply, Exec.get, hfile, hatoi, Exec.lift]

theorem pread_natCast (count p : Nat) :
    pread content count p = some ((content.drop p).take count) := if_neg (by omega)

theorem read8_run (stale : UInt8) (prog offset : CString) {p : Nat}
    (hfile : files name.chars = some content) (hp : decimal offset.chars = p) (hlt : p < 2 ^ 31) :
    read8 stale [prog, name, offset] ⟨files, []⟩ =
      (.ok 0, ⟨files, charLines ((content[p]?).getD stale)⟩) := by
  have hhead : ((content.drop p).take 1).headD stale = (content[p]?).getD stale := by
    rw [List.headD_eq_head?_getD, List.head?_take, if_neg (by decide), List.head?_drop]
  rw [read8, atOffset_run offset _ hfile hp hlt, pread_natCast]
  dsimp only
  rw [hhead]
  generalize charLines ((content[p]?).getD stale) = text
  rfl

theorem charLines_eq (b : UInt8) :
    charLines b = Hex.fixed 2 b.toNat ++ ascii "\n" ++ ([b] ++ ascii "\n") ↔ b.toNat < 128 := by
  have hall : ∀ n < 256, (Directive.hex zeroDigit false 2
      (toUnsigned (charToInt (UInt8.ofNat n))).toNat).text = Hex.fixed 2 n ↔ n < 128 := by
    decide +kernel
  have hb := hall b.toNat b.toNat_lt
  rw [UInt8.ofNat_toNat] at hb
  rw [charLines, List.append_left_inj, List.append_left_inj]
  exact hb

theorem read32_run (prog offset : CString) {p : Nat} (hfile : files name.chars = some content)
    (hp : decimal offset.chars = p) (hlt : p < 2 ^ 31) :
    read32 [prog, name, offset] ⟨files, []⟩ =
      if p + 4 ≤ content.length then
        (.ok 0, ⟨files, readText p (leNat ((content.drop p).take 4))⟩)
      else (.ok (-1), ⟨files, ascii "read error"⟩) := by
  rw [read32, atOffset_run offset _ hfile hp hlt, pread_natCast]
  dsimp only
  have hlen : ((content.drop p).take 4).length < 4 ↔ ¬ p + 4 ≤ content.length := by
    rw [List.length_take, List.length_drop]
    omega
  by_cases hin : p + 4 ≤ content.length
  · rw [if_neg (fun h => hlen.mp h hin), if_pos hin]
    rfl
  · rw [if_pos (hlen.mpr hin), if_neg hin]
    rfl

/-! ## read8 -/

theorem read8_shows (stale : UInt8) (prog offset : CString) {p : Nat} {b : UInt8}
    (hfile : files name.chars = some content) (hp : decimal offset.chars = p) :
    ShowsByte (read8 stale [prog, name, offset]) files b ↔
      p < 2 ^ 31 ∧ (content[p]?).getD stale = b ∧ b.toNat < 128 := by
  rcases Nat.lt_or_ge p (2 ^ 31) with hlt | hge
  · rw [ShowsByte, Succeeds, read8_run stale prog offset hfile hp hlt]
    constructor
    · intro h
      have htext := congrArg (fun r => r.2.out) h
      have hlast := (List.append_inj' htext rfl).2
      have hbyte : (content[p]?).getD stale = b := List.head_eq_of_cons_eq hlast
      rw [hbyte] at htext
      exact ⟨hlt, hbyte, (charLines_eq b).mp htext⟩
    · rintro ⟨-, rfl, hplain⟩
      rw [(charLines_eq _).mpr hplain]
  · rw [ShowsByte, Succeeds, read8, atOffset_overflow offset _ hfile hp hge]
    constructor
    · intro h
      cases h
    · intro h
      omega

theorem read8_silent (stale : UInt8) (prog offset : CString) {p : Nat}
    (hfile : files name.chars = some content) (hp : decimal offset.chars = p) :
    ¬ Reports (read8 stale [prog, name, offset]) files := by
  rintro ⟨out, h⟩
  rcases Nat.lt_or_ge p (2 ^ 31) with hlt | hge
  · rw [read8_run stale prog offset hfile hp hlt] at h
    cases h
  · rw [read8, atOffset_overflow offset _ hfile hp hge] at h
    cases h

/-! ## write32 -/

/-- The four bytes that write32 stores. -/
def stored (v : Int) : List UInt8 := (leBytes 8 (v % 2 ^ 64).toNat).take 4

theorem stored_eq (v : Int) : stored v = leBytes 4 (v % 2 ^ 64).toNat := leBytes_take 4 4 _

theorem leNat_stored (v : Int) : leNat (stored v) = (v % 2 ^ 32).toNat := by
  rw [stored_eq, leNat_leBytes_mod]
  omega

theorem write32_stores {prog offset value : CString} {files' : Files} {out : Text} {p : Nat} {v : Int}
    (hfile : files name.chars = some content) (hp : decimal offset.chars = p) (hlt : p < 2 ^ 31)
    (hv : decimal value.chars = v) (hlow : -2 ^ 31 ≤ v) (hhigh : v < 2 ^ 31)
    (h : Succeeds (write32 [prog, name, offset, value]) files files' out) :
    files' = Function.update files name.chars (some (storeAt content p (stored v))) := by
  have hatoi : atoi value.chars = .ok v := by
    rw [atoi, hv]
    exact checked_of_range hlow hhigh
  have hroom : pwrite content (stored v) p = some (storeAt content p (stored v)) := by
    apply if_neg
    rw [stored_eq, leBytes_length, offMax]
    omega
  rw [Succeeds, write32, atOffset_run offset _ hfile hp hlt, hatoi, lift_ok_bind] at h
  unfold stored at hroom
  rw [hroom] at h
  exact (congrArg (fun r => r.2.files) h).symm

/-! ## The agreement -/

/-- Where the tools agree: the offset is an int, and the bytes they show are not negative. -/
structure Plain (content : List UInt8) (o : Nat) : Prop where
  offset : o < 2 ^ 31
  byte : ∃ b, content[o]? = some b ∧ b.toNat < 128
  word : o + 4 ≤ content.length → o + 3 < 2 ^ 31 ∧
    ∀ i < 4, ∀ b, content[o + i]? = some b → b.toNat < 128

private theorem plain_of_agree {o : Nat} (hfile : files name.chars = some content)
    (h : Agree files name content o) : Plain content o := by
  have hbyte := h.byte 0 name (decArg o) (decimal_decText o)
  have hword := h.word name (decArg o) (decimal_decText o)
  cases hget : content[o]? with
  | none =>
    rw [hget] at hbyte
    exact absurd hbyte (read8_silent 0 name (decArg o) hfile (decimal_decText o))
  | some b =>
    rw [hget] at hbyte
    obtain ⟨hoffset, -, hplain⟩ :=
      (read8_shows 0 name (decArg o) hfile (decimal_decText o)).mp hbyte
    refine ⟨hoffset, ⟨b, hget, hplain⟩, fun hin => ?_⟩
    rw [if_pos hin] at hword
    obtain ⟨bytes, hlen, -, hshows⟩ := hword
    have hall (i : Nat) (hi : i < 4) :
        o + i < 2 ^ 31 ∧ ∀ c, content[o + i]? = some c → c.toNat < 128 := by
      have hsome : bytes[i]? = some bytes[i] := List.getElem?_eq_getElem (by omega)
      have hrun := hshows i _ hsome 0 name (decArg (o + i)) (decimal_decText (o + i))
      obtain ⟨hlt, hvalue, hsmall⟩ :=
        (read8_shows 0 name (decArg (o + i)) hfile (decimal_decText (o + i))).mp hrun
      refine ⟨hlt, fun c hc => ?_⟩
      rw [hc, Option.getD_some] at hvalue
      rw [hvalue]
      exact hsmall
    exact ⟨(hall 3 (by decide)).1, fun i hi => (hall i hi).2⟩

private theorem word_of_plain {o : Nat} (hfile : files name.chars = some content)
    (h : Plain content o) (prog offset : CString) (hp : decimal offset.chars = o) :
    if o + 4 ≤ content.length then
      ∃ bytes : List UInt8, bytes.length = 4 ∧
        ShowsWord (read32 [prog, name, offset]) files o (leNat bytes) ∧
        ∀ i b, bytes[i]? = some b → ∀ stale prog' offset', decimal offset'.chars = (o + i : Nat) →
          ShowsByte (read8 stale [prog', name, offset']) files b
    else Reports (read32 [prog, name, offset]) files := by
  have hrun := read32_run prog offset hfile hp h.offset
  by_cases hin : o + 4 ≤ content.length
  · obtain ⟨hlast, hplain⟩ := h.word hin
    rw [if_pos hin] at hrun ⊢
    have hlen : ((content.drop o).take 4).length = 4 := by
      rw [List.length_take, List.length_drop]
      omega
    refine ⟨(content.drop o).take 4, hlen, ?_, fun i b hb stale prog' offset' hp' => ?_⟩
    · rw [ShowsWord, Succeeds, hrun, readText, Directive.text_hexWord, Int.toNat_natCast]
    · have hi : i < 4 := by
        have hbound := (List.getElem?_eq_some_iff.mp hb).1
        omega
      rw [List.getElem?_take_of_lt hi, List.getElem?_drop] at hb
      rw [read8_shows stale prog' offset' hfile hp', hb, Option.getD_some]
      exact ⟨by omega, rfl, hplain i hi b hb⟩
  · rw [if_neg hin] at hrun ⊢
    exact ⟨_, hrun⟩

private theorem written_of_plain {o : Nat} (hfile : files name.chars = some content)
    (h : Plain content o) {prog prog' offset offset' value : CString} {files' : Files} {out : Text}
    {v : Int} (hp : decimal offset.chars = o) (hp' : decimal offset'.chars = o)
    (hv : decimal value.chars = v) (hlow : -2 ^ 31 ≤ v) (hhigh : v < 2 ^ 31)
    (hrun : Succeeds (write32 [prog, name, offset, value]) files files' out) :
    ShowsWord (read32 [prog', name, offset']) files' o (v % 2 ^ 32).toNat ∧
      ∀ name' k, ¬ (name' = name.chars ∧ o ≤ k ∧ k < o + 4) →
        byteAt files' name' k = byteAt files name' k := by
  obtain ⟨b, hget, -⟩ := h.byte
  have hin : o ≤ content.length := (List.getElem?_eq_some_iff.mp hget).1.le
  have hfour : (stored v).length = 4 := by rw [stored_eq, leBytes_length]
  have hlen := storeAt_length (stored v) hin
  have hback := storeAt_read (stored v) hin
  rw [hfour] at hback
  obtain rfl := write32_stores hfile hp h.offset hv hlow hhigh hrun
  constructor
  · have hread := read32_run prog' offset' (Function.update_self name.chars
      (some (storeAt content o (stored v))) files) hp' h.offset
    rw [if_pos (by omega), hback, leNat_stored] at hread
    rw [ShowsWord, Succeeds, hread, readText, Directive.text_hexWord, Int.toNat_natCast]
  · intro name' k hk
    by_cases hname : name' = name.chars
    · subst hname
      have hsame := storeAt_outside (stored v) hin (k := k) (by rw [hfour]; tauto)
      simp only [byteAt, Function.update_self, hfile, Option.bind_some, hsame]
    · simp only [byteAt, Function.update_of_ne hname]

/-- The tools agree exactly where the offset is an int and no byte that read8 is to show is
missing or negative. -/
theorem agree_iff {o : Nat} (hfile : files name.chars = some content) :
    Agree files name content o ↔ Plain content o := by
  constructor
  · exact plain_of_agree hfile
  · intro h
    refine ⟨fun stale prog offset hp => ?_, word_of_plain hfile h,
      fun prog prog' offset offset' value files' out v => written_of_plain hfile h⟩
    obtain ⟨b, hget, hplain⟩ := h.byte
    rw [hget]
    apply (read8_shows stale prog offset hfile hp).mpr
    exact ⟨h.offset, by rw [hget, Option.getD_some], hplain⟩

end

/-- One file under every name. -/
def oneFile (content : List UInt8) : Files := fun _ => some content

def fileName : CString := ⟨ascii "file", by decide⟩

/-- A file of one byte: behind it read8 shows the byte that its variable held. -/
theorem endOfFile_disagrees : ¬ Agree (oneFile [65]) fileName [65] 1 := by
  intro h
  have hfile : oneFile [65] fileName.chars = some [65] := rfl
  obtain ⟨b, hb, -⟩ := (plain_of_agree hfile h).byte
  cases hb

theorem agree_greeting : Agree (oneFile (ascii "hello")) fileName (ascii "hello") 1 := by
  have hfile : oneFile (ascii "hello") fileName.chars = some (ascii "hello") := rfl
  have hplain : ∀ i < 4, ∀ b, (ascii "hello")[1 + i]? = some b → b.toNat < 128 := by
    intro i _ b hb
    have hmem : b ∈ ascii "hello" := List.mem_of_getElem? hb
    have hall : ∀ c ∈ ascii "hello", c.toNat < 128 := by decide +kernel
    exact hall b hmem
  exact (agree_iff hfile).mpr
    ⟨by decide, ⟨101, by decide, by decide⟩, fun _ => ⟨by decide, hplain⟩⟩

end PerfTools.Io
