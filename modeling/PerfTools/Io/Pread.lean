import PerfTools.Lib.Exec
import PerfTools.Lib.Numbers
import PerfTools.Lib.Printf

/-!
# The pread and pwrite tools

preadb and preadl print one byte or one little-endian word of a file, pwriteb and pwritel store
one. All four take the offset as a text. Only pwriteb keeps it in an unsigned long; in the three
others it goes through an int, so that from 2^31 on they address other bytes than it does.
-/

namespace PerfTools.Io

open Memory Printf Exec Numbers

/-- The files that open finds, by name. -/
abbrev Files := Text → Option (List UInt8)

/-- What the tools work on: the files, and what has been sent to stdout. -/
structure World where
  files : Files
  out : Text

/-- One past the largest off_t. -/
def offMax : Nat := 2 ^ 63

/-- pread on a file; none stands for a failure. -/
def pread (content : List UInt8) (count : Nat) (offset : Int) : Option (List UInt8) :=
  if offset < 0 then none else some ((content.drop offset.toNat).take count)

/-- The file after bytes have been stored at an offset; a hole in front of them reads as zero. -/
def storeAt (content : List UInt8) (offset : Nat) (bytes : List UInt8) : List UInt8 :=
  (content ++ List.replicate (offset - content.length) 0).take offset ++ bytes ++
    content.drop (offset + bytes.length)

/-- pwrite on a file, with its result; none stands for a failure. -/
def pwrite (content bytes : List UInt8) (offset : Int) : Option (List UInt8) :=
  if offset < 0 ∨ (offMax : Int) ≤ offset + bytes.length then none
  else some (storeAt content offset.toNat bytes)

def print (t : Text) : Exec World Unit := modify fun w => { w with out := w.out ++ t }

def setFile (name : Text) (content : List UInt8) : Exec World Unit :=
  modify fun w => { w with files := Function.update w.files name (some content) }

/-- printf with a format that names arguments which are not there. -/
def usage (format : String) : Exec World Int := do
  let t ← lift (formatNoArgs (ascii format))
  print t
  return -1

/-- The line printed for the word ch at an offset; %x takes both as unsigned. -/
def wordLine (offset : Int) (ch : Nat) : Text :=
  let fmt : Format := lit "offset 0x" ++ [.hex space false 0 (toUnsigned offset).toNat] ++
    lit ": 0x" ++ [.hex space false 0 ch] ++ lit "\n"
  fmt.flatMap Directive.text

/-- The common main of preadb and preadl. -/
def preadMain (ioLen : Nat) (openError : Text) (argv : List CString) : Exec World Int :=
  match argv with
  | [_, filename, offset] => do
    let offset := toInt (strtoul offset.chars)
    match (← get).files filename.chars with
    | none =>
      print openError
      return -1
    | some content =>
      match pread content ioLen offset with
      | none =>
        print (ascii "read fialed\n")
        return -1
      | some bytes =>
        if bytes.length ≠ ioLen then
          print (ascii "read fialed\n")
          return -1
        else
          print (wordLine offset (leNat bytes))
          return 0
  | _ => usage "%s filename offset\n"

/-- The error of open goes to stderr. -/
def preadb : List CString → Exec World Int := preadMain 1 []

def preadl : List CString → Exec World Int := preadMain 4 (ascii "open error\n")

/-- The common main of pwriteb and pwritel; toOffset is what the type of offset makes of the
number. -/
def pwriteMain (ioLen : Nat) (toOffset : Nat → Int) (argv : List CString) : Exec World Int :=
  match argv with
  | [_, filename, offset, ch] => do
    let offset := toOffset (strtoul offset.chars)
    let bytes := leBytes ioLen (strtoul ch.chars)
    match (← get).files filename.chars with
    | none =>
      print (ascii "open error\n")
      return -1
    | some content =>
      match pwrite content bytes offset with
      | none =>
        print (ascii "write fialed\n")
        return -1
      | some content => do
        setFile filename.chars content
        return 0
  | _ => usage "%s filename offset char\n"

def pwriteb : List CString → Exec World Int := pwriteMain 1 toInt64

def pwritel : List CString → Exec World Int := pwriteMain 4 toInt

/-- A run that exits with success: the files it leaves and what it prints. -/
def Succeeds (main : Exec World Int) (files files' : Files) (out : Text) : Prop :=
  main ⟨files, []⟩ = (.ok 0, ⟨files', out⟩)

/-- A reading tool started on an offset prints the value v. -/
def PrintsValue (main : List CString → Exec World Int) (files : Files) (argv : List CString)
    (offset : CString) (v : Nat) : Prop :=
  Succeeds (main argv) files files (wordLine (toInt (strtoul offset.chars)) v)

/-- The byte at a position of a file. -/
def byteAt (files : Files) (name : Text) (k : Nat) : Option UInt8 := (files name).bind (·[k]?)

/-- After a successful write of v to n bytes at position o, the reading tool prints v there, and
no other byte of any file has changed. -/
def WriteReads (write read : List CString → Exec World Int) (n : Nat) (files : Files)
    (name : CString) (o : Nat) : Prop :=
  ∀ prog prog' offset value files' out, strtoul offset.chars = o →
    strtoul value.chars < 256 ^ n →
    Succeeds (write [prog, name, offset, value]) files files' out →
    PrintsValue read files' [prog', name, offset] offset (strtoul value.chars) ∧
    ∀ name' k, ¬ (name' = name.chars ∧ o ≤ k ∧ k < o + n) →
      byteAt files' name' k = byteAt files name' k

/-- What preadl prints at o is put together from what preadb prints at o to o + 3. -/
def WordOfBytes (files : Files) (name : CString) (o : Nat) : Prop :=
  ∀ prog prog' offset, strtoul offset.chars = o →
    ∃ bytes : List Nat, bytes.length = 4 ∧
      PrintsValue preadl files [prog, name, offset] offset (Nat.ofDigits 256 bytes) ∧
      ∀ i b, bytes[i]? = some b → ∀ offset', strtoul offset'.chars = o + i →
        PrintsValue preadb files [prog', name, offset'] offset' b

section

variable {files : Files} {name : CString} {content : List UInt8}

/-! ## Storing bytes -/

/-- At an offset that the file reaches the bytes replace those that are there. -/
theorem storeAt_eq (bytes : List UInt8) {o : Nat} (h : o ≤ content.length) :
    storeAt content o bytes = content.take o ++ bytes ++ content.drop (o + bytes.length) := by
  have hhole : List.replicate (o - content.length) (0 : UInt8) = [] := by
    rw [Nat.sub_eq_zero_of_le h]
    rfl
  rw [storeAt, hhole, List.append_nil]

theorem storeAt_length (bytes : List UInt8) {o : Nat} (h : o ≤ content.length) :
    (storeAt content o bytes).length = max content.length (o + bytes.length) := by
  rw [storeAt_eq bytes h, List.length_append, List.length_append, List.length_take, List.length_drop]
  omega

theorem storeAt_read (bytes : List UInt8) {o : Nat} (h : o ≤ content.length) :
    ((storeAt content o bytes).drop o).take bytes.length = bytes := by
  have hlen : (content.take o).length = o := List.length_take_of_le h
  rw [storeAt_eq bytes h, List.append_assoc, List.drop_left' hlen, List.take_left' rfl]

theorem storeAt_outside (bytes : List UInt8) {o k : Nat} (h : o ≤ content.length)
    (hk : ¬ (o ≤ k ∧ k < o + bytes.length)) : (storeAt content o bytes)[k]? = content[k]? := by
  have hlen : (content.take o).length = o := List.length_take_of_le h
  rw [storeAt_eq bytes h, List.append_assoc]
  by_cases hlow : k < o
  · rw [List.getElem?_append_left (by omega), List.getElem?_take_of_lt hlow]
  · have hhigh : o + bytes.length ≤ k := by omega
    rw [List.getElem?_append_right (by omega), List.getElem?_append_right (by omega), hlen,
      List.getElem?_drop]
    congr 1
    omega

/-! ## Runs of the tools -/

theorem wordLine_inj {offset : Int} {a b : Nat} (ha : a < 2 ^ 32) (hb : b < 2 ^ 32)
    (h : wordLine offset a = wordLine offset b) : a = b := by
  simp only [wordLine, List.flatMap_append, List.append_assoc, List.append_cancel_left_eq,
    List.append_cancel_right_eq, List.flatMap_singleton, Directive.text_hex] at h
  exact hexDigits_inj ha hb h

private theorem preadMain_run (ioLen : Nat) (openError : Text) (prog offset : CString)
    (hfile : files name.chars = some content) :
    preadMain ioLen openError [prog, name, offset] ⟨files, []⟩ =
      match pread content ioLen (toInt (strtoul offset.chars)) with
      | none => (.ok (-1), ⟨files, ascii "read fialed\n"⟩)
      | some bytes =>
        if bytes.length ≠ ioLen then (.ok (-1), ⟨files, ascii "read fialed\n"⟩)
        else (.ok 0, ⟨files, wordLine (toInt (strtoul offset.chars)) (leNat bytes)⟩) := by
  simp only [preadMain, bind_apply, Exec.get, hfile]
  cases pread content ioLen (toInt (strtoul offset.chars)) with
  | none => rfl
  | some bytes =>
    dsimp only
    split_ifs <;> rfl

private theorem pwriteMain_run (ioLen : Nat) (toOffset : Nat → Int) (prog offset value : CString)
    (hfile : files name.chars = some content) :
    pwriteMain ioLen toOffset [prog, name, offset, value] ⟨files, []⟩ =
      match pwrite content (leBytes ioLen (strtoul value.chars))
        (toOffset (strtoul offset.chars)) with
      | none => (.ok (-1), ⟨files, ascii "write fialed\n"⟩)
      | some stored => (.ok 0, ⟨Function.update files name.chars (some stored), []⟩) := by
  simp only [pwriteMain, bind_apply, Exec.get, hfile]
  cases pwrite content (leBytes ioLen (strtoul value.chars)) (toOffset (strtoul offset.chars)) with
  | none => rfl
  | some stored => rfl

/-- A reading tool prints the bytes at the offset it has kept, when they are in the file. -/
theorem preadMain_prints (ioLen : Nat) (openError : Text) (prog offset : CString) {p : Nat}
    (hfile : files name.chars = some content) (hp : toInt (strtoul offset.chars) = p)
    (hin : p + ioLen ≤ content.length) :
    PrintsValue (preadMain ioLen openError) files [prog, name, offset] offset
      (leNat ((content.drop p).take ioLen)) := by
  have hread : pread content ioLen p = some ((content.drop p).take ioLen) := if_neg (by omega)
  have hlen : ((content.drop p).take ioLen).length = ioLen := by
    rw [List.length_take, List.length_drop]
    omega
  rw [PrintsValue, Succeeds, preadMain_run ioLen openError prog offset hfile, hp, hread]
  exact if_neg (not_not_intro hlen)

theorem preadMain_refused (ioLen : Nat) (openError : Text) (prog offset : CString)
    (hfile : files name.chars = some content) (hp : toInt (strtoul offset.chars) < 0) (v : Nat) :
    ¬ PrintsValue (preadMain ioLen openError) files [prog, name, offset] offset v := by
  have hread : pread content ioLen (toInt (strtoul offset.chars)) = none := if_pos hp
  rw [PrintsValue, Succeeds, preadMain_run ioLen openError prog offset hfile, hread]
  intro h
  cases h

theorem printsValue_inj {read : List CString → Exec World Int} {argv : List CString}
    {offset : CString} {a b : Nat} (ha : a < 2 ^ 32) (hb : b < 2 ^ 32)
    (h : PrintsValue read files argv offset a) (h' : PrintsValue read files argv offset b) :
    a = b := by
  rw [PrintsValue, Succeeds] at h h'
  rw [h] at h'
  apply wordLine_inj ha hb
  exact congrArg (fun r => r.2.out) h'

/-! ## Offsets below 2^31 -/

theorem pwriteMain_stores {ioLen : Nat} {toOffset : Nat → Int} {prog offset value : CString}
    {files' : Files} {out : Text} {p : Nat} (hfile : files name.chars = some content)
    (hp : toOffset (strtoul offset.chars) = p)
    (h : Succeeds (pwriteMain ioLen toOffset [prog, name, offset, value]) files files' out) :
    files' = Function.update files name.chars
      (some (storeAt content p (leBytes ioLen (strtoul value.chars)))) := by
  rw [Succeeds, pwriteMain_run ioLen toOffset prog offset value hfile, hp, pwrite] at h
  split_ifs at h with hbad
  · cases h
  · exact (congrArg (fun r => r.2.files) h).symm

theorem writeReads_of_kept {ioLen o : Nat} {toOffset : Nat → Int} (openError : Text)
    (hfile : files name.chars = some content) (hwrite : toOffset o = o) (hread : toInt o = o)
    (hin : o + ioLen ≤ content.length) :
    WriteReads (pwriteMain ioLen toOffset) (preadMain ioLen openError) ioLen files name o := by
  rintro prog prog' offset value files' out rfl hvalue hrun
  have hbytes : (leBytes ioLen (strtoul value.chars)).length = ioLen := leBytes_length _ _
  have hstored := pwriteMain_stores hfile hwrite hrun
  have hin' : strtoul offset.chars ≤ content.length := by omega
  have hlen := storeAt_length (leBytes ioLen (strtoul value.chars)) hin'
  have hback := storeAt_read (leBytes ioLen (strtoul value.chars)) hin'
  have hroom : strtoul offset.chars + ioLen ≤
      (storeAt content (strtoul offset.chars) (leBytes ioLen (strtoul value.chars))).length := by
    omega
  rw [hbytes] at hback
  subst hstored
  constructor
  · have hprint := @preadMain_prints _ name _ ioLen openError prog' offset _
      (Function.update_self name.chars _ files) hread hroom
    rwa [hback, leNat_leBytes hvalue] at hprint
  · intro name' k hk
    by_cases hname : name' = name.chars
    · subst hname
      have hsame := storeAt_outside _ hin' (k := k) (by
        rw [hbytes]
        exact fun hinside => hk ⟨rfl, hinside⟩)
      simp only [byteAt, Function.update_self, hfile, Option.bind_some, hsame]
    · simp only [byteAt, Function.update_of_ne hname]

private theorem leNat_byte {k : Nat} {b : UInt8} (hk : content[k]? = some b) :
    leNat ((content.drop k).take 1) = b.toNat := by
  obtain ⟨hlt, hget⟩ := List.getElem?_eq_some_iff.mp hk
  rw [List.drop_eq_getElem_cons hlt, hget]
  simp [leNat]

theorem wordOfBytes_of_kept {o : Nat} (hfile : files name.chars = some content)
    (hin : o + 4 ≤ content.length) (ho : o + 3 < 2 ^ 31) : WordOfBytes files name o := by
  rintro prog prog' offset rfl
  have hlen : ((content.drop (strtoul offset.chars)).take 4).length = 4 := by
    rw [List.length_take, List.length_drop]
    omega
  refine ⟨((content.drop (strtoul offset.chars)).take 4).map UInt8.toNat, ?_, ?_, ?_⟩
  · rw [List.length_map, hlen]
  · exact preadMain_prints 4 _ prog offset hfile (toInt_of_lt (by omega)) hin
  · intro i b hb offset' hoffset
    rw [List.getElem?_map, Option.map_eq_some_iff] at hb
    obtain ⟨c, hc, rfl⟩ := hb
    have hi : i < 4 := by
      have hbound := (List.getElem?_eq_some_iff.mp hc).1
      omega
    rw [List.getElem?_take_of_lt hi, List.getElem?_drop, ← hoffset] at hc
    have hprint := preadMain_prints 1 [] prog' offset' hfile
      (toInt_of_lt (by rw [hoffset]; omega)) (by omega)
    rwa [leNat_byte hc] at hprint

/-! ## Offsets from 2^31 on -/

/-- A text for a number. -/
private def hexArg (n : Nat) : CString := ⟨hexText n, hexText_nulFree n⟩

private theorem pwriteb_succeeds {o v : Nat} (prog : CString)
    (hfile : files name.chars = some content)
    (hin : o < content.length) (hlen : content.length < 2 ^ 63) (hv : v < 256) :
    Succeeds (pwriteb [prog, name, hexArg o, hexArg v]) files
      (Function.update files name.chars (some (storeAt content o (leBytes 1 v)))) [] := by
  have ho : strtoul (hexArg o).chars = o := strtoul_hexText (by omega)
  have hv' : strtoul (hexArg v).chars = v := strtoul_hexText (by omega)
  have hoff : toInt64 o = o := toInt64_of_lt (by omega)
  have hroom : ¬ ((o : Int) < 0 ∨ (offMax : Int) ≤ o + (leBytes 1 v).length) := by
    rw [leBytes_length, offMax]
    omega
  rw [Succeeds, pwriteb, pwriteMain_run 1 toInt64 prog _ _ hfile, ho, hv', hoff, pwrite,
    if_neg hroom]
  rfl

theorem not_writeReads_byte {o : Nat} (hfile : files name.chars = some content)
    (hin : o < content.length) (hlen : content.length < 2 ^ 63) (ho : 2 ^ 31 ≤ o) :
    ¬ WriteReads pwriteb preadb 1 files name o := by
  intro hlaw
  have hoffset : strtoul (hexArg o).chars = o := strtoul_hexText (by omega)
  have hlaw' (v : Nat) (hv : v < 256) := (hlaw name name (hexArg o) (hexArg v) _ _ hoffset
    (by rw [hexArg, strtoul_hexText (by omega)]; exact hv)
    (pwriteb_succeeds name hfile hin hlen hv)).1
  have hvalue (v : Nat) (hv : v < 256) : strtoul (hexArg v).chars = v := strtoul_hexText (by omega)
  rcases lt_or_ge (toInt (strtoul (hexArg o).chars)) 0 with hneg | hpos
  · exact preadMain_refused 1 [] name (hexArg o) (Function.update_self _ _ _) hneg _
      (hlaw' 0 (by decide))
  · obtain ⟨p, hp⟩ := Int.eq_ofNat_of_zero_le hpos
    have hrange := toInt_range (strtoul (hexArg o).chars)
    have hp' : p < content.length := by omega
    -- the value that is written differs from the byte that is read
    obtain ⟨v, hv, hne⟩ : ∃ v < 256, content[p].toNat ≠ v := by
      by_cases hzero : content[p].toNat = 0
      · exact ⟨1, by decide, by omega⟩
      · exact ⟨0, by decide, hzero⟩
    have hbyte : (storeAt content o (leBytes 1 v))[p]? = some content[p] := by
      rw [storeAt_outside _ hin.le (by omega), List.getElem?_eq_getElem hp']
    have hprint := @preadMain_prints _ name _ 1 [] name (hexArg o) _
      (Function.update_self name.chars (some (storeAt content o (leBytes 1 v))) files) hp
      (by rw [storeAt_length _ hin.le]; omega)
    rw [leNat_byte hbyte] at hprint
    have hsame := printsValue_inj (by have := content[p].toNat_lt; omega) (by rw [hvalue v hv]; omega)
      hprint (hlaw' v hv)
    rw [hvalue v hv] at hsame
    exact hne hsame

theorem not_wordOfBytes {o : Nat} (hfile : files name.chars = some content) (ho : o < 2 ^ 31)
    (hcross : 2 ^ 31 ≤ o + 3) : ¬ WordOfBytes files name o := by
  intro hlaw
  have hoffset : strtoul (hexArg o).chars = o := strtoul_hexText (by omega)
  have hlast : strtoul (hexArg (o + 3)).chars = o + 3 := strtoul_hexText (by omega)
  obtain ⟨bytes, hlen, -, hbytes⟩ := hlaw name name (hexArg o) hoffset
  have hget : bytes[3]? = some bytes[3] := List.getElem?_eq_getElem (by omega)
  have hneg : toInt (strtoul (hexArg (o + 3)).chars) < 0 := by
    rw [hlast]
    rcases toInt_cases (show o + 3 < 2 ^ 32 by omega) with ⟨hlt, -⟩ | ⟨-, heq⟩
    · omega
    · omega
  exact preadMain_refused 1 [] name _ hfile hneg _ (hbytes 3 _ hget _ hlast)

private theorem tools_agree_iff {o : Nat} (hfile : files name.chars = some content)
    (hin : o < content.length) (hlen : content.length < 2 ^ 63) :
    (WriteReads pwriteb preadb 1 files name o ∧
      (o + 4 ≤ content.length →
        WriteReads pwritel preadl 4 files name o ∧ WordOfBytes files name o)) ↔
      o < 2 ^ 31 ∧ (o + 4 ≤ content.length → o + 3 < 2 ^ 31) := by
  constructor
  · rintro ⟨hbyte, hword⟩
    have ho : o < 2 ^ 31 := by
      by_contra hlarge
      exact not_writeReads_byte hfile hin hlen (by omega) hbyte
    refine ⟨ho, fun hin' => ?_⟩
    by_contra hcross
    exact not_wordOfBytes hfile ho (by omega) (hword hin').2
  · rintro ⟨ho, hcross⟩
    refine ⟨writeReads_of_kept _ hfile (toInt64_of_lt (by omega)) (toInt_of_lt ho) hin,
      fun hin' => ?_⟩
    exact ⟨writeReads_of_kept _ hfile (toInt_of_lt ho) (toInt_of_lt ho) hin',
      wordOfBytes_of_kept hfile hin' (hcross hin')⟩

/-- The tools address the same bytes at an offset inside a file exactly when an int holds it, and
for a word that is inside the file also the offset of its last byte. -/
theorem pread_pwrite_agree_iff {o : Nat} (hfile : files name.chars = some content)
    (hin : o < content.length) (hlen : content.length < 2 ^ 63) :
    (WriteReads pwriteb preadb 1 files name o ∧
      (o + 4 ≤ content.length →
        WriteReads pwritel preadl 4 files name o ∧ WordOfBytes files name o)) ↔
      o < 2 ^ 31 ∧ (o + 4 ≤ content.length → o + 3 < 2 ^ 31) :=
  tools_agree_iff hfile hin hlen

end

/-- A file of 2^31 + 1 bytes. -/
def largeFile : List UInt8 := List.replicate (2 ^ 31 + 1) 0

theorem largeFile_length : largeFile.length = 2 ^ 31 + 1 := List.length_replicate

/-- The last byte of the large file is written and cannot be read. -/
theorem largeFile_disagrees :
    ¬ WriteReads pwriteb preadb 1 (fun _ => some largeFile) ⟨ascii "large", by decide⟩ (2 ^ 31) := by
  have hin : 2 ^ 31 < largeFile.length := by
    rw [largeFile_length]
    omega
  have hlen : largeFile.length < 2 ^ 63 := by
    rw [largeFile_length]
    omega
  exact not_writeReads_byte rfl hin hlen le_rfl

/-- A word at offset 2 of a small file. -/
theorem pread_pwrite_agree_iff_smallFile :
    WriteReads pwriteb preadb 1 (fun _ => some [1, 2, 3, 4, 5, 6, 7, 8]) ⟨ascii "f", by decide⟩ 2 ∧
      WriteReads pwritel preadl 4 (fun _ => some [1, 2, 3, 4, 5, 6, 7, 8])
        ⟨ascii "f", by decide⟩ 2 := by
  obtain ⟨hbyte, hword⟩ := (@pread_pwrite_agree_iff (fun _ => some [1, 2, 3, 4, 5, 6, 7, 8])
    ⟨ascii "f", by decide⟩ _ 2 rfl (by decide) (by decide)).mpr ⟨by decide, fun _ => by decide⟩
  exact ⟨hbyte, (hword (by decide)).1⟩

end PerfTools.Io
