import PerfTools.Lib.Printf

/-!
# The hex dumpers of binary_dump.c

The four dumpers share one loop: sixteen bytes to a line, a new label after each full line
that is not the last one. They differ in what stands right of the bytes, which a `Gutter`
describes: what happens after an ordinary byte, after the last byte of a full line, and after
the label of the next line. Everything is written to one text, the characters sent to stderr.

Unsigned arithmetic wraps modulo 2^32. The loop counter is an int, so that a counter running
past its largest value is a fault.
-/

namespace PerfTools.Elf

open Memory Printf

def intMax : Nat := 2 ^ 31 - 1

/-- The label of a line, format "%08x  ". -/
def label (offset : Nat) : Text := Hex.fixed 8 offset ++ ascii "  "

/-- The text of k missing bytes. -/
def blanks (k : Nat) : Text := List.replicate (3 * k) space

/-- What a dumper does besides printing bytes and labels; σ holds its own variables. -/
structure Gutter (σ : Type) where
  /-- after "%02x " for a byte in the given column -/
  cell : σ → Nat → UInt8 → σ
  /-- after "%02x" for the byte in column 15 -/
  full : σ → UInt8 → Except Fault (Text × σ)
  /-- after the label of a further line -/
  next : σ → σ

variable {σ : Type}

/-- The loop for (j = gap; j < stop; j++), with the number of iterations that remain. -/
def dumpLoop (g : Gutter σ) (p : Ptr) (gap stop : Nat) :
    Nat → Nat → Nat → σ → Except Fault (Text × σ)
  | 0, _, _, s => .ok ([], s)
  | n + 1, j, offset, s =>
    if j = intMax then .error .overflow
    else do
    let b ← p.byte (j - gap)
    if (j + 1) % 16 = 0 then
      let (t, s) ← g.full s b
      if j + 1 ≠ stop then
        let offset := (offset + 16) % 2 ^ 32
        let (rest, s) ← dumpLoop g p gap stop n (j + 1) offset (g.next s)
        return (Hex.fixed 2 b.toNat ++ t ++ [newline] ++ label offset ++ rest, s)
      else
        let (rest, s) ← dumpLoop g p gap stop n (j + 1) offset s
        return (Hex.fixed 2 b.toNat ++ t ++ rest, s)
    else
      let (rest, s) ← dumpLoop g p gap stop n (j + 1) offset (g.cell s (j % 16) b)
      return (Hex.fixed 2 b.toNat ++ [space] ++ rest, s)

/-- The head of every dumper: first label, leading gap and the loop. The last component is the
value of j after the loop. -/
def dumpBody (g : Gutter σ) (offset size : UInt32) (p : Ptr) (s : σ) :
    Except Fault (Text × σ × Nat) := do
  let gap := offset.toNat % 16
  let base := offset.toNat / 16 * 16
  let stop := (gap + size.toNat) % 2 ^ 32
  let (t, s) ← dumpLoop g p gap stop (stop - gap) gap base s
  return (label base ++ blanks gap ++ t, s, max gap stop)

def plainGutter : Gutter Unit where
  cell s _ _ := s
  full s _ := .ok ([], s)
  next s := s

def binaryDump (offset size : UInt32) (buf : Option Ptr) : Except Fault Text :=
  match buf with
  | none => .ok []
  | some p =>
    if size = 0 then .ok []
    else do
      let (t, _) ← dumpBody plainGutter offset size p ()
      return t ++ [newline, newline]

/-- The printable form of a byte. -/
def printable (c : UInt8) : UInt8 :=
  if 97 ≤ c ∧ c ≤ 122 then c
  else if 65 ≤ c ∧ c ≤ 90 then c
  else if 48 ≤ c ∧ c ≤ 57 then c
  else if c = 0 then 64
  else 46

/-- The tailer after memset and the terminator. -/
def blankTailer : List UInt8 := List.replicate 16 space ++ [0]

def charGutter : Gutter (List UInt8) where
  cell tailer c b := tailer.set c (printable b)
  full tailer b := do
    let tailer := tailer.set 15 (printable b)
    let t ← readString tailer 0
    return (ascii " | " ++ t.chars, tailer)
  next _ := blankTailer

/-- The blanks after a partial last line, k running from postGap to 15. -/
def postGapPad (postGap : Nat) : Text :=
  (List.range' postGap (16 - postGap)).flatMap fun k =>
    if k + 1 = 16 then ascii "   | " else ascii "   "

def binaryDumpWithChar (offset size : UInt32) (buf : Option Ptr) : Except Fault Text :=
  match buf with
  | none => .ok []
  | some p =>
    if size = 0 then .ok []
    else do
      let (t, tailer, j) ← dumpBody charGutter offset size p blankTailer
      let postGap := j % 16
      if postGap ≠ 0 then
        let tail ← readString tailer 0
        return t ++ postGapPad postGap ++ tail.chars ++ [newline, newline]
      else return t ++ [newline, newline]

/-- fprintf(stderr, argv[line_index]), when there is such an argument. -/
def printComment (argc : Int) (argv : List CString) (lineIndex : Nat) : Except Fault Text :=
  if (lineIndex : Int) < argc then
    match argv[lineIndex]? with
    | some arg => formatNoArgs arg.chars
    | none => .error .outOfBounds
  else .ok []

def commentGutter (argc : Int) (argv : List CString) : Gutter Nat where
  cell lineIndex _ _ := lineIndex
  full lineIndex _ := do
    let t ← printComment argc argv lineIndex
    return (ascii " | " ++ t, lineIndex + 1)
  next lineIndex := lineIndex

/-- The padding loop of the commenting dumper; it compares k + 1 with post_gap, not with 16. -/
def commentPad (argc : Int) (argv : List CString) (postGap : Nat) :
    Nat → Nat → Nat → Except Fault (Text × Nat)
  | 0, _, lineIndex => .ok ([], lineIndex)
  | n + 1, k, lineIndex => do
    if k + 1 = postGap then
      let t ← printComment argc argv lineIndex
      let next := if (lineIndex : Int) < argc then lineIndex + 1 else lineIndex
      let (rest, lineIndex) ← commentPad argc argv postGap n (k + 1) next
      return (ascii "   | " ++ t ++ rest, lineIndex)
    else
      let (rest, lineIndex) ← commentPad argc argv postGap n (k + 1) lineIndex
      return (ascii "   " ++ rest, lineIndex)

/-- The column at which annotation lines without bytes start. -/
def indent : Text := List.replicate 60 space

/-- The comments that found no line of bytes. -/
def commentRest (argv : List CString) : Nat → Nat → Except Fault Text
  | 0, _ => .ok []
  | n + 1, lineIndex =>
    match argv[lineIndex]? with
    | none => .error .outOfBounds
    | some arg => do
      let rest ← commentRest argv n (lineIndex + 1)
      return indent ++ arg.chars ++ [newline] ++ rest

def binaryDumpWithComment (offset size : UInt32) (buf : Option Ptr) (argc : Int)
    (argv : List CString) : Except Fault Text :=
  match buf with
  | none => .ok []
  | some p =>
    if size = 0 then .ok []
    else do
      let (t, lineIndex, j) ← dumpBody (commentGutter argc argv) offset size p 0
      let postGap := j % 16
      let (pad, lineIndex) ←
        if postGap ≠ 0 then commentPad argc argv postGap (16 - postGap) postGap lineIndex
        else pure ([], lineIndex)
      let rest ← commentRest argv (argc - lineIndex).toNat lineIndex
      return t ++ pad ++ [newline] ++ rest ++ [newline]

/-- The memory of the annotation string and the two cursors into it. -/
structure NoteCursor where
  mem : List UInt8
  head : Option Nat
  tail : Option Nat

namespace NoteCursor

/-- The test head && *head. -/
def more (c : NoteCursor) : Except Fault Bool :=
  match c.head with
  | none => .ok false
  | some h =>
    match c.mem[h]? with
    | some b => .ok (b ≠ 0)
    | none => .error .outOfBounds

/-- Cut the string at the next newline and print its head: strchr, the terminator written over
the newline, "%s" of head, head = tail. -/
def cut (c : NoteCursor) : Except Fault (Text × NoteCursor) :=
  match c.head, c.tail with
  | some h, some t => do
    match ← strchr c.mem t newline with
    | some k =>
      let mem := c.mem.set k 0
      let line ← readString mem h
      return (line.chars, ⟨mem, some (k + 1), some (k + 1)⟩)
    | none =>
      let line ← readString c.mem h
      return (line.chars, ⟨c.mem, none, none⟩)
  | _, _ => .error .nullDeref

end NoteCursor

def stringGutter : Gutter NoteCursor where
  cell c _ _ := c
  full c _ := do
    if ← c.more then
      let (t, c) ← c.cut
      return (ascii " | " ++ t, c)
    else return (ascii " | ", c)
  next c := c

/-- The loop while (head && *head). Each round moves head forward, so that the length of the
string's memory bounds the number of rounds. -/
def noteRest : Nat → NoteCursor → Except Fault (Text × NoteCursor)
  | 0, _ => .error .outOfBounds
  | n + 1, c => do
    if ← c.more then
      let (t, c) ← c.cut
      let (rest, c) ← noteRest n c
      return (indent ++ t ++ [newline] ++ rest, c)
    else return ([], c)

/-- The part after the loop: an annotation line that is left is printed behind the padded last
line of bytes. -/
def postGapNote (c : NoteCursor) (j : Nat) : Except Fault (Text × NoteCursor) := do
  if ← c.more then
    let postGap := j % 16
    let pad := if postGap ≠ 0 then postGapPad postGap else []
    let (line, c) ← c.cut
    return (pad ++ line ++ [newline], c)
  else return ([], c)

/-- The annotating dumper. The string str is given as the memory it lives in and the index of
its first byte; the dumper cuts it in place, so that the memory is part of the result. -/
def binaryDumpWithString (offset size : UInt32) (buf : Option Ptr) (mem : List UInt8)
    (str : Option Nat) : Except Fault (Text × List UInt8) :=
  match buf with
  | none => .ok ([], mem)
  | some p =>
    if size = 0 then .ok ([], mem)
    else do
      let (t, c, j) ← dumpBody stringGutter offset size p ⟨mem, str, str⟩
      let (line, c) ← postGapNote c j
      let (rest, c) ← noteRest (mem.length + 1) c
      return (t ++ line ++ rest ++ [newline], c.mem)

end PerfTools.Elf
