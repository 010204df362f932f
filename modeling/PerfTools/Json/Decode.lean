import Mathlib.Data.List.DropRight
import PerfTools.Lib.Numbers
import PerfTools.Lib.Printf

/-!
# Reading JSON

JSON.lua reads a text from its start with one function for every kind of value. A position in the
text is the rest of the text from there on; a function returns what it has read and the position
behind it. An error handler that is the package's own raises the error, which ends the reading.

The tables that are made here are new ones. A table for an array has the values of its positive
integer keys in order, with nil where there is none, and one for an object has string keys.
-/

namespace PerfTools.Json

open Printf Numbers

/-! ## UTF-8 -/

def topThreeBits (val : Nat) : Nat := val / 0x20

def topFourBits (val : Nat) : Nat := val / 0x10

/-- How many bytes a character has, 0 where none starts so. -/
def unicodeCharacterBytecountBasedOnFirstByte (firstByte : UInt8) : Nat :=
  let w := firstByte.toNat
  if w < 0x80 then 1
  else if w = 0xC0 ∨ w = 0xC1 ∨ 0x80 ≤ w ∧ w ≤ 0xBF ∨ 0xF5 ≤ w then 0
  else if topThreeBits w = 0x06 then 2
  else if topFourBits w = 0x0E then 3
  else 4

/-- string.char -/
def stringChar (codes : List Nat) : Text := codes.map UInt8.ofNat

def unicodeCodepointAsUtf8 (codepoint : Nat) : Text :=
  if codepoint ≤ 127 then stringChar [codepoint]
  else if codepoint ≤ 2047 then
    let highpart := codepoint / 0x40
    let lowpart := codepoint - 0x40 * highpart
    stringChar [0xC0 + highpart, 0x80 + lowpart]
  else if codepoint ≤ 65535 then
    let highpart := codepoint / 0x1000
    let remainder := codepoint - 0x1000 * highpart
    let midpart := remainder / 0x40
    let lowpart := remainder - 0x40 * midpart
    let highpart := 0xE0 + highpart
    let midpart := 0x80 + midpart
    let lowpart := 0x80 + lowpart
    if highpart = 0xE0 ∧ midpart < 0xA0 ∨ highpart = 0xED ∧ midpart > 0x9F ∨
        highpart = 0xF0 ∧ midpart < 0x90 ∨ highpart = 0xF4 ∧ midpart > 0x8F then ascii "?"
    else stringChar [highpart, midpart, lowpart]
  else
    let highpart := codepoint / 0x40000
    let remainder := codepoint - 0x40000 * highpart
    let midA := remainder / 0x1000
    let remainder := remainder - 0x1000 * midA
    let midB := remainder / 0x40
    let lowpart := remainder - 0x40 * midB
    stringChar [0xF0 + highpart, 0x80 + midA, 0x80 + midB, 0x80 + lowpart]

/-! ## Values -/

/-- What the package asks of a Lua number: its texts, whether it is NaN, at least math.huge, at most
-math.huge or at most 0, how it compares, and how far a loop from 1 gets that ends there. -/
structure LuaNumbers (Num : Type) where
  tonumber : Text → Option Num
  tostring : Num → Text
  isNan : Num → Bool
  isHuge : Num → Bool
  isMinusHuge : Num → Bool
  isNotPositive : Num → Bool
  lt : Num → Num → Bool
  ofNat : Nat → Num
  count : Num → Nat

/-- The metatable of a table that was made with strictTypes. -/
inductive Kind
  | array
  | object
  deriving DecidableEq

/-- A value without tables that are shared or contain themselves. A number object has the text and
the number. -/
inductive Value (Num : Type)
  | nil
  | boolean (b : Bool)
  | number (x : Num)
  | numberObject (s : Text) (n : Option Num)
  | string (s : Text)
  | table (kind : Option Kind) (items : List (Value Num)) (fields : List (Text × Value Num))

namespace Value

variable {Num : Type}

def isNil : Value Num → Bool
  | nil => true
  | _ => false

/-- VALUE[key] = val, where nil removes the key. -/
def assign (fields : List (Text × Value Num)) (key : Text) (val : Value Num) :
    List (Text × Value Num) :=
  let others := fields.filter fun field => field.1 ≠ key
  if val.isNil then others else others ++ [(key, val)]

/-- A table keeps no nil behind its last value. -/
def withoutLastNils (items : List (Value Num)) : List (Value Num) := items.rdropWhile isNil

end Value

/-- The options of decode, with those of the package itself. -/
structure DecodeOptions where
  null : Option Text
  strictParsing : Bool
  strictTypes : Bool
  decodeNumbersAsObjects : Bool
  decodeIntegerObjectificationLength : Option Nat
  decodeDecimalObjectificationLength : Option Nat
  decodeIntegerStringificationLength : Option Nat
  decodeDecimalStringificationLength : Option Nat

/-- Without any option. -/
def DecodeOptions.default : DecodeOptions := ⟨none, false, false, false, none, none, none, none⟩

namespace DecodeOptions

variable {Num : Type} (o : DecodeOptions)

/-- What null is read as. -/
def nullValue : Value Num :=
  match o.null with
  | none => .nil
  | some s => .string s

def newArray (vals : List (Value Num)) : Value Num :=
  .table (if o.strictTypes then some .array else none) (Value.withoutLastNils vals) []

def newObject (vals : List (Text × Value Num)) : Value Num :=
  .table (if o.strictTypes then some .object else none) []
    (vals.foldl (fun fields val => Value.assign fields val.1 val.2) [])

end DecodeOptions

/-- A call of onDecodeError, with the position if it is given one. -/
structure Failure where
  message : String
  position : Option Text

abbrev Grok (α : Type) := Except Failure α

def onDecodeError {α : Type} (message : String) (position : Text) : Grok α :=
  .error ⟨message, some position⟩

theorem onDecodeError_ne_ok {α : Type} {message : String} {position : Text} {x : α} :
    onDecodeError message position ≠ .ok x := by simp [onDecodeError]

theorem bind_eq_ok {ε α β : Type} {x : Except ε α} {f : α → Except ε β} {y : β} :
    (x >>= f) = .ok y ↔ ∃ a, x = .ok a ∧ f a = .ok y := by
  cases x with
  | error e => simp [bind, Except.bind]
  | ok a => simp [bind, Except.bind]

/-! ## Numbers -/

def isDecimal (c : UInt8) : Bool := isDigit 10 c

/-- A byte of a class, or none. -/
def optional (p : UInt8 → Bool) (s : Text) : Text := (s.take 1).filter p

/-- '^-?[1-9]%d*' or "^-?0" -/
def integerPart (s : Text) : Option Text :=
  let sign := optional (· = 45) s
  match s.drop sign.length with
  | [] => none
  | c :: t =>
    if c = 48 then some (sign ++ [c])
    else if isDecimal c then some (sign ++ c :: t.takeWhile isDecimal)
    else none

/-- '^%.%d+' -/
def decimalPart (s : Text) : Text :=
  match s with
  | [] => []
  | point :: t =>
    let digits := t.takeWhile isDecimal
    if point = 46 ∧ digits ≠ [] then point :: digits else []

/-- '^[eE][-+]?%d+' -/
def exponentPart (s : Text) : Text :=
  match s with
  | [] => []
  | e :: t =>
    let sign := optional (fun c => c = 45 ∨ c = 43) t
    let digits := (t.drop sign.length).takeWhile isDecimal
    if (e = 101 ∨ e = 69) ∧ digits ≠ [] then e :: (sign ++ digits) else []

/-- An option for the length of a part of a number is triggered by that length, or by any
exponent. -/
def triggered (length : Option Nat) (part exponent : Text) : Bool :=
  length.any fun n => n ≤ part.length ∨ 0 < exponent.length

section Numbers

variable {Num : Type} (lua : LuaNumbers Num) (o : DecodeOptions)

/-- The value of a number that has been taken apart. -/
def numberValue (integer decimal exponent : Text) : Option (Value Num) :=
  let full := integer ++ decimal ++ exponent
  let objectify := o.decodeNumbersAsObjects ∧
    (o.decodeIntegerObjectificationLength = none ∧ o.decodeDecimalObjectificationLength = none ∨
      triggered o.decodeIntegerObjectificationLength integer exponent ∨
      triggered o.decodeDecimalObjectificationLength decimal exponent)
  let stringify := ¬ o.decodeNumbersAsObjects ∧
    (triggered o.decodeIntegerStringificationLength integer exponent ∨
      triggered o.decodeDecimalStringificationLength decimal exponent)
  if objectify then some (.numberObject full (lua.tonumber full))
  else if stringify then some (.string full)
  else (lua.tonumber full).map .number

def grokNumber (start : Text) : Grok (Value Num × Text) :=
  match integerPart start with
  | none => onDecodeError "expected number" start
  | some integer =>
    let s := start.drop integer.length
    let decimal := decimalPart s
    let s := s.drop decimal.length
    let exponent := exponentPart s
    match numberValue lua o integer decimal exponent with
    | none => onDecodeError "bad number" start
    | some value => .ok (value, s.drop exponent.length)

end Numbers

/-! ## Strings -/

def quote : UInt8 := 34
def backslash : UInt8 := 92

/-- [\128-\191] -/
def continues (c : UInt8) : Bool := 128 ≤ c.toNat ∧ c.toNat ≤ 191

/-- Any byte and the ones that continue it, count bytes in all. -/
def nextCharacter (s : Text) (count : Nat) : Option Text :=
  let c := s.take count
  if c.length = count ∧ (c.drop 1).all continues then some c else none

def backslashEscapeConversion (c : UInt8) : Option UInt8 :=
  if c = quote then some quote
  else if c = 47 then some 47
  else if c = backslash then some backslash
  else if c = 98 then some 8
  else if c = 102 then some 12
  else if c = 110 then some 10
  else if c = 114 then some 13
  else if c = 116 then some 9
  else none

/-- A u and four digits: their number. -/
def unicodeEscape (s : Text) : Option (Nat × Text) :=
  match s with
  | u :: a :: b :: c :: d :: t =>
    if u = 117 ∧ [a, b, c, d].all (isDigit 16) then some (readDigits 16 0 [a, b, c, d], t) else none
  | _ => none

/-- The escape of a low surrogate. -/
def loSurrogate (s : Text) : Option (Nat × Text) :=
  match s with
  | e :: u :: a :: b :: c :: d :: t =>
    if e = backslash ∧ u = 117 ∧ a ∈ ascii "dD" ∧ b ∈ ascii "cdefCDEF" ∧
        isDigit 16 c ∧ isDigit 16 d then some (readDigits 16 0 [a, b, c, d], t) else none
  | _ => none

/-- Behind \u and the digits of a code, a high surrogate takes a low one with it. -/
def grokCodepoint (codepoint : Nat) (s : Text) : Text × Text :=
  if 0xD800 ≤ codepoint ∧ codepoint ≤ 0xDBFF then
    match loSurrogate s with
    | some (lo, t) => (unicodeCodepointAsUtf8 (0x2400 + (codepoint - 0xD800) * 0x400 + lo), t)
    | none => (unicodeCodepointAsUtf8 codepoint, s)
  else (unicodeCodepointAsUtf8 codepoint, s)

section Strings

variable (o : DecodeOptions)

/-- A character that stands for itself. -/
def grokCharacter (s : Text) : Grok (Text × Text) :=
  match s with
  | [] => onDecodeError "incomplete utf8 sequence" s
  | c :: t =>
    let count := unicodeCharacterBytecountBasedOnFirstByte c
    if count = 0 then onDecodeError "non-utf8 sequence" s
    else if count = 1 ∧ o.strictParsing ∧ c.toNat < 0x20 then
      onDecodeError "Unescaped control character" t
    else match nextCharacter s count with
      | none => onDecodeError "incomplete utf8 sequence" s
      | some ch => .ok (ch, s.drop count)

/-- What a backslash escapes. Without strictParsing that may be any character, but not one of
four bytes. -/
def grokEscape (s : Text) : Grok (Text × Text) :=
  match s with
  | [] => onDecodeError "unfinished \\ escape" s
  | c :: t =>
    match backslashEscapeConversion c with
    | some d => .ok ([d], t)
    | none =>
      match unicodeEscape s with
      | some (codepoint, t) => .ok (grokCodepoint codepoint t)
      | none =>
        if o.strictParsing then onDecodeError "illegal use of backslash escape" s
        else
          let count := unicodeCharacterBytecountBasedOnFirstByte c
          if count = 0 then onDecodeError "non-utf8 sequence after backslash escape" s
          else if count = 4 then
            onDecodeError "incomplete utf8 sequence after backslash escape" s
          else match nextCharacter s count with
            | none => onDecodeError "incomplete utf8 sequence after backslash escape" s
            | some ch => .ok (ch, s.drop count)

/-- One round of the loop of grok_string, which is at the byte c. -/
def grokPiece (c : UInt8) (t : Text) : Grok (Text × Text) :=
  if c = backslash then grokEscape o t else grokCharacter o (c :: t)

/-- The loop of grok_string, which has at most as many rounds as there are bytes. -/
def grokCharacters (start : Text) : Nat → Text → Grok (Text × Text)
  | 0, _ => onDecodeError "unclosed string" start
  | n + 1, s =>
    match s with
    | [] => onDecodeError "unclosed string" start
    | c :: t =>
      if c = quote then .ok ([], t)
      else do
        let (ch, s) ← grokPiece o c t
        let (value, s) ← grokCharacters start n s
        return (ch ++ value, s)

def grokString (start : Text) : Grok (Text × Text) :=
  match start with
  | [] => onDecodeError "expected string's opening quote" start
  | c :: t =>
    if c = quote then grokCharacters o start t.length t
    else onDecodeError "expected string's opening quote" start

end Strings

/-! ## Tables -/

/-- [ \n\r\t] -/
def isBlank (c : UInt8) : Bool := c = 32 ∨ c = 10 ∨ c = 13 ∨ c = 9

def skipWhitespace (s : Text) : Text := s.dropWhile isBlank

section Tables

/-- The loops of grok_array and grok_object: one element, and a comma or the end behind it. -/
def grokElements {α : Type} (one : Text → Grok (α × Text)) (close : UInt8)
    (unclosed expected : String) (start : Text) : Nat → Text → Grok (List α × Text)
  | 0, _ => onDecodeError unclosed start
  | n + 1, s =>
    if s = [] then onDecodeError unclosed start
    else do
      let (x, s) ← one s
      match skipWhitespace s with
      | [] => onDecodeError expected []
      | c :: t =>
        if c = close then return ([x], t)
        else if c = 44 then do
          let (xs, s) ← grokElements one close unclosed expected start n (skipWhitespace t)
          return (x :: xs, s)
        else onDecodeError expected (c :: t)

/-- Behind the opening byte: the table is empty, or its elements follow. -/
def grokTable {α β : Type} (one : Text → Grok (α × Text)) (close : UInt8)
    (unclosed expected : String) (make : List α → β) (start t : Text) : Grok (β × Text) :=
  let s := skipWhitespace t
  if s.head? = some close then .ok (make [], s.drop 1)
  else do
    let (xs, s) ← grokElements one close unclosed expected start s.length s
    return (make xs, s)

variable {Num : Type} (o : DecodeOptions) (grokOne : Text → Grok (Value Num × Text))

def grokArray (start : Text) : Grok (Value Num × Text) :=
  match start with
  | [] => onDecodeError "expected '['" start
  | c :: t =>
    if c ≠ 91 then onDecodeError "expected '['" start
    else grokTable grokOne 93 "unclosed '['" "expected comma or ']'" o.newArray start t

/-- A key, a colon and a value. -/
def grokField (s : Text) : Grok ((Text × Value Num) × Text) := do
  let (key, s) ← grokString o s
  match skipWhitespace s with
  | [] => onDecodeError "expected colon" []
  | c :: t =>
    if c ≠ 58 then onDecodeError "expected colon" (c :: t)
    else do
      let (val, s) ← grokOne (skipWhitespace t)
      return ((key, val), s)

def grokObject (start : Text) : Grok (Value Num × Text) :=
  match start with
  | [] => onDecodeError "expected '\x7b'" start
  | c :: t =>
    if c ≠ 123 then onDecodeError "expected '\x7b'" start
    else
      grokTable (grokField o grokOne) 125 "unclosed '\x7b'" "expected comma or '\x7d'" o.newObject
        start t

end Tables

/-! ## Texts -/

section Texts

variable {Num : Type} (lua : LuaNumbers Num) (o : DecodeOptions)

/-- A value behind blanks; the tables in it may be nested as deep as the stack is. -/
def grokOne : Nat → Text → Grok (Value Num × Text)
  | 0, _ => .error ⟨"stack overflow", none⟩
  | stack + 1, start =>
    let start := skipWhitespace start
    match start with
    | [] => .error ⟨"unexpected end of string", none⟩
    | c :: _ =>
      if c = quote then do
        let (s, t) ← grokString o start
        return (.string s, t)
      else if c = 45 ∨ isDecimal c then grokNumber lua o start
      else if c = 123 then grokObject o (grokOne stack) start
      else if c = 91 then grokArray o (grokOne stack) start
      else if ascii "true" <+: start then .ok (.boolean true, start.drop 4)
      else if ascii "false" <+: start then .ok (.boolean false, start.drop 5)
      else if ascii "null" <+: start then .ok (o.nullValue, start.drop 4)
      else onDecodeError "can't parse JSON" start

/-- An error that decode raises: the message, and the number of a byte if it has one. -/
structure DecodeError where
  message : String
  location : Option Nat
  deriving DecidableEq

def Failure.raised (text : Text) (f : Failure) : DecodeError :=
  ⟨f.message, f.position.map fun s => text.length + 1 - s.length⟩

def decode (stack : Nat) (text : Text) : Except DecodeError (Value Num) :=
  if text.all isSpace then
    if o.strictParsing then .error ⟨"empty string passed to JSON:decode()", none⟩ else .ok .nil
  else if (text.dropWhile isSpace).head? = some 60 then
    .error ⟨"HTML passed to JSON:decode()", none⟩
  else if text[0]? = some 0 ∨ text[1]? = some 0 then
    .error ⟨"JSON package groks only UTF-8, sorry", none⟩
  else
    match grokOne lua o stack text with
    | .error f => .error (f.raised text)
    | .ok (value, s) =>
      let s := skipWhitespace s
      if s = [] then .ok value else .error (Failure.raised text ⟨"trailing garbage", some s⟩)

end Texts

end PerfTools.Json
