import Mathlib.Data.List.Sort
import PerfTools.Json.Literal

/-!
# Writing JSON

JSON.lua writes a Lua value as a text. The tables of the value are in a heap, so they can be shared
and can contain themselves; the parents of a value are the tables that are being written around it.
A table whose keys are numbers is written as an array, any other as an object with sorted keys.
-/

namespace PerfTools.Json

open Printf Numbers

/-! ## The heap -/

/-- A key of a table. The ones that cannot be written have a type and an identity. -/
inductive Key (Num : Type)
  | string (s : Text)
  | number (x : Num)
  | boolean (b : Bool)
  | other (type : Text) (id : Nat)
  deriving DecidableEq

/-- A Lua value in a heap with k tables. -/
inductive HeapValue (Num : Type) (k : Nat)
  | nil
  | boolean (b : Bool)
  | number (x : Num)
  | numberObject (s : Text)
  | string (s : Text)
  | other (type : Text)
  | table (a : Fin k)
  deriving DecidableEq

abbrev Entries (Num : Type) (k : Nat) := List (Key Num × HeapValue Num k)

/-- The entries of a table, in the order in which pairs has them. -/
structure LuaTable (Num : Type) (k : Nat) where
  kind : Option Kind
  entries : Entries Num k
  nodup : (entries.map Prod.fst).Nodup
  no_nil : ∀ e ∈ entries, e.2 ≠ .nil

abbrev Heap (Num : Type) (k : Nat) := Fin k → LuaTable Num k

/-- The options of encode, with noKeyConversion of the package itself. -/
structure EncodeOptions where
  pretty : Bool
  indent : Text
  alignKeys : Bool
  arrayNewline : Bool
  null : Option Text
  stringsAreUtf8 : Bool
  noKeyConversion : Bool

/-- Without any option. -/
def EncodeOptions.default : EncodeOptions := ⟨false, [], false, false, none, false, false⟩

/-- A call of onEncodeError, or an error of Lua itself. -/
inductive EncodeError (Num : Type) (k : Nat)
  | childOfItself (a : Fin k)
  | keyType (type : Text)
  | bothKeys
  | conflict (key : Num)
  | unsupported (type : Text)
  | format
  | stackOverflow
  deriving DecidableEq

section

variable {Num : Type} {k : Nat} (lua : LuaNumbers Num)

def EncodeError.message (tostring : Fin k → Text) : EncodeError Num k → Text
  | .childOfItself a => ascii "table " ++ tostring a ++ ascii " is a child of itself"
  | .keyType type => ascii "can't encode table with a key of type " ++ type
  | .bothKeys =>
    ascii "a table with both numeric and string keys could be an object or array; aborting"
  | .conflict key =>
    ascii "conflict converting table with mixed-type keys into a JSON object: key " ++
      lua.tostring key ++ ascii " exists both as a string and a number."
  | .unsupported type => ascii "can't convert " ++ type ++ ascii " to JSON"
  | .format => ascii "invalid format (width or precision too long)"
  | .stackOverflow => ascii "stack overflow"

abbrev Encode (Num : Type) (k : Nat) (α : Type) := Except (EncodeError Num k) α

def booleanText (b : Bool) : Text := if b then ascii "true" else ascii "false"

/-! ## The keys of a table -/

variable [DecidableEq Num]

/-- T[key] -/
def get (T : Entries Num k) (key : Key Num) : HeapValue Num k :=
  match T.find? fun e => e.1 = key with
  | some e => e.2
  | none => .nil

def HeapValue.isNil : HeapValue Num k → Bool
  | .nil => true
  | _ => false

/-- The locals of object_or_array. -/
structure Keys (Num : Type) where
  stringKeys : List Text
  numberKeys : List Num
  numberKeysMustBeStrings : Bool
  maximumNumberKey : Option Num

def Keys.start : Keys Num := ⟨[], [], false, none⟩

/-- A round of the loop over the keys. -/
def Keys.insert (keys : Keys Num) (key : Key Num) : Encode Num k (Keys Num) :=
  match key with
  | .string s => .ok { keys with stringKeys := keys.stringKeys ++ [s] }
  | .number x =>
    let keys := { keys with numberKeys := keys.numberKeys ++ [x] }
    if lua.isNotPositive x ∨ lua.isHuge x then .ok { keys with numberKeysMustBeStrings := true }
    else if keys.maximumNumberKey.all fun m => lua.lt m x then
      .ok { keys with maximumNumberKey := some x }
    else .ok keys
  | .boolean b => .ok { keys with stringKeys := keys.stringKeys ++ [booleanText b] }
  | .other type _ => .error (.keyType type)

/-- table.sort, where strings compare byte by byte. -/
def sortStrings (keys : List Text) : List Text := keys.insertionSort (· ≤ ·)

def sortNumbers (keys : List Num) : List Num := keys.insertionSort fun x y => lua.lt y x = false

/-- The loop that adds the number keys as strings to the sorted keys and to the map. -/
def convertKeys (T : Entries Num k) :
    List Num → List Text → Entries Num k → Encode Num k (List Text × Entries Num k)
  | [], stringKeys, map => .ok (stringKeys, map)
  | x :: xs, stringKeys, map =>
    let stringKey := lua.tostring x
    if (get map (.string stringKey)).isNil then
      convertKeys T xs (stringKeys ++ [stringKey]) (map ++ [(.string stringKey, get T (.number x))])
    else .error (.conflict x)

/-- What object_or_array returns: nothing, a maximum, or keys, perhaps with a map. -/
inductive Shape (Num : Type) (k : Nat)
  | empty
  | array (maximum : Num)
  | object (keys : List Text) (map : Option (Entries Num k))

/-- What object_or_array makes of the keys. -/
def Keys.shape (keys : Keys Num) (noKeyConversion : Bool) (T : LuaTable Num k) :
    Encode Num k (Shape Num k) :=
  if keys.stringKeys = [] ∧ keys.numberKeysMustBeStrings = false then
    match keys.maximumNumberKey with
    | some maximum => .ok (.array maximum)
    | none => .ok (if T.kind = some .object then .object [] none else .empty)
  else if keys.numberKeys = [] then .ok (.object (sortStrings keys.stringKeys) none)
  else if noKeyConversion then .error .bothKeys
  else do
    let (stringKeys, map) ← convertKeys lua T.entries (sortNumbers lua keys.numberKeys)
      (sortStrings keys.stringKeys) T.entries
    return .object stringKeys (some map)

def objectOrArray (noKeyConversion : Bool) (T : LuaTable Num k) : Encode Num k (Shape Num k) := do
  let keys ← (T.entries.map Prod.fst).foldlM (Keys.insert lua) Keys.start
  keys.shape lua noKeyConversion T

/-! ## Values -/

def numberText (x : Num) : Text :=
  if lua.isNan x then ascii "null"
  else if lua.isHuge x then ascii "1e+9999"
  else if lua.isMinusHuge x then ascii "-1e+9999"
  else lua.tostring x

variable (o : EncodeOptions)

/-- The text of an array around the texts of its items. -/
def arrayText (indent : Text) (items : List Text) : Text :=
  if o.arrayNewline then
    let keyIndent := indent ++ o.indent
    ascii "[\n" ++ keyIndent ++ (ascii ",\n" ++ keyIndent).intercalate items ++ ascii "\n" ++
      indent ++ ascii "]"
  else if o.pretty then ascii "[ " ++ (ascii ", ").intercalate items ++ ascii " ]"
  else ascii "[" ++ (ascii ",").intercalate items ++ ascii "]"

def itemIndent (indent : Text) : Text := if o.arrayNewline then indent ++ o.indent else indent

def encodedKey (key : Text) : Text := jsonStringLiteral o.stringsAreUtf8 key

def maxKeyLength (keys : List Text) : Nat :=
  if o.alignKeys then (keys.map fun key => (encodedKey o key).length).foldl max 0 else 0

def subtableIndent (indent : Text) (width : Nat) : Text :=
  indent ++ o.indent ++ List.replicate width 32 ++ if o.alignKeys then ascii "  " else []

/-- The line of a field in a pretty object; string.format takes a width of at most two digits. -/
def fieldLine (indent : Text) (width : Nat) (key value : Text) : Encode Num k Text :=
  if 100 ≤ width then .error .format
  else .ok (indent ++ o.indent ++ padLeft space width (encodedKey o key) ++ ascii ": " ++ value)

variable (one : HeapValue Num k → Text → Encode Num k Text)

def encodeArray (T : Entries Num k) (indent : Text) (maximum : Num) : Encode Num k Text := do
  let items ← (List.range' 1 (lua.count maximum)).mapM fun i =>
    one (get T (.number (lua.ofNat i))) (itemIndent o indent)
  return arrayText o indent items

def encodeObject (TT : Entries Num k) (indent : Text) (keys : List Text) : Encode Num k Text :=
  if o.pretty then do
    let width := maxKeyLength o keys
    let parts ← keys.mapM fun key => do
      let value ← one (get TT (.string key)) (subtableIndent o indent width)
      fieldLine o indent width key value
    return ascii "\x7b\n" ++ (ascii ",\n").intercalate parts ++ ascii "\n" ++ indent ++ ascii "\x7d"
  else do
    let parts ← keys.mapM fun key => do
      let value ← one (get TT (.string key)) indent
      return encodedKey o key ++ ascii ":" ++ value
    return ascii "\x7b" ++ (ascii ",").intercalate parts ++ ascii "\x7d"

def encodeTable (T : LuaTable Num k) (indent : Text) : Encode Num k Text := do
  match ← objectOrArray lua o.noKeyConversion T with
  | .empty => return ascii "[]"
  | .array maximum => encodeArray lua o one T.entries indent maximum
  | .object keys map => encodeObject o one (map.getD T.entries) indent keys

/-- The calls of encode_value are nested as deep as the stack is. -/
def encodeValue (heap : Heap Num k) :
    Nat → List (Fin k) → HeapValue Num k → Text → Encode Num k Text
  | 0, _, _, _ => .error .stackOverflow
  | stack + 1, parents, value, indent =>
    match value with
    | .nil => .ok (ascii "null")
    | .string s =>
      if o.null = some s then .ok (ascii "null") else .ok (jsonStringLiteral o.stringsAreUtf8 s)
    | .number x => .ok (numberText lua x)
    | .boolean b => .ok (booleanText b)
    | .other type => .error (.unsupported type)
    | .numberObject s => .ok s
    | .table a =>
      if a ∈ parents then .error (.childOfItself a)
      else encodeTable lua o (encodeValue heap stack (a :: parents)) (heap a) indent

def encode (heap : Heap Num k) (stack : Nat) (value : HeapValue Num k)
    (options : Option EncodeOptions) : Encode Num k Text :=
  encodeValue lua (options.getD .default) heap stack [] value []

def defaultPrettyOptions : EncodeOptions :=
  { EncodeOptions.default with pretty := true, indent := ascii "  " }

def encodePretty (heap : Heap Num k) (stack : Nat) (value : HeapValue Num k)
    (options : Option EncodeOptions) : Encode Num k Text :=
  encodeValue lua (options.getD defaultPrettyOptions) heap stack [] value []

end

/-- Lua numbers that are integers. -/
def luaIntegers : LuaNumbers Int where
  tonumber s := if decDigits (decimal s) = s then some (decimal s) else none
  tostring := decDigits
  isNan _ := false
  isHuge _ := false
  isMinusHuge _ := false
  isNotPositive x := x ≤ 0
  lt x y := x < y
  ofNat n := n
  count := Int.toNat

/-- A table with a list that it has twice. -/
def sharedList : Heap Int 2
  | 0 => ⟨none, [(.string (ascii "b"), .table (.last 1)), (.string (ascii "a"), .table (.last 1))],
    by decide, by decide⟩
  | 1 => ⟨none, [(.number 3, .string (ascii "x")), (.number 1, .number 5)], by decide, by decide⟩

example : encodePretty luaIntegers sharedList 3 (.table 0) none =
    .ok (ascii "\x7b\n  \"a\": [ 5, null, \"x\" ],\n  \"b\": [ 5, null, \"x\" ]\n\x7d") := by
  decide +kernel

end PerfTools.Json
