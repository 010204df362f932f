import Mathlib.Data.Fintype.Card
import PerfTools.Json.Encode

/-!
# What is written

A document is what a text says, without its layout. A value has one unless a table in it contains
itself or cannot be written; then encode writes this document in the layout that the options ask
for, and without one it fails. The stack has to hold one call for every table and one for the value
in the last of them.
-/

namespace PerfTools.Json

open Printf Numbers

/-- The delimiters of a table, with its keys if it has some. -/
inductive Frame
  | empty
  | array
  | object (keys : List Text)

inductive Doc
  | null
  | boolean (b : Bool)
  | number (s : Text)
  | string (s : Text)
  | table (frame : Frame) (items : List Doc)

/-- A property of documents is inherited by tables from what is in them. -/
@[elab_as_elim]
theorem Doc.induction {P : Doc → Prop} (null : P .null) (boolean : ∀ b, P (.boolean b))
    (number : ∀ s, P (.number s)) (string : ∀ s, P (.string s))
    (table : ∀ frame items, (∀ d ∈ items, P d) → P (.table frame items)) (d : Doc) : P d :=
  @Doc.rec P (fun items => ∀ d ∈ items, P d) null boolean number string table
    (fun _ hd => absurd hd List.not_mem_nil)
    (fun _ _ hhead htail => List.forall_mem_cons.mpr ⟨hhead, htail⟩) d

/-! ## Layout -/

section

variable (o : EncodeOptions)

def fieldIndent (indent : Text) (keys : List Text) : Text :=
  if o.pretty then subtableIndent o indent (maxKeyLength o keys) else indent

def fieldText (indent : Text) (keys : List Text) (key value : Text) : Text :=
  if o.pretty then
    indent ++ o.indent ++ padLeft space (maxKeyLength o keys) (encodedKey o key) ++ ascii ": " ++
      value
  else encodedKey o key ++ ascii ":" ++ value

def objectText (indent : Text) (keys values : List Text) : Text :=
  let parts := List.zipWith (fieldText o indent keys) keys values
  if o.pretty then
    ascii "\x7b\n" ++ (ascii ",\n").intercalate parts ++ ascii "\n" ++ indent ++ ascii "\x7d"
  else ascii "\x7b" ++ (ascii ",").intercalate parts ++ ascii "\x7d"

namespace Frame

def indent (frame : Frame) (indent : Text) : Text :=
  match frame with
  | .empty => indent
  | .array => itemIndent o indent
  | .object keys => fieldIndent o indent keys

def text (frame : Frame) (indent : Text) (items : List Text) : Text :=
  match frame with
  | .empty => ascii "[]"
  | .array => arrayText o indent items
  | .object keys => objectText o indent keys items

/-- The keys can be aligned. -/
def Fits (frame : Frame) : Prop :=
  match frame with
  | .empty => True
  | .array => True
  | .object keys => o.pretty = true → keys ≠ [] → maxKeyLength o keys < 100

end Frame

mutual

def Doc.render : Doc → Text → Text
  | .null, _ => ascii "null"
  | .boolean b, _ => booleanText b
  | .number s, _ => s
  | .string s, _ => jsonStringLiteral o.stringsAreUtf8 s
  | .table frame items, indent => frame.text o indent (renderItems items (frame.indent o indent))

def renderItems : List Doc → Text → List Text
  | [], _ => []
  | d :: items, indent => d.render indent :: renderItems items indent

end

inductive Doc.Fits : Doc → Prop
  | null : Fits .null
  | boolean (b : Bool) : Fits (.boolean b)
  | number (s : Text) : Fits (.number s)
  | string (s : Text) : Fits (.string s)
  | table {frame : Frame} {items : List Doc} (hframe : frame.Fits o) (hitems : ∀ d ∈ items, Fits d) :
      Fits (.table frame items)

theorem renderItems_eq (items : List Doc) (indent : Text) :
    renderItems o items indent = items.map fun d => d.render o indent := by
  induction items with
  | nil => rfl
  | cons d items ih => rw [renderItems, ih, List.map_cons]

/-! ## The document of a value -/

variable {Num : Type} {k : Nat} (lua : LuaNumbers Num) [DecidableEq Num]

/-- The values that are written for a table, in their order. -/
def Shape.contents (T : LuaTable Num k) : Shape Num k → Frame × List (HeapValue Num k)
  | .empty => (.empty, [])
  | .array maximum => (.array, (List.range' 1 (lua.count maximum)).map fun i =>
      get T.entries (.number (lua.ofNat i)))
  | .object keys map => (.object keys, keys.map fun key => get (map.getD T.entries) (.string key))

def contents (noKeyConversion : Bool) (T : LuaTable Num k) :
    Encode Num k (Frame × List (HeapValue Num k)) := do
  let shape ← objectOrArray lua noKeyConversion T
  return shape.contents lua T

inductive IsDoc (heap : Heap Num k) : HeapValue Num k → Doc → Prop
  | nil : IsDoc heap .nil .null
  | null {s : Text} (h : o.null = some s) : IsDoc heap (.string s) .null
  | string {s : Text} (h : o.null ≠ some s) : IsDoc heap (.string s) (.string s)
  | nan {x : Num} (h : lua.isNan x = true) : IsDoc heap (.number x) .null
  | number {x : Num} (h : lua.isNan x = false) : IsDoc heap (.number x) (.number (numberText lua x))
  | numberObject (s : Text) : IsDoc heap (.numberObject s) (.number s)
  | boolean (b : Bool) : IsDoc heap (.boolean b) (.boolean b)
  | table {a : Fin k} {frame : Frame} {values : List (HeapValue Num k)} {items : List Doc}
      (h : contents lua o.noKeyConversion (heap a) = .ok (frame, values))
      (hitems : List.Forall₂ (IsDoc heap) values items) : IsDoc heap (.table a) (.table frame items)

end

section

variable {α β ε : Type} {f : α → Except ε β} {xs : List α} {ys : List β}

theorem bind_pure_eq_ok {x : Except ε α} {g : α → β} {y : β} :
    (x >>= fun a => pure (g a)) = .ok y ↔ ∃ a, x = .ok a ∧ y = g a := by
  rw [bind_eq_ok]
  refine exists_congr fun a => and_congr_right fun _ => ?_
  exact ⟨fun h => (Except.ok.inj h).symm, fun h => congrArg Except.ok h.symm⟩

theorem mapM_eq_ok : xs.mapM f = .ok ys ↔ List.Forall₂ (fun x y => f x = .ok y) xs ys := by
  induction xs generalizing ys with
  | nil =>
    rw [List.mapM_nil, List.forall₂_nil_left_iff]
    exact ⟨fun h => (Except.ok.inj h).symm, fun h => congrArg _ h.symm⟩
  | cons x xs ih =>
    rw [List.mapM_cons, List.forall₂_cons_left_iff]
    constructor
    · intro h
      obtain ⟨y, hy, h⟩ := bind_eq_ok.mp h
      obtain ⟨ys', hys, h⟩ := bind_eq_ok.mp h
      exact ⟨y, ys', hy, ih.mp hys, (Except.ok.inj h).symm⟩
    · rintro ⟨y, ys', hy, hys, rfl⟩
      exact bind_eq_ok.mpr ⟨y, hy, bind_eq_ok.mpr ⟨ys', ih.mpr hys, rfl⟩⟩

theorem forall₂_exists {γ : Type} {R : α → β → Prop} {g : α → β → γ} {zs : List γ} :
    List.Forall₂ (fun x z => ∃ y, R x y ∧ z = g x y) xs zs ↔
      ∃ ys, List.Forall₂ R xs ys ∧ zs = List.zipWith g xs ys := by
  constructor
  · intro h
    induction h with
    | nil => exact ⟨[], .nil, rfl⟩
    | cons hx _ ih =>
      obtain ⟨y, hy, rfl⟩ := hx
      obtain ⟨ys, hys, rfl⟩ := ih
      exact ⟨y :: ys, .cons hy hys, rfl⟩
  · rintro ⟨ys, hys, rfl⟩
    induction hys with
    | nil => exact .nil
    | cons hx _ ih => exact .cons ⟨_, hx, rfl⟩ ih

theorem forall_right {R : α → β → Prop} {p : β → Prop} (h : List.Forall₂ R xs ys)
    (hp : ∀ x y, R x y → p y) : ∀ y ∈ ys, p y := by
  induction h with
  | nil => exact fun _ hy => absurd hy List.not_mem_nil
  | cons hx _ ih => exact List.forall_mem_cons.mpr ⟨hp _ _ hx, ih⟩

theorem forall₂_unique {R : α → β → Prop} {ys' : List β} (h : List.Forall₂ R xs ys)
    (h' : List.Forall₂ R xs ys') (hR : ∀ y ∈ ys, ∀ x y', R x y → R x y' → y = y') : ys = ys' := by
  induction h generalizing ys' with
  | nil => exact (List.forall₂_nil_left_iff.mp h').symm
  | cons hx _ ih =>
    obtain ⟨y', ys'', hx', hxs', rfl⟩ := List.forall₂_cons_left_iff.mp h'
    obtain ⟨hhead, htail⟩ := List.forall_mem_cons.mp hR
    rw [hhead _ _ hx hx', ih hxs' htail]

theorem zipWith_right {γ : Type} {R : α → β → Prop} {g : β → γ} (h : List.Forall₂ R xs ys) :
    List.zipWith (fun _ y => g y) xs ys = ys.map g := by
  induction h with
  | nil => rfl
  | cons _ _ ih => rw [List.zipWith_cons_cons, ih, List.map_cons]

end

section

variable {Num : Type} {k : Nat} {lua : LuaNumbers Num} [DecidableEq Num] {o : EncodeOptions}
  {heap : Heap Num k} {value : HeapValue Num k} {indent text : Text}
  {one : HeapValue Num k → Text → Encode Num k Text} {T : LuaTable Num k}

theorem maxKeyLength_of_not_align (h : o.alignKeys = false) (keys : List Text) :
    maxKeyLength o keys = 0 := by
  rw [maxKeyLength, h]
  rfl

/-- The loop over the keys, whatever the fields look like. -/
theorem fields_eq_ok {TT : Entries Num k} {keys parts : List Text} {f : Text → Encode Num k Text}
    (hf : ∀ key part, f key = .ok part ↔ (o.pretty = true → maxKeyLength o keys < 100) ∧
      ∃ value, one (get TT (.string key)) (fieldIndent o indent keys) = .ok value ∧
        part = fieldText o indent keys key value) :
    keys.mapM f = .ok parts ↔ (Frame.object keys).Fits o ∧ ∃ values,
      List.Forall₂ (fun key value =>
        one (get TT (.string key)) (fieldIndent o indent keys) = .ok value) keys values ∧
      parts = List.zipWith (fieldText o indent keys) keys values := by
  rw [mapM_eq_ok, ← forall₂_exists]
  simp only [hf]
  rw [List.forall₂_and_left]
  refine and_congr_left fun _ => ?_
  rw [Frame.Fits]
  constructor
  · intro h hpretty hne
    obtain ⟨key, hkey⟩ := List.exists_mem_of_ne_nil keys hne
    exact h key hkey hpretty
  · exact fun h key hkey hpretty => h hpretty (List.ne_nil_of_mem hkey)

theorem encodeObject_eq_ok {TT : Entries Num k} {keys : List Text} :
    encodeObject o one TT indent keys = .ok text ↔
      (Frame.object keys).Fits o ∧ ∃ values,
        List.Forall₂ (fun key value =>
          one (get TT (.string key)) (fieldIndent o indent keys) = .ok value) keys values ∧
        text = objectText o indent keys values := by
  unfold encodeObject objectText
  cases hpretty : o.pretty with
  | false =>
    have hf (key part : Text) : (do
        let value ← one (get TT (.string key)) indent
        return encodedKey o key ++ ascii ":" ++ value : Encode Num k Text) = .ok part ↔
          (o.pretty = true → maxKeyLength o keys < 100) ∧
            ∃ value, one (get TT (.string key)) (fieldIndent o indent keys) = .ok value ∧
              part = fieldText o indent keys key value := by
      rw [bind_pure_eq_ok, fieldIndent, hpretty]
      simp [fieldText, hpretty]
    dsimp only
    rw [if_neg (by decide), bind_pure_eq_ok]
    simp only [fields_eq_ok hf, if_false, Bool.false_eq_true]
    constructor
    · rintro ⟨parts, ⟨hfits, values, hvalues, rfl⟩, rfl⟩
      exact ⟨hfits, values, hvalues, rfl⟩
    · rintro ⟨hfits, values, hvalues, rfl⟩
      exact ⟨_, ⟨hfits, values, hvalues, rfl⟩, rfl⟩
  | true =>
    have hf (key part : Text) : (do
        let value ← one (get TT (.string key)) (subtableIndent o indent (maxKeyLength o keys))
        fieldLine o indent (maxKeyLength o keys) key value : Encode Num k Text) = .ok part ↔
          (o.pretty = true → maxKeyLength o keys < 100) ∧
            ∃ value, one (get TT (.string key)) (fieldIndent o indent keys) = .ok value ∧
              part = fieldText o indent keys key value := by
      rw [bind_eq_ok, fieldIndent, hpretty]
      simp only [fieldLine, fieldText, hpretty, if_true, forall_const]
      by_cases hwidth : 100 ≤ maxKeyLength o keys
      · simp [hwidth]
      · simp [hwidth, Nat.lt_of_not_le hwidth, eq_comm]
    dsimp only
    rw [if_pos rfl, bind_pure_eq_ok]
    simp only [fields_eq_ok hf, if_true]
    constructor
    · rintro ⟨parts, ⟨hfits, values, hvalues, rfl⟩, rfl⟩
      exact ⟨hfits, values, hvalues, rfl⟩
    · rintro ⟨hfits, values, hvalues, rfl⟩
      exact ⟨_, ⟨hfits, values, hvalues, rfl⟩, rfl⟩

theorem encodeArray_eq_ok {maximum : Num} :
    encodeArray lua o one T.entries indent maximum = .ok text ↔ ∃ items,
      List.Forall₂ (fun value item => one value (itemIndent o indent) = .ok item)
        ((List.range' 1 (lua.count maximum)).map fun i => get T.entries (.number (lua.ofNat i))) items ∧
      text = arrayText o indent items := by
  rw [encodeArray, bind_pure_eq_ok]
  simp only [mapM_eq_ok, List.forall₂_map_left_iff]

theorem encodeTable_eq_ok : encodeTable lua o one T indent = .ok text ↔
    ∃ frame values items, contents lua o.noKeyConversion T = .ok (frame, values) ∧ frame.Fits o ∧
      List.Forall₂ (fun value item => one value (frame.indent o indent) = .ok item) values items ∧
      text = frame.text o indent items := by
  rw [encodeTable, contents]
  cases objectOrArray lua o.noKeyConversion T with
  | error e =>
    constructor
    · intro h
      cases h
    · rintro ⟨_, _, _, h, -⟩
      cases h
  | ok shape =>
    -- what the table is decides the frame and the values
    have hcontents (frame : Frame) (values : List (HeapValue Num k)) :
        (∃ frame' values' items, (.ok (frame, values) : Encode Num k _) = .ok (frame', values') ∧
          frame'.Fits o ∧ List.Forall₂ (fun value item =>
            one value (frame'.indent o indent) = .ok item) values' items ∧
          text = frame'.text o indent items) ↔
        frame.Fits o ∧ ∃ items, List.Forall₂ (fun value item =>
          one value (frame.indent o indent) = .ok item) values items ∧
          text = frame.text o indent items := by
      constructor
      · rintro ⟨_, _, items, h, hfits, hitems, rfl⟩
        obtain ⟨rfl, rfl⟩ := Prod.mk.inj (Except.ok.inj h)
        exact ⟨hfits, items, hitems, rfl⟩
      · rintro ⟨hfits, items, hitems, rfl⟩
        exact ⟨frame, values, items, rfl, hfits, hitems, rfl⟩
    cases shape with
    | empty =>
      refine Iff.trans ?_ (hcontents .empty []).symm
      constructor
      · intro h
        exact ⟨trivial, [], .nil, (Except.ok.inj h).symm⟩
      · rintro ⟨-, items, -, rfl⟩
        rfl
    | array maximum =>
      refine Iff.trans ?_ (hcontents .array _).symm
      exact encodeArray_eq_ok.trans (and_iff_right trivial).symm
    | object keys map =>
      refine Iff.trans ?_ (hcontents (.object keys) _).symm
      simp only [List.forall₂_map_left_iff]
      exact encodeObject_eq_ok

/-- What is written is the document of the value. -/
theorem isDoc_of_encodeValue {stack : Nat} {parents : List (Fin k)}
    (h : encodeValue lua o heap stack parents value indent = .ok text) :
    ∃ d, IsDoc o lua heap value d ∧ d.Fits o ∧ text = d.render o indent := by
  induction stack generalizing parents value indent text with
  | zero => cases h
  | succ stack ih =>
    unfold encodeValue at h
    cases value with
    | nil => exact ⟨.null, .nil, .null, (Except.ok.inj h).symm⟩
    | boolean b => exact ⟨.boolean b, .boolean b, .boolean b, (Except.ok.inj h).symm⟩
    | number x =>
      have htext := (Except.ok.inj h).symm
      cases hnan : lua.isNan x with
      | false => exact ⟨_, .number hnan, .number _, htext⟩
      | true => exact ⟨_, .nan hnan, .null, htext.trans (if_pos hnan)⟩
    | numberObject s => exact ⟨_, .numberObject s, .number s, (Except.ok.inj h).symm⟩
    | string s =>
      dsimp only at h
      split_ifs at h with hnull
      · exact ⟨_, .null hnull, .null, (Except.ok.inj h).symm⟩
      · exact ⟨_, .string hnull, .string s, (Except.ok.inj h).symm⟩
    | other type => cases h
    | table a =>
      dsimp only at h
      split_ifs at h with ha
      obtain ⟨frame, values, texts, hcontents, hframe, htexts, rfl⟩ := encodeTable_eq_ok.mp h
      have hdocs : List.Forall₂ (fun value text => ∃ d, (IsDoc o lua heap value d ∧ d.Fits o) ∧
          text = d.render o (frame.indent o indent)) values texts := by
        refine htexts.imp fun value text hvalue => ?_
        obtain ⟨d, hd, hfits, htext⟩ := ih hvalue
        exact ⟨d, ⟨hd, hfits⟩, htext⟩
      obtain ⟨items, hitems, rfl⟩ := forall₂_exists.mp hdocs
      refine ⟨.table frame items, .table hcontents (hitems.imp fun _ _ h => h.1),
        .table hframe (forall_right hitems fun _ _ h => h.2), ?_⟩
      rw [Doc.render, renderItems_eq, zipWith_right hitems]

theorem IsDoc.unique {d d' : Doc} (h : IsDoc o lua heap value d) (h' : IsDoc o lua heap value d') :
    d = d' := by
  induction d using Doc.induction generalizing value d' with
  | null =>
    cases h with
    | nil =>
      cases h'
      rfl
    | null h =>
      cases h' with
      | null => rfl
      | string h' => exact absurd h h'
    | nan h =>
      cases h' with
      | nan => rfl
      | number h' => exact absurd (h.symm.trans h') (by decide)
  | boolean b =>
    cases h
    cases h'
    rfl
  | number s =>
    cases h with
    | number h =>
      cases h' with
      | nan h' => exact absurd (h.symm.trans h') (by decide)
      | number => rfl
    | numberObject =>
      cases h'
      rfl
  | string s =>
    cases h with
    | string h =>
      cases h' with
      | null h' => exact absurd h' h
      | string => rfl
  | table frame items ih =>
    cases h with
    | table h hitems =>
      cases h' with
      | table h' hitems' =>
        obtain ⟨rfl, rfl⟩ := Prod.mk.inj (Except.ok.inj (h.symm.trans h'))
        rw [forall₂_unique hitems hitems' fun d hd _ _ => ih d hd]

theorem Doc.lt_of_mem {frame : Frame} {items : List Doc} {d : Doc} (hd : d ∈ items) :
    sizeOf d < sizeOf (Doc.table frame items) := by
  have hlt := List.sizeOf_lt_of_mem hd
  rw [Doc.table.sizeOf_spec]
  omega

/-- A value with a document can be written, when it is inside of none of its parents. -/
theorem IsDoc.encodeValue_eq {stack : Nat} {parents : List (Fin k)} {d : Doc}
    (h : IsDoc o lua heap value d) (hfits : d.Fits o) (hnodup : parents.Nodup)
    (hparents : ∀ a ∈ parents, ∀ d', IsDoc o lua heap (.table a) d' → sizeOf d < sizeOf d')
    (hstack : k < stack + parents.length) (indent : Text) :
    encodeValue lua o heap stack parents value indent = .ok (d.render o indent) := by
  have hlen : parents.length ≤ k := by simpa using List.Nodup.length_le_card hnodup
  induction stack generalizing value parents d indent with
  | zero => omega
  | succ stack ih =>
    unfold encodeValue
    cases h with
    | nil => rfl
    | null hnull => exact if_pos hnull
    | string hnull => exact if_neg hnull
    | nan hnan => exact congrArg Except.ok (if_pos hnan)
    | number => rfl
    | numberObject => rfl
    | boolean => rfl
    | @table a frame values items hcontents hitems =>
      cases hfits with
      | table hframe hitemsFit =>
        have ha : a ∉ parents := fun ha =>
          lt_irrefl _ (hparents a ha _ (.table hcontents hitems))
        have hnodup' : (a :: parents).Nodup := List.nodup_cons.mpr ⟨ha, hnodup⟩
        have hlen' : (a :: parents).length ≤ k := by simpa using List.Nodup.length_le_card hnodup'
        dsimp only
        rw [if_neg ha]
        refine encodeTable_eq_ok.mpr ⟨frame, values, _, hcontents, hframe, ?_, rfl⟩
        rw [renderItems_eq, List.forall₂_map_right_iff]
        refine List.forall₂_iff_zip.mpr ⟨hitems.length_eq, fun {value d} hmem => ?_⟩
        have hd := (List.of_mem_zip hmem).2
        refine ih (List.forall₂_zip hitems hmem) (hitemsFit d hd) hnodup' ?_ ?_ _ hlen'
        · refine List.forall_mem_cons.mpr ⟨fun d' hd' => ?_, fun p hp d' hd' => ?_⟩
          · rw [hd'.unique (.table hcontents hitems)]
            exact Doc.lt_of_mem hd
          · exact (Doc.lt_of_mem hd).trans (hparents p hp d' hd')
        · rw [List.length_cons]
          omega

end

end PerfTools.Json
