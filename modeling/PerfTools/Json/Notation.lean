import PerfTools.Json.Contents

/-!
# The notation of a value

The text of a value, told without the code that writes it: which texts stand for strings and numbers,
and where the punctuation and the blanks of a table are under the options of the layout.
-/

namespace PerfTools.Json

open Printf Numbers

/-! ## Strings and numbers -/

/-- How a byte is written. A slash is not escaped. -/
inductive ByteText : UInt8 → Text → Prop
  | plain {c : UInt8} (hcontrol : 0x20 ≤ c.toNat) (hquote : c ≠ quote) (hbackslash : c ≠ backslash) :
      ByteText c [c]
  | short {c e : UInt8} (h : (e, c) ∈ shortEscapes) (hslash : c ≠ 47) : ByteText c [backslash, e]
  | control {c : UInt8} (hcontrol : c.toNat < 0x20) (hshort : ∀ e, (e, c) ∉ shortEscapes) :
      ByteText c (ascii "\\u" ++ Hex.fixed 4 c.toNat)

/-- The separators of lines and of paragraphs. -/
def IsSeparator (v : Nat) : Prop := v = 0x2028 ∨ v = 0x2029

/-- How a string is written between its quotes. Where strings are UTF-8, the separators are
escaped, too. -/
inductive StringText (stringsAreUtf8 : Bool) : Text → Text → Prop
  | nil : StringText stringsAreUtf8 [] []
  | separator {v : Nat} {s t : Text} (hutf8 : stringsAreUtf8 = true) (hv : IsSeparator v)
      (hrest : StringText stringsAreUtf8 s t) :
      StringText stringsAreUtf8 (codepointUtf8 v ++ s) (ascii "\\u" ++ Hex.fixed 4 v ++ t)
  | byte {c : UInt8} {s t w : Text} (hc : ByteText c w)
      (hnone : stringsAreUtf8 = true → ∀ v u, IsSeparator v → c :: s ≠ codepointUtf8 v ++ u)
      (hrest : StringText stringsAreUtf8 s t) : StringText stringsAreUtf8 (c :: s) (w ++ t)

def LiteralText (stringsAreUtf8 : Bool) (s text : Text) : Prop :=
  ∃ t, StringText stringsAreUtf8 s t ∧ text = quote :: (t ++ [quote])

/-- How a number is written: JSON has neither NaN nor the infinite ones. -/
inductive NumberText {Num : Type} (lua : LuaNumbers Num) (x : Num) : Text → Prop
  | nan (h : lua.isNan x = true) : NumberText lua x (ascii "null")
  | huge (hnan : lua.isNan x = false) (h : lua.isHuge x = true) : NumberText lua x (ascii "1e+9999")
  | minusHuge (hnan : lua.isNan x = false) (hhuge : lua.isHuge x = false)
      (h : lua.isMinusHuge x = true) : NumberText lua x (ascii "-1e+9999")
  | finite (hnan : lua.isNan x = false) (hhuge : lua.isHuge x = false)
      (hminus : lua.isMinusHuge x = false) : NumberText lua x (lua.tostring x)

section

variable {c : UInt8} {s t w text : Text} {stringsAreUtf8 : Bool}

theorem charsToBeEscaped_iff : charsToBeEscapedInJSONString c = true ↔
    c = quote ∨ c = backslash ∨ c = 47 ∨ c.toNat < 0x20 := by
  have hzero : c = 0 ↔ c.toNat = 0 := UInt8.toNat_inj.symm
  rw [charsToBeEscapedInJSONString, decide_eq_true_iff, hzero]
  exact or_congr_right (or_congr_right (or_congr_right (by omega)))

theorem ByteText.eq (h : ByteText c w) : w = escapeByte c := by
  cases h with
  | plain hcontrol hquote hbackslash =>
    by_cases hslash : c = 47
    · subst hslash
      rfl
    · rw [escapeByte, if_neg]
      rw [charsToBeEscaped_iff]
      rintro (h | h | h | h)
      · exact hquote h
      · exact hbackslash h
      · exact hslash h
      · omega
  | short h hslash =>
    simp only [shortEscapes, List.mem_cons, Prod.mk.injEq, List.not_mem_nil, or_false] at h
    rcases h with ⟨rfl, rfl⟩ | ⟨rfl, rfl⟩ | ⟨rfl, rfl⟩ | ⟨rfl, rfl⟩ | ⟨rfl, rfl⟩ | ⟨rfl, rfl⟩ |
      ⟨rfl, rfl⟩ | ⟨rfl, rfl⟩
    · rfl
    · rfl
    · exact absurd rfl hslash
    iterate 5 rfl
  | control hcontrol hshort =>
    have hne {e d : UInt8} (h : (e, d) ∈ shortEscapes) : c ≠ d := fun hc => hshort e (hc ▸ h)
    rw [escapeByte, if_pos (charsToBeEscaped_iff.mpr (Or.inr (Or.inr (Or.inr hcontrol)))),
      backslashReplacementFunction, if_neg (hne (e := 110) (by decide)),
      if_neg (hne (e := 114) (by decide)), if_neg (hne (e := 116) (by decide)),
      if_neg (hne (e := 98) (by decide)), if_neg (hne (e := 102) (by decide)),
      if_neg (hne (e := quote) (by decide)), if_neg (hne (e := backslash) (by decide)),
      if_neg (hne (e := 47) (by decide))]

theorem byteText_iff : ByteText c w ↔ w = escapeByte c := by
  have hexists : ∃ w, ByteText c w := by
    by_cases hshort : ∃ e, (e, c) ∈ shortEscapes ∧ c ≠ 47
    · obtain ⟨e, he, hslash⟩ := hshort
      exact ⟨_, .short he hslash⟩
    · have hslash (e : UInt8) (he : (e, c) ∈ shortEscapes) : c = 47 :=
        not_not.mp fun hne => hshort ⟨e, he, hne⟩
      by_cases hcontrol : c.toNat < 0x20
      · refine ⟨_, .control hcontrol fun e he => ?_⟩
        rw [hslash e he] at hcontrol
        exact absurd hcontrol (by decide)
      · refine ⟨_, .plain (Nat.le_of_not_lt hcontrol) ?_ ?_⟩
        · rintro rfl
          exact absurd (hslash 34 (by decide)) (by decide)
        · rintro rfl
          exact absurd (hslash 92 (by decide)) (by decide)
  obtain ⟨w', hw'⟩ := hexists
  refine ⟨ByteText.eq, ?_⟩
  rintro rfl
  exact hw'.eq ▸ hw'

theorem separator_bytes (sep : Separator) : sep.bytes = codepointUtf8 sep.code :=
  unicodeCodepointAsUtf8_eq (by have hthree := sep.three; omega)

theorem drop_separator (sep : Separator) (s : Text) : (sep.bytes ++ s).drop 3 = s := by
  obtain ⟨c, d, e, hbytes, -⟩ := sep.bytes_eq
  rw [hbytes]
  rfl

theorem find_separator {v : Nat} (hv : IsSeparator v) :
    ∃ sep, sep.code = v ∧ Separator.find (separators true) (sep.bytes ++ s) = some sep := by
  rcases hv with rfl | rfl
  · exact ⟨lineSeparator, rfl, List.find?_cons_of_pos (decide_eq_true ⟨s, rfl⟩)⟩
  · refine ⟨paragraphSeparator, rfl, ?_⟩
    have hline : ¬ lineSeparator.bytes <+: paragraphSeparator.bytes ++ s := by
      rintro ⟨t, ht⟩
      exact absurd (List.append_inj_left ht rfl) (by decide)
    refine (List.find?_cons_of_neg (by simpa using hline)).trans ?_
    exact List.find?_cons_of_pos (decide_eq_true ⟨s, rfl⟩)

theorem of_find_separator {sep : Separator}
    (h : Separator.find (separators stringsAreUtf8) s = some sep) :
    stringsAreUtf8 = true ∧ IsSeparator sep.code := by
  have hmem := List.mem_of_find?_eq_some h
  rw [separators] at hmem
  split_ifs at hmem with hutf8
  · simp only [List.mem_cons, List.not_mem_nil, or_false] at hmem
    rcases hmem with rfl | rfl
    · exact ⟨hutf8, Or.inl rfl⟩
    · exact ⟨hutf8, Or.inr rfl⟩
  · exact absurd hmem List.not_mem_nil

theorem find_eq_none_iff : Separator.find (separators stringsAreUtf8) s = none ↔
    (stringsAreUtf8 = true → ∀ v u, IsSeparator v → s ≠ codepointUtf8 v ++ u) := by
  constructor
  · rintro h rfl v u hv rfl
    obtain ⟨sep, rfl, hfind⟩ := find_separator (s := u) hv
    rw [separator_bytes, h] at hfind
    cases hfind
  · intro h
    cases hfind : Separator.find (separators stringsAreUtf8) s with
    | none => rfl
    | some sep =>
      obtain ⟨hutf8, hcode⟩ := of_find_separator hfind
      obtain ⟨u, hu⟩ := Separator.find_some hfind
      exact absurd (separator_bytes sep ▸ hu) (h hutf8 _ u hcode)

theorem StringText.eq (h : StringText stringsAreUtf8 s t) :
    t = spell (separators stringsAreUtf8) 0 s := by
  induction h with
  | nil => rfl
  | @separator v s t hutf8 hv _ ih =>
    obtain ⟨sep, rfl, hfind⟩ := find_separator (s := s) hv
    rw [← separator_bytes, ih, hutf8, spell_separator hfind, drop_separator]
    rfl
  | byte hc hnone _ ih => rw [spell_byte (find_eq_none_iff.mpr hnone), ← hc.eq, ih]

theorem stringText_spell (s : Text) :
    StringText stringsAreUtf8 s (spell (separators stringsAreUtf8) 0 s) := by
  induction hn : s.length using Nat.strongRecOn generalizing s with
  | ind n ih =>
    cases hfind : Separator.find (separators stringsAreUtf8) s with
    | some sep =>
      obtain ⟨hutf8, hcode⟩ := of_find_separator hfind
      obtain ⟨u, rfl⟩ := Separator.find_some hfind
      rw [spell_separator hfind, drop_separator, separator_bytes]
      refine .separator hutf8 hcode (ih _ ?_ u rfl)
      have hpos := List.length_pos_iff.mpr sep.isCharacter.ne_nil
      rw [← hn, List.length_append]
      omega
    | none =>
      cases s with
      | nil => exact .nil
      | cons c s =>
        rw [spell_byte hfind]
        refine .byte (byteText_iff.mpr rfl) (find_eq_none_iff.mp hfind) (ih _ ?_ s rfl)
        rw [← hn]
        exact Nat.lt_succ_self _

theorem literalText_iff :
    LiteralText stringsAreUtf8 s text ↔ text = jsonStringLiteral stringsAreUtf8 s := by
  rw [jsonStringLiteral_eq]
  constructor
  · rintro ⟨t, ht, rfl⟩
    rw [ht.eq]
  · rintro rfl
    exact ⟨_, stringText_spell s, rfl⟩

theorem numberText_iff {Num : Type} {lua : LuaNumbers Num} {x : Num} :
    NumberText lua x text ↔ text = numberText lua x := by
  rw [numberText]
  constructor
  · intro h
    cases h with
    | nan h => rw [if_pos h]
    | huge hnan h => rw [if_neg (by simp [hnan]), if_pos h]
    | minusHuge hnan hhuge h => rw [if_neg (by simp [hnan]), if_neg (by simp [hhuge]), if_pos h]
    | finite hnan hhuge hminus =>
      rw [if_neg (by simp [hnan]), if_neg (by simp [hhuge]), if_neg (by simp [hminus])]
  · rintro rfl
    split_ifs with hnan hhuge hminus
    · exact .nan hnan
    · exact .huge (by simpa using hnan) hhuge
    · exact .minusHuge (by simpa using hnan) (by simpa using hhuge) hminus
    · exact .finite (by simpa using hnan) (by simpa using hhuge) (by simpa using hminus)

end

/-! ## Tables -/

/-- The layout of a table at some indentation: how its values are indented, and where their texts
stand. The names of a pretty object are set flush right in a column that is as wide as the longest
of them when they are to be aligned, and of no width otherwise. -/
inductive Layout (o : EncodeOptions) (indent : Text) : Frame → Text → List Text → Text → Prop
  | empty (texts : List Text) : Layout o indent .empty indent texts (ascii "[]")
  | array (hnewline : o.arrayNewline = false) (hpretty : o.pretty = false) (texts : List Text) :
      Layout o indent .array indent texts
        (ascii "[" ++ (ascii ",").intercalate texts ++ ascii "]")
  | spacedArray (hnewline : o.arrayNewline = false) (hpretty : o.pretty = true)
      (texts : List Text) :
      Layout o indent .array indent texts
        (ascii "[ " ++ (ascii ", ").intercalate texts ++ ascii " ]")
  | lines (hnewline : o.arrayNewline = true) (texts : List Text) :
      Layout o indent .array (indent ++ o.indent) texts
        (ascii "[\n" ++ indent ++ o.indent ++
          (ascii ",\n" ++ indent ++ o.indent).intercalate texts ++ ascii "\n" ++ indent ++ ascii "]")
  | object {names keys : List Text} (hpretty : o.pretty = false)
      (hkeys : List.Forall₂ (LiteralText o.stringsAreUtf8) names keys) (texts : List Text) :
      Layout o indent (.object names) indent texts
        (ascii "\x7b" ++ (ascii ",").intercalate
          (List.zipWith (fun key text => key ++ ascii ":" ++ text) keys texts) ++ ascii "\x7d")
  | prettyObject {names keys : List Text} {width : Nat} (hpretty : o.pretty = true)
      (hkeys : List.Forall₂ (LiteralText o.stringsAreUtf8) names keys)
      (hwidth : IsLeast {w | o.alignKeys = true → ∀ key ∈ keys, key.length ≤ w} width)
      (hformat : names ≠ [] → width < 100) (texts : List Text) :
      Layout o indent (.object names)
        (indent ++ o.indent ++ List.replicate width 32 ++ if o.alignKeys then ascii "  " else [])
        texts
        (ascii "\x7b\n" ++ (ascii ",\n").intercalate (List.zipWith (fun key text =>
            indent ++ o.indent ++ List.replicate (width - key.length) 32 ++ key ++ ascii ": " ++ text)
          keys texts) ++ ascii "\n" ++ indent ++ ascii "\x7d")

/-- The texts of a value, which depend on how it is indented. -/
inductive Written {Num : Type} {k : Nat} (lua : LuaNumbers Num) (o : EncodeOptions)
    (heap : Heap Num k) : HeapValue Num k → Text → Text → Prop
  | nil (indent : Text) : Written lua o heap .nil indent (ascii "null")
  | true (indent : Text) : Written lua o heap (.boolean true) indent (ascii "true")
  | false (indent : Text) : Written lua o heap (.boolean false) indent (ascii "false")
  | number {x : Num} {text : Text} (h : NumberText lua x text) (indent : Text) :
      Written lua o heap (.number x) indent text
  | numberObject (s indent : Text) : Written lua o heap (.numberObject s) indent s
  | null {s : Text} (h : o.null = some s) (indent : Text) :
      Written lua o heap (.string s) indent (ascii "null")
  | string {s text : Text} (hnull : o.null ≠ some s) (h : LiteralText o.stringsAreUtf8 s text)
      (indent : Text) : Written lua o heap (.string s) indent text
  | table {a : Fin k} {frame : Frame} {values : List (HeapValue Num k)} {texts : List Text}
      {indent inner text : Text} (hcontent : Content lua (heap a) o.noKeyConversion frame values)
      (hlayout : Layout o indent frame inner texts text) (hlen : values.length = texts.length)
      (htexts : ∀ v t, (v, t) ∈ values.zip texts → Written lua o heap v inner t) :
      Written lua o heap (.table a) indent text

section

variable {o : EncodeOptions} {indent inner text : Text} {frame : Frame} {texts : List Text}

theorem literalTexts_iff {names keys : List Text} :
    List.Forall₂ (LiteralText o.stringsAreUtf8) names keys ↔ keys = names.map (encodedKey o) := by
  rw [← forall₂_eq_iff]
  exact ⟨fun h => h.imp fun _ _ h => (literalText_iff.mp h).symm,
    fun h => h.imp fun _ _ h => literalText_iff.mpr h.symm⟩

theorem foldl_max_le {xs : List Nat} {m n : Nat} :
    xs.foldl max m ≤ n ↔ m ≤ n ∧ ∀ x ∈ xs, x ≤ n := by
  induction xs generalizing m with
  | nil => simp
  | cons x xs ih => rw [List.foldl_cons, ih, max_le_iff, List.forall_mem_cons, and_assoc]

theorem width_iff {names : List Text} {width : Nat} :
    IsLeast {w | o.alignKeys = true → ∀ key ∈ names.map (encodedKey o), key.length ≤ w} width ↔
      width = maxKeyLength o names := by
  have hleast : IsLeast {w | o.alignKeys = true → ∀ key ∈ names.map (encodedKey o), key.length ≤ w}
      (maxKeyLength o names) := by
    rw [maxKeyLength]
    cases halign : o.alignKeys with
    | false => exact ⟨fun h => (by cases h), fun w _ => Nat.zero_le w⟩
    | true =>
      have hle (w : Nat) : (∀ key ∈ names.map (encodedKey o), key.length ≤ w) ↔
          (names.map fun key => (encodedKey o key).length).foldl max 0 ≤ w := by
        rw [foldl_max_le, and_iff_right (Nat.zero_le w), List.forall_mem_map, List.forall_mem_map]
      exact ⟨fun _ => (hle _).mpr le_rfl, fun w hw => (hle w).mp (hw rfl)⟩
  exact ⟨fun h => h.unique hleast, fun h => h ▸ hleast⟩

theorem objectText_plain (hpretty : o.pretty = false) (names texts : List Text) :
    objectText o indent names texts = ascii "\x7b" ++ (ascii ",").intercalate
      (List.zipWith (fun key text => key ++ ascii ":" ++ text) (names.map (encodedKey o)) texts) ++
        ascii "\x7d" := by
  have hfield : fieldText o indent names =
      fun key text => encodedKey o key ++ ascii ":" ++ text := by
    funext key text
    rw [fieldText, if_neg (by simp [hpretty])]
  rw [objectText, hfield, List.zipWith_map_left]
  exact if_neg (by simp [hpretty])

theorem objectText_pretty (hpretty : o.pretty = true) (names texts : List Text) :
    objectText o indent names texts = ascii "\x7b\n" ++ (ascii ",\n").intercalate
      (List.zipWith (fun key text => indent ++ o.indent ++
        List.replicate (maxKeyLength o names - key.length) 32 ++ key ++ ascii ": " ++ text)
        (names.map (encodedKey o)) texts) ++ ascii "\n" ++ indent ++ ascii "\x7d" := by
  have hfield : fieldText o indent names = fun key text => indent ++ o.indent ++
      List.replicate (maxKeyLength o names - (encodedKey o key).length) 32 ++ encodedKey o key ++
        ascii ": " ++ text := by
    funext key text
    rw [fieldText, if_pos hpretty, padLeft, space]
    simp only [List.append_assoc]
  rw [objectText, hfield, List.zipWith_map_left]
  exact if_pos hpretty

/-- The layout is that of the code, for the frames that fit. -/
theorem frameLayout_iff : Layout o indent frame inner texts text ↔
    frame.Fits o ∧ inner = frame.indent o indent ∧ text = frame.text o indent texts := by
  constructor
  · intro h
    cases h with
    | empty => exact ⟨trivial, rfl, rfl⟩
    | array hnewline hpretty =>
      refine ⟨trivial, ?_, ?_⟩
      · rw [Frame.indent, itemIndent, if_neg (by simp [hnewline])]
      · rw [Frame.text, arrayText, if_neg (by simp [hnewline]), if_neg (by simp [hpretty])]
    | spacedArray hnewline hpretty =>
      refine ⟨trivial, ?_, ?_⟩
      · rw [Frame.indent, itemIndent, if_neg (by simp [hnewline])]
      · rw [Frame.text, arrayText, if_neg (by simp [hnewline]), if_pos hpretty]
    | lines hnewline =>
      refine ⟨trivial, ?_, ?_⟩
      · rw [Frame.indent, itemIndent, if_pos hnewline]
      · rw [Frame.text, arrayText, if_pos hnewline]
        simp only [List.append_assoc]
    | @object names keys hpretty hkeys =>
      obtain rfl := literalTexts_iff.mp hkeys
      refine ⟨fun h => absurd (h.symm.trans hpretty) (by decide), ?_, ?_⟩
      · rw [Frame.indent, fieldIndent, if_neg (by simp [hpretty])]
      · rw [Frame.text, objectText_plain hpretty]
    | @prettyObject names keys width hpretty hkeys hwidth hformat =>
      obtain rfl := literalTexts_iff.mp hkeys
      obtain rfl := width_iff.mp hwidth
      refine ⟨fun _ => hformat, ?_, ?_⟩
      · rw [Frame.indent, fieldIndent, if_pos hpretty, subtableIndent]
      · rw [Frame.text, objectText_pretty hpretty]
  · rintro ⟨hfits, rfl, rfl⟩
    cases frame with
    | empty => exact .empty texts
    | array =>
      rw [Frame.indent, itemIndent, Frame.text, arrayText]
      cases hnewline : o.arrayNewline with
      | true =>
        have hlines : Layout o indent .array (indent ++ o.indent) texts _ := .lines hnewline texts
        simp only [List.append_assoc] at hlines ⊢
        exact hlines
      | false =>
        cases hpretty : o.pretty with
        | true => exact .spacedArray hnewline hpretty texts
        | false => exact .array hnewline hpretty texts
    | object names =>
      have hkeys := literalTexts_iff.mpr (rfl : names.map (encodedKey o) = _)
      rw [Frame.indent, Frame.text]
      cases hpretty : o.pretty with
      | true =>
        rw [fieldIndent, if_pos hpretty, objectText_pretty hpretty, subtableIndent]
        exact .prettyObject hpretty hkeys (width_iff.mpr rfl) (hfits hpretty) texts
      | false =>
        rw [fieldIndent, if_neg (by simp [hpretty]), objectText_plain hpretty]
        exact .object hpretty hkeys texts

end

/-! ## Values -/

section

variable {Num : Type} {k : Nat} {lua : LuaNumbers Num} [DecidableEq Num] {o : EncodeOptions}
  {heap : Heap Num k} {value : HeapValue Num k} {indent text : Text}

theorem IsDoc.written (hlua : ∀ a, Comparable lua (heap a)) {d : Doc}
    (h : IsDoc o lua heap value d) (hfits : d.Fits o) (indent : Text) :
    Written lua o heap value indent (d.render o indent) := by
  induction d using Doc.induction generalizing value indent with
  | null =>
    cases h with
    | nil => exact .nil indent
    | null h => exact .null h indent
    | nan h => exact .number (.nan h) indent
  | boolean b =>
    cases h
    cases b
    · exact .false indent
    · exact .true indent
  | number s =>
    cases h with
    | number h => exact .number (numberText_iff.mpr rfl) indent
    | numberObject => exact .numberObject s indent
  | string s =>
    cases h with
    | string h => exact .string h (literalText_iff.mpr rfl) indent
  | table frame items ih =>
    cases h with
    | @table a _ values _ hcontents hitems =>
      cases hfits with
      | table hframe hfits =>
        rw [Doc.render, renderItems_eq]
        refine .table ((contents_eq_ok (hlua a)).mp hcontents) (frameLayout_iff.mpr ⟨hframe, rfl, rfl⟩)
          (by rw [List.length_map, hitems.length_eq]) fun v t hvt => ?_
        rw [List.zip_map_right, List.mem_map] at hvt
        obtain ⟨⟨v, d⟩, hvd, heq⟩ := hvt
        obtain ⟨rfl, rfl⟩ := Prod.mk.inj heq
        have hd := (List.of_mem_zip hvd).2
        exact ih d hd (List.forall₂_zip hitems hvd) (hfits d hd) _

theorem Written.exists_doc (hlua : ∀ a, Comparable lua (heap a))
    (h : Written lua o heap value indent text) :
    ∃ d, (IsDoc o lua heap value d ∧ d.Fits o) ∧ text = d.render o indent := by
  induction h with
  | nil => exact ⟨.null, ⟨.nil, .null⟩, rfl⟩
  | true => exact ⟨_, ⟨.boolean Bool.true, .boolean Bool.true⟩, rfl⟩
  | false => exact ⟨_, ⟨.boolean Bool.false, .boolean Bool.false⟩, rfl⟩
  | @number x _ h =>
    cases hnan : lua.isNan x with
    | true =>
      refine ⟨.null, ⟨.nan hnan, .null⟩, ?_⟩
      rw [numberText_iff.mp h]
      exact if_pos hnan
    | false => exact ⟨_, ⟨.number hnan, .number _⟩, numberText_iff.mp h⟩
  | numberObject s => exact ⟨_, ⟨.numberObject s, .number s⟩, rfl⟩
  | null h => exact ⟨_, ⟨.null h, .null⟩, rfl⟩
  | @string s _ hnull h => exact ⟨_, ⟨.string hnull, .string s⟩, literalText_iff.mp h⟩
  | @table a frame values texts indent inner text hcontent hlayout hlen _ ih =>
    obtain ⟨hframe, rfl, rfl⟩ := frameLayout_iff.mp hlayout
    have hdocs : List.Forall₂ (fun value text => ∃ d, (IsDoc o lua heap value d ∧ d.Fits o) ∧
        text = d.render o (frame.indent o indent)) values texts :=
      List.forall₂_iff_zip.mpr ⟨hlen, fun {v t} hvt => ih v t hvt⟩
    obtain ⟨items, hitems, rfl⟩ := forall₂_exists.mp hdocs
    refine ⟨.table frame items, ⟨.table ((contents_eq_ok (hlua a)).mpr hcontent)
      (hitems.imp fun _ _ h => h.1), .table hframe (forall_right hitems fun _ _ h => h.2)⟩, ?_⟩
    rw [Doc.render, renderItems_eq, zipWith_right hitems]

/-- What encode writes for a value is its notation, where its table keys can be compared. A stack will
do that has room for one call for every table. -/
theorem encode_eq_ok {stack : Nat} {options : Option EncodeOptions} (hstack : k < stack)
    (hlua : ∀ a, Comparable lua (heap a)) :
    encode lua heap stack value options = .ok text ↔
      Written lua (options.getD .default) heap value [] text := by
  constructor
  · intro h
    obtain ⟨d, hd, hfits, rfl⟩ := isDoc_of_encodeValue h
    exact hd.written hlua hfits []
  · intro h
    obtain ⟨d, ⟨hd, hfits⟩, rfl⟩ := h.exists_doc hlua
    exact hd.encodeValue_eq hfits List.nodup_nil (fun a ha => absurd ha List.not_mem_nil)
      (by simpa using hstack) []

end

theorem encode_eq_ok_twice : Written luaIntegers defaultPrettyOptions sharedList (.table 0) []
    (ascii "\x7b\n  \"a\": [ 5, null, \"x\" ],\n  \"b\": [ 5, null, \"x\" ]\n\x7d") := by
  have hwritten : encode luaIntegers sharedList 3 (.table 0) (some defaultPrettyOptions) =
      .ok (ascii "\x7b\n  \"a\": [ 5, null, \"x\" ],\n  \"b\": [ 5, null, \"x\" ]\n\x7d") := by
    decide +kernel
  exact (encode_eq_ok (by decide) fun a => luaIntegers_comparable (sharedList a)).mp hwritten

end PerfTools.Json
