import PerfTools.Json.Escapes

/-!
# Writing strings

A string is written with escapes for its quotes, backslashes and control characters and, on request,
for two separators of Unicode. It can be read back just when it is a sequence of characters; every
other string is written without an error and makes the text unreadable.
-/

namespace PerfTools.Json

open Printf Numbers

def backslashReplacementFunction (c : UInt8) : Text :=
  if c = 10 then ascii "\\n"
  else if c = 13 then ascii "\\r"
  else if c = 9 then ascii "\\t"
  else if c = 8 then ascii "\\b"
  else if c = 12 then ascii "\\f"
  else if c = quote then ascii "\\\""
  else if c = backslash then ascii "\\\\"
  else if c = 47 then ascii "/"
  else ascii "\\u" ++ Hex.fixed 4 c.toNat

def charsToBeEscapedInJSONString (c : UInt8) : Bool :=
  c = quote ∨ c = backslash ∨ c = 47 ∨ c = 0 ∨ 1 ≤ c.toNat ∧ c.toNat ≤ 31

def escapeByte (c : UInt8) : Text :=
  if charsToBeEscapedInJSONString c then backslashReplacementFunction c else [c]

/-- gsub with a pattern that stands for itself, behind the first bytes of the text. -/
def gsubFrom (pattern repl : Text) : Nat → Text → Text
  | _, [] => []
  | skip + 1, _ :: t => gsubFrom pattern repl skip t
  | 0, c :: t =>
    if pattern <+: c :: t then repl ++ gsubFrom pattern repl (pattern.length - 1) t
    else c :: gsubFrom pattern repl 0 t

def gsub (pattern repl s : Text) : Text := gsubFrom pattern repl 0 s

def lineSeparatorAsUtf8 : Text := unicodeCodepointAsUtf8 0x2028

def paragraphSeparatorAsUtf8 : Text := unicodeCodepointAsUtf8 0x2029

def jsonStringLiteral (stringsAreUtf8 : Bool) (value : Text) : Text :=
  let newval := value.flatMap escapeByte
  let newval := if stringsAreUtf8 then
      gsub paragraphSeparatorAsUtf8 (ascii "\\u2029")
        (gsub lineSeparatorAsUtf8 (ascii "\\u2028") newval)
    else newval
  quote :: (newval ++ [quote])

/-! ## Sequences of characters -/

inductive WellFormed : Text → Prop
  | nil : WellFormed []
  | cons {ch s : Text} (hch : IsCharacter ch) (hs : WellFormed s) : WellFormed (ch ++ s)

theorem IsCharacter.eq_of_append {ch ch' s s' : Text} (h : IsCharacter ch) (h' : IsCharacter ch')
    (heq : ch ++ s = ch' ++ s') : ch = ch' ∧ s = s' := by
  cases ch with
  | nil => exact absurd rfl h.ne_nil
  | cons c ds =>
    cases ch' with
    | nil => exact absurd rfl h'.ne_nil
    | cons c' ds' =>
      obtain rfl := (List.cons.inj heq).1
      exact List.append_inj heq (h.bytecount.symm.trans h'.bytecount)

theorem Piece.unique {strict : Bool} {s ch ch' t t' : Text} (h : Piece strict s ch t)
    (h' : Piece strict s ch' t') : ch = ch' ∧ t = t' := by
  cases s with
  | nil => exact absurd h.length_lt (Nat.not_lt_zero _)
  | cons c s =>
    have hquote := h.ne_quote
    have hread := (grokPiece_eq_ok (o := { DecodeOptions.default with strictParsing := strict })
      hquote).mpr h
    have hread' := (grokPiece_eq_ok (o := { DecodeOptions.default with strictParsing := strict })
      hquote).mpr h'
    exact Prod.mk.inj (Except.ok.inj (hread.symm.trans hread'))

/-! ## Spelling -/

/-- A character of three bytes that is replaced as a whole. -/
structure Separator where
  code : Nat
  three : 0x800 ≤ code ∧ code < 0xD800 ∨ 0xDFFF < code ∧ code < 0x10000

namespace Separator

def bytes (sep : Separator) : Text := unicodeCodepointAsUtf8 sep.code

def escape (sep : Separator) : Text := backslash :: 117 :: Hex.fixed 4 sep.code

/-- The separator that stands here. -/
def find (seps : List Separator) (s : Text) : Option Separator :=
  seps.find? fun sep => sep.bytes <+: s

theorem bytes_eq (sep : Separator) : ∃ c d e, sep.bytes = [c, d, e] ∧
    (0xE0 ≤ c.toNat ∧ c.toNat ≤ 0xEF) ∧ Continues d ∧ Continues e := by
  have hthree := sep.three
  rw [bytes, utf8_of_scalar (by omega), if_neg (by omega), if_neg (by omega), if_pos (by omega)]
  refine ⟨_, _, _, rfl, ?_, continues_ofNat _, continues_ofNat _⟩
  rw [toNat_ofNat (by omega)]
  omega

theorem isCharacter (sep : Separator) : IsCharacter sep.bytes := by
  obtain ⟨c, d, e, hbytes, hc, hd, he⟩ := sep.bytes_eq
  rw [hbytes]
  exact .three hc hd he

theorem piece (sep : Separator) (strict : Bool) (t : Text) :
    Piece strict (sep.escape ++ t) sep.bytes t := by
  have hthree := sep.three
  have hds : IsHex4 (Hex.fixed 4 sep.code) sep.code :=
    ⟨Hex.fixed_length 4 _, fun d hd => isDigit_of_mem_fixed hd,
      (readDigits_fixed (by omega)).symm⟩
  rw [bytes, unicodeCodepointAsUtf8_eq (hds.lt.trans (by decide))]
  refine .codepoint hds fun hhigh => ?_
  unfold HighSurrogate at hhigh
  omega

theorem find_some {seps : List Separator} {sep : Separator} {s : Text}
    (h : find seps s = some sep) : ∃ t, s = sep.bytes ++ t := by
  have hprefix := List.find?_some h
  obtain ⟨t, ht⟩ := of_decide_eq_true hprefix
  exact ⟨t, ht.symm⟩

theorem find_eq_none {seps : List Separator} {c : UInt8} {s : Text} (hc : c.toNat < 0xE0) :
    find seps (c :: s) = none := by
  refine List.find?_eq_none.mpr fun sep _ hprefix => ?_
  obtain ⟨t, ht⟩ := of_decide_eq_true hprefix
  obtain ⟨d, _, _, hbytes, hd, -⟩ := sep.bytes_eq
  rw [hbytes] at ht
  obtain rfl := (List.cons.inj ht).1
  omega

end Separator

/-- A string with all its replacements, in one go. -/
def spell (seps : List Separator) : Nat → Text → Text
  | _, [] => []
  | skip + 1, _ :: t => spell seps skip t
  | 0, c :: t =>
    match Separator.find seps (c :: t) with
    | some sep => sep.escape ++ spell seps 2 t
    | none => escapeByte c ++ spell seps 0 t

def lineSeparator : Separator := ⟨0x2028, by decide⟩

def paragraphSeparator : Separator := ⟨0x2029, by decide⟩

section

variable {seps : List Separator} {sep : Separator} {s t pattern repl : Text} {c : UInt8}

theorem spell_skip (skip : Nat) : spell seps skip s = spell seps 0 (s.drop skip) := by
  induction s generalizing skip with
  | nil => cases skip <;> rfl
  | cons c s ih =>
    cases skip with
    | zero => rfl
    | succ skip => exact ih skip

theorem gsubFrom_skip (skip : Nat) :
    gsubFrom pattern repl skip s = gsub pattern repl (s.drop skip) := by
  induction s generalizing skip with
  | nil => cases skip <;> rfl
  | cons c s ih =>
    cases skip with
    | zero => rfl
    | succ skip => exact ih skip

theorem spell_separator (h : Separator.find seps s = some sep) :
    spell seps 0 s = sep.escape ++ spell seps 0 (s.drop 3) := by
  cases s with
  | nil =>
    obtain ⟨t, ht⟩ := Separator.find_some h
    obtain ⟨_, _, _, hbytes, -⟩ := sep.bytes_eq
    rw [hbytes] at ht
    cases ht
  | cons c s =>
    rw [spell, h]
    dsimp only
    rw [spell_skip]
    rfl

theorem spell_byte (h : Separator.find seps (c :: s) = none) :
    spell seps 0 (c :: s) = escapeByte c ++ spell seps 0 s := by
  rw [spell, h]

theorem spell_nil (s : Text) : spell [] 0 s = s.flatMap escapeByte := by
  induction s with
  | nil => rfl
  | cons c s ih => rw [spell_byte rfl, ih, List.flatMap_cons]

theorem unicodeCodepointAsUtf8_ascii {n : Nat} (hn : n ≤ 127) :
    unicodeCodepointAsUtf8 n = [UInt8.ofNat n] := if_pos hn

/-- A byte stands for itself, or it is an ASCII code that is escaped with a backslash. -/
theorem escapeByte_cases (c : UInt8) :
    escapeByte c = [c] ∧ c ≠ quote ∧ c ≠ backslash ∧ 0x20 ≤ c.toNat ∨
      c.toNat < 0x80 ∧ (∃ w, escapeByte c = backslash :: w ∧ ∀ b ∈ w, b.toNat < 0x80) ∧
        ∀ strict t, Piece strict (escapeByte c ++ t) [c] t := by
  by_cases hclass : charsToBeEscapedInJSONString c = true
  · rw [escapeByte, if_pos hclass]
    unfold backslashReplacementFunction
    split_ifs with h1 h2 h3 h4 h5 h6 h7 h8
    · subst h1
      exact Or.inr ⟨by decide, ⟨_, rfl, List.forall_mem_singleton.mpr (by decide)⟩,
        fun _ _ => .escape (by decide)⟩
    · subst h2
      exact Or.inr ⟨by decide, ⟨_, rfl, List.forall_mem_singleton.mpr (by decide)⟩,
        fun _ _ => .escape (by decide)⟩
    · subst h3
      exact Or.inr ⟨by decide, ⟨_, rfl, List.forall_mem_singleton.mpr (by decide)⟩,
        fun _ _ => .escape (by decide)⟩
    · subst h4
      exact Or.inr ⟨by decide, ⟨_, rfl, List.forall_mem_singleton.mpr (by decide)⟩,
        fun _ _ => .escape (by decide)⟩
    · subst h5
      exact Or.inr ⟨by decide, ⟨_, rfl, List.forall_mem_singleton.mpr (by decide)⟩,
        fun _ _ => .escape (by decide)⟩
    · subst h6
      exact Or.inr ⟨by decide, ⟨_, rfl, List.forall_mem_singleton.mpr (by decide)⟩,
        fun _ _ => .escape (by decide)⟩
    · subst h7
      exact Or.inr ⟨by decide, ⟨_, rfl, List.forall_mem_singleton.mpr (by decide)⟩,
        fun _ _ => .escape (by decide)⟩
    · subst h8
      exact Or.inl ⟨rfl, by decide, by decide, by decide⟩
    · have hlt : c.toNat < 0x20 := by
        have hcases : c = quote ∨ c = backslash ∨ c = 47 ∨ c = 0 ∨ 1 ≤ c.toNat ∧ c.toNat ≤ 31 :=
          of_decide_eq_true hclass
        rcases hcases with h | h | h | rfl | h
        · exact absurd h h6
        · exact absurd h h7
        · exact absurd h h8
        · decide
        · omega
      refine Or.inr ⟨by omega, ⟨117 :: Hex.fixed 4 c.toNat, rfl, fun b hb => ?_⟩, fun strict t => ?_⟩
      · rcases List.mem_cons.mp hb with rfl | hb
        · decide
        · have hdigit := Hex.toNat_of_mem_fixed hb
          omega
      · have hds : IsHex4 (Hex.fixed 4 c.toNat) c.toNat :=
          ⟨Hex.fixed_length 4 _, fun d hd => isDigit_of_mem_fixed hd,
            (readDigits_fixed (by omega)).symm⟩
        have hbytes : unicodeCodepointAsUtf8 c.toNat = [c] := by
          rw [unicodeCodepointAsUtf8_ascii (by omega), UInt8.ofNat_toNat]
        rw [← hbytes, unicodeCodepointAsUtf8_eq (hds.lt.trans (by decide))]
        refine .codepoint hds fun hhigh => ?_
        unfold HighSurrogate at hhigh
        omega
  · have hclass' : ¬ (c = quote ∨ c = backslash ∨ c = 47 ∨ c = 0 ∨ 1 ≤ c.toNat ∧ c.toNat ≤ 31) := by
      simpa [charsToBeEscapedInJSONString] using hclass
    simp only [not_or] at hclass'
    obtain ⟨hquote, hbackslash, -, hzero, hcontrol⟩ := hclass'
    refine Or.inl ⟨by rw [escapeByte, if_neg hclass], hquote, hbackslash, ?_⟩
    have hne : c.toNat ≠ 0 := fun h => hzero (UInt8.toNat_inj.mp h)
    omega

/-! ## The replacements one after the other -/

theorem spell_ne_quote (hs : s ≠ []) {u : Text} : spell seps 0 s ++ t ≠ quote :: u := by
  intro h
  cases hfind : Separator.find seps s with
  | some sep =>
    rw [spell_separator hfind, List.append_assoc] at h
    exact absurd (List.cons.inj h).1 (by decide)
  | none =>
    cases s with
    | nil => exact hs rfl
    | cons c s =>
      rw [spell_byte hfind, List.append_assoc] at h
      rcases escapeByte_cases c with ⟨hc, hquote, -⟩ | ⟨-, ⟨w, hw, -⟩, -⟩
      · rw [hc] at h
        exact hquote (List.cons.inj h).1
      · rw [hw] at h
        exact absurd (List.cons.inj h).1 (by decide)

theorem spell_high {u : Text} (h : spell seps 0 s ++ quote :: t = c :: u) (hc : 0x80 ≤ c.toNat)
    (hnone : Separator.find seps s = none) :
    ∃ s', s = c :: s' ∧ u = spell seps 0 s' ++ quote :: t := by
  cases s with
  | nil =>
    obtain rfl := (List.cons.inj h).1
    exact absurd hc (by decide)
  | cons d s =>
    rw [spell_byte hnone, List.append_assoc] at h
    rcases escapeByte_cases d with ⟨hd, -⟩ | ⟨-, ⟨w, hw, -⟩, -⟩
    · rw [hd] at h
      obtain ⟨rfl, rfl⟩ := List.cons.inj h
      exact ⟨s, rfl, rfl⟩
    · rw [hw] at h
      obtain rfl := (List.cons.inj h).1
      exact absurd hc (by decide)

/-- Where a character goes on, no separator stands, so its bytes are found in the string. -/
theorem spell_continues {ds u : Text} (h : spell seps 0 s ++ quote :: t = ds ++ u)
    (hds : ∀ d ∈ ds, Continues d) :
    ∃ s', s = ds ++ s' ∧ u = spell seps 0 s' ++ quote :: t := by
  induction ds generalizing s with
  | nil => exact ⟨s, rfl, h.symm⟩
  | cons d ds ih =>
    obtain ⟨hlow, hhigh⟩ := hds d List.mem_cons_self
    have hnone : Separator.find seps s = none := by
      cases hfind : Separator.find seps s with
      | none => rfl
      | some sep =>
        rw [spell_separator hfind, List.append_assoc] at h
        obtain rfl := (List.cons.inj h).1
        exact absurd hlow (by decide)
    obtain ⟨s', rfl, hu⟩ := spell_high h hlow hnone
    obtain ⟨s'', rfl, hu'⟩ := ih hu.symm fun d hd => hds d (List.mem_cons_of_mem _ hd)
    exact ⟨s'', rfl, hu'⟩

theorem escapeByte_high (hc : 0x80 ≤ c.toNat) : escapeByte c = [c] := by
  rcases escapeByte_cases c with ⟨h, -⟩ | ⟨hlt, -⟩
  · exact h
  · omega

theorem spell_append {ds : Text} (hds : ∀ d ∈ ds, Continues d) :
    spell seps 0 (ds ++ s) = ds ++ spell seps 0 s := by
  induction ds with
  | nil => rfl
  | cons d ds ih =>
    obtain ⟨hlow, hhigh⟩ := hds d List.mem_cons_self
    rw [List.cons_append, spell_byte (Separator.find_eq_none (by omega)), escapeByte_high hlow,
      ih fun d hd => hds d (List.mem_cons_of_mem _ hd)]
    rfl

theorem gsub_ascii {w : Text} (hw : ∀ b ∈ w, b.toNat < 0x80) :
    gsub sep.bytes repl (w ++ s) = w ++ gsub sep.bytes repl s := by
  induction w with
  | nil => rfl
  | cons b w ih =>
    have hb := hw b List.mem_cons_self
    obtain ⟨c, d, e, hbytes, hc, -, -⟩ := sep.bytes_eq
    have hnot : ¬ sep.bytes <+: b :: (w ++ s) := by
      rw [hbytes]
      intro hprefix
      obtain rfl := (List.cons_prefix_cons.mp hprefix).1
      omega
    rw [List.cons_append, gsub, gsubFrom, if_neg hnot]
    exact congrArg _ (ih fun b hb => hw b (List.mem_cons_of_mem _ hb))

theorem gsub_bytes : gsub sep.bytes repl (sep.bytes ++ s) = repl ++ gsub sep.bytes repl s := by
  obtain ⟨c, d, e, hbytes, -⟩ := sep.bytes_eq
  rw [hbytes, List.cons_append, gsub, gsubFrom, if_pos ⟨s, rfl⟩, gsubFrom_skip]
  rfl

theorem ascii_escape (sep : Separator) : ∀ b ∈ sep.escape, b.toNat < 0x80 := by
  intro b hb
  rcases List.mem_cons.mp hb with rfl | hb
  · decide
  rcases List.mem_cons.mp hb with rfl | hb
  · decide
  · have hdigit := Hex.toNat_of_mem_fixed hb
    omega

theorem gsub_spell (seps : List Separator) (sep : Separator) (s : Text) :
    gsub sep.bytes sep.escape (spell seps 0 s) = spell (seps ++ [sep]) 0 s := by
  induction hn : s.length using Nat.strongRecOn generalizing s with
  | ind n ih =>
    cases s with
    | nil => rfl
    | cons c s =>
      have hfind_append : Separator.find (seps ++ [sep]) (c :: s) =
          (Separator.find seps (c :: s)).or (Separator.find [sep] (c :: s)) := List.find?_append
      cases hfind : Separator.find seps (c :: s) with
      | some sep' =>
        rw [hfind] at hfind_append
        rw [spell_separator hfind, gsub_ascii (ascii_escape sep'), spell_separator hfind_append,
          ih _ _ _ rfl]
        simp only [List.length_drop, List.length_cons] at hn ⊢
        omega
      | none =>
        rw [hfind] at hfind_append
        by_cases hprefix : sep.bytes <+: c :: s
        · have hsep : Separator.find [sep] (c :: s) = some sep := by
            simp [Separator.find, hprefix]
          obtain ⟨u, hu⟩ := hprefix
          obtain ⟨c', d, e, hbytes, hc, hd, he⟩ := sep.bytes_eq
          have hds : ∀ x ∈ [d, e], Continues x := by simp [hd, he]
          have hs : c :: s = c' :: ([d, e] ++ u) := by
            rw [← hu, hbytes]
            rfl
          rw [hs] at hfind hfind_append hsep ⊢
          have hspell : spell seps 0 (c' :: ([d, e] ++ u)) = sep.bytes ++ spell seps 0 u := by
            rw [spell_byte hfind, escapeByte_high (by omega), spell_append hds, hbytes]
            rfl
          have hspell' : spell (seps ++ [sep]) 0 (c' :: ([d, e] ++ u)) =
              sep.escape ++ spell (seps ++ [sep]) 0 u :=
            spell_separator (hfind_append.trans hsep)
          rw [hspell, hspell', gsub_bytes, ih _ _ _ rfl]
          rw [← hn, hs]
          simp only [List.length_cons, List.length_append]
          omega
        · have hsep : Separator.find [sep] (c :: s) = none := by
            simp [Separator.find, hprefix]
          have hrest : gsub sep.bytes sep.escape (spell seps 0 s) = spell (seps ++ [sep]) 0 s :=
            ih s.length (by rw [← hn]; exact Nat.lt_succ_self _) s rfl
          rw [spell_byte hfind, spell_byte (hfind_append.trans hsep)]
          rcases escapeByte_cases c with ⟨hc, -⟩ | ⟨hlt, ⟨w, hw, hascii⟩, -⟩
          · have hnot : ¬ sep.bytes <+: c :: spell seps 0 s := by
              rintro ⟨u, hu⟩
              obtain ⟨c', d, e, hbytes, -, hd, he⟩ := sep.bytes_eq
              have hds : ∀ x ∈ [d, e], Continues x := by simp [hd, he]
              have hcons : c' :: ([d, e] ++ u) = c :: spell seps 0 s := by
                rw [← hu, hbytes]
                rfl
              obtain ⟨rfl, hbehind⟩ := List.cons.inj hcons
              have happ : spell seps 0 s ++ [quote] = [d, e] ++ (u ++ [quote]) := by
                rw [← hbehind, List.append_assoc]
              obtain ⟨s', rfl, -⟩ := spell_continues happ hds
              exact hprefix ⟨s', by rw [hbytes]; rfl⟩
            rw [hc, List.singleton_append, gsub, gsubFrom, if_neg hnot]
            exact congrArg _ hrest
          · have hall : ∀ b ∈ escapeByte c, b.toNat < 0x80 := by
              rw [hw]
              exact List.forall_mem_cons.mpr ⟨by decide, hascii⟩
            rw [gsub_ascii hall, hrest]

/-- The separators that the option has replaced. -/
def separators (stringsAreUtf8 : Bool) : List Separator :=
  if stringsAreUtf8 then [lineSeparator, paragraphSeparator] else []

theorem jsonStringLiteral_eq (stringsAreUtf8 : Bool) (value : Text) :
    jsonStringLiteral stringsAreUtf8 value =
      quote :: (spell (separators stringsAreUtf8) 0 value ++ [quote]) := by
  rw [jsonStringLiteral]
  cases stringsAreUtf8
  · rw [if_neg (by simp), ← spell_nil]
    rfl
  · have hline := gsub_spell [] lineSeparator value
    have hparagraph := gsub_spell [lineSeparator] paragraphSeparator value
    rw [if_pos rfl, ← spell_nil]
    exact congrArg (fun s => quote :: (s ++ [quote])) ((congrArg _ hline).trans hparagraph)

/-! ## Reading back -/

/-- What is read at the front of a spelling is a character at the front of the string. -/
theorem piece_spell {strict : Bool} {ch u : Text} (hs : s ≠ []) :
    Piece strict (spell seps 0 s ++ quote :: t) ch u ↔
      IsCharacter ch ∧ ∃ s', s = ch ++ s' ∧ u = spell seps 0 s' ++ quote :: t := by
  -- an escape has one reading, and what it stands for is a character of the string
  have hescape {w ch' s' : Text} (hspell : spell seps 0 s = w ++ spell seps 0 s')
      (hs : s = ch' ++ s') (hch' : IsCharacter ch') (hw : ∀ t, Piece strict (w ++ t) ch' t) :
      Piece strict (spell seps 0 s ++ quote :: t) ch u ↔
        IsCharacter ch ∧ ∃ s', s = ch ++ s' ∧ u = spell seps 0 s' ++ quote :: t := by
    rw [hspell, List.append_assoc, hs]
    constructor
    · intro h
      obtain ⟨rfl, rfl⟩ := h.unique (hw _)
      exact ⟨hch', s', rfl, rfl⟩
    · rintro ⟨hch, s'', hs'', rfl⟩
      obtain ⟨rfl, rfl⟩ := hch'.eq_of_append hch hs''
      exact hw _
  cases hfind : Separator.find seps s with
  | some sep =>
    obtain ⟨s', rfl⟩ := Separator.find_some hfind
    refine hescape ?_ rfl sep.isCharacter fun t => sep.piece strict t
    rw [spell_separator hfind]
    obtain ⟨c, d, e, hbytes, -⟩ := sep.bytes_eq
    rw [hbytes]
    rfl
  | none =>
    cases s with
    | nil => exact absurd rfl hs
    | cons c s =>
      have hspell := spell_byte hfind
      rcases escapeByte_cases c with ⟨hc, hquote, hbackslash, hcontrol⟩ | ⟨hlt, -, hpiece⟩
      · rw [hspell, hc, List.singleton_append, List.cons_append]
        constructor
        · intro h
          generalize hv : c :: (spell seps 0 s ++ quote :: t) = v at h
          cases h with
          | @character ch u hch =>
            cases ch with
            | nil => exact absurd rfl hch.ne_nil
            | cons d ds =>
              obtain ⟨rfl, hds⟩ := List.cons.inj hv
              obtain ⟨s', rfl, rfl⟩ := spell_continues hds (isCharacter_iff.mp hch).2
              exact ⟨hch, s', rfl, rfl⟩
          | escape => exact absurd (List.cons.inj hv).1 hbackslash
          | codepoint => exact absurd (List.cons.inj hv).1 hbackslash
          | pair => exact absurd (List.cons.inj hv).1 hbackslash
          | other => exact absurd (List.cons.inj hv).1 hbackslash
        · rintro ⟨hch, s', hs', rfl⟩
          cases ch with
          | nil => exact absurd rfl hch.ne_nil
          | cons d ds =>
            rw [List.cons_append] at hs'
            obtain ⟨rfl, rfl⟩ := List.cons.inj hs'
            have hds := (isCharacter_iff.mp hch).2
            rw [spell_append hds, List.append_assoc, ← List.cons_append]
            refine .character hch (fun h => hquote (List.cons.inj h).1)
              (fun h => hbackslash (List.cons.inj h).1) fun _ => ?_
            exact List.forall_mem_cons.mpr ⟨hcontrol, fun d hd => le_trans (by decide) (hds d hd).1⟩
      · exact hescape hspell rfl (.one hlt) (hpiece strict)

theorem characters_spell {strict : Bool} {v t' : Text} :
    Characters strict (spell seps 0 s ++ quote :: t) v t' ↔ WellFormed s ∧ v = s ∧ t' = t := by
  constructor
  · intro h
    generalize hu : spell seps 0 s ++ quote :: t = u at h
    induction h generalizing s with
    | done t' =>
      cases s with
      | nil => exact ⟨.nil, rfl, (List.cons.inj hu).2.symm⟩
      | cons c s =>
        have hne : spell seps 0 (c :: s) ++ quote :: t = quote :: t' := hu
        exact absurd hne (spell_ne_quote (List.cons_ne_nil _ _))
    | @more u u' ch value t' hpiece hrest ih =>
      subst hu
      have hs : s ≠ [] := by
        rintro rfl
        exact hpiece.ne_quote rfl
      obtain ⟨hch, s', rfl, rfl⟩ := (piece_spell hs).mp hpiece
      obtain ⟨hwell, rfl, rfl⟩ := ih rfl
      exact ⟨.cons hch hwell, rfl, rfl⟩
  · rintro ⟨hwell, rfl, rfl⟩
    induction hwell with
    | nil => exact .done _
    | @cons ch s hch _ ih =>
      have hne : ch ++ s ≠ [] := fun h => hch.ne_nil (List.append_eq_nil_iff.mp h).1
      exact .more ((piece_spell hne).mpr ⟨hch, s, rfl, rfl⟩) ih

end

theorem isString_jsonStringLiteral {strict stringsAreUtf8 : Bool} {s t v t' : Text} :
    IsString strict (jsonStringLiteral stringsAreUtf8 s ++ t) v t' ↔
      WellFormed s ∧ v = s ∧ t' = t := by
  rw [jsonStringLiteral_eq, List.cons_append, List.append_assoc, List.singleton_append,
    ← characters_spell]
  constructor
  · rintro ⟨u, hu, h⟩
    rw [← (List.cons.inj hu).2] at h
    exact h
  · intro h
    exact ⟨_, rfl, h⟩

/-- A written string is read back when it is a sequence of characters; any other is written too,
and its text is refused. -/
theorem grokString_jsonStringLiteral (o : DecodeOptions) (stringsAreUtf8 : Bool) (s t v t' : Text) :
    grokString o (jsonStringLiteral stringsAreUtf8 s ++ t) = .ok (v, t') ↔
      WellFormed s ∧ v = s ∧ t' = t := by
  rw [grokString_eq_ok, isString_jsonStringLiteral]

end PerfTools.Json
