import PerfTools.Json.Characters

/-!
# Strings and numbers in a text

What JSON.lua reads as a string or as a number. It takes the strings of RFC 7159 with a few
liberties: a character is a byte sequence of the right length, a surrogate without its partner
reads as a question mark, and without strictParsing a string may contain control characters and a
backslash before any character of up to three bytes. Every part of the grammar relates a position in
the text, its meaning, and the position behind it.
-/

namespace PerfTools.Json

open Printf Numbers

/-! ## Strings -/

/-- Four hexadecimal digits and their number. -/
structure IsHex4 (ds : Text) (v : Nat) : Prop where
  length : ds.length = 4
  digits : ∀ d ∈ ds, isDigit 16 d = true
  value : v = readDigits 16 0 ds

theorem IsHex4.exists_digits {ds : Text} {v : Nat} (h : IsHex4 ds v) :
    ∃ a b c d, ds = [a, b, c, d] := by
  obtain ⟨a, ds, rfl⟩ := List.exists_cons_of_length_eq_add_one h.length
  obtain ⟨b, c, d, rfl⟩ := List.length_eq_three.mp (Nat.succ.inj h.length)
  exact ⟨a, b, c, d, rfl⟩

def HighSurrogate (v : Nat) : Prop := 0xD800 ≤ v ∧ v ≤ 0xDBFF

def LowSurrogate (v : Nat) : Prop := 0xDC00 ≤ v ∧ v ≤ 0xDFFF

instance (v : Nat) : Decidable (HighSurrogate v) := instDecidableAnd

/-- \u and four digits of a low surrogate. -/
def LowFollows (s : Text) (v : Nat) (t : Text) : Prop :=
  ∃ ds, s = backslash :: 117 :: (ds ++ t) ∧ IsHex4 ds v ∧ LowSurrogate v

/-- What the bytes behind a backslash stand for. -/
def shortEscapes : List (UInt8 × UInt8) :=
  [(34, 34), (92, 92), (47, 47), (98, 8), (102, 12), (110, 10), (114, 13), (116, 9)]

/-- A part of a string, what it stands for, and the position behind it. -/
inductive Piece (strict : Bool) : Text → Text → Text → Prop
  | character {ch t : Text} (h : IsCharacter ch) (hquote : ch ≠ [quote])
      (hbackslash : ch ≠ [backslash]) (hcontrol : strict = true → ∀ c ∈ ch, 0x20 ≤ c.toNat) :
      Piece strict (ch ++ t) ch t
  | escape {c d : UInt8} {t : Text} (h : (c, d) ∈ shortEscapes) :
      Piece strict (backslash :: c :: t) [d] t
  | codepoint {ds t : Text} {v : Nat} (hds : IsHex4 ds v)
      (hsingle : HighSurrogate v → ∀ w u, ¬ LowFollows t w u) :
      Piece strict (backslash :: 117 :: (ds ++ t)) (codepointUtf8 v) t
  | pair {ds s t : Text} {v w : Nat} (hds : IsHex4 ds v) (hhigh : HighSurrogate v)
      (hlow : LowFollows s w t) :
      Piece strict (backslash :: 117 :: (ds ++ s))
        (codepointUtf8 (0x10000 + (v - 0xD800) * 0x400 + (w - 0xDC00))) t
  | other {ch t : Text} (hstrict : strict = false) (h : IsCharacter ch) (hlen : ch.length ≤ 3)
      (hescape : ∀ c ∈ ch, ∀ d, (c, d) ∉ shortEscapes)
      (hhex : ∀ ds u v, ch ++ t = 117 :: (ds ++ u) → ¬ IsHex4 ds v) :
      Piece strict (backslash :: (ch ++ t)) ch t

/-- What stands behind the opening quote of a string. -/
inductive Characters (strict : Bool) : Text → Text → Text → Prop
  | done (t : Text) : Characters strict (quote :: t) [] t
  | more {s s' ch value t : Text} (hpiece : Piece strict s ch s')
      (hrest : Characters strict s' value t) : Characters strict s (ch ++ value) t

def IsString (strict : Bool) (s value t : Text) : Prop :=
  ∃ s', s = quote :: s' ∧ Characters strict s' value t

theorem isDigit_sixteen {c : UInt8} : isDigit 16 c = true ↔ ∃ d < 16, digitValue c = some d := by
  rw [isDigit, Option.any_eq_true]
  simp [and_comm]

theorem readDigits_four {a b c d : UInt8} {va vb vc vd : Nat} (ha : digitValue a = some va)
    (hb : digitValue b = some vb) (hc : digitValue c = some vc) (hd : digitValue d = some vd)
    (h : va < 16 ∧ vb < 16 ∧ vc < 16 ∧ vd < 16) :
    readDigits 16 0 [a, b, c, d] = ((va * 16 + vb) * 16 + vc) * 16 + vd := by
  simp only [readDigits, ha, hb, hc, hd, h]
  simp only [if_true]
  omega

theorem IsHex4.lt {ds : Text} {v : Nat} (h : IsHex4 ds v) : v < 0x10000 := by
  obtain ⟨a, b, c, d, rfl⟩ := h.exists_digits
  have hdigit (x : UInt8) (hx : x ∈ [a, b, c, d]) := isDigit_sixteen.mp (h.digits x hx)
  obtain ⟨va, hva, ha⟩ := hdigit a (by simp)
  obtain ⟨vb, hvb, hb⟩ := hdigit b (by simp)
  obtain ⟨vc, hvc, hc⟩ := hdigit c (by simp)
  obtain ⟨vd, hvd, hd⟩ := hdigit d (by simp)
  rw [h.value, readDigits_four ha hb hc hd ⟨hva, hvb, hvc, hvd⟩]
  omega

theorem mem_shortEscapes {c d : UInt8} :
    (c, d) ∈ shortEscapes ↔ backslashEscapeConversion c = some d := by
  simp only [shortEscapes, List.mem_cons, Prod.mk.injEq, List.not_mem_nil, or_false]
  constructor
  · rintro (⟨rfl, rfl⟩ | ⟨rfl, rfl⟩ | ⟨rfl, rfl⟩ | ⟨rfl, rfl⟩ | ⟨rfl, rfl⟩ | ⟨rfl, rfl⟩ | ⟨rfl, rfl⟩ |
      ⟨rfl, rfl⟩)
    iterate 8 rfl
  · intro h
    unfold backslashEscapeConversion at h
    split_ifs at h with hc
    iterate 8
      obtain rfl := Option.some.inj h
      simp_all [quote, backslash]

theorem no_shortEscape {c : UInt8} :
    (∀ d, (c, d) ∉ shortEscapes) ↔ backslashEscapeConversion c = none := by
  simp only [mem_shortEscapes]
  exact Option.eq_none_iff_forall_ne_some.symm

theorem unicodeEscape_eq_some {s t : Text} {v : Nat} :
    unicodeEscape s = some (v, t) ↔ ∃ ds, s = 117 :: (ds ++ t) ∧ IsHex4 ds v := by
  constructor
  · intro h
    unfold unicodeEscape at h
    split at h
    · rename_i u a b c d t'
      split_ifs at h with hall
      obtain ⟨rfl, rfl⟩ := Prod.mk.inj (Option.some.inj h)
      exact ⟨[a, b, c, d], by rw [hall.1]; rfl, rfl, List.all_eq_true.mp hall.2, rfl⟩
    · cases h
  · rintro ⟨ds, rfl, hds⟩
    obtain ⟨a, b, c, d, rfl⟩ := hds.exists_digits
    have hall := List.all_eq_true.mpr hds.digits
    rw [hds.value]
    simp only [unicodeEscape, List.cons_append, List.nil_append, hall, and_self, if_true]

theorem mem_dD {a : UInt8} : a ∈ ascii "dD" ↔ digitValue a = some 13 := by
  have hmem : a ∈ ascii "dD" ↔ a.toNat = 100 ∨ a.toNat = 68 := by
    simp [ascii, ← UInt8.toNat_inj]
  rw [hmem, digitValue]
  split_ifs <;> simp <;> omega

theorem mem_cdef {b : UInt8} :
    b ∈ ascii "cdefCDEF" ↔ ∃ d, 12 ≤ d ∧ d < 16 ∧ digitValue b = some d := by
  have hmem : b ∈ ascii "cdefCDEF" ↔
      99 ≤ b.toNat ∧ b.toNat ≤ 102 ∨ 67 ≤ b.toNat ∧ b.toNat ≤ 70 := by
    simp [ascii, ← UInt8.toNat_inj]
    omega
  rw [hmem, digitValue]
  split_ifs <;> simp <;> omega

theorem loSurrogate_eq_some {s t : Text} {w : Nat} :
    loSurrogate s = some (w, t) ↔ LowFollows s w t := by
  constructor
  · intro h
    unfold loSurrogate at h
    split at h
    · rename_i e u a b c d t'
      split_ifs at h with hall
      obtain ⟨rfl, rfl, ha, hb, hc, hd⟩ := hall
      obtain ⟨rfl, rfl⟩ := Prod.mk.inj (Option.some.inj h)
      obtain ⟨vb, hvb, hvb', hb⟩ := mem_cdef.mp hb
      obtain ⟨vc, hvc, hc'⟩ := isDigit_sixteen.mp hc
      obtain ⟨vd, hvd, hd'⟩ := isDigit_sixteen.mp hd
      have ha := mem_dD.mp ha
      refine ⟨[a, b, c, d], rfl, ⟨rfl, ?_, rfl⟩, ?_⟩
      · simp only [List.mem_cons, List.not_mem_nil, or_false, forall_eq_or_imp, forall_eq]
        exact ⟨isDigit_sixteen.mpr ⟨13, by decide, ha⟩, isDigit_sixteen.mpr ⟨vb, hvb', hb⟩, hc, hd⟩
      · rw [readDigits_four ha hb hc' hd' ⟨by decide, hvb', hvc, hvd⟩]
        constructor <;> omega
    · cases h
  · rintro ⟨ds, rfl, hds, hlow⟩
    obtain ⟨a, b, c, d, rfl⟩ := hds.exists_digits
    have hdigit (x : UInt8) (hx : x ∈ [a, b, c, d]) := isDigit_sixteen.mp (hds.digits x hx)
    obtain ⟨va, hva, ha⟩ := hdigit a (by simp)
    obtain ⟨vb, hvb, hb⟩ := hdigit b (by simp)
    obtain ⟨vc, hvc, hc⟩ := hdigit c (by simp)
    obtain ⟨vd, hvd, hd⟩ := hdigit d (by simp)
    have hvalue := hds.value
    rw [readDigits_four ha hb hc hd ⟨hva, hvb, hvc, hvd⟩] at hvalue
    obtain ⟨hge, hle⟩ := hlow
    obtain rfl : va = 13 := by omega
    have hb' : b ∈ ascii "cdefCDEF" := mem_cdef.mpr ⟨vb, by omega, hvb, hb⟩
    rw [hds.value]
    simp only [loSurrogate, List.cons_append, List.nil_append]
    rw [if_pos ⟨trivial, trivial, mem_dD.mpr ha, hb', hds.digits c (by simp), hds.digits d (by simp)⟩]

section

variable {o : DecodeOptions} {c : UInt8} {s t ch : Text}

theorem grokCharacter_eq_ok : grokCharacter o (c :: t) = .ok (ch, s) ↔
    IsCharacter ch ∧ c :: t = ch ++ s ∧ (o.strictParsing = true → ∀ d ∈ ch, 0x20 ≤ d.toNat) := by
  rw [grokCharacter]
  constructor
  · intro h
    split_ifs at h with hcount hcontrol
    · exact absurd h onDecodeError_ne_ok
    · exact absurd h onDecodeError_ne_ok
    split at h
    · exact absurd h onDecodeError_ne_ok
    · rename_i ch' hnext
      obtain ⟨rfl, rfl⟩ := Prod.mk.inj (Except.ok.inj h)
      obtain ⟨hch, hs⟩ := (nextCharacter_eq_some hcount).mp ⟨hnext, rfl⟩
      refine ⟨hch, hs, fun hstrict e he => ?_⟩
      cases ch' with
      | nil => exact absurd rfl hch.ne_nil
      | cons d ds =>
        obtain ⟨rfl, -⟩ := List.cons.inj hs
        by_cases hds : ds = []
        · subst hds
          rw [hch.bytecount] at hcontrol
          obtain rfl := List.mem_singleton.mp he
          by_contra hlt
          exact hcontrol ⟨rfl, hstrict, by omega⟩
        · exact le_trans (by decide) (hch.high hds he)
  · rintro ⟨hch, hs, hcontrol⟩
    have hne : unicodeCharacterBytecountBasedOnFirstByte c ≠ 0 ∧ c ∈ ch := by
      cases ch with
      | nil => exact absurd rfl hch.ne_nil
      | cons d ds =>
        obtain ⟨rfl, -⟩ := List.cons.inj hs
        rw [hch.bytecount]
        exact ⟨Nat.succ_ne_zero _, List.mem_cons_self⟩
    obtain ⟨hnext, hdrop⟩ := (nextCharacter_eq_some hne.1).mpr ⟨hch, hs⟩
    rw [if_neg hne.1, if_neg, hnext]
    · dsimp only
      rw [hdrop]
    · rintro ⟨-, hstrict, hlt⟩
      have hge := hcontrol hstrict c hne.2
      omega

theorem backslashEscapeConversion_high (h : 0x80 ≤ c.toNat) : backslashEscapeConversion c = none := by
  have hne (d : UInt8) (hd : d.toNat < 0x80) : c ≠ d := by
    rintro rfl
    omega
  unfold backslashEscapeConversion
  simp only [hne quote (by decide), hne 47 (by decide), hne backslash (by decide),
    hne 98 (by decide), hne 102 (by decide), hne 110 (by decide), hne 114 (by decide),
    hne 116 (by decide), if_false]

theorem surrogate_pair {v w : Nat} (hv : HighSurrogate v) (hw : LowSurrogate w) :
    unicodeCodepointAsUtf8 (0x2400 + (v - 0xD800) * 0x400 + w) =
      codepointUtf8 (0x10000 + (v - 0xD800) * 0x400 + (w - 0xDC00)) := by
  obtain ⟨hge, hle⟩ := hw
  have hlt := hv.2
  rw [unicodeCodepointAsUtf8_eq (by omega)]
  exact congrArg codepointUtf8 (by omega)

theorem grokCodepoint_piece {strict : Bool} {ds : Text} {v : Nat} (hds : IsHex4 ds v)
    (h : grokCodepoint v t = (ch, s)) : Piece strict (backslash :: 117 :: (ds ++ t)) ch s := by
  unfold grokCodepoint at h
  split_ifs at h with hhigh
  · split at h
    · rename_i w u hlo
      obtain ⟨rfl, rfl⟩ := Prod.mk.inj h
      have hlow := loSurrogate_eq_some.mp hlo
      obtain ⟨_, -, -, hw⟩ := id hlow
      rw [surrogate_pair hhigh hw]
      exact .pair hds hhigh hlow
    · rename_i hnone
      obtain ⟨rfl, rfl⟩ := Prod.mk.inj h
      rw [unicodeCodepointAsUtf8_eq (hds.lt.trans (by decide))]
      refine .codepoint hds fun _ w u hlow => ?_
      rw [loSurrogate_eq_some.mpr hlow] at hnone
      cases hnone
  · obtain ⟨rfl, rfl⟩ := Prod.mk.inj h
    rw [unicodeCodepointAsUtf8_eq (hds.lt.trans (by decide))]
    exact .codepoint hds fun hv => absurd hv hhigh

theorem piece_of_grokEscape (h : grokEscape o t = .ok (ch, s)) :
    Piece o.strictParsing (backslash :: t) ch s := by
  unfold grokEscape at h
  split at h
  · exact absurd h onDecodeError_ne_ok
  rename_i c t
  split at h
  · rename_i d hd
    obtain ⟨rfl, rfl⟩ := Prod.mk.inj (Except.ok.inj h)
    exact .escape (mem_shortEscapes.mpr hd)
  rename_i hescape
  split at h
  · rename_i v t' hunicode
    obtain ⟨ds, hs, hds⟩ := unicodeEscape_eq_some.mp hunicode
    rw [hs]
    exact grokCodepoint_piece hds (Except.ok.inj h)
  rename_i hunicode
  split_ifs at h with hstrict
  · exact absurd h onDecodeError_ne_ok
  dsimp only at h
  split_ifs at h with hcount hfour
  · exact absurd h onDecodeError_ne_ok
  · exact absurd h onDecodeError_ne_ok
  split at h
  · exact absurd h onDecodeError_ne_ok
  · rename_i ch' hnext
    obtain ⟨rfl, rfl⟩ := Prod.mk.inj (Except.ok.inj h)
    obtain ⟨hch, hs⟩ := (nextCharacter_eq_some hcount).mp ⟨hnext, rfl⟩
    cases ch' with
    | nil => exact absurd rfl hch.ne_nil
    | cons d ds =>
      obtain ⟨rfl, -⟩ := List.cons.inj hs
      generalize (c :: t).drop (unicodeCharacterBytecountBasedOnFirstByte c) = rest at hs ⊢
      rw [hs]
      refine .other (by simpa using hstrict) hch ?_ (fun e he => no_shortEscape.mpr ?_) fun xs u v hxs hhex => ?_
      · rw [← hch.bytecount]
        have hcases := bytecount_cases c
        omega
      · by_cases hds : ds = []
        · subst hds
          obtain rfl := List.mem_singleton.mp he
          exact hescape
        · exact backslashEscapeConversion_high (hch.high hds he)
      · rw [unicodeEscape_eq_some.mpr ⟨xs, hs.trans hxs, hhex⟩] at hunicode
        cases hunicode

theorem grokEscape_of_piece (h : Piece o.strictParsing (backslash :: t) ch s) :
    grokEscape o t = .ok (ch, s) := by
  generalize hs : backslash :: t = s' at h
  cases h with
  | @character ch s h hquote hbackslash hcontrol =>
    cases ch with
    | nil => exact absurd rfl h.ne_nil
    | cons d ds =>
      obtain ⟨rfl, -⟩ := List.cons.inj hs
      by_cases hds : ds = []
      · exact absurd (by rw [hds]) hbackslash
      · exact absurd (h.high hds List.mem_cons_self) (by decide)
  | escape h =>
    obtain ⟨-, rfl⟩ := List.cons.inj hs
    rw [grokEscape]
    dsimp only
    rw [mem_shortEscapes.mp h]
  | @codepoint ds t' v hds hsingle =>
    obtain ⟨-, rfl⟩ := List.cons.inj hs
    rw [grokEscape]
    dsimp only
    rw [show backslashEscapeConversion 117 = none from rfl,
      unicodeEscape_eq_some.mpr ⟨ds, rfl, hds⟩]
    dsimp only
    rw [grokCodepoint, unicodeCodepointAsUtf8_eq (hds.lt.trans (by decide))]
    split_ifs with hhigh
    · cases hlo : loSurrogate s with
      | none => rfl
      | some lo => exact absurd (loSurrogate_eq_some.mp hlo) (hsingle hhigh lo.1 lo.2)
    · rfl
  | @pair ds u t' v w hds hhigh hlow =>
    obtain ⟨-, rfl⟩ := List.cons.inj hs
    obtain ⟨_, -, -, hw⟩ := id hlow
    rw [grokEscape]
    dsimp only
    rw [show backslashEscapeConversion 117 = none from rfl,
      unicodeEscape_eq_some.mpr ⟨ds, rfl, hds⟩]
    dsimp only
    rw [grokCodepoint, if_pos (show 0xD800 ≤ v ∧ v ≤ 0xDBFF from hhigh),
      loSurrogate_eq_some.mpr hlow]
    dsimp only
    rw [surrogate_pair hhigh hw]
  | other hstrict h hlen hescape hhex =>
    obtain ⟨-, rfl⟩ := List.cons.inj hs
    cases ch with
    | nil => exact absurd rfl h.ne_nil
    | cons d ds =>
      have hunicode : unicodeEscape (d :: ds ++ s) = none := by
        cases hv : unicodeEscape (d :: ds ++ s) with
        | none => rfl
        | some r =>
          obtain ⟨xs, hxs, hds⟩ := unicodeEscape_eq_some.mp hv
          exact absurd hds (hhex xs r.2 r.1 hxs)
      have hcount := h.bytecount
      have hne : unicodeCharacterBytecountBasedOnFirstByte d ≠ 0 := by
        rw [hcount]
        exact Nat.succ_ne_zero _
      obtain ⟨hnext, hdrop⟩ := (nextCharacter_eq_some (t := ds ++ s) hne).mpr ⟨h, rfl⟩
      rw [List.cons_append, grokEscape]
      dsimp only
      rw [no_shortEscape.mp (hescape d List.mem_cons_self)]
      dsimp only
      rw [← List.cons_append, hunicode]
      dsimp only
      rw [if_neg (by simp [hstrict]), if_neg hne, if_neg (by omega)]
      rw [List.cons_append, hnext]
      dsimp only
      rw [hdrop]

theorem grokPiece_eq_ok (hquote : c ≠ quote) :
    grokPiece o c t = .ok (ch, s) ↔ Piece o.strictParsing (c :: t) ch s := by
  rw [grokPiece]
  split_ifs with hc
  · subst hc
    exact ⟨piece_of_grokEscape, grokEscape_of_piece⟩
  · rw [grokCharacter_eq_ok]
    constructor
    · rintro ⟨hch, hs, hcontrol⟩
      rw [hs]
      refine .character hch ?_ ?_ hcontrol
      · rintro rfl
        exact hquote (List.cons.inj hs).1
      · rintro rfl
        exact hc (List.cons.inj hs).1
    · generalize hs : c :: t = s'
      intro h
      cases h with
      | character h hquote' hbackslash hcontrol => exact ⟨h, rfl, hcontrol⟩
      | escape h => exact absurd (List.cons.inj hs).1 hc
      | codepoint hds hsingle => exact absurd (List.cons.inj hs).1 hc
      | pair hds hhigh hlow => exact absurd (List.cons.inj hs).1 hc
      | other hstrict h hlen hescape hhex => exact absurd (List.cons.inj hs).1 hc

theorem Piece.length_lt {strict : Bool} (h : Piece strict s ch t) : t.length < s.length := by
  cases h with
  | character h _ _ _ =>
    have hpos := List.length_pos_iff.mpr h.ne_nil
    rw [List.length_append]
    omega
  | escape _ => simp only [List.length_cons]; omega
  | codepoint _ _ => simp only [List.length_cons, List.length_append]; omega
  | pair _ _ hlow =>
    obtain ⟨_, rfl, -, -⟩ := hlow
    simp only [List.length_cons, List.length_append]
    omega
  | other _ _ _ _ _ => simp only [List.length_cons, List.length_append]; omega

theorem Piece.ne_quote {strict : Bool} (h : Piece strict (c :: t) ch s) : c ≠ quote := by
  generalize hs : c :: t = s' at h
  rintro rfl
  cases h with
  | @character ch _ h hquote _ _ =>
    cases ch with
    | nil => exact h.ne_nil rfl
    | cons d ds =>
      obtain ⟨rfl, -⟩ := List.cons.inj hs
      by_cases hds : ds = []
      · exact hquote (by rw [hds])
      · exact absurd (h.high hds List.mem_cons_self) (by decide)
  | escape _ => exact absurd (List.cons.inj hs).1 (by decide)
  | codepoint _ _ => exact absurd (List.cons.inj hs).1 (by decide)
  | pair _ _ _ => exact absurd (List.cons.inj hs).1 (by decide)
  | other _ _ _ _ _ => exact absurd (List.cons.inj hs).1 (by decide)

theorem grokCharacters_eq_ok {start : Text} {n : Nat} (hn : s.length ≤ n) {value : Text} :
    grokCharacters o start n s = .ok (value, t) ↔ Characters o.strictParsing s value t := by
  constructor
  · intro h
    induction n generalizing s value with
    | zero => exact absurd h onDecodeError_ne_ok
    | succ n ih =>
      unfold grokCharacters at h
      split at h
      · exact absurd h onDecodeError_ne_ok
      rename_i c s
      split_ifs at h with hquote
      · obtain ⟨rfl, rfl⟩ := Prod.mk.inj (Except.ok.inj h)
        rw [hquote]
        exact .done s
      · obtain ⟨⟨ch, s'⟩, hpiece, h⟩ := bind_eq_ok.mp h
        obtain ⟨⟨rest, u⟩, hrest, h⟩ := bind_eq_ok.mp h
        obtain ⟨rfl, rfl⟩ := Prod.mk.inj (Except.ok.inj h)
        have hpiece := (grokPiece_eq_ok hquote).mp hpiece
        have hlt := hpiece.length_lt
        exact .more hpiece (ih (by omega) hrest)
  · intro h
    induction h generalizing n with
    | done t =>
      obtain ⟨n, rfl⟩ := Nat.exists_eq_add_one_of_ne_zero (by rintro rfl; simp at hn : n ≠ 0)
      rw [grokCharacters]
      exact if_pos rfl
    | @more s s' ch value t hpiece hrest ih =>
      have hlt := hpiece.length_lt
      obtain ⟨n, rfl⟩ := Nat.exists_eq_add_one_of_ne_zero (by omega : n ≠ 0)
      cases s with
      | nil => exact absurd hlt (Nat.not_lt_zero _)
      | cons c s =>
        have hquote := hpiece.ne_quote
        rw [grokCharacters]
        dsimp only
        rw [if_neg hquote]
        refine bind_eq_ok.mpr ⟨_, (grokPiece_eq_ok hquote).mpr hpiece, ?_⟩
        exact bind_eq_ok.mpr ⟨_, ih (by omega), rfl⟩

theorem grokString_eq_ok {value : Text} :
    grokString o s = .ok (value, t) ↔ IsString o.strictParsing s value t := by
  constructor
  · intro h
    unfold grokString at h
    split at h
    · exact absurd h onDecodeError_ne_ok
    · split_ifs at h with hquote
      · exact ⟨_, by rw [hquote], (grokCharacters_eq_ok le_rfl).mp h⟩
      · exact absurd h onDecodeError_ne_ok
  · rintro ⟨s', rfl, h⟩
    rw [grokString, if_pos rfl]
    exact (grokCharacters_eq_ok le_rfl).mpr h

end

/-! ## Numbers -/

def Decimal (c : UInt8) : Prop := 48 ≤ c.toNat ∧ c.toNat ≤ 57

instance (c : UInt8) : Decidable (Decimal c) := instDecidableAnd

def NoDigit (t : Text) : Prop := ∀ c u, t = c :: u → ¬ Decimal c

/-- All the digits that stand in a place. -/
structure Digits (ds t : Text) : Prop where
  ne_nil : ds ≠ []
  digits : ∀ d ∈ ds, Decimal d
  behind : NoDigit t

inductive IntegerPart : Text → Text → Prop
  | zero {sign t : Text} (hsign : sign = [] ∨ sign = [45]) : IntegerPart (sign ++ [48]) t
  | digits {sign ds t : Text} {c : UInt8} (hsign : sign = [] ∨ sign = [45]) (hc : c ≠ 48)
      (hds : Digits (c :: ds) t) : IntegerPart (sign ++ c :: ds) t

inductive DecimalPart : Text → Text → Prop
  | none {t : Text} (h : ∀ c u, t = 46 :: c :: u → ¬ Decimal c) : DecimalPart [] t
  | digits {ds t : Text} (hds : Digits ds t) : DecimalPart (46 :: ds) t

/-- The letter and the sign of an exponent. -/
def ExponentMark (mark : Text) : Prop :=
  ∃ e sign, mark = e :: sign ∧ (e = 101 ∨ e = 69) ∧ (sign = [] ∨ sign = [45] ∨ sign = [43])

inductive ExponentPart : Text → Text → Prop
  | none {t : Text} (h : ∀ mark c u, t = mark ++ c :: u → ExponentMark mark → ¬ Decimal c) :
      ExponentPart [] t
  | digits {mark ds t : Text} (hmark : ExponentMark mark) (hds : Digits ds t) :
      ExponentPart (mark ++ ds) t

/-- A number in front of t, which does not go on there. -/
structure IsNumber (integer decimal exponent t : Text) : Prop where
  integer : IntegerPart integer (decimal ++ (exponent ++ t))
  decimal : DecimalPart decimal (exponent ++ t)
  exponent : ExponentPart exponent t

/-- A part has the length that is asked for, or the number an exponent. -/
def Long (length : Option Nat) (part exponent : Text) : Prop :=
  ∃ n, length = some n ∧ (n ≤ part.length ∨ exponent ≠ [])

section

variable {Num : Type} (lua : LuaNumbers Num) (o : DecodeOptions)

/-- A number becomes an object: any number when no length is asked for. -/
def AsObject (integer decimal exponent : Text) : Prop :=
  o.decodeNumbersAsObjects = true ∧
    (o.decodeIntegerObjectificationLength = none ∧ o.decodeDecimalObjectificationLength = none ∨
      Long o.decodeIntegerObjectificationLength integer exponent ∨
      Long o.decodeDecimalObjectificationLength decimal exponent)

/-- A number becomes a string. -/
def AsString (integer decimal exponent : Text) : Prop :=
  o.decodeNumbersAsObjects = false ∧
    (Long o.decodeIntegerStringificationLength integer exponent ∨
      Long o.decodeDecimalStringificationLength decimal exponent)

/-- What a number means; Lua's own numbers are those that tonumber takes. -/
inductive NumberMeans (integer decimal exponent : Text) : Value Num → Prop
  | object (h : AsObject o integer decimal exponent) :
      NumberMeans integer decimal exponent (.numberObject (integer ++ (decimal ++ exponent))
        (lua.tonumber (integer ++ (decimal ++ exponent))))
  | string (h : AsString o integer decimal exponent) :
      NumberMeans integer decimal exponent (.string (integer ++ (decimal ++ exponent)))
  | number {x : Num} (hobject : ¬ AsObject o integer decimal exponent)
      (hstring : ¬ AsString o integer decimal exponent)
      (hx : lua.tonumber (integer ++ (decimal ++ exponent)) = some x) :
      NumberMeans integer decimal exponent (.number x)

end

section

variable {s t ds p : Text}

@[simp] theorem isDecimal_iff {c : UInt8} : isDecimal c = true ↔ Decimal c := by
  rw [isDecimal, isDigit, Option.any_eq_true, Decimal]
  unfold digitValue
  split_ifs <;> simp <;> omega

theorem takeWhile_of_not {c : UInt8} (hc : ¬ Decimal c) : (c :: t).takeWhile isDecimal = [] :=
  List.takeWhile_cons_of_neg fun h => hc (isDecimal_iff.mp h)

theorem takeWhile_append (hds : ∀ d ∈ ds, Decimal d) (ht : NoDigit t) :
    (ds ++ t).takeWhile isDecimal = ds := by
  rw [List.takeWhile_append_of_pos fun d hd => isDecimal_iff.mpr (hds d hd)]
  cases t with
  | nil => simp
  | cons c u => rw [takeWhile_of_not (ht c u rfl), List.append_nil]

theorem takeWhile_digits (s : Text) :
    ∃ t, s = s.takeWhile isDecimal ++ t ∧ (∀ d ∈ s.takeWhile isDecimal, Decimal d) ∧
      NoDigit t := by
  refine ⟨s.dropWhile isDecimal, List.takeWhile_append_dropWhile.symm,
    fun d hd => isDecimal_iff.mp (List.mem_takeWhile_imp hd), fun c u hcu => ?_⟩
  have hhead := List.head?_dropWhile_not isDecimal s
  rw [hcu] at hhead
  rw [← isDecimal_iff, Bool.not_eq_true]
  exact hhead

theorem optional_cases (q : UInt8 → Bool) (s : Text) :
    (∃ c t, s = c :: t ∧ q c = true ∧ optional q s = [c]) ∨
      optional q s = [] ∧ ∀ c t, s = c :: t → q c = false := by
  cases s with
  | nil => exact Or.inr ⟨rfl, fun c t h => by cases h⟩
  | cons c t =>
    by_cases hq : q c = true
    · exact Or.inl ⟨c, t, rfl, hq, by simp [optional, hq]⟩
    · refine Or.inr ⟨by simp [optional, hq], fun d u h => ?_⟩
      obtain ⟨rfl, rfl⟩ := List.cons.inj h
      simpa using hq

theorem optional_append {q : UInt8 → Bool} {sign u : Text}
    (hsign : sign = [] ∨ ∃ c, q c = true ∧ sign = [c])
    (hu : sign = [] → ∀ c v, u = c :: v → q c = false) : optional q (sign ++ u) = sign := by
  rcases hsign with rfl | ⟨c, hc, rfl⟩
  · cases u with
    | nil => rfl
    | cons c v => simp [optional, hu rfl c v rfl]
  · simp [optional, hc]

/-- What optional takes, and that nothing more could have been taken where it takes nothing. -/
theorem exists_optional (q : UInt8 → Bool) (s : Text) :
    ∃ u, s = optional q s ++ u ∧ (optional q s = [] ∨ ∃ c, q c = true ∧ optional q s = [c]) := by
  rcases optional_cases q s with ⟨c, t, rfl, hc, hopt⟩ | ⟨hopt, -⟩
  · exact ⟨t, by rw [hopt]; rfl, Or.inr ⟨c, hc, hopt⟩⟩
  · exact ⟨s, by rw [hopt]; rfl, Or.inl hopt⟩

theorem minus_cases {sign : Text} :
    (sign = [] ∨ ∃ c, decide (c = (45 : UInt8)) = true ∧ sign = [c]) ↔ sign = [] ∨ sign = [45] := by
  simp

theorem Digits.append_eq (h : Digits ds t) : (ds ++ t).takeWhile isDecimal = ds :=
  takeWhile_append h.digits h.behind

theorem integerPart_eq_some :
    integerPart s = some p ∧ s.drop p.length = t ↔ s = p ++ t ∧ IntegerPart p t := by
  constructor
  · rintro ⟨h, rfl⟩
    unfold integerPart at h
    obtain ⟨u, hs, hsign⟩ := exists_optional (fun c => decide (c = 45)) s
    rw [minus_cases] at hsign
    generalize optional (fun c => decide (c = 45)) s = sign at hs hsign h
    subst hs
    dsimp only at h
    rw [List.drop_left] at h
    split at h
    · cases h
    · rename_i c v
      split_ifs at h with hzero hdigit
      · obtain rfl := Option.some.inj h
        subst hzero
        rw [List.append_cons, List.drop_left]
        exact ⟨rfl, .zero hsign⟩
      · obtain rfl := Option.some.inj h
        obtain ⟨t, hv, hall, hbehind⟩ := takeWhile_digits v
        generalize v.takeWhile isDecimal = ds at hv hall
        subst hv
        rw [← List.cons_append, ← List.append_assoc, List.drop_left]
        refine ⟨rfl, .digits hsign hzero ⟨List.cons_ne_nil _ _, ?_, hbehind⟩⟩
        exact List.forall_mem_cons.mpr ⟨isDecimal_iff.mp hdigit, hall⟩
  · rintro ⟨rfl, h⟩
    refine ⟨?_, List.drop_left⟩
    cases h with
    | @zero sign t hsign =>
      have hopt : optional (fun c => decide (c = 45)) (sign ++ 48 :: t) = sign := by
        refine optional_append (minus_cases.mpr hsign) fun _ c v hcv => ?_
        obtain ⟨rfl, -⟩ := List.cons.inj hcv
        decide
      rw [List.append_assoc, List.singleton_append, integerPart, hopt, List.drop_left]
      rfl
    | @digits sign ds t c hsign hc hds =>
      have hdigit := hds.digits c List.mem_cons_self
      have hopt : optional (fun c => decide (c = 45)) (sign ++ (c :: ds ++ t)) = sign := by
        refine optional_append (minus_cases.mpr hsign) fun _ d v hdv => ?_
        obtain ⟨rfl, -⟩ := List.cons.inj hdv
        refine decide_eq_false ?_
        rintro rfl
        exact absurd hdigit (by decide)
      have htake : (ds ++ t).takeWhile isDecimal = ds :=
        takeWhile_append (fun d hd => hds.digits d (List.mem_cons_of_mem _ hd)) hds.behind
      rw [List.append_assoc, integerPart, hopt, List.drop_left, List.cons_append]
      dsimp only
      rw [if_neg hc, if_pos (isDecimal_iff.mpr hdigit), htake]

theorem decimalPart_eq :
    decimalPart s = p ∧ s.drop p.length = t ↔ s = p ++ t ∧ DecimalPart p t := by
  constructor
  · rintro ⟨rfl, rfl⟩
    unfold decimalPart
    split
    · exact ⟨rfl, .none fun c u h => by cases h⟩
    · rename_i point u
      obtain ⟨t, hu, hall, hbehind⟩ := takeWhile_digits u
      dsimp only
      generalize u.takeWhile isDecimal = ds at hu hall
      subst hu
      split_ifs with hpoint
      · obtain ⟨rfl, hne⟩ := hpoint
        rw [← List.cons_append, List.drop_left]
        exact ⟨rfl, .digits ⟨hne, hall, hbehind⟩⟩
      · refine ⟨rfl, .none fun c v hcv => ?_⟩
        obtain ⟨hdot, hrest⟩ := List.cons.inj (show point :: (ds ++ t) = 46 :: c :: v from hcv)
        have hds : ds = [] := by
          by_contra hne
          exact hpoint ⟨hdot, hne⟩
        subst hds
        exact hbehind c v hrest
  · rintro ⟨rfl, h⟩
    refine ⟨?_, List.drop_left⟩
    cases h with
    | none h =>
      rw [List.nil_append]
      unfold decimalPart
      split
      · rfl
      · rename_i point u
        refine if_neg ?_
        rintro ⟨rfl, hne⟩
        cases u with
        | nil => exact hne rfl
        | cons c v => exact hne (takeWhile_of_not (h c v rfl))
    | digits hds =>
      rw [List.cons_append, decimalPart, hds.append_eq, if_pos ⟨rfl, hds.ne_nil⟩]

theorem sign_cases {sign : Text} :
    (sign = [] ∨ ∃ c, decide (c = (45 : UInt8) ∨ c = 43) = true ∧ sign = [c]) ↔
      sign = [] ∨ sign = [45] ∨ sign = [43] := by
  simp only [decide_eq_true_eq]
  constructor
  · rintro (rfl | ⟨c, rfl | rfl, rfl⟩) <;> simp
  · rintro (rfl | rfl | rfl) <;> simp

theorem exponentPart_eq :
    exponentPart s = p ∧ s.drop p.length = t ↔ s = p ++ t ∧ ExponentPart p t := by
  constructor
  · rintro ⟨rfl, rfl⟩
    unfold exponentPart
    split
    · refine ⟨rfl, .none fun mark c u h hmark => ?_⟩
      obtain ⟨e, sign, rfl, -⟩ := hmark
      cases h
    · rename_i e v
      obtain ⟨u, hv, hsign⟩ := exists_optional (fun c => decide (c = 45 ∨ c = 43)) v
      have hno := optional_cases (fun c => decide (c = 45 ∨ c = 43)) v
      rw [sign_cases] at hsign
      dsimp only
      generalize optional (fun c => decide (c = 45 ∨ c = 43)) v = sign at hv hsign hno ⊢
      subst hv
      rw [List.drop_left]
      obtain ⟨t, hu, hall, hbehind⟩ := takeWhile_digits u
      generalize u.takeWhile isDecimal = ds at hu hall
      subst hu
      split_ifs with he
      · obtain ⟨he, hne⟩ := he
        have happ : e :: (sign ++ (ds ++ t)) = e :: (sign ++ ds) ++ t := by simp
        rw [happ, List.drop_left]
        exact ⟨rfl, .digits ⟨e, sign, rfl, he, hsign⟩ ⟨hne, hall, hbehind⟩⟩
      · refine ⟨rfl, .none fun mark c w hw hmark => ?_⟩
        obtain ⟨e', sign', rfl, he', hsign'⟩ := hmark
        obtain ⟨rfl, hrest⟩ := List.cons.inj
          (show e :: (sign ++ (ds ++ t)) = e' :: (sign' ++ c :: w) from hw)
        have hds : ds = [] := by
          by_contra hne
          exact he ⟨he', hne⟩
        subst hds
        rw [List.nil_append] at hrest hno
        rcases hno with ⟨d, v, hv, hd, hsingle⟩ | ⟨hnil, hno⟩
        · subst hsingle
          obtain ⟨-, rfl⟩ := List.cons.inj hv
          rcases sign_cases.mpr hsign' with rfl | ⟨d', -, rfl⟩
          · obtain ⟨rfl, -⟩ := List.cons.inj hrest
            have hd : d = 45 ∨ d = 43 := of_decide_eq_true hd
            rcases hd with rfl | rfl <;> decide
          · exact hbehind c w (List.cons.inj hrest).2
        · subst hnil
          rcases sign_cases.mpr hsign' with rfl | ⟨d', hd', rfl⟩
          · exact hbehind c w hrest
          · rw [hno d' _ hrest] at hd'
            cases hd'
  · rintro ⟨rfl, h⟩
    refine ⟨?_, List.drop_left⟩
    cases h with
    | none h =>
      rw [List.nil_append]
      unfold exponentPart
      split
      · rfl
      · rename_i e v
        refine if_neg ?_
        rintro ⟨he, hne⟩
        obtain ⟨u, hv, hsign⟩ := exists_optional (fun c => decide (c = 45 ∨ c = 43)) v
        rw [sign_cases] at hsign
        generalize optional (fun c => decide (c = 45 ∨ c = 43)) v = sign at hv hsign hne
        subst hv
        rw [List.drop_left] at hne
        cases u with
        | nil => exact hne rfl
        | cons c w =>
          have hc := h (e :: sign) c w rfl ⟨e, sign, rfl, he, hsign⟩
          exact hne (takeWhile_of_not hc)
    | @digits mark ds t hmark hds =>
      obtain ⟨e, sign, rfl, he, hsign⟩ := hmark
      have hopt : optional (fun c => decide (c = 45 ∨ c = 43)) (sign ++ (ds ++ t)) = sign := by
        refine optional_append (sign_cases.mpr hsign) fun _ c v hcv => ?_
        obtain ⟨d, ds, rfl⟩ := List.exists_cons_of_ne_nil hds.ne_nil
        obtain ⟨rfl, -⟩ := List.cons.inj hcv
        have hdigit := hds.digits d List.mem_cons_self
        refine decide_eq_false ?_
        rintro (rfl | rfl) <;> exact absurd hdigit (by decide)
      rw [List.append_assoc, List.cons_append, exponentPart, hopt, List.drop_left, hds.append_eq,
        if_pos ⟨he, hds.ne_nil⟩]
      rfl

variable {Num : Type} {lua : LuaNumbers Num} {o : DecodeOptions} {value : Value Num}

theorem triggered_iff {length : Option Nat} {part exponent : Text} :
    triggered length part exponent = true ↔ Long length part exponent := by
  rw [triggered, Option.any_eq_true, Long]
  simp [List.length_pos_iff]

theorem numberValue_eq_some {integer decimal exponent : Text} :
    numberValue lua o integer decimal exponent = some value ↔
      NumberMeans lua o integer decimal exponent value := by
  have hobject : (o.decodeNumbersAsObjects = true ∧
      (o.decodeIntegerObjectificationLength = none ∧ o.decodeDecimalObjectificationLength = none ∨
        triggered o.decodeIntegerObjectificationLength integer exponent = true ∨
        triggered o.decodeDecimalObjectificationLength decimal exponent = true)) ↔
      AsObject o integer decimal exponent := by
    rw [triggered_iff, triggered_iff]
    exact Iff.rfl
  have hstring : (¬ o.decodeNumbersAsObjects = true ∧
      (triggered o.decodeIntegerStringificationLength integer exponent = true ∨
        triggered o.decodeDecimalStringificationLength decimal exponent = true)) ↔
      AsString o integer decimal exponent := by
    rw [triggered_iff, triggered_iff, Bool.not_eq_true]
    exact Iff.rfl
  rw [numberValue, List.append_assoc]
  constructor
  · intro h
    split_ifs at h with hobj hstr
    · obtain rfl := Option.some.inj h
      exact .object (hobject.mp hobj)
    · obtain rfl := Option.some.inj h
      exact .string (hstring.mp hstr)
    · obtain ⟨x, hx, rfl⟩ := Option.map_eq_some_iff.mp h
      exact .number (fun h => hobj (hobject.mpr h)) (fun h => hstr (hstring.mpr h)) hx
  · intro h
    cases h with
    | object hobj => exact if_pos (hobject.mpr hobj)
    | string hstr =>
      have hobj : ¬ AsObject o integer decimal exponent := fun hobj =>
        absurd (hobj.1.symm.trans hstr.1) (by decide)
      rw [if_neg fun h => hobj (hobject.mp h), if_pos (hstring.mpr hstr)]
    | number hobj hstr hx =>
      rw [if_neg fun h => hobj (hobject.mp h), if_neg fun h => hstr (hstring.mp h), hx,
        Option.map_some]

theorem grokNumber_eq_ok : grokNumber lua o s = .ok (value, t) ↔
    ∃ integer decimal exponent, s = integer ++ (decimal ++ (exponent ++ t)) ∧
      IsNumber integer decimal exponent t ∧ NumberMeans lua o integer decimal exponent value := by
  constructor
  · intro h
    unfold grokNumber at h
    split at h
    · exact absurd h onDecodeError_ne_ok
    rename_i integer hinteger
    dsimp only at h
    split at h
    · exact absurd h onDecodeError_ne_ok
    rename_i hvalue
    obtain ⟨rfl, rfl⟩ := Prod.mk.inj (Except.ok.inj h)
    obtain ⟨hs, hint⟩ := integerPart_eq_some.mp ⟨hinteger, rfl⟩
    obtain ⟨hs', hdec⟩ := decimalPart_eq.mp ⟨rfl, rfl⟩
    obtain ⟨hs'', hexp⟩ := exponentPart_eq.mp ⟨rfl, rfl⟩
    refine ⟨integer, _, _, ?_, ⟨?_, ?_, hexp⟩, numberValue_eq_some.mp hvalue⟩
    · rw [← hs'', ← hs', ← hs]
    · rw [← hs'', ← hs']
      exact hint
    · rw [← hs'']
      exact hdec
  · rintro ⟨integer, decimal, exponent, rfl, hnumber, hvalue⟩
    obtain ⟨hint, -⟩ := integerPart_eq_some.mpr ⟨rfl, hnumber.integer⟩
    obtain ⟨hdec, -⟩ := decimalPart_eq.mpr ⟨rfl, hnumber.decimal⟩
    obtain ⟨hexp, -⟩ := exponentPart_eq.mpr ⟨rfl, hnumber.exponent⟩
    rw [grokNumber, hint]
    dsimp only
    rw [List.drop_left, hdec, List.drop_left, hexp, numberValue_eq_some.mpr hvalue, List.drop_left]

end

end PerfTools.Json
