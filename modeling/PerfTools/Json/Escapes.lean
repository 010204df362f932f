import PerfTools.Json.Tokens

/-!
# Unicode in strings

A string in which every character is escaped in some way is read as the UTF-8 encoding of these
characters.
-/

namespace PerfTools.Json

open Printf Numbers

/-- The ways in which a string can have a character: as it is, with one of the short escapes, or by
its number, which may take two escapes. -/
inductive Writes : Char → Text → Prop
  | plain {c : Char} (hcontrol : 0x20 ≤ c.toNat) (hquote : c ≠ '"') (hbackslash : c ≠ '\\') :
      Writes c (String.utf8EncodeChar c)
  | short {c : Char} {e d : UInt8} (h : (e, d) ∈ shortEscapes) (hc : c.toNat = d.toNat) :
      Writes c [backslash, e]
  | number {c : Char} {ds : Text} (hds : IsHex4 ds c.toNat) : Writes c (backslash :: 117 :: ds)
  | numbers {c : Char} {ds ds' : Text} {v w : Nat} (hds : IsHex4 ds v) (hds' : IsHex4 ds' w)
      (hv : HighSurrogate v) (hw : LowSurrogate w)
      (hc : c.toNat = 0x10000 + (v - 0xD800) * 0x400 + (w - 0xDC00)) :
      Writes c (backslash :: 117 :: (ds ++ backslash :: 117 :: ds'))

theorem shortEscapes_ascii : ∀ p ∈ shortEscapes, p.2.toNat < 0x80 := by simp [shortEscapes]

theorem Writes.piece {c : Char} {w : Text} (h : Writes c w) (strict : Bool) (t : Text) :
    Piece strict (w ++ t) (String.utf8EncodeChar c) t := by
  have hnumber (n : Nat) (hn : HighSurrogate n) (hc : c.toNat = n) : False := by
    have hvalid : c.toNat < 0xD800 ∨ 0xDFFF < c.toNat ∧ c.toNat < 0x110000 := c.valid
    unfold HighSurrogate at hn
    omega
  cases h with
  | plain hcontrol hquote hbackslash =>
    have hch := isCharacter_utf8 c
    by_cases hlt : c.toNat < 0x80
    · rw [utf8EncodeChar_ascii hlt] at hch ⊢
      have hbyte {b : UInt8} (hb : [UInt8.ofNat c.toNat] = [b]) : c.toNat = b.toNat := by
        rw [← (List.cons.inj hb).1, toNat_ofNat (by omega)]
      refine .character hch (fun h => hquote (Char.toNat_inj.mp (hbyte h)))
        (fun h => hbackslash (Char.toNat_inj.mp (hbyte h))) fun _ b hb => ?_
      rw [List.mem_singleton.mp hb, toNat_ofNat (by omega)]
      exact hcontrol
    · obtain ⟨b, u, hbu, hu⟩ := utf8EncodeChar_high (Nat.le_of_not_lt hlt)
      rw [hbu] at hch ⊢
      refine .character hch (fun h => hu (List.cons.inj h).2) (fun h => hu (List.cons.inj h).2)
        fun _ d hd => le_trans (by decide) (hch.high hu hd)
  | short h hc =>
    rw [utf8EncodeChar_ascii (hc ▸ shortEscapes_ascii _ h), hc, UInt8.ofNat_toNat]
    exact .escape h
  | number hds =>
    rw [← codepointUtf8_char]
    exact .codepoint hds fun hhigh => (hnumber _ hhigh rfl).elim
  | @numbers ds ds' v w hds hds' hv hw hc =>
    rw [← codepointUtf8_char, hc]
    have happ : backslash :: 117 :: (ds ++ backslash :: 117 :: ds') ++ t =
      backslash :: 117 :: (ds ++ backslash :: 117 :: (ds' ++ t)) := by simp
    rw [happ]
    exact .pair hds hv ⟨ds', rfl, hds', hw⟩

/-- A string in which every character is written in one of these ways is read as their UTF-8
encoding. -/
theorem grokString_writes {cs : List Char} {ws : List Text} (h : List.Forall₂ Writes cs ws)
    (o : DecodeOptions) (t : Text) :
    grokString o (quote :: (ws.flatten ++ quote :: t)) =
      .ok (cs.flatMap String.utf8EncodeChar, t) := by
  refine grokString_eq_ok.mpr ⟨_, rfl, ?_⟩
  induction h with
  | nil => exact .done t
  | cons hc _ ih =>
    rw [List.flatten_cons, List.append_assoc, List.flatMap_cons]
    exact .more (hc.piece _ _) ih

/-- a, é and a smile, with one escape and with two. -/
theorem grokString_writes_smile :
    grokString DecodeOptions.default (ascii "\"a\\u00e9\\uD83D\\ude00\"") =
      .ok (['a', 'é', '😀'].flatMap String.utf8EncodeChar, []) := by
  have hhex {ds : Text} {v : Nat} (hlen : ds.length = 4) (hall : ds.all (isDigit 16) = true)
      (hv : v = readDigits 16 0 ds) : IsHex4 ds v := ⟨hlen, List.all_eq_true.mp hall, hv⟩
  have hplain : Writes 'a' [97] := .plain (by decide) (by decide) (by decide)
  have hnumber : Writes 'é' (ascii "\\u00e9") := .number (hhex rfl (by decide) (by decide))
  have hnumbers : Writes '😀' (ascii "\\uD83D\\ude00") :=
    .numbers (show IsHex4 (ascii "D83D") 0xD83D from hhex rfl (by decide) (by decide))
      (show IsHex4 (ascii "de00") 0xDE00 from hhex rfl (by decide) (by decide)) (by decide)
      ⟨by decide, by decide⟩ (by decide)
  exact grokString_writes (.cons hplain (.cons hnumber (.cons hnumbers .nil)))
    DecodeOptions.default []

end PerfTools.Json
