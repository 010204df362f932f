import PerfTools.Json.Decode

/-!
# Characters

The byte sequences that pass for a character, which are told by their first byte and its length, and
the encoding of a code point.
-/

namespace PerfTools.Json

open Printf Numbers

/-! ## Byte sequences -/

def Continues (c : UInt8) : Prop := 0x80 ≤ c.toNat ∧ c.toNat ≤ 0xBF

instance (c : UInt8) : Decidable (Continues c) := instDecidableAnd

/-- One character: the first byte tells how many continue it. -/
inductive IsCharacter : Text → Prop
  | one {c : UInt8} (h : c.toNat < 0x80) : IsCharacter [c]
  | two {c d : UInt8} (h : 0xC2 ≤ c.toNat ∧ c.toNat ≤ 0xDF) (hd : Continues d) : IsCharacter [c, d]
  | three {c d e : UInt8} (h : 0xE0 ≤ c.toNat ∧ c.toNat ≤ 0xEF) (hd : Continues d)
      (he : Continues e) : IsCharacter [c, d, e]
  | four {c d e f : UInt8} (h : 0xF0 ≤ c.toNat ∧ c.toNat ≤ 0xF4) (hd : Continues d)
      (he : Continues e) (hf : Continues f) : IsCharacter [c, d, e, f]

theorem IsCharacter.ne_nil {ch : Text} (h : IsCharacter ch) : ch ≠ [] := by
  cases h <;> simp

theorem bytecount_cases (c : UInt8) :
    c.toNat < 0x80 ∧ unicodeCharacterBytecountBasedOnFirstByte c = 1 ∨
    (0xC2 ≤ c.toNat ∧ c.toNat ≤ 0xDF) ∧ unicodeCharacterBytecountBasedOnFirstByte c = 2 ∨
    (0xE0 ≤ c.toNat ∧ c.toNat ≤ 0xEF) ∧ unicodeCharacterBytecountBasedOnFirstByte c = 3 ∨
    (0xF0 ≤ c.toNat ∧ c.toNat ≤ 0xF4) ∧ unicodeCharacterBytecountBasedOnFirstByte c = 4 ∨
    (0x80 ≤ c.toNat ∧ c.toNat ≤ 0xC1 ∨ 0xF5 ≤ c.toNat) ∧
      unicodeCharacterBytecountBasedOnFirstByte c = 0 := by
  have hc := c.toNat_lt
  unfold unicodeCharacterBytecountBasedOnFirstByte topThreeBits topFourBits
  dsimp only
  split_ifs <;> omega

@[simp] theorem continues_iff {c : UInt8} : continues c = true ↔ Continues c := by
  simp [continues, Continues]

theorem isCharacter_iff {c : UInt8} {t : Text} :
    IsCharacter (c :: t) ↔
      unicodeCharacterBytecountBasedOnFirstByte c = t.length + 1 ∧ ∀ d ∈ t, Continues d := by
  have hcases := bytecount_cases c
  constructor
  · intro h
    cases h with
    | one h => exact ⟨by simp only [List.length_nil]; omega, by simp⟩
    | two h hd => exact ⟨by simp only [List.length_cons, List.length_nil]; omega, by simp [hd]⟩
    | three h hd he =>
      exact ⟨by simp only [List.length_cons, List.length_nil]; omega, by simp [hd, he]⟩
    | four h hd he hf =>
      exact ⟨by simp only [List.length_cons, List.length_nil]; omega, by simp [hd, he, hf]⟩
  · rintro ⟨hcount, ht⟩
    rcases hcases with ⟨hc, h⟩ | ⟨hc, h⟩ | ⟨hc, h⟩ | ⟨hc, h⟩ | ⟨-, h⟩
    · obtain rfl := List.length_eq_zero_iff.mp (show t.length = 0 by omega)
      exact .one hc
    · obtain ⟨d, rfl⟩ := List.length_eq_one_iff.mp (show t.length = 1 by omega)
      exact .two hc (ht d (by simp))
    · obtain ⟨d, e, rfl⟩ := List.length_eq_two.mp (show t.length = 2 by omega)
      exact .three hc (ht d (by simp)) (ht e (by simp))
    · obtain ⟨d, e, f, rfl⟩ := List.length_eq_three.mp (show t.length = 3 by omega)
      exact .four hc (ht d (by simp)) (ht e (by simp)) (ht f (by simp))
    · omega

theorem IsCharacter.bytecount {c : UInt8} {t : Text} (h : IsCharacter (c :: t)) :
    unicodeCharacterBytecountBasedOnFirstByte c = (c :: t).length := (isCharacter_iff.mp h).1

theorem nextCharacter_eq_some {c : UInt8} {s t ch : Text}
    (hcount : unicodeCharacterBytecountBasedOnFirstByte c ≠ 0) :
    nextCharacter (c :: t) (unicodeCharacterBytecountBasedOnFirstByte c) = some ch ∧
        (c :: t).drop (unicodeCharacterBytecountBasedOnFirstByte c) = s ↔
      IsCharacter ch ∧ c :: t = ch ++ s := by
  obtain ⟨n, hn⟩ := Nat.exists_eq_succ_of_ne_zero hcount
  rw [hn, nextCharacter, List.take_succ_cons, List.length_cons, List.drop_succ_cons,
    List.drop_succ_cons, List.drop_zero]
  constructor
  · rintro ⟨h, rfl⟩
    split_ifs at h with hall
    obtain rfl := Option.some.inj h
    refine ⟨isCharacter_iff.mpr ⟨?_, fun d hd =>
      continues_iff.mp (List.all_eq_true.mp hall.2 d hd)⟩, ?_⟩
    · omega
    · rw [List.cons_append, List.take_append_drop]
  · rintro ⟨hch, hs⟩
    cases ch with
    | nil => exact absurd rfl hch.ne_nil
    | cons d ds =>
      rw [List.cons_append] at hs
      obtain ⟨rfl, rfl⟩ := List.cons.inj hs
      obtain ⟨hlen, hds⟩ := isCharacter_iff.mp hch
      have hn' : n = ds.length := by omega
      subst hn'
      rw [List.take_left, List.drop_left,
        if_pos ⟨rfl, List.all_eq_true.mpr fun d hd => continues_iff.mpr (hds d hd)⟩]
      exact ⟨rfl, rfl⟩

theorem IsCharacter.high {c : UInt8} {t : Text} (h : IsCharacter (c :: t)) (ht : t ≠ []) {d : UInt8}
    (hd : d ∈ c :: t) : 0x80 ≤ d.toNat := by
  cases h with
  | one h => exact absurd rfl ht
  | two h hd' =>
    simp only [List.mem_cons, List.not_mem_nil, or_false] at hd
    rcases hd with rfl | rfl
    · exact le_trans (by decide) h.1
    · exact hd'.1
  | three h hd' he =>
    simp only [List.mem_cons, List.not_mem_nil, or_false] at hd
    rcases hd with rfl | rfl | rfl
    · exact le_trans (by decide) h.1
    · exact hd'.1
    · exact he.1
  | four h hd' he hf =>
    simp only [List.mem_cons, List.not_mem_nil, or_false] at hd
    rcases hd with rfl | rfl | rfl | rfl
    · exact le_trans (by decide) h.1
    · exact hd'.1
    · exact he.1
    · exact hf.1

/-! ## Encoding -/

/-- The UTF-8 of a code point; surrogates have none. -/
def codepointUtf8 (v : Nat) : Text :=
  if v.isValidChar then String.utf8EncodeChar (Char.ofNat v) else ascii "?"

theorem utf8_of_scalar {n : Nat} (hn : n < 0xD800 ∨ 0xDFFF < n ∧ n < 0x110000) :
    unicodeCodepointAsUtf8 n =
      if n ≤ 0x7f then [UInt8.ofNat n]
      else if n ≤ 0x7ff then [UInt8.ofNat (n / 64 % 0x20 + 0xc0), UInt8.ofNat (n % 0x40 + 0x80)]
      else if n ≤ 0xffff then
        [UInt8.ofNat (n / 4096 % 0x10 + 0xe0), UInt8.ofNat (n / 64 % 0x40 + 0x80),
          UInt8.ofNat (n % 0x40 + 0x80)]
      else
        [UInt8.ofNat (n / 262144 % 0x08 + 0xf0), UInt8.ofNat (n / 4096 % 0x40 + 0x80),
          UInt8.ofNat (n / 64 % 0x40 + 0x80), UInt8.ofNat (n % 0x40 + 0x80)] := by
  unfold unicodeCodepointAsUtf8
  dsimp only
  split_ifs with h1 h2 h3 h4
  · rfl
  · have ha : 0xC0 + n / 0x40 = n / 64 % 0x20 + 0xc0 := by omega
    have hb : 0x80 + (n - 0x40 * (n / 0x40)) = n % 0x40 + 0x80 := by omega
    rw [ha, hb]
    rfl
  · omega
  · have ha : 0xE0 + n / 0x1000 = n / 4096 % 0x10 + 0xe0 := by omega
    have hb : 0x80 + (n - 0x1000 * (n / 0x1000)) / 0x40 = n / 64 % 0x40 + 0x80 := by omega
    have hc : 0x80 + (n - 0x1000 * (n / 0x1000) -
        0x40 * ((n - 0x1000 * (n / 0x1000)) / 0x40)) = n % 0x40 + 0x80 := by omega
    rw [ha, hb, hc]
    rfl
  · generalize hr : n - 0x40000 * (n / 0x40000) = r
    generalize hs : r - 0x1000 * (r / 0x1000) = s
    have ha : 0xF0 + n / 0x40000 = n / 262144 % 0x08 + 0xf0 := by omega
    have hb : 0x80 + r / 0x1000 = n / 4096 % 0x40 + 0x80 := by omega
    have hc : 0x80 + s / 0x40 = n / 64 % 0x40 + 0x80 := by omega
    have hd : 0x80 + (s - 0x40 * (s / 0x40)) = n % 0x40 + 0x80 := by omega
    rw [ha, hb, hc, hd]
    rfl

theorem unicodeCodepointAsUtf8_char (c : Char) :
    unicodeCodepointAsUtf8 c.toNat = String.utf8EncodeChar c := utf8_of_scalar c.valid

theorem unicodeCodepointAsUtf8_surrogate {n : Nat} (hn : 0xD800 ≤ n ∧ n ≤ 0xDFFF) :
    unicodeCodepointAsUtf8 n = ascii "?" := by
  obtain ⟨hge, hle⟩ := hn
  unfold unicodeCodepointAsUtf8
  dsimp only
  rw [if_neg (by omega), if_neg (by omega), if_pos (by omega), if_pos (by omega)]

theorem codepointUtf8_char (c : Char) : codepointUtf8 c.toNat = String.utf8EncodeChar c := by
  rw [codepointUtf8, if_pos (show c.toNat.isValidChar from c.valid), Char.ofNat_toNat]

/-- What the code computes for a code point is its encoding. -/
theorem unicodeCodepointAsUtf8_eq {n : Nat} (hn : n < 0x110000) :
    unicodeCodepointAsUtf8 n = codepointUtf8 n := by
  by_cases hvalid : n.isValidChar
  · have hchar : (Char.ofNat n).toNat = n := by
      rw [Char.ofNat, dif_pos hvalid]
      rfl
    rw [← hchar, unicodeCodepointAsUtf8_char, codepointUtf8_char]
  · rw [codepointUtf8, if_neg hvalid]
    unfold Nat.isValidChar at hvalid
    exact unicodeCodepointAsUtf8_surrogate (by omega)

theorem toNat_ofNat {n : Nat} (hn : n < 256) : (UInt8.ofNat n).toNat = n :=
  UInt8.toNat_ofNat_of_lt' hn

theorem continues_ofNat (m : Nat) : Continues (UInt8.ofNat (m % 0x40 + 0x80)) := by
  have hlt : m % 0x40 + 0x80 < 256 := by omega
  rw [Continues, toNat_ofNat hlt]
  omega

/-- An encoding is one character for the scanner. -/
theorem isCharacter_utf8 (c : Char) : IsCharacter (String.utf8EncodeChar c) := by
  have hvalid : c.toNat < 0xD800 ∨ 0xDFFF < c.toNat ∧ c.toNat < 0x110000 := c.valid
  rw [← unicodeCodepointAsUtf8_char, utf8_of_scalar hvalid]
  generalize c.toNat = n at hvalid
  split_ifs with h1 h2 h3
  · exact .one (by rw [toNat_ofNat (by omega)]; omega)
  · exact .two (by rw [toNat_ofNat (by omega)]; omega) (continues_ofNat n)
  · exact .three (by rw [toNat_ofNat (by omega)]; omega) (continues_ofNat _) (continues_ofNat n)
  · exact .four (by rw [toNat_ofNat (by omega)]; omega) (continues_ofNat _) (continues_ofNat _)
      (continues_ofNat n)

theorem utf8EncodeChar_ascii {c : Char} (hc : c.toNat < 0x80) :
    String.utf8EncodeChar c = [UInt8.ofNat c.toNat] := by
  unfold String.utf8EncodeChar
  exact if_pos (show c.toNat ≤ 0x7f by omega)

theorem utf8EncodeChar_high {c : Char} (hc : 0x80 ≤ c.toNat) :
    ∃ b t, String.utf8EncodeChar c = b :: t ∧ t ≠ [] := by
  have hutf8 := utf8_of_scalar c.valid
  rw [← unicodeCodepointAsUtf8_char, Char.toNat, hutf8]
  change 0x80 ≤ c.val.toNat at hc
  rw [if_neg (by omega)]
  split_ifs
  · exact ⟨_, _, rfl, List.cons_ne_nil _ _⟩
  · exact ⟨_, _, rfl, List.cons_ne_nil _ _⟩
  · exact ⟨_, _, rfl, List.cons_ne_nil _ _⟩

end PerfTools.Json
