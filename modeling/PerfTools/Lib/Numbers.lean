import PerfTools.Lib.Hex
import PerfTools.Lib.Memory

/-!
# Numbers in texts

The number at the front of a text, as the C library's strtoul family reads it with base 0: a
leading 0x announces base 16 when a digit follows, another leading 0 announces base 8, and the
digits end at the first byte that is none. The value is exact; what a reader does with one that
its type cannot hold is the reader's own. atoi reads decimal numbers only.
-/

namespace PerfTools.Numbers

open Memory

/-- The value of a letter or decimal digit as a digit of any base up to 36. -/
def digitValue (c : UInt8) : Option Nat :=
  if 48 ≤ c.toNat ∧ c.toNat ≤ 57 then some (c.toNat - 48)
  else if 97 ≤ c.toNat ∧ c.toNat ≤ 122 then some (c.toNat - 87)
  else if 65 ≤ c.toNat ∧ c.toNat ≤ 90 then some (c.toNat - 55)
  else none

def isDigit (base : Nat) (c : UInt8) : Bool := (digitValue c).any (· < base)

/-- Continue with the digits of a text after the number acc. -/
def readDigits (base : Nat) : Nat → List UInt8 → Nat
  | acc, [] => acc
  | acc, c :: cs =>
    match digitValue c with
    | some d => if d < base then readDigits base (base * acc + d) cs else acc
    | none => acc

/-- The base that the first bytes announce. -/
def numberBase (t : List UInt8) : Nat :=
  if t[0]? = some 48 then
    if (t[1]? = some 120 ∨ t[1]? = some 88) ∧ t[2]?.any (isDigit 16) = true then 16 else 8
  else 10

/-- The bytes behind the announcement of the base. -/
def digitsPart (t : List UInt8) : List UInt8 := if numberBase t = 16 then t.drop 2 else t

/-- The number at the front of a text. -/
def number (t : List UInt8) : Nat := readDigits (numberBase t) 0 (digitsPart t)

/-- The number ends inside the text: a byte that is no digit follows it, and no digit behind the
text could turn a last 0x into the announcement of base 16. -/
def Terminated (t : List UInt8) : Prop :=
  ¬ (t.length = 2 ∧ t[0]? = some 48 ∧ (t[1]? = some 120 ∨ t[1]? = some 88)) ∧
    ∃ c ∈ digitsPart t, isDigit (numberBase t) c = false

instance (t : List UInt8) : Decidable (Terminated t) := instDecidableAnd

/-- isspace -/
def isSpace (c : UInt8) : Bool := c = 32 ∨ 9 ≤ c.toNat ∧ c.toNat ≤ 13

/-- strtoul with base 0 for a 64-bit unsigned long: blanks, a sign, and the number; a value out
of range is the largest one, a negative one is taken modulo 2^64. -/
def strtoul (t : List UInt8) : Nat :=
  let t := t.dropWhile isSpace
  let minus := t[0]? = some 45
  let n := number (if minus ∨ t[0]? = some 43 then t.drop 1 else t)
  if 2 ^ 64 ≤ n then 2 ^ 64 - 1 else if minus then (2 ^ 64 - n) % 2 ^ 64 else n

/-- The decimal number at the front of a text: blanks, a sign, and the digits. -/
def decimal (t : List UInt8) : Int :=
  let t := t.dropWhile isSpace
  let minus := t[0]? = some 45
  let n := readDigits 10 0 (if minus ∨ t[0]? = some 43 then t.drop 1 else t)
  if minus then -(n : Int) else n

/-- atoi, which is undefined when an int cannot hold the number. -/
def atoi (t : List UInt8) : Except Fault Int := checked (decimal t)

/-! ## Writing a number -/

/-- A number in base 16, with the sixteen digits of a 64-bit word. -/
def hexText (n : Nat) : List UInt8 := 48 :: 120 :: Hex.fixed 16 n

private theorem digitValue_of_hex {c : UInt8} {d : Nat} (h : Hex.digitValue c = some d) :
    digitValue c = some d ∧ d < 16 := by
  unfold Hex.digitValue at h
  unfold digitValue
  split_ifs at h with hdec hlow
  · obtain rfl := Option.some.inj h
    exact ⟨if_pos hdec, by omega⟩
  · obtain rfl := Option.some.inj h
    rw [if_neg hdec, if_pos ⟨hlow.1, by omega⟩]
    exact ⟨rfl, by omega⟩

private theorem readDigits_hex {bs : List UInt8} {acc n : Nat} (h : Hex.valueFrom acc bs = some n) :
    readDigits 16 acc bs = n := by
  induction bs generalizing acc with
  | nil => exact Option.some.inj h
  | cons c bs ih =>
    cases hc : Hex.digitValue c with
    | none => simp [Hex.valueFrom, hc] at h
    | some d =>
      obtain ⟨hd, hlt⟩ := digitValue_of_hex hc
      rw [Hex.valueFrom, hc, Option.bind_some] at h
      simp only [readDigits, hd, if_pos hlt]
      exact ih h

theorem readDigits_fixed {w n : Nat} (hn : n < 16 ^ w) : readDigits 16 0 (Hex.fixed w n) = n :=
  readDigits_hex (Hex.value_fixed hn)

theorem isDigit_of_mem_fixed {w n : Nat} {c : UInt8} (hc : c ∈ Hex.fixed w n) :
    isDigit 16 c = true := by
  induction w generalizing n with
  | zero => exact absurd hc List.not_mem_nil
  | succ w ih =>
    rw [Hex.fixed, List.mem_append, List.mem_singleton] at hc
    rcases hc with hc | rfl
    · exact ih hc
    · obtain ⟨hd, hlt⟩ := digitValue_of_hex (Hex.digitValue_digit (Nat.mod_lt n (by decide)))
      simp [isDigit, hd, hlt]

theorem number_hexText {n : Nat} (hn : n < 2 ^ 64) : number (hexText n) = n := by
  have hvalue : Hex.value (Hex.fixed 16 n) = some n := Hex.value_fixed (by simpa using hn)
  obtain ⟨c, cs, hfixed⟩ : ∃ c cs, Hex.fixed 16 n = c :: cs := by
    apply List.exists_cons_of_ne_nil
    intro hnil
    have hlen := Hex.fixed_length 16 n
    rw [hnil] at hlen
    cases hlen
  have hbase : numberBase (hexText n) = 16 := by
    have hdigit : isDigit 16 c = true := by
      cases hc : Hex.digitValue c with
      | none => simp [Hex.value, hfixed, Hex.valueFrom, hc] at hvalue
      | some d =>
        obtain ⟨hd, hlt⟩ := digitValue_of_hex hc
        simp [isDigit, hd, hlt]
    simp [numberBase, hexText, hfixed, hdigit]
  rw [number, digitsPart, hbase, if_pos rfl]
  exact readDigits_hex hvalue

theorem strtoul_hexText {n : Nat} (hn : n < 2 ^ 64) : strtoul (hexText n) = n := by
  have hdrop : (hexText n).dropWhile isSpace = hexText n := rfl
  have hhead : (hexText n)[0]? = some 48 := rfl
  have hminus : ¬ (some (48 : UInt8) = some 45) := by decide
  have hplus : ¬ (some (48 : UInt8) = some 43) := by decide
  simp only [strtoul, hdrop, hhead, hminus, hplus, or_self, if_false, number_hexText hn]
  rw [if_neg (by omega)]

theorem hexText_nulFree (n : Nat) : 0 ∉ hexText n := by
  simp only [hexText, List.mem_cons, not_or]
  refine ⟨by decide, by decide, fun h => ?_⟩
  have hdigit := Hex.toNat_of_mem_fixed h
  exact absurd hdigit.1 (by decide)

/-- A number in base 10. -/
def decText (n : Nat) : List UInt8 := (Nat.toDigits 10 n).map fun c => UInt8.ofNat c.toNat

private theorem digitChar_value {d : Nat} (hd : d < 10) :
    48 ≤ (UInt8.ofNat d.digitChar.toNat).toNat ∧ (UInt8.ofNat d.digitChar.toNat).toNat ≤ 57 ∧
      digitValue (UInt8.ofNat d.digitChar.toNat) = some d := by
  interval_cases d <;> decide

private theorem readDigits_snoc {base acc d : Nat} {t : List UInt8} {c : UInt8}
    (ht : ∀ c ∈ t, isDigit base c = true) (hc : digitValue c = some d) (hd : d < base) :
    readDigits base acc (t ++ [c]) = base * readDigits base acc t + d := by
  induction t generalizing acc with
  | nil => simp [readDigits, hc, hd]
  | cons e t ih =>
    have hrest : ∀ c ∈ t, isDigit base c = true := fun c hc => ht c (List.mem_cons_of_mem e hc)
    have he := ht e List.mem_cons_self
    cases hv : digitValue e with
    | none => simp [isDigit, hv] at he
    | some v =>
      have hlt : v < base := by simpa [isDigit, hv] using he
      simp only [List.cons_append, readDigits, hv, hlt, if_true]
      exact ih hrest

private theorem decText_spec (n : Nat) :
    (∀ c ∈ decText n, 48 ≤ c.toNat ∧ c.toNat ≤ 57 ∧ isDigit 10 c = true) ∧
      readDigits 10 0 (decText n) = n := by
  induction n using Nat.strongRecOn with
  | ind n ih =>
    by_cases hn : n < 10
    · obtain ⟨hlow, hhigh, hvalue⟩ := digitChar_value hn
      rw [decText, Nat.toDigits_of_lt_base hn, List.map_singleton]
      constructor
      · intro c hc
        rw [List.mem_singleton.mp hc]
        exact ⟨hlow, hhigh, by simp [isDigit, hvalue, hn]⟩
      · simp [readDigits, hvalue, hn]
    · obtain ⟨hdigits, hread⟩ := ih (n / 10) (by omega)
      have hmod : n % 10 < 10 := Nat.mod_lt n (by decide)
      obtain ⟨hlow, hhigh, hvalue⟩ := digitChar_value hmod
      have hsplit : decText n = decText (n / 10) ++ [UInt8.ofNat (n % 10).digitChar.toNat] := by
        rw [decText, Nat.toDigits_of_base_le (by decide) (by omega), List.map_append]
        rfl
      rw [hsplit]
      constructor
      · intro c hc
        rcases List.mem_append.mp hc with hc | hc
        · exact hdigits c hc
        · rw [List.mem_singleton.mp hc]
          exact ⟨hlow, hhigh, by simp [isDigit, hvalue, hmod]⟩
      · rw [readDigits_snoc (fun c hc => (hdigits c hc).2.2) hvalue hmod, hread]
        omega

theorem decimal_decText (n : Nat) : decimal (decText n) = n := by
  obtain ⟨hdigits, hread⟩ := decText_spec n
  cases ht : decText n with
  | nil => exact absurd (List.map_eq_nil_iff.mp ht) Nat.toDigits_ne_nil
  | cons c t =>
    have hc := hdigits c (by simp [ht])
    have hspace : isSpace c = false := by
      have h32 : c ≠ 32 := fun h => absurd hc.1 (by simp [h])
      simp [isSpace, h32]
      omega
    have hminus : c ≠ 45 := fun h => absurd hc.1 (by simp [h])
    have hplus : c ≠ 43 := fun h => absurd hc.1 (by simp [h])
    rw [ht] at hread
    simp [decimal, hspace, hminus, hplus, hread]

theorem decText_nulFree (n : Nat) : 0 ∉ decText n := by
  intro h
  exact absurd ((decText_spec n).1 0 h).1 (by decide)

/-- An argument that stands for a number. -/
def decArg (n : Nat) : CString := ⟨decText n, decText_nulFree n⟩

/-! ## Where a number ends -/

theorem readDigits_append {base acc : Nat} {t : List UInt8} (rest : List UInt8)
    (h : ∃ c ∈ t, isDigit base c = false) :
    readDigits base acc (t ++ rest) = readDigits base acc t := by
  induction t generalizing acc with
  | nil =>
    obtain ⟨c, hc, -⟩ := h
    cases hc
  | cons c t ih =>
    rw [List.cons_append, readDigits, readDigits]
    cases hd : digitValue c with
    | none => rfl
    | some d =>
      dsimp only
      split_ifs with hlt
      · apply ih
        obtain ⟨e, he, hno⟩ := h
        rcases List.mem_cons.mp he with rfl | he
        · simp [isDigit, hd, hlt] at hno
        · exact ⟨e, he, hno⟩
      · rfl

theorem numberBase_append {t : List UInt8} (h : Terminated t) (rest : List UInt8) :
    numberBase (t ++ rest) = numberBase t := by
  obtain ⟨hwhole, c, hc, hno⟩ := h
  rcases t with _ | ⟨x, _ | ⟨y, _ | ⟨z, t⟩⟩⟩
  · cases hc
  · by_cases hx : x = 48
    · subst hx
      obtain rfl : c = 48 := List.mem_singleton.mp hc
      exact absurd hno (by decide)
    · simp [numberBase, hx]
  · by_cases hx : x = 48
    · have hy : ¬ (y = 120 ∨ y = 88) := fun hy => hwhole (by simp [hx, hy])
      simp [numberBase, hx, hy]
    · simp [numberBase, hx]
  · rfl

theorem length_of_numberBase {t : List UInt8} (h : numberBase t = 16) : 3 ≤ t.length := by
  rcases t with _ | ⟨x, _ | ⟨y, _ | ⟨z, t⟩⟩⟩
  · simp [numberBase] at h
  · simp [numberBase] at h
    split_ifs at h <;> omega
  · simp [numberBase] at h
    split_ifs at h <;> omega
  · simp

theorem digitsPart_append {t : List UInt8} {rest : List UInt8}
    (h : numberBase (t ++ rest) = numberBase t) : digitsPart (t ++ rest) = digitsPart t ++ rest := by
  rw [digitsPart, digitsPart, h]
  split_ifs with hbase
  · have hlen := length_of_numberBase hbase
    rw [List.drop_append_of_le_length (by omega)]
  · rfl

/-- A number that ends inside a text does not depend on what follows the text. -/
theorem Terminated.number_append {t : List UInt8} (h : Terminated t) (rest : List UInt8) :
    number (t ++ rest) = number t := by
  have hbase := numberBase_append h rest
  rw [number, hbase, digitsPart_append hbase, readDigits_append rest h.2, number]

theorem Terminated.append {t : List UInt8} (h : Terminated t) (rest : List UInt8)
    (hlen : 2 < (t ++ rest).length) : Terminated (t ++ rest) := by
  have hbase := numberBase_append h rest
  refine ⟨fun hshort => absurd hshort.1 (by omega), ?_⟩
  obtain ⟨c, hc, hno⟩ := h.2
  rw [digitsPart_append hbase, hbase]
  exact ⟨c, List.mem_append_left rest hc, hno⟩

theorem numberBase_nul (t rest : List UInt8) : numberBase (t ++ 0 :: rest) = numberBase t := by
  have hzero : isDigit 16 0 = false := rfl
  rcases t with _ | ⟨x, _ | ⟨y, _ | ⟨z, t⟩⟩⟩
  · rfl
  · by_cases hx : x = 48
    · simp [numberBase, hx]
    · simp [numberBase, hx]
  · by_cases hx : x = 48
    · simp [numberBase, hx, hzero]
    · simp [numberBase, hx]
  · rfl

theorem number_nul (t rest : List UInt8) : number (t ++ 0 :: rest) = number t := by
  have hbase := numberBase_nul t rest
  have hdigits (acc : Nat) (l : List UInt8) (base : Nat) :
      readDigits base acc (l ++ 0 :: rest) = readDigits base acc l := by
    induction l generalizing acc with
    | nil => rfl
    | cons c l ih => simp only [List.cons_append, readDigits, ih]
  rw [number, hbase, digitsPart_append hbase, hdigits, number]

theorem terminated_nul (t rest : List UInt8) (hlen : 2 < (t ++ 0 :: rest).length) :
    Terminated (t ++ 0 :: rest) := by
  refine ⟨fun hshort => absurd hshort.1 (by omega), 0, ?_, rfl⟩
  rw [digitsPart_append (numberBase_nul t rest)]
  simp

end PerfTools.Numbers
