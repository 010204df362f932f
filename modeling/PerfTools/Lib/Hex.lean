import Mathlib.Data.List.Basic
import Mathlib.Tactic.Ring
import Mathlib.Tactic.IntervalCases

/-!
# Fixed-width hexadecimal

Lower-case digits of a fixed width over ASCII bytes, a reader for digit strings and for single
bytes, and the proof that the reader inverts the writer below the width's bound.
-/

namespace PerfTools.Hex

/-- The ASCII code of one lower-case digit. -/
def digit (n : Nat) : UInt8 := if n < 10 then UInt8.ofNat (48 + n) else UInt8.ofNat (87 + n)

/-- The number an ASCII byte stands for, when it is a lower-case digit. -/
def digitValue (b : UInt8) : Option Nat :=
  if 48 ≤ b.toNat ∧ b.toNat ≤ 57 then some (b.toNat - 48)
  else if 97 ≤ b.toNat ∧ b.toNat ≤ 102 then some (b.toNat - 87)
  else none

/-- The lowest w digits of a number, leading zeros kept. -/
def fixed : Nat → Nat → List UInt8
  | 0, _ => []
  | w + 1, n => fixed w (n / 16) ++ [digit (n % 16)]

/-- Continue reading digits after the number acc. -/
def valueFrom (acc : Nat) : List UInt8 → Option Nat
  | [] => some acc
  | b :: bs => (digitValue b).bind fun d => valueFrom (16 * acc + d) bs

/-- The number a digit string stands for; none as soon as one byte is no digit. -/
def value (bs : List UInt8) : Option Nat := valueFrom 0 bs

/-- The byte that two digits stand for. -/
def byteValue (hi lo : UInt8) : Option UInt8 :=
  (digitValue hi).bind fun h => (digitValue lo).map fun l => UInt8.ofNat (16 * h + l)

theorem digitValue_digit {n : Nat} (hn : n < 16) : digitValue (digit n) = some n := by
  interval_cases n <;> rfl

theorem digit_toNat {n : Nat} (hn : n < 16) :
    48 ≤ (digit n).toNat ∧ (digit n).toNat ≤ 102 := by
  interval_cases n <;> decide

@[simp] theorem fixed_length (w n : Nat) : (fixed w n).length = w := by
  induction w generalizing n with
  | zero => rfl
  | succ w ih => simp [fixed, ih]

theorem toNat_of_mem_fixed {w n : Nat} {b : UInt8} (hb : b ∈ fixed w n) :
    48 ≤ b.toNat ∧ b.toNat ≤ 102 := by
  induction w generalizing n with
  | zero => simp [fixed] at hb
  | succ w ih =>
    rw [fixed, List.mem_append, List.mem_singleton] at hb
    rcases hb with hb | rfl
    · exact ih hb
    · exact digit_toNat (Nat.mod_lt _ (by decide))

theorem valueFrom_append (acc : Nat) (bs cs : List UInt8) :
    valueFrom acc (bs ++ cs) = (valueFrom acc bs).bind fun n => valueFrom n cs := by
  induction bs generalizing acc with
  | nil => rfl
  | cons b bs ih =>
    cases h : digitValue b with
    | none => simp [valueFrom, h]
    | some d => simp [valueFrom, h, ih]

theorem valueFrom_fixed {w n : Nat} (acc : Nat) (hn : n < 16 ^ w) :
    valueFrom acc (fixed w n) = some (16 ^ w * acc + n) := by
  induction w generalizing n with
  | zero =>
    have hn0 : n = 0 := by simpa using hn
    simp [fixed, valueFrom, hn0]
  | succ w ih =>
    have hdiv : n / 16 < 16 ^ w := by
      rw [pow_succ] at hn
      omega
    rw [fixed, valueFrom_append, ih hdiv, Option.bind_some, valueFrom,
      digitValue_digit (Nat.mod_lt _ (by decide)), Option.bind_some, valueFrom]
    have hsplit := Nat.div_add_mod n 16
    congr 1
    rw [pow_succ]
    ring_nf
    omega

theorem value_fixed {w n : Nat} (hn : n < 16 ^ w) : value (fixed w n) = some n := by
  simpa [value] using valueFrom_fixed 0 hn

theorem fixed_two (n : Nat) : fixed 2 n = [digit (n / 16 % 16), digit (n % 16)] := by
  simp [fixed]

theorem byteValue_digits (b : UInt8) :
    byteValue (digit (b.toNat / 16 % 16)) (digit (b.toNat % 16)) = some b := by
  have hb : b.toNat < 256 := b.toNat_lt
  have hval : 16 * (b.toNat / 16 % 16) + b.toNat % 16 = b.toNat := by omega
  simp only [byteValue, digitValue_digit (Nat.mod_lt _ (show 0 < 16 by decide)),
    Option.bind_some, Option.map_some, hval, UInt8.ofNat_toNat]

end PerfTools.Hex
