import PerfTools.Lib.Printf

/-!
# Bits for encrypt

get8 spreads the eight bytes of a block over sixty-four chars of one bit each, the highest bit of
a byte first, as the encrypt function of the C library takes them; put8 packs them again. A char
is signed, so that the ints both functions work on have the sign of the byte in their upper bits.
-/

namespace PerfTools.Security

open Printf

/-- A char as an int. -/
def charBits (c : UInt8) : BitVec 32 := c.toBitVec.signExtend 32

/-- The inner loop of get8: the bits of a char. -/
def getByte (c : UInt8) : List UInt8 :=
  let t := charBits c
  (List.range 8).map fun j => if t &&& (1#32 <<< (7 - j)) ≠ 0 then 1 else 0

def get8 (src : List UInt8) : List UInt8 := src.flatMap getByte

/-- The inner loop of put8; the assignment to a char keeps the low byte. -/
def putByte (cp : List UInt8) : UInt8 :=
  let t := cp.foldl (fun (t : BitVec 32) c => (t <<< 1) ||| charBits c) 0
  UInt8.ofBitVec (t.setWidth 8)

/-- The outer loop of put8 with the number of bytes that remain. -/
def putBytes : Nat → List UInt8 → List UInt8
  | 0, _ => []
  | n + 1, cp => putByte (cp.take 8) :: putBytes n (cp.drop 8)

def put8 (cp : List UInt8) : List UInt8 := putBytes 8 cp

/-- The bit pattern that main sets as the key. -/
def key : List UInt8 := (List.replicate 32 [1, 0]).flatten

/-- What main leaves in res. encrypt takes the key that setkey has set, the text and the flag. -/
def encryptMain (encrypt : List UInt8 → List UInt8 → Int → List UInt8) (plain : List UInt8) :
    List UInt8 :=
  let txt := get8 plain
  let txt := encrypt key txt 0
  let txt := encrypt key txt 1
  put8 txt

/-- An array of n entries that are 0 or 1. -/
def Bits (n : Nat) (a : List UInt8) : Prop := a.length = n ∧ ∀ x ∈ a, x = 0 ∨ x = 1

/-- What the C library says of encrypt: it keeps bits, and flag 1 undoes flag 0. -/
structure Inverts (encrypt : List UInt8 → List UInt8 → Int → List UInt8) : Prop where
  bits : ∀ key txt edflag, Bits 64 key → Bits 64 txt → Bits 64 (encrypt key txt edflag)
  inverse : ∀ key txt, Bits 64 key → Bits 64 txt → encrypt key (encrypt key txt 0) 1 = txt

/-! ## One byte -/

/-- The value of an entry. -/
def entry (b : Bool) : UInt8 := if b then 1 else 0

theorem getByte_eq (c : UInt8) :
    getByte c = (List.range 8).map fun j => entry (c.toNat.testBit (7 - j)) := by
  have hall : ∀ n < 256, getByte (UInt8.ofNat n) =
      (List.range 8).map fun j => entry (n.testBit (7 - j)) := by
    decide +kernel
  have hc := hall c.toNat c.toNat_lt
  rwa [UInt8.ofNat_toNat] at hc

@[simp] theorem getByte_length (c : UInt8) : (getByte c).length = 8 := by
  rw [getByte_eq, List.length_map, List.length_range]

theorem getByte_bits (c : UInt8) : Bits 8 (getByte c) := by
  refine ⟨getByte_length c, fun x hx => ?_⟩
  rw [getByte_eq] at hx
  obtain ⟨j, -, rfl⟩ := List.mem_map.mp hx
  cases c.toNat.testBit (7 - j) with
  | false => exact Or.inl rfl
  | true => exact Or.inr rfl

theorem putByte_getByte (c : UInt8) : putByte (getByte c) = c := by
  have hall : ∀ n < 256, putByte (getByte (UInt8.ofNat n)) = UInt8.ofNat n := by
    decide +kernel
  have hc := hall c.toNat c.toNat_lt
  rwa [UInt8.ofNat_toNat] at hc

theorem exists_entries {a : List UInt8} (h : ∀ x ∈ a, x = 0 ∨ x = 1) :
    ∃ bs : List Bool, a = bs.map entry := by
  induction a with
  | nil => exact ⟨[], rfl⟩
  | cons x a ih =>
    obtain ⟨bs, rfl⟩ := ih fun y hy => h y (List.mem_cons_of_mem x hy)
    rcases h x List.mem_cons_self with rfl | rfl
    · exact ⟨false :: bs, rfl⟩
    · exact ⟨true :: bs, rfl⟩

theorem getByte_putByte {a : List UInt8} (h : Bits 8 a) : getByte (putByte a) = a := by
  have hall : ∀ b₀ b₁ b₂ b₃ b₄ b₅ b₆ b₇ : Bool,
      getByte (putByte ([b₀, b₁, b₂, b₃, b₄, b₅, b₆, b₇].map entry)) =
        [b₀, b₁, b₂, b₃, b₄, b₅, b₆, b₇].map entry := by
    decide +kernel
  obtain ⟨bs, rfl⟩ := exists_entries h.2
  have hlen : bs.length = 8 := by
    have hlen := h.1
    rwa [List.length_map] at hlen
  obtain ⟨b₀, b₁, b₂, b₃, hfront⟩ :=
    List.length_eq_four.mp (show (bs.take 4).length = 4 by simp [hlen])
  obtain ⟨b₄, b₅, b₆, b₇, hrest⟩ :=
    List.length_eq_four.mp (show (bs.drop 4).length = 4 by simp [hlen])
  rw [← List.take_append_drop 4 bs, hfront, hrest]
  exact hall b₀ b₁ b₂ b₃ b₄ b₅ b₆ b₇

/-! ## Blocks -/

theorem putBytes_get8 (src : List UInt8) : putBytes src.length (get8 src) = src := by
  induction src with
  | nil => rfl
  | cons c src ih =>
    have hhead : (getByte c ++ get8 src).take 8 = getByte c := List.take_left' (getByte_length c)
    have htail : (getByte c ++ get8 src).drop 8 = get8 src := List.drop_left' (getByte_length c)
    rw [get8, List.flatMap_cons, ← get8, List.length_cons, putBytes, hhead, htail, putByte_getByte,
      ih]

theorem put8_get8 {src : List UInt8} (h : src.length = 8) : put8 (get8 src) = src := by
  rw [put8, ← h]
  exact putBytes_get8 src

theorem Bits.split {n : Nat} {a : List UInt8} (h : Bits (n + 8) a) :
    Bits 8 (a.take 8) ∧ Bits n (a.drop 8) := by
  obtain ⟨hlen, hbits⟩ := h
  constructor
  · exact ⟨by rw [List.length_take]; omega, fun x hx => hbits x (List.mem_of_mem_take hx)⟩
  · exact ⟨by rw [List.length_drop]; omega, fun x hx => hbits x (List.mem_of_mem_drop hx)⟩

theorem get8_putBytes {n : Nat} {a : List UInt8} (h : Bits (8 * n) a) : get8 (putBytes n a) = a := by
  induction n generalizing a with
  | zero => exact (List.length_eq_zero_iff.mp h.1).symm
  | succ n ih =>
    obtain ⟨hhead, htail⟩ := Bits.split h
    rw [putBytes, get8, List.flatMap_cons, ← get8, getByte_putByte hhead, ih htail,
      List.take_append_drop]

theorem get8_put8 {a : List UInt8} (h : Bits 64 a) : get8 (put8 a) = a := get8_putBytes h

theorem get8_entry (src : List UInt8) {i j : Nat} (hj : j < 8) :
    (get8 src)[8 * i + j]? = src[i]?.map fun c => entry (c.toNat.testBit (7 - j)) := by
  induction src generalizing i with
  | nil => rfl
  | cons c src ih =>
    rw [get8, List.flatMap_cons, ← get8]
    cases i with
    | zero =>
      rw [List.getElem?_append_left (by rw [getByte_length]; omega), getByte_eq, Nat.mul_zero,
        Nat.zero_add, List.getElem?_map, List.getElem?_range hj]
      rfl
    | succ i =>
      have hindex : 8 * (i + 1) + j - (getByte c).length = 8 * i + j := by
        rw [getByte_length]
        omega
      rw [List.getElem?_append_right (by rw [getByte_length]; omega), hindex, ih,
        List.getElem?_cons_succ]

theorem get8_bits {src : List UInt8} (h : src.length = 8) : Bits 64 (get8 src) := by
  constructor
  · rw [get8, List.length_flatMap, List.map_congr_left fun c _ => getByte_length c,
      List.map_const', List.sum_replicate_nat, h]
  · intro x hx
    obtain ⟨c, -, hx⟩ := List.mem_flatMap.mp hx
    exact (getByte_bits c).2 x hx

theorem key_bits : Bits 64 key := by
  refine ⟨by decide, ?_⟩
  have hall : ∀ x ∈ key, x = 0 ∨ x = 1 := by decide +kernel
  exact hall

/-- Packing and unpacking are inverse in both directions, and main gives every block back. -/
theorem packing_inverse {encrypt : List UInt8 → List UInt8 → Int → List UInt8}
    (h : Inverts encrypt) :
    (∀ b : List UInt8, b.length = 8 → put8 (get8 b) = b) ∧
      (∀ a, Bits 64 a → get8 (put8 a) = a ∧ ∀ i j, i < 8 → j < 8 →
        a[8 * i + j]? = (put8 a)[i]?.map fun c => entry (c.toNat.testBit (7 - j))) ∧
      ∀ plain : List UInt8, plain.length = 8 → encryptMain encrypt plain = plain := by
  refine ⟨fun b hb => put8_get8 hb, fun a ha => ⟨get8_put8 ha, fun i j _ hj => ?_⟩,
    fun plain hplain => ?_⟩
  · have hentry := get8_entry (put8 a) (i := i) hj
    rwa [get8_put8 ha] at hentry
  · rw [encryptMain, h.inverse key (get8 plain) key_bits (get8_bits hplain)]
    exact put8_get8 hplain

/-- The text of main, and what DES makes of it under main's key. -/
def hello : List UInt8 := ascii "hello" ++ [0, 0, 0]
def helloEncrypted : List UInt8 := [203, 196, 159, 212, 101, 6, 240, 93]

/-- An encryption of this one text. -/
def exchange (_ txt : List UInt8) (_ : Int) : List UInt8 :=
  if txt = get8 hello then get8 helloEncrypted
  else if txt = get8 helloEncrypted then get8 hello
  else txt

theorem exchange_inverts : Inverts exchange := by
  have hne : get8 helloEncrypted ≠ get8 hello := by decide
  constructor
  · intro k txt edflag _ htxt
    unfold exchange
    split_ifs
    · exact get8_bits rfl
    · exact get8_bits rfl
    · exact htxt
  · intro k txt _ _
    by_cases hplain : txt = get8 hello
    · simp [exchange, hplain, hne]
    · by_cases hcipher : txt = get8 helloEncrypted
      · simp [exchange, hcipher, hne]
      · simp [exchange, hplain, hcipher]

theorem packing_inverse_hello :
    exchange key (get8 hello) 0 = get8 helloEncrypted ∧ encryptMain exchange hello = hello :=
  ⟨if_pos rfl, (packing_inverse exchange_inverts).2.2 hello rfl⟩

end PerfTools.Security
