import Mathlib.Data.List.TakeWhile
import Mathlib.Data.Nat.Digits.Defs

/-!
# Byte memory

Blocks of bytes, pointers into them and the reads a C program makes through a pointer: single
bytes, little-endian fields of a structure, and strings up to their terminator. A read that
leaves the block, or goes through the null pointer, is a fault and never a value.

A block remembers at which position of its source its first byte stood. The position is
specification data only: no read depends on it.
-/

namespace PerfTools.Memory

/-- What the C standard leaves undefined, as far as the programs modelled here can reach it. -/
inductive Fault
  | nullDeref
  | outOfBounds
  | uninitialized
  | divByZero
  | overflow
  | badFormat
  deriving DecidableEq, Repr

@[simp] theorem pure_eq_ok {ε α : Type} (a : α) : (pure a : Except ε α) = .ok a := rfl

@[simp] theorem ok_bind {ε α β : Type} (a : α) (f : α → Except ε β) :
    (Except.ok a >>= f) = f a := rfl

@[simp] theorem error_bind {ε α β : Type} (e : ε) (f : α → Except ε β) :
    (Except.error e >>= f) = .error e := rfl

theorem bind_ne_error {ε α β : Type} {x : Except ε α} {f : α → Except ε β} {e : ε}
    (hx : x ≠ .error e) (hf : ∀ a, f a ≠ .error e) : x >>= f ≠ .error e := by
  cases x with
  | ok a => exact hf a
  | error e' =>
    intro h
    rw [Except.error.inj h] at hx
    exact hx rfl

/-- A block of memory filled from a source, starting at position origin. -/
structure Block where
  bytes : List UInt8
  origin : Nat
  deriving DecidableEq, Repr

/-- A pointer that is not null. -/
structure Ptr where
  block : Block
  off : Nat
  deriving DecidableEq, Repr

/-- A C string without its terminator. -/
structure CString where
  chars : List UInt8
  nulFree : 0 ∉ chars
  deriving DecidableEq, Repr

/-- A member of a structure: its offset and its width in bytes. -/
structure Field where
  off : Nat
  width : Nat
  deriving DecidableEq, Repr

/-- Unsigned little-endian value. -/
def leNat (bs : List UInt8) : Nat := Nat.ofDigits 256 (bs.map UInt8.toNat)

/-- The little-endian bytes of a value that width bytes can hold. -/
def leBytes : Nat → Nat → List UInt8
  | 0, _ => []
  | width + 1, n => UInt8.ofNat n :: leBytes width (n / 256)

/-- The value of a member of the structure that starts at position base of a byte list. -/
def fieldAt (src : List UInt8) (base : Nat) (f : Field) : Nat :=
  leNat ((src.drop (base + f.off)).take f.width)

namespace Ptr

def add (p : Ptr) (n : Nat) : Ptr := { p with off := p.off + n }

/-- The memory from the pointer to the end of its block. -/
def tail (p : Ptr) : List UInt8 := p.block.bytes.drop p.off

/-- Where in the source the byte under the pointer stood. -/
def position (p : Ptr) : Nat := p.block.origin + p.off

def byte (p : Ptr) (k : Nat) : Except Fault UInt8 :=
  match p.tail[k]? with
  | some b => .ok b
  | none => .error .outOfBounds

def get (p : Ptr) (f : Field) : Except Fault Nat :=
  if f.off + f.width ≤ p.tail.length then .ok (fieldAt p.tail 0 f) else .error .outOfBounds

/-- The n bytes under the pointer are the bytes of src at the pointer's position. -/
def Views (src : List UInt8) (p : Ptr) (n : Nat) : Prop :=
  n ≤ p.tail.length ∧ p.tail.take n = (src.drop p.position).take n

end Ptr

/-- The dereference of a pointer that may be null. -/
def deref : Option Ptr → Except Fault Ptr
  | some p => .ok p
  | none => .error .nullDeref

/-- The bytes before the terminator. -/
def cstringOf (mem : List UInt8) : CString where
  chars := mem.takeWhile (· ≠ 0)
  nulFree h := by simpa using List.mem_takeWhile_imp h

/-- Read the string at index i of a memory; without a terminator the read runs off its end. -/
def readString (mem : List UInt8) (i : Nat) : Except Fault CString :=
  if i + (cstringOf (mem.drop i)).chars.length < mem.length then .ok (cstringOf (mem.drop i))
  else .error .outOfBounds

/-- The index of the first c in the string at index i, or none when the terminator comes
first. -/
def strchr (mem : List UInt8) (i : Nat) (c : UInt8) : Except Fault (Option Nat) :=
  let k := i + ((mem.drop i).takeWhile fun b => b ≠ 0 ∧ b ≠ c).length
  match mem[k]? with
  | some b => .ok (if b = c then some k else none)
  | none => .error .outOfBounds

/-- The int with the bits of an unsigned 32-bit value. -/
def toInt (n : Nat) : Int :=
  if n % 2 ^ 32 < 2 ^ 31 then (n % 2 ^ 32 : Nat) else (n % 2 ^ 32 : Nat) - 2 ^ 32

/-- The signed 64-bit integer with the bits of an unsigned long. -/
def toInt64 (n : Nat) : Int :=
  if n % 2 ^ 64 < 2 ^ 63 then (n % 2 ^ 64 : Nat) else (n % 2 ^ 64 : Nat) - 2 ^ 64

/-- The value of a char, which is signed. -/
def charToInt (c : UInt8) : Int := if c.toNat < 128 then c.toNat else c.toNat - 256

/-- The unsigned value with the bits of an int. -/
def toUnsigned (i : Int) : UInt32 := UInt32.ofNat (i % 2 ^ 32).toNat

/-- The result of an int operation; a value that an int cannot hold is an overflow. -/
def checked (i : Int) : Except Fault Int :=
  if -2 ^ 31 ≤ i ∧ i < 2 ^ 31 then .ok i else .error .overflow

theorem toInt_of_lt {n : Nat} (h : n < 2 ^ 31) : toInt n = n := by
  rw [toInt, Nat.mod_eq_of_lt (by omega), if_pos h]

theorem toInt64_of_lt {n : Nat} (h : n < 2 ^ 63) : toInt64 n = n := by
  rw [toInt64, Nat.mod_eq_of_lt (by omega), if_pos h]

theorem toInt_cases {n : Nat} (h : n < 2 ^ 32) :
    n < 2 ^ 31 ∧ toInt n = n ∨ 2 ^ 31 ≤ n ∧ toInt n = n - 2 ^ 32 := by
  unfold toInt
  rw [Nat.mod_eq_of_lt h]
  split_ifs with hlt
  · exact Or.inl ⟨hlt, rfl⟩
  · exact Or.inr ⟨by omega, rfl⟩

theorem toInt_range (n : Nat) : -2 ^ 31 ≤ toInt n ∧ toInt n < 2 ^ 31 := by
  have h := Nat.mod_lt n (show 0 < 2 ^ 32 by decide)
  unfold toInt
  split_ifs <;> omega

theorem toUnsigned_toNat {i : Int} (h : 0 ≤ i) (hlt : i < 2 ^ 32) :
    (toUnsigned i).toNat = i.toNat := by
  rw [toUnsigned, Int.emod_eq_of_lt h hlt, UInt32.toNat_ofNat']
  exact Nat.mod_eq_of_lt (by omega)

theorem toUnsigned_natCast {n : Nat} (h : n < 2 ^ 32) : toUnsigned n = UInt32.ofNat n := by
  have hmod : ((n : Int) % 2 ^ 32).toNat = n := by omega
  rw [toUnsigned, hmod]

theorem toUnsigned_toInt {n : Nat} (h : n < 2 ^ 32) : toUnsigned (toInt n) = UInt32.ofNat n := by
  have hmod : (toInt n % 2 ^ 32).toNat = n := by
    unfold toInt
    rw [Nat.mod_eq_of_lt h]
    split_ifs <;> omega
  rw [toUnsigned, hmod]

theorem checked_of_range {i : Int} (h : -2 ^ 31 ≤ i) (hlt : i < 2 ^ 31) : checked i = .ok i := by
  rw [checked, if_pos ⟨h, hlt⟩]

theorem checked_overflow {i : Int} (h : 2 ^ 31 ≤ i) : checked i = .error .overflow := by
  rw [checked, if_neg (by omega)]

theorem checked_eq_ok {i j : Int} (h : checked i = .ok j) : j = i ∧ -2 ^ 31 ≤ i ∧ i < 2 ^ 31 := by
  unfold checked at h
  split_ifs at h with hi
  exact ⟨(Except.ok.inj h).symm, hi⟩

theorem checked_eq_error {i : Int} {e : Fault} (h : checked i = .error e) :
    e = .overflow ∧ ¬ (-2 ^ 31 ≤ i ∧ i < 2 ^ 31) := by
  unfold checked at h
  split_ifs at h with hi
  exact ⟨(Except.error.inj h).symm, hi⟩

-- A unifier that evaluates the bounds counts to 2 ^ 31.
attribute [irreducible] checked

theorem leNat_cons (b : UInt8) (bs : List UInt8) : leNat (b :: bs) = b.toNat + 256 * leNat bs :=
  Nat.ofDigits_cons

theorem leNat_lt (bs : List UInt8) : leNat bs < 256 ^ bs.length := by
  have h : ∀ d ∈ bs.map UInt8.toNat, d < 256 := by
    intro d hd
    obtain ⟨b, _, rfl⟩ := List.mem_map.mp hd
    exact b.toNat_lt
  simpa [leNat] using Nat.ofDigits_lt_base_pow_length (by decide) h

@[simp] theorem leBytes_length (width n : Nat) : (leBytes width n).length = width := by
  induction width generalizing n with
  | zero => rfl
  | succ width ih => rw [leBytes, List.length_cons, ih]

theorem leNat_leBytes_mod (width n : Nat) : leNat (leBytes width n) = n % 256 ^ width := by
  induction width generalizing n with
  | zero => rw [Nat.pow_zero, Nat.mod_one]; rfl
  | succ width ih =>
    rw [leBytes, leNat_cons, ih, UInt8.toNat_ofNat']
    have hsplit : n % 256 ^ (width + 1) = n % 256 + 256 * (n / 256 % 256 ^ width) := by
      rw [Nat.pow_succ', Nat.mod_mul]
    exact hsplit.symm

theorem leNat_leBytes {width n : Nat} (h : n < 256 ^ width) : leNat (leBytes width n) = n := by
  rw [leNat_leBytes_mod, Nat.mod_eq_of_lt h]

theorem leBytes_take (m k n : Nat) : (leBytes (m + k) n).take m = leBytes m n := by
  induction m generalizing n with
  | zero => rfl
  | succ m ih => rw [Nat.succ_add, leBytes, List.take_succ_cons, ih, leBytes]

theorem fieldAt_lt (src : List UInt8) (base : Nat) (f : Field) :
    fieldAt src base f < 256 ^ f.width := by
  refine (leNat_lt _).trans_le (Nat.pow_le_pow_right (by decide) ?_)
  simp

namespace Ptr

@[simp] theorem add_zero (p : Ptr) : p.add 0 = p := rfl

@[simp] theorem add_add (p : Ptr) (m n : Nat) : (p.add m).add n = p.add (m + n) := by
  simp [add, Nat.add_assoc]

@[simp] theorem add_position (p : Ptr) (n : Nat) : (p.add n).position = p.position + n := by
  simp [add, position, Nat.add_assoc]

@[simp] theorem add_tail (p : Ptr) (n : Nat) : (p.add n).tail = p.tail.drop n := by
  simp [add, tail]

theorem byte_of_lt {p : Ptr} {k : Nat} (hk : k < p.tail.length) :
    p.byte k = .ok (p.tail[k]) := by
  simp [byte, hk]

theorem views_mono {src : List UInt8} {p : Ptr} {m n : Nat} (h : p.Views src n) (hm : m ≤ n) :
    p.Views src m := by
  refine ⟨hm.trans h.1, ?_⟩
  have ht := congrArg (List.take m) h.2
  simpa [List.take_take, Nat.min_eq_left hm] using ht

theorem views_add {src : List UInt8} {p : Ptr} {m n : Nat} (h : p.Views src (m + n)) :
    (p.add m).Views src n := by
  obtain ⟨hlen, heq⟩ := h
  refine ⟨by simp; omega, ?_⟩
  have hd := congrArg (List.drop m) heq
  rw [List.drop_take, List.drop_take, Nat.add_sub_cancel_left, List.drop_drop] at hd
  simpa using hd

theorem get_of_views {src : List UInt8} {p : Ptr} {n : Nat} (h : p.Views src n) {f : Field}
    (hf : f.off + f.width ≤ n) : p.get f = .ok (fieldAt src p.position f) := by
  obtain ⟨hlen, heq⟩ := views_add (views_mono h hf)
  rw [get, if_pos (hf.trans h.1)]
  simp only [add_tail, add_position] at heq
  simp only [fieldAt, Nat.zero_add, heq]

theorem get_eq_ok {p : Ptr} {f : Field} {n : Nat} (h : p.get f = .ok n) :
    f.off + f.width ≤ p.tail.length ∧ n = fieldAt p.tail 0 f := by
  unfold get at h
  split_ifs at h with hin
  exact ⟨hin, (Except.ok.inj h).symm⟩

end Ptr

@[simp] theorem deref_some (p : Ptr) : deref (some p) = .ok p := rfl

@[simp] theorem deref_none : deref none = .error .nullDeref := rfl

theorem takeWhile_append_stop {p : UInt8 → Bool} {l : List UInt8} (hl : ∀ b ∈ l, p b)
    {c : UInt8} (hc : p c = false) (t : List UInt8) : (l ++ c :: t).takeWhile p = l := by
  rw [List.takeWhile_append_of_pos hl, List.takeWhile_cons_of_neg (by simp [hc]),
    List.append_nil]

theorem cstringOf_append (s : CString) (t : List UInt8) : cstringOf (s.chars ++ 0 :: t) = s := by
  obtain ⟨chars, hs⟩ := s
  have h : (chars ++ 0 :: t).takeWhile (· ≠ 0) = chars := by
    apply takeWhile_append_stop
    · intro b hb
      have hb0 : b ≠ 0 := fun h => hs (h ▸ hb)
      simpa using hb0
    · simp
  simp only [cstringOf, h]

theorem readString_of_drop {mem : List UInt8} {i : Nat} {s : CString} {t : List UInt8}
    (h : mem.drop i = s.chars ++ 0 :: t) : readString mem i = .ok s := by
  have hlen := congrArg List.length h
  simp only [List.length_drop, List.length_append, List.length_cons] at hlen
  rw [readString, h, cstringOf_append, if_pos (by omega)]

/-- The memory is not empty and its last byte is NUL. -/
def EndsInNul (mem : List UInt8) : Prop := mem.getLast? = some 0

instance (mem : List UInt8) : Decidable (EndsInNul mem) := inferInstanceAs (Decidable (_ = _))

theorem EndsInNul.length_pos {mem : List UInt8} (h : EndsInNul mem) : 0 < mem.length :=
  List.length_pos_of_mem (List.mem_of_getLast? h)

theorem EndsInNul.drop {mem : List UInt8} (h : EndsInNul mem) {i : Nat} (hi : i < mem.length) :
    EndsInNul (mem.drop i) := by
  unfold EndsInNul at h ⊢
  rwa [List.getLast?_drop, if_neg (by omega)]

theorem EndsInNul.split {mem : List UInt8} (h : EndsInNul mem) :
    ∃ rest, mem = (cstringOf mem).chars ++ 0 :: rest := by
  have hsplit := List.takeWhile_append_dropWhile (p := fun b : UInt8 => decide (b ≠ 0)) (l := mem)
  cases hrest : mem.dropWhile fun b => decide (b ≠ 0) with
  | nil =>
    have hall := List.dropWhile_eq_nil_iff.mp hrest 0 (List.mem_of_getLast? h)
    exact absurd hall (by decide)
  | cons b rest =>
    have hzero := List.head?_dropWhile_not (fun b : UInt8 => decide (b ≠ 0)) mem
    rw [hrest] at hzero hsplit
    simp only [List.head?_cons, ne_eq, decide_not, Bool.not_eq_eq_eq_not, Bool.not_false,
      decide_eq_true_eq] at hzero
    rw [hzero] at hsplit
    exact ⟨rest, hsplit.symm⟩

/-- Every index of a terminated memory is the start of a string in it. -/
theorem EndsInNul.readString {mem : List UInt8} (h : EndsInNul mem) {i : Nat}
    (hi : i < mem.length) : readString mem i = .ok (cstringOf (mem.drop i)) := by
  obtain ⟨rest, hrest⟩ := (h.drop hi).split
  exact readString_of_drop hrest

theorem strchr_found {mem : List UInt8} {i : Nat} {c : UInt8} {l t : List UInt8}
    (h : mem.drop i = l ++ c :: t) (hnul : 0 ∉ l) (hc : c ∉ l) :
    strchr mem i c = .ok (some (i + l.length)) := by
  have htake : (mem.drop i).takeWhile (fun b => b ≠ 0 ∧ b ≠ c) = l := by
    rw [h]
    apply takeWhile_append_stop
    · intro b hb
      have hb0 : b ≠ 0 := fun e => hnul (e ▸ hb)
      have hbc : b ≠ c := fun e => hc (e ▸ hb)
      simp [hb0, hbc]
    · simp
  have hget : mem[i + l.length]? = some c := by
    rw [← List.getElem?_drop, h]
    simp
  simp only [strchr, htake, hget, if_true]

theorem strchr_missing {mem : List UInt8} {i : Nat} {c : UInt8} {l t : List UInt8}
    (h : mem.drop i = l ++ 0 :: t) (hnul : 0 ∉ l) (hc : c ∉ l) (hc0 : c ≠ 0) :
    strchr mem i c = .ok none := by
  have htake : (mem.drop i).takeWhile (fun b => b ≠ 0 ∧ b ≠ c) = l := by
    rw [h]
    apply takeWhile_append_stop
    · intro b hb
      have hb0 : b ≠ 0 := fun e => hnul (e ▸ hb)
      have hbc : b ≠ c := fun e => hc (e ▸ hb)
      simp [hb0, hbc]
    · simp
  have hget : mem[i + l.length]? = some 0 := by
    rw [← List.getElem?_drop, h]
    simp
  simp only [strchr, htake, hget, if_neg (Ne.symm hc0)]

/-- The block that holds n bytes of src from a position on, and a pointer to its start. -/
def chunk (src : List UInt8) (start n : Nat) : Ptr := ⟨⟨(src.drop start).take n, start⟩, 0⟩

section Chunk

variable {src : List UInt8} {start n : Nat}

@[simp] theorem chunk_position : (chunk src start n).position = start := rfl

@[simp] theorem chunk_tail : (chunk src start n).tail = (src.drop start).take n := rfl

theorem chunk_views (h : start + n ≤ src.length) : (chunk src start n).Views src n := by
  refine ⟨?_, by simp [List.take_take]⟩
  simp
  omega

theorem chunk_get (h : start + n ≤ src.length) {f : Field} (hf : f.off + f.width ≤ n) :
    (chunk src start n).get f = .ok (fieldAt src start f) :=
  Ptr.get_of_views (chunk_views h) hf

end Chunk

/-! ## Storing bytes -/

/-- The n bytes of a memory from an offset on. -/
def window (mem : List UInt8) (off n : Nat) : List UInt8 := (mem.drop off).take n

/-- The memory after bytes have been stored inside it. -/
def overwrite (mem : List UInt8) (off : Nat) (bytes : List UInt8) : List UInt8 :=
  mem.take off ++ bytes ++ mem.drop (off + bytes.length)

section Overwrite

variable {mem : List UInt8} {off : Nat} {bytes : List UInt8} (h : off + bytes.length ≤ mem.length)
include h

theorem overwrite_length : (overwrite mem off bytes).length = mem.length := by
  rw [overwrite, List.length_append, List.length_append, List.length_take, List.length_drop]
  omega

theorem overwrite_window : window (overwrite mem off bytes) off bytes.length = bytes := by
  have hlen : (mem.take off).length = off := List.length_take_of_le (by omega)
  rw [window, overwrite, List.append_assoc, List.drop_left' hlen, List.take_left' rfl]

theorem overwrite_getElem? {i : Nat} (hi : i < off ∨ off + bytes.length ≤ i) :
    (overwrite mem off bytes)[i]? = mem[i]? := by
  have hlen : (mem.take off).length = off := List.length_take_of_le (by omega)
  rw [overwrite, List.append_assoc]
  rcases hi with hi | hi
  · rw [List.getElem?_append_left (by omega), List.getElem?_take_of_lt hi]
  · rw [List.getElem?_append_right (by omega), List.getElem?_append_right (by omega), hlen,
      List.getElem?_drop]
    congr 1
    omega

/-- The bytes beside those that are stored. -/
theorem overwrite_frame {o n : Nat} (hfree : o + n ≤ off ∨ off + bytes.length ≤ o) :
    window (overwrite mem off bytes) o n = window mem o n := by
  apply List.ext_getElem?
  intro i
  rcases Nat.lt_or_ge i n with hi | hi
  · rw [window, window, List.getElem?_take_of_lt hi, List.getElem?_take_of_lt hi,
      List.getElem?_drop, List.getElem?_drop]
    exact overwrite_getElem? h (by omega)
  · rw [window, window, List.getElem?_take_eq_none hi, List.getElem?_take_eq_none hi]

end Overwrite

end PerfTools.Memory
