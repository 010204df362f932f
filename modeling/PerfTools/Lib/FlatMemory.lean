import PerfTools.Lib.Memory

/-!
# Flat memory

A byte for every 32-bit address, as a program sees it that runs without protection. Address
arithmetic wraps around at the end of the memory.
-/

namespace PerfTools.FlatMemory

open Memory

abbrev Ram := UInt32 → UInt8

/-- The n bytes from address a on. -/
def bytesAt (m : Ram) : Nat → UInt32 → List UInt8
  | 0, _ => []
  | n + 1, a => m a :: bytesAt m n (a + 1)

/-- A member of the structure at address a. -/
def load (m : Ram) (a : UInt32) (f : Field) : Nat :=
  leNat (bytesAt m f.width (a + UInt32.ofNat f.off))

def store (m : Ram) (a : UInt32) (bs : List UInt8) : Ram := fun x => bs[(x - a).toNat]?.getD (m x)

/-- The address is one of the n from a on. -/
def Covers (a : UInt32) (n : Nat) (x : UInt32) : Prop := (x - a).toNat < n

/-- The bytes stand at address a. -/
def Holds (m : Ram) (a : UInt32) (bs : List UInt8) : Prop := bytesAt m bs.length a = bs

instance {a : UInt32} {n : Nat} {x : UInt32} : Decidable (Covers a n x) :=
  inferInstanceAs (Decidable (_ < _))

instance {m : Ram} {a : UInt32} {bs : List UInt8} : Decidable (Holds m a bs) :=
  inferInstanceAs (Decidable (_ = _))

section

variable {m m' : Ram} {a x : UInt32} {n k : Nat} {bs cs : List UInt8}

@[simp] theorem bytesAt_length : (bytesAt m n a).length = n := by
  induction n generalizing a with
  | zero => rfl
  | succ n ih => rw [bytesAt, List.length_cons, ih]

theorem add_ofNat_succ (a : UInt32) (n : Nat) :
    a + UInt32.ofNat (n + 1) = a + 1 + UInt32.ofNat n := by
  rw [UInt32.add_assoc, Nat.add_comm, UInt32.ofNat_add]
  rfl

theorem add_ofNat_add (a : UInt32) (n k : Nat) :
    a + UInt32.ofNat (n + k) = a + UInt32.ofNat n + UInt32.ofNat k := by
  rw [UInt32.add_assoc, UInt32.ofNat_add]

@[simp] theorem add_ofNat_zero (a : UInt32) : a + UInt32.ofNat 0 = a := UInt32.add_zero a

theorem bytesAt_add : bytesAt m (n + k) a = bytesAt m n a ++ bytesAt m k (a + UInt32.ofNat n) := by
  induction n generalizing a with
  | zero => rw [Nat.zero_add, add_ofNat_zero]; rfl
  | succ n ih => rw [Nat.succ_add, bytesAt, ih, bytesAt, add_ofNat_succ, List.cons_append]

theorem bytesAt_getElem? {i : Nat} (hi : i < n) :
    (bytesAt m n a)[i]? = some (m (a + UInt32.ofNat i)) := by
  have hsplit : n = i + ((n - i - 1) + 1) := by omega
  rw [hsplit, bytesAt_add, List.getElem?_append_right (by simp)]
  simp [bytesAt]

theorem offset_toNat {i : Nat} (hi : i < 2 ^ 32) : (a + UInt32.ofNat i - a).toNat = i := by
  rw [UInt32.add_comm, UInt32.add_sub_cancel, UInt32.toNat_ofNat_of_lt' hi]

theorem covers_self {i : Nat} (hi : i < n) (hn : n ≤ 2 ^ 32) : Covers a n (a + UInt32.ofNat i) := by
  rw [Covers, offset_toNat (by omega)]
  exact hi

theorem Covers.eq_add (_h : Covers a n x) : x = a + UInt32.ofNat (x - a).toNat := by
  rw [UInt32.ofNat_toNat, UInt32.add_comm, UInt32.sub_add_cancel]

theorem Covers.of_part {i : Nat} (h : Covers (a + UInt32.ofNat i) k x) (hi : i + k ≤ n)
    (hn : n ≤ 2 ^ 32) : Covers a n x := by
  have hx := h.eq_add
  rw [← add_ofNat_add] at hx
  rw [hx]
  unfold Covers at h
  exact covers_self (by omega) hn

theorem bytesAt_congr (hn : n ≤ 2 ^ 32) (h : ∀ x, Covers a n x → m x = m' x) :
    bytesAt m n a = bytesAt m' n a := by
  apply List.ext_getElem?
  intro i
  rcases Nat.lt_or_ge i n with hi | hi
  · rw [bytesAt_getElem? hi, bytesAt_getElem? hi, h _ (covers_self hi hn)]
  · rw [List.getElem?_eq_none (by simpa using hi), List.getElem?_eq_none (by simpa using hi)]

theorem store_of_not_covers (h : ¬ Covers a bs.length x) : store m a bs x = m x := by
  rw [store, List.getElem?_eq_none (Nat.le_of_not_lt h)]
  rfl

theorem store_store (h : bs.length = cs.length) : store (store m a bs) a cs = store m a cs := by
  funext x
  rcases Nat.lt_or_ge (x - a).toNat cs.length with hx | hx
  · simp only [store, List.getElem?_eq_getElem hx, Option.getD_some]
  · rw [store_of_not_covers (Nat.not_lt.mpr hx), store_of_not_covers (Nat.not_lt.mpr (h ▸ hx)),
      store_of_not_covers (Nat.not_lt.mpr hx)]

theorem holds_iff : Holds m a bs ↔ ∀ i < bs.length, bs[i]? = some (m (a + UInt32.ofNat i)) := by
  constructor
  · intro h i hi
    have hbyte := bytesAt_getElem? (m := m) (a := a) hi
    rwa [h] at hbyte
  · intro h
    apply List.ext_getElem?
    intro i
    rcases Nat.lt_or_ge i bs.length with hi | hi
    · rw [bytesAt_getElem? hi, h i hi]
    · rw [List.getElem?_eq_none (by simpa using hi), List.getElem?_eq_none hi]

theorem holds_store (h : bs.length ≤ 2 ^ 32) : Holds (store m a bs) a bs := by
  apply holds_iff.mpr
  intro i hi
  rw [store, offset_toNat (by omega), List.getElem?_eq_getElem hi, Option.getD_some]

theorem holds_append : Holds m a (bs ++ cs) ↔
    Holds m a bs ∧ Holds m (a + UInt32.ofNat bs.length) cs := by
  unfold Holds
  rw [List.length_append, bytesAt_add]
  constructor
  · intro h
    exact List.append_inj h (by simp)
  · rintro ⟨hbs, hcs⟩
    rw [hbs, hcs]

theorem Holds.congr (h : Holds m a bs) (hn : bs.length ≤ 2 ^ 32)
    (hsame : ∀ x, Covers a bs.length x → m' x = m x) : Holds m' a bs :=
  (bytesAt_congr hn hsame).trans h

theorem load_lt {f : Field} : load m a f < 256 ^ f.width := by
  have h := leNat_lt (bytesAt m f.width (a + UInt32.ofNat f.off))
  rwa [bytesAt_length] at h

theorem Holds.byte (h : Holds m a bs) {i : Nat} {b : UInt8} (hi : bs[i]? = some b) :
    m (a + UInt32.ofNat i) = b := by
  have hlt := (List.getElem?_eq_some_iff.mp hi).1
  exact Option.some.inj ((holds_iff.mp h i hlt).symm.trans hi)

theorem overwrite_append_left {i : Nat} (h : i + cs.length ≤ bs.length) {ds : List UInt8} :
    overwrite (bs ++ ds) i cs = overwrite bs i cs ++ ds := by
  rw [overwrite, List.take_append_of_le_length (by omega), List.drop_append_of_le_length h,
    overwrite, List.append_assoc, List.append_assoc, List.append_assoc]

theorem overwrite_append_right {i : Nat} {ds : List UInt8} :
    overwrite (bs ++ ds) (bs.length + i) cs = bs ++ overwrite ds i cs := by
  rw [overwrite, List.take_length_add_append, Nat.add_assoc, List.drop_length_add_append, overwrite,
    List.append_assoc, List.append_assoc, List.append_assoc]

theorem Holds.store {i : Nat} (h : Holds m a bs) (hin : i + cs.length ≤ bs.length)
    (hsize : bs.length ≤ 2 ^ 32) :
    Holds (store m (a + UInt32.ofNat i) cs) a (overwrite bs i cs) := by
  apply holds_iff.mpr
  intro j hj
  rw [overwrite_length hin] at hj
  by_cases hwindow : i ≤ j ∧ j < i + cs.length
  · obtain ⟨k, rfl⟩ := Nat.exists_eq_add_of_le hwindow.1
    have hk : k < cs.length := by omega
    have hnew : (overwrite bs i cs)[i + k]? = some cs[k] := by
      have hlen : (bs.take i).length = i := by
        rw [List.length_take]
        omega
      rw [overwrite, List.append_assoc, List.getElem?_append_right (by omega), hlen,
        Nat.add_sub_cancel_left, List.getElem?_append_left hk, List.getElem?_eq_getElem hk]
    rw [hnew, add_ofNat_add, FlatMemory.store, offset_toNat (by omega),
      List.getElem?_eq_getElem hk, Option.getD_some]
  · have hout : ¬ Covers (a + UInt32.ofNat i) cs.length (a + UInt32.ofNat j) := by
      intro hcovers
      have hsum := hcovers.eq_add
      unfold Covers at hcovers
      rw [← add_ofNat_add] at hsum
      have hoffset := congrArg (fun x => (x - a).toNat) hsum
      simp only [offset_toNat (a := a) (i := j) (by omega)] at hoffset
      rw [offset_toNat (by omega)] at hoffset
      omega
    rw [overwrite_getElem? hin (by omega), store_of_not_covers hout, holds_iff.mp h j hj]

end

end PerfTools.FlatMemory
