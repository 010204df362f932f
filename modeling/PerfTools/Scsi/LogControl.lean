import Mathlib.Data.Nat.Bitwise
import PerfTools.Lib.Printf

/-!
# The logging level of the SCSI layer

The level is a register of ten fields of three bits. scsi_log_ctl prints a command that shows a
field and one that stores a value: the first has a mask of a single bit, and the second stores the
shifted value alone, in place of the whole register.
-/

namespace PerfTools.Scsi

open Memory Printf

/-- An entry of the table log_group. -/
structure LogGroup where
  name : Text
  shift : Nat
  deriving DecidableEq

/-- The table without its terminator. -/
def logGroup : List LogGroup :=
  [⟨ascii "error", 0⟩, ⟨ascii "timeout", 3⟩, ⟨ascii "scan", 6⟩, ⟨ascii "mlqueue", 9⟩,
    ⟨ascii "mlcomplete", 12⟩, ⟨ascii "llqueue", 15⟩, ⟨ascii "llcomplete", 18⟩,
    ⟨ascii "hlqueue", 21⟩, ⟨ascii "hlcomplete", 24⟩, ⟨ascii "ioctl", 27⟩]

def nameToGroup (group : CString) : Option LogGroup := logGroup.find? (·.name = group.chars)

/-- value << shift for ints, which is undefined for a negative value and when the result is no
int. -/
def shiftLeft (value : Int) (shift : Nat) : Except Fault Int :=
  if value < 0 then .error .overflow else checked (value * 2 ^ shift)

def notFound (group : CString) : Text := ascii "could not found " ++ group.chars ++ ascii "\n"

def getLine (mask : Nat) : Text :=
  ascii "cat /proc/sys/dev/scsi/logging_level & " ++ hexDigits mask ++ ascii "\n"

def setLine (level : Nat) : Text :=
  ascii "echo 0x" ++ hexDigits level ++ ascii " > /proc/sys/dev/scsi/logging_level\n"

/-- What get prints. -/
def get (group : CString) : Except Fault Text :=
  match nameToGroup group with
  | none => .ok (notFound group)
  | some log => do
    let mask ← shiftLeft 1 log.shift
    return getLine (toUnsigned mask).toNat

/-- What set prints. -/
def set (group : CString) (value : Int) : Except Fault Text :=
  match nameToGroup group with
  | none => .ok (notFound group)
  | some log => do
    let level ← shiftLeft value log.shift
    return setLine (toUnsigned level).toNat

/-- The register behind a printed line: a command stores its number, another text changes
nothing. -/
def Leaves (register : Nat) (text : Text) (register' : Nat) : Prop :=
  (∃ level < 2 ^ 32, text = setLine level ∧ register' = level) ∨
    (∀ level < 2 ^ 32, text ≠ setLine level) ∧ register' = register

/-- The field of a register at a shift. -/
def field (register shift : Nat) : Nat := register / 2 ^ shift % 8

/-- The laws of a field: what is set is what get selects, the other fields are kept, a value that
does not fit produces no bit outside the field, and an unknown name changes nothing. -/
structure FieldLaws (register : Nat) (group : CString) (value : Int) : Prop where
  fits : ∀ log, nameToGroup group = some log → 0 ≤ value → value ≤ 7 →
    ∃ text register' mask, set group value = .ok text ∧ Leaves register text register' ∧
      get group = .ok (getLine mask) ∧ mask < 2 ^ 32 ∧
      register' &&& mask = value.toNat <<< log.shift ∧
      ∀ other ∈ logGroup, other ≠ log → field register' other.shift = field register other.shift
  spills : ∀ log, nameToGroup group = some log → ¬ (0 ≤ value ∧ value ≤ 7) →
    ∃ level < 2 ^ 32, set group value = .ok (setLine level) ∧
      ∀ i, level.testBit i → log.shift ≤ i ∧ i < log.shift + 3
  unknown : nameToGroup group = none → ∃ text, set group value = .ok text ∧
    Leaves register text register

section

variable {register : Nat} {group : CString} {value : Int} {log : LogGroup}

theorem setLine_inj {m n : Nat} (hm : m < 2 ^ 32) (hn : n < 2 ^ 32) (h : setLine m = setLine n) :
    m = n := by
  rw [setLine, setLine, List.append_left_inj, List.append_right_inj] at h
  exact hexDigits_inj hm hn h

theorem getLine_inj {m n : Nat} (hm : m < 2 ^ 32) (hn : n < 2 ^ 32) (h : getLine m = getLine n) :
    m = n := by
  rw [getLine, getLine, List.append_left_inj, List.append_right_inj] at h
  exact hexDigits_inj hm hn h

theorem notFound_ne_setLine (group : CString) (level : Nat) : notFound group ≠ setLine level := by
  intro h
  have hhead : some (99 : UInt8) = some 101 := congrArg List.head? h
  exact absurd hhead (by decide)

theorem leaves_setLine {level register' : Nat} (hlevel : level < 2 ^ 32) :
    Leaves register (setLine level) register' ↔ register' = level := by
  constructor
  · rintro (⟨n, hn, hline, rfl⟩ | ⟨hnone, -⟩)
    · exact (setLine_inj hlevel hn hline).symm
    · exact absurd rfl (hnone level hlevel)
  · rintro rfl
    exact Or.inl ⟨register', hlevel, rfl, rfl⟩

theorem mem_of_nameToGroup (h : nameToGroup group = some log) : log ∈ logGroup :=
  List.mem_of_find?_eq_some h

theorem shift_le (h : log ∈ logGroup) : log.shift ≤ 27 := by
  have hall : ∀ log ∈ logGroup, log.shift ≤ 27 := by decide
  exact hall log h

/-! ## What is printed -/

theorem shiftLeft_ok {v s : Nat} (h : v * 2 ^ s < 2 ^ 31) :
    shiftLeft v s = .ok ((v * 2 ^ s : Nat) : Int) := by
  have hcast : (v : Int) * 2 ^ s = ((v * 2 ^ s : Nat) : Int) := by push_cast; rfl
  rw [shiftLeft, if_neg (by omega), hcast]
  exact checked_of_range (by omega) (by omega)

theorem shiftLeft_eq_ok {s : Nat} {n : Int} (h : shiftLeft value s = .ok n) :
    ∃ v : Nat, value = v ∧ v * 2 ^ s < 2 ^ 31 := by
  unfold shiftLeft at h
  split_ifs at h with hneg
  obtain ⟨v, rfl⟩ := Int.eq_ofNat_of_zero_le (Int.not_lt.mp hneg)
  refine ⟨v, rfl, ?_⟩
  have hlt := (checked_eq_ok h).2.2
  exact_mod_cast hlt

private theorem toUnsigned_shifted {n : Nat} (h : n < 2 ^ 31) : (toUnsigned (n : Int)).toNat = n := by
  rw [toUnsigned_toNat (by omega) (by omega), Int.toNat_natCast]

theorem set_run {v : Nat} (h : nameToGroup group = some log) (hint : v * 2 ^ log.shift < 2 ^ 31) :
    set group v = .ok (setLine (v * 2 ^ log.shift)) := by
  rw [set, h]
  dsimp only
  rw [shiftLeft_ok hint, ok_bind, toUnsigned_shifted hint]
  rfl

theorem get_run (h : nameToGroup group = some log) : get group = .ok (getLine (2 ^ log.shift)) := by
  have hint : 1 * 2 ^ log.shift < 2 ^ 31 := by
    rw [Nat.one_mul]
    have hle := shift_le (mem_of_nameToGroup h)
    exact Nat.pow_lt_pow_right (by decide) (by omega)
  have hshift : shiftLeft 1 log.shift = .ok ((1 * 2 ^ log.shift : Nat) : Int) := shiftLeft_ok hint
  rw [get, h]
  dsimp only
  rw [hshift, ok_bind, toUnsigned_shifted hint, Nat.one_mul]
  rfl

theorem set_eq_ok {text : Text} (h : nameToGroup group = some log)
    (hset : set group value = .ok text) :
    ∃ v : Nat, value = v ∧ v * 2 ^ log.shift < 2 ^ 31 ∧ text = setLine (v * 2 ^ log.shift) := by
  have hset' := hset
  rw [set, h] at hset'
  dsimp only at hset'
  cases hshift : shiftLeft value log.shift with
  | error e =>
    rw [hshift] at hset'
    cases hset'
  | ok n =>
    obtain ⟨v, rfl, hint⟩ := shiftLeft_eq_ok hshift
    refine ⟨v, rfl, hint, ?_⟩
    rw [set_run h hint] at hset
    exact (Except.ok.inj hset).symm

/-! ## Fields -/

/-- A small value at a shift is the field at this shift, and every other field is zero. -/
theorem field_shifted (h : log ∈ logGroup) {v : Nat} (hv : v < 8) {other : LogGroup}
    (hother : other ∈ logGroup) (hne : other ≠ log) :
    field (v * 2 ^ log.shift) other.shift = 0 := by
  have hall : ∀ log ∈ logGroup, ∀ v < 8, ∀ other ∈ logGroup, other ≠ log →
      field (v * 2 ^ log.shift) other.shift = 0 := by
    decide +kernel
  exact hall log h v hv other hother hne

/-- The mask of a single bit selects 0 and 1 only. -/
theorem selected_iff {v s : Nat} : v * 2 ^ s &&& 2 ^ s = v <<< s ↔ v ≤ 1 := by
  rw [Nat.shiftLeft_eq, Nat.and_two_pow, Nat.testBit_mul_two_pow]
  simp only [le_refl, decide_true, Nat.sub_self, Bool.true_and]
  rw [Nat.mul_left_inj (Nat.two_pow_pos s).ne', Nat.testBit_zero]
  by_cases hodd : v % 2 = 1
  · simp [hodd]
    omega
  · simp [hodd]
    omega

theorem spilled {v s : Nat} (hv : 8 ≤ v) :
    ¬ ∀ i, (v * 2 ^ s).testBit i → s ≤ i ∧ i < s + 3 := by
  intro hall
  obtain ⟨i, hi, hbit⟩ := Nat.exists_ge_and_testBit_of_ge_two_pow (n := 3) hv
  have hin := hall (i + s) (by simp [Nat.testBit_mul_two_pow, hbit])
  omega

private theorem fieldLaws_needs (h : nameToGroup group = some log)
    (hlaws : FieldLaws register group value) :
    (value = 0 ∨ value = 1) ∧
      ∀ other ∈ logGroup, other ≠ log → field register other.shift = 0 := by
  have hmem := mem_of_nameToGroup h
  by_cases hrange : 0 ≤ value ∧ value ≤ 7
  · obtain ⟨text, register', mask, hset, hleaves, hget, hmask, hselected, hothers⟩ :=
      hlaws.fits log h hrange.1 hrange.2
    obtain ⟨v, rfl, hint, rfl⟩ := set_eq_ok h hset
    obtain rfl := (leaves_setLine (by omega)).mp hleaves
    rw [get_run h] at hget
    have hpow : 2 ^ log.shift < 2 ^ 32 :=
      Nat.pow_lt_pow_right (by decide) (by have hle := shift_le hmem; omega)
    obtain rfl := getLine_inj hpow hmask (Except.ok.inj hget)
    rw [Int.toNat_natCast, selected_iff] at hselected
    refine ⟨by omega, fun other hother hne => ?_⟩
    rw [← hothers other hother hne]
    exact field_shifted hmem (by omega) hother hne
  · obtain ⟨level, hlevel, hset, hbits⟩ := hlaws.spills log h hrange
    obtain ⟨v, rfl, hint, hline⟩ := set_eq_ok h hset
    obtain rfl := setLine_inj hlevel (by omega) hline
    exact absurd hbits (spilled (by omega))

private theorem fieldLaws_of (h : nameToGroup group = some log) (hvalue : value = 0 ∨ value = 1)
    (hothers : ∀ other ∈ logGroup, other ≠ log → field register other.shift = 0) :
    FieldLaws register group value := by
  have hmem := mem_of_nameToGroup h
  obtain ⟨v, rfl, hv⟩ : ∃ v : Nat, value = v ∧ v ≤ 1 := by
    rcases hvalue with rfl | rfl
    · exact ⟨0, rfl, by decide⟩
    · exact ⟨1, rfl, by decide⟩
  have hpow : 2 ^ log.shift ≤ 2 ^ 27 := Nat.pow_le_pow_right (by decide) (shift_le hmem)
  have hint : v * 2 ^ log.shift < 2 ^ 31 := by
    have hle := Nat.mul_le_mul hv hpow
    omega
  constructor
  · intro log' h' _ _
    obtain rfl : log = log' := Option.some.inj (h.symm.trans h')
    refine ⟨_, v * 2 ^ log.shift, 2 ^ log.shift, set_run h hint, ?_, get_run h, by omega, ?_, ?_⟩
    · exact (leaves_setLine (by omega)).mpr rfl
    · rw [Int.toNat_natCast, selected_iff]
      exact hv
    · intro other hother hne
      rw [field_shifted hmem (by omega) hother hne, hothers other hother hne]
  · intro log' _ hout
    exact absurd ⟨by omega, by omega⟩ hout
  · intro hnone
    rw [hnone] at h
    cases h

/-- The laws hold for an unknown name, and for the values 0 and 1 while all other fields of the
register are zero; in no other case. -/
theorem fieldLaws_iff :
    FieldLaws register group value ↔ nameToGroup group = none ∨
      ∃ log, nameToGroup group = some log ∧ (value = 0 ∨ value = 1) ∧
        ∀ other ∈ logGroup, other ≠ log → field register other.shift = 0 := by
  constructor
  · intro hlaws
    cases h : nameToGroup group with
    | none => exact Or.inl rfl
    | some log => exact Or.inr ⟨log, rfl, fieldLaws_needs h hlaws⟩
  · rintro (hnone | ⟨log, h, hvalue, hothers⟩)
    · refine ⟨fun log h => ?_, fun log h => ?_, fun _ => ⟨notFound group, ?_, ?_⟩⟩
      · rw [hnone] at h
        cases h
      · rw [hnone] at h
        cases h
      · rw [set, hnone]
      · exact Or.inr ⟨fun level _ => notFound_ne_setLine group level, rfl⟩
    · exact fieldLaws_of h hvalue hothers

end

/-- Errors are logged at level 7, and scanning is set to 5. -/
theorem setScan_fails : ¬ FieldLaws 7 ⟨ascii "scan", by decide⟩ 5 := by
  intro hlaws
  have hscan : nameToGroup ⟨ascii "scan", by decide⟩ = some ⟨ascii "scan", 6⟩ := by decide
  exact absurd (fieldLaws_needs hscan hlaws).1 (by decide)

end PerfTools.Scsi
