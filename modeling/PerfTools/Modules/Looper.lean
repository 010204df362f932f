import PerfTools.Lib.Exec
import PerfTools.Lib.Numbers

/-!
# The looper device

Writing a number to the device of helloworld.c and k_looper.c sets how often the loop of the next
reads runs. The write handler copies into a buffer on the stack and parses what is there, also
after a failed copy; the read handler counts with an int against an unsigned 64-bit bound. The
device as it is meant is `looperSpec`; the handlers agree with it on inputs that are `Fine`.
-/

namespace PerfTools.Modules

open Memory Exec Numbers

/-- EFAULT -/
def efault : Int := 14

/-- A write: the bytes at the user's address, as many as the call asks to write, how many of them
the kernel fails to copy, and what the stack holds where the buffer is. -/
structure UserWrite where
  ubuf : List UInt8
  uncopied : Nat
  kbuf : List UInt8
  uncopied_le : uncopied ≤ ubuf.length
  kbuf_length : kbuf.length = 100

/-- The bytes that are copied. -/
def UserWrite.copied (w : UserWrite) : List UInt8 := w.ubuf.take (w.ubuf.length - w.uncopied)

inductive Op
  | write (w : UserWrite)
  | read

/-- What a call returns; for a read also the number of iterations, none for a loop without end. -/
inductive Result
  | written (rc : Int)
  | looped (iterations : Option Nat)
  deriving DecidableEq, Repr

/-- copy_from_user into the buffer; what is not copied is filled up with zeros. -/
def copyFromUser (w : UserWrite) : Except Fault (List UInt8) :=
  if w.ubuf.length ≤ w.kbuf.length then
    .ok (w.copied ++ List.replicate w.uncopied 0 ++ w.kbuf.drop w.ubuf.length)
  else .error .outOfBounds

/-- simple_strtoull with base 0 on the memory mem; the value wraps. -/
def simpleStrtoull (mem : List UInt8) : Except Fault Nat :=
  if Terminated mem then .ok (number mem % 2 ^ 64) else .error .outOfBounds

/-- k_looper_write, on the variable max. -/
def kLooperWrite (w : UserWrite) : Exec Nat Int := do
  let kbuf ← lift (copyFromUser w)
  let rc : Int := if w.uncopied ≠ 0 then -efault else w.ubuf.length
  let tmp ← lift (simpleStrtoull kbuf)
  runIf (0 < tmp) (modify fun _ => tmp)
  return rc

/-- The loop for (i = 0; i < max; i++) from i on, with the bits of the int as a number. The int
is converted to unsigned long long for the comparison, and wraps. -/
def readLoop (max : Nat) : Nat → Nat → Option Nat
  | 0, _ => none
  | n + 1, i =>
    if (toInt i % 2 ^ 64).toNat < max then (readLoop max n ((i + 1) % 2 ^ 32)).map (· + 1)
    else some 0

/-- k_looper_read; after 2^32 rounds every value of the int has been tried. -/
def kLooperRead : Exec Nat (Option Nat) := do
  let max ← get
  return readLoop max (2 ^ 32) 0

def looperCall : Op → Exec Nat Result
  | .write w => do
    let rc ← kLooperWrite w
    return .written rc
  | .read => do
    let iterations ← kLooperRead
    return .looped iterations

/-- The calls of a run, one after the other. -/
def looperRun : List Op → Exec Nat (List Result)
  | [] => pure []
  | op :: ops => do
    let r ← looperCall op
    let rs ← looperRun ops
    return r :: rs

/-! ## The device as it is meant -/

/-- The number a write denotes, in unsigned long long: a larger one wraps modulo 2^64. -/
def UserWrite.value (w : UserWrite) : Nat := number w.ubuf % 2 ^ 64

def callSpec (max : Nat) : Op → Result × Nat
  | .write w =>
    if w.uncopied ≠ 0 then (.written (-efault), max)
    else (.written w.ubuf.length, if 0 < w.value then w.value else max)
  | .read => (.looped (some max), max)

/-- The results of a run from the bound max on, and the bound behind it. -/
def looperSpec : Nat → List Op → List Result × Nat
  | max, [] => ([], max)
  | max, op :: ops =>
    let (r, max) := callSpec max op
    let (rs, max) := looperSpec max ops
    (r :: rs, max)

/-- Calls with which the handlers do what is meant: the bytes fit, the number ends among them,
what a failed copy has left is no new number, and a read has a bound that an int can reach. -/
def Fine (max : Nat) : Op → Prop
  | .write w => w.ubuf.length ≤ 100 ∧
    if w.uncopied = 0 then Terminated w.ubuf
    else number w.copied % 2 ^ 64 = 0 ∨ number w.copied % 2 ^ 64 = max
  | .read => max ≤ 2 ^ 31

/-- Every call of the run is fine, given the bound it meets. -/
def AllFine : Nat → List Op → Prop
  | _, [] => True
  | max, op :: ops => Fine max op ∧ AllFine (callSpec max op).2 ops

instance (max : Nat) : (op : Op) → Decidable (Fine max op)
  | .write w => inferInstanceAs (Decidable (w.ubuf.length ≤ 100 ∧
      if w.uncopied = 0 then Terminated w.ubuf
      else number w.copied % 2 ^ 64 = 0 ∨ number w.copied % 2 ^ 64 = max))
  | .read => inferInstanceAs (Decidable (max ≤ 2 ^ 31))

instance instDecidableAllFine : (max : Nat) → (ops : List Op) → Decidable (AllFine max ops)
  | _, [] => .isTrue trivial
  | max, op :: ops =>
    have := instDecidableAllFine (callSpec max op).2 ops
    inferInstanceAs (Decidable (Fine max op ∧ AllFine (callSpec max op).2 ops))

/-! ## The loop -/

private theorem asUnsigned {i : Nat} (hi : i < 2 ^ 32) :
    (toInt i % 2 ^ 64).toNat = if i < 2 ^ 31 then i else 2 ^ 64 - 2 ^ 32 + i := by
  rcases toInt_cases hi with ⟨hlt, hint⟩ | ⟨hge, hint⟩
  · rw [hint, if_pos hlt]
    omega
  · rw [hint, if_neg (by omega)]
    omega

theorem readLoop_isSome {max n i : Nat} (hmax : max < 2 ^ 64) (hi : i < 2 ^ 32)
    (hn : 2 ^ 32 ≤ i + n) : (readLoop max n i).isSome := by
  induction n generalizing i with
  | zero => omega
  | succ n ih =>
    rw [readLoop, asUnsigned hi]
    split_ifs with hlow hlt hlt
    · rw [Option.isSome_map, Nat.mod_eq_of_lt (by omega)]
      exact ih (by omega) (by omega)
    · rfl
    · have hnext : i + 1 < 2 ^ 32 := by omega
      rw [Option.isSome_map, Nat.mod_eq_of_lt hnext]
      exact ih hnext (by omega)
    · rfl

theorem readLoop_eq {max n i : Nat} (hmax : max ≤ 2 ^ 31) (hi : i ≤ max) (hn : max - i < n) :
    readLoop max n i = some (max - i) := by
  induction n generalizing i with
  | zero => omega
  | succ n ih =>
    have hint := asUnsigned (show i < 2 ^ 32 by omega)
    rw [readLoop, hint]
    rcases Nat.eq_or_lt_of_le hi with rfl | hlt
    · rw [if_neg (by split_ifs <;> omega), Nat.sub_self]
    · rw [if_pos (show i < 2 ^ 31 by omega), if_pos hlt, Nat.mod_eq_of_lt (by omega),
        ih (by omega) (by omega), Option.map_some]
      congr 1
      omega

/-! ## The handlers -/

private theorem copyFromUser_fits {w : UserWrite} (hlen : w.ubuf.length ≤ 100) :
    copyFromUser w =
      .ok (w.copied ++ List.replicate w.uncopied 0 ++ w.kbuf.drop w.ubuf.length) := by
  rw [copyFromUser, w.kbuf_length, if_pos hlen]

private theorem kbuf_length {w : UserWrite} (hlen : w.ubuf.length ≤ 100) :
    (w.copied ++ List.replicate w.uncopied 0 ++ w.kbuf.drop w.ubuf.length).length = 100 := by
  have hle := w.uncopied_le
  simp only [UserWrite.copied, List.length_append, List.length_take, List.length_replicate,
    List.length_drop, w.kbuf_length]
  omega

/-- What the handler parses: the number that was written, or what a failed copy has left. -/
theorem parsed_eq {w : UserWrite} (hlen : w.ubuf.length ≤ 100)
    (hend : w.uncopied = 0 → Terminated w.ubuf) :
    simpleStrtoull (w.copied ++ List.replicate w.uncopied 0 ++ w.kbuf.drop w.ubuf.length) =
      .ok (number w.copied % 2 ^ 64) := by
  have hkbuf := kbuf_length hlen
  by_cases hall : w.uncopied = 0
  · have hcopied : w.copied = w.ubuf := by
      rw [UserWrite.copied, hall, Nat.sub_zero, List.take_length]
    rw [hall, List.replicate_zero, List.append_nil, hcopied] at hkbuf ⊢
    have hterm := hend hall
    rw [simpleStrtoull, if_pos (hterm.append _ (by omega)), hterm.number_append]
  · obtain ⟨n, hn⟩ := Nat.exists_eq_succ_of_ne_zero hall
    rw [hn, List.replicate_succ, List.append_assoc, List.cons_append] at hkbuf ⊢
    rw [simpleStrtoull, if_pos (terminated_nul _ _ (by omega)), number_nul]

theorem kLooperWrite_eq {w : UserWrite} (max : Nat) (hlen : w.ubuf.length ≤ 100)
    (hend : w.uncopied = 0 → Terminated w.ubuf) :
    kLooperWrite w max = (.ok (if w.uncopied ≠ 0 then -efault else w.ubuf.length),
      if 0 < number w.copied % 2 ^ 64 then number w.copied % 2 ^ 64 else max) := by
  simp only [kLooperWrite, bind_apply, copyFromUser_fits hlen, lift, parsed_eq hlen hend, runIf]
  by_cases hpos : 0 < number w.copied % 2 ^ 64
  · rw [if_pos hpos, if_pos hpos]
    rfl
  · rw [if_neg hpos, if_neg hpos]
    rfl

/-- A fine call does what is meant, whatever the stack held. -/
theorem looperCall_fine {op : Op} {max : Nat} (h : Fine max op) :
    looperCall op max = (.ok (callSpec max op).1, (callSpec max op).2) := by
  cases op with
  | write w =>
    obtain ⟨hlen, hnumber⟩ := h
    by_cases hall : w.uncopied = 0
    · rw [if_pos hall] at hnumber
      have hcopied : w.copied = w.ubuf := by
        rw [UserWrite.copied, hall, Nat.sub_zero, List.take_length]
      simp only [looperCall, bind_apply, kLooperWrite_eq max hlen fun _ => hnumber, callSpec,
        hall, ne_eq, not_true_eq_false, if_false, hcopied, UserWrite.value]
      rfl
    · rw [if_neg hall] at hnumber
      have hkept : (if 0 < number w.copied % 2 ^ 64 then number w.copied % 2 ^ 64 else max) =
          max := by
        split_ifs with hpos
        · rcases hnumber with hzero | hsame
          · omega
          · exact hsame
        · rfl
      simp only [looperCall, bind_apply, kLooperWrite_eq max hlen fun hzero => absurd hzero hall,
        callSpec, hall, ne_eq, not_false_eq_true, if_true, hkept]
      rfl
  | read =>
    have hloop : readLoop max (2 ^ 32) 0 = some max := by
      have hmax : max ≤ 2 ^ 31 := h
      rw [readLoop_eq hmax (Nat.zero_le max) (by omega), Nat.sub_zero]
    change (Except.ok (Result.looped (readLoop max (2 ^ 32) 0)), max) = _
    rw [hloop]
    rfl

/-- A run of fine calls does what is meant. -/
private theorem run_fine {ops : List Op} {max : Nat} (h : AllFine max ops) :
    looperRun ops max = (.ok (looperSpec max ops).1, (looperSpec max ops).2) := by
  induction ops generalizing max with
  | nil => rfl
  | cons op ops ih =>
    obtain ⟨hop, hops⟩ := h
    simp only [looperRun, bind_apply, looperCall_fine hop, ih hops, looperSpec]
    rfl

/-- From its initial bound of 10000 on, the device does what is meant in every run of fine calls:
each read runs its loop as often as the last positive number says that was written. -/
theorem looper_law {ops : List Op} (h : AllFine 10000 ops) :
    looperRun ops 10000 = (.ok (looperSpec 10000 ops).1, (looperSpec 10000 ops).2) := run_fine h

/-- Two bytes of which one cannot be copied. -/
def halfCopied : UserWrite where
  ubuf := [53, 48]
  uncopied := 1
  kbuf := List.replicate 100 0
  uncopied_le := by decide
  kbuf_length := by decide

/-- The failed write sets the bound to the number in the part that was copied. -/
theorem halfCopied_sets_bound :
    ¬ ∀ ops, looperRun ops 10000 =
      (.ok (looperSpec 10000 ops).1, (looperSpec 10000 ops).2) := by
  intro hlaw
  have hbound := congrArg Prod.snd (hlaw [.write halfCopied])
  revert hbound
  decide

/-- The number 300 with a newline, on a stack of digits, and a read. -/
theorem looper_law_threeHundred :
    ∃ w : UserWrite, w.ubuf = [51, 48, 48, 10] ∧ w.kbuf = List.replicate 100 57 ∧
      looperRun [.write w, .read] 10000 = (.ok [.written 4, .looped (some 300)], 300) := by
  let w : UserWrite := ⟨[51, 48, 48, 10], 0, List.replicate 100 57, by decide, by decide⟩
  refine ⟨w, rfl, rfl, @looper_law [.write w, .read] ?_⟩
  decide

end PerfTools.Modules
