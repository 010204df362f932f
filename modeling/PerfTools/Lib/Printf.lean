import PerfTools.Lib.Hex
import PerfTools.Lib.Memory

/-!
# Formatted output

Texts are byte lists. A format is the list of its directives together with their arguments, in
the part of the printf language that byte-oriented tools use: literal bytes, strings,
hexadecimal and decimal numbers, with a minimal field width.
-/

namespace PerfTools.Printf

open Memory

abbrev Text := List UInt8

/-- The bytes of a string literal. -/
def ascii (s : String) : Text := s.toList.map fun c => UInt8.ofNat c.toNat

def newline : UInt8 := 10
def space : UInt8 := 32
def zeroDigit : UInt8 := 48
def percent : UInt8 := 37

/-- One directive of a format with the argument it consumes. -/
inductive Directive
  | chr (c : UInt8)
  | str (width : Nat) (arg : CString)
  | hex (pad : UInt8) (upper : Bool) (width : Nat) (arg : Nat)
  | dec (width : Nat) (arg : Int)

abbrev Format := List Directive

/-- The directives of literal text. -/
def lit (s : String) : Format := (ascii s).map .chr

def padLeft (c : UInt8) (width : Nat) (t : Text) : Text :=
  List.replicate (width - t.length) c ++ t

/-- Upper case of a hexadecimal digit. -/
def upperDigit (b : UInt8) : UInt8 := if 97 ≤ b.toNat then b - 32 else b

/-- A number below 2^32 in hexadecimal without leading zeros. -/
def hexDigits (n : Nat) : Text :=
  match (Hex.fixed 8 n).dropWhile (· = zeroDigit) with
  | [] => [zeroDigit]
  | ds => ds

def decDigits (n : Int) : Text :=
  (if n < 0 then ascii "-" else []) ++
    (Nat.toDigits 10 n.natAbs).map fun c => UInt8.ofNat c.toNat

def Directive.text : Directive → Text
  | .chr c => [c]
  | .str width arg => padLeft space width arg.chars
  | .hex pad upper width arg =>
    padLeft pad width ((hexDigits arg).map fun b => if upper then upperDigit b else b)
  | .dec width arg => padLeft space width (decDigits arg)

/-- The string vsprintf leaves in its buffer: the formatted bytes up to the first NUL. -/
def vsprintf (fmt : Format) : CString := cstringOf (fmt.flatMap Directive.text)

/-- The test for an empty format: its first byte is the terminator. -/
def isEmptyFormat : Format → Bool
  | [] => true
  | .chr c :: _ => c == 0
  | _ => false

/-- A string used as a format while no argument is passed. Any directive but the literal
percent sign reads an argument that is not there. -/
def formatNoArgs : List UInt8 → Except Fault Text
  | [] => .ok []
  | [c] => if c = percent then .error .badFormat else .ok [c]
  | c :: d :: cs =>
    if c = percent then
      if d = percent then (formatNoArgs cs).map (c :: ·) else .error .badFormat
    else (formatNoArgs (d :: cs)).map (c :: ·)

theorem formatNoArgs_literal {t : List UInt8} (ht : percent ∉ t) : formatNoArgs t = .ok t := by
  induction t with
  | nil => rfl
  | cons c cs ih =>
    have hc : c ≠ percent := fun h => ht (by simp [h])
    have hcs : percent ∉ cs := fun h => ht (by simp [h])
    cases cs with
    | nil => simp [formatNoArgs, hc]
    | cons d ds => simp [formatNoArgs, hc, ih hcs, Except.map]

private theorem map_eq_ok {ε α β : Type} {f : α → β} {x : Except ε α} {y : β}
    (h : x.map f = .ok y) : ∃ a, x = .ok a ∧ f a = y := by
  cases x with
  | error e => cases h
  | ok a => exact ⟨a, rfl, Except.ok.inj h⟩

/-- A format without arguments prints bytes of its own, and fewer when it has directives. -/
theorem formatNoArgs_printed {t u : Text} (h : formatNoArgs t = .ok u) :
    u ⊆ t ∧ u.length + (if percent ∈ t then 1 else 0) ≤ t.length := by
  induction t using formatNoArgs.induct generalizing u with
  | case1 =>
    cases h
    simp
  | case2 => simp [formatNoArgs] at h
  | case3 c hc =>
    simp only [formatNoArgs, hc, if_false, Except.ok.injEq] at h
    subst h
    simp [Ne.symm hc]
  | case4 cs ih =>
    simp only [formatNoArgs, if_true] at h
    obtain ⟨v, hv, rfl⟩ := map_eq_ok h
    obtain ⟨hmem, hlen⟩ := ih hv
    constructor
    · apply List.cons_subset_cons
      exact List.subset_cons_of_subset _ hmem
    · simp only [List.mem_cons_self, if_true, List.length_cons]
      omega
  | case5 d cs hd => simp [formatNoArgs, hd] at h
  | case6 c d cs hc ih =>
    simp only [formatNoArgs, hc, if_false] at h
    obtain ⟨v, hv, rfl⟩ := map_eq_ok h
    obtain ⟨hmem, hlen⟩ := ih hv
    refine ⟨List.cons_subset_cons _ hmem, ?_⟩
    have hhead : percent ∈ c :: d :: cs ↔ percent ∈ d :: cs := by
      rw [List.mem_cons, or_iff_right (Ne.symm hc)]
    simp only [hhead, List.length_cons] at hlen ⊢
    omega

/-- Only a text without directives is printed as it stands. -/
theorem formatNoArgs_eq_self {t : Text} : formatNoArgs t = .ok t ↔ percent ∉ t := by
  constructor
  · intro h hmem
    have hlen := (formatNoArgs_printed h).2
    rw [if_pos hmem] at hlen
    omega
  · exact formatNoArgs_literal

theorem cstringOf_chars {t : List UInt8} (ht : 0 ∉ t) : (cstringOf t).chars = t := by
  rw [cstringOf, List.takeWhile_eq_self_iff]
  intro b hb
  have hb0 : b ≠ 0 := fun h => ht (h ▸ hb)
  simpa using hb0

/-- The characters a directive needs at most. -/
def Directive.room : Directive → Nat
  | .chr _ => 1
  | .str width arg => max width arg.chars.length
  | .hex _ _ width _ => max width 8
  | .dec width arg => max width (decDigits arg).length

def Format.room (fmt : Format) : Nat := (fmt.map Directive.room).sum

theorem padLeft_length (c : UInt8) (width : Nat) (t : Text) :
    (padLeft c width t).length = max width t.length := by
  simp [padLeft]
  omega

theorem hexDigits_length (n : Nat) : (hexDigits n).length ≤ 8 := by
  unfold hexDigits
  have hle := (List.dropWhile_sublist (· = zeroDigit) (l := Hex.fixed 8 n)).length_le
  rw [Hex.fixed_length] at hle
  cases h : (Hex.fixed 8 n).dropWhile (· = zeroDigit) with
  | nil => simp
  | cons d ds => rwa [h] at hle

theorem decDigits_length {n k : Nat} (hk : 0 < k) (h : n < 10 ^ k) :
    (decDigits n).length ≤ k := by
  rw [decDigits, if_neg (by omega), List.nil_append, List.length_map, Int.natAbs_natCast]
  exact (Nat.length_toDigits_le_iff (by decide) hk).mpr h

theorem hexDigits_nulFree (n : Nat) : 0 ∉ hexDigits n := by
  unfold hexDigits
  cases h : (Hex.fixed 8 n).dropWhile (· = zeroDigit) with
  | nil => decide
  | cons d ds =>
    intro hzero
    have hmem : 0 ∈ Hex.fixed 8 n := by
      apply (List.dropWhile_sublist (· = zeroDigit)).subset
      rw [h]
      exact hzero
    exact absurd (Hex.toNat_of_mem_fixed hmem).1 (by decide)

@[simp] theorem lit_text (s : String) : (lit s).flatMap Directive.text = ascii s := by
  simp [lit, List.flatMap_map, Directive.text]

/-- The format writes n characters, none of them null. -/
def Format.Writes (fmt : Format) (n : Nat) : Prop :=
  0 ∉ fmt.flatMap Directive.text ∧ (fmt.flatMap Directive.text).length = n

namespace Format.Writes

variable {fmt fmt' : Format} {m n : Nat}

theorem append (h : Format.Writes fmt m) (h' : Format.Writes fmt' n) :
    Format.Writes (fmt ++ fmt') (m + n) := by
  unfold Format.Writes
  rw [List.flatMap_append, List.mem_append, List.length_append, h.2, h'.2]
  exact ⟨not_or.mpr ⟨h.1, h'.1⟩, rfl⟩

theorem lit {s : String} (h : 0 ∉ ascii s) : Format.Writes (lit s) (ascii s).length := by
  unfold Format.Writes
  rw [lit_text]
  exact ⟨h, rfl⟩

theorem hex {pad : UInt8} (hpad : pad ≠ 0) (n : Nat) :
    Format.Writes [.hex pad false 8 n] 8 := by
  have hle := hexDigits_length n
  have hnul := hexDigits_nulFree n
  constructor
  · simp [Directive.text, padLeft, hnul, hpad.symm]
  · simp [Directive.text, padLeft_length]
    omega

theorem str (arg : CString) : Format.Writes [.str 0 arg] arg.chars.length := by
  unfold Format.Writes
  simp [Directive.text, padLeft, arg.nulFree]

theorem chars_length (h : Format.Writes fmt n) : (vsprintf fmt).chars.length = n := by
  rw [vsprintf, cstringOf_chars h.1, h.2]

end Format.Writes

theorem Directive.text_hex (n : Nat) : (Directive.hex space false 0 n).text = hexDigits n := by
  simp [text, padLeft]

theorem Directive.text_hexWord (n : Nat) :
    (Directive.hex zeroDigit false 8 n).text = Hex.fixed 8 n := by
  have hsplit := List.takeWhile_append_dropWhile (p := fun b : UInt8 => decide (b = zeroDigit))
    (l := Hex.fixed 8 n)
  have hzeros : (Hex.fixed 8 n).takeWhile (· = zeroDigit) =
      List.replicate ((Hex.fixed 8 n).takeWhile (· = zeroDigit)).length zeroDigit := by
    rw [List.eq_replicate_iff]
    refine ⟨rfl, fun b hb => ?_⟩
    simpa using List.mem_takeWhile_imp hb
  have hlen := congrArg List.length hsplit
  rw [List.length_append, Hex.fixed_length] at hlen
  simp only [text, Bool.false_eq_true, if_false, List.map_id', padLeft, hexDigits]
  cases hrest : (Hex.fixed 8 n).dropWhile (· = zeroDigit) with
  | nil =>
    rw [hrest, List.append_nil] at hsplit
    rw [hrest, List.length_nil, Nat.add_zero] at hlen
    rw [← hsplit, hzeros, hlen]
    rfl
  | cons d ds =>
    rw [hrest] at hlen hsplit
    rw [show 8 - (d :: ds).length =
      ((Hex.fixed 8 n).takeWhile (· = zeroDigit)).length by omega, ← hzeros]
    exact hsplit

theorem Directive.text_hexByte (b : UInt8) :
    (Directive.hex zeroDigit false 2 b.toNat).text = Hex.fixed 2 b.toNat := by
  have hall : ∀ n < 256, (Directive.hex zeroDigit false 2 n).text = Hex.fixed 2 n := by
    decide +kernel
  exact hall b.toNat b.toNat_lt

/-- The bytes of a word, the last one first, are its digits. -/
theorem fixed_leNat (bs : List UInt8) :
    Hex.fixed (2 * bs.length) (leNat bs) = bs.reverse.flatMap fun b => Hex.fixed 2 b.toNat := by
  induction bs with
  | nil => rfl
  | cons b bs ih =>
    have hb : b.toNat < 256 := b.toNat_lt
    have hrest : (b.toNat + 256 * leNat bs) / 16 / 16 = leNat bs := by omega
    have hhigh : (b.toNat + 256 * leNat bs) / 16 % 16 = b.toNat / 16 % 16 := by omega
    have hlow : (b.toNat + 256 * leNat bs) % 16 = b.toNat % 16 := by omega
    rw [List.reverse_cons, List.flatMap_append, ← ih, List.flatMap_singleton, Hex.fixed_two,
      leNat_cons, List.length_cons, Nat.mul_succ, Hex.fixed, Hex.fixed, hrest, hhigh, hlow,
      List.append_assoc]
    rfl

/-- The digits without leading zeros have the same value. -/
private theorem valueFrom_dropZeros (t : Text) :
    Hex.valueFrom 0 (t.dropWhile (· = zeroDigit)) = Hex.valueFrom 0 t := by
  induction t with
  | nil => rfl
  | cons c t ih =>
    by_cases hc : c = zeroDigit
    · subst hc
      simpa [Hex.valueFrom, Hex.digitValue, zeroDigit] using ih
    · rw [List.dropWhile_cons_of_neg (by simpa using hc)]

theorem value_hexDigits {n : Nat} (hn : n < 2 ^ 32) : Hex.value (hexDigits n) = some n := by
  have hfixed : Hex.value (Hex.fixed 8 n) = some n := Hex.value_fixed (by simpa using hn)
  rw [Hex.value, ← valueFrom_dropZeros] at hfixed
  rw [Hex.value, hexDigits]
  cases h : (Hex.fixed 8 n).dropWhile (· = zeroDigit) with
  | nil =>
    rw [h] at hfixed
    exact hfixed
  | cons c cs =>
    rw [h] at hfixed
    exact hfixed

theorem hexDigits_inj {m n : Nat} (hm : m < 2 ^ 32) (hn : n < 2 ^ 32)
    (h : hexDigits m = hexDigits n) : m = n := by
  have hvalue := congrArg Hex.value h
  rw [value_hexDigits hm, value_hexDigits hn] at hvalue
  exact Option.some.inj hvalue

theorem Directive.text_length (d : Directive) : d.text.length ≤ d.room := by
  cases d with
  | chr c => simp [text, room]
  | str width arg => simp [text, room, padLeft_length]
  | hex pad upper width arg =>
    have hle := hexDigits_length arg
    simp [text, room, padLeft_length]
    omega
  | dec width arg => simp [text, room, padLeft_length]

theorem vsprintf_length (fmt : Format) : (vsprintf fmt).chars.length ≤ Format.room fmt := by
  have htext : (fmt.flatMap Directive.text).length ≤ Format.room fmt := by
    rw [Format.room]
    induction fmt with
    | nil => simp
    | cons d ds ih =>
      have hd := d.text_length
      simp only [List.flatMap_cons, List.length_append, List.map_cons, List.sum_cons]
      omega
  exact (List.takeWhile_sublist _).length_le.trans htext

theorem Format.room_append (fmt fmt' : Format) :
    Format.room (fmt ++ fmt') = Format.room fmt + Format.room fmt' := by
  simp [room]

theorem Format.room_lit (t : String) : Format.room (lit t) = (ascii t).length := by
  simp [room, lit, Function.comp_def, Directive.room]

theorem Format.room_hex (a b : String) (pad : UInt8) (upper : Bool) (width n : Nat) :
    Format.room (lit a ++ [.hex pad upper width n] ++ lit b) =
      (ascii a).length + max width 8 + (ascii b).length := by
  rw [room_append, room_append, room_lit, room_lit]
  rfl

end PerfTools.Printf
