import PerfTools.Json.Tokens

/-!
# The language that is read

The texts that JSON.lua accepts, and what they mean: a grammar of values, and that decode accepts
the texts of this grammar and no others.
-/

namespace PerfTools.Json

open Printf Numbers

/-! ## Blanks -/

def Blank (w : Text) : Prop := ∀ c ∈ w, c = 32 ∨ c = 10 ∨ c = 13 ∨ c = 9

instance (w : Text) : Decidable (Blank w) := List.decidableBAll _ w

/-- The text starts with something else than a blank. -/
def Solid (s : Text) : Prop := ∃ c t, s = c :: t ∧ isBlank c = false

section

variable {s t w : Text}

theorem isBlank_iff {c : UInt8} : isBlank c = true ↔ c = 32 ∨ c = 10 ∨ c = 13 ∨ c = 9 :=
  decide_eq_true_iff

theorem Blank.isBlank (hw : Blank w) : ∀ c ∈ w, isBlank c = true :=
  fun c hc => isBlank_iff.mpr (hw c hc)

theorem skipWhitespace_append (hw : Blank w) (s : Text) :
    skipWhitespace (w ++ s) = skipWhitespace s :=
  List.dropWhile_append_of_pos hw.isBlank

theorem Solid.skipWhitespace (h : Solid s) : skipWhitespace s = s := by
  obtain ⟨c, t, rfl, hc⟩ := h
  exact List.dropWhile_cons_of_neg (by rw [hc]; decide)

theorem skipWhitespace_eq (hw : Blank w) (hs : Solid s) : skipWhitespace (w ++ s) = s := by
  rw [skipWhitespace_append hw, hs.skipWhitespace]

theorem exists_blank (s : Text) : ∃ w, s = w ++ skipWhitespace s ∧ Blank w :=
  ⟨s.takeWhile isBlank, List.takeWhile_append_dropWhile.symm,
    fun _ hc => isBlank_iff.mp (List.mem_takeWhile_imp hc)⟩

@[simp] theorem skipWhitespace_skipWhitespace (s : Text) :
    skipWhitespace (skipWhitespace s) = skipWhitespace s := List.dropWhile_idempotent isBlank s

theorem skipWhitespace_length (s : Text) : (skipWhitespace s).length ≤ s.length :=
  List.length_dropWhile_le _ _

end

/-! ## Elements -/

/-- Elements with commas between them, up to the byte that closes them. -/
inductive Elements {α : Type} (close : UInt8) (E : α → Text → Text → Prop) :
    List α → Text → Text → Prop
  | last {x : α} {s w t : Text} (hx : E x s (w ++ close :: t)) (hw : Blank w) :
      Elements close E [x] s t
  | more {x : α} {xs : List α} {s s' w w' t : Text} (hx : E x s (w ++ 44 :: (w' ++ s')))
      (hw : Blank w) (hw' : Blank w') (hxs : Elements close E xs s' t) :
      Elements close E (x :: xs) s t

/-- A key, a colon and a value. -/
def IsField {Num : Type} (strict : Bool) (P : Value Num → Text → Text → Prop)
    (field : Text × Value Num) (s t : Text) : Prop :=
  ∃ w w' u, IsString strict s field.1 (w ++ 58 :: (w' ++ u)) ∧ Blank w ∧ Blank w' ∧ P field.2 u t

/-- The bytes that a value can start with. -/
def IsStart (c : UInt8) : Prop :=
  c = quote ∨ c = 45 ∨ Decimal c ∨ c = 123 ∨ c = 91 ∨ c = 116 ∨ c = 102 ∨ c = 110

theorem IsStart.no_space {c : UInt8} (h : IsStart c) :
    isSpace c = false ∧ c ≠ 0 ∧ c ≠ 60 ∧ c ≠ 93 ∧ c ≠ 125 := by
  rcases h with rfl | rfl | h | rfl | rfl | rfl | rfl | rfl
  iterate 2 decide
  · obtain ⟨hge, hle⟩ := h
    have hne (d : UInt8) (hd : d.toNat < 48 ∨ 57 < d.toNat) : c ≠ d := by
      rintro rfl
      omega
    refine ⟨decide_eq_false ?_, hne 0 (by decide), hne 60 (by decide), hne 93 (by decide),
      hne 125 (by decide)⟩
    rintro (h | ⟨-, hle⟩)
    · exact hne 32 (by decide) h
    · omega
  all_goals decide

theorem isSpace_of_isBlank {c : UInt8} (h : isBlank c = true) : isSpace c = true := by
  rcases isBlank_iff.mp h with rfl | rfl | rfl | rfl <;> decide

/-- A value may start here. -/
def Starts (s : Text) : Prop := ∃ c t, s = c :: t ∧ IsStart c

theorem Starts.solid {s : Text} (h : Starts s) : Solid s := by
  obtain ⟨c, t, hs, hc⟩ := h
  refine ⟨c, t, hs, ?_⟩
  cases hblank : isBlank c with
  | false => rfl
  | true =>
    have hspace := isSpace_of_isBlank hblank
    rw [hc.no_space.1] at hspace
    cases hspace

/-- An element can be told from a blank and from the end of a table, and takes some of the text. -/
structure Proper {α : Type} (E : α → Text → Text → Prop) : Prop where
  starts : ∀ x s t, E x s t → Starts s
  shorter : ∀ x s t, E x s t → t.length < s.length

section

variable {α β : Type} {one : Text → Grok (α × Text)} {E : α → Text → Text → Prop} {close : UInt8}
  {unclosed expected : String} {start s t : Text} {xs : List α}

theorem Elements.starts (hE : Proper E) (h : Elements close E xs s t) : Starts s := by
  cases h with
  | last hx _ => exact hE.starts _ _ _ hx
  | more hx _ _ _ => exact hE.starts _ _ _ hx

theorem Elements.shorter (hE : Proper E) (h : Elements close E xs s t) : t.length < s.length := by
  induction h with
  | last hx _ =>
    have hlt := hE.shorter _ _ _ hx
    simp only [List.length_append, List.length_cons] at hlt
    omega
  | more hx _ _ _ ih =>
    have hlt := hE.shorter _ _ _ hx
    simp only [List.length_append, List.length_cons] at hlt
    omega

theorem grokElements_eq_ok (hclose : close ≠ 44) (hblank : isBlank close = false) (hE : Proper E)
    (hone : ∀ s x t, skipWhitespace s = s → (one s = .ok (x, t) ↔ E x s t)) {n : Nat}
    (hn : s.length ≤ n) (hs : skipWhitespace s = s) :
    grokElements one close unclosed expected start n s = .ok (xs, t) ↔
      Elements close E xs s t := by
  constructor
  · intro h
    induction n generalizing s xs with
    | zero => exact absurd h onDecodeError_ne_ok
    | succ n ih =>
      unfold grokElements at h
      split_ifs at h with hnil
      · exact absurd h onDecodeError_ne_ok
      obtain ⟨⟨x, u⟩, hx, h⟩ := bind_eq_ok.mp h
      have hx := (hone s x u hs).mp hx
      have hlt := hE.shorter x s u hx
      obtain ⟨w, hu, hw⟩ := exists_blank u
      dsimp only at h
      split at h
      · exact absurd h onDecodeError_ne_ok
      rename_i c v hskip
      rw [hskip] at hu
      split_ifs at h with hc hcomma
      · obtain ⟨rfl, rfl⟩ := Prod.mk.inj (Except.ok.inj h)
        rw [hu, hc] at hx
        exact .last hx hw
      · obtain ⟨⟨ys, u'⟩, hys, h⟩ := bind_eq_ok.mp h
        obtain ⟨rfl, rfl⟩ := Prod.mk.inj (Except.ok.inj h)
        obtain ⟨w', hv, hw'⟩ := exists_blank v
        rw [hu, hcomma, hv] at hx
        refine .more hx hw hw' (ih ?_ (skipWhitespace_skipWhitespace v) hys)
        have hle := skipWhitespace_length v
        rw [hu, List.length_append, List.length_cons] at hlt
        omega
      · exact absurd h onDecodeError_ne_ok
  · intro h
    induction h generalizing n with
    | @last x s w t hx hw =>
      have hlt := hE.shorter _ _ _ hx
      obtain ⟨n, rfl⟩ := Nat.exists_eq_add_one_of_ne_zero (by omega : n ≠ 0)
      have hnil : s ≠ [] := by
        rintro rfl
        exact absurd hlt (Nat.not_lt_zero _)
      rw [grokElements, if_neg hnil]
      refine bind_eq_ok.mpr ⟨_, (hone s x _ hs).mpr hx, ?_⟩
      dsimp only
      rw [skipWhitespace_eq hw ⟨close, t, rfl, hblank⟩]
      dsimp only
      rw [if_pos rfl]
      rfl
    | @more x xs s s' w w' t hx hw hw' hxs ih =>
      have hlt := hE.shorter _ _ _ hx
      obtain ⟨n, rfl⟩ := Nat.exists_eq_add_one_of_ne_zero (by omega : n ≠ 0)
      have hnil : s ≠ [] := by
        rintro rfl
        exact absurd hlt (Nat.not_lt_zero _)
      have hsolid := (hxs.starts hE).solid
      simp only [List.length_append, List.length_cons] at hlt
      rw [grokElements, if_neg hnil]
      refine bind_eq_ok.mpr ⟨_, (hone s x _ hs).mpr hx, ?_⟩
      dsimp only
      rw [skipWhitespace_eq hw ⟨44, w' ++ s', rfl, by decide⟩]
      dsimp only
      rw [if_neg hclose.symm, if_pos rfl]
      refine bind_eq_ok.mpr ⟨(xs, t), ?_, rfl⟩
      rw [skipWhitespace_eq hw' hsolid]
      exact ih (by omega) hsolid.skipWhitespace

/-- A table without elements, or with some. -/
def IsTable (close : UInt8) (E : α → Text → Text → Prop) (xs : List α) (s t : Text) : Prop :=
  ∃ w u, s = w ++ u ∧ Blank w ∧ (xs = [] ∧ u = close :: t ∨ Elements close E xs u t)

theorem IsTable.shorter (hE : Proper E) (h : IsTable close E xs s t) : t.length < s.length := by
  obtain ⟨w, u, rfl, -, ⟨-, rfl⟩ | hxs⟩ := h
  · simp only [List.length_append, List.length_cons]
    omega
  · have hlt := hxs.shorter hE
    rw [List.length_append]
    omega

theorem grokTable_eq_ok (hclose : close = 93 ∨ close = 125) (hE : Proper E)
    (hone : ∀ s x t, skipWhitespace s = s → (one s = .ok (x, t) ↔ E x s t)) {make : List α → β}
    {y : β} :
    grokTable one close unclosed expected make start s = .ok (y, t) ↔
      ∃ xs, y = make xs ∧ IsTable close E xs s t := by
  have hcomma : close ≠ 44 := by rcases hclose with rfl | rfl <;> decide
  have hblank : isBlank close = false := by rcases hclose with rfl | rfl <;> decide
  have hread {xs : List α} : grokElements one close unclosed expected start
      (skipWhitespace s).length (skipWhitespace s) = .ok (xs, t) ↔
        Elements close E xs (skipWhitespace s) t :=
    grokElements_eq_ok hcomma hblank hE hone le_rfl (skipWhitespace_skipWhitespace s)
  rw [grokTable]
  dsimp only
  constructor
  · intro h
    obtain ⟨w, hs, hw⟩ := exists_blank s
    split_ifs at h with hempty
    · obtain ⟨rfl, rfl⟩ := Prod.mk.inj (Except.ok.inj h)
      obtain ⟨u, hu⟩ := List.head?_eq_some_iff.mp hempty
      refine ⟨[], rfl, w, skipWhitespace s, hs, hw, Or.inl ⟨rfl, ?_⟩⟩
      rw [hu]
      rfl
    · obtain ⟨⟨xs, u⟩, hxs, h⟩ := bind_eq_ok.mp h
      obtain ⟨rfl, rfl⟩ := Prod.mk.inj (Except.ok.inj h)
      exact ⟨xs, rfl, w, skipWhitespace s, hs, hw, Or.inr (hread.mp hxs)⟩
  · rintro ⟨xs, rfl, w, u, rfl, hw, ⟨rfl, rfl⟩ | hxs⟩
    · rw [skipWhitespace_eq hw ⟨close, t, rfl, hblank⟩]
      exact if_pos rfl
    · have hstarts := hxs.starts hE
      rw [skipWhitespace_eq hw hstarts.solid] at hread ⊢
      rw [if_neg]
      · exact bind_eq_ok.mpr ⟨_, hread.mpr hxs, rfl⟩
      · obtain ⟨c, v, rfl, hc⟩ := hstarts
        obtain ⟨-, -, -, hbracket, hbrace⟩ := hc.no_space
        intro hhead
        obtain rfl := Option.some.inj hhead
        rcases hclose with rfl | rfl
        · exact hbracket rfl
        · exact hbrace rfl

end

/-! ## Tables -/

section

variable {Num : Type}

/-- The values of an array up to the last one that is not nil. -/
structure UpToLast (vals items : List (Value Num)) : Prop where
  nils : ∃ n, vals = items ++ List.replicate n .nil
  last : ∀ v, items.getLast? = some v → v ≠ .nil

/-- The fields of an object: the last one with a name counts, and it is none when its value is
nil. -/
inductive LastFields : List (Text × Value Num) → List (Text × Value Num) → Prop
  | nil : LastFields [] []
  | drop {field : Text × Value Num} {fields lasts : List (Text × Value Num)}
      (h : field.2 = .nil ∨ field.1 ∈ fields.map Prod.fst) (hrest : LastFields fields lasts) :
      LastFields (field :: fields) lasts
  | keep {field : Text × Value Num} {fields lasts : List (Text × Value Num)}
      (hnil : field.2 ≠ .nil) (hlast : field.1 ∉ fields.map Prod.fst)
      (hrest : LastFields fields lasts) : LastFields (field :: fields) (field :: lasts)

variable {vals items : List (Value Num)} {fields lasts : List (Text × Value Num)} {v : Value Num}

theorem isNil_iff : v.isNil = true ↔ v = .nil := by
  cases v <;> simp [Value.isNil]

theorem withoutLastNils_eq_iff : Value.withoutLastNils vals = items ↔ UpToLast vals items := by
  constructor
  · rintro rfl
    refine ⟨⟨(vals.rtakeWhile Value.isNil).length, ?_⟩, fun v hv hnil => ?_⟩
    · have hnils : vals.rtakeWhile Value.isNil =
          List.replicate (vals.rtakeWhile Value.isNil).length .nil :=
        List.eq_replicate_iff.mpr ⟨rfl, fun v hv => isNil_iff.mp (List.mem_rtakeWhile_imp hv)⟩
      rw [← hnils]
      exact List.rdropWhile_append_rtakeWhile.symm
    · have hne : Value.withoutLastNils vals ≠ [] := fun h => by
        rw [h] at hv
        cases hv
      rw [List.getLast?_eq_some_getLast hne] at hv
      exact List.rdropWhile_last_not Value.isNil vals hne
        (isNil_iff.mpr ((Option.some.inj hv).trans hnil))
  · rintro ⟨⟨n, rfl⟩, hlast⟩
    induction n with
    | zero =>
      rw [List.replicate_zero, List.append_nil, Value.withoutLastNils,
        List.rdropWhile_eq_self_iff]
      exact fun hne hnil => hlast _ (List.getLast?_eq_some_getLast hne) (isNil_iff.mp hnil)
    | succ n ih =>
      rw [List.replicate_succ', ← List.append_assoc, Value.withoutLastNils,
        List.rdropWhile_concat_pos _ _ _ rfl]
      exact ih

theorem exists_lastFields (fields : List (Text × Value Num)) : ∃ lasts, LastFields fields lasts := by
  induction fields with
  | nil => exact ⟨[], .nil⟩
  | cons field fields ih =>
    obtain ⟨lasts, hrest⟩ := ih
    by_cases h : field.2 = .nil ∨ field.1 ∈ fields.map Prod.fst
    · exact ⟨lasts, .drop h hrest⟩
    · rw [not_or] at h
      exact ⟨field :: lasts, .keep h.1 h.2 hrest⟩

theorem filter_others (acc : List (Text × Value Num)) (key : Text) (keys : List Text) :
    ((acc.filter fun field => field.1 ≠ key).filter fun field => field.1 ∉ keys) =
      acc.filter fun field => field.1 ∉ key :: keys := by
  rw [List.filter_filter]
  refine List.filter_congr fun field _ => ?_
  simp [Bool.and_comm]

/-- A new table has the fields that count, behind those that it has had under other names. -/
theorem LastFields.foldl_assign (h : LastFields fields lasts) (acc : List (Text × Value Num)) :
    fields.foldl (fun fields val => Value.assign fields val.1 val.2) acc =
      (acc.filter fun field => field.1 ∉ fields.map Prod.fst) ++ lasts := by
  induction h generalizing acc with
  | nil => simp
  | @drop field fields lasts hdrop _ ih =>
    rw [List.foldl_cons, ih, List.map_cons, ← filter_others, Value.assign]
    split_ifs with hnil
    · rfl
    · have hmem := hdrop.resolve_left fun h => hnil (isNil_iff.mpr h)
      rw [List.filter_append, List.filter_cons_of_neg (by simpa using hmem), List.filter_nil,
        List.append_nil]
  | @keep field fields lasts hnil hlast _ ih =>
    rw [List.foldl_cons, ih, List.map_cons, ← filter_others, Value.assign,
      if_neg fun h => hnil (isNil_iff.mp h), List.filter_append,
      List.filter_cons_of_pos (by simpa using hlast), List.filter_nil, List.append_assoc]
    rfl

end

/-! ## Values -/

section

variable {Num : Type} (lua : LuaNumbers Num) (o : DecodeOptions)

/-- One value; P are the values in the tables. -/
inductive IsValue (P : Value Num → Text → Text → Prop) : Value Num → Text → Text → Prop
  | string {value s t : Text} (h : IsString o.strictParsing s value t) :
      IsValue P (.string value) s t
  | number {integer decimal exponent t : Text} {value : Value Num}
      (h : IsNumber integer decimal exponent t)
      (hvalue : NumberMeans lua o integer decimal exponent value) :
      IsValue P value (integer ++ (decimal ++ (exponent ++ t))) t
  | true (t : Text) : IsValue P (.boolean true) (ascii "true" ++ t) t
  | false (t : Text) : IsValue P (.boolean false) (ascii "false" ++ t) t
  | null (h : o.null = none) (t : Text) : IsValue P .nil (ascii "null" ++ t) t
  | nullString {value : Text} (h : o.null = some value) (t : Text) :
      IsValue P (.string value) (ascii "null" ++ t) t
  | array {s t : Text} {vals items : List (Value Num)} (h : IsTable 93 P vals s t)
      (hitems : UpToLast vals items) :
      IsValue P (.table (if o.strictTypes then some .array else none) items []) (91 :: s) t
  | object {s t : Text} {fields lasts : List (Text × Value Num)}
      (h : IsTable 125 (IsField o.strictParsing P) fields s t) (hlasts : LastFields fields lasts) :
      IsValue P (.table (if o.strictTypes then some .object else none) [] lasts) (123 :: s) t

/-- A value with tables in it that are nested fewer than n deep. -/
def Reads : Nat → Value Num → Text → Text → Prop
  | 0 => fun _ _ _ => False
  | n + 1 => IsValue lua o (Reads n)

end

section

variable {Num : Type} {lua : LuaNumbers Num} {o : DecodeOptions} {value : Value Num} {s t : Text}
  {P : Value Num → Text → Text → Prop} {strict : Bool}

theorem Characters.shorter {v : Text} (h : Characters strict s v t) : t.length < s.length := by
  induction h with
  | done t => exact Nat.lt_succ_self _
  | more hpiece _ ih => exact ih.trans hpiece.length_lt

theorem proper_field (hP : Proper P) : Proper (IsField strict P) where
  starts := by
    rintro field s t ⟨w, w', u, ⟨s', rfl, -⟩, -⟩
    exact ⟨quote, s', rfl, Or.inl rfl⟩
  shorter := by
    rintro field s t ⟨w, w', u, ⟨s', rfl, hkey⟩, -, -, hval⟩
    have hlt := hP.shorter _ _ _ hval
    have hlt' := hkey.shorter
    simp only [List.length_append, List.length_cons] at hlt' ⊢
    omega

theorem IsNumber.first {integer decimal exponent t : Text}
    (h : IsNumber integer decimal exponent t) :
    ∃ c u, integer = c :: u ∧ (c = 45 ∨ Decimal c) := by
  cases h.integer with
  | zero hsign =>
    rcases hsign with rfl | rfl
    · exact ⟨48, [], rfl, Or.inr (by decide)⟩
    · exact ⟨45, [48], rfl, Or.inl rfl⟩
  | @digits sign ds t c hsign hc hds =>
    rcases hsign with rfl | rfl
    · exact ⟨c, ds, rfl, Or.inr (hds.digits c List.mem_cons_self)⟩
    · exact ⟨45, c :: ds, rfl, Or.inl rfl⟩

theorem shorter_append {s : Text} (hs : s ≠ []) : t.length < (s ++ t).length := by
  have hpos := List.length_pos_iff.mpr hs
  rw [List.length_append]
  omega

theorem proper_value (hP : Proper P) : Proper (IsValue lua o P) where
  starts := by
    intro v s t h
    cases h with
    | string h =>
      obtain ⟨s', rfl, -⟩ := h
      exact ⟨quote, s', rfl, Or.inl rfl⟩
    | number h _ =>
      obtain ⟨c, u, rfl, hc⟩ := h.first
      exact ⟨c, _, rfl, Or.inr (hc.imp_right Or.inl)⟩
    | true t => exact ⟨116, _, rfl, by simp [IsStart]⟩
    | false t => exact ⟨102, _, rfl, by simp [IsStart]⟩
    | null _ t => exact ⟨110, _, rfl, by simp [IsStart]⟩
    | nullString _ t => exact ⟨110, _, rfl, by simp [IsStart]⟩
    | array _ _ => exact ⟨91, _, rfl, by simp [IsStart]⟩
    | object _ _ => exact ⟨123, _, rfl, by simp [IsStart]⟩
  shorter := by
    intro v s t h
    cases h with
    | string h =>
      obtain ⟨s', rfl, h⟩ := h
      exact h.shorter.trans (Nat.lt_succ_self _)
    | number h _ =>
      obtain ⟨c, u, rfl, hc⟩ := h.first
      simp only [List.length_append, List.length_cons]
      omega
    | true t => exact shorter_append (by decide)
    | false t => exact shorter_append (by decide)
    | null _ t => exact shorter_append (by decide)
    | nullString _ t => exact shorter_append (by decide)
    | array h _ => exact (h.shorter hP).trans (Nat.lt_succ_self _)
    | object h _ => exact (h.shorter (proper_field hP)).trans (Nat.lt_succ_self _)

theorem proper_reads (lua : LuaNumbers Num) (o : DecodeOptions) (n : Nat) :
    Proper (Reads lua o n) := by
  induction n with
  | zero => exact ⟨fun _ _ _ => False.elim, fun _ _ _ => False.elim⟩
  | succ n ih => exact proper_value ih

section

variable {grokOne : Text → Grok (Value Num × Text)}

theorem grokField_eq_ok (hP : Proper P)
    (hone : ∀ s v t, skipWhitespace s = s → (grokOne s = .ok (v, t) ↔ P v s t))
    {field : Text × Value Num} :
    grokField o grokOne s = .ok (field, t) ↔ IsField o.strictParsing P field s t := by
  constructor
  · intro h
    obtain ⟨⟨key, u⟩, hkey, h⟩ := bind_eq_ok.mp h
    obtain ⟨w, hu, hw⟩ := exists_blank u
    dsimp only at h
    split at h
    · exact absurd h onDecodeError_ne_ok
    rename_i c v hskip
    split_ifs at h with hcolon
    · exact absurd h onDecodeError_ne_ok
    obtain ⟨⟨val, u'⟩, hval, h⟩ := bind_eq_ok.mp h
    obtain ⟨rfl, rfl⟩ := Prod.mk.inj (Except.ok.inj h)
    obtain ⟨w', hv, hw'⟩ := exists_blank v
    obtain rfl : c = 58 := by simpa using hcolon
    refine ⟨w, w', skipWhitespace v, ?_, hw, hw', ?_⟩
    · rw [← hv, ← hskip, ← hu]
      exact grokString_eq_ok.mp hkey
    · exact (hone _ _ _ (skipWhitespace_skipWhitespace v)).mp hval
  · rintro ⟨w, w', u, hkey, hw, hw', hval⟩
    have hsolid := (hP.starts _ _ _ hval).solid
    refine bind_eq_ok.mpr ⟨_, grokString_eq_ok.mpr hkey, ?_⟩
    dsimp only
    rw [skipWhitespace_eq hw ⟨58, _, rfl, by decide⟩]
    dsimp only
    rw [if_neg (by simp), skipWhitespace_eq hw' hsolid]
    exact bind_eq_ok.mpr ⟨_, (hone u _ t hsolid.skipWhitespace).mpr hval, rfl⟩

theorem grokArray_eq_ok (hP : Proper P)
    (hone : ∀ s v t, skipWhitespace s = s → (grokOne s = .ok (v, t) ↔ P v s t)) :
    grokArray o grokOne (91 :: s) = .ok (value, t) ↔ ∃ vals items,
      value = .table (if o.strictTypes then some .array else none) items [] ∧
        UpToLast vals items ∧ IsTable 93 P vals s t := by
  rw [grokArray, if_neg (by simp), grokTable_eq_ok (Or.inl rfl) hP hone]
  refine exists_congr fun vals => ?_
  constructor
  · rintro ⟨rfl, h⟩
    exact ⟨_, rfl, withoutLastNils_eq_iff.mp rfl, h⟩
  · rintro ⟨items, rfl, hitems, h⟩
    rw [← withoutLastNils_eq_iff.mpr hitems]
    exact ⟨rfl, h⟩

theorem grokObject_eq_ok (hP : Proper P)
    (hone : ∀ s v t, skipWhitespace s = s → (grokOne s = .ok (v, t) ↔ P v s t)) :
    grokObject o grokOne (123 :: s) = .ok (value, t) ↔ ∃ fields lasts,
      value = .table (if o.strictTypes then some .object else none) [] lasts ∧
        LastFields fields lasts ∧ IsTable 125 (IsField o.strictParsing P) fields s t := by
  rw [grokObject, if_neg (by simp), grokTable_eq_ok (Or.inr rfl) (proper_field hP)
    fun s x t _ => grokField_eq_ok hP hone]
  refine exists_congr fun fields => ?_
  have hnew {lasts : List (Text × Value Num)} (hlasts : LastFields fields lasts) :
      o.newObject fields = .table (if o.strictTypes then some .object else none) [] lasts := by
    rw [DecodeOptions.newObject, hlasts.foldl_assign, List.filter_nil, List.nil_append]
  constructor
  · rintro ⟨rfl, h⟩
    obtain ⟨lasts, hlasts⟩ := exists_lastFields fields
    exact ⟨lasts, hnew hlasts, hlasts, h⟩
  · rintro ⟨lasts, rfl, hlasts, h⟩
    exact ⟨(hnew hlasts).symm, h⟩

end

theorem not_prefix {d : UInt8} {word : Text} (hword : ∃ c w, word = c :: w ∧ c ≠ d) :
    ¬ word <+: d :: s := by
  obtain ⟨c, w, rfl, hne⟩ := hword
  exact fun h => hne (List.cons_prefix_cons.mp h).1

theorem word_eq {word : Text} (h : word <+: s) : s = word ++ s.drop word.length := by
  obtain ⟨u, rfl⟩ := h
  rw [List.drop_left]

theorem grokOne_succ {n : Nat} {c : UInt8} (hs : skipWhitespace (c :: s) = c :: s) :
    grokOne lua o (n + 1) (c :: s) =
      if c = quote then do
        let (v, t) ← grokString o (c :: s)
        return (.string v, t)
      else if c = 45 ∨ isDecimal c then grokNumber lua o (c :: s)
      else if c = 123 then grokObject o (grokOne lua o n) (c :: s)
      else if c = 91 then grokArray o (grokOne lua o n) (c :: s)
      else if ascii "true" <+: c :: s then .ok (.boolean true, (c :: s).drop 4)
      else if ascii "false" <+: c :: s then .ok (.boolean false, (c :: s).drop 5)
      else if ascii "null" <+: c :: s then .ok (o.nullValue, (c :: s).drop 4)
      else onDecodeError "can't parse JSON" (c :: s) := by
  rw [grokOne]
  dsimp only
  rw [hs]

theorem isValue_null (t : Text) : IsValue lua o P o.nullValue (ascii "null" ++ t) t := by
  unfold DecodeOptions.nullValue
  split
  · exact .null ‹_› t
  · exact .nullString ‹_› t

theorem grokOne_null {n : Nat} (hs : skipWhitespace (ascii "null" ++ t) = ascii "null" ++ t) :
    grokOne lua o (n + 1) (ascii "null" ++ t) = .ok (o.nullValue, t) := by
  have hprefix : ascii "null" <+: ascii "null" ++ t := List.prefix_append _ _
  rw [show ascii "null" ++ t = 110 :: (ascii "ull" ++ t) from rfl] at hs hprefix ⊢
  have htrue : ¬ ascii "true" <+: 110 :: (ascii "ull" ++ t) :=
    not_prefix ⟨116, _, rfl, by decide⟩
  have hfalse : ¬ ascii "false" <+: 110 :: (ascii "ull" ++ t) :=
    not_prefix ⟨102, _, rfl, by decide⟩
  rw [grokOne_succ hs, if_neg (by decide), if_neg (by decide), if_neg (by decide),
    if_neg (by decide), if_neg htrue, if_neg hfalse, if_pos hprefix]
  rfl

theorem grokOne_eq_ok {n : Nat} (hs : skipWhitespace s = s) :
    grokOne lua o n s = .ok (value, t) ↔ Reads lua o n value s t := by
  induction n generalizing s value t with
  | zero =>
    constructor
    · intro h
      cases h
    · exact False.elim
  | succ n ih =>
    have hP := proper_reads lua o n
    have hone (s : Text) (v : Value Num) (t : Text) (hs : skipWhitespace s = s) :
      grokOne lua o n s = .ok (v, t) ↔ Reads lua o n v s t := ih hs
    constructor
    · intro h
      cases s with
      | nil => cases h
      | cons c u =>
        rw [grokOne_succ hs] at h
        split_ifs at h with hquote hnumber hbrace hbracket htrue hfalse hnull
        · obtain ⟨⟨v, t'⟩, hv, h⟩ := bind_eq_ok.mp h
          obtain ⟨rfl, rfl⟩ := Prod.mk.inj (Except.ok.inj h)
          exact .string (grokString_eq_ok.mp hv)
        · obtain ⟨integer, decimal, exponent, hs, hnum, hvalue⟩ := grokNumber_eq_ok.mp h
          rw [hs]
          exact .number hnum hvalue
        · subst hbrace
          obtain ⟨fields, lasts, rfl, hlasts, hfields⟩ := (grokObject_eq_ok hP hone).mp h
          exact .object hfields hlasts
        · subst hbracket
          obtain ⟨vals, items, rfl, hitems, hvals⟩ := (grokArray_eq_ok hP hone).mp h
          exact .array hvals hitems
        · obtain ⟨rfl, rfl⟩ := Prod.mk.inj (Except.ok.inj h)
          rw [word_eq htrue]
          exact .true _
        · obtain ⟨rfl, rfl⟩ := Prod.mk.inj (Except.ok.inj h)
          rw [word_eq hfalse]
          exact .false _
        · obtain ⟨rfl, rfl⟩ := Prod.mk.inj (Except.ok.inj h)
          rw [word_eq hnull]
          exact isValue_null _
        · exact absurd h onDecodeError_ne_ok
    · intro h
      cases h with
      | string h =>
        obtain ⟨u, rfl, hu⟩ := h
        rw [grokOne_succ hs, if_pos rfl]
        exact bind_eq_ok.mpr ⟨_, grokString_eq_ok.mpr ⟨u, rfl, hu⟩, rfl⟩
      | @number integer decimal exponent _ _ h hvalue =>
        have hread := grokNumber_eq_ok.mpr ⟨integer, decimal, exponent, rfl, h, hvalue⟩
        obtain ⟨c, u, rfl, hc⟩ := h.first
        rw [List.cons_append] at hs hread ⊢
        rw [grokOne_succ hs, if_neg, if_pos (hc.imp_right isDecimal_iff.mpr)]
        · exact hread
        · rintro rfl
          exact absurd hc (by decide)
      | true t =>
        have hprefix : ascii "true" <+: ascii "true" ++ t := List.prefix_append _ _
        rw [show ascii "true" ++ t = 116 :: (ascii "rue" ++ t) from rfl] at hs hprefix ⊢
        rw [grokOne_succ hs, if_neg (by decide), if_neg (by decide), if_neg (by decide),
          if_neg (by decide), if_pos hprefix]
        rfl
      | false t =>
        have hprefix : ascii "false" <+: ascii "false" ++ t := List.prefix_append _ _
        rw [show ascii "false" ++ t = 102 :: (ascii "alse" ++ t) from rfl] at hs hprefix ⊢
        have htrue : ¬ ascii "true" <+: 102 :: (ascii "alse" ++ t) :=
          not_prefix ⟨116, _, rfl, by decide⟩
        rw [grokOne_succ hs, if_neg (by decide), if_neg (by decide), if_neg (by decide),
          if_neg (by decide), if_neg htrue, if_pos hprefix]
        rfl
      | null hnone t => rw [grokOne_null hs, DecodeOptions.nullValue, hnone]
      | nullString hsome t => rw [grokOne_null hs, DecodeOptions.nullValue, hsome]
      | array h hitems =>
        rw [grokOne_succ hs, if_neg (by decide), if_neg (by decide), if_neg (by decide),
          if_pos rfl]
        exact (grokArray_eq_ok hP hone).mpr ⟨_, _, rfl, hitems, h⟩
      | object h hlasts =>
        rw [grokOne_succ hs, if_neg (by decide), if_neg (by decide), if_pos rfl]
        exact (grokObject_eq_ok hP hone).mpr ⟨_, _, rfl, hlasts, h⟩

/-- A value with blanks around it. -/
def IsText (lua : LuaNumbers Num) (o : DecodeOptions) (stack : Nat) (value : Value Num)
    (text : Text) : Prop :=
  ∃ w s t, text = w ++ s ∧ Blank w ∧ Reads lua o stack value s t ∧ Blank t

theorem grokOne_skip {n : Nat} : grokOne lua o n s = grokOne lua o n (skipWhitespace s) := by
  cases n with
  | zero => rfl
  | succ n => rw [grokOne, grokOne, skipWhitespace_skipWhitespace]

/-- A value with blanks around it is accepted. -/
theorem decode_of_isText {stack : Nat} {text : Text} (hone : text[1]? ≠ some 0)
    (h : IsText lua o stack value text) : decode lua o stack text = .ok value := by
  obtain ⟨w, s, t, rfl, hw, hread, ht⟩ := h
  have hgrok : grokOne lua o stack (skipWhitespace (w ++ s)) = .ok (value, t) ↔
      Reads lua o stack value (skipWhitespace (w ++ s)) t :=
    grokOne_eq_ok (skipWhitespace_skipWhitespace (w ++ s))
  have hstarts := (proper_reads lua o stack).starts _ _ _ hread
  obtain ⟨c, u, rfl, hc⟩ := id hstarts
  obtain ⟨hspace, hnul, hhtml, -⟩ := hc.no_space
  have hall : ∀ d ∈ w, isSpace d = true := fun d hd => isSpace_of_isBlank (hw.isBlank d hd)
  have hzero : (w ++ c :: u)[0]? ≠ some 0 := by
    cases w with
    | nil => simpa using hnul
    | cons d w =>
      have hd := hall d List.mem_cons_self
      intro hd0
      obtain rfl : d = 0 := by simpa using hd0
      exact absurd hd (by decide)
  have hdrop : (w ++ c :: u).dropWhile isSpace = c :: u := by
    rw [List.dropWhile_append_of_pos hall, List.dropWhile_cons_of_neg (by simp [hspace])]
  have hskip : skipWhitespace (w ++ c :: u) = c :: u := skipWhitespace_eq hw hstarts.solid
  have hend : skipWhitespace t = [] := List.dropWhile_eq_nil_iff.mpr ht.isBlank
  have hnot : ¬ (w ++ c :: u).all isSpace = true := fun hall => by
    rw [List.all_eq_true.mp hall c (by simp)] at hspace
    cases hspace
  rw [decode, if_neg hnot, if_neg, if_neg (fun hor => hor.elim hzero hone), grokOne_skip,
    hgrok.mpr (hskip.symm ▸ hread)]
  · dsimp only
    rw [hend, if_pos rfl]
  · rw [hdrop]
    exact fun hhead => hhtml (Option.some.inj hhead)

/-- A text is accepted when it is a value with blanks around it, or all blank, which means nil
unless strictParsing forbids it. -/
theorem decode_eq_ok {stack : Nat} {text : Text} :
    decode lua o stack text = .ok value ↔
      (text.all isSpace = true ∧ o.strictParsing = false ∧ value = .nil) ∨
      (text[1]? ≠ some 0 ∧ IsText lua o stack value text) := by
  constructor
  · intro h
    rw [decode] at h
    split_ifs at h with hspace hstrict hhtml hnul
    · obtain rfl := Except.ok.inj h
      exact Or.inl ⟨hspace, by simpa using hstrict, rfl⟩
    · right
      refine ⟨fun hone => hnul (Or.inr hone), ?_⟩
      split at h
      · cases h
      · rename_i v t hv
        rw [grokOne_skip] at hv
        have hread := (grokOne_eq_ok (skipWhitespace_skipWhitespace text)).mp hv
        obtain ⟨w, hw, hblank⟩ := exists_blank text
        obtain ⟨w', hw', hblank'⟩ := exists_blank t
        dsimp only at h
        split_ifs at h with hnil
        obtain rfl := Except.ok.inj h
        rw [hnil, List.append_nil] at hw'
        exact ⟨w, skipWhitespace text, t, hw, hblank, hread, hw' ▸ hblank'⟩
  · rintro (⟨hspace, hstrict, rfl⟩ | ⟨hone, h⟩)
    · rw [decode, if_pos hspace, if_neg (by simp [hstrict])]
    · exact decode_of_isText hone h

end

end PerfTools.Json
