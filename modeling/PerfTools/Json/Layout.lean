import PerfTools.Json.Documents
import PerfTools.Json.Grammar

/-!
# Reading what is written

A document that is written with any layout of blanks is read as what it means. How deep the tables
in a text are nested is bounded by its length, so a stack as long as the text is always enough.
-/

namespace PerfTools.Json

open Printf Numbers

/-! ## Nesting -/

section

variable {α : Type} {E E' : α → Text → Text → Prop} {close : UInt8} {xs : List α} {s t : Text}

theorem Elements.mono (hE : Proper E) (h : Elements close E xs s t)
    (hle : ∀ x u t, u.length ≤ s.length → E x u t → E' x u t) : Elements close E' xs s t := by
  induction h with
  | last hx hw => exact .last (hle _ _ _ le_rfl hx) hw
  | more hx hw hw' _ ih =>
    refine .more (hle _ _ _ le_rfl hx) hw hw' (ih fun x u t hu => hle x u t ?_)
    have hlt := hE.shorter _ _ _ hx
    simp only [List.length_append, List.length_cons] at hlt
    omega

theorem IsTable.mono (hE : Proper E) (h : IsTable close E xs s t)
    (hle : ∀ x u t, u.length ≤ s.length → E x u t → E' x u t) : IsTable close E' xs s t := by
  obtain ⟨w, u, rfl, hw, hnil | hxs⟩ := h
  · exact ⟨w, u, rfl, hw, Or.inl hnil⟩
  · refine ⟨w, u, rfl, hw, Or.inr (hxs.mono hE fun x u' t hu => hle x u' t ?_)⟩
    rw [List.length_append]
    omega

variable {Num : Type} {lua : LuaNumbers Num} {o : DecodeOptions} {value : Value Num}
  {P Q : Value Num → Text → Text → Prop}

theorem IsValue.mono (hP : Proper P) (h : IsValue lua o P value s t)
    (hle : ∀ v u t, u.length < s.length → P v u t → Q v u t) : IsValue lua o Q value s t := by
  cases h with
  | string h => exact .string h
  | number h hvalue => exact .number h hvalue
  | true => exact .true t
  | false => exact .false t
  | null hnone => exact .null hnone t
  | nullString hsome => exact .nullString hsome t
  | array h hitems =>
    exact .array (h.mono hP fun v u t hu => hle v u t (Nat.lt_succ_of_le hu)) hitems
  | object h hlasts =>
    refine .object (h.mono (proper_field hP) ?_) hlasts
    rintro field u t hu ⟨w, w', u', hkey, hw, hw', hvalue⟩
    refine ⟨w, w', u', hkey, hw, hw', hle _ _ _ ?_ hvalue⟩
    obtain ⟨s', rfl, hchars⟩ := hkey
    have hlt := hchars.shorter
    simp only [List.length_append, List.length_cons] at hlt hu ⊢
    omega

theorem Reads.of_length {n m : Nat} (h : Reads lua o n value s t) (hm : s.length ≤ m) :
    Reads lua o m value s t := by
  have hpos := (proper_reads lua o n).shorter _ _ _ h
  induction m generalizing n value s t with
  | zero => omega
  | succ m ih =>
    cases n with
    | zero => exact h.elim
    | succ n =>
      refine IsValue.mono (proper_reads lua o n) h fun v u t' hu hv => ?_
      exact ih hv (by omega) ((proper_reads lua o n).shorter _ _ _ hv)

/-- A value with tables that are nested to any depth. -/
def ReadsSome (lua : LuaNumbers Num) (o : DecodeOptions) (value : Value Num) (s t : Text) : Prop :=
  ∃ n, Reads lua o n value s t

theorem proper_readsSome : Proper (ReadsSome lua o) where
  starts := by
    rintro v s t ⟨n, h⟩
    exact (proper_reads lua o n).starts _ _ _ h
  shorter := by
    rintro v s t ⟨n, h⟩
    exact (proper_reads lua o n).shorter _ _ _ h

theorem readsSome_of_isValue (h : IsValue lua o (ReadsSome lua o) value s t) :
    ReadsSome lua o value s t := by
  refine ⟨s.length + 1, h.mono proper_readsSome ?_⟩
  rintro v u t hu ⟨n, hn⟩
  exact hn.of_length (by omega)

end

/-! ## Layout -/

/-- No number goes on here. -/
def Behind (t : Text) : Prop :=
  ∀ c u, t = c :: u → c = 44 ∨ c = 93 ∨ c = 125 ∨ c = 32 ∨ c = 10 ∨ c = 13 ∨ c = 9

theorem Behind.no_number {t : Text} (ht : Behind t) {c : UInt8} {u : Text} (h : t = c :: u) :
    ¬ Decimal c ∧ c ≠ 46 ∧ c ≠ 101 ∧ c ≠ 69 := by
  rcases ht c u h with rfl | rfl | rfl | rfl | rfl | rfl | rfl
  iterate 7 decide

theorem behind_append {w t : Text} (hw : Blank w) (ht : Behind t) : Behind (w ++ t) := by
  intro c u h
  cases w with
  | nil => exact ht c u h
  | cons d w =>
    obtain ⟨rfl, -⟩ := List.cons.inj h
    exact Or.inr (Or.inr (Or.inr (hw d List.mem_cons_self)))

section

variable {integer decimal exponent t : Text}

theorem noDigit_append {s : Text} (h : NoDigit (s ++ [])) (ht : Behind t) : NoDigit (s ++ t) := by
  intro c u hcu
  cases s with
  | nil => exact (ht.no_number hcu).1
  | cons d s =>
    obtain ⟨rfl, -⟩ := List.cons.inj hcu
    exact h d (s ++ []) rfl

theorem IsNumber.behind (h : IsNumber integer decimal exponent []) (ht : Behind t) :
    IsNumber integer decimal exponent t := by
  obtain ⟨hinteger, hdecimal, hexponent⟩ := h
  refine ⟨?_, ?_, ?_⟩
  · generalize hs : decimal ++ (exponent ++ []) = s at hinteger
    cases hinteger with
    | zero hsign => exact .zero hsign
    | digits hsign hc hds =>
      refine .digits hsign hc ⟨hds.ne_nil, hds.digits, ?_⟩
      rw [← List.append_assoc]
      refine noDigit_append ?_ ht
      rw [List.append_assoc, hs]
      exact hds.behind
  · generalize hs : exponent ++ [] = s at hdecimal
    cases hdecimal with
    | none h =>
      refine .none fun c u hcu => ?_
      cases hexponent with
      | none => exact absurd rfl (ht.no_number hcu).2.1
      | digits hmark _ =>
        obtain ⟨e, sign, rfl, he, -⟩ := hmark
        obtain rfl := (List.cons.inj hcu).1
        exact absurd he (by decide)
    | digits hds =>
      exact .digits ⟨hds.ne_nil, hds.digits, noDigit_append (hs ▸ hds.behind) ht⟩
  · generalize hs : ([] : Text) = s at hexponent
    cases hexponent with
    | none h =>
      refine .none fun mark c u hcu hmark => ?_
      obtain ⟨e, sign, rfl, he, -⟩ := hmark
      obtain ⟨-, -, hne, hne'⟩ := ht.no_number hcu
      rcases he with rfl | rfl
      · exact absurd rfl hne
      · exact absurd rfl hne'
    | digits hmark hds =>
      exact .digits hmark ⟨hds.ne_nil, hds.digits, fun c u hcu => (ht.no_number hcu).1⟩

end

section

variable {α : Type} {E : α → Text → Text → Prop} {close : UInt8} {xs : List α}
  {texts : List Text} {w w' t : Text}

/-- A text that is an element behind some blanks, whatever follows. -/
def Spells (E : α → Text → Text → Prop) (x : α) (text : Text) : Prop :=
  ∃ w s, text = w ++ s ∧ Blank w ∧ ∀ t, Behind t → E x (s ++ t) t

theorem blank_append (hw : Blank w) (hw' : Blank w') : Blank (w ++ w') :=
  List.forall_mem_append.mpr ⟨hw, hw'⟩

theorem elements_intercalate (hclose : close = 93 ∨ close = 125)
    (h : List.Forall₂ (Spells E) xs texts) (hxs : xs ≠ []) (hw : Blank w) (hw' : Blank w') :
    ∃ v s, (44 :: w').intercalate texts ++ (w ++ close :: t) = v ++ s ∧ Blank v ∧
      Elements close E xs s t := by
  have hend : Behind (w ++ close :: t) := behind_append hw fun c u hcu => by
    obtain ⟨rfl, -⟩ := List.cons.inj hcu
    rcases hclose with rfl | rfl <;> simp
  induction h with
  | nil => exact absurd rfl hxs
  | @cons x text xs texts hx hrest ih =>
    obtain ⟨v, s, rfl, hv, hs⟩ := hx
    cases hrest with
    | nil =>
      refine ⟨v, s ++ (w ++ close :: t), ?_, hv, .last (hs _ hend) hw⟩
      rw [List.intercalate_singleton, List.append_assoc]
    | @cons x' text' xs texts hx' hrest =>
      obtain ⟨v', s', happ, hv', helements⟩ := ih (List.cons_ne_nil _ _)
      have hcomma : Behind (44 :: (w' ++ v' ++ s')) := fun c u hcu => by
        obtain ⟨rfl, -⟩ := List.cons.inj hcu
        simp
      refine ⟨v, s ++ 44 :: (w' ++ v' ++ s'), ?_, hv, ?_⟩
      · rw [List.intercalate_cons_cons, List.append_assoc, List.append_assoc, List.append_assoc,
          List.cons_append, happ]
        simp only [List.append_assoc]
      · exact .more (w := []) (hs _ hcomma) (fun c hc => absurd hc List.not_mem_nil)
          (blank_append hw' hv') helements

theorem isTable_intercalate {w₀ : Text} (hclose : close = 93 ∨ close = 125)
    (h : List.Forall₂ (Spells E) xs texts) (hw₀ : Blank w₀) (hw : Blank w) (hw' : Blank w') :
    IsTable close E xs (w₀ ++ ((44 :: w').intercalate texts ++ (w ++ close :: t))) t := by
  by_cases hxs : xs = []
  · subst hxs
    obtain rfl := List.forall₂_nil_left_iff.mp h
    exact ⟨w₀ ++ w, close :: t, by simp, blank_append hw₀ hw, Or.inl ⟨rfl, rfl⟩⟩
  · obtain ⟨v, s, happ, hv, helements⟩ := elements_intercalate hclose h hxs hw hw'
    exact ⟨w₀ ++ v, s, by rw [happ, List.append_assoc], blank_append hw₀ hv, Or.inr helements⟩

end

/-! ## Documents -/

/-- What a document means to decode. -/
inductive Means {Num : Type} (lua : LuaNumbers Num) (o : DecodeOptions) : Doc → Value Num → Prop
  | null (h : o.null = none) : Means lua o .null .nil
  | nullString {s : Text} (h : o.null = some s) : Means lua o .null (.string s)
  | boolean (b : Bool) : Means lua o (.boolean b) (.boolean b)
  | number {integer decimal exponent : Text} {value : Value Num}
      (h : IsNumber integer decimal exponent [])
      (hvalue : NumberMeans lua o integer decimal exponent value) :
      Means lua o (.number (integer ++ (decimal ++ exponent))) value
  | string {s : Text} (h : WellFormed s) : Means lua o (.string s) (.string s)
  | empty : Means lua o (.table .empty []) (.table (if o.strictTypes then some .array else none) [] [])
  | array {items : List Doc} {vals values : List (Value Num)}
      (h : List.Forall₂ (Means lua o) items vals) (hvalues : UpToLast vals values) :
      Means lua o (.table .array items)
        (.table (if o.strictTypes then some .array else none) values [])
  | object {keys : List Text} {items : List Doc} {vals : List (Value Num)}
      {fields : List (Text × Value Num)} (hkeys : ∀ key ∈ keys, WellFormed key)
      (hlen : keys.length = items.length) (h : List.Forall₂ (Means lua o) items vals)
      (hfields : LastFields (keys.zip vals) fields) :
      Means lua o (.table (.object keys) items)
        (.table (if o.strictTypes then some .object else none) [] fields)

section

variable {o : EncodeOptions} {indent t : Text}

theorem blank_replicate (n : Nat) : Blank (List.replicate n 32) :=
  fun _ hc => Or.inl (List.eq_of_mem_replicate hc)

theorem blank_itemIndent (ho : Blank o.indent) (hindent : Blank indent) :
    Blank (itemIndent o indent) := by
  unfold itemIndent
  split_ifs
  · exact blank_append hindent ho
  · exact hindent

theorem blank_fieldIndent (ho : Blank o.indent) (hindent : Blank indent) (keys : List Text) :
    Blank (fieldIndent o indent keys) := by
  unfold fieldIndent
  split_ifs
  · refine blank_append (blank_append (blank_append hindent ho) (blank_replicate _)) ?_
    split_ifs
    · decide
    · decide
  · exact hindent

theorem arrayText_eq (ho : Blank o.indent) (hindent : Blank indent) (texts : List Text) (t : Text) :
    ∃ w₀ w w', arrayText o indent texts ++ t =
      91 :: (w₀ ++ ((44 :: w').intercalate texts ++ (w ++ 93 :: t))) ∧
        Blank w₀ ∧ Blank w ∧ Blank w' := by
  have hline : Blank (ascii "\n") := by decide
  have hspace : Blank (ascii " ") := by decide
  have hnil : Blank [] := by decide
  have hkey := blank_append hindent ho
  unfold arrayText
  split_ifs
  · refine ⟨ascii "\n" ++ (indent ++ o.indent), ascii "\n" ++ indent,
      ascii "\n" ++ (indent ++ o.indent), ?_, blank_append hline hkey, blank_append hline hindent,
      blank_append hline hkey⟩
    simp [ascii]
  · refine ⟨ascii " ", ascii " ", ascii " ", ?_, hspace, hspace, hspace⟩
    simp [ascii]
  · refine ⟨[], [], [], ?_, hnil, hnil, hnil⟩
    simp [ascii]

theorem objectText_eq (hindent : Blank indent) (keys values : List Text) (t : Text) :
    ∃ w₀ w w', objectText o indent keys values ++ t =
      123 :: (w₀ ++ ((44 :: w').intercalate (List.zipWith (fieldText o indent keys) keys values) ++
        (w ++ 125 :: t))) ∧ Blank w₀ ∧ Blank w ∧ Blank w' := by
  have hline : Blank (ascii "\n") := by decide
  have hnil : Blank [] := by decide
  unfold objectText
  dsimp only
  split_ifs
  · refine ⟨ascii "\n", ascii "\n" ++ indent, ascii "\n", ?_, hline,
      blank_append hline hindent, hline⟩
    simp [ascii]
  · refine ⟨[], [], [], ?_, hnil, hnil, hnil⟩
    simp [ascii]

variable {Num : Type} {lua : LuaNumbers Num} {o' : DecodeOptions} {value : Value Num} {d : Doc}

theorem spells_field {strict : Bool} {P : Value Num → Text → Text → Prop} {keys : List Text}
    {key text : Text} (ho : Blank o.indent) (hindent : Blank indent) (hkey : WellFormed key)
    (hvalue : ∀ t, Behind t → P value (text ++ t) t) :
    Spells (IsField strict P) (key, value) (fieldText o indent keys key text) := by
  have hfield (w' t : Text) (hw' : Blank w') (ht : Behind t) :
      IsField strict P (key, value) (encodedKey o key ++ 58 :: (w' ++ text) ++ t) t := by
    refine ⟨[], w', text ++ t, ?_, fun c hc => absurd hc List.not_mem_nil, hw', hvalue t ht⟩
    rw [List.append_assoc]
    refine isString_jsonStringLiteral.mpr ⟨hkey, rfl, ?_⟩
    rw [List.cons_append, List.append_assoc, List.nil_append]
  unfold fieldText
  split_ifs
  · refine ⟨indent ++ o.indent ++ List.replicate (maxKeyLength o keys - (encodedKey o key).length) 32,
      encodedKey o key ++ 58 :: ([32] ++ text), ?_,
      blank_append (blank_append hindent ho) (blank_replicate _),
      fun t ht => hfield [32] t (by decide) ht⟩
    simp [ascii, padLeft, space]
  · refine ⟨[], encodedKey o key ++ 58 :: ([] ++ text), ?_, fun c hc => absurd hc List.not_mem_nil,
      fun t ht => hfield [] t (by simp [Blank]) ht⟩
    simp [ascii]

theorem forall₂_zip_zipWith {α β γ δ : Type} {R : β → γ → Prop} {S : α × β → δ → Prop}
    {f : α → γ → δ} {xs : List α} {ys : List β} {zs : List γ} (h : List.Forall₂ R ys zs)
    (hlen : xs.length = ys.length) (hS : ∀ x ∈ xs, ∀ y z, R y z → S (x, y) (f x z)) :
    List.Forall₂ S (xs.zip ys) (List.zipWith f xs zs) := by
  induction h generalizing xs with
  | nil =>
    obtain rfl := List.length_eq_zero_iff.mp hlen
    exact .nil
  | cons hy _ ih =>
    cases xs with
    | nil => cases hlen
    | cons x xs =>
      obtain ⟨hx, hxs⟩ := List.forall_mem_cons.mp hS
      exact .cons (hx _ _ hy) (ih (Nat.succ.inj hlen) hxs)

/-- A text that is read as a value, whatever follows. -/
def IsRead (lua : LuaNumbers Num) (o : DecodeOptions) (value : Value Num) (text : Text) : Prop :=
  ∀ t, Behind t → ReadsSome lua o value (text ++ t) t

theorem arrayText_reads (ho : Blank o.indent) (hindent : Blank indent) {values : List (Value Num)}
    {texts : List Text} (h : List.Forall₂ (IsRead lua o') values texts) (t : Text) :
    ∃ s, arrayText o indent texts ++ t = 91 :: s ∧ IsTable 93 (ReadsSome lua o') values s t := by
  obtain ⟨w₀, w, w', htext, hw₀, hw, hw'⟩ := arrayText_eq ho hindent texts t
  refine ⟨_, htext, isTable_intercalate (Or.inl rfl) (h.imp fun value text hvalue => ?_) hw₀ hw hw'⟩
  exact ⟨[], text, rfl, fun c hc => absurd hc List.not_mem_nil, hvalue⟩

theorem objectText_reads (ho : Blank o.indent) (hindent : Blank indent) {values : List (Value Num)}
    {texts keys : List Text} (h : List.Forall₂ (IsRead lua o') values texts)
    (hlen : keys.length = values.length) (hkeys : ∀ key ∈ keys, WellFormed key) (t : Text) :
    ∃ s, objectText o indent keys texts ++ t = 123 :: s ∧
      IsTable 125 (IsField o'.strictParsing (ReadsSome lua o')) (keys.zip values) s t := by
  obtain ⟨w₀, w, w', htext, hw₀, hw, hw'⟩ := objectText_eq (o := o) hindent keys texts t
  refine ⟨_, htext, isTable_intercalate (Or.inr rfl) ?_ hw₀ hw hw'⟩
  exact forall₂_zip_zipWith h hlen fun key hkey value text hvalue =>
    spells_field ho hindent (hkeys key hkey) hvalue

theorem forall₂_render {items : List Doc} {values : List (Value Num)}
    (h : List.Forall₂ (Means lua o') items values)
    (hread : ∀ d ∈ items, ∀ value, Means lua o' d value → IsRead lua o' value (d.render o indent)) :
    List.Forall₂ (IsRead lua o') values (items.map fun d => d.render o indent) := by
  rw [List.forall₂_map_right_iff]
  refine List.Forall₂.flip (List.forall₂_iff_zip.mpr ⟨h.length_eq, fun {d value} hmem => ?_⟩)
  exact hread d (List.of_mem_zip hmem).1 value (List.forall₂_zip h hmem)

/-- Whatever the layout is, a document is read as what it means. -/
theorem Means.isRead (ho : Blank o.indent) (h : Means lua o' d value) (hindent : Blank indent) :
    IsRead lua o' value (d.render o indent) := by
  intro t ht
  induction d using Doc.induction generalizing value indent t with
  | null =>
    cases h with
    | null h => exact readsSome_of_isValue (.null h t)
    | nullString h => exact readsSome_of_isValue (.nullString h t)
  | boolean b =>
    cases h
    refine readsSome_of_isValue ?_
    cases b
    · exact .false t
    · exact .true t
  | number s =>
    cases h with
    | number h hvalue =>
      refine readsSome_of_isValue ?_
      rw [Doc.render, List.append_assoc, List.append_assoc]
      exact .number (h.behind ht) hvalue
  | string s =>
    cases h with
    | string h => exact readsSome_of_isValue (.string (isString_jsonStringLiteral.mpr ⟨h, rfl, rfl⟩))
  | table frame items ih =>
    refine readsSome_of_isValue ?_
    rw [Doc.render, renderItems_eq]
    cases h with
    | empty =>
      exact .array ⟨[], 93 :: t, rfl, fun c hc => absurd hc List.not_mem_nil, Or.inl ⟨rfl, rfl⟩⟩
        ⟨⟨0, rfl⟩, fun v hv => by cases hv⟩
    | array h hvalues =>
      obtain ⟨s, hs, htable⟩ := arrayText_reads ho hindent (forall₂_render h fun d hd value hvalue =>
        ih d hd hvalue (blank_itemIndent ho hindent)) t
      exact hs ▸ .array htable hvalues
    | @object keys _ vals fields hkeys hlen h hfields =>
      obtain ⟨s, hs, htable⟩ := objectText_reads ho hindent (forall₂_render h fun d hd value hvalue =>
        ih d hd hvalue (blank_fieldIndent ho hindent keys)) (hlen.trans h.length_eq) hkeys t
      exact hs ▸ .object htable hfields

/-! ## The second byte -/

theorem IsTable.head_ne_zero {α : Type} {E : α → Text → Text → Prop} {close : UInt8} {xs : List α}
    {s : Text} (hclose : close ≠ 0) (hE : Proper E) (h : IsTable close E xs s t) :
    s[0]? ≠ some 0 := by
  obtain ⟨w, u, rfl, hw, h⟩ := h
  cases w with
  | cons c w =>
    intro h0
    obtain rfl : c = 0 := Option.some.inj h0
    exact absurd (hw 0 List.mem_cons_self) (by decide)
  | nil =>
    rcases h with ⟨-, rfl⟩ | hxs
    · exact fun h0 => hclose (Option.some.inj h0)
    · obtain ⟨c, u, rfl, hc⟩ := hxs.starts hE
      exact fun h0 => hc.no_space.2.1 (Option.some.inj h0)

theorem Decimal.ne_zero {c : UInt8} (h : Decimal c) : c ≠ 0 := by
  rintro rfl
  exact absurd h (by decide)

theorem IsNumber.ne_zero {integer decimal exponent : Text} (h : IsNumber integer decimal exponent t) :
    ∀ c ∈ integer ++ (decimal ++ exponent), c ≠ 0 := by
  have hdigits {ds u : Text} (h : Digits ds u) : ∀ c ∈ ds, c ≠ 0 :=
    fun c hc => (h.digits c hc).ne_zero
  have hsign {sign : Text} (h : sign = [] ∨ sign = [45]) : ∀ c ∈ sign, c ≠ 0 := by
    rcases h with rfl | rfl <;> simp
  refine List.forall_mem_append.mpr ⟨?_, List.forall_mem_append.mpr ⟨?_, ?_⟩⟩
  · cases h.integer with
    | zero hminus => exact List.forall_mem_append.mpr ⟨hsign hminus, by simp⟩
    | digits hminus _ hds => exact List.forall_mem_append.mpr ⟨hsign hminus, hdigits hds⟩
  · cases h.decimal with
    | none => exact fun c hc => absurd hc List.not_mem_nil
    | digits hds => exact List.forall_mem_cons.mpr ⟨by decide, hdigits hds⟩
  · cases h.exponent with
    | none => exact fun c hc => absurd hc List.not_mem_nil
    | digits hmark hds =>
      obtain ⟨e, sign, rfl, he, hsign⟩ := hmark
      refine List.forall_mem_append.mpr ⟨List.forall_mem_cons.mpr ⟨?_, ?_⟩, hdigits hds⟩
      · rcases he with rfl | rfl <;> decide
      · rcases hsign with rfl | rfl | rfl <;> simp

theorem spell_head_ne_zero {seps : List Separator} {s : Text} :
    (spell seps 0 s ++ quote :: t)[0]? ≠ some 0 := by
  intro h
  cases hfind : Separator.find seps s with
  | some sep =>
    rw [spell_separator hfind, List.append_assoc] at h
    exact absurd (Option.some.inj h) (by decide)
  | none =>
    cases s with
    | nil => exact absurd (Option.some.inj h) (by decide)
    | cons c s =>
      rw [spell_byte hfind, List.append_assoc] at h
      rcases escapeByte_cases c with ⟨hc, -, -, hcontrol⟩ | ⟨-, ⟨w, hw, -⟩, -⟩
      · rw [hc] at h
        obtain rfl : c = 0 := Option.some.inj h
        exact absurd hcontrol (by decide)
      · rw [hw] at h
        exact absurd (Option.some.inj h) (by decide)

theorem Means.second_ne_zero (ho : Blank o.indent) (hindent : Blank indent)
    (h : Means lua o' d value) : (d.render o indent)[1]? ≠ some 0 := by
  cases h with
  | null =>
    change (ascii "null")[1]? ≠ some 0
    decide
  | nullString =>
    change (ascii "null")[1]? ≠ some 0
    decide
  | boolean b =>
    change (booleanText b)[1]? ≠ some 0
    revert b
    decide
  | number h =>
    intro h1
    exact h.ne_zero 0 (List.mem_of_getElem? h1) rfl
  | string h =>
    rw [Doc.render, jsonStringLiteral_eq]
    exact spell_head_ne_zero
  | empty =>
    change (ascii "[]")[1]? ≠ some 0
    decide
  | array h =>
    obtain ⟨s, hs, htable⟩ := arrayText_reads ho hindent (forall₂_render h fun d hd value hvalue =>
      hvalue.isRead ho (blank_itemIndent ho hindent)) []
    rw [Doc.render, renderItems_eq, Frame.text, Frame.indent, ← List.append_nil (arrayText _ _ _), hs]
    exact htable.head_ne_zero (by decide) proper_readsSome
  | @object keys _ vals _ hkeys hlen h =>
    obtain ⟨s, hs, htable⟩ := objectText_reads ho hindent (forall₂_render h fun d hd value hvalue =>
      hvalue.isRead ho (blank_fieldIndent ho hindent keys)) (hlen.trans h.length_eq) hkeys []
    rw [Doc.render, renderItems_eq, Frame.text, Frame.indent,
      ← List.append_nil (objectText _ _ _ _), hs]
    exact htable.head_ne_zero (by decide) (proper_field proper_readsSome)

end

end PerfTools.Json
