import PerfTools.Json.Layout
import PerfTools.Json.Notation

/-!
# There and back

A value is the same after it has been written and read, whatever the layout, the order of pairs and
the sharing of tables in the heap, when it is one that JSON has a notation for and its numbers are
those that Lua reads from their texts.
-/

namespace PerfTools.Json

open Printf Numbers Unordered

/-! ## Values in a heap -/

section

variable {Num : Type} {k : Nat} (lua : LuaNumbers Num)

/-- The entries of a list: there is none for a nil. -/
def indexed (vs : List (HeapValue Num k)) : Entries Num k :=
  ((vs.zipIdx 1).filter fun e => !e.1.isNil).map fun e => (.number (lua.ofNat e.2), e.1)

/-- The entries with these names. -/
def named (keys : List Text) (vs : List (HeapValue Num k)) : Entries Num k :=
  (keys.zip vs).map fun e => (.string e.1, e.2)

/-- The value that the heap has here, when tables are unfolded. -/
inductive Stored (heap : Heap Num k) : HeapValue Num k → Value Num → Prop
  | nil : Stored heap .nil .nil
  | boolean (b : Bool) : Stored heap (.boolean b) (.boolean b)
  | number (x : Num) : Stored heap (.number x) (.number x)
  | numberObject (s : Text) (n : Option Num) : Stored heap (.numberObject s) (.numberObject s n)
  | string (s : Text) : Stored heap (.string s) (.string s)
  | table {a : Fin k} {vs ws : List (HeapValue Num k)} {items values : List (Value Num)}
      {keys : List Text}
      (hentries : (heap a).entries.Perm (indexed lua vs ++ named keys ws))
      (hlen : keys.length = values.length)
      (hitems : List.Forall₂ (Stored heap) vs items) (hvalues : List.Forall₂ (Stored heap) ws values) :
      Stored heap (.table a) (.table (heap a).kind items (keys.zip values))

/-- The numbers up to n are indexes of arrays. -/
structure Indexes (n : Nat) : Prop where
  proper : ∀ i, 1 ≤ i → i ≤ n → improper lua (lua.ofNat i) = false
  lt : ∀ i j, i ≤ n → j ≤ n → lua.lt (lua.ofNat i) (lua.ofNat j) = decide (i < j)
  count : ∀ i ≤ n, lua.count (lua.ofNat i) = i

variable (o : EncodeOptions) (o' : DecodeOptions)

/-- The values that JSON has a notation for, under the options of both sides. Lua writes a number with
so many digits only, so it has to be the one that these digits are read as. -/
inductive Faithful : Value Num → Prop
  | nil (hnull : o'.null = none) : Faithful .nil
  | boolean (b : Bool) : Faithful (.boolean b)
  | number {integer decimal exponent : Text} {x : Num} (hnan : lua.isNan x = false)
      (htext : NumberText lua x (integer ++ (decimal ++ exponent)))
      (h : IsNumber integer decimal exponent [])
      (hx : lua.tonumber (integer ++ (decimal ++ exponent)) = some x)
      (hobject : ¬ AsObject o' integer decimal exponent)
      (hstring : ¬ AsString o' integer decimal exponent) : Faithful (.number x)
  | numberObject {integer decimal exponent : Text} (h : IsNumber integer decimal exponent [])
      (hobject : AsObject o' integer decimal exponent) :
      Faithful (.numberObject (integer ++ (decimal ++ exponent))
        (lua.tonumber (integer ++ (decimal ++ exponent))))
  | string {s : Text} (hnull : o.null = some s → o'.null = some s) (h : WellFormed s) :
      Faithful (.string s)
  | array {items : List (Value Num)} (hindexes : Indexes lua items.length)
      (hlast : ∀ hne : items ≠ [], (items.getLast hne).isNil = false)
      (hitems : ∀ value ∈ items, Faithful value) :
      Faithful (.table (if o'.strictTypes then some .array else none) items [])
  | object {keys : List Text} {values : List (Value Num)} (hlen : keys.length = values.length)
      (hempty : keys = [] → o'.strictTypes = true) (hsorted : keys.Pairwise (· < ·))
      (hfits : (Frame.object keys).Fits o) (hkeys : ∀ key ∈ keys, WellFormed key)
      (hnil : ∀ value ∈ values, value.isNil = false) (hvalues : ∀ value ∈ values, Faithful value) :
      Faithful (.table (if o'.strictTypes then some .object else none) [] (keys.zip values))

end

/-! ## Lists -/

section

variable {Num : Type} {k : Nat} {lua : LuaNumbers Num} {heap : Heap Num k} {v : HeapValue Num k}
  {value : Value Num}

/-- A property of values is inherited by tables from what is in them. -/
@[elab_as_elim]
theorem Value.induction {P : Value Num → Prop} (nil : P .nil) (boolean : ∀ b, P (.boolean b))
    (number : ∀ x, P (.number x)) (numberObject : ∀ s n, P (.numberObject s n))
    (string : ∀ s, P (.string s))
    (table : ∀ kind items fields, (∀ v ∈ items, P v) → (∀ f ∈ fields, P f.2) →
      P (.table kind items fields)) (value : Value Num) : P value :=
  @Value.rec Num P (fun items => ∀ v ∈ items, P v) (fun fields => ∀ f ∈ fields, P f.2)
    (fun f => P f.2) nil boolean number numberObject string table
    (fun _ hv => absurd hv List.not_mem_nil)
    (fun _ _ hhead htail => List.forall_mem_cons.mpr ⟨hhead, htail⟩)
    (fun _ hf => absurd hf List.not_mem_nil)
    (fun _ _ hhead htail => List.forall_mem_cons.mpr ⟨hhead, htail⟩)
    (fun _ _ h => h) value

theorem Stored.isNil_eq (h : Stored lua heap v value) : v.isNil = value.isNil := by
  cases h <;> rfl

theorem Stored.list {kind : Option Kind} {items : List (Value Num)}
    (h : Stored lua heap v (.table kind items [])) :
    ∃ a vs, v = .table a ∧ kind = (heap a).kind ∧ (heap a).entries.Perm (indexed lua vs) ∧
      List.Forall₂ (Stored lua heap) vs items := by
  generalize hvalue : Value.table kind items [] = value at h
  cases h with
  | @table a vs ws _ values keys hentries hlen hvs hws =>
    obtain ⟨hkind, rfl, hfields⟩ := Value.table.inj hvalue
    have hkeys : keys = [] := by
      have hzip := congrArg List.length hfields
      rw [List.length_zip, ← hlen, Nat.min_self] at hzip
      exact List.length_eq_zero_iff.mp hzip.symm
    rw [hkeys, named, List.zip_nil_left, List.map_nil, List.append_nil] at hentries
    exact ⟨a, vs, rfl, hkind, hentries, hvs⟩
  | _ => cases hvalue

theorem Stored.object {kind : Option Kind} {keys : List Text} {values : List (Value Num)}
    (hlen : keys.length = values.length)
    (h : Stored lua heap v (.table kind [] (keys.zip values))) :
    ∃ a ws, v = .table a ∧ kind = (heap a).kind ∧
      (heap a).entries.Perm (indexed lua [] ++ named keys ws) ∧
      List.Forall₂ (Stored lua heap) ws values := by
  generalize hvalue : Value.table kind [] (keys.zip values) = value at h
  cases h with
  | @table a vs ws items values' keys' hentries hlen' hvs hws =>
    obtain ⟨hkind, rfl, hfields⟩ := Value.table.inj hvalue
    obtain rfl : keys = keys' := by
      have hfst := congrArg (List.map Prod.fst) hfields
      rwa [List.map_fst_zip hlen.le, List.map_fst_zip hlen'.le] at hfst
    obtain rfl : values = values' := by
      have hsnd := congrArg (List.map Prod.snd) hfields
      rwa [List.map_snd_zip hlen.ge, List.map_snd_zip hlen'.ge] at hsnd
    obtain rfl := List.forall₂_nil_right_iff.mp hvs
    exact ⟨a, ws, rfl, hkind, hentries, hws⟩
  | _ => cases hvalue

theorem UpToLast.self {items : List (Value Num)}
    (hlast : ∀ hne : items ≠ [], (items.getLast hne).isNil = false) : UpToLast items items :=
  withoutLastNils_eq_iff.mp (List.rdropWhile_eq_self_iff.mpr fun hne => by rw [hlast hne]; decide)

theorem LastFields.self {fields : List (Text × Value Num)} (hnodup : (fields.map Prod.fst).Nodup)
    (hnil : ∀ field ∈ fields, field.2.isNil = false) : LastFields fields fields := by
  induction fields with
  | nil => exact .nil
  | cons field fields ih =>
    obtain ⟨hhead, htail⟩ := List.forall_mem_cons.mp hnil
    obtain ⟨hnot, hnodup⟩ := List.nodup_cons.mp hnodup
    refine .keep (fun h => ?_) hnot (ih hnodup htail)
    rw [h] at hhead
    cases hhead

theorem Stored.list_last {vs : List (HeapValue Num k)} {items : List (Value Num)}
    (h : List.Forall₂ (Stored lua heap) vs items)
    (hlast : ∀ hne : items ≠ [], (items.getLast hne).isNil = false) (hne : vs ≠ []) :
    (vs.getLast hne).isNil = false := by
  have hlen := h.length_eq
  have hpos := List.length_pos_iff.mpr hne
  have hne' : items ≠ [] := List.length_pos_iff.mp (hlen ▸ hpos)
  have hget := h.get (i := vs.length - 1) (by omega) (by omega)
  rw [List.getLast_eq_getElem]
  have hlast := hlast hne'
  rw [List.getLast_eq_getElem] at hlast
  simp only [← hlen] at hlast
  exact (Stored.isNil_eq hget).trans hlast

theorem mem_indexed {vs : List (HeapValue Num k)} {key : Key Num} {v : HeapValue Num k} :
    (key, v) ∈ indexed lua vs ↔
      v.isNil = false ∧ ∃ i, vs[i]? = some v ∧ key = .number (lua.ofNat (i + 1)) := by
  simp only [indexed, List.mem_map, List.mem_filter, Prod.mk.injEq, Prod.exists,
    List.mk_mem_zipIdx_iff_le_and_getElem?_sub, Bool.not_eq_true']
  constructor
  · rintro ⟨v, j, ⟨⟨hj, hv⟩, hnil⟩, rfl, rfl⟩
    refine ⟨hnil, j - 1, hv, ?_⟩
    rw [Nat.sub_add_cancel hj]
  · rintro ⟨hnil, i, hv, rfl⟩
    exact ⟨v, i + 1, ⟨⟨Nat.le_add_left 1 i, hv⟩, hnil⟩, rfl, rfl⟩

theorem eq_nil_of_isNil {v : HeapValue Num k} (h : v.isNil = true) : v = .nil := by
  cases v with
  | nil => rfl
  | _ => cases h

namespace Indexes

variable {n : Nat}

theorem injective (h : Indexes lua n) {i j : Nat} (hi : i ≤ n) (hj : j ≤ n)
    (heq : lua.ofNat i = lua.ofNat j) : i = j := by
  have hij := h.lt i j hi hj
  have hji := h.lt j i hj hi
  rw [heq, h.lt j j hj hj, decide_eq_decide] at hij
  rw [heq, h.lt j j hj hj, decide_eq_decide] at hji
  omega

theorem ordered (h : Indexes lua n) : OrderedOn lua.lt fun x => ∃ i ≤ n, x = lua.ofNat i where
  asymm := by
    rintro _ _ ⟨i, hi, rfl⟩ ⟨j, hj, rfl⟩ hlt
    rw [h.lt i j hi hj, decide_eq_true_eq] at hlt
    rw [h.lt j i hj hi, decide_eq_false_iff_not]
    omega
  trans := by
    rintro _ _ _ ⟨i, hi, rfl⟩ ⟨j, hj, rfl⟩ ⟨l, hl, rfl⟩ hij hjl
    rw [h.lt i j hi hj, decide_eq_true_eq] at hij
    rw [h.lt j l hj hl, decide_eq_true_eq] at hjl
    rw [h.lt i l hi hl, decide_eq_true_eq]
    omega
  total := by
    rintro _ _ ⟨i, hi, rfl⟩ ⟨j, hj, rfl⟩ hne
    rw [h.lt i j hi hj, h.lt j i hj hi, decide_eq_true_eq, decide_eq_true_eq]
    exact lt_or_gt_of_ne fun hij => hne (congrArg _ hij)

end Indexes

end

/-! ## The contents of a table -/

section

variable {Num : Type} {k : Nat} {lua : LuaNumbers Num} [DecidableEq Num] {T : LuaTable Num k}
  {b : Bool}

theorem get_list {vs : List (HeapValue Num k)} (hindexes : Indexes lua vs.length)
    (hentries : T.entries.Perm (indexed lua vs)) :
    ((List.range' 1 vs.length).map fun i => get T.entries (.number (lua.ofNat i))) = vs := by
  refine List.ext_getElem (by simp) fun i hi hi' => ?_
  rw [List.getElem_map, List.getElem_range', Nat.one_mul, Nat.add_comm]
  cases hnil : vs[i].isNil with
  | false =>
    refine get_eq (hentries.mem_iff.mpr (mem_indexed.mpr ⟨hnil, i, ?_, rfl⟩))
    rw [List.getElem?_eq_getElem hi']
  | true =>
    rw [eq_nil_of_isNil hnil]
    refine get_eq_nil fun ⟨v, hv⟩ => ?_
    obtain ⟨hv, j, hj, hkey⟩ := mem_indexed.mp (hentries.mem_iff.mp hv)
    obtain ⟨hjlt, rfl⟩ := List.getElem?_eq_some_iff.mp hj
    have hij := hindexes.injective hi' hjlt (Key.number.inj hkey)
    obtain rfl : i = j := by omega
    rw [hnil] at hv
    cases hv

theorem contents_list {vs : List (HeapValue Num k)} (hindexes : Indexes lua vs.length)
    (hkind : T.kind ≠ some .object) (hlast : ∀ hne : vs ≠ [], (vs.getLast hne).isNil = false)
    (hentries : T.entries.Perm (indexed lua vs)) :
    contents lua b T = .ok (if vs = [] then .empty else .array, vs) := by
  by_cases hvs : vs = []
  · subst hvs
    rw [contents_noEntries hentries.eq_nil, if_neg hkind, if_pos rfl]
  have hkey {key : Key Num} : HasKey T key ↔ ∃ v, v.isNil = false ∧ ∃ i, vs[i]? = some v ∧
      key = .number (lua.ofNat (i + 1)) :=
    exists_congr fun v => hentries.mem_iff.trans mem_indexed
  have hindex {key : Key Num} (h : HasKey T key) :
      ∃ i, 1 ≤ i ∧ i ≤ vs.length ∧ key = .number (lua.ofNat i) := by
    obtain ⟨v, -, i, hv, rfl⟩ := hkey.mp h
    obtain ⟨hi, -⟩ := List.getElem?_eq_some_iff.mp hv
    exact ⟨i + 1, Nat.le_add_left 1 i, hi, rfl⟩
  have hlua : Comparable lua T := hindexes.ordered.mono fun x hx => by
    obtain ⟨i, -, hi, hx⟩ := hindex (hasKey_iff.mpr hx)
    exact ⟨i, hi, Key.number.inj hx⟩
  rw [if_neg hvs, contents_eq_ok hlua]
  refine .array ⟨fun key h => ?_, lua.ofNat vs.length, ?_, fun x h => ?_, ?_⟩
  · obtain ⟨i, hi, hi', rfl⟩ := hindex h
    have hproper := hindexes.proper i hi hi'
    rw [improper, Bool.or_eq_false_iff] at hproper
    exact ⟨_, rfl, hproper⟩
  · have hpos := List.length_pos_iff.mpr hvs
    refine hkey.mpr ⟨vs.getLast hvs, hlast hvs, vs.length - 1, ?_, ?_⟩
    · rw [List.getLast_eq_getElem, List.getElem?_eq_getElem]
    · rw [Nat.sub_add_cancel hpos]
  · obtain ⟨i, -, hi, hx⟩ := hindex h
    rw [Key.number.inj hx, hindexes.lt _ _ le_rfl hi, decide_eq_false_iff_not]
    exact Nat.not_lt.mpr hi
  · rw [hindexes.count _ le_rfl]
    simp only [← get_eq_iff, forall₂_eq_iff]
    exact (get_list hindexes hentries).symm

theorem contents_fields {keys : List Text} {vs : List (HeapValue Num k)}
    (hlen : keys.length = vs.length) (hsorted : keys.Pairwise (· < ·))
    (hkind : keys = [] → T.kind = some .object) (hentries : T.entries.Perm (named keys vs)) :
    contents lua b T = .ok (.object keys, vs) := by
  have hkeys : (T.entries.map Prod.fst).Perm (keys.map Key.string) := by
    refine (hentries.map Prod.fst).trans (List.Perm.of_eq ?_)
    rw [named, List.map_map, ← List.map_fst_zip hlen.le, List.map_map, List.map_fst_zip hlen.le]
    rfl
  have hkey {key : Key Num} (h : HasKey T key) : ∃ s, key = .string s := by
    obtain ⟨s, -, hs⟩ := List.mem_map.mp (hkeys.mem_iff.mp (hasKey_iff.mp h))
    exact ⟨s, hs.symm⟩
  have hnumber (x : Num) : ¬ HasKey T (.number x) := fun h => by
    obtain ⟨s, hs⟩ := hkey h
    cases hs
  have hlua : Comparable lua T :=
    ⟨fun x _ hx => absurd (hasKey_iff.mpr hx) (hnumber x),
      fun x _ _ hx => absurd (hasKey_iff.mpr hx) (hnumber x),
      fun x _ hx => absurd (hasKey_iff.mpr hx) (hnumber x)⟩
  have htexts : (keys.map Key.string).filterMap (@Key.text? Num) = keys := by
    rw [List.filterMap_map]
    exact List.filterMap_some
  have hobject : IsObject lua T b keys [] vs := by
    refine ⟨fun _ _ h => ?_, ?_, hsorted.imp List.le_of_lt, ?_, .nil,
      fun x => iff_of_false List.not_mem_nil (hnumber x), fun h => absurd rfl h, List.nodup_nil,
      fun x hx => absurd hx List.not_mem_nil, ?_⟩
    · obtain ⟨s, hs⟩ := hkey h
      cases hs
    · by_cases hnil : keys = []
      · subst hnil
        exact Or.inl ⟨hentries.eq_nil, hkind rfl⟩
      · obtain ⟨s, hs⟩ := List.exists_mem_of_ne_nil keys hnil
        refine Or.inr ⟨.string s, ?_, fun ⟨x, hx, _⟩ => by cases hx⟩
        exact hasKey_iff.mpr (hkeys.mem_iff.mpr (List.mem_map_of_mem hs))
    · have hperm := (hkeys.filterMap Key.text?).symm
      rwa [htexts] at hperm
    · rw [List.map_nil, List.append_nil]
      refine List.forall₂_iff_zip.mpr ⟨hlen, fun {key v} h => .string ?_⟩
      exact hentries.mem_iff.mpr (List.mem_map.mpr ⟨(key, v), h, rfl⟩)
  have hcontent := Content.object hobject
  rw [List.map_nil, List.append_nil] at hcontent
  exact (contents_eq_ok hlua).mpr hcontent

/-! ## Documents -/

variable {heap : Heap Num k} {o : EncodeOptions} {o' : DecodeOptions} {v : HeapValue Num k}
  {value : Value Num}

theorem forall₂_docs {vs : List (HeapValue Num k)} {items : List (Value Num)}
    (hstored : List.Forall₂ (Stored lua heap) vs items)
    (h : ∀ value ∈ items, ∀ v, Stored lua heap v value →
      ∃ d, IsDoc o lua heap v d ∧ Means lua o' d value ∧ d.Fits o) :
    ∃ ds, List.Forall₂ (IsDoc o lua heap) vs ds ∧ List.Forall₂ (Means lua o') ds items ∧
      ∀ d ∈ ds, d.Fits o := by
  induction hstored with
  | nil => exact ⟨[], .nil, .nil, fun d hd => absurd hd List.not_mem_nil⟩
  | cons hv _ ih =>
    obtain ⟨hhead, htail⟩ := List.forall_mem_cons.mp h
    obtain ⟨d, hd, hmeans, hfits⟩ := hhead _ hv
    obtain ⟨ds, hds, hmeans', hfits'⟩ := ih htail
    exact ⟨d :: ds, .cons hd hds, .cons hmeans hmeans', List.forall_mem_cons.mpr ⟨hfits, hfits'⟩⟩

theorem Faithful.exists_doc (h : Faithful lua o o' value) (hstored : Stored lua heap v value) :
    ∃ d, IsDoc o lua heap v d ∧ Means lua o' d value ∧ d.Fits o := by
  induction value using Value.induction generalizing v with
  | nil =>
    cases hstored
    cases h with
    | nil hnull => exact ⟨.null, .nil, .null hnull, .null⟩
  | boolean b =>
    cases hstored
    exact ⟨.boolean b, .boolean b, .boolean b, .boolean b⟩
  | number x =>
    cases hstored
    cases h with
    | number hnan htext h hx hobject hstring =>
      refine ⟨_, .number hnan, ?_, .number _⟩
      rw [← numberText_iff.mp htext]
      exact .number h (.number hobject hstring hx)
  | numberObject s n =>
    cases hstored
    cases h with
    | numberObject h hobject => exact ⟨_, .numberObject _, .number h (.object hobject), .number _⟩
  | string s =>
    cases hstored
    cases h with
    | string hnull h =>
      by_cases hs : o.null = some s
      · exact ⟨_, .null hs, .nullString (hnull hs), .null⟩
      · exact ⟨_, .string hs, .string h, .string s⟩
  | table kind items fields ihitems ihfields =>
    cases h with
    | array hindexes hlast hitems =>
      obtain ⟨a, vs, rfl, hkind, hentries, hvs⟩ := hstored.list
      have hcontents := contents_list (T := heap a) (b := o.noKeyConversion)
        (hvs.length_eq ▸ hindexes) (by rw [← hkind]; split_ifs <;> simp)
        (Stored.list_last hvs hlast) hentries
      obtain ⟨ds, hds, hmeans, hfits⟩ := forall₂_docs hvs fun value hv v hstored =>
        ihitems value hv (hitems value hv) hstored
      refine ⟨_, .table hcontents hds, ?_, .table ?_ hfits⟩
      · by_cases hvs' : vs = []
        · subst hvs'
          obtain rfl := List.forall₂_nil_left_iff.mp hvs
          obtain rfl := List.forall₂_nil_left_iff.mp hds
          exact .empty
        · rw [if_neg hvs']
          exact .array hmeans (.self hlast)
      · split_ifs <;> trivial
    | @object keys values hlen hempty hsorted hfits hkeys hnil hvalues =>
      obtain ⟨a, ws, rfl, hkind, hentries, hws⟩ := hstored.object hlen
      have hcontents : contents lua o.noKeyConversion (heap a) = .ok (.object keys, ws) :=
        contents_fields (hlen.trans hws.length_eq.symm) hsorted
          (fun hnil => by rw [← hkind, if_pos (hempty hnil)]) hentries
      obtain ⟨ds, hds, hmeans, hfits'⟩ := forall₂_docs hws fun value hv v hstored => by
        rw [← List.map_snd_zip hlen.ge] at hv
        obtain ⟨f, hf, rfl⟩ := List.mem_map.mp hv
        have hmem := (List.of_mem_zip hf).2
        exact ihfields f hf (hvalues f.2 hmem) hstored
      refine ⟨_, .table hcontents hds, ?_, .table hfits hfits'⟩
      have hnodup : ((keys.zip values).map Prod.fst).Nodup := by
        rw [List.map_fst_zip hlen.le]
        refine List.Pairwise.imp (fun {key key'} hlt heq => ?_) hsorted
        rw [heq] at hlt
        exact List.lt_irrefl _ hlt
      exact .object hkeys (hlen.trans hmeans.length_eq.symm) hmeans
        (.self hnodup fun f hf => hnil f.2 (List.of_mem_zip hf).2)

/-- A faithful value can be written, and what is read then is this value: for every layout, any
stack that has room for the tables of the heap, and one as long as the text to read it. -/
theorem decode_encode (ho : Blank o.indent) (hstored : Stored lua heap v value)
    (h : Faithful lua o o' value) {stack : Nat} (hstack : k < stack) :
    ∃ text, encode lua heap stack v (some o) = .ok text ∧
      ∀ stack', text.length ≤ stack' → decode lua o' stack' text = .ok value := by
  obtain ⟨d, hd, hmeans, hfits⟩ := h.exists_doc hstored
  have hblank : Blank [] := fun c hc => absurd hc List.not_mem_nil
  refine ⟨d.render o [], ?_, fun stack' hstack' => ?_⟩
  · exact hd.encodeValue_eq hfits List.nodup_nil (fun a ha => absurd ha List.not_mem_nil)
      (by simpa using hstack) []
  · obtain ⟨n, hread⟩ := hmeans.isRead ho hblank [] fun c u h => by cases h
    rw [List.append_nil] at hread
    exact decode_of_isText (hmeans.second_ne_zero ho hblank)
      ⟨[], _, [], rfl, hblank, hread.of_length hstack', hblank⟩

end

/-! ## A list that is shared -/

theorem luaIntegers_indexes (n : Nat) : Indexes luaIntegers n where
  proper i hi _ := by
    have hpos : ¬ (i : Int) ≤ 0 := by omega
    change (decide ((i : Int) ≤ 0) || false) = false
    rw [decide_eq_false hpos]
    rfl
  lt i j _ _ := decide_eq_decide.mpr Int.ofNat_lt
  count i _ := Int.toNat_natCast i

/-- The values of sharedList. -/
def listValue : Value Int := .table none [.number 5, .nil, .string (ascii "x")] []

def twiceValue : Value Int :=
  .table none [] ([ascii "a", ascii "b"].zip [listValue, listValue])

theorem stored_list : Stored luaIntegers sharedList (.table 1) listValue := by
  have hentries : (sharedList 1).entries.Perm
      (indexed luaIntegers [.number 5, .nil, .string (ascii "x")] ++ named [] []) := by decide
  exact .table hentries rfl (.cons (.number 5) (.cons .nil (.cons (.string _) .nil))) .nil

theorem stored_twice : Stored luaIntegers sharedList (.table 0) twiceValue := by
  have hentries : (sharedList 0).entries.Perm
      (indexed luaIntegers [] ++ named [ascii "a", ascii "b"] [.table 1, .table 1]) := by decide
  exact .table hentries rfl .nil (.cons stored_list (.cons stored_list .nil))

theorem wellFormed_letter {c : UInt8} (hc : c.toNat < 0x80) : WellFormed [c] := .cons (.one hc) .nil

theorem faithful_list {o : EncodeOptions} (ho : o.null = none) :
    Faithful luaIntegers o DecodeOptions.default listValue := by
  have hinteger : IntegerPart ([] ++ [53]) [] :=
    .digits (Or.inl rfl) (by decide) ⟨List.cons_ne_nil _ _,
      List.forall_mem_singleton.mpr (by decide), fun c u h => by cases h⟩
  have hnumber : IsNumber [53] [] [] [] :=
    ⟨hinteger, .none fun c u h => (by cases h), .none fun mark c u h => by simp at h⟩
  refine .array (luaIntegers_indexes _) (fun _ => rfl) ?_
  simp only [List.forall_mem_cons]
  have hfive : NumberText luaIntegers 5 [53] := .finite rfl rfl rfl
  refine ⟨.number rfl hfive hnumber rfl ?_ ?_, .nil rfl, ?_, by simp⟩
  · exact fun h => absurd h.1 (by decide)
  · rintro ⟨-, ⟨n, hn, -⟩ | ⟨n, hn, -⟩⟩
    · cases hn
    · cases hn
  exact .string (fun h => by rw [ho] at h; cases h) (wellFormed_letter (by decide))

theorem faithful_twice {o : EncodeOptions} (ho : o.null = none) (hpretty : o.alignKeys = false) :
    Faithful luaIntegers o DecodeOptions.default twiceValue := by
  have hlist := faithful_list ho
  refine .object rfl (by decide) (by decide) (fun _ _ => ?_) ?_ ?_ ?_
  · rw [maxKeyLength_of_not_align hpretty]
    decide
  · simp only [List.forall_mem_cons]
    exact ⟨wellFormed_letter (by decide), wellFormed_letter (by decide), by simp⟩
  · simp only [List.forall_mem_cons]
    exact ⟨rfl, rfl, by simp⟩
  · simp only [List.forall_mem_cons]
    exact ⟨hlist, hlist, by simp⟩

theorem decode_encode_twice : ∃ text,
    encode luaIntegers sharedList 3 (.table 0) (some defaultPrettyOptions) = .ok text ∧
      ∀ stack', text.length ≤ stack' →
        decode luaIntegers DecodeOptions.default stack' text = .ok twiceValue :=
  decode_encode (by decide) stored_twice (faithful_twice rfl rfl) (by decide)

end PerfTools.Json
