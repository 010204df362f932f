import PerfTools.Json.Documents
import PerfTools.Lib.Unordered

/-!
# What the text depends on

Lua has no order in which pairs goes through a table. Two heaps that differ in it are written the
same: the keys are sorted, and the values are looked up. They are looked up by strings and numbers
only, so the value of a key that is a boolean does not matter either: its name is written, with the
value of the string of that name.
-/

namespace PerfTools.Json

open Printf Numbers Unordered

section

variable {Num : Type} {k : Nat} (lua : LuaNumbers Num)

/-- The string that a key is in the list of string keys. -/
def Key.text? : Key Num → Option Text
  | .string s => some s
  | .boolean true => some (ascii "true")
  | .boolean false => some (ascii "false")
  | _ => none

def Key.number? : Key Num → Option Num
  | .number x => some x
  | _ => none

def Key.Writable : Key Num → Prop
  | .other _ _ => False
  | _ => True

/-- A number that no array has as a key. -/
def improper (x : Num) : Bool := lua.isNotPositive x || lua.isHuge x

/-- The locals of the loop over the keys, when it has seen these strings and numbers. -/
def Keys.of (texts : List Text) (numbers : List Num) : Keys Num where
  stringKeys := texts
  numberKeys := numbers
  numberKeysMustBeStrings := numbers.any (improper lua)
  maximumNumberKey := (numbers.filter fun x => !improper lua x).foldl (keepLarger lua.lt) none

end

section

variable {Num : Type} {k : Nat} {lua : LuaNumbers Num} {ks ks' : List (Key Num)}

theorem mem_number {x : Num} : x ∈ ks.filterMap Key.number? ↔ .number x ∈ ks := by
  rw [List.mem_filterMap]
  constructor
  · rintro ⟨key, hkey, hx⟩
    cases key with
    | number y =>
      obtain rfl := Option.some.inj hx
      exact hkey
    | _ => cases hx
  · exact fun h => ⟨_, h, rfl⟩

theorem Keys.insert_number (texts : List Text) (numbers : List Num) (x : Num) :
    (Keys.of lua texts numbers).insert (k := k) lua (.number x) =
      .ok (Keys.of lua texts (numbers ++ [x])) := by
  unfold Keys.insert Keys.of
  dsimp only
  by_cases himproper : lua.isNotPositive x = true ∨ lua.isHuge x = true
  · have hx : improper lua x = true := by simpa [improper] using himproper
    rw [if_pos himproper]
    simp [hx]
  · have hx : improper lua x = false := by simpa [improper] using himproper
    have hfilter : (numbers ++ [x]).filter (fun x => !improper lua x) =
        numbers.filter (fun x => !improper lua x) ++ [x] := by simp [hx]
    rw [if_neg himproper, hfilter, List.foldl_append, List.foldl_cons, List.foldl_nil, keepLarger,
      List.any_append, List.any_cons, hx, List.any_nil, Bool.or_false, Bool.or_false]
    split_ifs <;> rfl

theorem foldlM_insert_eq (hks : ∀ key ∈ ks, key.Writable) :
    ks.foldlM (Keys.insert (k := k) lua) Keys.start =
      .ok (Keys.of lua (ks.filterMap Key.text?) (ks.filterMap Key.number?)) := by
  induction ks using List.reverseRecOn with
  | nil => rfl
  | append_singleton ks key ih =>
    rw [List.foldlM_append, ih fun key hkey => hks key (List.mem_append_left _ hkey),
      List.filterMap_append, List.filterMap_append]
    refine bind_eq_ok.mpr ⟨_, rfl, bind_eq_ok.mpr ⟨_, ?_, rfl⟩⟩
    cases key with
    | string s =>
      change _ =
        Except.ok (Keys.of lua (ks.filterMap Key.text? ++ [s]) (ks.filterMap Key.number? ++ []))
      rw [List.append_nil]
      rfl
    | number x =>
      change _ =
        Except.ok (Keys.of lua (ks.filterMap Key.text? ++ []) (ks.filterMap Key.number? ++ [x]))
      rw [List.append_nil]
      exact Keys.insert_number _ _ x
    | boolean b =>
      have hname : [(.boolean b : Key Num)].filterMap Key.text? = [booleanText b] := by cases b <;> rfl
      rw [hname]
      change _ = Except.ok (Keys.of lua (ks.filterMap Key.text? ++ [booleanText b])
        (ks.filterMap Key.number? ++ []))
      rw [List.append_nil]
      rfl
    | other type id => exact absurd (hks (.other type id) (by simp)) not_false

theorem writable_of_foldlM {keys keys' : Keys Num}
    (h : ks.foldlM (Keys.insert (k := k) lua) keys = .ok keys') : ∀ key ∈ ks, key.Writable := by
  induction ks generalizing keys with
  | nil => exact fun key hkey => absurd hkey List.not_mem_nil
  | cons key ks ih =>
    rw [List.foldlM_cons] at h
    obtain ⟨keys'', hkey, h⟩ := bind_eq_ok.mp h
    refine List.forall_mem_cons.mpr ⟨?_, ih h⟩
    cases key with
    | other type id => cases hkey
    | _ => exact trivial

end

/-! ## The same keys -/

section

variable {Num : Type} {k : Nat} {lua : LuaNumbers Num} [DecidableEq Num] {T T' : LuaTable Num k}

/-- The keys by which values are looked up. -/
def Key.Looked : Key Num → Prop
  | .string _ => True
  | .number _ => True
  | _ => False

/-- Entries that are looked up with the same results. -/
def Same (E E' : Entries Num k) : Prop :=
  ∀ key : Key Num, key.Looked → (E.find? fun e => e.1 = key) = E'.find? fun e => e.1 = key

theorem Same.get {E E' : Entries Num k} (h : Same E E') {key : Key Num} (hkey : key.Looked) :
    get E key = get E' key := by
  rw [PerfTools.Json.get, h key hkey]
  rfl

theorem Same.append {E E' : Entries Num k} (h : Same E E') (new : Entries Num k) :
    Same (E ++ new) (E' ++ new) := by
  intro key hkey
  rw [List.find?_append, List.find?_append, h key hkey]

/-- Tables with the same keys and, but for the booleans, the same values. -/
structure Alike (T T' : LuaTable Num k) : Prop where
  kind : T.kind = T'.kind
  keys : (T.entries.map Prod.fst).Perm (T'.entries.map Prod.fst)
  values : ∀ key : Key Num, key.Looked → get T.entries key = get T'.entries key

theorem find?_eq_get {key : Key Num} (h : key ∈ T.entries.map Prod.fst) :
    (T.entries.find? fun e => e.1 = key) = some (key, get T.entries key) := by
  obtain ⟨e, he, rfl⟩ := List.mem_map.mp h
  rw [get, (find?_eq_some T.nodup).mpr ⟨he, rfl⟩]

theorem find?_eq_none {key : Key Num} (h : key ∉ T.entries.map Prod.fst) :
    (T.entries.find? fun e => e.1 = key) = none :=
  List.find?_eq_none.mpr fun _ he hkey =>
    h (of_decide_eq_true hkey ▸ List.mem_map_of_mem he)

namespace Alike

theorem symm (h : Alike T T') : Alike T' T :=
  ⟨h.kind.symm, h.keys.symm, fun key hkey => (h.values key hkey).symm⟩

theorem same (h : Alike T T') : Same T.entries T'.entries := by
  intro key hkey
  by_cases hmem : key ∈ T.entries.map Prod.fst
  · rw [find?_eq_get hmem, find?_eq_get (h.keys.mem_iff.mp hmem), h.values key hkey]
  · rw [find?_eq_none hmem, find?_eq_none fun h' => hmem (h.keys.mem_iff.mpr h')]

end Alike

theorem convertKeys_same {E E' map map' map₁ : Entries Num k} {xs : List Num}
    {stringKeys stringKeys₁ : List Text} (hE : Same E E') (hmap : Same map map')
    (h : convertKeys lua E xs stringKeys map = .ok (stringKeys₁, map₁)) :
    ∃ map₁', convertKeys lua E' xs stringKeys map' = .ok (stringKeys₁, map₁') ∧ Same map₁ map₁' := by
  induction xs generalizing stringKeys map map' with
  | nil =>
    obtain ⟨rfl, rfl⟩ := Prod.mk.inj (Except.ok.inj h)
    exact ⟨map', rfl, hmap⟩
  | cons x xs ih =>
    unfold convertKeys at h ⊢
    dsimp only at h ⊢
    have hfresh : get map (.string (lua.tostring x)) = get map' (.string (lua.tostring x)) :=
      hmap.get trivial
    have hvalue : get E (.number x) = get E' (.number x) := hE.get trivial
    rw [hfresh, hvalue] at h
    split_ifs at h ⊢ with hnil
    exact ih (hmap.append _) h

/-- What Lua promises of the numbers that are keys: any two of them compare. -/
def Comparable (lua : LuaNumbers Num) (T : LuaTable Num k) : Prop :=
  OrderedOn lua.lt fun x => .number x ∈ T.entries.map Prod.fst

theorem sortStrings_perm {texts texts' : List Text} (h : texts.Perm texts') :
    sortStrings texts = sortStrings texts' :=
  List.Perm.eq_of_pairwise' (List.pairwise_insertionSort _ _) (List.pairwise_insertionSort _ _)
    ((List.perm_insertionSort _ _).trans (h.trans (List.perm_insertionSort _ _).symm))

theorem shape_of (texts : List Text) (numbers : List Num) (b : Bool) (T : LuaTable Num k) :
    (Keys.of lua texts numbers).shape lua b T =
      if texts = [] ∧ numbers.any (improper lua) = false then
        match (Keys.of lua texts numbers).maximumNumberKey with
        | some maximum => .ok (.array maximum)
        | none => .ok (if T.kind = some .object then .object [] none else .empty)
      else if numbers = [] then .ok (.object (sortStrings texts) none)
      else if b then .error .bothKeys
      else (convertKeys lua T.entries (sortNumbers lua numbers) (sortStrings texts) T.entries).bind
        fun converted => .ok (.object converted.1 (some converted.2)) := rfl

theorem shape_perm {texts texts' : List Text} {numbers numbers' : List Num} {b : Bool}
    {shape : Shape Num k} (hlua : Comparable lua T) (hkind : T.kind = T'.kind)
    (hsame : Same T.entries T'.entries) (htexts : texts.Perm texts')
    (hnumbers : numbers.Perm numbers') (hmem : ∀ x ∈ numbers, .number x ∈ T.entries.map Prod.fst)
    (h : (Keys.of lua texts numbers).shape lua b T = .ok shape) :
    ∃ shape', (Keys.of lua texts' numbers').shape lua b T' = .ok shape' ∧
      shape'.contents lua T' = shape.contents lua T := by
  have hmust : numbers.any (improper lua) = numbers'.any (improper lua) := by
    rw [Bool.eq_iff_iff, List.any_eq_true, List.any_eq_true]
    simp only [hnumbers.mem_iff]
  have hmax : (Keys.of lua texts numbers).maximumNumberKey =
      (Keys.of lua texts' numbers').maximumNumberKey :=
    foldl_keepLarger_perm hlua (fun x hx => hmem x (List.mem_of_mem_filter hx)) (hnumbers.filter _)
  have htextsNil : texts = [] ↔ texts' = [] := by
    constructor
    · rintro rfl
      exact htexts.nil_eq.symm
    · rintro rfl
      exact htexts.eq_nil
  have hnumbersNil : numbers = [] ↔ numbers' = [] := by
    constructor
    · rintro rfl
      exact hnumbers.nil_eq.symm
    · rintro rfl
      exact hnumbers.eq_nil
  have hgetNumber (x : Num) : get T.entries (.number x) = get T'.entries (.number x) :=
    hsame.get trivial
  have hgetString {E E' : Entries Num k} (h : Same E E') (s : Text) :
      get E (.string s) = get E' (.string s) := h.get trivial
  have hsort : sortNumbers lua numbers = sortNumbers lua numbers' :=
    insertionSort_perm hlua hmem hnumbers
  have hstrings := sortStrings_perm htexts
  rw [shape_of] at h ⊢
  by_cases hlist : texts = [] ∧ numbers.any (improper lua) = false
  · have hlist' : texts' = [] ∧ numbers'.any (improper lua) = false :=
      ⟨htextsNil.mp hlist.1, hmust ▸ hlist.2⟩
    rw [if_pos hlist] at h
    rw [if_pos hlist', ← hmax]
    split at h
    · obtain rfl := Except.ok.inj h
      exact ⟨_, rfl, by simp only [Shape.contents, hgetNumber]⟩
    · rw [← Except.ok.inj h, hkind]
      refine ⟨_, rfl, ?_⟩
      split_ifs <;> rfl
  · have hlist' : ¬ (texts' = [] ∧ numbers'.any (improper lua) = false) := by
      rw [← htextsNil, ← hmust]
      exact hlist
    rw [if_neg hlist] at h
    rw [if_neg hlist']
    by_cases hnumbers' : numbers = []
    · rw [if_pos hnumbers'] at h
      rw [if_pos (hnumbersNil.mp hnumbers')]
      obtain rfl := Except.ok.inj h
      refine ⟨_, rfl, ?_⟩
      simp only [Shape.contents, hstrings, Option.getD_none, hgetString hsame]
    · rw [if_neg hnumbers'] at h
      rw [if_neg fun h => hnumbers' (hnumbersNil.mpr h)]
      split_ifs at h ⊢
      obtain ⟨⟨stringKeys, map⟩, hconvert, h⟩ := bind_eq_ok.mp h
      obtain rfl := Except.ok.inj h
      obtain ⟨map', hconvert', hmap⟩ := convertKeys_same hsame hsame hconvert
      refine ⟨.object stringKeys (some map'), ?_, ?_⟩
      · rw [← hsort, ← hstrings]
        exact bind_eq_ok.mpr ⟨(stringKeys, map'), hconvert', rfl⟩
      · simp only [Shape.contents, Option.getD_some, hgetString hmap]

theorem contents_alike {b : Bool} {c : Frame × List (HeapValue Num k)} (hlua : Comparable lua T)
    (halike : Alike T T') (h : contents lua b T = .ok c) : contents lua b T' = .ok c := by
  obtain ⟨shape, hshape, rfl⟩ := bind_pure_eq_ok.mp h
  obtain ⟨keys, hkeys, hshape⟩ := bind_eq_ok.mp hshape
  have hwritable := writable_of_foldlM hkeys
  have hks := halike.keys
  have hwritable' : ∀ key ∈ T'.entries.map Prod.fst, key.Writable :=
    fun key hkey => hwritable key (hks.mem_iff.mpr hkey)
  rw [foldlM_insert_eq hwritable] at hkeys
  obtain rfl := Except.ok.inj hkeys
  obtain ⟨shape', hshape', hcontents⟩ := shape_perm hlua halike.kind halike.same
    (hks.filterMap Key.text?) (hks.filterMap Key.number?) (fun x hx => mem_number.mp hx) hshape
  rw [← hcontents]
  exact bind_pure_eq_ok.mpr ⟨shape', bind_eq_ok.mpr ⟨_, foldlM_insert_eq hwritable', hshape'⟩, rfl⟩

variable {o : EncodeOptions} {heap heap' : Heap Num k} {value : HeapValue Num k} {text : Text}

theorem IsDoc.alike {d : Doc} (hlua : ∀ a, Comparable lua (heap a))
    (halike : ∀ a, Alike (heap a) (heap' a)) (h : IsDoc o lua heap value d) :
    IsDoc o lua heap' value d := by
  induction d using Doc.induction generalizing value with
  | table frame items ih =>
    cases h with
    | @table a _ values _ hcontents hitems =>
      refine .table (contents_alike (hlua a) (halike a) hcontents) ?_
      refine List.forall₂_iff_zip.mpr ⟨hitems.length_eq, fun {value d} hmem => ?_⟩
      exact ih d (List.of_mem_zip hmem).2 (List.forall₂_zip hitems hmem)
  | null =>
    cases h with
    | nil => exact .nil
    | null h => exact .null h
    | nan h => exact .nan h
  | boolean b =>
    cases h
    exact .boolean b
  | number s =>
    cases h with
    | number h => exact .number h
    | numberObject => exact .numberObject s
  | string s =>
    cases h with
    | string h => exact .string h

/-- Neither the order of pairs nor the value of a boolean key has an effect on the text. -/
theorem encode_alike {stack : Nat} (hstack : k < stack) (hlua : ∀ a, Comparable lua (heap a))
    (halike : ∀ a, Alike (heap a) (heap' a)) (options : Option EncodeOptions) :
    encode lua heap stack value options = .ok text ↔
      encode lua heap' stack value options = .ok text := by
  have hlua' (a : Fin k) : Comparable lua (heap' a) := by
    have h := hlua a
    unfold Comparable at h ⊢
    simpa only [(halike a).keys.mem_iff] using h
  have hwrite {heap heap' : Heap Num k} (hlua : ∀ a, Comparable lua (heap a))
      (halike : ∀ a, Alike (heap a) (heap' a))
      (h : encode lua heap stack value options = .ok text) :
      encode lua heap' stack value options = .ok text := by
    obtain ⟨d, hd, hfits, rfl⟩ := isDoc_of_encodeValue h
    exact (hd.alike hlua halike).encodeValue_eq hfits List.nodup_nil
      (fun a ha => absurd ha List.not_mem_nil) (by simpa using hstack) []
  exact ⟨hwrite hlua halike, hwrite hlua' fun a => (halike a).symm⟩

end

theorem luaIntegers_comparable {k : Nat} (T : LuaTable Int k) : Comparable luaIntegers T where
  asymm x y _ _ h := decide_eq_false (not_lt_of_gt (of_decide_eq_true h))
  trans x y z _ _ _ h h' := decide_eq_true (lt_trans (of_decide_eq_true h) (of_decide_eq_true h'))
  total x y _ _ h := by
    rcases lt_or_gt_of_ne h with h | h
    · exact Or.inl (decide_eq_true h)
    · exact Or.inr (decide_eq_true h)

def flagged : Heap Int 1 := fun _ =>
  ⟨none, [(.boolean true, .number 4), (.number 7, .number 1), (.string (ascii "a"), .number 2)],
    by decide, by decide⟩

def reflagged : Heap Int 1 := fun _ =>
  ⟨none, [(.string (ascii "a"), .number 2), (.number 7, .number 1), (.boolean true, .table 0)],
    by decide, by decide⟩

theorem encode_alike_flagged : encode luaIntegers reflagged 2 (.table 0) none =
    .ok (ascii "\x7b\"a\":2,\"true\":null,\"7\":1\x7d") := by
  have hkeys : ∀ a, ((flagged a).entries.map Prod.fst).Perm ((reflagged a).entries.map Prod.fst) := by
    decide
  have halike (a : Fin 1) : Alike (flagged a) (reflagged a) := by
    refine ⟨rfl, hkeys a, fun key hkey => ?_⟩
    cases key with
    | boolean b => exact hkey.elim
    | other type id => exact hkey.elim
    | string s => simp [get, flagged, reflagged, List.find?_cons]
    | number x => simp [get, flagged, reflagged, List.find?_cons]
  refine (encode_alike (by decide) (fun a => luaIntegers_comparable (flagged a)) halike none).mp ?_
  decide +kernel

end PerfTools.Json
