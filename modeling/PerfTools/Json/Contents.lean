import PerfTools.Json.PairsOrder

/-!
# What stands in a table

The entries of a table decide what is written for it. It is an array up to its largest key when all
the keys are positive numbers. Otherwise it is an object: the names of its keys are sorted, and
behind them stand its numbers in ascending order, as strings.
-/

namespace PerfTools.Json

open Printf Numbers Unordered

section

variable {Num : Type} {k : Nat} (lua : LuaNumbers Num) (T : LuaTable Num k)

def HasKey (key : Key Num) : Prop := ∃ v, (key, v) ∈ T.entries

/-- The value under a key. -/
inductive Holds (key : Key Num) : HeapValue Num k → Prop
  | entry {v : HeapValue Num k} (h : (key, v) ∈ T.entries) : Holds key v
  | nil (h : ¬ HasKey T key) : Holds key .nil

/-- A key that an array can have. -/
def IsIndex (key : Key Num) : Prop :=
  ∃ x, key = .number x ∧ lua.isNotPositive x = false ∧ lua.isHuge x = false

structure IsArray (values : List (HeapValue Num k)) : Prop where
  indexes : ∀ key, HasKey T key → IsIndex lua key
  values : ∃ maximum, HasKey T (.number maximum) ∧
    (∀ x, HasKey T (.number x) → lua.lt maximum x = false) ∧
    List.Forall₂ (fun i v => Holds T (.number (lua.ofNat i)) v)
      (List.range' 1 (lua.count maximum)) values

/-- The value under a name: that of the string or, where there is none, of the number that is
written so. -/
inductive Named (name : Text) : HeapValue Num k → Prop
  | string {v : HeapValue Num k} (h : (.string name, v) ∈ T.entries) : Named name v
  | number {x : Num} {v : HeapValue Num k} (hname : lua.tostring x = name)
      (hstring : ¬ HasKey T (.string name)) (h : (.number x, v) ∈ T.entries) : Named name v
  | nil (hstring : ¬ HasKey T (.string name))
      (hnumber : ∀ x, HasKey T (.number x) → lua.tostring x ≠ name) : Named name .nil

/-- An object with these names and numbers. No two of its numbers have the same text, and none has
that of a string. -/
structure IsObject (noKeyConversion : Bool) (names : List Text) (numbers : List Num)
    (values : List (HeapValue Num k)) : Prop where
  writable : ∀ type id, ¬ HasKey T (.other type id)
  object : T.entries = [] ∧ T.kind = some .object ∨ ∃ key, HasKey T key ∧ ¬ IsIndex lua key
  sorted : names.Pairwise (· ≤ ·)
  perm : names.Perm ((T.entries.map Prod.fst).filterMap Key.text?)
  ascending : numbers.Pairwise fun x y => lua.lt x y = true
  members : ∀ x, x ∈ numbers ↔ HasKey T (.number x)
  conversion : numbers ≠ [] → noKeyConversion = false
  distinct : (numbers.map lua.tostring).Nodup
  fresh : ∀ x ∈ numbers, ¬ HasKey T (.string (lua.tostring x))
  values : List.Forall₂ (Named lua T) (names ++ numbers.map lua.tostring) values

/-- What a table is, and the values in it. -/
inductive Content (noKeyConversion : Bool) : Frame → List (HeapValue Num k) → Prop
  | empty (h : T.entries = []) (hkind : T.kind ≠ some .object) : Content noKeyConversion .empty []
  | array {values : List (HeapValue Num k)} (h : IsArray lua T values) :
      Content noKeyConversion .array values
  | object {names : List Text} {numbers : List Num} {values : List (HeapValue Num k)}
      (h : IsObject lua T noKeyConversion names numbers values) :
      Content noKeyConversion (.object (names ++ numbers.map lua.tostring)) values

end

/-! ## Keys and lookup -/

section

variable {Num : Type} {k : Nat} {T : LuaTable Num k} {key : Key Num} {v : HeapValue Num k}

theorem hasKey_iff : HasKey T key ↔ key ∈ T.entries.map Prod.fst := by
  rw [List.mem_map]
  constructor
  · rintro ⟨v, hv⟩
    exact ⟨_, hv, rfl⟩
  · rintro ⟨e, he, rfl⟩
    exact ⟨e.2, he⟩

theorem mem_numbers_iff {x : Num} :
    x ∈ (T.entries.map Prod.fst).filterMap Key.number? ↔ HasKey T (.number x) :=
  mem_number.trans hasKey_iff.symm

theorem numbers_nodup : ((T.entries.map Prod.fst).filterMap Key.number?).Nodup := by
  refine T.nodup.filterMap fun key key' x hx hx' => ?_
  cases key with
  | number y =>
    cases key' with
    | number y' => rw [Option.some.inj hx, Option.some.inj hx']
    | _ => cases hx'
  | _ => cases hx

variable {lua : LuaNumbers Num}

theorem not_list {key : Key Num} (hwritable : ∀ key ∈ T.entries.map Prod.fst, key.Writable)
    (hkey : HasKey T key) (hindex : ¬ IsIndex lua key) :
    ¬ ((T.entries.map Prod.fst).filterMap Key.text? = [] ∧
      ((T.entries.map Prod.fst).filterMap Key.number?).any (improper lua) = false) := by
  rintro ⟨htexts, hany⟩
  have hmem := hasKey_iff.mp hkey
  have hnone := List.filterMap_eq_nil_iff.mp htexts key hmem
  cases key with
  | string s => cases hnone
  | boolean b => cases b <;> cases hnone
  | other type id => exact hwritable _ hmem
  | number x =>
    have hx := List.any_eq_false.mp hany x (mem_numbers_iff.mpr hkey)
    simp only [improper, Bool.or_eq_true, not_or, Bool.not_eq_true] at hx
    exact hindex ⟨x, rfl, hx⟩

theorem named_of_string {name : Text} (hkey : HasKey T (.string name)) :
    Named lua T name v ↔ Holds T (.string name) v := by
  constructor
  · intro h
    cases h with
    | string h => exact .entry h
    | number _ h _ => exact absurd hkey h
    | nil h _ => exact absurd hkey h
  · intro h
    cases h with
    | entry h => exact .string h
    | nil h => exact absurd hkey h

theorem named_of_number {xs : List Num} {x : Num}
    (hmembers : ∀ x, x ∈ xs ↔ HasKey T (.number x)) (hdistinct : (xs.map lua.tostring).Nodup)
    (hstring : ¬ HasKey T (.string (lua.tostring x))) (hx : HasKey T (.number x)) :
    Named lua T (lua.tostring x) v ↔ Holds T (.number x) v := by
  constructor
  · intro h
    cases h with
    | string h => exact absurd ⟨_, h⟩ hstring
    | @number y _ hname _ h =>
      have hy : y ∈ xs := (hmembers y).mpr ⟨_, h⟩
      obtain rfl := List.inj_on_of_nodup_map hdistinct hy ((hmembers x).mpr hx) hname
      exact .entry h
    | nil _ h => exact absurd rfl (h x hx)
  · intro h
    cases h with
    | entry h => exact .number rfl hstring h
    | nil h => exact absurd hx h

theorem named_of_nothing {name : Text} (hstring : ¬ HasKey T (.string name))
    (hnumber : ∀ x, HasKey T (.number x) → lua.tostring x ≠ name) :
    Named lua T name v ↔ v = .nil := by
  constructor
  · intro h
    cases h with
    | string h => exact absurd ⟨_, h⟩ hstring
    | number hname _ h => exact absurd hname (hnumber _ ⟨_, h⟩)
    | nil => rfl
  · rintro rfl
    exact .nil hstring hnumber

variable [DecidableEq Num]

theorem get_eq (h : (key, v) ∈ T.entries) : get T.entries key = v := by
  rw [get, (find?_eq_some T.nodup).mpr ⟨h, rfl⟩]

theorem get_eq_nil (h : ¬ HasKey T key) : get T.entries key = .nil := by
  rw [get, find?_eq_none fun hkey => h (hasKey_iff.mpr hkey)]

theorem get_eq_iff : get T.entries key = v ↔ Holds T key v := by
  constructor
  · rintro rfl
    by_cases h : HasKey T key
    · obtain ⟨v, hv⟩ := h
      rw [get_eq hv]
      exact .entry hv
    · rw [get_eq_nil h]
      exact .nil h
  · intro h
    cases h with
    | entry h => exact get_eq h
    | nil h => exact get_eq_nil h

theorem isNil_get_iff {E : Entries Num k} (hE : ∀ e ∈ E, e.2 ≠ .nil) :
    (get E key).isNil = true ↔ key ∉ E.map Prod.fst := by
  rw [get]
  split
  · rename_i e he
    have hmem := List.mem_of_find?_eq_some he
    have hkey : e.1 = key := by simpa using List.find?_some he
    refine iff_of_false (fun hnil => hE e hmem ?_) (not_not.mpr (hkey ▸ List.mem_map_of_mem hmem))
    cases he2 : e.2 with
    | nil => rfl
    | _ => rw [he2] at hnil; cases hnil
  · rename_i hnone
    refine iff_of_true rfl fun hkey => ?_
    obtain ⟨e, he, rfl⟩ := List.mem_map.mp hkey
    exact List.find?_eq_none.mp hnone e he (decide_eq_true rfl)

theorem get_append {E E' : Entries Num k} :
    get (E ++ E') key = if key ∈ E.map Prod.fst then get E key else get E' key := by
  rw [get, List.find?_append]
  split_ifs with hkey
  · obtain ⟨e, he, rfl⟩ := List.mem_map.mp hkey
    have hsome : (E.find? fun e' => e'.1 = e.1) ≠ none := fun hnone =>
      List.find?_eq_none.mp hnone e he (decide_eq_true rfl)
    obtain ⟨e', he'⟩ := Option.ne_none_iff_exists'.mp hsome
    rw [get, he', Option.some_or]
  · have hnone : (E.find? fun e => e.1 = key) = none := List.find?_eq_none.mpr fun e he heq =>
      hkey (of_decide_eq_true heq ▸ List.mem_map_of_mem he)
    rw [hnone, Option.none_or, get]

/-- The entry that a number becomes. -/
def converted (lua : LuaNumbers Num) (E : Entries Num k) (x : Num) : Key Num × HeapValue Num k :=
  (.string (lua.tostring x), get E (.number x))

/-- The numbers are converted when their texts differ from each other and from the strings. -/
theorem convertKeys_eq_ok {E map map' : Entries Num k} {xs : List Num} {names names' : List Text}
    (hE : ∀ x ∈ xs, get E (.number x) ≠ .nil) (hmap : ∀ e ∈ map, e.2 ≠ .nil) :
    convertKeys lua E xs names map = .ok (names', map') ↔
      (xs.map lua.tostring).Nodup ∧ (∀ x ∈ xs, .string (lua.tostring x) ∉ map.map Prod.fst) ∧
        names' = names ++ xs.map lua.tostring ∧ map' = map ++ xs.map (converted lua E) := by
  induction xs generalizing names map with
  | nil =>
    rw [convertKeys, List.map_nil, List.map_nil, List.append_nil, List.append_nil]
    constructor
    · intro h
      obtain ⟨rfl, rfl⟩ := Prod.mk.inj (Except.ok.inj h)
      exact ⟨List.nodup_nil, fun x hx => absurd hx List.not_mem_nil, rfl, rfl⟩
    · rintro ⟨-, -, rfl, rfl⟩
      rfl
  | cons x xs ih =>
    obtain ⟨hx, hxs⟩ := List.forall_mem_cons.mp hE
    have hmap' : ∀ e ∈ map ++ [converted lua E x], e.2 ≠ .nil :=
      List.forall_mem_append.mpr ⟨hmap, List.forall_mem_singleton.mpr hx⟩
    have ih := @ih (map ++ [converted lua E x]) (names ++ [lua.tostring x]) hxs hmap'
    rw [convertKeys]
    simp only [isNil_get_iff hmap]
    rw [List.map_cons, List.nodup_cons, List.forall_mem_cons, List.map_cons]
    by_cases hfresh : .string (lua.tostring x) ∉ map.map Prod.fst
    · rw [if_pos hfresh]
      refine ih.trans ?_
      rw [List.append_assoc, List.append_assoc]
      constructor
      · rintro ⟨hnodup, hall, hnames, hmap⟩
        refine ⟨⟨fun hmem => ?_, hnodup⟩, ⟨hfresh, fun y hy hmem => ?_⟩, hnames, hmap⟩
        · obtain ⟨y, hy, heq⟩ := List.mem_map.mp hmem
          exact hall y hy (by simp [converted, heq])
        · exact hall y hy (by simp [hmem])
      · rintro ⟨⟨hx, hnodup⟩, ⟨-, hall⟩, hnames, hmap⟩
        refine ⟨hnodup, fun y hy hmem => ?_, hnames, hmap⟩
        rw [List.map_append, List.mem_append] at hmem
        rcases hmem with hmem | hmem
        · exact hall y hy hmem
        · have heq : lua.tostring y = lua.tostring x := by simpa [converted] using hmem
          exact hx (heq ▸ List.mem_map_of_mem hy)
    · rw [if_neg hfresh]
      refine iff_of_false (fun h => by cases h) ?_
      rintro ⟨-, ⟨h, -⟩, -⟩
      exact hfresh h

theorem get_converted {xs : List Num} {x : Num} (hdistinct : (xs.map lua.tostring).Nodup)
    (hx : x ∈ xs) : get (xs.map (converted lua T.entries)) (.string (lua.tostring x)) =
      get T.entries (.number x) := by
  have hkeys : (xs.map (converted lua T.entries)).map Prod.fst =
      (xs.map lua.tostring).map Key.string := by
    rw [List.map_map, List.map_map]
    rfl
  have hnodup : ((xs.map (converted lua T.entries)).map Prod.fst).Nodup := by
    rw [hkeys]
    exact hdistinct.map fun _ _ h => Key.string.inj h
  have hfind : ((xs.map (converted lua T.entries)).find? fun e =>
      e.1 = .string (lua.tostring x)) = some (converted lua T.entries x) :=
    (find?_eq_some hnodup).mpr ⟨List.mem_map_of_mem hx, rfl⟩
  rw [get, hfind]
  rfl

theorem get_converted_nil {xs : List Num} {name : Text} (h : ∀ x ∈ xs, lua.tostring x ≠ name) :
    get (xs.map (converted lua T.entries)) (.string name) = .nil := by
  rw [get, List.find?_eq_none.mpr]
  rintro e he heq
  obtain ⟨x, hx, rfl⟩ := List.mem_map.mp he
  exact h x hx (Key.string.inj (of_decide_eq_true heq))

/-- What is looked up with the numbers converted is the value under a name. -/
theorem get_converted_iff {xs : List Num} {name : Text}
    (hmembers : ∀ x, x ∈ xs ↔ HasKey T (.number x)) (hdistinct : (xs.map lua.tostring).Nodup) :
    get (T.entries ++ xs.map (converted lua T.entries)) (.string name) = v ↔ Named lua T name v := by
  rw [get_append]
  split_ifs with hkey
  · rw [get_eq_iff, named_of_string (hasKey_iff.mpr hkey)]
  · have hstring : ¬ HasKey T (.string name) := fun h => hkey (hasKey_iff.mp h)
    by_cases hnumber : ∃ x, HasKey T (.number x) ∧ lua.tostring x = name
    · obtain ⟨x, hx, rfl⟩ := hnumber
      rw [get_converted hdistinct ((hmembers x).mpr hx), get_eq_iff,
        named_of_number hmembers hdistinct hstring hx]
    · have hnone (x : Num) (hx : HasKey T (.number x)) : lua.tostring x ≠ name :=
        fun hname => hnumber ⟨x, hx, hname⟩
      rw [get_converted_nil fun x hx => hnone x ((hmembers x).mp hx),
        named_of_nothing hstring hnone, eq_comm]

/-! ## Arrays and objects -/

theorem forall₂_eq_iff {α β : Type} {f : α → β} {xs : List α} {ys : List β} :
    List.Forall₂ (fun x y => f x = y) xs ys ↔ ys = xs.map f := by
  have h := List.forall₂_map_left_iff (R := Eq) (f := f) (l := xs) (u := ys)
  rw [List.forall₂_eq_eq_eq] at h
  exact h.symm.trans eq_comm

variable {b : Bool} {frame : Frame} {values : List (HeapValue Num k)}

theorem contents_eq (h : ∀ key ∈ T.entries.map Prod.fst, key.Writable) :
    contents lua b T = (do
      let shape ← (Keys.of lua ((T.entries.map Prod.fst).filterMap Key.text?)
        ((T.entries.map Prod.fst).filterMap Key.number?)).shape lua b T
      return shape.contents lua T) := by
  rw [contents, objectOrArray, foldlM_insert_eq h]
  rfl

theorem contents_noEntries (h : T.entries = []) :
    contents lua b T = .ok (if T.kind = some .object then .object [] else .empty, []) := by
  have hshape : objectOrArray lua b T =
      .ok (if T.kind = some .object then .object [] none else .empty) := by
    rw [objectOrArray, h]
    rfl
  rw [contents, hshape]
  by_cases hkind : T.kind = some .object
  · rw [if_pos hkind, if_pos hkind]
    rfl
  · rw [if_neg hkind, if_neg hkind]
    rfl

theorem contents_of_indexes (hlua : Comparable lua T) (hne : T.entries ≠ [])
    (hindexes : ∀ key, HasKey T key → IsIndex lua key) :
    contents lua b T = .ok (frame, values) ↔ frame = .array ∧ IsArray lua T values := by
  have hkeys : ∀ key ∈ T.entries.map Prod.fst, IsIndex lua key :=
    fun key hkey => hindexes key (hasKey_iff.mpr hkey)
  have hwritable : ∀ key ∈ T.entries.map Prod.fst, key.Writable := by
    intro key hkey
    obtain ⟨x, rfl, -⟩ := hkeys key hkey
    trivial
  have htexts : (T.entries.map Prod.fst).filterMap Key.text? = [] := by
    rw [List.filterMap_eq_nil_iff]
    intro key hkey
    obtain ⟨x, rfl, -⟩ := hkeys key hkey
    rfl
  have hmem {x : Num} := mem_numbers_iff (T := T) (x := x)
  have hnumbers : (T.entries.map Prod.fst).filterMap Key.number? ≠ [] := by
    obtain ⟨⟨key, v⟩, he⟩ := List.exists_mem_of_ne_nil _ hne
    obtain ⟨x, rfl, -⟩ := hindexes key ⟨v, he⟩
    exact List.ne_nil_of_mem (hmem.mpr ⟨v, he⟩)
  rw [contents_eq hwritable, htexts]
  generalize (T.entries.map Prod.fst).filterMap Key.number? = numbers at hmem hnumbers
  have hproper : ∀ x ∈ numbers, improper lua x = false := by
    intro x hx
    obtain ⟨y, hy, hpositive, hhuge⟩ := hindexes _ (hmem.mp hx)
    rw [Key.number.inj hy, improper, hpositive, hhuge]
    rfl
  have hany : numbers.any (improper lua) = false := List.any_eq_false.mpr fun x hx => by
    rw [hproper x hx]
    decide
  have hfilter : (numbers.filter fun x => !improper lua x) = numbers :=
    List.filter_eq_self.mpr fun x hx => by rw [hproper x hx]; rfl
  have hordered : ∀ x ∈ numbers, .number x ∈ T.entries.map Prod.fst :=
    fun x hx => hasKey_iff.mp (hmem.mp hx)
  obtain ⟨hnil, hmax⟩ := foldl_keepLarger hlua hordered
  obtain ⟨m, hm⟩ := Option.ne_none_iff_exists'.mp fun h => hnumbers (hnil.mp h)
  obtain ⟨hmnumbers, hle⟩ := hmax m hm
  have hmaximum : (Keys.of lua [] numbers).maximumNumberKey = some m := by
    rw [← hm, ← hfilter]
    simp only [Keys.of, hfilter]
  rw [shape_of, if_pos ⟨rfl, hany⟩, hmaximum]
  change Except.ok ((Shape.array m).contents lua T) = _ ↔ _
  rw [Shape.contents]
  constructor
  · intro h
    obtain ⟨rfl, rfl⟩ := Prod.mk.inj (Except.ok.inj h)
    refine ⟨rfl, hindexes, m, hmem.mp hmnumbers, fun x hx => hle x (hmem.mpr hx), ?_⟩
    simp only [← get_eq_iff, forall₂_eq_iff]
  · rintro ⟨rfl, -, m', hm', hle', hvalues⟩
    have hmm : m' = m := hlua.eq_of_not (hordered _ (hmem.mpr hm')) (hordered _ hmnumbers)
      (hle' m (hmem.mp hmnumbers)) (hle m' (hmem.mpr hm'))
    simp only [← get_eq_iff, forall₂_eq_iff] at hvalues
    rw [hvalues, hmm]

theorem contents_of_object_eq (hwritable : ∀ key ∈ T.entries.map Prod.fst, key.Writable)
    {key : Key Num} (hkey : HasKey T key) (hindex : ¬ IsIndex lua key) {numbers : List Num}
    (hnumbers : numbers = sortNumbers lua ((T.entries.map Prod.fst).filterMap Key.number?))
    {names : List Text}
    (hnames : names = sortStrings ((T.entries.map Prod.fst).filterMap Key.text?)) :
    contents lua b T = .ok (frame, values) ↔
      (numbers ≠ [] → b = false) ∧ (numbers.map lua.tostring).Nodup ∧
      (∀ x ∈ numbers, ¬ HasKey T (.string (lua.tostring x))) ∧
      frame = .object (names ++ numbers.map lua.tostring) ∧
      values = (names ++ numbers.map lua.tostring).map fun name =>
        get (T.entries ++ numbers.map (converted lua T.entries)) (.string name) := by
  have hperm := List.perm_insertionSort (fun x y => lua.lt y x = false)
    ((T.entries.map Prod.fst).filterMap Key.number?)
  rw [contents_eq hwritable, shape_of, if_neg (not_list hwritable hkey hindex), ← hnumbers, ← hnames]
  have hnil : (T.entries.map Prod.fst).filterMap Key.number? = [] ↔ numbers = [] := by
    rw [hnumbers, sortNumbers]
    exact ⟨fun h => by rw [h]; rfl, fun h => (h ▸ hperm).symm.eq_nil⟩
  have hmem {x : Num} (hx : x ∈ numbers) : HasKey T (.number x) := by
    rw [hnumbers] at hx
    exact mem_numbers_iff.mp ((List.mem_insertionSort _).mp hx)
  have hmap : ∀ e ∈ T.entries, e.2 ≠ .nil := T.no_nil
  have hvalue : ∀ x ∈ numbers, get T.entries (.number x) ≠ .nil := by
    intro x hx
    obtain ⟨v, hv⟩ := hmem hx
    rw [get_eq hv]
    exact hmap _ hv
  simp only [hasKey_iff]
  by_cases hnone : numbers = []
  · rw [if_pos (hnil.mpr hnone), hnone]
    simp only [List.map_nil, List.append_nil, List.nodup_nil, List.not_mem_nil]
    constructor
    · intro h
      obtain ⟨rfl, rfl⟩ := Prod.mk.inj (Except.ok.inj h)
      exact ⟨fun h => absurd rfl h, trivial, fun _ h => h.elim, rfl, rfl⟩
    · rintro ⟨-, -, -, rfl, rfl⟩
      rfl
  · rw [if_neg fun h => hnone (hnil.mp h)]
    cases b with
    | true =>
      rw [if_pos rfl]
      refine iff_of_false (fun h => by cases h) ?_
      rintro ⟨h, -⟩
      exact absurd (h hnone) (by decide)
    | false =>
      rw [if_neg (by decide)]
      constructor
      · intro h
        obtain ⟨shape, hshape, h⟩ := bind_eq_ok.mp h
        obtain ⟨⟨names', map⟩, hconvert, hshape⟩ := bind_eq_ok.mp hshape
        obtain ⟨hnodup, hfresh, rfl, rfl⟩ := (convertKeys_eq_ok hvalue hmap).mp hconvert
        obtain rfl := Except.ok.inj hshape
        obtain ⟨rfl, rfl⟩ := Prod.mk.inj (Except.ok.inj h)
        exact ⟨fun _ => rfl, hnodup, hfresh, rfl, rfl⟩
      · rintro ⟨-, hnodup, hfresh, rfl, rfl⟩
        exact bind_eq_ok.mpr ⟨_, bind_eq_ok.mpr ⟨_,
          (convertKeys_eq_ok hvalue hmap).mpr ⟨hnodup, hfresh, rfl, rfl⟩, rfl⟩, rfl⟩

theorem sortStrings_eq_iff {texts names : List Text} :
    sortStrings texts = names ↔ names.Pairwise (· ≤ ·) ∧ names.Perm texts := by
  constructor
  · rintro rfl
    exact ⟨List.pairwise_insertionSort _ _, List.perm_insertionSort _ _⟩
  · rintro ⟨hsorted, hperm⟩
    rw [sortStrings, ← sortStrings, ← sortStrings_perm hperm]
    exact hsorted.insertionSort_eq

theorem contents_of_object (hlua : Comparable lua T)
    (hwritable : ∀ key ∈ T.entries.map Prod.fst, key.Writable) {key : Key Num}
    (hkey : HasKey T key) (hindex : ¬ IsIndex lua key) :
    contents lua b T = .ok (frame, values) ↔ ∃ names numbers,
      frame = .object (names ++ numbers.map lua.tostring) ∧
        IsObject lua T b names numbers values := by
  have hordered : ∀ x ∈ (T.entries.map Prod.fst).filterMap Key.number?,
      .number x ∈ T.entries.map Prod.fst := fun x hx => mem_number.mp hx
  rw [contents_of_object_eq hwritable hkey hindex rfl rfl]
  constructor
  · rintro ⟨hconversion, hdistinct, hfresh, hframe, hvalues⟩
    obtain ⟨hascending, hmembers⟩ := (insertionSort_eq_iff hlua hordered numbers_nodup).mp rfl
    obtain ⟨hsorted, hperm⟩ := sortStrings_eq_iff.mp rfl
    refine ⟨_, _, hframe, ?_, Or.inr ⟨key, hkey, hindex⟩, hsorted, hperm, hascending, ?_,
      hconversion, hdistinct, hfresh, ?_⟩
    · exact fun type id h => hwritable _ (hasKey_iff.mp h)
    · exact fun x => (hmembers x).trans mem_numbers_iff
    · rw [← forall₂_eq_iff] at hvalues
      exact hvalues.imp fun name v h => (get_converted_iff
        (fun x => (hmembers x).trans mem_numbers_iff) hdistinct).mp h
  · rintro ⟨names, numbers, hframe, h⟩
    have hnumbers := (insertionSort_eq_iff hlua hordered numbers_nodup).mpr
      ⟨h.ascending, fun x => (h.members x).trans mem_numbers_iff.symm⟩
    have hnames := sortStrings_eq_iff.mpr ⟨h.sorted, h.perm⟩
    rw [sortNumbers, hnumbers, hnames]
    refine ⟨h.conversion, h.distinct, h.fresh, hframe, ?_⟩
    rw [← forall₂_eq_iff]
    exact h.values.imp fun name v h' => (get_converted_iff h.members h.distinct).mpr h'

theorem contents_of_empty (hnone : T.entries = []) :
    contents lua b T = .ok (frame, values) ↔ Content lua T b frame values := by
  have hkey (key : Key Num) : ¬ HasKey T key := fun ⟨v, hv⟩ => by
    rw [hnone] at hv
    exact List.not_mem_nil hv
  rw [contents_noEntries hnone]
  constructor
  · intro h
    obtain ⟨rfl, rfl⟩ := Prod.mk.inj (Except.ok.inj h)
    split_ifs with hkind
    · have hobject : IsObject lua T b [] [] [] :=
        ⟨fun _ _ => hkey _, Or.inl ⟨hnone, hkind⟩, .nil, by rw [hnone]; exact .nil, .nil,
          fun x => iff_of_false List.not_mem_nil (hkey _), fun h => absurd rfl h, List.nodup_nil,
          fun x hx => absurd hx List.not_mem_nil, .nil⟩
      exact .object hobject
    · exact .empty hnone hkind
  · intro h
    cases h with
    | empty _ hkind => rw [if_neg hkind]
    | array h =>
      obtain ⟨maximum, hmaximum, -⟩ := h.values
      exact absurd hmaximum (hkey _)
    | @object names numbers _ h =>
      have hnames : names = [] := by
        have hperm := h.perm
        rw [hnone] at hperm
        exact hperm.eq_nil
      have hnumbers : numbers = [] :=
        List.eq_nil_iff_forall_not_mem.mpr fun x hx => hkey _ ((h.members x).mp hx)
      subst hnames hnumbers
      obtain rfl := List.forall₂_nil_left_iff.mp h.values
      rcases h.object with ⟨-, hkind⟩ | ⟨key, hkey', -⟩
      · rw [if_pos hkind]
        rfl
      · exact absurd hkey' (hkey key)

/-- A table is written with its contents. -/
theorem contents_eq_ok (hlua : Comparable lua T) :
    contents lua b T = .ok (frame, values) ↔ Content lua T b frame values := by
  by_cases hnone : T.entries = []
  · exact contents_of_empty hnone
  by_cases hindexes : ∀ key, HasKey T key → IsIndex lua key
  · rw [contents_of_indexes hlua hnone hindexes]
    constructor
    · rintro ⟨rfl, h⟩
      exact .array h
    · intro h
      cases h with
      | empty h _ => exact absurd h hnone
      | array h => exact ⟨rfl, h⟩
      | object h =>
        rcases h.object with ⟨h, -⟩ | ⟨key, hkey, hindex⟩
        · exact absurd h hnone
        · exact absurd (hindexes key hkey) hindex
  · push Not at hindexes
    obtain ⟨key, hkey, hindex⟩ := hindexes
    constructor
    · intro h
      obtain ⟨shape, hshape, -⟩ := bind_pure_eq_ok.mp h
      obtain ⟨keys, hkeys, -⟩ := bind_eq_ok.mp hshape
      obtain ⟨names, numbers, rfl, hobject⟩ :=
        (contents_of_object hlua (writable_of_foldlM hkeys) hkey hindex).mp h
      exact .object hobject
    · intro h
      cases h with
      | empty h _ => exact absurd h fun h => hnone h
      | array h => exact absurd (h.indexes key hkey) hindex
      | object h =>
        refine (contents_of_object hlua (fun key' hkey' => ?_) hkey hindex).mpr ⟨_, _, rfl, h⟩
        cases key' with
        | other type id => exact h.writable type id (hasKey_iff.mpr hkey')
        | _ => trivial

end

end PerfTools.Json
