import PerfTools.Json.Documents

/-!
# Tables that contain themselves

A Lua table can be a value in itself, or in one of the tables in it. Such a value has no text, and
encode_value has to notice this before it runs out of stack: it remembers the tables that are being
written.
-/

namespace PerfTools.Json

open Printf Numbers

section

variable {Num : Type} {k : Nat} {lua : LuaNumbers Num} [DecidableEq Num] {o : EncodeOptions}
  {heap : Heap Num k} {value : HeapValue Num k} {indent text : Text}
  {one : HeapValue Num k → Text → Encode Num k Text} {T : LuaTable Num k}

/-- The table b is one of the values that are written for a. -/
def Child (lua : LuaNumbers Num) (noKeyConversion : Bool) (heap : Heap Num k) (a b : Fin k) : Prop :=
  ∃ frame values, contents lua noKeyConversion (heap a) = .ok (frame, values) ∧ .table b ∈ values

/-- A value is the table, or is a table in which it is. -/
def Contains (lua : LuaNumbers Num) (noKeyConversion : Bool) (heap : Heap Num k)
    (value : HeapValue Num k) (a : Fin k) : Prop :=
  ∃ b, value = .table b ∧ Relation.ReflTransGen (Child lua noKeyConversion heap) b a

theorem IsDoc.child {a b : Fin k} {d : Doc} (h : IsDoc o lua heap (.table a) d)
    (hchild : Child lua o.noKeyConversion heap a b) :
    ∃ d', IsDoc o lua heap (.table b) d' ∧ sizeOf d' < sizeOf d := by
  obtain ⟨frame, values, hcontents, hb⟩ := hchild
  cases h with
  | table h hitems =>
    obtain ⟨rfl, rfl⟩ := Prod.mk.inj (Except.ok.inj (hcontents.symm.trans h))
    obtain ⟨i, hi, hib⟩ := List.getElem_of_mem hb
    have hi' := hitems.length_eq ▸ hi
    refine ⟨_, ?_, Doc.lt_of_mem (List.getElem_mem hi')⟩
    have hget := hitems.get hi hi'
    simpa [hib] using hget

/-- What is in a table with a document is smaller, and so the table itself is not in it. -/
theorem IsDoc.descendant {a b : Fin k} {d : Doc} (h : IsDoc o lua heap (.table a) d)
    (hpath : Relation.TransGen (Child lua o.noKeyConversion heap) a b) :
    ∃ d', IsDoc o lua heap (.table b) d' ∧ sizeOf d' < sizeOf d := by
  induction hpath with
  | single hchild => exact h.child hchild
  | tail _ hchild ih =>
    obtain ⟨d', hd', hlt⟩ := ih
    obtain ⟨d'', hd'', hlt'⟩ := hd'.child hchild
    exact ⟨d'', hd'', hlt'.trans hlt⟩

/-- The errors that depend on how tables are nested, and not on one table. -/
def EncodeError.Nesting : EncodeError Num k → Prop
  | .childOfItself _ => True
  | .stackOverflow => True
  | _ => False

theorem bind_eq_error {α β ε : Type} {x : Except ε α} {f : α → Except ε β} {e : ε}
    (h : (x >>= f) = .error e) : x = .error e ∨ ∃ a, x = .ok a ∧ f a = .error e := by
  cases x with
  | error e' => exact Or.inl (congrArg Except.error (Except.error.inj h))
  | ok a => exact Or.inr ⟨a, rfl, h⟩

theorem mapM_eq_error {α β ε : Type} {f : α → Except ε β} {xs : List α} {e : ε}
    (h : xs.mapM f = .error e) : ∃ x ∈ xs, f x = .error e := by
  induction xs with
  | nil => cases h
  | cons x xs ih =>
    rw [List.mapM_cons] at h
    rcases bind_eq_error h with hx | ⟨y, -, h⟩
    · exact ⟨x, List.mem_cons_self, hx⟩
    · rcases bind_eq_error h with hxs | ⟨ys, -, h⟩
      · obtain ⟨x', hx', he⟩ := ih hxs
        exact ⟨x', List.mem_cons_of_mem _ hx', he⟩
      · cases h

variable {e : EncodeError Num k}

omit [DecidableEq Num] in
theorem foldlM_insert_error {ks : List (Key Num)} {keys : Keys Num}
    (h : ks.foldlM (Keys.insert (k := k) lua) keys = .error e) : ¬ e.Nesting := by
  induction ks generalizing keys with
  | nil => cases h
  | cons key ks ih =>
    rw [List.foldlM_cons] at h
    rcases bind_eq_error h with hinsert | ⟨keys', -, h⟩
    · unfold Keys.insert at hinsert
      cases key with
      | string s => cases hinsert
      | number x =>
        dsimp only at hinsert
        split_ifs at hinsert
      | boolean b => cases hinsert
      | other type id =>
        rw [← Except.error.inj hinsert]
        exact not_false
    · exact ih h

theorem convertKeys_error {T map : Entries Num k} {xs : List Num} {stringKeys : List Text}
    (h : convertKeys lua T xs stringKeys map = .error e) : ¬ e.Nesting := by
  induction xs generalizing stringKeys map with
  | nil => cases h
  | cons x xs ih =>
    unfold convertKeys at h
    dsimp only at h
    split_ifs at h
    · exact ih h
    · rw [← Except.error.inj h]
      exact not_false

theorem objectOrArray_error {noKeyConversion : Bool}
    (h : objectOrArray lua noKeyConversion T = .error e) : ¬ e.Nesting := by
  unfold objectOrArray at h
  rcases bind_eq_error h with hkeys | ⟨keys, -, h⟩
  · exact foldlM_insert_error hkeys
  · unfold Keys.shape at h
    by_cases hlist : keys.stringKeys = [] ∧ keys.numberKeysMustBeStrings = false
    · rw [if_pos hlist] at h
      split at h <;> cases h
    rw [if_neg hlist] at h
    split_ifs at h
    · rw [← Except.error.inj h]
      exact not_false
    · rcases bind_eq_error h with hconvert | ⟨converted, -, h⟩
      · exact convertKeys_error hconvert
      · cases h

theorem encodeTable_error (h : encodeTable lua o one T indent = .error e) (he : e.Nesting) :
    ∃ frame values indent', contents lua o.noKeyConversion T = .ok (frame, values) ∧
      ∃ value ∈ values, one value indent' = .error e := by
  unfold encodeTable at h
  unfold contents
  rcases bind_eq_error h with hshape | ⟨shape, hshape, h⟩
  · exact absurd he (objectOrArray_error hshape)
  rw [hshape]
  cases shape with
  | empty => cases h
  | array maximum =>
    rcases bind_eq_error h with hitems | ⟨items, -, h⟩
    · obtain ⟨i, hi, herror⟩ := mapM_eq_error hitems
      exact ⟨.array, _, _, rfl, _, List.mem_map_of_mem hi, herror⟩
    · cases h
  | object keys map =>
    dsimp only at h
    unfold encodeObject at h
    split_ifs at h
    · rcases bind_eq_error h with hparts | ⟨parts, -, h⟩
      · obtain ⟨key, hkey, herror⟩ := mapM_eq_error hparts
        rcases bind_eq_error herror with herror | ⟨value, -, herror⟩
        · exact ⟨.object keys, _, _, rfl, _, List.mem_map_of_mem hkey, herror⟩
        · unfold fieldLine at herror
          split_ifs at herror
          rw [← Except.error.inj herror] at he
          exact he.elim
      · cases h
    · rcases bind_eq_error h with hparts | ⟨parts, -, h⟩
      · obtain ⟨key, hkey, herror⟩ := mapM_eq_error hparts
        rcases bind_eq_error herror with herror | ⟨value, -, herror⟩
        · exact ⟨.object keys, _, _, rfl, _, List.mem_map_of_mem hkey, herror⟩
        · cases herror
      · cases h

/-- The parents are around the value, so one of them that is met again contains itself. -/
theorem encodeValue_error {stack : Nat} {parents : List (Fin k)}
    (h : encodeValue lua o heap stack parents value indent = .error e) (he : e.Nesting)
    (hnodup : parents.Nodup) (hstack : k < stack + parents.length)
    (hparents : ∀ a ∈ parents, ∀ b, value = .table b →
      Relation.TransGen (Child lua o.noKeyConversion heap) a b) :
    ∃ a, e = .childOfItself a ∧ Contains lua o.noKeyConversion heap value a ∧
      Relation.TransGen (Child lua o.noKeyConversion heap) a a := by
  have hlen : parents.length ≤ k := by simpa using List.Nodup.length_le_card hnodup
  induction stack generalizing value parents indent with
  | zero => omega
  | succ stack ih =>
    unfold encodeValue at h
    cases value with
    | nil => cases h
    | boolean b => cases h
    | number x => cases h
    | numberObject s => cases h
    | string s =>
      dsimp only at h
      split_ifs at h
    | other type =>
      rw [← Except.error.inj h] at he
      exact he.elim
    | table a =>
      dsimp only at h
      split_ifs at h with ha
      · exact ⟨a, (Except.error.inj h).symm, ⟨a, rfl, .refl⟩, hparents a ha a rfl⟩
      · obtain ⟨frame, values, indent', hcontents, value, hvalue, herror⟩ := encodeTable_error h he
        have hchild (b : Fin k) (hb : value = .table b) : Child lua o.noKeyConversion heap a b :=
          ⟨frame, values, hcontents, hb ▸ hvalue⟩
        have hnodup' : (a :: parents).Nodup := List.nodup_cons.mpr ⟨ha, hnodup⟩
        have hlen' : (a :: parents).length ≤ k := by simpa using List.Nodup.length_le_card hnodup'
        obtain ⟨c, hc, ⟨b, hb, hpath⟩, hcycle⟩ := ih herror hnodup'
          (by rw [List.length_cons]; omega)
          (List.forall_mem_cons.mpr ⟨fun b hb => .single (hchild b hb), fun p hp b hb =>
            (hparents p hp a rfl).tail (hchild b hb)⟩) hlen'
        exact ⟨c, hc, ⟨a, rfl, .head (hchild b hb) hpath⟩, hcycle⟩

/-- The check for tables that contain themselves finds them all and no others, and makes the stack
suffice for any heap. -/
theorem encode_childOfItself {stack : Nat} (hstack : k < stack) (options : Option EncodeOptions) :
    encode lua heap stack value options ≠ .error .stackOverflow ∧
    (∀ a, encode lua heap stack value options = .error (.childOfItself a) →
      Contains lua (options.getD .default).noKeyConversion heap value a ∧
        Relation.TransGen (Child lua (options.getD .default).noKeyConversion heap) a a) ∧
    ∀ a, Contains lua (options.getD .default).noKeyConversion heap value a →
      Relation.TransGen (Child lua (options.getD .default).noKeyConversion heap) a a →
        ∀ text, encode lua heap stack value options ≠ .ok text := by
  have herror {e : EncodeError Num k} (h : encode lua heap stack value options = .error e)
      (he : e.Nesting) := encodeValue_error h he List.nodup_nil (by simpa using hstack)
        fun a ha => absurd ha List.not_mem_nil
  refine ⟨fun h => ?_, fun a h => ?_, ?_⟩
  · obtain ⟨a, ha, -⟩ := herror h trivial
    cases ha
  · obtain ⟨b, hb, hcontains, hcycle⟩ := herror h trivial
    obtain rfl := EncodeError.childOfItself.inj hb
    exact ⟨hcontains, hcycle⟩
  · rintro a ⟨b, rfl, hpath⟩ hcycle text h
    obtain ⟨d, hd, -⟩ := isDoc_of_encodeValue h
    have ha : ∃ d', IsDoc (options.getD .default) lua heap (.table a) d' := by
      rcases Relation.reflTransGen_iff_eq_or_transGen.mp hpath with rfl | hpath
      · exact ⟨d, hd⟩
      · obtain ⟨d', hd', -⟩ := hd.descendant hpath
        exact ⟨d', hd'⟩
    obtain ⟨d', hd'⟩ := ha
    obtain ⟨d'', hd'', hlt⟩ := hd'.descendant hcycle
    rw [hd''.unique hd'] at hlt
    exact lt_irrefl _ hlt

end

/-- Two tables, each with the other one in it. -/
def loop : Heap Int 2 := fun a => ⟨none, [(.number 1, .table a.rev)], by simp, by simp⟩

theorem encode_childOfItself_loop :
    encode luaIntegers loop 3 (.table 0) none = .error (.childOfItself 0) ∧
      Contains luaIntegers false loop (.table 0) 0 ∧
      Relation.TransGen (Child luaIntegers false loop) 0 0 := by
  have herror : encode luaIntegers loop 3 (.table 0) none = .error (.childOfItself 0) := by
    decide +kernel
  exact ⟨herror, (encode_childOfItself (by decide) none).2.1 0 herror⟩

end PerfTools.Json
