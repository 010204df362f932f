import Mathlib.Data.List.Induction
import Mathlib.Data.List.Sort

/-!
# Lists whose order does not matter

What a program computes from a list that it gets in some arbitrary order: it looks up an entry by
its key, sorts the list, or keeps the largest element. The order of a list has to be total on its
elements only.
-/

namespace PerfTools.Unordered

/-! ## Lookup -/

section

variable {κ β : Type*} [DecidableEq κ] {l l' : List (κ × β)}

theorem find?_eq_some (hnodup : (l.map Prod.fst).Nodup) {key : κ} {e : κ × β} :
    (l.find? fun e => e.1 = key) = some e ↔ e ∈ l ∧ e.1 = key := by
  constructor
  · intro h
    exact ⟨List.mem_of_find?_eq_some h, by simpa using List.find?_some h⟩
  · rintro ⟨he, rfl⟩
    cases hfind : l.find? fun e' => e'.1 = e.1 with
    | none => exact absurd (decide_eq_true rfl) (List.find?_eq_none.mp hfind e he)
    | some e' =>
      have hkey : e'.1 = e.1 := by simpa using List.find?_some hfind
      rw [List.inj_on_of_nodup_map hnodup (List.mem_of_find?_eq_some hfind) he hkey]

end

/-! ## Order -/

section

variable {α : Type*} {lt : α → α → Bool} {p : α → Prop} {l l' : List α}

/-- A strict order that compares the elements that have a property. -/
structure OrderedOn (lt : α → α → Bool) (p : α → Prop) : Prop where
  asymm : ∀ x y, p x → p y → lt x y = true → lt y x = false
  trans : ∀ x y z, p x → p y → p z → lt x y = true → lt y z = true → lt x z = true
  total : ∀ x y, p x → p y → x ≠ y → lt x y = true ∨ lt y x = true

namespace OrderedOn

theorem mono (h : OrderedOn lt p) {q : α → Prop} (hq : ∀ x, q x → p x) : OrderedOn lt q where
  asymm x y hx hy := h.asymm x y (hq x hx) (hq y hy)
  trans x y z hx hy hz := h.trans x y z (hq x hx) (hq y hy) (hq z hz)
  total x y hx hy := h.total x y (hq x hx) (hq y hy)

theorem irrefl (h : OrderedOn lt p) {x : α} (hx : p x) : lt x x = false := by
  cases hxx : lt x x with
  | false => rfl
  | true => exact (h.asymm x x hx hx hxx).symm.trans hxx |>.symm

theorem eq_of_not (h : OrderedOn lt p) {x y : α} (hx : p x) (hy : p y) (hxy : lt x y = false)
    (hyx : lt y x = false) : x = y := by
  by_contra hne
  rcases h.total x y hx hy hne with hlt | hlt
  · exact absurd (hxy.symm.trans hlt) (by decide)
  · exact absurd (hyx.symm.trans hlt) (by decide)

theorem not_trans (h : OrderedOn lt p) {x y z : α} (hx : p x) (hy : p y) (hz : p z)
    (hyx : lt y x = false) (hzy : lt z y = false) : lt z x = false := by
  cases hzx : lt z x with
  | false => rfl
  | true =>
    by_cases hxy : x = y
    · subst hxy
      exact hzx.symm.trans hzy
    · have hlt : lt x y = true := (h.total x y hx hy hxy).resolve_right (by rw [hyx]; decide)
      exact (h.trans z x y hz hx hy hzx hlt).symm.trans hzy

end OrderedOn

theorem pairwise_insertionSort (h : OrderedOn lt p) (hp : ∀ x ∈ l, p x) :
    (l.insertionSort fun x y => lt y x = false).Pairwise fun x y => lt y x = false := by
  -- on the elements that compare, the relation is total and transitive
  let r (x y : {x // p x}) : Prop := lt y.1 x.1 = false
  have htotal : Std.Total r := ⟨fun x y => by
    cases hyx : lt y.1 x.1 with
    | false => exact Or.inl hyx
    | true => exact Or.inr (h.asymm _ _ y.2 x.2 hyx)⟩
  have htrans : IsTrans {x // p x} r := ⟨fun x y z hxy hyz => h.not_trans x.2 y.2 z.2 hxy hyz⟩
  have hsort : l.insertionSort (fun x y => lt y x = false) =
      ((l.attachWith p hp).insertionSort r).map Subtype.val := by
    rw [List.map_insertionSort r (fun x y => lt y x = false) Subtype.val _
      fun _ _ _ _ => Iff.rfl, List.attachWith_map_subtype_val]
  rw [hsort, List.pairwise_map]
  exact List.pairwise_insertionSort r _

/-- Sorting forgets the order of the list. -/
theorem insertionSort_perm (h : OrderedOn lt p) (hp : ∀ x ∈ l, p x) (hperm : l.Perm l') :
    l.insertionSort (fun x y => lt y x = false) = l'.insertionSort fun x y => lt y x = false := by
  have hp' : ∀ x ∈ l', p x := fun x hx => hp x (hperm.mem_iff.mpr hx)
  have hsorted := (List.perm_insertionSort (fun x y => lt y x = false) l).trans
    (hperm.trans (List.perm_insertionSort (fun x y => lt y x = false) l').symm)
  refine List.Perm.eq_of_pairwise (fun x y hx hy hxy hyx => ?_) (pairwise_insertionSort h hp)
    (pairwise_insertionSort h hp') hsorted
  exact h.eq_of_not (hp x ((List.mem_insertionSort _).mp hx))
    (hp' y ((List.mem_insertionSort _).mp hy)) hyx hxy

/-- Sorting a list without repetitions gives the ascending list of its elements. -/
theorem insertionSort_eq_iff (h : OrderedOn lt p) (hp : ∀ x ∈ l, p x) (hnodup : l.Nodup) :
    l.insertionSort (fun x y => lt y x = false) = l' ↔
      l'.Pairwise (fun x y => lt x y = true) ∧ ∀ x, x ∈ l' ↔ x ∈ l := by
  constructor
  · rintro rfl
    refine ⟨?_, fun x => List.mem_insertionSort _⟩
    have hsorted := (pairwise_insertionSort h hp).and
      ((List.perm_insertionSort (fun x y => lt y x = false) l).nodup_iff.mpr hnodup)
    refine hsorted.imp_of_mem fun {x y} hx hy hxy => ?_
    exact (h.total x y (hp x ((List.mem_insertionSort _).mp hx))
      (hp y ((List.mem_insertionSort _).mp hy)) hxy.2).resolve_right (by rw [hxy.1]; decide)
  · rintro ⟨hascending, hmem⟩
    have hp' : ∀ x ∈ l', p x := fun x hx => hp x ((hmem x).mp hx)
    have hnodup' : l'.Nodup := hascending.imp_of_mem fun {x y} hx _ hlt heq => by
      rw [heq, h.irrefl (heq ▸ hp' x hx)] at hlt
      cases hlt
    have hperm : l.Perm l' := (List.perm_ext_iff_of_nodup hnodup hnodup').mpr fun x => (hmem x).symm
    rw [insertionSort_perm h hp hperm]
    exact List.Pairwise.insertionSort_eq (hascending.imp_of_mem fun {x y} hx hy hlt =>
      h.asymm x y (hp' x hx) (hp' y hy) hlt)

/-- A round of a loop that keeps the largest element. -/
def keepLarger (lt : α → α → Bool) (m : Option α) (x : α) : Option α :=
  if m.all fun m => lt m x then some x else m

theorem foldl_keepLarger (h : OrderedOn lt p) (hp : ∀ x ∈ l, p x) :
    (l.foldl (keepLarger lt) none = none ↔ l = []) ∧
      ∀ m, l.foldl (keepLarger lt) none = some m → m ∈ l ∧ ∀ x ∈ l, lt m x = false := by
  induction l using List.reverseRecOn with
  | nil => exact ⟨⟨fun _ => rfl, fun _ => rfl⟩, fun m hm => by cases hm⟩
  | append_singleton l x ih =>
    have hx : p x := hp x (by simp)
    have hl : ∀ y ∈ l, p y := fun y hy => hp y (List.mem_append_left _ hy)
    obtain ⟨hnil, ih⟩ := ih hl
    have hone (m : α) (hm : m ∈ l ++ [x]) (hmax : ∀ y ∈ l ++ [x], lt m y = false) :
        (some m = none ↔ l ++ [x] = []) ∧
          ∀ m', some m = some m' → m' ∈ l ++ [x] ∧ ∀ y ∈ l ++ [x], lt m' y = false := by
      refine ⟨by simp, fun m' hm' => ?_⟩
      obtain rfl := Option.some.inj hm'
      exact ⟨hm, hmax⟩
    rw [List.foldl_append, List.foldl_cons, List.foldl_nil]
    cases hfold : l.foldl (keepLarger lt) none with
    | none =>
      obtain rfl := hnil.mp hfold
      refine hone x (by simp) fun y hy => ?_
      rw [List.nil_append, List.mem_singleton] at hy
      rw [hy, h.irrefl hx]
    | some m =>
      obtain ⟨hm, hmax⟩ := ih m hfold
      rw [keepLarger, Option.all_some]
      cases hmx : lt m x with
      | true =>
        rw [if_pos rfl]
        refine hone x (by simp) fun y hy => ?_
        rcases List.mem_append.mp hy with hy | hy
        · exact h.not_trans (hl y hy) (hl m hm) hx (hmax y hy) (h.asymm m x (hl m hm) hx hmx)
        · rw [List.mem_singleton.mp hy, h.irrefl hx]
      | false =>
        rw [if_neg (by decide)]
        refine hone m (List.mem_append_left _ hm) fun y hy => ?_
        rcases List.mem_append.mp hy with hy | hy
        · exact hmax y hy
        · rw [List.mem_singleton.mp hy, hmx]

/-- The largest element does not depend on the order of the list. -/
theorem foldl_keepLarger_perm (h : OrderedOn lt p) (hp : ∀ x ∈ l, p x) (hperm : l.Perm l') :
    l.foldl (keepLarger lt) none = l'.foldl (keepLarger lt) none := by
  have hp' : ∀ x ∈ l', p x := fun x hx => hp x (hperm.mem_iff.mpr hx)
  obtain ⟨hnil, hmax⟩ := foldl_keepLarger h hp
  obtain ⟨hnil', hmax'⟩ := foldl_keepLarger h hp'
  cases hm : l.foldl (keepLarger lt) none with
  | none =>
    obtain rfl := hnil.mp hm
    rw [hnil'.mpr hperm.nil_eq.symm]
  | some m =>
    cases hm' : l'.foldl (keepLarger lt) none with
    | none =>
      obtain rfl := hnil'.mp hm'
      rw [hperm.eq_nil] at hm
      cases hm
    | some m' =>
      obtain ⟨hmem, hle⟩ := hmax m hm
      obtain ⟨hmem', hle'⟩ := hmax' m' hm'
      have hmem'' := hperm.mem_iff.mpr hmem'
      rw [h.eq_of_not (hp m hmem) (hp m' hmem'') (hle m' hmem'') (hle' m (hperm.mem_iff.mp hmem))]

end

end PerfTools.Unordered
