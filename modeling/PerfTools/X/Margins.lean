import Mathlib.Data.Int.GCD
import Mathlib.Data.Nat.Prime.Basic
import Mathlib.Tactic.Linarith
import PerfTools.X.Rectangles

/-!
# Displays that are smaller than a margin

The difference of a bound and a larger margin is near 2^32, and the loop runs over nearly all
unsigned ints. If the other loop has a round, then one of the offsets is beyond the map, or the
rows are at multiples of four and a pixel of the first row gets a color from inside.
-/

namespace PerfTools.X

open Memory Exec

/-! ## Offsets beyond every map -/

private theorem not_both_near {s a b m : Int} (hm : 0 ≤ m) (hbound : m < 2 ^ 14) (ha : -m ≤ a)
    (ha' : a ≤ m) (hb : -m ≤ b) (hb' : b ≤ m) (hone : (2 : Int) ^ 32 ∣ s * a + (4 * m + 1))
    (htwo : (2 : Int) ^ 32 ∣ s * b + (4 * m + 2)) : False := by
  have hdiff : (2 : Int) ^ 32 ∣ s * (a - b) - 1 := by
    have hsub := Int.dvd_sub hone htwo
    rwa [show s * a + (4 * m + 1) - (s * b + (4 * m + 2)) = s * (a - b) - 1 by ring] at hsub
  have hsmall : (2 : Int) ^ 32 ∣ (4 * m + 1) * (a - b) + a := by
    have hcomb := Int.dvd_sub (hone.mul_right (a - b)) (hdiff.mul_right a)
    rwa [show (s * a + (4 * m + 1)) * (a - b) - (s * (a - b) - 1) * a =
      (4 * m + 1) * (a - b) + a by ring] at hcomb
  have hup : (4 * m + 1) * (a - b) ≤ (4 * m + 1) * (2 * m) :=
    Int.mul_le_mul_of_nonneg_left (by omega) (by omega)
  have hdown : (4 * m + 1) * (-(2 * m)) ≤ (4 * m + 1) * (a - b) :=
    Int.mul_le_mul_of_nonneg_left (by omega) (by omega)
  have hsquare : m * m ≤ (2 ^ 14 - 1) * (2 ^ 14 - 1) :=
    Int.mul_le_mul (by omega) (by omega) hm (by omega)
  have hzero : (4 * m + 1) * (a - b) + a = 0 := by
    apply Int.eq_zero_of_abs_lt_dvd hsmall
    rw [abs_lt]
    constructor <;> nlinarith
  have hne : a - b ≠ 0 := by
    intro hd
    rw [hd, Int.mul_zero] at hdiff
    omega
  rcases Int.lt_or_gt_of_ne hne with hneg | hpos
  · nlinarith
  · nlinarith

variable {s m last : Nat}

/-- A row whose first pixel inside the margin is at one of the last offsets. -/
private def Beyond (s m last : Nat) : Prop :=
  ∃ j, m ≤ j ∧ j < last ∧ 2 ^ 32 ≤ (s * j + m * 4) % 2 ^ 32 + 4

private theorem beyond_or_near (hs : s % 2 = 1) (hbound : m < 2 ^ 14) (hlast : 2 ^ 32 ≤ last + m)
    {c : Nat} (hc : 0 < c) (hfour : c ≤ 4) :
    Beyond s m last ∨
      ∃ a : Int, -m ≤ a ∧ a ≤ m ∧ (2 : Int) ^ 32 ∣ s * a + (4 * m + c : Nat) := by
  have hcoprime : Nat.Coprime s (2 ^ 32) :=
    (Nat.coprime_two_left.mpr (Nat.odd_iff.mpr hs)).symm.pow_right 32
  obtain ⟨j, hj, hmul⟩ :=
    Nat.exists_mul_mod_eq_of_coprime (2 ^ 32 - (4 * m + c)) hcoprime (by omega)
  have hsum : (s * j + (4 * m + c)) % 2 ^ 32 = 0 := by omega
  have hdvd : (2 : Int) ^ 32 ∣ s * (j : Int) + (4 * m + c : Nat) := by
    have hnat := Int.natCast_dvd_natCast.mpr (Nat.dvd_of_mod_eq_zero hsum)
    push_cast at hnat ⊢
    exact hnat
  rcases Nat.lt_or_ge j m with hlow | hlow
  · exact Or.inr ⟨j, by omega, by omega, hdvd⟩
  · rcases Nat.lt_or_ge j last with hhigh | hhigh
    · exact Or.inl ⟨j, hlow, hhigh, by omega⟩
    · apply Or.inr
      have hturn : (2 : Int) ^ 32 ∣ s * ((j : Int) - 2 ^ 32) + (4 * m + c : Nat) := by
        have hsub := Int.dvd_sub hdvd (Int.dvd_mul_right (2 ^ 32) (s : Int))
        rwa [show (s : Int) * j + (4 * m + c : Nat) - 2 ^ 32 * s =
          s * ((j : Int) - 2 ^ 32) + (4 * m + c : Nat) by ring] at hsub
      exact ⟨j - 2 ^ 32, by omega, by omega, hturn⟩

private theorem beyond_of_odd (hs : s % 2 = 1) (hbound : m < 2 ^ 14) (hlast : 2 ^ 32 ≤ last + m) :
    Beyond s m last := by
  rcases beyond_or_near hs hbound hlast (c := 1) (by decide) (by decide) with
    hrow | ⟨a, ha, ha', hone⟩
  · exact hrow
  · rcases beyond_or_near hs hbound hlast (c := 2) (by decide) (by decide) with
      hrow | ⟨b, hb, hb', htwo⟩
    · exact hrow
    · push_cast at hone htwo
      exact absurd (not_both_near (by omega) (by omega) ha ha' hb hb' hone htwo) id

private theorem beyond_of_two (hs : s % 4 = 2) (hbound : m < 2 ^ 14) (hlast : 2 ^ 32 ≤ last + m) :
    Beyond s m last := by
  have hhalf : s = 2 * (s / 2) := by omega
  have hcoprime : Nat.Coprime (s / 2) (2 ^ 31) :=
    (Nat.coprime_two_left.mpr (Nat.odd_iff.mpr (by omega))).symm.pow_right 31
  obtain ⟨j, hj, hmul⟩ :=
    Nat.exists_mul_mod_eq_of_coprime (2 ^ 31 - (2 * m + 1)) hcoprime (by omega)
  have hrow (i : Nat) (hi : s / 2 * i % 2 ^ 31 = s / 2 * j % 2 ^ 31) :
      2 ^ 32 ≤ (s * i + m * 4) % 2 ^ 32 + 4 := by
    have hdouble : s * i = 2 * (s / 2 * i) := by
      rw [← Nat.mul_assoc, ← hhalf]
    omega
  rcases Nat.lt_or_ge j m with hlow | hlow
  · refine ⟨j + 2 ^ 31, by omega, by omega, hrow _ ?_⟩
    rw [Nat.mul_add, Nat.add_mul_mod_self_right]
  · exact ⟨j, hlow, by omega, hrow j rfl⟩

/-! ## Runs with a bound that has wrapped around -/

section

variable {d : ModesetDev} {value j k : Nat} {map : List UInt8}

private theorem draw_reach {P : List UInt8 → Prop} (hj : m ≤ j)
    (hj' : j < m + (unsignedSub d.height m - m)) (hk : m ≤ k)
    (hk' : k < m + (unsignedSub d.width m - m))
    (hat : ∀ map, map.length = d.size →
      wp (drawPixel d value j k) (fun _ => P) (fun _ _ => True) map)
    (hP : ∀ j k map, P map → wp (drawPixel d value j k) (fun _ => P) (fun _ _ => True) map)
    (hmap : map.length = d.size) :
    wp (draw d m value) (fun _ => P) (fun _ _ => True) map := by
  have hlength (j k : Nat) (map : List UInt8) (h : map.length = d.size) :
      wp (drawPixel d value j k) (fun _ map => map.length = d.size) (fun _ _ => True) map :=
    keeps_setPixel_length value _ d.size map h
  have hrow (I : List UInt8 → Prop)
      (hI : ∀ j k map, I map → wp (drawPixel d value j k) (fun _ => I) (fun _ _ => True) map)
      (i : Nat) (map : List UInt8) (h : I map) :
      wp (drawRow d m value i) (fun _ => I) (fun _ _ => True) map :=
    wp_loop (drawPixel d value i) (fun _ => I) (fun k t _ _ => hI i k t) h
  rw [draw]
  apply wp_loop_reach (drawRow d m value) hj hj' (hrow _ hlength) _ (hrow P hP) hmap
  intro t ht
  exact wp_loop_reach (drawPixel d value j) hk hk' (hlength j) hat (hP j) ht

private theorem draw_outside (hd : d.Mapped) (value : Nat) (hj : m ≤ j)
    (hj' : j < m + (unsignedSub d.height m - m)) (hk : m ≤ k)
    (hk' : k < m + (unsignedSub d.width m - m))
    (hoff : 2 ^ 32 ≤ (d.stride * j + k * 4) % 2 ^ 32 + 4) (hmap : map.length = d.size) :
    wp (draw d m value) (fun _ _ => False) (fun _ _ => True) map := by
  apply draw_reach hj hj' hk hk' _ (fun _ _ _ hfalse => absurd hfalse id) hmap
  intro t ht
  have hsize := hd.size
  rw [drawPixel, wp_setPixel]
  exact ⟨fun hin => by omega, fun _ => trivial⟩

/-- A pixel of the first row that has not got the color of the edge. -/
structure Stray (d : ModesetDev) (m : Nat) (map : List UInt8) : Prop where
  column : m < d.width
  stride : d.stride % 4 = 0
  bright : pixel d map m 0 = leBytes 4 green ∨ pixel d map m 0 = leBytes 4 blue

private theorem drawPixel_stray (hvalue : value = green ∨ value = blue) (j k : Nat)
    (h : Stray d m map) :
    wp (drawPixel d value j k) (fun _ => Stray d m) (fun _ _ => True) map := by
  have hfour : (d.stride * j + k * 4) % 2 ^ 32 % 4 = 0 := by
    have hrow : d.stride * j % 4 = 0 := by
      rw [Nat.mul_mod, h.stride, Nat.zero_mul, Nat.zero_mod]
    omega
  rw [drawPixel, wp_setPixel]
  refine ⟨fun hin => ⟨h.column, h.stride, ?_⟩, fun _ => trivial⟩
  have hin' : (d.stride * j + k * 4) % 2 ^ 32 + (leBytes 4 value).length ≤ map.length := by
    rwa [leBytes_length]
  have hstart : d.stride * 0 + 4 * m = 4 * m := by rw [Nat.mul_zero, Nat.zero_add]
  rcases eq_or_ne ((d.stride * j + k * 4) % 2 ^ 32) (4 * m) with heq | hne
  · have hsame : pixel d (overwrite map ((d.stride * j + k * 4) % 2 ^ 32) (leBytes 4 value)) m 0 =
        leBytes 4 value := by
      have hwindow : window _ _ 4 = leBytes 4 value := overwrite_window hin'
      rw [pixel, hstart, ← heq, hwindow]
    rw [hsame]
    exact hvalue.imp (congrArg (leBytes 4)) (congrArg (leBytes 4))
  · have hother : pixel d (overwrite map ((d.stride * j + k * 4) % 2 ^ 32) (leBytes 4 value)) m 0 =
        pixel d map m 0 := by
      rw [pixel, hstart, overwrite_frame hin' (by rw [leBytes_length]; omega), pixel, hstart]
    rw [hother]
    exact h.bright

/-- Later rectangles leave such a pixel as it is, or change it to one of their colors. -/
private theorem draw_keeps_stray (hvalue : value = green ∨ value = blue) (n : Nat)
    (h : Stray d m map) : wp (draw d n value) (fun _ => Stray d m) (fun _ _ => True) map := by
  rw [draw]
  apply wp_loop (drawRow d n value) (fun _ => Stray d m) _ h
  intro j t _ _ ht
  apply wp_loop (drawPixel d value j) (fun _ => Stray d m) _ ht
  intro k t _ _ ht
  exact drawPixel_stray hvalue j k ht

/-- With a wide display that is lower than the margin, and rows at multiples of four, the row
2^30 begins at offset 0. -/
private theorem draw_above (hd : d.Mapped) (hvalue : value = green ∨ value = blue)
    (hstride : d.stride % 4 = 0) (hbound : m < 2 ^ 14) (hlow : d.height < m)
    (hwide : 2 * m < d.width) (hmap : map.length = d.size) :
    wp (draw d m value) (fun _ => Stray d m) (fun _ _ => True) map := by
  have hrows := unsignedSub_of_lt hlow (by omega)
  have hcolumns := unsignedSub_of_le (b := m) (by omega) hd.width_lt
  have hoff : (d.stride * 2 ^ 30 + m * 4) % 2 ^ 32 = 4 * m := by omega
  have hstart : d.stride * 0 + 4 * m = 4 * m := by rw [Nat.mul_zero, Nat.zero_add]
  apply draw_reach (j := 2 ^ 30) (k := m) (by omega) (by omega) le_rfl (by omega) _
    (fun j k t ht => drawPixel_stray hvalue j k ht) hmap
  intro t ht
  rw [drawPixel, hoff, wp_setPixel]
  refine ⟨fun hin => ⟨by omega, hstride, ?_⟩, fun _ => trivial⟩
  have hwindow : window (overwrite t (4 * m) (leBytes 4 value)) (4 * m) 4 = leBytes 4 value :=
    overwrite_window (by rwa [leBytes_length])
  rw [pixel, hstart, hwindow]
  exact hvalue.imp (congrArg (leBytes 4)) (congrArg (leBytes 4))

theorem draw_wrong (hd : d.Mapped) (hvalue : value = green ∨ value = blue) (hfour : m % 4 = 0)
    (hbound : m < 2 ^ 14) (hfine : ¬ Fine m d.width d.height) (hmap : map.length = d.size) :
    wp (draw d m value) (fun _ => Stray d m) (fun _ _ => True) map := by
  have hheight := hd.height
  rcases Nat.lt_or_ge d.width m with hnarrow | hwide
  · -- already the row of the margin has a column at one of the last offsets
    have hcolumns := unsignedSub_of_lt hnarrow (by omega)
    have hrows : m < m + (unsignedSub d.height m - m) := by
      rcases Nat.lt_or_ge d.height m with hlow | hhigh
      · rw [unsignedSub_of_lt hlow (by omega)]
        omega
      · rw [unsignedSub_of_le hhigh hd.height_lt]
        unfold Fine at hfine
        omega
    have hquarter : d.stride * m = 4 * (d.stride * (m / 4)) := by
      rw [Nat.mul_left_comm, Nat.mul_div_cancel' (Nat.dvd_of_mod_eq_zero hfour)]
    have hout := draw_outside hd value (j := m)
      (k := 2 ^ 30 + (2 ^ 30 - 1 - d.stride * (m / 4) % 2 ^ 30)) le_rfl hrows (by omega) (by omega)
      (by omega) hmap
    exact wp_mono hout (fun _ _ hfalse => absurd hfalse id) fun _ _ _ => trivial
  · have hlow : d.height < m := by
      unfold Fine at hfine
      omega
    have hwide' : 2 * m < d.width := by
      unfold Fine at hfine
      omega
    by_cases hstride : d.stride % 4 = 0
    · exact draw_above hd hvalue hstride hbound hlow hwide' hmap
    · have hrows := unsignedSub_of_lt hlow (by omega)
      have hcolumns := unsignedSub_of_le hwide hd.width_lt
      obtain ⟨j, hj, hj', hoff⟩ : Beyond d.stride m (2 ^ 32 + d.height - m) := by
        rcases Nat.mod_two_eq_zero_or_one d.stride with heven | hodd
        · exact beyond_of_two (by omega) hbound (by omega)
        · exact beyond_of_odd hodd hbound (by omega)
      have hout := draw_outside hd value hj (by omega) le_rfl (by omega) hoff hmap
      exact wp_mono hout (fun _ _ hfalse => absurd hfalse id) fun _ _ _ => trivial

end

/-! ## The passes over one device -/

section

variable {d : ModesetDev}

theorem fine_zero (width height : Nat) : Fine 0 width height :=
  Or.inl ⟨Nat.zero_le _, Nat.zero_le _⟩

theorem picture_of_painted {red' green' blue' : List UInt8}
    (hred : Painted d red (Inside d 0) d.map red')
    (hgreen : Painted d green (Inside d 100) red' green')
    (hblue : Painted d blue (Inside d 200) green' blue') : Picture d { d with map := blue' } where
  pixels x y hx hy := by
    show pixel d blue' x y = leBytes 4 (shade d x y)
    unfold shade
    split_ifs with hin hin'
    · exact hblue.new x y hx hy hin
    · rw [hblue.old x y hx hy hin]
      exact hgreen.new x y hx hy hin'
    · rw [hblue.old x y hx hy hin, hgreen.old x y hx hy hin']
      exact hred.new x y hx hy (by unfold Inside; omega)
  paddings y hy :=
    (hblue.paddings y hy).trans ((hgreen.paddings y hy).trans (hred.paddings y hy))

theorem Stray.not_picture {m : Nat} {map : List UInt8} (h : Stray d m map)
    (hheight : 1 ≤ d.height) : ¬ Picture d { d with map := map } := by
  intro hpicture
  have hpixel : pixel d map m 0 = leBytes 4 (shade d m 0) := hpicture.pixels m 0 h.column hheight
  have hshade : shade d m 0 = red := by
    rw [shade, if_neg (by unfold Inside; omega), if_neg (by unfold Inside; omega)]
  rw [hshade] at hpixel
  rcases h.bright with hgreen | hblue
  · rw [hgreen] at hpixel
    exact absurd hpixel (by decide)
  · rw [hblue] at hpixel
    exact absurd hpixel (by decide)

/-- All three passes over a device return. -/
def Repainted (d d' : ModesetDev) : Prop :=
  ∃ red' green' blue', draw d 0 red d.map = (.ok (), red') ∧
    draw d 100 green red' = (.ok (), green') ∧ draw d 200 blue green' = (.ok (), blue') ∧
    d' = { d with map := blue' }

theorem exists_picture (hd : d.Mapped) (hgreen : Fine 100 d.width d.height)
    (hblue : Fine 200 d.width d.height) : ∃ d', Repainted d d' ∧ Picture d d' := by
  obtain ⟨_, red', hred', hpaint⟩ := returns_of_wp (draw_fine hd red (fine_zero _ _) hd.map)
  have hlen := hpaint.length.trans hd.map
  obtain ⟨_, green', hgreen', hpaint'⟩ := returns_of_wp (draw_fine hd green hgreen hlen)
  have hlen' := hpaint'.length.trans hlen
  obtain ⟨_, blue', hblue', hpaint''⟩ := returns_of_wp (draw_fine hd blue hblue hlen')
  exact ⟨_, ⟨red', green', blue', hred', hgreen', hblue', rfl⟩,
    picture_of_painted hpaint hpaint' hpaint''⟩

theorem fine_of_picture (hd : d.Mapped) {d' : ModesetDev} (h : Repainted d d')
    (hpicture : Picture d d') : Fine 100 d.width d.height ∧ Fine 200 d.width d.height := by
  obtain ⟨red', green', blue', hred, hgreen, hblue, rfl⟩ := h
  have hpaint := draw_fine hd red (fine_zero _ _) hd.map
  rw [wp_of_eq hred] at hpaint
  have hlen := hpaint.length.trans hd.map
  have hfine : Fine 100 d.width d.height := by
    by_contra hwrong
    have hstray := draw_wrong hd (Or.inl rfl) (by decide) (by decide) hwrong hlen
    rw [wp_of_eq hgreen] at hstray
    have hlast := draw_keeps_stray (Or.inr rfl) 200 hstray
    rw [wp_of_eq hblue] at hlast
    exact hlast.not_picture hd.height hpicture
  have hpaint' := draw_fine hd green hfine hlen
  rw [wp_of_eq hgreen] at hpaint'
  refine ⟨hfine, ?_⟩
  by_contra hwrong
  have hstray := draw_wrong hd (Or.inr rfl) (by decide) (by decide) hwrong (hpaint'.length.trans hlen)
  rw [wp_of_eq hblue] at hstray
  exact hstray.not_picture hd.height hpicture

end

/-! ## The list of devices -/

section

variable {α β γ : Type} {R : α → β → Prop} {S : β → γ → Prop}

private theorem exists_forall₂ {l : List α} :
    (∃ l', List.Forall₂ R l l') ↔ ∀ a ∈ l, ∃ b, R a b := by
  induction l with
  | nil => exact ⟨fun _ _ ha => absurd ha List.not_mem_nil, fun _ => ⟨[], .nil⟩⟩
  | cons a l ih =>
    rw [List.forall_mem_cons, ← ih]
    constructor
    · rintro ⟨_, h⟩
      cases h with
      | cons hb hl => exact ⟨⟨_, hb⟩, _, hl⟩
    · rintro ⟨⟨b, hb⟩, l', hl⟩
      exact ⟨b :: l', .cons hb hl⟩

private theorem forall₂_comp {l : List α} {l'' : List γ} :
    (∃ l', List.Forall₂ R l l' ∧ List.Forall₂ S l' l'') ↔
      List.Forall₂ (Relation.Comp R S) l l'' := by
  constructor
  · rintro ⟨l', hR, hS⟩
    induction hR generalizing l'' with
    | nil =>
      cases hS
      exact .nil
    | cons hab _ ih =>
      cases hS with
      | cons hbc hS => exact .cons ⟨_, hab, hbc⟩ (ih hS)
  · intro h
    induction h with
    | nil => exact ⟨[], .nil, .nil⟩
    | cons hac _ ih =>
      obtain ⟨b, hab, hbc⟩ := hac
      obtain ⟨l', hR, hS⟩ := ih
      exact ⟨b :: l', .cons hab hR, .cons hbc hS⟩

end

/-- One pass over one device. -/
private def Filled (margin value : Nat) (d d' : ModesetDev) : Prop :=
  ∃ map, draw d margin value d.map = (.ok (), map) ∧ d' = { d with map := map }

private theorem drawAll_eq_ok {margin value : Nat} {devs devs' : List ModesetDev} :
    drawAll margin value devs = (.ok (), devs') ↔
      List.Forall₂ (Filled margin value) devs devs' := by
  induction devs generalizing devs' with
  | nil =>
    rw [List.forall₂_nil_left_iff]
    constructor
    · intro h
      exact (Prod.mk.inj h).2.symm
    · rintro rfl
      rfl
  | cons d rest ih =>
    rw [List.forall₂_cons_left_iff, drawAll]
    rcases hdraw : draw d margin value d.map with ⟨_ | _, map⟩
    · dsimp only
      constructor
      · intro h
        exact absurd (Prod.mk.inj h).1 (by simp)
      · rintro ⟨_, _, ⟨map', hmap', _⟩, _⟩
        rw [hdraw] at hmap'
        exact absurd (Prod.mk.inj hmap').1 (by simp)
    · dsimp only
      rcases hrest : drawAll margin value rest with ⟨result, rest'⟩
      dsimp only
      constructor
      · intro h
        obtain ⟨rfl, rfl⟩ := Prod.mk.inj h
        exact ⟨_, rest', ⟨map, hdraw, rfl⟩, ih.mp hrest, rfl⟩
      · rintro ⟨_, rest'', ⟨map', hmap', rfl⟩, hrest', rfl⟩
        rw [hdraw] at hmap'
        obtain ⟨_, rfl⟩ := Prod.mk.inj hmap'
        have hall := ih.mpr hrest'
        rw [hrest] at hall
        obtain ⟨rfl, rfl⟩ := Prod.mk.inj hall
        rfl

/-- A device keeps its measures, and so the passes can be read as passes over its map. -/
private theorem filled_comp :
    Relation.Comp (Filled 0 red) (Relation.Comp (Filled 100 green) (Filled 200 blue)) =
      Repainted := by
  have hdraw (d : ModesetDev) (map : List UInt8) (m value : Nat) :
      draw { d with map := map } m value = draw d m value := by
    rw [draw, draw]
    rfl
  funext d d'
  apply propext
  constructor
  · rintro ⟨_, ⟨red', hred, rfl⟩, _, ⟨green', hgreen, rfl⟩, blue', hblue, rfl⟩
    rw [hdraw] at hgreen
    rw [hdraw, hdraw] at hblue
    exact ⟨red', green', blue', hred, hgreen, hblue, rfl⟩
  · rintro ⟨red', green', blue', hred, hgreen, hblue, rfl⟩
    refine ⟨_, ⟨red', hred, rfl⟩, _, ⟨green', ?_, rfl⟩, blue', ?_, rfl⟩
    · rw [hdraw]
      exact hgreen
    · rw [hdraw, hdraw]
      exact hblue

private theorem modesetDraw2_eq_ok {devs devs' : List ModesetDev} :
    modesetDraw2 devs = (.ok (), devs') ↔ List.Forall₂ Repainted devs devs' := by
  have hrun : modesetDraw2 devs = (.ok (), devs') ↔ ∃ reds greens,
      drawAll 0 red devs = (.ok (), reds) ∧ drawAll 100 green reds = (.ok (), greens) ∧
        drawAll 200 blue greens = (.ok (), devs') := by
    unfold modesetDraw2
    rw [bind_apply]
    rcases drawAll 0 red devs with ⟨_ | _, reds⟩
    · simp
    · dsimp only
      rw [bind_apply]
      rcases hgreens : drawAll 100 green reds with ⟨_ | _, greens⟩
      · simp [hgreens]
      · simp [hgreens]
  rw [hrun]
  simp only [drawAll_eq_ok, exists_and_left, forall₂_comp, filled_comp]

private theorem drawn_iff_forall {devs : List ModesetDev} :
    Drawn devs ↔ ∀ d ∈ devs, ∃ d', Repainted d d' ∧ Picture d d' := by
  have hboth (devs' : List ModesetDev) :
      List.Forall₂ Repainted devs devs' ∧ List.Forall₂ Picture devs devs' ↔
        List.Forall₂ (fun d d' => Repainted d d' ∧ Picture d d') devs devs' := by
    constructor
    · intro h
      exact h.1.mp (fun _ _ => And.intro) h.2
    · intro h
      exact ⟨h.imp fun _ _ => And.left, h.imp fun _ _ => And.right⟩
  unfold Drawn
  simp only [modesetDraw2_eq_ok, hboth]
  exact exists_forall₂

/-- The picture appears on all displays exactly when both margins are fine for each of them. -/
theorem drawn_iff (devs : List ModesetDev) (hdevs : ∀ d ∈ devs, d.Mapped) :
    Drawn devs ↔ ∀ d ∈ devs, Fine 100 d.width d.height ∧ Fine 200 d.width d.height := by
  rw [drawn_iff_forall]
  apply forall₂_congr
  intro d hd
  constructor
  · intro h
    obtain ⟨d', hrun, hpicture⟩ := h
    exact fine_of_picture (hdevs d hd) hrun hpicture
  · intro h
    exact exists_picture (hdevs d hd) h.1 h.2

/-- A display without padding, and with a black map. -/
def screen (width height : Nat) : ModesetDev where
  width := width
  height := height
  stride := 4 * width
  size := 4 * width * height
  map := List.replicate (4 * width * height) 0

private theorem screen_mapped {width height : Nat} (hwidth : 1 ≤ width) (hheight : 1 ≤ height)
    (hsize : 4 * width * height < 2 ^ 32) : (screen width height).Mapped where
  width := hwidth
  height := hheight
  stride := le_rfl
  rows := le_rfl
  size := hsize
  map := List.length_replicate

private theorem one_mapped {d : ModesetDev} (h : d.Mapped) : ∀ d' ∈ [d], d'.Mapped := by
  intro d' hd'
  rwa [List.mem_singleton.mp hd']

/-- A common display, and one where the blue rectangle has no columns. -/
theorem drawn_screens : Drawn [screen 1920 1080, screen 320 180] :=
  (drawn_iff _ (List.forall_mem_cons.mpr
    ⟨screen_mapped (by decide) (by decide) (by decide),
      one_mapped (screen_mapped (by decide) (by decide) (by decide))⟩)).mpr
    (List.forall_mem_cons.mpr ⟨by decide, List.forall_mem_singleton.mpr (by decide)⟩)

/-- On a display of 160 x 128 pixels, a store for the blue rectangle is outside the map. -/
theorem tft_not_drawn : (screen 160 128).Mapped ∧ ¬ Drawn [screen 160 128] := by
  have hmapped : (screen 160 128).Mapped := screen_mapped (by decide) (by decide) (by decide)
  refine ⟨hmapped, fun h => ?_⟩
  obtain ⟨d', hrun, hpicture⟩ := drawn_iff_forall.mp h _ (List.mem_singleton.mpr rfl)
  have hfine : Fine 200 160 128 := (fine_of_picture hmapped hrun hpicture).2
  exact absurd hfine (by decide)

end PerfTools.X
