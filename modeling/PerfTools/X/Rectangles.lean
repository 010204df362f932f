import PerfTools.X.Modeset

/-!
# What the loops of modeset_draw2 draw

With bounds that have not wrapped around, the loops of one margin paint the rectangle inside it
and nothing else. Otherwise they store outside the map, or color a pixel of the first row.
-/

namespace PerfTools.X

open Memory Exec

variable {d : ModesetDev} {value m : Nat}

/-- The pixels of A have got the color, all other bytes of the rows are as before. -/
structure Painted (d : ModesetDev) (value : Nat) (A : Nat → Nat → Prop) (map map' : List UInt8) :
    Prop where
  length : map'.length = map.length
  new : ∀ x y, x < d.width → y < d.height → A x y → pixel d map' x y = leBytes 4 value
  old : ∀ x y, x < d.width → y < d.height → ¬ A x y → pixel d map' x y = pixel d map x y
  paddings : ∀ y < d.height, padding d map' y = padding d map y

namespace Painted

variable {A B : Nat → Nat → Prop} {map map' : List UInt8}

theorem none (map : List UInt8) (hA : ∀ x y, ¬ A x y) : Painted d value A map map :=
  ⟨rfl, fun x y _ _ hxy => absurd hxy (hA x y), fun _ _ _ _ _ => rfl, fun _ _ => rfl⟩

theorem congr (h : Painted d value A map map') (hAB : ∀ x y, A x y ↔ B x y) :
    Painted d value B map map' where
  length := h.length
  new x y hx hy hB := h.new x y hx hy ((hAB x y).mpr hB)
  old x y hx hy hB := h.old x y hx hy fun hA => hB ((hAB x y).mp hA)
  paddings := h.paddings

end Painted

/-! ## Bounds that have not wrapped around -/

section

variable (hd : d.Mapped) {A : Nat → Nat → Prop} {map map' : List UInt8}
include hd

/-- A pixel has no byte in common with n bytes of a row that begin elsewhere in their row. -/
private theorem pixel_apart {x y y' c n : Nat} (hx : x < d.width) (hc : c + n ≤ d.stride)
    (hrow : y' = y → c + n ≤ 4 * x ∨ 4 * x + 4 ≤ c) :
    d.stride * y' + c + n ≤ d.stride * y + 4 * x ∨
      d.stride * y + 4 * x + (leBytes 4 value).length ≤ d.stride * y' + c := by
  have hstride := hd.stride
  rw [leBytes_length]
  rcases Nat.lt_trichotomy y' y with hlt | rfl | hlt
  · have hbelow := row_le (s := d.stride) hlt
    omega
  · have hbeside := hrow rfl
    omega
  · have hbelow := row_le (s := d.stride) hlt
    omega

theorem drawPixel_painted (hmap : map.length = d.size) (h : Painted d value A map map') {x y : Nat}
    (hx : x < d.width) (hy : y < d.height) :
    wp (drawPixel d value y x)
      (fun _ map' => Painted d value (fun x' y' => A x' y' ∨ x' = x ∧ y' = y) map map')
      (fun _ _ => False) map' := by
  have hend := hd.pixel_end hx hy
  have hsize := hd.size
  have hstride := hd.stride
  have hoff : (d.stride * y + x * 4) % 2 ^ 32 = d.stride * y + 4 * x := by
    rw [Nat.mul_comm x]
    exact Nat.mod_eq_of_lt (by omega)
  have hlen := h.length
  have hin : d.stride * y + 4 * x + (leBytes 4 value).length ≤ map'.length := by
    rw [leBytes_length]
    omega
  rw [drawPixel, hoff, wp_setPixel]
  refine ⟨fun _ => ⟨?_, ?_, ?_, ?_⟩, fun hout => hout (by omega)⟩
  · rw [overwrite_length hin, hlen]
  · intro x' y' hx' hy' hxy
    by_cases hsame : x' = x ∧ y' = y
    · obtain ⟨rfl, rfl⟩ := hsame
      exact overwrite_window hin
    · rw [pixel, overwrite_frame hin (pixel_apart hd hx (by omega) (by omega))]
      exact h.new x' y' hx' hy' (hxy.resolve_right hsame)
  · intro x' y' hx' hy' hxy
    have hne : ¬ (x' = x ∧ y' = y) := fun hsame => hxy (Or.inr hsame)
    rw [pixel, overwrite_frame hin (pixel_apart hd hx (by omega) (by omega))]
    exact h.old x' y' hx' hy' fun hA => hxy (Or.inl hA)
  · intro y' hy'
    rw [padding, overwrite_frame hin (pixel_apart hd hx (by omega) (by omega))]
    exact h.paddings y' hy'

theorem drawRow_painted (hm : m ≤ d.width) (hmap : map.length = d.size)
    (h : Painted d value A map map') {y : Nat} (hy : y < d.height) :
    wp (drawRow d m value y)
      (fun _ map' => Painted d value
        (fun x' y' => A x' y' ∨ (m ≤ x' ∧ x' + m < d.width) ∧ y' = y) map map')
      (fun _ _ => False) map' := by
  have hrounds : unsignedSub d.width m - m = d.width - 2 * m := by
    rw [unsignedSub_of_le hm hd.width_lt]
    omega
  have hstart : Painted d value (fun x' y' => A x' y' ∨ (m ≤ x' ∧ x' < m) ∧ y' = y) map map' :=
    h.congr fun x' y' => by
      rw [or_iff_left]
      omega
  have hround (k : Nat) (t : List UInt8) (hk : m ≤ k) (hlt : k < m + (d.width - 2 * m))
      (ht : Painted d value (fun x' y' => A x' y' ∨ (m ≤ x' ∧ x' < k) ∧ y' = y) map t) :
      wp (drawPixel d value y k)
        (fun _ => Painted d value (fun x' y' => A x' y' ∨ (m ≤ x' ∧ x' < k + 1) ∧ y' = y) map)
        (fun _ _ => False) t := by
    apply wp_mono (drawPixel_painted hd hmap ht (by omega) hy) _ fun _ _ hfalse => hfalse
    intro _ t' ht'
    apply ht'.congr
    intro x' y'
    rw [or_assoc]
    exact or_congr_right (by omega)
  rw [drawRow, hrounds]
  apply wp_mono (wp_loop (drawPixel d value y) _ hround hstart) _ fun _ _ hfalse => hfalse
  intro _ t ht
  exact ht.congr fun x' y' => or_congr_right (by omega)

theorem draw_painted (hw : m ≤ d.width) (hh : m ≤ d.height) (hmap : map.length = d.size) :
    wp (draw d m value) (fun _ => Painted d value (Inside d m) map) (fun _ _ => False) map := by
  have hrounds : unsignedSub d.height m - m = d.height - 2 * m := by
    rw [unsignedSub_of_le hh hd.height_lt]
    omega
  have hstart : Painted d value
      (fun x y => (m ≤ x ∧ x + m < d.width) ∧ m ≤ y ∧ y < m) map map :=
    Painted.none map fun x y => by omega
  have hround (j : Nat) (t : List UInt8) (hj : m ≤ j) (hlt : j < m + (d.height - 2 * m))
      (ht : Painted d value (fun x y => (m ≤ x ∧ x + m < d.width) ∧ m ≤ y ∧ y < j) map t) :
      wp (drawRow d m value j)
        (fun _ => Painted d value (fun x y => (m ≤ x ∧ x + m < d.width) ∧ m ≤ y ∧ y < j + 1) map)
        (fun _ _ => False) t := by
    apply wp_mono (drawRow_painted hd hw hmap ht (by omega)) _ fun _ _ hfalse => hfalse
    intro _ t' ht'
    exact ht'.congr fun x y => by omega
  rw [draw, hrounds]
  apply wp_mono (wp_loop (drawRow d m value) _ hround hstart) _ fun _ _ hfalse => hfalse
  intro _ t ht
  exact ht.congr fun x y => by
    rw [Inside]
    omega

/-- With a margin that is fine, a wrapped bound does no harm: the other loop has no rounds. -/
theorem draw_fine (value : Nat) (hfine : Fine m d.width d.height) (hmap : map.length = d.size) :
    wp (draw d m value) (fun _ => Painted d value (Inside d m) map) (fun _ _ => False) map := by
  rcases hfine with ⟨hw, hh⟩ | ⟨hw, hnarrow⟩ | ⟨hh, hlow⟩
  · exact draw_painted hd hw hh hmap
  · have hrounds : unsignedSub d.width m - m = 0 := by
      rw [unsignedSub_of_le hw hd.width_lt]
      omega
    have hnone : Painted d value (Inside d m) map map :=
      Painted.none map fun x y => by
        rw [Inside]
        omega
    have hround (j : Nat) (t : List UInt8) (_ : m ≤ j)
        (_ : j < m + (unsignedSub d.height m - m)) (ht : Painted d value (Inside d m) map t) :
        wp (drawRow d m value j) (fun _ => Painted d value (Inside d m) map) (fun _ _ => False) t := by
      rw [drawRow, hrounds]
      exact ht
    rw [draw]
    exact wp_loop (drawRow d m value) (fun _ => Painted d value (Inside d m) map) hround hnone
  · have hrounds : unsignedSub d.height m - m = 0 := by
      rw [unsignedSub_of_le hh hd.height_lt]
      omega
    rw [draw, hrounds]
    exact Painted.none map fun x y => by
      rw [Inside]
      omega

end

end PerfTools.X
