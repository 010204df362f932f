import Mathlib.Data.List.Forall2
import PerfTools.Lib.Exec

/-!
# Nested rectangles on the screen

modeset_draw2 fills the frame buffer of every device red, then a rectangle inside it green and one
inside that blue. The bounds of its loops are differences of unsigned ints: on a display that is
smaller than the margin they are near 2^32, and so the offsets of the pixels wrap around, too.
-/

namespace PerfTools.X

open Memory Exec

/-- A device of the list, as far as drawing uses it, with the bytes of its map. -/
structure ModesetDev where
  width : Nat
  height : Nat
  stride : Nat
  size : Nat
  map : List UInt8

/-- What the set-up of a device guarantees: the rows fit into the map, and the size is an unsigned
int. -/
structure ModesetDev.Mapped (d : ModesetDev) : Prop where
  width : 1 ≤ d.width
  height : 1 ≤ d.height
  stride : 4 * d.width ≤ d.stride
  rows : d.stride * d.height ≤ d.size
  size : d.size < 2 ^ 32
  map : d.map.length = d.size

/-- (r << 16) | (g << 8) | b -/
def color (r g b : Nat) : Nat := (r <<< 16) ||| (g <<< 8) ||| b

def red : Nat := color 0xff 0 0
def green : Nat := color 0 0xff 0
def blue : Nat := color 0 0 0xff

/-- The difference of two unsigned ints. -/
def unsignedSub (a b : Nat) : Nat := (((a : Int) - b) % 2 ^ 32).toNat

/-- The store of a pixel; map[off] must be inside the map. -/
def setPixel (value off : Nat) : Exec (List UInt8) Unit := do
  let map ← get
  if off + 4 ≤ map.length then modify fun map => overwrite map off (leBytes 4 value)
  else stop (.fault .outOfBounds)

/-- The pixel of column k in row j; the offset is an unsigned int. -/
def drawPixel (d : ModesetDev) (value j k : Nat) : Exec (List UInt8) Unit :=
  setPixel value ((d.stride * j + k * 4) % 2 ^ 32)

/-- The loop over the columns of row j from the margin on. -/
def drawRow (d : ModesetDev) (margin value j : Nat) : Exec (List UInt8) Unit :=
  loop (drawPixel d value j) (unsignedSub d.width margin - margin) margin

/-- The loops over the rows and columns of one device. -/
@[irreducible] def draw (d : ModesetDev) (margin value : Nat) : Exec (List UInt8) Unit :=
  loop (drawRow d margin value) (unsignedSub d.height margin - margin) margin

/-- The loop over the devices. -/
def drawAll (margin value : Nat) : Exec (List ModesetDev) Unit
  | [] => (.ok (), [])
  | d :: rest =>
    match draw d margin value d.map with
    | (.error e, map) => (.error e, { d with map := map } :: rest)
    | (.ok (), map) =>
      match drawAll margin value rest with
      | (result, rest) => (result, { d with map := map } :: rest)

def modesetDraw2 : Exec (List ModesetDev) Unit := do
  drawAll 0 red
  drawAll 100 green
  drawAll 200 blue

/-! ## The picture -/

/-- The pixel is at least m pixels away from all edges. -/
def Inside (d : ModesetDev) (m x y : Nat) : Prop :=
  m ≤ x ∧ x + m < d.width ∧ m ≤ y ∧ y + m < d.height

instance (d : ModesetDev) (m x y : Nat) : Decidable (Inside d m x y) := instDecidableAnd

/-- The color that a pixel is to have. -/
def shade (d : ModesetDev) (x y : Nat) : Nat :=
  if Inside d 200 x y then blue else if Inside d 100 x y then green else red

/-- The bytes of a pixel. -/
def pixel (d : ModesetDev) (map : List UInt8) (x y : Nat) : List UInt8 :=
  window map (d.stride * y + 4 * x) 4

/-- The bytes between two rows. -/
def padding (d : ModesetDev) (map : List UInt8) (y : Nat) : List UInt8 :=
  window map (d.stride * y + 4 * d.width) (d.stride - 4 * d.width)

/-- Every pixel has its color, and the bytes between the rows are as they were. -/
structure Picture (d d' : ModesetDev) : Prop where
  pixels : ∀ x y, x < d.width → y < d.height → pixel d d'.map x y = leBytes 4 (shade d x y)
  paddings : ∀ y < d.height, padding d d'.map y = padding d d.map y

/-- All stores are inside their maps, and every device shows the picture. -/
def Drawn (devs : List ModesetDev) : Prop :=
  ∃ devs', modesetDraw2 devs = (.ok (), devs') ∧ List.Forall₂ Picture devs devs'

/-- The bounds of the loops for a margin are right, or one of the loops has no rounds. -/
def Fine (margin width height : Nat) : Prop :=
  margin ≤ width ∧ margin ≤ height ∨ margin ≤ width ∧ width ≤ 2 * margin ∨
    margin ≤ height ∧ height ≤ 2 * margin

instance (margin width height : Nat) : Decidable (Fine margin width height) := instDecidableOr

/-! ## Pixels -/

theorem wp_setPixel {value off : Nat} {map : List UInt8} {Q : Unit → List UInt8 → Prop}
    {E : Stop → List UInt8 → Prop} :
    wp (setPixel value off) Q E map ↔
      (off + 4 ≤ map.length → Q () (overwrite map off (leBytes 4 value))) ∧
      (¬ off + 4 ≤ map.length → E (.fault .outOfBounds) map) := by
  unfold setPixel
  rw [wp_bind, wp_get, wp_ite, wp_modify, wp_stop]

theorem keeps_setPixel_length (value off size : Nat) (map : List UInt8) (h : map.length = size) :
    wp (setPixel value off) (fun _ map' => map'.length = size) (fun _ _ => True) map := by
  rw [wp_setPixel]
  refine ⟨fun hin => ?_, fun _ => trivial⟩
  rw [overwrite_length (by rwa [leBytes_length]), h]

theorem unsignedSub_of_le {a b : Nat} (h : b ≤ a) (ha : a < 2 ^ 32) : unsignedSub a b = a - b := by
  unfold unsignedSub
  omega

theorem unsignedSub_of_lt {a b : Nat} (h : a < b) (hb : b < 2 ^ 32) :
    unsignedSub a b = a + 2 ^ 32 - b := by
  unfold unsignedSub
  omega

section

variable {d : ModesetDev}

theorem ModesetDev.Mapped.width_lt (h : d.Mapped) : d.width < 2 ^ 32 := by
  have hone : d.stride ≤ d.stride * d.height := Nat.le_mul_of_pos_right _ h.height
  have hstride := h.stride
  have hrows := h.rows
  have hsize := h.size
  omega

theorem ModesetDev.Mapped.height_lt (h : d.Mapped) : d.height < 2 ^ 32 := by
  have hwidth := h.width
  have hstride := h.stride
  have hone : d.height ≤ d.stride * d.height := Nat.le_mul_of_pos_left _ (by omega)
  have hrows := h.rows
  have hsize := h.size
  omega

/-- A pixel of the screen is inside the map, at the offset that the program computes. -/
theorem ModesetDev.Mapped.pixel_end (h : d.Mapped) {x y : Nat} (hx : x < d.width)
    (hy : y < d.height) : d.stride * y + 4 * x + 4 ≤ d.size := by
  have hrow : d.stride * (y + 1) ≤ d.stride * d.height := Nat.mul_le_mul_left _ hy
  rw [Nat.mul_succ] at hrow
  have hstride := h.stride
  have hrows := h.rows
  omega

theorem row_le {s y y' : Nat} (h : y < y') : s * y + s ≤ s * y' := by
  have hrow : s * (y + 1) ≤ s * y' := Nat.mul_le_mul_left _ h
  rwa [Nat.mul_succ] at hrow

end

end PerfTools.X
