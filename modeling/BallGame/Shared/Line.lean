import BallGame.Library.DigitalLine
import BallGame.Library.Stdio
import Mathlib.Data.List.Chain
import Mathlib.Data.List.Range

/-!
# Lines

`fb_drawLine` exchanges the axes of a steep line and the end points of one that runs to the left,
and then walks along the columns with an error that starts at `-(dx / 2)`. The pixels it draws
are a digital line.

* `drawLine_digital`: one pixel a column, connected, in the box, and at most one half away from
  the exact segment;
* `drawLine_comm`: the order of the end points does not matter;
* `lineValues_int`: no `int` overflows where the coordinates are small.
-/

namespace BallGame.Shared

open Library

/-! ## The algorithm -/

/-- `pixel`. -/
@[ext] structure Pixel where
  x : Int
  y : Int
deriving DecidableEq, Repr

def Pixel.transpose (p : Pixel) : Pixel := ⟨p.y, p.x⟩

@[simp] theorem Pixel.transpose_transpose (p : Pixel) : p.transpose.transpose = p := rfl

theorem Pixel.transpose_injective : Function.Injective Pixel.transpose :=
  Function.LeftInverse.injective Pixel.transpose_transpose

/-- The line rises by more rows than it has columns. -/
def Steep (p q : Pixel) : Prop := |q.y - p.y| > |q.x - p.x|

instance (p q : Pixel) : Decidable (Steep p q) := Int.decLt _ _

/-- `swap`, and the end points with `x` and `y` exchanged if it is set. -/
def exchangeAxes (start fin : Pixel) : Bool × Pixel × Pixel :=
  if Steep start fin then (true, start.transpose, fin.transpose) else (false, start, fin)

/-- The end points from left to right. -/
def exchangeEnds (start fin : Pixel) : Pixel × Pixel :=
  if start.x > fin.x then (fin, start) else (start, fin)

/-- The variables of the loop. -/
structure LineState where
  x : Int
  y : Int
  error : Int

/-- The body of the loop behind `fb_drawPixel`, and `x++`. -/
def lineStep (dx dy ydir : Int) (s : LineState) : LineState :=
  let error := s.error + dy
  if error > 0 then
    { x := s.x + 1, y := if ydir = 1 then s.y + 1 else s.y - 1, error := error - dx }
  else { s with x := s.x + 1, error := error }

theorem lineStep_up {dx dy ydir : Int} {s : LineState} (h : 0 < s.error + dy) :
    lineStep dx dy ydir s =
      ⟨s.x + 1, if ydir = 1 then s.y + 1 else s.y - 1, s.error + dy - dx⟩ :=
  if_pos h

theorem lineStep_level {dx dy ydir : Int} {s : LineState} (h : ¬ 0 < s.error + dy) :
    lineStep dx dy ydir s = ⟨s.x + 1, s.y, s.error + dy⟩ :=
  if_neg h

/-- What the loop finds at its beginning, each time it runs. -/
def lineStates (start fin : Pixel) : List LineState :=
  let dx := fin.x - start.x
  let dy := |fin.y - start.y|
  let ydir := if start.y < fin.y then 1 else -1
  List.iterate (lineStep dx dy ydir) ⟨start.x, start.y, -Int.tdiv dx 2⟩
    (fin.x + 1 - start.x).toNat

/-- `fb_drawLine`: the pixels it passes to `fb_drawPixel`, in their order. -/
def drawLine (start fin : Pixel) : List Pixel :=
  let (swap, start, fin) := exchangeAxes start fin
  let (start, fin) := exchangeEnds start fin
  (lineStates start fin).map fun s => if swap then ⟨s.y, s.x⟩ else ⟨s.x, s.y⟩

/-! ## The loop -/

/-- A line as the loop takes it: from left to right, and not steep. -/
structure Flat (a b : Pixel) : Prop where
  right : a.x ≤ b.x
  flat : |b.y - a.y| ≤ b.x - a.x

/-- The direction of the steps. -/
def direction (a b : Pixel) : Int := if a.y < b.y then 1 else -1

theorem direction_mul (a b : Pixel) : direction a b * |b.y - a.y| = b.y - a.y := by
  unfold direction
  split
  · rename_i h
    rw [abs_of_pos (by omega)]
    omega
  · rename_i h
    rw [abs_of_nonpos (by omega)]
    omega

theorem direction_abs (a b : Pixel) : direction a b = 1 ∨ direction a b = -1 := by
  unfold direction
  split
  · exact Or.inl rfl
  · exact Or.inr rfl

/-- The state in column `k`. -/
def lineAt (a b : Pixel) (k : Int) : LineState where
  x := a.x + k
  y := a.y + direction a b * rise (b.x - a.x) |b.y - a.y| k
  error := riseError (b.x - a.x) |b.y - a.y| k

/-- The pixel in column `k`. -/
def linePixel (a b : Pixel) (k : Int) : Pixel := ⟨(lineAt a b k).x, (lineAt a b k).y⟩

section

variable {a b : Pixel} (hab : Flat a b)

include hab

theorem lineAt_zero : lineAt a b 0 = ⟨a.x, a.y, -Int.tdiv (b.x - a.x) 2⟩ := by
  have hrun : 0 ≤ b.x - a.x := Int.sub_nonneg.mpr hab.right
  rw [lineAt, rise_start hrun, riseError_start hrun, Int.tdiv_eq_ediv_of_nonneg hrun, mul_zero,
    add_zero, add_zero]

/-- One run of the body goes on to the next column. -/
theorem lineStep_lineAt (k : Int) :
    lineStep (b.x - a.x) |b.y - a.y| (direction a b) (lineAt a b k) = lineAt a b (k + 1) := by
  have hrise := rise_succ (abs_nonneg (b.y - a.y)) hab.flat k
  have herror := riseError_succ (abs_nonneg (b.y - a.y)) hab.flat k
  by_cases hpos : 0 < riseError (b.x - a.x) |b.y - a.y| k + |b.y - a.y|
  · rw [if_pos hpos] at hrise herror
    rw [lineStep_up (s := lineAt a b k) hpos, lineAt, lineAt, hrise, herror]
    congr 1
    · exact add_assoc a.x k 1
    · rcases direction_abs a b with hdir | hdir
      · rw [hdir, if_pos rfl]
        dsimp only
        omega
      · rw [hdir, if_neg (by decide)]
        dsimp only
        omega
  · rw [if_neg hpos] at hrise herror
    rw [lineStep_level (s := lineAt a b k) hpos, lineAt, lineAt, hrise, herror]
    congr 1
    exact add_assoc a.x k 1

/-- The states of the loop, in closed form. -/
theorem lineStates_eq :
    lineStates a b = (List.range (b.x + 1 - a.x).toNat).map fun (k : Nat) => lineAt a b k := by
  have hiterate : ∀ k : Nat,
      (lineStep (b.x - a.x) |b.y - a.y| (direction a b))^[k] (lineAt a b 0) = lineAt a b k := by
    intro k
    induction k with
    | zero => rfl
    | succ k ih =>
      rw [Function.iterate_succ_apply', ih, lineStep_lineAt hab]
      congr 1
  rw [lineStates, ← direction, ← lineAt_zero hab, ← List.range_map_iterate]
  exact List.map_congr_left fun k _ => hiterate k

end

/-! ## Digital segments -/

/-- Different pixels that touch, if only at a corner. -/
def Pixel.Neighbours (r s : Pixel) : Prop := r ≠ s ∧ |s.x - r.x| ≤ 1 ∧ |s.y - r.y| ≤ 1

/-- In the bounding box of two pixels. -/
structure Pixel.InBox (p q r : Pixel) : Prop where
  x : min p.x q.x ≤ r.x ∧ r.x ≤ max p.x q.x
  y : min p.y q.y ≤ r.y ∧ r.y ≤ max p.y q.y

/-- Where the exact segment is at the major coordinate `t`. -/
def ideal (major minor : Pixel → Int) (p q : Pixel) (t : Int) : ℚ :=
  minor p + (minor q - minor p) * (t - major p) / (major q - major p)

/-- The pixels are the segment from `p` to `q`, rounded along the minor axis. -/
structure DigitalSegment (major minor : Pixel → Int) (p q : Pixel) (ps : List Pixel) : Prop where
  nodup : ps.Nodup
  length : (ps.length : Int) = |major q - major p| + 1
  column : ∀ t, min (major p) (major q) ≤ t → t ≤ max (major p) (major q) →
    ∃! r, r ∈ ps ∧ major r = t
  start : p ∈ ps
  fin : q ∈ ps
  neighbours : ps.IsChain Pixel.Neighbours
  box : ∀ r ∈ ps, p.InBox q r
  near : ∀ r ∈ ps, |(minor r : ℚ) - ideal major minor p q (major r)| ≤ 1 / 2

/-- The pixels of a flat line. -/
def flatPixels (a b : Pixel) : List Pixel :=
  (List.range (b.x + 1 - a.x).toNat).map fun (k : Nat) => linePixel a b k

theorem mem_flatPixels {a b r : Pixel} :
    r ∈ flatPixels a b ↔ ∃ k, 0 ≤ k ∧ k ≤ b.x - a.x ∧ r = linePixel a b k := by
  rw [flatPixels, List.mem_map]
  constructor
  · rintro ⟨k, hk, rfl⟩
    rw [List.mem_range] at hk
    exact ⟨k, by omega, by omega, rfl⟩
  · rintro ⟨k, hk, hkd, rfl⟩
    exact ⟨k.toNat, List.mem_range.mpr (by omega), by rw [Int.toNat_of_nonneg hk]⟩

section

variable {a b : Pixel} (hab : Flat a b)

include hab

theorem linePixel_start : linePixel a b 0 = a := by
  simp [linePixel, lineAt_zero hab]

theorem linePixel_fin : linePixel a b (b.x - a.x) = b := by
  have hy : a.y + direction a b * rise (b.x - a.x) |b.y - a.y| (b.x - a.x) = b.y := by
    rw [rise_run (abs_nonneg _) hab.flat, direction_mul]
    omega
  have hx : a.x + (b.x - a.x) = b.x := by omega
  simp [linePixel, lineAt, hx, hy]

/-- Two columns that follow each other. -/
theorem linePixel_neighbours (k : Int) :
    (linePixel a b k).Neighbours (linePixel a b (k + 1)) := by
  have hlow := rise_le_succ (abs_nonneg (b.y - a.y)) hab.flat k
  have hhigh := rise_succ_le (abs_nonneg (b.y - a.y)) hab.flat k
  have hx : (linePixel a b (k + 1)).x - (linePixel a b k).x = 1 := by
    simp only [linePixel, lineAt]
    omega
  refine ⟨?_, by rw [hx, abs_one], ?_⟩
  · intro he
    rw [he] at hx
    omega
  · have hy : (linePixel a b (k + 1)).y - (linePixel a b k).y = direction a b *
        (rise (b.x - a.x) |b.y - a.y| (k + 1) - rise (b.x - a.x) |b.y - a.y| k) := by
      simp only [linePixel, lineAt]
      ring
    rw [hy]
    rcases direction_abs a b with hdir | hdir
    · rw [hdir, abs_le]
      omega
    · rw [hdir, abs_le]
      omega

theorem linePixel_inBox {k : Int} (hk : 0 ≤ k) (hkd : k ≤ b.x - a.x) :
    a.InBox b (linePixel a b k) := by
  obtain ⟨hlow, hhigh⟩ := rise_mem (abs_nonneg (b.y - a.y)) hab.flat hk hkd
  have hmul := direction_mul a b
  have hright := hab.right
  constructor
  · simp only [linePixel, lineAt]
    omega
  · simp only [linePixel, lineAt]
    rcases direction_abs a b with hdir | hdir
    · rw [hdir] at hmul ⊢
      omega
    · rw [hdir] at hmul ⊢
      omega

theorem linePixel_near (k : Int) :
    |((linePixel a b k).y : ℚ) - ideal Pixel.x Pixel.y a b (linePixel a b k).x| ≤ 1 / 2 := by
  have hnear := rise_near_rat (abs_nonneg (b.y - a.y)) hab.flat k
  have hmul : ((direction a b : ℚ) * |b.y - a.y| : ℚ) = b.y - a.y := by
    exact_mod_cast direction_mul a b
  have hdiff : ((linePixel a b k).y : ℚ) - ideal Pixel.x Pixel.y a b (linePixel a b k).x =
      direction a b * (rise (b.x - a.x) |b.y - a.y| k - k * |b.y - a.y| / (b.x - a.x)) := by
    simp only [linePixel, lineAt, ideal]
    rw [← hmul]
    push_cast
    ring
  rw [Int.cast_sub] at hnear
  rw [hdiff]
  rcases direction_abs a b with hdir | hdir
  · rw [hdir, Int.cast_one, one_mul]
    exact hnear
  · rw [hdir, Int.cast_neg, Int.cast_one, neg_one_mul, abs_neg]
    exact hnear

/-- A flat line is a digital segment along the columns. -/
theorem flat_digital : DigitalSegment Pixel.x Pixel.y a b (flatPixels a b) where
  nodup := by
    apply List.Nodup.map _ List.nodup_range
    intro k k' he
    have hx := congrArg Pixel.x he
    simp only [linePixel, lineAt] at hx
    omega
  length := by
    have := hab.right
    rw [flatPixels, List.length_map, List.length_range, abs_of_nonneg (by omega)]
    omega
  column := by
    have := hab.right
    intro t hlow hhigh
    refine ⟨linePixel a b (t - a.x), ⟨mem_flatPixels.mpr ⟨_, by omega, by omega, rfl⟩, ?_⟩, ?_⟩
    · simp only [linePixel, lineAt]
      omega
    · rintro r ⟨hr, rfl⟩
      obtain ⟨k, _, _, rfl⟩ := mem_flatPixels.mp hr
      have hk : (linePixel a b k).x - a.x = k := by
        simp only [linePixel, lineAt]
        omega
      rw [hk]
  start := by
    have := hab.right
    exact mem_flatPixels.mpr ⟨0, le_rfl, by omega, (linePixel_start hab).symm⟩
  fin := by
    have := hab.right
    exact mem_flatPixels.mpr ⟨_, by omega, le_rfl, (linePixel_fin hab).symm⟩
  neighbours := by
    rw [flatPixels, List.isChain_map, List.isChain_range]
    intro k _
    exact_mod_cast linePixel_neighbours hab k
  box := by
    intro r hr
    obtain ⟨k, hk, hkd, rfl⟩ := mem_flatPixels.mp hr
    exact linePixel_inBox hab hk hkd
  near := by
    intro r hr
    obtain ⟨k, _, _, rfl⟩ := mem_flatPixels.mp hr
    exact linePixel_near hab k

end

/-! ## The exchanges -/

namespace DigitalSegment

variable {major minor : Pixel → Int} {p q : Pixel} {ps : List Pixel}

/-- A segment whose end points share their major coordinate is a point. -/
theorem eq_of_major (h : DigitalSegment major minor p q ps) (he : major p = major q) : p = q := by
  obtain ⟨r, _, hunique⟩ := h.column (major p) (by omega) (by omega)
  rw [hunique p ⟨h.start, rfl⟩, hunique q ⟨h.fin, he.symm⟩]

theorem ideal_comm (h : DigitalSegment major minor p q ps) (t : Int) :
    ideal major minor q p t = ideal major minor p q t := by
  by_cases he : major p = major q
  · rw [h.eq_of_major he]
  · have hne : (major q : ℚ) - major p ≠ 0 := by
      rw [sub_ne_zero]
      exact_mod_cast Ne.symm he
    have hne' : (major p : ℚ) - major q ≠ 0 := by
      rw [sub_ne_zero]
      exact_mod_cast he
    unfold ideal
    field_simp
    ring

/-- It is the same segment from the other end. -/
theorem exchange (h : DigitalSegment major minor p q ps) : DigitalSegment major minor q p ps where
  nodup := h.nodup
  length := by rw [h.length, abs_sub_comm]
  column := by
    intro t hlow hhigh
    exact h.column t (by omega) (by omega)
  start := h.fin
  fin := h.start
  neighbours := h.neighbours
  box := by
    intro r hr
    obtain ⟨hx, hy⟩ := h.box r hr
    exact ⟨by omega, by omega⟩
  near := by
    intro r hr
    rw [h.ideal_comm]
    exact h.near r hr

/-- It is a segment along the rows once the axes are exchanged. -/
theorem transpose (h : DigitalSegment Pixel.x Pixel.y p q ps) :
    DigitalSegment Pixel.y Pixel.x p.transpose q.transpose (ps.map Pixel.transpose) where
  nodup := by
    exact h.nodup.map Pixel.transpose_injective
  length := by
    rw [List.length_map]
    exact h.length
  column := by
    intro t hlow hhigh
    obtain ⟨r, ⟨hr, ht⟩, hunique⟩ := h.column t hlow hhigh
    refine ⟨r.transpose, ⟨List.mem_map_of_mem hr, ht⟩, ?_⟩
    rintro r' ⟨hr', ht'⟩
    obtain ⟨r, hr, rfl⟩ := List.mem_map.mp hr'
    rw [hunique r ⟨hr, ht'⟩]
  start := List.mem_map_of_mem h.start
  fin := List.mem_map_of_mem h.fin
  neighbours := by
    rw [List.isChain_map]
    apply h.neighbours.imp
    rintro r s ⟨hne, hx, hy⟩
    exact ⟨Pixel.transpose_injective.ne hne, hy, hx⟩
  box := by
    intro r' hr'
    obtain ⟨r, hr, rfl⟩ := List.mem_map.mp hr'
    obtain ⟨hx, hy⟩ := h.box r hr
    exact ⟨hy, hx⟩
  near := by
    intro r' hr'
    obtain ⟨r, hr, rfl⟩ := List.mem_map.mp hr'
    exact h.near r hr

end DigitalSegment

/-- What is not steep is flat once its end points are exchanged. -/
theorem flat_exchangeEnds {p q : Pixel} (h : ¬ Steep p q) :
    Flat (exchangeEnds p q).1 (exchangeEnds p q).2 := by
  have hle : |q.y - p.y| ≤ |q.x - p.x| := not_lt.mp h
  unfold exchangeEnds
  split
  · rename_i hgt
    have hright : q.x ≤ p.x := by omega
    rw [abs_sub_comm q.y, abs_sub_comm q.x, abs_of_nonneg (a := p.x - q.x) (by omega)] at hle
    exact ⟨hright, hle⟩
  · rename_i hgt
    have hright : p.x ≤ q.x := by omega
    rw [abs_of_nonneg (a := q.x - p.x) (by omega)] at hle
    exact ⟨hright, hle⟩

theorem exchangeEnds_digital {p q : Pixel} (h : ¬ Steep p q) :
    DigitalSegment Pixel.x Pixel.y p q
      (flatPixels (exchangeEnds p q).1 (exchangeEnds p q).2) := by
  have hflat := flat_digital (flat_exchangeEnds h)
  unfold exchangeEnds at *
  split at hflat
  · rename_i hgt
    rw [if_pos hgt]
    exact hflat.exchange
  · rename_i hgt
    rw [if_neg hgt]
    exact hflat

theorem steep_transpose {p q : Pixel} (h : Steep p q) : ¬ Steep p.transpose q.transpose :=
  not_lt.mpr (le_of_lt h)

theorem drawLine_flat {p q : Pixel} (h : ¬ Steep p q) :
    drawLine p q = flatPixels (exchangeEnds p q).1 (exchangeEnds p q).2 := by
  simp only [drawLine, exchangeAxes, if_neg h, lineStates_eq (flat_exchangeEnds h), List.map_map]
  rfl

theorem drawLine_steep {p q : Pixel} (h : Steep p q) :
    drawLine p q = (drawLine p.transpose q.transpose).map Pixel.transpose := by
  have hflat := flat_exchangeEnds (steep_transpose h)
  rw [drawLine_flat (steep_transpose h)]
  simp only [drawLine, exchangeAxes, if_pos h, lineStates_eq hflat, List.map_map, flatPixels]
  rfl

/-- The axis along which there is one pixel for each coordinate. -/
def majorAxis (p q : Pixel) : Pixel → Int := if Steep p q then Pixel.y else Pixel.x

/-- The other axis. -/
def minorAxis (p q : Pixel) : Pixel → Int := if Steep p q then Pixel.x else Pixel.y

/-- What `fb_drawLine` draws is a digital segment along its major axis. -/
theorem drawLine_digital (p q : Pixel) :
    DigitalSegment (majorAxis p q) (minorAxis p q) p q (drawLine p q) := by
  unfold majorAxis minorAxis
  by_cases h : Steep p q
  · rw [if_pos h, if_pos h, drawLine_steep h, drawLine_flat (steep_transpose h)]
    exact (exchangeEnds_digital (steep_transpose h)).transpose
  · rw [if_neg h, if_neg h, drawLine_flat h]
    exact exchangeEnds_digital h

theorem majorAxis_length (p q : Pixel) :
    |majorAxis p q q - majorAxis p q p| = max |q.x - p.x| |q.y - p.y| := by
  unfold majorAxis
  by_cases h : Steep p q
  · rw [if_pos h, max_eq_right (le_of_lt h)]
  · rw [if_neg h, max_eq_left (not_lt.mp h)]

theorem steep_comm (p q : Pixel) : Steep p q ↔ Steep q p := by
  rw [Steep, Steep, abs_sub_comm p.y, abs_sub_comm p.x]

theorem exchangeEnds_comm {p q : Pixel} (h : ¬ Steep p q) :
    exchangeEnds p q = exchangeEnds q p := by
  rcases lt_trichotomy p.x q.x with hlt | heq | hgt
  · rw [exchangeEnds, exchangeEnds, if_neg (by omega), if_pos hlt]
  · rw [(exchangeEnds_digital h).eq_of_major heq]
  · rw [exchangeEnds, exchangeEnds, if_pos hgt, if_neg (by omega)]

/-- The end points may be exchanged. -/
theorem drawLine_comm (p q : Pixel) : drawLine p q = drawLine q p := by
  by_cases h : Steep p q
  · have h' := (steep_comm p q).mp h
    rw [drawLine_steep h, drawLine_steep h', drawLine_flat (steep_transpose h),
      drawLine_flat (steep_transpose h'), exchangeEnds_comm (steep_transpose h)]
  · rw [drawLine_flat h, drawLine_flat fun h' => h ((steep_comm p q).mpr h'),
      exchangeEnds_comm h]

/-! ## Rows and columns -/

/-- A horizontal line is a run of pixels. -/
theorem mem_drawLine_row {x₁ x₂ y : Int} {r : Pixel} :
    r ∈ drawLine ⟨x₁, y⟩ ⟨x₂, y⟩ ↔ min x₁ x₂ ≤ r.x ∧ r.x ≤ max x₁ x₂ ∧ r.y = y := by
  have hsegment := drawLine_digital ⟨x₁, y⟩ ⟨x₂, y⟩
  have hflat : ¬ Steep ⟨x₁, y⟩ ⟨x₂, y⟩ := by simp [Steep]
  rw [majorAxis, minorAxis, if_neg hflat, if_neg hflat] at hsegment
  constructor
  · intro hr
    obtain ⟨hx, hy⟩ := hsegment.box r hr
    dsimp only at hx hy
    omega
  · rintro ⟨hlow, hhigh, rfl⟩
    obtain ⟨s, ⟨hs, hx⟩, _⟩ := hsegment.column r.x hlow hhigh
    have hy := (hsegment.box s hs).y
    dsimp only at hy
    obtain rfl : s = r := Pixel.ext hx (by omega)
    exact hs

/-- A vertical line is a run of pixels. -/
theorem mem_drawLine_column {x y₁ y₂ : Int} {r : Pixel} :
    r ∈ drawLine ⟨x, y₁⟩ ⟨x, y₂⟩ ↔ min y₁ y₂ ≤ r.y ∧ r.y ≤ max y₁ y₂ ∧ r.x = x := by
  by_cases he : y₁ = y₂
  · subst he
    rw [mem_drawLine_row]
    omega
  · have hsteep : Steep ⟨x, y₁⟩ ⟨x, y₂⟩ := by
      have : y₂ - y₁ ≠ 0 := by omega
      simpa [Steep] using this
    have hrow : r.transpose ∈ drawLine ⟨y₁, x⟩ ⟨y₂, x⟩ ↔
        min y₁ y₂ ≤ r.y ∧ r.y ≤ max y₁ y₂ ∧ r.x = x := mem_drawLine_row
    rw [drawLine_steep hsteep, ← r.transpose_transpose,
      List.mem_map_of_injective Pixel.transpose_injective]
    exact hrow

/-! ## The numbers -/

/-- The values of the `int` expressions in front of the loop. -/
def setupValues (start fin a b : Pixel) : List Int :=
  [fin.y - start.y, |fin.y - start.y|, fin.x - start.x, |fin.x - start.x|, b.x - a.x, b.y - a.y,
    |b.y - a.y|, Int.tdiv (b.x - a.x) 2, -Int.tdiv (b.x - a.x) 2, a.y]

/-- The values of the `int` expressions in one run of the body. -/
def stepValues (dx dy ydir : Int) (s : LineState) : List Int :=
  let s' := lineStep dx dy ydir s
  [s.x, s.y, s.error, s.error + dy, s'.y, s'.error, s'.x]

/-- Every `int` value `fb_drawLine` computes. -/
def lineValues (start fin : Pixel) : List Int :=
  let axes := (exchangeAxes start fin).2
  let a := (exchangeEnds axes.1 axes.2).1
  let b := (exchangeEnds axes.1 axes.2).2
  setupValues start fin a b ++
    (lineStates a b).flatMap (stepValues (b.x - a.x) |b.y - a.y| (direction a b))

/-- Coordinates for which no `int` of `fb_drawLine` overflows. -/
structure Pixel.Small (p : Pixel) : Prop where
  x : |p.x| < 2 ^ 29
  y : |p.y| < 2 ^ 29

theorem Pixel.Small.transpose {p : Pixel} (h : p.Small) : p.transpose.Small := ⟨h.y, h.x⟩

theorem small_exchangeAxes {p q : Pixel} (hp : p.Small) (hq : q.Small) :
    (exchangeAxes p q).2.1.Small ∧ (exchangeAxes p q).2.2.Small := by
  unfold exchangeAxes
  split
  · exact ⟨hp.transpose, hq.transpose⟩
  · exact ⟨hp, hq⟩

theorem small_exchangeEnds {p q : Pixel} (hp : p.Small) (hq : q.Small) :
    (exchangeEnds p q).1.Small ∧ (exchangeEnds p q).2.Small := by
  unfold exchangeEnds
  split
  · exact ⟨hq, hp⟩
  · exact ⟨hp, hq⟩

theorem not_steep_exchangeAxes (p q : Pixel) :
    ¬ Steep (exchangeAxes p q).2.1 (exchangeAxes p q).2.2 := by
  unfold exchangeAxes
  split
  · rename_i h
    exact steep_transpose h
  · rename_i h
    exact h

theorem setupValues_int {p q a b : Pixel} (hp : p.Small) (hq : q.Small) (ha : a.Small)
    (hb : b.Small) (hab : Flat a b) : ∀ v ∈ setupValues p q a b, IsInt v := by
  obtain ⟨hpx, hpy⟩ := hp
  obtain ⟨hqx, hqy⟩ := hq
  obtain ⟨hax, hay⟩ := ha
  obtain ⟨hbx, hby⟩ := hb
  rw [abs_lt] at *
  have hrun := hab.right
  have hdx : |q.x - p.x| < 2 ^ 30 := abs_lt.mpr ⟨by omega, by omega⟩
  have hdy : |q.y - p.y| < 2 ^ 30 := abs_lt.mpr ⟨by omega, by omega⟩
  have hrise : |b.y - a.y| < 2 ^ 30 := abs_lt.mpr ⟨by omega, by omega⟩
  have hx := abs_nonneg (q.x - p.x)
  have hy := abs_nonneg (q.y - p.y)
  have hr := abs_nonneg (b.y - a.y)
  have hhalf := Int.tdiv_eq_ediv_of_nonneg (b := 2) (sub_nonneg.mpr hrun)
  simp only [setupValues, List.forall_mem_cons, hhalf]
  unfold IsInt
  refine ⟨?_, ?_, ?_, ?_, ?_, ?_, ?_, ?_, ?_, ?_, List.forall_mem_nil _⟩ <;> omega

theorem stepValues_int {a b : Pixel} (ha : a.Small) (hb : b.Small) (hab : Flat a b) {k : Int}
    (hk : 0 ≤ k) (hkd : k ≤ b.x - a.x) :
    ∀ v ∈ stepValues (b.x - a.x) |b.y - a.y| (direction a b) (lineAt a b k), IsInt v := by
  obtain ⟨hax, hay⟩ := ha
  obtain ⟨hbx, hby⟩ := hb
  rw [abs_lt] at *
  have hrise := abs_nonneg (b.y - a.y)
  obtain ⟨hlow, hhigh⟩ := rise_mem hrise hab.flat hk hkd
  obtain ⟨helow, hehigh⟩ := riseError_mem hrise hab.flat k
  obtain ⟨helow', hehigh'⟩ := riseError_mem hrise hab.flat (k + 1)
  have hsucc := rise_succ_le hrise hab.flat k
  have hmono := rise_le_succ hrise hab.flat k
  have hflat := hab.flat
  simp only [stepValues, lineStep_lineAt hab]
  simp only [List.forall_mem_cons, lineAt]
  unfold IsInt
  rcases direction_abs a b with hdir | hdir
  · rw [hdir]
    refine ⟨?_, ?_, ?_, ?_, ?_, ?_, ?_, List.forall_mem_nil _⟩ <;> omega
  · rw [hdir]
    refine ⟨?_, ?_, ?_, ?_, ?_, ?_, ?_, List.forall_mem_nil _⟩ <;> omega

/-- Small coordinates keep every value in the range of `int`. -/
theorem lineValues_int {p q : Pixel} (hp : p.Small) (hq : q.Small) :
    ∀ v ∈ lineValues p q, IsInt v := by
  obtain ⟨hp', hq'⟩ := small_exchangeAxes hp hq
  obtain ⟨ha, hb⟩ := small_exchangeEnds hp' hq'
  have hflat := flat_exchangeEnds (not_steep_exchangeAxes p q)
  intro v hv
  rcases List.mem_append.mp hv with hv | hv
  · exact setupValues_int hp hq ha hb hflat v hv
  · obtain ⟨s, hs, hv⟩ := List.mem_flatMap.mp hv
    rw [lineStates_eq hflat] at hs
    obtain ⟨k, hk, rfl⟩ := List.mem_map.mp hs
    rw [List.mem_range] at hk
    exact stepValues_int ha hb hflat (by omega) (by omega) v hv

/-! ## The line -/

/-- What a line must be. -/
structure Bresenham (p q : Pixel) : Prop where
  segment : DigitalSegment (majorAxis p q) (minorAxis p q) p q (drawLine p q)
  count : ((drawLine p q).length : Int) = max |q.x - p.x| |q.y - p.y| + 1
  reversed : ∀ r, r ∈ drawLine q p ↔ r ∈ drawLine p q
  ints : p.Small → q.Small → ∀ v ∈ lineValues p q, IsInt v

/-- **Lines.** For all end points the pixels are a digital segment with both of them, the same
one if they are exchanged, and for small coordinates no `int` overflows. -/
theorem drawLine_bresenham (p q : Pixel) : Bresenham p q where
  segment := drawLine_digital p q
  count := by rw [(drawLine_digital p q).length, majorAxis_length]
  reversed := by
    intro r
    rw [drawLine_comm]
  ints := lineValues_int

end BallGame.Shared
