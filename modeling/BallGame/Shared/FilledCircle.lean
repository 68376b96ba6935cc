import BallGame.Shared.Framebuffer
import Mathlib.Order.Lattice.Nat

/-!
# Filled circles

`fb_drawFilledCircle` draws both diameters, and then for every `iCircleX` up to the diagonal four
horizontal lines with the `iCircleY` its decision variable `distance` chose.

* `Drawn.equation`: what `distance` means, with the `iCircleY` that is already decremented;
* `circleLoop_covers`: no row is left out where the octants meet;
* `drawFilledCircle_disc`: the pixels are a disc without gaps.
-/

namespace BallGame.Shared

open Library

/-! ## The algorithm -/

/-- The variables of the loop: `iCircleX`, `iCircleY` and `distance`. -/
structure CircleState where
  x : Int
  y : Int
  distance : Int

/-- The body of the loop in front of the lines. -/
def circleStep (s : CircleState) : CircleState :=
  let distance := s.distance + (2 * s.x - 1)
  if distance ≥ 0 then
    { s with y := s.y - 1, distance := distance + (2 * -(s.y - 1) + 2) }
  else { s with distance := distance }

/-- The lines of one run of the body. -/
def circleLines (c : Pixel) (s : CircleState) : List Pixel :=
  drawLine ⟨-s.x + c.x, s.y + c.y⟩ ⟨s.x + c.x, s.y + c.y⟩ ++
    (drawLine ⟨-s.x + c.x, -s.y + c.y⟩ ⟨s.x + c.x, -s.y + c.y⟩ ++
      (drawLine ⟨-s.y + c.x, s.x + c.y⟩ ⟨s.y + c.x, s.x + c.y⟩ ++
        drawLine ⟨-s.y + c.x, -s.x + c.y⟩ ⟨s.y + c.x, -s.x + c.y⟩))

/-- What the body does: `iCircleY` is decremented, or it is not. -/
theorem circleStep_cases (s : CircleState) :
    (0 ≤ s.distance + (2 * s.x - 1) ∧ circleStep s =
        ⟨s.x, s.y - 1, s.distance + (2 * s.x - 1) + (2 * -(s.y - 1) + 2)⟩) ∨
      (s.distance + (2 * s.x - 1) < 0 ∧
        circleStep s = ⟨s.x, s.y, s.distance + (2 * s.x - 1)⟩) := by
  by_cases h : 0 ≤ s.distance + (2 * s.x - 1)
  · exact Or.inl ⟨h, if_pos h⟩
  · exact Or.inr ⟨not_le.mp h, if_neg h⟩

theorem circleStep_x (s : CircleState) : (circleStep s).x = s.x := by
  rcases circleStep_cases s with ⟨_, he⟩ | ⟨_, he⟩
  · rw [he]
  · rw [he]

theorem circleStep_y (s : CircleState) :
    s.y - 1 ≤ (circleStep s).y ∧ (circleStep s).y ≤ s.y := by
  rcases circleStep_cases s with ⟨_, he⟩ | ⟨_, he⟩
  · rw [he]
    exact ⟨le_rfl, Int.sub_le_self s.y (by decide)⟩
  · rw [he]
    exact ⟨Int.sub_le_self s.y (by decide), le_rfl⟩

/-- `iCircleX++`. -/
def CircleState.next (s : CircleState) : CircleState := { s with x := s.x + 1 }

/-- The states in which lines are drawn, each time the loop runs. -/
def circleLoop (s : CircleState) : List CircleState :=
  if s.x ≤ s.y then circleStep s :: circleLoop (circleStep s).next else []
termination_by (s.y + 1 - s.x).toNat
decreasing_by
  have hx := circleStep_x s
  have hy := circleStep_y s
  simp only [CircleState.next]
  omega

/-- `fb_drawFilledCircle`, for a radius `R`: the pixels it passes to `fb_drawPixel`. -/
def drawFilledCircle (R : Int) (center : Pixel) : List Pixel :=
  drawLine ⟨center.x, center.y + R⟩ ⟨center.x, center.y - R⟩ ++
    (drawLine ⟨center.x + R, center.y⟩ ⟨center.x - R, center.y⟩ ++
      (circleLoop ⟨1, R, -R⟩).flatMap (circleLines center))

/-! ## The decision variable -/

/-- What holds when the lines are drawn. -/
structure Drawn (R : Int) (t : CircleState) : Prop where
  equation : t.distance = t.x ^ 2 + t.y ^ 2 - 3 * t.y - R ^ 2 + 2 * R
  x_pos : 1 ≤ t.x
  y_nonneg : 0 ≤ t.y
  low : 1 - 2 * t.y ≤ t.distance
  high : t.distance ≤ 3 * (R - t.y)
  continues : t.x < t.y → t.distance < 0

/-- What holds where the loop looks at its condition. -/
structure Head (R : Int) (s : CircleState) : Prop where
  equation : s.distance = (s.x - 1) ^ 2 + s.y ^ 2 - 3 * s.y - R ^ 2 + 2 * R
  x_pos : 1 ≤ s.x
  y_nonneg : 0 ≤ s.y
  y_le : s.y ≤ R
  low : 1 - 2 * s.y ≤ s.distance
  continues : s.x ≤ s.y → s.distance < 0

theorem head_start {R : Int} (hR : 1 ≤ R) : Head R ⟨1, R, -R⟩ where
  equation := by ring
  x_pos := le_rfl
  y_nonneg := by dsimp only; omega
  y_le := le_rfl
  low := by dsimp only; omega
  continues := by
    intro _
    dsimp only
    omega

namespace Head

variable {R : Int} {s : CircleState} (h : Head R s)

include h

theorem drawn (hle : s.x ≤ s.y) : Drawn R (circleStep s) := by
  obtain ⟨hequation, hx, hy, hyR, hlow, hcontinues⟩ := h
  have hneg := hcontinues hle
  rcases circleStep_cases s with ⟨hpos, he⟩ | ⟨hpos, he⟩
  · rw [he]
    constructor
    · dsimp only
      rw [hequation]
      ring
    all_goals
      dsimp only
      omega
  · rw [he]
    constructor
    · dsimp only
      rw [hequation]
      ring
    all_goals
      dsimp only
      omega

theorem next (hle : s.x ≤ s.y) : Head R (circleStep s).next := by
  have hdrawn := h.drawn hle
  have hy := circleStep_y s
  have hyR := h.y_le
  refine ⟨?_, ?_, hdrawn.y_nonneg, ?_, hdrawn.low, ?_⟩
  · simp only [CircleState.next, hdrawn.equation]
    ring
  · have := hdrawn.x_pos
    simp only [CircleState.next]
    omega
  · simp only [CircleState.next]
    omega
  · intro hlt
    exact hdrawn.continues hlt

end Head

/-! ## The loop -/

theorem mem_circleLoop {s t : CircleState} :
    t ∈ circleLoop s ↔ s.x ≤ s.y ∧ (t = circleStep s ∨ t ∈ circleLoop (circleStep s).next) := by
  rw [circleLoop]
  split
  · rename_i hle
    rw [List.mem_cons, and_iff_right hle]
  · rename_i hle
    simp [hle]

/-- Whatever the loop draws satisfies the invariant. -/
theorem circleLoop_drawn {R : Int} {s : CircleState} (h : Head R s) :
    ∀ t ∈ circleLoop s, Drawn R t := by
  induction s using circleLoop.induct with
  | case1 s hle ih =>
    intro t ht
    rcases (mem_circleLoop.mp ht).2 with rfl | ht
    · exact h.drawn hle
    · exact ih (h.next hle) t ht
  | case2 s hle =>
    intro t ht
    exact absurd (mem_circleLoop.mp ht).1 hle

/-- Since `iCircleY` falls by at most one at a time, every row up to it is drawn, as one of the
upper lines or as one of the lower ones. -/
theorem circleLoop_rows {s : CircleState} {b : Int} (hx : s.x ≤ b) (hy : b ≤ (circleStep s).y) :
    ∃ t ∈ circleLoop s, s.x ≤ t.x ∧ (t.y = b ∨ t.x = b ∧ b ≤ t.y) := by
  induction s using circleLoop.induct with
  | case1 s hle ih =>
    have hmem := mem_circleLoop.mpr ⟨hle, Or.inl rfl⟩
    have hstep := circleStep_x s
    by_cases hupper : (circleStep s).y = b
    · exact ⟨_, hmem, hstep.ge, Or.inl hupper⟩
    by_cases hlower : (circleStep s).x = b
    · exact ⟨_, hmem, hstep.ge, Or.inr ⟨hlower, hy⟩⟩
    · have hnext := (circleStep_y (circleStep s).next).1
      simp only [CircleState.next] at hnext ih
      obtain ⟨t, ht, htx, hrow⟩ := ih (by omega) (by omega)
      exact ⟨t, mem_circleLoop.mpr ⟨hle, Or.inr ht⟩, by omega, hrow⟩
  | case2 s hle =>
    have := circleStep_y s
    omega

/-- A point of the inner disc is not above the line of its column. -/
theorem Drawn.reaches {R : Int} {t : CircleState} (h : Drawn R t) {b : Int}
    (hin : t.x ^ 2 + b ^ 2 ≤ (R - 1) ^ 2) : b ≤ t.y := by
  by_contra hgt
  have hy := h.y_nonneg
  have hlow := h.low
  have hsquare : (t.y + 1) ^ 2 ≤ b ^ 2 := pow_le_pow_left₀ (by omega) (by omega) 2
  have hequation := h.equation
  have hexpand : (t.y + 1) ^ 2 = t.y ^ 2 + 2 * t.y + 1 := by ring
  have hinner : (R - 1) ^ 2 = R ^ 2 - 2 * R + 1 := by ring
  omega

/-- Behind the diagonal there is nothing of the inner disc. -/
theorem Head.inside {R : Int} {s : CircleState} (h : Head R s) {a b : Int} (hsa : s.x ≤ a)
    (hab : a ≤ b) (hin : a ^ 2 + b ^ 2 ≤ (R - 1) ^ 2) : s.x ≤ s.y := by
  by_contra hgt
  have hx := h.x_pos
  have hy := h.y_nonneg
  have hlow := h.low
  have hequation := h.equation
  have ha : s.x ^ 2 ≤ a ^ 2 := pow_le_pow_left₀ (by omega) hsa 2
  have hb : s.x ^ 2 ≤ b ^ 2 := pow_le_pow_left₀ (by omega) (hsa.trans hab) 2
  have hyx : s.y ^ 2 ≤ (s.x - 1) ^ 2 := pow_le_pow_left₀ hy (by omega) 2
  have hexpand : (s.x - 1) ^ 2 = s.x ^ 2 - 2 * s.x + 1 := by ring
  have hinner : (R - 1) ^ 2 = R ^ 2 - 2 * R + 1 := by ring
  omega

/-- The lines of the loop cover every point of the inner disc in the first octant, and its mirror
image at the diagonal. -/
theorem circleLoop_covers {R : Int} {s : CircleState} (h : Head R s) {a b : Int} (hsa : s.x ≤ a)
    (hab : a ≤ b) (hin : a ^ 2 + b ^ 2 ≤ (R - 1) ^ 2) :
    (∃ t ∈ circleLoop s, t.x = a ∧ b ≤ t.y) ∧
      ∃ t ∈ circleLoop s, a ≤ t.x ∧ (t.y = b ∨ t.x = b ∧ b ≤ t.y) := by
  induction s using circleLoop.induct with
  | case1 s hle ih =>
    by_cases hcolumn : s.x = a
    · subst hcolumn
      have hx := circleStep_x s
      have hreach : b ≤ (circleStep s).y :=
        (h.drawn hle).reaches (by rw [hx]; exact hin)
      exact ⟨⟨_, mem_circleLoop.mpr ⟨hle, Or.inl rfl⟩, hx, hreach⟩, circleLoop_rows hab hreach⟩
    · have hx : (circleStep s).next.x = s.x + 1 := by
        simp only [CircleState.next, circleStep_x]
      obtain ⟨⟨t, ht, hcover⟩, t', ht', hcover'⟩ := ih (h.next hle) (by omega)
      exact ⟨⟨t, mem_circleLoop.mpr ⟨hle, Or.inr ht⟩, hcover⟩,
        t', mem_circleLoop.mpr ⟨hle, Or.inr ht'⟩, hcover'⟩
  | case2 s hle => exact absurd (h.inside hsa hab hin) hle

/-! ## The pixels -/

/-- The pixel `u` columns and `v` rows away from the center. -/
def Pixel.shift (c : Pixel) (u v : Int) : Pixel := ⟨c.x + u, c.y + v⟩

/-- The four lines of one run of the body. -/
theorem shift_mem_circleLines {c : Pixel} {t : CircleState} (hx : 0 ≤ t.x) (hy : 0 ≤ t.y)
    (u v : Int) :
    c.shift u v ∈ circleLines c t ↔ |v| = t.y ∧ |u| ≤ t.x ∨ |v| = t.x ∧ |u| ≤ t.y := by
  simp only [circleLines, List.mem_append, mem_drawLine_row, Pixel.shift, abs_le, abs_eq hx,
    abs_eq hy]
  omega

theorem shift_mem_drawFilledCircle {R : Int} (hR : 1 ≤ R) (c : Pixel) (u v : Int) :
    c.shift u v ∈ drawFilledCircle R c ↔
      u = 0 ∧ |v| ≤ R ∨ v = 0 ∧ |u| ≤ R ∨
        ∃ t ∈ circleLoop ⟨1, R, -R⟩, |v| = t.y ∧ |u| ≤ t.x ∨ |v| = t.x ∧ |u| ≤ t.y := by
  have hcolumn : c.shift u v ∈ drawLine ⟨c.x, c.y + R⟩ ⟨c.x, c.y - R⟩ ↔ u = 0 ∧ |v| ≤ R := by
    simp only [mem_drawLine_column, abs_le, Pixel.shift]
    omega
  have hrow : c.shift u v ∈ drawLine ⟨c.x + R, c.y⟩ ⟨c.x - R, c.y⟩ ↔ v = 0 ∧ |u| ≤ R := by
    simp only [mem_drawLine_row, abs_le, Pixel.shift]
    omega
  have hloop : c.shift u v ∈ (circleLoop ⟨1, R, -R⟩).flatMap (circleLines c) ↔
      ∃ t ∈ circleLoop ⟨1, R, -R⟩, |v| = t.y ∧ |u| ≤ t.x ∨ |v| = t.x ∧ |u| ≤ t.y := by
    rw [List.mem_flatMap]
    apply exists_congr
    intro t
    apply and_congr_right
    intro ht
    have hdrawn := circleLoop_drawn (head_start hR) t ht
    exact shift_mem_circleLines (by have := hdrawn.x_pos; omega) hdrawn.y_nonneg u v
  rw [drawFilledCircle, List.mem_append, List.mem_append, hcolumn, hrow, hloop]

/-- The inner disc is drawn. -/
theorem shift_mem_of_inner {R : Int} (hR : 1 ≤ R) (c : Pixel) {u v : Int}
    (hin : u ^ 2 + v ^ 2 ≤ (R - 1) ^ 2) : c.shift u v ∈ drawFilledCircle R c := by
  have hu : |u| ≤ R - 1 := abs_le_of_sq_le_sq (by have := sq_nonneg v; omega) (by omega)
  have hv : |v| ≤ R - 1 := abs_le_of_sq_le_sq (by have := sq_nonneg u; omega) (by omega)
  rw [shift_mem_drawFilledCircle hR]
  by_cases hu0 : u = 0
  · exact Or.inl ⟨hu0, by omega⟩
  by_cases hv0 : v = 0
  · exact Or.inr (Or.inl ⟨hv0, by omega⟩)
  have hupos : 1 ≤ |u| := Int.one_le_abs hu0
  have hvpos : 1 ≤ |v| := Int.one_le_abs hv0
  refine Or.inr (Or.inr ?_)
  rcases le_total |v| |u| with hle | hle
  · have hcover := circleLoop_covers (head_start hR) hvpos hle (by rw [sq_abs, sq_abs]; omega)
    obtain ⟨⟨t, ht, hx, hy⟩, _⟩ := hcover
    exact ⟨t, ht, Or.inr ⟨hx.symm, hy⟩⟩
  · have hcover := circleLoop_covers (head_start hR) hupos hle (by rw [sq_abs, sq_abs]; omega)
    obtain ⟨_, t, ht, hx, hy | ⟨hx', hy⟩⟩ := hcover
    · exact ⟨t, ht, Or.inl ⟨hy.symm, hx⟩⟩
    · exact ⟨t, ht, Or.inr ⟨hx'.symm, hle.trans hy⟩⟩

theorem sq_add_sq_le {u v a b : Int} (hu : |u| ≤ a) (hv : |v| = b) :
    u ^ 2 + v ^ 2 ≤ a ^ 2 + b ^ 2 := by
  have hsquare := pow_le_pow_left₀ (abs_nonneg u) hu 2
  rw [sq_abs] at hsquare
  rw [← hv, sq_abs]
  omega

/-- Nothing outside the outer disc is drawn. -/
theorem outer_of_shift_mem {R : Int} (hR : 1 ≤ R) {c : Pixel} {u v : Int}
    (hmem : c.shift u v ∈ drawFilledCircle R c) : u ^ 2 + v ^ 2 ≤ R ^ 2 + R := by
  rcases (shift_mem_drawFilledCircle hR c u v).mp hmem with
    ⟨rfl, hv⟩ | ⟨rfl, hu⟩ | ⟨t, ht, hline⟩
  · have := sq_le_sq' (abs_le.mp hv).1 (abs_le.mp hv).2
    omega
  · have := sq_le_sq' (abs_le.mp hu).1 (abs_le.mp hu).2
    omega
  · have hdrawn := circleLoop_drawn (head_start hR) t ht
    have hequation := hdrawn.equation
    have hhigh := hdrawn.high
    have hsquares : u ^ 2 + v ^ 2 ≤ t.x ^ 2 + t.y ^ 2 := by
      rcases hline with ⟨hv, hu⟩ | ⟨hv, hu⟩
      · exact sq_add_sq_le hu hv
      · rw [add_comm (t.x ^ 2)]
        exact sq_add_sq_le hu hv
    omega

/-- Every pixel of the disc is at most `R` columns and rows away from the center. -/
theorem abs_le_of_mem {R : Int} (hR : 1 ≤ R) {c p : Pixel} (hp : p ∈ drawFilledCircle R c) :
    |p.x - c.x| ≤ R ∧ |p.y - c.y| ≤ R := by
  have hshift : c.shift (p.x - c.x) (p.y - c.y) = p := by
    simp [Pixel.shift]
  have houter := outer_of_shift_mem hR (hshift.symm ▸ hp)
  have hx := sq_nonneg (p.x - c.x)
  have hy := sq_nonneg (p.y - c.y)
  have hexpand : (R + 1) ^ 2 = R ^ 2 + 2 * R + 1 := by ring
  have hxlt : |p.x - c.x| < R + 1 := abs_lt_of_sq_lt_sq (by omega) (by omega)
  have hylt : |p.y - c.y| < R + 1 := abs_lt_of_sq_lt_sq (by omega) (by omega)
  exact ⟨by omega, by omega⟩

/-- A row is as long to the left as to the right, and has no holes. -/
theorem shift_mem_of_abs_le {R : Int} (hR : 1 ≤ R) {c : Pixel} {u u' v : Int}
    (hmem : c.shift u v ∈ drawFilledCircle R c) (hle : |u'| ≤ |u|) :
    c.shift u' v ∈ drawFilledCircle R c := by
  rw [shift_mem_drawFilledCircle hR] at hmem ⊢
  rcases hmem with ⟨rfl, hv⟩ | ⟨rfl, hu⟩ | ⟨t, ht, hline⟩
  · rw [abs_zero] at hle
    exact Or.inl ⟨abs_eq_zero.mp (le_antisymm hle (abs_nonneg u')), hv⟩
  · exact Or.inr (Or.inl ⟨rfl, hle.trans hu⟩)
  · refine Or.inr (Or.inr ⟨t, ht, ?_⟩)
    rcases hline with ⟨hv, hu⟩ | ⟨hv, hu⟩
    · exact Or.inl ⟨hv, hle.trans hu⟩
    · exact Or.inr ⟨hv, hle.trans hu⟩

/-- Every row of the disc is a run of pixels around the column of the center. -/
theorem exists_halfWidth {R : Int} (hR : 1 ≤ R) (c : Pixel) {v : Int} (hv : |v| ≤ R) :
    ∃ w : Nat, ∀ u, c.shift u v ∈ drawFilledCircle R c ↔ |u| ≤ w := by
  let widths : Set Nat := { n | c.shift n v ∈ drawFilledCircle R c }
  have hzero : 0 ∈ widths := (shift_mem_drawFilledCircle hR c 0 v).mpr (Or.inl ⟨rfl, hv⟩)
  have hbounded : BddAbove widths := by
    refine ⟨R.toNat, ?_⟩
    intro n hn
    have hle := (abs_le_of_mem hR hn).1
    rw [Pixel.shift, add_sub_cancel_left, Nat.abs_cast] at hle
    omega
  refine ⟨sSup widths, ?_⟩
  intro u
  constructor
  · intro hmem
    have habs : u.natAbs ∈ widths :=
      shift_mem_of_abs_le hR hmem (by rw [Int.natCast_natAbs, abs_abs])
    rw [Int.abs_eq_natAbs]
    exact_mod_cast le_csSup hbounded habs
  · intro hle
    exact shift_mem_of_abs_le hR (Nat.sSup_mem ⟨0, hzero⟩ hbounded) (by rwa [Nat.abs_cast])

/-- The row of the center is as long as the diameter. -/
theorem shift_mem_center_row {R : Int} (hR : 1 ≤ R) (c : Pixel) (u : Int) :
    c.shift u 0 ∈ drawFilledCircle R c ↔ |u| ≤ R := by
  constructor
  · intro hmem
    have habs := (abs_le_of_mem hR hmem).1
    rwa [Pixel.shift, add_sub_cancel_left] at habs
  · intro hle
    exact (shift_mem_drawFilledCircle hR c u 0).mpr (Or.inr (Or.inl ⟨rfl, hle⟩))

/-! ## The disc -/

/-- What `fb_checkPx` lets through. -/
def onScreen (fb : DevFb) (ps : List Pixel) : List Pixel := ps.filter fun p => checkPx fb p.x p.y

/-- What a filled circle must be. -/
structure Disc (R : Int) (c : Pixel) : Prop where
  covers : ∀ (fb : DevFb) (u v : Int), u * u + v * v ≤ (R - 1) * (R - 1) →
    checkPx fb (c.x + u) (c.y + v) → c.shift u v ∈ onScreen fb (drawFilledCircle R c)
  excludes : ∀ (fb : DevFb) (u v : Int), R * R + R < u * u + v * v →
    c.shift u v ∉ onScreen fb (drawFilledCircle R c)
  rows : ∀ v, |v| ≤ R → ∃ w : Nat, ∀ u, c.shift u v ∈ drawFilledCircle R c ↔ |u| ≤ w

/-- **Filled circles.** For every radius, every center and every screen the pixels are a disc
without gaps. -/
theorem drawFilledCircle_disc {R : Int} (hR : 1 ≤ R) (c : Pixel) : Disc R c where
  covers := by
    intro fb u v hin hcheck
    simp only [← sq] at hin
    exact List.mem_filter.mpr ⟨shift_mem_of_inner hR c hin, hcheck⟩
  excludes := by
    intro fb u v hout hmem
    have := outer_of_shift_mem hR (List.mem_filter.mp hmem).1
    simp only [← sq] at hout
    omega
  rows := by
    intro v hv
    exact exists_halfWidth hR c hv

/-- `RADIUS`. -/
def radius : Int := 20

theorem drawFilledCircle_disc_radius : Disc radius ⟨400, 300⟩ :=
  drawFilledCircle_disc (by decide) ⟨400, 300⟩

/-- A disc is drawn inside the mapping where everything is. -/
theorem Inside.filledCircle {fb : DevFb} (hin : Inside fb) {R : Int} (hR : 1 ≤ R) {c : Pixel}
    (hlow : IsInt (c.x - R) ∧ IsInt (c.y - R)) (hhigh : IsInt (c.x + R) ∧ IsInt (c.y + R))
    (r g b : BitVec 8) : ∀ s ∈ drawPixels fb (drawFilledCircle R c) r g b, s.Inside fb := by
  apply hin.routine
  intro p hp
  obtain ⟨hx, hy⟩ := abs_le_of_mem hR hp
  rw [abs_le] at hx hy
  unfold IsInt at *
  omega

end BallGame.Shared
