import BallGame.Client.ScreenBall
import BallGame.Shared.FilledCircle

/-!
# Drawing a ball

`draw_ball` draws a disc of the radius `RADIUS` in the color of the ball, whatever the radius of
the ball is.

* `drawBall_inside`: where the disc fits, nothing is stored outside the mapping;
* `HalfWidth.eq`: the width of the disc.
-/

namespace BallGame.Client

open Library Shared

/-- The pixels of `draw_ball`, if the place of the ball has a value. -/
def ballPixels (b : ScreenBall) : Option (List Pixel) :=
  b.x.bind fun x => b.y.map fun y => drawFilledCircle Shared.radius ⟨x, y⟩

/-- `draw_ball`: what it stores, in the color of the ball. -/
def drawBall (fb : DevFb) (b : ScreenBall) : Option (List Store) :=
  (ballPixels b).bind fun ps => b.color.r.bind fun red => b.color.g.bind fun green =>
    b.color.b.map fun blue =>
      drawPixels fb ps red.toBitVec green.toBitVec blue.toBitVec

/-- A ball is drawn inside the mapping where everything is. -/
theorem drawBall_inside {fb : DevFb} (hin : Inside fb) {b : ScreenBall} {x y : Int}
    (hx : b.x = some x) (hy : b.y = some y)
    (hlow : IsInt (x - Shared.radius) ∧ IsInt (y - Shared.radius))
    (hhigh : IsInt (x + Shared.radius) ∧ IsInt (y + Shared.radius)) {stores : List Store}
    (hdraw : drawBall fb b = some stores) : ∀ s ∈ stores, s.Inside fb := by
  obtain ⟨ps, hps, hdraw⟩ := Option.bind_eq_some_iff.mp hdraw
  rw [ballPixels, hx, hy] at hps
  obtain rfl := Option.some.inj hps
  obtain ⟨red, _, hdraw⟩ := Option.bind_eq_some_iff.mp hdraw
  obtain ⟨green, _, hdraw⟩ := Option.bind_eq_some_iff.mp hdraw
  obtain ⟨blue, _, rfl⟩ := Option.map_eq_some_iff.mp hdraw
  exact hin.filledCircle (R := Shared.radius) (by decide) (c := ⟨x, y⟩) hlow hhigh _ _ _

/-- The row of the center reaches as far as `w` on both sides. -/
def HalfWidth (b : ScreenBall) (w : Int) : Prop :=
  ∃ x y ps, b.x = some x ∧ b.y = some y ∧ ballPixels b = some ps ∧
    ∀ u, (⟨x, y⟩ : Pixel).shift u 0 ∈ ps ↔ |u| ≤ w

/-- The half-width is always the same. -/
theorem HalfWidth.eq {b : ScreenBall} {w : Int} (hw : 0 ≤ w) (h : HalfWidth b w) :
    w = Shared.radius := by
  obtain ⟨x, y, ps, hx, hy, hps, hrow⟩ := h
  rw [ballPixels, hx, hy] at hps
  obtain rfl := Option.some.inj hps
  have hcenter := shift_mem_center_row (R := Shared.radius) (by decide) ⟨x, y⟩
  have hleft := (hrow w).mpr (abs_of_nonneg hw).le
  have hright := (hrow Shared.radius).mp ((hcenter _).mpr (by decide))
  rw [hcenter, abs_of_nonneg hw] at hleft
  have hradius : |Shared.radius| = Shared.radius := by decide
  omega

end BallGame.Client
