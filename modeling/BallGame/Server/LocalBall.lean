import BallGame.Library.Binary32

/-!
# Balls of the server

`loaclball.c`: the creation of a ball at a random place of the 1000 by 1000 arena and one
step of its motion, and the changes of speed of `localball_list.c` on one ball. Coordinates
are single precision, all other fields machine integers.
-/

namespace BallGame.Server

open Library

structure RGBColor where
  r : UInt8
  g : UInt8
  b : UInt8
  deriving DecidableEq

structure LogicalBall where
  id : Int
  x : Single
  y : Single
  dx : Int
  dy : Int
  radius : Int
  ownerId : Int
  color : RGBColor
  deriving DecidableEq

def maxSpeed : Int := 2000

def minSpeed : Int := -2000

/-! ## Creation -/

/-- The four results of `rand()` one new ball consumes. -/
structure RandomDraws where
  x : Nat
  y : Nat
  dx : Nat
  dy : Nat

def getColorByOwner (ownerId : Int) : RGBColor :=
  match ownerId.tmod 5 with
  | 0 => ⟨255, 0, 0⟩
  | 1 => ⟨0, 255, 0⟩
  | 2 => ⟨0, 0, 255⟩
  | 3 => ⟨255, 255, 0⟩
  | 4 => ⟨255, 0, 255⟩
  | _ => ⟨128, 128, 128⟩

/-- `rand() % (1000 - 2 * radius) + radius`. -/
def randomCoordinate (draw : Nat) (radius : Int) : Except Stuck Single := do
  let diameter ← checkedInt (2 * radius)
  let range ← checkedInt (1000 - diameter)
  if range = 0 then
    .error .divisionByZero
  else do
    let place ← checkedInt (Int.tmod draw range + radius)
    .ok (Single.ofInt place)

/-- `-2.5f` or `2.5f`, stored in an `int`. -/
def randomVelocity (draw : Nat) : Int := if draw % 2 = 0 then -2 else 2

def createLogicalBall (id radius ownerId : Int) (draws : RandomDraws) :
    Except Stuck LogicalBall := do
  let x ← randomCoordinate draws.x radius
  let y ← randomCoordinate draws.y radius
  .ok {
    id := id
    x := x
    y := y
    dx := randomVelocity draws.dx
    dy := randomVelocity draws.dy
    radius := radius
    ownerId := ownerId
    color := getColorByOwner ownerId }

/-! ## Motion -/

/-- One coordinate of a step: the sum, and at a border the reversed velocity once more. -/
def moveCoordinate (place : Single) (velocity radius : Int) : Single × Int :=
  let moved := place.add (.ofInt velocity)
  if moved.le (.ofInt radius) || (Single.sub (.ofInt 1000) (.ofInt radius)).le moved then
    (moved.add (.ofInt (velocity * -1)), velocity * -1)
  else
    (moved, velocity)

def moveLogicalBall (b : LogicalBall) : LogicalBall :=
  { b with
    x := (moveCoordinate b.x b.dx b.radius).1
    dx := (moveCoordinate b.x b.dx b.radius).2
    y := (moveCoordinate b.y b.dy b.radius).1
    dy := (moveCoordinate b.y b.dy b.radius).2 }

/-! ## Changes of speed -/

/-- The clamp looks at the old value, before it is doubled. -/
def speedUp (v : Int) : Int :=
  if 0 < v then (if maxSpeed < v then maxSpeed else v * 2)
  else if v < 0 then (if v < minSpeed then minSpeed else v * 2)
  else v

def speedDown (v : Int) : Int :=
  if 0 < v then (if 1 < v then v.tdiv 2 else 1)
  else if v < 0 then (if v < -1 then v.tdiv 2 else -1)
  else v

def speedUpBall (b : LogicalBall) : LogicalBall :=
  { b with dx := speedUp b.dx, dy := speedUp b.dy }

def speedDownBall (b : LogicalBall) : LogicalBall :=
  { b with dx := speedDown b.dx, dy := speedDown b.dy }

/-- Halving keeps the direction and stops at one unit. -/
theorem speedDown_cases (v : Int) :
    (0 < v ∧ 0 < speedDown v ∧ speedDown v ≤ v) ∨ (v < 0 ∧ speedDown v < 0 ∧ v ≤ speedDown v) ∨
      (v = 0 ∧ speedDown v = 0) := by
  have hpos : 0 ≤ v → v.tdiv 2 = v / 2 := fun h0 => Int.tdiv_eq_ediv_of_nonneg h0
  have hneg : v ≤ 0 → v.tdiv 2 = -(-v / 2) := by
    intro h0
    rw [← Int.tdiv_eq_ediv_of_nonneg (by omega), Int.neg_tdiv, Int.neg_neg]
  simp only [speedDown]
  omega

end BallGame.Server
