import BallGame.Library.Memory
import BallGame.Library.Stdio

/-!
# Balls of the client

The client can make a ball of its own at a random place of the screen, but those it shows come
from the server: it reads a ball of the 1000 by 1000 arena from its text and converts it to
pixels. A local variable that `sscanf` does not fill and a conversion to `int` that is out of
range have no defined value; a field of either kind of ball is `none` then.
-/

namespace BallGame.Client

open Library

structure RGBColor where
  r : Option UInt8
  g : Option UInt8
  b : Option UInt8
  deriving DecidableEq

structure LogicalBall where
  id : Option Int
  x : Option Single
  y : Option Single
  dx : Option Int
  dy : Option Int
  radius : Option Int
  color : RGBColor
  deriving DecidableEq

structure ScreenBall where
  id : Option Int
  x : Option Int
  y : Option Int
  dx : Option Int
  dy : Option Int
  radius : Option Int
  color : RGBColor
  deriving DecidableEq

/-! ## Creation -/

/-- The results of `rand()` one new ball consumes. -/
structure RandomDraws where
  x : Nat
  y : Nat
  dx : Nat
  dy : Nat
  r : Nat
  g : Nat
  b : Nat

/-- `rand() % (size - 2 * radius) + radius`. -/
def randomCoordinate (draw : Nat) (size radius : Int) : Except Stuck Int := do
  let diameter ← checkedInt (2 * radius)
  let range ← checkedInt (size - diameter)
  if range = 0 then
    .error .divisionByZero
  else
    checkedInt (Int.tmod draw range + radius)

def randomVelocity (draw : Nat) : Int := if draw % 2 = 0 then -1 else 1

def randomByte (draw : Nat) : UInt8 := UInt8.ofNat (draw % 256)

def createScreenBall (id width height radius : Int) (draws : RandomDraws) :
    Except Stuck ScreenBall := do
  let x ← randomCoordinate draws.x width radius
  let y ← randomCoordinate draws.y height radius
  .ok {
    id := some id
    x := some x
    y := some y
    dx := some (randomVelocity draws.dx)
    dy := some (randomVelocity draws.dy)
    radius := some radius
    color := ⟨some (randomByte draws.r), some (randomByte draws.g), some (randomByte draws.b)⟩ }

/-! ## Reading a ball -/

/-- `"%d,%f,%f,%d,%d,%d,%hhu,%hhu,%hhu"`. -/
def ballFormat : List Directive :=
  [.int, .literal ',', .float, .literal ',', .float, .literal ',', .int, .literal ',', .int,
    .literal ',', .int, .literal ',', .byte, .literal ',', .byte, .literal ',', .byte]

def intValue : Scanned → Option Int
  | .int n => some n
  | _ => none

def floatValue : Scanned → Option Single
  | .float x => some x
  | _ => none

def byteValue : Scanned → Option UInt8
  | .byte b => some b
  | _ => none

/-- The variable `l` after `sscanf`, whose result nobody looks at. -/
def scanBall (token : List Char) : LogicalBall :=
  let values := scan ballFormat token
  { id := values[0]?.bind intValue
    x := values[1]?.bind floatValue
    y := values[2]?.bind floatValue
    dx := values[3]?.bind intValue
    dy := values[4]?.bind intValue
    radius := values[5]?.bind intValue
    color := ⟨values[6]?.bind byteValue, values[7]?.bind byteValue, values[8]?.bind byteValue⟩ }

/-! ## From the arena to the screen -/

def logicToPixel (logic : Single) (screenSize : Int) : Option Int :=
  ((logic.divBy 1000).mul (.ofInt screenSize)).toInt

def logicalToScreenBall (l : LogicalBall) (width height : Int) : ScreenBall :=
  let minRes := if width < height then width else height
  let radius := l.radius.bind fun r => logicToPixel (.ofInt r) minRes
  { id := l.id
    x := l.x.bind fun x => logicToPixel x width
    y := l.y.bind fun y => logicToPixel y height
    dx := l.dx
    dy := l.dy
    radius := radius.map fun r => if r ≤ minRes then 5 else r
    color := l.color }

end BallGame.Client
