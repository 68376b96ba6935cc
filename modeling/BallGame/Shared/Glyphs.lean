import BallGame.Shared.Line

/-!
# Glyphs

`fb_drawChar` composes every glyph of strokes between points of a cell. Their coordinates are
fractions of the width and of the height of the cell, and whatever the glyph is, such a point
lies in the cell.

* `Spot.inCell`: the points that strokes use;
* `drawChar_inCell`: all pixels of a glyph.
-/

namespace BallGame.Shared

/-! ## Cells -/

/-- `w`: a third of the height, rounded up to an even number. -/
def cellWidth (h : Int) : Int :=
  let w := h.tdiv 3
  if w.tmod 2 ≠ 0 then w + 1 else w

theorem cellWidth_bounds {h : Int} (hh : 3 ≤ h) : 2 ≤ cellWidth h := by
  have hthird := Int.tdiv_eq_ediv_of_nonneg (a := h) (b := 3) (by omega)
  have hodd := Int.tmod_eq_emod_of_nonneg (a := h / 3) (b := 2) (by omega)
  simp only [cellWidth, hthird, hodd]
  split
  · omega
  · omega

/-- The columns in which strokes begin or end. -/
inductive Column where
  | left
  | quarter
  | half
  | behindHalf
  | thirdFromRight
  | right
deriving DecidableEq, Repr

/-- The rows in which strokes begin or end. -/
inductive Row where
  | top
  | eighth
  | quarter
  | aboveMid
  | mid
  | belowMid
  | eighthFromBottom
  | quarterFromBottom
  | twoFromBottom
  | oneFromBottom
  | bottom
deriving DecidableEq, Repr

/-- The distance from `start.x`. -/
def Column.offset (w : Int) : Column → Int
  | .left => 0
  | .quarter => w.tdiv 4
  | .half => w.tdiv 2
  | .behindHalf => w.tdiv 2 + 1
  | .thirdFromRight => w - w.tdiv 3
  | .right => w

/-- The distance from `start.y`. -/
def Row.offset (h : Int) : Row → Int
  | .top => 0
  | .eighth => h.tdiv 8
  | .quarter => h.tdiv 4
  | .aboveMid => h.tdiv 2 - h.tdiv 8
  | .mid => h.tdiv 2
  | .belowMid => h.tdiv 2 + h.tdiv 8
  | .eighthFromBottom => h - h.tdiv 8
  | .quarterFromBottom => h - h.tdiv 4
  | .twoFromBottom => h - 2
  | .oneFromBottom => h - 1
  | .bottom => h

/-- A point of a cell, whatever its size. -/
structure Spot where
  column : Column
  row : Row
deriving DecidableEq, Repr

/-- The pixel in a cell that begins at `start`. -/
def Spot.pixel (start : Pixel) (h : Int) (s : Spot) : Pixel :=
  ⟨start.x + s.column.offset (cellWidth h), start.y + s.row.offset h⟩

/-- The pixels of a cell. -/
structure Pixel.InCell (start : Pixel) (h : Int) (r : Pixel) : Prop where
  x : start.x ≤ r.x ∧ r.x ≤ start.x + cellWidth h
  y : start.y ≤ r.y ∧ r.y ≤ start.y + h

theorem Column.offset_bounds {w : Int} (hw : 2 ≤ w) (column : Column) :
    0 ≤ column.offset w ∧ column.offset w ≤ w := by
  have htdiv : ∀ d, w.tdiv d = w / d := fun d => Int.tdiv_eq_ediv_of_nonneg (by omega)
  cases column with
  | left | quarter | half | behindHalf | thirdFromRight | right =>
    simp only [Column.offset, htdiv]
    omega

theorem Row.offset_bounds {h : Int} (hh : 3 ≤ h) (row : Row) :
    0 ≤ row.offset h ∧ row.offset h ≤ h := by
  have htdiv : ∀ d, h.tdiv d = h / d := fun d => Int.tdiv_eq_ediv_of_nonneg (by omega)
  cases row with
  | top | eighth | quarter | aboveMid | mid | belowMid | eighthFromBottom | quarterFromBottom
  | twoFromBottom | oneFromBottom | bottom =>
    simp only [Row.offset, htdiv]
    omega

theorem Spot.inCell {h : Int} (hh : 3 ≤ h) (start : Pixel) (s : Spot) :
    start.InCell h (s.pixel start h) := by
  have hx := s.column.offset_bounds (cellWidth_bounds hh)
  have hy := s.row.offset_bounds hh
  constructor
  · simp only [Spot.pixel]
    omega
  · simp only [Spot.pixel]
    omega

/-- A cell contains the box of two of its pixels. -/
theorem Pixel.InCell.of_inBox {start p q r : Pixel} {h : Int} (hp : start.InCell h p)
    (hq : start.InCell h q) (hr : p.InBox q r) : start.InCell h r := by
  have hx := hr.x
  have hy := hr.y
  have hpx := hp.x
  have hpy := hp.y
  have hqx := hq.x
  have hqy := hq.y
  exact ⟨by omega, by omega⟩

/-! ## Strokes -/

/-- `start`. -/
def start : Spot := ⟨.left, .top⟩

def topRt : Spot := ⟨.right, .top⟩
def btmLt : Spot := ⟨.left, .bottom⟩
def btmRt : Spot := ⟨.right, .bottom⟩
def midLt : Spot := ⟨.left, .mid⟩
def midRt : Spot := ⟨.right, .mid⟩

/-- The strokes of a character, from the first to the last. -/
def strokes (c : Char) : List (Spot × Spot) :=
  match c with
  | '0' =>
    [(start, topRt), (topRt, btmRt), (btmLt, btmRt), (start, btmLt), (btmLt, topRt)]
  | '1' =>
    [(⟨.left, .quarter⟩, ⟨.half, .top⟩), (⟨.half, .top⟩, ⟨.half, .bottom⟩), (btmLt, btmRt)]
  | '2' =>
    [(start, topRt), (topRt, midRt), (midRt, midLt), (midLt, btmLt), (btmLt, btmRt)]
  | '3' => [(topRt, btmRt), (start, topRt), (midLt, midRt), (btmLt, btmRt)]
  | '4' => [(topRt, midLt), (midLt, midRt), (topRt, btmRt)]
  | 's' | 'S' | '5' =>
    [(start, topRt), (start, midLt), (midRt, midLt), (midRt, btmRt), (btmLt, btmRt)]
  | '6' =>
    [(start, topRt), (start, btmLt), (midRt, midLt), (midRt, btmRt), (btmLt, btmRt)]
  | '7' => [(start, topRt), (topRt, btmLt)]
  | '8' =>
    [(start, topRt), (topRt, btmRt), (btmLt, btmRt), (start, btmLt), (midLt, midRt)]
  | '9' =>
    [(start, topRt), (topRt, btmRt), (btmLt, btmRt), (start, midLt), (midLt, midRt)]
  | '!' =>
    [(⟨.half, .top⟩, ⟨.half, .quarterFromBottom⟩), (⟨.half, .bottom⟩, ⟨.half, .oneFromBottom⟩)]
  | '?' =>
    [(start, topRt), (topRt, midRt), (midRt, ⟨.quarter, .mid⟩),
      (⟨.quarter, .mid⟩, ⟨.quarter, .quarterFromBottom⟩),
      (⟨.quarter, .bottom⟩, ⟨.quarter, .oneFromBottom⟩)]
  | '.' =>
    [(⟨.half, .bottom⟩, ⟨.behindHalf, .bottom⟩),
      (⟨.half, .oneFromBottom⟩, ⟨.behindHalf, .oneFromBottom⟩)]
  | ',' => [(⟨.behindHalf, .bottom⟩, ⟨.behindHalf, .twoFromBottom⟩)]
  | '/' => [(btmLt, topRt)]
  | '\\' => [(start, btmRt)]
  | '(' | '\x7b' | '[' =>
    [(start, ⟨.half, .top⟩), (start, btmLt), (btmLt, ⟨.half, .bottom⟩)]
  | ')' | '\x7d' | ']' =>
    [(topRt, ⟨.half, .top⟩), (topRt, btmRt), (btmRt, ⟨.half, .bottom⟩)]
  | 'a' | 'A' => [(start, btmLt), (start, topRt), (topRt, btmRt), (midLt, midRt)]
  | 'b' | 'B' =>
    [(start, ⟨.thirdFromRight, .top⟩), (⟨.thirdFromRight, .top⟩, ⟨.right, .eighth⟩),
      (⟨.right, .eighth⟩, ⟨.right, .aboveMid⟩), (⟨.right, .aboveMid⟩, ⟨.thirdFromRight, .mid⟩),
      (midLt, ⟨.thirdFromRight, .mid⟩), (⟨.thirdFromRight, .mid⟩, ⟨.right, .belowMid⟩),
      (⟨.right, .belowMid⟩, ⟨.right, .eighthFromBottom⟩),
      (⟨.right, .eighthFromBottom⟩, ⟨.thirdFromRight, .bottom⟩),
      (btmLt, ⟨.thirdFromRight, .bottom⟩), (start, btmLt)]
  | 'c' | 'C' => [(start, topRt), (btmLt, btmRt), (start, btmLt)]
  | 'd' | 'D' =>
    [(start, ⟨.thirdFromRight, .top⟩), (⟨.thirdFromRight, .top⟩, ⟨.right, .eighth⟩),
      (⟨.right, .eighth⟩, ⟨.right, .eighthFromBottom⟩),
      (⟨.right, .eighthFromBottom⟩, ⟨.thirdFromRight, .bottom⟩),
      (btmLt, ⟨.thirdFromRight, .bottom⟩), (start, btmLt)]
  | 'e' | 'E' => [(start, btmLt), (start, topRt), (midLt, midRt), (btmLt, btmRt)]
  | 'f' | 'F' => [(start, btmLt), (start, topRt), (midLt, midRt)]
  | 'g' | 'G' =>
    [(start, topRt), (start, btmLt), (midRt, ⟨.thirdFromRight, .mid⟩), (midRt, btmRt),
      (btmLt, btmRt)]
  | 'h' | 'H' => [(topRt, btmRt), (start, btmLt), (midLt, midRt)]
  | 'i' | 'I' => [(start, topRt), (btmLt, btmRt), (⟨.half, .top⟩, ⟨.half, .bottom⟩)]
  | 'j' | 'J' =>
    [(start, topRt), (⟨.half, .top⟩, ⟨.half, .bottom⟩), (btmLt, ⟨.half, .bottom⟩),
      (midLt, btmLt)]
  | 'k' | 'K' => [(start, btmLt), (midLt, topRt), (midLt, btmRt)]
  | 'l' | 'L' => [(start, btmLt), (btmLt, btmRt)]
  | 'm' | 'M' =>
    [(start, btmLt), (topRt, btmRt), (start, ⟨.half, .mid⟩), (topRt, ⟨.half, .mid⟩)]
  | 'n' | 'N' => [(start, btmLt), (topRt, btmRt), (start, btmRt)]
  | 'o' | 'O' => [(start, topRt), (topRt, btmRt), (btmLt, btmRt), (start, btmLt)]
  | 'p' | 'P' => [(start, btmLt), (start, topRt), (topRt, midRt), (midLt, midRt)]
  | 'q' | 'Q' =>
    [(start, topRt), (topRt, btmRt), (btmLt, btmRt), (start, btmLt), (⟨.half, .mid⟩, btmRt)]
  | 'r' | 'R' =>
    [(start, btmLt), (start, topRt), (topRt, midRt), (midLt, midRt), (midLt, btmRt)]
  | 't' | 'T' => [(start, topRt), (⟨.half, .top⟩, ⟨.half, .bottom⟩)]
  | 'u' | 'U' => [(topRt, btmRt), (btmLt, btmRt), (start, btmLt)]
  | 'v' | 'V' => [(start, ⟨.half, .bottom⟩), (topRt, ⟨.half, .bottom⟩)]
  | 'w' | 'W' =>
    [(start, btmLt), (topRt, btmRt), (btmLt, ⟨.half, .mid⟩), (btmRt, ⟨.half, .mid⟩)]
  | 'x' | 'X' => [(start, btmRt), (topRt, btmLt)]
  | 'y' | 'Y' =>
    [(start, ⟨.half, .mid⟩), (topRt, ⟨.half, .mid⟩), (⟨.half, .mid⟩, ⟨.half, .bottom⟩)]
  | 'z' | 'Z' => [(topRt, btmLt), (start, topRt), (btmLt, btmRt)]
  | _ => []

/-- `fb_drawChar`: the pixels it passes to `fb_drawPixel`. -/
def drawChar (c : Char) (start : Pixel) (h : Int) : List Pixel :=
  (strokes c).flatMap fun s => drawLine (s.1.pixel start h) (s.2.pixel start h)

/-- The line between two pixels of a cell stays in the cell. -/
theorem drawLine_inCell {start p q : Pixel} {h : Int} (hp : start.InCell h p)
    (hq : start.InCell h q) : ∀ r ∈ drawLine p q, start.InCell h r := by
  intro r hr
  exact hp.of_inBox hq ((drawLine_digital p q).box r hr)

theorem drawChar_inCell {h : Int} (hh : 3 ≤ h) (c : Char) (start : Pixel) :
    ∀ r ∈ drawChar c start h, start.InCell h r := by
  intro r hr
  obtain ⟨s, _, hr⟩ := List.mem_flatMap.mp hr
  exact drawLine_inCell (s.1.inCell hh start) (s.2.inCell hh start) r hr

end BallGame.Shared
