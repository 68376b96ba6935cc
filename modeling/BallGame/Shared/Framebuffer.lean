import BallGame.Shared.Line

/-!
# The mapped framebuffer

`fb_init` maps `line_length * yres` bytes of the device from its beginning. `locate` adds the
offsets of the visible area, and all of it is computed in 32 bits. `fb_fillScr` stores four bytes
for every pixel, whatever a pixel takes.

* `drawPixel_inside_iff`, `fillScr_inside_iff`: which rows must end inside the mapping;
* `inside_iff`: the screens on which nothing is written outside;
* `fillScr_outside`: a screen with 16 bits per pixel that is filled past its end.
-/

namespace BallGame.Shared

open Library

/-! ## The device -/

/-- `struct fb_var_screeninfo`, as far as it is read. -/
structure VarScreeninfo where
  xres : UInt32
  yres : UInt32
  xresVirtual : UInt32
  yresVirtual : UInt32
  xoffset : UInt32
  yoffset : UInt32
  bitsPerPixel : UInt32

/-- `dev_fb`. The line length is the one of `finfo`. -/
structure DevFb where
  vinfo : VarScreeninfo
  lineLength : UInt32
  screensize : Nat

/-- What the device answers. `FBIOPUT_VSCREENINFO` writes the settings it took. -/
structure Driver where
  opened : Bool
  finfo : Option UInt32
  vinfo : Option VarScreeninfo
  put : VarScreeninfo → Option VarScreeninfo
  mmap : Nat → Bool

def fbOpenFail : Int := 1
def fbGetFinfoFail : Int := 2
def fbGetVinfoFail : Int := 3
def fbMmapFail : Int := 4

/-- `fb_init`, with the error code it returns. -/
def init (d : Driver) : Except Int DevFb :=
  if d.opened then
    match d.finfo with
    | none => .error fbGetFinfoFail
    | some lineLength =>
      match d.vinfo with
      | none => .error fbGetVinfoFail
      | some v =>
        match d.put { v with xres := 1920, yres := 1080, xresVirtual := 1920,
                             yresVirtual := 1080 } with
        | none => .error fbGetVinfoFail
        | some v =>
          let screensize := (lineLength * v.yres).toNat
          if d.mmap screensize then .ok ⟨v, lineLength, screensize⟩ else .error fbMmapFail
  else .error fbOpenFail

/-- The mapping has the length of the visible rows, in 32 bits. -/
theorem init_screensize {d : Driver} {fb : DevFb} (h : init d = .ok fb) :
    fb.screensize = (fb.lineLength * fb.vinfo.yres).toNat := by
  unfold init at h
  split at h
  · split at h
    · cases h
    · split at h
      · cases h
      · split at h
        · cases h
        · dsimp only at h
          split at h
          · cases h
            rfl
          · cases h
  · cases h

/-! ## Stores -/

/-- A byte that is stored, and where in the mapping. -/
structure Store where
  offset : Nat
  value : BitVec 8

/-- Bytes stored one behind the other. -/
def storeBytes (location : Nat) (bytes : List (BitVec 8)) : List Store :=
  bytes.mapIdx fun i v => ⟨location + i, v⟩

/-- `fb_checkPx`. -/
def checkPx (fb : DevFb) (x y : Int) : Bool :=
  x ≥ 0 && y ≥ 0 && UInt32.ofInt x < fb.vinfo.xres && UInt32.ofInt y < fb.vinfo.yres

/-- `locate`: the coordinates are converted to the type of the offsets. -/
def locate (fb : DevFb) (x y : Int) : Nat :=
  ((UInt32.ofInt x + fb.vinfo.xoffset) * (fb.vinfo.bitsPerPixel / 8) +
    (UInt32.ofInt y + fb.vinfo.yoffset) * fb.lineLength).toNat

/-- `r<<11 | g << 5 | b` as an `unsigned short`. -/
def color16 (r g b : BitVec 8) : BitVec 16 :=
  r.signExtend 16 <<< 11 ||| g.signExtend 16 <<< 5 ||| b.signExtend 16

/-- The bytes of a pixel, the lowest first. -/
def pixelBytes (bitsPerPixel : UInt32) (r g b a : BitVec 8) : List (BitVec 8) :=
  if bitsPerPixel = 32 then [b, g, r, a]
  else [(color16 r g b).setWidth 8, (color16 r g b >>> 8).setWidth 8]

/-- `fb_drawPixelwithAlpha`. -/
def drawPixelwithAlpha (fb : DevFb) (x y : Int) (r g b a : BitVec 8) : List Store :=
  if checkPx fb x y then storeBytes (locate fb x y) (pixelBytes fb.vinfo.bitsPerPixel r g b a)
  else []

/-- `fb_drawPixel`: the fourth byte is zero. -/
def drawPixel (fb : DevFb) (x y : Int) (r g b : BitVec 8) : List Store :=
  drawPixelwithAlpha fb x y r g b 0

/-- `fb_fillScr`: four bytes for each pixel. -/
def fillScr (fb : DevFb) (r g b : BitVec 8) : List Store :=
  (List.range (wrapInt fb.vinfo.yres.toNat).toNat).flatMap fun (y : Nat) =>
    (List.range (wrapInt fb.vinfo.xres.toNat).toNat).flatMap fun (x : Nat) =>
      storeBytes (locate fb x y) [b, g, r, 0]

/-- What a routine stores that draws pixels with `fb_drawPixel`. -/
def drawPixels (fb : DevFb) (ps : List Pixel) (r g b : BitVec 8) : List Store :=
  ps.flatMap fun p => drawPixel fb p.x p.y r g b

/-- What a routine stores that draws pixels with `fb_drawPixelwithAlpha`. -/
def drawPixelswithAlpha (fb : DevFb) (ps : List Pixel) (r g b a : BitVec 8) : List Store :=
  ps.flatMap fun p => drawPixelwithAlpha fb p.x p.y r g b a

/-- A byte of the mapping. -/
def Store.Inside (fb : DevFb) (s : Store) : Prop := s.offset < fb.screensize

theorem storeBytes_inside_iff {fb : DevFb} {location : Nat} {bytes : List (BitVec 8)}
    (hne : bytes ≠ []) :
    (∀ s ∈ storeBytes location bytes, s.Inside fb) ↔
      location + bytes.length ≤ fb.screensize := by
  have hpos := List.length_pos_iff.mpr hne
  simp only [storeBytes, List.mem_mapIdx, Store.Inside]
  constructor
  · intro h
    have hlast := h ⟨location + (bytes.length - 1), bytes[bytes.length - 1]⟩
      ⟨bytes.length - 1, by omega, rfl⟩
    dsimp only at hlast
    omega
  · rintro h s ⟨i, hi, rfl⟩
    dsimp only
    omega

/-! ## Rows -/

/-- The bytes of a pixel. -/
def pixelSize (fb : DevFb) : Nat := fb.vinfo.bitsPerPixel.toNat / 8

theorem toNat_eq_zero_iff {n : UInt32} : n.toNat = 0 ↔ n = 0 := by
  rw [← UInt32.toNat_inj]
  rfl

theorem toNat_pos {n : UInt32} (h : n ≠ 0) : 0 < n.toNat :=
  Nat.pos_of_ne_zero fun he => h (toNat_eq_zero_iff.mp he)

theorem toNat_ofInt_natCast (n : Nat) : (UInt32.ofInt n).toNat = n % 2 ^ 32 := by
  rw [UInt32.ofInt, UInt32.toNat_ofNat']
  omega

theorem locate_natCast (fb : DevFb) (x y : Nat) :
    locate fb x y = ((x + fb.vinfo.xoffset.toNat) * pixelSize fb +
      (y + fb.vinfo.yoffset.toNat) * fb.lineLength.toNat) % 2 ^ 32 := by
  simp only [locate, UInt32.toNat_add, UInt32.toNat_mul, UInt32.toNat_div, toNat_ofInt_natCast,
    pixelSize]
  simp [Nat.add_mod, Nat.mul_mod]

/-- The pixels that are drawn have coordinates of the screen. -/
theorem checkPx_iff (fb : DevFb) {x y : Int} (hx : IsInt x) (hy : IsInt y) :
    checkPx fb x y = true ↔
      ∃ m n : Nat, x = m ∧ y = n ∧ m < 2 ^ 31 ∧ n < 2 ^ 31 ∧ m < fb.vinfo.xres.toNat ∧
        n < fb.vinfo.yres.toNat := by
  simp only [checkPx, Bool.and_eq_true, decide_eq_true_eq, UInt32.lt_iff_toNat_lt, and_assoc]
  constructor
  · rintro ⟨hx0, hy0, hxres, hyres⟩
    obtain ⟨m, rfl⟩ := Int.eq_ofNat_of_zero_le hx0
    obtain ⟨n, rfl⟩ := Int.eq_ofNat_of_zero_le hy0
    have hm : m < 2 ^ 31 := by have := hx.2; omega
    have hn : n < 2 ^ 31 := by have := hy.2; omega
    rw [toNat_ofInt_natCast, Nat.mod_eq_of_lt (by omega)] at hxres hyres
    exact ⟨m, n, rfl, rfl, hm, hn, hxres, hyres⟩
  · rintro ⟨m, n, rfl, rfl, hm, hn, hxres, hyres⟩
    rw [toNat_ofInt_natCast, toNat_ofInt_natCast, Nat.mod_eq_of_lt (by omega),
      Nat.mod_eq_of_lt (by omega)]
    exact ⟨by omega, by omega, hxres, hyres⟩

/-- Accesses at a fixed distance, in arithmetic modulo `M`: if all of them end below a size that
is less than `M`, the addresses do not wrap, and it is enough to look at the last one. -/
theorem strided_iff {start size len n bound M : Nat} (hbound : bound < M) (hsize : size ≤ len)
    (hn : 0 < n) :
    (∀ x < n, (start + x * size) % M + len ≤ bound) ↔
      start % M + (n - 1) * size + len ≤ bound := by
  constructor
  · intro h
    have hexact : ∀ x < n, (start + x * size) % M = start % M + x * size := by
      intro x
      induction x with
      | zero => simp
      | succ x ih =>
        intro hx
        have hprev := h x (by omega)
        rw [ih (by omega)] at hprev
        have hstep : start + (x + 1) * size = start + x * size + size := by ring
        have hstep' : start % M + (x + 1) * size = start % M + x * size + size := by ring
        rw [hstep, hstep', Nat.add_mod, ih (by omega), Nat.mod_eq_of_lt (a := size) (by omega),
          Nat.mod_eq_of_lt (by omega)]
    have hlast := h (n - 1) (by omega)
    rwa [hexact (n - 1) (by omega)] at hlast
  · intro h x hx
    have hle : x * size ≤ (n - 1) * size := Nat.mul_le_mul_right size (by omega)
    have hstart := Nat.mod_le (start % M + x * size) M
    have hmod : (start + x * size) % M = (start % M + x * size) % M := by
      rw [Nat.mod_add_mod]
    omega

/-- A screen the driver may report. -/
structure Geometry (fb : DevFb) : Prop where
  depth : fb.vinfo.bitsPerPixel = 16 ∨ fb.vinfo.bitsPerPixel = 32
  columns : fb.vinfo.xoffset.toNat + fb.vinfo.xres.toNat ≤ fb.vinfo.xresVirtual.toNat
  rows : fb.vinfo.yoffset.toNat + fb.vinfo.yres.toNat ≤ fb.vinfo.yresVirtual.toNat
  stride : fb.vinfo.xresVirtual.toNat * pixelSize fb ≤ fb.lineLength.toNat

/-- The last pixel of each of these rows ends inside the mapping, if it takes `len` bytes and its
row begins where 32 bits put it. -/
def RowsEndInside (fb : DevFb) (rows len : Nat) : Prop :=
  ∀ y < rows, (fb.vinfo.xoffset.toNat * pixelSize fb +
      (y + fb.vinfo.yoffset.toNat) * fb.lineLength.toNat) % 2 ^ 32 +
    (fb.vinfo.xres.toNat - 1) * pixelSize fb + len ≤ fb.screensize

namespace Geometry

variable {fb : DevFb} (h : Geometry fb)

include h

theorem pixelSize_cases : pixelSize fb = 2 ∧ fb.vinfo.bitsPerPixel = 16 ∨
    pixelSize fb = 4 ∧ fb.vinfo.bitsPerPixel = 32 := by
  unfold pixelSize
  rcases h.depth with hd | hd
  · exact Or.inl ⟨by rw [hd]; rfl, hd⟩
  · exact Or.inr ⟨by rw [hd]; rfl, hd⟩

theorem pixelSize_pos : 0 < pixelSize fb := by
  rcases h.pixelSize_cases with ⟨he, _⟩ | ⟨he, _⟩
  · omega
  · omega

theorem length_pixelBytes (r g b a : BitVec 8) :
    (pixelBytes fb.vinfo.bitsPerPixel r g b a).length = pixelSize fb := by
  rcases h.pixelSize_cases with ⟨hsize, hd⟩ | ⟨hsize, hd⟩
  · rw [hsize, hd]
    rfl
  · rw [hsize, hd]
    rfl

/-- The columns of the screen have coordinates of type `int`. -/
theorem xres_lt : fb.vinfo.xres.toNat < 2 ^ 31 := by
  have hline := fb.lineLength.toNat_lt
  have hcolumns := h.columns
  have hstride := h.stride
  rcases h.pixelSize_cases with ⟨hsize, _⟩ | ⟨hsize, _⟩
  · rw [hsize] at hstride
    omega
  · rw [hsize] at hstride
    omega

end Geometry

/-- The pixels of a row, whatever is stored for each of them. -/
theorem row_inside_iff {fb : DevFb} (hsize : fb.screensize < 2 ^ 32) {len y : Nat}
    (hlen : pixelSize fb ≤ len) (hx : 0 < fb.vinfo.xres.toNat) :
    (∀ x < fb.vinfo.xres.toNat, locate fb x y + len ≤ fb.screensize) ↔
      (fb.vinfo.xoffset.toNat * pixelSize fb +
          (y + fb.vinfo.yoffset.toNat) * fb.lineLength.toNat) % 2 ^ 32 +
        (fb.vinfo.xres.toNat - 1) * pixelSize fb + len ≤ fb.screensize := by
  rw [← strided_iff hsize hlen hx]
  have hlocate : ∀ x : Nat, locate fb x y = (fb.vinfo.xoffset.toNat * pixelSize fb +
      (y + fb.vinfo.yoffset.toNat) * fb.lineLength.toNat + x * pixelSize fb) % 2 ^ 32 := by
    intro x
    rw [locate_natCast]
    congr 1
    ring
  simp only [hlocate]

/-! ## What is written -/

/-- No byte is stored outside the mapping, whatever is drawn. -/
structure Inside (fb : DevFb) : Prop where
  pixel : ∀ x y, IsInt x → IsInt y → ∀ r g b, ∀ s ∈ drawPixel fb x y r g b, s.Inside fb
  alpha : ∀ x y, IsInt x → IsInt y → ∀ r g b a,
    ∀ s ∈ drawPixelwithAlpha fb x y r g b a, s.Inside fb
  fill : ∀ r g b, ∀ s ∈ fillScr fb r g b, s.Inside fb
  routine : ∀ ps : List Pixel, (∀ p ∈ ps, IsInt p.x ∧ IsInt p.y) →
    ∀ r g b, ∀ s ∈ drawPixels fb ps r g b, s.Inside fb
  routineAlpha : ∀ ps : List Pixel, (∀ p ∈ ps, IsInt p.x ∧ IsInt p.y) →
    ∀ r g b a, ∀ s ∈ drawPixelswithAlpha fb ps r g b a, s.Inside fb

/-- The routines that draw pixels write where `fb_drawPixelwithAlpha` writes. -/
theorem inside_of_pixels {fb : DevFb}
    (hpixel : ∀ x y, IsInt x → IsInt y → ∀ r g b a,
      ∀ s ∈ drawPixelwithAlpha fb x y r g b a, s.Inside fb)
    (hfill : ∀ r g b, ∀ s ∈ fillScr fb r g b, s.Inside fb) : Inside fb where
  pixel := fun x y hx hy r g b => hpixel x y hx hy r g b 0
  alpha := hpixel
  fill := hfill
  routine := by
    intro ps hps r g b s hs
    obtain ⟨p, hp, hs⟩ := List.mem_flatMap.mp hs
    exact hpixel p.x p.y (hps p hp).1 (hps p hp).2 r g b 0 s hs
  routineAlpha := by
    intro ps hps r g b a s hs
    obtain ⟨p, hp, hs⟩ := List.mem_flatMap.mp hs
    exact hpixel p.x p.y (hps p hp).1 (hps p hp).2 r g b a s hs

/-- Every row that `int` coordinates reach must end inside. -/
theorem drawPixel_inside_iff {fb : DevFb} (h : Geometry fb) (hsize : fb.screensize < 2 ^ 32)
    (hx : 0 < fb.vinfo.xres.toNat) :
    (∀ x y, IsInt x → IsInt y → ∀ r g b a,
      ∀ s ∈ drawPixelwithAlpha fb x y r g b a, s.Inside fb) ↔
      RowsEndInside fb (min fb.vinfo.yres.toNat (2 ^ 31)) (pixelSize fb) := by
  have hne : ∀ r g b a, pixelBytes fb.vinfo.bitsPerPixel r g b a ≠ [] := by
    intro r g b a
    unfold pixelBytes
    split
    · exact List.cons_ne_nil _ _
    · exact List.cons_ne_nil _ _
  constructor
  · intro hall y hy
    rw [← row_inside_iff hsize le_rfl hx]
    intro x hxres
    have hxlt := h.xres_lt
    have hcheck : checkPx fb x y = true :=
      (checkPx_iff fb ⟨by omega, by omega⟩ ⟨by omega, by omega⟩).mpr
        ⟨x, y, rfl, rfl, by omega, by omega, hxres, by omega⟩
    have hstores := hall x y ⟨by omega, by omega⟩ ⟨by omega, by omega⟩ 0 0 0 0
    rwa [drawPixelwithAlpha, if_pos hcheck, storeBytes_inside_iff (hne 0 0 0 0),
      h.length_pixelBytes] at hstores
  · intro hrows x y hx' hy' r g b a
    by_cases hcheck : checkPx fb x y = true
    · obtain ⟨m, n, rfl, rfl, _, hn, hm, hn'⟩ := (checkPx_iff fb hx' hy').mp hcheck
      rw [drawPixelwithAlpha, if_pos hcheck, storeBytes_inside_iff (hne r g b a),
        h.length_pixelBytes]
      exact (row_inside_iff hsize le_rfl hx).mpr (hrows n (by omega)) m hm
    · rw [drawPixelwithAlpha, if_neg hcheck]
      exact List.forall_mem_nil _

theorem toNat_wrapInt {n : Nat} (hn : n < 2 ^ 31) : (wrapInt n).toNat = n := by
  rw [wrapInt, Int.bmod_eq_of_le (by omega) (by omega), Int.toNat_natCast]

/-- `fb_fillScr` stores four bytes at the end of every row it reaches. -/
theorem fillScr_inside_iff {fb : DevFb} (h : Geometry fb) (hsize : fb.screensize < 2 ^ 32)
    (hx : 0 < fb.vinfo.xres.toNat) :
    (∀ r g b, ∀ s ∈ fillScr fb r g b, s.Inside fb) ↔
      RowsEndInside fb (wrapInt fb.vinfo.yres.toNat).toNat 4 := by
  have hlen : pixelSize fb ≤ 4 := by
    rcases h.pixelSize_cases with ⟨he, _⟩ | ⟨he, _⟩
    · omega
    · omega
  have hcolumns := toNat_wrapInt h.xres_lt
  have hstores : ∀ r g b, (∀ s ∈ fillScr fb r g b, s.Inside fb) ↔
      ∀ y < (wrapInt fb.vinfo.yres.toNat).toNat, ∀ x < fb.vinfo.xres.toNat,
        locate fb x y + 4 ≤ fb.screensize := by
    intro r g b
    simp only [fillScr, hcolumns, List.forall_mem_flatMap, List.mem_range,
      storeBytes_inside_iff (List.cons_ne_nil _ _), List.length_cons, List.length_nil]
  simp only [hstores, row_inside_iff hsize hlen hx, forall_const, RowsEndInside]

/-- The screens on which nothing is written outside: nothing is visible, or all rows end inside
the mapping. -/
def FitsRows (fb : DevFb) : Prop :=
  fb.vinfo.xres = 0 ∨
    RowsEndInside fb (min fb.vinfo.yres.toNat (2 ^ 31)) (pixelSize fb) ∧
      RowsEndInside fb (wrapInt fb.vinfo.yres.toNat).toNat 4

theorem inside_iff_fitsRows {fb : DevFb} (h : Geometry fb) (hsize : fb.screensize < 2 ^ 32) :
    Inside fb ↔ FitsRows fb := by
  unfold FitsRows
  by_cases hx : fb.vinfo.xres = 0
  · have hempty : fb.vinfo.xres.toNat = 0 := by
      rw [hx]
      rfl
    have hpixel : ∀ x y, IsInt x → IsInt y → ∀ r g b a,
        ∀ s ∈ drawPixelwithAlpha fb x y r g b a, s.Inside fb := by
      intro x y hx' hy' r g b a
      have hcheck : ¬ checkPx fb x y = true := by
        rw [checkPx_iff fb hx' hy']
        rintro ⟨m, n, _, _, _, _, hm, _⟩
        omega
      rw [drawPixelwithAlpha, if_neg hcheck]
      exact List.forall_mem_nil _
    have hfill : ∀ r g b, ∀ s ∈ fillScr fb r g b, s.Inside fb := by
      intro r g b s hs
      simp [fillScr, hempty, wrapInt] at hs
    exact iff_of_true (inside_of_pixels hpixel hfill) (Or.inl hx)
  · have hpos := toNat_pos hx
    rw [or_iff_right hx, ← drawPixel_inside_iff h hsize hpos, ← fillScr_inside_iff h hsize hpos]
    exact ⟨fun hin => ⟨hin.alpha, hin.fill⟩, fun hin => inside_of_pixels hin.1 hin.2⟩

/-! ## Without a carry out of 32 bits -/

/-- The last row decides. -/
theorem last_row_iff {a offset stride rows len : Nat} (hrows : 0 < rows) (hlen : 0 < len) :
    (∀ y < rows, a + (y + offset) * stride + len ≤ stride * rows) ↔
      offset = 0 ∧ a + len ≤ stride := by
  obtain ⟨rows, rfl⟩ := Nat.exists_eq_succ_of_ne_zero hrows.ne'
  have hsplit : stride * (rows + 1) = rows * stride + stride := by ring
  constructor
  · intro h
    have hlast := h rows (Nat.lt_succ_self rows)
    rw [Nat.add_mul, hsplit] at hlast
    have hoffset : offset = 0 := by
      by_contra hne
      have := Nat.le_mul_of_pos_left stride (Nat.pos_of_ne_zero hne)
      omega
    rw [hoffset] at hlast ⊢
    omega
  · rintro ⟨rfl, hle⟩ y hy
    have := Nat.mul_le_mul_right stride (Nat.le_of_lt_succ hy)
    rw [hsplit, add_zero]
    omega

/-- The visible area begins in the first row, and four bytes fit behind its last column. -/
def FitsScreen (fb : DevFb) : Prop :=
  fb.vinfo.xres = 0 ∨ fb.vinfo.yres = 0 ∨
    fb.vinfo.yoffset = 0 ∧ (fb.vinfo.bitsPerPixel = 32 ∨
      2 * (fb.vinfo.xoffset.toNat + fb.vinfo.xres.toNat + 1) ≤ fb.lineLength.toNat)

section

variable {fb : DevFb} (h : Geometry fb)
  (hsize : fb.screensize = fb.lineLength.toNat * fb.vinfo.yres.toNat)
  (hwrap : fb.lineLength.toNat * fb.vinfo.yresVirtual.toNat < 2 ^ 32)

include h hsize hwrap

theorem rowsEndInside_iff {len : Nat} (hlen : 0 < len) (hx : 0 < fb.vinfo.xres.toNat)
    (hy : 0 < fb.vinfo.yres.toNat) :
    RowsEndInside fb fb.vinfo.yres.toNat len ↔
      fb.vinfo.yoffset = 0 ∧
        fb.vinfo.xoffset.toNat * pixelSize fb + (fb.vinfo.xres.toNat - 1) * pixelSize fb + len ≤
          fb.lineLength.toNat := by
  rw [← toNat_eq_zero_iff, ← last_row_iff hy hlen, RowsEndInside, hsize]
  have hcolumns := Nat.mul_le_mul_right (pixelSize fb) h.columns
  have hvirtual := Nat.mul_le_mul_left fb.lineLength.toNat h.rows
  have hstride := h.stride
  have hpixel := Nat.mul_pos hx h.pixelSize_pos
  rw [Nat.add_mul] at hcolumns
  have hstart : ∀ y < fb.vinfo.yres.toNat, fb.vinfo.xoffset.toNat * pixelSize fb +
      (y + fb.vinfo.yoffset.toNat) * fb.lineLength.toNat < 2 ^ 32 := by
    intro y hy
    have hrow : fb.lineLength.toNat * (y + fb.vinfo.yoffset.toNat + 1) ≤
        fb.lineLength.toNat * (fb.vinfo.yoffset.toNat + fb.vinfo.yres.toNat) :=
      Nat.mul_le_mul_left _ (by omega)
    rw [Nat.mul_succ, Nat.mul_comm] at hrow
    omega
  apply forall₂_congr
  intro y hy
  rw [Nat.mod_eq_of_lt (hstart y hy)]
  omega

/-- Where 32 bits are enough, the rows end inside only on these screens. -/
theorem fitsRows_iff_fitsScreen : FitsRows fb ↔ FitsScreen fb := by
  unfold FitsRows FitsScreen
  by_cases hx : fb.vinfo.xres = 0
  · exact iff_of_true (Or.inl hx) (Or.inl hx)
  by_cases hy : fb.vinfo.yres = 0
  · refine iff_of_true (Or.inr ?_) (Or.inr (Or.inl hy))
    rw [hy]
    constructor
    · intro y hlt
      simp at hlt
    · intro y hlt
      simp [wrapInt] at hlt
  have hxpos := toNat_pos hx
  have hypos := toNat_pos hy
  have hcolumns := h.columns
  have hstride := h.stride
  have hline : 2 ≤ fb.lineLength.toNat := by
    rcases h.pixelSize_cases with ⟨he, _⟩ | ⟨he, _⟩
    · rw [he] at hstride
      omega
    · rw [he] at hstride
      omega
  have hrows : fb.vinfo.yres.toNat < 2 ^ 31 := by
    have hle := Nat.mul_le_mul hline (Nat.le_of_add_left_le h.rows)
    omega
  have hpixel := h.pixelSize_pos
  rw [or_iff_right hx, or_iff_right hx, or_iff_right hy, Nat.min_eq_left hrows.le,
    toNat_wrapInt hrows, rowsEndInside_iff h hsize hwrap hpixel hxpos hypos,
    rowsEndInside_iff h hsize hwrap (by decide) hxpos hypos, ← and_and_left]
  apply and_congr_right
  intro _
  rcases h.pixelSize_cases with ⟨he, hd⟩ | ⟨he, hd⟩
  · rw [he] at hstride ⊢
    rw [hd, or_iff_right (by decide)]
    omega
  · rw [he] at hstride ⊢
    rw [hd]
    omega

end

/-! ## The screens -/

/-- **The mapping.** On a screen the driver reports, all that is drawn stays inside the mapping
`fb_init` made if all rows end inside it, and only then. Where 32 bits are enough for its size,
these are the screens whose visible area begins in the first row and that leave four bytes for
the last pixel of a row. -/
theorem inside_iff {d : Driver} {fb : DevFb} (hinit : init d = .ok fb) (h : Geometry fb) :
    (Inside fb ↔ FitsRows fb) ∧
      (fb.lineLength.toNat * fb.vinfo.yresVirtual.toNat < 2 ^ 32 →
        (Inside fb ↔ FitsScreen fb)) := by
  have hsize := init_screensize hinit
  rw [UInt32.toNat_mul] at hsize
  have hiff := inside_iff_fitsRows h (by omega)
  refine ⟨hiff, ?_⟩
  intro hwrap
  have hle := Nat.mul_le_mul_left fb.lineLength.toNat (Nat.le_of_add_left_le h.rows)
  rw [Nat.mod_eq_of_lt (by omega)] at hsize
  rw [hiff, fitsRows_iff_fitsScreen h hsize hwrap]

/-- A device that takes every setting. -/
def obligingDriver (bitsPerPixel lineLength : UInt32) : Driver where
  opened := true
  finfo := some lineLength
  vinfo := some ⟨1920, 1080, 1920, 1080, 0, 0, bitsPerPixel⟩
  put := some
  mmap := fun _ => true

/-- The screen of that device. -/
def plainScreen (bitsPerPixel lineLength : UInt32) : DevFb where
  vinfo := ⟨1920, 1080, 1920, 1080, 0, 0, bitsPerPixel⟩
  lineLength := lineLength
  screensize := (lineLength * 1080).toNat

theorem init_obligingDriver (bitsPerPixel lineLength : UInt32) :
    init (obligingDriver bitsPerPixel lineLength) = .ok (plainScreen bitsPerPixel lineLength) :=
  rfl

/-- With four bytes for a pixel all that is drawn stays inside. -/
theorem inside_true_color : Inside (plainScreen 32 7680) := by
  have hgeometry : Geometry (plainScreen 32 7680) :=
    ⟨Or.inr rfl, by decide, by decide, by decide⟩
  refine ((inside_iff (init_obligingDriver 32 7680) hgeometry).2 (by decide)).mpr ?_
  exact Or.inr (Or.inr ⟨rfl, Or.inl rfl⟩)

/-- With two bytes for a pixel and no room at the end of a row, `fb_fillScr` stores two bytes
behind the mapping. -/
theorem fillScr_outside :
    ¬ ∀ (d : Driver) (fb : DevFb), init d = .ok fb → Geometry fb → Inside fb := by
  intro hall
  have hgeometry : Geometry (plainScreen 16 3840) :=
    ⟨Or.inl rfl, by decide, by decide, by decide⟩
  have hin := hall _ _ (init_obligingDriver 16 3840) hgeometry
  have hrows := (fillScr_inside_iff hgeometry (by decide) (by decide)).mp hin.fill
  exact absurd (hrows 1079 (by decide)) (by decide)

/-! ## Boxes -/

/-- The outline of a box, as `fb_drawBox` draws it. -/
def boxPixels (px : Pixel) (w h : Int) : List Pixel :=
  ((List.range w.toNat).map fun (x : Nat) => ⟨px.x + x, px.y⟩) ++
    ((List.range' 1 (h - 2).toNat).flatMap fun (y : Nat) =>
      [⟨px.x, px.y + y⟩, ⟨px.x + (w - 1), px.y + y⟩]) ++
    (List.range w.toNat).map fun (x : Nat) => ⟨px.x + x, px.y + (h - 1)⟩

/-- `fb_drawBox`. -/
def drawBox (fb : DevFb) (px : Pixel) (w h : Int) (r g b : BitVec 8) : List Store :=
  drawPixels fb (boxPixels px w h) r g b

/-- `fb_drawBoxWidthAlpa`. -/
def drawBoxWidthAlpa (fb : DevFb) (px : Pixel) (w h : Int) (r g b a : BitVec 8) : List Store :=
  drawPixelswithAlpha fb (boxPixels px w h) r g b a

/-- The rows of a filled box. -/
def filledPixels (px : Pixel) (w h : Int) : List Pixel :=
  (List.range h.toNat).flatMap fun (y : Nat) =>
    (List.range w.toNat).map fun (x : Nat) => ⟨px.x + x, px.y + y⟩

/-- `fb_fillBox`. -/
def fillBox (fb : DevFb) (px : Pixel) (w h : Int) (r g b : BitVec 8) : List Store :=
  drawPixels fb (filledPixels px w h) r g b

theorem mem_filledPixels {px p : Pixel} {w h : Int} :
    p ∈ filledPixels px w h ↔
      px.x ≤ p.x ∧ p.x < px.x + w ∧ px.y ≤ p.y ∧ p.y < px.y + h := by
  simp only [filledPixels, List.mem_flatMap, List.mem_map, List.mem_range]
  constructor
  · rintro ⟨y, hy, x, hx, rfl⟩
    dsimp only
    omega
  · rintro ⟨hx, hxw, hy, hyh⟩
    refine ⟨(p.y - px.y).toNat, by omega, (p.x - px.x).toNat, by omega, ?_⟩
    rw [Int.toNat_of_nonneg (by omega), Int.toNat_of_nonneg (by omega), add_sub_cancel,
      add_sub_cancel]

/-- The outline of a box belongs to the box. -/
theorem boxPixels_subset {px : Pixel} {w h : Int} (hw : 1 ≤ w) (hh : 1 ≤ h) :
    boxPixels px w h ⊆ filledPixels px w h := by
  intro p hp
  rw [mem_filledPixels]
  simp only [boxPixels, List.mem_append, List.mem_flatMap, List.mem_map, List.mem_range,
    List.mem_range'_1, List.mem_pair] at hp
  rcases hp with (⟨x, hx, rfl⟩ | ⟨y, hy, rfl | rfl⟩) | ⟨x, hx, rfl⟩
  all_goals
    dsimp only
    omega

namespace Inside

variable {fb : DevFb} (hin : Inside fb)

include hin

/-- A line between points of type `int`. -/
theorem line {p q : Pixel} (hp : IsInt p.x ∧ IsInt p.y) (hq : IsInt q.x ∧ IsInt q.y)
    (r g b : BitVec 8) : ∀ s ∈ drawPixels fb (drawLine p q) r g b, s.Inside fb := by
  apply hin.routine
  intro t ht
  obtain ⟨hx, hy⟩ := (drawLine_digital p q).box t ht
  unfold IsInt at *
  omega

/-- Boxes whose corners are of type `int`. -/
theorem boxes {px : Pixel} {w h : Int} (hw : 1 ≤ w) (hh : 1 ≤ h)
    (hcorner : IsInt px.x ∧ IsInt px.y) (hcorner' : IsInt (px.x + w) ∧ IsInt (px.y + h))
    (r g b a : BitVec 8) :
    (∀ s ∈ drawBox fb px w h r g b, s.Inside fb) ∧
      (∀ s ∈ drawBoxWidthAlpa fb px w h r g b a, s.Inside fb) ∧
      ∀ s ∈ fillBox fb px w h r g b, s.Inside fb := by
  have hfilled : ∀ p ∈ filledPixels px w h, IsInt p.x ∧ IsInt p.y := by
    intro p hp
    rw [mem_filledPixels] at hp
    unfold IsInt at *
    omega
  have hbox : ∀ p ∈ boxPixels px w h, IsInt p.x ∧ IsInt p.y :=
    fun p hp => hfilled p (boxPixels_subset hw hh hp)
  exact ⟨hin.routine _ hbox r g b, hin.routineAlpha _ hbox r g b a,
    hin.routine _ hfilled r g b⟩

end Inside

end BallGame.Shared
