import BallGame.Client.ScreenBall
import BallGame.Library.Binary32

/-!
# From the arena to the pixels

`logic_to_pixel` divides by 1000, multiplies by the number of pixels and cuts off the fraction,
with a rounding behind either operation. On screens with up to 4096 pixels in a direction the two
roundings together are too small to reach over the next thousandth.

* `logicToPixel_near`: the pixel is the scaled place without its fraction, or one less if the place
  has no fraction;
* `logicToPixel_le`: a radius of at most half the arena is never scaled to more than the screen;
* `logicToPixel_accurate`: moreover a place to the right is never drawn further to the left.
-/

namespace BallGame.Client

open Library

/-! ## Places -/

/-- The value in front of the cut. -/
def scaled (n size : Int) : ℚ := nearest (nearest ((n : ℚ) / 1000) * size)

theorem nearest_thousandth {n : Int} (hn : 0 ≤ n ∧ n ≤ 1000) :
    0 ≤ nearest ((n : ℚ) / 1000) ∧ nearest ((n : ℚ) / 1000) ≤ 1 ∧
      |nearest ((n : ℚ) / 1000) - n / 1000| ≤ 2 ^ (-24 : ℤ) := by
  have hlow : (0 : ℚ) ≤ n := by exact_mod_cast hn.1
  have hhigh : (n : ℚ) ≤ 1000 := by exact_mod_cast hn.2
  have hquot : (n : ℚ) / 1000 ≤ 1 := by linarith
  refine ⟨nearest_nonneg (by positivity), ?_, ?_⟩
  · calc nearest ((n : ℚ) / 1000)
        ≤ nearest ((1 : ℤ) : ℚ) := nearest_mono (by push_cast; exact hquot)
      _ = 1 := by
        rw [nearest_of_abs_le (by norm_num)]
        norm_num
  · apply abs_nearest_sub_le (m := 1) (by norm_num)
    rw [abs_of_nonneg (by positivity)]
    norm_num
    linarith

theorem scaled_near {n size : Int} (hn : 0 ≤ n ∧ n ≤ 1000) (hsize : 0 ≤ size ∧ size ≤ 4096) :
    0 ≤ scaled n size ∧ scaled n size ≤ 4096 ∧
      |scaled n size - n * size / 1000| ≤ 2 ^ (-11 : ℤ) := by
  obtain ⟨hlow, hhigh, hnear⟩ := nearest_thousandth hn
  have hs : (0 : ℚ) ≤ size := by exact_mod_cast hsize.1
  have hs' : (size : ℚ) ≤ 4096 := by exact_mod_cast hsize.2
  have hprod : nearest ((n : ℚ) / 1000) * size ≤ 4096 := by
    calc nearest ((n : ℚ) / 1000) * size ≤ 1 * size := mul_le_mul_of_nonneg_right hhigh hs
      _ ≤ 4096 := by linarith
  have hpos : 0 ≤ nearest ((n : ℚ) / 1000) * size := mul_nonneg hlow hs
  refine ⟨nearest_nonneg hpos, ?_, ?_⟩
  · calc scaled n size ≤ nearest ((4096 : ℤ) : ℚ) := nearest_mono (by push_cast; exact hprod)
      _ = 4096 := by
        rw [nearest_of_abs_le (by norm_num)]
        norm_num
  · have hround : |scaled n size - nearest ((n : ℚ) / 1000) * size| ≤ 2 ^ (-12 : ℤ) := by
      apply abs_nearest_sub_le (m := 13) (by norm_num)
      rw [abs_of_nonneg hpos]
      exact hprod.trans_lt (by norm_num)
    have hquot : |nearest ((n : ℚ) / 1000) * size - n * size / 1000| ≤ 2 ^ (-12 : ℤ) := by
      calc |nearest ((n : ℚ) / 1000) * size - n * size / 1000| =
            |nearest ((n : ℚ) / 1000) - n / 1000| * size := by
            rw [show nearest ((n : ℚ) / 1000) * size - n * size / 1000 =
              (nearest ((n : ℚ) / 1000) - n / 1000) * size by ring, abs_mul, abs_of_nonneg hs]
        _ ≤ 2 ^ (-24 : ℤ) * 4096 := mul_le_mul hnear hs' hs (two_zpow_pos _).le
        _ = 2 ^ (-12 : ℤ) := by norm_num
    calc |scaled n size - n * size / 1000| =
          |(scaled n size - nearest ((n : ℚ) / 1000) * size) +
            (nearest ((n : ℚ) / 1000) * size - n * size / 1000)| := by ring_nf
      _ ≤ 2 ^ (-12 : ℤ) + 2 ^ (-12 : ℤ) := (abs_add_le _ _).trans (add_le_add hround hquot)
      _ = 2 ^ (-11 : ℤ) := by norm_num

/-- The code computes it and cuts it off. -/
theorem logicToPixel_eq {x : Single} {n size : Int} (hx : x.IsWhole n) (hn : 0 ≤ n ∧ n ≤ 1000)
    (hsize : 0 ≤ size ∧ size ≤ 4096) : logicToPixel x size = some ⌊scaled n size⌋ := by
  obtain ⟨hlow, hhigh, _⟩ := nearest_thousandth hn
  obtain ⟨hpos, hle, _⟩ := scaled_near hn hsize
  obtain ⟨hsingle, hwhole⟩ := Single.ofInt_exact (n := size) (abs_le.mpr ⟨by omega, by omega⟩)
  obtain ⟨_, rfl⟩ := hx
  have hfirst : |nearest ((n : ℚ) / 1000)| < 2 ^ 128 := by
    rw [abs_of_nonneg hlow]
    exact hhigh.trans_lt (by norm_num)
  have hsecond : |scaled n size| < 2 ^ 128 := by
    rw [abs_of_nonneg hpos]
    exact hle.trans_lt (by norm_num)
  unfold scaled at hsecond
  have hfloor : ⌊scaled n size⌋ ≤ 4096 := by
    have : (⌊scaled n size⌋ : ℚ) ≤ 4096 := (Int.floor_le _).trans hle
    exact_mod_cast this
  have hint : IsInt ⌊scaled n size⌋ := by
    have := Int.floor_nonneg.mpr hpos
    unfold IsInt
    omega
  simp only [logicToPixel, hwhole, Single.divBy, Single.ofRat, dif_pos hfirst, Single.mul,
    dif_pos hsecond, Single.toInt]
  unfold scaled at *
  rw [if_pos hpos, if_pos hint]

/-- The pixel of a place. -/
theorem logicToPixel_near {x : Single} {n size : Int} (hx : x.IsWhole n) (hn : 0 ≤ n ∧ n ≤ 1000)
    (hsize : 0 ≤ size ∧ size ≤ 4096) :
    ∃ px, logicToPixel x size = some px ∧ 0 ≤ px ∧ px ≤ size ∧ 1000 * px ≤ n * size ∧
      n * size ≤ 1000 * (px + 1) := by
  obtain ⟨hpos, _, hnear⟩ := scaled_near hn hsize
  refine ⟨_, logicToPixel_eq hx hn hsize, Int.floor_nonneg.mpr hpos, ?_⟩
  rw [abs_le] at hnear
  have hsmall : (2 : ℚ) ^ (-11 : ℤ) < 1 / 1000 := by norm_num
  have hlow := Int.floor_le (scaled n size)
  have hhigh := Int.lt_floor_add_one (scaled n size)
  -- the bounds are integers, so that less than one decides
  have hbelow : 1000 * ⌊scaled n size⌋ < n * size + 1 := by
    have : (1000 : ℚ) * ⌊scaled n size⌋ < n * size + 1 := by linarith
    exact_mod_cast this
  have habove : n * size < 1000 * (⌊scaled n size⌋ + 1) + 1 := by
    have : (n : ℚ) * size < 1000 * (⌊scaled n size⌋ + 1) + 1 := by linarith
    exact_mod_cast this
  have hprod : n * size ≤ 1000 * size := Int.mul_le_mul_of_nonneg_right hn.2 hsize.1
  exact ⟨by omega, by omega, by omega⟩

/-! ## The scaled radius -/

/-- A rounded number that is converted to `int`. -/
theorem toInt_ofRat {q : ℚ} {n : Int} (h : (Single.ofRat q).toInt = some n) (hn : 0 < n) :
    (n : ℚ) ≤ nearest q := by
  unfold Single.ofRat at h
  split at h
  · simp only [Single.toInt, Option.ite_none_right_eq_some, Option.some.injEq] at h
    obtain ⟨_, rfl⟩ := h
    by_cases hnonneg : 0 ≤ nearest q
    · rw [if_pos hnonneg]
      exact Int.floor_le _
    · rw [if_neg hnonneg] at hn
      have hceil : ⌈nearest q⌉ ≤ 0 := Int.ceil_le.mpr (by push_cast; exact (not_le.mp hnonneg).le)
      omega
  · cases h

/-- Half of a rounded integer is not more than the integer. -/
theorem nearest_half_le {p : ℚ} (hp : 0 ≤ p) (hhalf : p ≤ 1 / 2) {m : Int} {n : Int}
    (hn : 0 < n) (h : (n : ℚ) ≤ nearest (p * nearest m)) : n ≤ m := by
  have hm : 0 < m := by
    by_contra hle
    have hneg : nearest (m : ℚ) ≤ nearest 0 := nearest_mono (by exact_mod_cast not_lt.mp hle)
    rw [nearest_zero] at hneg
    have hprod := nearest_mono (mul_nonpos_of_nonneg_of_nonpos hp hneg)
    rw [nearest_zero] at hprod
    have : (0 : ℚ) < n := by exact_mod_cast hn
    linarith
  obtain ⟨k, rfl⟩ := Int.eq_ofNat_of_zero_le hm.le
  have hlow : 2 ^ Nat.log 2 k ≤ k := Nat.pow_log_le_self 2 (by omega)
  have hhigh : k < 2 ^ (Nat.log 2 k + 1) := Nat.lt_pow_succ_log_self (by decide) k
  have hpow : ∀ j : Nat, nearest (2 ^ j : ℚ) = 2 ^ j := by
    intro j
    have := nearest_grid (k := 1) (e := j) (by norm_num) (by omega)
    simpa using this
  have hround : nearest (k : ℚ) ≤ 2 ^ (Nat.log 2 k + 1) := by
    rw [← hpow]
    exact nearest_mono (by exact_mod_cast hhigh.le)
  have hnonneg : 0 ≤ nearest (k : ℚ) := nearest_nonneg (Nat.cast_nonneg k)
  have hprod : p * nearest (k : ℚ) ≤ 2 ^ Nat.log 2 k := by
    calc p * nearest (k : ℚ) ≤ 1 / 2 * 2 ^ (Nat.log 2 k + 1) := by gcongr
      _ = 2 ^ Nat.log 2 k := by ring
  have hfinal := nearest_mono hprod
  rw [hpow] at hfinal
  have hle : (n : ℚ) ≤ k := by
    calc (n : ℚ) ≤ nearest (p * nearest ((k : Int) : ℚ)) := h
      _ ≤ 2 ^ Nat.log 2 k := by simpa using hfinal
      _ ≤ k := by exact_mod_cast hlow
  exact_mod_cast hle

theorem logicToPixel_le {r size px : Int} (hr : 0 ≤ r) (hr' : r ≤ 500)
    (h : logicToPixel (.ofInt r) size = some px) (hpx : 0 < px) : px ≤ size := by
  obtain ⟨hsingle, hr₀⟩ := Single.ofInt_exact (n := r) (abs_le.mpr ⟨by omega, by omega⟩)
  have hlow : 0 ≤ nearest ((r : ℚ) / 1000) := nearest_nonneg (by positivity)
  have hhigh : nearest ((r : ℚ) / 1000) ≤ 1 / 2 := by
    have hgrid := nearest_grid (k := 1) (e := -1) (by norm_num) (by norm_num)
    have hmono : nearest ((r : ℚ) / 1000) ≤ nearest (((1 : ℤ) : ℚ) * 2 ^ (-1 : ℤ)) := by
      apply nearest_mono
      have : (r : ℚ) ≤ 500 := by exact_mod_cast hr'
      norm_num
      linarith
    rw [hgrid] at hmono
    norm_num at hmono ⊢
    exact hmono
  have hfin : |nearest ((r : ℚ) / 1000)| < 2 ^ 128 := by
    rw [abs_of_nonneg hlow]
    exact hhigh.trans_lt (by norm_num)
  rw [logicToPixel, hr₀, Single.divBy, Single.ofRat, dif_pos hfin, Single.ofInt, Single.ofRat] at h
  split at h
  · exact nearest_half_le hlow hhigh hpx (toInt_ofRat h hpx)
  · simp only [Single.mul] at h
    split at h
    · cases h
    · cases h

/-! ## Accuracy -/

/-- **Accuracy.** On a screen with up to 4096 pixels in a direction, a place between 0 and 1000 is
drawn at the pixel that exact arithmetic gives, unless it falls on the border of two pixels, where
it may be drawn one pixel before. The order of places is kept. -/
theorem logicToPixel_accurate {size : Int} (hsize : 0 ≤ size ∧ size ≤ 4096) {x y : Single}
    {n k : Int} (hx : x.IsWhole n) (hy : y.IsWhole k) (hn : 0 ≤ n) (hk : k ≤ 1000)
    (hle : n ≤ k) :
    ∃ px py, logicToPixel x size = some px ∧ logicToPixel y size = some py ∧ px ≤ py ∧
      (px = n * size / 1000 ∨ 1000 ∣ n * size ∧ px = n * size / 1000 - 1) := by
  obtain ⟨px, hpx, _, _, hlow, hhigh⟩ := logicToPixel_near hx ⟨hn, by omega⟩ hsize
  have hx' := logicToPixel_eq hx ⟨hn, by omega⟩ hsize
  have hy' := logicToPixel_eq hy ⟨by omega, hk⟩ hsize
  obtain rfl := Option.some.inj (hpx.symm.trans hx')
  refine ⟨_, _, hx', hy', ?_, by omega⟩
  apply Int.floor_le_floor
  have hs : (0 : ℚ) ≤ size := by exact_mod_cast hsize.1
  have hquot : (n : ℚ) / 1000 ≤ k / 1000 := by
    have : (n : ℚ) ≤ k := by exact_mod_cast hle
    linarith
  exact nearest_mono (mul_le_mul_of_nonneg_right (nearest_mono hquot) hs)

/-- On a screen of 1920 columns. -/
theorem logicToPixel_accurate_middle : ∃ px py, logicToPixel (.ofInt 333) 1920 = some px ∧
    logicToPixel (.ofInt 334) 1920 = some py ∧ px ≤ py ∧ px = 639 := by
  have hsize : (0 : Int) ≤ 1920 ∧ (1920 : Int) ≤ 4096 := by decide
  obtain ⟨px, py, hpx, hpy, hle, hexact⟩ := logicToPixel_accurate hsize
    (Single.ofInt_exact (n := 333) (by decide)) (Single.ofInt_exact (n := 334) (by decide))
    (by decide) (by decide) (by decide)
  exact ⟨px, py, hpx, hpy, hle, by omega⟩

end BallGame.Client
