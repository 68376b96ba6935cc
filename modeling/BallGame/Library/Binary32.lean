import BallGame.Library.Memory
import Mathlib.Algebra.Order.Floor.Semiring
import Mathlib.Data.Int.Log
import Mathlib.Data.Rat.Floor
import Mathlib.Tactic.FieldSimp
import Mathlib.Tactic.Linarith
import Mathlib.Tactic.NormNum
import Mathlib.Tactic.Positivity
import Mathlib.Tactic.Ring

/-!
# Single precision floating point

The `float` of C: binary32 with rounding to nearest, ties to even. A finite value is a
rational that rounding leaves alone, carried with the proof of this; every operation is the
exact one on rationals followed by `nearest`. The two zeros are not distinguished.

* `nearest_grid`, `nearest_nearest`: a multiple of a power of two with at most 24
  significant bits is rounded to itself, and every rounding is one.
* `nearest_intCast`: an integer is rounded to an integer.
* `abs_nearest_le`: a magnitude less than half a place above a power of two is rounded to
  at most this power.
-/

namespace BallGame.Library

/-! ## Rounding -/

/-- The exponent of the last place of the values around `q`. -/
def lastPlace (q : ℚ) : ℤ := max (Int.log 2 |q| - 23) (-149)

def roundHalfEven (q : ℚ) : ℤ :=
  if q - ⌊q⌋ < 1 / 2 then ⌊q⌋
  else if 1 / 2 < q - ⌊q⌋ then ⌊q⌋ + 1
  else if ⌊q⌋ % 2 = 0 then ⌊q⌋ else ⌊q⌋ + 1

/-- The nearest value of single precision, its range of exponents not bounded above. -/
def nearest (q : ℚ) : ℚ := roundHalfEven (q / 2 ^ lastPlace q) * 2 ^ lastPlace q

theorem roundHalfEven_intCast (n : ℤ) : roundHalfEven n = n := by
  simp [roundHalfEven]

theorem abs_roundHalfEven_sub (q : ℚ) : |roundHalfEven q - q| ≤ 1 / 2 := by
  have hle := Int.floor_le q
  have hlt := Int.lt_floor_add_one q
  unfold roundHalfEven
  split
  · rw [abs_le]
    constructor <;> linarith
  · split
    · push_cast
      rw [abs_le]
      constructor <;> linarith
    · have heq : q - ⌊q⌋ = 1 / 2 := by linarith
      split <;> · push_cast; rw [abs_le]; constructor <;> linarith

/-- Less than half above an integer bound, rounding stays within the bound. -/
theorem abs_roundHalfEven_le {q : ℚ} {n : ℤ} (h : |q| < n + 1 / 2) : |roundHalfEven q| ≤ n := by
  have hr := abs_roundHalfEven_sub q
  have hlt : (|roundHalfEven q| : ℚ) < n + 1 := by
    calc |(roundHalfEven q : ℚ)| = |(roundHalfEven q - q) + q| := by ring_nf
      _ ≤ |roundHalfEven q - q| + |q| := abs_add_le _ _
      _ < n + 1 := by linarith
  have hint : |roundHalfEven q| < n + 1 := by exact_mod_cast hlt
  omega

theorem lastPlace_ge (q : ℚ) : -149 ≤ lastPlace q := le_max_right _ _

/-- A value has at most 24 significant bits in front of its last place. -/
theorem abs_lt_lastPlace (q : ℚ) : |q| < 2 ^ (24 : ℤ) * 2 ^ lastPlace q := by
  have h := Int.lt_zpow_succ_log_self (b := 2) (by norm_num) |q|
  calc |q| < (2 : ℚ) ^ (Int.log 2 |q| + 1) := by simpa using h
    _ ≤ 2 ^ (24 + lastPlace q) := by
        apply zpow_le_zpow_right₀ (by norm_num)
        have := le_max_left (Int.log 2 |q| - 23) (-149)
        unfold lastPlace
        omega
    _ = 2 ^ (24 : ℤ) * 2 ^ lastPlace q := zpow_add₀ (by norm_num) _ _

theorem lastPlace_le_of_lt {q : ℚ} {m : ℤ} (hq : q ≠ 0) (hm : -125 ≤ m) (h : |q| < 2 ^ m) :
    lastPlace q ≤ m - 24 := by
  have hlog := (Int.lt_zpow_iff_log_lt (b := 2) (by norm_num) (abs_pos.mpr hq) (x := m)).mp
    (by simpa using h)
  unfold lastPlace
  apply max_le <;> omega

theorem le_lastPlace_of_le {q : ℚ} {m : ℤ} (hq : q ≠ 0) (h : 2 ^ m ≤ |q|) :
    m - 23 ≤ lastPlace q := by
  have hlog := (Int.zpow_le_iff_le_log (b := 2) (by norm_num) (abs_pos.mpr hq) (x := m)).mp
    (by simpa using h)
  unfold lastPlace
  exact le_max_of_le_left (by omega)

theorem two_zpow_pos (e : ℤ) : (0 : ℚ) < 2 ^ e := zpow_pos (by norm_num) e

theorem two_zpow_ne (e : ℤ) : (2 : ℚ) ^ e ≠ 0 := (two_zpow_pos e).ne'

/-- A power of two with an exponent that is not negative is an integer. -/
theorem two_zpow_intCast {e : ℤ} (he : 0 ≤ e) : ((2 ^ e.toNat : ℤ) : ℚ) = 2 ^ e := by
  lift e to Nat using he
  simp

/-- A multiple of a place that is not below the last one is rounded to itself. -/
theorem nearest_of_le {k e : ℤ} (h : lastPlace (k * 2 ^ e) ≤ e) :
    nearest (k * 2 ^ e) = k * 2 ^ e := by
  have hquot : (k * 2 ^ e : ℚ) / 2 ^ lastPlace (k * 2 ^ e) =
      ((k * 2 ^ (e - lastPlace (k * 2 ^ e)).toNat : ℤ) : ℚ) := by
    have hpow : (2 : ℚ) ^ e / 2 ^ lastPlace (k * 2 ^ e) = 2 ^ (e - lastPlace (k * 2 ^ e)) :=
      (zpow_sub₀ (by norm_num) _ _).symm
    rw [mul_div_assoc, hpow, Int.cast_mul, two_zpow_intCast (by omega)]
  rw [nearest, hquot, roundHalfEven_intCast, ← hquot, div_mul_cancel₀ _ (two_zpow_ne _)]

theorem nearest_zero : nearest 0 = 0 := by
  simp [nearest, roundHalfEven]

/-- A value with at most 24 significant bits is rounded to itself. -/
theorem nearest_grid {k e : ℤ} (hk : |k| ≤ 2 ^ 24) (he : -149 ≤ e) :
    nearest (k * 2 ^ e) = k * 2 ^ e := by
  by_cases h0 : k = 0
  · simp [h0, nearest_zero]
  have hne : (k * 2 ^ e : ℚ) ≠ 0 := mul_ne_zero (by exact_mod_cast h0) (two_zpow_ne _)
  have habs : |(k * 2 ^ e : ℚ)| = |k| * 2 ^ e := by
    rw [abs_mul, abs_of_pos (two_zpow_pos e), Int.cast_abs]
  rcases lt_or_eq_of_le hk with hlt | heq
  · apply nearest_of_le
    have hbound : |(k * 2 ^ e : ℚ)| < 2 ^ (24 + e) := by
      rw [habs, zpow_add₀ (by norm_num)]
      exact mul_lt_mul_of_pos_right (by exact_mod_cast hlt) (two_zpow_pos e)
    have := lastPlace_le_of_lt hne (by omega) hbound
    omega
  · -- the carry to the next power of two frees the last bit
    have hbound : |(k * 2 ^ e : ℚ)| < 2 ^ (25 + e) := by
      rw [habs, heq, zpow_add₀ (by norm_num)]
      exact mul_lt_mul_of_pos_right (by norm_num) (two_zpow_pos e)
    have hplace := lastPlace_le_of_lt hne (by omega) hbound
    obtain ⟨j, rfl⟩ : ∃ j, k = j * 2 := by
      refine ⟨k / 2, ?_⟩
      rcases abs_eq (by norm_num : (0 : ℤ) ≤ 2 ^ 24) |>.mp heq with rfl | rfl <;> norm_num
    have hval : (((j * 2 : ℤ) : ℚ) * 2 ^ e) = j * 2 ^ (e + 1) := by
      rw [zpow_add₀ (by norm_num)]
      push_cast
      ring
    rw [hval] at hplace ⊢
    exact nearest_of_le (by omega)

/-- Every rounding is a multiple of its last place with at most 24 significant bits. -/
theorem nearest_eq_grid (q : ℚ) :
    ∃ k : ℤ, |k| ≤ 2 ^ 24 ∧ nearest q = k * 2 ^ lastPlace q := by
  refine ⟨roundHalfEven (q / 2 ^ lastPlace q), ?_, rfl⟩
  apply abs_roundHalfEven_le
  rw [abs_div, abs_of_pos (two_zpow_pos _), div_lt_iff₀ (two_zpow_pos _)]
  calc |q| < 2 ^ (24 : ℤ) * 2 ^ lastPlace q := abs_lt_lastPlace q
    _ ≤ _ := by
        apply mul_le_mul_of_nonneg_right _ (two_zpow_pos _).le
        norm_num

theorem nearest_nearest (q : ℚ) : nearest (nearest q) = nearest q := by
  obtain ⟨k, hk, he⟩ := nearest_eq_grid q
  rw [he]
  exact nearest_grid hk (lastPlace_ge q)

/-- An integer with at most 24 bits is rounded to itself. -/
theorem nearest_of_abs_le {n : ℤ} (hn : |n| ≤ 2 ^ 24) : nearest n = n := by
  simpa using nearest_grid (e := 0) hn (by norm_num)

/-- An integer is rounded to an integer. -/
theorem nearest_intCast (n : ℤ) : ∃ m : ℤ, nearest n = m := by
  rcases le_or_gt 0 (lastPlace n) with hle | hlt
  · obtain ⟨k, _, he⟩ := nearest_eq_grid (n : ℚ)
    exact ⟨k * 2 ^ (lastPlace n).toNat, by rw [he, Int.cast_mul, two_zpow_intCast hle]⟩
  · have habs : |(n : ℚ)| < 2 ^ (24 : ℤ) := by
      calc |(n : ℚ)| < 2 ^ (24 : ℤ) * 2 ^ lastPlace n := abs_lt_lastPlace _
        _ ≤ 2 ^ (24 : ℤ) * 2 ^ (0 : ℤ) := by
            apply mul_le_mul_of_nonneg_left _ (two_zpow_pos _).le
            exact zpow_le_zpow_right₀ (by norm_num) hlt.le
        _ = 2 ^ (24 : ℤ) := by simp
    have hint : |n| < 2 ^ 24 := by exact_mod_cast habs
    exact ⟨n, nearest_of_abs_le hint.le⟩

/-- A magnitude less than half a place above a power of two is rounded to at most it. -/
theorem abs_nearest_le {q : ℚ} {m : ℤ} (hm : -126 ≤ m) (h : |q| < 2 ^ m + 2 ^ (m - 24)) :
    |nearest q| ≤ 2 ^ m := by
  by_cases h0 : q = 0
  · rw [h0, nearest_zero, abs_zero]
    exact (two_zpow_pos m).le
  have hlt : |q| < 2 ^ (m + 1) := by
    have hhalf : (2 : ℚ) ^ (m - 24) ≤ 2 ^ m := zpow_le_zpow_right₀ (by norm_num) (by omega)
    rw [zpow_add_one₀ (by norm_num)]
    linarith
  have hplace := lastPlace_le_of_lt h0 (by omega) hlt
  have hscaled : |q / 2 ^ lastPlace q| < ((2 ^ (m - lastPlace q).toNat : ℤ) : ℚ) + 1 / 2 := by
    rw [two_zpow_intCast (by omega), abs_div, abs_of_pos (two_zpow_pos _),
      div_lt_iff₀ (two_zpow_pos _), add_mul, ← zpow_add₀ (by norm_num), sub_add_cancel]
    rcases lt_or_ge |q| (2 ^ m) with hlt' | hge
    · have := two_zpow_pos (lastPlace q)
      linarith
    · -- here the last place is that of the power itself
      have hlow := le_lastPlace_of_le h0 hge
      have heq : lastPlace q = (m - 24) + 1 := by omega
      rw [heq, zpow_add_one₀ (by norm_num)]
      linarith
  have hk := abs_roundHalfEven_le hscaled
  rw [nearest, abs_mul, abs_of_pos (two_zpow_pos _)]
  calc |(roundHalfEven (q / 2 ^ lastPlace q) : ℚ)| * 2 ^ lastPlace q
      ≤ 2 ^ (m - lastPlace q) * 2 ^ lastPlace q := by
        apply mul_le_mul_of_nonneg_right _ (two_zpow_pos _).le
        have hpow := two_zpow_intCast (show 0 ≤ m - lastPlace q by omega)
        rw [← hpow]
        exact_mod_cast hk
    _ = 2 ^ m := by rw [← zpow_add₀ (by norm_num), sub_add_cancel]

/-! ### Rounding is monotone -/

theorem floor_le_roundHalfEven (q : ℚ) : ⌊q⌋ ≤ roundHalfEven q ∧ roundHalfEven q ≤ ⌊q⌋ + 1 := by
  unfold roundHalfEven
  split
  · omega
  · split
    · omega
    · split <;> omega

theorem roundHalfEven_mono {p q : ℚ} (h : p ≤ q) : roundHalfEven p ≤ roundHalfEven q := by
  have hp := floor_le_roundHalfEven p
  have hq := floor_le_roundHalfEven q
  rcases lt_or_eq_of_le (Int.floor_le_floor h) with hlt | heq
  · omega
  · -- on one floor the distance to it decides
    have hdiff : p - ⌊p⌋ ≤ q - ⌊q⌋ := by
      rw [heq]
      linarith
    unfold roundHalfEven
    rw [heq] at hdiff ⊢
    by_cases hpl : p - ⌊q⌋ < 1 / 2
    · rw [if_pos hpl]
      split
      · omega
      · split
        · omega
        · split <;> omega
    · have hql : ¬ q - ⌊q⌋ < 1 / 2 := fun hlt => hpl (lt_of_le_of_lt hdiff hlt)
      rw [if_neg hpl, if_neg hql]
      by_cases hpu : 1 / 2 < p - ⌊q⌋
      · rw [if_pos hpu, if_pos (lt_of_lt_of_le hpu hdiff)]
      · rw [if_neg hpu]
        split <;> split <;> omega

theorem roundHalfEven_neg (q : ℚ) : roundHalfEven (-q) = -roundHalfEven q := by
  have hle := Int.floor_le q
  have hlt := Int.lt_floor_add_one q
  rcases eq_or_lt_of_le hle with heq | hpos
  · rw [← heq, ← Int.cast_neg, roundHalfEven_intCast, roundHalfEven_intCast]
  · have hfloor : ⌊-q⌋ = -⌊q⌋ - 1 := by
      rw [Int.floor_eq_iff]
      push_cast
      constructor <;> linarith
    have hparity : (-⌊q⌋ - 1) % 2 = 0 ↔ ¬ ⌊q⌋ % 2 = 0 := by omega
    unfold roundHalfEven
    rw [hfloor]
    push_cast
    rcases lt_trichotomy (q - ⌊q⌋) (1 / 2) with h | h | h
    · rw [if_neg (by linarith), if_pos (by linarith), if_pos h]
      omega
    · have hbelow : ¬ q - ⌊q⌋ < 1 / 2 := by linarith
      have habove : ¬ 1 / 2 < q - ⌊q⌋ := by linarith
      rw [if_neg (by linarith), if_neg (by linarith), if_neg hbelow, if_neg habove]
      by_cases heven : ⌊q⌋ % 2 = 0
      · rw [if_neg (by omega), if_pos heven]
        omega
      · rw [if_pos (by omega), if_neg heven]
        omega
    · rw [if_pos (by linarith), if_neg (by linarith), if_pos h]
      omega

theorem lastPlace_neg (q : ℚ) : lastPlace (-q) = lastPlace q := by
  rw [lastPlace, lastPlace, abs_neg]

theorem nearest_neg (q : ℚ) : nearest (-q) = -nearest q := by
  rw [nearest, lastPlace_neg, neg_div, roundHalfEven_neg, Int.cast_neg, neg_mul, nearest]

theorem nearest_nonneg {q : ℚ} (h : 0 ≤ q) : 0 ≤ nearest q := by
  have hquot : (0 : ℤ) ≤ roundHalfEven (q / 2 ^ lastPlace q) := by
    have hmono := roundHalfEven_mono (div_nonneg h (two_zpow_pos (lastPlace q)).le)
    rwa [← Int.cast_zero, roundHalfEven_intCast] at hmono
  exact mul_nonneg (by exact_mod_cast hquot) (two_zpow_pos _).le

theorem lastPlace_mono {p q : ℚ} (hp : 0 < p) (h : p ≤ q) : lastPlace p ≤ lastPlace q := by
  unfold lastPlace
  rw [abs_of_pos hp, abs_of_pos (hp.trans_le h)]
  have hlog := Int.log_mono_right (b := 2) hp h
  omega

theorem nearest_mono_of_pos {p q : ℚ} (hp : 0 < p) (h : p ≤ q) : nearest p ≤ nearest q := by
  rcases lt_or_eq_of_le (lastPlace_mono hp h) with hlt | heq
  · -- a power of two lies between the two values
    have hq := hp.trans_le h
    have hlow := lastPlace_ge p
    have hbelow : |p| < 2 ^ (lastPlace q + 23) := by
      calc |p| < 2 ^ (24 : ℤ) * 2 ^ lastPlace p := abs_lt_lastPlace p
        _ = 2 ^ (24 + lastPlace p) := (zpow_add₀ (by norm_num) _ _).symm
        _ ≤ 2 ^ (lastPlace q + 23) := zpow_le_zpow_right₀ (by norm_num) (by omega)
    have hpower : nearest p ≤ 2 ^ (lastPlace q + 23) := by
      apply (le_abs_self _).trans
      apply abs_nearest_le (by omega)
      exact hbelow.trans (lt_add_of_pos_right _ (two_zpow_pos _))
    have habove : 2 ^ (lastPlace q + 23) ≤ q := by
      have hlog : lastPlace q + 23 ≤ Int.log 2 q := by
        have hplace : lastPlace q = max (Int.log 2 q - 23) (-149) := by
          rw [lastPlace, abs_of_pos hq]
        omega
      have hle := Int.zpow_log_le_self (b := 2) (by norm_num) hq
      calc (2 : ℚ) ^ (lastPlace q + 23) ≤ 2 ^ Int.log 2 q :=
            zpow_le_zpow_right₀ (by norm_num) hlog
        _ ≤ q := by exact_mod_cast hle
    have hquot : ((2 ^ 23 : ℤ) : ℚ) ≤ q / 2 ^ lastPlace q := by
      rw [le_div_iff₀ (two_zpow_pos _)]
      rw [zpow_add₀ (by norm_num), mul_comm] at habove
      exact_mod_cast habove
    have hround := roundHalfEven_mono hquot
    rw [roundHalfEven_intCast] at hround
    apply hpower.trans
    rw [zpow_add₀ (by norm_num), mul_comm, nearest]
    apply mul_le_mul_of_nonneg_right _ (two_zpow_pos _).le
    exact_mod_cast hround
  · rw [nearest, nearest, heq]
    apply mul_le_mul_of_nonneg_right _ (two_zpow_pos _).le
    have hquot : p / 2 ^ lastPlace q ≤ q / 2 ^ lastPlace q :=
      div_le_div_of_nonneg_right h (two_zpow_pos _).le
    exact_mod_cast roundHalfEven_mono hquot

/-- Rounding is monotone. -/
theorem nearest_mono {p q : ℚ} (h : p ≤ q) : nearest p ≤ nearest q := by
  rcases lt_or_ge 0 p with hp | hp
  · exact nearest_mono_of_pos hp h
  rcases lt_or_ge q 0 with hq | hq
  · have hneg := nearest_mono_of_pos (neg_pos.mpr hq) (neg_le_neg h)
    rw [nearest_neg, nearest_neg] at hneg
    exact neg_le_neg_iff.mp hneg
  · have hlow := nearest_nonneg (neg_nonneg.mpr hp)
    rw [nearest_neg] at hlow
    exact (neg_nonneg.mp hlow).trans (nearest_nonneg hq)

/-- Rounding moves a value by at most half of its last place. -/
theorem abs_nearest_sub_le {q : ℚ} {m : ℤ} (hm : -125 ≤ m) (h : |q| < 2 ^ m) :
    |nearest q - q| ≤ 2 ^ (m - 25) := by
  by_cases hq : q = 0
  · rw [hq, nearest_zero, sub_zero, abs_zero]
    exact (two_zpow_pos _).le
  · have hplace := lastPlace_le_of_lt hq hm h
    have hround := abs_roundHalfEven_sub (q / 2 ^ lastPlace q)
    have hscale : nearest q - q =
        (roundHalfEven (q / 2 ^ lastPlace q) - q / 2 ^ lastPlace q) * 2 ^ lastPlace q := by
      rw [nearest, sub_mul, div_mul_cancel₀ _ (two_zpow_ne _)]
    calc |nearest q - q| =
          |roundHalfEven (q / 2 ^ lastPlace q) - q / 2 ^ lastPlace q| * 2 ^ lastPlace q := by
          rw [hscale, abs_mul, abs_of_pos (two_zpow_pos _)]
      _ ≤ 1 / 2 * 2 ^ (m - 24) := by
          apply mul_le_mul hround (zpow_le_zpow_right₀ (by norm_num) hplace)
            (two_zpow_pos _).le (by norm_num)
      _ = 2 ^ (m - 25) := by
          rw [show m - 24 = m - 25 + 1 by ring, zpow_add_one₀ (by norm_num)]
          ring

/-! ## Values -/

/-- The finite values. -/
def IsSingle (q : ℚ) : Prop := nearest q = q ∧ |q| < 2 ^ 128

inductive Single where
  | finite (q : ℚ) (h : IsSingle q)
  | infinite (negative : Bool)
  | nan
  deriving DecidableEq

namespace Single

/-- The exact result `q` of an operation, rounded. -/
def ofRat (q : ℚ) : Single :=
  if h : |nearest q| < 2 ^ 128 then .finite (nearest q) ⟨nearest_nearest q, h⟩
  else .infinite (decide (q < 0))

def ofInt (n : Int) : Single := ofRat n

def add : Single → Single → Single
  | .finite p _, .finite q _ => ofRat (p + q)
  | .nan, _ => .nan
  | _, .nan => .nan
  | .infinite s, .infinite t => if s = t then .infinite s else .nan
  | .infinite s, .finite _ _ => .infinite s
  | .finite _ _, .infinite t => .infinite t

def sub : Single → Single → Single
  | .finite p _, .finite q _ => ofRat (p - q)
  | .nan, _ => .nan
  | _, .nan => .nan
  | .infinite s, .infinite t => if s = t then .nan else .infinite s
  | .infinite s, .finite _ _ => .infinite s
  | .finite _ _, .infinite t => .infinite (!t)

def mul : Single → Single → Single
  | .finite p _, .finite q _ => ofRat (p * q)
  | .nan, _ => .nan
  | _, .nan => .nan
  | .infinite s, .infinite t => .infinite (s != t)
  | .infinite s, .finite q _ => if q = 0 then .nan else .infinite (s != decide (q < 0))
  | .finite p _, .infinite t => if p = 0 then .nan else .infinite (t != decide (p < 0))

/-- Division by a finite value that is not zero. -/
def divBy : Single → ℚ → Single
  | .finite p _, q => ofRat (p / q)
  | .nan, _ => .nan
  | .infinite s, q => .infinite (s != decide (q < 0))

/-- The comparison `x <= y`, which fails for a NaN. -/
def le : Single → Single → Bool
  | .finite p _, .finite q _ => decide (p ≤ q)
  | .nan, _ => false
  | _, .nan => false
  | .infinite s, .infinite t => s || !t
  | .infinite s, .finite _ _ => s
  | .finite _ _, .infinite t => !t

/-- Conversion to `int`, towards zero; it is undefined for a value out of range. -/
def toInt : Single → Option Int
  | .finite q _ =>
    let n := if 0 ≤ q then ⌊q⌋ else ⌈q⌉
    if IsInt n then some n else none
  | _ => none

/-! ### Whole numbers -/

/-- The value is the integer `n`. -/
def IsWhole (x : Single) (n : Int) : Prop := ∃ h, x = .finite n h

theorem finite_congr {p q : ℚ} {hp : IsSingle p} {hq : IsSingle q} (h : p = q) :
    Single.finite p hp = .finite q hq := by
  subst h
  rfl

theorem ofRat_of_isSingle {q : ℚ} (h : IsSingle q) : ofRat q = .finite q h := by
  have hfin : |nearest q| < 2 ^ 128 := by
    rw [h.1]
    exact h.2
  rw [ofRat, dif_pos hfin]
  exact finite_congr h.1

/-- An integer of at most 24 bits is its own conversion. -/
theorem ofInt_exact {n : Int} (hn : |n| ≤ 2 ^ 24) : (ofInt n).IsWhole n := by
  have h : IsSingle (n : ℚ) := by
    refine ⟨nearest_of_abs_le hn, ?_⟩
    have hq : |(n : ℚ)| ≤ 2 ^ 24 := by exact_mod_cast hn
    exact lt_of_le_of_lt hq (by norm_num)
  exact ⟨h, ofRat_of_isSingle h⟩

/-- Rounding an integer not far above `2 ^ 40` gives an integer up to `2 ^ 40`. -/
theorem ofInt_isWhole {n : Int} (hn : |n| ≤ 2 ^ 40 + 2 ^ 15) :
    ∃ m, (ofInt n).IsWhole m ∧ |m| ≤ 2 ^ 40 := by
  obtain ⟨m, hm⟩ := nearest_intCast n
  have hlt : |(n : ℚ)| < 2 ^ (40 : ℤ) + 2 ^ ((40 : ℤ) - 24) := by
    have hq : |(n : ℚ)| ≤ 2 ^ 40 + 2 ^ 15 := by exact_mod_cast hn
    apply lt_of_le_of_lt hq
    norm_num
  have hle : |nearest n| ≤ 2 ^ 40 := by
    have := abs_nearest_le (by norm_num) hlt
    exact_mod_cast this
  have hfin : |nearest (n : ℚ)| < 2 ^ 128 := lt_of_le_of_lt hle (by norm_num)
  have hsingle : IsSingle (m : ℚ) := by
    rw [← hm]
    exact ⟨nearest_nearest _, hfin⟩
  refine ⟨m, ⟨hsingle, ?_⟩, ?_⟩
  · rw [ofInt, ofRat, dif_pos hfin]
    exact finite_congr hm
  · rw [hm] at hle
    exact_mod_cast hle

theorem sub_eq_ofInt {x y : Single} {n m : Int} (hx : x.IsWhole n) (hy : y.IsWhole m) :
    x.sub y = ofInt (n - m) := by
  obtain ⟨_, rfl⟩ := hx
  obtain ⟨_, rfl⟩ := hy
  simp [sub, ofInt]

/-- Whole values compare as integers. -/
theorem le_whole {x y : Single} {n m : Int} (hx : x.IsWhole n) (hy : y.IsWhole m) :
    x.le y = decide (n ≤ m) := by
  obtain ⟨_, rfl⟩ := hx
  obtain ⟨_, rfl⟩ := hy
  simp [le]

/-- Whole values are equal as integers are. -/
theorem IsWhole.eq_iff {x y : Single} {n m : Int} (hx : x.IsWhole n) (hy : y.IsWhole m) :
    x = y ↔ n = m := by
  obtain ⟨_, rfl⟩ := hx
  obtain ⟨_, rfl⟩ := hy
  simp

theorem add_eq_ofInt {x y : Single} {n m : Int} (hx : x.IsWhole n) (hy : y.IsWhole m) :
    x.add y = ofInt (n + m) := by
  obtain ⟨_, rfl⟩ := hx
  obtain ⟨_, rfl⟩ := hy
  simp [add, ofInt]

end Single

end BallGame.Library
