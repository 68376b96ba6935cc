import Mathlib.Algebra.Order.Field.Basic
import Mathlib.Algebra.Order.Floor.Ring
import Mathlib.Data.List.Iterate
import Mathlib.Data.Rat.Floor
import Mathlib.Tactic.FieldSimp
import Mathlib.Tactic.Linarith
import Mathlib.Tactic.Ring

/-!
# Digital lines

A line over a run of `d` columns that rises by `h`, with `0 ≤ h ≤ d`, on the grid. In column `k`
it has risen by `k * h / d`, rounded to the nearest integer. An incremental drawing of it keeps
an error, and steps up where the error becomes positive.

* `rise_succ`: the error, started at `-(d / 2)`, decides each step;
* `rise_near`, `rise_near_rat`: the distance to the exact line is at most one half;
* `rise_mem`, `rise_run`: the digital line stays in the box of the exact one and ends where it
  ends.
-/

namespace BallGame.Library

/-- The rise in column `k`. Where two integers are equally near, it is the lower one. -/
def rise (d h k : Int) : Int := (k * h + (d - 1) / 2) / d

/-- What an incremental drawing has accumulated in column `k`. -/
def riseError (d h k : Int) : Int := k * h - d / 2 - d * rise d h k

theorem rise_eq_iff {d h k m : Int} (hd : 0 < d) :
    rise d h k = m ↔ d * m ≤ k * h + (d - 1) / 2 ∧ k * h + (d - 1) / 2 < d * m + d := by
  rw [rise, Int.ediv_eq_iff_of_pos hd, Int.mul_comm m d]

theorem rise_bounds {d : Int} (hd : 0 < d) (h k : Int) :
    d * rise d h k ≤ k * h + (d - 1) / 2 ∧ k * h + (d - 1) / 2 < d * rise d h k + d :=
  (rise_eq_iff hd).mp rfl

@[simp] theorem rise_no_run (h k : Int) : rise 0 h k = 0 := by
  rw [rise, Int.ediv_zero]

/-- The error lies between the negated run and zero, whatever the rise was. -/
theorem riseError_bounds {d : Int} (hd : 0 < d) (h k : Int) :
    -d < riseError d h k ∧ riseError d h k ≤ 0 := by
  obtain ⟨hlow, hhigh⟩ := rise_bounds hd h k
  unfold riseError
  omega

theorem rise_start {d : Int} (hd : 0 ≤ d) (h : Int) : rise d h 0 = 0 := by
  rcases hd.eq_or_lt with rfl | hd
  · exact rise_no_run h 0
  · rw [rise_eq_iff hd]
    omega

theorem riseError_start {d : Int} (hd : 0 ≤ d) (h : Int) : riseError d h 0 = -(d / 2) := by
  rw [riseError, rise_start hd]
  omega

section

variable {d h : Int} (hh : 0 ≤ h) (hle : h ≤ d)

include hh hle

/-- Where the error would become positive the line steps up, and elsewhere it does not. -/
theorem rise_succ (k : Int) :
    rise d h (k + 1) = if 0 < riseError d h k + h then rise d h k + 1 else rise d h k := by
  rcases (hh.trans hle).eq_or_lt with rfl | hd
  · obtain rfl : h = 0 := by omega
    simp [riseError]
  · obtain ⟨hlow, hhigh⟩ := riseError_bounds hd h k
    unfold riseError at *
    have hk : (k + 1) * h = k * h + h := by ring
    rw [rise_eq_iff hd, hk]
    split
    · have hm : d * (rise d h k + 1) = d * rise d h k + d := by ring
      omega
    · omega

/-- The error after a step. -/
theorem riseError_succ (k : Int) :
    riseError d h (k + 1) =
      if 0 < riseError d h k + h then riseError d h k + h - d else riseError d h k + h := by
  have hsucc := rise_succ hh hle k
  split at hsucc
  · rename_i hpos
    rw [if_pos hpos, riseError, hsucc, riseError]
    ring
  · rename_i hpos
    rw [if_neg hpos, riseError, hsucc, riseError]
    ring

theorem riseError_mem (k : Int) : -d ≤ riseError d h k ∧ riseError d h k ≤ 0 := by
  rcases (hh.trans hle).eq_or_lt with rfl | hd
  · obtain rfl : h = 0 := by omega
    simp [riseError]
  · obtain ⟨hlow, hhigh⟩ := riseError_bounds hd h k
    exact ⟨hlow.le, hhigh⟩

/-- In its last column the line has risen by its whole rise. -/
theorem rise_run : rise d h d = h := by
  rcases (hh.trans hle).eq_or_lt with rfl | hd
  · obtain rfl : h = 0 := by omega
    exact rise_no_run 0 0
  · rw [rise_eq_iff hd]
    omega

theorem rise_le_succ (k : Int) : rise d h k ≤ rise d h (k + 1) := by
  rw [rise_succ hh hle]
  split
  · omega
  · omega

theorem rise_succ_le (k : Int) : rise d h (k + 1) ≤ rise d h k + 1 := by
  rw [rise_succ hh hle]
  split
  · omega
  · omega

theorem rise_mono {k k' : Int} (hk : k ≤ k') : rise d h k ≤ rise d h k' :=
  monotone_int_of_le_succ (rise_le_succ hh hle) hk

/-- The rise lies in the box of the line. -/
theorem rise_mem {k : Int} (hk : 0 ≤ k) (hkd : k ≤ d) : 0 ≤ rise d h k ∧ rise d h k ≤ h := by
  have hstart := rise_mono hh hle hk
  have hrun := rise_mono hh hle hkd
  rw [rise_start (hh.trans hle)] at hstart
  rw [rise_run hh hle] at hrun
  exact ⟨hstart, hrun⟩

/-- Twice the distance to the exact line, times the run. -/
theorem rise_near (k : Int) : |2 * (k * h - d * rise d h k)| ≤ d := by
  rcases (hh.trans hle).eq_or_lt with rfl | hd
  · obtain rfl : h = 0 := by omega
    simp
  · obtain ⟨hlow, hhigh⟩ := rise_bounds hd h k
    rw [abs_le]
    omega

/-- The distance to the exact line is at most one half. -/
theorem rise_near_rat (k : Int) : |(rise d h k : ℚ) - k * h / d| ≤ 1 / 2 := by
  rcases (hh.trans hle).eq_or_lt with rfl | hd
  · norm_num
  · have hnear := rise_near hh hle k
    have hdq : (0 : ℚ) < d := by exact_mod_cast hd
    obtain ⟨hlow, hhigh⟩ := abs_le.mp hnear
    have hlow' : (-d : ℚ) ≤ 2 * (k * h - d * rise d h k) := by exact_mod_cast hlow
    have hhigh' : 2 * (k * h - d * rise d h k) ≤ (d : ℚ) := by exact_mod_cast hhigh
    have hsplit : (rise d h k : ℚ) - k * h / d = (d * rise d h k - k * h) / d := by
      field_simp
    rw [hsplit, abs_le, le_div_iff₀ hdq, div_le_iff₀ hdq]
    constructor
    · linarith
    · linarith

end

end BallGame.Library
