import Mathlib.Dynamics.PeriodicPts.Lemmas
import Mathlib.Tactic

/-!
# Walks between two walls

A walker on the integers makes steps of one length, and turns round where the next step would
lead to a wall. Its places form a row, along which it goes up and down for ever.

* `Row.reflect_state`: a step leads to the next state of a round;
* `Row.isPeriodicPt_iff`: a round takes two steps for each place;
* `Row.visits_iff`: every place of the row is visited;
* `Settled.exists_row`: every walker off the walls is on a row.
-/

namespace BallGame.Library

open Function

/-- One step of a walker with a place and a velocity. -/
def reflect (low high : Int) (s : Int × Int) : Int × Int :=
  if low < s.1 + s.2 ∧ s.1 + s.2 < high then (s.1 + s.2, s.2) else (s.1, -s.2)

/-- The places of a walker. A place without a neighbor may be on a wall. -/
structure Row (low high : Int) where
  first : Int
  stride : Int
  count : Nat
  stride_pos : 0 < stride
  count_pos : 0 < count
  inside : ∀ i < count, count = 1 ∨ (low < first + i * stride ∧ first + i * stride < high)
  low_end : first - stride ≤ low
  high_end : high ≤ first + count * stride

namespace Row

variable {low high : Int} (r : Row low high)

/-- The states of a round, upwards and then downwards. -/
def onRound (j : Nat) : Int × Int :=
  if j < r.count then (r.first + j * r.stride, r.stride)
  else (r.first + (2 * r.count - 1 - j : Nat) * r.stride, -r.stride)

/-- The state number `i`, over any number of rounds. -/
def state (i : Nat) : Int × Int := r.onRound (i % (2 * r.count))

theorem onRound_up {j : Nat} (hj : j < r.count) :
    r.onRound j = (r.first + j * r.stride, r.stride) := if_pos hj

theorem onRound_down {j : Nat} (hj : r.count ≤ j) :
    r.onRound j = (r.first + (2 * r.count - 1 - j : Nat) * r.stride, -r.stride) :=
  if_neg (by omega)

/-- A step within a round. -/
theorem reflect_onRound {j : Nat} (hj : j + 1 < 2 * r.count) :
    reflect low high (r.onRound j) = r.onRound (j + 1) := by
  have hpos := r.stride_pos
  by_cases hup : j + 1 < r.count
  · rw [r.onRound_up (by omega), r.onRound_up hup]
    have hnext : r.first + j * r.stride + r.stride = r.first + (j + 1 : Nat) * r.stride := by
      push_cast
      ring
    have hinside := (r.inside (j + 1) hup).resolve_left (by omega)
    rw [← hnext] at hinside ⊢
    exact if_pos hinside
  · by_cases htop : j + 1 = r.count
    · rw [r.onRound_up (by omega), r.onRound_down (by omega)]
      have hnext : r.first + j * r.stride + r.stride = r.first + r.count * r.stride := by
        rw [← htop]
        push_cast
        ring
      have hwall := r.high_end
      have hturned : 2 * r.count - 1 - (j + 1) = j := by omega
      rw [hturned]
      exact if_neg (by dsimp only; omega)
    · rw [r.onRound_down (by omega), r.onRound_down (by omega)]
      obtain ⟨i, hi⟩ : ∃ i, 2 * r.count - 1 - j = i + 1 := ⟨2 * r.count - 2 - j, by omega⟩
      have hi' : 2 * r.count - 1 - (j + 1) = i := by omega
      rw [hi, hi']
      have hnext : r.first + (i + 1 : Nat) * r.stride + -r.stride = r.first + i * r.stride := by
        push_cast
        ring
      have hinside := (r.inside i (by omega)).resolve_left (by omega)
      rw [← hnext] at hinside ⊢
      exact if_pos hinside

/-- The last step of a round. -/
theorem reflect_onRound_last : reflect low high (r.onRound (2 * r.count - 1)) = r.onRound 0 := by
  have hcount := r.count_pos
  have hwall := r.low_end
  rw [r.onRound_down (by omega), r.onRound_up hcount, Nat.sub_self]
  refine (if_neg ?_).trans ?_
  · push_cast
    omega
  · rw [neg_neg]

theorem reflect_state (i : Nat) : reflect low high (r.state i) = r.state (i + 1) := by
  have hcount := r.count_pos
  have hlt : i % (2 * r.count) < 2 * r.count := Nat.mod_lt _ (by omega)
  unfold state
  by_cases hlast : i % (2 * r.count) + 1 < 2 * r.count
  · rw [r.reflect_onRound hlast, Nat.add_mod, Nat.mod_eq_of_lt (by omega : 1 < 2 * r.count),
      Nat.mod_eq_of_lt hlast]
  · have hj : i % (2 * r.count) = 2 * r.count - 1 := by omega
    have hnext : (i + 1) % (2 * r.count) = 0 := by
      rw [Nat.add_mod, hj, Nat.mod_eq_of_lt (by omega : 1 < 2 * r.count),
        show 2 * r.count - 1 + 1 = 2 * r.count by omega, Nat.mod_self]
    rw [hj, hnext, r.reflect_onRound_last]

theorem iterate_reflect (k i : Nat) : (reflect low high)^[k] (r.state i) = r.state (i + k) := by
  induction k with
  | zero => rfl
  | succ k ih => rw [iterate_succ_apply', ih, r.reflect_state, Nat.add_assoc]

/-- A round has no state twice. -/
theorem onRound_inj {i j : Nat} (hi : i < 2 * r.count) (hj : j < 2 * r.count)
    (h : r.onRound i = r.onRound j) : i = j := by
  have hpos := r.stride_pos
  unfold onRound at h
  split at h <;> split at h <;> rw [Prod.mk.injEq] at h
  · have hmul := mul_right_cancel₀ hpos.ne' (add_left_cancel h.1)
    omega
  · omega
  · omega
  · have hmul := mul_right_cancel₀ hpos.ne' (add_left_cancel h.1)
    omega

theorem state_eq_iff {i j : Nat} : r.state i = r.state j ↔ i ≡ j [MOD 2 * r.count] := by
  have hcount := r.count_pos
  constructor
  · intro h
    exact r.onRound_inj (Nat.mod_lt _ (by omega)) (Nat.mod_lt _ (by omega)) h
  · intro h
    exact congrArg r.onRound h

/-- **The period.** The walker is where it was, with the velocity it had, after full rounds only. -/
theorem isPeriodicPt_iff {k i : Nat} :
    IsPeriodicPt (reflect low high) k (r.state i) ↔ 2 * r.count ∣ k := by
  rw [IsPeriodicPt, IsFixedPt, r.iterate_reflect, r.state_eq_iff]
  constructor
  · intro h
    have hzero : k ≡ 0 [MOD 2 * r.count] := Nat.ModEq.add_left_cancel' i h
    exact (Nat.modEq_zero_iff_dvd).mp hzero
  · intro h
    exact ((Nat.modEq_zero_iff_dvd).mpr h).add_left i

/-- **The places.** The walker comes to all of them and to no other. -/
theorem visits_iff {i : Nat} {p : Int} :
    (∃ k, ((reflect low high)^[k] (r.state i)).1 = p) ↔
      ∃ j < r.count, p = r.first + j * r.stride := by
  have hcount := r.count_pos
  constructor
  · rintro ⟨k, rfl⟩
    rw [r.iterate_reflect]
    unfold state onRound
    split
    · rename_i hj
      exact ⟨_, hj, rfl⟩
    · have hlt : (i + k) % (2 * r.count) < 2 * r.count := Nat.mod_lt _ (by omega)
      exact ⟨_, by omega, rfl⟩
  · rintro ⟨j, hj, rfl⟩
    -- the walker has done a part of its round and comes to state `j` of the next one
    refine ⟨2 * r.count - i % (2 * r.count) + j, ?_⟩
    have hlt : i % (2 * r.count) < 2 * r.count := Nat.mod_lt _ (by omega)
    have hmod : i + (2 * r.count - i % (2 * r.count) + j) ≡ j [MOD 2 * r.count] := by
      have hsplit : i + (2 * r.count - i % (2 * r.count) + j) =
          2 * r.count * (i / (2 * r.count) + 1) + j := by
        have hdiv := Nat.div_add_mod i (2 * r.count)
        rw [Nat.mul_add, Nat.mul_one]
        omega
      rw [hsplit]
      exact Nat.mul_add_mod _ _ _
    rw [r.iterate_reflect, r.state_eq_iff.mpr hmod]
    unfold state
    rw [Nat.mod_eq_of_lt (by omega), r.onRound_up hj]

end Row

/-! ## From a state to its row -/

/-- A walker between the walls, or on the lower one without room for a step. -/
structure Settled (low high : Int) (s : Int × Int) : Prop where
  moving : s.2 ≠ 0
  low_le : low ≤ s.1
  lt_high : s.1 < high
  stuck : s.1 = low → high ≤ s.1 + s.2.natAbs

def placesBelow (low : Int) (s : Int × Int) : Nat := (s.1 - low - 1).toNat / s.2.natAbs

def placesAbove (high : Int) (s : Int × Int) : Nat := (high - 1 - s.1).toNat / s.2.natAbs

/-- The number of places of the row. -/
def places (low high : Int) (s : Int × Int) : Nat := placesBelow low s + 1 + placesAbove high s

namespace Settled

variable {low high : Int} {s : Int × Int}

theorem below (h : Settled low high s) :
    (s.1 = low ∧ placesBelow low s = 0 ∨ low < s.1 - placesBelow low s * s.2.natAbs) ∧
      s.1 - placesBelow low s * s.2.natAbs - s.2.natAbs ≤ low := by
  have hpos : 0 < s.2.natAbs := Int.natAbs_pos.mpr h.moving
  have hlow := h.low_le
  have hle := Nat.div_mul_le_self (s.1 - low - 1).toNat s.2.natAbs
  have hlt := Nat.lt_div_mul_add (a := (s.1 - low - 1).toNat) hpos
  rw [← placesBelow] at hle hlt
  zify at hle hlt
  constructor
  · by_cases hwall : s.1 = low
    · refine Or.inl ⟨hwall, ?_⟩
      rw [placesBelow, hwall]
      simp
    · refine Or.inr ?_
      have hnat : ((s.1 - low - 1).toNat : Int) = s.1 - low - 1 := by omega
      push_cast
      omega
  · push_cast
    omega

theorem above (h : Settled low high s) :
    s.1 + placesAbove high s * s.2.natAbs < high ∧
      high ≤ s.1 + placesAbove high s * s.2.natAbs + s.2.natAbs := by
  have hpos : 0 < s.2.natAbs := Int.natAbs_pos.mpr h.moving
  have hhigh := h.lt_high
  have hle := Nat.div_mul_le_self (high - 1 - s.1).toNat s.2.natAbs
  have hlt := Nat.lt_div_mul_add (a := (high - 1 - s.1).toNat) hpos
  rw [← placesAbove] at hle hlt
  zify at hle hlt
  push_cast
  omega

/-- The row of a walker. -/
def row (h : Settled low high s) : Row low high where
  first := s.1 - placesBelow low s * s.2.natAbs
  stride := s.2.natAbs
  count := places low high s
  stride_pos := by
    have hmoving := h.moving
    omega
  count_pos := by
    unfold places
    omega
  inside := by
    intro i hi
    obtain ⟨hplace, _⟩ := h.below
    obtain ⟨hhigh, _⟩ := h.above
    obtain ⟨hwall, hzero⟩ | hfree := hplace
    · -- on the wall there is no room above
      have hstuck := h.stuck hwall
      left
      have hnone : placesAbove high s = 0 := by
        apply Nat.div_eq_of_lt
        omega
      rw [places, hzero, hnone]
    · right
      have hpos : (0 : Int) ≤ i * s.2.natAbs := by positivity
      have hup : (i : Int) * s.2.natAbs ≤ (placesBelow low s + placesAbove high s : Nat) *
          s.2.natAbs := by
        apply Int.mul_le_mul_of_nonneg_right _ (Int.natCast_nonneg _)
        unfold places at hi
        omega
      rw [Nat.cast_add, add_mul] at hup
      omega
  low_end := h.below.2
  high_end := by
    have hwall := h.above.2
    unfold places
    push_cast
    rw [add_mul, add_mul, one_mul]
    push_cast at hwall
    omega

theorem exists_state (h : Settled low high s) : ∃ i, s = h.row.state i := by
  have hmoving := h.moving
  have hcount : h.row.count = placesBelow low s + 1 + placesAbove high s := rfl
  have hplace : s.1 = h.row.first + placesBelow low s * h.row.stride := by
    simp only [row]
    omega
  have hstride : h.row.stride = s.2.natAbs := rfl
  obtain hup | hdown := lt_or_gt_of_ne hmoving.symm
  · refine ⟨placesBelow low s, ?_⟩
    rw [Row.state, Nat.mod_eq_of_lt (by omega), Row.onRound_up _ (by omega), ← hplace, hstride]
    exact Prod.ext rfl (by omega)
  · refine ⟨2 * h.row.count - 1 - placesBelow low s, ?_⟩
    rw [Row.state, Nat.mod_eq_of_lt (by omega), Row.onRound_down _ (by omega),
      show 2 * h.row.count - 1 - (2 * h.row.count - 1 - placesBelow low s) = placesBelow low s by
        omega, ← hplace, hstride]
    exact Prod.ext rfl (by omega)

/-- **The period of a walker.** -/
theorem isPeriodicPt_iff (h : Settled low high s) {k : Nat} :
    IsPeriodicPt (reflect low high) k s ↔ 2 * places low high s ∣ k := by
  obtain ⟨i, hi⟩ := h.exists_state
  have hround : IsPeriodicPt (reflect low high) k (h.row.state i) ↔ 2 * h.row.count ∣ k :=
    h.row.isPeriodicPt_iff
  rwa [← hi] at hround

/-- **The places of a walker** between the walls: all that are whole steps away. -/
theorem visits_iff (h : Settled low high s) (hplace : low < s.1) {p : Int} :
    (∃ k, ((reflect low high)^[k] s).1 = p) ↔ low < p ∧ p < high ∧ s.2 ∣ p - s.1 := by
  obtain ⟨i, hi⟩ := h.exists_state
  have hround : (∃ k, ((reflect low high)^[k] (h.row.state i)).1 = p) ↔
    ∃ j < h.row.count, p = h.row.first + j * h.row.stride := h.row.visits_iff
  rw [← hi] at hround
  rw [hround, ← Int.natAbs_dvd]
  have hstride : (0 : Int) < s.2.natAbs := h.row.stride_pos
  obtain ⟨hfree, hbelow⟩ := h.below
  obtain ⟨hhigh, habove⟩ := h.above
  simp only [row, places]
  constructor
  · rintro ⟨j, hj, rfl⟩
    have hpos : (0 : Int) ≤ j * s.2.natAbs := by positivity
    have hup : (j : Int) * s.2.natAbs ≤ (placesBelow low s + placesAbove high s : Nat) *
        s.2.natAbs := by
      apply Int.mul_le_mul_of_nonneg_right _ (Int.natCast_nonneg _)
      omega
    rw [Nat.cast_add, add_mul] at hup
    refine ⟨by omega, by omega, j - placesBelow low s, ?_⟩
    ring
  · rintro ⟨hp, hp', d, hd⟩
    have hlower : -(placesBelow low s : Int) ≤ d := by
      by_contra hlt
      have hmul : d * s.2.natAbs ≤ (-(placesBelow low s : Int) - 1) * s.2.natAbs :=
        Int.mul_le_mul_of_nonneg_right (by omega) hstride.le
      rw [sub_mul, neg_mul, one_mul] at hmul
      rw [mul_comm] at hd
      omega
    have hupper : d ≤ placesAbove high s := by
      by_contra hlt
      have hmul : ((placesAbove high s : Int) + 1) * s.2.natAbs ≤ d * s.2.natAbs :=
        Int.mul_le_mul_of_nonneg_right (by omega) hstride.le
      rw [add_mul, one_mul] at hmul
      rw [mul_comm] at hd
      omega
    obtain ⟨j, hj⟩ : ∃ j : Nat, (j : Int) = d + placesBelow low s :=
      ⟨(d + placesBelow low s).toNat, by omega⟩
    refine ⟨j, by omega, ?_⟩
    rw [hj, add_mul]
    linarith

end Settled

end BallGame.Library
