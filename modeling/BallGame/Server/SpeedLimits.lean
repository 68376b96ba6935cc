import BallGame.Server.Identifiers

/-!
# Limits of the speed

`speedUpBalls` clamps a velocity by `MAX_SPEED` and `MIN_SPEED`, but it tests the old value and
then stores its double. A velocity between 1001 and 2000 leaves the limits with the next
speed-up, and the one after that pulls it back to the limit: a speed-up that makes the ball
slower. From the initial velocity of 2 it takes ten speed-ups.

* `speedUp_within_iff`: which velocities a speed-up keeps within the limits;
* `speed_limits_iff`: the limits hold all along a run exactly if no speed-up of the run meets a
  ball of its owner that is faster than 1000.
-/

namespace BallGame.Server

open Library

/-! ## One velocity -/

def WithinLimits (v : Int) : Prop := minSpeed ≤ v ∧ v ≤ maxSpeed

theorem withinLimits_iff {v : Int} : WithinLimits v ↔ -2000 ≤ v ∧ v ≤ 2000 := Iff.rfl

/-- Within the limits nothing is clamped. -/
theorem speedUp_eq {v : Int} (hv : WithinLimits v) : speedUp v = v * 2 := by
  obtain ⟨hlow, hhigh⟩ := withinLimits_iff.mp hv
  simp only [speedUp, maxSpeed, minSpeed]
  omega

/-- From a velocity within the limits, exactly the upper half is doubled beyond them. -/
theorem speedUp_within_iff {v : Int} (hv : WithinLimits v) :
    WithinLimits (speedUp v) ↔ |v| ≤ 1000 := by
  rw [speedUp_eq hv, withinLimits_iff, abs_le]
  omega

/-- A velocity changes its size in the direction from `v` to `w`, and keeps its sign. -/
structure Grows (v w : Int) : Prop where
  size : |v| ≤ |w|
  sign : w.sign = v.sign

theorem speedUp_grows {v : Int} (hv : WithinLimits v) : Grows v (speedUp v) := by
  rw [speedUp_eq hv]
  constructor
  · rw [abs_mul, abs_two]
    exact le_mul_of_one_le_right (abs_nonneg v) one_le_two
  · rw [Int.sign_mul]
    exact Int.mul_one _

theorem speedDown_grows (v : Int) : Grows (speedDown v) v := by
  rcases speedDown_cases v with ⟨hpos, hdown, hle⟩ | ⟨hneg, hdown, hle⟩ | ⟨rfl, hzero⟩
  · refine ⟨?_, by rw [Int.sign_eq_one_of_pos hpos, Int.sign_eq_one_of_pos hdown]⟩
    rwa [abs_of_pos hpos, abs_of_pos hdown]
  · refine ⟨?_, by rw [Int.sign_eq_neg_one_of_neg hneg, Int.sign_eq_neg_one_of_neg hdown]⟩
    rw [abs_of_neg hneg, abs_of_neg hdown]
    omega
  · rw [hzero]
    exact ⟨le_refl _, rfl⟩

theorem Grows.within {v w : Int} (h : Grows v w) (hw : WithinLimits w) : WithinLimits v := by
  rw [withinLimits_iff, ← abs_le] at hw ⊢
  exact h.size.trans hw

theorem moveCoordinate_within {place : Single} {velocity radius : Int}
    (hv : WithinLimits velocity) :
    WithinLimits (moveCoordinate place velocity radius).2 := by
  rw [withinLimits_iff] at hv ⊢
  simp only [moveCoordinate]
  split
  · simp only
    omega
  · exact hv

/-! ## Balls -/

def LogicalBall.Within (b : LogicalBall) : Prop := WithinLimits b.dx ∧ WithinLimits b.dy

def BallGrows (b c : LogicalBall) : Prop := Grows b.dx c.dx ∧ Grows b.dy c.dy

theorem BallGrows.refl (b : LogicalBall) : BallGrows b b :=
  ⟨⟨le_refl _, rfl⟩, ⟨le_refl _, rfl⟩⟩

/-- What a speed-up has to find: the double of no velocity is beyond the limits. -/
def LogicalBall.CanDouble (b : LogicalBall) : Prop := |b.dx| ≤ 1000 ∧ |b.dy| ≤ 1000

theorem speedUpBall_within_iff {b : LogicalBall} (hb : b.Within) :
    (speedUpBall b).Within ↔ b.CanDouble :=
  and_congr (speedUp_within_iff hb.1) (speedUp_within_iff hb.2)

theorem speedDownBall_within {b : LogicalBall} (hb : b.Within) : (speedDownBall b).Within :=
  ⟨(speedDown_grows b.dx).within hb.1, (speedDown_grows b.dy).within hb.2⟩

theorem newBall_within {id radius ownerId : Int} {draws : RandomDraws} {b : LogicalBall}
    (h : createLogicalBall id radius ownerId draws = .ok b) : b.Within := by
  obtain ⟨x, y, _, _, rfl⟩ := createLogicalBall_ok.mp h
  have hvelocity : ∀ draw, WithinLimits (randomVelocity draw) := by
    intro draw
    rw [withinLimits_iff]
    simp only [randomVelocity]
    omega
  exact ⟨hvelocity draws.dx, hvelocity draws.dy⟩

/-! ## The store -/

/-- Every ball of the owner can be doubled. -/
def BallOp.FindsSlow (m : BallListManager) : BallOp → Prop
  | .speedUp o => ∀ b ∈ m.toList, b.ownerId = o → b.CanDouble
  | _ => True

/-- The limits hold, a speed-up makes no ball slower or turns it round, and a speed-down makes
none faster or turns it round. -/
structure BallListManager.SpeedsHold (m : BallListManager) : Prop where
  limits : ∀ b ∈ m.toList, b.Within
  speedUp : ∀ o, ∃ m', speedUpBalls m o = .ok m' ∧ List.Forall₂ BallGrows m.toList m'.toList
  speedDown : ∀ o, ∃ m', speedDownBalls m o = .ok m' ∧
    List.Forall₂ (fun b c => BallGrows c b) m.toList m'.toList

theorem BallListManager.Holds.speedsHold_iff {m : BallListManager} {s : BallStore}
    (hs : m.Holds s) : m.SpeedsHold ↔ ∀ b ∈ s.balls, b.Within := by
  constructor
  · intro h
    rw [← hs.toList_eq]
    exact h.limits
  · intro h
    refine ⟨by rwa [hs.toList_eq], ?_, ?_⟩
    · intro o
      obtain ⟨m', hm', hs'⟩ := (ballStep_refines hs (.speedUp o)).right_ok
      refine ⟨m', hm', ?_⟩
      rw [hs.toList_eq, hs'.toList_eq, BallStore.map, List.forall₂_map_right_iff,
        List.forall₂_same]
      intro b hb
      unfold LogicalBall.changeOwned
      split
      · exact ⟨speedUp_grows (h b hb).1, speedUp_grows (h b hb).2⟩
      · exact BallGrows.refl b
    · intro o
      obtain ⟨m', hm', hs'⟩ := (ballStep_refines hs (.speedDown o)).right_ok
      refine ⟨m', hm', ?_⟩
      rw [hs.toList_eq, hs'.toList_eq, BallStore.map, List.forall₂_map_right_iff,
        List.forall₂_same]
      intro b _
      unfold LogicalBall.changeOwned
      split
      · exact ⟨speedDown_grows b.dx, speedDown_grows b.dy⟩
      · exact BallGrows.refl b

/-- The step lemma. -/
theorem storeStep_within_iff {s s' : BallStore} {m : BallListManager} (hs : m.Holds s)
    (h : ∀ b ∈ s.balls, b.Within) {op : BallOp} (hok : storeStep s op = .ok s') :
    (∀ b ∈ s'.balls, b.Within) ↔ op.FindsSlow m := by
  constructor
  · intro h'
    cases op with
    | speedUp o =>
      cases hok
      intro b hb ho
      rw [hs.toList_eq] at hb
      have hfast := h' _ (List.mem_map_of_mem hb)
      rw [LogicalBall.changeOwned, if_pos ho] at hfast
      exact (speedUpBall_within_iff (h b hb)).mp hfast
    | _ => trivial
  · intro hslow
    apply storeStep_forall _ _ (fun b hb => speedDownBall_within hb) _ h hok
    · intro _ b _ hb
      exact ⟨moveCoordinate_within hb.1, moveCoordinate_within hb.2⟩
    · rintro o rfl b hmem ho hb
      exact (speedUpBall_within_iff hb).mpr (hslow b (by rwa [hs.toList_eq]) ho)
    · intro count radius ownerId env _ id k b hb
      exact newBall_within hb

/-- **The limits of the speed.** In every run from the empty store the speeds stay within their
limits, and no speed-up makes a ball slower, exactly if every speed-up finds the balls of its
owner at speeds of at most 1000. -/
theorem speed_limits_iff (ops : List BallOp) (m : BallListManager)
    (h : run ballStep ballManagerInit ops = .ok m) :
    (∀ u, Visits ballStep ballManagerInit ops u → u.SpeedsHold) ↔
      Throughout ballStep (fun m op => op.FindsSlow m) ballManagerInit ops := by
  refine visits_iff_throughout (I := fun m => ∃ s, m.Holds s) ?_ ?_ ⟨_, holds_init⟩ ?_ h
  · rintro t op t' ⟨s, hs⟩ hok
    obtain ⟨s', _, hs'⟩ := (hok ▸ ballStep_refines hs op).left_ok
    exact ⟨s', hs'⟩
  · rintro t op t' ⟨s, hs⟩ hholds hok
    obtain ⟨s', hstep, hs'⟩ := (hok ▸ ballStep_refines hs op).left_ok
    rw [hs.speedsHold_iff] at hholds
    rw [hs'.speedsHold_iff]
    exact storeStep_within_iff hs hholds hstep
  · rw [holds_init.speedsHold_iff]
    intro b hb
    cases hb

/-- One ball, doubled again and again. -/
def doublings (n : Nat) : List BallOp :=
  .add 1 20 5 ⟨fun _ => ⟨0, 0, 0, 1⟩, some⟩ :: List.replicate n (.speedUp 5)

theorem speed_limits_iff_nine_doublings :
    ∃ m, run ballStep ballManagerInit (doublings 9) = .ok m ∧
      m.toList.map LogicalBall.dy = [1024] ∧
      ((∀ u, Visits ballStep ballManagerInit (doublings 9) u → u.SpeedsHold) ↔
        Throughout ballStep (fun m op => op.FindsSlow m) ballManagerInit (doublings 9)) := by
  obtain ⟨m, hm, hdy⟩ : ∃ m, run ballStep ballManagerInit (doublings 9) = .ok m ∧
      m.toList.map LogicalBall.dy = [1024] := ⟨_, rfl, rfl⟩
  exact ⟨m, hm, hdy, speed_limits_iff (doublings 9) m hm⟩

/-- The tenth doubling leads to a speed of 2048. -/
theorem speed_limit_exceeded :
    ¬ ∀ ops m, run ballStep ballManagerInit ops = .ok m → m.SpeedsHold := by
  intro hall
  obtain ⟨m, hm, hdy⟩ : ∃ m, run ballStep ballManagerInit (doublings 10) = .ok m ∧
      m.toList.map LogicalBall.dy = [2048] := ⟨_, rfl, rfl⟩
  obtain ⟨b, hb, hb'⟩ : ∃ b ∈ m.toList, b.dy = 2048 := by
    have hmem : (2048 : Int) ∈ m.toList.map LogicalBall.dy := by rw [hdy]; simp
    obtain ⟨b, hb, he⟩ := List.mem_map.mp hmem
    exact ⟨b, hb, he⟩
  have hwithin := ((hall (doublings 10) m hm).limits b hb).2
  rw [hb'] at hwithin
  exact absurd hwithin.2 (by decide)

end BallGame.Server
