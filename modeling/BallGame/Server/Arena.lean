import BallGame.Server.Identifiers

/-!
# Balls stay in the arena

With a radius between 0 and 499 the motion of a ball along one axis is a walk on the integers:
a ball that would touch the border stays where it is and turns round. `bounce` is this walk,
and `moveCoordinate_bounce` shows that the single precision arithmetic computes it, because
no sum reaches `2 ^ 24`.

* `bounce_inside`: the walk keeps the distance of the radius to both borders and a velocity
  that is not zero;
* `arena_invariant`: in every run from the empty store all balls are in the arena and move
  exactly.
-/

namespace BallGame.Server

open Library

/-! ## The walk on one axis -/

/-- One coordinate and its velocity. -/
structure Inside (radius n velocity : Int) : Prop where
  low : radius ≤ n
  high : n ≤ 999 - radius
  moving : velocity ≠ 0
  slow : |velocity| ≤ 2 * maxSpeed

/-- One step of the walk. A velocity that leads to the border is only reversed. -/
def bounce (radius n velocity : Int) : Int × Int :=
  if n + velocity ≤ radius ∨ 1000 - radius ≤ n + velocity then (n, -velocity)
  else (n + velocity, velocity)

theorem bounce_inside {radius n velocity : Int} (h : Inside radius n velocity) :
    Inside radius (bounce radius n velocity).1 (bounce radius n velocity).2 := by
  unfold bounce
  split
  · exact ⟨h.low, h.high, neg_ne_zero.mpr h.moving, by simpa using h.slow⟩
  · rename_i hfree
    exact ⟨by omega, by omega, h.moving, h.slow⟩

theorem Inside.abs_velocity {radius n velocity : Int} (h : Inside radius n velocity) :
    -4000 ≤ velocity ∧ velocity ≤ 4000 := by
  have hslow : |velocity| ≤ 4000 := h.slow
  exact abs_le.mp hslow

theorem inside_of_velocity {radius n v w : Int} (h : Inside radius n v) (hw : w ≠ 0)
    (hlow : -4000 ≤ w) (hhigh : w ≤ 4000) : Inside radius n w := by
  have hslow : |w| ≤ 4000 := abs_le.mpr ⟨hlow, hhigh⟩
  exact ⟨h.low, h.high, hw, hslow⟩

theorem speedUp_inside {radius n velocity : Int} (h : Inside radius n velocity) :
    Inside radius n (speedUp velocity) := by
  obtain ⟨hlow, hhigh⟩ := h.abs_velocity
  have hmoving := h.moving
  have hfast : speedUp velocity ≠ 0 ∧ -4000 ≤ speedUp velocity ∧ speedUp velocity ≤ 4000 := by
    simp only [speedUp, maxSpeed, minSpeed]
    omega
  exact inside_of_velocity h hfast.1 hfast.2.1 hfast.2.2

/-- Halving stops at one unit. -/
theorem speedDown_inside {radius n velocity : Int} (h : Inside radius n velocity) :
    Inside radius n (speedDown velocity) := by
  obtain ⟨hlow, hhigh⟩ := h.abs_velocity
  have hmoving := h.moving
  have hcases := speedDown_cases velocity
  have hslow : speedDown velocity ≠ 0 ∧ -4000 ≤ speedDown velocity ∧
      speedDown velocity ≤ 4000 := by omega
  exact inside_of_velocity h hslow.1 hslow.2.1 hslow.2.2

theorem randomVelocity_inside {radius n : Int} (hlow : radius ≤ n) (hhigh : n ≤ 999 - radius)
    (draw : Nat) : Inside radius n (randomVelocity draw) := by
  unfold randomVelocity
  split
  · exact ⟨hlow, hhigh, by decide, by decide⟩
  · exact ⟨hlow, hhigh, by decide, by decide⟩

/-! ## The arithmetic of the code -/

/-- Every operation of `move_logical_ball` on this coordinate, taken or not, has operands and
a result that are whole numbers below `2 ^ 24`, so that nothing is rounded. -/
structure ExactMotion (place : Single) (velocity radius n : Int) : Prop where
  whole : place.IsWhole n
  step : (Single.ofInt velocity).IsWhole velocity
  step_back : (Single.ofInt (velocity * -1)).IsWhole (velocity * -1)
  sum : (place.add (.ofInt velocity)).IsWhole (n + velocity)
  sum_small : |n + velocity| < 2 ^ 24
  back : ((place.add (.ofInt velocity)).add (.ofInt (velocity * -1))).IsWhole
    (n + velocity + velocity * -1)
  back_small : |n + velocity + velocity * -1| < 2 ^ 24
  border : (Single.ofInt radius).IsWhole radius
  far_border : (Single.sub (.ofInt 1000) (.ofInt radius)).IsWhole (1000 - radius)
  far_border_small : |1000 - radius| < 2 ^ 24

theorem exactMotion {place : Single} {velocity radius n : Int} (hradius : 0 ≤ radius)
    (hplace : place.IsWhole n) (h : Inside radius n velocity) :
    ExactMotion place velocity radius n := by
  obtain ⟨hvlow, hvhigh⟩ := h.abs_velocity
  have hlow := h.low
  have hhigh := h.high
  have hexact : ∀ k : Int, -10000 ≤ k → k ≤ 10000 → (Single.ofInt k).IsWhole k := by
    intro k hk₁ hk₂
    exact Single.ofInt_exact (abs_le.mpr ⟨by omega, by omega⟩)
  have hstep := hexact velocity (by omega) (by omega)
  have hback := hexact (velocity * -1) (by omega) (by omega)
  have hborder := hexact radius (by omega) (by omega)
  have hsum : (place.add (.ofInt velocity)).IsWhole (n + velocity) := by
    rw [Single.add_eq_ofInt hplace hstep]
    exact hexact _ (by omega) (by omega)
  constructor
  case whole => exact hplace
  case step => exact hstep
  case step_back => exact hback
  case sum => exact hsum
  case sum_small => exact abs_lt.mpr ⟨by omega, by omega⟩
  case back =>
    rw [Single.add_eq_ofInt hsum hback]
    exact hexact _ (by omega) (by omega)
  case back_small => exact abs_lt.mpr ⟨by omega, by omega⟩
  case border => exact hborder
  case far_border =>
    rw [Single.sub_eq_ofInt (hexact 1000 (by omega) (by omega)) hborder]
    exact hexact _ (by omega) (by omega)
  case far_border_small => exact abs_lt.mpr ⟨by omega, by omega⟩

/-- The code computes the walk. -/
theorem moveCoordinate_bounce {place : Single} {velocity radius n : Int} (hradius : 0 ≤ radius)
    (hplace : place.IsWhole n) (h : Inside radius n velocity) :
    (moveCoordinate place velocity radius).1.IsWhole (bounce radius n velocity).1 ∧
      (moveCoordinate place velocity radius).2 = (bounce radius n velocity).2 := by
  have hexact := exactMotion hradius hplace h
  simp only [moveCoordinate, bounce, Single.le_whole hexact.sum hexact.border,
    Single.le_whole hexact.far_border hexact.sum, Bool.or_eq_true, decide_eq_true_eq]
  split
  · have hback := hexact.back
    rw [show n + velocity + velocity * -1 = n by omega] at hback
    exact ⟨hback, by omega⟩
  · exact ⟨hexact.sum, rfl⟩

/-! ## Balls -/

/-- A coordinate of a ball in the arena. -/
def InsideCoordinate (place : Single) (velocity radius : Int) : Prop :=
  ∃ n, Inside radius n velocity ∧ ExactMotion place velocity radius n

structure LogicalBall.InArena (b : LogicalBall) : Prop where
  radius : 0 ≤ b.radius ∧ b.radius ≤ 499
  x : InsideCoordinate b.x b.dx b.radius
  y : InsideCoordinate b.y b.dy b.radius

theorem insideCoordinate_move {place : Single} {velocity radius : Int} (hradius : 0 ≤ radius)
    (h : InsideCoordinate place velocity radius) :
    InsideCoordinate (moveCoordinate place velocity radius).1
      (moveCoordinate place velocity radius).2 radius := by
  obtain ⟨n, hinside, hexact⟩ := h
  obtain ⟨hplace, hvelocity⟩ := moveCoordinate_bounce hradius hexact.whole hinside
  rw [hvelocity]
  exact ⟨_, bounce_inside hinside, exactMotion hradius hplace (bounce_inside hinside)⟩

theorem insideCoordinate_velocity {place : Single} {velocity radius : Int}
    {f : Int → Int} (hf : ∀ {n v : Int}, Inside radius n v → Inside radius n (f v))
    (hradius : 0 ≤ radius) (h : InsideCoordinate place velocity radius) :
    InsideCoordinate place (f velocity) radius := by
  obtain ⟨n, hinside, hexact⟩ := h
  exact ⟨n, hf hinside, exactMotion hradius hexact.whole (hf hinside)⟩

theorem inArena_move (b : LogicalBall) (h : b.InArena) : (moveLogicalBall b).InArena :=
  ⟨h.radius, insideCoordinate_move h.radius.1 h.x, insideCoordinate_move h.radius.1 h.y⟩

theorem inArena_speedUp (b : LogicalBall) (h : b.InArena) : (speedUpBall b).InArena :=
  ⟨h.radius, insideCoordinate_velocity speedUp_inside h.radius.1 h.x,
    insideCoordinate_velocity speedUp_inside h.radius.1 h.y⟩

theorem inArena_speedDown (b : LogicalBall) (h : b.InArena) : (speedDownBall b).InArena :=
  ⟨h.radius, insideCoordinate_velocity speedDown_inside h.radius.1 h.x,
    insideCoordinate_velocity speedDown_inside h.radius.1 h.y⟩

/-- The remainder is not negative, because `rand()` and the divisor are not. -/
theorem randomCoordinate_inside {draw : Nat} {radius : Int} {place : Single}
    (hradius : 0 ≤ radius ∧ radius ≤ 499) (h : randomCoordinate draw radius = .ok place) :
    ∃ n, place.IsWhole n ∧ radius ≤ n ∧ n ≤ 999 - radius := by
  obtain ⟨diameter, hdiameter, h₁⟩ := bind_ok.mp h
  obtain ⟨_, rfl⟩ := checkedInt_ok.mp hdiameter
  obtain ⟨range, hrange, h₂⟩ := bind_ok.mp h₁
  obtain ⟨_, rfl⟩ := checkedInt_ok.mp hrange
  split at h₂
  · cases h₂
  · obtain ⟨n, hn, h₃⟩ := bind_ok.mp h₂
    cases h₃
    obtain ⟨_, rfl⟩ := checkedInt_ok.mp hn
    have hlow : 0 ≤ Int.tmod draw (1000 - 2 * radius) :=
      Int.tmod_nonneg _ (Int.natCast_nonneg draw)
    have hhigh : Int.tmod draw (1000 - 2 * radius) < 1000 - 2 * radius :=
      Int.tmod_lt_of_pos _ (by omega)
    exact ⟨_, Single.ofInt_exact (abs_le.mpr ⟨by omega, by omega⟩), by omega, by omega⟩

theorem inArena_create {id radius ownerId : Int} {draws : RandomDraws} {b : LogicalBall}
    (hradius : 0 ≤ radius ∧ radius ≤ 499)
    (h : createLogicalBall id radius ownerId draws = .ok b) : b.InArena := by
  obtain ⟨x, y, hx, hy, rfl⟩ := createLogicalBall_ok.mp h
  have hcoordinate : ∀ {draw : Nat} {place : Single} (turn : Nat),
      randomCoordinate draw radius = .ok place →
      InsideCoordinate place (randomVelocity turn) radius := by
    intro draw place turn hok
    obtain ⟨n, hwhole, hlow, hhigh⟩ := randomCoordinate_inside hradius hok
    have hinside := randomVelocity_inside hlow hhigh turn
    exact ⟨n, hinside, exactMotion hradius.1 hwhole hinside⟩
  exact ⟨hradius, hcoordinate draws.dx hx, hcoordinate draws.dy hy⟩

/-! ## Runs -/

/-- An addition asks for a radius that leaves room in the arena. -/
def BallOp.FitsArena : BallOp → Prop
  | .add _ radius _ _ => 0 ≤ radius ∧ radius ≤ 499
  | _ => True

/-- The step lemma. -/
theorem storeStep_inArena {s s' : BallStore} {op : BallOp} (hop : op.FitsArena)
    (h : ∀ b ∈ s.balls, b.InArena) (hok : storeStep s op = .ok s') :
    ∀ b ∈ s'.balls, b.InArena := by
  apply storeStep_forall (fun _ b _ => inArena_move b) (fun _ _ b _ _ => inArena_speedUp b)
    inArena_speedDown _ h hok
  intro count radius ownerId env he id k b hb
  subst he
  exact inArena_create hop hb

/-- The run lemma. -/
theorem run_storeStep_inArena {ops : List BallOp} (hops : ∀ op ∈ ops, op.FitsArena)
    {s s' : BallStore} (h : ∀ b ∈ s.balls, b.InArena) (hok : run storeStep s ops = .ok s') :
    ∀ b ∈ s'.balls, b.InArena := by
  induction ops generalizing s with
  | nil =>
    cases hok
    exact h
  | cons op ops ih =>
    obtain ⟨t, ht, hrest⟩ := run_cons_ok.mp hok
    have ht' := storeStep_inArena (hops op (List.mem_cons_self ..)) h ht
    exact ih (fun o ho => hops o (List.mem_cons_of_mem op ho)) ht' hrest

/-- **The arena invariant of the motion.** Whatever the order of additions with a radius
between 0 and 499, deletions, changes of speed and motions, every ball is at a whole place of
the arena, moves in both directions at no more than twice the maximal speed, and is moved
without rounding. -/
theorem arena_invariant (ops : List BallOp) (hops : ∀ op ∈ ops, op.FitsArena)
    (m : BallListManager) (h : run ballStep ballManagerInit ops = .ok m) :
    ∀ b ∈ m.toList, b.InArena := by
  obtain ⟨s, hs, hholds⟩ := (h ▸ ballRun_refines ops).left_ok
  rw [hholds.toList_eq]
  apply run_storeStep_inArena hops _ hs
  intro b hb
  cases hb

/-- The largest radius, several changes of speed, and motions in between. -/
def fastBalls : List BallOp :=
  [.add 2 499 5 ⟨fun _ => ⟨1, 0, 0, 1⟩, some⟩, .speedUp 5, .move, .speedUp 5, .move,
    .add 1 0 6 ⟨fun _ => ⟨7, 9, 1, 0⟩, some⟩, .speedDown 6, .move, .deleteBySocket 5]

theorem arena_invariant_fastBalls :
    ∃ m, run ballStep ballManagerInit fastBalls = .ok m ∧ m.totalCount = 1 ∧
      ∀ b ∈ m.toList, b.InArena := by
  have hops : ∀ op ∈ fastBalls, op.FitsArena := by
    intro op hop
    simp only [fastBalls, List.mem_cons, List.not_mem_nil, or_false] at hop
    rcases hop with rfl | rfl | rfl | rfl | rfl | rfl | rfl | rfl | rfl <;>
      simp [BallOp.FitsArena]
  exact ⟨_, rfl, rfl, arena_invariant fastBalls hops _ rfl⟩

end BallGame.Server
