import BallGame.Library.Reflection
import BallGame.Server.Freezing

/-!
# The motion of the balls

Between two commands the balls move on their own. Along one axis a ball walks between the borders
of its radius, so that its motion repeats, with a period that its place and its velocity give.

* `iterate_moveLogicalBall_iff`: when a ball is where it was, with the velocity it had;
* `motion_recurs`: when all balls are;
* `balls_sweep`: the places a ball comes to.
-/

namespace BallGame.Server

open Library Function

/-! ## One axis -/

theorem bounce_eq_reflect (radius n v : Int) :
    bounce radius n v = reflect radius (1000 - radius) (n, v) := by
  unfold bounce reflect
  by_cases hwall : n + v ≤ radius ∨ 1000 - radius ≤ n + v
  · rw [if_pos hwall, if_neg (by omega)]
  · rw [if_neg hwall, if_pos (by omega)]

theorem inside_reflect {radius : Int} {q : Int × Int} (h : Inside radius q.1 q.2) :
    Inside radius (reflect radius (1000 - radius) q).1 (reflect radius (1000 - radius) q).2 := by
  rw [← bounce_eq_reflect radius q.1 q.2]
  exact bounce_inside h

theorem onWalk_moveAxis {radius : Int} (hradius : 0 ≤ radius) {p : Single × Int} {q : Int × Int}
    (hp : OnWalk p q) (hq : Inside radius q.1 q.2) :
    OnWalk (moveAxis p radius) (reflect radius (1000 - radius) q) := by
  obtain ⟨place, v⟩ := p
  obtain ⟨hplace, rfl⟩ : place.IsWhole q.1 ∧ v = q.2 := hp
  rw [← bounce_eq_reflect radius q.1 q.2]
  exact moveCoordinate_bounce hradius hplace hq

/-- The arithmetic of the code follows the walk for any number of ticks. -/
theorem onWalk_iterate {radius : Int} (hradius : 0 ≤ radius) {p : Single × Int} {q : Int × Int}
    (hp : OnWalk p q) (hq : Inside radius q.1 q.2) (k : Nat) :
    OnWalk ((fun p => moveAxis p radius)^[k] p) ((reflect radius (1000 - radius))^[k] q) ∧
      Inside radius ((reflect radius (1000 - radius))^[k] q).1
        ((reflect radius (1000 - radius))^[k] q).2 := by
  induction k with
  | zero => exact ⟨hp, hq⟩
  | succ k ih =>
    rw [iterate_succ_apply', iterate_succ_apply']
    exact ⟨onWalk_moveAxis hradius ih.1 ih.2, inside_reflect ih.2⟩

theorem onWalk_eq_iff {p p' : Single × Int} {q q' : Int × Int} (h : OnWalk p q)
    (h' : OnWalk p' q') : p = p' ↔ q = q' := by
  rw [Prod.ext_iff, Prod.ext_iff, h.1.eq_iff h'.1, h.2, h'.2]

/-- A ball off its lower border. -/
theorem settled_of_lt {radius : Int} {q : Int × Int} (h : Inside radius q.1 q.2)
    (hlt : radius < q.1) : Settled radius (1000 - radius) q := by
  have hhigh := h.high
  exact ⟨h.moving, h.low, by omega, fun he => absurd he hlt.ne'⟩

/-- With two ticks a ball leaves its lower border, unless it has no room to do so. -/
theorem settled_reflect_reflect {radius : Int} {q : Int × Int} (h : Inside radius q.1 q.2) :
    Settled radius (1000 - radius)
      (reflect radius (1000 - radius) (reflect radius (1000 - radius) q)) := by
  obtain ⟨n, v⟩ := q
  have hinside := inside_reflect (inside_reflect h)
  have hlow : radius ≤ n := h.low
  have hhigh : n ≤ 999 - radius := h.high
  have hmoving : v ≠ 0 := h.moving
  have hfree : ∀ {k w : Int}, radius < k + w ∧ k + w < 1000 - radius →
      reflect radius (1000 - radius) (k, w) = (k + w, w) := fun hfree => if_pos hfree
  have hwall : ∀ {k w : Int}, ¬ (radius < k + w ∧ k + w < 1000 - radius) →
      reflect radius (1000 - radius) (k, w) = (k, -w) := fun hwall => if_neg hwall
  by_cases hfirst : radius < n + v ∧ n + v < 1000 - radius
  · apply settled_of_lt hinside
    rw [hfree hfirst]
    by_cases hsecond : radius < n + v + v ∧ n + v + v < 1000 - radius
    · rw [hfree hsecond]
      exact hsecond.1
    · rw [hwall hsecond]
      exact hfirst.1
  · rw [hwall hfirst] at hinside ⊢
    by_cases hsecond : radius < n + -v ∧ n + -v < 1000 - radius
    · apply settled_of_lt hinside
      rw [hfree hsecond]
      exact hsecond.1
    · rw [hwall hsecond, neg_neg]
      refine ⟨hmoving, hlow, ?_, ?_⟩
      · dsimp only
        omega
      · dsimp only
        omega

/-! ## Balls -/

theorem iterate_moveLogicalBall (b : LogicalBall) (k : Nat) :
    moveLogicalBall^[k] b =
      { b with
        x := ((fun p => moveAxis p b.radius)^[k] (b.x, b.dx)).1
        dx := ((fun p => moveAxis p b.radius)^[k] (b.x, b.dx)).2
        y := ((fun p => moveAxis p b.radius)^[k] (b.y, b.dy)).1
        dy := ((fun p => moveAxis p b.radius)^[k] (b.y, b.dy)).2 } := by
  induction k with
  | zero => rfl
  | succ k ih =>
    rw [iterate_succ_apply', ih, iterate_succ_apply', iterate_succ_apply']
    rfl

/-- The coordinate and its velocity repeat after `k` ticks: `k` is a multiple of twice the number of
places, which are this one and those strictly between the borders that are whole numbers of steps
away from it. -/
def Returns (radius : Int) (place : Single) (velocity : Int) (k : Nat) : Prop :=
  ∃ n, place.IsWhole n ∧ 2 * places radius (1000 - radius) (n, velocity) ∣ k

/-- A coordinate that its walk does not leave for good. -/
def SettledCoordinate (place : Single) (velocity radius : Int) : Prop :=
  ∃ n, place.IsWhole n ∧ Inside radius n velocity ∧ Settled radius (1000 - radius) (n, velocity)

theorem settledCoordinate_two_moves {place : Single} {velocity radius : Int} (hradius : 0 ≤ radius)
    (h : InsideCoordinate place velocity radius) :
    SettledCoordinate ((fun p => moveAxis p radius)^[2] (place, velocity)).1
      ((fun p => moveAxis p radius)^[2] (place, velocity)).2 radius := by
  obtain ⟨n, hinside, hexact⟩ := h
  have hwalk : OnWalk (place, velocity) (n, velocity) := ⟨hexact.whole, rfl⟩
  obtain ⟨⟨hplace, hvelocity⟩, hinside₂⟩ := onWalk_iterate hradius hwalk hinside 2
  have hsettled := settled_reflect_reflect (q := (n, velocity)) hinside
  rw [hvelocity]
  exact ⟨_, hplace, hinside₂, hsettled⟩

/-- **The period of a coordinate.** -/
theorem iterate_moveAxis_iff {place : Single} {velocity radius : Int} (hradius : 0 ≤ radius)
    (h : SettledCoordinate place velocity radius) (k : Nat) :
    (fun p => moveAxis p radius)^[k] (place, velocity) = (place, velocity) ↔
      Returns radius place velocity k := by
  obtain ⟨n, hplace, hinside, hsettled⟩ := h
  have hwalk : OnWalk (place, velocity) (n, velocity) := ⟨hplace, rfl⟩
  rw [onWalk_eq_iff (onWalk_iterate hradius hwalk hinside k).1 hwalk]
  refine hsettled.isPeriodicPt_iff.trans ?_
  constructor
  · intro hdvd
    exact ⟨n, hplace, hdvd⟩
  · rintro ⟨n', hplace', hdvd⟩
    obtain rfl := (hplace.eq_iff hplace').mp rfl
    exact hdvd

/-- The ball is where it was, with the velocity it had, after `k` ticks. -/
def LogicalBall.Recurs (b : LogicalBall) (k : Nat) : Prop :=
  Returns b.radius b.x b.dx k ∧ Returns b.radius b.y b.dy k

structure LogicalBall.Settled (b : LogicalBall) : Prop where
  radius : 0 ≤ b.radius
  x : SettledCoordinate b.x b.dx b.radius
  y : SettledCoordinate b.y b.dy b.radius

theorem settled_two_moves {b : LogicalBall} (hb : b.InArena) : (moveLogicalBall^[2] b).Settled := by
  rw [iterate_moveLogicalBall]
  exact ⟨hb.radius.1, settledCoordinate_two_moves hb.radius.1 hb.x,
    settledCoordinate_two_moves hb.radius.1 hb.y⟩

theorem iterate_moveLogicalBall_iff {b : LogicalBall} (hb : b.Settled) (k : Nat) :
    moveLogicalBall^[k] b = b ↔ b.Recurs k := by
  rw [iterate_moveLogicalBall, LogicalBall.Recurs, ← iterate_moveAxis_iff hb.radius hb.x,
    ← iterate_moveAxis_iff hb.radius hb.y, Prod.ext_iff, Prod.ext_iff]
  cases b
  simp only [LogicalBall.mk.injEq, true_and, and_true]
  tauto

/-! ## Runs of ticks -/

theorem run_moves (s : BallStore) (k : Nat) :
    run storeStep s (List.replicate k .move) = .ok (s.map moveLogicalBall^[k]) := by
  induction k generalizing s with
  | zero =>
    rw [iterate_zero, BallStore.map, List.map_id]
    rfl
  | succ k ih =>
    refine run_cons_ok.mpr ⟨s.map moveLogicalBall, rfl, ?_⟩
    rw [ih, BallStore.map, BallStore.map, List.map_map, ← iterate_succ]
    rfl

/-- A run of ticks moves every ball of the list, and does nothing else. -/
theorem exists_run_moves {m : BallListManager} {s : BallStore} (h : m.Holds s) (k : Nat) :
    ∃ m', run ballStep m (List.replicate k .move) = .ok m' ∧
      m'.toList = m.toList.map moveLogicalBall^[k] := by
  have hagree : Agree BallListManager.Holds (run ballStep m (List.replicate k .move))
      (run storeStep s (List.replicate k .move)) :=
    run_agree (fun _ _ op h => ballStep_refines h op) h
  rw [run_moves] at hagree
  obtain ⟨m', hm', hholds⟩ := hagree.right_ok
  refine ⟨m', hm', ?_⟩
  rw [hholds.toList_eq, h.toList_eq]
  rfl

/-- The balls of a run are in the arena. -/
theorem BallListManager.Holds.inArena {m : BallListManager} {s : BallStore} (h : m.Holds s)
    {ops : List BallOp} (hops : ∀ op ∈ ops, op.FitsArena)
    (hrun : run storeStep BallStore.empty ops = .ok s) : ∀ b ∈ m.toList, b.InArena := by
  rw [h.toList_eq]
  exact run_storeStep_inArena hops (fun b hb => absurd hb List.not_mem_nil) hrun

/-- **The motion of the balls repeats.** Whatever the order of additions with a radius between 0 and
499, deletions, changes of speed and motions: two ticks later the balls are on their ways, and from
then on the list is what it was exactly after the numbers of ticks that are multiples of the
periods of all coordinates. -/
theorem motion_recurs (ops : List BallOp) (hops : ∀ op ∈ ops, op.FitsArena) (m : BallListManager)
    (h : run ballStep ballManagerInit (ops ++ [.move, .move]) = .ok m) (k : Nat) :
    ∃ m', run ballStep m (List.replicate k .move) = .ok m' ∧
      (m'.toList = m.toList ↔ ∀ b ∈ m.toList, b.Recurs k) := by
  obtain ⟨m₀, hm₀, htwo⟩ := run_append_ok.mp h
  obtain ⟨s₀, hs₀, hholds₀⟩ := (hm₀ ▸ ballRun_refines ops).left_ok
  have harena := hholds₀.inArena hops hs₀
  obtain ⟨m₁, hm₁, hlist⟩ := exists_run_moves hholds₀ 2
  obtain rfl := Except.ok.inj (htwo.symm.trans hm₁)
  obtain ⟨s, _, hholds⟩ := (h ▸ ballRun_refines (ops ++ [BallOp.move, BallOp.move])).left_ok
  obtain ⟨m', hm', hlist'⟩ := exists_run_moves hholds k
  have hsettled : ∀ b ∈ m.toList, b.Settled := by
    rw [hlist]
    intro b hb
    obtain ⟨b₀, hb₀, rfl⟩ := List.mem_map.mp hb
    exact settled_two_moves (harena b₀ hb₀)
  refine ⟨m', hm', ?_⟩
  have hself := List.map_inj_left (l := m.toList) (f := moveLogicalBall^[k]) (g := id)
  rw [List.map_id] at hself
  rw [hlist', hself]
  exact forall₂_congr fun b hb => iterate_moveLogicalBall_iff (hsettled b hb) k

/-- A ball in the middle of the arena. -/
def middleBall : List BallOp := [.add 1 startBallRadius 5 ⟨fun _ => ⟨480, 480, 1, 0⟩, some⟩]

theorem middleBall_fitsArena : ∀ op ∈ middleBall, op.FitsArena := by
  rw [middleBall, List.forall_mem_singleton]
  exact ⟨by decide, by decide⟩

theorem motion_recurs_middleBall : ∃ m m',
    run ballStep ballManagerInit (middleBall ++ [.move, .move]) = .ok m ∧ m.toList.length = 1 ∧
      run ballStep m (List.replicate 958 .move) = .ok m' ∧ m'.toList = m.toList := by
  obtain ⟨m₀, b, hm₀, hlist₀, hx, hy, hradius⟩ : ∃ m₀ b,
      run ballStep ballManagerInit middleBall = .ok m₀ ∧ m₀.toList = [b] ∧
      (b.x, b.dx) = (Single.ofInt 500, (2 : Int)) ∧ (b.y, b.dy) = (Single.ofInt 500, (-2 : Int)) ∧
      b.radius = 20 := ⟨_, _, rfl, rfl, rfl, rfl, rfl⟩
  obtain ⟨s₀, _, hholds₀⟩ := (hm₀ ▸ ballRun_refines middleBall).left_ok
  obtain ⟨m, hm, hlist⟩ := exists_run_moves hholds₀ 2
  have hrun : run ballStep ballManagerInit (middleBall ++ [.move, .move]) = .ok m :=
    run_append_ok.mpr ⟨m₀, hm₀, hm⟩
  obtain ⟨m', hm', hrecurs⟩ := motion_recurs middleBall middleBall_fitsArena m hrun 958
  refine ⟨m, m', hrun, by rw [hlist, hlist₀]; rfl, hm', hrecurs.mpr ?_⟩
  rw [hlist, hlist₀, List.map_singleton, List.forall_mem_singleton, iterate_moveLogicalBall]
  have haxis : ∀ v : Int, Inside 20 500 v →
      2 * places 20 980 ((reflect 20 980)^[2] (500, v)) ∣ 958 →
      Returns 20 ((fun p => moveAxis p 20)^[2] (Single.ofInt 500, v)).1
        ((fun p => moveAxis p 20)^[2] (Single.ofInt 500, v)).2 958 := by
    intro v hinside hdvd
    have hwalk : OnWalk (Single.ofInt 500, v) (500, v) := ⟨Single.ofInt_exact (by decide), rfl⟩
    obtain ⟨⟨hplace, hvelocity⟩, _⟩ := onWalk_iterate (by decide : (0 : Int) ≤ 20) hwalk hinside 2
    rw [hvelocity]
    exact ⟨_, hplace, hdvd⟩
  simp only [LogicalBall.Recurs, hradius, hx, hy]
  exact ⟨haxis 2 ⟨by decide, by decide, by decide, by decide⟩ (by decide),
    haxis (-2) ⟨by decide, by decide, by decide, by decide⟩ (by decide)⟩

/-! ## The places of a ball -/

/-- One coordinate of the ball number `i` comes to all places between the borders that are whole
steps away, and to no other. -/
def Sweeps (m : BallListManager) (i : Nat) (axis : LogicalBall → Single × Int) : Prop :=
  ∀ b, m.toList[i]? = some b → ∀ n, (axis b).1.IsWhole n → b.radius < n → ∀ p,
    (∃ k m' b', run ballStep m (List.replicate k .move) = .ok m' ∧ m'.toList[i]? = some b' ∧
      (axis b').1.IsWhole p) ↔ b.radius < p ∧ p < 1000 - b.radius ∧ (axis b).2 ∣ p - n

theorem sweeps_axis {m : BallListManager} {s : BallStore} (hholds : m.Holds s)
    (harena : ∀ b ∈ m.toList, b.InArena) {axis : LogicalBall → Single × Int}
    (haxis : ∀ b, b.InArena → InsideCoordinate (axis b).1 (axis b).2 b.radius)
    (hmove : ∀ b k, axis (moveLogicalBall^[k] b) =
      (fun p => moveAxis p b.radius)^[k] (axis b)) (i : Nat) : Sweeps m i axis := by
  intro b hb n hn hoff p
  have hin := harena b (List.mem_of_getElem? hb)
  obtain ⟨n', hinside, hexact⟩ := haxis b hin
  obtain rfl := (hn.eq_iff hexact.whole).mp rfl
  have hwalk : OnWalk (axis b) (n, (axis b).2) := ⟨hn, rfl⟩
  rw [← (settled_of_lt (q := (n, (axis b).2)) hinside hoff).visits_iff hoff]
  constructor
  · rintro ⟨k, m', b', hm', hb', hp⟩
    obtain ⟨m₁, hm₁, hlist⟩ := exists_run_moves hholds k
    obtain rfl := Except.ok.inj (hm'.symm.trans hm₁)
    rw [hlist, List.getElem?_map, hb, Option.map_some, Option.some.injEq] at hb'
    subst hb'
    rw [hmove] at hp
    have hplace := (onWalk_iterate hin.radius.1 hwalk hinside k).1.1
    exact ⟨k, (hplace.eq_iff hp).mp rfl⟩
  · rintro ⟨k, rfl⟩
    obtain ⟨m', hm', hlist⟩ := exists_run_moves hholds k
    refine ⟨k, m', moveLogicalBall^[k] b, hm', ?_, ?_⟩
    · rw [hlist, List.getElem?_map, hb, Option.map_some]
    · rw [hmove]
      exact (onWalk_iterate hin.radius.1 hwalk hinside k).1.1

/-- **The places of the balls.** In every state of a run, every ball that is off the lower border
of an axis comes on this axis to all places between the borders that are whole steps away, if only
ticks follow. -/
theorem balls_sweep (ops : List BallOp) (hops : ∀ op ∈ ops, op.FitsArena) (m : BallListManager)
    (h : run ballStep ballManagerInit ops = .ok m) (i : Nat) :
    Sweeps m i (fun b => (b.x, b.dx)) ∧ Sweeps m i (fun b => (b.y, b.dy)) := by
  obtain ⟨s, hs, hholds⟩ := (h ▸ ballRun_refines ops).left_ok
  have harena := hholds.inArena hops hs
  constructor
  · apply sweeps_axis hholds harena (fun b hb => hb.x)
    intro b k
    rw [iterate_moveLogicalBall]
  · apply sweeps_axis hholds harena (fun b hb => hb.y)
    intro b k
    rw [iterate_moveLogicalBall]

/-- The ball in the middle comes to the place 978, but not to 979. -/
theorem balls_sweep_middleBall : ∃ m, run ballStep ballManagerInit middleBall = .ok m ∧
    (∃ k m' b', run ballStep m (List.replicate k .move) = .ok m' ∧ m'.toList[0]? = some b' ∧
      b'.x.IsWhole 978) ∧
    ¬ ∃ k m' b', run ballStep m (List.replicate k .move) = .ok m' ∧ m'.toList[0]? = some b' ∧
      b'.x.IsWhole 979 := by
  obtain ⟨m, b, hm, hb, hx, hdx, hradius⟩ : ∃ m b,
      run ballStep ballManagerInit middleBall = .ok m ∧ m.toList[0]? = some b ∧
      b.x = Single.ofInt 500 ∧ b.dx = 2 ∧ b.radius = 20 := ⟨_, _, rfl, rfl, rfl, rfl, rfl⟩
  have hwhole : b.x.IsWhole 500 := by
    rw [hx]
    exact Single.ofInt_exact (by decide)
  have hsweep := (balls_sweep middleBall middleBall_fitsArena m hm 0).1 b hb 500 hwhole
    (by rw [hradius]; decide)
  simp only [hradius, hdx] at hsweep
  refine ⟨m, hm, (hsweep 978).mpr (by decide), ?_⟩
  rw [hsweep 979]
  decide

end BallGame.Server
