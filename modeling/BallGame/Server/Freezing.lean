import BallGame.Server.Arena

/-!
# Balls that freeze

`move_logical_ball` reverses the velocity of a ball that would touch a border and then adds it
to the place beyond the border, which takes the ball back to where it was. It moves on with the
next tick, unless the reversed step meets a border too: then the velocity is reversed at every
tick and the ball never moves again. With the default radius this takes a velocity of at least
480, which eight speed-ups reach.

* `coordinate_travels_iff`: two ticks move a ball along an axis exactly if it has room for one
  step in one of the two directions;
* `room_bounce_iff`: a tick only loses the room of a ball that stands on its border;
* `no_freeze_iff`: no ball of a run ever freezes exactly if every speed-up leaves room and no
  tick finds a fast ball on its border.
-/

namespace BallGame.Server

open Library

/-! ## The walk on one axis -/

/-- A place strictly between the borders of the default radius. -/
def Free (n : Int) : Prop := startBallRadius < n ∧ n < 1000 - startBallRadius

/-- There is room for a step in one of the two directions. -/
def StepRoom (n v : Int) : Prop := Free (n + v) ∨ Free (n - v)

theorem free_iff {n : Int} : Free n ↔ 20 < n ∧ n < 980 := Iff.rfl

theorem room_iff {n v : Int} :
    StepRoom n v ↔ (20 < n + v ∧ n + v < 980) ∨ (20 < n - v ∧ n - v < 980) := Iff.rfl

/-- At less than half the width of the arena there is always room. -/
theorem room_of_slow {n v : Int} (h : Inside startBallRadius n v) (hv : |v| < 480) :
    StepRoom n v := by
  obtain ⟨hlow, hhigh⟩ := abs_lt.mp hv
  have hn : 20 ≤ n ∧ n ≤ 979 := ⟨h.low, h.high⟩
  have hmoving := h.moving
  rw [room_iff]
  omega

theorem bounce_of_free {n v : Int} (h : Free (n + v)) :
    bounce startBallRadius n v = (n + v, v) := by
  obtain ⟨hlow, hhigh⟩ := h
  exact if_neg (by omega)

theorem bounce_of_not_free {n v : Int} (h : ¬ Free (n + v)) :
    bounce startBallRadius n v = (n, -v) := by
  rw [free_iff] at h
  have hborder : n + v ≤ startBallRadius ∨ 1000 - startBallRadius ≤ n + v := by
    simp only [startBallRadius]
    omega
  exact if_pos hborder

/-- A tick keeps the room, unless it moves a fast ball away from the border it stands on. -/
theorem room_bounce_iff {n v : Int} (h : Inside startBallRadius n v) (hroom : StepRoom n v) :
    StepRoom (bounce startBallRadius n v).1 (bounce startBallRadius n v).2 ↔
      (n = startBallRadius → v < 480) := by
  have hlow : 20 ≤ n := h.low
  have hhigh : n ≤ 979 := h.high
  by_cases hfree : Free (n + v)
  · rw [bounce_of_free hfree, room_iff]
    rw [free_iff] at hfree
    simp only [startBallRadius]
    omega
  · rw [bounce_of_not_free hfree, room_iff]
    rw [free_iff] at hfree
    rw [room_iff] at hroom
    simp only [startBallRadius]
    omega

/-- Halving leaves the room there is. -/
theorem room_speedDown {n v : Int} (h : Inside startBallRadius n v) (hroom : StepRoom n v) :
    StepRoom n (speedDown v) := by
  have hlow : 20 ≤ n := h.low
  have hhigh : n ≤ 979 := h.high
  have hmoving := h.moving
  have hcases := speedDown_cases v
  rw [room_iff] at hroom ⊢
  omega

/-! ## Two ticks -/

/-- What two ticks do to one coordinate and its velocity: the place changes at least once, and
after a reflection the ball goes on in the new direction. -/
structure Travels {P : Type} (before between after : P × Int) : Prop where
  changes : between.1 ≠ before.1 ∨ after.1 ≠ between.1
  away : between.2 = -before.2 → after.2 = between.2 ∧ after.1 ≠ between.1

theorem bounce_travels_iff {n v : Int} (h : Inside startBallRadius n v) :
    Travels (n, v) (bounce startBallRadius n v)
        (bounce startBallRadius (bounce startBallRadius n v).1 (bounce startBallRadius n v).2) ↔
      StepRoom n v := by
  have hmoving := h.moving
  by_cases hfree : Free (n + v)
  · rw [bounce_of_free hfree]
    refine iff_of_true ⟨Or.inl ?_, ?_⟩ (Or.inl hfree)
    · simp only
      omega
    · intro hturn
      simp only at hturn
      omega
  · rw [bounce_of_not_free hfree]
    by_cases hback : Free (n + -v)
    · rw [bounce_of_free hback]
      refine iff_of_true ⟨Or.inr ?_, fun _ => ⟨rfl, ?_⟩⟩ (Or.inr hback)
      · simp only
        omega
      · simp only
        omega
    · rw [bounce_of_not_free hback]
      refine iff_of_false ?_ (not_or.mpr ⟨hfree, hback⟩)
      rintro ⟨hchanges, _⟩
      simp at hchanges

/-- The coordinate and its velocity are those of the walk. -/
def OnWalk (p : Single × Int) (q : Int × Int) : Prop := p.1.IsWhole q.1 ∧ p.2 = q.2

theorem OnWalk.travels_iff {p₀ p₁ p₂ : Single × Int} {q₀ q₁ q₂ : Int × Int} (h₀ : OnWalk p₀ q₀)
    (h₁ : OnWalk p₁ q₁) (h₂ : OnWalk p₂ q₂) : Travels p₀ p₁ p₂ ↔ Travels q₀ q₁ q₂ := by
  constructor
  · rintro ⟨hchanges, haway⟩
    rw [Ne, Ne, h₁.1.eq_iff h₀.1, h₂.1.eq_iff h₁.1] at hchanges
    rw [Ne, h₀.2, h₁.2, h₂.2, h₂.1.eq_iff h₁.1] at haway
    exact ⟨hchanges, haway⟩
  · rintro ⟨hchanges, haway⟩
    constructor
    · rwa [Ne, Ne, h₁.1.eq_iff h₀.1, h₂.1.eq_iff h₁.1]
    · rwa [Ne, h₀.2, h₁.2, h₂.2, h₂.1.eq_iff h₁.1]

def moveAxis (p : Single × Int) (radius : Int) : Single × Int := moveCoordinate p.1 p.2 radius

theorem onWalk_move {p : Single × Int} {q : Int × Int} (hp : OnWalk p q)
    (hq : Inside startBallRadius q.1 q.2) :
    OnWalk (moveAxis p startBallRadius) (bounce startBallRadius q.1 q.2) := by
  obtain ⟨place, v⟩ := p
  obtain ⟨hplace, rfl⟩ : place.IsWhole q.1 ∧ v = q.2 := hp
  exact moveCoordinate_bounce (by decide) hplace hq

/-- The code moves a ball along the axis within two ticks exactly if it has room. -/
theorem coordinate_travels_iff {p : Single × Int} {n : Int} (hplace : p.1.IsWhole n)
    (h : Inside startBallRadius n p.2) :
    Travels p (moveAxis p startBallRadius)
        (moveAxis (moveAxis p startBallRadius) startBallRadius) ↔
      StepRoom n p.2 := by
  have h₀ : OnWalk p (n, p.2) := ⟨hplace, rfl⟩
  have h₁ := onWalk_move h₀ h
  rw [h₀.travels_iff h₁ (onWalk_move h₁ (bounce_inside h))]
  exact bounce_travels_iff h

/-! ## Balls -/

/-- The place is a whole number with room for a step. -/
def HasStep (place : Single) (v : Int) : Prop := ∃ n, place.IsWhole n ∧ StepRoom n v

/-- A ball that stands on its border is slow enough to go on once it has left it. -/
def SlowAtBorder (place : Single) (v : Int) : Prop := place.IsWhole startBallRadius → v < 480

/-- A ball with the default radius that has room along both axes. -/
structure LogicalBall.Roomy (b : LogicalBall) : Prop where
  inArena : b.InArena
  radius : b.radius = startBallRadius
  x : HasStep b.x b.dx
  y : HasStep b.y b.dy

theorem HasStep.whole {place : Single} {v n : Int} (h : HasStep place v)
    (hplace : place.IsWhole n) : StepRoom n v := by
  obtain ⟨k, hk, hroom⟩ := h
  obtain rfl := (hk.eq_iff hplace).mp rfl
  exact hroom

theorem InsideCoordinate.whole {place : Single} {v : Int}
    (h : InsideCoordinate place v startBallRadius) :
    ∃ n, place.IsWhole n ∧ Inside startBallRadius n v := by
  obtain ⟨n, hinside, hexact⟩ := h
  exact ⟨n, hexact.whole, hinside⟩

theorem hasStep_move_iff {place : Single} {v : Int}
    (h : InsideCoordinate place v startBallRadius) (hstep : HasStep place v) :
    HasStep (moveCoordinate place v startBallRadius).1
        (moveCoordinate place v startBallRadius).2 ↔ SlowAtBorder place v := by
  obtain ⟨n, hplace, hinside⟩ := h.whole
  obtain ⟨hmoved, hvelocity⟩ := moveCoordinate_bounce (by decide) hplace hinside
  have hroom := room_bounce_iff hinside (hstep.whole hplace)
  rw [hvelocity]
  have hborder : place.IsWhole startBallRadius ↔ n = startBallRadius := by
    constructor
    · intro hwhole
      exact (hplace.eq_iff hwhole).mp rfl
    · rintro rfl
      exact hplace
  rw [SlowAtBorder, hborder, ← hroom]
  exact ⟨fun hmove => hmove.whole hmoved, fun hmove => ⟨_, hmoved, hmove⟩⟩

theorem hasStep_speedDown {place : Single} {v : Int}
    (h : InsideCoordinate place v startBallRadius) (hstep : HasStep place v) :
    HasStep place (speedDown v) := by
  obtain ⟨n, hplace, hinside⟩ := h.whole
  exact ⟨n, hplace, room_speedDown hinside (hstep.whole hplace)⟩

theorem hasStep_randomVelocity {place : Single} {draw : Nat}
    (h : InsideCoordinate place (randomVelocity draw) startBallRadius) :
    HasStep place (randomVelocity draw) := by
  obtain ⟨n, hplace, hinside⟩ := h.whole
  refine ⟨n, hplace, room_of_slow hinside ?_⟩
  rw [abs_lt]
  simp only [randomVelocity]
  omega

theorem roomy_new {id ownerId : Int} {draws : RandomDraws} {b : LogicalBall}
    (h : createLogicalBall id startBallRadius ownerId draws = .ok b) : b.Roomy := by
  have harena : b.InArena := inArena_create (by decide) h
  obtain ⟨x, y, _, _, rfl⟩ := createLogicalBall_ok.mp h
  exact ⟨harena, rfl, hasStep_randomVelocity harena.x, hasStep_randomVelocity harena.y⟩

theorem roomy_move_iff {b : LogicalBall} (h : b.Roomy) :
    (moveLogicalBall b).Roomy ↔ SlowAtBorder b.x b.dx ∧ SlowAtBorder b.y b.dy := by
  have hx := h.inArena.x
  have hy := h.inArena.y
  rw [h.radius] at hx hy
  rw [← hasStep_move_iff hx h.x, ← hasStep_move_iff hy h.y, ← h.radius]
  exact ⟨fun hmoved => ⟨hmoved.x, hmoved.y⟩,
    fun hmoved => ⟨inArena_move b h.inArena, h.radius, hmoved.1, hmoved.2⟩⟩

theorem roomy_speedUp_iff {b : LogicalBall} (h : b.Roomy) :
    (speedUpBall b).Roomy ↔ HasStep b.x (speedUp b.dx) ∧ HasStep b.y (speedUp b.dy) :=
  ⟨fun hup => ⟨hup.x, hup.y⟩,
    fun hup => ⟨inArena_speedUp b h.inArena, h.radius, hup.1, hup.2⟩⟩

theorem roomy_speedDown {b : LogicalBall} (h : b.Roomy) : (speedDownBall b).Roomy := by
  have hx := h.inArena.x
  have hy := h.inArena.y
  rw [h.radius] at hx hy
  exact ⟨inArena_speedDown b h.inArena, h.radius, hasStep_speedDown hx h.x,
    hasStep_speedDown hy h.y⟩

/-- Both coordinates of a ball move within two ticks. -/
structure BallTravels (b b₁ b₂ : LogicalBall) : Prop where
  x : Travels (b.x, b.dx) (b₁.x, b₁.dx) (b₂.x, b₂.dx)
  y : Travels (b.y, b.dy) (b₁.y, b₁.dy) (b₂.y, b₂.dy)

theorem ballTravels_iff {b : LogicalBall} (hb : b.InArena) (hradius : b.radius = startBallRadius) :
    BallTravels b (moveLogicalBall b) (moveLogicalBall (moveLogicalBall b)) ↔ b.Roomy := by
  have hx := hb.x
  have hy := hb.y
  rw [hradius] at hx hy
  obtain ⟨n, hn, hnx⟩ := hx.whole
  obtain ⟨k, hk, hky⟩ := hy.whole
  have htx := coordinate_travels_iff (p := (b.x, b.dx)) hn hnx
  have hty := coordinate_travels_iff (p := (b.y, b.dy)) hk hky
  rw [← hradius] at htx hty
  constructor
  · intro h
    exact ⟨hb, hradius, ⟨n, hn, htx.mp h.x⟩, ⟨k, hk, hty.mp h.y⟩⟩
  · intro h
    exact ⟨htx.mpr (h.x.whole hn), hty.mpr (h.y.whole hk)⟩

/-! ## Runs -/

/-- Two ticks from this state move every ball along both axes. -/
def BallListManager.NoneFrozen (m : BallListManager) : Prop :=
  ∃ m₁ m₂, moveAllBall m = .ok m₁ ∧ moveAllBall m₁ = .ok m₂ ∧
    ∀ (i : Nat) (b b₁ b₂ : LogicalBall), m.toList[i]? = some b → m₁.toList[i]? = some b₁ →
      m₂.toList[i]? = some b₂ → BallTravels b b₁ b₂

def BallOp.DefaultRadius : BallOp → Prop
  | .add _ radius _ _ => radius = startBallRadius
  | _ => True

/-- A speed-up leaves every ball of its owner room for a step, and a tick finds no ball at full
speed on its border. -/
def BallOp.LeavesRoom (m : BallListManager) : BallOp → Prop
  | .speedUp o => ∀ b ∈ m.toList, b.ownerId = o →
      HasStep b.x (Server.speedUp b.dx) ∧ HasStep b.y (Server.speedUp b.dy)
  | .move => ∀ b ∈ m.toList, SlowAtBorder b.x b.dx ∧ SlowAtBorder b.y b.dy
  | _ => True

/-- Every ball is in the arena and has the default radius. -/
def BallStore.Default (s : BallStore) : Prop :=
  ∀ b ∈ s.balls, b.InArena ∧ b.radius = startBallRadius

theorem BallListManager.Holds.noneFrozen_iff {m : BallListManager} {s : BallStore}
    (hs : m.Holds s) (hdefault : s.Default) : m.NoneFrozen ↔ ∀ b ∈ s.balls, b.Roomy := by
  obtain ⟨m₁, hm₁, hs₁⟩ := (ballStep_refines hs .move).right_ok
  obtain ⟨m₂, hm₂, hs₂⟩ := (ballStep_refines hs₁ .move).right_ok
  have hlist₁ : m₁.toList = s.balls.map moveLogicalBall := hs₁.toList_eq
  have hlist₂ : m₂.toList = (s.balls.map moveLogicalBall).map moveLogicalBall := hs₂.toList_eq
  constructor
  · rintro ⟨n₁, n₂, hn₁, hn₂, htravels⟩ b hb
    obtain rfl : m₁ = n₁ := Except.ok.inj (hm₁.symm.trans hn₁)
    obtain rfl : m₂ = n₂ := Except.ok.inj (hm₂.symm.trans hn₂)
    obtain ⟨i, hi⟩ := List.mem_iff_getElem?.mp hb
    apply (ballTravels_iff (hdefault b hb).1 (hdefault b hb).2).mp
    apply htravels i
    · rw [hs.toList_eq, hi]
    · rw [hlist₁, List.getElem?_map, hi, Option.map_some]
    · rw [hlist₂, List.getElem?_map, List.getElem?_map, hi, Option.map_some, Option.map_some]
  · intro hroomy
    refine ⟨m₁, m₂, hm₁, hm₂, ?_⟩
    intro i b b₁ b₂ hi hi₁ hi₂
    rw [hs.toList_eq] at hi
    rw [hlist₁, List.getElem?_map, hi, Option.map_some, Option.some.injEq] at hi₁
    rw [hlist₂, List.getElem?_map, List.getElem?_map, hi, Option.map_some, Option.map_some,
      Option.some.injEq] at hi₂
    subst hi₁ hi₂
    have hb := List.mem_of_getElem? hi
    exact (ballTravels_iff (hdefault b hb).1 (hdefault b hb).2).mpr (hroomy b hb)

theorem storeStep_default {s s' : BallStore} {op : BallOp} (hop : op.DefaultRadius)
    (h : s.Default) (hok : storeStep s op = .ok s') : s'.Default := by
  apply storeStep_forall _ _ _ _ h hok
  · rintro _ b _ ⟨hb, hradius⟩
    exact ⟨inArena_move b hb, hradius⟩
  · rintro _ _ b _ _ ⟨hb, hradius⟩
    exact ⟨inArena_speedUp b hb, hradius⟩
  · rintro b ⟨hb, hradius⟩
    exact ⟨inArena_speedDown b hb, hradius⟩
  · rintro count radius ownerId env rfl id k b hb
    obtain rfl : radius = startBallRadius := hop
    have hroomy := roomy_new hb
    exact ⟨hroomy.inArena, hroomy.radius⟩

/-- The step lemma. -/
theorem storeStep_roomy_iff {s s' : BallStore} {m : BallListManager} (hs : m.Holds s)
    {op : BallOp} (hop : op.DefaultRadius) (h : ∀ b ∈ s.balls, b.Roomy)
    (hok : storeStep s op = .ok s') : (∀ b ∈ s'.balls, b.Roomy) ↔ op.LeavesRoom m := by
  constructor
  · intro h'
    cases op with
    | speedUp o =>
      cases hok
      intro b hb ho
      rw [hs.toList_eq] at hb
      have hup := h' _ (List.mem_map_of_mem hb)
      rw [LogicalBall.changeOwned, if_pos ho] at hup
      exact (roomy_speedUp_iff (h b hb)).mp hup
    | move =>
      cases hok
      intro b hb
      rw [hs.toList_eq] at hb
      exact (roomy_move_iff (h b hb)).mp (h' _ (List.mem_map_of_mem hb))
    | _ => trivial
  · intro hleaves
    apply storeStep_forall _ _ (fun b hb => roomy_speedDown hb) _ h hok
    · rintro rfl b hmem hb
      exact (roomy_move_iff hb).mpr (hleaves b (by rwa [hs.toList_eq]))
    · rintro o rfl b hmem ho hb
      exact (roomy_speedUp_iff hb).mpr (hleaves b (by rwa [hs.toList_eq]) ho)
    · rintro count radius ownerId env rfl id k b hb
      obtain rfl : radius = startBallRadius := hop
      exact roomy_new hb

/-- **Balls that never freeze.** In every run of balls with the default radius, two ticks from
any state of the run move every ball along both axes, exactly if every speed-up of the run
leaves the balls of its owner room for a step and no tick finds a ball on its border at a
velocity of 480 or more. -/
theorem no_freeze_iff (ops : List BallOp) (hops : ∀ op ∈ ops, op.DefaultRadius)
    (m : BallListManager) (h : run ballStep ballManagerInit ops = .ok m) :
    (∀ u, Visits ballStep ballManagerInit ops u → u.NoneFrozen) ↔
      Throughout ballStep (fun m op => op.LeavesRoom m) ballManagerInit ops := by
  have hinit : ∃ s : BallStore, ballManagerInit.Holds s ∧ ∀ b ∈ s.balls, b.Roomy :=
    ⟨_, holds_init, fun b hb => absurd hb List.not_mem_nil⟩
  have hdefault : ∀ s : BallStore, (∀ b ∈ s.balls, b.Roomy) → s.Default :=
    fun s hs b hb => ⟨(hs b hb).inArena, (hs b hb).radius⟩
  refine visits_iff_throughout_of_allowed
    (I := fun m => ∃ s : BallStore, m.Holds s ∧ ∀ b ∈ s.balls, b.Roomy) ?_ ?_ ?_ hops hinit h
  · rintro t op t' ⟨s, hs, hroomy⟩ hop hleaves hok
    obtain ⟨s', hstep, hs'⟩ := (hok ▸ ballStep_refines hs op).left_ok
    exact ⟨s', hs', (storeStep_roomy_iff hs hop hroomy hstep).mpr hleaves⟩
  · rintro t ⟨s, hs, hroomy⟩
    exact (hs.noneFrozen_iff (hdefault s hroomy)).mpr hroomy
  · rintro t op t' ⟨s, hs, hroomy⟩ hop hok hnone
    obtain ⟨s', hstep, hs'⟩ := (hok ▸ ballStep_refines hs op).left_ok
    have hdefault' := storeStep_default hop (hdefault s hroomy) hstep
    exact (storeStep_roomy_iff hs hop hroomy hstep).mp ((hs'.noneFrozen_iff hdefault').mp hnone)

/-- A ball in the middle of the arena, doubled `n` times. -/
def doubledInMiddle (n : Nat) : List BallOp :=
  .add 1 startBallRadius 5 ⟨fun _ => ⟨480, 480, 1, 1⟩, some⟩ :: List.replicate n (.speedUp 5)

theorem doubledInMiddle_default (n : Nat) : ∀ op ∈ doubledInMiddle n, op.DefaultRadius := by
  intro op hop
  simp only [doubledInMiddle, List.mem_cons, List.mem_replicate] at hop
  rcases hop with rfl | ⟨_, rfl⟩ <;> simp [BallOp.DefaultRadius]

theorem no_freeze_iff_seven_doublings :
    ∃ m, run ballStep ballManagerInit (doubledInMiddle 7) = .ok m ∧
      m.toList.map LogicalBall.dx = [256] ∧
      ((∀ u, Visits ballStep ballManagerInit (doubledInMiddle 7) u → u.NoneFrozen) ↔
        Throughout ballStep (fun m op => op.LeavesRoom m) ballManagerInit
          (doubledInMiddle 7)) := by
  obtain ⟨m, hm, hdx⟩ : ∃ m, run ballStep ballManagerInit (doubledInMiddle 7) = .ok m ∧
      m.toList.map LogicalBall.dx = [256] := ⟨_, rfl, rfl⟩
  exact ⟨m, hm, hdx, no_freeze_iff _ (doubledInMiddle_default 7) m hm⟩

/-- With the eighth doubling the ball is caught in the middle: 512 units to either side lead
beyond a border. -/
theorem ball_freezes :
    ¬ ∀ ops m, (∀ op ∈ ops, op.DefaultRadius) → run ballStep ballManagerInit ops = .ok m →
      m.NoneFrozen := by
  intro hall
  obtain ⟨m, hm, hplaces⟩ : ∃ m, run ballStep ballManagerInit (doubledInMiddle 8) = .ok m ∧
      m.toList.map (fun b => (b.x, b.dx)) = [(Single.ofInt 500, 512)] := ⟨_, rfl, rfl⟩
  obtain ⟨s, hs, hholds⟩ := (hm ▸ ballRun_refines (doubledInMiddle 8)).left_ok
  have hdefault : s.Default := by
    apply run_invariant_throughout (C := fun _ op => op.DefaultRadius)
      (fun _ _ _ hop h hok => storeStep_default hop h hok)
      (throughout_of_mem (doubledInMiddle_default 8)) _ hs
    intro b hb
    cases hb
  have hroomy := (hholds.noneFrozen_iff hdefault).mp
    (hall (doubledInMiddle 8) m (doubledInMiddle_default 8) hm)
  obtain ⟨b, hb, he⟩ : ∃ b ∈ m.toList, (b.x, b.dx) = (Single.ofInt 500, (512 : Int)) := by
    have hmem : (Single.ofInt 500, (512 : Int)) ∈ m.toList.map fun b => (b.x, b.dx) := by
      rw [hplaces]
      exact List.mem_singleton_self _
    obtain ⟨b, hb, he⟩ := List.mem_map.mp hmem
    exact ⟨b, hb, he⟩
  obtain ⟨hx, hdx⟩ := Prod.mk.inj he
  rw [hholds.toList_eq] at hb
  have hstep := (hroomy b hb).x
  rw [hx, hdx] at hstep
  have hroom := hstep.whole (Single.ofInt_exact (by decide))
  rw [room_iff] at hroom
  omega

end BallGame.Server
