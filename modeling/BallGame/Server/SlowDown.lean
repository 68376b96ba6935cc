import BallGame.Server.Freezing

/-!
# Slowing down

Every speed-down of an owner halves the velocities of its balls, which start below the bound of the
arena. So the number of speed-downs bounds what is left, and a few of them free balls that a high
velocity has frozen.

* `storeStep_slower`, `run_slower`: what a step and a run leave of the bound;
* `slow_down_bounds`: the velocities after any number of speed-downs;
* `slow_down_frees`: four speed-downs free the balls of their owner.
-/

namespace BallGame.Server

open Library

/-- The bound on the velocity of a ball after `j` speed-downs. New balls have two units. -/
def speedBound (j : Nat) : Int := max 2 (4000 / 2 ^ j)

theorem two_le_speedBound (j : Nat) : 2 ≤ speedBound j := le_max_left _ _

theorem speedBound_succ (j : Nat) : speedBound j / 2 ≤ speedBound (j + 1) := by
  have hhalf : (4000 : Int) / 2 ^ (j + 1) = 4000 / 2 ^ j / 2 := by
    rw [pow_succ, Int.ediv_ediv_of_nonneg (by positivity)]
  unfold speedBound
  rw [hhalf]
  omega

/-- Four speed-downs come below half the width of the arena. -/
theorem speedBound_le {j : Nat} (hj : 4 ≤ j) : speedBound j ≤ 250 := by
  obtain ⟨i, rfl⟩ := Nat.exists_eq_add_of_le hj
  have hquot : (4000 : Int) / 2 ^ (4 + i) = 250 / 2 ^ i := by
    rw [pow_add, ← Int.ediv_ediv_of_nonneg (by decide)]
    rfl
  have hle : (250 : Int) / 2 ^ i ≤ 250 := Int.ediv_le_self _ (by decide)
  rw [speedBound, hquot]
  exact max_le (by decide) hle

/-- Halving comes to the next bound. -/
theorem abs_speedDown_le {v : Int} {j : Nat} (h : |v| ≤ speedBound j) :
    |speedDown v| ≤ speedBound (j + 1) := by
  have htwo := two_le_speedBound (j + 1)
  have hnext := speedBound_succ j
  obtain ⟨hlow, hhigh⟩ := abs_le.mp h
  have hpos : 0 ≤ v → v.tdiv 2 = v / 2 := fun h0 => Int.tdiv_eq_ediv_of_nonneg h0
  have hneg : v ≤ 0 → v.tdiv 2 = -(-v / 2) := by
    intro h0
    rw [← Int.tdiv_eq_ediv_of_nonneg (by omega), Int.neg_tdiv, Int.neg_neg]
  rw [abs_le]
  simp only [speedDown]
  omega

theorem abs_speedDown_le_self (v : Int) : |speedDown v| ≤ |v| := by
  have hcases := speedDown_cases v
  rw [abs_le]
  have hle := le_abs_self v
  have hge := neg_abs_le v
  omega

theorem abs_moveCoordinate (place : Single) (v radius : Int) :
    |(moveCoordinate place v radius).2| = |v| := by
  unfold moveCoordinate
  dsimp only
  split
  · rw [mul_neg_one, abs_neg]
  · rfl

theorem abs_randomVelocity (draw : Nat) : |randomVelocity draw| = 2 := by
  unfold randomVelocity
  split <;> rfl

/-- The velocities of a ball are within a bound. -/
structure LogicalBall.Slow (b : LogicalBall) (bound : Int) : Prop where
  x : |b.dx| ≤ bound
  y : |b.dy| ≤ bound

/-- The balls of `o` after `j` speed-downs. -/
def BallStore.Slower (s : BallStore) (o : Int) (j : Nat) : Prop :=
  ∀ b ∈ s.balls, b.ownerId = o → b.Slow (speedBound j)

def BallOp.slowsDown (o : Int) : BallOp → Bool
  | .speedDown o' => o' = o
  | _ => false

def BallOp.speedsUp (o : Int) : BallOp → Bool
  | .speedUp o' => o' = o
  | _ => false

/-- Whatever is not a speed-up of the owner keeps the bound. -/
theorem storeStep_keeps_bound {s s' : BallStore} {op : BallOp} {o : Int} {j : Nat}
    (hop : op.speedsUp o = false) (h : s.Slower o j) (hok : storeStep s op = .ok s') :
    s'.Slower o j := by
  apply storeStep_forall _ _ _ _ h hok
  · intro _ b _ hb ho
    obtain ⟨hx, hy⟩ := hb ho
    refine ⟨?_, ?_⟩
    · exact (abs_moveCoordinate _ _ _).trans_le hx
    · exact (abs_moveCoordinate _ _ _).trans_le hy
  · rintro o' rfl b _ howner _ ho
    have hother : o' ≠ o := of_decide_eq_false hop
    exact absurd (howner.symm.trans ho) hother
  · intro b hb ho
    obtain ⟨hx, hy⟩ := hb ho
    exact ⟨(abs_speedDown_le_self _).trans hx, (abs_speedDown_le_self _).trans hy⟩
  · intro count radius ownerId env _ id k b hb _
    obtain ⟨x, y, _, _, rfl⟩ := createLogicalBall_ok.mp hb
    have htwo := two_le_speedBound j
    exact ⟨(abs_randomVelocity _).trans_le htwo, (abs_randomVelocity _).trans_le htwo⟩

/-- The step lemma. -/
theorem storeStep_slower {s s' : BallStore} {op : BallOp} {o : Int} {j : Nat}
    (hop : op.speedsUp o = false) (h : s.Slower o j) (hok : storeStep s op = .ok s') :
    s'.Slower o (j + if op.slowsDown o then 1 else 0) := by
  by_cases hslow : op.slowsDown o = true
  · rw [if_pos hslow]
    cases op with
    | speedDown o' =>
      obtain rfl : o' = o := of_decide_eq_true hslow
      cases hok
      intro b hb ho
      obtain ⟨b₀, hb₀, rfl⟩ := List.mem_map.mp hb
      by_cases howned : b₀.ownerId = o'
      · rw [LogicalBall.changeOwned, if_pos howned]
        obtain ⟨hx, hy⟩ := h b₀ hb₀ howned
        exact ⟨abs_speedDown_le hx, abs_speedDown_le hy⟩
      · rw [LogicalBall.changeOwned, if_neg howned] at ho
        exact absurd ho howned
    | _ => cases hslow
  · rw [if_neg hslow]
    exact storeStep_keeps_bound hop h hok

/-- The run lemma. -/
theorem run_slower {o : Int} {ops : List BallOp} (hops : ∀ op ∈ ops, op.speedsUp o = false)
    {s s' : BallStore} {j : Nat} (h : s.Slower o j) (hok : run storeStep s ops = .ok s') :
    s'.Slower o (j + ops.countP (BallOp.slowsDown o)) := by
  induction ops generalizing s j with
  | nil =>
    cases hok
    exact h
  | cons op ops ih =>
    obtain ⟨t, ht, hrest⟩ := run_cons_ok.mp hok
    rw [List.forall_mem_cons] at hops
    rw [List.countP_cons, Nat.add_comm (ops.countP _), ← Nat.add_assoc]
    exact ih hops.2 (storeStep_slower hops.1 h ht) hrest

/-! ## Balls that travel again -/

theorem slower_of_inArena {s : BallStore} (h : ∀ b ∈ s.balls, b.InArena) (o : Int) :
    s.Slower o 0 := by
  intro b hb _
  obtain ⟨_, hx, _⟩ := (h b hb).x
  obtain ⟨_, hy, _⟩ := (h b hb).y
  exact ⟨hx.slow, hy.slow⟩

theorem hasStep_of_slow {place : Single} {v : Int}
    (h : InsideCoordinate place v startBallRadius) (hv : |v| < 480) : HasStep place v := by
  obtain ⟨n, hplace, hinside⟩ := h.whole
  exact ⟨n, hplace, room_of_slow hinside hv⟩

theorem roomy_of_slow {b : LogicalBall} (hb : b.InArena) (hradius : b.radius = startBallRadius)
    (hslow : b.Slow 250) : b.Roomy := by
  have hx := hb.x
  have hy := hb.y
  rw [hradius] at hx hy
  exact ⟨hb, hradius, hasStep_of_slow hx (hslow.x.trans_lt (by decide)),
    hasStep_of_slow hy (hslow.y.trans_lt (by decide))⟩

/-- Two ticks from this state move every ball of the owner along both axes. -/
def BallListManager.NoneFrozenOf (m : BallListManager) (o : Int) : Prop :=
  ∃ m₁ m₂, moveAllBall m = .ok m₁ ∧ moveAllBall m₁ = .ok m₂ ∧
    ∀ (i : Nat) (b b₁ b₂ : LogicalBall), m.toList[i]? = some b → m₁.toList[i]? = some b₁ →
      m₂.toList[i]? = some b₂ → b.ownerId = o → BallTravels b b₁ b₂

theorem BallListManager.Holds.noneFrozenOf {m : BallListManager} {s : BallStore} (hs : m.Holds s)
    {o : Int} (hroomy : ∀ b ∈ s.balls, b.ownerId = o → b.Roomy) : m.NoneFrozenOf o := by
  obtain ⟨m₁, hm₁, hs₁⟩ := (ballStep_refines hs .move).right_ok
  obtain ⟨m₂, hm₂, hs₂⟩ := (ballStep_refines hs₁ .move).right_ok
  have hlist₁ : m₁.toList = s.balls.map moveLogicalBall := hs₁.toList_eq
  have hlist₂ : m₂.toList = (s.balls.map moveLogicalBall).map moveLogicalBall := hs₂.toList_eq
  refine ⟨m₁, m₂, hm₁, hm₂, ?_⟩
  intro i b b₁ b₂ hi hi₁ hi₂ ho
  rw [hs.toList_eq] at hi
  rw [hlist₁, List.getElem?_map, hi, Option.map_some, Option.some.injEq] at hi₁
  rw [hlist₂, List.getElem?_map, List.getElem?_map, hi, Option.map_some, Option.map_some,
    Option.some.injEq] at hi₂
  subst hi₁ hi₂
  have hb := hroomy b (List.mem_of_getElem? hi) ho
  exact (ballTravels_iff hb.inArena hb.radius).mpr hb

/-- **Slowing down.** In every run of balls with the default radius, the speed-downs of an owner
since its last speed-up bound the velocities of its balls, whatever it and the others do in
between: each of them halves the bound, down to two units. From the fourth one on no ball of the
owner is frozen. -/
theorem slow_down_frees (before after : List BallOp)
    (hops : ∀ op ∈ before ++ after, op.DefaultRadius) {o : Int}
    (hafter : ∀ op ∈ after, op.speedsUp o = false) (m : BallListManager)
    (h : run ballStep ballManagerInit (before ++ after) = .ok m) :
    (∀ b ∈ m.toList, b.ownerId = o → b.Slow (speedBound (after.countP (BallOp.slowsDown o)))) ∧
      (4 ≤ after.countP (BallOp.slowsDown o) → m.NoneFrozenOf o) := by
  obtain ⟨s, hs, hholds⟩ := (h ▸ ballRun_refines (before ++ after)).left_ok
  obtain ⟨s₀, hs₀, hrest⟩ := run_append_ok.mp hs
  have hdefault : ∀ {ops : List BallOp} {t t' : BallStore}, (∀ op ∈ ops, op.DefaultRadius) →
      t.Default → run storeStep t ops = .ok t' → t'.Default := by
    intro ops t t' hops ht hrun
    exact run_invariant_throughout (C := fun _ op => op.DefaultRadius)
      (fun _ _ _ hop h hok => storeStep_default hop h hok) (throughout_of_mem hops) ht hrun
  have hempty : BallStore.empty.Default := by
    intro b hb
    cases hb
  have hdefault₀ : s₀.Default :=
    hdefault (fun op hop => hops op (List.mem_append_left _ hop)) hempty hs₀
  have hdefault' : s.Default :=
    hdefault (fun op hop => hops op (List.mem_append_right _ hop)) hdefault₀ hrest
  have hslower := run_slower hafter (slower_of_inArena (fun b hb => (hdefault₀ b hb).1) o) hrest
  rw [Nat.zero_add] at hslower
  refine ⟨?_, ?_⟩
  · rw [hholds.toList_eq]
    exact hslower
  · intro hfour
    apply hholds.noneFrozenOf
    intro b hb ho
    have hbound := speedBound_le hfour
    obtain ⟨hx, hy⟩ := hslower b hb ho
    exact roomy_of_slow (hdefault' b hb).1 (hdefault' b hb).2 ⟨hx.trans hbound, hy.trans hbound⟩

/-- The ball that eight doublings have frozen in the middle. -/
theorem slow_down_frees_middle : ∃ m,
    run ballStep ballManagerInit (doubledInMiddle 8 ++ List.replicate 4 (.speedDown 5)) = .ok m ∧
      m.toList.map LogicalBall.dx = [32] ∧ m.NoneFrozenOf 5 := by
  obtain ⟨m, hm, hdx⟩ : ∃ m,
      run ballStep ballManagerInit (doubledInMiddle 8 ++ List.replicate 4 (.speedDown 5)) =
        .ok m ∧ m.toList.map LogicalBall.dx = [32] := ⟨_, rfl, rfl⟩
  refine ⟨m, hm, hdx, (slow_down_frees (doubledInMiddle 8) _ ?_ ?_ m hm).2 (by decide)⟩
  · intro op hop
    rcases List.mem_append.mp hop with hop | hop
    · exact doubledInMiddle_default 8 op hop
    · obtain ⟨_, rfl⟩ := List.mem_replicate.mp hop
      trivial
  · intro op hop
    obtain ⟨_, rfl⟩ := List.mem_replicate.mp hop
    rfl

end BallGame.Server
