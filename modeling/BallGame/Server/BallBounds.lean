import BallGame.Server.OwnerIsolation

/-!
# Balls stay in bounds

What holds of every ball of every run, whatever the commands: coordinates are whole numbers of
moderate size, velocities are at most 4000, and the identifier and the radius fit in an `int`.
A coordinate may leave the arena, but near `2 ^ 40` a velocity is less than half a unit in the
last place, and adding it changes nothing any more.

* `bounded_step`: every event keeps the balls in bounds;
* `bounded_run`: the balls of every run are in bounds.
-/

namespace BallGame.Server

open Library

/-! ## Bounds of a ball -/

def BoundedCoordinate (x : Single) : Prop := ∃ n : Int, x.IsWhole n ∧ |n| ≤ 2 ^ 40

def BoundedVelocity (v : Int) : Prop := -4000 ≤ v ∧ v ≤ 4000

structure LogicalBall.Bounded (b : LogicalBall) : Prop where
  id : IsInt b.id
  x : BoundedCoordinate b.x
  y : BoundedCoordinate b.y
  dx : BoundedVelocity b.dx
  dy : BoundedVelocity b.dy
  radius : IsInt b.radius

theorem boundedCoordinate_ofInt {n : Int} (hlow : -2 ^ 40 - 2 ^ 15 ≤ n)
    (hhigh : n ≤ 2 ^ 40 + 2 ^ 15) : BoundedCoordinate (Single.ofInt n) :=
  Single.ofInt_isWhole (abs_le.mpr ⟨by omega, hhigh⟩)

theorem BoundedCoordinate.add {x : Single} (hx : BoundedCoordinate x) {v : Int}
    (hv : BoundedVelocity v) : BoundedCoordinate (x.add (.ofInt v)) := by
  obtain ⟨n, hwhole, hn⟩ := hx
  obtain ⟨hlow, hhigh⟩ := abs_le.mp hn
  obtain ⟨hvlow, hvhigh⟩ := hv
  rw [Single.add_eq_ofInt hwhole (Single.ofInt_exact (abs_le.mpr ⟨by omega, by omega⟩))]
  exact boundedCoordinate_ofInt (by omega) (by omega)

theorem moveCoordinate_bounded {place : Single} {velocity : Int} (radius : Int)
    (hplace : BoundedCoordinate place) (hv : BoundedVelocity velocity) :
    BoundedCoordinate (moveCoordinate place velocity radius).1 ∧
      BoundedVelocity (moveCoordinate place velocity radius).2 := by
  have hback : BoundedVelocity (velocity * -1) := by
    obtain ⟨hlow, hhigh⟩ := hv
    exact ⟨by omega, by omega⟩
  simp only [moveCoordinate]
  split
  · exact ⟨(hplace.add hv).add hback, hback⟩
  · exact ⟨hplace.add hv, hv⟩

theorem speedUp_bounded {v : Int} (hv : BoundedVelocity v) : BoundedVelocity (speedUp v) := by
  obtain ⟨hlow, hhigh⟩ := hv
  simp only [BoundedVelocity, speedUp, maxSpeed, minSpeed]
  omega

theorem speedDown_bounded {v : Int} (hv : BoundedVelocity v) : BoundedVelocity (speedDown v) := by
  obtain ⟨hlow, hhigh⟩ := hv
  have hcases := speedDown_cases v
  simp only [BoundedVelocity]
  omega

theorem moveLogicalBall_bounded {b : LogicalBall} (h : b.Bounded) :
    (moveLogicalBall b).Bounded where
  id := h.id
  x := (moveCoordinate_bounded b.radius h.x h.dx).1
  y := (moveCoordinate_bounded b.radius h.y h.dy).1
  dx := (moveCoordinate_bounded b.radius h.x h.dx).2
  dy := (moveCoordinate_bounded b.radius h.y h.dy).2
  radius := h.radius

theorem speedUpBall_bounded {b : LogicalBall} (h : b.Bounded) : (speedUpBall b).Bounded :=
  ⟨h.id, h.x, h.y, speedUp_bounded h.dx, speedUp_bounded h.dy, h.radius⟩

theorem speedDownBall_bounded {b : LogicalBall} (h : b.Bounded) : (speedDownBall b).Bounded :=
  ⟨h.id, h.x, h.y, speedDown_bounded h.dx, speedDown_bounded h.dy, h.radius⟩

theorem changeOwned_bounded {f : LogicalBall → LogicalBall}
    (hf : ∀ {b : LogicalBall}, b.Bounded → (f b).Bounded) (o : Int) {b : LogicalBall}
    (h : b.Bounded) : (b.changeOwned o f).Bounded := by
  unfold LogicalBall.changeOwned
  split
  · exact hf h
  · exact h

theorem randomCoordinate_bounded {draw : Nat} {radius : Int} {x : Single}
    (hok : randomCoordinate draw radius = .ok x) : BoundedCoordinate x ∧ IsInt radius := by
  obtain ⟨diameter, hdiameter, h₁⟩ := bind_ok.mp hok
  obtain ⟨hint, rfl⟩ := checkedInt_ok.mp hdiameter
  obtain ⟨range, _, h₂⟩ := bind_ok.mp h₁
  split at h₂
  · cases h₂
  · obtain ⟨place, hplace, h₃⟩ := bind_ok.mp h₂
    cases h₃
    obtain ⟨hp, rfl⟩ := checkedInt_ok.mp hplace
    have hlow := hp.1
    have hhigh := hp.2
    have hdlow := hint.1
    have hdhigh := hint.2
    exact ⟨boundedCoordinate_ofInt (by omega) (by omega), by omega, by omega⟩

/-! ## Bounds of the store -/

/-- The counter is at least the number of balls: it also counts failed allocations. -/
structure BallStore.Bounded (s : BallStore) : Prop where
  balls : ∀ b ∈ s.balls, b.Bounded
  counted : (s.balls.length : Int) ≤ s.totalCount
  small : s.totalCount ≤ 2147483647

theorem bounded_empty : BallStore.empty.Bounded where
  balls := fun b hb => absurd hb List.not_mem_nil
  counted := Int.le_refl 0
  small := by decide

theorem BallStore.Bounded.keep {s : BallStore} (h : s.Bounded) {bs : List LogicalBall}
    (hbs : bs.Sublist s.balls) : (s.keep bs).Bounded := by
  have hlen := hbs.length_le
  have hcounted := h.counted
  have hsmall := h.small
  refine ⟨fun b hb => h.balls b (hbs.subset hb), ?_, ?_⟩
  · simp only [BallStore.keep]
    omega
  · simp only [BallStore.keep]
    omega

theorem BallStore.Bounded.map {s : BallStore} (h : s.Bounded) {f : LogicalBall → LogicalBall}
    (hf : ∀ {b : LogicalBall}, b.Bounded → (f b).Bounded) : (s.map f).Bounded := by
  refine ⟨?_, ?_, h.small⟩
  · intro b hb
    obtain ⟨b₀, hb₀, rfl⟩ := List.mem_map.mp hb
    exact hf (h.balls b₀ hb₀)
  · simpa [BallStore.map] using h.counted

theorem BallStore.Bounded.add {radius ownerId : Int} {draws : Nat → RandomDraws}
    {alloc : Nat → Option Nat} {remaining i : Nat} {s s' : BallStore} (h : s.Bounded)
    (hok : s.add radius ownerId draws alloc remaining i = .ok s') : s'.Bounded := by
  induction remaining generalizing i s with
  | zero =>
    cases hok
    exact h
  | succ remaining ih =>
    obtain ⟨x, y, u, hint, hx, hy, hu, hrest⟩ := add_succ_ok.mp hok
    obtain ⟨_, rfl⟩ := push_ok.mp hu
    have hcounted := h.counted
    have hhigh := hint.2
    obtain ⟨hxb, hradius⟩ := randomCoordinate_bounded hx
    have hvelocity : ∀ draw, BoundedVelocity (randomVelocity draw) := by
      intro draw
      simp only [BoundedVelocity, randomVelocity]
      omega
    have hnew : (newBall s.totalCount radius ownerId (draws i) x y).Bounded := by
      refine ⟨⟨?_, ?_⟩, hxb, (randomCoordinate_bounded hy).1, hvelocity _, hvelocity _, hradius⟩
      · simp only [newBall]
        omega
      · simp only [newBall]
        omega
    refine ih ⟨?_, ?_, hhigh⟩ hrest
    · intro b hb
      rcases List.mem_append.mp hb with hb | hb
      · exact h.balls b hb
      · split at hb
        · obtain rfl := List.mem_singleton.mp hb
          exact hnew
        · cases hb
    · simp only [List.length_append]
      split
      · simp only [List.length_singleton]
        omega
      · simp only [List.length_nil]
        omega

/-! ## Every event keeps the bounds -/

theorem storeStep_bounded {s s' : BallStore} (h : s.Bounded) {op : BallOp}
    (hok : storeStep s op = .ok s') : s'.Bounded := by
  cases op with
  | add count radius ownerId env => exact h.add hok
  | delete count ownerId =>
    rw [storeStep] at hok
    split at hok
    · cases hok
    · cases hok
      exact h.keep (eraseLast_sublist _ _ _)
  | deleteBySocket socketFd =>
    cases hok
    exact h.keep List.filter_sublist
  | move =>
    cases hok
    exact h.map moveLogicalBall_bounded
  | speedUp ownerId =>
    cases hok
    exact h.map (changeOwned_bounded speedUpBall_bounded ownerId)
  | speedDown ownerId =>
    cases hok
    exact h.map (changeOwned_bounded speedDownBall_bounded ownerId)

/-- The step lemma. -/
theorem bounded_step {s s' : BallStore} (h : s.Bounded) {e : StoreEvent}
    (hok : storeEvent s e = .ok s') : s'.Bounded := by
  cases e with
  | command cmd count radius ownerId env =>
    rw [storeEvent, storeCommand] at hok
    split at hok
    · exact storeStep_bounded h hok
    · cases hok
      exact h
  | disconnect socketFd =>
    have hdelete : storeStep s (.deleteBySocket socketFd) = .ok s' := hok
    exact storeStep_bounded h hdelete
  | tick =>
    have hmove : storeStep s .move = .ok s' := hok
    exact storeStep_bounded h hmove

/-- The run lemma, on the heap: every ball of every run is in bounds. -/
theorem bounded_run {events : List StoreEvent} {m : BallListManager}
    (h : run eventStep ballManagerInit events = .ok m) :
    ∃ s : BallStore, m.Holds s ∧ s.Bounded := by
  obtain ⟨s, hs, hms⟩ := (h ▸ eventRun_agree events).left_ok
  exact ⟨s, hms, run_invariant (fun _ _ _ hb hok => bounded_step hb hok) bounded_empty hs⟩

end BallGame.Server
