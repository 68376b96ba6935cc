import BallGame.Server.BallStore
import Mathlib.Data.List.Range

/-!
# Identifiers of balls

`LogicalBall` documents `id` as the unique identifier of a ball. `add_ball` takes it from
`total_count`, which counts the live balls and therefore goes down again when balls are
deleted. `ball_ids_distinct_iff` says exactly when this keeps the identifiers distinct, and
`ball_ids_repeat` is a run in which it does not.
-/

namespace BallGame.Server

open Library

def BallListManager.DistinctIds (m : BallListManager) : Prop :=
  (m.toList.map LogicalBall.id).Nodup

/-- An addition finds none of the identifiers it is about to hand out on a live ball. The
iteration `i` uses `total_count + i`, and a ball whose allocation fails gets no place. -/
def CounterFree (m : BallListManager) : BallOp → Prop
  | .add count _ _ env => ∀ i < count.toNat, env.alloc i ≠ none →
      ∀ b ∈ m.toList, b.id ≠ m.totalCount + i
  | _ => True

/-! ## The balls an addition creates -/

/-- A ball at the place `(x, y)`. -/
def newBall (id radius ownerId : Int) (draws : RandomDraws) (x y : Single) : LogicalBall :=
  ⟨id, x, y, randomVelocity draws.dx, randomVelocity draws.dy, radius, ownerId,
    getColorByOwner ownerId⟩

theorem createLogicalBall_ok {id radius ownerId : Int} {draws : RandomDraws} {b : LogicalBall} :
    createLogicalBall id radius ownerId draws = .ok b ↔
      ∃ x y, randomCoordinate draws.x radius = .ok x ∧ randomCoordinate draws.y radius = .ok y ∧
        b = newBall id radius ownerId draws x y := by
  simp only [createLogicalBall, bind_ok, Except.ok.injEq, newBall]
  constructor
  · rintro ⟨x, hx, y, hy, rfl⟩
    exact ⟨x, y, hx, hy, rfl⟩
  · rintro ⟨x, y, hx, hy, rfl⟩
    exact ⟨x, hx, y, hy, rfl⟩

theorem push_ok {s s' : BallStore} {b : LogicalBall} {total : Int} {alloc : Option Nat} :
    s.push b total alloc = .ok s' ↔ ¬ (s.lost = true ∧ s.balls ≠ []) ∧
      s' = ⟨s.balls ++ (if alloc.isSome then [b] else []), total, alloc.isNone⟩ := by
  unfold BallStore.push
  split
  · rename_i hlost
    simp [hlost]
  · rename_i hkept
    simp only [hkept, not_false_iff, true_and, Except.ok.injEq]
    exact eq_comm

/-- One iteration of `add_ball`. -/
theorem add_succ_ok {radius ownerId : Int} {draws : Nat → RandomDraws} {alloc : Nat → Option Nat}
    {remaining i : Nat} {s s' : BallStore} :
    s.add radius ownerId draws alloc (remaining + 1) i = .ok s' ↔
      ∃ x y u, IsInt (s.totalCount + 1) ∧ randomCoordinate (draws i).x radius = .ok x ∧
        randomCoordinate (draws i).y radius = .ok y ∧
        s.push (newBall s.totalCount radius ownerId (draws i) x y) (s.totalCount + 1)
          (alloc i) = .ok u ∧
        u.add radius ownerId draws alloc remaining (i + 1) = .ok s' := by
  rw [BallStore.add]
  simp only [bind_ok, checkedInt_ok, createLogicalBall_ok]
  constructor
  · rintro ⟨_, ⟨hint, rfl⟩, _, ⟨x, y, hx, hy, rfl⟩, u, hu, hrest⟩
    exact ⟨x, y, u, hint, hx, hy, hu, hrest⟩
  · rintro ⟨x, y, u, hint, hx, hy, hu, hrest⟩
    exact ⟨_, ⟨hint, rfl⟩, _, ⟨x, y, hx, hy, rfl⟩, u, hu, hrest⟩

/-- The iterations from `i` on append one ball each, unless its allocation fails, and count
on from `total_count`. -/
theorem add_ids {radius ownerId : Int} {draws : Nat → RandomDraws} {alloc : Nat → Option Nat}
    {remaining i : Nat} {s s' : BallStore}
    (h : s.add radius ownerId draws alloc remaining i = .ok s') :
    ∃ created, s'.balls = s.balls ++ created ∧
      created.map LogicalBall.id =
        ((List.range' i remaining).filter fun k => (alloc k).isSome).map
          fun (k : Nat) => s.totalCount - i + k := by
  induction remaining generalizing i s with
  | zero =>
    cases h
    exact ⟨[], by simp, rfl⟩
  | succ remaining ih =>
    obtain ⟨x, y, u, _, _, _, hu, hrest⟩ := add_succ_ok.mp h
    obtain ⟨created, hballs, hids⟩ := ih hrest
    obtain ⟨_, rfl⟩ := push_ok.mp hu
    refine ⟨_, by rw [hballs, List.append_assoc], ?_⟩
    have hcounter : s.totalCount + 1 - ((i + 1 : Nat) : Int) = s.totalCount - i := by omega
    rw [List.range'_succ, List.filter_cons, List.map_append, hids]
    simp only [hcounter]
    cases halloc : alloc i with
    | none => simp
    | some choice => simp [newBall]

/-- The ball of iteration `i`, unless its allocation fails. -/
def createdBall (total radius ownerId : Int) (draws : Nat → RandomDraws)
    (alloc : Nat → Option Nat) (i : Nat) : Option LogicalBall :=
  if (alloc i).isSome then (createLogicalBall (total + i) radius ownerId (draws i)).toOption
  else none

/-- The iterations from `i` on append the balls they create. -/
theorem add_balls {radius ownerId : Int} {draws : Nat → RandomDraws} {alloc : Nat → Option Nat}
    {remaining i : Nat} {s s' : BallStore}
    (h : s.add radius ownerId draws alloc remaining i = .ok s') :
    s'.balls = s.balls ++ (List.range' i remaining).filterMap
      (createdBall (s.totalCount - i) radius ownerId draws alloc) := by
  induction remaining generalizing i s with
  | zero =>
    cases h
    simp
  | succ remaining ih =>
    obtain ⟨x, y, u, _, hx, hy, hu, hrest⟩ := add_succ_ok.mp h
    have hballs := ih hrest
    obtain ⟨_, rfl⟩ := push_ok.mp hu
    have hcounter : s.totalCount + 1 - ((i + 1 : Nat) : Int) = s.totalCount - i := by omega
    have hid : s.totalCount - i + i = s.totalCount := by omega
    have hcreate : createLogicalBall s.totalCount radius ownerId (draws i) =
        .ok (newBall s.totalCount radius ownerId (draws i) x y) :=
      createLogicalBall_ok.mpr ⟨x, y, hx, hy, rfl⟩
    rw [hballs, List.range'_succ, List.filterMap_cons, hcounter, List.append_assoc]
    simp only [createdBall, hid, hcreate, Except.toOption]
    cases halloc : alloc i with
    | none => simp
    | some choice => simp

/-- The balls an addition appends are results of `create_logical_ball`. -/
theorem add_created {radius ownerId : Int} {draws : Nat → RandomDraws}
    {alloc : Nat → Option Nat} {remaining i : Nat} {s s' : BallStore}
    (h : s.add radius ownerId draws alloc remaining i = .ok s') :
    ∃ created, s'.balls = s.balls ++ created ∧
      ∀ b ∈ created, ∃ id k, createLogicalBall id radius ownerId (draws k) = .ok b := by
  refine ⟨_, add_balls h, ?_⟩
  intro b hb
  obtain ⟨k, _, hk⟩ := List.mem_filterMap.mp hb
  unfold createdBall at hk
  split at hk
  · cases hcreate : createLogicalBall (s.totalCount - i + k) radius ownerId (draws k) with
    | error e =>
      rw [hcreate] at hk
      cases hk
    | ok b' =>
      rw [hcreate] at hk
      cases hk
      exact ⟨_, k, hcreate⟩
  · cases hk

/-- The new identifiers are distinct, so only a live ball can already carry one. -/
theorem add_ids_nodup_iff {radius ownerId : Int} {draws : Nat → RandomDraws}
    {alloc : Nat → Option Nat} {count : Nat} {s s' : BallStore}
    (hs : (s.balls.map LogicalBall.id).Nodup)
    (h : s.add radius ownerId draws alloc count 0 = .ok s') :
    (s'.balls.map LogicalBall.id).Nodup ↔
      ∀ i < count, alloc i ≠ none → ∀ b ∈ s.balls, b.id ≠ s.totalCount + i := by
  obtain ⟨created, hballs, hids⟩ := add_ids h
  have hnew : (created.map LogicalBall.id).Nodup := by
    rw [hids]
    refine List.Nodup.map ?_ (List.Nodup.filter _ List.nodup_range')
    intro a b hab
    simpa using hab
  rw [hballs, List.map_append, List.nodup_append, hids]
  constructor
  · rintro ⟨_, _, hdisjoint⟩ i hi halloc b hb
    refine hdisjoint b.id (List.mem_map_of_mem hb) _ (List.mem_map.mpr ⟨i, ?_, by simp⟩)
    rw [List.mem_filter, List.mem_range'_1, Option.isSome_iff_ne_none]
    exact ⟨by omega, halloc⟩
  · intro hfree
    refine ⟨hs, hids ▸ hnew, ?_⟩
    intro a ha c hc he
    obtain ⟨b, hb, rfl⟩ := List.mem_map.mp ha
    obtain ⟨k, hk, rfl⟩ := List.mem_map.mp hc
    rw [List.mem_filter, List.mem_range'_1, Option.isSome_iff_ne_none] at hk
    exact hfree k (by omega) hk.2 b hb (by simpa using he)

/-! ## Steps and runs -/

/-- A property of balls that motion and changes of speed keep holds of all balls after an
operation, if it holds of those it creates. Moving and doubling only have to keep it of the
balls that are moved or doubled. -/
theorem storeStep_forall {P : LogicalBall → Prop} {op : BallOp} {s s' : BallStore}
    (hmove : op = .move → ∀ b ∈ s.balls, P b → P (moveLogicalBall b))
    (hup : ∀ o, op = .speedUp o → ∀ b ∈ s.balls, b.ownerId = o → P b → P (speedUpBall b))
    (hdown : ∀ b, P b → P (speedDownBall b))
    (hnew : ∀ count radius ownerId env, op = .add count radius ownerId env →
      ∀ id k b, createLogicalBall id radius ownerId (env.draws k) = .ok b → P b)
    (h : ∀ b ∈ s.balls, P b) (hok : storeStep s op = .ok s') : ∀ b ∈ s'.balls, P b := by
  have hmap : ∀ f : LogicalBall → LogicalBall, (∀ b ∈ s.balls, P b → P (f b)) →
      ∀ b ∈ (s.map f).balls, P b := by
    intro f hf b hb
    obtain ⟨b₀, hb₀, rfl⟩ := List.mem_map.mp hb
    exact hf b₀ hb₀ (h b₀ hb₀)
  have howned : ∀ (f : LogicalBall → LogicalBall) (o : Int),
      (∀ b ∈ s.balls, b.ownerId = o → P b → P (f b)) →
      ∀ b ∈ s.balls, P b → P (b.changeOwned o f) := by
    intro f o hf b hmem hb
    unfold LogicalBall.changeOwned
    split
    · exact hf b hmem ‹_› hb
    · exact hb
  cases op with
  | add count radius ownerId env =>
    obtain ⟨created, hballs, hcreated⟩ := add_created hok
    rw [hballs]
    intro b hb
    rcases List.mem_append.mp hb with hb | hb
    · exact h b hb
    · obtain ⟨id, k, hk⟩ := hcreated b hb
      exact hnew count radius ownerId env rfl id k b hk
  | delete count ownerId =>
    rw [storeStep] at hok
    split at hok
    · cases hok
    · cases hok
      intro b hb
      exact h b ((eraseLast_sublist _ _ _).subset hb)
  | deleteBySocket socketFd =>
    cases hok
    intro b hb
    exact h b (List.filter_sublist.subset hb)
  | move =>
    cases hok
    exact hmap _ (hmove rfl)
  | speedUp ownerId =>
    cases hok
    exact hmap _ (howned _ ownerId (hup ownerId rfl))
  | speedDown ownerId =>
    cases hok
    exact hmap _ (howned _ ownerId fun b _ _ => hdown b)

/-- Operations other than an addition never bring an identifier back. -/
theorem storeStep_ids_sublist {s s' : BallStore} {op : BallOp}
    (hop : ∀ count radius ownerId env, op ≠ .add count radius ownerId env)
    (h : storeStep s op = .ok s') :
    (s'.balls.map LogicalBall.id).Sublist (s.balls.map LogicalBall.id) := by
  have hmap : ∀ f : LogicalBall → LogicalBall, (∀ b, (f b).id = b.id) →
      ((s.map f).balls.map LogicalBall.id).Sublist (s.balls.map LogicalBall.id) := by
    intro f hf
    simp [BallStore.map, List.map_map, Function.comp_def, hf]
  cases op with
  | add count radius ownerId env => exact absurd rfl (hop count radius ownerId env)
  | delete count ownerId =>
    rw [storeStep] at h
    split at h
    · cases h
    · cases h
      exact (eraseLast_sublist _ _ _).map _
  | deleteBySocket socketFd =>
    cases h
    exact List.filter_sublist.map _
  | move =>
    cases h
    exact hmap _ fun _ => rfl
  | speedUp ownerId =>
    cases h
    exact hmap _ fun b => by unfold LogicalBall.changeOwned; split <;> rfl
  | speedDown ownerId =>
    cases h
    exact hmap _ fun b => by unfold LogicalBall.changeOwned; split <;> rfl

theorem BallListManager.Holds.toList_eq {m : BallListManager} {s : BallStore} (h : m.Holds s) :
    m.toList = s.balls := by
  obtain ⟨⟨ns, hr, hns⟩, _⟩ := h
  rw [hr.toList_eq, hns]

/-- The step lemma: an operation keeps the identifiers distinct exactly if the ones it hands
out are free. -/
theorem ballStep_distinctIds_iff {m m' : BallListManager} {op : BallOp}
    (hm : ∃ s, m.Holds s) (hd : m.DistinctIds) (h : ballStep m op = .ok m') :
    m'.DistinctIds ↔ CounterFree m op := by
  obtain ⟨s, hs⟩ := hm
  obtain ⟨s', hok, hs'⟩ := (h ▸ ballStep_refines hs op).left_ok
  unfold BallListManager.DistinctIds at hd ⊢
  rw [hs.toList_eq] at hd
  rw [hs'.toList_eq]
  cases op with
  | add count radius ownerId env =>
    rw [CounterFree, hs.toList_eq, hs.totalCount]
    exact add_ids_nodup_iff hd hok
  | _ =>
    refine ⟨fun _ => trivial, fun _ => (storeStep_ids_sublist ?_ hok).nodup hd⟩
    intro _ _ _ _ he
    cases he

/-- **When identifiers are unique.** In every run from the empty store the identifiers are
distinct in all states exactly if every addition finds the numbers it counts off from
`total_count` free. -/
theorem ball_ids_distinct_iff (ops : List BallOp) (m : BallListManager)
    (h : run ballStep ballManagerInit ops = .ok m) :
    (∀ t, Visits ballStep ballManagerInit ops t → t.DistinctIds) ↔
      Throughout ballStep CounterFree ballManagerInit ops := by
  refine visits_iff_throughout (I := fun m => ∃ s, m.Holds s) ?_ ?_ ⟨_, holds_init⟩ ?_ h
  · rintro t op t' ⟨s, hs⟩ hok
    obtain ⟨s', _, hs'⟩ := (hok ▸ ballStep_refines hs op).left_ok
    exact ⟨s', hs'⟩
  · intro t op t' hI hd hok
    exact ballStep_distinctIds_iff hI hd hok
  · rw [BallListManager.DistinctIds, holds_init.toList_eq]
    exact List.nodup_nil

/-- Two owners get a ball each, the first one leaves, and the second one asks for another
ball. -/
def idReuse : List BallOp :=
  [.add 1 20 5 ⟨fun _ => ⟨0, 0, 0, 0⟩, some⟩, .add 1 20 6 ⟨fun _ => ⟨7, 9, 1, 0⟩, some⟩,
    .deleteBySocket 5, .add 1 20 6 ⟨fun _ => ⟨3, 4, 0, 1⟩, some⟩]

/-- Both balls of the second owner have the identifier 1. -/
theorem ball_ids_repeat :
    ¬ ∀ ops m, run ballStep ballManagerInit ops = .ok m → m.DistinctIds := by
  intro hall
  obtain ⟨m, hm, hids⟩ : ∃ m, run ballStep ballManagerInit idReuse = .ok m ∧
      m.toList.map LogicalBall.id = [1, 1] := ⟨_, rfl, rfl⟩
  have := hall idReuse m hm
  rw [BallListManager.DistinctIds, hids] at this
  exact absurd this (by decide)

/-- The run that stops before the last addition keeps the identifiers distinct. -/
theorem ball_ids_distinct_iff_before_reuse :
    ∃ m, run ballStep ballManagerInit (idReuse.take 3) = .ok m ∧
      ((∀ t, Visits ballStep ballManagerInit (idReuse.take 3) t → t.DistinctIds) ↔
        Throughout ballStep CounterFree ballManagerInit (idReuse.take 3)) :=
  ⟨_, rfl, ball_ids_distinct_iff (idReuse.take 3) _ rfl⟩

end BallGame.Server
