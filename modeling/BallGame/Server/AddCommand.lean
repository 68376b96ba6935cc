import BallGame.Server.Command
import BallGame.Server.MemoryLog

/-!
# Adding balls on command

The radius of an `a` command goes from the text of a client to the divisor of `rand() % ...`
without a check. `create_logical_ball` promises a place within the arena; `RadiusFits` are the
radii for which the ball it creates lies in the arena as a whole.

* `randomCoordinate_between`: the places of a radius that fits;
* `add_command_inside_iff`: the exact condition on the radius of an accepted command;
* `add_command_divides_by_zero`: the command `a:1:500` stops the server.
-/

namespace BallGame.Server

open Library

/-! ## What the command promises -/

/-- `RAND_MAX`. -/
def randMax : Nat := 2147483647

/-- Results of `rand()`. -/
def CommandEnv.Possible (env : CommandEnv) : Prop :=
  ∀ i, (env.draws i).x ≤ randMax ∧ (env.draws i).y ≤ randMax ∧ (env.draws i).dx ≤ randMax ∧
    (env.draws i).dy ≤ randMax

def Between (x : Single) (low high : Int) : Prop := ∃ q h, x = .finite q h ∧ low ≤ q ∧ q ≤ high

/-- The ball is in the arena as a whole. -/
def LogicalBall.Centred (b : LogicalBall) : Prop :=
  Between b.x b.radius (1000 - b.radius) ∧ Between b.y b.radius (1000 - b.radius)

/-- An accepted `a` command computes its divisor without overflow and not as zero, and the balls
it appends to any list are in the arena. -/
structure CreatesInside (count radius : Int) : Prop where
  divisor : IsInt (2 * radius) ∧ IsInt (1000 - 2 * radius) ∧ 1000 - 2 * radius ≠ 0
  balls : ∀ m store, m.Holds store → ∀ fd env, env.Possible → ∀ m' log,
    executeCommand m cmdAdd count radius fd env = .ok (m', log) →
    ∃ created, m'.toList = m.toList ++ created ∧ ∀ b ∈ created, b.Centred

/-- The radius leaves a positive range of places, and neither end of the range is rounded across
the border. -/
def RadiusFits (radius : Int) : Prop :=
  -1073741323 ≤ radius ∧ radius ≤ 499 ∧ (radius : ℚ) ≤ nearest radius ∧
    nearest (999 - radius : Int) ≤ (1000 - radius : Int)

/-- Nothing is rounded below `2 ^ 24`. -/
theorem radiusFits_of_small {radius : Int} (hlow : -16776217 ≤ radius) (hhigh : radius ≤ 499) :
    RadiusFits radius := by
  have hradius : |radius| ≤ 2 ^ 24 := abs_le.mpr ⟨by omega, by omega⟩
  have hfar : |999 - radius| ≤ 2 ^ 24 := abs_le.mpr ⟨by omega, by omega⟩
  refine ⟨by omega, hhigh, ?_, ?_⟩
  · rw [nearest_of_abs_le hradius]
  · rw [nearest_of_abs_le hfar]
    exact_mod_cast (by omega : 999 - radius ≤ 1000 - radius)

/-! ## One coordinate -/

theorem between_ofInt_iff {n low high : Int} (hlow : -2 ^ 40 ≤ low) (hhigh : high ≤ 2 ^ 40) :
    Between (.ofInt n) low high ↔ (low : ℚ) ≤ nearest n ∧ nearest n ≤ high := by
  constructor
  · intro h
    obtain ⟨q, hq, he, hbetween⟩ := h
    unfold Single.ofInt Single.ofRat at he
    split at he
    · cases he
      exact hbetween
    · cases he
  · intro h
    have hl : (-2 ^ 40 : ℚ) ≤ low := by exact_mod_cast hlow
    have hh : (high : ℚ) ≤ 2 ^ 40 := by exact_mod_cast hhigh
    have hfinite : |nearest (n : ℚ)| < 2 ^ 128 := by
      have habs : |nearest (n : ℚ)| ≤ 2 ^ 40 := abs_le.mpr ⟨hl.trans h.1, h.2.trans hh⟩
      exact lt_of_le_of_lt habs (by norm_num)
    refine ⟨nearest n, ⟨nearest_nearest _, hfinite⟩, ?_, h⟩
    rw [Single.ofInt, Single.ofRat, dif_pos hfinite]

/-- The coordinate is one of the range. -/
theorem randomCoordinate_ok {draw : Nat} {radius : Int} {x : Single}
    (h : randomCoordinate draw radius = .ok x) :
    x = .ofInt (Int.tmod draw (1000 - 2 * radius) + radius) := by
  obtain ⟨diameter, hdiameter, h₁⟩ := bind_ok.mp h
  obtain ⟨_, rfl⟩ := checkedInt_ok.mp hdiameter
  obtain ⟨range, hrange, h₂⟩ := bind_ok.mp h₁
  obtain ⟨_, rfl⟩ := checkedInt_ok.mp hrange
  split at h₂
  · cases h₂
  · obtain ⟨n, hn, h₃⟩ := bind_ok.mp h₂
    cases h₃
    obtain ⟨_, rfl⟩ := checkedInt_ok.mp hn
    rfl

/-- A divisor that is defined and a place that is an `int` give a coordinate. -/
theorem randomCoordinate_of_place {draw : Nat} {radius n : Int}
    (hdivisor : IsInt (2 * radius) ∧ IsInt (1000 - 2 * radius) ∧ 1000 - 2 * radius ≠ 0)
    (hn : Int.tmod draw (1000 - 2 * radius) + radius = n) (hint : IsInt n) :
    randomCoordinate draw radius = .ok (.ofInt n) := by
  obtain ⟨h₁, h₂, h₃⟩ := hdivisor
  subst hn
  simp only [randomCoordinate, checkedInt_ok.mpr ⟨h₁, rfl⟩, checkedInt_ok.mpr ⟨h₂, rfl⟩,
    checkedInt_ok.mpr ⟨hint, rfl⟩, bind, Except.bind, if_neg h₃]

theorem randomCoordinate_between {draw : Nat} {radius : Int} {x : Single}
    (hradius : RadiusFits radius) (h : randomCoordinate draw radius = .ok x) :
    Between x radius (1000 - radius) := by
  obtain ⟨hlow, hhigh, hnear, hfar⟩ := hradius
  have hmod₁ : 0 ≤ Int.tmod draw (1000 - 2 * radius) :=
    Int.tmod_nonneg _ (Int.natCast_nonneg draw)
  have hmod₂ : Int.tmod draw (1000 - 2 * radius) < 1000 - 2 * radius :=
    Int.tmod_lt_of_pos _ (by omega)
  rw [randomCoordinate_ok h, between_ofInt_iff (by omega) (by omega)]
  -- rounding is monotone, so the ends of the range decide
  constructor
  · apply hnear.trans
    apply nearest_mono
    exact_mod_cast (by omega : radius ≤ Int.tmod draw (1000 - 2 * radius) + radius)
  · refine le_trans ?_ hfar
    apply nearest_mono
    exact_mod_cast (by omega : Int.tmod draw (1000 - 2 * radius) + radius ≤ 999 - radius)

/-! ## The command -/

/-- With the same draws for every ball and enough memory the whole addition succeeds. -/
theorem add_same_draws {radius : Int} (ownerId : Int) (draws : RandomDraws) {x y : Single}
    (hx : randomCoordinate draws.x radius = .ok x) (hy : randomCoordinate draws.y radius = .ok y)
    (n i : Nat) {s : BallStore} (hlost : s.lost = false) (hlow : 0 ≤ s.totalCount)
    (hhigh : s.totalCount + n ≤ 2147483647) :
    ∃ s', s.add radius ownerId (fun _ => draws) some n i = .ok s' := by
  induction n generalizing i s with
  | zero => exact ⟨s, rfl⟩
  | succ n ih =>
    have hint : IsInt (s.totalCount + 1) := ⟨by omega, by omega⟩
    have hkept : ¬ (s.lost = true ∧ s.balls ≠ []) := by
      intro h
      rw [hlost] at h
      cases h.1
    obtain ⟨s', hs'⟩ := ih (i + 1) (s := ⟨s.balls ++
      [newBall s.totalCount radius ownerId draws x y], s.totalCount + 1, false⟩) rfl
      (by simp only; omega) (by simp only; omega)
    exact ⟨s', add_succ_ok.mpr ⟨x, y, _, hint, hx, hy, push_ok.mpr ⟨hkept, rfl⟩, hs'⟩⟩

/-- Every place of the range is the place of a ball that some `a` command creates. -/
theorem created_at {count radius : Int} (hcount : IsInt count)
    (hdivisor : IsInt (2 * radius) ∧ IsInt (1000 - 2 * radius) ∧ 1000 - 2 * radius ≠ 0)
    {draw : Nat} (hdraw : draw ≤ randMax) {n : Int}
    (hn : Int.tmod draw (1000 - 2 * radius) + radius = n) (hint : IsInt n)
    (h : CreatesInside count radius) : Between (.ofInt n) radius (1000 - radius) := by
  have hplace := randomCoordinate_of_place hdivisor hn hint
  have hclamp : ((max 1 count).toNat : Int) = max 1 count := by omega
  have hhigh := hcount.2
  obtain ⟨store, hstore⟩ := add_same_draws 0 ⟨draw, draw, 0, 0⟩ hplace
    hplace (max 1 count).toNat 0 (s := BallStore.empty) rfl (Int.le_refl 0)
    (by simp only [BallStore.empty]; omega)
  -- the same addition on the heap
  have hagree := dispatchCommand_agree holds_init cmdAdd (max 1 count) radius 0
    ⟨fun _ => ⟨draw, draw, 0, 0⟩, some⟩
  have hcommand : storeCommand BallStore.empty cmdAdd (max 1 count) radius 0
      ⟨fun _ => ⟨draw, draw, 0, 0⟩, some⟩ = .ok store := by
    have hpositive : (if max 1 count ≤ 0 then 1 else max 1 count) = max 1 count :=
      if_neg (by omega)
    simp only [storeCommand, commandOp, if_true, hpositive]
    exact hstore
  rw [hcommand] at hagree
  obtain ⟨r, hr, hholds⟩ := hagree.right_ok
  have hexecute : executeCommand ballManagerInit cmdAdd count radius 0
      ⟨fun _ => ⟨draw, draw, 0, 0⟩, some⟩ = .ok (r.1, r.2) := by
    have hpositive : (if count ≤ 0 then 1 else count) = max 1 count := by omega
    rw [executeCommand, if_neg (by decide), hpositive]
    exact hr
  obtain ⟨created, hlist, hcentred⟩ := h.balls _ _ holds_init 0 _
    (fun _ => ⟨hdraw, hdraw, Nat.zero_le _, Nat.zero_le _⟩) _ _ hexecute
  -- one of the new balls
  obtain ⟨created', hballs, hnew⟩ := add_created hstore
  obtain ⟨created'', hballs', hids⟩ := add_ids hstore
  obtain rfl : created' = created'' := List.append_cancel_left (hballs.symm.trans hballs')
  obtain rfl : created = created' := by
    rw [hholds.toList_eq, hballs, holds_init.toList_eq] at hlist
    exact (List.append_cancel_left hlist).symm
  have hne : created ≠ [] := by
    intro hnil
    rw [hnil] at hids
    have hlen := congrArg List.length hids
    simp at hlen
    omega
  obtain ⟨b, rest, rfl⟩ := List.exists_cons_of_ne_nil hne
  obtain ⟨id, k, hb⟩ := hnew b (List.mem_cons_self ..)
  obtain ⟨x, y, hx, hy, rfl⟩ := createLogicalBall_ok.mp hb
  cases hplace.symm.trans hx
  exact (hcentred _ (List.mem_cons_self ..)).1

/-- The balls of a radius that fits are in the arena. -/
theorem createsInside_of_fits {radius : Int} (count : Int) (h : RadiusFits radius) :
    CreatesInside count radius := by
  have hlow := h.1
  have hhigh := h.2.1
  refine ⟨⟨⟨by omega, by omega⟩, ⟨by omega, by omega⟩, by omega⟩, ?_⟩
  intro m store hm fd env _ m' log hexecute
  rw [executeCommand, if_neg (by decide)] at hexecute
  have hagree := dispatchCommand_agree hm cmdAdd (if count ≤ 0 then 1 else count) radius fd env
  rw [hexecute] at hagree
  obtain ⟨store', hstore', hm'⟩ := hagree.left_ok
  have hadd : store.add radius fd env.draws env.alloc _ 0 = .ok store' := hstore'
  obtain ⟨created, hballs, hcreated⟩ := add_created hadd
  refine ⟨created, by rw [hm'.toList_eq, hballs, hm.toList_eq], ?_⟩
  intro b hb
  obtain ⟨id, k, hk⟩ := hcreated b hb
  obtain ⟨x, y, hx, hy, rfl⟩ := createLogicalBall_ok.mp hk
  exact ⟨randomCoordinate_between h hx, randomCoordinate_between h hy⟩

/-- Only for such radii: the two ends of the range are drawn. -/
theorem fits_of_createsInside {count radius : Int} (hcount : IsInt count)
    (h : CreatesInside count radius) : RadiusFits radius := by
  obtain ⟨hdouble, hrange, hzero⟩ := h.divisor
  have hd₁ := hdouble.2
  have hr₁ := hrange.2
  have hends : ∀ {n : Int}, Between (.ofInt n) radius (1000 - radius) →
      (radius : ℚ) ≤ nearest n ∧ nearest n ≤ (1000 - radius : Int) := by
    intro n hn
    exact (between_ofInt_iff (by omega) (by omega)).mp hn
  have hzeroDraw : Int.tmod ((0 : Nat) : Int) (1000 - 2 * radius) + radius = radius := by simp
  have hnear := hends (created_at hcount h.divisor (Nat.zero_le _) hzeroDraw
    ⟨by omega, by omega⟩ h)
  have hfit : radius ≤ 1000 - radius := by exact_mod_cast hnear.1.trans hnear.2
  have hlastDraw : Int.tmod ((999 - 2 * radius).toNat : Int) (1000 - 2 * radius) + radius =
      999 - radius := by
    rw [Int.toNat_of_nonneg (by omega), Int.tmod_eq_of_lt (by omega) (by omega)]
    omega
  have hpossible : (999 - 2 * radius).toNat ≤ randMax := by
    simp only [randMax]
    omega
  have hfar := hends (created_at hcount h.divisor hpossible hlastDraw ⟨by omega, by omega⟩ h)
  exact ⟨by omega, by omega, hnear.1, hfar.2⟩

/-- **When an `a` command creates its balls in the arena.** For every accepted command, exactly if
its radius fits. -/
theorem add_command_inside_iff (cmdStr : List Char) (ballCount radius : Int)
    (hop : (parseCommand cmdStr ballCount radius).1 = cmdAdd) :
    CreatesInside (parseCommand cmdStr ballCount radius).2.1
        (parseCommand cmdStr ballCount radius).2.2 ↔
      RadiusFits (parseCommand cmdStr ballCount radius).2.2 := by
  have haccepted : (parseCommand cmdStr ballCount radius).1 ≠ Char.ofNat 0 := by
    rw [hop]
    decide
  exact ⟨fits_of_createsInside (parseCommand_isInt haccepted).1, createsInside_of_fits _⟩

/-- Three balls of radius 30. -/
theorem add_command_inside_iff_three :
    parseCommand ['a', ':', '3', ':', '3', '0'] 0 0 = ('a', 3, 30) ∧ CreatesInside 3 30 :=
  ⟨by decide, (add_command_inside_iff ['a', ':', '3', ':', '3', '0'] 0 0 (by decide)).mpr
    (radiusFits_of_small (by decide) (by decide))⟩

/-- A radius of half the arena makes the divisor zero. -/
theorem add_command_divides_by_zero :
    dispatchCommand ballManagerInit cmdAdd 1 500 7 zeroDraws = .error .divisionByZero ∧
      ¬ ∀ cmdStr ballCount radius, (parseCommand cmdStr ballCount radius).1 = cmdAdd →
        CreatesInside (parseCommand cmdStr ballCount radius).2.1
          (parseCommand cmdStr ballCount radius).2.2 := by
  refine ⟨rfl, ?_⟩
  intro hall
  have hinside := hall ['a', ':', '1', ':', '5', '0', '0'] 0 0 (by decide)
  exact hinside.divisor.2.2 (by decide)

end BallGame.Server
