import BallGame.Server.AddCommand
import BallGame.Server.Broadcast

/-!
# The size of the encoded state

The balls are encoded into a buffer of 8192 bytes, and nothing limits their number. The length
of a text is the sum of the decimal widths of the fields, so a run stays within the buffer
exactly as long as these sums do.

* `length_formatBall`: the length of one ball;
* `encoded_state_fits_iff`: the exact condition on the events of a run;
* `encoded_state_overflows`: the command `a:400`.
-/

namespace BallGame.Server

open Library

/-! ## Widths -/

/-- The integer below a coordinate. -/
def wholePart : Single → Int
  | .finite q _ => ⌊q⌋
  | _ => 0

/-- The characters of a ball: nine numerals, two of them with `.00`, and nine separators. -/
def ballWidth (first : Int) (b : LogicalBall) : Nat :=
  decimalWidth first + decimalWidth (wholePart b.x) + decimalWidth (wholePart b.y) +
    decimalWidth b.dx + decimalWidth b.dy + decimalWidth b.radius +
    decimalWidth b.color.r.toNat + decimalWidth b.color.g.toNat + decimalWidth b.color.b.toNat + 15

/-- The width of all balls, each with its identifier. -/
def stateWidth (bs : List LogicalBall) : Nat := (bs.map fun b => ballWidth b.id b).sum

/-- The width of the balls of an owner, each with the number of the owner. -/
def ownerWidth (ownerId : Int) (bs : List LogicalBall) : Nat :=
  ((bs.filter (LogicalBall.ownedBy ownerId)).map (ballWidth ownerId)).sum

/-- With the final NUL, the texts have room in the buffer. -/
def FitsBuffer (bs : List LogicalBall) : Prop :=
  stateWidth bs + 1 ≤ bufferSize ∧
    ∀ ownerId, IsInt ownerId → ownerWidth ownerId bs + 1 ≤ bufferSize

theorem wholePart_of_isWhole {x : Single} {n : Int} (hx : x.IsWhole n) : wholePart x = n := by
  obtain ⟨_, rfl⟩ := hx
  exact Int.floor_intCast n

theorem length_printed {x : Single} (hx : BoundedCoordinate x) :
    (printFixed x).length = decimalWidth (wholePart x) + 3 := by
  obtain ⟨n, hwhole, _⟩ := hx
  rw [length_printFixed_eq hwhole, wholePart_of_isWhole hwhole]

theorem length_byte (c : UInt8) : (Nat.toDigits 10 c.toNat).length = decimalWidth c.toNat := by
  rw [length_toDigits, decimalWidth, if_neg (by omega), Int.natAbs_natCast, Nat.zero_add]

theorem length_formatBall {first : Int} (hfirst : IsInt first) {b : LogicalBall}
    (hb : b.Printable) : (formatBall first b).length = ballWidth first b := by
  rw [formatBall_eq hfirst hb.ints, ballText, ballWidth]
  simp only [List.length_append, List.length_cons, List.length_nil, length_printInt_eq,
    length_printed hb.x, length_printed hb.y, length_byte]
  omega

/-- Every field has a digit. -/
theorem ballWidth_ge (first : Int) (b : LogicalBall) : 24 ≤ ballWidth first b := by
  unfold ballWidth decimalWidth
  omega

/-! ## The serializers -/

theorem length_flatMap_formatBall {first : LogicalBall → Int} {bs : List LogicalBall}
    (hfirst : ∀ b ∈ bs, IsInt (first b)) (hbs : ∀ b ∈ bs, b.Printable) :
    (bs.flatMap fun b => formatBall (first b) b).length =
      (bs.map fun b => ballWidth (first b) b).sum := by
  rw [List.length_flatMap]
  congr 1
  apply List.map_congr_left
  intro b hb
  exact length_formatBall (hfirst b hb) (hbs b hb)

/-- The balls of an owner in their text. -/
theorem serializeBallList_eq {m : BallListManager} {s : BallStore} (h : m.Holds s)
    (ownerId : Int) :
    serializeBallList m ownerId =
      if ((s.balls.filter (LogicalBall.ownedBy ownerId)).flatMap
        (formatBall ownerId)).length < bufferSize
      then .ok ((s.balls.filter (LogicalBall.ownedBy ownerId)).flatMap (formatBall ownerId))
      else .error .outOfBounds := by
  obtain ⟨hr, hns⟩ := h.nodes_eq
  have hbody : (fun (buffer : List Char) (node : Nat × LogicalBall) =>
      if node.2.ownerId = ownerId then strcat buffer (formatBall node.2.ownerId node.2)
      else .ok buffer) = fun buffer node =>
      if nodeOwnedBy ownerId node then strcat buffer (formatBall ownerId node.2)
      else pure buffer := by
    ext buffer node
    by_cases hn : node.2.ownerId = ownerId
    · have hown : nodeOwnedBy ownerId node = true := decide_eq_true hn
      rw [if_pos hn, if_pos hown, hn]
    · have hown : ¬ nodeOwnedBy ownerId node = true := mt LogicalBall.ownedBy_iff.mp hn
      rw [if_neg hn, if_neg hown]
      rfl
  rw [serializeBallList, hr.foldNodes_eq, hbody, ← List.foldlM_filter,
    foldlM_strcat (fun node : Nat × LogicalBall => formatBall ownerId node.2) _ (by decide),
    List.nil_append, ← hns, List.filter_map, List.flatMap_map]
  rfl

/-- Both serializers stay within their buffer, for every owner. -/
structure BallListManager.Encodes (m : BallListManager) : Prop where
  all : ∃ text, serializeBallListAll m = .ok text ∧ text.length + 1 ≤ bufferSize
  owner : ∀ ownerId, IsInt ownerId →
    ∃ text, serializeBallList m ownerId = .ok text ∧ text.length + 1 ≤ bufferSize

/-- Building a text of some length in the buffer. -/
theorem buffered_iff {text : List Char} {n : Nat} (hn : text.length = n) :
    (∃ t, (if text.length < bufferSize then .ok text else .error .outOfBounds :
        Except Stuck (List Char)) = .ok t ∧ t.length + 1 ≤ bufferSize) ↔ n + 1 ≤ bufferSize := by
  constructor
  · intro h
    obtain ⟨t, ht, hlen⟩ := h
    split at ht
    · cases ht
      rwa [← hn]
    · cases ht
  · intro h
    rw [if_pos (by omega)]
    exact ⟨text, rfl, by omega⟩

/-- The widths decide. -/
theorem encodes_iff {m : BallListManager} {s : BallStore} (h : m.Holds s) (hs : s.Bounded) :
    m.Encodes ↔ FitsBuffer s.balls := by
  have hprintable : ∀ b ∈ s.balls, b.Printable := fun b hb => (hs.balls b hb).printable
  have hall : (∃ text, serializeBallListAll m = .ok text ∧ text.length + 1 ≤ bufferSize) ↔
      stateWidth s.balls + 1 ≤ bufferSize := by
    rw [serializeBallListAll_eq h]
    apply buffered_iff
    exact length_flatMap_formatBall (fun b hb => (hprintable b hb).id) hprintable
  have howner : ∀ ownerId, IsInt ownerId →
      ((∃ text, serializeBallList m ownerId = .ok text ∧ text.length + 1 ≤ bufferSize) ↔
        ownerWidth ownerId s.balls + 1 ≤ bufferSize) := by
    intro ownerId hint
    rw [serializeBallList_eq h]
    apply buffered_iff
    apply @length_flatMap_formatBall (fun _ => ownerId) _ (fun _ _ => hint)
    intro b hb
    exact hprintable b (List.mem_filter.mp hb).1
  constructor
  · intro hm
    exact ⟨hall.mp hm.all, fun o ho => (howner o ho).mp (hm.owner o ho)⟩
  · intro hfits
    exact ⟨hall.mpr hfits.1, fun o ho => (howner o ho).mpr (hfits.2 o ho)⟩

/-! ## Steps -/

/-- Fewer balls need less room. -/
theorem FitsBuffer.sublist {bs cs : List LogicalBall} (h : FitsBuffer bs) (hcs : cs.Sublist bs) :
    FitsBuffer cs := by
  constructor
  · have hle : stateWidth cs ≤ stateWidth bs :=
      (hcs.map _).sum_le_sum fun _ _ => Nat.zero_le _
    have hbs := h.1
    omega
  · intro ownerId hint
    have hle : ownerWidth ownerId cs ≤ ownerWidth ownerId bs :=
      ((hcs.filter _).map _).sum_le_sum fun _ _ => Nat.zero_le _
    have hbs := h.2 ownerId hint
    omega

/-- The balls an event leaves have room: an addition brings new ones, motion and speed change
the widths of the old ones, and deletions need no room. -/
def Room (m : BallListManager) : StoreEvent → Prop
  | .command cmd count radius ownerId env =>
    (cmd = cmdAdd → FitsBuffer (m.toList ++ (List.range (max 1 count).toNat).filterMap
      (createdBall m.totalCount radius ownerId env.draws env.alloc))) ∧
    (cmd = cmdSpeedUp → FitsBuffer (m.toList.map (LogicalBall.changeOwned ownerId speedUpBall))) ∧
    (cmd = cmdSpeedDown →
      FitsBuffer (m.toList.map (LogicalBall.changeOwned ownerId speedDownBall)))
  | .disconnect _ => True
  | .tick => FitsBuffer (m.toList.map moveLogicalBall)

/-- The balls after an operation. -/
theorem storeCommand_room {s s' : BallStore} {cmd : Char} {count radius ownerId : Int}
    {env : CommandEnv} (hs : FitsBuffer s.balls)
    (h : storeCommand s cmd count radius ownerId env = .ok s') :
    FitsBuffer s'.balls ↔
      (cmd = cmdAdd → FitsBuffer (s.balls ++ (List.range (max 1 count).toNat).filterMap
        (createdBall s.totalCount radius ownerId env.draws env.alloc))) ∧
      (cmd = cmdSpeedUp →
        FitsBuffer (s.balls.map (LogicalBall.changeOwned ownerId speedUpBall))) ∧
      (cmd = cmdSpeedDown →
        FitsBuffer (s.balls.map (LogicalBall.changeOwned ownerId speedDownBall))) := by
  have hclamp : (if count ≤ 0 then 1 else count) = max 1 count := by omega
  simp only [storeCommand, commandOp, hclamp] at h
  by_cases ha : cmd = cmdAdd
  · subst ha
    simp only [if_true] at h
    have hballs := add_balls (show s.add radius ownerId env.draws env.alloc _ 0 = .ok s' from h)
    rw [← List.range_eq_range', Int.natCast_zero, Int.sub_zero] at hballs
    rw [hballs]
    simp [cmdAdd, cmdSpeedUp, cmdSpeedDown]
  by_cases hd : cmd = cmdDel
  · subst hd
    simp only [if_neg ha, if_true, storeStep] at h
    split at h
    · cases h
    · cases h
      refine iff_of_true (hs.sublist (eraseLast_sublist _ _ _)) ?_
      simp [cmdDel, cmdAdd, cmdSpeedUp, cmdSpeedDown]
  by_cases hw : cmd = cmdSpeedUp
  · subst hw
    cases h
    simp [cmdAdd, cmdSpeedUp, cmdSpeedDown, BallStore.map]
  by_cases hx : cmd = cmdSpeedDown
  · subst hx
    cases h
    simp [cmdAdd, cmdSpeedUp, cmdSpeedDown, BallStore.map]
  simp only [if_neg ha, if_neg hd, if_neg hw, if_neg hx] at h
  cases h
  exact iff_of_true hs ⟨fun he => absurd he ha, fun he => absurd he hw, fun he => absurd he hx⟩

/-- The step lemma. -/
theorem encodes_step {m m' : BallListManager} {s : BallStore} (hm : m.Holds s) (hs : s.Bounded)
    (hfits : m.Encodes) {e : StoreEvent} (h : eventStep m e = .ok m') :
    m'.Encodes ↔ Room m e := by
  have hagree := eventStep_agree hm e
  rw [h] at hagree
  obtain ⟨s', hs', hm'⟩ := hagree.left_ok
  rw [encodes_iff hm hs] at hfits
  rw [encodes_iff hm' (bounded_step hs hs')]
  cases e with
  | command cmd count radius ownerId env =>
    rw [Room, hm.toList_eq, hm.totalCount]
    exact storeCommand_room hfits hs'
  | disconnect socketFd =>
    cases hs'
    exact iff_of_true (hfits.sublist List.filter_sublist) trivial
  | tick =>
    cases hs'
    rw [Room, hm.toList_eq]
    exact Iff.rfl

/-! ## Runs -/

/-- **When the encoded state fits its buffer.** In every run all states are encoded within the
buffer, for every owner, exactly if every event leaves room. -/
theorem encoded_state_fits_iff (events : List StoreEvent) (m : BallListManager)
    (h : run eventStep ballManagerInit events = .ok m) :
    (∀ t, Visits eventStep ballManagerInit events t → t.Encodes) ↔
      Throughout eventStep Room ballManagerInit events := by
  have hstart : ballManagerInit.Encodes := by
    rw [encodes_iff holds_init bounded_empty]
    exact ⟨by decide, fun _ _ => by simp [ownerWidth, BallStore.empty, bufferSize]⟩
  refine visits_iff_throughout (I := fun m => ∃ s : BallStore, m.Holds s ∧ s.Bounded) ?_ ?_
    ⟨_, holds_init, bounded_empty⟩ hstart h
  · intro t e t' hI hok
    obtain ⟨s, hholds, hbounded⟩ := hI
    have hagree := eventStep_agree hholds e
    rw [hok] at hagree
    obtain ⟨s', hs', hholds'⟩ := hagree.left_ok
    exact ⟨s', hholds', bounded_step hbounded hs'⟩
  · intro t e t' hI hP hok
    obtain ⟨s, hholds, hbounded⟩ := hI
    exact encodes_step hholds hbounded hP hok

/-- A client connects, its balls move once and it leaves. -/
theorem encoded_state_fits_iff_one_client :
    ∃ m, run eventStep ballManagerInit [.command 'a' 5 20 7 zeroDraws, .tick, .disconnect 7] =
        .ok m ∧
      ((∀ t, Visits eventStep ballManagerInit
          [.command 'a' 5 20 7 zeroDraws, .tick, .disconnect 7] t → t.Encodes) ↔
        Throughout eventStep Room ballManagerInit
          [.command 'a' 5 20 7 zeroDraws, .tick, .disconnect 7]) :=
  ⟨_, rfl, encoded_state_fits_iff _ _ rfl⟩

/-- 400 balls need at least 9600 bytes. -/
theorem encoded_state_overflows :
    parseCommand ['a', ':', '4', '0', '0'] 0 0 = ('a', 400, 20) ∧
      ¬ ∀ events m, run eventStep ballManagerInit events = .ok m → m.Encodes := by
  refine ⟨by decide, ?_⟩
  intro hall
  have hplace : randomCoordinate 0 20 = .ok (.ofInt 20) :=
    randomCoordinate_of_place (n := 20) (by decide) (by decide) (by decide)
  obtain ⟨s, hs⟩ := add_same_draws 7 ⟨0, 0, 0, 0⟩ hplace hplace 400 0
    (s := BallStore.empty) rfl (Int.le_refl 0) (by decide)
  have hagree := eventStep_agree holds_init (.command cmdAdd 400 20 7 zeroDraws)
  rw [show storeEvent BallStore.empty (.command cmdAdd 400 20 7 zeroDraws) = .ok s from hs]
    at hagree
  obtain ⟨m, hm, hholds⟩ := hagree.right_ok
  have hbounded : s.Bounded := bounded_empty.add hs
  have hfits := (encodes_iff hholds hbounded).mp
    (hall [.command cmdAdd 400 20 7 zeroDraws] m (run_cons_ok.mpr ⟨m, hm, rfl⟩))
  obtain ⟨created, hballs, hids⟩ := add_ids hs
  have hlen : s.balls.length = 400 := by
    have hids' := congrArg List.length hids
    rw [hballs]
    simpa [BallStore.empty] using hids'
  have hwide : ∀ bs : List LogicalBall, 24 * bs.length ≤ stateWidth bs := by
    intro bs
    induction bs with
    | nil => exact Nat.le_refl 0
    | cons b bs ih =>
      have hb := ballWidth_ge b.id b
      simp only [stateWidth, List.map_cons, List.sum_cons, List.length_cons] at ih ⊢
      omega
  have hlow := hwide s.balls
  have hhigh := hfits.1
  simp only [bufferSize] at hhigh
  omega

end BallGame.Server
