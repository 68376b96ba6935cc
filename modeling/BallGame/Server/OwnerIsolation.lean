import BallGame.Server.Identifiers

/-!
# Owner isolation

All balls share one linked list and one counter, but what an owner's balls look like depends
on that owner's own events and the ticks alone. The proof is a simulation between the run with
all events and the run with the events of one owner: `Shadow` says that the balls of the owner
in the first are the balls of the second, up to their identifiers, and that the second run has
at least as much room to allocate and to count.

* `dispatchCommand_agree`: what the command table computes on the list;
* `owner_isolation`: the events of other owners can be left out, and two interleavings that
  keep the order of every owner's events give every owner the same balls.
-/

namespace BallGame.Server

open Library

/-! ## Commands on the list -/

/-- The operation a command stands for. -/
def commandOp (cmd : Char) (count radius ownerId : Int) (env : CommandEnv) : Option BallOp :=
  if cmd = cmdAdd then some (.add (if count ≤ 0 then 1 else count) radius ownerId env)
  else if cmd = cmdDel then some (.delete (if count ≤ 0 then 1 else count) ownerId)
  else if cmd = cmdSpeedUp then some (.speedUp ownerId)
  else if cmd = cmdSpeedDown then some (.speedDown ownerId)
  else none

def storeCommand (s : BallStore) (cmd : Char) (count radius ownerId : Int) (env : CommandEnv) :
    Except Stuck BallStore :=
  match commandOp cmd count radius ownerId env with
  | some op => storeStep s op
  | none => .ok s

/-- A handler that changes the store and logs. -/
theorem log_agree {x : Except Stuck BallListManager} {y : Except Stuck BallStore}
    (h : Agree BallListManager.Holds x y) (action : LogAction) (ownerId count : Int) :
    Agree (fun r s => r.1.Holds s) (do
      let m ← x
      let entry ← logBallMemoryUsage m action ownerId count
      .ok (m, [entry])) y := by
  apply h.bind_left
  intro m s hms
  simp only [logBallMemoryUsage, countBallByOwner_ok hms, bind, Except.bind]
  exact ⟨_, rfl, hms⟩

theorem dispatchCommand_agree {m : BallListManager} {s : BallStore} (h : m.Holds s) (cmd : Char)
    (count radius ownerId : Int) (env : CommandEnv) :
    Agree (fun r s' => r.1.Holds s') (dispatchCommand m cmd count radius ownerId env)
      (storeCommand s cmd count radius ownerId env) := by
  unfold dispatchCommand storeCommand commandOp
  by_cases ha : cmd = cmdAdd
  · subst ha
    exact log_agree (ballStep_refines h (.add _ radius ownerId env)) .add ownerId _
  by_cases hd : cmd = cmdDel
  · subst hd
    exact log_agree (ballStep_refines h (.delete _ ownerId)) .del ownerId _
  by_cases hw : cmd = cmdSpeedUp
  · subst hw
    exact (ballStep_refines h (.speedUp ownerId)).bind_left fun m s hms => ⟨_, rfl, hms⟩
  by_cases hx : cmd = cmdSpeedDown
  · subst hx
    exact (ballStep_refines h (.speedDown ownerId)).bind_left fun m s hms => ⟨_, rfl, hms⟩
  have hnone : commandTable.find? (fun entry => entry.1 = cmd) = none := by
    simp [commandTable, Ne.symm ha, Ne.symm hd, Ne.symm hw, Ne.symm hx]
  simp only [hnone, ha, hd, hw, hx, if_false]
  exact Agree.ok h

/-! ## Events -/

/-- What happens to the store, one critical section at a time. -/
inductive StoreEvent where
  | command (cmd : Char) (count radius ownerId : Int) (env : CommandEnv)
  | disconnect (socketFd : Int)
  | tick

def eventStep (m : BallListManager) : StoreEvent → Except Stuck BallListManager
  | .command cmd count radius ownerId env => do
    let r ← dispatchCommand m cmd count radius ownerId env
    .ok r.1
  | .disconnect socketFd => deleteBallBySocket m socketFd
  | .tick => moveAllBall m

/-- The same event on the list. -/
def storeEvent (s : BallStore) : StoreEvent → Except Stuck BallStore
  | .command cmd count radius ownerId env => storeCommand s cmd count radius ownerId env
  | .disconnect socketFd => storeStep s (.deleteBySocket socketFd)
  | .tick => storeStep s .move

theorem eventStep_agree {m : BallListManager} {s : BallStore} (h : m.Holds s) (e : StoreEvent) :
    Agree BallListManager.Holds (eventStep m e) (storeEvent s e) := by
  cases e with
  | command cmd count radius ownerId env =>
    exact (dispatchCommand_agree h cmd count radius ownerId env).bind_left
      fun r s hms => ⟨_, rfl, hms⟩
  | disconnect socketFd => exact ballStep_refines h (.deleteBySocket socketFd)
  | tick => exact ballStep_refines h .move

/-- The events on the heap and the events on the plain list go together. -/
theorem eventRun_agree (events : List StoreEvent) :
    Agree BallListManager.Holds (run eventStep ballManagerInit events)
      (run storeEvent BallStore.empty events) :=
  run_agree (fun _ _ e hms => eventStep_agree hms e) holds_init

/-- The events the balls of `o` depend on: those issued by or for `o`, and the ticks. -/
def StoreEvent.concerns (o : Int) : StoreEvent → Bool
  | .command _ _ _ ownerId _ => decide (ownerId = o)
  | .disconnect socketFd => decide (socketFd = o)
  | .tick => true

/-! ## The run of one owner is a shadow of the whole run -/

/-- A ball without its identifier. -/
def LogicalBall.anonymous (b : LogicalBall) : LogicalBall := { b with id := 0 }

@[simp] theorem anonymous_ownedBy (o : Int) (b : LogicalBall) :
    b.anonymous.ownedBy o = b.ownedBy o := rfl

/-- `t` holds the balls of `o` in `s`. Its counter exceeds the number of its balls by no more
than that of `s`, and its tail is lost only where it does not matter or `s` has lost it too. -/
structure Shadow (o : Int) (s t : BallStore) : Prop where
  balls : (s.balls.filter (LogicalBall.ownedBy o)).map LogicalBall.anonymous =
    t.balls.map LogicalBall.anonymous
  count_nonneg : 0 ≤ t.totalCount - t.balls.length
  count_le : t.totalCount - t.balls.length ≤ s.totalCount - s.balls.length
  lost : t.lost = true → s.lost = true ∨ t.balls = []

namespace Shadow

variable {o : Int} {s t : BallStore}

theorem length_le (h : Shadow o s t) : t.balls.length ≤ s.balls.length := by
  have hlen := congrArg List.length h.balls
  simp only [List.length_map] at hlen
  rw [← hlen]
  exact List.length_filter_le _ _

theorem map_eq_nil (h : Shadow o s t) (hs : s.balls = []) : t.balls = [] := by
  have hlen := h.length_le
  rw [hs] at hlen
  exact List.length_eq_zero_iff.mp (Nat.le_zero.mp hlen)

theorem ownedBy_right (h : Shadow o s t) : t.balls.filter (LogicalBall.ownedBy o) = t.balls := by
  rw [List.filter_eq_self]
  intro b hb
  have hmem : b.anonymous ∈ t.balls.map LogicalBall.anonymous := List.mem_map_of_mem hb
  rw [← h.balls] at hmem
  obtain ⟨c, hc, he⟩ := List.mem_map.mp hmem
  rw [← anonymous_ownedBy, ← he, anonymous_ownedBy]
  exact (List.mem_filter.mp hc).2

/-- Removing balls from either side. -/
theorem keep (h : Shadow o s t) {bs cs : List LogicalBall}
    (hview : (bs.filter (LogicalBall.ownedBy o)).map LogicalBall.anonymous =
      cs.map LogicalBall.anonymous) (hcs : t.balls = [] → cs = []) :
    Shadow o (s.keep bs) (t.keep cs) := by
  have h₁ := h.count_nonneg
  have h₂ := h.count_le
  refine ⟨hview, ?_, ?_, fun hl => (h.lost hl).imp_right hcs⟩
  · simp only [BallStore.keep]
    omega
  · simp only [BallStore.keep]
    omega

theorem keep_left (h : Shadow o s t) {bs : List LogicalBall}
    (hbs : bs.filter (LogicalBall.ownedBy o) = s.balls.filter (LogicalBall.ownedBy o)) :
    Shadow o (s.keep bs) t := by
  have h₂ := h.count_le
  refine ⟨by rw [← h.balls, ← hbs]; rfl, h.count_nonneg, ?_, h.lost⟩
  simp only [BallStore.keep]
  omega

/-- A change of the data that looks neither at identifiers nor changes owners. -/
theorem map (h : Shadow o s t) {f : LogicalBall → LogicalBall}
    (howner : ∀ b, (f b).ownedBy o = b.ownedBy o)
    (hanon : ∀ b, (f b).anonymous = f b.anonymous) : Shadow o (s.map f) (t.map f) := by
  have hcomm : LogicalBall.anonymous ∘ f = f ∘ LogicalBall.anonymous := funext hanon
  have hown : LogicalBall.ownedBy o ∘ f = LogicalBall.ownedBy o := funext howner
  refine ⟨?_, by simpa [BallStore.map] using h.count_nonneg,
    by simpa [BallStore.map] using h.count_le, fun hl => (h.lost hl).imp_right fun hnil => ?_⟩
  · simp only [BallStore.map, List.filter_map, List.map_map, hcomm, hown]
    rw [← List.map_map, h.balls, List.map_map]
  · simp [BallStore.map, hnil]

/-- A change of the balls of other owners. -/
theorem map_left (h : Shadow o s t) {f : LogicalBall → LogicalBall}
    (howner : ∀ b, (f b).ownedBy o = b.ownedBy o)
    (hother : ∀ b, b.ownedBy o = true → f b = b) : Shadow o (s.map f) t := by
  have hown : LogicalBall.ownedBy o ∘ f = LogicalBall.ownedBy o := funext howner
  refine ⟨?_, h.count_nonneg, by simpa [BallStore.map] using h.count_le, h.lost⟩
  simp only [BallStore.map, List.filter_map, hown]
  rw [List.map_congr_left fun b hb => hother b (List.mem_filter.mp hb).2, List.map_id', h.balls]

/-- The owner's ball is appended to both sides. -/
theorem push (h : Shadow o s t) {b c : LogicalBall} {alloc : Option Nat} {u : BallStore}
    (hb : b.ownedBy o = true) (hbc : b.anonymous = c.anonymous)
    (hok : s.push b (s.totalCount + 1) alloc = .ok u) :
    ∃ v, t.push c (t.totalCount + 1) alloc = .ok v ∧ Shadow o u v := by
  obtain ⟨hs, rfl⟩ := push_ok.mp hok
  have ht : ¬ (t.lost = true ∧ t.balls ≠ []) := by
    rintro ⟨hl, hne⟩
    refine hs ⟨(h.lost hl).resolve_right hne, fun hnil => hne (h.map_eq_nil hnil)⟩
  have h₁ := h.count_nonneg
  have h₂ := h.count_le
  refine ⟨_, push_ok.mpr ⟨ht, rfl⟩, ?_⟩
  cases alloc with
  | none =>
    refine ⟨by simpa using h.balls, ?_, ?_, fun _ => Or.inl rfl⟩
    · simp
      omega
    · simp
      omega
  | some choice =>
    refine ⟨?_, ?_, ?_, fun hl => by cases hl⟩
    · simp [h.balls, hb, hbc]
    · simp
      omega
    · simp
      omega

/-- A ball of another owner is appended. -/
theorem push_left (h : Shadow o s t) {b : LogicalBall} {alloc : Option Nat} {u : BallStore}
    (hb : b.ownedBy o = false) (hok : s.push b (s.totalCount + 1) alloc = .ok u) :
    Shadow o u t := by
  obtain ⟨hs, rfl⟩ := push_ok.mp hok
  have h₁ := h.count_nonneg
  have h₂ := h.count_le
  have hlost : t.lost = true → t.balls = [] := fun hl => by
    rcases h.lost hl with hsl | hnil
    · exact h.map_eq_nil (Classical.not_not.mp fun hne => hs ⟨hsl, hne⟩)
    · exact hnil
  cases alloc with
  | none =>
    refine ⟨by simpa using h.balls, h₁, ?_, fun hl => Or.inr (hlost hl)⟩
    simp
    omega
  | some choice =>
    refine ⟨by simp [h.balls, hb], h₁, ?_, fun hl => Or.inr (hlost hl)⟩
    simp
    omega

/-- Adding balls for the owner adds the same balls to the shadow. -/
theorem add {radius : Int} {draws : Nat → RandomDraws} {alloc : Nat → Option Nat}
    {remaining i : Nat} {s' : BallStore} (h : Shadow o s t)
    (hok : s.add radius o draws alloc remaining i = .ok s') :
    ∃ t', t.add radius o draws alloc remaining i = .ok t' ∧ Shadow o s' t' := by
  induction remaining generalizing i s t with
  | zero =>
    cases hok
    exact ⟨t, rfl, h⟩
  | succ remaining ih =>
    obtain ⟨x, y, u, hint, hx, hy, hu, hrest⟩ := add_succ_ok.mp hok
    have hint' : IsInt (t.totalCount + 1) := by
      have h₁ := h.count_nonneg
      have h₂ := h.count_le
      have h₃ := h.length_le
      have h₄ := hint.2
      exact ⟨by omega, by omega⟩
    have hsame : (newBall s.totalCount radius o (draws i) x y).anonymous =
        (newBall t.totalCount radius o (draws i) x y).anonymous := rfl
    obtain ⟨v, hv, huv⟩ := h.push (LogicalBall.ownedBy_iff.mpr rfl) hsame hu
    obtain ⟨t', ht', hst⟩ := ih huv hrest
    exact ⟨t', add_succ_ok.mpr ⟨x, y, v, hint', hx, hy, hv, ht'⟩, hst⟩

/-- Adding balls for another owner does not show. -/
theorem add_left {p radius : Int} {draws : Nat → RandomDraws} {alloc : Nat → Option Nat}
    {remaining i : Nat} {s' : BallStore} (h : Shadow o s t) (hp : p ≠ o)
    (hok : s.add radius p draws alloc remaining i = .ok s') : Shadow o s' t := by
  induction remaining generalizing i s with
  | zero =>
    cases hok
    exact h
  | succ remaining ih =>
    obtain ⟨x, y, u, _, _, _, hu, hrest⟩ := add_succ_ok.mp hok
    exact ih (h.push_left (decide_eq_false hp) hu) hrest

/-- Removing balls of another owner does not show. -/
theorem remove_left {p : Int} (h : Shadow o s t) (hp : p ≠ o) (n : Nat) :
    Shadow o (s.keep (eraseLast (LogicalBall.ownedBy p) n s.balls)) t ∧
      Shadow o (s.keep (s.balls.filter fun b => !b.ownedBy p)) t := by
  have hother : ∀ b : LogicalBall, b.ownedBy p = true → b.ownedBy o = false := fun b hb =>
    decide_eq_false (LogicalBall.ownedBy_iff.mp hb ▸ hp)
  refine ⟨h.keep_left (filter_eraseLast_of_disjoint hother n s.balls), h.keep_left ?_⟩
  rw [List.filter_filter]
  apply List.filter_congr
  intro b _
  cases hb : b.ownedBy p with
  | false => simp
  | true => simp [hother b hb]

/-- Removing the owner's balls removes the same balls from the shadow. -/
theorem remove (h : Shadow o s t) (n : Nat) :
    Shadow o (s.keep (eraseLast (LogicalBall.ownedBy o) n s.balls))
        (t.keep (eraseLast (LogicalBall.ownedBy o) n t.balls)) ∧
      Shadow o (s.keep (s.balls.filter fun b => !b.ownedBy o))
        (t.keep (t.balls.filter fun b => !b.ownedBy o)) := by
  refine ⟨h.keep ?_ fun hnil => by simp [hnil], h.keep ?_ fun hnil => by simp [hnil]⟩
  · rw [filter_eraseLast, map_eraseLast _ (anonymous_ownedBy o), h.balls,
      ← map_eraseLast _ (anonymous_ownedBy o)]
  · have hnone : ∀ bs : List LogicalBall, (bs.filter fun b => !b.ownedBy o).filter
        (LogicalBall.ownedBy o) = [] := fun bs => by simp
    have ht : t.balls.filter (fun b => !b.ownedBy o) = [] := by
      rw [List.filter_eq_nil_iff]
      intro b hb
      rw [← h.ownedBy_right] at hb
      simp [(List.mem_filter.mp hb).2]
    rw [hnone, ht]

end Shadow

theorem changeOwned_ownedBy {p : Int} {f : LogicalBall → LogicalBall}
    (hf : ∀ b, (f b).ownerId = b.ownerId) (o : Int) (b : LogicalBall) :
    (b.changeOwned p f).ownedBy o = b.ownedBy o := by
  unfold LogicalBall.changeOwned LogicalBall.ownedBy
  split
  · rw [hf]
  · rfl

theorem changeOwned_anonymous {p : Int} {f : LogicalBall → LogicalBall}
    (hf : ∀ b, (f b).anonymous = f b.anonymous) (b : LogicalBall) :
    (b.changeOwned p f).anonymous = b.anonymous.changeOwned p f := by
  unfold LogicalBall.changeOwned
  by_cases hb : b.ownerId = p
  · rw [if_pos hb, if_pos (show b.anonymous.ownerId = p from hb), hf]
  · rw [if_neg hb, if_neg (show ¬ b.anonymous.ownerId = p from hb)]

/-- A change of speed shows in the balls of its owner only. -/
theorem Shadow.speed {o p : Int} {s t : BallStore} (h : Shadow o s t)
    (f : LogicalBall → LogicalBall) (howner : ∀ b, (f b).ownerId = b.ownerId)
    (hanon : ∀ b, (f b).anonymous = f b.anonymous) :
    Shadow o (s.map (LogicalBall.changeOwned p f)) (t.map (LogicalBall.changeOwned p f)) ∧
      (p ≠ o → Shadow o (s.map (LogicalBall.changeOwned p f)) t) := by
  refine ⟨h.map (changeOwned_ownedBy howner o) (changeOwned_anonymous hanon), ?_⟩
  intro hp
  apply h.map_left (changeOwned_ownedBy howner o)
  intro b hb
  apply if_neg
  intro hbp
  apply hp
  rw [← hbp, LogicalBall.ownedBy_iff.mp hb]

/-- The operations the balls of `o` depend on. -/
def BallOp.concerns (o : Int) : BallOp → Prop
  | .add _ _ ownerId _ => ownerId = o
  | .delete _ ownerId => ownerId = o
  | .deleteBySocket socketFd => socketFd = o
  | .move => True
  | .speedUp ownerId => ownerId = o
  | .speedDown ownerId => ownerId = o

/-- The step lemma: an operation that concerns the owner does the same to the shadow. -/
theorem shadow_step {o : Int} {s s' t : BallStore} (h : Shadow o s t) {op : BallOp}
    (hop : op.concerns o) (hok : storeStep s op = .ok s') :
    ∃ t', storeStep t op = .ok t' ∧ Shadow o s' t' := by
  cases op with
  | add count radius ownerId env =>
    obtain rfl : ownerId = o := hop
    exact h.add hok
  | delete count ownerId =>
    obtain rfl : ownerId = o := hop
    simp only [storeStep] at hok ⊢
    split at hok
    · cases hok
    · rename_i hcount
      cases hok
      exact ⟨_, if_neg hcount, (h.remove _).1⟩
  | deleteBySocket socketFd =>
    obtain rfl : socketFd = o := hop
    cases hok
    exact ⟨_, rfl, (h.remove 0).2⟩
  | move =>
    cases hok
    exact ⟨_, rfl, h.map (fun _ => rfl) fun _ => rfl⟩
  | speedUp ownerId =>
    cases hok
    exact ⟨_, rfl, (h.speed speedUpBall (fun _ => rfl) fun _ => rfl).1⟩
  | speedDown ownerId =>
    cases hok
    exact ⟨_, rfl, (h.speed speedDownBall (fun _ => rfl) fun _ => rfl).1⟩

/-- The step lemma: other operations do not show in the shadow. -/
theorem shadow_step_other {o : Int} {s s' t : BallStore} (h : Shadow o s t) {op : BallOp}
    (hop : ¬ op.concerns o) (hok : storeStep s op = .ok s') : Shadow o s' t := by
  cases op with
  | add count radius ownerId env => exact h.add_left hop hok
  | delete count ownerId =>
    simp only [storeStep] at hok
    split at hok
    · cases hok
    · cases hok
      exact (h.remove_left hop _).1
  | deleteBySocket socketFd =>
    cases hok
    exact (h.remove_left hop 0).2
  | move => exact absurd trivial hop
  | speedUp ownerId =>
    cases hok
    exact (h.speed speedUpBall (fun _ => rfl) fun _ => rfl).2 hop
  | speedDown ownerId =>
    cases hok
    exact (h.speed speedDownBall (fun _ => rfl) fun _ => rfl).2 hop

/-! ## Events and runs -/

theorem commandOp_cases {cmd : Char} {count radius ownerId : Int} {env : CommandEnv} {op : BallOp}
    (hop : commandOp cmd count radius ownerId env = some op) :
    (cmd = cmdAdd ∧ ∃ n, op = .add n radius ownerId env) ∨ (∃ n, op = .delete n ownerId) ∨
      op = .speedUp ownerId ∨ op = .speedDown ownerId := by
  unfold commandOp at hop
  split at hop
  · cases hop
    exact Or.inl ⟨‹_›, _, rfl⟩
  split at hop
  · cases hop
    exact Or.inr (Or.inl ⟨_, rfl⟩)
  split at hop
  · cases hop
    exact Or.inr (Or.inr (Or.inl rfl))
  split at hop
  · cases hop
    exact Or.inr (Or.inr (Or.inr rfl))
  · cases hop

theorem commandOp_concerns {cmd : Char} {count radius ownerId : Int} {env : CommandEnv}
    {op : BallOp} (hop : commandOp cmd count radius ownerId env = some op) (o : Int) :
    op.concerns o ↔ ownerId = o := by
  rcases commandOp_cases hop with ⟨_, n, rfl⟩ | ⟨n, rfl⟩ | rfl | rfl <;> exact Iff.rfl

/-- An event of the whole run is matched by the same event, or by none. -/
theorem shadow_event {o : Int} {s s' t : BallStore} (h : Shadow o s t) {e : StoreEvent}
    (hok : storeEvent s e = .ok s') :
    ∃ t', run storeEvent t (if e.concerns o then [e] else []) = .ok t' ∧ Shadow o s' t' := by
  have hone : e.concerns o = true → ∀ t', storeEvent t e = .ok t' →
      run storeEvent t (if e.concerns o then [e] else []) = .ok t' := fun ho t' ht' => by
    rw [if_pos ho]
    exact run_cons_ok.mpr ⟨t', ht', rfl⟩
  have hskip : e.concerns o = false → run storeEvent t (if e.concerns o then [e] else []) = .ok t :=
    fun ho => by
      rw [ho]
      rfl
  cases e with
  | command cmd count radius ownerId env =>
    cases hop : commandOp cmd count radius ownerId env with
    | none =>
      have hid : ∀ u : BallStore, storeEvent u (.command cmd count radius ownerId env) = .ok u :=
        fun u => by simp only [storeEvent, storeCommand, hop]
      rw [hid] at hok
      cases hok
      cases ho : StoreEvent.concerns o (.command cmd count radius ownerId env) with
      | true => exact ⟨t, ho ▸ hone ho t (hid t), h⟩
      | false => exact ⟨t, ho ▸ hskip ho, h⟩
    | some op =>
      have hstep : ∀ u : BallStore, storeEvent u (.command cmd count radius ownerId env) =
          storeStep u op := fun u => by simp only [storeEvent, storeCommand, hop]
      have hiff := commandOp_concerns hop o
      rw [hstep] at hok
      by_cases ho : ownerId = o
      · obtain ⟨t', ht', hst⟩ := shadow_step h (hiff.mpr ho) hok
        exact ⟨t', hone (decide_eq_true ho) t' (by rw [hstep, ht']), hst⟩
      · exact ⟨t, hskip (decide_eq_false ho), shadow_step_other h (mt hiff.mp ho) hok⟩
  | disconnect socketFd =>
    have hiff : BallOp.concerns o (.deleteBySocket socketFd) ↔ socketFd = o := Iff.rfl
    by_cases ho : socketFd = o
    · obtain ⟨t', ht', hst⟩ := shadow_step h (hiff.mpr ho) hok
      exact ⟨t', hone (decide_eq_true ho) t' ht', hst⟩
    · exact ⟨t, hskip (decide_eq_false ho), shadow_step_other h (mt hiff.mp ho) hok⟩
  | tick =>
    have hmove : BallOp.concerns o .move := trivial
    obtain ⟨t', ht', hst⟩ := shadow_step h hmove hok
    exact ⟨t', hone rfl t' ht', hst⟩

/-- What a player sees of a ball: everything but its identifier. -/
structure BallView where
  x : Single
  y : Single
  dx : Int
  dy : Int
  radius : Int
  color : RGBColor
  deriving DecidableEq

def LogicalBall.view (b : LogicalBall) : BallView := ⟨b.x, b.y, b.dx, b.dy, b.radius, b.color⟩

/-- The balls of `o` in the order of the list. -/
def ownerView (o : Int) (m : BallListManager) : List BallView :=
  (m.toList.filter (LogicalBall.ownedBy o)).map LogicalBall.view

theorem Shadow.ownerView_eq {o : Int} {s t : BallStore} (h : Shadow o s t)
    {m m' : BallListManager} (hm : m.Holds s) (hm' : m'.Holds t) :
    ownerView o m = ownerView o m' := by
  have hview : LogicalBall.view = LogicalBall.view ∘ LogicalBall.anonymous := rfl
  rw [ownerView, ownerView, hm.toList_eq, hm'.toList_eq, h.ownedBy_right, hview, ← List.map_map,
    ← List.map_map, h.balls]

theorem flatMap_ite_singleton (o : Int) (events : List StoreEvent) :
    (events.flatMap fun e => if e.concerns o then [e] else []) =
      events.filter (StoreEvent.concerns o) := by
  induction events with
  | nil => rfl
  | cons e es ih =>
    rw [List.flatMap_cons, List.filter_cons, ih]
    split <;> rfl

/-- The run lemma: the events of one owner and the ticks run by themselves, and give the owner
the same balls. -/
theorem run_concerned {o : Int} {events : List StoreEvent} {m : BallListManager}
    (h : run eventStep ballManagerInit events = .ok m) :
    ∃ m', run eventStep ballManagerInit (events.filter (StoreEvent.concerns o)) = .ok m' ∧
      ownerView o m = ownerView o m' := by
  have hstart : Shadow o BallStore.empty BallStore.empty :=
    ⟨rfl, Int.le_refl 0, Int.le_refl _, fun hl => by cases hl⟩
  obtain ⟨s, hs, hms⟩ := (h ▸ eventRun_agree events).left_ok
  obtain ⟨t, ht, hst⟩ := run_simulation (R := Shadow o)
    (f := fun e => if e.concerns o then [e] else [])
    (fun s t e s' hst hok => shadow_event hst hok) hstart hs
  rw [flatMap_ite_singleton] at ht
  obtain ⟨m', hm', hm't⟩ := (ht ▸ eventRun_agree _).right_ok
  exact ⟨m', hm', hst.ownerView_eq hms hm't⟩

/-- **Owner isolation.** Leaving out the events of all other owners does not change the balls
of an owner, whatever the run; and if two runs agree on the events of every owner together with
the ticks, then every owner has the same balls after both. -/
theorem owner_isolation :
    (∀ (events : List StoreEvent) (m : BallListManager) (o : Int),
      run eventStep ballManagerInit events = .ok m →
      ∃ m', run eventStep ballManagerInit (events.filter (StoreEvent.concerns o)) = .ok m' ∧
        ownerView o m = ownerView o m') ∧
    ∀ (events₁ events₂ : List StoreEvent) (m₁ m₂ : BallListManager),
      run eventStep ballManagerInit events₁ = .ok m₁ →
      run eventStep ballManagerInit events₂ = .ok m₂ →
      (∀ o, events₁.filter (StoreEvent.concerns o) = events₂.filter (StoreEvent.concerns o)) →
      ∀ o, ownerView o m₁ = ownerView o m₂ := by
  refine ⟨fun events m o h => run_concerned h, ?_⟩
  intro events₁ events₂ m₁ m₂ h₁ h₂ hsame o
  obtain ⟨m₁', hm₁', hv₁⟩ := run_concerned (o := o) h₁
  obtain ⟨m₂', hm₂', hv₂⟩ := run_concerned (o := o) h₂
  rw [hsame o, hm₂'] at hm₁'
  cases hm₁'
  rw [hv₁, hv₂]

/-- Two owners whose events interleave in two ways. -/
def interleaving₁ : List StoreEvent :=
  [.command 'a' 1 20 5 zeroDraws,
    .command 'a' 2 30 6 ⟨fun _ => ⟨7, 9, 1, 0⟩, some⟩, .command 'd' 1 20 6 zeroDraws,
    .command 'w' 1 20 5 zeroDraws, .tick]

def interleaving₂ : List StoreEvent :=
  [.command 'a' 2 30 6 ⟨fun _ => ⟨7, 9, 1, 0⟩, some⟩,
    .command 'a' 1 20 5 zeroDraws, .command 'w' 1 20 5 zeroDraws,
    .command 'd' 1 20 6 zeroDraws, .tick]

theorem owner_isolation_interleavings :
    ∃ m₁ m₂, run eventStep ballManagerInit interleaving₁ = .ok m₁ ∧
      run eventStep ballManagerInit interleaving₂ = .ok m₂ ∧
      ∀ o, ownerView o m₁ = ownerView o m₂ := by
  refine ⟨_, _, rfl, rfl, owner_isolation.2 interleaving₁ interleaving₂ _ _ rfl rfl ?_⟩
  intro o
  by_cases h₅ : (5 : Int) = o
  · subst h₅
    rfl
  · by_cases h₆ : (6 : Int) = o
    · subst h₆
      rfl
    · simp [interleaving₁, interleaving₂, StoreEvent.concerns, h₅, h₆]

end BallGame.Server
