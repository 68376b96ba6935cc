import BallGame.Server.OwnerIsolation

/-!
# The log of the ball memory

`log_ball_memory_usage` documents its `count` as the number of balls involved in the action.
The law of such a log is that for every socket the logged additions less the logged deletions
are the balls it owns. A disconnect counts the balls after it has deleted them and therefore
logs 0, and a deletion logs what was asked for.

* `memory_log_balanced_iff`: the exact condition on the events of a run;
* `disconnect_logs_zero`: a client connects and leaves, and its five balls stay in the log.
-/

namespace BallGame.Server

open Library

/-! ## Events that log -/

structure LoggedBalls where
  balls : BallListManager
  log : List LogEntry

inductive LogEvent where
  | connect (csock : Int) (env : CommandEnv)
  | task (cmd : Char) (count radius fd : Int) (env : CommandEnv)
  | eof (fd : Int)
  | tick

/-- The first balls of a client in the main thread. -/
def connectClient (m : BallListManager) (csock : Int) (env : CommandEnv) :
    Except Stuck (BallListManager × List LogEntry) := do
  let m ← addBall m startBallCount startBallRadius csock env.draws env.alloc
  let entry ← logBallMemoryUsage m .add csock startBallCount
  .ok (m, [entry])

/-- The end of a client, in the main thread and in a worker. -/
def deleteClientBalls (m : BallListManager) (fd : Int) :
    Except Stuck (BallListManager × List LogEntry) := do
  let m ← deleteBallBySocket m fd
  let nowCount ← countBallByOwner m fd
  let entry ← logBallMemoryUsage m .del fd nowCount
  .ok (m, [entry])

/-- A parsed command in a worker. No handler belongs to a command the `switch` does not know. -/
def executeCommand (m : BallListManager) (cmd : Char) (count radius fd : Int) (env : CommandEnv) :
    Except Stuck (BallListManager × List LogEntry) :=
  if cmd = cmdExit then deleteClientBalls m fd
  else dispatchCommand m cmd (if count ≤ 0 then 1 else count) radius fd env

def LogEvent.execute (m : BallListManager) :
    LogEvent → Except Stuck (BallListManager × List LogEntry)
  | .connect csock env => connectClient m csock env
  | .task cmd count radius fd env => executeCommand m cmd count radius fd env
  | .eof fd => deleteClientBalls m fd
  | .tick => do
    let m ← moveAllBall m
    .ok (m, [])

def logStep (s : LoggedBalls) (e : LogEvent) : Except Stuck LoggedBalls := do
  let r ← e.execute s.balls
  .ok ⟨r.1, s.log ++ r.2⟩

def logStart : LoggedBalls := ⟨ballManagerInit, []⟩

/-! ## The law of the log -/

/-- The sum of the counts logged for `fd` with an action. -/
def logged (log : List LogEntry) (action : LogAction) (fd : Int) : Int :=
  (log.map fun e => if e.fd = fd ∧ e.action = action then e.count else 0).sum

def balance (log : List LogEntry) (fd : Int) : Int := logged log .add fd - logged log .del fd

/-- The log accounts for the balls of every socket. -/
def LoggedBalls.Balanced (s : LoggedBalls) : Prop :=
  ∀ fd, countBallByOwner s.balls fd = .ok (balance s.log fd)

def BallListManager.owned (m : BallListManager) (fd : Int) : Nat :=
  m.toList.countP (LogicalBall.ownedBy fd)

/-- An addition gets all its nodes, a deletion asks for no more balls than there are, and a
client leaves when it has none. -/
def Accountable (s : LoggedBalls) : LogEvent → Prop
  | .connect _ env => ∀ i < 5, env.alloc i ≠ none
  | .task cmd count _ fd env =>
    (cmd = cmdAdd → ∀ i < (max 1 count).toNat, env.alloc i ≠ none) ∧
      (cmd = cmdDel → max 1 count ≤ s.balls.owned fd) ∧
      (cmd = cmdExit → s.balls.owned fd = 0)
  | .eof fd => s.balls.owned fd = 0
  | .tick => True

/-! ### What an entry adds to the balance -/

def LogEntry.signed (e : LogEntry) : Int :=
  match e.action with
  | .add => e.count
  | .del => -e.count

theorem balance_append (log : List LogEntry) (e : LogEntry) (fd : Int) :
    balance (log ++ [e]) fd = balance log fd + if fd = e.fd then e.signed else 0 := by
  obtain ⟨fd', action, count, nowCount⟩ := e
  simp only [balance, logged, List.map_append, List.sum_append, List.map_singleton,
    List.sum_singleton, LogEntry.signed]
  by_cases hfd : fd' = fd
  · subst hfd
    cases action with
    | add =>
      simp
      omega
    | del =>
      simp
      omega
  · simp [hfd, Ne.symm hfd]

/-! ## What an operation does to the numbers of balls -/

def BallStore.owned (s : BallStore) (fd : Int) : Nat := s.balls.countP (LogicalBall.ownedBy fd)

/-- The balls of `fd` become `delta` more, those of other owners stay as many. -/
def Changes (s s' : BallStore) (fd delta : Int) : Prop :=
  ∀ o, (s'.owned o : Int) = s.owned o + if o = fd then delta else 0

theorem changes_map (s : BallStore) {f : LogicalBall → LogicalBall}
    (hf : ∀ o b, (f b).ownedBy o = b.ownedBy o) (fd : Int) : Changes s (s.map f) fd 0 := by
  intro o
  have hown : LogicalBall.ownedBy o ∘ f = LogicalBall.ownedBy o := funext (hf o)
  simp only [BallStore.owned, BallStore.map, List.countP_map, hown, ite_self, Int.add_zero]

/-- An addition counts the nodes it gets. -/
theorem changes_add {radius ownerId : Int} {draws : Nat → RandomDraws}
    {alloc : Nat → Option Nat} {count : Nat} {s s' : BallStore}
    (h : s.add radius ownerId draws alloc count 0 = .ok s') :
    Changes s s' ownerId ((List.range count).countP fun i => (alloc i).isSome) := by
  obtain ⟨created, hballs, hcreated⟩ := add_created h
  obtain ⟨created', hballs', hids⟩ := add_ids h
  obtain rfl : created = created' := List.append_cancel_left (hballs.symm.trans hballs')
  have hlength : created.length = (List.range count).countP fun i => (alloc i).isSome := by
    rw [← List.length_map (f := LogicalBall.id), hids, List.length_map,
      ← List.countP_eq_length_filter, List.range_eq_range']
  have howner : ∀ b ∈ created, b.ownerId = ownerId := by
    intro b hb
    obtain ⟨id, k, hk⟩ := hcreated b hb
    obtain ⟨x, y, _, _, rfl⟩ := createLogicalBall_ok.mp hk
    rfl
  intro o
  rw [BallStore.owned, hballs, List.countP_append, ← hlength]
  by_cases ho : o = ownerId
  · subst ho
    have hall : created.countP (LogicalBall.ownedBy o) = created.length := by
      rw [List.countP_eq_length]
      intro b hb
      exact LogicalBall.ownedBy_iff.mpr (howner b hb)
    simp [hall, BallStore.owned]
  · have hnone : created.countP (LogicalBall.ownedBy o) = 0 := by
      rw [List.countP_eq_zero]
      intro b hb hown
      exact ho ((LogicalBall.ownedBy_iff.mp hown).symm.trans (howner b hb))
    simp [hnone, ho, BallStore.owned]

theorem countP_of_filter_eq {α : Type} {p : α → Bool} {xs ys : List α}
    (h : xs.filter p = ys.filter p) : xs.countP p = ys.countP p := by
  rw [List.countP_eq_length_filter, List.countP_eq_length_filter, h]

/-- A deletion takes as many balls as asked for, if there are so many. -/
theorem changes_delete (s : BallStore) (n : Nat) (ownerId : Int) :
    Changes s (s.keep (eraseLast (LogicalBall.ownedBy ownerId) n s.balls)) ownerId
      (-(min n (s.owned ownerId) : Nat)) := by
  intro o
  by_cases ho : o = ownerId
  · subst ho
    simp only [BallStore.owned, BallStore.keep, countP_eraseLast, if_true]
    omega
  · have hother : ∀ b : LogicalBall, b.ownedBy ownerId = true → b.ownedBy o = false := by
      intro b hb
      exact decide_eq_false (LogicalBall.ownedBy_iff.mp hb ▸ Ne.symm ho)
    have hsame := countP_of_filter_eq (filter_eraseLast_of_disjoint hother n s.balls)
    simp only [BallStore.owned, BallStore.keep, hsame, ho, if_false, Int.add_zero]

/-- The end of a client takes all its balls. -/
theorem changes_deleteBySocket (s : BallStore) (fd : Int) :
    Changes s (s.keep (s.balls.filter fun b => !b.ownedBy fd)) fd (-(s.owned fd)) := by
  intro o
  simp only [BallStore.owned, BallStore.keep, List.countP_filter]
  by_cases ho : o = fd
  · subst ho
    have hnone : s.balls.countP (fun b => b.ownedBy o && !b.ownedBy o) = 0 := by
      rw [List.countP_eq_zero]
      intro b _
      simp
    rw [hnone, if_pos rfl]
    omega
  · have hsame : s.balls.countP (fun b => b.ownedBy o && !b.ownedBy fd) =
        s.balls.countP (LogicalBall.ownedBy o) := by
      apply List.countP_congr
      intro b _
      simp only [Bool.and_eq_true, Bool.not_eq_true', LogicalBall.ownedBy_iff]
      constructor
      · intro h
        exact h.1
      · intro h
        exact ⟨h, decide_eq_false (h ▸ ho)⟩
    rw [hsame, if_neg ho, Int.add_zero]

/-! ## Steps -/

/-- What an event does to the balls and to the log: it changes the balls of one socket by
`delta`, and the log says `entry`. -/
structure Effect (s s' : LoggedBalls) (fd delta entry : Int) : Prop where
  store : ∃ store store', s.balls.Holds store ∧ s'.balls.Holds store' ∧
    Changes store store' fd delta
  log : ∀ o, balance s'.log o = balance s.log o + if o = fd then entry else 0

theorem BallListManager.Holds.owned_eq {m : BallListManager} {s : BallStore} (h : m.Holds s)
    (fd : Int) : m.owned fd = s.owned fd := by
  rw [BallListManager.owned, BallStore.owned, h.toList_eq]

theorem balanced_iff {s : LoggedBalls} {store : BallStore} (h : s.balls.Holds store) :
    s.Balanced ↔ ∀ fd, (store.owned fd : Int) = balance s.log fd := by
  unfold LoggedBalls.Balanced
  apply forall_congr'
  intro fd
  rw [countBallByOwner_ok h, Except.ok.injEq, BallStore.owned]

/-- A balanced log stays balanced if the entry says what happened. -/
theorem Effect.balanced_iff {s s' : LoggedBalls} {fd delta entry : Int}
    (h : Effect s s' fd delta entry) (hs : s.Balanced) : s'.Balanced ↔ delta = entry := by
  obtain ⟨store, store', hstore, hstore', hchanges⟩ := h.store
  rw [Server.balanced_iff hstore] at hs
  rw [Server.balanced_iff hstore']
  constructor
  · intro hs'
    have hcount := hchanges fd
    have hlog := h.log fd
    have h₁ := hs fd
    have h₂ := hs' fd
    rw [if_pos rfl] at hcount hlog
    omega
  · intro he o
    subst he
    have hcount := hchanges o
    have hlog := h.log o
    have h₁ := hs o
    omega

/-- An operation that is logged. -/
theorem log_ok {x : Except Stuck BallListManager} {action : LogAction} {fd count : Int}
    {r : BallListManager × List LogEntry}
    (h : (do
      let m ← x
      let entry ← logBallMemoryUsage m action fd count
      .ok (m, [entry])) = .ok r) :
    x = .ok r.1 ∧ ∃ nowCount, r.2 = [⟨fd, action, count, nowCount⟩] := by
  obtain ⟨m, hm, h₁⟩ := bind_ok.mp h
  obtain ⟨entry, hentry, h₂⟩ := bind_ok.mp h₁
  obtain ⟨nowCount, _, h₃⟩ := bind_ok.mp hentry
  cases h₂
  cases h₃
  exact ⟨hm, nowCount, rfl⟩

theorem effect_of_log {s : LoggedBalls} {r : BallListManager × List LogEntry}
    {store store' : BallStore} (hs : s.balls.Holds store) (hr : r.1.Holds store')
    {fd delta count nowCount : Int} {action : LogAction} (hchanges : Changes store store' fd delta)
    (hlog : r.2 = [⟨fd, action, count, nowCount⟩]) :
    Effect s ⟨r.1, s.log ++ r.2⟩ fd delta (LogEntry.signed ⟨fd, action, count, nowCount⟩) := by
  refine ⟨⟨store, store', hs, hr, hchanges⟩, ?_⟩
  intro o
  rw [hlog]
  exact balance_append _ _ _

/-- Nothing is logged, and no ball comes or goes. -/
theorem effect_of_silent {s : LoggedBalls} {m : BallListManager} {store store' : BallStore}
    (hs : s.balls.Holds store) (hm : m.Holds store') (fd : Int)
    (hchanges : Changes store store' fd 0) : Effect s ⟨m, s.log ++ []⟩ fd 0 0 := by
  refine ⟨⟨store, store', hs, hm, hchanges⟩, ?_⟩
  intro o
  rw [List.append_nil, ite_self, Int.add_zero]

theorem countP_alloc {alloc : Nat → Option Nat} {n : Nat} :
    (List.range n).countP (fun i => (alloc i).isSome) = n ↔ ∀ i < n, alloc i ≠ none := by
  have h := List.countP_eq_length (p := fun i => (alloc i).isSome) (l := List.range n)
  rw [List.length_range] at h
  rw [h]
  simp only [List.mem_range, Option.isSome_iff_ne_none]

/-- A logged addition says what happened if all its allocations succeed. -/
theorem effect_add {s : LoggedBalls} {store : BallStore} (hs : s.balls.Holds store)
    {count radius fd : Int} (hcount : 0 ≤ count) {env : CommandEnv}
    {r : BallListManager × List LogEntry}
    (h : (do
      let m ← addBall s.balls count radius fd env.draws env.alloc
      let entry ← logBallMemoryUsage m .add fd count
      .ok (m, [entry])) = .ok r) :
    ∃ delta, Effect s ⟨r.1, s.log ++ r.2⟩ fd delta count ∧
      (delta = count ↔ ∀ i < count.toNat, env.alloc i ≠ none) := by
  obtain ⟨hadd, nowCount, hlog⟩ := log_ok h
  have hagree := ballStep_refines hs (.add count radius fd env)
  rw [show ballStep s.balls (.add count radius fd env) = .ok r.1 from hadd] at hagree
  obtain ⟨store', hstore', hr⟩ := hagree.left_ok
  refine ⟨_, effect_of_log hs hr (changes_add hstore') hlog, ?_⟩
  rw [← countP_alloc]
  omega

/-- A logged deletion says what happened if there are enough balls. -/
theorem effect_delete {s : LoggedBalls} {store : BallStore} (hs : s.balls.Holds store)
    {count fd : Int} {r : BallListManager × List LogEntry}
    (h : (do
      let m ← deleteBall s.balls count fd
      let entry ← logBallMemoryUsage m .del fd count
      .ok (m, [entry])) = .ok r) :
    ∃ delta, Effect s ⟨r.1, s.log ++ r.2⟩ fd delta (-count) ∧
      (delta = -count ↔ count ≤ s.balls.owned fd) := by
  obtain ⟨hdelete, nowCount, hlog⟩ := log_ok h
  have hagree := ballStep_refines hs (.delete count fd)
  rw [show ballStep s.balls (.delete count fd) = .ok r.1 from hdelete] at hagree
  obtain ⟨store', hstore', hr⟩ := hagree.left_ok
  rw [storeStep] at hstore'
  split at hstore'
  · cases hstore'
  · cases hstore'
    refine ⟨_, effect_of_log hs hr (changes_delete store count.toNat fd) hlog, ?_⟩
    rw [hs.owned_eq]
    omega

/-- The end of a client says what happened if there was nothing to delete. -/
theorem effect_deleteClientBalls {s : LoggedBalls} {store : BallStore} (hs : s.balls.Holds store)
    {fd : Int} {r : BallListManager × List LogEntry}
    (h : deleteClientBalls s.balls fd = .ok r) :
    ∃ delta, Effect s ⟨r.1, s.log ++ r.2⟩ fd delta 0 ∧ (delta = 0 ↔ s.balls.owned fd = 0) := by
  obtain ⟨m, hm, h₁⟩ := bind_ok.mp h
  obtain ⟨nowCount, hnow, h₂⟩ := bind_ok.mp h₁
  obtain ⟨entry, hentry, h₃⟩ := bind_ok.mp h₂
  obtain ⟨now, _, h₄⟩ := bind_ok.mp hentry
  cases h₄
  cases h₃
  have hagree := ballStep_refines hs (.deleteBySocket fd)
  rw [show ballStep s.balls (.deleteBySocket fd) = .ok m from hm] at hagree
  obtain ⟨store', hstore', hr⟩ := hagree.left_ok
  cases hstore'
  have hchanges := changes_deleteBySocket store fd
  -- the balls are counted after the deletion
  have hzero : nowCount = 0 := by
    rw [countBallByOwner_ok hr, Except.ok.injEq] at hnow
    have hcount := hchanges fd
    rw [if_pos rfl] at hcount
    simp only [BallStore.owned] at hcount
    omega
  subst hzero
  refine ⟨_, effect_of_log (r := (m, _)) hs hr hchanges rfl, ?_⟩
  rw [hs.owned_eq]
  omega

/-- A change of all balls that is not logged. -/
theorem effect_map {s : LoggedBalls} {store : BallStore} (hs : s.balls.Holds store)
    {f : LogicalBall → LogicalBall} (hf : ∀ o b, (f b).ownedBy o = b.ownedBy o) (fd : Int)
    {r : BallListManager × List LogEntry}
    (h : (do
      let m ← updateBalls f s.balls
      .ok (m, [])) = .ok r) :
    Effect s ⟨r.1, s.log ++ r.2⟩ fd 0 0 := by
  obtain ⟨m, hm, he⟩ := bind_ok.mp h
  cases he
  have hagree := updateBalls_agree hs f
  rw [hm] at hagree
  obtain ⟨store', hstore', hr⟩ := hagree.left_ok
  cases hstore'
  exact effect_of_silent hs hr fd (changes_map store hf fd)

/-- A command of the table or an unknown one, with its count made positive. -/
theorem effect_dispatch {s : LoggedBalls} {store : BallStore} (hs : s.balls.Holds store)
    {cmd : Char} {count radius fd : Int} (hcount : 1 ≤ count) {env : CommandEnv}
    {r : BallListManager × List LogEntry}
    (h : dispatchCommand s.balls cmd count radius fd env = .ok r) :
    ∃ delta entry, Effect s ⟨r.1, s.log ++ r.2⟩ fd delta entry ∧
      (delta = entry ↔ (cmd = cmdAdd → ∀ i < count.toNat, env.alloc i ≠ none) ∧
        (cmd = cmdDel → count ≤ s.balls.owned fd)) := by
  have hclamp : (if count ≤ 0 then 1 else count) = count := if_neg (by omega)
  by_cases ha : cmd = cmdAdd
  · subst ha
    have hr : handleAdd s.balls count radius fd env = .ok r := h
    simp only [handleAdd, hclamp] at hr
    obtain ⟨delta, heffect, hiff⟩ := effect_add hs (by omega) hr
    refine ⟨delta, _, heffect, ?_⟩
    rw [hiff]
    simp [cmdAdd, cmdDel]
  by_cases hd : cmd = cmdDel
  · subst hd
    have hr : handleDelete s.balls count radius fd env = .ok r := h
    simp only [handleDelete, hclamp] at hr
    obtain ⟨delta, heffect, hiff⟩ := effect_delete hs hr
    refine ⟨delta, _, heffect, ?_⟩
    rw [hiff]
    simp [cmdAdd, cmdDel]
  have hsilent : Effect s ⟨r.1, s.log ++ r.2⟩ fd 0 0 := by
    by_cases hw : cmd = cmdSpeedUp
    · subst hw
      exact effect_map hs (f := LogicalBall.changeOwned fd speedUpBall)
        (changeOwned_ownedBy fun _ => rfl) fd h
    by_cases hx : cmd = cmdSpeedDown
    · subst hx
      exact effect_map hs (f := LogicalBall.changeOwned fd speedDownBall)
        (changeOwned_ownedBy fun _ => rfl) fd h
    have hnone : commandTable.find? (fun entry => entry.1 = cmd) = none := by
      simp [commandTable, Ne.symm ha, Ne.symm hd, Ne.symm hw, Ne.symm hx]
    simp only [dispatchCommand, hnone] at h
    cases h
    apply effect_of_silent hs hs fd
    intro o
    rw [ite_self, Int.add_zero]
  exact ⟨0, 0, hsilent, iff_of_true rfl ⟨fun he => absurd he ha, fun he => absurd he hd⟩⟩

/-- The step lemma: an event logs what it does exactly if it is accountable. -/
theorem logStep_effect {s s' : LoggedBalls} {store : BallStore} (hs : s.balls.Holds store)
    {e : LogEvent} (h : logStep s e = .ok s') :
    ∃ fd delta entry, Effect s s' fd delta entry ∧ (delta = entry ↔ Accountable s e) := by
  obtain ⟨r, hr, he⟩ := bind_ok.mp h
  cases he
  cases e with
  | connect csock env =>
    obtain ⟨delta, heffect, hiff⟩ := effect_add hs (by decide) hr
    exact ⟨csock, delta, _, heffect, hiff⟩
  | task cmd count radius fd env =>
    have hclamp : (if count ≤ 0 then 1 else count) = max 1 count := by omega
    simp only [LogEvent.execute, executeCommand, hclamp] at hr
    split at hr
    · rename_i hexit
      obtain ⟨delta, heffect, hiff⟩ := effect_deleteClientBalls hs hr
      refine ⟨fd, delta, 0, heffect, ?_⟩
      rw [hiff, hexit]
      simp [Accountable, cmdExit, cmdAdd, cmdDel]
    · rename_i hexit
      obtain ⟨delta, entry, heffect, hiff⟩ := effect_dispatch hs (by omega) hr
      refine ⟨fd, delta, entry, heffect, ?_⟩
      rw [hiff]
      simp [Accountable, hexit]
  | eof fd =>
    obtain ⟨delta, heffect, hiff⟩ := effect_deleteClientBalls hs hr
    exact ⟨fd, delta, 0, heffect, hiff⟩
  | tick =>
    exact ⟨0, 0, 0, effect_map hs (f := moveLogicalBall) (fun _ _ => rfl) 0 hr,
      iff_of_true rfl trivial⟩

/-! ## Runs -/

/-- **When the log accounts for the balls.** In every run of connections, commands, ends of
clients and ticks the log is balanced after every event exactly if all of them are
accountable. -/
theorem memory_log_balanced_iff (events : List LogEvent) (s : LoggedBalls)
    (h : run logStep logStart events = .ok s) :
    (∀ t, Visits logStep logStart events t → t.Balanced) ↔
      Throughout logStep Accountable logStart events := by
  have hstart : logStart.Balanced := by
    rw [balanced_iff holds_init]
    intro fd
    rfl
  refine visits_iff_throughout (I := fun s => ∃ store, s.balls.Holds store) ?_ ?_
    ⟨_, holds_init⟩ hstart h
  · intro t e t' hI hok
    obtain ⟨store, hs⟩ := hI
    obtain ⟨fd, delta, entry, heffect, _⟩ := logStep_effect hs hok
    obtain ⟨_, store', _, hs', _⟩ := heffect.store
    exact ⟨store', hs'⟩
  · intro t e t' hI hbalanced hok
    obtain ⟨store, hs⟩ := hI
    obtain ⟨fd, delta, entry, heffect, hiff⟩ := logStep_effect hs hok
    rw [heffect.balanced_iff hbalanced]
    exact hiff

/-- A client connects, adds two balls and deletes all seven before it leaves. -/
theorem memory_log_balanced_iff_all_deleted :
    ∃ s, run logStep logStart [.connect 7 zeroDraws, .task 'a' 2 20 7 zeroDraws,
        .task 'd' 7 20 7 zeroDraws, .eof 7] = .ok s ∧
      ((∀ t, Visits logStep logStart [.connect 7 zeroDraws, .task 'a' 2 20 7 zeroDraws,
        .task 'd' 7 20 7 zeroDraws, .eof 7] t → t.Balanced) ↔
      Throughout logStep Accountable logStart [.connect 7 zeroDraws, .task 'a' 2 20 7 zeroDraws,
        .task 'd' 7 20 7 zeroDraws, .eof 7]) :=
  ⟨_, rfl, memory_log_balanced_iff _ _ rfl⟩

/-- A client connects and leaves. The log ends with an addition of 5 and a deletion of 0. -/
theorem disconnect_logs_zero :
    ¬ ∀ events s, run logStep logStart events = .ok s → s.Balanced := by
  intro hall
  obtain ⟨s, hs, hcount, hlog⟩ : ∃ s, run logStep logStart [.connect 7 zeroDraws, .eof 7] = .ok s ∧
      countBallByOwner s.balls 7 = .ok 0 ∧ s.log = [⟨7, .add, 5, 5⟩, ⟨7, .del, 0, 0⟩] :=
    ⟨_, rfl, rfl, rfl⟩
  have hbalance := hall _ s hs 7
  rw [hcount, hlog] at hbalance
  exact absurd hbalance (by decide)

end BallGame.Server
