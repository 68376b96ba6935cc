import BallGame.Server.Transitions

/-!
# The order of a client's commands

The queue hands the tasks out in the order in which they were received, but the worker that
took a task applies it later, in another critical section. While one worker holds a command of
a client, another worker can take the next one and apply it first.

* `client_commands_in_order`: the ball store is what the applied commands make of it one after
  the other, and a client's commands are applied in the order of their arrival in every run in
  which no command overtakes an earlier one that another worker holds;
* `client_commands_reordered`: a run of two workers that applies `d:3` before `a:3`.
-/

namespace BallGame.Server

open Library

variable {W : Type}

/-! ## Received, held and applied commands -/

/-- The task carries a command for the ball store: `a`, `d`, `w` or `s`. -/
def ConnTask.isBall (t : ConnTask) : Bool := isBallCommand t.command.1

/-- The command, the count and the radius that are dispatched. -/
def ConnTask.ballCommand (t : ConnTask) : Char × Int × Int :=
  (t.command.1, if t.command.2.1 ≤ 0 then 1 else t.command.2.1, t.command.2.2)

def StoreEvent.ballCommand : StoreEvent → Option (Char × Int × Int)
  | .command cmd count radius _ _ => some (cmd, count, radius)
  | _ => none

/-- The tasks of a connection that carry a command for the ball store. -/
def ofClient (c : Conn) (ts : List ConnTask) : List ConnTask :=
  ts.filter fun t => t.conn = c ∧ t.isBall

/-- The add, delete and speed commands of a connection, in the order of their arrival. -/
def receivedCommands (s : ServerState W) (c : Conn) : List (Char × Int × Int) :=
  (ofClient c s.history.received).map ConnTask.ballCommand

/-- The commands of a connection that were applied to the ball store, in that order. -/
def appliedCommands (s : ServerState W) (c : Conn) : List (Char × Int × Int) :=
  (s.history.log.filter fun e => e.conn = some c).filterMap fun e => e.event.ballCommand

/-- A worker that applies a command of a client holds the earliest one: no other worker holds
a command of this client that was received before. -/
def NoOvertaking (s : ServerState W) : Label W → Prop
  | .execute w _ => ∀ t, Holding s w t → t.isBall → ∀ w' t', Holding s w' t' → t'.isBall →
      t'.conn = t.conn → t.arrival ≤ t'.arrival
  | _ => True

/-! ## The invariant -/

/-- The commands of a client that workers hold. -/
def HeldBy (s : ServerState W) (c : Conn) (held : List ConnTask) : Prop :=
  ∀ t, t ∈ held ↔ t.conn = c ∧ t.isBall ∧ ∃ w, Holding s w t

/-- Arrival numbers increase, no two workers hold the same command, and the commands of a
client are, in the order of their arrival, those that were executed, those that are held and
those that wait. -/
structure InOrder (s : ServerState W) : Prop where
  arrivals : s.history.received.Pairwise fun t u => t.arrival < u.arrival
  bound : ∀ t ∈ s.history.received, t.arrival < s.history.received.length
  once : ∀ w w' t, t.isBall → Holding s w t → Holding s w' t → w = w'
  order : ∀ c, ∃ held, HeldBy s c held ∧ ofClient c s.history.received =
    ofClient c s.history.executed ++ held ++ ofClient c (waiting s)

@[simp] theorem ofClient_append (c : Conn) (ts us : List ConnTask) :
    ofClient c (ts ++ us) = ofClient c ts ++ ofClient c us := List.filter_append ..

theorem ofClient_cons_of_mem {c : Conn} {t : ConnTask} (hc : t.conn = c) (hball : t.isBall)
    (ts : List ConnTask) : ofClient c (t :: ts) = t :: ofClient c ts := by
  simp [ofClient, hc, hball]

theorem ofClient_cons_of_not {c : Conn} {t : ConnTask} (h : ¬ (t.conn = c ∧ t.isBall))
    (ts : List ConnTask) : ofClient c (t :: ts) = ofClient c ts := by
  simp only [ofClient, List.filter_cons]
  rw [if_neg (by simpa using h)]

theorem InOrder.arrivals_ofClient {s : ServerState W} (h : InOrder s) (c : Conn) :
    (ofClient c s.history.received).Pairwise fun t u => t.arrival < u.arrival :=
  h.arrivals.filter _

theorem inOrder_start : InOrder (start : ServerState W) where
  arrivals := List.Pairwise.nil
  bound := fun t ht => absurd ht List.not_mem_nil
  once := fun w w' t _ hw => by cases hw
  order := by
    refine fun c => ⟨[], fun t => ⟨fun ht => absurd ht List.not_mem_nil, ?_⟩, ?_⟩
    · rintro ⟨_, _, w, hw⟩
      cases hw
    · rw [waiting, queued_start]
      rfl

/-- A step that leaves the tasks where they are. -/
theorem InOrder.same {s s' : ServerState W} (h : InOrder s)
    (hhold : ∀ w t, Holding s' w t ↔ Holding s w t)
    (hexecuted : s'.history.executed = s.history.executed)
    (hreceived : s'.history.received = s.history.received) (hwaiting : waiting s' = waiting s) :
    InOrder s' := by
  refine ⟨hreceived ▸ h.arrivals, hreceived ▸ h.bound, ?_, ?_⟩
  · intro w w' t hball hw hw'
    exact h.once w w' t hball ((hhold w t).mp hw) ((hhold w' t).mp hw')
  · intro c
    obtain ⟨held, hheld, horder⟩ := h.order c
    refine ⟨held, ?_, by rw [hreceived, hexecuted, hwaiting, horder]⟩
    intro t
    rw [hheld]
    simp only [hhold]

/-- The main thread receives a task. -/
theorem InOrder.receive {s s' : ServerState W} (h : InOrder s) {t : ConnTask}
    (hhold : ∀ w t, Holding s' w t ↔ Holding s w t)
    (hexecuted : s'.history.executed = s.history.executed)
    (hreceived : s'.history.received = s.history.received ++ [t])
    (hwaiting : waiting s' = waiting s ++ [t]) (ht : t.arrival = s.history.received.length) :
    InOrder s' := by
  refine ⟨?_, ?_, ?_, ?_⟩
  · rw [hreceived]
    refine List.pairwise_append.mpr ⟨h.arrivals, List.pairwise_singleton .., ?_⟩
    intro u hu t' ht'
    rw [List.mem_singleton.mp ht', ht]
    exact h.bound u hu
  · intro u hu
    rw [hreceived] at hu ⊢
    rw [List.length_append, List.length_singleton]
    rcases List.mem_append.mp hu with hu | hu
    · have := h.bound u hu
      omega
    · rw [List.mem_singleton.mp hu, ht]
      omega
  · intro w w' t hball hw hw'
    exact h.once w w' t hball ((hhold w t).mp hw) ((hhold w' t).mp hw')
  · intro c
    obtain ⟨held, hheld, horder⟩ := h.order c
    refine ⟨held, ?_, ?_⟩
    · intro t
      rw [hheld]
      simp only [hhold]
    · rw [hreceived, hexecuted, hwaiting, ofClient_append, ofClient_append, horder,
        List.append_assoc]

/-- A worker takes the first task that waits. -/
theorem InOrder.pop {s s' : ServerState W} (h : InOrder s) {w : W} {t : ConnTask}
    (hready : (s.workers w).phase = .ready)
    (hhold : ∀ w' t', Holding s' w' t' ↔ (w' = w ∧ t' = t) ∨ (w' ≠ w ∧ Holding s w' t'))
    (hexecuted : s'.history.executed = s.history.executed)
    (hreceived : s'.history.received = s.history.received)
    (hwaiting : waiting s = t :: waiting s') :
    InOrder s' := by
  have hne : ∀ w' t', Holding s w' t' → w' ≠ w := by
    rintro w' t' hw' rfl
    rw [Holding, hready] at hw'
    cases hw'
  -- the task is not held yet: it waits, and arrival numbers do not repeat
  have hfresh : t.isBall → ∀ w', ¬ Holding s w' t := by
    intro hball w' hw'
    obtain ⟨held, hheld, horder⟩ := h.order t.conn
    have hsorted := horder ▸ h.arrivals_ofClient t.conn
    rw [hwaiting, ofClient_cons_of_mem rfl hball] at hsorted
    have hlt := (List.pairwise_append.mp hsorted).2.2 t
      (List.mem_append_right _ ((hheld t).mpr ⟨rfl, hball, w', hw'⟩)) t (List.mem_cons_self ..)
    exact Nat.lt_irrefl _ hlt
  refine ⟨hreceived ▸ h.arrivals, hreceived ▸ h.bound, ?_, ?_⟩
  · intro w₁ w₂ u hball h₁ h₂
    rcases (hhold w₁ u).mp h₁ with ⟨rfl, rfl⟩ | ⟨_, hs₁⟩
    · rcases (hhold w₂ u).mp h₂ with ⟨rfl, _⟩ | ⟨_, hs₂⟩
      · rfl
      · exact absurd hs₂ (hfresh hball w₂)
    · rcases (hhold w₂ u).mp h₂ with ⟨rfl, rfl⟩ | ⟨_, hs₂⟩
      · exact absurd hs₁ (hfresh hball w₁)
      · exact h.once w₁ w₂ u hball hs₁ hs₂
  · intro c
    obtain ⟨held, hheld, horder⟩ := h.order c
    rw [hwaiting] at horder
    by_cases hc : t.conn = c ∧ t.isBall
    · refine ⟨held ++ [t], ?_, ?_⟩
      · intro u
        rw [List.mem_append, List.mem_singleton, hheld]
        constructor
        · rintro (⟨hu, hball, w', hw'⟩ | rfl)
          · exact ⟨hu, hball, w', (hhold w' u).mpr (Or.inr ⟨hne w' u hw', hw'⟩)⟩
          · exact ⟨hc.1, hc.2, w, (hhold w u).mpr (Or.inl ⟨rfl, rfl⟩)⟩
        · rintro ⟨hu, hball, w', hw'⟩
          rcases (hhold w' u).mp hw' with ⟨_, rfl⟩ | ⟨_, hs⟩
          · exact Or.inr rfl
          · exact Or.inl ⟨hu, hball, w', hs⟩
      · rw [hreceived, hexecuted, horder, ofClient_cons_of_mem hc.1 hc.2]
        simp only [List.append_assoc, List.singleton_append]
    · refine ⟨held, ?_, by rw [hreceived, hexecuted, horder, ofClient_cons_of_not hc]⟩
      intro u
      rw [hheld]
      constructor
      · rintro ⟨hu, hball, w', hw'⟩
        exact ⟨hu, hball, w', (hhold w' u).mpr (Or.inr ⟨hne w' u hw', hw'⟩)⟩
      · rintro ⟨hu, hball, w', hw'⟩
        rcases (hhold w' u).mp hw' with ⟨_, rfl⟩ | ⟨_, hs⟩
        · exact absurd ⟨hu, hball⟩ hc
        · exact ⟨hu, hball, w', hs⟩

/-- The earliest of the commands that are held is the first of them. -/
theorem eq_cons_of_earliest {held : List ConnTask} {t : ConnTask} (ht : t ∈ held)
    (hsorted : held.Pairwise fun t u => t.arrival < u.arrival)
    (hearliest : ∀ u ∈ held, t.arrival ≤ u.arrival) : ∃ rest, held = t :: rest ∧ t ∉ rest := by
  cases held with
  | nil => cases ht
  | cons u rest =>
    obtain ⟨hlt, _⟩ := List.pairwise_cons.mp hsorted
    rcases List.mem_cons.mp ht with rfl | ht
    · exact ⟨rest, rfl, fun hmem => Nat.lt_irrefl _ (hlt t hmem)⟩
    · have := hlt t ht
      have := hearliest u (List.mem_cons_self ..)
      omega

/-- A worker is done with the task it holds. -/
theorem InOrder.execute {s s' : ServerState W} (h : InOrder s) {w : W} {t : ConnTask}
    (hworker : Holding s w t)
    (hnone : t.isBall → ∀ w' t', Holding s w' t' → t'.isBall → t'.conn = t.conn →
      t.arrival ≤ t'.arrival)
    (hhold : ∀ w' t', Holding s' w' t' ↔ w' ≠ w ∧ Holding s w' t')
    (hexecuted : s'.history.executed = s.history.executed ++ [t])
    (hreceived : s'.history.received = s.history.received) (hwaiting : waiting s' = waiting s) :
    InOrder s' := by
  refine ⟨hreceived ▸ h.arrivals, hreceived ▸ h.bound, fun w₁ w₂ u hball h₁ h₂ => ?_, fun c => ?_⟩
  · exact h.once w₁ w₂ u hball ((hhold w₁ u).mp h₁).2 ((hhold w₂ u).mp h₂).2
  obtain ⟨held, hheld, horder⟩ := h.order c
  have hsorted := horder ▸ h.arrivals_ofClient c
  rw [hexecuted, hreceived, hwaiting, ofClient_append]
  by_cases hc : t.conn = c ∧ t.isBall
  · obtain ⟨rfl, hball⟩ := hc
    obtain ⟨rest, rfl, hrest⟩ := eq_cons_of_earliest ((hheld t).mpr ⟨rfl, hball, w, hworker⟩)
      (List.pairwise_append.mp (List.pairwise_append.mp hsorted).1).2.1 fun u hu => by
        obtain ⟨huc, huball, w', hw'⟩ := (hheld u).mp hu
        exact hnone hball w' u hw' huball huc
    refine ⟨rest, ?_, ?_⟩
    · intro u
      constructor
      · intro hu
        obtain ⟨huc, huball, w', hw'⟩ := (hheld u).mp (List.mem_cons_of_mem t hu)
        refine ⟨huc, huball, w', (hhold w' u).mpr ⟨?_, hw'⟩⟩
        rintro rfl
        rw [Holding, hworker] at hw'
        cases hw'
        exact hrest hu
      · rintro ⟨huc, huball, w', hw'⟩
        obtain ⟨hne, hs⟩ := (hhold w' u).mp hw'
        rcases List.mem_cons.mp ((hheld u).mpr ⟨huc, huball, w', hs⟩) with rfl | hu
        · exact absurd (h.once w' w u huball hs hworker) hne
        · exact hu
    · rw [horder, ofClient_cons_of_mem rfl hball]
      simp only [List.append_assoc, List.cons_append, ofClient, List.filter_nil, List.nil_append]
  · refine ⟨held, ?_, ?_⟩
    · intro u
      rw [hheld]
      constructor
      · rintro ⟨huc, huball, w', hw'⟩
        refine ⟨huc, huball, w', (hhold w' u).mpr ⟨?_, hw'⟩⟩
        rintro rfl
        rw [Holding, hworker] at hw'
        cases hw'
        exact hc ⟨huc, huball⟩
      · rintro ⟨huc, huball, w', hw'⟩
        exact ⟨huc, huball, w', ((hhold w' u).mp hw').2⟩
    · rw [horder, ofClient_cons_of_not hc]
      simp only [ofClient, List.filter_nil, List.append_nil]

/-- In a quiescent state nothing is held and nothing waits. -/
theorem InOrder.quiescent {s : ServerState W} (h : InOrder s) (hq : Quiescent s) (c : Conn) :
    ofClient c s.history.received = ofClient c s.history.executed := by
  obtain ⟨hqueue, hmain, hworkers⟩ := hq
  obtain ⟨held, hheld, horder⟩ := h.order c
  have hnil : held = [] := by
    apply List.eq_nil_iff_forall_not_mem.mpr
    intro t ht
    obtain ⟨_, _, w, hw⟩ := (hheld t).mp ht
    rw [Holding, hworkers w] at hw
    cases hw
  have hwaiting : waiting s = [] := by
    rw [waiting, ServerState.queued, hqueue, hmain]
    rfl
  rw [horder, hnil, hwaiting]
  simp [ofClient]

/-- The logged commands of a client are those of the tasks that were executed. -/
def LogsExecuted (s : ServerState W) : Prop :=
  ∀ c, appliedCommands s c = (ofClient c s.history.executed).map ConnTask.ballCommand

theorem LogsExecuted.unlogged {s s' : ServerState W} (h : LogsExecuted s) {e : StoreEvent}
    (hexecuted : s'.history.executed = s.history.executed)
    (hlog : s'.history.log = s.history.log ++ [⟨none, e⟩]) : LogsExecuted s' := by
  intro c
  rw [hexecuted, ← h c]
  simp [appliedCommands, hlog]

theorem LogsExecuted.refused {s s' : ServerState W} (h : LogsExecuted s) {t : ConnTask}
    (hball : t.isBall = false) (hexecuted : s'.history.executed = s.history.executed ++ [t])
    (hlog : s'.history.log = s.history.log) : LogsExecuted s' := by
  intro c
  have happlied : appliedCommands s' c = appliedCommands s c := by
    rw [appliedCommands, hlog, appliedCommands]
  rw [hexecuted, ofClient_append, ofClient_cons_of_not (by simp [hball]), happlied, h c]
  simp [ofClient]

variable [DecidableEq W]

/-- **The step lemma.** -/
theorem inOrder_step {s s' : ServerState W} {l : Label W} (h : InOrder s)
    (hl : NoOvertaking s l) (ht : Transition s l s') : InOrder s' := by
  have hsame : ∀ w t, Holding s w t ↔ Holding s w t := fun _ _ => Iff.rfl
  cases ht with
  | epollWait hmain hevents hready => exact h.same hsame rfl rfl rfl
  | accept hmain hevents hfree => exact h.same hsame rfl rfl (by rw [waiting, waiting, hmain]; rfl)
  | skipEvent hmain hevents => exact h.same hsame rfl rfl rfl
  | addClient hmain hclients => exact h.same hsame rfl rfl (by rw [waiting, waiting, hmain]; rfl)
  | countClient hmain hclients => exact h.same hsame rfl rfl (by rw [waiting, waiting, hmain]; rfl)
  | addInitialBalls hmain hballs =>
    exact h.same hsame rfl rfl (by rw [waiting, waiting, hmain]; rfl)
  | recvData hmain hevents hsocket ht =>
    subst ht
    refine h.receive hsame rfl rfl ?_ rfl
    rw [waiting, waiting, hmain, List.append_assoc]
    rfl
  | recvEnd hmain hevents => exact h.same hsame rfl rfl (by rw [waiting, waiting, hmain]; rfl)
  | push hmain hqueue =>
    refine h.same hsame rfl rfl ?_
    rw [waiting, waiting, hmain, ServerState.queued, hqueue]
    exact List.append_nil _
  | hangUpRemove hmain hclients => exact h.same hsame rfl rfl (by rw [waiting, waiting, hmain]; rfl)
  | hangUpDelete hmain hballs => exact h.same hsame rfl rfl (by rw [waiting, waiting, hmain]; rfl)
  | @pop w t queue hworker hqueue =>
    refine h.pop (t := t) hworker ?_ rfl rfl ?_
    · intro w' t'
      rw [Holding, phase_setWorker]
      simp only [WorkerPhase.holding.injEq, Holding, eq_comm]
    · rw [waiting, hqueue]
      rfl
  | refuse hworker hexit hball =>
    refine h.execute hworker (hl _ hworker) ?_ rfl rfl rfl
    intro w' t'
    rw [Holding, phase_setWorker]
    simp [Holding, afterExecution]
  | exit hworker hexit hclients =>
    refine h.execute hworker (hl _ hworker) ?_ rfl rfl rfl
    intro w' t'
    rw [Holding, phase_setWorker]
    simp [Holding, afterExecution, afterRemoval]
  | dispatch hworker hball hballs =>
    refine h.execute hworker (hl _ hworker) ?_ rfl rfl rfl
    intro w' t'
    rw [Holding, phase_setWorker]
    simp [Holding, afterExecution]
  | @exitDelete w t balls hworker hballs =>
    refine h.same ?_ rfl rfl rfl
    intro w' t'
    rw [Holding, phase_setWorker]
    by_cases hw : w' = w
    · subst hw
      simp [Holding, hworker]
    · simp [Holding, hw]
  | tick hballs => exact h.same hsame rfl rfl rfl

/-! ## The applied commands -/

/-- The ball store is what the logged events make of the empty one. -/
def Replays (s : ServerState W) : Prop :=
  run eventStep ballManagerInit (s.history.log.map Logged.event) = .ok s.ballListManager

theorem replays_step {s s' : ServerState W} {l : Label W} (h : Replays s)
    (ht : Transition s l s') : Replays s' := by
  rcases ht.log with ⟨hballs, hlog⟩ | ⟨e, hevent, hlog⟩
  · rw [Replays, hballs, hlog]
    exact h
  · rw [Replays, hlog, List.map_append]
    exact run_concat_ok.mpr ⟨_, h, hevent⟩

theorem logsExecuted_step {s s' : ServerState W} {l : Label W} (h : LogsExecuted s)
    (ht : Transition s l s') : LogsExecuted s' := by
  cases ht with
  | epollWait => exact h
  | accept => exact h
  | skipEvent => exact h
  | addClient => exact h
  | countClient => exact h
  | addInitialBalls => exact h.unlogged rfl rfl
  | recvData => exact h
  | recvEnd => exact h
  | push => exact h
  | hangUpRemove => exact h
  | hangUpDelete => exact h.unlogged rfl rfl
  | pop => exact h
  | refuse hworker hexit hball => exact h.refused hball rfl rfl
  | exit hworker hexit hclients =>
    refine h.refused ?_ rfl rfl
    rw [ConnTask.isBall, hexit]
    decide
  | @dispatch w env t count radius balls hworker hball hballs =>
    intro c
    have hc := h c
    rw [appliedCommands] at hc
    change List.filterMap _ (List.filter _ (s.history.log ++ [⟨some t.conn, t.storeEvent env⟩])) =
      (ofClient c (s.history.executed ++ [t])).map ConnTask.ballCommand
    rw [List.filter_append, List.filterMap_append, hc, ofClient_append, List.map_append]
    congr 1
    by_cases hconn : t.conn = c
    · rw [ofClient_cons_of_mem hconn hball]
      simp [hconn, ofClient, StoreEvent.ballCommand, ConnTask.storeEvent, ConnTask.ballCommand]
    · rw [ofClient_cons_of_not fun hmem => hconn hmem.1]
      simp [hconn, ofClient]
  | exitDelete => exact h.unlogged rfl rfl
  | tick => exact h.unlogged rfl rfl

/-- **Commands are applied one after the other, and a client's commands in the order of their
arrival unless one overtakes another.** -/
theorem client_commands_in_order (labels : List (Label W)) (s : ServerState W)
    (hrun : run step start labels = .ok s) :
    run eventStep ballManagerInit (s.history.log.map Logged.event) = .ok s.ballListManager ∧
      (∀ o, ∃ m, run eventStep ballManagerInit
          ((s.history.log.map Logged.event).filter (StoreEvent.concerns o)) = .ok m ∧
        ownerView o s.ballListManager = ownerView o m) ∧
      (Throughout step NoOvertaking start labels → ∀ c,
        appliedCommands s c <+: receivedCommands s c ∧
          (Quiescent s → appliedCommands s c = receivedCommands s c)) := by
  have hstart : (start : ServerState W).Sound ∧ Replays (start : ServerState W) ∧
      LogsExecuted (start : ServerState W) := ⟨sound_start, rfl, fun c => rfl⟩
  obtain ⟨hsound, hreplays, hlogs⟩ := run_invariant
    (I := fun s => ServerState.Sound s ∧ Replays s ∧ LogsExecuted s) (fun s l s' h hok => by
      obtain ⟨hs', ht⟩ := transition_of_step h.1 hok
      exact ⟨hs', replays_step h.2.1 ht, logsExecuted_step h.2.2 ht⟩) hstart hrun
  refine ⟨hreplays, fun o => run_concerned hreplays, ?_⟩
  intro hno c
  have horder := run_invariant_throughout
    (I := fun s => ServerState.Sound s ∧ InOrder s) (fun s l s' hl h hok => by
      obtain ⟨hs', ht⟩ := transition_of_step h.1 hok
      exact ⟨hs', inOrder_step h.2 hl ht⟩) hno ⟨sound_start, inOrder_start⟩ hrun
  rw [hlogs c, receivedCommands]
  refine ⟨?_, fun hq => by rw [horder.2.quiescent hq]⟩
  obtain ⟨held, _, hparts⟩ := horder.2.order c
  rw [hparts, List.append_assoc]
  exact (List.prefix_append _ _).map _

/-- A client connects as socket 7 and sends `a:3:30` and `d:3`; each of two workers takes one
of the commands. -/
def twoHeldCommands : List (Label Bool) :=
  [.epollWait [.listener], .accept 7, .addClient (some 0), .countClient, .addInitialBalls zeroDraws,
    .epollWait [.client 7 0], .recvData ['a', ':', '3', ':', '3', '0'], .push,
    .epollWait [.client 7 0], .recvData ['d', ':', '3'], .push, .pop true, .pop false]

theorem noOvertaking_twoHeldCommands : Throughout step NoOvertaking start
    (twoHeldCommands ++ [.execute true zeroDraws, .execute false zeroDraws]) := by
  iterate 13 refine throughout_cons_of_ok rfl trivial ?_
  refine throughout_cons_of_ok rfl ?_ (throughout_cons_of_ok rfl ?_ trivial)
  · rintro t ht _ (_ | _) t' ht' _ _
    · cases ht
      cases ht'
      decide
    · cases ht
      cases ht'
      exact Nat.le_refl _
  · rintro t ht _ (_ | _) t' ht' _ _
    · cases ht
      cases ht'
      exact Nat.le_refl _
    · cases ht'

/-- Applied in the order of their arrival, the commands leave the first five balls. -/
theorem client_commands_in_order_two_workers :
    ∃ s, run step start (twoHeldCommands ++ [.execute true zeroDraws, .execute false zeroDraws]) =
        .ok s ∧
      appliedCommands s 0 = receivedCommands s 0 ∧
      (ownerView 7 s.ballListManager).map BallView.radius = [20, 20, 20, 20, 20] := by
  refine ⟨_, rfl, ?_, rfl⟩
  refine ((client_commands_in_order _ _ rfl).2.2 noOvertaking_twoHeldCommands 0).2 ⟨rfl, rfl, ?_⟩
  rintro (_ | _) <;> rfl

/-- The other worker is faster: `d:3` is applied first and the new balls stay. -/
theorem client_commands_reordered :
    ∃ s, run step start (twoHeldCommands ++ [.execute false zeroDraws, .execute true zeroDraws]) =
        .ok s ∧
      receivedCommands s 0 = [('a', 3, 30), ('d', 3, 20)] ∧
      appliedCommands s 0 = [('d', 3, 20), ('a', 3, 30)] ∧
      (ownerView 7 s.ballListManager).map BallView.radius = [20, 20, 30, 30, 30] :=
  ⟨_, rfl, rfl, rfl, rfl⟩

end BallGame.Server
