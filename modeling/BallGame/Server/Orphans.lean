import BallGame.Server.Transitions

/-!
# Balls without a client

A client that leaves is taken off the list first, and its balls are deleted in a second
critical section. A command of the client that is still in the queue, or held by a worker, can
create balls for it after that, and nothing deletes these any more.

* `no_orphan_balls`: in a run that only creates balls for numbers of clients on the list, or of
  clients whose balls are yet to be deleted, every quiescent state has a client for every ball;
* `orphan_ball`: a run in which a client sends `a` and leaves before a worker is free.
-/

namespace BallGame.Server

open Library

variable {W : Type}

/-! ## Balls that are accounted for -/

def Listed (s : ServerState W) (fd : Int) : Prop := ∃ c ∈ s.clientList, c.csock = fd

/-- The number whose balls the main thread is going to delete. -/
def MainPhase.leaving : MainPhase → Option Int
  | .hungUp fd _ => some fd
  | .removed fd _ => some fd
  | _ => none

/-- The balls of a number are going to be deleted: its client has hung up, or the command `x`
is somewhere between its arrival and the end of its execution. -/
inductive DeletionPending (s : ServerState W) (fd : Int) : Prop where
  | hungUp (h : s.main.leaving = some fd)
  | waiting {t : ConnTask} (hexit : t.command.1 = cmdExit) (hfd : t.task.fd = fd)
      (h : t ∈ waiting s)
  | holding {t : ConnTask} {w : W} (hexit : t.command.1 = cmdExit) (hfd : t.task.fd = fd)
      (h : Holding s w t)
  | exiting {t : ConnTask} {w : W} (hfd : t.task.fd = fd) (h : (s.workers w).phase = .exiting t)

def AccountedFor (s : ServerState W) (fd : Int) : Prop := Listed s fd ∨ DeletionPending s fd

/-- The step creates a ball for `fd`. -/
def Creates (s : ServerState W) : Label W → Int → Prop
  | .addInitialBalls env, fd => (∃ conn, s.main = .counted fd conn) ∧
      (StoreEvent.command cmdAdd startBallCount startBallRadius fd env).CreatesFor fd
  | .execute w env, fd => ∃ t, Holding s w t ∧ (t.storeEvent env).CreatesFor fd
  | _, _ => False

/-- Balls are only created for numbers that are accounted for. -/
def CreatesForPresent (s : ServerState W) (l : Label W) : Prop :=
  ∀ fd, Creates s l fd → AccountedFor s fd

/-! ## The invariant -/

/-- Every ball is accounted for. -/
def NoneAbandoned (s : ServerState W) : Prop := ∀ n ∈ s.nodes, AccountedFor s n.2.ownerId

theorem AccountedFor.mono {s s' : ServerState W} {fd : Int} (h : AccountedFor s fd)
    (hlisted : Listed s fd → Listed s' fd)
    (hmain : s.main.leaving = some fd → s'.main.leaving = some fd)
    (hwaiting : ∀ t ∈ waiting s, t ∈ waiting s')
    (hworkers : ∀ w, (s'.workers w).phase = (s.workers w).phase) : AccountedFor s' fd := by
  rcases h with h | h
  · exact Or.inl (hlisted h)
  refine Or.inr ?_
  cases h with
  | hungUp h => exact .hungUp (hmain h)
  | waiting hexit hfd h => exact .waiting hexit hfd (hwaiting _ h)
  | holding hexit hfd h => exact .holding hexit hfd ((hworkers _).trans h)
  | exiting hfd h => exact .exiting hfd ((hworkers _).trans h)

/-- A main thread that neither deletes balls nor holds a task may go anywhere. -/
theorem AccountedFor.of_idle {s s' : ServerState W} {fd : Int} (h : AccountedFor s fd)
    (hlisted : Listed s fd → Listed s' fd) (hleaving : s.main.leaving = none)
    (htasks : s.main.tasks = []) (hqueued : s'.queued = s.queued)
    (hworkers : s'.workers = s.workers) : AccountedFor s' fd := by
  refine h.mono hlisted ?_ ?_ fun w => by rw [hworkers]
  · intro he
    rw [hleaving] at he
    cases he
  · intro t ht
    rw [waiting, htasks, List.append_nil] at ht
    rw [waiting, hqueued]
    exact List.mem_append_left _ ht

/-- A quiescent state has nothing left to delete. -/
theorem AccountedFor.listed {s : ServerState W} {fd : Int} (h : AccountedFor s fd)
    (hq : Quiescent s) : Listed s fd := by
  obtain ⟨hqueue, hmain, hworkers⟩ := hq
  rcases h with h | h
  · exact h
  cases h with
  | hungUp h =>
    rw [hmain] at h
    cases h
  | waiting _ _ h =>
    rw [waiting, ServerState.queued, hqueue, hmain] at h
    cases h
  | holding _ _ h =>
    rw [Holding, hworkers] at h
    cases h
  | exiting _ h =>
    rw [hworkers] at h
    cases h

/-- Removing a client from the list leaves the other numbers listed. -/
theorem Listed.eraseP {s s' : ServerState W} {fd o : Int} (h : Listed s o) (hne : o ≠ fd)
    (hclients : s'.clientList = s.clientList.eraseP fun c => c.csock = fd) : Listed s' o := by
  obtain ⟨c, hc, rfl⟩ := h
  refine ⟨c, ?_, rfl⟩
  rw [hclients]
  exact (List.mem_eraseP_of_neg (by simpa using hne)).mpr hc

variable [DecidableEq W]

/-- A worker that moves keeps the deletions of the other workers pending. -/
theorem AccountedFor.worker {s s' : ServerState W} {fd : Int} (h : AccountedFor s fd) {w : W}
    (hlisted : Listed s fd → Listed s' fd) (hmain : s'.main = s.main)
    (hwaiting : ∀ t ∈ waiting s, t ∈ waiting s' ∨ Holding s' w t)
    (hother : ∀ w' ≠ w, (s'.workers w').phase = (s.workers w').phase)
    (hself : ∀ t, t.task.fd = fd → (Holding s w t ∧ t.command.1 = cmdExit) ∨
      (s.workers w).phase = .exiting t → AccountedFor s' fd) : AccountedFor s' fd := by
  rcases h with h | h
  · exact Or.inl (hlisted h)
  cases h with
  | hungUp h => exact Or.inr (.hungUp (hmain ▸ h))
  | waiting hexit hfd h =>
    rcases hwaiting _ h with h | h
    · exact Or.inr (.waiting hexit hfd h)
    · exact Or.inr (.holding hexit hfd h)
  | @holding t w' hexit hfd h =>
    by_cases hw : w' = w
    · subst hw
      exact hself t hfd (Or.inl ⟨h, hexit⟩)
    · exact Or.inr (.holding hexit hfd ((hother w' hw).trans h))
  | @exiting t w' hfd h =>
    by_cases hw : w' = w
    · subst hw
      exact hself t hfd (Or.inr h)
    · exact Or.inr (.exiting hfd ((hother w' hw).trans h))

theorem phase_setWorker_of_ne {s : ServerState W} {w w' : W} {worker : Worker} (hw : w' ≠ w) :
    ((setWorker s w worker).workers w').phase = (s.workers w').phase :=
  phase_setWorker.mpr (Or.inr ⟨hw, rfl⟩)

/-- What was accounted for stays so, until its balls are deleted. -/
theorem accountedFor_step {s s' : ServerState W} (hs : s.Sound) {l : Label W}
    (ht : Transition s l s') {o : Int} (h : AccountedFor s o) :
    AccountedFor s' o ∨ ∀ n ∈ s'.nodes, n.2.ownerId ≠ o := by
  cases ht with
  | epollWait => exact Or.inl (h.mono id id (fun _ => id) fun _ => rfl)
  | accept hmain =>
    exact Or.inl (h.of_idle id (by rw [hmain]; rfl) (by rw [hmain]; rfl) rfl rfl)
  | skipEvent => exact Or.inl (h.mono id id (fun _ => id) fun _ => rfl)
  | @addClient csock conn alloc clients hmain hclients =>
    refine Or.inl (h.of_idle ?_ (by rw [hmain]; rfl) (by rw [hmain]; rfl) rfl rfl)
    rintro ⟨c, hc, ho⟩
    refine ⟨c, ?_, ho⟩
    rw [ServerState.clientList, hclients]
    split
    · exact List.mem_append_left _ hc
    · exact hc
  | countClient hmain hclients =>
    refine Or.inl (h.of_idle ?_ (by rw [hmain]; rfl) (by rw [hmain]; rfl) rfl rfl)
    rintro ⟨c, hc, ho⟩
    refine ⟨c, ?_, ho⟩
    rwa [ServerState.clientList, hclients]
  | addInitialBalls hmain =>
    exact Or.inl (h.of_idle id (by rw [hmain]; rfl) (by rw [hmain]; rfl) rfl rfl)
  | recvData hmain =>
    exact Or.inl (h.of_idle id (by rw [hmain]; rfl) (by rw [hmain]; rfl) rfl rfl)
  | recvEnd hmain =>
    exact Or.inl (h.of_idle id (by rw [hmain]; rfl) (by rw [hmain]; rfl) rfl rfl)
  | push hmain hqueue =>
    refine Or.inl (h.mono id ?_ ?_ fun _ => rfl)
    · intro he
      rw [hmain] at he
      cases he
    · intro t ht
      rw [waiting, hmain] at ht
      apply List.mem_append_left _
      rw [ServerState.queued, hqueue]
      exact ht
  | @hangUpRemove fd conn clients hmain hclients =>
    by_cases ho : o = fd
    · exact Or.inl (Or.inr (.hungUp (congrArg some ho.symm)))
    · refine Or.inl (h.mono (fun hl => hl.eraseP ho hclients) (fun he => ?_) (fun t ht => ?_)
        fun _ => rfl)
      · rwa [hmain] at he
      · rwa [waiting, hmain] at ht
  | @hangUpDelete fd conn balls hmain hballs =>
    by_cases ho : o = fd
    · exact Or.inr fun n hn => ho ▸ eventStep_disconnect_owner hs.balls hballs hn
    · refine Or.inl (h.mono id ?_ ?_ fun _ => rfl)
      · intro he
        rw [hmain] at he
        exact absurd (Option.some.inj he).symm ho
      · intro t ht
        rwa [waiting, hmain] at ht
  | @pop w t queue hworker hqueue =>
    refine Or.inl (h.worker (w := w) id rfl (fun u hu => ?_)
      (fun w' hw => phase_setWorker_of_ne hw) fun u _ hu => ?_)
    · rw [waiting, hqueue, List.cons_append] at hu
      rcases List.mem_cons.mp hu with rfl | hu
      · exact Or.inr (phase_setWorker.mpr (Or.inl ⟨rfl, rfl⟩))
      · exact Or.inl hu
    · rw [Holding, hworker] at hu
      rcases hu with ⟨hu, _⟩ | hu <;> cases hu
  | @refuse w env t count radius hworker hexit hball =>
    refine Or.inl (h.worker (w := w) id rfl (fun u hu => Or.inl hu)
      (fun w' hw => phase_setWorker_of_ne hw) fun u _ hu => ?_)
    rw [Holding, hworker] at hu
    rcases hu with ⟨hu, hu'⟩ | hu
    · cases hu
      exact absurd hu' hexit
    · cases hu
  | @exit w env t count radius clients hworker hexit hclients =>
    by_cases ho : o = t.task.fd
    · exact Or.inl (Or.inr (.exiting ho.symm (phase_setWorker.mpr (Or.inl ⟨rfl, rfl⟩))))
    · refine Or.inl (h.worker (w := w) (fun hl => hl.eraseP ho hclients) rfl
        (fun u hu => Or.inl hu) (fun w' hw => phase_setWorker_of_ne hw) fun u hfd hu => ?_)
      rw [Holding, hworker] at hu
      rcases hu with ⟨hu, _⟩ | hu
      · cases hu
        exact absurd hfd.symm ho
      · cases hu
  | @dispatch w env t count radius balls hworker hball hballs =>
    refine Or.inl (h.worker (w := w) id rfl (fun u hu => Or.inl hu)
      (fun w' hw => phase_setWorker_of_ne hw) fun u _ hu => ?_)
    rw [Holding, hworker] at hu
    rcases hu with ⟨hu, hu'⟩ | hu
    · cases hu
      rw [hu'] at hball
      exact absurd hball (by decide)
    · cases hu
  | @exitDelete w t balls hworker hballs =>
    by_cases ho : o = t.task.fd
    · exact Or.inr fun n hn => ho ▸ eventStep_disconnect_owner hs.balls hballs hn
    · refine Or.inl (h.worker (w := w) id rfl (fun u hu => Or.inl hu)
        (fun w' hw => phase_setWorker_of_ne hw) fun u hfd hu => ?_)
      rw [Holding, hworker] at hu
      rcases hu with ⟨hu, _⟩ | hu
      · cases hu
      · cases hu
        exact absurd hfd.symm ho
  | tick => exact Or.inl (h.mono id id (fun _ => id) fun _ => rfl)

/-- After a step every ball has an owner that had balls before, or for whom the step created
one. -/
theorem Transition.owner {s s' : ServerState W} (hs : s.Sound) {l : Label W}
    (ht : Transition s l s') {n : Nat × LogicalBall} (hn : n ∈ s'.nodes) :
    (∃ n₀ ∈ s.nodes, n₀.2.ownerId = n.2.ownerId) ∨ Creates s l n.2.ownerId := by
  have hold : ∀ {m : Nat × LogicalBall}, m ∈ s.nodes →
      (∃ n₀ ∈ s.nodes, n₀.2.ownerId = m.2.ownerId) ∨ Creates s l m.2.ownerId :=
    fun hm => Or.inl ⟨_, hm, rfl⟩
  cases ht with
  | epollWait => exact hold hn
  | accept => exact hold hn
  | skipEvent => exact hold hn
  | addClient => exact hold hn
  | countClient => exact hold hn
  | @addInitialBalls csock conn env balls hmain hballs =>
    rcases eventStep_owner hs.balls hballs hn with h | h
    · exact Or.inl h
    · exact Or.inr ⟨⟨conn, h.1 ▸ hmain⟩, h.1 ▸ h⟩
  | recvData => exact hold hn
  | recvEnd => exact hold hn
  | push => exact hold hn
  | hangUpRemove => exact hold hn
  | hangUpDelete hmain hballs => exact (eventStep_owner hs.balls hballs hn).imp_right False.elim
  | pop => exact hold hn
  | refuse => exact hold hn
  | exit => exact hold hn
  | dispatch hworker hball hballs =>
    exact (eventStep_owner hs.balls hballs hn).imp_right fun h => ⟨_, hworker, h⟩
  | exitDelete hworker hballs => exact (eventStep_owner hs.balls hballs hn).imp_right False.elim
  | tick hballs => exact (eventStep_owner hs.balls hballs hn).imp_right False.elim

/-- **The step lemma.** -/
theorem noneAbandoned_step {s s' : ServerState W} (hs : s.Sound) {l : Label W}
    (h : NoneAbandoned s) (hl : CreatesForPresent s l) (ht : Transition s l s') :
    NoneAbandoned s' := by
  intro n hn
  have hbefore : AccountedFor s n.2.ownerId := by
    rcases ht.owner hs hn with ⟨n₀, hn₀, ho⟩ | hcreates
    · exact ho ▸ h n₀ hn₀
    · exact hl _ hcreates
  rcases accountedFor_step hs ht hbefore with hafter | hdeleted
  · exact hafter
  · exact absurd rfl (hdeleted n hn)

/-! ## Runs -/

/-- **No orphan balls,** in every run that creates balls for present owners only. -/
theorem no_orphan_balls (labels : List (Label W)) (s : ServerState W)
    (hrun : run step start labels = .ok s)
    (hpresent : Throughout step CreatesForPresent start labels) (hq : Quiescent s) :
    ∀ b ∈ s.ballListManager.toList, ∃ c ∈ s.clientListManager.toList, c.csock = b.ownerId := by
  have hinv := run_invariant_throughout
    (I := fun s => ServerState.Sound s ∧ NoneAbandoned s) (fun s l s' hl h hok => by
      obtain ⟨hs', ht⟩ := transition_of_step h.1 hok
      exact ⟨hs', noneAbandoned_step h.1 h.2 hl ht⟩) hpresent
    ⟨sound_start, fun n hn => absurd hn List.not_mem_nil⟩ hrun
  intro b hb
  obtain ⟨n, hn, rfl⟩ := List.mem_map.mp hb
  exact (hinv.2 n hn).listed hq

/-- A client connects as socket 7 and sends `a`. -/
def queuedCommand : List (Label Unit) :=
  [.epollWait [.listener], .accept 7, .addClient (some 0), .countClient,
    .addInitialBalls zeroDraws, .epollWait [.client 7 0], .recvData ['a'], .push,
    .epollWait [.client 7 0]]

/-- The command is executed before the client hangs up. -/
def executedBefore : List (Label Unit) :=
  queuedCommand ++ [.pop (), .execute () zeroDraws]

/-- The command is executed after the client hung up. -/
def executedAfter : List (Label Unit) :=
  queuedCommand ++ [.recvEnd, .hangUpRemove, .hangUpDelete, .pop (), .execute () zeroDraws]

theorem createsForPresent_executedBefore :
    Throughout step CreatesForPresent start executedBefore := by
  have hmem : (⟨7, 0⟩ : SocketContext Conn) ∈ [(⟨7, 0⟩ : SocketContext Conn)] :=
    List.mem_singleton_self _
  iterate 4 refine throughout_cons_of_ok rfl (fun _ h => absurd h id) ?_
  refine throughout_cons_of_ok rfl ?_ ?_
  · rintro fd ⟨⟨conn, hmain⟩, _⟩
    cases hmain
    exact Or.inl ⟨⟨7, 0⟩, hmem, rfl⟩
  iterate 5 refine throughout_cons_of_ok rfl (fun _ h => absurd h id) ?_
  refine throughout_cons_of_ok rfl ?_ trivial
  rintro fd ⟨t, ht, rfl, _⟩
  cases ht
  exact Or.inl ⟨⟨7, 0⟩, hmem, rfl⟩

/-- The six balls of a client that is there. -/
theorem no_orphan_balls_executed_before :
    ∃ s, run step start executedBefore = .ok s ∧
      s.ballListManager.toList.map LogicalBall.ownerId = [7, 7, 7, 7, 7, 7] ∧
      ∀ b ∈ s.ballListManager.toList, ∃ c ∈ s.clientListManager.toList, c.csock = b.ownerId := by
  obtain ⟨s, hs, howners⟩ : ∃ s, run step start executedBefore = .ok s ∧
      s.ballListManager.toList.map LogicalBall.ownerId = [7, 7, 7, 7, 7, 7] := ⟨_, rfl, rfl⟩
  refine ⟨s, hs, howners, no_orphan_balls _ s hs createsForPresent_executedBefore ?_⟩
  cases hs
  exact ⟨rfl, rfl, fun _ => rfl⟩

/-- The ball of a client that has left. -/
theorem orphan_ball :
    ∃ s, run step start executedAfter = .ok s ∧ Quiescent s ∧
      s.ballListManager.toList.map LogicalBall.ownerId = [7] ∧ s.clientListManager.toList = [] :=
  ⟨_, rfl, ⟨rfl, rfl, fun _ => rfl⟩, rfl, rfl⟩

end BallGame.Server
