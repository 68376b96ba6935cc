import Mathlib.Algebra.BigOperators.Group.Finset.Piecewise
import BallGame.Server.Transitions

/-!
# Every request is served once

Between `recv` and the end of its execution a request is in the hands of the main thread, in the
queue, or with one worker. No thread drops it and no two threads have it, whatever their order.

* `served_step`: how a step passes requests on;
* `requests_served_once`: the requests that were taken, and those that wait.
-/

namespace BallGame.Server

open Library

variable {W : Type} [Fintype W]

/-- The request that a worker has taken and not yet executed. -/
def WorkerPhase.held : WorkerPhase → Multiset ConnTask
  | .holding t => {t}
  | _ => 0

def heldTasks (s : ServerState W) : Multiset ConnTask := ∑ w, (s.workers w).phase.held

/-- Received requests have the numbers 0, 1, 2 and so on, and those that no longer wait are those
that were executed and those that workers hold. -/
structure Served (s : ServerState W) : Prop where
  numbered : s.history.received.map ConnTask.arrival = List.range s.history.received.length
  taken : ∃ taken, s.history.received = taken ++ waiting s ∧
    (taken : Multiset ConnTask) = s.history.executed + heldTasks s

theorem served_start : Served (start : ServerState W) := by
  refine ⟨rfl, [], ?_, ?_⟩
  · rw [waiting, queued_start]
    rfl
  · have hnone : heldTasks (start : ServerState W) = 0 := Finset.sum_eq_zero fun _ _ => rfl
    rw [hnone]
    rfl

/-- A step that leaves the requests where they are. -/
theorem Served.same {s s' : ServerState W} (h : Served s) (hheld : heldTasks s' = heldTasks s)
    (hexecuted : s'.history.executed = s.history.executed)
    (hreceived : s'.history.received = s.history.received) (hwaiting : waiting s' = waiting s) :
    Served s' := by
  refine ⟨hreceived ▸ h.numbered, ?_⟩
  rw [hreceived, hwaiting, hexecuted, hheld]
  exact h.taken

theorem Served.nodup {s : ServerState W} (h : Served s) : s.history.executed.Nodup := by
  obtain ⟨taken, hsplit, htaken⟩ := h.taken
  have hreceived : s.history.received.Nodup :=
    List.Nodup.of_map ConnTask.arrival (h.numbered ▸ List.nodup_range)
  rw [hsplit] at hreceived
  have hnodup : (taken : Multiset ConnTask).Nodup :=
    Multiset.coe_nodup.mpr (List.nodup_append.mp hreceived).1
  rw [htaken] at hnodup
  exact Multiset.coe_nodup.mp (Multiset.nodup_of_le (Multiset.le_add_right _ _) hnodup)

/-- When nothing waits and no worker holds a request, all were executed. -/
theorem Served.quiescent {s : ServerState W} (h : Served s) (hq : Quiescent s) :
    s.history.executed.Perm s.history.received := by
  obtain ⟨hqueue, hmain, hworkers⟩ := hq
  obtain ⟨taken, hsplit, htaken⟩ := h.taken
  have hheld : heldTasks s = 0 := by
    apply Finset.sum_eq_zero
    intro w _
    rw [hworkers w]
    rfl
  have hwaiting : waiting s = [] := by
    rw [waiting, ServerState.queued, hqueue, hmain]
    rfl
  rw [hheld, add_zero] at htaken
  rw [hsplit, hwaiting, List.append_nil]
  exact (Multiset.coe_eq_coe.mp htaken).symm

variable [DecidableEq W]

/-- A sum over the workers, before and after something of one of them changed. -/
theorem sum_update {M β : Type} [AddCommMonoid M] (f : β → M) (g : W → β) (w : W) (x : β) :
    ∑ v, f (Function.update g w x v) + f (g w) = ∑ v, f (g v) + f x := by
  have hupdate : (fun v => f (Function.update g w x v)) =
      Function.update (fun v => f (g v)) w (f x) := Function.comp_update f g w x
  have hsplit := Finset.sum_eq_add_sum_sdiff_singleton_of_mem (Finset.mem_univ w) fun v => f (g v)
  rw [hupdate, Finset.sum_update_of_mem (Finset.mem_univ w), hsplit]
  abel

/-- A sum over the workers, before and after one of them moved. -/
theorem sum_setWorker {M : Type} [AddCommMonoid M] (f : WorkerPhase → M) (s : ServerState W) (w : W)
    (worker : Worker) :
    ∑ v, f ((setWorker s w worker).workers v).phase + f (s.workers w).phase =
      ∑ v, f (s.workers v).phase + f worker.phase :=
  sum_update (fun x : Worker => f x.phase) s.workers w worker

/-- What a worker had before and what it has after a step. -/
theorem heldTasks_setWorker (s : ServerState W) (w : W) (worker : Worker) :
    heldTasks (setWorker s w worker) + (s.workers w).phase.held =
      heldTasks s + worker.phase.held := sum_setWorker WorkerPhase.held s w worker

/-- A worker that holds nothing before and after. -/
theorem heldTasks_idle {s u : ServerState W} {w : W} {worker : Worker} (hu : u.workers = s.workers)
    (hbefore : (s.workers w).phase.held = 0) (hafter : worker.phase.held = 0) :
    heldTasks (setWorker u w worker) = heldTasks s := by
  have hsum := heldTasks_setWorker u w worker
  rw [hafter, hu, hbefore, add_zero, add_zero] at hsum
  rw [hsum, heldTasks, hu, heldTasks]

/-- A worker is done with the request it holds. -/
theorem Served.execute {s u : ServerState W} (h : Served s) {w : W} {t : ConnTask}
    {worker : Worker} (hworker : (s.workers w).phase = .holding t)
    (hworkers : u.workers = s.workers) (hafter : worker.phase.held = 0)
    (hexecuted : u.history.executed = s.history.executed ++ [t])
    (hreceived : u.history.received = s.history.received)
    (hwaiting : waiting u = waiting s) : Served (setWorker u w worker) := by
  have hsum := heldTasks_setWorker u w worker
  have hheld : heldTasks u = heldTasks s := by rw [heldTasks, hworkers, heldTasks]
  rw [hafter, hworkers, hworker, hheld, add_zero] at hsum
  obtain ⟨taken, hsplit, htaken⟩ := h.taken
  have hreceived' : (setWorker u w worker).history.received = s.history.received := hreceived
  refine ⟨hreceived' ▸ h.numbered, taken, ?_, ?_⟩
  · rw [hreceived', hsplit, ← hwaiting]
    rfl
  · have hexecuted' : (setWorker u w worker).history.executed = s.history.executed ++ [t] :=
      hexecuted
    rw [htaken, hexecuted', ← hsum, ← Multiset.coe_add, add_assoc, add_comm (heldTasks _)]
    rfl

/-- **The step lemma.** -/
theorem served_step {s s' : ServerState W} {l : Label W} (h : Served s)
    (ht : Transition s l s') : Served s' := by
  cases ht with
  | epollWait hmain hevents hready => exact h.same rfl rfl rfl rfl
  | accept hmain hevents hfree => exact h.same rfl rfl rfl (by rw [waiting, waiting, hmain]; rfl)
  | skipEvent hmain hevents => exact h.same rfl rfl rfl rfl
  | addClient hmain hclients => exact h.same rfl rfl rfl (by rw [waiting, waiting, hmain]; rfl)
  | countClient hmain hclients => exact h.same rfl rfl rfl (by rw [waiting, waiting, hmain]; rfl)
  | addInitialBalls hmain hballs =>
    exact h.same rfl rfl rfl (by rw [waiting, waiting, hmain]; rfl)
  | recvData hmain hevents hsocket ht =>
    subst ht
    obtain ⟨taken, hsplit, htaken⟩ := h.taken
    refine ⟨?_, taken, ?_, htaken⟩
    · rw [List.map_append, h.numbered, List.length_append, List.length_singleton,
        List.range_succ]
      rfl
    · rw [waiting, hmain] at hsplit
      rw [waiting, hsplit, List.append_assoc, List.append_assoc]
      rfl
  | recvEnd hmain hevents => exact h.same rfl rfl rfl (by rw [waiting, waiting, hmain]; rfl)
  | push hmain hqueue =>
    refine h.same rfl rfl rfl ?_
    rw [waiting, waiting, hmain, ServerState.queued, hqueue]
    exact List.append_nil _
  | hangUpRemove hmain hclients =>
    exact h.same rfl rfl rfl (by rw [waiting, waiting, hmain]; rfl)
  | hangUpDelete hmain hballs => exact h.same rfl rfl rfl (by rw [waiting, waiting, hmain]; rfl)
  | @pop w t queue hworker hqueue =>
    have hsum := heldTasks_setWorker { s with taskQueue := queue } w
      { s.workers w with phase := .holding t }
    have hnone : (s.workers w).phase.held = 0 := by rw [hworker]; rfl
    rw [hnone, add_zero] at hsum
    obtain ⟨taken, hsplit, htaken⟩ := h.taken
    refine ⟨h.numbered, taken ++ [t], ?_, ?_⟩
    · refine hsplit.trans ?_
      rw [waiting, hqueue, List.append_assoc]
      rfl
    · rw [← Multiset.coe_add, htaken, hsum, add_assoc]
      rfl
  | refuse hworker hexit hball => exact h.execute hworker rfl rfl rfl rfl rfl
  | exit hworker hexit hclients => exact h.execute hworker rfl rfl rfl rfl rfl
  | dispatch hworker hball hballs => exact h.execute hworker rfl rfl rfl rfl rfl
  | exitDelete hworker hballs =>
    refine h.same (heldTasks_idle rfl ?_ rfl) rfl rfl rfl
    rw [hworker]
    rfl
  | tick hballs => exact h.same rfl rfl rfl rfl

theorem served_run {labels : List (Label W)} {s : ServerState W}
    (hrun : run step start labels = .ok s) : Served s := by
  have hserved := run_invariant (I := fun s => ServerState.Sound s ∧ Served s)
    (fun s l s' h hok => by
      obtain ⟨hs', ht⟩ := transition_of_step h.1 hok
      exact ⟨hs', served_step h.2 ht⟩) ⟨sound_start, served_start⟩ hrun
  exact hserved.2

/-- **Every request is served once.** In every run of any number of workers, as long as the program
is not told to end, the requests that were received are, in their order, those that were taken from
the queue and those that wait, and the requests that were taken are those that were executed and
those that a worker holds. None is executed twice, and when nothing is left to do, all have been
executed. -/
theorem requests_served_once (labels : List (Label W)) (s : ServerState W)
    (hrun : run step start labels = .ok s) :
    (∃ taken, s.history.received = taken ++ waiting s ∧
      (taken : Multiset ConnTask) = s.history.executed + heldTasks s) ∧
      s.history.executed.Nodup ∧
      (Quiescent s → s.history.executed.Perm s.history.received) := by
  have hserved := served_run hrun
  exact ⟨hserved.taken, hserved.nodup, hserved.quiescent⟩

/-- A client connects as socket 7 and sends `w` and `s`. Two workers take one request each, and the
second one is the first to execute. -/
def twoRequests : List (Label Bool) :=
  [.epollWait [.listener], .accept 7, .addClient (some 0), .countClient, .addInitialBalls zeroDraws,
    .epollWait [.client 7 0], .recvData ['w'], .push, .epollWait [.client 7 0], .recvData ['s'],
    .push, .pop true, .pop false, .execute false zeroDraws, .execute true zeroDraws]

theorem requests_served_once_two_workers : ∃ s, run step start twoRequests = .ok s ∧
    s.history.executed.map ConnTask.arrival = [1, 0] ∧
    s.history.executed.Perm s.history.received := by
  refine ⟨_, rfl, rfl, (requests_served_once twoRequests _ rfl).2.2 ⟨rfl, rfl, ?_⟩⟩
  rintro (_ | _) <;> rfl

end BallGame.Server
