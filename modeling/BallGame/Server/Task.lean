import BallGame.Library.Ring
import BallGame.Library.Runs
import BallGame.Library.Memory

/-!
# The task queue

The circular buffer of `task.c` between the main thread, which pushes what it received, and
the workers, which pop it. Both operations run under the queue mutex, so a completed
operation is one step; an operation that would call `pthread_cond_wait` is `blocked`.

* `queue_run_spec`: over every sequence of completed operations the ring stands for a queue
  of at most `taskQueueCapacity` tasks, and what was pushed is what was popped followed by
  this queue.
-/

namespace BallGame.Server

open Library

def taskQueueCapacity : Nat := 128

/-- The size of a receive buffer, `BUFSIZ` of `stdio.h`. -/
def bufsiz : Nat := 8192

/-- A received command. Of the array `data[BUFSIZ]` only the `length` bytes that `memcpy`
filled are kept; one character stands for one byte. -/
structure Task where
  fd : Int
  data : List Char
  length : Int
  deriving DecidableEq

instance : Inhabited Task := ⟨⟨0, [], 0⟩⟩

/-- The payload type is a parameter: the server stores a `Task`. -/
structure TaskQueue (α : Type) where
  queue : Vector α taskQueueCapacity
  front : Nat
  rear : Nat
  count : Int

variable {α : Type}

/-- `memset` zeroes the slots. -/
def taskQueueInit [Inhabited α] : TaskQueue α := ⟨Vector.replicate _ default, 0, 0, 0⟩

def taskQueuePush (q : TaskQueue α) (task : α) : Except Stuck (TaskQueue α) :=
  if q.count = taskQueueCapacity then
    .error .blocked
  else if h : q.rear < taskQueueCapacity then
    .ok { q with
      queue := q.queue.set q.rear task
      rear := (q.rear + 1) % taskQueueCapacity
      count := q.count + 1 }
  else
    .error .outOfBounds

/-- Without `keepRunning` the wait loop ends at any count, and the code below the loop still
takes the slot at `front`. -/
def taskQueuePop (keepRunning : Bool) (q : TaskQueue α) : Except Stuck (α × TaskQueue α) :=
  if q.count = 0 ∧ keepRunning then
    .error .blocked
  else if h : q.front < taskQueueCapacity then
    .ok (q.queue[q.front], { q with
      front := (q.front + 1) % taskQueueCapacity
      count := q.count - 1 })
  else
    .error .outOfBounds

/-! ## The queue a ring stands for -/

/-- The ring represents the queue `ts`, oldest task first. -/
def TaskQueue.Holds (q : TaskQueue α) (ts : List α) : Prop :=
  RingHolds q.queue q.front q.rear q.count ts

/-- The tasks in the ring, oldest first. -/
def TaskQueue.toList (q : TaskQueue α) : List α := ringContents q.queue q.front q.count

theorem TaskQueue.Holds.toList_eq {q : TaskQueue α} {ts : List α} (h : q.Holds ts) :
    q.toList = ts := RingHolds.contents_eq h

theorem TaskQueue.Holds.self {q : TaskQueue α} {ts : List α} (h : q.Holds ts) :
    q.Holds q.toList := by
  rwa [h.toList_eq]

theorem taskQueueInit_holds [Inhabited α] : (taskQueueInit : TaskQueue α).Holds [] :=
  RingHolds.empty (by decide) _

/-- A completed push appends its task. -/
theorem taskQueuePush_ok {q q' : TaskQueue α} {ts : List α} {task : α} (h : q.Holds ts)
    (hok : taskQueuePush q task = .ok q') :
    ts.length < taskQueueCapacity ∧ q'.Holds (ts ++ [task]) := by
  unfold taskQueuePush at hok
  split at hok
  · cases hok
  · rename_i hfull
    have hlt : ts.length < taskQueueCapacity := by
      have hle := h.length_le
      have hcount := h.count_eq
      omega
    split at hok
    · cases hok
      exact ⟨hlt, RingHolds.push h hlt task⟩
    · cases hok

/-- A completed pop removes the oldest task. -/
theorem taskQueuePop_ok {q q' : TaskQueue α} {ts : List α} {task : α} (h : q.Holds ts)
    (hok : taskQueuePop true q = .ok (task, q')) :
    ∃ rest, ts = task :: rest ∧ q'.Holds rest := by
  unfold taskQueuePop at hok
  split at hok
  · cases hok
  · rename_i hempty
    cases ts with
    | nil => exact absurd ⟨(RingHolds.count_eq_zero h).mpr rfl, rfl⟩ hempty
    | cons t rest =>
      obtain ⟨hslot, hpop⟩ := RingHolds.pop h
      split at hok
      · rename_i hfront
        cases hok
        have ht : q.queue[q.front] = t := by
          rw [Vector.getElem?_eq_getElem hfront] at hslot
          exact Option.some.inj hslot
        exact ⟨rest, by rw [ht], hpop⟩
      · cases hok

/-- A push completes exactly if there is a free slot. -/
theorem taskQueuePush_completes_iff {q : TaskQueue α} {ts : List α} (h : q.Holds ts)
    (task : α) : (∃ q', taskQueuePush q task = .ok q') ↔ ts.length < taskQueueCapacity := by
  constructor
  · rintro ⟨q', hok⟩
    exact (taskQueuePush_ok h hok).1
  · intro hlt
    have hcount := h.count_eq
    have hne : ¬ q.count = taskQueueCapacity := by omega
    unfold taskQueuePush
    rw [if_neg hne, dif_pos (show q.rear < taskQueueCapacity from RingHolds.rear_lt h)]
    exact ⟨_, rfl⟩

/-- A pop completes exactly if there is a task. -/
theorem taskQueuePop_completes_iff {q : TaskQueue α} {ts : List α} (h : q.Holds ts) :
    (∃ r, taskQueuePop true q = .ok r) ↔ ts ≠ [] := by
  constructor
  · rintro ⟨⟨task, q'⟩, hok⟩
    obtain ⟨rest, rfl, _⟩ := taskQueuePop_ok h hok
    exact List.cons_ne_nil _ _
  · intro hne
    have hcount : ¬ (q.count = 0 ∧ true = true) := by
      rintro ⟨h0, _⟩
      exact hne ((RingHolds.count_eq_zero h).mp h0)
    unfold taskQueuePop
    rw [if_neg hcount, dif_pos (show q.front < taskQueueCapacity from h.front_lt)]
    exact ⟨_, rfl⟩

/-! ## Runs of completed operations -/

inductive QueueOp (α : Type) where
  | push (task : α)
  | pop

/-- The queue together with the tasks pushed and popped so far. -/
structure QueueHistory (α : Type) where
  queue : TaskQueue α
  pushed : List α
  popped : List α

def queueStart [Inhabited α] : QueueHistory α := ⟨taskQueueInit, [], []⟩

/-- One completed operation of some thread, while `keep_running` is 1. -/
def queueStep (s : QueueHistory α) : QueueOp α → Except Stuck (QueueHistory α)
  | .push task => do
    let q ← taskQueuePush s.queue task
    .ok { s with queue := q, pushed := s.pushed ++ [task] }
  | .pop => do
    let r ← taskQueuePop true s.queue
    .ok { s with queue := r.2, popped := s.popped ++ [r.1] }

/-- The abstraction relation of the queue: what was pushed and not yet popped is in the
ring. -/
def QueueHistory.Fifo (s : QueueHistory α) : Prop :=
  ∃ ts, s.queue.Holds ts ∧ s.pushed = s.popped ++ ts

theorem queueStep_fifo {s s' : QueueHistory α} {op : QueueOp α} (hs : s.Fifo)
    (h : queueStep s op = .ok s') : s'.Fifo := by
  obtain ⟨ts, hts, hpushed⟩ := hs
  cases op with
  | push task =>
    obtain ⟨q, hq, he⟩ := bind_ok.mp h
    cases he
    exact ⟨ts ++ [task], (taskQueuePush_ok hts hq).2, by simp [hpushed]⟩
  | pop =>
    obtain ⟨⟨task, q⟩, hq, he⟩ := bind_ok.mp h
    cases he
    obtain ⟨rest, rfl, hrest⟩ := taskQueuePop_ok hts hq
    exact ⟨rest, hrest, by simp [hpushed]⟩

/-- **The task queue is a bounded FIFO.** After every sequence of completed operations the
ring state represents a queue of at most `taskQueueCapacity` tasks: its indices are in
range, the rear lies `count` slots behind the front, and the slot at offset `i` from the
front holds the `i`-th task. A push completes unless the queue is full and appends its task,
a pop completes unless it is empty and takes the oldest task, and the popped tasks are a
prefix of the pushed ones. -/
theorem queue_run_spec (ops : List (QueueOp Task)) (s : QueueHistory Task)
    (hrun : run queueStep queueStart ops = .ok s) :
    ∃ ts : List Task,
      (ts.length ≤ taskQueueCapacity ∧ s.queue.front < taskQueueCapacity ∧
        s.queue.rear < taskQueueCapacity ∧ s.queue.count = ts.length ∧
        s.queue.rear = (s.queue.front + ts.length) % taskQueueCapacity ∧
        ∀ i (hi : i < ts.length),
          s.queue.queue[(s.queue.front + i) % taskQueueCapacity]? = some ts[i]) ∧
      s.pushed = s.popped ++ ts ∧ s.popped <+: s.pushed ∧
      (∀ task, (∃ q', taskQueuePush s.queue task = .ok q') ↔ ts.length < taskQueueCapacity) ∧
      (∀ task q', taskQueuePush s.queue task = .ok q' → q'.Holds (ts ++ [task])) ∧
      ((∃ r, taskQueuePop true s.queue = .ok r) ↔ ts ≠ []) ∧
      (∀ task q', taskQueuePop true s.queue = .ok (task, q') →
        ∃ rest, ts = task :: rest ∧ q'.Holds rest) := by
  have hfifo : s.Fifo :=
    run_invariant (I := QueueHistory.Fifo) (fun _ _ _ => queueStep_fifo)
      ⟨[], taskQueueInit_holds, rfl⟩ hrun
  obtain ⟨ts, hts, hpushed⟩ := hfifo
  refine ⟨ts, ⟨hts.length_le, hts.front_lt, RingHolds.rear_lt hts, hts.count_eq, hts.rear_eq,
    hts.slot⟩, hpushed, ⟨ts, hpushed.symm⟩, ?_, ?_, ?_, ?_⟩
  · exact fun task => taskQueuePush_completes_iff hts task
  · exact fun task q' hq => (taskQueuePush_ok hts hq).2
  · exact taskQueuePop_completes_iff hts
  · exact fun task q' hq => taskQueuePop_ok hts hq

/-- The run that pushes two tasks and pops one. -/
theorem queue_run_spec_push_push_pop :
    ∃ s, run queueStep (queueStart : QueueHistory Task)
        [.push ⟨4, ['a'], 1⟩, .push ⟨5, ['d'], 1⟩, .pop] = .ok s ∧
      ∃ ts : List Task, s.pushed = s.popped ++ ts ∧ ts.length ≤ taskQueueCapacity := by
  obtain ⟨s, hrun⟩ : ∃ s, run queueStep (queueStart : QueueHistory Task)
      [.push ⟨4, ['a'], 1⟩, .push ⟨5, ['d'], 1⟩, .pop] = .ok s := ⟨_, rfl⟩
  obtain ⟨ts, hring, hpushed, _⟩ := queue_run_spec _ s hrun
  exact ⟨s, hrun, ts, hpushed, hring.1⟩

end BallGame.Server
