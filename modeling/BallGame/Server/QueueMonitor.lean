import BallGame.Library.Monitor
import BallGame.Server.Task
import Mathlib.Tactic.DeriveFintype

/-!
# The task queue, statement by statement

`task_queue_push` and `task_queue_pop` as the main thread and the workers execute them, with
their loops, the interrupt handler and the joins at the end. A step is one statement of one
thread; it reads or writes the shared fields at once, and takes the mutex or releases it as the
code does, also where another thread holds it.

* `Advanced`, `advanced_of_advance`: what a statement does;
* `push_uninterrupted`, `pop_uninterrupted`: without interruption the statements compute
  `taskQueuePush` and `taskQueuePop`.
-/

namespace BallGame.Server

open Library

/-! ## Threads and their places -/

/-- The main thread, the workers and the thread of `cycle_broadcast_ball_state`. -/
inductive Thread (n : Nat) where
  | main
  | worker (i : Fin n)
  | broadcaster
  deriving DecidableEq, Fintype

/-- The statement a thread executes next. -/
inductive Place (α : Type) where
  /-- `while (keep_running)` of `main`. -/
  | mainTest
  /-- In the epoll loop, outside `task_queue_push`. -/
  | mainLoop
  | pushLock (task : α)
  | pushTest (task : α)
  | pushWait (task : α)
  /-- In `pthread_cond_wait`. -/
  | pushWaiting (task : α)
  | pushStore (task : α)
  | pushRear (task : α)
  | pushCount
  | pushSignal
  | pushUnlock
  /-- `pthread_join` of worker `k`. -/
  | joining (k : Nat)
  | joiningBroadcaster
  /-- `while (keep_running)` of `worker_thread`. -/
  | workerTest
  | popLock
  /-- `q->count == 0` of the wait loop. -/
  | popTest
  /-- `keep_running` of the wait loop. -/
  | popTestFlag
  | popWait
  | popWaiting
  /-- `if (!keep_running)`. -/
  | popCheck
  | popEarlyUnlock
  | popTake
  | popFront (task : α)
  | popCount (task : α)
  | popSignal (task : α)
  | popUnlock (task : α)
  | executing (task : α)
  /-- The loop of the broadcast thread, which never touches the queue. -/
  | broadcasting
  | exited

/-- The worker of a server that has one. -/
def onlyWorker : Thread 1 := .worker 0

structure QueueMonitor (n : Nat) (α : Type) where
  queue : TaskQueue α
  monitor : Monitor (Thread n)
  keepRunning : Bool
  place : Thread n → Place α
  /-- The threads in which `handle_sigint` runs and has cleared `keep_running`. -/
  handling : Thread n → Bool
  pushed : List α
  returned : List α

inductive MonitorLabel (n : Nat) (α : Type) where
  /-- The next statement of a thread. If it is a signal, `choice` is who wakes. -/
  | advance (t : Thread n) (choice : Option (Thread n))
  /-- `recv` returned a task. -/
  | receive (task : α)
  /-- The main thread has handled the events. -/
  | endEvents
  /-- `epoll_wait` failed. -/
  | breakLoop
  | spurious (t : Thread n)
  /-- `handle_sigint` starts in a thread: `keep_running = 0`. -/
  | sigint (t : Thread n)
  /-- Its `pthread_cond_broadcast`, and its end. -/
  | sigBroadcast (t : Thread n)

namespace QueueMonitor

variable {n : Nat} {α : Type}

def goto (s : QueueMonitor n α) (t : Thread n) (p : Place α) : QueueMonitor n α :=
  { s with place := Function.update s.place t p }

/-! ## Statements -/

/-- The next statement of thread `t`. -/
def advance (s : QueueMonitor n α) (t : Thread n) (choice : Option (Thread n)) :
    Except Stuck (QueueMonitor n α) :=
  match s.place t with
  | .mainTest => .ok (s.goto t (if s.keepRunning then .mainLoop else .joining 0))
  | .mainLoop => .error .blocked
  -- task_queue_push
  | .pushLock task => do
    let m ← s.monitor.lock t
    .ok { s.goto t (.pushTest task) with monitor := m }
  | .pushTest task =>
    .ok (s.goto t (if s.queue.count = taskQueueCapacity then .pushWait task else .pushStore task))
  | .pushWait task => .ok { s.goto t (.pushWaiting task) with monitor := s.monitor.wait t }
  | .pushWaiting task => do
    let m ← s.monitor.reenter t
    .ok { s.goto t (.pushTest task) with monitor := m }
  | .pushStore task =>
    if h : s.queue.rear < taskQueueCapacity then
      .ok { s.goto t (.pushRear task) with
        queue := { s.queue with queue := s.queue.queue.set s.queue.rear task } }
    else
      .error .outOfBounds
  | .pushRear task => .ok { s.goto t .pushCount with
      queue := { s.queue with rear := (s.queue.rear + 1) % taskQueueCapacity }
      pushed := s.pushed ++ [task] }
  | .pushCount =>
    .ok { s.goto t .pushSignal with queue := { s.queue with count := s.queue.count + 1 } }
  | .pushSignal => do
    let m ← s.monitor.signal choice
    .ok { s.goto t .pushUnlock with monitor := m }
  | .pushUnlock => .ok { s.goto t .mainLoop with monitor := s.monitor.unlock }
  -- the end of main
  | .joining k =>
    if h : k < n then
      match s.place (.worker ⟨k, h⟩) with
      | .exited => .ok (s.goto t (.joining (k + 1)))
      | _ => .error .blocked
    else
      .ok (s.goto t .joiningBroadcaster)
  | .joiningBroadcaster =>
    match s.place .broadcaster with
    | .exited => .ok (s.goto t .exited)
    | _ => .error .blocked
  -- worker_thread
  | .workerTest => .ok (s.goto t (if s.keepRunning then .popLock else .exited))
  | .executing _ => .ok (s.goto t .workerTest)
  -- task_queue_pop
  | .popLock => do
    let m ← s.monitor.lock t
    .ok { s.goto t .popTest with monitor := m }
  | .popTest => .ok (s.goto t (if s.queue.count = 0 then .popTestFlag else .popCheck))
  | .popTestFlag => .ok (s.goto t (if s.keepRunning then .popWait else .popCheck))
  | .popWait => .ok { s.goto t .popWaiting with monitor := s.monitor.wait t }
  | .popWaiting => do
    let m ← s.monitor.reenter t
    .ok { s.goto t .popTest with monitor := m }
  | .popCheck => .ok (s.goto t (if s.keepRunning then .popTake else .popEarlyUnlock))
  | .popEarlyUnlock => .ok { s.goto t .popTake with monitor := s.monitor.unlock }
  | .popTake =>
    if h : s.queue.front < taskQueueCapacity then
      .ok (s.goto t (.popFront s.queue.queue[s.queue.front]))
    else
      .error .outOfBounds
  | .popFront task => .ok { s.goto t (.popCount task) with
      queue := { s.queue with front := (s.queue.front + 1) % taskQueueCapacity }
      returned := s.returned ++ [task] }
  | .popCount task =>
    .ok { s.goto t (.popSignal task) with queue := { s.queue with count := s.queue.count - 1 } }
  | .popSignal task => do
    let m ← s.monitor.signal choice
    .ok { s.goto t (.popUnlock task) with monitor := m }
  | .popUnlock task => .ok { s.goto t (.executing task) with monitor := s.monitor.unlock }
  -- cycle_broadcast_ball_state
  | .broadcasting => .ok (s.goto t (if s.keepRunning then .broadcasting else .exited))
  | .exited => .error .blocked

/-- The main thread leaves the body of its loop for `p`. -/
def fromLoop (s : QueueMonitor n α) (p : Place α) : Except Stuck (QueueMonitor n α) :=
  match s.place .main, s.handling .main with
  | .mainLoop, false => .ok (s.goto .main p)
  | _, _ => .error .blocked

end QueueMonitor

variable {n : Nat} {α : Type}

/-- A thread whose handler runs does nothing else. -/
def monitorStep (s : QueueMonitor n α) : MonitorLabel n α → Except Stuck (QueueMonitor n α)
  | .advance t choice => if s.handling t then .error .blocked else s.advance t choice
  | .receive task => s.fromLoop (.pushLock task)
  | .endEvents => s.fromLoop .mainTest
  | .breakLoop => s.fromLoop (.joining 0)
  | .spurious t => do
    let m ← s.monitor.spurious t
    .ok { s with monitor := m }
  | .sigint t =>
    match s.place t, s.handling t with
    | .exited, _ => .error .blocked
    | _, true => .error .blocked
    | _, false =>
      .ok { s with keepRunning := false, handling := Function.update s.handling t true }
  | .sigBroadcast t =>
    if s.handling t then
      .ok { s with
        monitor := s.monitor.broadcast
        handling := Function.update s.handling t false }
    else
      .error .blocked

def startPlace : Thread n → Place α
  | .main => .mainTest
  | .worker _ => .workerTest
  | .broadcaster => .broadcasting

def monitorStart [Inhabited α] : QueueMonitor n α where
  queue := taskQueueInit
  monitor := Monitor.free
  keepRunning := true
  place := startPlace
  handling := fun _ => false
  pushed := []
  returned := []

/-! ## Kinds of places -/

namespace Place

def status : Place α → Monitor.Status
  | .pushTest _ | .pushWait _ | .pushStore _ | .pushRear _ | .pushCount | .pushSignal
  | .pushUnlock | .popTest | .popTestFlag | .popWait | .popCheck | .popEarlyUnlock | .popTake
  | .popFront _ | .popCount _ | .popSignal _ | .popUnlock _ => .inside
  | .pushWaiting _ | .popWaiting => .waiting
  | _ => .outside

/-- In `task_queue_push` or `task_queue_pop`, with the signal still to come. -/
def pending : Place α → Bool
  | .pushLock _ | .pushTest _ | .pushWait _ | .pushWaiting _ | .pushStore _ | .pushRear _
  | .pushCount | .pushSignal | .popLock | .popTest | .popTestFlag | .popWait | .popWaiting
  | .popCheck | .popEarlyUnlock | .popTake | .popFront _ | .popCount _ | .popSignal _ => true
  | _ => false

/-- The function whose code this is: `main`, `worker_thread` or the broadcast thread's. -/
inductive Side where
  | main
  | worker
  | broadcaster
  | ended
  deriving DecidableEq

def side : Place α → Side
  | .mainTest | .mainLoop | .pushLock _ | .pushTest _ | .pushWait _ | .pushWaiting _
  | .pushStore _ | .pushRear _ | .pushCount | .pushSignal | .pushUnlock | .joining _
  | .joiningBroadcaster => .main
  | .workerTest | .popLock | .popTest | .popTestFlag | .popWait | .popWaiting | .popCheck
  | .popEarlyUnlock | .popTake | .popFront _ | .popCount _ | .popSignal _ | .popUnlock _
  | .executing _ => .worker
  | .broadcasting => .broadcaster
  | .exited => .ended

/-- Thread `t` can be here. -/
def belongsTo (p : Place α) (t : Thread n) : Prop :=
  match p.side, t with
  | .main, .main => True
  | .worker, .worker _ => True
  | .broadcaster, .broadcaster => True
  | .ended, _ => True
  | _, _ => False

theorem belongsTo_of_side {p p' : Place α} {t : Thread n} (hp : p.belongsTo t)
    (h : p'.side = p.side ∨ p'.side = .ended) : p'.belongsTo t := by
  unfold belongsTo at hp ⊢
  rcases h with h | h
  · rwa [h]
  · rw [h]
    trivial

/-- The broadcast thread never uses the queue. -/
theorem outside_of_broadcaster {p : Place α} (hp : p.belongsTo (.broadcaster : Thread n)) :
    p.status = .outside := by
  cases p <;> first | rfl | exact False.elim hp

theorem eq_main {p : Place α} {t : Thread n} (hp : p.belongsTo t) (h : p.side = .main) :
    t = .main := by
  unfold belongsTo at hp
  rw [h] at hp
  cases t with
  | main => rfl
  | _ => exact False.elim hp

theorem eq_worker {p : Place α} {t : Thread n} (hp : p.belongsTo t) (h : p.side = .worker) :
    ∃ i, t = .worker i := by
  unfold belongsTo at hp
  rw [h] at hp
  cases t with
  | worker i => exact ⟨i, rfl⟩
  | _ => exact False.elim hp

end Place

/-! ## What a statement does -/

/-- Statements that only look: at the count, the flag, the slot at the front or another
thread. -/
inductive Looks (queue : TaskQueue α) (keepRunning : Bool) : Place α → Place α → Prop
  | pushFull (task : α) (h : queue.count = taskQueueCapacity) :
      Looks queue keepRunning (.pushTest task) (.pushWait task)
  | pushRoom (task : α) (h : queue.count ≠ taskQueueCapacity) :
      Looks queue keepRunning (.pushTest task) (.pushStore task)
  | popEmpty (h : queue.count = 0) : Looks queue keepRunning .popTest .popTestFlag
  | popSome (h : queue.count ≠ 0) : Looks queue keepRunning .popTest .popCheck
  | popMustWait (h : keepRunning = true) : Looks queue keepRunning .popTestFlag .popWait
  | popNoWait (h : keepRunning = false) : Looks queue keepRunning .popTestFlag .popCheck
  | popGoesOn (h : keepRunning = true) : Looks queue keepRunning .popCheck .popTake
  | popStops (h : keepRunning = false) : Looks queue keepRunning .popCheck .popEarlyUnlock
  | popTakes (h : queue.front < taskQueueCapacity) :
      Looks queue keepRunning .popTake (.popFront queue.queue[queue.front])

/-- Moves outside of push and pop. -/
structure Walks (p p' : Place α) : Prop where
  outside : p.status = .outside
  outside' : p'.status = .outside
  pending : p.pending = false
  side : p'.side = p.side ∨ p'.side = .ended

inductive Locks : Place α → Place α → Prop
  | push (task : α) : Locks (.pushLock task) (.pushTest task)
  | pop : Locks .popLock .popTest

inductive Unlocks : Place α → Place α → Prop
  | push : Unlocks .pushUnlock .mainLoop
  | pop (task : α) : Unlocks (.popUnlock task) (.executing task)

inductive Waits : Place α → Place α → Prop
  | push (task : α) : Waits (.pushWait task) (.pushWaiting task)
  | pop : Waits .popWait .popWaiting

inductive Reenters : Place α → Place α → Prop
  | push (task : α) : Reenters (.pushWaiting task) (.pushTest task)
  | pop : Reenters .popWaiting .popTest

inductive Signals : Place α → Place α → Prop
  | push : Signals .pushSignal .pushUnlock
  | pop (task : α) : Signals (.popSignal task) (.popUnlock task)

/-- The effect of one statement of thread `t`. -/
inductive Advanced (s : QueueMonitor n α) (t : Thread n) (choice : Option (Thread n)) :
    QueueMonitor n α → Prop
  | looks {p p' : Place α} (hp : s.place t = p) (h : Looks s.queue s.keepRunning p p') :
      Advanced s t choice (s.goto t p')
  | walks {p p' : Place α} (hp : s.place t = p) (h : Walks p p') :
      Advanced s t choice (s.goto t p')
  | locks {p p' : Place α} {m : Monitor (Thread n)} (hp : s.place t = p) (h : Locks p p')
      (hm : s.monitor.lock t = .ok m) : Advanced s t choice { s.goto t p' with monitor := m }
  | unlocks {p p' : Place α} (hp : s.place t = p) (h : Unlocks p p') :
      Advanced s t choice { s.goto t p' with monitor := s.monitor.unlock }
  | earlyUnlock (hp : s.place t = .popEarlyUnlock) :
      Advanced s t choice { s.goto t .popTake with monitor := s.monitor.unlock }
  | waits {p p' : Place α} (hp : s.place t = p) (h : Waits p p') :
      Advanced s t choice { s.goto t p' with monitor := s.monitor.wait t }
  | reenters {p p' : Place α} {m : Monitor (Thread n)} (hp : s.place t = p) (h : Reenters p p')
      (hm : s.monitor.reenter t = .ok m) : Advanced s t choice { s.goto t p' with monitor := m }
  | signals {p p' : Place α} {m : Monitor (Thread n)} (hp : s.place t = p) (h : Signals p p')
      (hm : s.monitor.signal choice = .ok m) :
      Advanced s t choice { s.goto t p' with monitor := m }
  | store {task : α} (hp : s.place t = .pushStore task)
      (h : s.queue.rear < taskQueueCapacity) :
      Advanced s t choice { s.goto t (.pushRear task) with
        queue := { s.queue with queue := s.queue.queue.set s.queue.rear task } }
  | rear {task : α} (hp : s.place t = .pushRear task) :
      Advanced s t choice { s.goto t .pushCount with
        queue := { s.queue with rear := (s.queue.rear + 1) % taskQueueCapacity }
        pushed := s.pushed ++ [task] }
  | countUp (hp : s.place t = .pushCount) :
      Advanced s t choice { s.goto t .pushSignal with
        queue := { s.queue with count := s.queue.count + 1 } }
  | front {task : α} (hp : s.place t = .popFront task) :
      Advanced s t choice { s.goto t (.popCount task) with
        queue := { s.queue with front := (s.queue.front + 1) % taskQueueCapacity }
        returned := s.returned ++ [task] }
  | countDown {task : α} (hp : s.place t = .popCount task) :
      Advanced s t choice { s.goto t (.popSignal task) with
        queue := { s.queue with count := s.queue.count - 1 } }

theorem advanced_of_advance {s s' : QueueMonitor n α} {t : Thread n} {choice : Option (Thread n)}
    (h : s.advance t choice = .ok s') : Advanced s t choice s' := by
  unfold QueueMonitor.advance at h
  generalize hp : s.place t = p at h
  cases p with
  | mainTest =>
    cases h
    apply Advanced.walks hp
    split
    · exact ⟨rfl, rfl, rfl, Or.inl rfl⟩
    · exact ⟨rfl, rfl, rfl, Or.inl rfl⟩
  | mainLoop => cases h
  | pushLock task =>
    obtain ⟨m, hm, he⟩ := bind_ok.mp h
    cases he
    exact .locks hp (.push task) hm
  | pushTest task =>
    cases h
    apply Advanced.looks hp
    split
    · exact .pushFull task ‹_›
    · exact .pushRoom task ‹_›
  | pushWait task =>
    cases h
    exact .waits hp (.push task)
  | pushWaiting task =>
    obtain ⟨m, hm, he⟩ := bind_ok.mp h
    cases he
    exact .reenters hp (.push task) hm
  | pushStore task =>
    dsimp only at h
    split at h
    · cases h
      exact .store hp ‹_›
    · cases h
  | pushRear task =>
    cases h
    exact .rear hp
  | pushCount =>
    cases h
    exact .countUp hp
  | pushSignal =>
    obtain ⟨m, hm, he⟩ := bind_ok.mp h
    cases he
    exact .signals hp .push hm
  | pushUnlock =>
    cases h
    exact .unlocks hp .push
  | joining k =>
    dsimp only at h
    split at h
    · split at h
      · cases h
        exact .walks hp ⟨rfl, rfl, rfl, Or.inl rfl⟩
      · cases h
    · cases h
      exact .walks hp ⟨rfl, rfl, rfl, Or.inl rfl⟩
  | joiningBroadcaster =>
    dsimp only at h
    split at h
    · cases h
      exact .walks hp ⟨rfl, rfl, rfl, Or.inr rfl⟩
    · cases h
  | workerTest =>
    cases h
    apply Advanced.walks hp
    split
    · exact ⟨rfl, rfl, rfl, Or.inl rfl⟩
    · exact ⟨rfl, rfl, rfl, Or.inr rfl⟩
  | executing task =>
    cases h
    exact .walks hp ⟨rfl, rfl, rfl, Or.inl rfl⟩
  | popLock =>
    obtain ⟨m, hm, he⟩ := bind_ok.mp h
    cases he
    exact .locks hp .pop hm
  | popTest =>
    cases h
    apply Advanced.looks hp
    split
    · exact .popEmpty ‹_›
    · exact .popSome ‹_›
  | popTestFlag =>
    cases h
    apply Advanced.looks hp
    split
    · exact .popMustWait ‹_›
    · exact .popNoWait (Bool.eq_false_iff.mpr ‹_›)
  | popWait =>
    cases h
    exact .waits hp .pop
  | popWaiting =>
    obtain ⟨m, hm, he⟩ := bind_ok.mp h
    cases he
    exact .reenters hp .pop hm
  | popCheck =>
    cases h
    apply Advanced.looks hp
    split
    · exact .popGoesOn ‹_›
    · exact .popStops (Bool.eq_false_iff.mpr ‹_›)
  | popEarlyUnlock =>
    cases h
    exact .earlyUnlock hp
  | popTake =>
    dsimp only at h
    split at h
    · cases h
      exact .looks hp (.popTakes ‹_›)
    · cases h
  | popFront task =>
    cases h
    exact .front hp
  | popCount task =>
    cases h
    exact .countDown hp
  | popSignal task =>
    obtain ⟨m, hm, he⟩ := bind_ok.mp h
    cases he
    exact .signals hp (.pop task) hm
  | popUnlock task =>
    cases h
    exact .unlocks hp (.pop task)
  | broadcasting =>
    cases h
    apply Advanced.walks hp
    split
    · exact ⟨rfl, rfl, rfl, Or.inl rfl⟩
    · exact ⟨rfl, rfl, rfl, Or.inr rfl⟩
  | exited => cases h

/-- The effect of a label. -/
inductive Stepped (s : QueueMonitor n α) : MonitorLabel n α → QueueMonitor n α → Prop
  | advance {t : Thread n} {choice : Option (Thread n)} {s' : QueueMonitor n α}
      (hfree : s.handling t = false) (h : Advanced s t choice s') :
      Stepped s (.advance t choice) s'
  /-- The main thread goes on in its loop, or leaves it. -/
  | loop {l : MonitorLabel n α} {p : Place α} (hl : ∀ t choice, l ≠ .advance t choice)
      (hp : s.place .main = .mainLoop) (h : Walks .mainLoop p) : Stepped s l (s.goto .main p)
  | spurious {t : Thread n} {m : Monitor (Thread n)} (hm : s.monitor.spurious t = .ok m) :
      Stepped s (.spurious t) { s with monitor := m }
  | sigint {t : Thread n} (hp : s.place t ≠ .exited) :
      Stepped s (.sigint t)
        { s with keepRunning := false, handling := Function.update s.handling t true }
  | sigBroadcast {t : Thread n} (h : s.handling t = true) :
      Stepped s (.sigBroadcast t) { s with
        monitor := s.monitor.broadcast
        handling := Function.update s.handling t false }

theorem fromLoop_ok {s s' : QueueMonitor n α} {p : Place α} (h : s.fromLoop p = .ok s') :
    s.place .main = .mainLoop ∧ s' = s.goto .main p := by
  unfold QueueMonitor.fromLoop at h
  split at h
  · cases h
    exact ⟨‹_›, rfl⟩
  · cases h

theorem stepped_of_step {s s' : QueueMonitor n α} {l : MonitorLabel n α}
    (h : monitorStep s l = .ok s') : Stepped s l s' := by
  cases l with
  | advance t choice =>
    simp only [monitorStep] at h
    split at h
    · cases h
    · exact .advance (Bool.eq_false_iff.mpr ‹_›) (advanced_of_advance h)
  | receive task =>
    obtain ⟨hp, rfl⟩ := fromLoop_ok h
    exact .loop (by simp) hp ⟨rfl, rfl, rfl, Or.inl rfl⟩
  | endEvents =>
    obtain ⟨hp, rfl⟩ := fromLoop_ok h
    exact .loop (by simp) hp ⟨rfl, rfl, rfl, Or.inl rfl⟩
  | breakLoop =>
    obtain ⟨hp, rfl⟩ := fromLoop_ok h
    exact .loop (by simp) hp ⟨rfl, rfl, rfl, Or.inl rfl⟩
  | spurious t =>
    obtain ⟨m, hm, he⟩ := bind_ok.mp h
    cases he
    exact .spurious hm
  | sigint t =>
    simp only [monitorStep] at h
    split at h
    · cases h
    · cases h
    · cases h
      exact .sigint ‹_›
  | sigBroadcast t =>
    simp only [monitorStep] at h
    split at h
    · cases h
      exact .sigBroadcast ‹_›
    · cases h

/-! ## Places and the monitor -/

namespace QueueMonitor

def status (s : QueueMonitor n α) (t : Thread n) : Monitor.Status := (s.place t).status

theorem goto_place (s : QueueMonitor n α) (t : Thread n) (p : Place α) : (s.goto t p).place t = p :=
  Function.update_self ..

theorem status_goto (s : QueueMonitor n α) (t : Thread n) (p : Place α) :
    (s.goto t p).status = Function.update s.status t p.status := by
  ext u
  by_cases hu : u = t
  · subst hu
    simp [status, goto]
  · simp [status, goto, Function.update_of_ne hu]

/-- A move between places of one status. -/
theorem status_goto_same {s : QueueMonitor n α} {t : Thread n} {p p' : Place α}
    (hp : s.place t = p) (h : p'.status = p.status) : (s.goto t p').status = s.status := by
  rw [status_goto, h, ← hp]
  exact Function.update_eq_self t s.status

end QueueMonitor

theorem Looks.status {queue : TaskQueue α} {keepRunning : Bool} {p p' : Place α}
    (h : Looks queue keepRunning p p') : p.status = .inside ∧ p'.status = .inside := by
  cases h <;> exact ⟨rfl, rfl⟩

theorem Locks.status {p p' : Place α} (h : Locks p p') :
    p.status = .outside ∧ p'.status = .inside := by
  cases h <;> exact ⟨rfl, rfl⟩

theorem Unlocks.status {p p' : Place α} (h : Unlocks p p') :
    p.status = .inside ∧ p'.status = .outside := by
  cases h <;> exact ⟨rfl, rfl⟩

theorem Waits.status {p p' : Place α} (h : Waits p p') :
    p.status = .inside ∧ p'.status = .waiting := by
  cases h <;> exact ⟨rfl, rfl⟩

theorem Reenters.status {p p' : Place α} (h : Reenters p p') :
    p.status = .waiting ∧ p'.status = .inside := by
  cases h <;> exact ⟨rfl, rfl⟩

theorem Signals.status {p p' : Place α} (h : Signals p p') :
    p.status = .inside ∧ p'.status = .inside := by
  cases h <;> exact ⟨rfl, rfl⟩

theorem waiting_eq_no {s : QueueMonitor n α} (h : s.monitor.Tracks s.status) {t : Thread n}
    {p : Place α} (hp : s.place t = p) (hstatus : p.status ≠ .waiting) :
    s.monitor.waiting t = .no := by
  by_contra hne
  have hwait := (h t).mp hne
  rw [QueueMonitor.status, hp] at hwait
  exact hstatus hwait

/-- A statement that is not a wait and leaves `waiting` alone. -/
theorem tracks_goto {s : QueueMonitor n α} (h : s.monitor.Tracks s.status) {t : Thread n}
    {p p' : Place α} (hp : s.place t = p) (hstatus : p.status ≠ .waiting)
    (hstatus' : p'.status ≠ .waiting) {m : Monitor (Thread n)}
    (hm : m.waiting = s.monitor.waiting) : m.Tracks (s.goto t p').status := by
  rw [QueueMonitor.status_goto]
  apply h.move _ hstatus' hm
  rw [QueueMonitor.status, hp]
  exact hstatus

/-- The threads that wait are in `pthread_cond_wait`, whatever else happens. -/
theorem tracks_advanced {s s' : QueueMonitor n α} {t : Thread n} {choice : Option (Thread n)}
    (hs : s.monitor.Tracks s.status) (h : Advanced s t choice s') :
    s'.monitor.Tracks s'.status := by
  cases h with
  | looks hp h => exact tracks_goto hs hp (by simp [h.status]) (by simp [h.status]) rfl
  | walks hp h => exact tracks_goto hs hp (by simp [h.outside]) (by simp [h.outside']) rfl
  | locks hp h hm =>
    obtain ⟨_, rfl⟩ := Monitor.lock_ok.mp hm
    exact tracks_goto hs hp (by simp [h.status]) (by simp [h.status]) rfl
  | unlocks hp h => exact tracks_goto hs hp (by simp [h.status]) (by simp [h.status]) rfl
  | earlyUnlock hp =>
    exact tracks_goto hs hp (by simp [Place.status]) (by simp [Place.status]) rfl
  | waits hp h =>
    show (s.monitor.wait t).Tracks (s.goto t _).status
    rw [QueueMonitor.status_goto, h.status.2]
    exact hs.wait
  | reenters hp h hm =>
    show Monitor.Tracks _ (s.goto t _).status
    rw [QueueMonitor.status_goto]
    exact hs.reenter hm (by simp [h.status])
  | signals hp h hm =>
    show Monitor.Tracks _ (s.goto t _).status
    rw [QueueMonitor.status_goto_same hp (h.status.2.trans h.status.1.symm)]
    rcases Monitor.signal_ok hm with ⟨u, hu, rfl⟩ | ⟨_, rfl⟩
    · exact hs.wake hu
    · exact hs
  | store hp _ => exact tracks_goto hs hp (by simp [Place.status]) (by simp [Place.status]) rfl
  | rear hp => exact tracks_goto hs hp (by simp [Place.status]) (by simp [Place.status]) rfl
  | countUp hp => exact tracks_goto hs hp (by simp [Place.status]) (by simp [Place.status]) rfl
  | front hp => exact tracks_goto hs hp (by simp [Place.status]) (by simp [Place.status]) rfl
  | countDown hp => exact tracks_goto hs hp (by simp [Place.status]) (by simp [Place.status]) rfl

theorem tracks_step {s s' : QueueMonitor n α} {l : MonitorLabel n α}
    (hs : s.monitor.Tracks s.status) (h : Stepped s l s') : s'.monitor.Tracks s'.status := by
  cases h with
  | advance _ h => exact tracks_advanced hs h
  | loop _ hp h => exact tracks_goto hs hp (by simp [h.outside]) (by simp [h.outside']) rfl
  | spurious hm =>
    obtain ⟨ht, rfl⟩ := Monitor.spurious_ok.mp hm
    exact hs.wake ht
  | sigint _ => exact hs
  | sigBroadcast _ => exact hs.broadcast

/-- Every thread stays in its own code. -/
theorem belongsTo_goto {s : QueueMonitor n α} (hs : ∀ u, (s.place u).belongsTo u) {t : Thread n}
    {p p' : Place α} (hp : s.place t = p) (h : p'.side = p.side ∨ p'.side = .ended)
    (u : Thread n) : ((s.goto t p').place u).belongsTo u := by
  by_cases hu : u = t
  · subst hu
    have hold := hs u
    rw [hp] at hold
    simp only [QueueMonitor.goto, Function.update_self]
    exact Place.belongsTo_of_side hold h
  · simp only [QueueMonitor.goto, Function.update_of_ne hu]
    exact hs u

theorem belongsTo_advanced {s s' : QueueMonitor n α} {t : Thread n} {choice : Option (Thread n)}
    (hs : ∀ u, (s.place u).belongsTo u) (h : Advanced s t choice s') :
    ∀ u, (s'.place u).belongsTo u := by
  cases h with
  | looks hp h => cases h <;> exact belongsTo_goto hs hp (Or.inl rfl)
  | walks hp h => exact belongsTo_goto hs hp h.side
  | locks hp h _ => cases h <;> exact belongsTo_goto hs hp (Or.inl rfl)
  | unlocks hp h => cases h <;> exact belongsTo_goto hs hp (Or.inl rfl)
  | earlyUnlock hp => exact belongsTo_goto hs hp (Or.inl rfl)
  | waits hp h => cases h <;> exact belongsTo_goto hs hp (Or.inl rfl)
  | reenters hp h _ => cases h <;> exact belongsTo_goto hs hp (Or.inl rfl)
  | signals hp h _ => cases h <;> exact belongsTo_goto hs hp (Or.inl rfl)
  | store hp _ => exact belongsTo_goto hs hp (Or.inl rfl)
  | rear hp => exact belongsTo_goto hs hp (Or.inl rfl)
  | countUp hp => exact belongsTo_goto hs hp (Or.inl rfl)
  | front hp => exact belongsTo_goto hs hp (Or.inl rfl)
  | countDown hp => exact belongsTo_goto hs hp (Or.inl rfl)

theorem belongsTo_step {s s' : QueueMonitor n α} {l : MonitorLabel n α}
    (hs : ∀ u, (s.place u).belongsTo u) (h : Stepped s l s') :
    ∀ u, (s'.place u).belongsTo u := by
  cases h with
  | advance _ h => exact belongsTo_advanced hs h
  | loop _ hp h => exact belongsTo_goto hs hp h.side
  | spurious _ => exact hs
  | sigint _ => exact hs
  | sigBroadcast _ => exact hs

theorem monitorStart_belongsTo [Inhabited α] (t : Thread n) :
    ((monitorStart : QueueMonitor n α).place t).belongsTo t := by
  cases t <;> trivial

theorem startPlace_status (t : Thread n) : (startPlace t : Place α).status = .outside := by
  cases t <;> rfl

theorem monitorStart_tracks [Inhabited α] :
    (monitorStart : QueueMonitor n α).monitor.Tracks
      (monitorStart : QueueMonitor n α).status := by
  intro t
  rw [show (monitorStart : QueueMonitor n α).status t = .outside from startPlace_status t]
  simp [monitorStart, Monitor.free]

/-! ## Uninterrupted operations -/

/-- The next statements of thread `t`. -/
def statements (t : Thread n) (choices : List (Option (Thread n))) : List (MonitorLabel n α) :=
  choices.map (.advance t)

/-- A push that finds the mutex free and room in the queue, and that nobody interrupts. -/
theorem push_uninterrupted {s : QueueMonitor n α} {t : Thread n} {task : α} {q : TaskQueue α}
    (hp : s.place t = .pushLock task) (hhandling : s.handling t = false)
    (hfree : s.monitor.holder = none) (hq : taskQueuePush s.queue task = .ok q) :
    ∃ choice m, ({ s.monitor with holder := some t }).signal choice = .ok m ∧
      run monitorStep s (statements t [none, none, none, none, none, choice, none]) =
        .ok { s.goto t .mainLoop with
          queue := q
          monitor := m.unlock
          pushed := s.pushed ++ [task] } := by
  obtain ⟨choice, m, hm⟩ := Monitor.exists_signal { s.monitor with holder := some t }
  refine ⟨choice, m, hm, ?_⟩
  unfold taskQueuePush at hq
  split at hq
  · cases hq
  · rename_i hroom
    split at hq
    · rename_i hrear
      cases hq
      simp [statements, run, monitorStep, QueueMonitor.advance, QueueMonitor.goto, hp, hhandling,
        Monitor.lock, hfree, hroom, hrear, hm, bind, Except.bind]
    · cases hq

/-- A pop that finds the mutex free and a task in the queue. -/
theorem pop_uninterrupted {s : QueueMonitor n α} {t : Thread n} {r : α × TaskQueue α}
    (hp : s.place t = .popLock) (hhandling : s.handling t = false)
    (hfree : s.monitor.holder = none) (hrunning : s.keepRunning = true)
    (hq : taskQueuePop true s.queue = .ok r) :
    ∃ choice m, ({ s.monitor with holder := some t }).signal choice = .ok m ∧
      run monitorStep s (statements t [none, none, none, none, none, none, choice, none]) =
        .ok { s.goto t (.executing r.1) with
          queue := r.2
          monitor := m.unlock
          returned := s.returned ++ [r.1] } := by
  obtain ⟨choice, m, hm⟩ := Monitor.exists_signal { s.monitor with holder := some t }
  refine ⟨choice, m, hm, ?_⟩
  unfold taskQueuePop at hq
  split at hq
  · cases hq
  · rename_i hsome
    split at hq
    · rename_i hfront
      cases hq
      have hne : ¬ s.queue.count = 0 := fun he => hsome ⟨he, rfl⟩
      simp [statements, run, monitorStep, QueueMonitor.advance, QueueMonitor.goto, hp, hhandling,
        Monitor.lock, hfree, hne, hrunning, hfront, hm, bind, Except.bind]
    · cases hq

end BallGame.Server
