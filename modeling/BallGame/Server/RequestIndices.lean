import BallGame.Server.Command
import BallGame.Server.QueueMonitor

/-!
# The array indices of a request

What one `recv` returns decides the index of the terminator in `buf`, and as `task.length` the
index of the terminator that a worker writes into `task.data` after the task went through the
ring. `recv` may fail, and it may fill the whole buffer; both results reach these statements.

* `QueueMonitor.OnlyReceived`: what is in the ring and in the hands of the threads was received;
* `requestRun_inBounds_iff`: all indices of a run are within their arrays if no `recv` failed
  or filled the buffer, and only then;
* `requestRun_slots`: the slots of the ring are within the ring in every run.
-/

namespace BallGame.Server

open Library

variable {n : Nat}

/-! ## What is in the queue -/

namespace Place

variable {α : Type}

/-- The task that a push is about to store. -/
def pushes : Place α → Option α
  | .pushLock task | .pushTest task | .pushWait task | .pushWaiting task | .pushStore task
  | .pushRear task => some task
  | _ => none

/-- The task that a pop has taken. -/
def popped : Place α → Option α
  | .popFront task | .popCount task | .popSignal task | .popUnlock task
  | .executing task => some task
  | _ => none

end Place

section

variable {α : Type} [Inhabited α]

/-- Only what meets `P` is pushed; a slot holds a task that was pushed, or the zeroes of
`memset`. -/
structure QueueMonitor.OnlyReceived (P : α → Prop) (s : QueueMonitor n α) : Prop where
  front : s.queue.front < taskQueueCapacity
  rear : s.queue.rear < taskQueueCapacity
  slots : ∀ i (hi : i < taskQueueCapacity),
    s.queue.queue[i] = default ∨ P s.queue.queue[i]
  pushing : ∀ t task, (s.place t).pushes = some task → P task
  popped : ∀ t task, (s.place t).popped = some task → task = default ∨ P task
  pushed : ∀ task ∈ s.pushed, P task

theorem monitorStart_onlyReceived (P : α → Prop) :
    (monitorStart : QueueMonitor n α).OnlyReceived P := by
  have hzero : 0 < taskQueueCapacity := by decide
  refine ⟨hzero, hzero, ?_, ?_, ?_, by simp [monitorStart]⟩
  · intro i hi
    left
    simp [monitorStart, taskQueueInit]
  · intro t task h
    cases t <;> cases h
  · intro t task h
    cases t <;> cases h

namespace QueueMonitor.OnlyReceived

variable {P : α → Prop} {s s' : QueueMonitor n α} {t : Thread n} {p : Place α}

/-- A thread moves on and may change the queue. -/
theorem moves (h : s.OnlyReceived P) (hplace : s'.place = Function.update s.place t p)
    (hfront : s'.queue.front < taskQueueCapacity) (hrear : s'.queue.rear < taskQueueCapacity)
    (hslots : ∀ i (hi : i < taskQueueCapacity),
      s'.queue.queue[i] = default ∨ P s'.queue.queue[i])
    (hpushing : ∀ task, p.pushes = some task → P task)
    (hpopped : ∀ task, p.popped = some task → task = default ∨ P task)
    (hpushed : ∀ task ∈ s'.pushed, P task) : s'.OnlyReceived P := by
  refine ⟨hfront, hrear, hslots, ?_, ?_, hpushed⟩
  · intro u task hu
    rw [hplace] at hu
    by_cases hut : u = t
    · subst hut
      rw [Function.update_self] at hu
      exact hpushing task hu
    · rw [Function.update_of_ne hut] at hu
      exact h.pushing u task hu
  · intro u task hu
    rw [hplace] at hu
    by_cases hut : u = t
    · subst hut
      rw [Function.update_self] at hu
      exact hpopped task hu
    · rw [Function.update_of_ne hut] at hu
      exact h.popped u task hu

/-- A thread moves on with what it has, or without it. -/
theorem goes (h : s.OnlyReceived P) (hplace : s'.place = Function.update s.place t p)
    (hqueue : s'.queue = s.queue) (hpushed : s'.pushed = s.pushed)
    (hpushes : p.pushes = none ∨ p.pushes = (s.place t).pushes)
    (hpopped : p.popped = none ∨ p.popped = (s.place t).popped) : s'.OnlyReceived P := by
  apply h.moves hplace
  · rw [hqueue]
    exact h.front
  · rw [hqueue]
    exact h.rear
  · rw [hqueue]
    exact h.slots
  · intro task htask
    rcases hpushes with hnone | hsame
    · rw [hnone] at htask
      cases htask
    · exact h.pushing t task (hsame ▸ htask)
  · intro task htask
    rcases hpopped with hnone | hsame
    · rw [hnone] at htask
      cases htask
    · exact h.popped t task (hsame ▸ htask)
  · rw [hpushed]
    exact h.pushed

/-- The threads stay where they are, and the queue stays what it is. -/
theorem same (h : s.OnlyReceived P) (hplace : s'.place = s.place) (hqueue : s'.queue = s.queue)
    (hpushed : s'.pushed = s.pushed) : s'.OnlyReceived P := by
  apply h.goes (t := .main) (p := s.place .main) _ hqueue hpushed (Or.inr rfl) (Or.inr rfl)
  rw [hplace, Function.update_eq_self]

end QueueMonitor.OnlyReceived

/-- Every statement keeps it. -/
theorem onlyReceived_advance {P : α → Prop} {s s' : QueueMonitor n α} {t : Thread n}
    {choice : Option (Thread n)} (hs : s.OnlyReceived P) (h : s.advance t choice = .ok s') :
    s'.OnlyReceived P := by
  have hmod : ∀ i, (i + 1) % taskQueueCapacity < taskQueueCapacity := fun i =>
    Nat.mod_lt _ (by decide)
  unfold QueueMonitor.advance at h
  generalize hp : s.place t = p at h
  cases p with
  | pushStore task =>
    have htask : P task := hs.pushing t task (by rw [hp]; rfl)
    dsimp only at h
    split at h
    · cases h
      refine hs.moves rfl hs.front hs.rear ?_ ?_ (by simp [Place.popped]) hs.pushed
      · intro i hi
        simp only [Vector.getElem_set]
        split
        · exact Or.inr htask
        · exact hs.slots i hi
      · simpa [Place.pushes] using htask
    · cases h
  | pushRear task =>
    have htask : P task := hs.pushing t task (by rw [hp]; rfl)
    cases h
    refine hs.moves rfl hs.front (hmod _) hs.slots (by simp [Place.pushes])
      (by simp [Place.popped]) ?_
    intro u hu
    rcases List.mem_append.mp hu with hu | hu
    · exact hs.pushed u hu
    · rwa [List.mem_singleton.mp hu]
  | popTake =>
    dsimp only at h
    split at h
    · rename_i hfront
      cases h
      refine hs.moves rfl hs.front hs.rear hs.slots (by simp [Place.pushes]) ?_ hs.pushed
      intro task htask
      cases htask
      exact hs.slots _ hfront
    · cases h
  | popFront task =>
    cases h
    refine hs.moves rfl (hmod _) hs.rear hs.slots (by simp [Place.pushes]) ?_ hs.pushed
    intro u hu
    exact hs.popped t u (by rw [hp]; exact hu)
  | pushCount =>
    cases h
    exact hs.moves rfl hs.front hs.rear hs.slots (by simp [Place.pushes])
      (by simp [Place.popped]) hs.pushed
  | popCount task =>
    cases h
    refine hs.moves rfl hs.front hs.rear hs.slots (by simp [Place.pushes]) ?_ hs.pushed
    intro u hu
    exact hs.popped t u (by rw [hp]; exact hu)
  | pushLock | pushWaiting | pushSignal | popLock | popWaiting | popSignal =>
    obtain ⟨m, hm, he⟩ := bind_ok.mp h
    cases he
    exact hs.goes rfl rfl rfl (by simp [hp, Place.pushes]) (by simp [hp, Place.popped])
  | mainTest | pushTest | workerTest | popTest | popTestFlag | popCheck | broadcasting =>
    cases h
    refine hs.goes rfl rfl rfl ?_ ?_
    · split <;> simp [hp, Place.pushes]
    · split <;> simp [hp, Place.popped]
  | joining k =>
    dsimp only at h
    split at h
    · split at h
      · cases h
        exact hs.goes rfl rfl rfl (Or.inl rfl) (Or.inl rfl)
      · cases h
    · cases h
      exact hs.goes rfl rfl rfl (Or.inl rfl) (Or.inl rfl)
  | joiningBroadcaster =>
    dsimp only at h
    split at h
    · cases h
      exact hs.goes rfl rfl rfl (Or.inl rfl) (Or.inl rfl)
    · cases h
  | mainLoop | exited => cases h
  | pushWait | pushUnlock | executing | popWait | popEarlyUnlock | popUnlock =>
    cases h
    exact hs.goes rfl rfl rfl (by simp [hp, Place.pushes]) (by simp [hp, Place.popped])

/-- If what is received meets `P`, so does what is in the queue. -/
theorem onlyReceived_step {P : α → Prop} {s s' : QueueMonitor n α} {l : MonitorLabel n α}
    (hs : s.OnlyReceived P) (hl : ∀ task, l = .receive task → P task)
    (h : monitorStep s l = .ok s') : s'.OnlyReceived P := by
  cases l with
  | advance t choice =>
    simp only [monitorStep] at h
    split at h
    · cases h
    · exact onlyReceived_advance hs h
  | receive task =>
    obtain ⟨hp, rfl⟩ := fromLoop_ok h
    refine hs.moves rfl hs.front hs.rear hs.slots ?_ (by simp [Place.popped]) hs.pushed
    simpa [Place.pushes] using hl task rfl
  | endEvents | breakLoop =>
    obtain ⟨hp, rfl⟩ := fromLoop_ok h
    exact hs.goes rfl rfl rfl (Or.inl rfl) (Or.inl rfl)
  | spurious t =>
    obtain ⟨m, hm, he⟩ := bind_ok.mp h
    cases he
    exact hs.same rfl rfl rfl
  | sigint t =>
    simp only [monitorStep] at h
    split at h
    · cases h
    · cases h
    · cases h
      exact hs.same rfl rfl rfl
  | sigBroadcast t =>
    simp only [monitorStep] at h
    split at h
    · cases h
      exact hs.same rfl rfl rfl
    · cases h

/-- A statement that is not executed waits. -/
theorem advance_waits {P : α → Prop} {s : QueueMonitor n α} (hs : s.OnlyReceived P) (t : Thread n)
    (choice : Option (Thread n)) :
    Ends (fun _ => True) (fun e => e = Stuck.blocked) (s.advance t choice) := by
  unfold QueueMonitor.advance
  cases s.place t with
  | pushStore task =>
    simp only [hs.rear, dite_true]
    exact Ends.ok trivial
  | popTake =>
    simp only [hs.front, dite_true]
    exact Ends.ok trivial
  | pushLock | popLock => exact (Monitor.lock_waits ..).bind fun _ _ => Ends.ok trivial
  | pushWaiting | popWaiting => exact (Monitor.reenter_waits ..).bind fun _ _ => Ends.ok trivial
  | pushSignal | popSignal => exact (Monitor.signal_waits ..).bind fun _ _ => Ends.ok trivial
  | joining k =>
    dsimp only
    split
    · split
      · exact Ends.ok trivial
      · exact Ends.error rfl
    · exact Ends.ok trivial
  | joiningBroadcaster =>
    dsimp only
    split
    · exact Ends.ok trivial
    · exact Ends.error rfl
  | mainLoop | exited => exact Ends.error rfl
  | _ => exact Ends.ok trivial

omit [Inhabited α] in
theorem fromLoop_waits (s : QueueMonitor n α) (p : Place α) :
    Ends (fun _ => True) (fun e => e = Stuck.blocked) (s.fromLoop p) := by
  unfold QueueMonitor.fromLoop
  split
  · exact Ends.ok trivial
  · exact Ends.error rfl

theorem monitorStep_waits {P : α → Prop} {s : QueueMonitor n α} (hs : s.OnlyReceived P)
    (l : MonitorLabel n α) :
    Ends (fun _ => True) (fun e => e = Stuck.blocked) (monitorStep s l) := by
  cases l with
  | advance t choice =>
    simp only [monitorStep]
    split
    · exact Ends.error rfl
    · exact advance_waits hs t choice
  | receive | endEvents | breakLoop => exact fromLoop_waits ..
  | spurious t => exact (Monitor.spurious_waits ..).bind fun _ _ => Ends.ok trivial
  | sigint t =>
    simp only [monitorStep]
    split
    · exact Ends.error rfl
    · exact Ends.error rfl
    · exact Ends.ok trivial
  | sigBroadcast t =>
    simp only [monitorStep]
    split
    · exact Ends.ok trivial
    · exact Ends.error rfl

end

/-! ## Requests -/

/-- The result of `recv` on a buffer of `bufsiz` bytes: an error, or the bytes received. -/
inductive RecvResult where
  | failed
  | data (bytes : List Char)
  deriving DecidableEq

namespace RecvResult

def bytes : RecvResult → List Char
  | .failed => []
  | .data bytes => bytes

def len : RecvResult → Int
  | .failed => -1
  | .data bytes => bytes.length

end RecvResult

/-- A statement that indexes an array. -/
inductive IndexSite where
  /-- `buf[len]` in `main`. -/
  | bufEnd
  /-- The bytes that `memcpy` reads in `buf` and writes in `task.data`. -/
  | copy
  /-- `queue[rear]`. -/
  | rear
  /-- `queue[front]`. -/
  | front
  /-- `task.data[task.length]` in `worker_thread`. -/
  | dataEnd
  /-- `recv_buf[len]` in `socket_recv_thread`. -/
  | recvBufEnd
  deriving DecidableEq

/-- The size of the array. -/
def IndexSite.size : IndexSite → Nat
  | .bufEnd | .copy | .dataEnd | .recvBufEnd => bufsiz
  | .rear | .front => taskQueueCapacity

/-- An index that a statement used. -/
structure ArrayIndex where
  site : IndexSite
  index : Int
  deriving DecidableEq

def ArrayIndex.InBounds (a : ArrayIndex) : Prop := 0 ≤ a.index ∧ a.index < a.site.size

instance : DecidablePred ArrayIndex.InBounds := fun _ => inferInstanceAs (Decidable (_ ∧ _))

/-- The threads of the server with the queue, and the indices they used. An index outside of
its array is recorded like the others; what the write destroys is not modelled. -/
structure RequestPath (n : Nat) where
  threads : QueueMonitor n Task
  indices : List ArrayIndex

inductive RequestLabel (n : Nat) where
  /-- One `recv` of the main thread, up to the call of `task_queue_push` or to the end of the
  client. -/
  | recv (fd : Int) (result : RecvResult)
  | other (l : MonitorLabel n Task)

/-- The task that the main thread makes of the result. -/
def requestTask (fd : Int) (result : RecvResult) : Option Task :=
  if result.len ≤ 0 then none else some (receivedTask fd result.bytes)

/-- The indices used before a task is pushed. -/
def recvIndices (result : RecvResult) : List ArrayIndex :=
  ⟨.bufEnd, result.len⟩ ::
    if result.len ≤ 0 then [] else (List.range result.len.toNat).map fun i : Nat => ⟨.copy, i⟩

/-- The indices that the next statement of a thread uses. The terminator is the first statement
of `worker_thread` after the pop. -/
def threadIndices (s : QueueMonitor n Task) (t : Thread n) : List ArrayIndex :=
  match s.place t with
  | .pushStore _ => [⟨.rear, s.queue.rear⟩]
  | .popTake => [⟨.front, s.queue.front⟩]
  | .executing task => [⟨.dataEnd, task.length⟩]
  | _ => []

def usedIndices (s : QueueMonitor n Task) : RequestLabel n → List ArrayIndex
  | .recv _ result => recvIndices result
  | .other (.advance t _) => threadIndices s t
  | .other _ => []

/-- A task is received only by `recv`, which returns at most `sizeof(buf)` bytes. -/
def requestThreads (s : QueueMonitor n Task) : RequestLabel n → Except Stuck (QueueMonitor n Task)
  | .recv fd result =>
    if result.bytes.length ≤ bufsiz then
      match requestTask fd result with
      | some task => monitorStep s (.receive task)
      | none => s.fromLoop .mainLoop
    else
      .error .blocked
  | .other (.receive _) => .error .blocked
  | .other l => monitorStep s l

def requestStep (s : RequestPath n) (l : RequestLabel n) : Except Stuck (RequestPath n) := do
  let threads ← requestThreads s.threads l
  .ok ⟨threads, s.indices ++ usedIndices s.threads l⟩

def requestStart : RequestPath n := ⟨monitorStart, []⟩

/-- Every index used is within its array, and every task stored leaves room for its
terminator. -/
structure RequestPath.InBounds (s : RequestPath n) : Prop where
  indices : ∀ a ∈ s.indices, a.InBounds
  stored : ∀ task ∈ s.threads.pushed, 0 < task.length ∧ task.length < bufsiz

/-- `recv` neither failed nor filled the buffer. -/
def RequestLabel.Moderate : RequestLabel n → Prop
  | .recv _ result => result.len ≠ -1 ∧ result.len ≠ bufsiz
  | .other _ => True

theorem receivedTask_length {fd : Int} {result : RecvResult} {task : Task}
    (h : requestTask fd result = some task) : 0 < result.len ∧ task.length = result.len := by
  unfold requestTask at h
  split at h
  · cases h
  · cases h
    cases result with
    | failed => simp_all [RecvResult.len]
    | data bytes => exact ⟨by omega, rfl⟩

theorem recvResult_le {result : RecvResult} (hfits : result.bytes.length ≤ bufsiz) :
    -1 ≤ result.len ∧ result.len ≤ bufsiz := by
  cases result with
  | failed => exact ⟨le_refl _, by decide⟩
  | data bytes =>
    have hle : (bytes.length : Int) ≤ bufsiz := Int.ofNat_le.mpr hfits
    exact ⟨by simp only [RecvResult.len]; omega, hle⟩

/-- The terminator of the buffer. -/
theorem bufEnd_inBounds_iff {result : RecvResult} (hfits : result.bytes.length ≤ bufsiz) :
    ArrayIndex.InBounds ⟨.bufEnd, result.len⟩ ↔ result.len ≠ -1 ∧ result.len ≠ bufsiz := by
  have hrange := recvResult_le hfits
  simp only [ArrayIndex.InBounds, IndexSite.size]
  omega

/-- `memcpy` stays inside of both arrays. -/
theorem recvIndices_cases {result : RecvResult} (hfits : result.bytes.length ≤ bufsiz)
    {a : ArrayIndex} (ha : a ∈ recvIndices result) :
    a = ⟨.bufEnd, result.len⟩ ∨ a.InBounds := by
  have hrange := recvResult_le hfits
  rcases List.mem_cons.mp ha with rfl | ha
  · exact Or.inl rfl
  · split at ha
    · cases ha
    · obtain ⟨i, hi, rfl⟩ := List.mem_map.mp ha
      have hlt := List.mem_range.mp hi
      right
      simp only [ArrayIndex.InBounds, IndexSite.size]
      omega

/-- A `recv` that happened returned no more than fits. -/
theorem recv_fits {s s' : QueueMonitor n Task} {fd : Int} {result : RecvResult}
    (h : requestThreads s (.recv fd result) = .ok s') : result.bytes.length ≤ bufsiz := by
  by_contra hfits
  simp only [requestThreads, if_neg hfits] at h
  cases h

section

variable {P : Task → Prop} {s s' : QueueMonitor n Task} {l : RequestLabel n}

theorem requestThreads_onlyReceived (hs : s.OnlyReceived P)
    (hl : ∀ fd result task, l = .recv fd result → result.bytes.length ≤ bufsiz →
      requestTask fd result = some task → P task)
    (h : requestThreads s l = .ok s') : s'.OnlyReceived P := by
  unfold requestThreads at h
  split at h
  · rename_i fd result
    split at h
    · rename_i hfits
      split at h
      · rename_i task htask
        refine onlyReceived_step hs (fun u hu => ?_) h
        cases hu
        exact hl fd result task rfl hfits htask
      · obtain ⟨hp, rfl⟩ := fromLoop_ok h
        exact hs.goes rfl rfl rfl (Or.inl rfl) (Or.inl rfl)
    · cases h
  · cases h
  · rename_i l' hl'
    refine onlyReceived_step hs (fun u hu => ?_) h
    exact absurd hu (hl' u)

/-- The slots are within the ring. -/
theorem threadIndices_cases (hs : s.OnlyReceived P) {t : Thread n} {a : ArrayIndex}
    (ha : a ∈ threadIndices s t) :
    a.InBounds ∨ ∃ task, (task = default ∨ P task) ∧ a = ⟨.dataEnd, task.length⟩ := by
  unfold threadIndices at ha
  split at ha
  · rw [List.mem_singleton.mp ha]
    exact Or.inl ⟨Int.natCast_nonneg _, Int.ofNat_lt.mpr hs.rear⟩
  · rw [List.mem_singleton.mp ha]
    exact Or.inl ⟨Int.natCast_nonneg _, Int.ofNat_lt.mpr hs.front⟩
  · rename_i task hplace
    exact Or.inr ⟨task, hs.popped t task (by rw [hplace]; rfl), List.mem_singleton.mp ha⟩
  · cases ha

/-- Only the two terminators depend on a length. -/
theorem usedIndices_cases (hs : s.OnlyReceived P) (h : requestThreads s l = .ok s')
    {a : ArrayIndex} (ha : a ∈ usedIndices s l) :
    a.InBounds ∨ (∃ fd result, l = .recv fd result ∧ a = ⟨.bufEnd, result.len⟩) ∨
      ∃ task, (task = default ∨ P task) ∧ a = ⟨.dataEnd, task.length⟩ := by
  unfold usedIndices at ha
  split at ha
  · rename_i fd result
    rcases recvIndices_cases (recv_fits h) ha with rfl | ha
    · exact Or.inr (Or.inl ⟨fd, result, rfl, rfl⟩)
    · exact Or.inl ha
  · rcases threadIndices_cases hs ha with ha | ha
    · exact Or.inl ha
    · exact Or.inr (Or.inr ha)
  · cases ha

end

/-! ## Runs -/

theorem requestThreads_waits {P : Task → Prop} {s : QueueMonitor n Task} (hs : s.OnlyReceived P)
    (l : RequestLabel n) :
    Ends (fun _ => True) (fun e => e = Stuck.blocked) (requestThreads s l) := by
  unfold requestThreads
  split
  · split
    · split
      · exact monitorStep_waits hs _
      · exact fromLoop_waits ..
    · exact Ends.error rfl
  · exact Ends.error rfl
  · exact monitorStep_waits hs _

theorem requestStep_ok {s s' : RequestPath n} {l : RequestLabel n}
    (h : requestStep s l = .ok s') :
    requestThreads s.threads l = .ok s'.threads ∧
      s'.indices = s.indices ++ usedIndices s.threads l := by
  obtain ⟨threads, hthreads, he⟩ := bind_ok.mp h
  cases he
  exact ⟨hthreads, rfl⟩

/-- A task with room for its terminator. -/
def Task.Fits (task : Task) : Prop := 0 < task.length ∧ task.length < bufsiz

theorem requestTask_fits {fd : Int} {result : RecvResult} {task : Task}
    (hfits : result.bytes.length ≤ bufsiz) (hfull : result.len ≠ bufsiz)
    (h : requestTask fd result = some task) : task.Fits := by
  obtain ⟨hpos, hlength⟩ := receivedTask_length h
  have hle := recvResult_le hfits
  constructor
  · omega
  · omega

/-- The zeroed task of a slot that was never written has room as well. -/
theorem dataEnd_inBounds {task : Task} (h : task = default ∨ task.Fits) :
    ArrayIndex.InBounds ⟨.dataEnd, task.length⟩ := by
  rcases h with rfl | ⟨hpos, hlt⟩
  · exact ⟨le_refl _, by decide⟩
  · exact ⟨hpos.le, hlt⟩

/-- The invariant of a run without an extreme result of `recv`. -/
structure RequestPath.Ordinary (s : RequestPath n) : Prop where
  received : s.threads.OnlyReceived Task.Fits
  indices : ∀ a ∈ s.indices, a.InBounds

theorem ordinary_step {s s' : RequestPath n} {l : RequestLabel n} (hs : s.Ordinary)
    (hl : l.Moderate) (h : requestStep s l = .ok s') : s'.Ordinary := by
  obtain ⟨hthreads, hindices⟩ := requestStep_ok h
  constructor
  · apply requestThreads_onlyReceived hs.received _ hthreads
    rintro fd result task rfl hfits htask
    exact requestTask_fits hfits hl.2 htask
  · intro a ha
    rw [hindices] at ha
    rcases List.mem_append.mp ha with ha | ha
    · exact hs.indices a ha
    · rcases usedIndices_cases hs.received hthreads ha with ha | ⟨fd, result, rfl, rfl⟩ |
        ⟨task, htask, rfl⟩
      · exact ha
      · exact (bufEnd_inBounds_iff (recv_fits hthreads)).mpr hl
      · exact dataEnd_inBounds htask

/-- In an extreme result of `recv` the terminator is outside of `buf`. -/
theorem moderate_of_inBounds {s s' : RequestPath n} {l : RequestLabel n}
    (h : requestStep s l = .ok s') (hs' : ∀ a ∈ s'.indices, a.InBounds) : l.Moderate := by
  obtain ⟨hthreads, hindices⟩ := requestStep_ok h
  cases l with
  | other l => trivial
  | recv fd result =>
    apply (bufEnd_inBounds_iff (recv_fits hthreads)).mp
    apply hs'
    rw [hindices]
    exact List.mem_append_right _ (List.mem_cons_self ..)

/-- All indices of a run are within their arrays, and all tasks stored leave room for the
terminator, if no `recv` failed or filled the buffer, and only then. -/
theorem requestRun_inBounds_iff {ls : List (RequestLabel n)} {s : RequestPath n}
    (h : run requestStep requestStart ls = .ok s) :
    (∀ u, Visits requestStep requestStart ls u → u.InBounds) ↔ ∀ l ∈ ls, l.Moderate := by
  have hstart : (requestStart : RequestPath n).Ordinary :=
    ⟨monitorStart_onlyReceived _, by simp [requestStart]⟩
  rw [← throughout_iff_forall h]
  apply visits_iff_throughout_of_keeps (I := RequestPath.Ordinary) _ _ _ hstart h
  · intro u l u' hu hl hok
    exact ordinary_step hu hl hok
  · intro u hu
    exact ⟨hu.indices, hu.received.pushed⟩
  · intro u l u' _ hok hu'
    exact moderate_of_inBounds hok hu'.indices

/-- The sites that are no terminators. -/
def IndexSite.NoEnd : IndexSite → Prop
  | .bufEnd | .dataEnd | .recvBufEnd => False
  | .copy | .rear | .front => True

/-- Whatever `recv` returns, the slots of the ring and the bytes that are copied are within
their arrays. -/
theorem requestRun_slots (ls : List (RequestLabel n)) :
    Ends (fun s => ∀ a ∈ s.indices, a.site.NoEnd → a.InBounds) (fun e => e = Stuck.blocked)
      (run requestStep requestStart ls) := by
  have hends : Ends
      (fun s : RequestPath n => s.threads.OnlyReceived (fun _ => True) ∧
        ∀ a ∈ s.indices, a.site.NoEnd → a.InBounds)
      (fun e => e = Stuck.blocked) (run requestStep requestStart ls) := by
    apply run_ends (C := fun _ => True) _ ⟨monitorStart_onlyReceived _, by simp [requestStart]⟩
      fun _ _ => trivial
    intro s l hs _
    cases h : requestThreads s.threads l with
    | error e =>
      rw [requestStep, h]
      exact Ends.error ((requestThreads_waits hs.1 l).of_error h)
    | ok threads =>
      rw [requestStep, h]
      refine Ends.ok ⟨requestThreads_onlyReceived hs.1 (fun _ _ _ _ _ _ => trivial) h, ?_⟩
      intro a ha hend
      rcases List.mem_append.mp ha with ha | ha
      · exact hs.2 a ha hend
      · rcases usedIndices_cases hs.1 h ha with ha | ⟨fd, result, rfl, rfl⟩ | ⟨task, _, rfl⟩
        · exact ha
        · exact False.elim hend
        · exact False.elim hend
  exact hends.mono (fun _ hs => hs.2) fun _ he => he

end BallGame.Server
