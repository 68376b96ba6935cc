import BallGame.Server.QueueMonitor

/-!
# Soundness of the task queue at shutdown

While no worker executes the unlock inside `if (!keep_running)`, the mutex protects the ring:
between the lock and the unlock of a push or a pop only the thread that holds the mutex
changes the four fields, and what it finds at each of its statements follows from the
statements before (`Place.Content`). The unlock at shutdown is not followed by a return; the
worker goes on without the mutex.
-/

namespace BallGame.Server

open Library

variable {n : Nat} {α : Type}

/-! ## What a thread inside finds -/

/-- The queue `xs` that the ring holds, seen from a place inside push or pop. -/
def Place.Content (p : Place α) (queue : TaskQueue α) (keepRunning : Bool) (xs : List α) :
    Prop :=
  match p with
  | .pushWait _ => queue.count = xs.length ∧ xs.length = taskQueueCapacity
  | .pushStore _ => queue.count = xs.length ∧ xs.length < taskQueueCapacity
  | .pushRear task => queue.count = xs.length ∧ xs.length < taskQueueCapacity ∧
      queue.queue[queue.rear]? = some task
  -- rear has moved, count has not
  | .pushCount => queue.count + 1 = xs.length ∧ xs ≠ []
  | .popTestFlag | .popWait => queue.count = xs.length ∧ xs = []
  | .popCheck => queue.count = xs.length ∧ (xs ≠ [] ∨ keepRunning = false)
  | .popEarlyUnlock => queue.count = xs.length ∧ keepRunning = false
  | .popTake => queue.count = xs.length ∧ xs ≠ []
  | .popFront task => queue.count = xs.length ∧ xs.head? = some task
  -- front has moved, count has not
  | .popCount _ => queue.count = xs.length + 1 ∧ xs.length < taskQueueCapacity
  | _ => queue.count = xs.length

/-- Clearing the flag keeps what is known. -/
theorem Place.Content.stop {p : Place α} {queue : TaskQueue α} {keepRunning : Bool} {xs : List α}
    (h : p.Content queue keepRunning xs) : p.Content queue false xs := by
  cases p with
  | popCheck => exact ⟨h.1, Or.inr rfl⟩
  | popEarlyUnlock => exact ⟨h.1, rfl⟩
  | _ => exact h

/-- The number of tasks and the count differ by one at most, and only in between. -/
theorem Place.Content.count_bounds {p : Place α} {queue : TaskQueue α} {keepRunning : Bool}
    {xs : List α} (h : p.Content queue keepRunning xs) (hle : xs.length ≤ taskQueueCapacity) :
    0 ≤ queue.count ∧ queue.count ≤ taskQueueCapacity := by
  cases p with
  | pushCount =>
    obtain ⟨hcount, hne⟩ := h
    have hpos := List.length_pos_iff.mpr hne
    omega
  | popCount task =>
    obtain ⟨hcount, hlt⟩ := h
    omega
  | pushWait _ | pushStore _ | pushRear _ | popTestFlag | popWait | popCheck | popEarlyUnlock
  | popTake | popFront _ =>
    have hcount := h.1
    omega
  | _ =>
    have hcount : queue.count = xs.length := h
    omega

theorem Looks.content {queue : TaskQueue α} {keepRunning : Bool} {p p' : Place α} {xs : List α}
    (h : Looks queue keepRunning p p')
    (hring : RingHolds queue.queue queue.front queue.rear xs.length xs)
    (hp : p.Content queue keepRunning xs) : p'.Content queue keepRunning xs := by
  cases h with
  | pushFull task hfull =>
    have hcount : queue.count = xs.length := hp
    exact ⟨hcount, by omega⟩
  | pushRoom task hroom =>
    have hcount : queue.count = xs.length := hp
    have hle := hring.length_le
    exact ⟨hcount, by omega⟩
  | popEmpty hzero =>
    have hcount : queue.count = xs.length := hp
    exact ⟨hcount, List.length_eq_zero_iff.mp (by omega)⟩
  | popSome hne =>
    have hcount : queue.count = xs.length := hp
    refine ⟨hcount, Or.inl ?_⟩
    intro he
    apply hne
    simp [hcount, he]
  | popMustWait _ => exact hp
  | popNoWait hstop => exact ⟨hp.1, Or.inr hstop⟩
  | popGoesOn hrunning =>
    refine ⟨hp.1, hp.2.resolve_right ?_⟩
    simp [hrunning]
  | popStops hstop => exact ⟨hp.1, hstop⟩
  | popTakes hfront =>
    obtain ⟨hcount, hne⟩ := hp
    refine ⟨hcount, ?_⟩
    cases xs with
    | nil => exact absurd rfl hne
    | cons x xs =>
      have hslot := hring.pop.1
      rw [Vector.getElem?_eq_getElem hfront] at hslot
      simp [Option.some.inj hslot]

theorem Locks.content {p p' : Place α} (h : Locks p p') {queue : TaskQueue α}
    {keepRunning : Bool} {xs : List α} (hcount : queue.count = xs.length) :
    p'.Content queue keepRunning xs := by
  cases h <;> exact hcount

theorem Reenters.content {p p' : Place α} (h : Reenters p p') {queue : TaskQueue α}
    {keepRunning : Bool} {xs : List α} (hcount : queue.count = xs.length) :
    p'.Content queue keepRunning xs := by
  cases h <;> exact hcount

theorem Unlocks.content {p p' : Place α} (h : Unlocks p p') {queue : TaskQueue α}
    {keepRunning : Bool} {xs : List α} (hp : p.Content queue keepRunning xs) :
    queue.count = xs.length := by
  cases h <;> exact hp

theorem Waits.content {p p' : Place α} (h : Waits p p') {queue : TaskQueue α}
    {keepRunning : Bool} {xs : List α} (hp : p.Content queue keepRunning xs) :
    queue.count = xs.length := by
  cases h <;> exact hp.1

theorem Signals.content {p p' : Place α} (h : Signals p p') {queue : TaskQueue α}
    {keepRunning : Bool} {xs : List α} (hp : p.Content queue keepRunning xs) :
    p'.Content queue keepRunning xs := by
  cases h <;> exact hp

/-! ## The invariant -/

/-- The ring holds `xs`, which was pushed and not yet returned, and the mutex protects it. -/
structure QueueMonitor.Consistent (s : QueueMonitor n α) (xs : List α) : Prop where
  ring : RingHolds s.queue.queue s.queue.front s.queue.rear xs.length xs
  pushed : s.pushed = s.returned ++ xs
  exclusive : s.monitor.Exclusive s.status
  free : s.monitor.holder = none → s.queue.count = xs.length
  inside : ∀ t, s.status t = .inside → (s.place t).Content s.queue s.keepRunning xs

namespace QueueMonitor.Consistent

variable {s s' : QueueMonitor n α} {xs xs' : List α} {t : Thread n} {p p' : Place α}

theorem content (h : s.Consistent xs) (hp : s.place t = p) (hstatus : p.status = .inside) :
    p.Content s.queue s.keepRunning xs := by
  have hin : s.status t = .inside := by
    rw [QueueMonitor.status, hp, hstatus]
  have hcontent := h.inside t hin
  rwa [hp] at hcontent

/-- The thread inside executes a statement and stays inside. -/
theorem stays {q : Place α} (h : s.Consistent xs) (hp : s.place t = p)
    (hstatus : p.status = .inside)
    (hstatus' : q.status = .inside) (hplace : s'.place = Function.update s.place t q)
    (hholder : s'.monitor.holder = s.monitor.holder)
    (hring : RingHolds s'.queue.queue s'.queue.front s'.queue.rear xs'.length xs')
    (hpushed : s'.pushed = s'.returned ++ xs')
    (hcontent : q.Content s'.queue s'.keepRunning xs') : s'.Consistent xs' := by
  have hin : s.status t = .inside := by
    rw [QueueMonitor.status, hp, hstatus]
  have hsame : s'.status = s.status := by
    ext u
    by_cases hu : u = t
    · subst hu
      simp [QueueMonitor.status, hplace, hstatus', hp, hstatus]
    · simp [QueueMonitor.status, hplace, Function.update_of_ne hu]
  refine ⟨hring, hpushed, ?_, ?_, ?_⟩
  · rw [hsame]
    exact h.exclusive.congr hholder
  · intro hnone
    rw [hholder, (h.exclusive t).mpr hin] at hnone
    cases hnone
  · intro u hu
    rw [hsame] at hu
    by_cases hut : u = t
    · subst hut
      rw [hplace, Function.update_self]
      exact hcontent
    · exact absurd hu (h.exclusive.other hin hut)

/-- A thread takes the free mutex. -/
theorem enters (h : s.Consistent xs) {m : Monitor (Thread n)}
    (hexclusive : m.Exclusive (s.goto t p').status)
    (hholder : m.holder = some t) (hcontent : p'.Content s.queue s.keepRunning xs) :
    ({ s.goto t p' with monitor := m } : QueueMonitor n α).Consistent xs := by
  refine ⟨h.ring, h.pushed, hexclusive, ?_, ?_⟩
  · intro hnone
    rw [hholder] at hnone
    cases hnone
  · intro u hu
    have hut : some t = some u := by
      rw [← hholder]
      exact (hexclusive u).mpr hu
    cases hut
    simp only [QueueMonitor.goto, Function.update_self]
    exact hcontent

/-- The thread inside releases the mutex. -/
theorem leaves (h : s.Consistent xs) (hp : s.place t = p) (hstatus : p.status = .inside)
    (hstatus' : p'.status ≠ .inside) {m : Monitor (Thread n)} (hholder : m.holder = none)
    (hcount : s.queue.count = xs.length) :
    ({ s.goto t p' with monitor := m } : QueueMonitor n α).Consistent xs := by
  have hin : s.status t = .inside := by
    rw [QueueMonitor.status, hp, hstatus]
  have hexclusive : m.Exclusive (s.goto t p').status := by
    rw [QueueMonitor.status_goto]
    exact h.exclusive.release hin hstatus' hholder
  refine ⟨h.ring, h.pushed, hexclusive, fun _ => hcount, ?_⟩
  intro u hu
  exact absurd hu (hexclusive.free_of_none hholder u)

/-- A thread outside moves outside. -/
theorem outside (h : s.Consistent xs) (hp : s.place t = p) (hmove : Walks p p') :
    (s.goto t p').Consistent xs := by
  have hsame : (s.goto t p').status = s.status :=
    QueueMonitor.status_goto_same hp (hmove.outside'.trans hmove.outside.symm)
  refine ⟨h.ring, h.pushed, ?_, h.free, ?_⟩
  · rw [hsame]
    exact h.exclusive
  · intro u hu
    rw [hsame] at hu
    have hut : u ≠ t := by
      rintro rfl
      rw [QueueMonitor.status, hp, hmove.outside] at hu
      cases hu
    simp only [QueueMonitor.goto, Function.update_of_ne hut]
    exact h.inside u hu

/-- Only the waiting threads change. -/
theorem monitor (h : s.Consistent xs) {m : Monitor (Thread n)}
    (hholder : m.holder = s.monitor.holder) :
    ({ s with monitor := m } : QueueMonitor n α).Consistent xs := by
  refine ⟨h.ring, h.pushed, h.exclusive.congr hholder, ?_, h.inside⟩
  intro hnone
  exact h.free (hholder.symm.trans hnone)

end QueueMonitor.Consistent

/-- Every statement but the unlock at shutdown keeps the invariant. -/
theorem consistent_advanced {s s' : QueueMonitor n α} {xs : List α} {t : Thread n}
    {choice : Option (Thread n)} (hs : s.Consistent xs) (hearly : s.place t ≠ .popEarlyUnlock)
    (h : Advanced s t choice s') : ∃ xs', s'.Consistent xs' := by
  cases h with
  | looks hp h =>
    refine ⟨xs, hs.stays hp h.status.1 h.status.2 rfl rfl hs.ring hs.pushed ?_⟩
    exact h.content hs.ring (hs.content hp h.status.1)
  | walks hp h => exact ⟨xs, hs.outside hp h⟩
  | locks hp h hm =>
    have hexclusive := hs.exclusive.lock hm
    rw [← h.status.2, ← QueueMonitor.status_goto] at hexclusive
    obtain ⟨hfree, rfl⟩ := Monitor.lock_ok.mp hm
    exact ⟨xs, hs.enters hexclusive rfl (h.content (hs.free hfree))⟩
  | unlocks hp h =>
    refine ⟨xs, hs.leaves hp h.status.1 (by simp [h.status]) rfl ?_⟩
    exact h.content (hs.content hp h.status.1)
  | earlyUnlock hp => exact absurd hp hearly
  | waits hp h =>
    refine ⟨xs, hs.leaves hp h.status.1 (by simp [h.status]) rfl ?_⟩
    exact h.content (hs.content hp h.status.1)
  | reenters hp h hm =>
    have hexclusive := hs.exclusive.reenter hm
    rw [← h.status.2, ← QueueMonitor.status_goto] at hexclusive
    obtain ⟨⟨_, hfree⟩, rfl⟩ := Monitor.reenter_ok.mp hm
    exact ⟨xs, hs.enters hexclusive rfl (h.content (hs.free hfree))⟩
  | signals hp h hm =>
    have hholder : _ = s.monitor.holder := Monitor.signal_holder hm
    refine ⟨xs, hs.stays hp h.status.1 h.status.2 rfl hholder hs.ring hs.pushed ?_⟩
    exact h.content (hs.content hp h.status.1)
  | @store task hp hrear =>
    obtain ⟨hcount, hlt⟩ := hs.content hp rfl
    refine ⟨xs, hs.stays (q := .pushRear task) hp rfl rfl rfl rfl (hs.ring.store hlt task)
      hs.pushed ⟨hcount, hlt, ?_⟩⟩
    exact Vector.getElem?_set_self hrear
  | @rear task hp =>
    obtain ⟨hcount, hlt, hslot⟩ := hs.content hp rfl
    refine ⟨xs ++ [task], hs.stays (q := .pushCount) hp rfl rfl rfl rfl ?_ ?_ ?_⟩
    · have hring := hs.ring.extend hlt hslot
      simpa using hring
    · show s.pushed ++ [task] = s.returned ++ (xs ++ [task])
      rw [hs.pushed, List.append_assoc]
    · exact ⟨by simp [hcount], by simp⟩
  | countUp hp =>
    obtain ⟨hcount, _⟩ := hs.content hp rfl
    exact ⟨xs, hs.stays (q := .pushSignal) hp rfl rfl rfl rfl hs.ring hs.pushed hcount⟩
  | @front task hp =>
    obtain ⟨hcount, hhead⟩ := hs.content hp rfl
    cases xs with
    | nil => cases hhead
    | cons x rest =>
      cases hhead
      have hle := hs.ring.length_le
      have hring := hs.ring.pop.2
      simp only [List.length_cons] at hcount hle hring
      refine ⟨rest, hs.stays (q := .popCount task) hp rfl rfl rfl rfl ?_ ?_ ⟨hcount, hle⟩⟩
      · simpa using hring
      · show s.pushed = s.returned ++ [task] ++ rest
        rw [hs.pushed, List.append_assoc]
        rfl
  | @countDown task hp =>
    obtain ⟨hcount, _⟩ := hs.content hp rfl
    refine ⟨xs, hs.stays (q := .popSignal task) hp rfl rfl rfl rfl hs.ring hs.pushed ?_⟩
    show s.queue.count - 1 = xs.length
    omega

/-- A worker that unlocks at shutdown goes on to the task without the mutex. -/
def KeepsMutex (s : QueueMonitor n α) : MonitorLabel n α → Prop
  | .advance t _ => s.place t ≠ .popEarlyUnlock
  | _ => True

theorem consistent_step {s s' : QueueMonitor n α} {xs : List α} {l : MonitorLabel n α}
    (hs : s.Consistent xs) (hkeeps : KeepsMutex s l) (h : Stepped s l s') :
    ∃ xs', s'.Consistent xs' := by
  cases h with
  | advance _ h => exact consistent_advanced hs hkeeps h
  | loop _ hp h => exact ⟨xs, hs.outside hp h⟩
  | spurious hm =>
    obtain ⟨_, rfl⟩ := Monitor.spurious_ok.mp hm
    exact ⟨xs, hs.monitor rfl⟩
  | sigint _ =>
    exact ⟨xs, hs.ring, hs.pushed, hs.exclusive, hs.free, fun t ht => (hs.inside t ht).stop⟩
  | sigBroadcast _ =>
    have hs' := hs.monitor (m := s.monitor.broadcast) rfl
    exact ⟨xs, hs'.ring, hs'.pushed, hs'.exclusive, hs'.free, hs'.inside⟩

theorem monitorStart_consistent [Inhabited α] :
    (monitorStart : QueueMonitor n α).Consistent [] := by
  have hout : ∀ t, (monitorStart : QueueMonitor n α).status t = .outside := startPlace_status
  refine ⟨taskQueueInit_holds, rfl, ?_, fun _ => rfl, ?_⟩
  · intro t
    rw [hout]
    simp [monitorStart, Monitor.free]
  · intro t ht
    rw [hout] at ht
    cases ht

/-! ## Soundness -/

/-- The next statement reads or writes front, rear, count or a slot, or releases the mutex. -/
def Place.uses : Place α → Bool
  | .pushTest _ | .pushWait _ | .pushStore _ | .pushRear _ | .pushCount | .pushUnlock | .popTest
  | .popWait | .popEarlyUnlock | .popTake | .popFront _ | .popCount _ | .popUnlock _ => true
  | _ => false

theorem Place.status_of_uses {p : Place α} (h : p.uses = true) : p.status = .inside := by
  cases p <;> first | rfl | cases h

/-- The tasks that were returned are the first of those that were pushed, each once and in
their order; the count is within the ring; and whoever is about to use the ring or to release
the mutex holds it. -/
structure QueueMonitor.Sound (s : QueueMonitor n α) : Prop where
  returned : s.returned <+: s.pushed
  count : 0 ≤ s.queue.count ∧ s.queue.count ≤ taskQueueCapacity
  holds : ∀ t, (s.place t).uses = true → s.monitor.holder = some t

theorem QueueMonitor.Consistent.sound {s : QueueMonitor n α} {xs : List α}
    (h : s.Consistent xs) : s.Sound := by
  refine ⟨⟨xs, h.pushed.symm⟩, ?_, ?_⟩
  · have hle := h.ring.length_le
    cases hholder : s.monitor.holder with
    | none =>
      have hcount := h.free hholder
      omega
    | some t => exact (h.inside t ((h.exclusive t).mp hholder)).count_bounds hle
  · intro t ht
    exact (h.exclusive t).mpr (Place.status_of_uses ht)

/-- After the unlock at shutdown the queue is not sound. -/
theorem keepsMutex_of_sound {s s' : QueueMonitor n α} {l : MonitorLabel n α}
    (h : monitorStep s l = .ok s') (hs' : s'.Sound) : KeepsMutex s l := by
  cases l with
  | advance t choice =>
    intro hp
    simp only [monitorStep] at h
    split at h
    · cases h
    · simp only [QueueMonitor.advance, hp] at h
      cases h
      have hholds := hs'.holds t (by simp [QueueMonitor.goto, Place.uses])
      cases hholds
  | _ => trivial

/-- **Shutdown and the task queue.** In every state of a run the returned tasks are a prefix
of the pushed ones, the count is between 0 and the capacity, and only the thread that holds
the mutex uses the ring or releases the mutex, exactly if no worker of the run executes the
unlock inside `if (!keep_running)`. -/
theorem queue_sound_iff [Inhabited α] (ls : List (MonitorLabel n α)) (s : QueueMonitor n α)
    (hrun : run monitorStep monitorStart ls = .ok s) :
    (∀ u, Visits monitorStep monitorStart ls u → u.Sound) ↔
      Throughout monitorStep KeepsMutex monitorStart ls := by
  apply visits_iff_throughout_of_keeps (I := fun u => ∃ xs, u.Consistent xs) _ _ _
    ⟨[], monitorStart_consistent⟩ hrun
  · intro u l u' hu hC hstep
    obtain ⟨xs, hxs⟩ := hu
    exact consistent_step hxs hC (stepped_of_step hstep)
  · intro u hu
    obtain ⟨xs, hxs⟩ := hu
    exact hxs.sound
  · intro u l u' _ hstep hu'
    exact keepsMutex_of_sound hstep hu'

/-- A task is pushed and popped, and its worker learns of the shutdown at the loop test. -/
def shutdownWhileExecuting : List (MonitorLabel 1 Task) :=
  [.advance .main none, .receive ⟨4, ['w'], 1⟩] ++
    statements .main [none, none, none, none, none, none, none] ++
    statements onlyWorker [none, none, none, none, none, none, none, none, none] ++
    [.sigint .main, .sigBroadcast .main] ++ statements onlyWorker [none, none]

theorem queue_sound_iff_shutdownWhileExecuting :
    ∃ s, run monitorStep monitorStart shutdownWhileExecuting = .ok s ∧
      s.place onlyWorker = .exited ∧
      ∀ u, Visits monitorStep monitorStart shutdownWhileExecuting u → u.Sound := by
  refine ⟨_, rfl, rfl, (queue_sound_iff shutdownWhileExecuting _ rfl).mpr ?_⟩
  refine throughout_cons_of_ok rfl (by intro h; cases h) ?_
  refine throughout_cons_of_ok rfl trivial ?_
  iterate 16 refine throughout_cons_of_ok rfl (by intro h; cases h) ?_
  refine throughout_cons_of_ok rfl trivial (throughout_cons_of_ok rfl trivial ?_)
  iterate 2 refine throughout_cons_of_ok rfl (by intro h; cases h) ?_
  trivial

/-- The only worker sleeps on the empty queue when the interrupt comes. It returns a task that
nobody pushed. -/
theorem shutdown_returns_empty_slot :
    ¬ ∀ (ls : List (MonitorLabel 1 Task)) s, run monitorStep monitorStart ls = .ok s →
      s.Sound := by
  intro hall
  obtain ⟨s, hs, hreturned, hpushed⟩ : ∃ s, run monitorStep (monitorStart : QueueMonitor 1 Task)
      (statements onlyWorker [none, none, none, none, none] ++
        [.sigint .main, .sigBroadcast .main] ++
        statements onlyWorker [none, none, none, none, none, none, none, none]) = .ok s ∧
      s.returned = [default] ∧ s.pushed = [] := ⟨_, rfl, rfl, rfl⟩
  have hprefix := (hall _ s hs).returned
  rw [hreturned, hpushed] at hprefix
  exact absurd hprefix (by decide)

end BallGame.Server
