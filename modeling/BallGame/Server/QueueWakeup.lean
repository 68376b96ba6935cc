import BallGame.Server.QueueSoundness

/-!
# No lost wakeup

One condition variable serves the main thread, which waits for a free slot, and the workers,
which wait for a task, and every push and every pop signals one arbitrary sleeper. While the
server runs this is enough. If a worker sleeps, then every task in the queue has a worker that
was woken for it, up to the operation of the thread inside (`Place.slack`); the main thread
sleeps only while the queue is full, and the pop that ends this wakes no worker, since there are
too few workers for a full queue and a sleeping one.
-/

namespace BallGame.Server

open Library

variable {n : Nat} {α : Type}

/-! ## The count of sleepers -/

namespace QueueMonitor

def asleep (s : QueueMonitor n α) : Nat :=
  Monitor.number Thread.worker .asleep s.monitor.waiting

/-- The workers that were woken and have not returned from their wait. -/
def woken (s : QueueMonitor n α) : Nat :=
  Monitor.number Thread.worker .woken s.monitor.waiting

/-- The value of `f` at the place of the thread that holds the mutex. -/
def held (s : QueueMonitor n α) (f : Place α → Nat) : Nat :=
  match s.monitor.holder with
  | some t => f (s.place t)
  | none => 0

theorem held_eq {s : QueueMonitor n α} {t : Thread n} (h : s.monitor.holder = some t)
    (f : Place α → Nat) : s.held f = f (s.place t) := by
  rw [held, h]

theorem held_none {s : QueueMonitor n α} (h : s.monitor.holder = none) (f : Place α → Nat) :
    s.held f = 0 := by
  rw [held, h]

end QueueMonitor

/-- A push has counted its task and has not signalled, or a worker has not yet taken the task
it was woken for. -/
def Place.slack : Place α → Nat
  | .pushSignal | .popTest | .popCheck | .popTake | .popFront _ | .popCount _ => 1
  | _ => 0

/-- A pop has made room and has not signalled. -/
def Place.owed : Place α → Nat
  | .popSignal _ => 1
  | _ => 0

/-- The state while the server runs. -/
structure QueueMonitor.Running (s : QueueMonitor n α) : Prop where
  keepRunning : s.keepRunning = true
  handling : ∀ t, s.handling t = false
  belongs : ∀ t, (s.place t).belongsTo t
  tracks : s.monitor.Tracks s.status
  consistent : ∃ xs, s.Consistent xs

structure QueueMonitor.Wakeful (s : QueueMonitor n α) : Prop where
  workers : 0 < s.asleep → s.queue.count ≤ s.woken + s.held Place.slack
  main : s.monitor.waiting .main = .asleep →
    s.queue.count + s.held Place.owed = taskQueueCapacity

/-! ## Steps -/

namespace QueueMonitor.Running

variable {s s' : QueueMonitor n α} {t : Thread n} {p p' : Place α}

theorem holder (h : s.Running) (hp : s.place t = p) (hstatus : p.status = .inside) :
    s.monitor.holder = some t := by
  obtain ⟨xs, hxs⟩ := h.consistent
  apply (hxs.exclusive t).mpr
  rw [QueueMonitor.status, hp, hstatus]

theorem held (h : s.Running) (hp : s.place t = p) (hstatus : p.status = .inside)
    (f : Place α → Nat) : s.held f = f p := by
  rw [held_eq (h.holder hp hstatus), hp]

/-- Whoever waits is the main thread or a worker. -/
theorem waits (h : s.Running) (hw : s.monitor.waiting t ≠ .no) :
    t = .main ∨ ∃ i, t = .worker i := by
  have hwait := (h.tracks t).mp hw
  have hbelongs := h.belongs t
  cases t with
  | main => exact Or.inl rfl
  | worker i => exact Or.inr ⟨i, rfl⟩
  | broadcaster =>
    rw [QueueMonitor.status, Place.outside_of_broadcaster hbelongs] at hwait
    cases hwait

theorem step (h : s.Running) {l : MonitorLabel n α} (hstep : Stepped s l s')
    (hrunning : s'.keepRunning = true) : s'.Running := by
  obtain ⟨xs, hxs⟩ := h.consistent
  have hkeeps : KeepsMutex s l := by
    cases l with
    | advance t choice =>
      intro hp
      have hcontent := hxs.content hp rfl
      rw [h.keepRunning] at hcontent
      cases hcontent.2
    | _ => trivial
  refine ⟨hrunning, ?_, belongsTo_step h.belongs hstep, tracks_step h.tracks hstep,
    consistent_step hxs hkeeps hstep⟩
  intro u
  cases hstep with
  | advance _ hadv =>
    have hu := h.handling u
    cases hadv <;> exact hu
  | loop _ _ _ => exact h.handling u
  | spurious _ => exact h.handling u
  | sigint _ => cases hrunning
  | sigBroadcast ht =>
    rw [h.handling] at ht
    cases ht

/-- A thread outside moves: the mutex stays with its holder. -/
theorem held_goto (h : s.Running) (hp : s.place t = p) (hstatus : p.status ≠ .inside)
    (f : Place α → Nat) : (s.goto t p').held f = s.held f := by
  unfold QueueMonitor.held
  cases hholder : s.monitor.holder with
  | none => simp [QueueMonitor.goto, hholder]
  | some u =>
    have hu : u ≠ t := by
      rintro rfl
      obtain ⟨xs, hxs⟩ := h.consistent
      have hin := (hxs.exclusive u).mp hholder
      rw [QueueMonitor.status, hp] at hin
      exact hstatus hin
    simp [QueueMonitor.goto, hholder, Function.update_of_ne hu]

end QueueMonitor.Running

theorem Looks.slack {queue : TaskQueue α} {p p' : Place α} (h : Looks queue true p p') :
    p'.slack = p.slack ∨ queue.count = 0 := by
  cases h with
  | popEmpty hzero => exact Or.inr hzero
  | popNoWait hstop => cases hstop
  | popStops hstop => cases hstop
  | _ => exact Or.inl rfl

theorem Looks.owed {queue : TaskQueue α} {keepRunning : Bool} {p p' : Place α}
    (h : Looks queue keepRunning p p') : p'.owed = p.owed := by
  cases h <;> rfl

theorem worker_injective : Function.Injective (Thread.worker : Fin n → Thread n) := by
  intro i j h
  cases h
  rfl

/-- A sleeping worker is woken. -/
theorem woken_wake_worker {m : Monitor (Thread n)} {i : Fin n}
    (h : m.waiting (.worker i) = .asleep) :
    Monitor.number Thread.worker .woken (m.wake (.worker i)).waiting =
      Monitor.number Thread.worker .woken m.waiting + 1 := by
  have hwoken := @Monitor.number_update _ _ _ .woken m.waiting _ worker_injective i .woken
  rw [h] at hwoken
  simpa [Monitor.wake] using hwoken

/-- Only the workers are counted. -/
theorem number_update_main {w x : Waiting} {waiting : Thread n → Waiting} :
    Monitor.number Thread.worker w (Function.update waiting .main x) =
      Monitor.number Thread.worker w waiting := by
  apply Monitor.number_update_of_ne
  intro i h
  cases h

namespace QueueMonitor.Wakeful

variable {s s' : QueueMonitor n α} {t : Thread n} {p p' : Place α}

/-- Nothing is counted and nobody waits or wakes. -/
theorem keep (h : s.Wakeful) (hwaiting : s'.monitor.waiting = s.monitor.waiting)
    (hcount : s'.queue.count = s.queue.count) (hslack : s.held Place.slack ≤ s'.held Place.slack)
    (howed : s'.held Place.owed = s.held Place.owed) : s'.Wakeful := by
  constructor
  · intro hpos
    unfold asleep woken at *
    rw [hwaiting] at hpos ⊢
    have hle := h.workers hpos
    unfold woken at hle
    omega
  · intro hmain
    rw [hwaiting] at hmain
    have heq := h.main hmain
    rw [hcount, howed, heq]

/-- The thread inside executes a statement that neither counts nor signals. -/
theorem stays (h : s.Wakeful) (hs : s.Running) (hs' : s'.Running) (hp : s.place t = p)
    (hp' : s'.place t = p') (hstatus : p.status = .inside) (hstatus' : p'.status = .inside)
    (hwaiting : s'.monitor.waiting = s.monitor.waiting)
    (hcount : s'.queue.count = s.queue.count) (hslack : p'.slack = p.slack)
    (howed : p'.owed = p.owed) : s'.Wakeful := by
  apply h.keep hwaiting hcount
  · rw [hs.held hp hstatus, hs'.held hp' hstatus', hslack]
  · rw [hs.held hp hstatus, hs'.held hp' hstatus', howed]

/-- Only the main thread begins or ends to wait. -/
theorem workers_of_main (h : s.Wakeful) {x : Waiting}
    (hwaiting : s'.monitor.waiting = Function.update s.monitor.waiting .main x)
    (hcount : s'.queue.count = s.queue.count) (hslack : s.held Place.slack ≤ s'.held Place.slack)
    (hpos : 0 < s'.asleep) : s'.queue.count ≤ s'.woken + s'.held Place.slack := by
  have hasleep : s'.asleep = s.asleep := by
    rw [asleep, hwaiting, number_update_main, asleep]
  have hwoken : s'.woken = s.woken := by
    rw [woken, hwaiting, number_update_main, woken]
  have hle := h.workers (by rwa [← hasleep])
  rw [hcount, hwoken]
  omega

/-- A worker is woken, for the task that the thread inside has counted. -/
theorem workers_of_worker (h : s.Wakeful) {i : Fin n}
    (hi : s.monitor.waiting (.worker i) = .asleep)
    (hwaiting : s'.monitor.waiting = (s.monitor.wake (.worker i)).waiting)
    (hcount : s'.queue.count = s.queue.count)
    (hslack : s.held Place.slack ≤ s'.held Place.slack + 1) :
    s'.queue.count ≤ s'.woken + s'.held Place.slack := by
  have hwoken : s'.woken = s.woken + 1 := by
    rw [woken, hwaiting, woken_wake_worker hi, woken]
  have hle := h.workers (Monitor.number_pos_iff.mpr ⟨i, hi⟩)
  rw [hcount, hwoken]
  omega

/-- Nobody sleeps. -/
theorem of_nobody (h : ∀ u, s.monitor.waiting u ≠ .asleep) : s.Wakeful := by
  constructor
  · intro hpos
    obtain ⟨i, hi⟩ := Monitor.number_pos_iff.mp hpos
    exact absurd hi (h _)
  · intro hmain
    exact absurd hmain (h .main)

/-- Somebody wakes by itself. -/
theorem spurious (h : s.Wakeful) (hs : s.Running) {u : Thread n}
    (hu : s.monitor.waiting u = .asleep) :
    ({ s with monitor := s.monitor.wake u } : QueueMonitor n α).Wakeful := by
  rcases hs.waits (t := u) (by simp [hu]) with rfl | ⟨i, rfl⟩
  · constructor
    · exact h.workers_of_main rfl rfl le_rfl
    · intro hmain
      simp [Monitor.wake] at hmain
  · constructor
    · intro _
      exact h.workers_of_worker hu rfl rfl (Nat.le_succ _)
    · intro hmain
      exact h.main (by simpa [Monitor.wake] using hmain)

/-- The main thread waits while the queue is full, a worker while it is empty. -/
theorem waits (h : s.Wakeful) (hs : s.Running) (hp : s.place t = p) (hwait : Waits p p') :
    ({ s.goto t p' with monitor := s.monitor.wait t } : QueueMonitor n α).Wakeful := by
  obtain ⟨xs, hxs⟩ := hs.consistent
  have hcontent := hxs.content hp hwait.status.1
  have hold := hs.held hp hwait.status.1
  have hnew : ∀ f,
      ({ s.goto t p' with monitor := s.monitor.wait t } : QueueMonitor n α).held f = 0 :=
    fun f => QueueMonitor.held_none rfl f
  cases hwait with
  | push task =>
    have ht : t = .main := Place.eq_main (hs.belongs t) (by rw [hp]; rfl)
    subst ht
    obtain ⟨hcount, hfull⟩ := hcontent
    constructor
    · refine h.workers_of_main rfl rfl ?_
      rw [hold, hnew]
      rfl
    · intro _
      rw [hnew]
      show s.queue.count + 0 = taskQueueCapacity
      omega
  | pop =>
    obtain ⟨i, rfl⟩ := Place.eq_worker (hs.belongs t) (by rw [hp]; rfl)
    obtain ⟨hcount, rfl⟩ := hcontent
    constructor
    · intro _
      show s.queue.count ≤ _
      simp only [List.length_nil] at hcount
      omega
    · intro hmain
      have heq := h.main (by simpa [Monitor.wait] using hmain)
      rw [hold] at heq
      rw [hnew]
      exact heq

theorem reenters (h : s.Wakeful) (hs : s.Running) {m : Monitor (Thread n)}
    (hs' : ({ s.goto t p' with monitor := m } : QueueMonitor n α).Running)
    (hp : s.place t = p) (hreenter : Reenters p p') (hm : s.monitor.reenter t = .ok m) :
    ({ s.goto t p' with monitor := m } : QueueMonitor n α).Wakeful := by
  obtain ⟨⟨hwoken, hfree⟩, rfl⟩ := Monitor.reenter_ok.mp hm
  have hold := QueueMonitor.held_none hfree
  have hnew := hs'.held (QueueMonitor.goto_place s t p') hreenter.status.2
  cases hreenter with
  | push task =>
    have ht : t = .main := Place.eq_main (hs.belongs t) (by rw [hp]; rfl)
    subst ht
    constructor
    · refine h.workers_of_main rfl rfl ?_
      rw [hold]
      exact Nat.zero_le _
    · intro hmain
      simp at hmain
  | pop =>
    obtain ⟨i, rfl⟩ := Place.eq_worker (hs.belongs t) (by rw [hp]; rfl)
    have hsame := @Monitor.number_update _ _ _ .asleep s.monitor.waiting _ worker_injective i .no
    have hless := @Monitor.number_update _ _ _ .woken s.monitor.waiting _ worker_injective i .no
    rw [hwoken] at hsame hless
    constructor
    · intro hpos
      have hle := h.workers (by unfold asleep at *; simp at hsame hpos; omega)
      rw [hold] at hle
      rw [hnew]
      unfold woken at *
      simp only [Place.slack, if_true] at hless ⊢
      simp at hless
      show s.queue.count ≤ _
      omega
    · intro hmain
      have heq := h.main (by simpa using hmain)
      rw [hold] at heq
      rw [hnew]
      exact heq

/-- A push wakes a worker, if one sleeps. -/
theorem signals_push (h : s.Wakeful) (hs : s.Running) {m : Monitor (Thread n)}
    {choice : Option (Thread n)}
    (hs' : ({ s.goto t .pushUnlock with monitor := m } : QueueMonitor n α).Running)
    (hp : s.place t = .pushSignal) (hm : s.monitor.signal choice = .ok m) :
    ({ s.goto t .pushUnlock with monitor := m } : QueueMonitor n α).Wakeful := by
  have ht : t = .main := Place.eq_main (hs.belongs t) (by rw [hp]; rfl)
  subst ht
  have hmain := waiting_eq_no hs.tracks hp (by simp [Place.status])
  have hold := hs.held hp rfl Place.slack
  have hnew := hs'.held (t := .main) (QueueMonitor.goto_place s .main .pushUnlock) rfl
    Place.slack
  rcases Monitor.signal_ok hm with ⟨u, hu, rfl⟩ | ⟨hnobody, rfl⟩
  · rcases hs.waits (t := u) (by simp [hu]) with rfl | ⟨i, rfl⟩
    · rw [hu] at hmain
      cases hmain
    · constructor
      · intro _
        refine h.workers_of_worker hu rfl rfl ?_
        rw [hold, hnew]
        rfl
      · intro hw
        simp [Monitor.wake, hmain] at hw
  · exact of_nobody hnobody

/-- A pop that ends the wait of the main thread finds no worker asleep: with one sleeping, more
than the other workers would have been woken. -/
theorem signals_pop (h : s.Wakeful) (hn : n ≤ taskQueueCapacity) (hs : s.Running)
    {m : Monitor (Thread n)} {choice : Option (Thread n)} {task : α}
    (hs' : ({ s.goto t (.popUnlock task) with monitor := m } : QueueMonitor n α).Running)
    (hp : s.place t = .popSignal task) (hm : s.monitor.signal choice = .ok m) :
    ({ s.goto t (.popUnlock task) with monitor := m } : QueueMonitor n α).Wakeful := by
  obtain ⟨j, rfl⟩ := Place.eq_worker (hs.belongs t) (by rw [hp]; rfl)
  have hawake := waiting_eq_no hs.tracks hp (by simp [Place.status])
  have hold := hs.held hp rfl
  have hnew := hs'.held (QueueMonitor.goto_place s (.worker j) (.popUnlock task)) rfl
  rcases Monitor.signal_ok hm with ⟨u, hu, rfl⟩ | ⟨hnobody, rfl⟩
  · rcases hs.waits (t := u) (by simp [hu]) with rfl | ⟨i, rfl⟩
    · constructor
      · refine h.workers_of_main rfl rfl ?_
        rw [hold, hnew]
        rfl
      · intro hmain
        simp [Monitor.wake] at hmain
    · constructor
      · intro _
        refine h.workers_of_worker hu rfl rfl ?_
        rw [hold, hnew]
        exact Nat.zero_le _
      · intro hmain
        have hpos : 0 < Monitor.number Thread.worker .asleep s.monitor.waiting :=
          Monitor.number_pos_iff.mpr ⟨i, hu⟩
        have hle := h.workers hpos
        have heq := h.main (by simpa [Monitor.wake] using hmain)
        rw [hold] at hle heq
        have hlt := Monitor.number_add_number_lt (f := Thread.worker) hawake
        unfold woken at hle
        simp only [Place.slack, Place.owed] at hle heq
        omega
  · exact of_nobody hnobody

theorem countUp (h : s.Wakeful) (hs : s.Running)
    (hs' : ({ s.goto t .pushSignal with
      queue := { s.queue with count := s.queue.count + 1 } } : QueueMonitor n α).Running)
    (hp : s.place t = .pushCount) :
    ({ s.goto t .pushSignal with
      queue := { s.queue with count := s.queue.count + 1 } } : QueueMonitor n α).Wakeful := by
  have hold := hs.held hp rfl Place.slack
  have hnew := hs'.held (QueueMonitor.goto_place s t .pushSignal) rfl Place.slack
  constructor
  · intro hpos
    have hle := h.workers hpos
    rw [hold] at hle
    rw [hnew]
    show s.queue.count + 1 ≤ (s.woken : Int) + 1
    simp only [Place.slack] at hle
    omega
  · intro hmain
    have ht : t = .main := Place.eq_main (hs.belongs t) (by rw [hp]; rfl)
    subst ht
    have hawake := waiting_eq_no hs.tracks hp (by simp [Place.status])
    rw [show s.monitor.waiting .main = .asleep from hmain] at hawake
    cases hawake

theorem countDown (h : s.Wakeful) (hs : s.Running) {task : α}
    (hs' : ({ s.goto t (.popSignal task) with
      queue := { s.queue with count := s.queue.count - 1 } } : QueueMonitor n α).Running)
    (hp : s.place t = .popCount task) :
    ({ s.goto t (.popSignal task) with
      queue := { s.queue with count := s.queue.count - 1 } } : QueueMonitor n α).Wakeful := by
  have hold := hs.held hp rfl
  have hnew := hs'.held (QueueMonitor.goto_place s t (.popSignal task)) rfl
  constructor
  · intro hpos
    have hle := h.workers hpos
    rw [hold] at hle
    rw [hnew]
    show s.queue.count - 1 ≤ (s.woken : Int) + 0
    simp only [Place.slack] at hle
    omega
  · intro hmain
    have heq := h.main hmain
    rw [hold] at heq
    rw [hnew]
    show s.queue.count - 1 + 1 = taskQueueCapacity
    simp only [Place.owed] at heq
    omega

end QueueMonitor.Wakeful

theorem wakeful_advanced (hn : n ≤ taskQueueCapacity) {s s' : QueueMonitor n α} {t : Thread n}
    {choice : Option (Thread n)} (hs : s.Running) (hs' : s'.Running) (hw : s.Wakeful)
    (h : Advanced s t choice s') : s'.Wakeful := by
  obtain ⟨xs, hxs⟩ := hs.consistent
  cases h with
  | @looks p p' hp h =>
    have hold := hs.held hp h.status.1
    have hnew := hs'.held (QueueMonitor.goto_place s t p') h.status.2
    rw [hs.keepRunning] at h
    rcases h.slack with hslack | hzero
    · exact hw.stays hs hs' hp (QueueMonitor.goto_place s t p') h.status.1 h.status.2 rfl rfl
        hslack h.owed
    · constructor
      · intro _
        show s.queue.count ≤ _
        omega
      · intro hmain
        have heq := hw.main hmain
        rw [hold] at heq
        rw [hnew, h.owed]
        exact heq
  | @walks p p' hp h =>
    have hheld : ∀ f, (s.goto t p').held f = s.held f :=
      hs.held_goto hp (by simp [h.outside])
    exact hw.keep rfl rfl (by rw [hheld]) (hheld _)
  | @locks p p' m hp h hm =>
    obtain ⟨hfree, rfl⟩ := Monitor.lock_ok.mp hm
    have hnew := hs'.held (QueueMonitor.goto_place s t p') h.status.2
    refine hw.keep rfl rfl ?_ ?_
    · rw [QueueMonitor.held_none hfree]
      omega
    · rw [QueueMonitor.held_none hfree, hnew]
      cases h <;> rfl
  | @unlocks p p' hp h =>
    have hold := hs.held hp h.status.1
    refine hw.keep rfl rfl ?_ ?_
    · rw [hold]
      cases h <;> simp [Place.slack]
    · rw [hold, QueueMonitor.held_none rfl]
      cases h <;> rfl
  | earlyUnlock hp =>
    have hcontent := hxs.content hp rfl
    rw [hs.keepRunning] at hcontent
    cases hcontent.2
  | waits hp h => exact hw.waits hs hp h
  | reenters hp h hm => exact hw.reenters hs hs' hp h hm
  | signals hp h hm =>
    cases h with
    | push => exact hw.signals_push hs hs' hp hm
    | pop task => exact hw.signals_pop hn hs hs' hp hm
  | store hp _ =>
    exact hw.stays hs hs' hp (QueueMonitor.goto_place s t _) rfl rfl rfl rfl rfl rfl
  | rear hp =>
    exact hw.stays hs hs' hp (QueueMonitor.goto_place s t _) rfl rfl rfl rfl rfl rfl
  | front hp =>
    exact hw.stays hs hs' hp (QueueMonitor.goto_place s t _) rfl rfl rfl rfl rfl rfl
  | countUp hp => exact hw.countUp hs hs' hp
  | countDown hp => exact hw.countDown hs hs' hp

theorem wakeful_step (hn : n ≤ taskQueueCapacity) {s s' : QueueMonitor n α}
    {l : MonitorLabel n α} (hs : s.Running) (hs' : s'.Running) (hw : s.Wakeful)
    (h : Stepped s l s') : s'.Wakeful := by
  cases h with
  | advance _ h => exact wakeful_advanced hn hs hs' hw h
  | @loop _ p _ hp h =>
    have hheld : ∀ f, (s.goto .main p).held f = s.held f :=
      hs.held_goto hp (by simp [Place.status])
    exact hw.keep rfl rfl (by rw [hheld]) (hheld _)
  | spurious hm =>
    obtain ⟨hu, rfl⟩ := Monitor.spurious_ok.mp hm
    exact hw.spurious hs hu
  | sigint _ => cases hs'.keepRunning
  | sigBroadcast ht =>
    rw [hs.handling] at ht
    cases ht

/-- Nothing sets the flag again. -/
theorem keepRunning_of_stepped {s s' : QueueMonitor n α} {l : MonitorLabel n α}
    (h : Stepped s l s') (hs' : s'.keepRunning = true) : s.keepRunning = true := by
  cases h with
  | advance _ h => cases h <;> exact hs'
  | sigint _ => cases hs'
  | _ => exact hs'

theorem monitorStart_running [Inhabited α] : (monitorStart : QueueMonitor n α).Running :=
  ⟨rfl, fun _ => rfl, monitorStart_belongsTo, monitorStart_tracks, [], monitorStart_consistent⟩

theorem monitorStart_wakeful [Inhabited α] : (monitorStart : QueueMonitor n α).Wakeful := by
  constructor
  · intro _
    show (0 : Int) ≤ _
    omega
  · intro h
    cases h

/-- While the server runs. -/
theorem wakeful_of_run [Inhabited α] (hn : n ≤ taskQueueCapacity) {ls : List (MonitorLabel n α)}
    {s : QueueMonitor n α} (hrun : run monitorStep monitorStart ls = .ok s)
    (hrunning : s.keepRunning = true) : s.Running ∧ s.Wakeful := by
  have hinv := run_invariant (I := fun u : QueueMonitor n α =>
    u.keepRunning = true → u.Running ∧ u.Wakeful) ?_ ?_ hrun
  · exact hinv hrunning
  · intro u l u' hu hstep hu'
    have hstepped := stepped_of_step hstep
    obtain ⟨hr, hw⟩ := hu (keepRunning_of_stepped hstepped hu')
    have hr' := hr.step hstepped hu'
    exact ⟨hr', wakeful_step hn hr hr' hw hstepped⟩
  · intro _
    exact ⟨monitorStart_running, monitorStart_wakeful⟩

/-! ## A sleeper that need not wait -/

/-- The condition of the loop in which the thread waits. -/
def QueueMonitor.mustWait (s : QueueMonitor n α) : Thread n → Prop
  | .main => s.queue.count = taskQueueCapacity
  | .worker _ => s.queue.count = 0 ∧ s.keepRunning = true
  | .broadcaster => False

/-- How the count changes until the mutex is released. -/
def Place.change : Place α → Int
  | .pushTest _ | .pushStore _ | .pushRear _ | .pushCount => 1
  | .popTest | .popCheck | .popTake | .popFront _ | .popCount _ => -1
  | _ => 0

/-- The number of statements until the mutex is released, at most. -/
def Place.remaining : Place α → Nat
  | .popTest => 7
  | .pushTest _ | .popCheck => 6
  | .pushStore _ | .popTake => 5
  | .pushRear _ | .popFront _ => 4
  | .pushCount | .popCount _ => 3
  | .pushSignal | .popSignal _ => 2
  | .pushWait _ | .pushUnlock | .popWait | .popUnlock _ => 1
  | _ => 0

/-- The thread at `p` inside has `count` tasks before it. -/
def Place.distance (p : Place α) (count : Int) : Nat :=
  (8 * (count + p.change) + p.remaining).toNat

def QueueMonitor.distance (s : QueueMonitor n α) : Nat :=
  match s.monitor.holder with
  | some t => (s.place t).distance s.queue.count
  | none => (8 * s.queue.count).toNat

/-- Nothing keeps the thread inside from its next statement. -/
theorem QueueMonitor.Running.exists_advance {s : QueueMonitor n α} (hs : s.Running)
    {t : Thread n} (ht : s.monitor.holder = some t) :
    ∃ choice s', s.advance t choice = .ok s' := by
  obtain ⟨xs, hxs⟩ := hs.consistent
  have hin := (hxs.exclusive t).mp ht
  rw [QueueMonitor.status] at hin
  obtain ⟨choice, m, hm⟩ := Monitor.exists_signal s.monitor
  refine ⟨choice, ?_⟩
  unfold QueueMonitor.advance
  cases hp : s.place t with
  | pushStore task => exact ⟨_, dif_pos hxs.ring.rear_lt⟩
  | popTake => exact ⟨_, dif_pos hxs.ring.front_lt⟩
  | pushSignal =>
    rw [hm]
    exact ⟨_, rfl⟩
  | popSignal task =>
    rw [hm]
    exact ⟨_, rfl⟩
  | mainTest | mainLoop | pushLock _ | pushWaiting _ | joining _ | joiningBroadcaster
  | workerTest | executing _ | popLock | popWaiting | broadcasting | exited =>
    rw [hp] at hin
    cases hin
  | _ => exact ⟨_, rfl⟩

theorem QueueMonitor.Running.distance {s : QueueMonitor n α} (hs : s.Running) {t : Thread n}
    {p : Place α} (hp : s.place t = p) (hstatus : p.status = .inside) :
    s.distance = p.distance s.queue.count := by
  rw [QueueMonitor.distance, hs.holder hp hstatus, ← hp]

theorem Looks.closer {queue : TaskQueue α} {p p' : Place α} {xs : List α}
    (h : Looks queue true p p') (hp : p.Content queue true xs) (hcount : 0 < queue.count) :
    p'.distance queue.count < p.distance queue.count := by
  cases h with
  | popEmpty hzero => omega
  | popMustWait _ =>
    obtain ⟨hlen, rfl⟩ := hp
    simp only [List.length_nil] at hlen
    omega
  | popNoWait hstop => cases hstop
  | popStops hstop => cases hstop
  | _ =>
    simp only [Place.distance, Place.change, Place.remaining]
    omega

/-- With a task in the queue every statement inside brings the end of the operation closer. -/
theorem closer_advanced {s s' : QueueMonitor n α} {t : Thread n} {choice : Option (Thread n)}
    (hs : s.Running) (hs' : s'.Running) (ht : s.status t = .inside)
    (hcount : 0 < s.queue.count) (h : Advanced s t choice s') : s'.distance < s.distance := by
  obtain ⟨xs, hxs⟩ := hs.consistent
  have hcontent := hxs.inside t ht
  cases h with
  | @looks p p' hp h =>
    rw [hs.distance hp h.status.1, hs'.distance (QueueMonitor.goto_place s t p') h.status.2]
    rw [hs.keepRunning, hp] at hcontent
    rw [hs.keepRunning] at h
    exact h.closer hcontent hcount
  | walks hp h =>
    rw [QueueMonitor.status, hp, h.outside] at ht
    cases ht
  | locks hp h _ =>
    rw [QueueMonitor.status, hp, h.status.1] at ht
    cases ht
  | @unlocks p p' hp h =>
    rw [hs.distance hp h.status.1]
    show (8 * s.queue.count).toNat < _
    cases h <;> simp only [Place.distance, Place.change, Place.remaining] <;> omega
  | earlyUnlock hp =>
    rw [hs.keepRunning, hp] at hcontent
    cases hcontent.2
  | waits hp h =>
    rw [hs.distance hp h.status.1]
    show (8 * s.queue.count).toNat < _
    cases h <;> simp only [Place.distance, Place.change, Place.remaining] <;> omega
  | reenters hp h _ =>
    rw [QueueMonitor.status, hp, h.status.1] at ht
    cases ht
  | @signals p p' m hp h hm =>
    rw [hs.distance hp h.status.1, hs'.distance (QueueMonitor.goto_place s t p') h.status.2]
    show p'.distance s.queue.count < _
    cases h <;> simp only [Place.distance, Place.change, Place.remaining] <;> omega
  | @store task hp _ =>
    rw [hs.distance hp rfl, hs'.distance (p := .pushRear task) (QueueMonitor.goto_place s t _) rfl]
    show Place.distance (.pushRear task) s.queue.count < _
    simp only [Place.distance, Place.change, Place.remaining]
    omega
  | rear hp =>
    rw [hs.distance hp rfl, hs'.distance (p := .pushCount) (QueueMonitor.goto_place s t _) rfl]
    show Place.distance .pushCount s.queue.count < _
    simp only [Place.distance, Place.change, Place.remaining]
    omega
  | countUp hp =>
    rw [hs.distance hp rfl, hs'.distance (p := .pushSignal) (QueueMonitor.goto_place s t _) rfl]
    show Place.distance .pushSignal (s.queue.count + 1) < _
    simp only [Place.distance, Place.change, Place.remaining]
    omega
  | @front task hp =>
    rw [hs.distance hp rfl, hs'.distance (p := .popCount task) (QueueMonitor.goto_place s t _) rfl]
    show Place.distance (.popCount task) s.queue.count < _
    simp only [Place.distance, Place.change, Place.remaining]
    omega
  | @countDown task hp =>
    rw [hs.distance hp rfl, hs'.distance (p := .popSignal task) (QueueMonitor.goto_place s t _) rfl]
    show Place.distance (.popSignal task) (s.queue.count - 1) < _
    simp only [Place.distance, Place.change, Place.remaining]
    omega

/-- A worker that was woken is in `pthread_cond_wait` of `task_queue_pop`. -/
theorem QueueMonitor.Running.popWaiting {s : QueueMonitor n α} (hs : s.Running) {i : Fin n}
    (hi : s.monitor.waiting (.worker i) = .woken) : s.place (.worker i) = .popWaiting := by
  have hwait := (hs.tracks (.worker i)).mp (by simp [hi])
  have hbelongs := hs.belongs (.worker i)
  rw [QueueMonitor.status] at hwait
  cases hp : s.place (.worker i) with
  | popWaiting => rfl
  | pushWaiting task =>
    rw [hp] at hbelongs
    exact False.elim hbelongs
  | _ =>
    rw [hp] at hwait
    cases hwait

theorem QueueMonitor.Running.count_nonneg {s : QueueMonitor n α} (hs : s.Running) :
    0 ≤ s.queue.count := by
  obtain ⟨xs, hxs⟩ := hs.consistent
  exact hxs.sound.count.1

theorem keepRunning_advanced {s s' : QueueMonitor n α} {t : Thread n}
    {choice : Option (Thread n)} (h : Advanced s t choice s') :
    s'.keepRunning = s.keepRunning := by
  cases h <;> rfl

theorem QueueMonitor.Running.monitorStep_advance {s s' : QueueMonitor n α} (hs : s.Running)
    {t : Thread n} {choice : Option (Thread n)} (h : s.advance t choice = .ok s') :
    monitorStep s (.advance t choice) = .ok s' ∧ s'.Running := by
  have hstep : monitorStep s (.advance t choice) = .ok s' := by
    rw [← h, monitorStep, hs.handling t]
    rfl
  refine ⟨hstep, hs.step (stepped_of_step hstep) ?_⟩
  rw [keepRunning_advanced (advanced_of_advance h), hs.keepRunning]

/-- A sleeper that need not wait is about to be woken, or somebody else can bring it closer to
that. -/
theorem exists_closer {s : QueueMonitor n α} (hs : s.Running) (hw : s.Wakeful) {t : Thread n}
    (ht : s.monitor.waiting t = .asleep) (hneed : ¬ s.mustWait t) :
    ∃ u choice s', u ≠ t ∧ monitorStep s (.advance u choice) = .ok s' ∧ s'.Running ∧
      (s'.monitor.waiting t ≠ .asleep ∨ s'.distance < s.distance) := by
  obtain ⟨xs, hxs⟩ := hs.consistent
  have hinside : ∀ u, s.monitor.holder = some u → u ≠ t := by
    rintro u hu rfl
    have hin := (hxs.exclusive u).mp hu
    rw [(hs.tracks u).mp (by simp [ht])] at hin
    cases hin
  rcases hs.waits (t := t) (by simp [ht]) with rfl | ⟨j, rfl⟩
  · -- room was made, and the signal for it is the next statement of the thread inside
    have heq := hw.main ht
    have hroom : s.queue.count ≠ taskQueueCapacity := hneed
    cases hholder : s.monitor.holder with
    | none =>
      rw [QueueMonitor.held_none hholder] at heq
      exact absurd (by simpa using heq) hroom
    | some u =>
      rw [QueueMonitor.held_eq hholder] at heq
      obtain ⟨task, hp⟩ : ∃ task, s.place u = .popSignal task := by
        cases hp : s.place u with
        | popSignal task => exact ⟨task, rfl⟩
        | _ =>
          rw [hp] at heq
          exact absurd (by simpa [Place.owed] using heq) hroom
      have hadvance : s.advance u (some .main) =
          .ok { s.goto u (.popUnlock task) with monitor := s.monitor.wake .main } := by
        simp only [QueueMonitor.advance, hp, Monitor.signal, Monitor.spurious_ok.mpr ⟨ht, rfl⟩]
        rfl
      obtain ⟨hstep, hs'⟩ := hs.monitorStep_advance hadvance
      exact ⟨u, _, _, hinside u hholder, hstep, hs', Or.inl (by simp [Monitor.wake])⟩
  · have hcount : 0 < s.queue.count := by
      have hnonneg := hs.count_nonneg
      have hne : ¬ s.queue.count = 0 := fun he => hneed ⟨he, hs.keepRunning⟩
      omega
    cases hholder : s.monitor.holder with
    | some u =>
      obtain ⟨choice, s', hadvance⟩ := hs.exists_advance hholder
      obtain ⟨hstep, hs'⟩ := hs.monitorStep_advance hadvance
      refine ⟨u, choice, s', hinside u hholder, hstep, hs', Or.inr ?_⟩
      have hin := (hxs.exclusive u).mp hholder
      exact closer_advanced hs hs' hin hcount (advanced_of_advance hadvance)
    | none =>
      -- a worker that was woken for a task takes the mutex
      have hle := hw.workers (Monitor.number_pos_iff.mpr ⟨j, ht⟩)
      rw [QueueMonitor.held_none hholder] at hle
      obtain ⟨i, hi⟩ := Monitor.number_pos_iff.mp (show 0 < s.woken by omega)
      have hp := hs.popWaiting hi
      obtain ⟨m, hm⟩ : ∃ m, s.monitor.reenter (.worker i) = .ok m :=
        ⟨_, Monitor.reenter_ok.mpr ⟨⟨hi, hholder⟩, rfl⟩⟩
      have hadvance : s.advance (.worker i) none =
          .ok { s.goto (.worker i) .popTest with monitor := m } := by
        simp only [QueueMonitor.advance, hp, hm]
        rfl
      obtain ⟨hstep, hs'⟩ := hs.monitorStep_advance hadvance
      refine ⟨.worker i, none, _, ?_, hstep, hs', Or.inr ?_⟩
      · intro he
        rw [he, ht] at hi
        cases hi
      · rw [hs'.distance (p := .popTest) (QueueMonitor.goto_place s _ _) rfl,
          QueueMonitor.distance, hholder]
        show Place.distance .popTest s.queue.count < _
        simp only [Place.distance, Place.change, Place.remaining]
        omega

/-- No sleeper is forgotten. -/
theorem exists_wakeup (hn : n ≤ taskQueueCapacity) {s : QueueMonitor n α} (hs : s.Running)
    (hw : s.Wakeful) (t : Thread n) :
    ∃ ls s', run monitorStep s ls = .ok s' ∧
      (∀ l ∈ ls, ∃ u choice, l = .advance u choice ∧ u ≠ t) ∧
      (s'.monitor.waiting t ≠ .asleep ∨ s'.mustWait t) := by
  apply exists_run_of_closer (I := fun u => u.Running ∧ u.Wakeful) (M := QueueMonitor.distance) _
    ⟨hs, hw⟩
  intro u hu hdone
  obtain ⟨hasleep, hneed⟩ := not_or.mp hdone
  obtain ⟨v, choice, u', hv, hstep, hu', hcloser⟩ :=
    exists_closer hu.1 hu.2 (Classical.not_not.mp hasleep) hneed
  refine ⟨.advance v choice, u', ⟨v, choice, rfl, hv⟩, hstep, ?_, ?_⟩
  · exact ⟨hu', wakeful_step hn hu.1 hu' hu.2 (stepped_of_step hstep)⟩
  · rcases hcloser with hawake | hlt
    · exact Or.inl (Or.inl hawake)
    · exact Or.inr hlt

/-- **No lost wakeup.** With one producer, at most `taskQueueCapacity` workers and the flag set,
whenever the mutex is free: if a worker sleeps, then at least as many workers were woken and
have not yet returned from their wait as there are tasks, so the workers do not all sleep with
a task in the queue; and the main thread sleeps only while the queue is full. A thread that
sleeps although it need not wait can always be woken, or its wait become necessary again, by
the statements of other threads alone. -/
theorem no_lost_wakeup [Inhabited α] (hn : n ≤ taskQueueCapacity)
    (ls : List (MonitorLabel n α)) (s : QueueMonitor n α)
    (hrun : run monitorStep monitorStart ls = .ok s) (hrunning : s.keepRunning = true) :
    (s.monitor.holder = none →
      ((∃ i, s.monitor.waiting (.worker i) = .asleep) → s.queue.count ≤ s.woken) ∧
      ¬ (0 < n ∧ 0 < s.queue.count ∧ ∀ i, s.monitor.waiting (.worker i) = .asleep) ∧
      (s.monitor.waiting .main = .asleep → s.queue.count = taskQueueCapacity)) ∧
    ∀ t, s.monitor.waiting t = .asleep → ¬ s.mustWait t →
      ∃ ls' s', run monitorStep s ls' = .ok s' ∧
        (∀ l ∈ ls', ∃ u choice, l = .advance u choice ∧ u ≠ t) ∧
        (s'.monitor.waiting t ≠ .asleep ∨ s'.mustWait t) := by
  obtain ⟨hs, hw⟩ := wakeful_of_run hn hrun hrunning
  refine ⟨?_, fun t _ _ => exists_wakeup hn hs hw t⟩
  intro hfree
  have hworkers : (∃ i, s.monitor.waiting (.worker i) = .asleep) → s.queue.count ≤ s.woken := by
    intro hasleep
    have hle := hw.workers (Monitor.number_pos_iff.mpr hasleep)
    rw [QueueMonitor.held_none hfree] at hle
    exact hle
  refine ⟨hworkers, ?_, ?_⟩
  · rintro ⟨hpos, hcount, hall⟩
    have hle := hworkers ⟨⟨0, hpos⟩, hall _⟩
    obtain ⟨i, hi⟩ := Monitor.number_pos_iff.mp (show 0 < s.woken by omega)
    rw [hall i] at hi
    cases hi
  · intro hmain
    have heq := hw.main hmain
    rw [QueueMonitor.held_none hfree] at heq
    simpa using heq

/-- Two workers sleep when a task is pushed. One of them is woken for it. -/
theorem no_lost_wakeup_two_workers :
    ∃ s, run monitorStep (monitorStart : QueueMonitor 2 Task)
        (statements (.worker 0) [none, none, none, none, none] ++
          statements (.worker 1) [none, none, none, none, none] ++
          [.advance .main none, .receive ⟨4, ['w'], 1⟩] ++
          statements .main [none, none, none, none, none, some (.worker 1), none]) = .ok s ∧
      s.queue.count = 1 ∧ s.monitor.waiting (.worker 0) = .asleep ∧ s.queue.count ≤ s.woken := by
  obtain ⟨s, hs, hrunning, hfree, hcount, hasleep⟩ : ∃ s,
      run monitorStep (monitorStart : QueueMonitor 2 Task)
        (statements (.worker 0) [none, none, none, none, none] ++
          statements (.worker 1) [none, none, none, none, none] ++
          [.advance .main none, .receive ⟨4, ['w'], 1⟩] ++
          statements .main [none, none, none, none, none, some (.worker 1), none]) = .ok s ∧
      s.keepRunning = true ∧ s.monitor.holder = none ∧ s.queue.count = 1 ∧
      s.monitor.waiting (.worker 0) = .asleep := ⟨_, rfl, rfl, rfl, rfl, rfl⟩
  exact ⟨s, hs, hcount, hasleep,
    ((no_lost_wakeup (by decide) _ s hs hrunning).1 hfree).1 ⟨0, hasleep⟩⟩

end BallGame.Server
