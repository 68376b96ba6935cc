import BallGame.Server.QueueMonitor
import Mathlib.Algebra.Order.BigOperators.Group.Finset

/-!
# Shutdown and the sleeping threads

`handle_sigint` broadcasts once and without the mutex. A thread that tested `keep_running`
before, or the main thread before a full queue, may sleep after the broadcast, and is woken
only by the signal of a push or a pop that is under way. While every thread that sleeps after
the handler leaves such an operation behind, no thread is stranded; a thread that sleeps
without one is stranded by the schedule in which the others finish.
-/

namespace BallGame.Server

open Library

variable {n : Nat} {α : Type}

/-! ## Stranded threads -/

namespace QueueMonitor

/-- The handler ran, and runs no more. -/
def HandlerDone (s : QueueMonitor n α) : Prop :=
  s.keepRunning = false ∧ ∀ t, s.handling t = false

/-- In a push or a pop, awake, with the signal still to come. -/
def Active (s : QueueMonitor n α) (t : Thread n) : Prop :=
  (s.place t).pending = true ∧ s.monitor.waiting t ≠ .asleep

/-- Waiting in `pthread_join` for a worker that sleeps. -/
def JoinsSleeper (s : QueueMonitor n α) (t : Thread n) : Prop :=
  ∃ k : Fin n, s.place t = .joining k ∧ s.monitor.waiting (.worker k) = .asleep

/-- Everybody but `t` has exited, sleeps, or joins a sleeper. -/
def Alone (s : QueueMonitor n α) (t : Thread n) : Prop :=
  ∀ u, u ≠ t → s.place u = .exited ∨ s.monitor.waiting u = .asleep ∨ s.JoinsSleeper u

def Stranded (s : QueueMonitor n α) : Prop := ∃ t, s.monitor.waiting t = .asleep ∧ s.Alone t

end QueueMonitor

/-- The next statement is `pthread_cond_wait`. -/
def Place.sleeps : Place α → Bool
  | .pushWait _ | .popWait => true
  | _ => false

theorem Waits.sleeps {p p' : Place α} (h : Waits p p') : p.sleeps = true := by
  cases h <;> rfl

/-- A thread that goes to sleep after the handler leaves an active thread behind. -/
def SafeSleep (s : QueueMonitor n α) : MonitorLabel n α → Prop
  | .advance t _ => s.HandlerDone → (s.place t).sleeps = true → ∃ u, u ≠ t ∧ s.Active u
  | _ => True

/-- After the handler, some thread is active while somebody sleeps. -/
def QueueMonitor.Attended (s : QueueMonitor n α) : Prop :=
  s.HandlerDone → (∃ t, s.monitor.waiting t = .asleep) → ∃ u, s.Active u

theorem Place.status_of_pending {p : Place α} (h : p.pending = false) : p.status ≠ .waiting := by
  cases p <;> simp [pending, status] at h ⊢

/-- Whoever sleeps is in a push or a pop. -/
theorem pending_of_waiting {s : QueueMonitor n α} (h : s.monitor.Tracks s.status)
    {t : Thread n} (ht : s.monitor.waiting t ≠ .no) : (s.place t).pending = true := by
  by_contra hne
  exact Place.status_of_pending (Bool.eq_false_iff.mpr hne) ((h t).mp ht)

theorem QueueMonitor.Attended.not_stranded {s : QueueMonitor n α} (h : s.Attended)
    (hdone : s.HandlerDone) : ¬ s.Stranded := by
  intro hstranded
  obtain ⟨t, ht, hothers⟩ := hstranded
  obtain ⟨u, hpending, hawake⟩ := h hdone ⟨t, ht⟩
  have hne : u ≠ t := by
    rintro rfl
    exact hawake ht
  rcases hothers u hne with hexited | hasleep | ⟨k, hjoin, _⟩
  · rw [hexited] at hpending
    cases hpending
  · exact hawake hasleep
  · rw [hjoin] at hpending
    cases hpending

/-! ## Steps -/

/-- An active thread that does not move stays active. -/
theorem QueueMonitor.Active.congr {s s' : QueueMonitor n α} {u : Thread n} (h : s.Active u)
    (hplace : s'.place u = s.place u) (hwaiting : s'.monitor.waiting u = s.monitor.waiting u) :
    s'.Active u := by
  unfold QueueMonitor.Active
  rw [hplace, hwaiting]
  exact h

/-- A thread moves within its push or pop, or outside of them, and nobody goes to sleep. -/
theorem QueueMonitor.Attended.move {s s' : QueueMonitor n α} (h : s.Attended) {t : Thread n}
    {p' : Place α} (hdone : s'.HandlerDone → s.HandlerDone)
    (hplace : s'.place = Function.update s.place t p')
    (hpending : (s.place t).pending = false ∨ p'.pending = true ∧ s'.monitor.waiting t ≠ .asleep)
    (hwaiting : ∀ u, u ≠ t → s'.monitor.waiting u = s.monitor.waiting u)
    (hsleep : s'.monitor.waiting t = .asleep → s.monitor.waiting t = .asleep) : s'.Attended := by
  intro hdone' hasleep
  rcases hpending with hout | ⟨hin, hawake⟩
  · obtain ⟨v, hv⟩ := hasleep
    have hold : s.monitor.waiting v = .asleep := by
      by_cases hvt : v = t
      · subst hvt
        exact hsleep hv
      · rw [← hwaiting v hvt]
        exact hv
    obtain ⟨u, hu⟩ := h (hdone hdone') ⟨v, hold⟩
    have hne : u ≠ t := by
      rintro rfl
      have hpending := hu.1
      rw [hout] at hpending
      cases hpending
    exact ⟨u, hu.congr (by rw [hplace, Function.update_of_ne hne]) (hwaiting u hne)⟩
  · refine ⟨t, ?_, hawake⟩
    rw [hplace, Function.update_self]
    exact hin

/-- A thread that is awake in its push or pop goes on there. -/
theorem QueueMonitor.Attended.stays {s s' : QueueMonitor n α} (h : s.Attended)
    (htracks : s.monitor.Tracks s.status) {t : Thread n} {p p' : Place α} (hp : s.place t = p)
    (hstatus : p.status ≠ .waiting) (hdone : s'.HandlerDone → s.HandlerDone)
    (hplace : s'.place = Function.update s.place t p')
    (hwaiting : s'.monitor.waiting = s.monitor.waiting) (hpending : p'.pending = true) :
    s'.Attended := by
  have hawake : s'.monitor.waiting t = .no := by
    rw [hwaiting]
    exact waiting_eq_no htracks hp hstatus
  apply h.move hdone hplace (Or.inr ⟨hpending, by simp [hawake]⟩)
  · intro u _
    rw [hwaiting]
  · intro hasleep
    rwa [← hwaiting]

/-- Whoever is woken is active. -/
theorem active_of_woken {s s' : QueueMonitor n α} (hs : s.monitor.Tracks s.status)
    {u : Thread n} (hu : s.monitor.waiting u = .asleep) (hplace : s'.place u = s.place u)
    (hwoken : s'.monitor.waiting u = .woken) : s'.Active u := by
  refine ⟨?_, by simp [hwoken]⟩
  rw [hplace]
  exact pending_of_waiting hs (by simp [hu])

theorem handlerDone_advanced {s s' : QueueMonitor n α} {t : Thread n}
    {choice : Option (Thread n)} (h : Advanced s t choice s') (hdone : s'.HandlerDone) :
    s.HandlerDone := by
  cases h <;> exact hdone

theorem Walks.attended {s : QueueMonitor n α} {t : Thread n} {p p' : Place α} (h : Walks p p')
    (hp : s.place t = p) (hs : s.Attended) : (s.goto t p').Attended := by
  refine hs.move id rfl (Or.inl ?_) (fun _ _ => rfl) id
  rw [hp, h.pending]

/-- Every statement keeps an active thread while somebody sleeps. -/
theorem attended_advanced {s s' : QueueMonitor n α} {t : Thread n} {choice : Option (Thread n)}
    (htracks : s.monitor.Tracks s.status) (hs : s.Attended)
    (hsafe : SafeSleep s (.advance t choice)) (h : Advanced s t choice s') : s'.Attended := by
  have hdone := handlerDone_advanced h
  cases h with
  | looks hp h =>
    refine hs.stays htracks hp (by simp [h.status]) hdone rfl rfl ?_
    cases h <;> rfl
  | walks hp h => exact h.attended hp hs
  | locks hp h hm =>
    obtain ⟨_, rfl⟩ := Monitor.lock_ok.mp hm
    refine hs.stays htracks hp (by simp [h.status]) hdone rfl rfl ?_
    cases h <;> rfl
  | unlocks hp h =>
    refine hs.move hdone rfl (Or.inl ?_) (fun _ _ => rfl) id
    rw [hp]
    cases h <;> rfl
  | earlyUnlock hp => exact hs.stays htracks hp (by simp [Place.status]) hdone rfl rfl rfl
  | waits hp h =>
    intro hdone' _
    obtain ⟨u, hne, hu⟩ := hsafe (hdone hdone') (by rw [hp, h.sleeps])
    refine ⟨u, hu.congr ?_ ?_⟩
    · exact Function.update_of_ne hne _ _
    · exact Function.update_of_ne hne _ _
  | @reenters p p' m hp h hm =>
    obtain ⟨_, rfl⟩ := Monitor.reenter_ok.mp hm
    refine hs.move hdone rfl (Or.inr ⟨?_, by simp⟩) ?_ (by simp)
    · cases h <;> rfl
    · intro u hne
      exact Function.update_of_ne hne _ _
  | @signals p p' m hp h hm =>
    have ht := waiting_eq_no htracks hp (by simp [h.status])
    intro _ hasleep
    rcases Monitor.signal_ok hm with ⟨u, hu, rfl⟩ | ⟨hnobody, rfl⟩
    · refine ⟨u, active_of_woken htracks hu ?_ (by simp [Monitor.wake])⟩
      apply Function.update_of_ne
      rintro rfl
      rw [hu] at ht
      cases ht
    · obtain ⟨v, hv⟩ := hasleep
      exact absurd hv (hnobody v)
  | store hp _ => exact hs.stays htracks hp (by simp [Place.status]) hdone rfl rfl rfl
  | rear hp => exact hs.stays htracks hp (by simp [Place.status]) hdone rfl rfl rfl
  | countUp hp => exact hs.stays htracks hp (by simp [Place.status]) hdone rfl rfl rfl
  | front hp => exact hs.stays htracks hp (by simp [Place.status]) hdone rfl rfl rfl
  | countDown hp => exact hs.stays htracks hp (by simp [Place.status]) hdone rfl rfl rfl

theorem attended_step {s s' : QueueMonitor n α} {l : MonitorLabel n α}
    (htracks : s.monitor.Tracks s.status) (hs : s.Attended) (hsafe : SafeSleep s l)
    (h : Stepped s l s') : s'.Attended := by
  cases h with
  | advance _ h => exact attended_advanced htracks hs hsafe h
  | loop _ hp h => exact h.attended hp hs
  | @spurious u m hm =>
    obtain ⟨hu, rfl⟩ := Monitor.spurious_ok.mp hm
    intro _ _
    exact ⟨u, active_of_woken htracks hu rfl (by simp [Monitor.wake])⟩
  | @sigint t _ =>
    intro hdone _
    have hrunning := hdone.2 t
    simp at hrunning
  | sigBroadcast _ =>
    intro _ hasleep
    obtain ⟨t, ht⟩ := hasleep
    simp only [Monitor.broadcast] at ht
    split at ht
    · cases ht
    · exact absurd ht ‹_›

theorem monitorStart_attended [Inhabited α] : (monitorStart : QueueMonitor n α).Attended := by
  intro hdone
  cases hdone.1

/-! ## The schedule that strands a sleeper -/

/-- Somebody sleeps, and nobody is left to signal. -/
structure QueueMonitor.Forsaken (s : QueueMonitor n α) (t : Thread n) : Prop where
  done : s.HandlerDone
  belongs : ∀ u, (s.place u).belongsTo u
  tracks : s.monitor.Tracks s.status
  sleeps : s.monitor.waiting t = .asleep
  inactive : ∀ u, ¬ s.Active u

/-- A bound on the statements to the end of the thread, outside of push and pop and without
another round of `main`. -/
def Place.left (n : Nat) : Place α → Nat
  | .pushUnlock => n + 5
  | .mainLoop => n + 4
  | .mainTest => n + 3
  | .joining k => n - k + 2
  | .popUnlock _ => 3
  | .executing _ => 2
  | .joiningBroadcaster | .workerTest | .broadcasting => 1
  | _ => 0

def QueueMonitor.left (s : QueueMonitor n α) : Nat := ∑ u, (s.place u).left n

/-- Thread `u` comes closer to its end. -/
structure Leaves (s s' : QueueMonitor n α) (u : Thread n) (p' : Place α) : Prop where
  place : s'.place = Function.update s.place u p'
  waiting : s'.monitor.waiting = s.monitor.waiting
  keepRunning : s'.keepRunning = s.keepRunning
  handling : s'.handling = s.handling
  pending : p'.pending = false
  left : p'.left n < (s.place u).left n

theorem Leaves.left_lt {s s' : QueueMonitor n α} {u : Thread n} {p' : Place α}
    (h : Leaves s s' u p') : s'.left < s.left := by
  unfold QueueMonitor.left
  rw [h.place]
  apply Finset.sum_lt_sum
  · intro v _
    by_cases hv : v = u
    · subst hv
      rw [Function.update_self]
      exact h.left.le
    · rw [Function.update_of_ne hv]
  · refine ⟨u, Finset.mem_univ u, ?_⟩
    rw [Function.update_self]
    exact h.left

namespace QueueMonitor.Forsaken

variable {s s' : QueueMonitor n α} {t u : Thread n} {p' : Place α}

theorem leaves (h : s.Forsaken t) {l : MonitorLabel n α} (hstep : monitorStep s l = .ok s')
    (hl : Leaves s s' u p') : s'.Forsaken t := by
  have hstepped := stepped_of_step hstep
  refine ⟨⟨?_, ?_⟩, belongsTo_step h.belongs hstepped, tracks_step h.tracks hstepped, ?_, ?_⟩
  · rw [hl.keepRunning]
    exact h.done.1
  · rw [hl.handling]
    exact h.done.2
  · rw [hl.waiting]
    exact h.sleeps
  · intro v hv
    by_cases hvu : v = u
    · subst hvu
      have hpending := hv.1
      rw [hl.place, Function.update_self, hl.pending] at hpending
      cases hpending
    · apply h.inactive v
      apply hv.congr
      · rw [hl.place, Function.update_of_ne hvu]
      · rw [hl.waiting]

theorem advance (h : s.Forsaken t) (hadvance : s.advance u none = .ok s') :
    monitorStep s (.advance u none) = .ok s' := by
  rw [← hadvance, monitorStep, h.done.2 u]
  rfl

/-- A thread outside of push and pop that does not join goes on to its end. -/
theorem exists_leaves (h : s.Forsaken t) (hawake : s.monitor.waiting u ≠ .asleep)
    (hexited : s.place u ≠ .exited) (hjoin : ∀ k, s.place u ≠ .joining k)
    (hjoin' : s.place u ≠ .joiningBroadcaster) :
    ∃ l s' p', monitorStep s l = .ok s' ∧ Leaves s s' u p' := by
  have hrunning := h.done.1
  have hpending : (s.place u).pending = false := by
    by_contra hne
    exact h.inactive u ⟨by simpa using hne, hawake⟩
  cases hp : s.place u with
  | mainTest =>
    have hadvance : s.advance u none = .ok (s.goto u (.joining 0)) := by
      simp [QueueMonitor.advance, hp, hrunning]
    exact ⟨_, _, _, h.advance hadvance, rfl, rfl, rfl, rfl, rfl, by simp [hp, Place.left]⟩
  | mainLoop =>
    have hu : u = .main := Place.eq_main (h.belongs u) (by rw [hp]; rfl)
    subst hu
    have hstep : monitorStep s .endEvents = .ok (s.goto .main .mainTest) := by
      simp [monitorStep, QueueMonitor.fromLoop, hp, h.done.2]
    exact ⟨_, _, _, hstep, rfl, rfl, rfl, rfl, rfl, by simp [hp, Place.left]⟩
  | pushUnlock =>
    have hadvance : s.advance u none =
        .ok { s.goto u .mainLoop with monitor := s.monitor.unlock } := by
      simp [QueueMonitor.advance, hp]
    exact ⟨_, _, _, h.advance hadvance, rfl, rfl, rfl, rfl, rfl, by simp [hp, Place.left]⟩
  | joining k => exact absurd hp (hjoin k)
  | joiningBroadcaster => exact absurd hp hjoin'
  | popUnlock task =>
    have hadvance : s.advance u none =
        .ok { s.goto u (.executing task) with monitor := s.monitor.unlock } := by
      simp [QueueMonitor.advance, hp]
    exact ⟨_, _, _, h.advance hadvance, rfl, rfl, rfl, rfl, rfl, by simp [hp, Place.left]⟩
  | executing task =>
    have hadvance : s.advance u none = .ok (s.goto u .workerTest) := by
      simp [QueueMonitor.advance, hp]
    exact ⟨_, _, _, h.advance hadvance, rfl, rfl, rfl, rfl, rfl, by simp [hp, Place.left]⟩
  | workerTest =>
    have hadvance : s.advance u none = .ok (s.goto u .exited) := by
      simp [QueueMonitor.advance, hp, hrunning]
    exact ⟨_, _, _, h.advance hadvance, rfl, rfl, rfl, rfl, rfl, by simp [hp, Place.left]⟩
  | broadcasting =>
    have hadvance : s.advance u none = .ok (s.goto u .exited) := by
      simp [QueueMonitor.advance, hp, hrunning]
    exact ⟨_, _, _, h.advance hadvance, rfl, rfl, rfl, rfl, rfl, by simp [hp, Place.left]⟩
  | exited => exact absurd hp hexited
  | _ =>
    rw [hp] at hpending
    cases hpending

/-- Only the main thread joins. -/
theorem not_joins (h : s.Forsaken t) (hu : u ≠ .main) :
    (∀ k, s.place u ≠ .joining k) ∧ s.place u ≠ .joiningBroadcaster := by
  constructor
  · intro k hp
    exact hu (Place.eq_main (h.belongs u) (by rw [hp]; rfl))
  · intro hp
    exact hu (Place.eq_main (h.belongs u) (by rw [hp]; rfl))

/-- If somebody has not exited, does not sleep and does not join a sleeper, then somebody comes
closer to its end: the thread itself or the one it joins. -/
theorem exists_closer (h : s.Forsaken t) (hawake : s.monitor.waiting u ≠ .asleep)
    (hexited : s.place u ≠ .exited) (hjoins : ¬ s.JoinsSleeper u) :
    ∃ l s' v p', monitorStep s l = .ok s' ∧ Leaves s s' v p' := by
  cases hp : s.place u with
  | joining k =>
    by_cases hk : k < n
    · by_cases hworker : s.place (.worker ⟨k, hk⟩) = .exited
      · have hadvance : s.advance u none = .ok (s.goto u (.joining (k + 1))) := by
          simp [QueueMonitor.advance, hp, hk, hworker]
        refine ⟨_, _, u, _, h.advance hadvance, rfl, rfl, rfl, rfl, rfl, ?_⟩
        simp only [hp, Place.left]
        omega
      · have hne : (Thread.worker ⟨k, hk⟩ : Thread n) ≠ .main := by simp
        obtain ⟨l, s', p', hl⟩ := h.exists_leaves (fun hw => hjoins ⟨⟨k, hk⟩, hp, hw⟩) hworker
          (h.not_joins hne).1 (h.not_joins hne).2
        exact ⟨l, s', _, p', hl⟩
    · have hadvance : s.advance u none = .ok (s.goto u .joiningBroadcaster) := by
        simp [QueueMonitor.advance, hp, hk]
      refine ⟨_, _, u, _, h.advance hadvance, rfl, rfl, rfl, rfl, rfl, ?_⟩
      simp only [hp, Place.left]
      omega
  | joiningBroadcaster =>
    by_cases hother : s.place .broadcaster = .exited
    · have hadvance : s.advance u none = .ok (s.goto u .exited) := by
        simp [QueueMonitor.advance, hp, hother]
      exact ⟨_, _, u, _, h.advance hadvance, rfl, rfl, rfl, rfl, rfl, by simp [hp, Place.left]⟩
    · have hne : (Thread.broadcaster : Thread n) ≠ .main := by simp
      have hout : s.monitor.waiting .broadcaster ≠ .asleep := by
        intro hw
        have hwait := (h.tracks .broadcaster).mp (by simp [hw])
        rw [QueueMonitor.status, Place.outside_of_broadcaster (h.belongs _)] at hwait
        cases hwait
      obtain ⟨l, s', p', hl⟩ := h.exists_leaves hout hother (h.not_joins hne).1 (h.not_joins hne).2
      exact ⟨l, s', _, p', hl⟩
  | _ =>
    obtain ⟨l, s', p', hl⟩ := h.exists_leaves hawake hexited (by simp [hp]) (by simp [hp])
    exact ⟨l, s', u, p', hl⟩

/-- The schedule in which everybody else finishes strands the sleeper. -/
theorem exists_stranded (h : s.Forsaken t) :
    ∃ ls s', run monitorStep s ls = .ok s' ∧ s'.HandlerDone ∧ s'.Stranded := by
  have hcloser : ∀ v : QueueMonitor n α, v.Forsaken t → ¬ (v.Forsaken t ∧ v.Alone t) →
      ∃ l v', True ∧ monitorStep v l = .ok v' ∧ v'.Forsaken t ∧
        ((v'.Forsaken t ∧ v'.Alone t) ∨ v'.left < v.left) := by
    intro v hv hdone
    obtain ⟨u, hu⟩ := not_forall.mp (not_and.mp hdone hv)
    obtain ⟨_, hnot⟩ := Classical.not_imp.mp hu
    obtain ⟨hexited, hrest⟩ := not_or.mp hnot
    obtain ⟨hawake, hjoins⟩ := not_or.mp hrest
    obtain ⟨l, v', w, p', hstep, hl⟩ := hv.exists_closer hawake hexited hjoins
    exact ⟨l, v', trivial, hstep, hv.leaves hstep hl, Or.inr hl.left_lt⟩
  obtain ⟨ls, s', hrun, _, hs', halone⟩ := exists_run_of_closer hcloser h
  exact ⟨ls, s', hrun, hs'.done, t, hs'.sleeps, halone⟩

end QueueMonitor.Forsaken

/-- A thread that sleeps after the handler and leaves nobody active is forsaken. -/
theorem forsaken_of_not_safeSleep {s s' : QueueMonitor n α} {l : MonitorLabel n α}
    (hbelongs : ∀ u, (s.place u).belongsTo u) (htracks : s.monitor.Tracks s.status)
    (hstep : monitorStep s l = .ok s') (hsleep : ¬ SafeSleep s l) : ∃ t, s'.Forsaken t := by
  cases l with
  | advance t choice =>
    simp only [SafeSleep, Classical.not_imp] at hsleep
    obtain ⟨hdone, hsleeps, hnobody⟩ := hsleep
    have hstepped := stepped_of_step hstep
    obtain ⟨p, hadvance⟩ : ∃ p, s' = { s.goto t p with monitor := s.monitor.wait t } := by
      simp only [monitorStep, hdone.2 t] at hstep
      cases hplace : s.place t with
      | pushWait task =>
        simp [QueueMonitor.advance, hplace] at hstep
        exact ⟨_, hstep.symm⟩
      | popWait =>
        simp [QueueMonitor.advance, hplace] at hstep
        exact ⟨_, hstep.symm⟩
      | _ =>
        rw [hplace] at hsleeps
        cases hsleeps
    refine ⟨t, ?_, belongsTo_step hbelongs hstepped, tracks_step htracks hstepped, ?_, ?_⟩
    · rw [hadvance]
      exact hdone
    · rw [hadvance]
      simp [Monitor.wait]
    · intro u hu
      rw [hadvance] at hu
      by_cases hut : u = t
      · subst hut
        exact hu.2 (by simp [Monitor.wait])
      · apply hnobody
        refine ⟨u, hut, hu.congr ?_ ?_⟩
        · exact (Function.update_of_ne hut _ _).symm
        · exact (Function.update_of_ne hut _ _).symm
  | _ => exact absurd trivial hsleep

/-! ## Runs -/

theorem places_of_run [Inhabited α] {ls : List (MonitorLabel n α)} {s : QueueMonitor n α}
    (hrun : run monitorStep monitorStart ls = .ok s) :
    (∀ u, (s.place u).belongsTo u) ∧ s.monitor.Tracks s.status := by
  refine run_invariant (I := fun s : QueueMonitor n α =>
    (∀ u, (s.place u).belongsTo u) ∧ s.monitor.Tracks s.status) ?_ ?_ hrun
  · intro u l u' hu hstep
    have hstepped := stepped_of_step hstep
    exact ⟨belongsTo_step hu.1 hstepped, tracks_step hu.2 hstepped⟩
  · exact ⟨monitorStart_belongsTo, monitorStart_tracks⟩

/-- **Who is stranded by the shutdown.** If every thread of a run that goes to sleep after the
handler leaves an active thread behind, then no state of the run after the handler has a
stranded thread. After any other sleep there is a schedule that strands the sleeper. -/
theorem shutdown_strands_nobody [Inhabited α] (ls : List (MonitorLabel n α))
    (s : QueueMonitor n α) (hrun : run monitorStep monitorStart ls = .ok s) :
    (Throughout monitorStep SafeSleep monitorStart ls →
      ∀ u, Visits monitorStep monitorStart ls u → u.HandlerDone → ¬ u.Stranded) ∧
    ∀ l s', monitorStep s l = .ok s' → ¬ SafeSleep s l →
      ∃ ls' u, run monitorStep s' ls' = .ok u ∧ u.HandlerDone ∧ u.Stranded := by
  constructor
  · intro hsafe u hu hdone
    have hinv := visits_invariant_throughout (I := fun s : QueueMonitor n α =>
      s.monitor.Tracks s.status ∧ s.Attended) ?_ hsafe
      ⟨monitorStart_tracks, monitorStart_attended⟩ hu
    · exact hinv.2.not_stranded hdone
    · intro v l v' hv hC hstep
      have hstepped := stepped_of_step hstep
      exact ⟨tracks_step hv.1 hstepped, attended_step hv.1 hv.2 hC hstepped⟩
  · intro l s' hstep hsleep
    obtain ⟨hbelongs, htracks⟩ := places_of_run hrun
    obtain ⟨t, ht⟩ := forsaken_of_not_safeSleep hbelongs htracks hstep hsleep
    exact ht.exists_stranded

/-- The worker sleeps when the interrupt comes, is woken by the broadcast and exits. -/
def shutdownWhileAsleep : List (MonitorLabel 1 Task) :=
  statements onlyWorker [none, none, none, none, none] ++ [.sigint .main, .sigBroadcast .main] ++
    statements onlyWorker (List.replicate 12 none) ++ statements .main [none, none, none] ++
    statements .broadcaster [none] ++ statements .main [none]

theorem shutdown_strands_nobody_shutdownWhileAsleep :
    ∃ s, run monitorStep monitorStart shutdownWhileAsleep = .ok s ∧ s.place .main = .exited ∧
      ∀ u, Visits monitorStep monitorStart shutdownWhileAsleep u → u.HandlerDone →
        ¬ u.Stranded := by
  refine ⟨_, rfl, rfl, (shutdown_strands_nobody shutdownWhileAsleep _ rfl).1 ?_⟩
  iterate 5 refine throughout_cons_of_ok rfl (fun h => absurd h.1.symm Bool.false_ne_true) ?_
  refine throughout_cons_of_ok rfl trivial (throughout_cons_of_ok rfl trivial ?_)
  iterate 17 refine throughout_cons_of_ok rfl (fun _ h => absurd h Bool.false_ne_true) ?_
  trivial

/-- The only worker has read the flag and not yet gone to sleep when the interrupt comes. -/
theorem shutdown_strands_worker :
    ¬ ∀ (ls : List (MonitorLabel 1 Task)) s, run monitorStep monitorStart ls = .ok s →
      s.HandlerDone → ¬ s.Stranded := by
  intro hall
  obtain ⟨s, hs, hdone, hworker, hmain, hother⟩ : ∃ s,
      run monitorStep (monitorStart : QueueMonitor 1 Task)
        (statements onlyWorker [none, none, none, none] ++
          [.sigint .main, .sigBroadcast .main] ++ statements onlyWorker [none] ++
          statements .main [none] ++ statements .broadcaster [none]) = .ok s ∧
      s.HandlerDone ∧ s.monitor.waiting onlyWorker = .asleep ∧ s.place .main = .joining 0 ∧
      s.place .broadcaster = .exited := by
    refine ⟨_, rfl, ⟨rfl, ?_⟩, rfl, rfl, rfl⟩
    intro t
    cases t <;> rfl
  apply hall _ s hs hdone
  refine ⟨onlyWorker, hworker, ?_⟩
  intro u hu
  cases u with
  | main => exact Or.inr (Or.inr ⟨0, hmain, hworker⟩)
  | worker i => exact absurd (congrArg Thread.worker (Subsingleton.elim i 0)) hu
  | broadcaster => exact Or.inl hother

end BallGame.Server
