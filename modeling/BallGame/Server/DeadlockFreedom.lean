import BallGame.Library.FlatLocks
import BallGame.Server.LockDiscipline

/-!
# No deadlock on the lists

The threads take `mutex_client` and `mutex_ball` one after the other, never one inside the other.
So they get to the ends of their blocks in every order, also with a broadcast thread that releases
the mutex of another one.
-/

namespace BallGame.Server

open Library

variable {n : Nat}

/-- Calls of functions neither take nor release a mutex. -/
def OnlyCalls (c : LockCode) : Prop := ∀ a ∈ c, (∃ f, a = .enter f) ∨ a = .leave

theorem flat_append {held : ListMutex → Bool} {c d : LockCode} (hc : OnlyCalls c)
    (hd : Flat held d) : Flat held (c ++ d) := by
  induction c with
  | nil => exact hd
  | cons a c ih =>
    have hrest := ih fun b hb => hc b (List.mem_cons_of_mem a hb)
    rcases hc a (List.mem_cons_self ..) with ⟨f, rfl⟩ | rfl
    · exact hrest
    · exact hrest

theorem onlyCalls_append {c d : LockCode} (hc : OnlyCalls c) (hd : OnlyCalls d) :
    OnlyCalls (c ++ d) := by
  intro a ha
  rcases List.mem_append.mp ha with ha | ha
  · exact hc a ha
  · exact hd a ha

theorem onlyCalls_call (f : Access) : OnlyCalls (call f) := by
  rw [OnlyCalls, call, List.forall_mem_cons, List.forall_mem_singleton]
  exact ⟨Or.inl ⟨f, rfl⟩, Or.inr rfl⟩

theorem onlyCalls_dispatch (cmd : Char) : OnlyCalls (dispatchBlock cmd) := by
  unfold dispatchBlock logBlock
  split_ifs
  · exact onlyCalls_append (onlyCalls_call _) (onlyCalls_call _)
  · exact onlyCalls_append (onlyCalls_call _) (onlyCalls_call _)
  · exact onlyCalls_call _
  · exact onlyCalls_call _
  · exact fun a ha => nomatch ha

theorem onlyCalls_broadcast (clients : Nat) : OnlyCalls (broadcastBlock clients) := by
  intro a ha
  rcases List.mem_cons.mp ha with rfl | ha
  · exact Or.inl ⟨_, rfl⟩
  · rcases List.mem_append.mp ha with ha | ha
    · obtain ⟨c, hc, ha⟩ := List.mem_flatten.mp ha
      obtain ⟨_, rfl⟩ := List.mem_replicate.mp hc
      exact onlyCalls_call _ a ha
    · exact Or.inr (List.mem_singleton.mp ha)

/-- A critical section between other code. -/
theorem flat_section {l : ListMutex} {c d : LockCode} (hc : OnlyCalls c)
    (hd : Flat (fun _ => false) d) :
    Flat (fun _ => false) (.lock l :: (c ++ .unlock l :: d)) := by
  refine ⟨fun _ => rfl, flat_append hc ?_⟩
  have hreleased : Function.update (Function.update (fun _ => false) l true) l false =
      (fun _ => false : ListMutex → Bool) := by
    rw [Function.update_idem, Function.update_eq_self]
  rw [Flat, hreleased]
  exact hd

theorem flat_nil : Flat (fun _ => false) ([] : LockCode) := fun _ => rfl

theorem disconnect_flat (removed : Bool) : Flat (fun _ => false) (disconnect removed) := by
  have hcount : OnlyCalls (if removed then call .clientCount else []) := by
    cases removed
    · exact fun a ha => nomatch ha
    · exact onlyCalls_call _
  have hfirst := onlyCalls_append (onlyCalls_call .removeClientBySocket) hcount
  have hsecond := onlyCalls_append (onlyCalls_append (onlyCalls_call .deleteBallBySocket)
    (onlyCalls_call .countBallByOwner)) (onlyCalls_call .countBallByOwner)
  have hflat := flat_section (l := .mutexClient) hfirst
    (flat_section (l := .mutexBall) hsecond flat_nil)
  simpa only [disconnect, logBlock, List.append_assoc, List.cons_append, List.nil_append]
    using hflat

theorem acceptBlock_flat : Flat (fun _ => false) acceptBlock := by
  have hsecond := onlyCalls_append (onlyCalls_call .addBall) (onlyCalls_call .countBallByOwner)
  have hflat := flat_append (onlyCalls_call .addClient)
    (flat_section (l := .mutexClient) (onlyCalls_call .clientCount)
      (flat_section (l := .mutexBall) hsecond flat_nil))
  simpa only [acceptBlock, logBlock, List.append_assoc, List.cons_append, List.nil_append] using
    hflat

theorem taskBlock_flat (cmd : Char) (removed : Bool) (clients : Nat) :
    Flat (fun _ => false) (taskBlock cmd removed clients) := by
  unfold taskBlock
  split_ifs
  · exact flat_nil
  · exact disconnect_flat removed
  · have hbroadcast : Flat (fun _ => false) (broadcastBlock clients ++ []) :=
      flat_append (onlyCalls_broadcast clients) flat_nil
    rw [List.append_nil] at hbroadcast
    have hflat := flat_section (l := .mutexBall) (onlyCalls_dispatch cmd) hbroadcast
    simpa only [List.append_assoc, List.cons_append, List.nil_append] using hflat
  · exact flat_nil

/-- The broadcast thread has only `mutex_ball`, whatever it releases. -/
theorem cycleBlock_flat : Flat (fun _ => false) cycleBlock := by
  refine ⟨fun _ => rfl, ?_⟩
  intro l
  cases l <;> rfl

theorem blockCode_flat {t : Thread n} {b : Block} {c : LockCode} (h : blockCode t b = some c) :
    Flat (fun _ => false) c := by
  unfold blockCode at h
  split at h
  · cases h
    exact acceptBlock_flat
  · cases h
    exact disconnect_flat _
  · cases h
    have hflat := flat_section (l := .mutexClient) (onlyCalls_call .closeSockets) flat_nil
    simpa only [closeBlock, List.append_assoc, List.cons_append, List.nil_append] using hflat
  · cases h
    exact taskBlock_flat _ _ _
  · cases h
    exact cycleBlock_flat
  · cases h

/-- **No deadlock.** In every state of every run of the main thread, any number of workers and the
broadcast thread, also after the broadcast thread has released the mutex of another thread: if the
threads go on with what they have begun, in whatever order, then every step brings them closer to
the end, and they cannot go on any more only when all are done and both mutexes are free. -/
theorem list_locks_no_deadlock (ls : List (LockLabel (Thread n) Block))
    (s : LockState (Thread n) ListMutex Access)
    (hrun : run (listStep n) LockState.free ls = .ok s) (ts : List (Thread n))
    (s' : LockState (Thread n) ListMutex Access)
    (hadvance : run (listStep n) s (ts.map .advance) = .ok s') :
    s'.remaining + ts.length = s.remaining ∧
      ((∀ t u, listStep n s' (.advance t) ≠ .ok u) →
        (∀ t, s'.code t = []) ∧ ∀ l, s'.holder l = none) := by
  have hblocks : ∀ (t : Thread n) b c, blockCode t b = some c → Flat (fun _ => false) c := by
    intro t b c h
    exact blockCode_flat h
  have hstep : ∀ u l u', LockState.FlatLocked u → listStep n u l = .ok u' → u'.FlatLocked := by
    intro u l u' hu hok
    exact flatLocked_step hblocks hu hok
  have hflat := run_invariant hstep (run_invariant hstep flatLocked_free hrun) hadvance
  exact ⟨remaining_advances hadvance, done_of_stuck hflat⟩

/-- The broadcast thread releases the mutex under which main removes a client, and a worker
enters beside it. -/
def twoInside : List (LockLabel (Thread 1) Block) :=
  [.choose .main (.endOfFile true)] ++ advances .main 2 ++ [.choose .broadcaster .cycle] ++
    advances .broadcaster 2 ++ [.choose onlyWorker (.task cmdExit true 0)] ++
    advances onlyWorker 2

def allEnd : List (Thread 1) :=
  List.replicate 4 .main ++ List.replicate 8 .broadcaster ++ List.replicate 12 onlyWorker ++
    List.replicate 8 .main

theorem list_locks_no_deadlock_twoInside : ∃ s s',
    run (listStep 1) LockState.free twoInside = .ok s ∧
      s.inside .main = [.removeClientBySocket] ∧ s.inside onlyWorker = [.removeClientBySocket] ∧
      run (listStep 1) s (allEnd.map .advance) = .ok s' ∧ s'.remaining + 32 = s.remaining ∧
      ∀ l, s'.holder l = none := by
  obtain ⟨s, s', hs, hmain, hworker, hs', hcode⟩ : ∃ s s',
      run (listStep 1) LockState.free twoInside = .ok s ∧
      s.inside .main = [.removeClientBySocket] ∧ s.inside onlyWorker = [.removeClientBySocket] ∧
      run (listStep 1) s (allEnd.map .advance) = .ok s' ∧ ∀ t, s'.code t = [] :=
    ⟨_, _, rfl, rfl, rfl, rfl, by decide⟩
  obtain ⟨hremaining, hdone⟩ := list_locks_no_deadlock twoInside s hs allEnd s' hs'
  refine ⟨s, s', hs, hmain, hworker, hs', hremaining, (hdone ?_).2⟩
  intro t u h
  simp only [listStep, lockStep, hcode t] at h
  cases h

end BallGame.Server
