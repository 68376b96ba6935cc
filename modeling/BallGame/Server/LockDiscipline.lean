import BallGame.Library.Locks
import BallGame.Server.QueueMonitor
import BallGame.Server.Threads

/-!
# The locks of the two lists

What `main`, `worker_thread` and `cycle_broadcast_ball_state` do with `mutex_ball` and
`mutex_client`, as blocks of lock statements: one for each event of the epoll loop, for each
task and for each cycle. A region is a function, or a piece of `main`, that traverses or changes
one of the two lists; it lasts from its call to its return, whatever the list looks like.
-/

namespace BallGame.Server

open Library

variable {n : Nat}

inductive ListMutex where
  | mutexBall
  | mutexClient
  deriving DecidableEq

/-- The functions that traverse or change a list. -/
inductive Access where
  -- client list
  | addClient
  | removeClientBySocket
  /-- `client_count++` and `client_count--`. -/
  | clientCount
  | broadcastBallState
  | broadcastBallStateAll
  /-- The loop of `main` that closes the sockets. -/
  | closeSockets
  -- ball list
  | addBall
  | deleteBall
  | deleteBallBySocket
  | countBallByOwner
  | speedUpBalls
  | speedDownBalls
  | moveAllBall
  | serializeBallList
  | serializeBallListAll
  deriving DecidableEq

/-- The mutex of the list. -/
def Access.mutex : Access → ListMutex
  | .addClient | .removeClientBySocket | .clientCount | .broadcastBallState
  | .broadcastBallStateAll | .closeSockets => .mutexClient
  | _ => .mutexBall

/-! ## The code of the threads -/

abbrev LockCode := List (LockStatement ListMutex Access)

/-- A call that returns without calling another of these functions. -/
def call (f : Access) : LockCode := [.enter f, .leave]

/-- `count_ball_by_owner` is all that `log_ball_memory_usage` does with the list. -/
def logBlock : LockCode := call .countBallByOwner

/-- A call of `broadcast_ball_state` that visits `clients` clients. -/
def broadcastBlock (clients : Nat) : LockCode :=
  .enter .broadcastBallState ::
    (List.replicate clients (call .serializeBallList)).flatten ++ [.leave]

def broadcastAllBlock : LockCode :=
  .enter .broadcastBallStateAll :: call .serializeBallListAll ++ [.leave]

/-- The end of a client, after EOF in `main` and after `x` in a worker. -/
def disconnect (removed : Bool) : LockCode :=
  [.lock .mutexClient] ++ call .removeClientBySocket ++
    (if removed then call .clientCount else []) ++ [.unlock .mutexClient] ++
  [.lock .mutexBall] ++ call .deleteBallBySocket ++ call .countBallByOwner ++
    logBlock ++ [.unlock .mutexBall]

def acceptBlock : LockCode :=
  call .addClient ++
  [.lock .mutexClient] ++ call .clientCount ++ [.unlock .mutexClient] ++
  [.lock .mutexBall] ++ call .addBall ++ logBlock ++ [.unlock .mutexBall]

def closeBlock : LockCode :=
  [.lock .mutexClient] ++ call .closeSockets ++ [.unlock .mutexClient]

/-- `dispatch_command`, which calls the handler of the command. -/
def dispatchBlock (cmd : Char) : LockCode :=
  if cmd = cmdAdd then call .addBall ++ logBlock
  else if cmd = cmdDel then call .deleteBall ++ logBlock
  else if cmd = cmdSpeedUp then call .speedUpBalls
  else if cmd = cmdSpeedDown then call .speedDownBalls
  else []

/-- What a worker does with a task whose parsed command is `cmd`. -/
def taskBlock (cmd : Char) (removed : Bool) (clients : Nat) : LockCode :=
  if cmd = '\x00' then []
  else if cmd = cmdExit then disconnect removed
  else if isBallCommand cmd then
    [.lock .mutexBall] ++ dispatchBlock cmd ++ [.unlock .mutexBall] ++ broadcastBlock clients
  else []

/-- The body of the loop of `cycle_broadcast_ball_state`. Its second statement releases the
mutex that it should take. -/
def cycleBlock : LockCode :=
  [.lock .mutexBall, .unlock .mutexClient] ++ call .moveAllBall ++ broadcastAllBlock ++
    [.unlock .mutexBall, .unlock .mutexClient]

inductive Block where
  | accept
  | endOfFile (removed : Bool)
  | close
  | task (cmd : Char) (removed : Bool) (clients : Nat)
  | cycle

def blockCode : Thread n → Block → Option LockCode
  | .main, .accept => some acceptBlock
  | .main, .endOfFile removed => some (disconnect removed)
  | .main, .close => some closeBlock
  | .worker _, .task cmd removed clients => some (taskBlock cmd removed clients)
  | .broadcaster, .cycle => some cycleBlock
  | _, _ => none

/-! ## The statements without their mutex -/

/-- The calls of `add_client` and `broadcast_ball_state`, and every unlock of `mutex_client` in
the broadcast thread. -/
def unguarded : Thread n → LockStatement ListMutex Access → Bool
  | .main, .enter .addClient => true
  | .worker _, .enter .broadcastBallState => true
  | .broadcaster, .unlock .mutexClient => true
  | _, _ => false

/-- A call under its mutex. -/
theorem follows_call {stop : LockStatement ListMutex Access → Bool} {held : ListMutex → Bool}
    {inside : List Access} {f : Access} {c : LockCode} (hstop : stop (.enter f) = false)
    (hleave : stop .leave = false) (hheld : held f.mutex = true)
    (hrest : Follows Access.mutex stop held inside c) :
    Follows Access.mutex stop held inside (call f ++ c) := by
  show Follows Access.mutex stop held inside (.enter f :: .leave :: c)
  rw [Follows, if_neg (by simp [hstop])]
  exact ⟨hheld, hleave, hrest⟩

theorem disconnect_follows {stop : LockStatement ListMutex Access → Bool}
    (hstop : ∀ a, a ≠ .enter .addClient → a ≠ .enter .broadcastBallState → stop a = false)
    (removed : Bool) : Follows Access.mutex stop (fun _ => false) [] (disconnect removed) := by
  cases removed <;>
    simp [disconnect, call, logBlock, Follows, Access.mutex, hstop, Function.update]

theorem dispatchBlock_follows {stop : LockStatement ListMutex Access → Bool}
    {held : ListMutex → Bool} {c : LockCode} (cmd : Char)
    (hstop : ∀ a, a ≠ .enter .broadcastBallState → stop a = false)
    (hheld : held .mutexBall = true) (hrest : Follows Access.mutex stop held [] c) :
    Follows Access.mutex stop held [] (dispatchBlock cmd ++ c) := by
  have hcall : ∀ {f c}, f.mutex = .mutexBall → Follows Access.mutex stop held [] c →
      Follows Access.mutex stop held [] (call f ++ c) := by
    intro f c hf hc
    refine follows_call (hstop _ ?_) (hstop _ (by simp)) (by rwa [hf]) hc
    intro he
    cases he
    cases hf
  unfold dispatchBlock logBlock
  split_ifs
  · rw [List.append_assoc]
    exact hcall rfl (hcall rfl hrest)
  · rw [List.append_assoc]
    exact hcall rfl (hcall rfl hrest)
  · exact hcall rfl hrest
  · exact hcall rfl hrest
  · exact hrest

/-- Everything before such a statement follows the discipline. -/
theorem blockCode_follows {t : Thread n} {b : Block} {c : LockCode}
    (h : blockCode t b = some c) :
    Follows Access.mutex (unguarded t) (fun _ => false) [] c := by
  cases t with
  | main =>
    have hstop : ∀ a, a ≠ .enter .addClient → unguarded (.main : Thread n) a = false := by
      intro a ha
      unfold unguarded
      split <;> first | rfl | simp_all
    cases b with
    | accept =>
      cases h
      simp [acceptBlock, call, Follows, unguarded]
    | endOfFile removed =>
      cases h
      exact disconnect_follows (fun a ha _ => hstop a ha) removed
    | close =>
      cases h
      simp [closeBlock, call, Follows, unguarded, Access.mutex]
    | _ => cases h
  | worker i =>
    have hstop : ∀ a, a ≠ .enter .broadcastBallState →
        unguarded (.worker i : Thread n) a = false := by
      intro a ha
      unfold unguarded
      split <;> first | rfl | simp_all
    cases b with
    | task cmd removed clients =>
      cases h
      unfold taskBlock
      split_ifs
      · exact ⟨fun _ => rfl, rfl⟩
      · exact disconnect_follows (fun a _ ha => hstop a ha) removed
      · simp only [List.cons_append, List.nil_append, List.append_assoc]
        refine ⟨rfl, rfl, ?_⟩
        apply dispatchBlock_follows cmd hstop (by simp)
        simp [Follows, unguarded, broadcastBlock, Access.mutex]
      · exact ⟨fun _ => rfl, rfl⟩
    | _ => cases h
  | broadcaster =>
    cases b with
    | cycle =>
      cases h
      simp [cycleBlock, Follows, unguarded]
    | _ => cases h

/-! ## Runs -/

/-- One step of the main thread, `n` workers and the broadcast thread. -/
def listStep (n : Nat) :
    LockState (Thread n) ListMutex Access → LockLabel (Thread n) Block →
      Except Stuck (LockState (Thread n) ListMutex Access) :=
  lockStep blockCode

/-- **The discipline of the two list mutexes.** All along a run whoever traverses or changes a
list holds its mutex from the beginning to the end of the access, a mutex is unlocked by its
holder alone, and no two threads are in a critical section of one mutex, exactly if main never
calls `add_client`, no worker calls `broadcast_ball_state`, and the broadcast thread never
unlocks `mutex_client`. -/
theorem list_locks_iff (ls : List (LockLabel (Thread n) Block))
    (s : LockState (Thread n) ListMutex Access)
    (hrun : run (listStep n) LockState.free ls = .ok s) :
    ((∀ u, Visits (listStep n) LockState.free ls u → u.Guarded Access.mutex) ∧
      Throughout (listStep n) UnlocksOwn LockState.free ls) ↔
      Throughout (listStep n) (GoesOn unguarded) LockState.free ls := by
  have hblocks : ∀ (t : Thread n) b c, blockCode t b = some c →
      Follows Access.mutex (unguarded t) (fun _ => false) [] c := by
    intro t b c h
    exact blockCode_follows h
  exact disciplined_iff hblocks hrun

/-- The next `k` statements of thread `t`. -/
def advances (t : Thread n) (k : Nat) : List (LockLabel (Thread n) Block) :=
  List.replicate k (.advance t)

/-- A client ends its connection while a worker executes the exit command of another one. -/
def twoDisconnects : List (LockLabel (Thread 1) Block) :=
  [.choose .main (.endOfFile true), .choose onlyWorker (.task cmdExit true 0)] ++
    advances .main 6 ++ advances onlyWorker 6 ++ advances .main 8 ++ advances onlyWorker 8

theorem list_locks_iff_twoDisconnects :
    ∃ s, run (listStep 1) LockState.free twoDisconnects = .ok s ∧
      ∀ u, Visits (listStep 1) LockState.free twoDisconnects u → u.Guarded Access.mutex := by
  refine ⟨_, rfl, ((list_locks_iff twoDisconnects _ rfl).mpr ?_).1⟩
  refine throughout_cons_of_ok rfl trivial (throughout_cons_of_ok rfl trivial ?_)
  iterate 28 refine throughout_cons_of_ok rfl (fun _ _ h => by cases h; rfl) ?_
  trivial

/-- The broadcast thread releases the mutex under which main removes a client, and a worker
enters beside it. -/
theorem two_threads_remove_clients :
    ¬ ∀ (ls : List (LockLabel (Thread 1) Block)) s,
      run (listStep 1) LockState.free ls = .ok s → s.Guarded Access.mutex := by
  intro hall
  obtain ⟨s, hs, hmain, hworker⟩ : ∃ s, run (listStep 1) LockState.free
      ([.choose .main (.endOfFile true)] ++ advances .main 2 ++
        [.choose .broadcaster .cycle] ++ advances .broadcaster 2 ++
        [.choose onlyWorker (.task cmdExit true 0)] ++ advances onlyWorker 2) = .ok s ∧
      s.inside .main = [.removeClientBySocket] ∧ s.inside onlyWorker = [.removeClientBySocket] :=
    ⟨_, rfl, rfl, rfl⟩
  have hguarded := hall _ s hs
  have h₁ := hguarded.holds .main .removeClientBySocket (by simp [hmain])
  have h₂ := hguarded.holds onlyWorker .removeClientBySocket (by simp [hworker])
  rw [h₁] at h₂
  cases h₂

end BallGame.Server
