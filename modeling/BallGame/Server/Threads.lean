import BallGame.Server.ClientListManager
import BallGame.Server.Command
import BallGame.Server.OwnerIsolation

/-!
# The threads of the server

The server as a step function: the main thread in `main.c`, any number of workers running
`worker_thread`, and the thread of `cycle_broadcast_ball_state`. A step is one critical section
or one system call; between two steps of a thread every other thread may run. `add_client` is one
step too, though `main` calls it without the mutex and the broadcast thread unlocks the mutex of
other threads: the list of clients is taken to change at once. A file descriptor is a number that
`accept` may hand out again once its socket is closed, and every accepted connection has an
identity of its own, which the code never sees: it stands for the address that `accept` fills in,
and marks the tasks, the pending events and the balls a connection is responsible for.

What the server sends, prints and writes to its log file changes none of this and is left out,
unless it ends the program. So is the end that SIGINT asks for: `keep_running` stays 1. A worker
that finds the queue empty and a main thread that finds it full are `blocked`.
-/

namespace BallGame.Server

open Library

/-- The identity of an accepted connection. -/
abbrev Conn := Nat

/-- A task with the connection whose bytes it carries, and the number of tasks received
before it. -/
structure ConnTask where
  task : Task
  conn : Conn
  arrival : Nat
  deriving DecidableEq, Inhabited

/-- An entry of the array `events` that `epoll_wait` fills. -/
inductive Event where
  | listener
  | client (fd : Int) (conn : Conn)
  deriving DecidableEq

/-- Where the main thread stands. -/
inductive MainPhase where
  /-- Before the next event of `events`, or in `epoll_wait` if there is none. -/
  | idle
  | accepted (csock : Int) (conn : Conn)
  | listed (csock : Int) (conn : Conn)
  | counted (csock : Int) (conn : Conn)
  | received (t : ConnTask)
  | hungUp (fd : Int) (conn : Conn)
  | removed (fd : Int) (conn : Conn)
  deriving DecidableEq

/-- Where a worker stands. -/
inductive WorkerPhase where
  | ready
  | holding (t : ConnTask)
  /-- The exit command has removed the client; its balls are still there. -/
  | exiting (t : ConnTask)
  deriving DecidableEq

/-- The variables `count` and `radius` outlive a task. -/
structure Worker where
  count : Int
  radius : Int
  phase : WorkerPhase
  deriving DecidableEq

/-- An event of the ball store, with the connection whose command it is. -/
structure Logged where
  conn : Option Conn
  event : StoreEvent

/-- What happened so far. No step looks at it. -/
structure History where
  /-- The last connection that had this number. -/
  holder : Int → Option Conn
  /-- The connection for which the node at this address was created. -/
  creator : Nat → Conn
  received : List ConnTask
  executed : List ConnTask
  log : List Logged

/-- What the threads share. -/
structure SharedContext where
  ballListManager : BallListManager
  clientListManager : ClientListManager Conn
  taskQueue : TaskQueue ConnTask

structure ServerState (W : Type) extends SharedContext where
  main : MainPhase
  events : List Event
  workers : W → Worker
  /-- The open sockets of clients. -/
  socket : Int → Option Conn
  /-- The number of connections accepted so far. -/
  accepted : Nat
  history : History

inductive Label (W : Type) where
  | epollWait (events : List Event)
  | accept (csock : Int)
  | skipEvent
  | addClient (alloc : Option Nat)
  | countClient
  | addInitialBalls (env : CommandEnv)
  | recvData (bytes : List Char)
  | recvEnd
  | push
  | hangUpRemove
  | hangUpDelete
  | pop (w : W)
  | execute (w : W) (env : CommandEnv)
  | exitDelete (w : W)
  | tick

/-! ## Records of what happened -/

namespace History

/-- The nodes that are not in `old` were created for `conn`. -/
def claim (h : History) (old : List (Nat × LogicalBall)) (conn : Conn) : History :=
  { h with creator := fun a => if a ∈ old.map Prod.fst then h.creator a else conn }

def logEvent (h : History) (conn : Option Conn) (event : StoreEvent) : History :=
  { h with log := h.log ++ [⟨conn, event⟩] }

end History

variable {W : Type}

/-! ## The main thread -/

/-- The sockets `epoll_wait` can report. -/
def Event.Ready (s : ServerState W) : Event → Prop
  | .listener => True
  | .client fd conn => s.socket fd = some conn

instance (s : ServerState W) : (e : Event) → Decidable (e.Ready s)
  | .listener => inferInstanceAs (Decidable True)
  | .client fd conn => inferInstanceAs (Decidable (s.socket fd = some conn))

def epollWait (s : ServerState W) (events : List Event) : Except Stuck (ServerState W) :=
  if s.main = .idle ∧ s.events = [] ∧ ∀ e ∈ events, e.Ready s then
    .ok { s with events := events }
  else
    .error .blocked

/-- `accept` returns a number that is not in use; the socket is registered with epoll. -/
def acceptClient (s : ServerState W) (csock : Int) : Except Stuck (ServerState W) :=
  match s.main, s.events with
  | .idle, .listener :: rest =>
    if 0 ≤ csock ∧ s.socket csock = none then
      .ok { s with
        main := .accepted csock s.accepted
        events := rest
        socket := Function.update s.socket csock (some s.accepted)
        accepted := s.accepted + 1
        history := { s.history with
          holder := Function.update s.history.holder csock (some s.accepted) } }
    else
      .error .blocked
  | _, _ => .error .blocked

/-- `accept` fails, or an event of a client comes without `EPOLLIN`. -/
def skipEvent (s : ServerState W) : Except Stuck (ServerState W) :=
  match s.main, s.events with
  | .idle, _ :: rest => .ok { s with events := rest }
  | _, _ => .error .blocked

/-- The new client joins the list, in one step. -/
def listClient (s : ServerState W) (alloc : Option Nat) : Except Stuck (ServerState W) :=
  match s.main with
  | .accepted csock conn => do
    let clients ← addClient s.clientListManager csock conn alloc
    .ok { s with clientListManager := clients, main := .listed csock conn }
  | _ => .error .blocked

/-- `client_count++`, in a critical section of its own. -/
def countClient (s : ServerState W) : Except Stuck (ServerState W) :=
  match s.main with
  | .listed csock conn =>
    .ok { s with
      clientListManager := { s.clientListManager with
        clientCount := s.clientListManager.clientCount + 1 }
      main := .counted csock conn }
  | _ => .error .blocked

/-- The first balls of a client, logged as an addition. -/
def addInitialBalls (s : ServerState W) (env : CommandEnv) : Except Stuck (ServerState W) :=
  match s.main with
  | .counted csock conn => do
    let balls ← addBall s.ballListManager startBallCount startBallRadius csock env.draws env.alloc
    let _ ← logBallMemoryUsage balls .add csock startBallCount
    .ok { s with
      ballListManager := balls
      main := .idle
      history := (s.history.claim s.ballListManager.nodes conn).logEvent none
        (.command cmdAdd startBallCount startBallRadius csock env) }
  | _ => .error .blocked

/-- `recv` returns bytes of the connection that has the number now. -/
def recvData (s : ServerState W) (bytes : List Char) : Except Stuck (ServerState W) :=
  match s.main, s.events with
  | .idle, .client fd _ :: rest =>
    match s.socket fd with
    | some conn =>
      if bytes ≠ [] ∧ bytes.length ≤ bufsiz then
        let t := ⟨receivedTask fd bytes, conn, s.history.received.length⟩
        .ok { s with
          main := .received t
          events := rest
          history := { s.history with received := s.history.received ++ [t] } }
      else
        .error .blocked
    | none => .error .blocked
  | _, _ => .error .blocked

/-- `recv` returns no bytes: the connection of the event has closed, or its socket has. -/
def recvEnd (s : ServerState W) : Except Stuck (ServerState W) :=
  match s.main, s.events with
  | .idle, .client fd conn :: rest => .ok { s with main := .hungUp fd conn, events := rest }
  | _, _ => .error .blocked

def pushTask (s : ServerState W) : Except Stuck (ServerState W) :=
  match s.main with
  | .received t => do
    let queue ← taskQueuePush s.taskQueue t
    .ok { s with taskQueue := queue, main := .idle }
  | _ => .error .blocked

/-- Take the client with the number off the list and close its socket, if there is one. -/
def removeClient (s : ServerState W) (fd : Int) : Except Stuck (ServerState W) := do
  let (removed, clients) ← disconnectClient s.clientListManager fd
  match removed with
  | none => .ok { s with clientListManager := clients }
  | some ctx =>
    .ok { s with
      clientListManager := clients
      socket := Function.update s.socket ctx.csock none }

/-- Delete the balls of the number, which is logged with the balls that remain. -/
def deleteBalls (s : ServerState W) (fd : Int) : Except Stuck (ServerState W) := do
  let balls ← deleteBallBySocket s.ballListManager fd
  let nowCount ← countBallByOwner balls fd
  let _ ← logBallMemoryUsage balls .del fd nowCount
  .ok { s with ballListManager := balls, history := s.history.logEvent none (.disconnect fd) }

def hangUpRemove (s : ServerState W) : Except Stuck (ServerState W) :=
  match s.main with
  | .hungUp fd conn => do
    let s ← removeClient s fd
    .ok { s with main := .removed fd conn }
  | _ => .error .blocked

def hangUpDelete (s : ServerState W) : Except Stuck (ServerState W) :=
  match s.main with
  | .removed fd _ => do
    let s ← deleteBalls s fd
    .ok { s with main := .idle }
  | _ => .error .blocked

/-! ## The workers -/

variable [DecidableEq W]

def setWorker (s : ServerState W) (w : W) (worker : Worker) : ServerState W :=
  { s with workers := Function.update s.workers w worker }

def popTask (s : ServerState W) (w : W) : Except Stuck (ServerState W) :=
  match (s.workers w).phase with
  | .ready => do
    let (t, queue) ← taskQueuePop true s.taskQueue
    .ok (setWorker { s with taskQueue := queue } w { s.workers w with phase := .holding t })
  | _ => .error .blocked

/-- The commands that are dispatched to the ball store. -/
def isBallCommand (cmd : Char) : Bool := cmd ∈ [cmdAdd, cmdDel, cmdSpeedUp, cmdSpeedDown]

/-- From the parsing of a task to the end of the critical section it leads to. -/
def executeTask (s : ServerState W) (w : W) (env : CommandEnv) : Except Stuck (ServerState W) :=
  match (s.workers w).phase with
  | .holding t =>
    let parsed := taskCommand t.task (s.workers w).count (s.workers w).radius
    let cmd := parsed.1
    let count := parsed.2.1
    let radius := parsed.2.2
    let s := { s with history := { s.history with executed := s.history.executed ++ [t] } }
    if cmd = Char.ofNat 0 then
      -- "Invalid command format"
      .ok (setWorker s w ⟨count, radius, .ready⟩)
    else if cmd = cmdExit then do
      let s ← removeClient s t.task.fd
      .ok (setWorker s w ⟨count, radius, .exiting t⟩)
    else if isBallCommand cmd then
      let count := if count ≤ 0 then 1 else count
      do
        let r ← dispatchCommand s.ballListManager cmd count radius t.task.fd env
        .ok (setWorker { s with
          ballListManager := r.1
          history := (s.history.claim s.ballListManager.nodes t.conn).logEvent (some t.conn)
            (.command cmd count radius t.task.fd env) } w ⟨count, radius, .ready⟩)
    else
      -- "Unknown command"
      .ok (setWorker s w ⟨count, radius, .ready⟩)
  | _ => .error .blocked

def exitDelete (s : ServerState W) (w : W) : Except Stuck (ServerState W) :=
  match (s.workers w).phase with
  | .exiting t => do
    let s ← deleteBalls s t.task.fd
    .ok (setWorker s w { s.workers w with phase := .ready })
  | _ => .error .blocked

/-! ## The broadcast thread -/

def tick (s : ServerState W) : Except Stuck (ServerState W) := do
  let balls ← moveAllBall s.ballListManager
  .ok { s with ballListManager := balls, history := s.history.logEvent none .tick }

/-! ## Steps and runs -/

def step (s : ServerState W) : Label W → Except Stuck (ServerState W)
  | .epollWait events => epollWait s events
  | .accept csock => acceptClient s csock
  | .skipEvent => skipEvent s
  | .addClient alloc => listClient s alloc
  | .countClient => countClient s
  | .addInitialBalls env => addInitialBalls s env
  | .recvData bytes => recvData s bytes
  | .recvEnd => recvEnd s
  | .push => pushTask s
  | .hangUpRemove => hangUpRemove s
  | .hangUpDelete => hangUpDelete s
  | .pop w => popTask s w
  | .execute w env => executeTask s w env
  | .exitDelete w => exitDelete s w
  | .tick => tick s

def start : ServerState W where
  ballListManager := ballManagerInit
  clientListManager := clientListManagerInit
  taskQueue := taskQueueInit
  main := .idle
  events := []
  workers := fun _ => ⟨0, 0, .ready⟩
  socket := fun _ => none
  accepted := 0
  history := ⟨fun _ => none, fun _ => 0, [], [], []⟩

/-- The task queue is empty and no thread is in the middle of anything. -/
def Quiescent (s : ServerState W) : Prop :=
  s.taskQueue.toList = [] ∧ s.main = .idle ∧ ∀ w, (s.workers w).phase = .ready

end BallGame.Server
