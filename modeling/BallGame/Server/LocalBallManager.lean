import BallGame.Library.LinkedList
import BallGame.Library.Selection
import BallGame.Server.LocalBall

/-!
# The ball store

`localball_list.c` and `localballmanager.c`: the linked list of all balls on the heap, with
the operations the threads call under `mutex_ball`. What the functions print to the console
is left out.
-/

namespace BallGame.Server

open Library

/-- The mutex is not part of the store: every operation is one critical section. -/
structure BallListManager extends Linked LogicalBall where
  totalCount : Int

def startBallCount : Int := 5

def startBallRadius : Int := 20

def ballManagerInit : BallListManager := { toLinked := Linked.empty, totalCount := 0 }

/-! ## Adding balls -/

def appendBall (l : Linked LogicalBall) (ball : LogicalBall) (alloc : Option Nat) :
    Except Stuck (Linked LogicalBall) :=
  l.append ball alloc

/-- The loop of `add_ball`, with `remaining` iterations to go from iteration `i` on. -/
def addBallLoop (radius ownerId : Int) (draws : Nat → RandomDraws) (alloc : Nat → Option Nat) :
    Nat → Nat → BallListManager → Except Stuck BallListManager
  | 0, _, m => .ok m
  | remaining + 1, i, m => do
    let total ← checkedInt (m.totalCount + 1)
    let b ← createLogicalBall m.totalCount radius ownerId (draws i)
    let l ← appendBall m.toLinked b (alloc i)
    addBallLoop radius ownerId draws alloc remaining (i + 1) { toLinked := l, totalCount := total }

/-- `draws` and `alloc` are what `rand` and `malloc` return in the iterations. -/
def addBall (m : BallListManager) (count radius ownerId : Int) (draws : Nat → RandomDraws)
    (alloc : Nat → Option Nat) : Except Stuck BallListManager :=
  addBallLoop radius ownerId draws alloc count.toNat 0 m

/-! ## Deleting the newest balls of an owner -/

/-- The arrays `candidates` and `candidates_prev`: a node to delete and its predecessor. -/
abbrev Candidate := Nat × Option Nat

/-- The body of the search loop; the first component is `prev`. -/
def collectCandidate (count ownerId : Int) (s : Option Nat × List Candidate)
    (node : Nat × LogicalBall) : Except Stuck (Option Nat × List Candidate) :=
  .ok (some node.1,
    if node.2.ownerId = ownerId then pushWindow count.toNat s.2 (node.1, s.1) else s.2)

/-- The body of the deletion loop. -/
def unlinkCandidate (m : BallListManager) (c : Candidate) : Except Stuck BallListManager := do
  let linked ← match c.2 with
    | none => .ok true
    | some p => do
      let prev ← m.heap.read p
      .ok (decide (prev.next = some c.1))
  if linked then do
    let target ← m.heap.read c.1
    let head := if m.head = some c.1 then target.next else m.head
    let tail := if m.tail = some c.1 then c.2 else m.tail
    let heap ← match c.2 with
      | none => .ok m.heap
      | some p => do
        let prev ← m.heap.read p
        m.heap.write p { prev with next := target.next }
    let heap ← heap.free c.1
    .ok { heap := heap, head := head, tail := tail, totalCount := m.totalCount - 1 }
  else
    .ok m

/-- The arrays have `count` elements, so `count` must be positive. -/
def deleteBall (m : BallListManager) (count ownerId : Int) : Except Stuck BallListManager :=
  if count ≤ 0 then
    .error .outOfBounds
  else do
    let s ← Linked.foldNodes (collectCandidate count ownerId) m.heap m.heap.brk m.head (none, [])
    s.2.reverse.foldlM unlinkCandidate m

/-! ## Deleting all balls of an owner -/

def deleteBallBySocketLoop (socketFd : Int) :
    Nat → BallListManager → Option Nat → Option Nat → Except Stuck BallListManager
  | _, m, _, none => .ok m
  | 0, _, _, some _ => .error .nontermination
  | fuel + 1, m, prev, some cur => do
    let node ← m.heap.read cur
    if node.data.ownerId = socketFd then do
      let l ← match prev with
        | none => .ok { m.toLinked with head := node.next }
        | some p => do
          let prevNode ← m.heap.read p
          let heap ← m.heap.write p { prevNode with next := node.next }
          .ok { m.toLinked with heap := heap }
      let tail := if l.tail = some cur then prev else l.tail
      let heap ← l.heap.free cur
      deleteBallBySocketLoop socketFd fuel
        { heap := heap, head := l.head, tail := tail, totalCount := m.totalCount - 1 }
        prev node.next
    else
      deleteBallBySocketLoop socketFd fuel m (some cur) node.next

def deleteBallBySocket (m : BallListManager) (socketFd : Int) : Except Stuck BallListManager :=
  deleteBallBySocketLoop socketFd m.heap.brk m none m.head

/-! ## Changing all balls in place -/

/-- A walk that changes the data of every node. -/
def updateBalls (f : LogicalBall → LogicalBall) (m : BallListManager) :
    Except Stuck BallListManager := do
  let heap ← Linked.mapNodes f m.heap.brk m.heap m.head
  .ok { m with heap := heap }

def moveAllBall (m : BallListManager) : Except Stuck BallListManager :=
  updateBalls moveLogicalBall m

def speedUpBalls (m : BallListManager) (ownerId : Int) : Except Stuck BallListManager :=
  updateBalls (fun b => if b.ownerId = ownerId then speedUpBall b else b) m

def speedDownBalls (m : BallListManager) (ownerId : Int) : Except Stuck BallListManager :=
  updateBalls (fun b => if b.ownerId = ownerId then speedDownBall b else b) m

/-! ## Logging -/

def countBallByOwner (m : BallListManager) (ownerId : Int) : Except Stuck Int :=
  Linked.foldNodes (fun count node => .ok (if node.2.ownerId = ownerId then count + 1 else count))
    m.heap m.heap.brk m.head 0

inductive LogAction where
  | add
  | del
  deriving DecidableEq

/-- The numbers of a line `log_ball_memory_usage` writes; the sizes in bytes follow from
them. -/
structure LogEntry where
  fd : Int
  action : LogAction
  count : Int
  nowCount : Int
  deriving DecidableEq

def logBallMemoryUsage (m : BallListManager) (action : LogAction) (fd count : Int) :
    Except Stuck LogEntry := do
  let nowCount ← countBallByOwner m fd
  .ok ⟨fd, action, count, nowCount⟩

/-! ## Commands -/

def cmdAdd : Char := 'a'
def cmdDel : Char := 'd'
def cmdSpeedUp : Char := 'w'
def cmdSpeedDown : Char := 's'
def cmdExit : Char := 'x'

/-- What the random generator and the allocator return during a command. -/
structure CommandEnv where
  draws : Nat → RandomDraws
  alloc : Nat → Option Nat

/-- Every random draw is 0 and every allocation succeeds. -/
def zeroDraws : CommandEnv := ⟨fun _ => ⟨0, 0, 0, 0⟩, some⟩

abbrev CommandHandler :=
  BallListManager → Int → Int → Int → CommandEnv → Except Stuck (BallListManager × List LogEntry)

def handleAdd : CommandHandler := fun m count radius ownerId env => do
  let count := if count ≤ 0 then 1 else count
  let m ← addBall m count radius ownerId env.draws env.alloc
  let entry ← logBallMemoryUsage m .add ownerId count
  .ok (m, [entry])

def handleDelete : CommandHandler := fun m count _ ownerId _ => do
  let count := if count ≤ 0 then 1 else count
  let m ← deleteBall m count ownerId
  let entry ← logBallMemoryUsage m .del ownerId count
  .ok (m, [entry])

def handleSpeedUp : CommandHandler := fun m _ _ ownerId _ => do
  let m ← speedUpBalls m ownerId
  .ok (m, [])

def handleSpeedDown : CommandHandler := fun m _ _ ownerId _ => do
  let m ← speedDownBalls m ownerId
  .ok (m, [])

def commandTable : List (Char × CommandHandler) :=
  [(cmdAdd, handleAdd), (cmdDel, handleDelete), (cmdSpeedUp, handleSpeedUp),
    (cmdSpeedDown, handleSpeedDown)]

/-- The first handler of the table for `cmd`; an unknown command is only reported. -/
def dispatchCommand (m : BallListManager) (cmd : Char) (count radius ownerId : Int)
    (env : CommandEnv) : Except Stuck (BallListManager × List LogEntry) :=
  match commandTable.find? (fun entry => entry.1 = cmd) with
  | some entry => entry.2 m count radius ownerId env
  | none => .ok (m, [])

end BallGame.Server
