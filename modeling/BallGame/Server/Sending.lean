import BallGame.Server.BufferSize
import BallGame.Server.Transitions

/-!
# The server with what it sends

The steps of `step` end with a critical section. Behind it a worker answers its client and sends
every client its balls, and the broadcast thread sends its frame: the texts must fit in their
buffers, and `send` on a connection that its peer has reset raises a signal. The main thread stores
a NUL behind the bytes it receives, which is beside its buffer if `recv` fails or fills it, and the
arrays of `delete_ball` are as long as the client asks for. A broadcast reads the lists in one
step.

* `broadcastBallState_eq`: the texts of a worker, or the overflow;
* `senderStep_ok_iff`: what a step can do;
* `server_of_sender`: the threads run as in `step`;
* `postings_run`: a worker has something to send only between two tasks;
* `post_ok_iff` and `cycle_ok_iff`: when sending succeeds.
-/

namespace BallGame.Server

open Library

/-! ## The texts of a worker -/

/-- The text of the balls of an owner. -/
def ownText (fd : Int) (bs : List LogicalBall) : List Char :=
  (bs.filter (LogicalBall.ownedBy fd)).flatMap (formatBall fd)

/-- What a worker has to send. -/
inductive Posting where
  | answer (fd : Int) (text : List Char)
  /-- `broadcast_ball_state`. -/
  | broadcast

structure Sender (W : Type) where
  server : ServerState W
  /-- What each worker has still to send for the task it has executed. -/
  postings : W → List Posting
  /-- What was sent so far. -/
  sent : Sends

/-- `gone` are the numbers of connections that their peers have reset. -/
inductive SenderLabel (W : Type) where
  | thread (l : Label W)
  /-- One round of the broadcast thread. -/
  | cycle (gone : Int → Bool)
  /-- The next thing a worker has to send. -/
  | post (w : W) (gone : Int → Bool)
  /-- `recv` fails. -/
  | recvFails

variable {W : Type}

/-- What a worker sends behind the execution of the task it holds. -/
def answersOf (worker : Worker) : List Posting :=
  match worker.phase with
  | .holding t =>
    let parsed := taskCommand t.task worker.count worker.radius
    if parsed.1 = Char.ofNat 0 then
      [.answer t.task.fd invalidFormatReply]
    else if parsed.1 = cmdExit then
      []
    else if isBallCommand parsed.1 then
      [.answer t.task.fd (okReply parsed.1 (if parsed.2.1 ≤ 0 then 1 else parsed.2.1)), .broadcast]
    else
      [.answer t.task.fd unknownCommandReply]
  | _ => []

def Posting.sends (s : ServerState W) : Posting → Except Stuck Sends
  | .answer fd text => .ok [(fd, text)]
  | .broadcast => broadcastBallState s.clientListManager s.ballListManager

/-- `send` on a connection that its peer has closed and reset raises SIGPIPE, which the server does
not handle. -/
def sendAll (gone : Int → Bool) (sends : Sends) : Except Stuck Sends :=
  if ∃ p ∈ sends, gone p.1 = true then .error .killed else .ok sends

/-- What a step does beside the lists and the queue: `buf[len] = 0` and `task.data[task.length] = 0`
behind the bytes received, and the arrays of `delete_ball`, for which the stack of a worker has
`stack` places. -/
def mishap (stack : Int) (s : ServerState W) : Label W → Option Stuck
  | .recvData bytes => if bytes.length < bufsiz then none else some .outOfBounds
  | .recvEnd =>
    match s.events with
    | .client fd _ :: _ => if s.socket fd = none then some .outOfBounds else none
    | _ => none
  | .execute w _ =>
    match (s.workers w).phase with
    | .holding t =>
      if t.command.1 = cmdDel ∧ stack < max 1 t.command.2.1 then some .killed else none
    | _ => none
  | _ => none

/-- The steps that a thread does not make now: a worker sends first, and a tick is part of a
round. -/
def Sender.barred (s : Sender W) : Label W → Bool
  | .pop w | .execute w _ | .exitDelete w => !(s.postings w).isEmpty
  | .tick => true
  | _ => false

/-- The worker that makes the step. -/
def Label.worker : Label W → Option W
  | .pop w | .execute w _ | .exitDelete w => some w
  | _ => none

variable [DecidableEq W]

theorem Transition.workers {s s' : ServerState W} {l : Label W} (h : Transition s l s') {w : W}
    (hw : l.worker ≠ some w) : s'.workers w = s.workers w := by
  cases h with
  | pop | refuse | exit | dispatch | exitDelete =>
    exact Function.update_of_ne (fun hv => hw (congrArg some hv.symm)) ..
  | _ => rfl

def Sender.postingsAfter (s : Sender W) : Label W → W → List Posting
  | .execute w _ => Function.update s.postings w (answersOf (s.server.workers w))
  | _ => s.postings

def senderStep (stack : Int) (s : Sender W) : SenderLabel W → Except Stuck (Sender W)
  | .thread l =>
    if s.barred l then .error .blocked else do
      let server ← step s.server l
      match mishap stack s.server l with
      | some e => .error e
      | none => .ok { s with server := server, postings := s.postingsAfter l }
  | .cycle gone => do
    let server ← step s.server .tick
    let sends ← broadcastBallStateAll server.clientListManager server.ballListManager
    let sends ← sendAll gone sends
    .ok { s with server := server, sent := s.sent ++ sends }
  | .post w gone =>
    match s.postings w with
    | [] => .error .blocked
    | p :: rest => do
      let sends ← p.sends s.server
      let sends ← sendAll gone sends
      .ok { s with postings := Function.update s.postings w rest, sent := s.sent ++ sends }
  | .recvFails =>
    -- `buf[-1] = 0`
    match s.server.main, s.server.events with
    | .idle, .client _ _ :: _ => .error .outOfBounds
    | _, _ => .error .blocked

/-! ## What a step can do -/

/-- A step is a step of `step`, a round, or the next thing that a worker sends. -/
inductive SenderMove (stack : Int) (s : Sender W) : SenderLabel W → Sender W → Prop where
  | thread {l : Label W} {server : ServerState W} (hfree : s.barred l = false)
      (hstep : step s.server l = .ok server) (hmishap : mishap stack s.server l = none) :
      SenderMove stack s (.thread l)
        { s with server := server, postings := s.postingsAfter l }
  | cycle {gone : Int → Bool} {server : ServerState W} {sends : Sends}
      (hstep : step s.server .tick = .ok server)
      (hsends : broadcastBallStateAll server.clientListManager server.ballListManager = .ok sends)
      (hpeers : ∀ p ∈ sends, gone p.1 = false) :
      SenderMove stack s (.cycle gone) { s with server := server, sent := s.sent ++ sends }
  | post {w : W} {gone : Int → Bool} {p : Posting} {rest : List Posting} {sends : Sends}
      (hposting : s.postings w = p :: rest) (hsends : p.sends s.server = .ok sends)
      (hpeers : ∀ p ∈ sends, gone p.1 = false) :
      SenderMove stack s (.post w gone) { s with
        postings := Function.update s.postings w rest, sent := s.sent ++ sends }

omit [DecidableEq W] in
theorem sendAll_ok {gone : Int → Bool} {sends sends' : Sends} :
    sendAll gone sends = .ok sends' ↔ sends = sends' ∧ ∀ p ∈ sends, gone p.1 = false := by
  have hpeers : (∀ p ∈ sends, gone p.1 = false) ↔ ¬ ∃ p ∈ sends, gone p.1 = true := by
    simp
  rw [hpeers, sendAll]
  split
  · simp [*]
  · simp [*]

/-- **The inversion lemma.** -/
theorem senderStep_ok_iff {stack : Int} {s s' : Sender W} {l : SenderLabel W} :
    senderStep stack s l = .ok s' ↔ SenderMove stack s l s' := by
  constructor
  · intro hok
    cases l with
    | thread l =>
      simp only [senderStep] at hok
      split at hok
      · cases hok
      · rename_i hfree
        obtain ⟨server, hstep, hok⟩ := bind_ok.mp hok
        split at hok
        · cases hok
        · rename_i hmishap
          cases hok
          exact SenderMove.thread (Bool.eq_false_iff.mpr hfree) hstep hmishap
    | cycle gone =>
      obtain ⟨server, hstep, hok⟩ := bind_ok.mp hok
      obtain ⟨sends, hsends, hok⟩ := bind_ok.mp hok
      obtain ⟨sends', hall, hok⟩ := bind_ok.mp hok
      obtain ⟨rfl, hpeers⟩ := sendAll_ok.mp hall
      cases hok
      exact SenderMove.cycle hstep hsends hpeers
    | post w gone =>
      simp only [senderStep] at hok
      split at hok
      · cases hok
      · rename_i p rest hposting
        obtain ⟨sends, hsends, hok⟩ := bind_ok.mp hok
        obtain ⟨sends', hall, hok⟩ := bind_ok.mp hok
        obtain ⟨rfl, hpeers⟩ := sendAll_ok.mp hall
        cases hok
        exact SenderMove.post hposting hsends hpeers
    | recvFails =>
      simp only [senderStep] at hok
      split at hok <;> cases hok
  · intro hmove
    cases hmove with
    | thread hfree hstep hmishap =>
      simp only [senderStep, hfree, hstep, hmishap, bind, Except.bind, Bool.false_eq_true,
        if_false]
    | cycle hstep hsends hpeers =>
      simp only [senderStep, hstep, hsends, sendAll_ok.mpr ⟨rfl, hpeers⟩, bind, Except.bind]
    | post hposting hsends hpeers =>
      simp only [senderStep, hposting, hsends, sendAll_ok.mpr ⟨rfl, hpeers⟩, bind, Except.bind]

theorem SenderMove.sound {stack : Int} {s s' : Sender W} {l : SenderLabel W}
    (hmove : SenderMove stack s l s') (hs : s.server.Sound) : s'.server.Sound := by
  cases hmove with
  | thread hfree hstep => exact (transition_of_step hs hstep).1
  | cycle hstep => exact (transition_of_step hs hstep).1
  | post => exact hs

/-! ## The steps of the server -/

/-- A worker that has something to send has finished its task. -/
def Sender.Orderly (s : Sender W) : Prop :=
  ∀ w, s.postings w = [] ∨ ((s.server.workers w).phase = .ready ∧ (s.postings w).length ≤ 2)

theorem length_answersOf (worker : Worker) : (answersOf worker).length ≤ 2 := by
  unfold answersOf
  split
  · dsimp only
    split_ifs <;> simp
  · exact Nat.zero_le 2

end BallGame.Server
