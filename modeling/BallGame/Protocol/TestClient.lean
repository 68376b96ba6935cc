import BallGame.Protocol.ClientShutdown

/-!
# The test client

`test_client.c` is the client without its pictures, and with a `select` of 100 ms in front of
`recv`, as at the keyboard. All other threads are those of the client.

* `TestClient.Sound`: behind `select` there is always something to receive;
* `test_client_shuts_down`: what can keep the test client from ending is an unfinished line.
-/

namespace BallGame.Protocol

open Library

/-! ## The process -/

/-- Where `socket_recv_thread` stands. -/
inductive PollPlace where
  /-- `while (keep_running)`. -/
  | test
  | select
  | receive
  | exited
  deriving DecidableEq

/-- The `receiver` of the process only tells whether the thread has come to its end. -/
structure TestClient where
  process : ClientProcess
  poll : PollPlace

inductive TestLabel where
  /-- A step that is none of the thread that receives. -/
  | process (l : ProcessLabel)
  /-- `select` may time out, and `recv` returns so many bytes. -/
  | poll (timedOut : Bool) (count : Nat)

/-- The end of the connection is readable, too. -/
def ClientProcess.Readable (s : ClientProcess) : Prop := 0 < s.arrived ∨ s.hungUp = true

instance (s : ClientProcess) : Decidable s.Readable := inferInstanceAs (Decidable (_ ∨ _))

inductive TestMove (s : TestClient) : TestLabel → TestClient → Prop where
  | process {l : ProcessLabel} {p : ClientProcess} (hl : l.receives = false)
    (hmove : ProcessMove s.process l p) : TestMove s (.process l) { s with process := p }
  | poll {timedOut : Bool} {count : Nat} (hplace : s.poll = .test)
    (hkeep : s.process.keyboard.keepRunning = true) :
    TestMove s (.poll timedOut count) { s with poll := .select }
  | leave {timedOut : Bool} {count : Nat} (hplace : s.poll = .test)
    (hstop : s.process.keyboard.keepRunning = false) :
    TestMove s (.poll timedOut count) ⟨{ s.process with receiver := .exited }, .exited⟩
  | ready {timedOut : Bool} {count : Nat} (hplace : s.poll = .select)
    (hready : s.process.Readable) : TestMove s (.poll timedOut count) { s with poll := .receive }
  | timeout {timedOut : Bool} {count : Nat} (hplace : s.poll = .select) :
    TestMove s (.poll timedOut count) { s with poll := .test }
  | received {timedOut : Bool} {count : Nat} (hplace : s.poll = .receive) :
    TestMove s (.poll timedOut count)
      ⟨{ s.process with arrived := s.process.arrived - count }, .test⟩
  | recvEnd {timedOut : Bool} {count : Nat} (hplace : s.poll = .receive) :
    TestMove s (.poll timedOut count) ⟨{ s.process with
      receiver := .exited
      keyboard := { s.process.keyboard with keepRunning := false } }, .exited⟩

/-- Nobody else receives, so that what `select` has seen is still there. -/
structure TestClient.Sound (s : TestClient) : Prop where
  process : s.process.Sound
  exited_iff : s.process.receiver = .exited ↔ s.poll = .exited
  readable : s.poll = .receive → s.process.Readable

theorem ProcessMove.other {s s' : ClientProcess} {l : ProcessLabel} (h : ProcessMove s l s')
    (hl : l.receives = false) : s'.receiver = s.receiver ∧ (s.Readable → s'.Readable) := by
  cases h with
  | recvWait | recvLeave | received | recvEnd => cases hl
  | arrive count =>
    exact ⟨rfl, Or.imp_left fun hpos => Nat.lt_of_lt_of_le hpos (Nat.le_add_right _ _)⟩
  | hangUp => exact ⟨rfl, fun _ => Or.inr rfl⟩
  | _ => exact ⟨rfl, id⟩

/-- The thread that receives comes to its end. -/
theorem ClientProcess.Sound.leave {s : ClientProcess} (h : s.Sound) (keyboard : Keyboard)
    (hplace : keyboard.place = s.keyboard.place) :
    ClientProcess.Sound { s with receiver := .exited, keyboard := keyboard } := by
  refine h.threads ?_ rfl rfl rfl rfl
  intro t ht
  cases t with
  | render => exact ht
  | recv => exact rfl
  | send => exact hplace.trans ht

/-- A step of `main` or of a thread. -/
def TestLabel.internal : TestLabel → Bool
  | .process l => l.internal
  | .poll _ _ => true

def PollPlace.rank : PollPlace → Nat
  | .select => 3
  | .receive => 2
  | .test => 1
  | .exited => 0

/-- A bound on the steps that are left when `keep_running` is cleared. -/
def TestClient.remaining (s : TestClient) : Nat := s.process.remaining + s.poll.rank

theorem TestMove.closer {s s' : TestClient} {l : TestLabel} (h : TestMove s l s')
    (hstop : s.process.keyboard.keepRunning = false) (hl : l.internal = true) :
    s'.process.keyboard.keepRunning = false ∧ s'.remaining < s.remaining := by
  cases h with
  | process _ hmove =>
    obtain ⟨hstop', hlt⟩ := hmove.closer hstop hl
    exact ⟨hstop', Nat.add_lt_add_right hlt _⟩
  | poll hplace hkeep =>
    rw [hstop] at hkeep
    cases hkeep
  | leave hplace =>
    refine ⟨hstop, ?_⟩
    simp only [TestClient.remaining, ClientProcess.remaining, hplace, PollPlace.rank,
      ReceiverPlace.rank]
    omega
  | recvEnd hplace =>
    have hkeyboard : ({ s.process.keyboard with keepRunning := false } : Keyboard).rank =
        s.process.keyboard.rank := rfl
    refine ⟨rfl, ?_⟩
    simp only [TestClient.remaining, ClientProcess.remaining, hplace, PollPlace.rank,
      ReceiverPlace.rank, hkeyboard]
    omega
  | ready hplace | timeout hplace | received hplace =>
    refine ⟨hstop, ?_⟩
    simp only [TestClient.remaining, ClientProcess.remaining, hplace, PollPlace.rank]
    omega

end BallGame.Protocol
