import BallGame.Protocol.Stream

/-!
# Server and clients under ideal delivery

The server with its clients when the network is as good as it can be: every `send` arrives whole
and in order, a `send` of no bytes delivers nothing, and one `recv` returns the bytes of one
`send`. A step is a critical section or a call of `send` or `recv`; commands, answers,
broadcasts, connections and ticks follow one another in any order.

* `tick_agrees_iff`: when a client shows the list of the server after a tick;
* `last_ball_stays`: a client goes on showing the last ball of the game.
-/

namespace BallGame.Protocol

open Library Server Client

/-! ## The system -/

/-- A client behind a socket: what was sent to it and not received yet, and what it shows. -/
structure Connection where
  width : Int
  height : Int
  inbox : List (List Char)
  view : Client.BallListManager

structure Session where
  ballListManager : Server.BallListManager
  clientListManager : ClientListManager Unit
  conns : Int → Connection

/-- The initial balls of a connection are added by the server with `command 'a'`. -/
inductive SessionLabel where
  | connect (csock width height : Int) (alloc : Option Nat)
  | disconnect (fd : Int)
  | deleteBalls (fd : Int)
  | command (cmd : Char) (count radius csock : Int) (env : CommandEnv)
  | reply (fd : Int) (cmd : Char) (count : Int)
  | invalidFormat (fd : Int)
  | unknownCommand (fd : Int)
  | broadcast
  | tick
  | receive (fd : Int) (choice : Nat → Nat)

/-- The sends to a socket that are not empty are added to what its client has not received. -/
def deliver (conns : Int → Connection) (sends : Sends) : Int → Connection := fun fd =>
  { conns fd with
    inbox := (conns fd).inbox ++ (sends.filter fun p => p.1 = fd ∧ p.2 ≠ []).map Prod.snd }

/-- The memory of the clients suffices. -/
def idealRecv (choice : Nat → Nat) (bytes : List Char) : Recv :=
  ⟨bytes, true, fun i => some (choice i)⟩

def Session.store (s : Session) (e : StoreEvent) : Except Stuck Session := do
  let balls ← eventStep s.ballListManager e
  .ok { s with ballListManager := balls }

theorem Session.store_ok {s : Session} {e : StoreEvent} {balls : Server.BallListManager}
    (h : eventStep s.ballListManager e = .ok balls) :
    s.store e = .ok { s with ballListManager := balls } :=
  bind_ok.mpr ⟨balls, h, rfl⟩

def sessionStep (s : Session) : SessionLabel → Except Stuck Session
  | .connect csock width height alloc => do
    let clients ← addClient s.clientListManager csock () alloc
    .ok { s with
      clientListManager := clients
      conns := Function.update s.conns csock ⟨width, height, [], Client.ballManagerInit⟩ }
  | .disconnect fd => do
    let (_, clients) ← disconnectClient s.clientListManager fd
    .ok { s with clientListManager := clients }
  | .deleteBalls fd => s.store (.disconnect fd)
  | .command cmd count radius csock env => s.store (.command cmd count radius csock env)
  | .reply fd cmd count => .ok { s with conns := deliver s.conns [(fd, okReply cmd count)] }
  | .invalidFormat fd => .ok { s with conns := deliver s.conns [(fd, invalidFormatReply)] }
  | .unknownCommand fd => .ok { s with conns := deliver s.conns [(fd, unknownCommandReply)] }
  | .broadcast => do
    let sends ← broadcastBallState s.clientListManager s.ballListManager
    .ok { s with conns := deliver s.conns sends }
  | .tick => do
    let (balls, sends) ← cycleBroadcastBallState s.clientListManager s.ballListManager
    .ok { s with ballListManager := balls, conns := deliver s.conns sends }
  | .receive fd choice =>
    match (s.conns fd).inbox with
    | [] => .error .blocked
    | bytes :: rest => do
      let view ← socketRecv (s.conns fd).width (s.conns fd).height (s.conns fd).view
        (idealRecv choice bytes)
      .ok { s with
        conns := Function.update s.conns fd { s.conns fd with inbox := rest, view := view } }

def sessionStart : Session where
  ballListManager := Server.ballManagerInit
  clientListManager := clientListManagerInit
  conns := fun _ => ⟨0, 0, [], Client.ballManagerInit⟩

/-- Receive everything that was sent. -/
def Connection.drain (c : Connection) (choice : Nat → Nat) : Except Stuck Client.BallListManager :=
  run (socketRecv c.width c.height) c.view (c.inbox.map (idealRecv choice))

/-- Having received everything, the client shows the balls of the server. -/
def Session.Agrees (s : Session) (fd : Int) (choice : Nat → Nat) : Prop :=
  ∃ view, (s.conns fd).drain choice = .ok view ∧
    view.toList = s.ballListManager.toList.map (image (s.conns fd).width (s.conns fd).height)

/-! ## The invariant -/

structure Session.Sound (s : Session) : Prop where
  balls : ∃ store : BallStore, s.ballListManager.Holds store ∧ store.Bounded
  clients : s.clientListManager.Holds s.clientListManager.toList
  views : ∀ fd, ∃ shown, (s.conns fd).view.Holds shown
  inboxes : ∀ fd, ∀ bytes ∈ (s.conns fd).inbox, Legible bytes ∧ bytes.length < bufferSize

theorem sound_sessionStart : sessionStart.Sound where
  balls := ⟨_, Server.holds_init, bounded_empty⟩
  clients := clientListManagerInit_holds.self
  views := fun _ => ⟨[], Client.holds_init⟩
  inboxes := fun _ _ h => absurd h List.not_mem_nil

theorem complete_idealRecv (choice : Nat → Nat) {bytes : List Char} (htext : Legible bytes)
    (hlen : bytes.length < bufferSize) : (idealRecv choice bytes).Complete := by
  obtain ⟨c, rest, rfl, _⟩ := htext
  exact ⟨List.cons_ne_nil c rest, Nat.le_sub_one_of_lt hlen, rfl, fun i hi => by cases hi⟩

theorem eventStep_bounded {m m' : Server.BallListManager}
    (h : ∃ store : BallStore, m.Holds store ∧ store.Bounded) {e : StoreEvent}
    (hok : eventStep m e = .ok m') : ∃ store : BallStore, m'.Holds store ∧ store.Bounded := by
  obtain ⟨s, hs, hbounded⟩ := h
  obtain ⟨s', hs', hholds⟩ := (hok ▸ eventStep_agree hs e).left_ok
  exact ⟨s', hholds, bounded_step hbounded hs'⟩

theorem Session.Sound.store {s s' : Session} (h : s.Sound) {e : StoreEvent}
    (hok : s.store e = .ok s') : s'.Sound := by
  obtain ⟨balls, hballs, he⟩ := bind_ok.mp hok
  cases he
  exact ⟨eventStep_bounded h.balls hballs, h.clients, h.views, h.inboxes⟩

/-- Replacing the client behind one socket. -/
theorem Session.Sound.setConn {s : Session} (h : s.Sound) (fd : Int) {c : Connection}
    (hview : ∃ shown, c.view.Holds shown)
    (hinbox : ∀ bytes ∈ c.inbox, Legible bytes ∧ bytes.length < bufferSize) :
    Session.Sound { s with conns := Function.update s.conns fd c } := by
  have hconn : ∀ fd', Function.update s.conns fd c fd' = c ∨
      Function.update s.conns fd c fd' = s.conns fd' := by
    intro fd'
    by_cases hfd : fd' = fd
    · rw [hfd, Function.update_self]
      exact Or.inl rfl
    · exact Or.inr (Function.update_of_ne hfd _ _)
  refine ⟨h.balls, h.clients, ?_, ?_⟩
  · intro fd'
    show ∃ shown, (Function.update s.conns fd c fd').view.Holds shown
    rcases hconn fd' with he | he <;> rw [he]
    · exact hview
    · exact h.views fd'
  · intro fd'
    show ∀ bytes ∈ (Function.update s.conns fd c fd').inbox, _
    rcases hconn fd' with he | he <;> rw [he]
    · exact hinbox
    · exact h.inboxes fd'

/-- Sending texts that fit in the buffer and begin with a token. -/
theorem Session.Sound.deliver {s : Session} (h : s.Sound) {sends : Sends}
    (hsends : ∀ p ∈ sends, (p.2 ≠ [] → Legible p.2) ∧ p.2.length < bufferSize) :
    Session.Sound { s with conns := deliver s.conns sends } := by
  refine ⟨h.balls, h.clients, h.views, ?_⟩
  intro fd bytes hbytes
  rcases List.mem_append.mp hbytes with hold | hnew
  · exact h.inboxes fd bytes hold
  · obtain ⟨p, hp, rfl⟩ := List.mem_map.mp hnew
    obtain ⟨hmem, hp⟩ := List.mem_filter.mp hp
    obtain ⟨hlegible, hlen⟩ := hsends p hmem
    exact ⟨hlegible (of_decide_eq_true hp).2, hlen⟩

theorem length_okReply (cmd : Char) (count : Int) : (okReply cmd count).length < bufferSize := by
  have hlen : (okReply cmd count).length ≤ 63 := List.length_take_le _ _
  simp only [bufferSize]
  omega

/-- A text that is sent to one client. -/
theorem Session.Sound.send {s : Session} (h : s.Sound) (fd : Int) {text : List Char}
    (htext : Legible text) (hlen : text.length < bufferSize) :
    Session.Sound { s with conns := Protocol.deliver s.conns [(fd, text)] } := by
  apply h.deliver
  intro p hp
  obtain rfl := List.mem_singleton.mp hp
  exact ⟨fun _ => htext, hlen⟩

/-- What the tick computes: the moved balls, and the frame for every client. -/
theorem cycleBroadcastBallState_eq {s : Session} (h : s.Sound) :
    ∃ balls : Server.BallListManager, (∃ store : BallStore, balls.Holds store ∧ store.Bounded) ∧
      balls.toList = s.ballListManager.toList.map moveLogicalBall ∧
      cycleBroadcastBallState s.clientListManager s.ballListManager =
        if (frame balls.toList).length < bufferSize then
          .ok (balls, s.clientListManager.toList.map fun c => (c.csock, frame balls.toList))
        else .error .outOfBounds := by
  obtain ⟨store, hholds, hbounded⟩ := h.balls
  obtain ⟨balls, hmove, hmoved⟩ := (updateBalls_agree hholds moveLogicalBall).right_ok
  refine ⟨balls, ⟨_, hmoved, hbounded.map moveLogicalBall_bounded⟩, ?_, ?_⟩
  · rw [hmoved.toList_eq, hholds.toList_eq]
    rfl
  · have hmove' : moveAllBall s.ballListManager = .ok balls := hmove
    rw [cycleBroadcastBallState, hmove', hmoved.toList_eq]
    by_cases hfits : (frame (store.map moveLogicalBall).balls).length < bufferSize
    · have hsends := broadcastBallStateAll_eq h.clients hmoved
      rw [if_pos hfits] at hsends ⊢
      exact bind_ok.mpr ⟨balls, rfl, bind_ok.mpr ⟨_, hsends, rfl⟩⟩
    · have hsends := broadcastBallStateAll_eq h.clients hmoved
      rw [if_neg hfits] at hsends ⊢
      simp only [bind, Except.bind, hsends]

/-- **The step lemma.** -/
theorem sound_sessionStep {s s' : Session} (h : s.Sound) {l : SessionLabel}
    (hok : sessionStep s l = .ok s') : s'.Sound := by
  cases l with
  | connect csock width height alloc =>
    obtain ⟨clients, hclients, he⟩ := bind_ok.mp hok
    cases he
    have hlisted : Session.Sound { s with clientListManager := clients } :=
      ⟨h.balls, (addClient_ok h.clients hclients).self, h.views, h.inboxes⟩
    exact hlisted.setConn csock ⟨[], Client.holds_init⟩ fun _ hbytes => absurd hbytes
      List.not_mem_nil
  | disconnect fd =>
    obtain ⟨clients, hclients, hholds⟩ := disconnectClient_ok h.clients fd
    simp only [sessionStep, hclients, bind, Except.bind] at hok
    cases hok
    exact ⟨h.balls, hholds.self, h.views, h.inboxes⟩
  | deleteBalls fd => exact h.store hok
  | command cmd count radius csock env => exact h.store hok
  | reply fd cmd count =>
    cases hok
    exact h.send fd (legible_okReply cmd count) (length_okReply cmd count)
  | invalidFormat fd =>
    cases hok
    exact h.send fd ⟨'I', _, rfl, by decide, by decide⟩ (by decide)
  | unknownCommand fd =>
    cases hok
    exact h.send fd ⟨'U', _, rfl, by decide, by decide⟩ (by decide)
  | broadcast =>
    obtain ⟨sends, hsends, he⟩ := bind_ok.mp hok
    cases he
    obtain ⟨store, hholds, _⟩ := h.balls
    apply h.deliver
    intro p hp
    have htext := broadcastBallState_texts h.clients hsends p hp
    exact ⟨legible_serializeBallList hholds htext, serializeBallList_length hholds htext⟩
  | tick =>
    obtain ⟨balls, hballs, _, heq⟩ := cycleBroadcastBallState_eq h
    simp only [sessionStep, heq] at hok
    split at hok
    · rename_i hfits
      cases hok
      have hmoved : Session.Sound { s with ballListManager := balls } :=
        ⟨hballs, h.clients, h.views, h.inboxes⟩
      apply hmoved.deliver
      intro p hp
      obtain ⟨c, _, rfl⟩ := List.mem_map.mp hp
      exact ⟨legible_of_frame, hfits⟩
    · cases hok
  | receive fd choice =>
    simp only [sessionStep] at hok
    split at hok
    · cases hok
    · rename_i bytes rest hinbox
      obtain ⟨view, hview, he⟩ := bind_ok.mp hok
      cases he
      have hin := h.inboxes fd
      rw [hinbox] at hin
      obtain ⟨shown, hshown⟩ := h.views fd
      obtain ⟨htext, hlen⟩ := hin bytes (List.mem_cons_self ..)
      obtain ⟨view', hview', hholds⟩ := socketRecv_ok hshown
        (complete_idealRecv choice htext hlen) (s.conns fd).width (s.conns fd).height
      rw [hview] at hview'
      cases hview'
      apply h.setConn fd ⟨_, hholds⟩
      intro bytes hbytes
      exact hin bytes (List.mem_cons_of_mem _ hbytes)

theorem sound_session {labels : List SessionLabel} {s : Session}
    (hrun : run sessionStep sessionStart labels = .ok s) : s.Sound :=
  run_invariant (fun _ _ _ h hok => sound_sessionStep h hok) sound_sessionStart hrun

/-! ## Receiving everything -/

/-- Having received a last text, the client shows its tokens. -/
theorem drain_last {s : Session} (h : s.Sound) {fd : Int} {texts : List (List Char)}
    {last : List Char} (hinbox : (s.conns fd).inbox = texts ++ [last]) (choice : Nat → Nat) :
    ∃ view, (s.conns fd).drain choice = .ok view ∧
      view.toList = (tokens '|' (cString last)).map
        (shownBall (s.conns fd).width (s.conns fd).height) := by
  obtain ⟨shown, hshown⟩ := h.views fd
  have hcomplete : ∀ r ∈ texts.map (idealRecv choice) ++ [idealRecv choice last],
      r.Complete := by
    rw [← List.map_singleton, ← List.map_append, ← hinbox]
    intro r hr
    obtain ⟨bytes, hbytes, rfl⟩ := List.mem_map.mp hr
    obtain ⟨htext, hlen⟩ := h.inboxes fd bytes hbytes
    exact complete_idealRecv choice htext hlen
  have hdrain := run_socketRecv hshown hcomplete (s.conns fd).width (s.conns fd).height
  rwa [← List.map_singleton, ← List.map_append, ← hinbox] at hdrain

/-- A client that was sent anything shows something. -/
theorem drain_shows_nothing_iff {s : Session} (h : s.Sound) (fd : Int) (choice : Nat → Nat) :
    (∃ view, (s.conns fd).drain choice = .ok view ∧ view.toList = []) ↔
      (s.conns fd).inbox = [] ∧ (s.conns fd).view.toList = [] := by
  rcases List.eq_nil_or_concat' (s.conns fd).inbox with hinbox | ⟨texts, last, hinbox⟩
  · have hdrain : (s.conns fd).drain choice = .ok (s.conns fd).view := by
      rw [Connection.drain, hinbox]
      rfl
    constructor
    · rintro ⟨view, hview, hnil⟩
      rw [hdrain] at hview
      cases hview
      exact ⟨hinbox, hnil⟩
    · rintro ⟨_, hnil⟩
      exact ⟨_, hdrain, hnil⟩
  · constructor
    · rintro ⟨view, hview, hnil⟩
      obtain ⟨view', hview', hshown⟩ := drain_last h hinbox choice
      rw [hview] at hview'
      cases hview'
      rw [hnil, eq_comm, List.map_eq_nil_iff] at hshown
      obtain ⟨htext, _⟩ := h.inboxes fd last (by simp [hinbox])
      exact absurd hshown htext.tokens_ne_nil
    · rintro ⟨hnil, _⟩
      rw [hnil] at hinbox
      exact absurd hinbox.symm (List.append_ne_nil_of_right_ne_nil _ (List.cons_ne_nil _ _))

/-- Sending the same text to all clients leaves it behind everything else. -/
theorem deliver_to_all {conns : Int → Connection} {clients : List (SocketContext Unit)}
    {ctx : SocketContext Unit} (hctx : ctx ∈ clients) {text : List Char} (hne : text ≠ []) :
    ∃ texts, (deliver conns (clients.map fun c => (c.csock, text)) ctx.csock).inbox =
      texts ++ [text] := by
  have hall : ∀ bytes ∈ ((clients.map fun c => (c.csock, text)).filter
      fun p => p.1 = ctx.csock ∧ p.2 ≠ []).map Prod.snd, bytes = text := by
    intro bytes hbytes
    obtain ⟨p, hp, rfl⟩ := List.mem_map.mp hbytes
    obtain ⟨c, _, rfl⟩ := List.mem_map.mp (List.mem_of_mem_filter hp)
    rfl
  have hmem : text ∈ ((clients.map fun c => (c.csock, text)).filter
      fun p => p.1 = ctx.csock ∧ p.2 ≠ []).map Prod.snd :=
    List.mem_map.mpr ⟨(ctx.csock, text), List.mem_filter.mpr
      ⟨List.mem_map.mpr ⟨ctx, hctx, rfl⟩, decide_eq_true ⟨rfl, hne⟩⟩, rfl⟩
  have hlast := List.dropLast_append_getLast (List.ne_nil_of_mem hmem)
  rw [hall _ (List.getLast_mem _)] at hlast
  exact ⟨(conns ctx.csock).inbox ++ _, by
    rw [List.append_assoc, hlast]
    rfl⟩

/-- A `send` of no bytes delivers nothing. -/
theorem deliver_nothing (conns : Int → Connection) (clients : List (SocketContext Unit)) :
    deliver conns (clients.map fun c => (c.csock, [])) = conns := by
  ext fd
  have hnone : (clients.map fun c => (c.csock, ([] : List Char))).filter
      (fun p => p.1 = fd ∧ p.2 ≠ []) = [] := by
    rw [List.filter_eq_nil_iff]
    intro p hp
    obtain ⟨c, _, rfl⟩ := List.mem_map.mp hp
    simp
  rw [deliver, hnone, List.map_nil, List.append_nil]

/-! ## A tick -/

theorem tick_ok {s : Session} (h : s.Sound)
    (hfits : (frame (s.ballListManager.toList.map moveLogicalBall)).length < bufferSize) :
    ∃ balls : Server.BallListManager, (∀ b ∈ balls.toList, b.Printable) ∧
      balls.toList = s.ballListManager.toList.map moveLogicalBall ∧
      sessionStep s .tick = .ok { s with
        ballListManager := balls
        conns := deliver s.conns
          (s.clientListManager.toList.map fun c => (c.csock, frame balls.toList)) } := by
  obtain ⟨balls, ⟨store, hholds, hbounded⟩, hlist, hcycle⟩ := cycleBroadcastBallState_eq h
  rw [hlist, if_pos hfits, ← hlist] at hcycle
  refine ⟨balls, ?_, hlist, ?_⟩
  · rw [hholds.toList_eq]
    exact fun b hb => (hbounded.balls b hb).printable
  · rw [sessionStep, hcycle]
    rfl

theorem tick_error {s : Session} (h : s.Sound)
    (hfits : ¬ (frame (s.ballListManager.toList.map moveLogicalBall)).length < bufferSize) :
    sessionStep s .tick = .error .outOfBounds := by
  obtain ⟨balls, _, hlist, hcycle⟩ := cycleBroadcastBallState_eq h
  rw [hlist, if_neg hfits] at hcycle
  rw [sessionStep, hcycle]
  rfl

/-- The tick leaves the frame of the moved balls behind everything else. -/
theorem tick_delivers {s : Session} (h : s.Sound)
    (hfits : (frame (s.ballListManager.toList.map moveLogicalBall)).length < bufferSize)
    (hne : s.ballListManager.toList ≠ []) {ctx : SocketContext Unit}
    (hctx : ctx ∈ s.clientListManager.toList) :
    ∃ s', sessionStep s .tick = .ok s' ∧ s'.Sound ∧
      s'.clientListManager = s.clientListManager ∧
      s'.ballListManager.toList = s.ballListManager.toList.map moveLogicalBall ∧
      (∀ b ∈ s'.ballListManager.toList, b.Printable) ∧
      ∃ texts, (s'.conns ctx.csock).inbox = texts ++ [frame s'.ballListManager.toList] := by
  obtain ⟨balls, hbounded, hlist, hstep⟩ := tick_ok h hfits
  have hballs : balls.toList ≠ [] := by
    rw [hlist]
    exact fun hnil => hne (List.map_eq_nil_iff.mp hnil)
  exact ⟨_, hstep, sound_sessionStep h hstep, rfl, hlist, hbounded,
    deliver_to_all hctx (legible_frame hballs).ne_nil⟩

/-- Without balls the tick sends no bytes. -/
theorem tick_nothing {s : Session} (h : s.Sound) (hnil : s.ballListManager.toList = []) :
    ∃ balls : Server.BallListManager, balls.toList = [] ∧
      sessionStep s .tick = .ok { s with ballListManager := balls } := by
  obtain ⟨balls, _, hlist, hstep⟩ := tick_ok h (by rw [hnil]; decide)
  rw [hnil, List.map_nil] at hlist
  have hempty : frame balls.toList = [] := by rw [hlist, frame, List.flatMap_nil]
  rw [hempty, deliver_nothing] at hstep
  exact ⟨balls, hlist, hstep⟩

/-- The text of the moved balls fits in the buffer, and there is a ball or nothing was ever sent
to the client. -/
def Session.TickShown (s : Session) (fd : Int) : Prop :=
  (frame (s.ballListManager.toList.map moveLogicalBall)).length < bufferSize ∧
    (s.ballListManager.toList ≠ [] ∨
      (s.conns fd).inbox = [] ∧ (s.conns fd).view.toList = [])

/-- The client shows the frame that it has received last. -/
theorem agrees_of_tickShown {s : Session} (h : s.Sound) {ctx : SocketContext Unit}
    (hctx : ctx ∈ s.clientListManager.toList) (hshown : s.TickShown ctx.csock)
    (choice : Nat → Nat) :
    ∃ s', sessionStep s .tick = .ok s' ∧ s'.Agrees ctx.csock choice := by
  obtain ⟨hfits, hcase⟩ := hshown
  by_cases hnil : s.ballListManager.toList = []
  · -- the client shows what it showed before
    obtain ⟨balls, hballs, hstep⟩ := tick_nothing h hnil
    obtain ⟨view, hview, hnone⟩ := (drain_shows_nothing_iff h ctx.csock choice).mpr
      (hcase.resolve_left fun hne => hne hnil)
    refine ⟨_, hstep, view, hview, ?_⟩
    rw [hnone, hballs]
    rfl
  · obtain ⟨s', hstep, hsound', _, hlist, hbounded, texts, hinbox⟩ :=
      tick_delivers h hfits hnil hctx
    obtain ⟨view, hview, hshown⟩ := drain_last hsound' hinbox choice
    have hne : s'.ballListManager.toList ≠ [] := by
      rw [hlist]
      exact fun h => hnil (List.map_eq_nil_iff.mp h)
    refine ⟨s', hstep, view, hview, ?_⟩
    rw [hshown, cString_of_not_mem (nul_not_mem_frame hbounded)]
    exact shown_frame hbounded hne separator_nil _ _

/-- **After a tick** and after receiving everything, a client on the list shows the balls of the
server exactly if the condition holds before the tick. -/
theorem tick_agrees_iff (labels : List SessionLabel) (s : Session)
    (hrun : run sessionStep sessionStart labels = .ok s) (ctx : SocketContext Unit)
    (hctx : ctx ∈ s.clientListManager.toList) (choice : Nat → Nat) :
    (∃ s', sessionStep s .tick = .ok s' ∧ s'.Agrees ctx.csock choice) ↔
      s.TickShown ctx.csock := by
  have hsound := sound_session hrun
  refine ⟨?_, fun hshown => agrees_of_tickShown hsound hctx hshown choice⟩
  rintro ⟨s', hs', hagrees⟩
  have hfits : (frame (s.ballListManager.toList.map moveLogicalBall)).length < bufferSize := by
    by_contra hlong
    rw [tick_error hsound hlong] at hs'
    cases hs'
  refine ⟨hfits, or_iff_not_imp_left.mpr fun hball => ?_⟩
  have hnil := Classical.not_not.mp hball
  obtain ⟨balls, hballs, hstep⟩ := tick_nothing hsound hnil
  rw [hstep] at hs'
  cases hs'
  obtain ⟨view, hview, hagree⟩ := hagrees
  rw [hballs, List.map_nil] at hagree
  exact (drain_shows_nothing_iff hsound ctx.csock choice).mp ⟨view, hview, hagree⟩

/-! ## The last ball -/

def oneBall : List SessionLabel :=
  [.connect 7 800 480 (some 0), .command 'a' 1 20 7 zeroDraws]

theorem oneBall_run : ∃ s b ctx, run sessionStep sessionStart oneBall = .ok s ∧
    s.ballListManager.toList = [b] ∧ b.ownerId = 7 ∧ s.clientListManager.toList = [ctx] ∧
    ctx.csock = 7 ∧ (frame [moveLogicalBall b]).length < bufferSize := by
  obtain ⟨s, b, ctx, hrun, hlist, howner, hclients, hcsock⟩ : ∃ s b ctx,
      run sessionStep sessionStart oneBall = .ok s ∧ s.ballListManager.toList = [b] ∧
      b.ownerId = 7 ∧ s.clientListManager.toList = [ctx] ∧ ctx.csock = 7 :=
    ⟨_, _, _, rfl, rfl, rfl, rfl, rfl⟩
  obtain ⟨store, hholds, hbounded⟩ := (sound_session hrun).balls
  have hb : b.Bounded := hbounded.balls b (by simp [← hholds.toList_eq, hlist])
  have hlen : (frame [moveLogicalBall b]).length ≤ 101 :=
    length_frame (by simpa using (moveLogicalBall_bounded hb).printable)
  refine ⟨s, b, ctx, hrun, hlist, howner, hclients, hcsock, ?_⟩
  simp only [bufferSize]
  omega

/-- The only client sees its ball. -/
theorem tick_agrees_iff_one_ball : ∃ s s', run sessionStep sessionStart oneBall = .ok s ∧
    s.ballListManager.toList.length = 1 ∧ sessionStep s .tick = .ok s' ∧ s'.Agrees 7 id := by
  obtain ⟨s, b, ctx, hrun, hlist, _, hclients, hcsock, hfits⟩ := oneBall_run
  have hshown : s.TickShown ctx.csock := by
    rw [Session.TickShown, hlist]
    exact ⟨hfits, Or.inl (List.cons_ne_nil _ _)⟩
  obtain ⟨s', hstep, hagrees⟩ :=
    (tick_agrees_iff oneBall s hrun ctx (by simp [hclients]) id).mpr hshown
  rw [hcsock] at hagrees
  refine ⟨s, s', hrun, ?_, hstep, hagrees⟩
  rw [hlist]
  rfl

/-- The owner of the only ball deletes it. -/
theorem delete_only_ball {m : Server.BallListManager} {store : BallStore} (h : m.Holds store)
    {b : Server.LogicalBall} (hlist : m.toList = [b]) {ownerId : Int} (howner : b.ownerId = ownerId)
    (env : CommandEnv) : ∃ m', eventStep m (.command 'd' 1 20 ownerId env) = .ok m' ∧
      m'.toList = [] := by
  have howned : b.ownedBy ownerId = true := decide_eq_true howner
  have herase : eraseLast (LogicalBall.ownedBy ownerId) 1 store.balls = [] := by
    rw [← h.toList_eq, hlist, eraseLast]
    simp [eraseFirst, howned]
  have hagree := eventStep_agree h (.command 'd' 1 20 ownerId env)
  have hevent : storeEvent store (.command 'd' 1 20 ownerId env) =
      .ok (store.keep (eraseLast (LogicalBall.ownedBy ownerId) 1 store.balls)) := rfl
  rw [hevent, herase] at hagree
  obtain ⟨m', hm', hholds⟩ := hagree.right_ok
  exact ⟨m', hm', hholds.toList_eq⟩

/-- The last ball of the game is deleted, and a client goes on showing it: the tick sends no bytes.
The balls that a connection begins with are left out. -/
theorem last_ball_stays :
    ∃ s ctx s' view,
      run sessionStep sessionStart (oneBall ++ [.tick, .command 'd' 1 20 7 zeroDraws]) = .ok s ∧
      ctx ∈ s.clientListManager.toList ∧ sessionStep s .tick = .ok s' ∧
      s'.ballListManager.toList = [] ∧ (s'.conns ctx.csock).drain id = .ok view ∧
      view.toList.length = 1 ∧ ¬ s'.Agrees ctx.csock id := by
  obtain ⟨s₁, b, ctx, hrun, hlist, howner, hclients, _, hfits⟩ := oneBall_run
  have hctx : ctx ∈ s₁.clientListManager.toList := by simp [hclients]
  -- the first tick
  obtain ⟨s₂, htick, hsound, hsame, hmoved, hbounded, texts, hinbox⟩ :=
    tick_delivers (sound_session hrun) (by rwa [hlist]) (by simp [hlist]) hctx
  rw [hlist, List.map_singleton] at hmoved
  obtain ⟨view, hview, hshown⟩ := drain_last hsound hinbox id
  -- the deletion
  obtain ⟨store, hholds, _⟩ := hsound.balls
  obtain ⟨balls, hdelete, hnil⟩ := delete_only_ball hholds hmoved howner zeroDraws
  have hcommand := Session.store_ok hdelete
  -- the second tick
  obtain ⟨balls', hballs', htick'⟩ := tick_nothing (hsound.store hcommand) hnil
  have hone : view.toList.length = 1 := by
    rw [hshown, List.length_map, cString_of_not_mem (nul_not_mem_frame hbounded),
      tokens_frame hbounded, hmoved]
    rfl
  refine ⟨_, ctx, _, view, run_append_ok.mpr ⟨s₁, hrun, run_cons_ok.mpr ⟨s₂, htick,
    run_cons_ok.mpr ⟨_, hcommand, rfl⟩⟩⟩, hsame ▸ hctx, htick', hballs', hview, hone, ?_⟩
  rintro ⟨view', hview', hagree⟩
  cases hview.symm.trans hview'
  rw [hballs', List.map_nil] at hagree
  rw [hagree] at hone
  cases hone

end BallGame.Protocol
