import BallGame.Server.Orphans

/-!
# Edge-triggered input

The server together with what the kernel keeps for each client socket: the bytes that were not
received yet, whether the end of the stream has arrived, and whether an event is pending. The
sockets are registered with `EPOLLIN | EPOLLET`: an arrival makes an event pending,
`epoll_wait` clears it when it reports it, and bytes that stay in the buffer make no event.

`main` calls `recv` once for an event, with a buffer of `bufsiz` bytes. Nothing is stranded as
long as each of these calls leaves nothing behind or another event is still to come.
-/

namespace BallGame.Server

open Library

variable {W : Type}

def maxEvents : Nat := 64

structure EpollState (W : Type) where
  server : ServerState W
  /-- The receive buffers of the sockets. -/
  buffer : Int → List Char
  /-- The client has closed the connection. -/
  ended : Int → Bool
  pending : Int → Bool

inductive EpollLabel (W : Type) where
  | arrive (fd : Int) (bytes : List Char)
  | finish (fd : Int)
  | server (l : Label W)

def Event.isFor (fd : Int) : Event → Bool
  | .listener => false
  | .client fd' _ => fd' = fd

/-- The listening socket is not edge-triggered. -/
def Event.isPending (pending : Int → Bool) : Event → Bool
  | .listener => true
  | .client fd _ => pending fd

/-- What the system calls of a step read and change; they do not return anything else. -/
def EpollState.kernel (s : EpollState W) : Label W → Except Stuck (EpollState W)
  | .epollWait events =>
    if events.length ≤ maxEvents ∧ events.all (Event.isPending s.pending) then
      .ok { s with pending := fun fd => s.pending fd && !events.any (Event.isFor fd) }
    else
      .error .blocked
  -- a new socket
  | .accept csock => .ok { s with
      buffer := Function.update s.buffer csock []
      ended := Function.update s.ended csock false
      pending := Function.update s.pending csock false }
  -- every event of a client comes with EPOLLIN
  | .skipEvent =>
    match s.server.events with
    | .listener :: _ => .ok s
    | _ => .error .blocked
  | .recvData bytes =>
    match s.server.events with
    | .client fd _ :: _ =>
      if bytes = (s.buffer fd).take bufsiz then
        .ok { s with buffer := Function.update s.buffer fd ((s.buffer fd).drop bufsiz) }
      else
        .error .blocked
    | _ => .error .blocked
  -- `recv` returns 0 at the end of the stream, and -1 if there is nothing to read
  | .recvEnd =>
    match s.server.events with
    | .client fd _ :: _ =>
      if s.buffer fd = [] ∨ s.server.socket fd = none then .ok s else .error .blocked
    | _ => .error .blocked
  | _ => .ok s

def epollStep [DecidableEq W] (s : EpollState W) : EpollLabel W → Except Stuck (EpollState W)
  | .arrive fd bytes =>
    if s.server.socket fd ≠ none ∧ s.ended fd = false ∧ bytes ≠ [] then
      .ok { s with
        buffer := Function.update s.buffer fd (s.buffer fd ++ bytes)
        pending := Function.update s.pending fd true }
    else
      .error .blocked
  | .finish fd =>
    if s.server.socket fd ≠ none ∧ s.ended fd = false then
      .ok { s with
        ended := Function.update s.ended fd true
        pending := Function.update s.pending fd true }
    else
      .error .blocked
  | .server l => do
    let k ← s.kernel l
    let server ← step s.server l
    .ok { k with server := server }

def epollStart : EpollState W := ⟨start, fun _ => [], fun _ => false, fun _ => false⟩

/-- Bytes, or the end of the stream, arrive on a socket. -/
structure Arrives (s s' : EpollState W) (fd : Int) : Prop where
  server : s'.server = s.server
  pending : s'.pending fd = true
  buffer : ∀ o, o ≠ fd → s'.buffer o = s.buffer o
  ended : ∀ o, o ≠ fd → s'.ended o = s.ended o
  others : ∀ o, o ≠ fd → s'.pending o = s.pending o

/-- The effect of a label. -/
inductive EpollStepped [DecidableEq W] (s : EpollState W) : EpollLabel W → EpollState W → Prop
  | arrive {fd : Int} {bytes : List Char} {s' : EpollState W} (h : Arrives s s' fd) :
      EpollStepped s (.arrive fd bytes) s'
  | finish {fd : Int} {s' : EpollState W} (h : Arrives s s' fd) : EpollStepped s (.finish fd) s'
  | server {l : Label W} {k : EpollState W} {u : ServerState W} (hk : s.kernel l = .ok k)
      (hu : step s.server l = .ok u) : EpollStepped s (.server l) { k with server := u }

theorem epollStepped_of_step [DecidableEq W] {s s' : EpollState W} {l : EpollLabel W}
    (h : epollStep s l = .ok s') : EpollStepped s l s' := by
  cases l with
  | arrive fd bytes =>
    simp only [epollStep] at h
    split at h
    · cases h
      exact .arrive ⟨rfl, Function.update_self .., fun _ => (Function.update_of_ne · ..),
        fun _ _ => rfl, fun _ => (Function.update_of_ne · ..)⟩
    · cases h
  | finish fd =>
    simp only [epollStep] at h
    split at h
    · cases h
      exact .finish ⟨rfl, Function.update_self .., fun _ _ => rfl,
        fun _ => (Function.update_of_ne · ..), fun _ => (Function.update_of_ne · ..)⟩
    · cases h
  | server l =>
    obtain ⟨k, hk, h₁⟩ := bind_ok.mp h
    obtain ⟨u, hu, he⟩ := bind_ok.mp h₁
    cases he
    exact .server hk hu

/-! ## Stranded input -/

namespace EpollState

/-- Something is left to receive: bytes or the end of the stream. -/
def Leftover (s : EpollState W) (fd : Int) : Prop := s.buffer fd ≠ [] ∨ s.ended fd = true

/-- If the main thread is about to call `epoll_wait`, then no client on the list without a
pending event has anything left. -/
def Drained (s : EpollState W) : Prop :=
  s.server.main = .idle → s.server.events = [] →
    ∀ ctx ∈ s.server.clientList, s.pending ctx.csock = false →
      s.buffer ctx.csock = [] ∧ s.ended ctx.csock = false

/-- An event of the socket is pending, or the main thread has not handled one yet. -/
inductive Notified (s : EpollState W) (fd : Int) : Prop where
  | pending (h : s.pending fd = true)
  | queued {conn : Conn} (h : Event.client fd conn ∈ s.server.events)
  | hungUp {conn : Conn} (h : s.server.main = .hungUp fd conn)

end EpollState

/-- The `recv` of the step leaves nothing behind, or another event of the socket is pending or
was reported with this one. -/
def NothingLeft (s : EpollState W) : EpollLabel W → Prop
  | .server (.recvData _) =>
    ∀ fd conn rest, s.server.events = .client fd conn :: rest → Listed s.server fd →
      ((s.buffer fd).length ≤ bufsiz ∧ s.ended fd = false) ∨ s.pending fd = true ∨
        ∃ conn', Event.client fd conn' ∈ rest
  | _ => True

/-! ## The invariant -/

/-- The number is on the list, or about to be put there. -/
def Registered (s : ServerState W) (fd : Int) : Prop :=
  Listed s fd ∨ ∃ conn, s.main = .accepted fd conn

/-- The clients on the list have open sockets with different numbers. -/
structure Numbers (s : ServerState W) : Prop where
  nodup : (s.clientList.map SocketContext.csock).Nodup
  isOpen : ∀ fd, Registered s fd → s.socket fd ≠ none
  fresh : ∀ fd conn, s.main = .accepted fd conn → ¬ Listed s fd

/-- Every client on the list with something left is going to be looked at. -/
def EpollState.NoneStranded (s : EpollState W) : Prop :=
  ∀ fd, Registered s.server fd → s.Leftover fd → s.Notified fd

theorem listed_iff {s : ServerState W} {fd : Int} :
    Listed s fd ↔ fd ∈ s.clientList.map SocketContext.csock := by
  simp [Listed]

theorem map_csock_eraseP (cs : List (SocketContext Conn)) (fd : Int) :
    (cs.eraseP fun c => c.csock = fd).map SocketContext.csock =
      (cs.map SocketContext.csock).erase fd := by
  rw [List.erase_eq_eraseP, List.eraseP_map]
  congr 1
  congr 1
  ext c
  simp [beq_eq_decide, eq_comm]

/-- Nobody is new on the list, and nobody was accepted. -/
theorem registered_of_clients {s u : ServerState W}
    (hclients : ∀ c ∈ u.clientList, c ∈ s.clientList)
    (hmain : ∀ fd conn, u.main = .accepted fd conn → s.main = .accepted fd conn) {fd : Int}
    (h : Registered u fd) : Registered s fd := by
  rcases h with ⟨c, hc, rfl⟩ | ⟨conn, hm⟩
  · exact Or.inl ⟨c, hclients c hc, rfl⟩
  · exact Or.inr ⟨conn, hmain _ _ hm⟩

/-- The main thread lists the client that it accepted. -/
theorem registered_addClient {s : ServerState W} {csock : Int} {conn : Conn}
    {alloc : Option Nat} {clients : ClientListManager Conn} (hmain : s.main = .accepted csock conn)
    (hclients : clients.toList =
      if alloc.isSome then s.clientList ++ [⟨csock, conn⟩] else s.clientList) {fd : Int}
    (h : Registered { s with clientListManager := clients, main := .listed csock conn } fd) :
    Registered s fd := by
  rcases h with ⟨c, hc, rfl⟩ | ⟨c, hm⟩
  · rw [ServerState.clientList, hclients] at hc
    split at hc
    · rcases List.mem_append.mp hc with hc | hc
      · exact Or.inl ⟨c, hc, rfl⟩
      · obtain rfl := List.mem_singleton.mp hc
        exact Or.inr ⟨conn, hmain⟩
    · exact Or.inl ⟨c, hc, rfl⟩
  · cases hm

namespace Numbers

variable {s s' : ServerState W}

/-- Without `accept` and without a change of the list. -/
theorem congr (h : Numbers s) (hclients : s'.clientList = s.clientList)
    (hsocket : s'.socket = s.socket)
    (hmain : ∀ fd conn, s'.main = .accepted fd conn → s.main = .accepted fd conn) :
    Numbers s' := by
  refine ⟨by rw [hclients]; exact h.nodup, ?_, ?_⟩
  · intro fd hfd
    rw [hsocket]
    exact h.isOpen fd (registered_of_clients (by simp [hclients]) hmain hfd)
  · intro fd conn hm
    rw [Listed, hclients]
    exact h.fresh fd conn (hmain _ _ hm)

/-- A client that is taken off the list is on it no more. -/
theorem not_listed (h : Numbers s) {fd : Int}
    (hclients : s'.clientList = s.clientList.eraseP fun c => c.csock = fd) : ¬ Listed s' fd := by
  rw [listed_iff, hclients, map_csock_eraseP]
  exact h.nodup.not_mem_erase

theorem remove (h : Numbers s) {fd : Int}
    (hclients : s'.clientList = s.clientList.eraseP fun c => c.csock = fd)
    (hsocket : s'.socket =
      (s.client fd).elim s.socket fun ctx => Function.update s.socket ctx.csock none)
    (hmain : ∀ fd conn, s'.main = .accepted fd conn → s.main = .accepted fd conn) :
    Numbers s' := by
  have hsub : ∀ c ∈ s'.clientList, c ∈ s.clientList := by
    intro c hc
    rw [hclients] at hc
    exact List.mem_of_mem_eraseP hc
  refine ⟨?_, ?_, ?_⟩
  · rw [hclients, map_csock_eraseP]
    exact h.nodup.erase fd
  · intro o ho
    have hopen := h.isOpen o (registered_of_clients hsub hmain ho)
    rw [hsocket]
    cases hclient : s.client fd with
    | none => exact hopen
    | some ctx =>
      have hctx : ctx.csock = fd := by
        have := List.find?_some hclient
        simpa using this
      have hmem : Listed s fd := ⟨ctx, List.mem_of_find?_eq_some hclient, hctx⟩
      have hne : o ≠ fd := by
        rintro rfl
        rcases ho with hl | ⟨conn, hm⟩
        · exact h.not_listed hclients hl
        · exact h.fresh _ _ (hmain _ _ hm) hmem
      show Function.update s.socket ctx.csock none o ≠ none
      rw [hctx, Function.update_of_ne hne]
      exact hopen
  · rintro o conn hm ⟨c, hc, hfd⟩
    exact h.fresh o conn (hmain _ _ hm) ⟨c, hsub c hc, hfd⟩

theorem step [DecidableEq W] (h : Numbers s) {l : Label W} (ht : Transition s l s') :
    Numbers s' := by
  cases ht with
  | @accept csock rest hmain hevents hfree =>
    have hnew : ¬ Listed s csock := fun hl => h.isOpen csock (Or.inl hl) hfree
    refine ⟨h.nodup, ?_, ?_⟩
    · intro o ho
      by_cases hne : o = csock
      · subst hne
        simp
      · simp only [Function.update_of_ne hne]
        rcases ho with hl | ⟨conn, hm⟩
        · exact h.isOpen o (Or.inl hl)
        · cases hm
          exact absurd rfl hne
    · intro o conn hm
      cases hm
      exact hnew
  | @addClient csock conn alloc clients hmain hclients =>
    refine ⟨?_, ?_, ?_⟩
    · rw [ServerState.clientList, hclients]
      split
      · have hnew := h.fresh csock conn hmain
        rw [listed_iff] at hnew
        rw [List.map_append, List.nodup_append]
        simp only [List.map_cons, List.map_nil, List.mem_singleton, List.nodup_singleton]
        refine ⟨h.nodup, trivial, ?_⟩
        rintro a ha b rfl rfl
        exact hnew ha
      · exact h.nodup
    · intro o ho
      exact h.isOpen o (registered_addClient hmain hclients ho)
    · intro o c hm
      cases hm
  | countClient hmain hclients => exact h.congr hclients rfl (by simp)
  | hangUpRemove hmain hclients => exact h.remove hclients rfl (by simp)
  | exit hworker hexit hclients => exact h.remove hclients rfl fun _ _ => id
  | addInitialBalls => exact h.congr rfl rfl (by simp)
  | recvData => exact h.congr rfl rfl (by simp)
  | recvEnd => exact h.congr rfl rfl (by simp)
  | push => exact h.congr rfl rfl (by simp)
  | hangUpDelete => exact h.congr rfl rfl (by simp)
  | _ => exact h.congr rfl rfl fun _ _ => id

end Numbers

/-! ## Steps -/

namespace EpollState

variable {s s' : EpollState W}

/-- While the main thread handles the events `e :: rest`. -/
theorem Notified.next {fd : Int} (h : s.Notified fd) (hmain : s.server.main = .idle) {e : Event}
    {rest : List Event} (hevents : s.server.events = e :: rest) :
    s.pending fd = true ∨ (∃ conn, e = .client fd conn) ∨ ∃ conn, Event.client fd conn ∈ rest := by
  cases h with
  | pending hp => exact Or.inl hp
  | @queued conn he =>
    rw [hevents] at he
    rcases List.mem_cons.mp he with he | he
    · exact Or.inr (Or.inl ⟨conn, he.symm⟩)
    · exact Or.inr (Or.inr ⟨conn, he⟩)
  | hungUp hm =>
    rw [hmain] at hm
    cases hm

/-- Nothing happens to the sockets, and no event is lost. -/
theorem NoneStranded.congr (h : s.NoneStranded)
    (hreg : ∀ fd, Registered s'.server fd → Registered s.server fd)
    (hbuffer : s'.buffer = s.buffer) (hended : s'.ended = s.ended)
    (hpending : s'.pending = s.pending)
    (hevents : ∀ fd conn, Event.client fd conn ∈ s.server.events →
      Event.client fd conn ∈ s'.server.events)
    (hmain : ∀ fd conn, s.server.main = .hungUp fd conn →
      s'.server.main = .hungUp fd conn ∨ ¬ Registered s'.server fd) : s'.NoneStranded := by
  intro fd hfd hleft
  have hold : s.Leftover fd := by
    rwa [Leftover, hbuffer, hended] at hleft
  cases h fd (hreg fd hfd) hold with
  | pending hp => exact .pending (by rwa [hpending])
  | queued he => exact .queued (hevents _ _ he)
  | hungUp hm =>
    rcases hmain _ _ hm with hm' | hout
    · exact .hungUp hm'
    · exact absurd hfd hout

/-- The main thread is done with a client. -/
theorem NoneStranded.idle (h : s.NoneStranded) {k : EpollState W} {u : ServerState W}
    (hk : (.ok s : Except Stuck (EpollState W)) = .ok k) (hmain : u.main = .idle)
    (hclients : u.clientList = s.server.clientList) (hevents : u.events = s.server.events)
    (hold : ∀ fd conn, s.server.main ≠ .hungUp fd conn) :
    ({ k with server := u } : EpollState W).NoneStranded := by
  cases hk
  refine h.congr ?_ rfl rfl rfl ?_ (fun fd conn hm => absurd hm (hold fd conn))
  · intro fd hfd
    exact registered_of_clients (by simp [hclients]) (by simp [hmain]) hfd
  · intro fd conn he
    show Event.client fd conn ∈ u.events
    rwa [hevents]

/-- An arrival on a socket makes its event pending. -/
theorem NoneStranded.arrival (h : s.NoneStranded) {o : Int} (ha : Arrives s s' o) :
    s'.NoneStranded := by
  intro fd hfd hleft
  by_cases hne : fd = o
  · subst hne
    exact .pending ha.pending
  · have hold : s.Leftover fd := by
      rwa [Leftover, ha.buffer fd hne, ha.ended fd hne] at hleft
    rw [ha.server] at hfd
    cases h fd hfd hold with
    | pending hp => exact .pending (by rwa [ha.others fd hne])
    | queued he => exact .queued (by rwa [ha.server])
    | hungUp hm => exact .hungUp (by rwa [ha.server])

end EpollState

/-! ### The system calls -/

section

variable {s k : EpollState W} {u : ServerState W} {rest : List Event}

/-- The events that are no longer pending are the ones to handle. -/
theorem noneStranded_epollWait {events : List Event} (h : s.NoneStranded)
    (hmain : s.server.main = .idle) (hevents : s.server.events = [])
    (hk : s.kernel (.epollWait events) = .ok k)
    (hreg : ∀ fd, Registered u fd → Registered s.server fd) (hu : u.events = events) :
    ({ k with server := u } : EpollState W).NoneStranded := by
  simp only [EpollState.kernel] at hk
  split at hk
  · cases hk
    intro fd hfd hleft
    cases h fd (hreg fd hfd) hleft with
    | pending hp =>
      by_cases hany : events.any (Event.isFor fd) = true
      · obtain ⟨e, he, hfor⟩ := List.any_eq_true.mp hany
        cases e with
        | listener => cases hfor
        | client fd' conn =>
          obtain rfl : fd' = fd := by simpa [Event.isFor] using hfor
          rw [← hu] at he
          exact .queued he
      · exact .pending (by simp [hp, Bool.eq_false_iff.mpr hany])
    | queued he =>
      rw [hevents] at he
      cases he
    | hungUp hm =>
      rw [hmain] at hm
      cases hm
  · cases hk

/-- A new socket has nothing to receive. -/
theorem noneStranded_accept {csock : Int} (h : s.NoneStranded) (hmain : s.server.main = .idle)
    (hevents : s.server.events = .listener :: rest) (hk : s.kernel (.accept csock) = .ok k)
    (hreg : ∀ fd, fd ≠ csock → Registered u fd → Registered s.server fd)
    (hu : u.events = rest) : ({ k with server := u } : EpollState W).NoneStranded := by
  cases hk
  intro fd hfd hleft
  have hne : fd ≠ csock := by
    rintro rfl
    simp [EpollState.Leftover] at hleft
  have hold : s.Leftover fd := by
    simpa [EpollState.Leftover, Function.update_of_ne hne] using hleft
  rcases (h fd (hreg fd hne hfd) hold).next hmain hevents with hp | ⟨conn, he⟩ | ⟨conn, he⟩
  · exact .pending (by simpa [Function.update_of_ne hne] using hp)
  · cases he
  · rw [← hu] at he
    exact .queued he

/-- Only events of the listening socket are skipped. -/
theorem noneStranded_skipEvent {e : Event} (h : s.NoneStranded) (hmain : s.server.main = .idle)
    (hevents : s.server.events = e :: rest) (hk : s.kernel .skipEvent = .ok k)
    (hreg : ∀ fd, Registered u fd → Registered s.server fd) (hu : u.events = rest) :
    ({ k with server := u } : EpollState W).NoneStranded := by
  simp only [EpollState.kernel, hevents] at hk
  split at hk
  · rename_i hhead
    cases hk
    cases hhead
    intro fd hfd hleft
    rcases (h fd (hreg fd hfd) hleft).next hmain hevents with hp | ⟨conn, he⟩ | ⟨conn, he⟩
    · exact .pending hp
    · cases he
    · rw [← hu] at he
      exact .queued he
  · cases hk

/-- `recv` leaves nothing in the buffer, or another event is to come. -/
theorem noneStranded_recvData {fd : Int} {conn : Conn} {bytes : List Char} (h : s.NoneStranded)
    (hC : NothingLeft s (.server (.recvData bytes))) (hmain : s.server.main = .idle)
    (hevents : s.server.events = .client fd conn :: rest)
    (hk : s.kernel (.recvData bytes) = .ok k)
    (hreg : ∀ fd, Registered u fd → Listed s.server fd) (hu : u.events = rest) :
    ({ k with server := u } : EpollState W).NoneStranded := by
  simp only [EpollState.kernel, hevents] at hk
  split at hk
  · cases hk
    subst hu
    intro o ho hleft
    have hlisted := hreg o ho
    by_cases hne : o = fd
    · subst hne
      rcases hC o conn _ hevents hlisted with ⟨hlen, hend⟩ | hp | ⟨c, he⟩
      · simp [EpollState.Leftover, List.drop_eq_nil_of_le hlen, hend] at hleft
      · exact .pending hp
      · exact .queued he
    · have hold : s.Leftover o := by
        simpa [EpollState.Leftover, Function.update_of_ne hne] using hleft
      rcases (h o (Or.inl hlisted) hold).next hmain hevents with hp | ⟨c, he⟩ | ⟨c, he⟩
      · exact .pending hp
      · cases he
        exact absurd rfl hne
      · exact .queued he
  · cases hk

/-- A client whose end was seen is about to be removed. -/
theorem noneStranded_recvEnd {fd : Int} {conn : Conn} (h : s.NoneStranded)
    (hmain : s.server.main = .idle) (hevents : s.server.events = .client fd conn :: rest)
    (hk : s.kernel .recvEnd = .ok k) (hreg : ∀ fd, Registered u fd → Registered s.server fd)
    (hmain' : u.main = .hungUp fd conn) (hu : u.events = rest) :
    ({ k with server := u } : EpollState W).NoneStranded := by
  simp only [EpollState.kernel, hevents] at hk
  split at hk
  · cases hk
    subst hu
    intro o ho hleft
    rcases (h o (hreg o ho) hleft).next hmain hevents with hp | ⟨c, he⟩ | ⟨c, he⟩
    · exact .pending hp
    · cases he
      exact .hungUp hmain'
    · exact .queued he
  · cases hk

end

/-- A system call and the step it belongs to. -/
theorem noneStranded_server [DecidableEq W] {s k : EpollState W} {u : ServerState W} {l : Label W}
    (hn : Numbers s.server) (h : s.NoneStranded) (hC : NothingLeft s (.server l))
    (hk : s.kernel l = .ok k) (ht : Transition s.server l u) :
    ({ k with server := u } : EpollState W).NoneStranded := by
  cases ht with
  | epollWait hmain hevents _ =>
    exact noneStranded_epollWait h hmain hevents hk (fun _ => id) rfl
  | @accept csock rest hmain hevents hfree =>
    refine noneStranded_accept h hmain hevents hk ?_ rfl
    intro fd hne hfd
    rcases hfd with hl | ⟨conn, hm⟩
    · exact Or.inl hl
    · cases hm
      exact absurd rfl hne
  | skipEvent hmain hevents =>
    exact noneStranded_skipEvent h hmain hevents hk (fun _ => id) rfl
  | addClient hmain hclients =>
    cases hk
    refine h.congr ?_ rfl rfl rfl (fun _ _ => id) (by simp [hmain])
    intro fd hfd
    exact registered_addClient hmain hclients hfd
  | recvData hmain hevents _ _ =>
    refine noneStranded_recvData h hC hmain hevents hk ?_ rfl
    intro fd hfd
    rcases hfd with hl | ⟨c, hm⟩
    · exact hl
    · cases hm
  | recvEnd hmain hevents =>
    refine noneStranded_recvEnd h hmain hevents hk ?_ rfl rfl
    intro fd hfd
    refine registered_of_clients ?_ (by simp) hfd
    exact fun _ => id
  | @hangUpRemove fd conn clients hmain hclients =>
    cases hk
    refine h.congr ?_ rfl rfl rfl (fun _ _ => id) ?_
    · intro o ho
      refine registered_of_clients ?_ (by simp) ho
      intro c hc
      have hmem : c ∈ clients.toList := hc
      rw [hclients] at hmem
      exact List.mem_of_mem_eraseP hmem
    · intro o c hm
      rw [hmain] at hm
      cases hm
      right
      rintro (hl | ⟨c', hm⟩)
      · refine hn.not_listed ?_ hl
        exact hclients
      · cases hm
  | @exit w env t count radius clients hworker hexit hclients =>
    cases hk
    refine h.congr ?_ rfl rfl rfl (fun _ _ => id) (fun _ _ hm => Or.inl hm)
    intro o ho
    refine registered_of_clients ?_ ?_ ho
    · intro c hc
      have hmem : c ∈ clients.toList := hc
      rw [hclients] at hmem
      exact List.mem_of_mem_eraseP hmem
    · exact fun _ _ => id
  | @countClient csock conn clients hmain hclients =>
    cases hk
    refine h.congr ?_ rfl rfl rfl (fun _ _ => id) (by simp [hmain])
    intro o ho
    refine registered_of_clients ?_ (by simp) ho
    intro c hc
    rwa [← hclients]
  | addInitialBalls hmain => exact h.idle hk rfl rfl rfl (by simp [hmain])
  | push hmain => exact h.idle hk rfl rfl rfl (by simp [hmain])
  | hangUpDelete hmain => exact h.idle hk rfl rfl rfl (by simp [hmain])
  | _ =>
    cases hk
    exact h.congr (fun _ => id) rfl rfl rfl (fun _ _ => id) (fun _ _ hm => Or.inl hm)

/-- What holds in every state of a run whose calls of `recv` leave nothing behind. -/
structure EpollState.Orderly (s : EpollState W) : Prop where
  sound : s.server.Sound
  numbers : Numbers s.server
  none : s.NoneStranded

theorem EpollState.Orderly.arrival {s s' : EpollState W} (hs : s.Orderly) {fd : Int}
    (ha : Arrives s s' fd) : s'.Orderly := by
  refine ⟨?_, ?_, hs.none.arrival ha⟩
  · rw [ha.server]
    exact hs.sound
  · rw [ha.server]
    exact hs.numbers

theorem orderly_step [DecidableEq W] {s s' : EpollState W} {l : EpollLabel W} (hs : s.Orderly)
    (hC : NothingLeft s l) (h : epollStep s l = .ok s') : s'.Orderly := by
  cases epollStepped_of_step h with
  | arrive ha => exact hs.arrival ha
  | finish ha => exact hs.arrival ha
  | server hk hu =>
    obtain ⟨hsound, ht⟩ := transition_of_step hs.sound hu
    exact ⟨hsound, hs.numbers.step ht, noneStranded_server hs.numbers hs.none hC hk ht⟩

theorem epollStart_orderly : (epollStart : EpollState W).Orderly := by
  have hempty : (start : ServerState W).clientList = [] :=
    clientListManagerInit_holds.toList_eq
  refine ⟨sound_start, ⟨?_, ?_, by simp [start, epollStart]⟩, ?_⟩
  · show ((start : ServerState W).clientList.map _).Nodup
    rw [hempty]
    exact List.nodup_nil
  · intro fd hfd
    rcases hfd with ⟨c, hc, _⟩ | ⟨c, hm⟩
    · have hmem : c ∈ (start : ServerState W).clientList := hc
      rw [hempty] at hmem
      cases hmem
    · cases hm
  · intro fd _ hleft
    simp [EpollState.Leftover, epollStart] at hleft

theorem EpollState.Orderly.drained {s : EpollState W} (h : s.Orderly) : s.Drained := by
  intro hmain hevents ctx hctx hpending
  by_contra hleft
  have hnotified := h.none ctx.csock (Or.inl ⟨ctx, hctx, rfl⟩) (by
    rw [not_and_or] at hleft
    rcases hleft with hb | he
    · exact Or.inl hb
    · exact Or.inr (by simpa using he))
  cases hnotified with
  | pending hp =>
    rw [hpending] at hp
    cases hp
  | queued he =>
    rw [hevents] at he
    cases he
  | hungUp hm =>
    rw [hmain] at hm
    cases hm

/-! ## What stays behind -/

/-- Neither an arrival on the socket, nor a new socket with this number. -/
def Silent (fd : Int) : EpollLabel W → Prop
  | .arrive o _ => o ≠ fd
  | .finish o => o ≠ fd
  | .server (.accept o) => o ≠ fd
  | .server _ => True

/-- Something is left, and no event says so. -/
structure EpollState.Unnoticed (s : EpollState W) (fd : Int) : Prop where
  leftover : s.Leftover fd
  pending : s.pending fd = false
  unqueued : ∀ conn, Event.client fd conn ∉ s.server.events

/-- Fewer events are queued, and the socket is as it was. -/
theorem EpollState.Unnoticed.congr {s s' : EpollState W} {fd : Int} (h : s.Unnoticed fd)
    (hbuffer : s'.buffer fd = s.buffer fd) (hended : s'.ended fd = s.ended fd)
    (hpending : s'.pending fd = s.pending fd)
    (hevents : ∀ e ∈ s'.server.events, e ∈ s.server.events) : s'.Unnoticed fd := by
  refine ⟨?_, hpending.trans h.pending, ?_⟩
  · rw [EpollState.Leftover, hbuffer, hended]
    exact h.leftover
  · intro conn he
    exact h.unqueued conn (hevents _ he)

theorem unnoticed_server [DecidableEq W] {s k : EpollState W} {u : ServerState W} {l : Label W}
    {fd : Int} (h : s.Unnoticed fd) (hsilent : Silent fd (.server l)) (hk : s.kernel l = .ok k)
    (ht : Transition s.server l u) : ({ k with server := u } : EpollState W).Unnoticed fd := by
  cases ht with
  | @epollWait events hmain hevents hready =>
    simp only [EpollState.kernel] at hk
    split at hk
    · rename_i hreported
      cases hk
      refine ⟨h.leftover, by simp [h.pending], ?_⟩
      intro conn he
      have hp := List.all_eq_true.mp hreported.2 _ he
      simp only [Event.isPending, h.pending] at hp
      cases hp
    · cases hk
  | @accept csock rest hmain hevents hfree =>
    cases hk
    have hne : fd ≠ csock := Ne.symm hsilent
    apply h.congr <;> simp [Function.update_of_ne hne]
    intro e he
    rw [hevents]
    exact List.mem_cons_of_mem _ he
  | @skipEvent e rest hmain hevents =>
    simp only [EpollState.kernel, hevents] at hk
    split at hk
    · cases hk
      refine h.congr rfl rfl rfl ?_
      intro e he
      rw [hevents]
      exact List.mem_cons_of_mem _ he
    · cases hk
  | @recvData o conn conn' rest bytes t hmain hevents hsocket =>
    have hne : fd ≠ o := by
      rintro rfl
      apply h.unqueued conn
      rw [hevents]
      exact List.mem_cons_self ..
    simp only [EpollState.kernel, hevents] at hk
    split at hk
    · cases hk
      apply h.congr <;> simp [Function.update_of_ne hne]
      intro e he
      rw [hevents]
      exact List.mem_cons_of_mem _ he
    · cases hk
  | @recvEnd o conn rest hmain hevents =>
    simp only [EpollState.kernel, hevents] at hk
    split at hk
    · cases hk
      refine h.congr rfl rfl rfl ?_
      intro e he
      rw [hevents]
      exact List.mem_cons_of_mem _ he
    · cases hk
  | _ =>
    cases hk
    exact h.congr rfl rfl rfl fun _ => id

theorem EpollState.Unnoticed.arrival {s s' : EpollState W} {fd o : Int} (h : s.Unnoticed fd)
    (hne : fd ≠ o) (ha : Arrives s s' o) : s'.Unnoticed fd := by
  apply h.congr (ha.buffer fd hne) (ha.ended fd hne) (ha.others fd hne)
  rw [ha.server]
  exact fun _ => id

theorem unnoticed_step [DecidableEq W] {s s' : EpollState W} {l : EpollLabel W} {fd : Int}
    (hs : s.server.Sound) (h : s.Unnoticed fd) (hsilent : Silent fd l)
    (hstep : epollStep s l = .ok s') : s'.Unnoticed fd := by
  cases epollStepped_of_step hstep with
  | arrive ha => exact h.arrival (Ne.symm hsilent) ha
  | finish ha => exact h.arrival (Ne.symm hsilent) ha
  | server hk hu => exact unnoticed_server h hsilent hk (transition_of_step hs hu).2

theorem sound_epollStep [DecidableEq W] {s s' : EpollState W} {l : EpollLabel W}
    (hs : s.server.Sound) (hstep : epollStep s l = .ok s') : s'.server.Sound := by
  cases epollStepped_of_step hstep with
  | arrive ha => rwa [ha.server]
  | finish ha => rwa [ha.server]
  | server _ hu => exact (transition_of_step hs hu).1

/-- A `recv` that leaves something behind without another event. -/
theorem unnoticed_of_leftover [DecidableEq W] {s s' : EpollState W} {l : EpollLabel W}
    (hs : s.server.Sound) (hstep : epollStep s l = .ok s') (hC : ¬ NothingLeft s l) :
    ∃ fd, Listed s'.server fd ∧ s'.Unnoticed fd := by
  cases epollStepped_of_step hstep with
  | @server l k u hk hu =>
    cases l with
    | recvData bytes =>
      simp only [NothingLeft, not_forall, not_or, not_exists, not_and_or] at hC
      obtain ⟨fd, conn, rest, hevents, hlisted, hleft, hpending, hqueued⟩ := hC
      cases (transition_of_step hs hu).2 with
      | @recvData o conn₁ conn' rest' _ t hmain hevents' hsocket =>
        rw [hevents'] at hevents
        cases hevents
        simp only [EpollState.kernel, hevents'] at hk
        split at hk
        · cases hk
          refine ⟨fd, hlisted, ?_, by simpa using hpending, hqueued⟩
          rcases hleft with hlong | hend
          · left
            simpa using hlong
          · right
            simpa using hend
        · cases hk
    | _ => exact absurd trivial hC
  | _ => exact absurd trivial hC

theorem EpollState.Unnoticed.not_drained {s : EpollState W} {fd : Int} (h : s.Unnoticed fd)
    (hlisted : Listed s.server fd) (hmain : s.server.main = .idle)
    (hevents : s.server.events = []) : ¬ s.Drained := by
  intro hdrained
  obtain ⟨ctx, hctx, rfl⟩ := hlisted
  obtain ⟨hbuffer, hended⟩ := hdrained hmain hevents ctx hctx h.pending
  rcases h.leftover with hb | he
  · exact hb hbuffer
  · rw [hended] at he
    cases he

/-! ## Runs -/

/-- **When input is stranded.** If every `recv` of a run that returns bytes of a client on the
list leaves nothing behind, or another event of its socket is pending or was reported with this
one, then in every state of the run in which the main thread is about to call `epoll_wait`, the
clients without a pending event have empty buffers and have not closed their connections. After
any other `recv` its client is stranded whenever the main thread is about to call `epoll_wait`,
until something arrives from it, its number gets a new socket, or it is taken off the list. -/
theorem edge_triggered_input [DecidableEq W] (ls : List (EpollLabel W)) (s : EpollState W)
    (hrun : run epollStep epollStart ls = .ok s) :
    (Throughout epollStep NothingLeft epollStart ls →
      ∀ u, Visits epollStep epollStart ls u → u.Drained) ∧
    ∀ l s', epollStep s l = .ok s' → ¬ NothingLeft s l →
      ∃ fd, Listed s'.server fd ∧ ∀ ls' u, run epollStep s' ls' = .ok u →
        (∀ l ∈ ls', Silent fd l) → Listed u.server fd → u.server.main = .idle →
        u.server.events = [] → ¬ u.Drained := by
  constructor
  · intro hC u hu
    apply EpollState.Orderly.drained
    apply visits_invariant_throughout _ hC epollStart_orderly hu
    intro v l v' hv hl hstep
    exact orderly_step hv hl hstep
  · intro l s' hstep hC
    have hs : s.server.Sound := run_invariant (I := fun v : EpollState W => v.server.Sound)
      (fun _ _ _ hv hv' => sound_epollStep hv hv') epollStart_orderly.sound hrun
    obtain ⟨fd, hlisted, hunnoticed⟩ := unnoticed_of_leftover hs hstep hC
    refine ⟨fd, hlisted, ?_⟩
    intro ls' u hrun' hsilent hl hmain hevents
    have hinv := run_invariant_throughout (I := fun v : EpollState W =>
      v.server.Sound ∧ v.Unnoticed fd) ?_ (throughout_of_mem hsilent)
      ⟨sound_epollStep hs hstep, hunnoticed⟩ hrun'
    · exact hinv.2.not_drained hl hmain hevents
    · intro v l v' hl hv hv'
      exact ⟨sound_epollStep hv.1 hv', unnoticed_step hv.1 hv.2 hl hv'⟩

/-- A client connects as socket 7. -/
def oneClient : List (EpollLabel Unit) :=
  [.server (.epollWait [.listener]), .server (.accept 7), .server (.addClient (some 0)),
    .server .countClient, .server (.addInitialBalls zeroDraws)]

/-- It sends `w`, and closes its connection after this was received. -/
def closesLater : List (EpollLabel Unit) :=
  oneClient ++ [.arrive 7 ['w'], .server (.epollWait [.client 7 0]), .server (.recvData ['w']),
    .server .push, .finish 7, .server (.epollWait [.client 7 0]), .server .recvEnd,
    .server .hangUpRemove, .server .hangUpDelete]

theorem edge_triggered_input_closesLater :
    ∃ s, run epollStep epollStart closesLater = .ok s ∧
      ∀ u, Visits epollStep epollStart closesLater u → u.Drained := by
  refine ⟨_, rfl, (edge_triggered_input closesLater _ rfl).1 ?_⟩
  iterate 7 refine throughout_cons_of_ok rfl trivial ?_
  refine throughout_cons_of_ok rfl ?_ ?_
  · rintro fd conn rest hevents _
    cases hevents
    exact Or.inl ⟨by decide, rfl⟩
  · iterate 6 refine throughout_cons_of_ok rfl trivial ?_
    trivial

/-- The client sends `w` and closes its connection before `main` calls `recv`. It stays on the
list, and nothing reports its end. -/
theorem closed_client_stays :
    ¬ ∀ (ls : List (EpollLabel Unit)) s, run epollStep epollStart ls = .ok s → s.Drained := by
  intro hall
  obtain ⟨s, hs, hmain, hevents, hclients, hpending, hended⟩ : ∃ s,
      run epollStep epollStart (oneClient ++ [.arrive 7 ['w'], .finish 7,
        .server (.epollWait [.client 7 0]), .server (.recvData ['w']), .server .push]) = .ok s ∧
      s.server.main = .idle ∧ s.server.events = [] ∧ s.server.clientList = [⟨7, 0⟩] ∧
      s.pending 7 = false ∧ s.ended 7 = true := ⟨_, rfl, rfl, rfl, rfl, rfl, rfl⟩
  have hdrained := (hall _ s hs hmain hevents ⟨7, 0⟩ (by simp [hclients]) hpending).2
  rw [hended] at hdrained
  cases hdrained

end BallGame.Server
