import BallGame.Server.EdgeTriggered

/-!
# Open sockets and the client list

The main thread opens sockets, and both the main thread and the workers close them, in critical
sections that also change the client list and its counter. The kernel alone does not give out a
number twice; that `accept` never returns a number of the list follows from this.

* `opened_step`, `uncounted_step`: how a step changes sockets, list and counter;
* `sockets_listed`: the open sockets are those of the clients on the list and of the client that
  the main thread is about to add.
-/

namespace BallGame.Server

open Library

variable {W : Type}

/-! ## The sockets -/

/-- A socket is open exactly if its client is on the list, or about to be put there. -/
structure Opened (s : ServerState W) : Prop where
  numbers : Numbers s
  open_iff : ∀ fd conn, s.socket fd = some conn ↔
    ⟨fd, conn⟩ ∈ s.clientList ∨ s.main = .accepted fd conn

theorem opened_start : Opened (start : ServerState W) where
  numbers := epollStart_orderly.numbers
  open_iff := by
    intro fd conn
    constructor
    · exact nofun
    · rintro (hmem | hmain)
      · cases hmem
      · cases hmain

/-- A step that neither opens nor closes a socket. -/
theorem Opened.congr {s s' : ServerState W} (h : Opened s) (hnumbers : Numbers s')
    (hclients : s'.clientList = s.clientList) (hsocket : s'.socket = s.socket)
    (hmain : ∀ fd conn, s'.main = .accepted fd conn ↔ s.main = .accepted fd conn) : Opened s' := by
  refine ⟨hnumbers, fun fd conn => ?_⟩
  rw [hsocket, hclients, hmain]
  exact h.open_iff fd conn

/-- A client is taken off the list and its socket is closed. -/
theorem Opened.remove {s s' : ServerState W} (h : Opened s) (hnumbers : Numbers s') {fd : Int}
    (hclients : s'.clientList = s.clientList.eraseP fun c => c.csock = fd)
    (hsocket : s'.socket =
      (s.client fd).elim s.socket fun ctx => Function.update s.socket ctx.csock none)
    (hmain : ∀ fd conn, s'.main = .accepted fd conn ↔ s.main = .accepted fd conn) : Opened s' := by
  refine ⟨hnumbers, fun o conn => ?_⟩
  cases hclient : s.client fd with
  | none =>
    have hnone : ∀ c ∈ s.clientList, ¬ decide (c.csock = fd) = true := by
      have hfind : s.clientList.find? (fun c => c.csock = fd) = none := hclient
      exact List.find?_eq_none.mp hfind
    rw [hsocket, hclient, hclients, List.eraseP_of_forall_not hnone, hmain]
    exact h.open_iff o conn
  | some ctx =>
    have hfind : s.clientList.find? (fun c => c.csock = fd) = some ctx := hclient
    have hcsock : ctx.csock = fd := by simpa using List.find?_some hfind
    have hlisted : Listed s fd := ⟨ctx, List.mem_of_find?_eq_some hfind, hcsock⟩
    have hclosed : s'.socket = Function.update s.socket fd none := by
      rw [hsocket, hclient, ← hcsock]
      rfl
    rw [hclosed]
    by_cases ho : o = fd
    · subst ho
      rw [Function.update_self]
      constructor
      · exact nofun
      · rintro (hmem | haccepted)
        · exact absurd ⟨_, hmem, rfl⟩ (h.numbers.not_listed hclients)
        · exact absurd hlisted (h.numbers.fresh _ _ ((hmain _ _).mp haccepted))
    · have hmem : ⟨o, conn⟩ ∈ s'.clientList ↔ ⟨o, conn⟩ ∈ s.clientList := by
        rw [hclients]
        exact List.mem_eraseP_of_neg (by simpa using ho)
      rw [Function.update_of_ne ho, hmem, hmain]
      exact h.open_iff o conn

variable [DecidableEq W]

/-- Allocations of nodes succeed. -/
def Allocates : Label W → Prop
  | .addClient alloc => alloc ≠ none
  | _ => True

theorem opened_step {s s' : ServerState W} {l : Label W} (h : Opened s) (hl : Allocates l)
    (ht : Transition s l s') : Opened s' := by
  have hnumbers := h.numbers.step ht
  cases ht with
  | @accept csock rest hmain hevents hfree =>
    refine ⟨hnumbers, fun fd conn => ?_⟩
    have hnew : ∀ conn, ⟨csock, conn⟩ ∉ s.clientList := by
      intro conn hmem
      have hopen := (h.open_iff csock conn).mpr (Or.inl hmem)
      exact nomatch hfree.symm.trans hopen
    by_cases hfd : fd = csock
    · subst hfd
      simp only [Function.update_self, Option.some.injEq, MainPhase.accepted.injEq, true_and]
      constructor
      · exact Or.inr
      · rintro (hmem | hconn)
        · exact absurd hmem (hnew conn)
        · exact hconn
    · simp only [Function.update_of_ne hfd, MainPhase.accepted.injEq]
      rw [h.open_iff fd conn, hmain]
      constructor
      · rintro (hmem | hidle)
        · exact Or.inl hmem
        · cases hidle
      · rintro (hmem | ⟨hnum, _⟩)
        · exact Or.inl hmem
        · exact absurd hnum.symm hfd
  | @addClient csock conn alloc clients hmain hclients =>
    obtain ⟨choice, rfl⟩ := Option.ne_none_iff_exists'.mp hl
    refine ⟨hnumbers, fun fd c => ?_⟩
    have hlist : clients.toList = s.clientList ++ [⟨csock, conn⟩] := hclients
    rw [ServerState.clientList, hlist, List.mem_append, List.mem_singleton]
    refine (h.open_iff fd c).trans ?_
    rw [hmain]
    constructor
    · rintro (hmem | hphase)
      · exact Or.inl (Or.inl hmem)
      · cases hphase
        exact Or.inl (Or.inr rfl)
    · rintro ((hmem | hnew) | hphase)
      · exact Or.inl hmem
      · cases hnew
        exact Or.inr rfl
      · cases hphase
  | countClient hmain hclients =>
    refine h.congr hnumbers hclients rfl ?_
    simp [hmain]
  | hangUpRemove hmain hclients =>
    refine h.remove hnumbers hclients rfl ?_
    simp [hmain]
  | exit hworker hexit hclients => exact h.remove hnumbers hclients rfl fun _ _ => Iff.rfl
  | addInitialBalls hmain | recvData hmain | recvEnd hmain | push hmain | hangUpDelete hmain =>
    refine h.congr hnumbers rfl rfl ?_
    simp [hmain]
  | _ => exact h.congr hnumbers rfl rfl fun _ _ => Iff.rfl

/-! ## The counter -/

/-- The clients of the list that are not counted. -/
def ClientListManager.uncounted (m : ClientListManager Conn) : Int :=
  m.toList.length - m.clientCount

/-- The client that the main thread is about to count. -/
def MainPhase.uncounted : MainPhase → Int
  | .listed _ _ => 1
  | _ => 0

theorem disconnectClient_uncounted {m m' : ClientListManager Conn} (h : m.Holds m.toList)
    {fd : Int} {removed : Option (SocketContext Conn)}
    (hok : disconnectClient m fd = .ok (removed, m')) : m'.uncounted = m.uncounted := by
  obtain ⟨lost, ns, hr, hns⟩ := h
  rcases disconnectClient_cases hr fd with
    ⟨_, hsame⟩ | ⟨pre, n, post, m₁, hsplit, _, _, hremoved, hr', hcount⟩
  · cases hok.symm.trans hsame
    rfl
  · cases hok.symm.trans hremoved
    have hlist : m'.toList = (pre ++ post).map Prod.snd := hr'.toList_eq
    rw [ClientListManager.uncounted, ClientListManager.uncounted, hlist, ← hns, hsplit, hcount]
    simp only [List.length_map, List.length_append, List.length_cons]
    omega

omit [DecidableEq W] in
theorem removeClient_clients {s s' : ServerState W} {fd : Int} (h : removeClient s fd = .ok s') :
    s'.main = s.main ∧ ∃ removed,
      disconnectClient s.clientListManager fd = .ok (removed, s'.clientListManager) := by
  obtain ⟨⟨removed, clients⟩, hclients, hremoved⟩ := bind_ok.mp h
  cases removed with
  | none =>
    cases hremoved
    exact ⟨rfl, _, hclients⟩
  | some ctx =>
    cases hremoved
    exact ⟨rfl, _, hclients⟩

/-- What a worker does with the client list. -/
theorem executeTask_clients {s s' : ServerState W} {w : W} {env : CommandEnv}
    (h : executeTask s w env = .ok s') : s'.main = s.main ∧
      (s'.clientListManager = s.clientListManager ∨
        ∃ fd removed, disconnectClient s.clientListManager fd =
          .ok (removed, s'.clientListManager)) := by
  unfold executeTask at h
  split at h
  · next t hworker =>
    dsimp only at h
    split at h
    · cases h
      exact ⟨rfl, Or.inl rfl⟩
    split at h
    · obtain ⟨u, hu, hs'⟩ := bind_ok.mp h
      cases hs'
      obtain ⟨hmain, removed, hclients⟩ := removeClient_clients hu
      exact ⟨hmain, Or.inr ⟨_, _, hclients⟩⟩
    split at h
    · obtain ⟨r, _, hs'⟩ := bind_ok.mp h
      cases hs'
      exact ⟨rfl, Or.inl rfl⟩
    · cases h
      exact ⟨rfl, Or.inl rfl⟩
  · cases h

theorem uncounted_step {s s' : ServerState W} (hs : s.Sound) {l : Label W} (hl : Allocates l)
    (hok : step s l = .ok s') (h : s.clientListManager.uncounted = s.main.uncounted) :
    s'.clientListManager.uncounted = s'.main.uncounted := by
  have hholds : s.clientListManager.Holds s.clientListManager.toList := hs.clients
  cases (transition_of_step hs hok).2 with
  | @addClient csock conn alloc clients hmain hclients =>
    obtain ⟨choice, rfl⟩ := Option.ne_none_iff_exists'.mp hl
    have hlist : clients.toList = s.clientList ++ [⟨csock, conn⟩] := hclients
    simp only [step, listClient, hmain] at hok
    obtain ⟨clients', hadd, hs'⟩ := bind_ok.mp hok
    cases hs'
    obtain ⟨l, _, hclients'⟩ := bind_ok.mp hadd
    have hcount : clients.clientCount = s.clientListManager.clientCount := by
      cases hclients'
      rfl
    rw [hmain] at h
    have hbefore : (s.clientList.length : Int) - s.clientListManager.clientCount = 0 := h
    have hafter :
        ((s.clientList.length + 1 : Nat) : Int) - s.clientListManager.clientCount = 1 := by omega
    rw [ClientListManager.uncounted, hlist, hcount, List.length_append, List.length_singleton]
    exact hafter
  | @countClient csock conn clients hmain hclients =>
    simp only [step, countClient, hmain] at hok
    cases hok
    rw [hmain] at h
    have hbefore : (s.clientList.length : Int) - s.clientListManager.clientCount = 1 := h
    have hafter : (s.clientList.length : Int) - (s.clientListManager.clientCount + 1) = 0 := by
      omega
    exact hafter
  | @hangUpRemove fd conn clients hmain hclients =>
    simp only [step, hangUpRemove, hmain] at hok
    obtain ⟨u, hu, hs'⟩ := bind_ok.mp hok
    obtain ⟨_, removed, hremoved⟩ := removeClient_clients hu
    have hu : u.clientListManager = clients :=
      congrArg (fun v : ServerState W => v.clientListManager) (Except.ok.inj hs')
    have hsame := disconnectClient_uncounted hholds (hu ▸ hremoved)
    rw [hmain] at h
    exact hsame.trans h
  | refuse | exit | dispatch =>
    obtain ⟨hmain, hsame | ⟨fd, removed, hremoved⟩⟩ := executeTask_clients hok
    · rw [hsame, hmain, h]
    · rw [disconnectClient_uncounted hholds hremoved, hmain, h]
  | accept hmain | addInitialBalls hmain | recvData hmain | recvEnd hmain | push hmain
  | hangUpDelete hmain =>
    rw [hmain] at h
    exact h
  | _ => exact h

/-- **The open sockets are the clients.** In every run of any number of workers in which the nodes
of clients can be allocated and the list of clients changes at once (`add_client` is called without
the mutex), whatever clients send and whenever they leave: a socket is open exactly if its client is
on the list or the main thread is about to put it there, no number is on the list twice, `accept`
never returns one that is on the list, and the counter is the length of the list, but for the client
that the main thread is about to count. -/
theorem sockets_listed (labels : List (Label W)) (s : ServerState W)
    (hrun : run step start labels = .ok s) (halloc : ∀ l ∈ labels, Allocates l) :
    (∀ fd conn, s.socket fd = some conn ↔
      ⟨fd, conn⟩ ∈ s.clientList ∨ s.main = .accepted fd conn) ∧
      (s.clientList.map SocketContext.csock).Nodup ∧
      (∀ csock s', step s (.accept csock) = .ok s' → ¬ Listed s csock) ∧
      s.clientListManager.clientCount + s.main.uncounted = s.clientList.length := by
  obtain ⟨hsound, hopened, hcount⟩ := run_invariant_throughout (C := fun _ l => Allocates l)
    (I := fun s => ServerState.Sound s ∧ Opened s ∧
      s.clientListManager.uncounted = s.main.uncounted) (fun s l s' hl h hok => by
        obtain ⟨hs', ht⟩ := transition_of_step h.1 hok
        exact ⟨hs', opened_step h.2.1 hl ht, uncounted_step h.1 hl hok h.2.2⟩)
    (throughout_of_mem halloc) ⟨sound_start, opened_start, rfl⟩ hrun
  refine ⟨hopened.open_iff, hopened.numbers.nodup, ?_, ?_⟩
  · intro csock s' hok hlisted
    cases (transition_of_step hsound hok).2 with
    | accept hmain hevents hfree => exact hopened.numbers.isOpen csock (Or.inl hlisted) hfree
  · have hlength : (s.clientList.length : Int) - s.clientListManager.clientCount =
        s.main.uncounted := hcount
    omega

/-- A client leaves while the main thread is about to count another one. -/
def leftBeforeCount : List (Label Unit) :=
  [.epollWait [.listener], .accept 7, .addClient (some 0), .countClient, .addInitialBalls zeroDraws,
    .epollWait [.client 7 0, .listener], .recvData ['x'], .push, .accept 8, .addClient (some 1),
    .pop (), .execute () zeroDraws]

theorem sockets_listed_leftBeforeCount : ∃ s, run step start leftBeforeCount = .ok s ∧
    s.clientListManager.clientCount = 0 ∧ s.clientList.length = 1 ∧ s.socket 7 = none ∧
    s.socket 8 = some 1 := by
  obtain ⟨s, hs, hcount, hclients, hmain, hclosed⟩ : ∃ s,
      run step start leftBeforeCount = .ok s ∧ s.clientListManager.clientCount = 0 ∧
      s.clientList = [⟨8, 1⟩] ∧ s.main.uncounted = 1 ∧ s.socket 7 = none :=
    ⟨_, rfl, rfl, rfl, rfl, rfl⟩
  have halloc : ∀ l ∈ leftBeforeCount, Allocates l := by
    simp [leftBeforeCount, Allocates]
  obtain ⟨hsockets, _, _, hlength⟩ := sockets_listed leftBeforeCount s hs halloc
  refine ⟨s, hs, hcount, by omega, hclosed, (hsockets 8 1).mpr (Or.inl ?_)⟩
  rw [hclients]
  exact List.mem_singleton_self _

end BallGame.Server
