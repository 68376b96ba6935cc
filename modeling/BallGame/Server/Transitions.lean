import BallGame.Server.Threads

/-!
# What a step can do

The inversion lemma of the step function. `Sound` says that the ball store, the client list and
the queue are well formed, and `Transition` lists what a step does to a sound state, with the
queue and the client list as lists and the ball store as the nodes of its linked list. Every
invariant of the server is proved by cases on `Transition`.

* `eventStep_nodes`: an event of the ball store leaves the balls of other owners alone;
* `transition_of_step`: a step keeps a sound state sound and is a transition.
-/

namespace BallGame.Server

open Library

/-! ## Events of the ball store, node by node -/

/-- An addition for `o` of which some allocation succeeds. -/
def StoreEvent.CreatesFor (o : Int) : StoreEvent → Prop
  | .command cmd count _ ownerId env => ownerId = o ∧ cmd = cmdAdd ∧
      ∃ i < (if count ≤ 0 then 1 else count).toNat, env.alloc i ≠ none
  | _ => False

/-- An operation for `o` leaves the nodes of other owners alone. A node of `o` was there
before, or it is a new one, and new ones only come about if the operation `creates`. -/
structure Serves (o : Int) (creates : Prop) (ns ns' : List (Nat × LogicalBall)) : Prop where
  others : ns'.filter (fun n => !nodeOwnedBy o n) = ns.filter fun n => !nodeOwnedBy o n
  own : ∀ n ∈ ns', nodeOwnedBy o n = true →
    (∃ n₀ ∈ ns, n₀.1 = n.1 ∧ nodeOwnedBy o n₀ = true) ∨ (creates ∧ n.1 ∉ ns.map Prod.fst)

/-- One iteration after the other appends at most one node, and none if no allocation
succeeds. -/
theorem addBallLoop_nodes {radius o : Int} {draws : Nat → RandomDraws} {alloc : Nat → Option Nat}
    {remaining i : Nat} {m m' : BallListManager} {s : BallStore} (h : m.Holds s)
    (hok : addBallLoop radius o draws alloc remaining i m = .ok m') :
    ∃ added, m'.nodes = m.nodes ++ added ∧ (∀ n ∈ added, nodeOwnedBy o n = true) ∧
      (added ≠ [] → ∃ j < remaining, alloc (i + j) ≠ none) := by
  induction remaining generalizing i m s with
  | zero =>
    cases hok
    exact ⟨[], by simp, by simp, fun hne => absurd rfl hne⟩
  | succ remaining ih =>
    obtain ⟨total, _, hok₁⟩ := bind_ok.mp hok
    obtain ⟨b, hb, hok₂⟩ := bind_ok.mp hok₁
    obtain ⟨l, hl, hok₃⟩ := bind_ok.mp hok₂
    obtain ⟨hr, hns⟩ := h.nodes_eq
    have hagree := appendBall_agree hr hns b total (alloc i)
    rw [hl] at hagree
    obtain ⟨s', hs', hholds⟩ := hagree.left_ok
    obtain ⟨added, hadded, hown, hrest⟩ := ih hholds hok₃
    obtain ⟨x, y, _, _, rfl⟩ := createLogicalBall_ok.mp hb
    have hstep : ∃ one, l.nodes = m.nodes ++ one ∧ (∀ n ∈ one, nodeOwnedBy o n = true) ∧
        (one ≠ [] → alloc i ≠ none) := by
      have hlost : s.lost = false ∨ m.nodes = [] := by
        obtain ⟨hne, _⟩ := push_ok.mp hs'
        cases hl : s.lost with
        | false => exact Or.inl rfl
        | true =>
          refine Or.inr (List.map_eq_nil_iff (f := Prod.snd).mp ?_)
          rw [hns]
          exact Classical.not_not.mp fun hnil => hne ⟨hl, hnil⟩
      cases halloc : alloc i with
      | none =>
        obtain ⟨l', hl', hr'⟩ :=
          hr.append_failed hlost (newBall m.totalCount radius o (draws i) x y)
        rw [appendBall, halloc, hl'] at hl
        cases hl
        exact ⟨[], by rw [hr'.nodes_eq]; simp, by simp, fun hne => absurd rfl hne⟩
      | some choice =>
        obtain ⟨l', hl', hr'⟩ :=
          hr.append_ok hlost (newBall m.totalCount radius o (draws i) x y) choice
        rw [appendBall, halloc, hl'] at hl
        cases hl
        exact ⟨_, hr'.nodes_eq, by simp [nodeOwnedBy, LogicalBall.ownedBy, newBall],
          fun _ hnone => by cases hnone⟩
    obtain ⟨one, hone, hown₁, hfirst⟩ := hstep
    refine ⟨one ++ added, by rw [hadded, ← List.append_assoc]; exact congrArg (· ++ added) hone,
      fun n hn => ?_, fun hne => ?_⟩
    · rcases List.mem_append.mp hn with hn | hn
      · exact hown₁ n hn
      · exact hown n hn
    · by_cases hone' : one = []
      · obtain ⟨j, hj, halloc⟩ := hrest (by simpa [hone'] using hne)
        exact ⟨j + 1, by omega, by rwa [Nat.add_right_comm, ← Nat.add_assoc] at *⟩
      · exact ⟨0, by omega, hfirst hone'⟩

theorem Serves.of_append {o : Int} {ns added : List (Nat × LogicalBall)}
    (hd : ((ns ++ added).map Prod.fst).Nodup) (hown : ∀ n ∈ added, nodeOwnedBy o n = true) :
    Serves o (added ≠ []) ns (ns ++ added) := by
  refine ⟨?_, ?_⟩
  · have hnone : added.filter (fun n => !nodeOwnedBy o n) = [] :=
      List.filter_eq_nil_iff.mpr fun n hn => by simp [hown n hn]
    rw [List.filter_append, hnone, List.append_nil]
  · intro n hn ho
    rcases List.mem_append.mp hn with hn | hn
    · exact Or.inl ⟨n, hn, rfl, ho⟩
    · refine Or.inr ⟨List.ne_nil_of_mem hn, ?_⟩
      intro hmem
      rw [List.map_append, List.nodup_append] at hd
      exact hd.2.2 n.1 hmem n.1 (List.mem_map_of_mem hn) rfl

theorem Serves.of_sublist {o : Int} {ns ns' : List (Nat × LogicalBall)} (hsub : ns'.Sublist ns)
    (hothers : ns'.filter (fun n => !nodeOwnedBy o n) = ns.filter fun n => !nodeOwnedBy o n) :
    Serves o False ns ns' :=
  ⟨hothers, fun n hn ho => Or.inl ⟨n, hsub.subset hn, rfl, ho⟩⟩

theorem Serves.of_map {o : Int} {ns : List (Nat × LogicalBall)} {f : LogicalBall → LogicalBall}
    (howner : ∀ b, (f b).ownedBy o = b.ownedBy o)
    (hother : ∀ b, b.ownedBy o = false → f b = b) :
    Serves o False ns (ns.map fun n => (n.1, f n.2)) := by
  refine ⟨?_, ?_⟩
  · have hcomp : (fun n : Nat × LogicalBall => !nodeOwnedBy o n) ∘ (fun n => (n.1, f n.2)) =
        fun n => !nodeOwnedBy o n := by
      ext n
      simp [nodeOwnedBy, howner]
    rw [List.filter_map, hcomp]
    refine (List.map_congr_left ?_).trans (List.map_id' _)
    intro n hn
    have hn' : n.2.ownedBy o = false := by simpa [nodeOwnedBy] using (List.mem_filter.mp hn).2
    rw [hother _ hn']
  · intro n hn ho
    obtain ⟨n₀, hn₀, rfl⟩ := List.mem_map.mp hn
    refine Or.inl ⟨n₀, hn₀, rfl, ?_⟩
    rw [nodeOwnedBy, howner] at ho
    exact ho

theorem Serves.mono {o : Int} {p q : Prop} {ns ns' : List (Nat × LogicalBall)}
    (h : Serves o p ns ns') (hpq : p → q) : Serves o q ns ns' :=
  ⟨h.others, fun n hn ho => (h.own n hn ho).imp_right fun ⟨hp, hnot⟩ => ⟨hpq hp, hnot⟩⟩

theorem updateBalls_nodes {m m' : BallListManager} {s : BallStore} (h : m.Holds s)
    {f : LogicalBall → LogicalBall} (hok : updateBalls f m = .ok m') :
    m'.nodes = m.nodes.map fun n => (n.1, f n.2) := by
  obtain ⟨heap, hheap, hrep⟩ := h.nodes_eq.1.mapNodes_ok f
  simp only [updateBalls, hheap, bind, Except.bind] at hok
  cases hok
  exact hrep.nodes_eq

theorem deleteBallBySocket_nodes {m m' : BallListManager} {s : BallStore} (h : m.Holds s)
    {fd : Int} (hok : deleteBallBySocket m fd = .ok m') :
    m'.nodes = m.nodes.filter fun n => !nodeOwnedBy fd n := by
  obtain ⟨m₁, hm₁, hrep, _⟩ := deleteBallBySocket_ok h.nodes_eq.1 fd
  rw [hok] at hm₁
  cases hm₁
  exact hrep.nodes_eq

theorem deleteBall_nodes {m m' : BallListManager} {s : BallStore} (h : m.Holds s)
    {count o : Int} (hok : deleteBall m count o = .ok m') :
    m'.nodes = eraseLast (nodeOwnedBy o) count.toNat m.nodes := by
  by_cases hcount : count ≤ 0
  · rw [deleteBall, if_pos hcount] at hok
    cases hok
  · obtain ⟨m₁, hm₁, hrep, _⟩ := deleteBall_ok h.nodes_eq.1 hcount o
    rw [hok] at hm₁
    cases hm₁
    exact hrep.nodes_eq

theorem changeOwned_other {o : Int} {b : LogicalBall} (hb : b.ownedBy o = false)
    (f : LogicalBall → LogicalBall) : b.changeOwned o f = b :=
  if_neg (of_decide_eq_false hb)

/-- What an operation of an owner does to the nodes. -/
theorem ballStep_serves {m m' : BallListManager} {s : BallStore} (h : m.Holds s) {op : BallOp}
    {o : Int} (hop : op.concerns o) (hmove : op ≠ .move) (hok : ballStep m op = .ok m') :
    Serves o (∃ count radius env, op = .add count radius o env ∧
      ∃ i < count.toNat, env.alloc i ≠ none) m.nodes m'.nodes := by
  obtain ⟨s', _, hs'⟩ := (hok ▸ ballStep_refines h op).left_ok
  cases op with
  | add count radius ownerId env =>
    obtain rfl : ownerId = o := hop
    obtain ⟨added, hadded, hown, hcreates⟩ := addBallLoop_nodes h hok
    have hd := hs'.nodes_eq.1.nodup
    rw [hadded] at hd ⊢
    refine (Serves.of_append hd hown).mono fun hne => ⟨count, radius, env, rfl, ?_⟩
    simpa using hcreates hne
  | delete count ownerId =>
    obtain rfl : ownerId = o := hop
    rw [deleteBall_nodes h hok]
    refine (Serves.of_sublist (eraseLast_sublist _ _ _) ?_).mono False.elim
    exact filter_eraseLast_of_disjoint (fun n hn => by simp [hn]) _ _
  | deleteBySocket socketFd =>
    obtain rfl : socketFd = o := hop
    rw [deleteBallBySocket_nodes h hok]
    refine (Serves.of_sublist List.filter_sublist ?_).mono False.elim
    simp
  | move => exact absurd rfl hmove
  | speedUp ownerId =>
    obtain rfl : ownerId = o := hop
    rw [updateBalls_nodes h hok]
    exact (Serves.of_map (changeOwned_ownedBy (f := speedUpBall) (fun _ => rfl) ownerId)
      fun b hb => changeOwned_other hb speedUpBall).mono False.elim
  | speedDown ownerId =>
    obtain rfl : ownerId = o := hop
    rw [updateBalls_nodes h hok]
    exact (Serves.of_map (changeOwned_ownedBy (f := speedDownBall) (fun _ => rfl) ownerId)
      fun b hb => changeOwned_other hb speedDownBall).mono False.elim

/-- A command is its operation, and nothing if there is none. -/
theorem eventStep_commandOp {m m' : BallListManager} {cmd : Char} {count radius o : Int}
    {env : CommandEnv} (hok : eventStep m (.command cmd count radius o env) = .ok m') :
    (∃ op, commandOp cmd count radius o env = some op ∧ ballStep m op = .ok m') ∨
      (commandOp cmd count radius o env = none ∧ m' = m) := by
  obtain ⟨r, hr, he⟩ := bind_ok.mp hok
  cases he
  unfold commandOp
  by_cases ha : cmd = cmdAdd
  · subst ha
    obtain ⟨m₁, hm₁, h₁⟩ := bind_ok.mp hr
    obtain ⟨entry, _, he⟩ := bind_ok.mp h₁
    cases he
    exact Or.inl ⟨_, rfl, hm₁⟩
  by_cases hd : cmd = cmdDel
  · subst hd
    obtain ⟨m₁, hm₁, h₁⟩ := bind_ok.mp hr
    obtain ⟨entry, _, he⟩ := bind_ok.mp h₁
    cases he
    exact Or.inl ⟨_, rfl, hm₁⟩
  by_cases hw : cmd = cmdSpeedUp
  · subst hw
    obtain ⟨m₁, hm₁, he⟩ := bind_ok.mp hr
    cases he
    exact Or.inl ⟨_, rfl, hm₁⟩
  by_cases hx : cmd = cmdSpeedDown
  · subst hx
    obtain ⟨m₁, hm₁, he⟩ := bind_ok.mp hr
    cases he
    exact Or.inl ⟨_, rfl, hm₁⟩
  have hnone : commandTable.find? (fun entry => entry.1 = cmd) = none := by
    simp [commandTable, Ne.symm ha, Ne.symm hd, Ne.symm hw, Ne.symm hx]
  rw [dispatchCommand, hnone] at hr
  cases hr
  exact Or.inr ⟨by simp only [ha, hd, hw, hx, if_false], rfl⟩

theorem Serves.refl (o : Int) (ns : List (Nat × LogicalBall)) : Serves o False ns ns :=
  Serves.of_sublist (List.Sublist.refl ns) rfl

/-- A command only serves its owner. -/
theorem eventStep_command {m m' : BallListManager} (h : ∃ s, m.Holds s) {cmd : Char}
    {count radius o : Int} {env : CommandEnv}
    (hok : eventStep m (.command cmd count radius o env) = .ok m') :
    Serves o (StoreEvent.CreatesFor o (.command cmd count radius o env)) m.nodes m'.nodes := by
  obtain ⟨s, hs⟩ := h
  rcases eventStep_commandOp hok with ⟨op, hop, hstep⟩ | ⟨_, rfl⟩
  · have hconcerns := (commandOp_concerns hop o).mpr rfl
    have hmove : op ≠ .move := by
      rintro rfl
      rcases commandOp_cases hop with ⟨_, _, he⟩ | ⟨_, he⟩ | he | he <;> cases he
    apply (ballStep_serves hs hconcerns hmove hstep).mono
    rintro ⟨n, r, env', hadd, hcreates⟩
    subst hadd
    unfold commandOp at hop
    split at hop
    · cases hop
      exact ⟨rfl, ‹_›, hcreates⟩
    · split at hop
      · cases hop
      split at hop
      · cases hop
      split at hop <;> cases hop
  · exact (Serves.refl o _).mono False.elim

/-- After a command every ball has an owner that had balls before, or for whom the command
created one. -/
theorem Serves.owner {o : Int} {creates : Prop} {ns ns' : List (Nat × LogicalBall)}
    (h : Serves o creates ns ns') {n : Nat × LogicalBall} (hn : n ∈ ns') :
    (∃ n₀ ∈ ns, n₀.2.ownerId = n.2.ownerId) ∨ (creates ∧ n.2.ownerId = o) := by
  cases ho : nodeOwnedBy o n with
  | true =>
    have hown : n.2.ownerId = o := of_decide_eq_true ho
    rcases h.own n hn ho with ⟨n₀, hn₀, _, ho₀⟩ | ⟨hcreates, _⟩
    · exact Or.inl ⟨n₀, hn₀, (of_decide_eq_true ho₀ : n₀.2.ownerId = o).trans hown.symm⟩
    · exact Or.inr ⟨hcreates, hown⟩
  | false =>
    have hmem : n ∈ ns'.filter fun n => !nodeOwnedBy o n :=
      List.mem_filter.mpr ⟨hn, by rw [ho]; rfl⟩
    rw [h.others] at hmem
    exact Or.inl ⟨n, (List.mem_filter.mp hmem).1, rfl⟩

theorem eventStep_disconnect_nodes {m m' : BallListManager} (h : ∃ s, m.Holds s) {fd : Int}
    (hok : eventStep m (.disconnect fd) = .ok m') :
    m'.nodes = m.nodes.filter fun n => !nodeOwnedBy fd n := by
  obtain ⟨s, hs⟩ := h
  exact deleteBallBySocket_nodes hs hok

theorem eventStep_disconnect_serves {m m' : BallListManager} (h : ∃ s, m.Holds s) {fd : Int}
    (hok : eventStep m (.disconnect fd) = .ok m') : Serves fd False m.nodes m'.nodes := by
  rw [eventStep_disconnect_nodes h hok]
  exact Serves.of_sublist List.filter_sublist (by simp)

theorem eventStep_disconnect_owner {m m' : BallListManager} (h : ∃ s, m.Holds s) {fd : Int}
    (hok : eventStep m (.disconnect fd) = .ok m') {n : Nat × LogicalBall} (hn : n ∈ m'.nodes) :
    n.2.ownerId ≠ fd := by
  rw [eventStep_disconnect_nodes h hok] at hn
  intro ho
  simpa [nodeOwnedBy, LogicalBall.ownedBy, ho] using (List.mem_filter.mp hn).2

theorem eventStep_tick_nodes {m m' : BallListManager} (h : ∃ s, m.Holds s)
    (hok : eventStep m .tick = .ok m') :
    m'.nodes = m.nodes.map fun n => (n.1, moveLogicalBall n.2) := by
  obtain ⟨s, hs⟩ := h
  exact updateBalls_nodes hs hok

/-- After an event every ball has an owner that had balls before, or for whom the event created
one. -/
theorem eventStep_owner {m m' : BallListManager} (h : ∃ s, m.Holds s) {e : StoreEvent}
    (hok : eventStep m e = .ok m') {n : Nat × LogicalBall} (hn : n ∈ m'.nodes) :
    (∃ n₀ ∈ m.nodes, n₀.2.ownerId = n.2.ownerId) ∨ e.CreatesFor n.2.ownerId := by
  cases e with
  | command cmd count radius o env =>
    rcases (eventStep_command h hok).owner hn with hold | ⟨hcreates, ho⟩
    · exact Or.inl hold
    · exact Or.inr (ho ▸ hcreates)
  | disconnect fd =>
    rw [eventStep_disconnect_nodes h hok] at hn
    exact Or.inl ⟨n, (List.mem_filter.mp hn).1, rfl⟩
  | tick =>
    rw [eventStep_tick_nodes h hok] at hn
    obtain ⟨n₀, hn₀, rfl⟩ := List.mem_map.mp hn
    exact Or.inl ⟨n₀, hn₀, rfl⟩

/-! ## Transitions of the server -/

variable {W : Type}

namespace ServerState

def nodes (s : ServerState W) : List (Nat × LogicalBall) := s.ballListManager.nodes

def clientList (s : ServerState W) : List (SocketContext Conn) := s.clientListManager.toList

def queued (s : ServerState W) : List ConnTask := s.taskQueue.toList

/-- The three shared structures are well formed. -/
structure Sound (s : ServerState W) : Prop where
  balls : ∃ store, s.ballListManager.Holds store
  clients : s.clientListManager.Holds s.clientList
  queue : s.taskQueue.Holds s.queued

end ServerState

def Holding (s : ServerState W) (w : W) (t : ConnTask) : Prop :=
  (s.workers w).phase = .holding t

def MainPhase.tasks : MainPhase → List ConnTask
  | .received t => [t]
  | _ => []

/-- The tasks that no worker has taken yet: in the queue, or on the way to it. -/
def waiting (s : ServerState W) : List ConnTask := s.queued ++ s.main.tasks

/-- The command in a task. -/
def ConnTask.command (t : ConnTask) : Char × Int × Int := taskCommand t.task 0 0

/-- What the dispatch of a task does to the ball store. -/
def ConnTask.storeEvent (t : ConnTask) (env : CommandEnv) : StoreEvent :=
  .command t.command.1 (if t.command.2.1 ≤ 0 then 1 else t.command.2.1) t.command.2.2 t.task.fd env

/-- The client with the number `fd`, if there is one. -/
def ServerState.client (s : ServerState W) (fd : Int) : Option (SocketContext Conn) :=
  s.clientList.find? fun c => c.csock = fd

/-- The state after the removal of the client with the number `fd`; `clients` is the list
without it. -/
def afterRemoval (s : ServerState W) (fd : Int) (clients : ClientListManager Conn) :
    ServerState W :=
  { s with
    clientListManager := clients
    socket := (s.client fd).elim s.socket fun ctx => Function.update s.socket ctx.csock none }

def afterExecution (s : ServerState W) (t : ConnTask) : ServerState W :=
  { s with history := { s.history with executed := s.history.executed ++ [t] } }

theorem eventStep_holds {m m' : BallListManager} (h : ∃ s, m.Holds s) {e : StoreEvent}
    (hok : eventStep m e = .ok m') : ∃ s, m'.Holds s := by
  obtain ⟨s, hs⟩ := h
  obtain ⟨s', _, hs'⟩ := (hok ▸ eventStep_agree hs e).left_ok
  exact ⟨s', hs'⟩

theorem sound_start : (start : ServerState W).Sound :=
  ⟨⟨_, holds_init⟩, clientListManagerInit_holds.self, taskQueueInit_holds.self⟩

theorem queued_start : (start : ServerState W).queued = [] := taskQueueInit_holds.toList_eq

/-- What `removeClient` computes. -/
theorem removeClient_ok {s s' : ServerState W} (hs : s.Sound) {fd : Int}
    (hok : removeClient s fd = .ok s') :
    ∃ clients : ClientListManager Conn,
      clients.toList = s.clientList.eraseP (fun c => c.csock = fd) ∧
      clients.Holds clients.toList ∧ s' = afterRemoval s fd clients := by
  obtain ⟨clients, hclients, hholds⟩ := disconnectClient_ok hs.clients fd
  refine ⟨clients, hholds.toList_eq, hholds.self, ?_⟩
  simp only [removeClient, hclients, bind, Except.bind] at hok
  unfold afterRemoval ServerState.client
  cases hfind : s.clientList.find? fun c => c.csock = fd with
  | none =>
    rw [hfind] at hok
    cases hok
    rfl
  | some ctx =>
    rw [hfind] at hok
    cases hok
    rfl

/-- What `deleteBalls` computes. -/
theorem deleteBalls_ok {s s' : ServerState W} {fd : Int} (hok : deleteBalls s fd = .ok s') :
    ∃ balls, eventStep s.ballListManager (.disconnect fd) = .ok balls ∧
      s' = { s with
        ballListManager := balls, history := s.history.logEvent none (.disconnect fd) } := by
  obtain ⟨balls, hballs, h₁⟩ := bind_ok.mp hok
  obtain ⟨nowCount, _, h₂⟩ := bind_ok.mp h₁
  obtain ⟨entry, _, h₃⟩ := bind_ok.mp h₂
  cases h₃
  exact ⟨balls, hballs, rfl⟩

/-- The first balls of a client are an addition of its own. -/
theorem addInitialBalls_event {m balls : BallListManager} {csock : Int} {env : CommandEnv}
    {entry : LogEntry}
    (hadd : addBall m startBallCount startBallRadius csock env.draws env.alloc = .ok balls)
    (hlog : logBallMemoryUsage balls .add csock startBallCount = .ok entry) :
    eventStep m (.command cmdAdd startBallCount startBallRadius csock env) = .ok balls := by
  have hdispatch : dispatchCommand m cmdAdd startBallCount startBallRadius csock env =
      handleAdd m startBallCount startBallRadius csock env := rfl
  have hcount : (if startBallCount ≤ 0 then 1 else startBallCount) = startBallCount := rfl
  simp only [eventStep, hdispatch, handleAdd, hcount, hadd, hlog, bind, Except.bind]

/-- The operation in a task does not depend on what the worker did before. -/
theorem taskCommand_cases (t : ConnTask) (count radius : Int) :
    taskCommand t.task count radius = t.command ∨
      (t.command.1 = Char.ofNat 0 ∧ (taskCommand t.task count radius).1 = Char.ofNat 0) := by
  rcases parseCommand_cases (cString (t.task.data.take t.task.length.toNat)) with
    ⟨op, n1, n2, _, heq⟩ | hnone
  · exact Or.inl (by rw [ConnTask.command, taskCommand, taskCommand, heq, heq])
  · exact Or.inr ⟨by rw [ConnTask.command, taskCommand, hnone], by rw [taskCommand, hnone]⟩

variable [DecidableEq W]

/-- The workers after one of them moved. -/
theorem phase_setWorker {s : ServerState W} {w w' : W} {worker : Worker} {phase : WorkerPhase} :
    ((setWorker s w worker).workers w').phase = phase ↔
      (w' = w ∧ worker.phase = phase) ∨ (w' ≠ w ∧ (s.workers w').phase = phase) := by
  by_cases hw : w' = w
  · subst hw
    simp [setWorker]
  · simp [setWorker, hw]

/-- What a step can do. -/
inductive Transition (s : ServerState W) : Label W → ServerState W → Prop where
  | epollWait {events : List Event} (hmain : s.main = .idle) (hevents : s.events = [])
      (hready : ∀ e ∈ events, e.Ready s) :
      Transition s (.epollWait events) { s with events := events }
  | accept {csock : Int} {rest : List Event} (hmain : s.main = .idle)
      (hevents : s.events = .listener :: rest) (hfree : s.socket csock = none) :
      Transition s (.accept csock) { s with
        main := .accepted csock s.accepted
        events := rest
        socket := Function.update s.socket csock (some s.accepted)
        accepted := s.accepted + 1
        history := { s.history with
          holder := Function.update s.history.holder csock (some s.accepted) } }
  | skipEvent {e : Event} {rest : List Event} (hmain : s.main = .idle)
      (hevents : s.events = e :: rest) : Transition s .skipEvent { s with events := rest }
  | addClient {csock : Int} {conn : Conn} {alloc : Option Nat}
      {clients : ClientListManager Conn} (hmain : s.main = .accepted csock conn)
      (hclients : clients.toList =
        if alloc.isSome then s.clientList ++ [⟨csock, conn⟩] else s.clientList) :
      Transition s (.addClient alloc)
        { s with clientListManager := clients, main := .listed csock conn }
  | countClient {csock : Int} {conn : Conn} {clients : ClientListManager Conn}
      (hmain : s.main = .listed csock conn) (hclients : clients.toList = s.clientList) :
      Transition s .countClient
        { s with clientListManager := clients, main := .counted csock conn }
  | addInitialBalls {csock : Int} {conn : Conn} {env : CommandEnv} {balls : BallListManager}
      (hmain : s.main = .counted csock conn)
      (hballs : eventStep s.ballListManager
        (.command cmdAdd startBallCount startBallRadius csock env) = .ok balls) :
      Transition s (.addInitialBalls env) { s with
        ballListManager := balls
        main := .idle
        history := (s.history.claim s.nodes conn).logEvent none
          (.command cmdAdd startBallCount startBallRadius csock env) }
  | recvData {fd : Int} {conn conn' : Conn} {rest : List Event} {bytes : List Char}
      {t : ConnTask} (hmain : s.main = .idle) (hevents : s.events = .client fd conn :: rest)
      (hsocket : s.socket fd = some conn')
      (ht : t = ⟨receivedTask fd bytes, conn', s.history.received.length⟩) :
      Transition s (.recvData bytes) { s with
        main := .received t
        events := rest
        history := { s.history with received := s.history.received ++ [t] } }
  | recvEnd {fd : Int} {conn : Conn} {rest : List Event} (hmain : s.main = .idle)
      (hevents : s.events = .client fd conn :: rest) :
      Transition s .recvEnd { s with main := .hungUp fd conn, events := rest }
  | push {t : ConnTask} {queue : TaskQueue ConnTask} (hmain : s.main = .received t)
      (hqueue : queue.toList = s.queued ++ [t]) :
      Transition s .push { s with taskQueue := queue, main := .idle }
  | hangUpRemove {fd : Int} {conn : Conn} {clients : ClientListManager Conn}
      (hmain : s.main = .hungUp fd conn)
      (hclients : clients.toList = s.clientList.eraseP fun c => c.csock = fd) :
      Transition s .hangUpRemove
        { afterRemoval s fd clients with main := .removed fd conn }
  | hangUpDelete {fd : Int} {conn : Conn} {balls : BallListManager}
      (hmain : s.main = .removed fd conn)
      (hballs : eventStep s.ballListManager (.disconnect fd) = .ok balls) :
      Transition s .hangUpDelete { s with
        ballListManager := balls
        main := .idle
        history := s.history.logEvent none (.disconnect fd) }
  | pop {w : W} {t : ConnTask} {queue : TaskQueue ConnTask}
      (hworker : (s.workers w).phase = .ready) (hqueue : s.queued = t :: queue.toList) :
      Transition s (.pop w)
        (setWorker { s with taskQueue := queue } w { s.workers w with phase := .holding t })
  | refuse {w : W} {env : CommandEnv} {t : ConnTask} {count radius : Int}
      (hworker : (s.workers w).phase = .holding t) (hexit : t.command.1 ≠ cmdExit)
      (hball : isBallCommand t.command.1 = false) :
      Transition s (.execute w env) (setWorker (afterExecution s t) w ⟨count, radius, .ready⟩)
  | exit {w : W} {env : CommandEnv} {t : ConnTask} {count radius : Int}
      {clients : ClientListManager Conn} (hworker : (s.workers w).phase = .holding t)
      (hexit : t.command.1 = cmdExit)
      (hclients : clients.toList = s.clientList.eraseP fun c => c.csock = t.task.fd) :
      Transition s (.execute w env)
        (setWorker (afterRemoval (afterExecution s t) t.task.fd clients) w
          ⟨count, radius, .exiting t⟩)
  | dispatch {w : W} {env : CommandEnv} {t : ConnTask} {count radius : Int}
      {balls : BallListManager} (hworker : (s.workers w).phase = .holding t)
      (hball : isBallCommand t.command.1 = true)
      (hballs : eventStep s.ballListManager (t.storeEvent env) = .ok balls) :
      Transition s (.execute w env) (setWorker { afterExecution s t with
        ballListManager := balls
        history := ((afterExecution s t).history.claim s.nodes t.conn).logEvent (some t.conn)
          (t.storeEvent env) } w ⟨count, radius, .ready⟩)
  | exitDelete {w : W} {t : ConnTask} {balls : BallListManager}
      (hworker : (s.workers w).phase = .exiting t)
      (hballs : eventStep s.ballListManager (.disconnect t.task.fd) = .ok balls) :
      Transition s (.exitDelete w) (setWorker { s with
        ballListManager := balls
        history := s.history.logEvent none (.disconnect t.task.fd) } w
          { s.workers w with phase := .ready })
  | tick {balls : BallListManager} (hballs : eventStep s.ballListManager .tick = .ok balls) :
      Transition s .tick { s with
        ballListManager := balls, history := s.history.logEvent none .tick }

/-- A step changes the ball store by one event, which it logs, or not at all. -/
theorem Transition.log {s s' : ServerState W} {l : Label W} (h : Transition s l s') :
    (s'.ballListManager = s.ballListManager ∧ s'.history.log = s.history.log) ∨
      ∃ e, eventStep s.ballListManager e.event = .ok s'.ballListManager ∧
        s'.history.log = s.history.log ++ [e] := by
  cases h with
  | epollWait => exact Or.inl ⟨rfl, rfl⟩
  | accept => exact Or.inl ⟨rfl, rfl⟩
  | skipEvent => exact Or.inl ⟨rfl, rfl⟩
  | addClient => exact Or.inl ⟨rfl, rfl⟩
  | countClient => exact Or.inl ⟨rfl, rfl⟩
  | addInitialBalls hmain hballs => exact Or.inr ⟨_, hballs, rfl⟩
  | recvData => exact Or.inl ⟨rfl, rfl⟩
  | recvEnd => exact Or.inl ⟨rfl, rfl⟩
  | push => exact Or.inl ⟨rfl, rfl⟩
  | hangUpRemove => exact Or.inl ⟨rfl, rfl⟩
  | hangUpDelete hmain hballs => exact Or.inr ⟨_, hballs, rfl⟩
  | pop => exact Or.inl ⟨rfl, rfl⟩
  | refuse => exact Or.inl ⟨rfl, rfl⟩
  | exit => exact Or.inl ⟨rfl, rfl⟩
  | dispatch hworker hball hballs => exact Or.inr ⟨_, hballs, rfl⟩
  | exitDelete hworker hballs => exact Or.inr ⟨_, hballs, rfl⟩
  | tick hballs => exact Or.inr ⟨_, hballs, rfl⟩

/-! ## The inversion lemma -/

theorem transition_execute {s s' : ServerState W} (hs : s.Sound) {w : W} {env : CommandEnv}
    (hok : executeTask s w env = .ok s') : s'.Sound ∧ Transition s (.execute w env) s' := by
  unfold executeTask at hok
  split at hok
  case h_2 => cases hok
  rename_i t hworker
  simp only at hok
  have hs₁ : (afterExecution s t).Sound := ⟨hs.balls, hs.clients, hs.queue⟩
  rcases taskCommand_cases t (s.workers w).count (s.workers w).radius with hcmd | ⟨hnul, hcmd⟩
  · rw [hcmd] at hok
    split at hok
    · rename_i hnul
      cases hok
      refine ⟨⟨hs.balls, hs.clients, hs.queue⟩, Transition.refuse hworker ?_ ?_⟩
      · rw [hnul]
        decide
      · rw [hnul]
        decide
    split at hok
    · rename_i hexit
      obtain ⟨s₂, hremove, he⟩ := bind_ok.mp hok
      cases he
      obtain ⟨clients, hclients, hholds, rfl⟩ := removeClient_ok hs₁ hremove
      exact ⟨⟨hs.balls, hholds, hs.queue⟩, Transition.exit hworker hexit hclients⟩
    split at hok
    · rename_i hball
      obtain ⟨r, hr, he⟩ := bind_ok.mp hok
      cases he
      have hballs : eventStep s.ballListManager (t.storeEvent env) = .ok r.1 := by
        simp only [eventStep, ConnTask.storeEvent]
        rw [hr]
        rfl
      exact ⟨⟨eventStep_holds hs.balls hballs, hs.clients, hs.queue⟩,
        Transition.dispatch hworker hball hballs⟩
    · rename_i hexit hball
      cases hok
      exact ⟨⟨hs.balls, hs.clients, hs.queue⟩,
        Transition.refuse hworker hexit (Bool.eq_false_iff.mpr hball)⟩
  · rw [if_pos hcmd] at hok
    cases hok
    refine ⟨⟨hs.balls, hs.clients, hs.queue⟩, Transition.refuse hworker ?_ ?_⟩
    · rw [hnul]
      decide
    · rw [hnul]
      decide

/-- **The inversion lemma.** A step of a sound state is one of the transitions, and leads to a
sound state. -/
theorem transition_of_step {s s' : ServerState W} (hs : s.Sound) {l : Label W}
    (hok : step s l = .ok s') : s'.Sound ∧ Transition s l s' := by
  cases l with
  | epollWait events =>
    simp only [step, epollWait] at hok
    split at hok
    · rename_i h
      cases hok
      exact ⟨⟨hs.balls, hs.clients, hs.queue⟩, Transition.epollWait h.1 h.2.1 h.2.2⟩
    · cases hok
  | accept csock =>
    simp only [step, acceptClient] at hok
    split at hok
    · rename_i rest hmain hevents
      split at hok
      · rename_i h
        cases hok
        exact ⟨⟨hs.balls, hs.clients, hs.queue⟩, Transition.accept hmain hevents h.2⟩
      · cases hok
    · cases hok
  | skipEvent =>
    simp only [step, skipEvent] at hok
    split at hok
    · rename_i e rest hmain hevents
      cases hok
      exact ⟨⟨hs.balls, hs.clients, hs.queue⟩, Transition.skipEvent hmain hevents⟩
    · cases hok
  | addClient alloc =>
    simp only [step, listClient] at hok
    split at hok
    · rename_i csock conn hmain
      obtain ⟨clients, hclients, he⟩ := bind_ok.mp hok
      cases he
      have hholds := addClient_ok hs.clients hclients
      exact ⟨⟨hs.balls, hholds.self, hs.queue⟩,
        Transition.addClient hmain hholds.toList_eq⟩
    · cases hok
  | countClient =>
    simp only [step, countClient] at hok
    split at hok
    · rename_i csock conn hmain
      cases hok
      exact ⟨⟨hs.balls, hs.clients, hs.queue⟩, Transition.countClient hmain rfl⟩
    · cases hok
  | addInitialBalls env =>
    simp only [step, addInitialBalls] at hok
    split at hok
    · rename_i csock conn hmain
      obtain ⟨balls, hadd, h₁⟩ := bind_ok.mp hok
      obtain ⟨entry, hlog, h₂⟩ := bind_ok.mp h₁
      cases h₂
      have hballs := addInitialBalls_event hadd hlog
      exact ⟨⟨eventStep_holds hs.balls hballs, hs.clients, hs.queue⟩,
        Transition.addInitialBalls hmain hballs⟩
    · cases hok
  | recvData bytes =>
    simp only [step, recvData] at hok
    split at hok
    · rename_i fd conn rest hmain hevents
      split at hok
      · rename_i conn' hsocket
        split at hok
        · cases hok
          exact ⟨⟨hs.balls, hs.clients, hs.queue⟩, Transition.recvData hmain hevents hsocket rfl⟩
        · cases hok
      · cases hok
    · cases hok
  | recvEnd =>
    simp only [step, recvEnd] at hok
    split at hok
    · rename_i fd conn rest hmain hevents
      cases hok
      exact ⟨⟨hs.balls, hs.clients, hs.queue⟩, Transition.recvEnd hmain hevents⟩
    · cases hok
  | push =>
    simp only [step, pushTask] at hok
    split at hok
    · rename_i t hmain
      obtain ⟨queue, hqueue, he⟩ := bind_ok.mp hok
      cases he
      have hholds := (taskQueuePush_ok hs.queue hqueue).2
      exact ⟨⟨hs.balls, hs.clients, hholds.self⟩,
        Transition.push hmain hholds.toList_eq⟩
    · cases hok
  | hangUpRemove =>
    simp only [step, hangUpRemove] at hok
    split at hok
    · rename_i fd conn hmain
      obtain ⟨s₁, hremove, he⟩ := bind_ok.mp hok
      cases he
      obtain ⟨clients, hclients, hholds, rfl⟩ := removeClient_ok hs hremove
      exact ⟨⟨hs.balls, hholds, hs.queue⟩, Transition.hangUpRemove hmain hclients⟩
    · cases hok
  | hangUpDelete =>
    simp only [step, hangUpDelete] at hok
    split at hok
    · rename_i fd conn hmain
      obtain ⟨s₁, hdelete, he⟩ := bind_ok.mp hok
      cases he
      obtain ⟨balls, hballs, rfl⟩ := deleteBalls_ok hdelete
      exact ⟨⟨eventStep_holds hs.balls hballs, hs.clients, hs.queue⟩,
        Transition.hangUpDelete hmain hballs⟩
    · cases hok
  | pop w =>
    simp only [step, popTask] at hok
    split at hok
    · rename_i hworker
      obtain ⟨⟨t, queue⟩, hqueue, he⟩ := bind_ok.mp hok
      cases he
      obtain ⟨rest, hrest, hholds⟩ := taskQueuePop_ok hs.queue hqueue
      obtain rfl := hholds.toList_eq
      exact ⟨⟨hs.balls, hs.clients, hholds⟩, Transition.pop hworker hrest⟩
    · cases hok
  | execute w env => exact transition_execute hs hok
  | exitDelete w =>
    simp only [step, exitDelete] at hok
    split at hok
    · rename_i t hworker
      obtain ⟨s₁, hdelete, he⟩ := bind_ok.mp hok
      cases he
      obtain ⟨balls, hballs, rfl⟩ := deleteBalls_ok hdelete
      exact ⟨⟨eventStep_holds hs.balls hballs, hs.clients, hs.queue⟩,
        Transition.exitDelete hworker hballs⟩
    · cases hok
  | tick =>
    simp only [step, tick] at hok
    obtain ⟨balls, hballs, he⟩ := bind_ok.mp hok
    cases he
    exact ⟨⟨eventStep_holds (e := .tick) hs.balls hballs, hs.clients, hs.queue⟩,
      Transition.tick hballs⟩

end BallGame.Server
