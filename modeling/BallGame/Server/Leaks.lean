import BallGame.Library.Liveness
import BallGame.Server.BallStore
import BallGame.Server.ClientRegistry

/-!
# No node leaks on the server

Both lists of the server own their nodes: whatever the clients do and whichever allocations fail,
a node is live exactly while it is in its list. `manager_destroy` therefore frees every node once.
The rest of the memory is left out: the managers themselves are never freed, nor are the texts of
balls that are not sent.

* `ballStep_owned`, `registryStep_owned`: every operation keeps the ownership;
* `close_server_frees_all`: what is left after `manager_destroy`, and which descriptors `main` and
  `manager_destroy` close.
-/

namespace BallGame.Server

open Library

/-! ## The ball store -/

theorem addBallLoop_owned {radius ownerId : Int} {draws : Nat → RandomDraws}
    {alloc : Nat → Option Nat} {remaining i : Nat} {m m' : BallListManager}
    (h : m.toLinked.Owned) (hok : addBallLoop radius ownerId draws alloc remaining i m = .ok m') :
    m'.toLinked.Owned := by
  induction remaining generalizing i m with
  | zero =>
    cases hok
    exact h
  | succ remaining ih =>
    obtain ⟨total, _, hok⟩ := bind_ok.mp hok
    obtain ⟨b, _, hok⟩ := bind_ok.mp hok
    obtain ⟨l, hl, hok⟩ := bind_ok.mp hok
    exact ih (m := { toLinked := l, totalCount := total }) (h.append hl) hok

/-- The live nodes that are not counted, which no deletion changes. -/
def BallListManager.uncounted (m : BallListManager) : Int := m.heap.live.card - m.totalCount

/-- A node is freed and counted down. -/
theorem uncounted_free {m : BallListManager} {heap heap' : Heap (Node LogicalBall)} {a : Nat}
    (hlive : heap.live = m.heap.live) (hfree : heap.free a = .ok heap') (head tail : Option Nat) :
    BallListManager.uncounted
      { heap := heap', head := head, tail := tail, totalCount := m.totalCount - 1 } =
      m.uncounted := by
  have hcard := Heap.card_free hfree
  rw [hlive] at hcard
  simp only [BallListManager.uncounted]
  omega

theorem unlinkCandidate_uncounted {m m' : BallListManager} {c : Candidate}
    (hok : unlinkCandidate m c = .ok m') : m'.uncounted = m.uncounted := by
  obtain ⟨a, prev⟩ := c
  cases prev with
  | none =>
    obtain ⟨linked, hlinked, hok⟩ := bind_ok.mp hok
    cases hlinked
    obtain ⟨target, _, hok⟩ := bind_ok.mp hok
    obtain ⟨heap, hheap, hok⟩ := bind_ok.mp hok
    cases hheap
    obtain ⟨heap', hfree, hok⟩ := bind_ok.mp hok
    cases hok
    exact uncounted_free rfl hfree _ _
  | some p =>
    obtain ⟨prev, _, hok⟩ := bind_ok.mp hok
    obtain ⟨linked, _, hok⟩ := bind_ok.mp hok
    cases linked with
    | false =>
      cases hok
      rfl
    | true =>
      obtain ⟨target, _, hok⟩ := bind_ok.mp hok
      obtain ⟨prev', _, hok⟩ := bind_ok.mp hok
      obtain ⟨heap, hw, hok⟩ := bind_ok.mp hok
      obtain ⟨heap', hfree, hok⟩ := bind_ok.mp hok
      cases hok
      exact uncounted_free (Heap.live_write hw) hfree _ _

theorem deleteBall_uncounted {m m' : BallListManager} {count ownerId : Int}
    (hok : deleteBall m count ownerId = .ok m') : m'.uncounted = m.uncounted := by
  unfold deleteBall at hok
  split at hok
  · cases hok
  · obtain ⟨s, _, hok⟩ := bind_ok.mp hok
    apply foldlM_invariant (P := fun k : BallListManager => k.uncounted = m.uncounted) _ rfl hok
    intro k c k' _ hk hstep
    exact (unlinkCandidate_uncounted hstep).trans hk

theorem deleteBallBySocketLoop_uncounted {socketFd : Int} {fuel : Nat} {m m' : BallListManager}
    {prev cur : Option Nat} (hok : deleteBallBySocketLoop socketFd fuel m prev cur = .ok m') :
    m'.uncounted = m.uncounted := by
  induction fuel generalizing m prev cur with
  | zero =>
    cases cur with
    | none =>
      cases hok
      rfl
    | some a => cases hok
  | succ fuel ih =>
    cases cur with
    | none =>
      cases hok
      rfl
    | some a =>
      obtain ⟨node, _, hok⟩ := bind_ok.mp hok
      by_cases howner : node.data.ownerId = socketFd
      · rw [if_pos howner] at hok
        cases prev with
        | none =>
          obtain ⟨l, hl, hok⟩ := bind_ok.mp hok
          cases hl
          obtain ⟨heap, hfree, hok⟩ := bind_ok.mp hok
          rw [ih hok]
          exact uncounted_free rfl hfree _ _
        | some p =>
          obtain ⟨prevNode, _, hok⟩ := bind_ok.mp hok
          obtain ⟨heap, hw, hok⟩ := bind_ok.mp hok
          obtain ⟨l, hl, hok⟩ := bind_ok.mp hok
          cases hl
          obtain ⟨heap', hfree, hok⟩ := bind_ok.mp hok
          rw [ih hok]
          exact uncounted_free (Heap.live_write hw) hfree _ _
      · rw [if_neg howner] at hok
        exact ih hok

/-- The step lemma. -/
theorem ballStep_owned {m m' : BallListManager} (h : m.toLinked.Owned) {op : BallOp}
    (hok : ballStep m op = .ok m') : m'.toLinked.Owned := by
  have hupdate : ∀ {f : LogicalBall → LogicalBall}, updateBalls f m = .ok m' →
      m'.toLinked.Owned := by
    intro f hok
    obtain ⟨heap, hmap, hok⟩ := bind_ok.mp hok
    cases hok
    exact h.mapNodes hmap
  -- a deletion frees as many nodes as it takes off the list
  have hdelete : ∀ {lost : Bool} {ns ns' : List (Nat × LogicalBall)},
      m.heap.live.card = ns.length → Represents m'.toLinked lost ns' →
      m'.totalCount = m.totalCount - (ns.length - ns'.length : Int) →
      m'.uncounted = m.uncounted → m'.toLinked.Owned := by
    intro lost ns ns' hcard hrep htotal hsame
    refine ⟨lost, ns', hrep, ?_⟩
    simp only [BallListManager.uncounted] at hsame
    omega
  cases op with
  | add count radius ownerId env => exact addBallLoop_owned h hok
  | move => exact hupdate hok
  | speedUp ownerId => exact hupdate hok
  | speedDown ownerId => exact hupdate hok
  | delete count ownerId =>
    have hsame := deleteBall_uncounted hok
    obtain ⟨lost, ns, hr, hcard⟩ := h
    by_cases hcount : count ≤ 0
    · simp only [ballStep, deleteBall, if_pos hcount] at hok
      cases hok
    · obtain ⟨m₁, hm₁, hrep, htotal⟩ := deleteBall_ok hr hcount ownerId
      rw [ballStep, hm₁] at hok
      cases hok
      exact hdelete hcard hrep htotal hsame
  | deleteBySocket socketFd =>
    have hsame := deleteBallBySocketLoop_uncounted hok
    obtain ⟨lost, ns, hr, hcard⟩ := h
    obtain ⟨m₁, hm₁, hrep, htotal⟩ := deleteBallBySocket_ok hr socketFd
    rw [ballStep, hm₁] at hok
    cases hok
    exact hdelete hcard hrep htotal hsame

/-- The run lemma. -/
theorem run_ballStep_owned {ops : List BallOp} {m : BallListManager}
    (hrun : run ballStep ballManagerInit ops = .ok m) : m.toLinked.Owned :=
  run_invariant (I := fun m : BallListManager => m.toLinked.Owned)
    (fun _ _ _ h hok => ballStep_owned h hok) Linked.Owned.empty hrun

/-! ## The client list -/

/-- A removal only unlinks the node. -/
theorem removeClientLoop_live {α : Type} {socketFd : Int} {fuel : Nat}
    {l l' : Linked (SocketContext α)} {prev cur removed : Option Nat}
    (hok : removeClientLoop socketFd fuel l prev cur = .ok (removed, l')) :
    l'.heap.live = l.heap.live := by
  induction fuel generalizing prev cur with
  | zero =>
    cases cur with
    | none =>
      cases hok
      rfl
    | some a => cases hok
  | succ fuel ih =>
    cases cur with
    | none =>
      cases hok
      rfl
    | some a =>
      obtain ⟨node, _, hok⟩ := bind_ok.mp hok
      by_cases hfd : node.data.csock = socketFd
      · rw [if_pos hfd] at hok
        cases prev with
        | none =>
          cases hok
          rfl
        | some p =>
          obtain ⟨prevNode, _, hok⟩ := bind_ok.mp hok
          obtain ⟨heap, hw, hok⟩ := bind_ok.mp hok
          cases hok
          exact Heap.live_write hw
      · rw [if_neg hfd] at hok
        exact ih hok

theorem disconnectClient_owned {α : Type} {m m' : ClientListManager α}
    {removed : Option (SocketContext α)} {fd : Int} (h : m.toLinked.Owned)
    (hok : disconnectClient m fd = .ok (removed, m')) : m'.toLinked.Owned := by
  obtain ⟨lost, ns, hr, hcard⟩ := h
  rcases removeClientBySocket_ok hr fd with ⟨_, hremove⟩ | ⟨pre, n, post, l, rfl, hremove, hu⟩
  · simp only [disconnectClient, hremove, bind, Except.bind] at hok
    cases hok
    exact ⟨lost, ns, hr, hcard⟩
  · obtain ⟨next, heap, hread, hfree, hrep⟩ := hu.free hr
    simp only [disconnectClient, hremove, hread, hfree, bind, Except.bind] at hok
    cases hok
    refine ⟨lost, pre ++ post, hrep, ?_⟩
    have hlive := removeClientLoop_live hremove
    have hcards := Heap.card_free hfree
    rw [hlive, hcard, List.length_append, List.length_cons] at hcards
    show heap.live.card = (pre ++ post).length
    rw [List.length_append]
    omega

/-- The step lemma. -/
theorem registryStep_owned {α : Type} {ssock : Int} {r r' : Registry α}
    (h : r.manager.toLinked.Owned) {op : RegistryOp α} (hok : registryStep ssock r op = .ok r') :
    r'.manager.toLinked.Owned := by
  have hremove : ∀ {fd}, removeRegistered r fd = .ok r' → r'.manager.toLinked.Owned := by
    intro fd hok
    obtain ⟨⟨removed, manager⟩, hdisconnect, hok⟩ := bind_ok.mp hok
    cases hok
    exact disconnectClient_owned h hdisconnect
  unfold registryStep at hok
  split at hok
  · cases op with
    | add csock cliaddr alloc =>
      obtain ⟨manager, hadd, hok⟩ := bind_ok.mp hok
      cases hok
      obtain ⟨l, hl, hadd⟩ := bind_ok.mp hadd
      cases hadd
      exact h.append hl
    | count =>
      obtain ⟨count, _, hok⟩ := bind_ok.mp hok
      cases hok
      exact h
    | exit fd => exact hremove hok
    | hangUp fd => exact hremove hok
  · cases hok

/-- The run lemma. -/
theorem run_registryStep_owned {α : Type} {ssock : Int} {ops : List (RegistryOp α)}
    {r : Registry α} (hrun : run (registryStep ssock) Registry.init ops = .ok r) :
    r.manager.toLinked.Owned :=
  run_invariant (I := fun r : Registry α => r.manager.toLinked.Owned)
    (fun _ _ _ h hok => registryStep_owned h hok) Linked.Owned.empty hrun

/-! ## The end of the server -/

/-- A call of the socket library. -/
inductive SocketCall where
  | shutdown (fd : Int)
  | close (fd : Int)
  deriving DecidableEq

/-- The loop of `main` that closes the sockets of the clients. -/
def closeSockets {α : Type} (l : Linked (SocketContext α)) : Except Stuck (List SocketCall) :=
  Linked.foldNodes (fun calls node => .ok (calls ++ [.close node.2.csock])) l.heap l.heap.brk
    l.head []

/-- What `free_client_list` does with the socket of a node. -/
def releaseSocket (csock : Int) : List SocketCall :=
  if csock > 0 then [.shutdown csock, .close csock] else []

/-- The loop of `free_client_list`. -/
def freeClientListLoop {α : Type} :
    Nat → Heap (Node (SocketContext α)) → Option Nat → List SocketCall →
      Except Stuck (Heap (Node (SocketContext α)) × List SocketCall)
  | _, heap, none, calls => .ok (heap, calls)
  | 0, _, some _, _ => .error .nontermination
  | fuel + 1, heap, some tmp, calls => do
    let node ← heap.read tmp
    let heap ← heap.free tmp
    freeClientListLoop fuel heap node.next (calls ++ releaseSocket node.data.csock)

/-- `free_ball_list` and `free_client_list` set the head to NULL and leave the tail. -/
def freeBallList (l : Linked LogicalBall) : Except Stuck (Linked LogicalBall) := do
  let heap ← Linked.freeNodes l.heap.brk l.heap l.head
  .ok { l with heap := heap, head := none }

def freeClientList {α : Type} (l : Linked (SocketContext α)) :
    Except Stuck (Linked (SocketContext α) × List SocketCall) := do
  let (heap, calls) ← freeClientListLoop l.heap.brk l.heap l.head []
  .ok ({ l with heap := heap, head := none }, calls)

/-- The end of `main`: the loop over the clients, and `manager_destroy` after the joins, if no
worker changes the lists between them. The calls are in their order. -/
def closeServer {α : Type} (balls : Linked LogicalBall) (clients : Linked (SocketContext α)) :
    Except Stuck (Linked LogicalBall × Linked (SocketContext α) × List SocketCall) := do
  let closed ← closeSockets clients
  let balls ← freeBallList balls
  let (clients, released) ← freeClientList clients
  .ok (balls, clients, closed ++ released)

theorem freeClientListLoop_ok {α : Type} {l : Linked (SocketContext α)} {lost : Bool}
    {ns : List (Nat × SocketContext α)} (hr : Represents l lost ns) {fuel : Nat}
    (hfuel : ns.length ≤ fuel) {heap : Heap (Node (SocketContext α))}
    (hfree : Linked.freeNodes fuel l.heap l.head = .ok heap) (calls : List SocketCall) :
    freeClientListLoop fuel l.heap l.head calls =
      .ok (heap, calls ++ (ns.map Prod.snd).flatMap fun c => releaseSocket c.csock) := by
  induction ns generalizing l fuel calls with
  | nil =>
    rw [hr.head_eq_none_iff.mpr rfl] at hfree ⊢
    have hheap : Linked.freeNodes fuel l.heap none = .ok l.heap := by cases fuel <;> rfl
    rw [hheap] at hfree
    cases hfree
    cases fuel <;> simp [freeClientListLoop]
  | cons n ns ih =>
    obtain ⟨a, x⟩ := n
    obtain ⟨heap₁, hhead, hcell, hfree₁, hrest⟩ := hr.free_head
    cases fuel with
    | zero => simp at hfuel
    | succ fuel =>
      rw [hhead] at hfree ⊢
      rw [Linked.freeNodes] at hfree
      simp only [Heap.read_ok.mpr hcell, hfree₁, bind, Except.bind] at hfree
      rw [freeClientListLoop]
      simp only [Heap.read_ok.mpr hcell, hfree₁, bind, Except.bind]
      rw [ih hrest (by simpa using hfuel) hfree, List.map_cons, List.flatMap_cons,
        List.append_assoc]

theorem closeSockets_ok {α : Type} {l : Linked (SocketContext α)} {lost : Bool}
    {ns : List (Nat × SocketContext α)} (hr : Represents l lost ns) :
    closeSockets l = .ok ((ns.map Prod.snd).map fun c => .close c.csock) := by
  have hfold : ∀ (ms : List (Nat × SocketContext α)) (calls : List SocketCall),
      ms.foldlM (m := Except Stuck)
        (fun calls node => .ok (calls ++ [SocketCall.close node.2.csock])) calls =
        .ok (calls ++ (ms.map Prod.snd).map fun c => .close c.csock) := by
    intro ms
    induction ms with
    | nil =>
      intro calls
      simp [pure, Except.pure]
    | cons n ms ih =>
      intro calls
      rw [List.foldlM_cons]
      simp only [bind, Except.bind]
      rw [ih]
      simp
  rw [closeSockets, hr.foldNodes_eq, hfold, List.nil_append]

/-- How often a descriptor is closed. -/
theorem count_close (fd : Int) (fds : List Int) :
    (fds.map SocketCall.close ++ fds.flatMap releaseSocket).count (.close fd) =
      (if 0 < fd then 2 else 1) * fds.count fd := by
  induction fds with
  | nil => simp
  | cons f fds ih =>
    rw [List.count_append] at ih
    rw [List.map_cons, List.flatMap_cons, List.count_append, List.count_cons, List.count_append,
      List.count_cons]
    by_cases hf : f = fd
    · subst hf
      by_cases hpos : 0 < f
      · simp only [releaseSocket, hpos, if_true] at ih ⊢
        simp
        omega
      · simp only [releaseSocket, hpos, if_false] at ih ⊢
        simp
        omega
    · have hrelease : (releaseSocket f).count (.close fd) = 0 := by
        unfold releaseSocket
        split <;> simp [hf]
      simp [hf, hrelease] at ih ⊢
      omega

/-- **No node leaks.** Whatever balls and clients came and went and whichever allocations failed, a
node is live exactly while it is in its list. If the workers are done when the loop of `main`
begins, every node is freed exactly once at the end, and none is left. The loop has closed the
sockets before, so that `manager_destroy` closes every descriptor but 0 a second time. -/
theorem close_server_frees_all {α : Type} (ops : List BallOp) (m : BallListManager)
    (hballs : run ballStep ballManagerInit ops = .ok m) (ssock : Int)
    (registryOps : List (RegistryOp α)) (r : Registry α)
    (hclients : run (registryStep ssock) Registry.init registryOps = .ok r) :
    (∀ a, m.heap.cell a ≠ none ↔ a ∈ m.toLinked.nodes.map Prod.fst) ∧
    (∀ a, r.manager.heap.cell a ≠ none ↔ a ∈ r.manager.toLinked.nodes.map Prod.fst) ∧
    ∃ balls clients calls, closeServer m.toLinked r.manager.toLinked = .ok (balls, clients, calls) ∧
      (∀ a, balls.heap.cell a = none) ∧ (∀ a, clients.heap.cell a = none) ∧
      ∀ fd, calls.count (.close fd) =
        (if 0 < fd then 2 else 1) * (r.manager.toList.map SocketContext.csock).count fd := by
  have hball := run_ballStep_owned hballs
  have hclient := run_registryStep_owned hclients
  refine ⟨hball.live_iff, hclient.live_iff, ?_⟩
  obtain ⟨heap, hfree, hnone⟩ := hball.freeNodes
  obtain ⟨heap', hfree', hnone'⟩ := hclient.freeNodes
  obtain ⟨lost, ns, hr, _⟩ := hclient
  have hclose := closeSockets_ok hr
  have hloop := freeClientListLoop_ok hr hr.length_le hfree' []
  have hclosed : closeServer m.toLinked r.manager.toLinked =
      .ok ({ m.toLinked with heap := heap, head := none },
        { r.manager.toLinked with heap := heap', head := none },
        (ns.map Prod.snd).map (fun c => SocketCall.close c.csock) ++
          ([] ++ (ns.map Prod.snd).flatMap fun c => releaseSocket c.csock)) := by
    simp only [closeServer, hclose, freeBallList, hfree, freeClientList, hloop, bind, Except.bind]
  refine ⟨_, _, _, hclosed, hnone, hnone', ?_⟩
  intro fd
  rw [hr.toList_eq, ← count_close, List.nil_append]
  simp only [List.map_map, List.flatMap_map]
  rfl

/-- Three clients, the second of which leaves. -/
def lastVisits : List (RegistryOp Nat) :=
  [.add 5 0 (some 0), .count, .add 6 1 (some 0), .count, .add 7 2 (some 0), .count, .exit 6]

theorem close_server_frees_all_two_clients :
    ∃ m r, run ballStep ballManagerInit twoOwners = .ok m ∧
      run (registryStep 3) Registry.init lastVisits = .ok r ∧ m.toLinked.nodes.length = 1 ∧
      r.manager.toLinked.nodes.length = 2 ∧
      ∃ balls clients calls,
        closeServer m.toLinked r.manager.toLinked = .ok (balls, clients, calls) ∧
        (∀ a, balls.heap.cell a = none) ∧ (∀ a, clients.heap.cell a = none) ∧
        calls.count (.close 7) = 2 := by
  obtain ⟨_, _, balls, clients, calls, hclosed, hballs, hclients, hcount⟩ :=
    close_server_frees_all twoOwners _ rfl 3 lastVisits _ rfl
  exact ⟨_, _, rfl, rfl, rfl, rfl, balls, clients, calls, hclosed, hballs, hclients,
    (hcount 7).trans rfl⟩

end BallGame.Server
