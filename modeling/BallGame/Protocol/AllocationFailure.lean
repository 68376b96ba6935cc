import BallGame.Client.BallCount
import BallGame.Library.CountedList
import BallGame.Server.ClientRegistry
import BallGame.Server.Transitions

/-!
# Failed allocations

The ball list of the server, the ball list of the client and the client list of the server are
appended to in the same way: if no node can be allocated, the functions print an error and go
on with the NULL pointer, and their callers count the node all the same. From then on the
counter is one too large for ever, and behind a list that is not empty the tail pointer is lost
too, which the next append follows.

* `server_failures_iff`, `client_failures_iff`, `registry_failures_iff`: each list with its
  counter is intact all along a run exactly if no allocation of the run fails;
* `lists_usable_iff`: all three.
-/

namespace BallGame.Protocol

open Library

/-! ## The ball list of the server -/

section Server

open Server

/-- The allocations of the operation that fail. -/
def ballFailures : Server.BallOp → Nat
  | .add count _ _ env => failures env.alloc 0 count.toNat
  | _ => 0

/-- A deletion asks for at least one ball. -/
def AsksForBalls : Server.BallOp → Prop
  | .delete count _ => 1 ≤ count
  | _ => True

def StoreMisses (s : BallStore) (missing : Nat) : Prop :=
  s.totalCount = s.balls.length + missing ∧ (s.lost = true → 0 < missing)

theorem StoreMisses.heap {s : BallStore} {missing : Nat} (h : StoreMisses s missing)
    {m : Server.BallListManager} (hs : m.Holds s) : Misses m.toLinked m.totalCount missing := by
  obtain ⟨⟨ns, hr, hns⟩, htotal⟩ := hs
  refine ⟨s.lost, ns, hr, ?_, h.2⟩
  rw [htotal, h.1, ← hns, List.length_map]

theorem storeMisses_keep {s : BallStore} {missing : Nat} (h : StoreMisses s missing)
    (bs : List Server.LogicalBall) : StoreMisses (s.keep bs) missing := by
  refine ⟨?_, h.2⟩
  have htotal := h.1
  simp only [BallStore.keep]
  omega

theorem storeMisses_map {s : BallStore} {missing : Nat} (h : StoreMisses s missing)
    (f : Server.LogicalBall → Server.LogicalBall) : StoreMisses (s.map f) missing :=
  ⟨by simpa [BallStore.map] using h.1, h.2⟩

theorem storeMisses_push {s : BallStore} {missing : Nat} (h : StoreMisses s missing)
    (b : Server.LogicalBall) (alloc : Option Nat) :
    Ends (fun s' => StoreMisses s' (missing + if alloc = none then 1 else 0))
      (fun _ => 0 < missing) (s.push b (s.totalCount + 1) alloc) := by
  obtain ⟨htotal, hlost⟩ := h
  by_cases hfollows : s.lost = true ∧ s.balls ≠ []
  · rw [BallStore.push, if_pos hfollows]
    exact Ends.error (hlost hfollows.1)
  · rw [BallStore.push, if_neg hfollows]
    cases alloc with
    | none =>
      refine Ends.ok ⟨?_, fun _ => Nat.succ_pos missing⟩
      simp only [Option.isSome_none, Bool.false_eq_true, if_false, List.append_nil, if_true]
      omega
    | some choice =>
      refine Ends.ok ⟨?_, fun hfalse => by cases hfalse⟩
      simp only [Option.isSome_some, if_true, reduceCtorEq, if_false, List.length_append,
        List.length_singleton]
      omega

theorem storeMisses_add (radius ownerId : Int) (draws : Nat → Server.RandomDraws)
    (alloc : Nat → Option Nat) (remaining i : Nat) {s : BallStore} {missing : Nat}
    (h : StoreMisses s missing) :
    Ends (fun s' => StoreMisses s' (missing + failures alloc i remaining))
      (fun e => Server.ArithmeticError e ∨ 0 < missing + failures alloc i remaining)
      (s.add radius ownerId draws alloc remaining i) := by
  induction remaining generalizing i s missing with
  | zero => exact Ends.ok h
  | succ remaining ih =>
    rw [BallStore.add]
    refine ((checkedInt_ends _).mono (fun _ hn => hn) fun e he => Or.inl (Or.inl he)).bind ?_
    rintro total ⟨_, rfl⟩
    refine ((createLogicalBall_ends ..).mono (fun _ hb => hb) fun _ he => Or.inl he).bind
      fun b _ => ?_
    refine ((storeMisses_push h b (alloc i)).mono (fun _ hs => hs)
      fun _ he => Or.inr (by omega)).bind fun s' hs' => ?_
    rw [failures_succ, ← Nat.add_assoc]
    exact ih (i + 1) hs'

/-- The step lemma. -/
theorem storeStep_misses {s : BallStore} {missing : Nat} (h : StoreMisses s missing)
    {op : Server.BallOp} (hop : AsksForBalls op) :
    Ends (fun s' => StoreMisses s' (missing + ballFailures op))
      (fun e => Server.ArithmeticError e ∨ 0 < missing + ballFailures op) (storeStep s op) := by
  cases op with
  | add count radius ownerId env => exact storeMisses_add radius ownerId _ _ _ 0 h
  | delete count ownerId =>
    rw [storeStep, if_neg (not_le.mpr (show (0 : Int) < count from hop))]
    exact Ends.ok (storeMisses_keep h _)
  | deleteBySocket socketFd => exact Ends.ok (storeMisses_keep h _)
  | move => exact Ends.ok (storeMisses_map h _)
  | speedUp ownerId => exact Ends.ok (storeMisses_map h _)
  | speedDown ownerId => exact Ends.ok (storeMisses_map h _)

/-- The nodes the operation is not to delete. -/
def keptNodes : Server.BallOp → List (Nat × Server.LogicalBall) → List (Nat × Server.LogicalBall)
  | .delete count ownerId, ns => eraseLast (nodeOwnedBy ownerId) count.toNat ns
  | .deleteBySocket socketFd, ns => ns.filter fun n => !nodeOwnedBy socketFd n
  | _, ns => ns

/-- Whatever fails, no other node gets lost. -/
theorem ballStep_keeps {m m' : Server.BallListManager} {s : BallStore} (hs : m.Holds s)
    {op : Server.BallOp} (hok : ballStep m op = .ok m') :
    ((keptNodes op m.nodes).map Prod.fst).Sublist (m'.nodes.map Prod.fst) := by
  have hchange : ∀ {f : Server.LogicalBall → Server.LogicalBall}, updateBalls f m = .ok m' →
      (m.nodes.map Prod.fst).Sublist (m'.nodes.map Prod.fst) := by
    intro f hf
    rw [updateBalls_nodes hs hf, List.map_map]
    exact List.Sublist.refl _
  cases op with
  | add count radius ownerId env =>
    obtain ⟨added, hadded, _⟩ := addBallLoop_nodes hs hok
    rw [hadded, List.map_append]
    exact List.sublist_append_left _ _
  | delete count ownerId =>
    rw [keptNodes, deleteBall_nodes hs hok]
  | deleteBySocket socketFd =>
    rw [keptNodes, deleteBallBySocket_nodes hs hok]
  | move => exact hchange hok
  | speedUp ownerId => exact hchange hok
  | speedDown ownerId => exact hchange hok

theorem ballStep_misses {m : Server.BallListManager} {missing : Nat}
    (h : ∃ s, m.Holds s ∧ StoreMisses s missing) {op : Server.BallOp} (hop : AsksForBalls op) :
    Ends (fun m' => ∃ s', m'.Holds s' ∧ StoreMisses s' (missing + ballFailures op))
      (fun e => Server.ArithmeticError e ∨ 0 < missing + ballFailures op) (ballStep m op) := by
  obtain ⟨s, hs, hmisses⟩ := h
  exact (ballStep_refines hs op).ends (storeStep_misses hmisses hop)

/-- No allocation of the operation fails. -/
def BallsAllocated : Server.BallOp → Prop
  | .add count _ _ env => ∀ i < count.toNat, env.alloc i ≠ none
  | _ => True

theorem ballFailures_eq_zero_iff (op : Server.BallOp) :
    ballFailures op = 0 ↔ BallsAllocated op := by
  cases op with
  | add count radius ownerId env => exact failures_eq_zero_iff env.alloc count.toNat
  | _ => exact iff_of_true rfl trivial

theorem server_failures_iff (ops : List Server.BallOp) (hops : ∀ op ∈ ops, AsksForBalls op) :
    (∀ m, run ballStep Server.ballManagerInit ops = .ok m →
      ((∀ u, Visits ballStep Server.ballManagerInit ops u → u.WellFormed) ↔
        ∀ op ∈ ops, BallsAllocated op)) ∧
    ((∀ op ∈ ops, BallsAllocated op) →
      ∀ e, run ballStep Server.ballManagerInit ops = .error e → Server.ArithmeticError e) := by
  have hinit : ∃ s, Server.ballManagerInit.Holds s ∧ StoreMisses s 0 :=
    ⟨BallStore.empty, Server.holds_init, rfl, fun hfalse => by cases hfalse⟩
  apply faultless_iff (M := fun m k => ∃ s, m.Holds s ∧ StoreMisses s k) ballFailures
    ballFailures_eq_zero_iff _ _ hinit hops
  · intro m k op hm hop
    exact ballStep_misses hm hop
  · rintro m k ⟨s, hs, hmisses⟩
    rw [Server.wellFormed_iff_intact]
    exact (hmisses.heap hs).intact_iff

end Server

/-! ## The ball list of the client -/

section Client

open Client

/-- The arguments of one call of `updateBallListFromSerialized`. -/
structure Update where
  str : List Char
  width : Int
  height : Int
  env : UpdateEnv

def updateStep (m : Client.BallListManager) (u : Update) :
    Except Stuck Client.BallListManager :=
  updateBallListFromSerialized m u.str u.width u.height u.env

/-- The allocations of the update that fail: one node for each token, if there is a copy of the
text. -/
def updateFailures (u : Update) : Nat :=
  if u.env.strdup then failures u.env.alloc 0 (tokens '|' u.str).length else 0

def UpdateAllocated (u : Update) : Prop :=
  u.env.strdup = true → ∀ i < (tokens '|' u.str).length, u.env.alloc i ≠ none

theorem updateFailures_eq_zero_iff (u : Update) : updateFailures u = 0 ↔ UpdateAllocated u := by
  unfold updateFailures UpdateAllocated
  split
  · rename_i hstrdup
    rw [failures_eq_zero_iff]
    exact ⟨fun h _ => h, fun h => h hstrdup⟩
  · rename_i hstrdup
    exact iff_of_true rfl fun h => absurd h hstrdup

theorem appendTokens_misses {width height : Int} {alloc : Nat → Option Nat}
    (ts : List (List Char)) (i : Nat) {m : Client.BallListManager} {missing : Nat}
    (h : Misses m.toLinked m.totalCount missing) :
    Ends (fun m' => Misses m'.toLinked m'.totalCount (missing + failures alloc i ts.length))
      (fun e => Client.ArithmeticError e ∨ 0 < missing + failures alloc i ts.length)
      (appendTokens width height alloc ts i m) := by
  induction ts generalizing i m missing with
  | nil => exact Ends.ok h
  | cons t ts ih =>
    have happend := h.append (logicalToScreenBall (scanBall t) width height) (alloc i)
    unfold appendTokens
    refine (happend.mono (fun _ hl => hl.1) fun e he => Or.inr (by omega)).bind fun l hl => ?_
    refine ((checkedInt_ends _).mono (fun _ hn => hn) fun e he => Or.inl (Or.inl he)).bind ?_
    rintro total ⟨_, rfl⟩
    rw [List.length_cons, failures_succ, ← Nat.add_assoc]
    exact ih (i + 1) hl

/-- The step lemma. An update frees the nodes there are, and leaves the missing ones counted. -/
theorem updateStep_misses {m : Client.BallListManager} {missing : Nat}
    (h : Misses m.toLinked m.totalCount missing) (u : Update) :
    Ends (fun m' => Misses m'.toLinked m'.totalCount (missing + updateFailures u))
      (fun e => Client.ArithmeticError e ∨ 0 < missing + updateFailures u) (updateStep m u) := by
  obtain ⟨lost, ns, hr, htotal, hlost⟩ := h
  obtain ⟨m₀, hm₀, hempty, hcount⟩ := deleteAllBall_empties hr
  have hmisses : Misses m₀.toLinked m₀.totalCount missing := by
    refine ⟨false, [], hempty, ?_, fun hfalse => by cases hfalse⟩
    rw [hcount, htotal]
    simp
  unfold updateStep updateBallListFromSerialized updateFailures
  rw [hm₀]
  cases hstrdup : u.env.strdup with
  | false => exact Ends.ok hmisses
  | true => exact appendTokens_misses _ 0 hmisses

theorem client_failures_iff (updates : List Update) :
    (∀ m, run updateStep Client.ballManagerInit updates = .ok m →
      ((∀ u, Visits updateStep Client.ballManagerInit updates u → u.WellFormed) ↔
        ∀ u ∈ updates, UpdateAllocated u)) ∧
    ((∀ u ∈ updates, UpdateAllocated u) →
      ∀ e, run updateStep Client.ballManagerInit updates = .error e →
        Client.ArithmeticError e) := by
  apply faultless_iff (M := fun m k => Misses m.toLinked m.totalCount k) (A := fun _ => True)
    updateFailures updateFailures_eq_zero_iff _ _ Misses.empty fun _ _ => trivial
  · intro m k u hm _
    exact updateStep_misses hm u
  · intro m k hm
    rw [Client.wellFormed_iff_intact]
    exact hm.intact_iff

end Client

/-! ## The client list of the server -/

section Registry

open Server

variable {α : Type}

/-- The counter with the client the main thread is about to count. -/
def registryCount (r : Registry α) : Int :=
  r.manager.clientCount + if r.counting then 1 else 0

/-- The list of the clients is intact. -/
def RegistryIntact (r : Registry α) : Prop := Intact r.manager.toLinked (registryCount r)

def registryFailures : RegistryOp α → Nat
  | .add _ _ alloc => if alloc = none then 1 else 0
  | _ => 0

theorem registryFailures_eq_zero_iff (op : RegistryOp α) :
    registryFailures op = 0 ↔ op.Allocates := by
  cases op with
  | add csock cliaddr alloc => simp [registryFailures, RegistryOp.Allocates]
  | _ => exact iff_of_true rfl trivial

/-- The main thread waits, or the counter does not fit. -/
def RegistryError (e : Stuck) : Prop := e = .blocked ∨ e = .integerOverflow

theorem removeRegistered_misses {r : Registry α} {missing : Nat}
    (h : Misses r.manager.toLinked (registryCount r) missing) (fd : Int) :
    ∃ r', removeRegistered r fd = .ok r' ∧ r'.counting = r.counting ∧
      r'.manager.nodes = r.manager.nodes.eraseP (fun n => n.2.csock = fd) ∧
      Misses r'.manager.toLinked (registryCount r') missing := by
  obtain ⟨lost, ns, hr, htotal, hlost⟩ := h
  rcases disconnectClient_cases hr fd with
    ⟨hnone, hok⟩ | ⟨pre, n, post, m', rfl, hfound, hfirst, hok, hrep, hcount⟩
  · refine ⟨r, by simp only [removeRegistered, hok, bind, Except.bind], rfl, ?_,
      lost, ns, hr, htotal, hlost⟩
    rw [hr.nodes_eq, List.eraseP_of_forall_not (by simpa using hnone)]
  · refine ⟨{ r with manager := m' }, by simp only [removeRegistered, hok, bind, Except.bind],
      rfl, ?_, lost, pre ++ post, hrep, ?_, hlost⟩
    · rw [hrep.nodes_eq, hr.nodes_eq, List.eraseP_append_right _ (by simpa using hfirst)]
      simp [hfound]
    · simp only [registryCount, hcount, List.length_append, List.length_cons] at htotal ⊢
      omega

/-- The step lemma, with the clients that stay. -/
theorem registryStep_misses {ssock : Int} {r : Registry α} {missing : Nat}
    (h : Misses r.manager.toLinked (registryCount r) missing) (op : RegistryOp α) :
    Ends (fun r' => Misses r'.manager.toLinked (registryCount r') (missing + registryFailures op) ∧
        (r.manager.nodes.eraseP fun n => op.removes = some n.2.csock).Sublist r'.manager.nodes)
      (fun e => RegistryError e ∨ 0 < missing + registryFailures op)
      (registryStep ssock r op) := by
  have hstay : r.manager.nodes.eraseP (fun n => (none : Option Int) = some n.2.csock) =
      r.manager.nodes := List.eraseP_of_forall_not (by simp)
  have hremove : ∀ fd, Ends (fun r' : Registry α =>
      Misses r'.manager.toLinked (registryCount r') missing ∧
        (r.manager.nodes.eraseP fun n => some fd = some n.2.csock).Sublist r'.manager.nodes)
      (fun e => RegistryError e ∨ 0 < missing) (removeRegistered r fd) := by
    intro fd
    obtain ⟨r', hr', _, hnodes, hmisses⟩ := removeRegistered_misses h fd
    rw [hr']
    refine Ends.ok ⟨hmisses, ?_⟩
    rw [hnodes]
    simp only [Option.some.injEq, eq_comm]
    exact List.Sublist.refl _
  unfold registryStep
  by_cases hop : op.Enabled ssock r
  · rw [if_pos hop]
    cases op with
    | add csock cliaddr alloc =>
      have hcounting : r.counting = false := hop.1
      have hall : r.manager.nodes.eraseP
          (fun n => (RegistryOp.add csock cliaddr alloc).removes = some n.2.csock) =
          r.manager.nodes := hstay
      have hadd : Ends (fun m => Misses m.toLinked (m.clientCount + 1)
            (missing + if alloc = none then 1 else 0) ∧ ∃ new, m.nodes = r.manager.nodes ++ new)
          (fun _ => 0 < missing) (addClient r.manager csock cliaddr alloc) := by
        have happend := h.append (createClient csock cliaddr) alloc
        refine (happend.mono (fun _ hl => hl) fun _ he => he.2).bind fun l hl => Ends.ok ?_
        simpa [registryCount, hcounting] using hl
      refine (hadd.mono (fun _ hm => hm) fun _ he => Or.inr (by omega)).bind ?_
      rintro m ⟨hmisses, new, hnew⟩
      refine Ends.ok ⟨hmisses, ?_⟩
      rw [hall, hnew]
      exact List.sublist_append_left _ _
    | count =>
      have hcounting : r.counting = true := hop
      have hall : r.manager.nodes.eraseP
          (fun n => (RegistryOp.count : RegistryOp α).removes = some n.2.csock) =
          r.manager.nodes := hstay
      refine ((checkedInt_ends _).mono (fun _ hn => hn) fun e he => Or.inl (Or.inr he)).bind ?_
      rintro count ⟨_, rfl⟩
      refine Ends.ok ⟨?_, ?_⟩
      · simpa [registryCount, hcounting, registryFailures] using h
      · rw [hall]
    | exit fd => exact hremove fd
    | hangUp fd => exact hremove fd
  · rw [if_neg hop]
    exact Ends.error (Or.inl (Or.inl rfl))

theorem registry_failures_iff (ssock : Int) (ops : List (RegistryOp α)) :
    (∀ r, run (registryStep ssock) Registry.init ops = .ok r →
      ((∀ u, Visits (registryStep ssock) Registry.init ops u → RegistryIntact u) ↔
        ∀ op ∈ ops, op.Allocates)) ∧
    ((∀ op ∈ ops, op.Allocates) →
      ∀ e, run (registryStep ssock) Registry.init ops = .error e → RegistryError e) := by
  have hinit : Misses (Registry.init : Registry α).manager.toLinked
      (registryCount (Registry.init : Registry α)) 0 := Misses.empty
  apply faultless_iff (M := fun r k => Misses r.manager.toLinked (registryCount r) k)
    (A := fun _ => True) registryFailures registryFailures_eq_zero_iff _ _ hinit fun _ _ => trivial
  · intro r k op hr _
    exact (registryStep_misses hr op).mono (fun _ hr' => hr'.1) fun _ he => he
  · intro r k hr
    exact hr.intact_iff

/-- Whatever failed before, a history keeps a list of clients with at most some missing. -/
theorem registry_reachable {ssock : Int} {ops : List (RegistryOp α)} {r : Registry α}
    (h : run (registryStep ssock) Registry.init ops = .ok r) :
    ∃ missing, Misses r.manager.toLinked (registryCount r) missing := by
  apply run_invariant (I := fun r => ∃ k, Misses r.manager.toLinked (registryCount r) k) _
    ⟨0, Misses.empty⟩ h
  rintro u op u' ⟨k, hu⟩ hok
  exact ⟨_, ((registryStep_misses hu op).of_ok hok).1⟩

end Registry

theorem server_reachable {ops : List Server.BallOp} {m : Server.BallListManager}
    (h : run Server.ballStep Server.ballManagerInit ops = .ok m) : ∃ s, m.Holds s := by
  obtain ⟨s, _, hs⟩ := (h ▸ Server.ballRun_refines ops).left_ok
  exact ⟨s, hs⟩

/-! ## All three lists -/

/-- All states of every completed run have the property exactly if every label of the run is
harmless, and a run of harmless labels fails for benign reasons only. -/
def RightIff {σ ι : Type} (step : σ → ι → Except Stuck σ) (init : σ) (P : σ → Prop)
    (Harmless : ι → Prop) (Benign : Stuck → Prop) (is : List ι) : Prop :=
  (∀ t, run step init is = .ok t →
    ((∀ u, Visits step init is u → P u) ↔ ∀ i ∈ is, Harmless i)) ∧
  ((∀ i ∈ is, Harmless i) → ∀ e, run step init is = .error e → Benign e)

/-- **Failed allocations.** In every run of the operations on the ball list of the server, the
ball list of the client and the client list, head, tail and counter are right in every state
exactly if no allocation of the run fails, and without a failure no run ever follows a NULL
pointer. A failure never loses a node that is linked. -/
theorem lists_usable_iff {α : Type} (ballOps : List Server.BallOp)
    (hops : ∀ op ∈ ballOps, AsksForBalls op) (updates : List Update) (ssock : Int)
    (clientOps : List (Server.RegistryOp α)) :
    RightIff Server.ballStep Server.ballManagerInit (fun m => m.WellFormed) BallsAllocated
        Server.ArithmeticError ballOps ∧
      RightIff updateStep Client.ballManagerInit (fun m => m.WellFormed) UpdateAllocated
        Client.ArithmeticError updates ∧
      RightIff (Server.registryStep ssock) Server.Registry.init RegistryIntact
        (fun op => op.Allocates) RegistryError clientOps ∧
      (∀ m op m', run Server.ballStep Server.ballManagerInit ballOps = .ok m →
        Server.ballStep m op = .ok m' →
        ((keptNodes op m.nodes).map Prod.fst).Sublist (m'.nodes.map Prod.fst)) ∧
      ∀ r op r', run (Server.registryStep ssock) Server.Registry.init clientOps = .ok r →
        Server.registryStep ssock r op = .ok r' →
        (r.manager.nodes.eraseP fun n => op.removes = some n.2.csock).Sublist
          r'.manager.nodes := by
  refine ⟨server_failures_iff ballOps hops, client_failures_iff updates,
    registry_failures_iff ssock clientOps, ?_, ?_⟩
  · intro m op m' hm hok
    obtain ⟨s, hs⟩ := server_reachable hm
    exact ballStep_keeps hs hok
  · intro r op r' hr hok
    obtain ⟨k, hk⟩ := registry_reachable hr
    exact ((registryStep_misses hk op).of_ok hok).2

/-- Two balls, the second of which finds no memory. -/
def secondFails : List Server.BallOp :=
  [.add 2 20 5 ⟨fun _ => ⟨0, 0, 0, 0⟩, fun i => if i = 0 then some 0 else none⟩]

theorem secondFails_asks : ∀ op ∈ secondFails, AsksForBalls op := by
  intro op hop
  obtain rfl := List.mem_singleton.mp hop
  trivial

theorem lists_usable_iff_secondFails :
    ∃ m, run Server.ballStep Server.ballManagerInit secondFails = .ok m ∧
      m.totalCount = 2 ∧ m.tail = none ∧
      RightIff Server.ballStep Server.ballManagerInit (fun m => m.WellFormed) BallsAllocated
        Server.ArithmeticError secondFails :=
  ⟨_, rfl, rfl, rfl, (lists_usable_iff secondFails secondFails_asks [] 4
    ([] : List (Server.RegistryOp Nat))).1⟩

/-- The tail pointer is NULL although a ball is linked, and the counter is 2. -/
theorem list_spoiled_by_failure :
    ¬ ∀ ops m, (∀ op ∈ ops, AsksForBalls op) →
      run Server.ballStep Server.ballManagerInit ops = .ok m → m.WellFormed := by
  intro hall
  obtain ⟨m, hm, htail, hhead⟩ : ∃ m, run Server.ballStep Server.ballManagerInit secondFails =
      .ok m ∧ m.tail = none ∧ m.head = some 0 := ⟨_, rfl, rfl, rfl⟩
  have hwell := hall secondFails m secondFails_asks hm
  have hnone := hwell.tail_eq_none_iff.mp htail
  rw [hhead] at hnone
  cases hnone

end BallGame.Protocol
