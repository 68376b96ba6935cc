import BallGame.Library.LinkedList

/-!
# The client list

`client_list_manager.c`: the linked list of the connected clients, and the critical section in
which both the main thread and a worker take a client off the list. The type of addresses is a
parameter; `accept` fills an address in, and no function of the server looks at it again.
-/

namespace BallGame.Server

open Library

variable {α : Type}

structure SocketContext (α : Type) where
  csock : Int
  cliaddr : α
  deriving DecidableEq

structure ClientListManager (α : Type) extends Linked (SocketContext α) where
  clientCount : Int

def clientListManagerInit : ClientListManager α := { toLinked := Linked.empty, clientCount := 0 }

def createClient (csock : Int) (cliaddr : α) : SocketContext α := ⟨csock, cliaddr⟩

def appendClient (l : Linked (SocketContext α)) (ctx : SocketContext α) (alloc : Option Nat) :
    Except Stuck (Linked (SocketContext α)) :=
  l.append ctx alloc

/-- The main thread takes no mutex here. -/
def addClient (m : ClientListManager α) (csock : Int) (cliaddr : α) (alloc : Option Nat) :
    Except Stuck (ClientListManager α) := do
  let l ← appendClient m.toLinked (createClient csock cliaddr) alloc
  .ok { m with toLinked := l }

def removeClientLoop (socketFd : Int) :
    Nat → Linked (SocketContext α) → Option Nat → Option Nat →
      Except Stuck (Option Nat × Linked (SocketContext α))
  | _, l, _, none => .ok (none, l)
  | 0, _, _, some _ => .error .nontermination
  | fuel + 1, l, prev, some cur => do
    let node ← l.heap.read cur
    if node.data.csock = socketFd then
      match prev with
      | none =>
        .ok (some cur, ⟨l.heap, node.next, if l.tail = some cur then none else l.tail⟩)
      | some p => do
        let prevNode ← l.heap.read p
        let heap ← l.heap.write p { prevNode with next := node.next }
        .ok (some cur, ⟨heap, l.head, if l.tail = some cur then some p else l.tail⟩)
    else
      removeClientLoop socketFd fuel l (some cur) node.next

/-- The address of the unlinked node, if there is one. The caller frees it. -/
def removeClientBySocket (l : Linked (SocketContext α)) (socketFd : Int) :
    Except Stuck (Option Nat × Linked (SocketContext α)) :=
  removeClientLoop socketFd l.heap.brk l none l.head

/-- The section under `mutex_client`: the context of the removed client, whose socket the
caller closes. -/
def disconnectClient (m : ClientListManager α) (fd : Int) :
    Except Stuck (Option (SocketContext α) × ClientListManager α) := do
  let (removed, l) ← removeClientBySocket m.toLinked fd
  match removed with
  | none => .ok (none, { m with toLinked := l })
  | some p => do
    let node ← l.heap.read p
    let heap ← l.heap.free p
    .ok (some node.data,
      { heap := heap, head := l.head, tail := l.tail, clientCount := m.clientCount - 1 })

/-! ## What the list holds -/

/-- The linked list holds the clients `cs`. -/
def ClientListManager.Holds (m : ClientListManager α) (cs : List (SocketContext α)) : Prop :=
  ∃ lost ns, Represents m.toLinked lost ns ∧ ns.map Prod.snd = cs

theorem clientListManagerInit_holds : (clientListManagerInit : ClientListManager α).Holds [] :=
  ⟨false, [], Represents.empty, rfl⟩

theorem ClientListManager.Holds.toList_eq {m : ClientListManager α}
    {cs : List (SocketContext α)} (h : m.Holds cs) : m.toList = cs := by
  obtain ⟨lost, ns, hr, rfl⟩ := h
  exact hr.toList_eq

theorem ClientListManager.Holds.self {m : ClientListManager α} {cs : List (SocketContext α)}
    (h : m.Holds cs) : m.Holds m.toList := by
  rwa [h.toList_eq]

/-- A client is appended, unless its allocation fails. -/
theorem addClient_ok {m m' : ClientListManager α} {cs : List (SocketContext α)} (h : m.Holds cs)
    {csock : Int} {cliaddr : α} {alloc : Option Nat}
    (hok : addClient m csock cliaddr alloc = .ok m') :
    m'.Holds (if alloc.isSome then cs ++ [⟨csock, cliaddr⟩] else cs) := by
  obtain ⟨lost, ns, hr, rfl⟩ := h
  obtain ⟨l, hl, he⟩ := bind_ok.mp hok
  cases he
  by_cases hlost : lost = false ∨ ns = []
  · cases alloc with
    | none =>
      obtain ⟨l', hl', hr'⟩ := hr.append_failed hlost (createClient csock cliaddr)
      rw [appendClient, hl'] at hl
      cases hl
      exact ⟨true, ns, hr', rfl⟩
    | some choice =>
      obtain ⟨l', hl', hr'⟩ := hr.append_ok hlost (createClient csock cliaddr) choice
      rw [appendClient, hl'] at hl
      cases hl
      exact ⟨false, _, hr', by simp [createClient]⟩
  · rw [not_or, Bool.not_eq_false] at hlost
    obtain ⟨rfl, hns⟩ := hlost
    rw [appendClient, hr.append_lost hns] at hl
    cases hl

/-- The first node with the socket is `n`; a removal unlinks it and leaves its cell alone. -/
structure Unlinks (l : Linked (SocketContext α)) (socketFd : Int) (n : Nat × SocketContext α)
    (pre post : List (Nat × SocketContext α)) (l' : Linked (SocketContext α)) (lost : Bool) :
    Prop where
  found : n.2.csock = socketFd
  first : ∀ k ∈ pre, k.2.csock ≠ socketFd
  rest : Represents l' lost (pre ++ post)
  frame : ∀ a, pre.getLast?.map Prod.fst ≠ some a → l'.heap.cell a = l.heap.cell a

/-- The walk has passed the clients `kept`, none of which has the socket, and has `rest`
before it. -/
theorem removeClientLoop_ok (socketFd : Int) (rest : List (Nat × SocketContext α)) (fuel : Nat)
    {l : Linked (SocketContext α)} {lost : Bool} {kept : List (Nat × SocketContext α)}
    (hr : Represents l lost (kept ++ rest)) (hkept : ∀ k ∈ kept, k.2.csock ≠ socketFd)
    (hfuel : rest.length ≤ fuel) :
    ((∀ k ∈ kept ++ rest, k.2.csock ≠ socketFd) ∧
      removeClientLoop socketFd fuel l (kept.getLast?.map Prod.fst) (rest.head?.map Prod.fst) =
        .ok (none, l)) ∨
    ∃ pre n post l', kept ++ rest = pre ++ n :: post ∧
      removeClientLoop socketFd fuel l (kept.getLast?.map Prod.fst) (rest.head?.map Prod.fst) =
        .ok (some n.1, l') ∧ Unlinks l socketFd n pre post l' lost := by
  induction rest generalizing fuel kept with
  | nil => exact Or.inl ⟨by simpa using hkept, by cases fuel <;> rfl⟩
  | cons n rest ih =>
    obtain ⟨a, x⟩ := n
    cases fuel with
    | zero => simp at hfuel
    | succ fuel =>
      have hfuel' : rest.length ≤ fuel := by simpa using hfuel
      by_cases hx : x.csock = socketFd
      · refine Or.inr ⟨kept, (a, x), rest, ?_⟩
        rcases List.eq_nil_or_concat kept with rfl | ⟨kept, ⟨b, y⟩, rfl⟩
        · obtain ⟨_, hhead, ha, _, _⟩ := hr.free_head
          refine ⟨⟨l.heap, rest.head?.map Prod.fst, if l.tail = some a then none else l.tail⟩,
            rfl, ?_, hx, hkept, hr.unlink_head ha fun _ _ => rfl, fun _ _ => rfl⟩
          simp only [List.head?_cons, Option.map_some, removeClientLoop, Heap.read_ok.mpr ha,
            bind, Except.bind, hx, if_true, List.getLast?_nil, Option.map_none]
        · rw [List.concat_eq_append] at hkept ⊢
          rw [List.concat_eq_append, List.append_assoc, List.singleton_append] at hr
          obtain ⟨heap₁, _, _, hb, ha, hw, ha₁, _, _⟩ := hr.free_next
          obtain ⟨heap', hw', _, hcell⟩ :=
            Heap.write_ok (x := ⟨y, rest.head?.map Prod.fst⟩) hb
          obtain rfl : heap₁ = heap' := by
            rw [hw] at hw'
            exact Except.ok.inj hw'
          have hframe : ∀ c, c ≠ b → heap₁.cell c = l.heap.cell c := by
            intro c hc
            rw [hcell, Function.update_of_ne hc]
          refine ⟨⟨heap₁, l.head, if l.tail = some a then some b else l.tail⟩, rfl, ?_, hx, hkept,
            ?_, ?_⟩
          · simp only [List.head?_cons, removeClientLoop, Heap.read_ok.mpr ha, bind, Except.bind,
              hx, if_true, List.getLast?_concat, Option.map_some, Heap.read_ok.mpr hb, hw]
          · have hbcell : heap₁.cell b = some ⟨y, rest.head?.map Prod.fst⟩ := by
              rw [hcell, Function.update_self]
            simpa using hr.unlink_next ha hbcell fun c _ hc => hframe c hc
          · intro c hc
            apply hframe c
            intro he
            simp [he] at hc
      · obtain ⟨next, ha, hrest, _⟩ := hr.target_cell
        obtain rfl := hrest.head_eq
        have hr₁ : Represents l lost ((kept ++ [(a, x)]) ++ rest) := by simpa using hr
        have hkept₁ : ∀ k ∈ kept ++ [(a, x)], k.2.csock ≠ socketFd := by
          intro k hk
          rcases List.mem_append.mp hk with hk | hk
          · exact hkept k hk
          · obtain rfl := List.mem_singleton.mp hk
            exact hx
        have hloop : removeClientLoop socketFd (fuel + 1) l (kept.getLast?.map Prod.fst)
            (some a) = removeClientLoop socketFd fuel l
              ((kept ++ [(a, x)]).getLast?.map Prod.fst) (rest.head?.map Prod.fst) := by
          simp only [removeClientLoop, Heap.read_ok.mpr ha, bind, Except.bind, hx, if_false,
            List.getLast?_concat, Option.map_some]
        have hwhole : kept ++ (a, x) :: rest = (kept ++ [(a, x)]) ++ rest := by simp
        rw [List.head?_cons, Option.map_some, hloop, hwhole]
        exact ih fuel hr₁ hkept₁ hfuel'

/-- What a removal returns and leaves behind, at every list. -/
theorem removeClientBySocket_ok {l : Linked (SocketContext α)} {lost : Bool}
    {ns : List (Nat × SocketContext α)} (hr : Represents l lost ns) (socketFd : Int) :
    ((∀ k ∈ ns, k.2.csock ≠ socketFd) ∧ removeClientBySocket l socketFd = .ok (none, l)) ∨
    ∃ pre n post l', ns = pre ++ n :: post ∧
      removeClientBySocket l socketFd = .ok (some n.1, l') ∧
      Unlinks l socketFd n pre post l' lost := by
  have hr' : Represents l lost ([] ++ ns) := hr
  have hloop := removeClientLoop_ok socketFd ns l.heap.brk hr' (fun k hk => by cases hk)
    hr.length_le
  rw [removeClientBySocket, hr.chain.head_eq]
  exact hloop

/-- The unlinked node can be read and freed. -/
theorem Unlinks.free {l l' : Linked (SocketContext α)} {lost : Bool} {socketFd : Int}
    {n : Nat × SocketContext α} {pre post : List (Nat × SocketContext α)}
    (hr : Represents l lost (pre ++ n :: post)) (hu : Unlinks l socketFd n pre post l' lost) :
    ∃ next heap, l'.heap.read n.1 = .ok ⟨n.2, next⟩ ∧ l'.heap.free n.1 = .ok heap ∧
      Represents { l' with heap := heap } lost (pre ++ post) := by
  obtain ⟨a, x⟩ := n
  obtain ⟨next, ha, _, _⟩ := hr.target_cell
  obtain ⟨hpre, hpost, _⟩ := hr.target_not_mem
  have ha' : l'.heap.cell a = some ⟨x, next⟩ := by
    rw [hu.frame a, ha]
    intro he
    obtain ⟨k, hk, rfl⟩ := Option.map_eq_some_iff.mp he
    exact hpre (List.mem_map_of_mem (List.mem_of_getLast? hk))
  obtain ⟨heap, hfree, _, hcell⟩ := Heap.free_ok ha'
  refine ⟨next, heap, Heap.read_ok.mpr ha', hfree, hu.rest.congr ?_⟩
  intro b hb
  rw [hcell, Function.update_of_ne]
  rintro rfl
  rw [List.map_append, List.mem_append] at hb
  exact hb.elim hpre hpost

/-- The section under the mutex takes the node off the list and counts down, or changes
nothing. -/
theorem disconnectClient_cases {m : ClientListManager α} {lost : Bool}
    {ns : List (Nat × SocketContext α)} (hr : Represents m.toLinked lost ns) (fd : Int) :
    ((∀ k ∈ ns, k.2.csock ≠ fd) ∧ disconnectClient m fd = .ok (none, m)) ∨
    ∃ pre n post m', ns = pre ++ n :: post ∧ n.2.csock = fd ∧ (∀ k ∈ pre, k.2.csock ≠ fd) ∧
      disconnectClient m fd = .ok (some n.2, m') ∧ Represents m'.toLinked lost (pre ++ post) ∧
      m'.clientCount = m.clientCount - 1 := by
  rcases removeClientBySocket_ok hr fd with ⟨hnone, hok⟩ | ⟨pre, n, post, l', rfl, hok, hu⟩
  · exact Or.inl ⟨hnone, by simp only [disconnectClient, hok, bind, Except.bind]⟩
  · obtain ⟨next, heap, hread, hfree, hrep⟩ := hu.free hr
    refine Or.inr ⟨pre, n, post, ⟨⟨heap, l'.head, l'.tail⟩, m.clientCount - 1⟩, rfl, hu.found,
      hu.first, ?_, hrep, rfl⟩
    simp only [disconnectClient, hok, bind, Except.bind, hread, hfree]

/-- The first client with the socket is removed, if there is one. -/
theorem disconnectClient_ok {m : ClientListManager α} {cs : List (SocketContext α)}
    (h : m.Holds cs) (fd : Int) :
    ∃ m', disconnectClient m fd = .ok (cs.find? (fun c => c.csock = fd), m') ∧
      m'.Holds (cs.eraseP fun c => c.csock = fd) := by
  obtain ⟨lost, ns, hr, rfl⟩ := h
  have hpass : ∀ ks : List (Nat × SocketContext α), (∀ k ∈ ks, k.2.csock ≠ fd) →
      ∀ c ∈ ks.map Prod.snd, ¬ decide (c.csock = fd) = true := by
    intro ks hks c hc
    obtain ⟨k, hk, rfl⟩ := List.mem_map.mp hc
    simpa using hks k hk
  rcases disconnectClient_cases hr fd with
    ⟨hnone, hok⟩ | ⟨pre, n, post, m', rfl, hfound, hfirst, hok, hrep, _⟩
  · rw [List.find?_eq_none.mpr (hpass ns hnone), List.eraseP_of_forall_not (hpass ns hnone)]
    exact ⟨m, hok, lost, ns, hr, rfl⟩
  · refine ⟨m', ?_, lost, pre ++ post, hrep, ?_⟩
    · rw [hok, List.map_append, List.find?_append, List.find?_eq_none.mpr (hpass pre hfirst)]
      simp [hfound]
    · rw [List.map_append, List.map_append, List.eraseP_append_right _ (hpass pre hfirst)]
      simp [hfound]

end BallGame.Server
