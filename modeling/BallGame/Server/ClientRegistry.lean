import BallGame.Server.ClientListManager

/-!
# The registry of the connected clients

Three callers keep the client list and its counter: the main thread adds an accepted client and
then counts it, and both the main thread (at the end of a stream) and a worker (at the command
`x`) remove a client and count down. The registry is the list with the counter and the place of
the main thread between the two halves of an `accept`; every removal may come at any time, for
any number.

* `removal_exact`: what a removal returns and what it leaves alone;
* `registryStep_registered`: every step keeps the list, the order and the counter;
* `client_registry_invariant`: the registry after every history.
-/

namespace BallGame.Server

open Library

variable {α : Type}

/-! ## Histories -/

/-- `counting`: the main thread has added a client and not counted it yet. -/
structure Registry (α : Type) where
  manager : ClientListManager α
  counting : Bool

def Registry.init : Registry α := ⟨clientListManagerInit, false⟩

inductive RegistryOp (α : Type) where
  /-- `accept` has returned `csock`, and the client joins the list. -/
  | add (csock : Int) (cliaddr : α) (alloc : Option Nat)
  /-- `client_count++` of the main thread. -/
  | count
  /-- A worker executes the command `x` of the number. -/
  | exit (fd : Int)
  /-- `recv` of the main thread returns no bytes. -/
  | hangUp (fd : Int)

/-- A number of an open file. -/
def Descriptor (fd : Int) : Prop := 0 ≤ fd ∧ IsInt fd

instance (fd : Int) : Decidable (Descriptor fd) := inferInstanceAs (Decidable (_ ∧ _))

/-- The main thread is one thread, and `accept` returns a number that belongs neither to the
listening socket nor to a client of the list. -/
def RegistryOp.Enabled (ssock : Int) (r : Registry α) : RegistryOp α → Prop
  | .add csock _ _ => r.counting = false ∧ Descriptor csock ∧ csock ≠ ssock ∧
      csock ∉ r.manager.toList.map SocketContext.csock
  | .count => r.counting = true
  | .exit _ => True
  | .hangUp _ => r.counting = false

instance (ssock : Int) (r : Registry α) : (op : RegistryOp α) → Decidable (op.Enabled ssock r)
  | .add _ _ _ => inferInstanceAs (Decidable (_ ∧ _))
  | .count => inferInstanceAs (Decidable (_ = _))
  | .exit _ => inferInstanceAs (Decidable True)
  | .hangUp _ => inferInstanceAs (Decidable (_ = _))

/-- The removal of both threads. -/
def removeRegistered (r : Registry α) (fd : Int) : Except Stuck (Registry α) := do
  let (_, manager) ← disconnectClient r.manager fd
  .ok { r with manager := manager }

def registryStep (ssock : Int) (r : Registry α) (op : RegistryOp α) :
    Except Stuck (Registry α) :=
  if op.Enabled ssock r then
    match op with
    | .add csock cliaddr alloc => do
      let manager ← addClient r.manager csock cliaddr alloc
      .ok ⟨manager, true⟩
    | .count => do
      let count ← checkedInt (r.manager.clientCount + 1)
      .ok ⟨{ r.manager with clientCount := count }, false⟩
    | .exit fd => removeRegistered r fd
    | .hangUp fd => removeRegistered r fd
  else
    .error .blocked

/-- The allocation of the node succeeds. -/
def RegistryOp.Allocates : RegistryOp α → Prop
  | .add _ _ alloc => alloc ≠ none
  | _ => True

/-! ## Who is registered after a history -/

/-- The client this operation adds. -/
def RegistryOp.adds : RegistryOp α → Option (SocketContext α)
  | .add csock cliaddr _ => some ⟨csock, cliaddr⟩
  | _ => none

/-- The number this operation removes. -/
def RegistryOp.removes : RegistryOp α → Option Int
  | .exit fd => some fd
  | .hangUp fd => some fd
  | _ => none

/-- The accepted clients that no later operation removes, in order of acceptance. -/
def registered : List (RegistryOp α) → List (SocketContext α)
  | [] => []
  | op :: ops =>
    (op.adds.toList.filter fun c => some c.csock ∉ ops.map RegistryOp.removes) ++ registered ops

theorem registered_concat (ops : List (RegistryOp α)) (op : RegistryOp α) :
    registered (ops ++ [op]) =
      ((registered ops).filter fun c => op.removes ≠ some c.csock) ++ op.adds.toList := by
  induction ops with
  | nil => cases op <;> simp [registered, RegistryOp.adds]
  | cons first ops ih =>
    have hlater : (first.adds.toList.filter fun c =>
        some c.csock ∉ (ops ++ [op]).map RegistryOp.removes) =
        (first.adds.toList.filter fun c => some c.csock ∉ ops.map RegistryOp.removes).filter
          fun c => op.removes ≠ some c.csock := by
      rw [List.filter_filter]
      apply List.filter_congr
      intro c _
      simp only [List.map_append, List.map_cons, List.map_nil, List.mem_append,
        List.mem_singleton, not_or, Bool.decide_and]
      rw [Bool.and_comm]
      simp only [ne_eq, eq_comm]
    rw [List.cons_append, registered, ih, hlater, registered, List.filter_append,
      List.append_assoc]

/-! ## Removals -/

/-- What `remove_client_by_socket` returns and leaves behind: NULL and the list as it was, or
the address of the unlinked node, whose cell and all others but its predecessor's stay. -/
inductive Removal (l : Linked (SocketContext α)) (fd : Int) :
    Option Nat → Linked (SocketContext α) → Prop where
  | absent (h : ∀ n ∈ l.nodes, n.2.csock ≠ fd) : Removal l fd none l
  | unlinked {n : Nat × SocketContext α} {pre post : List (Nat × SocketContext α)}
      {l' : Linked (SocketContext α)} (split : l.nodes = pre ++ n :: post)
      (h : Unlinks l fd n pre post l' false) : Removal l fd (some n.1) l'

theorem removal_exact {l : Linked (SocketContext α)} {ns : List (Nat × SocketContext α)}
    (hr : Represents l false ns) (fd : Int) :
    ∃ removed l', removeClientBySocket l fd = .ok (removed, l') ∧ Removal l fd removed l' := by
  rcases removeClientBySocket_ok hr fd with ⟨hnone, hok⟩ | ⟨pre, n, post, l', hsplit, hok, hu⟩
  · exact ⟨none, l, hok, .absent (by rwa [hr.nodes_eq])⟩
  · exact ⟨some n.1, l', hok, .unlinked (hr.nodes_eq.trans hsplit) hu⟩

/-! ## The invariant -/

/-- The list holds the clients `cs`, each once. -/
structure ClientListManager.Lists (m : ClientListManager α) (cs : List (SocketContext α)) :
    Prop where
  nodes : ∃ ns : List (Nat × SocketContext α), Chain m.heap m.head ns none ∧
    (ns.map Prod.fst).Nodup ∧ m.tail = ns.getLast?.map Prod.fst ∧ ns.map Prod.snd = cs
  once : (cs.map SocketContext.csock).Nodup
  tail_eq_none_iff : m.tail = none ↔ m.head = none

/-- The clients `cs` are listed, have numbers of their own, and are counted but for the one the
main thread is about to count. -/
structure Registry.Keeps (ssock : Int) (r : Registry α) (cs : List (SocketContext α)) :
    Prop where
  nodes : ∃ ns, Represents r.manager.toLinked false ns ∧ ns.map Prod.snd = cs
  numbers : (ssock :: cs.map SocketContext.csock).Nodup
  descriptors : ∀ c ∈ cs, Descriptor c.csock
  counted : r.manager.clientCount + (if r.counting then 1 else 0) = cs.length

theorem Registry.Keeps.lists {ssock : Int} {r : Registry α} {cs : List (SocketContext α)}
    (h : r.Keeps ssock cs) : r.manager.Lists cs := by
  obtain ⟨ns, hr, hns⟩ := h.nodes
  exact ⟨⟨ns, hr.chain, hr.nodup, hr.tail, hns⟩, (List.nodup_cons.mp h.numbers).2,
    hr.tail_eq_none_iff⟩

/-- There are at most `2 ^ 31` numbers of open files. -/
theorem length_le_of_descriptors {fds : List Int} (hfds : ∀ fd ∈ fds, Descriptor fd)
    (hnodup : fds.Nodup) : fds.length ≤ 2147483648 := by
  have hsub : fds.map Int.toNat ⊆ List.range 2147483648 := by
    intro k hk
    obtain ⟨fd, hfd, rfl⟩ := List.mem_map.mp hk
    obtain ⟨hlow, _, hhigh⟩ := hfds fd hfd
    rw [List.mem_range]
    omega
  have hinj : (fds.map Int.toNat).Nodup := by
    apply hnodup.map_on
    intro a ha b hb hab
    have hla := (hfds a ha).1
    have hlb := (hfds b hb).1
    omega
  simpa using (List.subperm_of_subset hinj hsub).length_le

theorem Registry.Keeps.length_lt {ssock : Int} (hssock : Descriptor ssock) {r : Registry α}
    {cs : List (SocketContext α)} (h : r.Keeps ssock cs) : (cs.length : Int) ≤ 2147483647 := by
  have hall : ∀ fd ∈ ssock :: cs.map SocketContext.csock, Descriptor fd := by
    intro fd hfd
    rcases List.mem_cons.mp hfd with rfl | hfd
    · exact hssock
    · obtain ⟨c, hc, rfl⟩ := List.mem_map.mp hfd
      exact h.descriptors c hc
  have hlen := length_le_of_descriptors hall h.numbers
  rw [List.length_cons, List.length_map] at hlen
  omega

/-! ## Every step keeps the registry -/

theorem keeps_init (ssock : Int) : (Registry.init : Registry α).Keeps ssock [] where
  nodes := ⟨[], Represents.empty, rfl⟩
  numbers := List.nodup_singleton ssock
  descriptors := fun _ hc => absurd hc List.not_mem_nil
  counted := rfl

theorem keeps_add {ssock : Int} {r : Registry α} {cs : List (SocketContext α)}
    (h : r.Keeps ssock cs) (hcounting : r.counting = false) {csock : Int}
    (hcsock : Descriptor csock) (hssock : csock ≠ ssock)
    (hnew : csock ∉ cs.map SocketContext.csock) (cliaddr : α) (choice : Nat) :
    ∃ manager, addClient r.manager csock cliaddr (some choice) = .ok manager ∧
      Registry.Keeps ssock ⟨manager, true⟩ (cs ++ [⟨csock, cliaddr⟩]) := by
  obtain ⟨ns, hr, hns⟩ := h.nodes
  obtain ⟨l, hl, hrep⟩ := hr.append_ok (Or.inl rfl) (createClient csock cliaddr) choice
  refine ⟨{ r.manager with toLinked := l }, ?_, ⟨_, hrep, ?_⟩, ?_, ?_, ?_⟩
  · simp only [addClient, appendClient, hl, bind, Except.bind]
  · rw [List.map_append, hns]
    rfl
  · obtain ⟨hs, hnodup⟩ := List.nodup_cons.mp h.numbers
    rw [List.map_append, ← List.cons_append]
    refine List.nodup_append.mpr ⟨h.numbers, List.nodup_singleton _, ?_⟩
    rintro a ha b hb rfl
    obtain rfl := List.mem_singleton.mp hb
    exact (List.mem_cons.mp ha).elim hssock hnew
  · intro c hc
    rcases List.mem_append.mp hc with hc | hc
    · exact h.descriptors c hc
    · obtain rfl := List.mem_singleton.mp hc
      exact hcsock
  · have hcounted := h.counted
    rw [hcounting] at hcounted
    simp at hcounted ⊢
    omega

/-- The counter fits, because there are more numbers than clients. -/
theorem keeps_count {ssock : Int} (hssock : Descriptor ssock) {r : Registry α}
    {cs : List (SocketContext α)} (h : r.Keeps ssock cs) (hcounting : r.counting = true) :
    checkedInt (r.manager.clientCount + 1) = .ok (r.manager.clientCount + 1) ∧
      Registry.Keeps ssock
        ⟨{ r.manager with clientCount := r.manager.clientCount + 1 }, false⟩ cs := by
  have hcounted := h.counted
  rw [hcounting, if_pos rfl] at hcounted
  have hlength := h.length_lt hssock
  refine ⟨checkedInt_ok.mpr ⟨⟨by omega, by omega⟩, rfl⟩, h.nodes, h.numbers, h.descriptors, ?_⟩
  simpa using hcounted

/-- Numbers are distinct, so that a removal takes all clients of its number off the list. -/
theorem keeps_remove {ssock : Int} {r : Registry α} {cs : List (SocketContext α)}
    (h : r.Keeps ssock cs) (fd : Int) :
    ∃ r', removeRegistered r fd = .ok r' ∧
      r'.Keeps ssock (cs.filter fun c => some fd ≠ some c.csock) := by
  obtain ⟨ns, hr, hns⟩ := h.nodes
  rcases disconnectClient_cases hr fd with
    ⟨hnone, hok⟩ | ⟨pre, n, post, m', rfl, hfound, hfirst, hok, hrep, hcount⟩
  · have hall : cs.filter (fun c => some fd ≠ some c.csock) = cs := by
      apply List.filter_eq_self.mpr
      intro c hc
      rw [← hns] at hc
      obtain ⟨k, hk, rfl⟩ := List.mem_map.mp hc
      simpa using (hnone k hk).symm
    refine ⟨r, by simp only [removeRegistered, hok, bind, Except.bind], ?_⟩
    rwa [hall]
  · have hnumbers := (List.nodup_cons.mp h.numbers).2
    have hpre : ∀ c ∈ pre.map Prod.snd, c.csock ≠ fd := by
      intro c hc
      obtain ⟨k, hk, rfl⟩ := List.mem_map.mp hc
      exact hfirst k hk
    have hpost : ∀ c ∈ post.map Prod.snd, c.csock ≠ fd := by
      intro c hc he
      rw [← hns, List.map_append, List.map_cons, List.map_append, List.map_cons] at hnumbers
      have hdistinct := (List.nodup_cons.mp (List.nodup_append.mp hnumbers).2.1).1
      rw [hfound] at hdistinct
      exact hdistinct (List.mem_map.mpr ⟨c, hc, he⟩)
    have hrest : cs.filter (fun c => some fd ≠ some c.csock) = (pre ++ post).map Prod.snd := by
      rw [← hns, List.map_append, List.map_append, List.map_cons, List.filter_append,
        List.filter_cons_of_neg (by simp [hfound]), List.filter_eq_self.mpr,
        List.filter_eq_self.mpr]
      · intro c hc
        simpa using (hpost c hc).symm
      · intro c hc
        simpa using (hpre c hc).symm
    have hsub : (cs.filter fun c => some fd ≠ some c.csock).Sublist cs := List.filter_sublist
    refine ⟨{ r with manager := m' }, by simp only [removeRegistered, hok, bind, Except.bind],
      ⟨pre ++ post, hrep, hrest.symm⟩, ?_, fun c hc => h.descriptors c (hsub.subset hc), ?_⟩
    · exact h.numbers.sublist ((hsub.map _).cons_cons ssock)
    · have hcounted := h.counted
      rw [← hns] at hcounted
      rw [hrest]
      simp only [hcount, List.length_map, List.length_append, List.length_cons] at hcounted ⊢
      omega

/-- The step lemma: a step that is enabled succeeds, if the memory suffices. -/
theorem registryStep_keeps {ssock : Int} (hssock : Descriptor ssock) {r : Registry α}
    {cs : List (SocketContext α)} (h : r.Keeps ssock cs) {op : RegistryOp α}
    (halloc : op.Allocates) (hop : op.Enabled ssock r) :
    ∃ r', registryStep ssock r op = .ok r' ∧
      r'.Keeps ssock ((cs.filter fun c => op.removes ≠ some c.csock) ++ op.adds.toList) := by
  have hkept : cs.filter (fun c => (none : Option Int) ≠ some c.csock) = cs :=
    List.filter_eq_self.mpr fun c _ => by simp
  unfold registryStep
  rw [if_pos hop]
  cases op with
  | add csock cliaddr alloc =>
    obtain ⟨choice, rfl⟩ := Option.ne_none_iff_exists'.mp halloc
    obtain ⟨hcounting, hcsock, hne, hnew⟩ := hop
    obtain ⟨ns, hr, hns⟩ := h.nodes
    rw [hr.toList_eq, hns] at hnew
    obtain ⟨manager, hok, hkeeps⟩ := keeps_add h hcounting hcsock hne hnew cliaddr choice
    refine ⟨⟨manager, true⟩, by simp only [hok, bind, Except.bind], ?_⟩
    rw [RegistryOp.removes, hkept]
    · exact hkeeps
    all_goals simp
  | count =>
    obtain ⟨hok, hkeeps⟩ := keeps_count hssock h hop
    refine ⟨_, by simp only [hok, bind, Except.bind]; rfl, ?_⟩
    rw [RegistryOp.removes, hkept, RegistryOp.adds, Option.toList_none, List.append_nil]
    · exact hkeeps
    all_goals simp
  | exit fd =>
    obtain ⟨r', hok, hkeeps⟩ := keeps_remove h fd
    exact ⟨r', hok, by simpa [RegistryOp.removes, RegistryOp.adds] using hkeeps⟩
  | hangUp fd =>
    obtain ⟨r', hok, hkeeps⟩ := keeps_remove h fd
    exact ⟨r', hok, by simpa [RegistryOp.removes, RegistryOp.adds] using hkeeps⟩

/-- The run lemma. -/
theorem run_registryStep_keeps {ssock : Int} (hssock : Descriptor ssock)
    (ops : List (RegistryOp α)) (hops : ∀ op ∈ ops, op.Allocates) {r : Registry α}
    (h : run (registryStep ssock) Registry.init ops = .ok r) : r.Keeps ssock (registered ops) := by
  induction ops using List.reverseRecOn generalizing r with
  | nil =>
    cases h
    exact keeps_init ssock
  | append_singleton ops op ih =>
    obtain ⟨t, ht, hstep⟩ := run_concat_ok.mp h
    have hkept := ih (fun op hop => hops op (List.mem_append_left _ hop)) ht
    by_cases hop : op.Enabled ssock t
    · obtain ⟨r', hr', hkeeps⟩ := registryStep_keeps hssock hkept (hops op (by simp)) hop
      rw [hr'] at hstep
      cases hstep
      rwa [registered_concat]
    · unfold registryStep at hstep
      rw [if_neg hop] at hstep
      cases hstep

/-- **The client registry.** While the memory suffices, the list holds after every history of
accepts and removals exactly the clients that were accepted and not removed since, in order of
acceptance, head and tail pointer are right, a removal of any number is exact, and the counter
is the length of the list unless the main thread is about to count. A history only ever stops
where the main thread, or `accept`, cannot do what comes next. -/
theorem client_registry_invariant (ssock : Int) (hssock : Descriptor ssock)
    (ops : List (RegistryOp α)) (hops : ∀ op ∈ ops, op.Allocates) :
    (∀ r, run (registryStep ssock) Registry.init ops = .ok r →
      r.manager.Lists (registered ops) ∧
      (∀ fd, ∃ removed l', removeClientBySocket r.manager.toLinked fd = .ok (removed, l') ∧
        Removal r.manager.toLinked fd removed l') ∧
      (r.counting = false → r.manager.clientCount = (registered ops).length)) ∧
    ∀ e, run (registryStep ssock) Registry.init ops = .error e →
      ∃ pre op post r, ops = pre ++ op :: post ∧
        run (registryStep ssock) Registry.init pre = .ok r ∧ ¬ op.Enabled ssock r := by
  constructor
  · intro r h
    have hkeeps := run_registryStep_keeps hssock ops hops h
    obtain ⟨ns, hr, _⟩ := hkeeps.nodes
    refine ⟨hkeeps.lists, removal_exact hr, ?_⟩
    intro hcounting
    simpa [hcounting] using hkeeps.counted
  · intro e h
    obtain ⟨pre, op, post, r, rfl, hpre, hop⟩ := run_error h
    refine ⟨pre, op, post, r, rfl, hpre, ?_⟩
    intro henabled
    have hkeeps := run_registryStep_keeps hssock pre
      (fun op hop => hops op (List.mem_append_left _ hop)) hpre
    obtain ⟨r', hr', _⟩ := registryStep_keeps hssock hkeeps (hops op (by simp)) henabled
    rw [hop] at hr'
    cases hr'

/-- Two clients; the second one leaves before it is counted, and both leave once more. -/
def shortVisits : List (RegistryOp Nat) :=
  [.add 5 0 (some 0), .count, .add 6 1 (some 0), .exit 6, .count, .hangUp 6, .exit 7, .exit 5,
    .hangUp 5, .add 5 2 (some 0), .count]

theorem shortVisits_allocates : ∀ op ∈ shortVisits, op.Allocates := by
  intro op hop
  simp only [shortVisits, List.mem_cons, List.not_mem_nil, or_false] at hop
  rcases hop with rfl | rfl | rfl | rfl | rfl | rfl | rfl | rfl | rfl | rfl | rfl <;>
    simp [RegistryOp.Allocates]

theorem client_registry_invariant_shortVisits :
    ∃ r, run (registryStep 4) Registry.init shortVisits = .ok r ∧
      r.manager.clientCount = 1 ∧ registered shortVisits = [⟨5, 2⟩] ∧
      r.manager.Lists (registered shortVisits) := by
  obtain ⟨r, hr, hcount⟩ : ∃ r, run (registryStep 4) Registry.init shortVisits = .ok r ∧
      r.manager.clientCount = 1 := ⟨_, rfl, rfl⟩
  exact ⟨r, hr, hcount, rfl,
    ((client_registry_invariant 4 (by decide) shortVisits shortVisits_allocates).1 r hr).1⟩

end BallGame.Server
