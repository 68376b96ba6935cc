import BallGame.Client.BallCount
import BallGame.Client.Render

/-!
# Nothing leaks on the client

The render thread copies the list while it holds the mutex, but it frees the copy node by node
when the list may already be another one. Both are in the same memory: a node is live exactly
while it is in the list or in what is left of the copy, whatever the threads do in whatever order
and whichever allocations fail.

* `clientStep_shares`: the operations on the list leave the copy alone;
* `viewerStep_sound`: every step of the two threads;
* `client_memory`: a run of them, and its end;
* `render_shows_scene`: what the screen shows in any state of a run.
-/

namespace BallGame.Client

open Library Shared

/-! ## The operations on the list -/

section

variable {rest : Nat → Option (Node ScreenBall)}

theorem addBallLoop_shares {width height radius : Int} {env : AddEnv} {remaining i : Nat}
    {m m' : BallListManager} (h : m.toLinked.Shares rest)
    (hok : addBallLoop width height radius env remaining i m = .ok m') :
    m'.toLinked.Shares rest := by
  induction remaining generalizing i m with
  | zero =>
    cases hok
    exact h
  | succ remaining ih =>
    obtain ⟨total, _, hok⟩ := bind_ok.mp hok
    obtain ⟨b, _, hok⟩ := bind_ok.mp hok
    obtain ⟨l, hl, hok⟩ := bind_ok.mp hok
    exact ih (m := { toLinked := l, totalCount := total }) (h.append hl) hok

theorem appendTokens_shares {width height : Int} {alloc : Nat → Option Nat}
    {ts : List (List Char)} {i : Nat} {m m' : BallListManager} (h : m.toLinked.Shares rest)
    (hok : appendTokens width height alloc ts i m = .ok m') : m'.toLinked.Shares rest := by
  induction ts generalizing i m with
  | nil =>
    cases hok
    exact h
  | cons t ts ih =>
    obtain ⟨l, hl, hok⟩ := bind_ok.mp hok
    obtain ⟨total, _, hok⟩ := bind_ok.mp hok
    exact ih (m := { toLinked := l, totalCount := total }) (h.append hl) hok

/-- The walk to the tail stays on the list. -/
theorem beforeTail_mem {heap : Heap (Node ScreenBall)} {tail : Option Nat} {fuel p c : Nat}
    {ns : List (Nat × ScreenBall)} (hc : Chain heap (some p) ns none)
    (hok : beforeTail tail fuel heap p = .ok c) : c ∈ ns.map Prod.fst := by
  induction fuel generalizing p ns with
  | zero => cases hok
  | succ fuel ih =>
    cases ns with
    | nil => cases hc
    | cons n ns =>
      obtain ⟨a, x⟩ := n
      obtain ⟨hp, next, hcell, hrest⟩ := hc
      cases hp
      rw [List.map_cons, List.mem_cons]
      simp only [beforeTail, Heap.read_ok.mpr hcell, bind, Except.bind] at hok
      split at hok
      · cases hok
        exact Or.inl rfl
      · split at hok
        · cases hok
        · rename_i q
          exact Or.inr (ih hrest hok)

/-- Without a tail there is nothing to delete, or the deletion does not come to its end. -/
theorem deleteLastBall_lost {l l' : Linked ScreenBall} {result : Option Nat} (htail : l.tail = none)
    (hok : deleteLastBall l = .ok (result, l')) : l' = l := by
  unfold deleteLastBall at hok
  split at hok
  · cases hok
    rfl
  · rename_i head _
    rw [htail, if_neg (Ne.symm (Option.some_ne_none head))] at hok
    obtain ⟨cur, _, hok⟩ := bind_ok.mp hok
    obtain ⟨node, _, hok⟩ := bind_ok.mp hok
    obtain ⟨heap, _, hok⟩ := bind_ok.mp hok
    cases hok

/-- The last node is freed, and no cell but those of the list changes. -/
theorem deleteLastBall_cells {l l' : Linked ScreenBall} {result : Option Nat}
    {ns : List (Nat × ScreenBall)} (hr : Represents l false ns)
    (hok : deleteLastBall l = .ok (result, l')) :
    (∀ t, l.tail = some t → l'.heap.cell t = none) ∧
      ∀ a, a ∉ ns.map Prod.fst → l'.heap.cell a = l.heap.cell a := by
  have htail : ∀ t, l.tail = some t → t ∈ ns.map Prod.fst := by
    intro t ht
    obtain ⟨n, hn, rfl⟩ := Option.map_eq_some_iff.mp (hr.tail.symm.trans ht)
    exact List.mem_map_of_mem (List.mem_of_getLast? hn)
  unfold deleteLastBall at hok
  split at hok
  · rename_i hhead
    cases hok
    refine ⟨?_, fun _ _ => rfl⟩
    intro t ht
    rw [hr.tail_eq_none_iff.mpr hhead] at ht
    cases ht
  · rename_i head hhead
    split at hok
    · rename_i hlast
      obtain ⟨heap, hfree, hok⟩ := bind_ok.mp hok
      cases hok
      have hcell := (Heap.free_cell hfree).2
      constructor
      · intro t ht
        cases hlast.symm.trans ht
        rw [hcell, Function.update_self]
      · intro a ha
        have hne : a ≠ head := fun he => ha (he ▸ htail head hlast)
        rw [hcell, Function.update_of_ne hne]
    · obtain ⟨cur, hcur, hok⟩ := bind_ok.mp hok
      obtain ⟨node, _, hok⟩ := bind_ok.mp hok
      obtain ⟨heap, hw, hok⟩ := bind_ok.mp hok
      have hmem := beforeTail_mem (hhead ▸ hr.chain) hcur
      split at hok
      · cases hok
      · rename_i removed hremoved
        obtain ⟨heap', hfree, hok⟩ := bind_ok.mp hok
        cases hok
        have hcell := (Heap.free_cell hfree).2
        constructor
        · intro t ht
          cases hremoved.symm.trans ht
          rw [hcell, Function.update_self]
        · intro a ha
          have hne : a ≠ removed := fun he => ha (he ▸ htail removed hremoved)
          have hne' : a ≠ cur := fun he => ha (he ▸ hmem)
          rw [hcell, Function.update_of_ne hne, (Heap.write_cell hw).2,
            Function.update_of_ne hne']

theorem deleteLastBall_shares {l l' : Linked ScreenBall} {result : Option Nat}
    (h : l.Shares rest) (hok : deleteLastBall l = .ok (result, l')) : l'.Shares rest := by
  obtain ⟨lost, ns, hr, hbeside⟩ := h
  cases lost with
  | true =>
    rw [deleteLastBall_lost hr.tail hok]
    exact ⟨true, ns, hr, hbeside⟩
  | false =>
    obtain ⟨hfreed, hsame⟩ := deleteLastBall_cells hr hok
    obtain ⟨l₁, hl₁, hrep⟩ := deleteLastBall_ok hr
    rw [hl₁] at hok
    cases hok
    refine ⟨false, ns.dropLast, hrep, ?_, ?_⟩
    · intro a ha
      rw [List.map_dropLast] at ha
      exact hbeside.apart a (List.mem_of_mem_dropLast ha)
    · intro a ha
      by_cases hmem : a ∈ ns.map Prod.fst
      · -- the last node
        rw [hbeside.apart a hmem]
        apply hfreed a
        rcases List.eq_nil_or_concat' ns with rfl | ⟨pre, n, rfl⟩
        · cases hmem
        · rw [List.dropLast_concat] at ha
          rw [List.map_append, List.mem_append, or_iff_right ha, List.map_singleton,
            List.mem_singleton] at hmem
          rw [hr.tail, hmem]
          simp
      · rw [hsame a hmem, hbeside.frame a hmem]

theorem deleteBallLoop_shares {remaining : Nat} {m m' : BallListManager}
    (h : m.toLinked.Shares rest) (hok : deleteBallLoop remaining m = .ok m') :
    m'.toLinked.Shares rest := by
  induction remaining generalizing m with
  | zero =>
    cases hok
    exact h
  | succ remaining ih =>
    obtain ⟨⟨result, l⟩, hl, hok⟩ := bind_ok.mp hok
    have hshares := deleteLastBall_shares h hl
    dsimp only at hok
    split at hok
    · obtain ⟨total, _, hok⟩ := bind_ok.mp hok
      exact ih (m := { toLinked := l, totalCount := total }) hshares hok
    · exact ih (m := { toLinked := l, totalCount := m.totalCount }) hshares hok

/-- `delete_all_ball` frees as `freeBallList` does. -/
theorem deleteAllBallLoop_frees {fuel : Nat} {heap heap' : Heap (Node ScreenBall)}
    {p : Option Nat} {count count' : Int}
    (hok : deleteAllBallLoop fuel heap p count = .ok (heap', count')) :
    Linked.freeNodes fuel heap p = .ok heap' := by
  induction fuel generalizing heap p count with
  | zero =>
    cases p with
    | none =>
      cases hok
      rfl
    | some a => cases hok
  | succ fuel ih =>
    cases p with
    | none =>
      cases hok
      rfl
    | some a =>
      obtain ⟨node, hnode, hok⟩ := bind_ok.mp hok
      obtain ⟨heap₁, hfree, hok⟩ := bind_ok.mp hok
      simp only [Linked.freeNodes, hnode, hfree, bind, Except.bind]
      exact ih hok

theorem deleteAllBall_shares {m m' : BallListManager} (h : m.toLinked.Shares rest)
    (hok : deleteAllBall m = .ok m') : m'.toLinked.Shares rest := by
  obtain ⟨lost, ns, hr, hbeside⟩ := h
  obtain ⟨⟨heap, count⟩, hloop, hok⟩ := bind_ok.mp hok
  cases hok
  obtain ⟨heap', hfree, hcell⟩ := hbeside.free hr hr.length_le
  rw [deleteAllBallLoop_frees hloop] at hfree
  cases hfree
  exact ⟨false, [], Represents.start heap, List.forall_mem_nil _, fun a _ => congrFun hcell a⟩

/-- The operations leave the other cells alone. -/
theorem clientStep_shares {m m' : BallListManager} (h : m.toLinked.Shares rest) {op : BallOp}
    (hok : clientStep m op = .ok m') : m'.toLinked.Shares rest := by
  cases op with
  | add count width height radius env => exact addBallLoop_shares h hok
  | delete count => exact deleteBallLoop_shares h hok
  | update str width height env =>
    obtain ⟨m₀, hm₀, hok⟩ := bind_ok.mp hok
    have hshares := deleteAllBall_shares h hm₀
    cases hstrdup : env.strdup with
    | false =>
      rw [hstrdup] at hok
      cases hok
      exact hshares
    | true =>
      rw [hstrdup] at hok
      exact appendTokens_shares hshares hok

end

/-! ## The two threads -/

/-- The list, and the variable `local_copy` of the render thread. -/
structure Viewer where
  manager : BallListManager
  localCopy : Option Nat

/-- A critical section, or one turn of the loop that frees the copy. -/
inductive ViewerLabel where
  | op (op : BallOp)
  | render (alloc : Nat → Option Nat)
  | free

/-- The render thread comes back to its critical section when the copy is freed. -/
def viewerStep (fb : DevFb) (v : Viewer) : ViewerLabel → Except Stuck Viewer
  | .op op => do
    let m ← clientStep v.manager op
    .ok { v with manager := m }
  | .render alloc =>
    if v.localCopy = none then do
      let (_, copy) ← renderLocked fb v.manager alloc
      .ok ⟨{ v.manager with heap := copy.heap }, copy.head⟩
    else .error .blocked
  | .free =>
    match v.localCopy with
    | none => .error .blocked
    | some tmp => do
      let node ← v.manager.heap.read tmp
      let heap ← v.manager.heap.free tmp
      .ok ⟨{ v.manager with heap := heap }, node.next⟩

def viewerStart : Viewer := ⟨ballManagerInit, none⟩

/-- What is left of the copy. -/
def Viewer.copy (v : Viewer) : Linked ScreenBall := ⟨v.manager.heap, v.localCopy, none⟩

/-- The cells of these nodes. -/
def cellsOf (heap : Heap (Node ScreenBall)) (ns : List (Nat × ScreenBall)) (a : Nat) :
    Option (Node ScreenBall) :=
  if a ∈ ns.map Prod.fst then heap.cell a else none

theorem cellsOf_mem {heap : Heap (Node ScreenBall)} {ns : List (Nat × ScreenBall)} {a : Nat}
    (ha : a ∈ ns.map Prod.fst) : cellsOf heap ns a = heap.cell a := if_pos ha

theorem cellsOf_not_mem {heap : Heap (Node ScreenBall)} {ns : List (Nat × ScreenBall)} {a : Nat}
    (ha : a ∉ ns.map Prod.fst) : cellsOf heap ns a = none := if_neg ha

/-- The heap holds the list and the rest of the copy, and nothing else. -/
def Viewer.Holds (v : Viewer) (copied : List (Nat × ScreenBall)) : Prop :=
  Represents v.copy true copied ∧ v.manager.toLinked.Shares (cellsOf v.manager.heap copied)

theorem holds_viewerStart : viewerStart.Holds [] :=
  ⟨⟨rfl, List.nodup_nil, rfl⟩, false, [], Represents.empty, List.forall_mem_nil _,
    fun _ _ => rfl⟩

/-- The nodes of the copy are live. -/
theorem Viewer.Holds.cell_ne_none {v : Viewer} {copied : List (Nat × ScreenBall)}
    (h : v.Holds copied) : ∀ a ∈ copied.map Prod.fst, v.manager.heap.cell a ≠ none :=
  fun _ ha => Heap.mem_live.mp (h.1.mem_live ha)

/-- An operation on the list while there is a copy. -/
theorem Viewer.Holds.op {v : Viewer} {copied : List (Nat × ScreenBall)} (h : v.Holds copied)
    {op : BallOp} {m : BallListManager} (hok : clientStep v.manager op = .ok m) :
    Viewer.Holds { v with manager := m } copied := by
  obtain ⟨lost, ns, hr, hbeside⟩ := clientStep_shares h.2 hok
  have hsame : ∀ a ∈ copied.map Prod.fst, m.heap.cell a = v.manager.heap.cell a := by
    intro a ha
    have hcell : cellsOf v.manager.heap copied a = v.manager.heap.cell a := cellsOf_mem ha
    rw [hbeside.frame a (hbeside.not_mem (hcell.trans_ne (h.cell_ne_none a ha))), hcell]
  have hcells : cellsOf v.manager.heap copied = cellsOf m.heap copied := by
    funext a
    unfold cellsOf
    split
    · rename_i ha
      exact (hsame a ha).symm
    · rfl
  rw [hcells] at hbeside
  exact ⟨h.1.congr hsame, lost, ns, hr, hbeside⟩

/-- The copy is made beside the list. -/
theorem Viewer.Holds.render {v : Viewer} (h : v.Holds []) {copy : Linked ScreenBall}
    {lost : Bool} {copied : List (Nat × ScreenBall)} (hr : Represents copy lost copied)
    (hbeside : Beside v.manager.heap.cell copy.heap copied) :
    Viewer.Holds ⟨{ v.manager with heap := copy.heap }, copy.head⟩ copied := by
  obtain ⟨_, lost', ns, hlist, hother⟩ := h
  have hlive : ∀ a ∈ ns.map Prod.fst, a ∉ copied.map Prod.fst := by
    intro a ha
    exact hbeside.not_mem (Heap.mem_live.mp (hlist.mem_live ha))
  refine ⟨⟨hr.chain, hr.nodup, rfl⟩, lost', ns,
    hlist.congr fun a ha => hbeside.frame a (hlive a ha), ?_, ?_⟩
  · intro a ha
    exact cellsOf_not_mem (hlive a ha)
  · intro a ha
    by_cases hcopied : a ∈ copied.map Prod.fst
    · exact (cellsOf_mem hcopied).symm
    · show copy.heap.cell a = cellsOf copy.heap copied a
      rw [hbeside.frame a hcopied, hother.frame a ha, cellsOf_not_mem hcopied]
      rfl

/-- One node of the copy is freed. -/
theorem Viewer.Holds.free (fb : DevFb) {v : Viewer} {n : Nat × ScreenBall}
    {copied : List (Nat × ScreenBall)} (h : v.Holds (n :: copied)) :
    ∃ v', viewerStep fb v .free = .ok v' ∧ v'.Holds copied ∧
      v'.manager.nodes = v.manager.nodes ∧ v'.manager.tail = v.manager.tail ∧
      v'.manager.totalCount = v.manager.totalCount := by
  obtain ⟨a, x⟩ := n
  have hlive := h.cell_ne_none
  obtain ⟨hcopy, lost, ns, hr, hbeside⟩ := h
  obtain ⟨heap, hhead, hcell, hfree, hrest⟩ := hcopy.free_head
  have hhead : v.localCopy = some a := hhead
  have hcell : v.manager.heap.cell a = some ⟨x, copied.head?.map Prod.fst⟩ := hcell
  have hfree : v.manager.heap.free a = .ok heap := hfree
  have hafter := (Heap.free_cell hfree).2
  have hapart : ∀ b ∈ ns.map Prod.fst, b ∉ ((a, x) :: copied).map Prod.fst := by
    intro b hb hmem
    have hnone := hbeside.apart b hb
    rw [cellsOf_mem hmem] at hnone
    exact hlive b hmem hnone
  have hne : ∀ b ∈ ns.map Prod.fst, b ≠ a := by
    rintro b hb rfl
    exact hapart b hb List.mem_cons_self
  have hsame : ∀ b ∈ ns.map Prod.fst, heap.cell b = v.manager.heap.cell b := by
    intro b hb
    rw [hafter, Function.update_of_ne (hne b hb)]
  have hr' := hr.congr hsame
  refine ⟨⟨{ v.manager with heap := heap }, copied.head?.map Prod.fst⟩, ?_,
    ⟨⟨hrest.chain, hrest.nodup, rfl⟩, lost, ns, hr', ?_, ?_⟩, ?_, rfl, rfl⟩
  · simp only [viewerStep, hhead, Heap.read_ok.mpr hcell, hfree, bind, Except.bind]
  · intro b hb
    exact cellsOf_not_mem fun hmem => hapart b hb (List.mem_cons_of_mem _ hmem)
  · intro b hb
    show heap.cell b = cellsOf heap copied b
    by_cases hmem : b ∈ copied.map Prod.fst
    · exact (cellsOf_mem hmem).symm
    · rw [cellsOf_not_mem hmem, hafter]
      by_cases hba : b = a
      · rw [hba, Function.update_self]
      · have hnot : b ∉ ((a, x) :: copied).map Prod.fst := by
          rw [List.map_cons, List.mem_cons, not_or]
          exact ⟨hba, hmem⟩
        rw [Function.update_of_ne hba, hbeside.frame b hb, cellsOf_not_mem hnot]
  · exact hr'.nodes_eq.trans hr.nodes_eq.symm

/-- The step lemma. -/
theorem viewerStep_holds {fb : DevFb} {v v' : Viewer} (h : ∃ copied, v.Holds copied)
    {l : ViewerLabel} (hok : viewerStep fb v l = .ok v') : ∃ copied, v'.Holds copied := by
  obtain ⟨copied, h⟩ := h
  cases l with
  | op op =>
    obtain ⟨m, hm, hok⟩ := bind_ok.mp hok
    cases hok
    exact ⟨copied, h.op hm⟩
  | render alloc =>
    simp only [viewerStep] at hok
    split at hok
    · rename_i hnone
      obtain rfl : copied = [] := h.1.head_eq_none_iff.mp hnone
      obtain ⟨⟨stores, copy⟩, hrender, hok⟩ := bind_ok.mp hok
      cases hok
      have hlist := h.2
      obtain ⟨lost, ns, hr, _⟩ := hlist
      rcases renderLocked_cases fb hr alloc with
        ⟨_, herror⟩ | ⟨_, copy', lost', copied, hcopy, hbeside, _, hdone⟩
      · rw [herror] at hrender
        cases hrender
      · rw [hdone] at hrender
        cases hrender
        exact ⟨copied, h.render hcopy hbeside⟩
    · cases hok
  | free =>
    cases copied with
    | nil =>
      have hnone : v.localCopy = none := h.1.head_eq_none_iff.mpr rfl
      simp only [viewerStep, hnone] at hok
      cases hok
    | cons n copied =>
      obtain ⟨v₁, hv₁, hholds, _⟩ := h.free fb
      rw [hv₁] at hok
      cases hok
      exact ⟨copied, hholds⟩

/-- The run lemma. -/
theorem run_viewerStep_holds {fb : DevFb} {labels : List ViewerLabel} {v : Viewer}
    (hrun : run (viewerStep fb) viewerStart labels = .ok v) : ∃ copied, v.Holds copied :=
  run_invariant (I := fun v : Viewer => ∃ copied, v.Holds copied)
    (fun _ _ _ h hok => viewerStep_holds h hok) ⟨[], holds_viewerStart⟩ hrun

/-- The loop of the render thread frees the rest of the copy. -/
theorem Viewer.Holds.freeAll (fb : DevFb) {v : Viewer} {copied : List (Nat × ScreenBall)}
    (h : v.Holds copied) :
    ∃ v', run (viewerStep fb) v (List.replicate copied.length .free) = .ok v' ∧ v'.Holds [] ∧
      v'.manager.nodes = v.manager.nodes := by
  induction copied generalizing v with
  | nil => exact ⟨v, rfl, h, rfl⟩
  | cons n copied ih =>
    obtain ⟨v₁, hstep, hholds, hnodes, _⟩ := h.free fb
    obtain ⟨v', hrun, hdone, hnodes'⟩ := ih hholds
    exact ⟨v', run_cons_ok.mpr ⟨v₁, hstep, hrun⟩, hdone, hnodes'.trans hnodes⟩

/-- `freeBallList`, which leaves the tail. -/
def freeBallList (l : Linked ScreenBall) : Except Stuck (Linked ScreenBall) := do
  let heap ← Linked.freeNodes l.heap.brk l.heap l.head
  .ok { l with heap := heap, head := none }

/-- Freeing the list when the copy is gone. -/
theorem Viewer.Holds.freeBallList {v : Viewer} (h : v.Holds []) :
    ∃ l, Client.freeBallList v.manager.toLinked = .ok l ∧ ∀ a, l.heap.cell a = none := by
  obtain ⟨_, lost, ns, hr, hbeside⟩ := h
  obtain ⟨heap, hfree, hcell⟩ := hbeside.free hr hr.length_le
  refine ⟨{ v.manager.toLinked with heap := heap, head := none }, ?_, fun a => congrFun hcell a⟩
  simp only [Client.freeBallList, hfree, bind, Except.bind]

/-- **The memory of the client.** In every interleaving of operations on the list with the steps
of the render thread, whichever allocations fail, a node is live exactly while it is in the list
or in the rest of the copy, and these have no node in common. A critical section of the render
thread follows a NULL pointer exactly if an allocation fails behind one that succeeded and in
front of another one, and otherwise it copies the balls it could allocate and leaves the list
alone. Freeing the copy never fails, and afterwards `freeBallList` leaves nothing. -/
theorem client_memory {fb : DevFb} {labels : List ViewerLabel} {v : Viewer}
    (hrun : run (viewerStep fb) viewerStart labels = .ok v) :
    ((v.manager.nodes ++ v.copy.nodes).map Prod.fst).Nodup ∧
      (∀ a, v.manager.heap.cell a ≠ none ↔
        a ∈ (v.manager.nodes ++ v.copy.nodes).map Prod.fst) ∧
      (v.localCopy = none → ∀ alloc,
        (Broken alloc 0 v.manager.nodes.length →
          viewerStep fb v (.render alloc) = .error .nullDereference) ∧
        (¬ Broken alloc 0 v.manager.nodes.length →
          ∃ v', viewerStep fb v (.render alloc) = .ok v' ∧
            v'.manager.nodes = v.manager.nodes ∧
            v'.copy.toList = placed alloc 0 v.manager.toList)) ∧
      ∃ v' l, run (viewerStep fb) v (List.replicate v.copy.nodes.length .free) = .ok v' ∧
        v'.localCopy = none ∧ v'.manager.nodes = v.manager.nodes ∧
        freeBallList v'.manager.toLinked = .ok l ∧ ∀ a, l.heap.cell a = none := by
  obtain ⟨copied, h⟩ := run_viewerStep_holds hrun
  obtain ⟨v', hfrees, hdone, hnodes⟩ := h.freeAll fb
  obtain ⟨l, hl, hnone⟩ := hdone.freeBallList
  have hlive := h.cell_ne_none
  obtain ⟨hcopy, lost, ns, hr, hbeside⟩ := h
  have hcopied : v.copy.nodes = copied := hcopy.nodes_eq
  have hlist : v.manager.nodes = ns := hr.nodes_eq
  have hapart : ∀ a ∈ ns.map Prod.fst, a ∉ copied.map Prod.fst := by
    intro a ha hmem
    have hnone := hbeside.apart a ha
    rw [cellsOf_mem hmem] at hnone
    exact hlive a hmem hnone
  rw [hcopied, hlist, List.map_append]
  refine ⟨List.nodup_append.mpr ⟨hr.nodup, hcopy.nodup, ?_⟩, ?_, ?_, v', l, hfrees,
    hdone.1.head_eq_none_iff.mpr rfl, hnodes.trans hlist, hl, hnone⟩
  · rintro a ha b hb rfl
    exact hapart a ha hb
  · intro a
    rw [List.mem_append]
    constructor
    · intro hcell
      by_contra hnot
      rw [not_or] at hnot
      rw [hbeside.frame a hnot.1, cellsOf_not_mem hnot.2] at hcell
      exact hcell rfl
    · rintro (ha | ha)
      · exact Heap.mem_live.mp (hr.mem_live ha)
      · exact hlive a ha
  · intro hidle alloc
    obtain rfl : copied = [] := hcopy.head_eq_none_iff.mp hidle
    rcases renderLocked_cases fb hr alloc with
      ⟨hbroken, herror⟩ | ⟨hnot, copy, lost', copied, hr', hbeside', hballs, hok⟩
    · refine ⟨fun _ => ?_, fun hnot => absurd hbroken hnot⟩
      simp only [viewerStep, hidle, if_true, herror, bind, Except.bind]
    · refine ⟨fun hbroken => absurd hbroken hnot, fun _ =>
        ⟨⟨{ v.manager with heap := copy.heap }, copy.head⟩, ?_, ?_, ?_⟩⟩
      · simp only [viewerStep, hidle, if_true, hok, bind, Except.bind]
      · have hsame : ∀ a ∈ ns.map Prod.fst, copy.heap.cell a = v.manager.heap.cell a :=
          fun a ha => hbeside'.frame a (hbeside'.not_mem (Heap.mem_live.mp (hr.mem_live ha)))
        exact (hr.congr hsame).nodes_eq
      · have hcopy' : Represents (Viewer.copy ⟨{ v.manager with heap := copy.heap }, copy.head⟩)
            true copied := ⟨hr'.chain, hr'.nodup, rfl⟩
        rw [hcopy'.toList_eq, hballs, hr.toList_eq]

/-- Two balls are copied, one node of the copy is freed, and an update replaces the list. -/
def renderBetween : List ViewerLabel :=
  [.op (.add 2 800 600 20 ⟨fun _ => ⟨0, 0, 0, 0, 0, 0, 0⟩, some⟩), .render fun i => some (i + 7),
    .free, .op (.update "3,1.00,2.00,2,2,20,255,0,0|".toList 800 600 ⟨true, some⟩)]

theorem client_memory_renderBetween :
    ∃ v, run (viewerStep (plainScreen 32 7680)) viewerStart renderBetween = .ok v ∧
      v.manager.nodes.map Prod.fst = [0] ∧ v.copy.nodes.map Prod.fst = [8] ∧
      ∀ a, v.manager.heap.cell a ≠ none ↔ a ∈ [0, 8] := by
  obtain ⟨v, hrun, hlist, hcopy⟩ : ∃ v,
      run (viewerStep (plainScreen 32 7680)) viewerStart renderBetween = .ok v ∧
        v.manager.nodes.map Prod.fst = [0] ∧ v.copy.nodes.map Prod.fst = [8] :=
    ⟨_, rfl, rfl, rfl⟩
  have hlive := (client_memory hrun).2.1
  rw [List.map_append, hlist, hcopy] at hlive
  exact ⟨v, hrun, hlist, hcopy, hlive⟩

/-! ## The screen in a run -/

/-- **The screen of a client.** In every state of a run, on every screen with 16 or with 32 bits for
a pixel whose visible area is inside the mapping, whatever the memory of the device held and
whichever allocations fail: if the balls that it could copy have a place and a color each, and no
disc of them leaves the range of `int`, a critical section that comes to its end stores nothing
outside the mapping and shows the scene of these balls on every visible pixel. The ball that an `OK`
reply leaves in the list has neither place nor color and is not covered. -/
theorem render_shows_scene {fb : DevFb} (h : Geometry fb)
    (hwrap : fb.lineLength.toNat * fb.vinfo.yresVirtual.toNat < 2 ^ 32)
    (hyres : fb.vinfo.yres.toNat ≤ 2 ^ 30) (hin : Inside fb) {labels : List ViewerLabel}
    {v : Viewer} (hrun : run (viewerStep fb) viewerStart labels = .ok v)
    {alloc : Nat → Option Nat} (hbroken : ¬ Broken alloc 0 v.manager.nodes.length)
    {sprites : List Sprite}
    (hballs : (placed alloc 0 v.manager.toList).map ScreenBall.sprite = sprites.map some)
    (hfits : ∀ s ∈ sprites, s.Fits) (mem : Nat → BitVec 8) :
    ∃ stores copy, renderLocked fb v.manager alloc = .ok (some stores, copy) ∧
      (∀ s ∈ stores, s.Inside fb) ∧
      ∀ p, Visible fb p → picture fb (execute mem stores) p = scene fb sprites p := by
  obtain ⟨copied, _, lost, ns, hr, _⟩ := run_viewerStep_holds hrun
  rw [hr.toList_eq] at hballs
  rw [hr.nodes_eq] at hbroken
  exact renderLocked_shows h hwrap hyres hin hr hbroken hballs hfits mem

/-- A red ball and a green one that overlaps it. -/
def twoColors : List ViewerLabel :=
  [.op (.add 1 1920 1080 20 ⟨fun _ => ⟨380, 280, 0, 0, 255, 0, 0⟩, some⟩),
    .op (.add 1 1920 1080 20 ⟨fun _ => ⟨390, 280, 0, 0, 0, 255, 0⟩, some⟩)]

theorem not_broken_some (i n : Nat) : ¬ Broken some i n := by
  rintro ⟨j, k, _, _, _, _, hnone⟩
  cases hnone

/-- Where they overlap the screen is green. -/
theorem render_shows_scene_two_colors :
    ∃ v stores copy, run (viewerStep (plainScreen 32 7680)) viewerStart twoColors = .ok v ∧
      renderLocked (plainScreen 32 7680) v.manager some = .ok (some stores, copy) ∧
      picture (plainScreen 32 7680) (execute (fun _ => 7) stores) ⟨405, 300⟩ = [0, 255, 0, 0] := by
  let red : Sprite := ⟨⟨400, 300⟩, 255, 0, 0⟩
  let green : Sprite := ⟨⟨410, 300⟩, 0, 255, 0⟩
  obtain ⟨v, hrun, hlist⟩ : ∃ v,
      run (viewerStep (plainScreen 32 7680)) viewerStart twoColors = .ok v ∧
        v.manager.toList.map ScreenBall.sprite = [red, green].map some := ⟨_, rfl, rfl⟩
  have hballs : (placed some 0 v.manager.toList).map ScreenBall.sprite =
      [red, green].map some := by
    rw [placed_all fun i => Option.some_ne_none i, hlist]
  have hfits : ∀ s ∈ [red, green], s.Fits := by
    rw [List.forall_mem_cons, List.forall_mem_singleton]
    unfold Sprite.Fits
    decide
  obtain ⟨stores, copy, hok, _, hscene⟩ := render_shows_scene plainScreen_geometry (by decide)
    (by decide) plainScreen_inside hrun (not_broken_some _ _) hballs hfits fun _ => 7
  refine ⟨v, stores, copy, hrun, hok, ?_⟩
  have htop : guideTop (plainScreen 32 7680) = 1063 := by decide
  have hguide : (⟨405, 300⟩ : Pixel) ∉ guidePixels (plainScreen 32 7680) := by
    intro hmem
    have hlow := ((guideText_eq plainScreen_geometry (by decide)).2 _ hmem).2
    rw [htop] at hlow
    exact absurd hlow (by decide)
  have hgreen : (⟨405, 300⟩ : Pixel) ∈ green.pixels := by
    have hin : (⟨410, 300⟩ : Pixel).shift (-5) 0 ∈ drawFilledCircle Shared.radius ⟨410, 300⟩ :=
      shift_mem_of_inner (by decide) _ (by decide)
    exact hin
  rw [hscene _ (by decide), scene, if_neg hguide, htop, if_neg (by decide)]
  simp only [List.reverse_cons, List.reverse_nil, List.nil_append, List.cons_append,
    List.find?_cons, decide_eq_true hgreen]
  rfl

end BallGame.Client
