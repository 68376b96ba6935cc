import BallGame.Server.BallStore

/-!
# The newest balls of an owner

`delete_ball` collects the last `count` balls of an owner with their predecessors, before
anything is removed, and unlinks them from the last one on. The predecessor of a candidate is
older than the candidate, so it is still in the list, and still linked to it, when its turn
comes.

* `stillLinked_of_prefix`: no candidate is skipped;
* `delete_ball_removes_newest`: what is left, and that `delete_ball_by_socket` leaves the same
  if `count` covers all balls of the owner.
-/

namespace BallGame.Server

open Library

/-- The nodes of an owner that were added last, at most `count` of them. -/
def BallListManager.newest (m : BallListManager) (count ownerId : Int) :
    List (Nat × LogicalBall) :=
  (m.nodes.filter (nodeOwnedBy ownerId)).rtake count.toNat

/-- The list without these nodes. -/
def BallListManager.withoutNewest (m : BallListManager) (count ownerId : Int) :
    List (Nat × LogicalBall) :=
  m.nodes.filter fun n => n.1 ∉ (m.newest count ownerId).map Prod.fst

/-! ## The check of the deletion loop -/

/-- The predecessor of the candidate points to it, or it has none. -/
def StillLinked (m : BallListManager) (c : Candidate) : Prop :=
  ∀ p, c.2 = some p → ∃ prev, m.heap.read p = .ok prev ∧ prev.next = some c.1

/-- Every candidate of the search loop is still linked when its turn comes. -/
def NoneSkipped (m : BallListManager) (count ownerId : Int) : Prop :=
  ∃ s, Linked.foldNodes (collectCandidate count ownerId) m.heap m.heap.brk m.head (none, []) =
      .ok s ∧
    ∀ before c after, s.2.reverse = before ++ c :: after →
      ∃ m₁, before.foldlM unlinkCandidate m = .ok m₁ ∧ StillLinked m₁ c

/-- The last node of the front part is linked to the node behind it. -/
theorem stillLinked_of_represents {m : BallListManager} {lost : Bool}
    {pre post : List (Nat × LogicalBall)} {n : Nat × LogicalBall}
    (hr : Represents m.toLinked lost (pre ++ n :: post)) :
    StillLinked m (n.1, pre.getLast?.map Prod.fst) := by
  intro p hp
  rcases List.eq_nil_or_concat pre with rfl | ⟨pre, ⟨b, y⟩, rfl⟩
  · cases hp
  · rw [List.concat_eq_append, List.append_assoc, List.singleton_append] at hr
    simp only [List.concat_eq_append, List.getLast?_concat, Option.map_some,
      Option.some.injEq] at hp
    subst hp
    obtain ⟨next, hcell, hrest, _⟩ := hr.target_cell
    exact ⟨_, Heap.read_ok.mpr hcell, hrest.head_eq⟩

/-- The nodes removed so far lie behind the candidate whose turn it is. -/
theorem stillLinked_of_prefix (ownerId : Int) (pre : List (Nat × LogicalBall)) (n : Nat)
    {m : BallListManager} {lost : Bool} {post : List (Nat × LogicalBall)}
    (hr : Represents m.toLinked lost (pre ++ post)) {before after : List Candidate}
    {c : Candidate}
    (hsplit : (candidatesFrom ownerId none pre).reverse.take n = before ++ c :: after) :
    ∃ m₁, before.foldlM unlinkCandidate m = .ok m₁ ∧ StillLinked m₁ c := by
  induction pre using List.reverseRecOn generalizing n m post before with
  | nil => simp [candidatesFrom] at hsplit
  | append_singleton pre k ih =>
    have hr' : Represents m.toLinked lost (pre ++ k :: post) := by simpa using hr
    rw [candidatesFrom_concat] at hsplit
    by_cases hk : k.2.ownerId = ownerId
    · rw [if_pos hk, Option.or_none, List.reverse_append, List.reverse_singleton,
        List.singleton_append] at hsplit
      cases n with
      | zero => simp at hsplit
      | succ n =>
        rw [List.take_succ_cons] at hsplit
        cases before with
        | nil =>
          obtain ⟨rfl, _⟩ := List.cons.inj hsplit
          exact ⟨m, rfl, stillLinked_of_represents hr'⟩
        | cons d before =>
          obtain ⟨rfl, hrest⟩ := List.cons.inj hsplit
          obtain ⟨m₁, hm₁, hr₁, _⟩ := unlinkCandidate_ok hr'
          obtain ⟨m₂, hm₂, hlinked⟩ := ih n hr₁ hrest
          refine ⟨m₂, ?_, hlinked⟩
          rw [List.foldlM_cons, hm₁]
          exact hm₂
    · rw [if_neg hk, List.append_nil] at hsplit
      exact ih n hr' hsplit

theorem noneSkipped {m : BallListManager} {lost : Bool} {ns : List (Nat × LogicalBall)}
    (hr : Represents m.toLinked lost ns) {count : Int} (hcount : ¬ count ≤ 0) (ownerId : Int) :
    NoneSkipped m count ownerId := by
  obtain ⟨s, hs, hwindow⟩ := collectCandidate_ok hr hcount ownerId
  have hr' : Represents m.toLinked lost (ns ++ []) := by simpa using hr
  refine ⟨s, hs, ?_⟩
  intro before c after hsplit
  rw [hwindow] at hsplit
  exact stillLinked_of_prefix ownerId ns count.toNat hr' hsplit

/-! ## What is left -/

theorem candidatesFrom_eq_nil {ownerId : Int} {ns : List (Nat × LogicalBall)}
    (h : ns.countP (nodeOwnedBy ownerId) = 0) (prev : Option Nat) :
    candidatesFrom ownerId prev ns = [] := by
  induction ns generalizing prev with
  | nil => rfl
  | cons n ns ih =>
    rw [List.countP_eq_zero] at h
    have hn : ¬ n.2.ownerId = ownerId := by
      intro ho
      exact h n (List.mem_cons_self ..) (decide_eq_true ho)
    rw [candidatesFrom, if_neg hn]
    exact ih (List.countP_eq_zero.mpr fun k hk => h k (List.mem_cons_of_mem n hk)) _

/-- Nothing happens for an owner without balls. -/
theorem deleteBall_none {m : BallListManager} {lost : Bool} {ns : List (Nat × LogicalBall)}
    (hr : Represents m.toLinked lost ns) {count ownerId : Int} (hcount : ¬ count ≤ 0)
    (h : ns.countP (nodeOwnedBy ownerId) = 0) : deleteBall m count ownerId = .ok m := by
  obtain ⟨s, hs, hwindow⟩ := collectCandidate_ok hr hcount ownerId
  rw [candidatesFrom_eq_nil h, List.reverse_nil, List.take_nil] at hwindow
  rw [deleteBall, if_neg hcount, hs]
  simp only [bind, Except.bind, hwindow]
  rfl

/-- Head, tail, nodes and counter of both lists are the same; the addresses that are free may
differ. -/
structure SameList (m m' : BallListManager) : Prop where
  head : m.head = m'.head
  tail : m.tail = m'.tail
  nodes : m.nodes = m'.nodes
  totalCount : m.totalCount = m'.totalCount

theorem sameList_of_represents {m m' : BallListManager} {lost : Bool}
    {ns : List (Nat × LogicalBall)} (h : Represents m.toLinked lost ns)
    (h' : Represents m'.toLinked lost ns) (htotal : m.totalCount = m'.totalCount) :
    SameList m m' :=
  ⟨h.chain.head_eq.trans h'.chain.head_eq.symm, h.tail.trans h'.tail.symm,
    h.nodes_eq.trans h'.nodes_eq.symm, htotal⟩

theorem countBallByOwner_nodes {m : BallListManager} {lost : Bool}
    {ns : List (Nat × LogicalBall)} (hr : Represents m.toLinked lost ns) (ownerId : Int) :
    countBallByOwner m ownerId = .ok (ns.countP (nodeOwnedBy ownerId)) := by
  rw [countBallByOwner, hr.foldNodes_eq, foldlM_count, Int.zero_add]

/-- **Deleting the newest balls of an owner.** On a well-formed list with `k` balls of the
owner, `delete_ball` removes the last `min count k` of them and nothing else; what is left is in
its order and well-formed, the counter and the tail follow, without a ball of the owner nothing
changes, and no candidate is skipped. If `count` is at least `k`, `delete_ball_by_socket` leaves
the same list. -/
theorem delete_ball_removes_newest (m : BallListManager) (hm : m.WellFormed)
    (count ownerId : Int) (hcount : 1 ≤ count) :
    ∃ (m' : BallListManager) (k : Nat), deleteBall m count ownerId = .ok m' ∧
      countBallByOwner m ownerId = .ok k ∧ m'.WellFormed ∧
      m'.nodes = m.withoutNewest count ownerId ∧
      ((m.newest count ownerId).length : Int) = min count k ∧
      m'.totalCount = m.totalCount - min count k ∧
      m'.tail = m'.nodes.getLast?.map Prod.fst ∧
      (k = 0 → m' = m) ∧
      NoneSkipped m count ownerId ∧
      (k ≤ count → ∃ m'', deleteBallBySocket m ownerId = .ok m'' ∧ SameList m' m'') := by
  obtain ⟨hr, htotal⟩ := (wellFormed_iff_intact.mp hm).represents
  have hpos : ¬ count ≤ 0 := by omega
  obtain ⟨m', hm', hr', htotal'⟩ := deleteBall_ok hr hpos ownerId
  have hlength := length_eraseLast (nodeOwnedBy ownerId) count.toNat m.nodes
  refine ⟨m', m.nodes.countP (nodeOwnedBy ownerId), hm', countBallByOwner_nodes hr ownerId, ?_,
    ?_, ?_, ?_, ?_, ?_, noneSkipped hr hpos ownerId, ?_⟩
  · apply wellFormed_of_represents hr'
    omega
  · rw [hr'.nodes_eq, eraseLast_eq_filter Prod.fst _ _ hr.nodup]
    rfl
  · rw [BallListManager.newest, List.rtake, List.length_drop, List.countP_eq_length_filter]
    omega
  · rw [htotal']
    omega
  · rw [hr'.nodes_eq]
    exact hr'.tail
  · intro hzero
    rw [deleteBall_none hr hpos hzero] at hm'
    cases hm'
    rfl
  · intro hk
    obtain ⟨m'', hm'', hr'', htotal''⟩ := deleteBallBySocket_ok hr ownerId
    rw [eraseLast_of_countP_le (by omega)] at hr' htotal'
    exact ⟨m'', hm'', sameList_of_represents hr' hr'' (htotal'.trans htotal''.symm)⟩

/-- Client 7 has the balls at both ends. -/
def interleaved : List BallOp :=
  [.add 1 20 7 zeroDraws, .add 1 20 8 zeroDraws, .add 1 20 7 zeroDraws]

theorem interleaved_run : ∃ m, run ballStep ballManagerInit interleaved = .ok m ∧
    m.WellFormed ∧ m.nodes.map (fun n => (n.1, n.2.ownerId)) = [(0, 7), (1, 8), (2, 7)] := by
  refine ⟨_, rfl, ?_, rfl⟩
  exact @wellFormed_of_represents _ [(0, _), (1, _), (2, _)]
    ⟨⟨rfl, _, rfl, rfl, _, rfl, rfl, _, rfl, rfl⟩, by decide, rfl⟩ rfl

/-- A deletion of one ball takes the tail. -/
theorem delete_ball_removes_newest_interleaved :
    ∃ m m', run ballStep ballManagerInit interleaved = .ok m ∧ deleteBall m 1 7 = .ok m' ∧
      m'.WellFormed ∧ m'.nodes = m.withoutNewest 1 7 := by
  obtain ⟨m, hm, hwell, _⟩ := interleaved_run
  obtain ⟨m', k, hm', _, hwell', hnodes, _⟩ := delete_ball_removes_newest m hwell 1 7 (by decide)
  exact ⟨m, m', hm, hm', hwell', hnodes⟩

end BallGame.Server
