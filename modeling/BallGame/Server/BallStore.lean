import BallGame.Library.CountedList
import BallGame.Server.LocalBallManager

/-!
# What the ball store holds

The abstract store is the list of the balls in the order of the linked list, with the counter.
`BallListManager.Holds` relates it to the heap, and `ballStep_refines` shows that the
operations on the heap compute the operations on the list: the sliding window of candidates
removes the newest balls of an owner, the walk with a trailing pointer removes all of them,
and neither touches a node that was freed, but for what is printed.

* `ballStep_refines`: every operation on the heap agrees with the one on the list;
* `ball_store_well_formed`: the linked list is well formed after every run.
-/

namespace BallGame.Server

open Library

/-! ## The abstract store -/

/-- The balls in order. `lost` says that the last allocation failed, which leaves the tail
pointer NULL. -/
structure BallStore where
  balls : List LogicalBall
  totalCount : Int
  lost : Bool
  deriving DecidableEq

namespace BallStore

def empty : BallStore := ⟨[], 0, false⟩

/-- Append a ball, unless its allocation fails. -/
def push (s : BallStore) (b : LogicalBall) (total : Int) (alloc : Option Nat) :
    Except Stuck BallStore :=
  if s.lost = true ∧ s.balls ≠ [] then .error .nullDereference
  else .ok ⟨s.balls ++ (if alloc.isSome then [b] else []), total, alloc.isNone⟩

def add (radius ownerId : Int) (draws : Nat → RandomDraws) (alloc : Nat → Option Nat) :
    Nat → Nat → BallStore → Except Stuck BallStore
  | 0, _, s => .ok s
  | remaining + 1, i, s => do
    let total ← checkedInt (s.totalCount + 1)
    let b ← createLogicalBall s.totalCount radius ownerId (draws i)
    let s ← s.push b total (alloc i)
    add radius ownerId draws alloc remaining (i + 1) s

/-- Keep only the balls `bs`. -/
def keep (s : BallStore) (bs : List LogicalBall) : BallStore :=
  { s with balls := bs, totalCount := s.totalCount - (s.balls.length - bs.length) }

def map (s : BallStore) (f : LogicalBall → LogicalBall) : BallStore :=
  { s with balls := s.balls.map f }

end BallStore

def LogicalBall.ownedBy (ownerId : Int) (b : LogicalBall) : Bool := decide (b.ownerId = ownerId)

@[simp] theorem LogicalBall.ownedBy_iff {ownerId : Int} {b : LogicalBall} :
    b.ownedBy ownerId = true ↔ b.ownerId = ownerId := decide_eq_true_iff

/-! ## The operations -/

inductive BallOp where
  | add (count radius ownerId : Int) (env : CommandEnv)
  | delete (count ownerId : Int)
  | deleteBySocket (socketFd : Int)
  | move
  | speedUp (ownerId : Int)
  | speedDown (ownerId : Int)

/-- One operation on the heap. -/
def ballStep (m : BallListManager) : BallOp → Except Stuck BallListManager
  | .add count radius ownerId env => addBall m count radius ownerId env.draws env.alloc
  | .delete count ownerId => deleteBall m count ownerId
  | .deleteBySocket socketFd => deleteBallBySocket m socketFd
  | .move => moveAllBall m
  | .speedUp ownerId => speedUpBalls m ownerId
  | .speedDown ownerId => speedDownBalls m ownerId

def LogicalBall.changeOwned (ownerId : Int) (f : LogicalBall → LogicalBall) (b : LogicalBall) :
    LogicalBall :=
  if b.ownerId = ownerId then f b else b

/-- The same operation on the list. -/
def storeStep (s : BallStore) : BallOp → Except Stuck BallStore
  | .add count radius ownerId env => s.add radius ownerId env.draws env.alloc count.toNat 0
  | .delete count ownerId =>
    if count ≤ 0 then .error .outOfBounds
    else .ok (s.keep (eraseLast (LogicalBall.ownedBy ownerId) count.toNat s.balls))
  | .deleteBySocket socketFd =>
    .ok (s.keep (s.balls.filter fun b => !b.ownedBy socketFd))
  | .move => .ok (s.map moveLogicalBall)
  | .speedUp ownerId => .ok (s.map (LogicalBall.changeOwned ownerId speedUpBall))
  | .speedDown ownerId => .ok (s.map (LogicalBall.changeOwned ownerId speedDownBall))

/-! ## The heap holds the list -/

/-- The linked list holds the balls of `s`. -/
structure BallListManager.Holds (m : BallListManager) (s : BallStore) : Prop where
  nodes : ∃ ns, Represents m.toLinked s.lost ns ∧ ns.map Prod.snd = s.balls
  totalCount : m.totalCount = s.totalCount

theorem BallListManager.Holds.nodes_eq {m : BallListManager} {s : BallStore} (h : m.Holds s) :
    Represents m.toLinked s.lost m.nodes ∧ m.nodes.map Prod.snd = s.balls := by
  obtain ⟨⟨ns, hr, hns⟩, _⟩ := h
  rw [hr.nodes_eq]
  exact ⟨hr, hns⟩

theorem holds_init : ballManagerInit.Holds BallStore.empty := ⟨⟨[], Represents.empty, rfl⟩, rfl⟩

/-! ## Adding -/

theorem appendBall_agree {l : Linked LogicalBall} {s : BallStore} {ns : List (Nat × LogicalBall)}
    (hr : Represents l s.lost ns) (hns : ns.map Prod.snd = s.balls) (b : LogicalBall)
    (total : Int) (alloc : Option Nat) :
    Agree (fun l' s' => BallListManager.Holds { toLinked := l', totalCount := total } s')
      (appendBall l b alloc) (s.push b total alloc) := by
  have hnil : ns = [] ↔ s.balls = [] := by rw [← hns, List.map_eq_nil_iff]
  unfold appendBall BallStore.push
  split
  · rename_i hlost
    have hr' : Represents l true ns := hlost.1 ▸ hr
    rw [hr'.append_lost (mt hnil.mp hlost.2)]
    exact Agree.error _
  · rename_i hkept
    have hl : s.lost = false ∨ ns = [] := by
      rw [hnil]
      cases hs : s.lost with
      | false => exact Or.inl rfl
      | true => exact Or.inr (Classical.not_not.mp fun hne => hkept ⟨hs, hne⟩)
    cases alloc with
    | none =>
      obtain ⟨l', hok, hr'⟩ := hr.append_failed hl b
      rw [hok]
      exact Agree.ok ⟨⟨ns, hr', by simp [hns]⟩, rfl⟩
    | some choice =>
      obtain ⟨l', hok, hr'⟩ := hr.append_ok hl b choice
      rw [hok]
      exact Agree.ok ⟨⟨_, hr', by simp [hns]⟩, rfl⟩

theorem addBallLoop_agree (radius ownerId : Int) (draws : Nat → RandomDraws)
    (alloc : Nat → Option Nat) (remaining i : Nat) {m : BallListManager} {s : BallStore}
    (h : m.Holds s) :
    Agree BallListManager.Holds (addBallLoop radius ownerId draws alloc remaining i m)
      (s.add radius ownerId draws alloc remaining i) := by
  induction remaining generalizing i m s with
  | zero => exact Agree.ok h
  | succ remaining ih =>
    obtain ⟨⟨ns, hr, hns⟩, htotal⟩ := h
    rw [addBallLoop, BallStore.add, htotal]
    cases checkedInt (s.totalCount + 1) with
    | error e => exact Agree.error e
    | ok total =>
      cases createLogicalBall s.totalCount radius ownerId (draws i) with
      | error e => exact Agree.error e
      | ok b => exact (appendBall_agree hr hns b total (alloc i)).bind fun _ _ h' => ih (i + 1) h'

/-! ## Deleting the newest balls of an owner -/

/-- The nodes of `ownerId`, each with its predecessor; `prev` precedes the list. -/
def candidatesFrom (ownerId : Int) : Option Nat → List (Nat × LogicalBall) → List Candidate
  | _, [] => []
  | prev, n :: ns =>
    if n.2.ownerId = ownerId then (n.1, prev) :: candidatesFrom ownerId (some n.1) ns
    else candidatesFrom ownerId (some n.1) ns

def nodeOwnedBy (ownerId : Int) (n : Nat × LogicalBall) : Bool := n.2.ownedBy ownerId

/-- The search loop pushes the candidates through its window. -/
theorem foldlM_collectCandidate (count ownerId : Int) (ns : List (Nat × LogicalBall))
    (prev : Option Nat) (w : List Candidate) :
    ∃ last, ns.foldlM (collectCandidate count ownerId) (prev, w) =
      .ok (last, (candidatesFrom ownerId prev ns).foldl (pushWindow count.toNat) w) := by
  induction ns generalizing prev w with
  | nil => exact ⟨prev, rfl⟩
  | cons n ns ih =>
    rw [List.foldlM_cons, candidatesFrom]
    by_cases hn : n.2.ownerId = ownerId
    · simp only [collectCandidate, hn, if_true, bind, Except.bind, List.foldl_cons]
      exact ih _ _
    · simp only [collectCandidate, hn, if_false, bind, Except.bind]
      exact ih _ _

theorem candidatesFrom_concat (ownerId : Int) (ns : List (Nat × LogicalBall))
    (n : Nat × LogicalBall) (prev : Option Nat) :
    candidatesFrom ownerId prev (ns ++ [n]) = candidatesFrom ownerId prev ns ++
      if n.2.ownerId = ownerId then [(n.1, (ns.getLast?.map Prod.fst).or prev)] else [] := by
  induction ns generalizing prev with
  | nil => simp [candidatesFrom]
  | cons k ns ih =>
    have hlast : ((k :: ns).getLast?.map Prod.fst).or prev =
        (ns.getLast?.map Prod.fst).or (some k.1) := by
      cases ns with
      | nil => rfl
      | cons _ _ => simp [List.getLast?_cons]
    rw [List.cons_append, candidatesFrom, ih, candidatesFrom, hlast]
    split <;> rfl

/-- Unlinking and freeing the node behind `pre`. -/
theorem unlinkCandidate_ok {m : BallListManager} {lost : Bool}
    {pre post : List (Nat × LogicalBall)} {n : Nat × LogicalBall}
    (hr : Represents m.toLinked lost (pre ++ n :: post)) :
    ∃ m', unlinkCandidate m (n.1, pre.getLast?.map Prod.fst) = .ok m' ∧
      Represents m'.toLinked lost (pre ++ post) ∧ m'.totalCount = m.totalCount - 1 := by
  obtain ⟨a, x⟩ := n
  rcases List.eq_nil_or_concat pre with rfl | ⟨pre, ⟨b, y⟩, rfl⟩
  · obtain ⟨heap, hhead, ha, hfree, hrep⟩ := hr.free_head
    refine ⟨⟨⟨heap, _, _⟩, m.totalCount - 1⟩, ?_, hrep, rfl⟩
    simp only [unlinkCandidate, List.getLast?_nil, Option.map_none, bind, Except.bind,
      if_true, Heap.read_ok.mpr ha, hhead, hfree]
  · rw [List.concat_eq_append, List.append_assoc, List.singleton_append] at hr
    obtain ⟨heap₁, heap, hhead, hb, ha, hw, _, hfree, hrep⟩ := hr.free_next
    refine ⟨⟨⟨heap, _, _⟩, m.totalCount - 1⟩, ?_, by simpa using hrep, rfl⟩
    simp only [unlinkCandidate, List.concat_eq_append, List.getLast?_concat, Option.map_some,
      bind, Except.bind, Heap.read_ok.mpr hb, decide_true, if_true, Heap.read_ok.mpr ha,
      if_neg hhead, hw, hfree]

/-- Unlinking the last `n` candidates of the front part, from the last one on. -/
theorem foldlM_unlinkCandidate (ownerId : Int) (pre : List (Nat × LogicalBall)) (n : Nat)
    {m : BallListManager} {lost : Bool} {post : List (Nat × LogicalBall)}
    (hr : Represents m.toLinked lost (pre ++ post)) :
    ∃ m', ((candidatesFrom ownerId none pre).reverse.take n).foldlM unlinkCandidate m = .ok m' ∧
      Represents m'.toLinked lost (eraseLast (nodeOwnedBy ownerId) n pre ++ post) ∧
      m'.totalCount = m.totalCount -
        (pre.length - (eraseLast (nodeOwnedBy ownerId) n pre).length : Int) := by
  induction pre using List.reverseRecOn generalizing n m post with
  | nil => exact ⟨m, by simp [candidatesFrom, pure, Except.pure], by simpa using hr, by simp⟩
  | append_singleton pre k ih =>
    rw [candidatesFrom_concat]
    by_cases hk : k.2.ownerId = ownerId
    · have hown : nodeOwnedBy ownerId k = true := decide_eq_true hk
      cases n with
      | zero => exact ⟨m, by simp [pure, Except.pure], by simpa using hr, by simp⟩
      | succ n =>
        have hr₁ : Represents m.toLinked lost (pre ++ k :: post) := by simpa using hr
        obtain ⟨m₁, hm₁, hr', htotal₁⟩ := unlinkCandidate_ok hr₁
        obtain ⟨m', hm', hrep, htotal⟩ := ih n hr'
        refine ⟨m', ?_, ?_, ?_⟩
        · rw [if_pos hk, Option.or_none, List.reverse_append, List.reverse_singleton,
            List.singleton_append, List.take_succ_cons, List.foldlM_cons, hm₁]
          exact hm'
        · rw [eraseLast_concat_of_pos hown]
          exact hrep
        · rw [eraseLast_concat_of_pos hown, htotal, htotal₁, List.length_append,
            List.length_singleton]
          omega
    · have hown : nodeOwnedBy ownerId k = false := decide_eq_false hk
      have hr' : Represents m.toLinked lost (pre ++ k :: post) := by simpa using hr
      obtain ⟨m', hm', hrep, htotal⟩ := ih n hr'
      refine ⟨m', ?_, ?_, ?_⟩
      · rw [if_neg hk, List.append_nil]
        exact hm'
      · rw [eraseLast_concat_of_neg hown, List.append_assoc]
        exact hrep
      · rw [eraseLast_concat_of_neg hown, htotal, List.length_append, List.length_append,
          List.length_singleton]
        omega

/-- The window of the search loop, read backwards. -/
theorem collectCandidate_ok {l : Linked LogicalBall} {lost : Bool}
    {ns : List (Nat × LogicalBall)} (hr : Represents l lost ns) {count : Int}
    (hcount : ¬ count ≤ 0) (ownerId : Int) :
    ∃ s, Linked.foldNodes (collectCandidate count ownerId) l.heap l.heap.brk l.head (none, []) =
        .ok s ∧
      s.2.reverse = (candidatesFrom ownerId none ns).reverse.take count.toNat := by
  have hpos : 0 < count.toNat := by omega
  obtain ⟨last, hcollect⟩ := foldlM_collectCandidate count ownerId ns none []
  refine ⟨_, (hr.foldNodes_eq _ _).trans hcollect, ?_⟩
  exact reverse_foldl_pushWindow hpos _

theorem deleteBall_ok {m : BallListManager} {lost : Bool} {ns : List (Nat × LogicalBall)}
    (hr : Represents m.toLinked lost ns) {count : Int} (hcount : ¬ count ≤ 0) (ownerId : Int) :
    ∃ m', deleteBall m count ownerId = .ok m' ∧
      Represents m'.toLinked lost (eraseLast (nodeOwnedBy ownerId) count.toNat ns) ∧
      m'.totalCount = m.totalCount -
        (ns.length - (eraseLast (nodeOwnedBy ownerId) count.toNat ns).length : Int) := by
  obtain ⟨s, hs, hwindow⟩ := collectCandidate_ok hr hcount ownerId
  have hr' : Represents m.toLinked lost (ns ++ []) := by simpa using hr
  obtain ⟨m', hm', hrep, htotal⟩ := foldlM_unlinkCandidate ownerId ns count.toNat hr'
  rw [List.append_nil] at hrep
  refine ⟨m', ?_, hrep, htotal⟩
  rw [deleteBall, if_neg hcount, hs]
  simp only [bind, Except.bind, hwindow, hm']

theorem deleteBall_agree {m : BallListManager} {s : BallStore} (h : m.Holds s)
    (count ownerId : Int) :
    Agree BallListManager.Holds (deleteBall m count ownerId)
      (storeStep s (.delete count ownerId)) := by
  obtain ⟨⟨ns, hr, hns⟩, htotal⟩ := h
  rw [storeStep]
  split
  · rename_i hcount
    rw [deleteBall, if_pos hcount]
    exact Agree.error _
  · rename_i hcount
    obtain ⟨m', hm', hrep, htotal'⟩ := deleteBall_ok hr hcount ownerId
    have hballs : (eraseLast (nodeOwnedBy ownerId) count.toNat ns).map Prod.snd =
        eraseLast (LogicalBall.ownedBy ownerId) count.toNat s.balls := by
      rw [← hns]
      exact map_eraseLast Prod.snd (fun _ => rfl) _ _
    rw [hm']
    refine Agree.ok ⟨⟨_, hrep, hballs⟩, ?_⟩
    simp only [BallStore.keep]
    rw [htotal', htotal, ← hballs, ← hns, List.length_map, List.length_map]

/-! ## Deleting all balls of an owner -/

/-- The walk has passed the nodes `kept` and has `rest` before it. -/
theorem deleteBallBySocketLoop_ok (socketFd : Int) (rest : List (Nat × LogicalBall)) (fuel : Nat)
    {m : BallListManager} {lost : Bool} {kept : List (Nat × LogicalBall)}
    (hr : Represents m.toLinked lost (kept ++ rest)) (hfuel : rest.length ≤ fuel) :
    ∃ m', deleteBallBySocketLoop socketFd fuel m (kept.getLast?.map Prod.fst)
        (rest.head?.map Prod.fst) = .ok m' ∧
      Represents m'.toLinked lost (kept ++ rest.filter fun k => !nodeOwnedBy socketFd k) ∧
      m'.totalCount = m.totalCount -
        (rest.length - (rest.filter fun k => !nodeOwnedBy socketFd k).length : Int) := by
  induction rest generalizing fuel m kept with
  | nil => exact ⟨m, by cases fuel <;> rfl, by simpa using hr, by simp⟩
  | cons n rest ih =>
    obtain ⟨a, x⟩ := n
    cases fuel with
    | zero => simp at hfuel
    | succ fuel =>
      have hfuel' : rest.length ≤ fuel := by simpa using hfuel
      by_cases hx : x.ownerId = socketFd
      · have hfilter : ((a, x) :: rest).filter (fun k => !nodeOwnedBy socketFd k) =
            rest.filter fun k => !nodeOwnedBy socketFd k := by
          simp [nodeOwnedBy, LogicalBall.ownedBy, hx]
        -- the trailing pointer stays where it is
        suffices hone : ∃ m₁ : BallListManager,
            deleteBallBySocketLoop socketFd (fuel + 1) m (kept.getLast?.map Prod.fst) (some a) =
              deleteBallBySocketLoop socketFd fuel m₁ (kept.getLast?.map Prod.fst)
                (rest.head?.map Prod.fst) ∧
            Represents m₁.toLinked lost (kept ++ rest) ∧ m₁.totalCount = m.totalCount - 1 by
          obtain ⟨m₁, hm₁, hr₁, htotal₁⟩ := hone
          obtain ⟨m', hm', hrep, htotal⟩ := ih fuel hr₁ hfuel'
          refine ⟨m', hm₁.trans hm', by rw [hfilter]; exact hrep, ?_⟩
          rw [hfilter, htotal, htotal₁, List.length_cons]
          omega
        rcases List.eq_nil_or_concat kept with rfl | ⟨kept, ⟨b, y⟩, rfl⟩
        · obtain ⟨heap, _, ha, hfree, hrep⟩ := hr.free_head
          refine ⟨⟨⟨heap, _, _⟩, m.totalCount - 1⟩, ?_, hrep, rfl⟩
          simp only [deleteBallBySocketLoop, Heap.read_ok.mpr ha, bind, Except.bind, hx,
            if_true, List.getLast?_nil, Option.map_none, hfree]
        · rw [List.concat_eq_append, List.append_assoc, List.singleton_append] at hr
          obtain ⟨heap₁, heap, _, hb, ha, hw, _, hfree, hrep⟩ := hr.free_next
          refine ⟨⟨⟨heap, _, _⟩, m.totalCount - 1⟩, ?_, by simpa using hrep, rfl⟩
          simp only [deleteBallBySocketLoop, Heap.read_ok.mpr ha, bind, Except.bind, hx,
            if_true, List.concat_eq_append, List.getLast?_concat, Option.map_some,
            Heap.read_ok.mpr hb, hw, hfree]
      · obtain ⟨next, ha, hrest, _⟩ := hr.target_cell
        obtain rfl := hrest.head_eq
        have hkeep : ((a, x) :: rest).filter (fun k => !nodeOwnedBy socketFd k) =
            (a, x) :: rest.filter fun k => !nodeOwnedBy socketFd k := by
          simp [nodeOwnedBy, LogicalBall.ownedBy, hx]
        have hr₁ : Represents m.toLinked lost ((kept ++ [(a, x)]) ++ rest) := by simpa using hr
        obtain ⟨m', hm', hrep, htotal⟩ := ih fuel hr₁ hfuel'
        refine ⟨m', ?_, by rw [hkeep]; simpa using hrep, ?_⟩
        · simp only [List.getLast?_concat, Option.map_some] at hm'
          simp only [List.head?_cons, Option.map_some, deleteBallBySocketLoop,
            Heap.read_ok.mpr ha, bind, Except.bind, hx, if_false, hm']
        · rw [hkeep, htotal, List.length_cons, List.length_cons]
          omega

theorem deleteBallBySocket_ok {m : BallListManager} {lost : Bool}
    {ns : List (Nat × LogicalBall)} (hr : Represents m.toLinked lost ns) (socketFd : Int) :
    ∃ m', deleteBallBySocket m socketFd = .ok m' ∧
      Represents m'.toLinked lost (ns.filter fun k => !nodeOwnedBy socketFd k) ∧
      m'.totalCount = m.totalCount -
        (ns.length - (ns.filter fun k => !nodeOwnedBy socketFd k).length : Int) := by
  have hr' : Represents m.toLinked lost ([] ++ ns) := hr
  obtain ⟨m', hm', hrep, htotal⟩ := deleteBallBySocketLoop_ok socketFd ns _ hr' hr.length_le
  rw [List.getLast?_nil, Option.map_none, ← hr.chain.head_eq] at hm'
  exact ⟨m', hm', hrep, htotal⟩

theorem deleteBallBySocket_agree {m : BallListManager} {s : BallStore} (h : m.Holds s)
    (socketFd : Int) :
    Agree BallListManager.Holds (deleteBallBySocket m socketFd)
      (storeStep s (.deleteBySocket socketFd)) := by
  obtain ⟨⟨ns, hr, hns⟩, htotal⟩ := h
  obtain ⟨m', hm', hrep, htotal'⟩ := deleteBallBySocket_ok hr socketFd
  have hballs : (ns.filter fun k => !nodeOwnedBy socketFd k).map Prod.snd =
      s.balls.filter fun b => !b.ownedBy socketFd := by
    rw [← hns, List.filter_map]
    rfl
  rw [storeStep, hm']
  refine Agree.ok ⟨⟨_, hrep, hballs⟩, ?_⟩
  simp only [BallStore.keep]
  rw [htotal', htotal, ← hballs, ← hns, List.length_map, List.length_map]

/-! ## Changing all balls, counting and logging -/

theorem updateBalls_agree {m : BallListManager} {s : BallStore} (h : m.Holds s)
    (f : LogicalBall → LogicalBall) :
    Agree BallListManager.Holds (updateBalls f m) (.ok (s.map f)) := by
  obtain ⟨⟨ns, hr, hns⟩, htotal⟩ := h
  obtain ⟨heap, hok, hrep⟩ := hr.mapNodes_ok f
  simp only [updateBalls, hok, bind, Except.bind]
  refine Agree.ok ⟨⟨_, hrep, ?_⟩, htotal⟩
  simp only [BallStore.map, ← hns, List.map_map, Function.comp_def]

/-- **The heap refines the list.** Every operation of the ball store on the heap succeeds
exactly if the one on the list does, for the same reason if not, and keeps the relation. -/
theorem ballStep_refines {m : BallListManager} {s : BallStore} (h : m.Holds s) (op : BallOp) :
    Agree BallListManager.Holds (ballStep m op) (storeStep s op) := by
  cases op with
  | add count radius ownerId env => exact addBallLoop_agree radius ownerId _ _ _ 0 h
  | delete count ownerId => exact deleteBall_agree h count ownerId
  | deleteBySocket socketFd => exact deleteBallBySocket_agree h socketFd
  | move => exact updateBalls_agree h _
  | speedUp ownerId => exact updateBalls_agree h _
  | speedDown ownerId => exact updateBalls_agree h _

/-- A run on the heap and the run on the plain list go together. -/
theorem ballRun_refines (ops : List BallOp) :
    Agree BallListManager.Holds (run ballStep ballManagerInit ops)
      (run storeStep BallStore.empty ops) :=
  run_agree (fun _ _ op h => ballStep_refines h op) holds_init

theorem foldlM_count (ownerId : Int) (ns : List (Nat × LogicalBall)) (c : Int) :
    ns.foldlM (fun (count : Int) (node : Nat × LogicalBall) =>
      (.ok (if node.2.ownerId = ownerId then count + 1 else count) : Except Stuck Int)) c =
      .ok (c + ns.countP (nodeOwnedBy ownerId)) := by
  induction ns generalizing c with
  | nil => simp [pure, Except.pure]
  | cons n ns ih =>
    rw [List.foldlM_cons, List.countP_cons]
    simp only [bind, Except.bind, ih]
    by_cases hn : n.2.ownerId = ownerId
    · have hown : nodeOwnedBy ownerId n = true := decide_eq_true hn
      rw [if_pos hn, if_pos hown]
      congr 1
      omega
    · have hown : ¬ nodeOwnedBy ownerId n = true := mt LogicalBall.ownedBy_iff.mp hn
      rw [if_neg hn, if_neg hown]
      congr 1

theorem countBallByOwner_ok {m : BallListManager} {s : BallStore} (h : m.Holds s)
    (ownerId : Int) :
    countBallByOwner m ownerId = .ok (s.balls.countP (LogicalBall.ownedBy ownerId)) := by
  obtain ⟨⟨ns, hr, hns⟩, _⟩ := h
  rw [countBallByOwner, hr.foldNodes_eq, foldlM_count, ← hns, List.countP_map, Int.zero_add]
  rfl

/-! ## Well-formedness -/

/-- The promise of the list: following `next` from the head visits distinct live nodes and
ends in NULL, the tail is the last of them and the counter their number. -/
structure BallListManager.WellFormed (m : BallListManager) : Prop where
  nodes : ∃ ns : List (Nat × LogicalBall), Chain m.heap m.head ns none ∧
    (ns.map Prod.fst).Nodup ∧ m.tail = ns.getLast?.map Prod.fst ∧ m.totalCount = ns.length
  tail_eq_none_iff : m.tail = none ↔ m.head = none

/-- Allocation succeeds, and a deletion asks for at least one ball. -/
def BallOp.Allowed : BallOp → Prop
  | .add _ _ _ env => ∀ i, env.alloc i ≠ none
  | .delete count _ => 1 ≤ count
  | _ => True

/-- The errors of the arithmetic: a counter, a radius or a range that does not fit. -/
def ArithmeticError (e : Stuck) : Prop := e = .integerOverflow ∨ e = .divisionByZero

/-- No allocation has failed, and the counter counts the balls. -/
def BallStore.Exact (s : BallStore) : Prop := s.lost = false ∧ s.totalCount = s.balls.length

theorem wellFormed_iff_intact {m : BallListManager} :
    m.WellFormed ↔ Intact m.toLinked m.totalCount :=
  ⟨fun h => ⟨h.nodes, h.tail_eq_none_iff⟩, fun h => ⟨h.nodes, h.tail_eq_none_iff⟩⟩

theorem wellFormed_of_represents {m : BallListManager} {ns : List (Nat × LogicalBall)}
    (hr : Represents m.toLinked false ns) (htotal : m.totalCount = ns.length) : m.WellFormed :=
  wellFormed_iff_intact.mpr (intact_of_represents hr htotal)

theorem BallListManager.Holds.wellFormed {m : BallListManager} {s : BallStore} (h : m.Holds s)
    (hs : s.Exact) : m.WellFormed := by
  obtain ⟨⟨ns, hr, hns⟩, htotal⟩ := h
  rw [hs.1] at hr
  apply wellFormed_of_represents hr
  rw [htotal, hs.2, ← hns, List.length_map]

theorem randomCoordinate_ends (draw : Nat) (radius : Int) :
    Ends (fun _ => True) ArithmeticError (randomCoordinate draw radius) := by
  have hchecked : ∀ n, Ends (fun _ => True) ArithmeticError (checkedInt n) :=
    fun n => (checkedInt_ends n).mono (fun _ _ => trivial) fun _ he => Or.inl he
  unfold randomCoordinate
  refine (hchecked _).bind fun diameter _ => (hchecked _).bind fun range _ => ?_
  split
  · exact Ends.error (Or.inr rfl)
  · exact (hchecked _).bind fun place _ => Ends.ok trivial

theorem createLogicalBall_ends (id radius ownerId : Int) (draws : RandomDraws) :
    Ends (fun _ => True) ArithmeticError (createLogicalBall id radius ownerId draws) :=
  (randomCoordinate_ends ..).bind fun _ _ => (randomCoordinate_ends ..).bind fun _ _ =>
    Ends.ok trivial

theorem add_exact {radius ownerId : Int} {draws : Nat → RandomDraws} {alloc : Nat → Option Nat}
    (halloc : ∀ i, alloc i ≠ none) (remaining i : Nat) {s : BallStore} (hs : s.Exact) :
    Ends BallStore.Exact ArithmeticError (s.add radius ownerId draws alloc remaining i) := by
  induction remaining generalizing i s with
  | zero => exact Ends.ok hs
  | succ remaining ih =>
    obtain ⟨choice, hchoice⟩ := Option.ne_none_iff_exists'.mp (halloc i)
    rw [BallStore.add]
    refine ((checkedInt_ends _).mono (fun _ h => h) fun _ he => Or.inl he).bind ?_
    rintro total ⟨_, rfl⟩
    refine (createLogicalBall_ends ..).bind fun b _ => ?_
    have hpush : s.push b (s.totalCount + 1) (alloc i) =
        .ok ⟨s.balls ++ [b], s.totalCount + 1, false⟩ := by
      simp [BallStore.push, hs.1, hchoice]
    have hexact : BallStore.Exact ⟨s.balls ++ [b], s.totalCount + 1, false⟩ := by
      refine ⟨rfl, ?_⟩
      simp [hs.2]
    rw [hpush]
    exact ih (i + 1) hexact

theorem keep_exact {s : BallStore} (hs : s.Exact) (bs : List LogicalBall) :
    (s.keep bs).Exact := by
  refine ⟨hs.1, ?_⟩
  simp only [BallStore.keep, hs.2]
  omega

theorem map_exact {s : BallStore} (hs : s.Exact) (f : LogicalBall → LogicalBall) :
    (s.map f).Exact := ⟨hs.1, by simp [BallStore.map, hs.2]⟩

/-- The step lemma of the counter. -/
theorem storeStep_exact {s : BallStore} (hs : s.Exact) {op : BallOp} (hop : op.Allowed) :
    Ends BallStore.Exact ArithmeticError (storeStep s op) := by
  cases op with
  | add count radius ownerId env => exact add_exact hop _ 0 hs
  | delete count ownerId =>
    rw [storeStep, if_neg (not_le.mpr (show (0 : Int) < count from hop))]
    exact Ends.ok (keep_exact hs _)
  | deleteBySocket socketFd => exact Ends.ok (keep_exact hs _)
  | move => exact Ends.ok (map_exact hs _)
  | speedUp ownerId => exact Ends.ok (map_exact hs _)
  | speedDown ownerId => exact Ends.ok (map_exact hs _)

/-- **The representation invariant of the ball store.** After every run of allowed operations the
linked list is well formed, and a run only ever fails in the arithmetic: no operation meets a freed
or missing node or runs in a circle. What `delete_ball` prints is left out: it reads the number of
the ball behind `free(target)`. -/
theorem ball_store_well_formed (ops : List BallOp) (hops : ∀ op ∈ ops, op.Allowed) :
    (∀ m, run ballStep ballManagerInit ops = .ok m → m.WellFormed) ∧
      ∀ e, run ballStep ballManagerInit ops = .error e → ArithmeticError e := by
  have hagree := ballRun_refines ops
  have hexact : Ends BallStore.Exact ArithmeticError (run storeStep BallStore.empty ops) :=
    run_ends (fun _ op hs (hop : op.Allowed) => storeStep_exact hs hop) ⟨rfl, rfl⟩ hops
  constructor
  · intro m hm
    rw [hm] at hagree
    obtain ⟨s, hs, hholds⟩ := hagree.left_ok
    exact hholds.wellFormed (hexact.of_ok hs)
  · intro e he
    rw [he] at hagree
    exact hexact.of_error hagree.left_error

/-- Adding three balls for two owners, deleting the newest one of the first owner and all of
the second one. -/
def twoOwners : List BallOp :=
  [.add 2 20 5 ⟨fun _ => ⟨0, 0, 0, 0⟩, some⟩, .add 1 30 6 ⟨fun _ => ⟨7, 9, 1, 0⟩, some⟩,
    .delete 1 5, .move, .deleteBySocket 6]

theorem ball_store_well_formed_two_owners :
    ∃ m, run ballStep ballManagerInit twoOwners = .ok m ∧ m.totalCount = 1 ∧ m.WellFormed := by
  have hallowed : ∀ op ∈ twoOwners, op.Allowed := by
    intro op hop
    simp only [twoOwners, List.mem_cons, List.not_mem_nil, or_false] at hop
    rcases hop with rfl | rfl | rfl | rfl | rfl <;> simp [BallOp.Allowed]
  exact ⟨_, rfl, rfl, (ball_store_well_formed twoOwners hallowed).1 _ rfl⟩

end BallGame.Server
