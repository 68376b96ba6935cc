import BallGame.Client.ScreenBallManager
import BallGame.Library.CountedList

/-!
# The counter of the client

Three operations change the ball list of the client. Adding balls and replacing the list count
every node, but `delete_ball` counts a ball down only if `deleteLastBall` returns a node, and
`deleteLastBall` always returns NULL. The counter therefore exceeds the number of nodes by the
number of balls `delete_ball` ever removed, and no later operation makes up for it.

* `clientStep_drifts`: the list after every operation, and by how much the counter is off;
* `client_count_exact_iff`: the counter is right all along a run exactly if no `delete_ball` of
  the run removes a ball.
-/

namespace BallGame.Client

open Library

/-! ## Operations and runs -/

inductive BallOp where
  | add (count width height radius : Int) (env : AddEnv)
  | delete (count : Int)
  | update (str : List Char) (width height : Int) (env : UpdateEnv)

def clientStep (m : BallListManager) : BallOp → Except Stuck BallListManager
  | .add count width height radius env => addBall m count width height radius env
  | .delete count => deleteBall m count
  | .update str width height env => updateBallListFromSerialized m str width height env

/-- Every allocation of a node succeeds. -/
def BallOp.Allocates : BallOp → Prop
  | .add _ _ _ _ env => ∀ i, env.alloc i ≠ none
  | .delete _ => True
  | .update _ _ _ env => ∀ i, env.alloc i ≠ none

/-- Following `next` from the head visits distinct live nodes and ends in NULL, the tail is the
last of them and the counter their number. -/
structure BallListManager.WellFormed (m : BallListManager) : Prop where
  nodes : ∃ ns : List (Nat × ScreenBall), Chain m.heap m.head ns none ∧
    (ns.map Prod.fst).Nodup ∧ m.tail = ns.getLast?.map Prod.fst ∧ m.totalCount = ns.length
  tail_eq_none_iff : m.tail = none ↔ m.head = none

/-- The list is right but for the counter, which is `drift` too large. -/
def BallListManager.Drifts (m : BallListManager) (drift : Nat) : Prop :=
  ∃ ns, Represents m.toLinked false ns ∧ m.totalCount = ns.length + drift

theorem drifts_init : ballManagerInit.Drifts 0 := ⟨[], Represents.empty, rfl⟩

theorem wellFormed_iff_intact {m : BallListManager} :
    m.WellFormed ↔ Intact m.toLinked m.totalCount :=
  ⟨fun h => ⟨h.nodes, h.tail_eq_none_iff⟩, fun h => ⟨h.nodes, h.tail_eq_none_iff⟩⟩

theorem BallListManager.Drifts.wellFormed_iff {m : BallListManager} {drift : Nat}
    (h : m.Drifts drift) : m.WellFormed ↔ drift = 0 := by
  obtain ⟨ns, hr, htotal⟩ := h
  have hmisses : Misses m.toLinked m.totalCount drift :=
    ⟨false, ns, hr, htotal, fun hlost => by cases hlost⟩
  exact wellFormed_iff_intact.trans hmisses.intact_iff

/-- The arithmetic of a counter or of a coordinate fails. -/
def ArithmeticError (e : Stuck) : Prop := e = .integerOverflow ∨ e = .divisionByZero

/-! ## Adding -/

theorem randomCoordinate_ends (draw : Nat) (size radius : Int) :
    Ends (fun _ => True) ArithmeticError (randomCoordinate draw size radius) := by
  have hchecked : ∀ n, Ends (fun _ => True) ArithmeticError (checkedInt n) :=
    fun n => (checkedInt_ends n).mono (fun _ _ => trivial) fun _ he => Or.inl he
  unfold randomCoordinate
  refine (hchecked _).bind fun diameter _ => (hchecked _).bind fun range _ => ?_
  split
  · exact Ends.error (Or.inr rfl)
  · exact hchecked _

theorem createScreenBall_ends (id width height radius : Int) (draws : RandomDraws) :
    Ends (fun _ => True) ArithmeticError (createScreenBall id width height radius draws) := by
  unfold createScreenBall
  exact (randomCoordinate_ends ..).bind fun _ _ => (randomCoordinate_ends ..).bind fun _ _ =>
    Ends.ok trivial

theorem addBallLoop_drifts {width height radius : Int} {env : AddEnv}
    (halloc : ∀ i, env.alloc i ≠ none) (remaining i : Nat) {m : BallListManager} {drift : Nat}
    (h : m.Drifts drift) :
    Ends (fun m' => m'.Drifts drift) ArithmeticError
      (addBallLoop width height radius env remaining i m) := by
  induction remaining generalizing i m with
  | zero => exact Ends.ok h
  | succ remaining ih =>
    obtain ⟨choice, hchoice⟩ := Option.ne_none_iff_exists'.mp (halloc i)
    obtain ⟨ns, hr, htotal⟩ := h
    rw [addBallLoop, hchoice]
    refine ((checkedInt_ends _).mono (fun _ h => h) fun _ he => Or.inl he).bind ?_
    rintro total ⟨_, rfl⟩
    refine (createScreenBall_ends ..).bind fun b _ => ?_
    obtain ⟨l, hl, hrep⟩ := hr.append_ok (Or.inl rfl) b choice
    rw [hl]
    refine ih (i + 1) ⟨_, hrep, ?_⟩
    simp only [List.length_append, List.length_singleton]
    omega

/-! ## Deleting -/

/-- The walk stops at the node before the tail. -/
theorem beforeTail_ok {heap : Heap (Node ScreenBall)} {a b : Nat} {y : ScreenBall}
    (pre : List (Nat × ScreenBall)) {fuel p : Nat}
    (hc : Chain heap (some p) (pre ++ [(b, y)]) (some a))
    (ha : a ∉ (pre ++ [(b, y)]).map Prod.fst) (hfuel : pre.length < fuel) :
    beforeTail (some a) fuel heap p = .ok b := by
  induction pre generalizing fuel p with
  | nil =>
    obtain ⟨hp, next, hcell, rfl⟩ := hc
    obtain rfl : p = b := Option.some.inj hp
    cases fuel with
    | zero => simp at hfuel
    | succ fuel => simp only [beforeTail, Heap.read_ok.mpr hcell, bind, Except.bind, if_true]
  | cons k pre ih =>
    obtain ⟨c, z⟩ := k
    obtain ⟨hp, next, hcell, hrest⟩ := hc
    obtain rfl : p = c := Option.some.inj hp
    simp only [List.cons_append, List.map_cons, List.mem_cons, not_or] at ha
    cases fuel with
    | zero => simp at hfuel
    | succ fuel =>
      obtain ⟨q, hq⟩ : ∃ q, next = some q ∧ q ∈ (pre ++ [(b, y)]).map Prod.fst := by
        cases pre with
        | nil => exact ⟨b, hrest.1, by simp⟩
        | cons k' pre => exact ⟨k'.1, hrest.1, by simp⟩
      obtain ⟨rfl, hmem⟩ := hq
      have hne : ¬ (some q = some a) := by
        intro he
        obtain rfl := Option.some.inj he
        exact ha.2 hmem
      simp only [beforeTail, Heap.read_ok.mpr hcell, bind, Except.bind, if_neg hne]
      exact ih hrest ha.2 (by simpa using hfuel)

/-- The last ball is removed, and the result is NULL. -/
theorem deleteLastBall_ok {l : Linked ScreenBall} {ns : List (Nat × ScreenBall)}
    (hr : Represents l false ns) :
    ∃ l', deleteLastBall l = .ok (none, l') ∧ Represents l' false ns.dropLast := by
  rcases List.eq_nil_or_concat ns with rfl | ⟨pre, ⟨a, x⟩, rfl⟩
  · have hhead : l.head = none := hr.chain
    exact ⟨l, by simp only [deleteLastBall, hhead], hr⟩
  · rw [List.concat_eq_append] at hr ⊢
    have htail : l.tail = some a := by simpa using hr.tail
    rw [List.dropLast_concat]
    rcases List.eq_nil_or_concat pre with rfl | ⟨pre, ⟨b, y⟩, rfl⟩
    · obtain ⟨heap, hhead, _, hfree, hrep⟩ := hr.free_head
      refine ⟨⟨heap, none, none⟩, ?_, by simpa [htail] using hrep⟩
      simp only [deleteLastBall, hhead, htail, if_true, hfree, bind, Except.bind]
    · rw [List.concat_eq_append] at hr ⊢
      have hr' : Represents l false (pre ++ (b, y) :: (a, x) :: []) := by simpa using hr
      obtain ⟨heap₁, heap, hhead, hb, _, hw, _, hfree, hrep⟩ := hr'.free_next
      obtain ⟨_, _, _, hchain⟩ := hr.target_cell
      obtain ⟨p, hp⟩ : ∃ p, l.head = some p :=
        Option.ne_none_iff_exists'.mp (mt hr.head_eq_none_iff.mp (by simp))
      have hlength : pre.length < l.heap.brk := by
        have := hr.length_le
        simp only [List.length_append, List.length_singleton] at this
        omega
      have hbefore : beforeTail (some a) l.heap.brk l.heap p = .ok b :=
        beforeTail_ok pre (hp ▸ hchain) hr.target_not_mem.1 hlength
      have hne : ¬ (some a = some p) := by
        intro he
        exact hhead (hp.trans he.symm)
      refine ⟨⟨heap, l.head, some b⟩, ?_, by simpa [htail] using hrep⟩
      simp only [deleteLastBall, hp, htail, if_neg hne, hbefore, Heap.read_ok.mpr hb, bind,
        Except.bind]
      rw [show ({ data := y, next := none } : Node ScreenBall) =
        ⟨y, ([] : List (Nat × ScreenBall)).head?.map Prod.fst⟩ from rfl, hw]
      simp only [hfree]

/-- `delete_ball` removes the last balls and never counts one of them. -/
theorem deleteBallLoop_ok (remaining : Nat) {m : BallListManager}
    {ns : List (Nat × ScreenBall)} (hr : Represents m.toLinked false ns) :
    ∃ m', deleteBallLoop remaining m = .ok m' ∧
      Represents m'.toLinked false (ns.take (ns.length - remaining)) ∧
      m'.totalCount = m.totalCount := by
  induction remaining generalizing m ns with
  | zero => exact ⟨m, rfl, by simpa using hr, rfl⟩
  | succ remaining ih =>
    obtain ⟨l, hl, hr'⟩ := deleteLastBall_ok hr
    obtain ⟨m', hm', hrep, htotal⟩ := ih (m := { toLinked := l, totalCount := m.totalCount }) hr'
    refine ⟨m', ?_, ?_, htotal⟩
    · simp only [deleteBallLoop, hl, bind, Except.bind]
      exact hm'
    · have htake : ns.dropLast.take (ns.dropLast.length - remaining) =
          ns.take (ns.length - (remaining + 1)) := by
        rw [List.dropLast_eq_take, List.take_take, List.length_take]
        congr 1
        omega
      rwa [htake] at hrep

/-! ## Replacing -/

theorem appendTokens_drifts {width height : Int} {alloc : Nat → Option Nat}
    (halloc : ∀ i, alloc i ≠ none) (ts : List (List Char)) (i : Nat) {m : BallListManager}
    {drift : Nat} (h : m.Drifts drift) :
    Ends (fun m' => m'.Drifts drift) ArithmeticError (appendTokens width height alloc ts i m) := by
  induction ts generalizing i m with
  | nil => exact Ends.ok h
  | cons t ts ih =>
    obtain ⟨choice, hchoice⟩ := Option.ne_none_iff_exists'.mp (halloc i)
    obtain ⟨ns, hr, htotal⟩ := h
    obtain ⟨l, hl, hrep⟩ :=
      hr.append_ok (Or.inl rfl) (logicalToScreenBall (scanBall t) width height) choice
    simp only [appendTokens, hchoice, hl]
    refine ((checkedInt_ends _).mono (fun _ h => h) fun _ he => Or.inl he).bind ?_
    rintro total ⟨_, rfl⟩
    refine ih (i + 1) ⟨_, hrep, ?_⟩
    simp only [List.length_append, List.length_singleton]
    omega

theorem updateBallListFromSerialized_drifts {width height : Int} {env : UpdateEnv}
    (halloc : ∀ i, env.alloc i ≠ none) (str : List Char) {m : BallListManager} {drift : Nat}
    (h : m.Drifts drift) :
    Ends (fun m' => m'.Drifts drift) ArithmeticError
      (updateBallListFromSerialized m str width height env) := by
  obtain ⟨ns, hr, htotal⟩ := h
  obtain ⟨m₀, hm₀, hempty, hcount⟩ := deleteAllBall_empties hr
  have hdrift : m₀.Drifts drift := by
    refine ⟨[], hempty, ?_⟩
    rw [hcount, htotal]
    simp
  unfold updateBallListFromSerialized
  rw [hm₀]
  cases hstrdup : env.strdup with
  | false => exact Ends.ok hdrift
  | true => exact appendTokens_drifts halloc _ 0 hdrift

/-! ## Runs -/

/-- How many balls the operation takes off the list without counting them. -/
def BallOp.uncounted (m : BallListManager) : BallOp → Nat
  | .delete count => min count.toNat m.nodes.length
  | _ => 0

/-- The step lemma. -/
theorem clientStep_drifts {m : BallListManager} {drift : Nat} (h : m.Drifts drift) {op : BallOp}
    (hop : op.Allocates) :
    Ends (fun m' => m'.Drifts (drift + op.uncounted m)) ArithmeticError (clientStep m op) := by
  cases op with
  | add count width height radius env => exact addBallLoop_drifts hop _ 0 h
  | update str width height env => exact updateBallListFromSerialized_drifts hop str h
  | delete count =>
    obtain ⟨ns, hr, htotal⟩ := h
    obtain ⟨m', hm', hrep, hcount⟩ := deleteBallLoop_ok count.toNat hr
    rw [clientStep, deleteBall, hm']
    refine Ends.ok ⟨_, hrep, ?_⟩
    rw [hcount, htotal, BallOp.uncounted, hr.nodes_eq, List.length_take]
    omega

/-- Nothing is taken off the list without being counted: no ball is asked for, or none is
there. -/
def BallOp.Counts (m : BallListManager) : BallOp → Prop
  | .delete count => count ≤ 0 ∨ m.head = none
  | _ => True

theorem BallListManager.Drifts.counts_iff {m : BallListManager} {drift : Nat}
    (h : m.Drifts drift) (op : BallOp) : op.Counts m ↔ op.uncounted m = 0 := by
  obtain ⟨ns, hr, _⟩ := h
  cases op with
  | delete count =>
    have hempty : ns = [] ↔ ns.length = 0 := List.length_eq_zero_iff.symm
    rw [BallOp.Counts, BallOp.uncounted, hr.nodes_eq, hr.head_eq_none_iff, hempty]
    omega
  | add count width height radius env => simp [BallOp.Counts, BallOp.uncounted]
  | update str width height env => simp [BallOp.Counts, BallOp.uncounted]

/-- The list is well formed, a deletion takes the last balls off it, and the counter is 0 once
all of them are deleted. -/
structure BallListManager.Reliable (m : BallListManager) : Prop where
  wellFormed : m.WellFormed
  delete : ∀ count : Int, ∃ m', deleteBall m count = .ok m' ∧
    m'.nodes = m.nodes.take (m.nodes.length - count.toNat)
  deleteAll : ∃ m', deleteAllBall m = .ok m' ∧ m'.totalCount = 0

theorem BallListManager.Drifts.reliable_iff {m : BallListManager} {drift : Nat}
    (h : m.Drifts drift) : m.Reliable ↔ drift = 0 := by
  constructor
  · intro hreliable
    exact h.wellFormed_iff.mp hreliable.wellFormed
  · rintro rfl
    have hwell := h.wellFormed_iff.mpr rfl
    obtain ⟨ns, hr, htotal⟩ := h
    refine ⟨hwell, ?_, ?_⟩
    · intro count
      obtain ⟨m', hm', hrep, _⟩ := deleteBallLoop_ok count.toNat hr
      exact ⟨m', hm', by rw [hrep.nodes_eq, hr.nodes_eq]⟩
    · obtain ⟨m', hm', _, hcount⟩ := deleteAllBall_empties hr
      refine ⟨m', hm', ?_⟩
      rw [hcount, htotal]
      simp

/-- **The counter of the client.** While the memory suffices, the list is well formed with the
right counter in every state of a run exactly if no `delete_ball` of the run is asked for a
ball of a list that has one. A run only ever fails in the arithmetic. -/
theorem client_count_exact_iff (ops : List BallOp) (hops : ∀ op ∈ ops, op.Allocates) :
    (∀ m, run clientStep ballManagerInit ops = .ok m →
      ((∀ u, Visits clientStep ballManagerInit ops u → u.Reliable) ↔
        Throughout clientStep (fun m op => op.Counts m) ballManagerInit ops)) ∧
    ∀ e, run clientStep ballManagerInit ops = .error e → ArithmeticError e := by
  have hends : Ends (fun m => ∃ drift, BallListManager.Drifts m drift) ArithmeticError
      (run clientStep ballManagerInit ops) := by
    apply run_ends _ ⟨0, drifts_init⟩ hops
    rintro m op ⟨drift, h⟩ hop
    exact (clientStep_drifts h hop).mono (fun m' h' => ⟨_, h'⟩) fun _ he => he
  refine ⟨fun m hm => ?_, fun e he => hends.of_error he⟩
  apply visits_iff_throughout_of_allowed (I := fun m => m.Drifts 0) _ _ _ hops drifts_init hm
  · intro u op u' hu hop hcounts hstep
    have hdrift := (clientStep_drifts hu hop).of_ok hstep
    rwa [(hu.counts_iff op).mp hcounts] at hdrift
  · intro u hu
    exact hu.reliable_iff.mpr rfl
  · intro u op u' hu hop hstep hreliable
    have hdrift := (clientStep_drifts hu hop).of_ok hstep
    have hzero := hdrift.reliable_iff.mp hreliable
    exact (hu.counts_iff op).mpr (by omega)

/-- One ball is added and deleted. -/
def addThenDelete : List BallOp :=
  [.add 1 800 600 20 ⟨fun _ => ⟨0, 0, 0, 0, 0, 0, 0⟩, some⟩, .delete 1]

theorem addThenDelete_allocates : ∀ op ∈ addThenDelete, op.Allocates := by
  intro op hop
  simp only [addThenDelete, List.mem_cons, List.not_mem_nil, or_false] at hop
  rcases hop with rfl | rfl <;> simp [BallOp.Allocates]

theorem client_count_exact_iff_addThenDelete :
    ∃ m, run clientStep ballManagerInit addThenDelete = .ok m ∧ m.totalCount = 1 ∧
      m.head = none ∧
      ((∀ u, Visits clientStep ballManagerInit addThenDelete u → u.Reliable) ↔
        Throughout clientStep (fun m op => op.Counts m) ballManagerInit addThenDelete) := by
  obtain ⟨m, hm, hcount, hhead⟩ : ∃ m, run clientStep ballManagerInit addThenDelete = .ok m ∧
      m.totalCount = 1 ∧ m.head = none := ⟨_, rfl, rfl, rfl⟩
  exact ⟨m, hm, hcount, hhead,
    (client_count_exact_iff addThenDelete addThenDelete_allocates).1 m hm⟩

/-- The deleted ball is still counted. -/
theorem client_count_off :
    ¬ ∀ ops : List BallOp, (∀ op ∈ ops, op.Allocates) →
      ∀ m, run clientStep ballManagerInit ops = .ok m → m.Reliable := by
  intro hall
  obtain ⟨m, hm, hcount, hhead⟩ : ∃ m, run clientStep ballManagerInit addThenDelete = .ok m ∧
      m.totalCount = 1 ∧ m.head = none := ⟨_, rfl, rfl, rfl⟩
  obtain ⟨⟨ns, hchain, _, _, hlength⟩, _⟩ :=
    (hall addThenDelete addThenDelete_allocates m hm).wellFormed
  cases ns with
  | nil =>
    rw [hcount] at hlength
    cases hlength
  | cons n ns =>
    have hsome : m.head = some n.1 := hchain.1
    rw [hhead] at hsome
    cases hsome

end BallGame.Client
