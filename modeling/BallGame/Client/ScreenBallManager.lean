import BallGame.Client.ScreenBall
import BallGame.Library.LinkedList

/-!
# The ball list of the client

`screenballmanager.c` and `screenball_list.c`: every text that arrives replaces the whole list
by the balls of its tokens.

* `updateBallListFromSerialized_ok`: the list afterwards, if the memory suffices.
-/

namespace BallGame.Client

open Library

structure BallListManager extends Linked ScreenBall where
  totalCount : Int

def ballManagerInit : BallListManager := { toLinked := Linked.empty, totalCount := 0 }

/-! ## Adding balls -/

/-- What the random generator and the allocator return while balls are added. -/
structure AddEnv where
  draws : Nat → RandomDraws
  alloc : Nat → Option Nat

/-- The loop of `add_ball`, with `remaining` iterations to go from iteration `i` on. -/
def addBallLoop (width height radius : Int) (env : AddEnv) :
    Nat → Nat → BallListManager → Except Stuck BallListManager
  | 0, _, m => .ok m
  | remaining + 1, i, m => do
    let total ← checkedInt (m.totalCount + 1)
    let b ← createScreenBall m.totalCount width height radius (env.draws i)
    let l ← m.toLinked.append b (env.alloc i)
    addBallLoop width height radius env remaining (i + 1)
      { heap := l.heap, head := l.head, tail := l.tail, totalCount := total }

def addBall (m : BallListManager) (count width height radius : Int) (env : AddEnv) :
    Except Stuck BallListManager :=
  addBallLoop width height radius env count.toNat 0 m

/-! ## Deleting the last balls -/

/-- The loop `while (cur->next != *tail) cur = cur->next;`. -/
def beforeTail (tail : Option Nat) : Nat → Heap (Node ScreenBall) → Nat → Except Stuck Nat
  | 0, _, _ => .error .nontermination
  | fuel + 1, heap, cur => do
    let node ← heap.read cur
    if node.next = tail then
      .ok cur
    else
      match node.next with
      | none => .error .nullDereference
      | some next => beforeTail tail fuel heap next

/-- The first component is the result, which is NULL whether or not a ball was there. -/
def deleteLastBall (l : Linked ScreenBall) : Except Stuck (Option Nat × Linked ScreenBall) :=
  match l.head with
  | none => .ok (none, l)
  | some head =>
    if l.tail = some head then do
      let heap ← l.heap.free head
      .ok (none, ⟨heap, none, none⟩)
    else do
      let cur ← beforeTail l.tail l.heap.brk l.heap head
      let node ← l.heap.read cur
      let heap ← l.heap.write cur { node with next := none }
      match l.tail with
      | none => .error .nullDereference
      | some removed => do
        let heap ← heap.free removed
        .ok (none, ⟨heap, l.head, some cur⟩)

def deleteBallLoop : Nat → BallListManager → Except Stuck BallListManager
  | 0, m => .ok m
  | remaining + 1, m => do
    let (result, l) ← deleteLastBall m.toLinked
    let total ← if result.isSome then checkedInt (m.totalCount - 1) else .ok m.totalCount
    deleteBallLoop remaining { toLinked := l, totalCount := total }

def deleteBall (m : BallListManager) (count : Int) : Except Stuck BallListManager :=
  deleteBallLoop count.toNat m

/-! ## Replacing all balls -/

/-- Free every node, and count down. -/
def deleteAllBallLoop :
    Nat → Heap (Node ScreenBall) → Option Nat → Int → Except Stuck (Heap (Node ScreenBall) × Int)
  | _, heap, none, count => .ok (heap, count)
  | 0, _, some _, _ => .error .nontermination
  | fuel + 1, heap, some cur, count => do
    let node ← heap.read cur
    let heap ← heap.free cur
    deleteAllBallLoop fuel heap node.next (count - 1)

def deleteAllBall (m : BallListManager) : Except Stuck BallListManager := do
  let (heap, count) ← deleteAllBallLoop m.heap.brk m.heap m.head m.totalCount
  .ok { heap := heap, head := none, tail := none, totalCount := count }

/-- What the allocator returns during an update: whether `strdup` succeeds, and the nodes. -/
structure UpdateEnv where
  strdup : Bool
  alloc : Nat → Option Nat

/-- The loop over the tokens, from the `i`-th on. -/
def appendTokens (width height : Int) (alloc : Nat → Option Nat) :
    List (List Char) → Nat → BallListManager → Except Stuck BallListManager
  | [], _, m => .ok m
  | token :: rest, i, m => do
    let ball := logicalToScreenBall (scanBall token) width height
    let l ← m.toLinked.append ball (alloc i)
    let total ← checkedInt (m.totalCount + 1)
    appendTokens width height alloc rest (i + 1)
      { heap := l.heap, head := l.head, tail := l.tail, totalCount := total }

def updateBallListFromSerialized (m : BallListManager) (str : List Char) (width height : Int)
    (env : UpdateEnv) : Except Stuck BallListManager := do
  let m ← deleteAllBall m
  if env.strdup then
    appendTokens width height env.alloc (tokens '|' str) 0 m
  else
    .ok m

/-! ## What an update does to the list -/

/-- The linked list holds the balls, and the counter counts them. -/
structure BallListManager.Holds (m : BallListManager) (balls : List ScreenBall) : Prop where
  nodes : ∃ ns, Represents m.toLinked false ns ∧ ns.map Prod.snd = balls
  totalCount : m.totalCount = balls.length

/-- The counter counts the balls; the tail pointer may be anything. -/
def BallListManager.Counted (m : BallListManager) (balls : List ScreenBall) : Prop :=
  ∃ tail, BallListManager.Holds { m with tail := tail } balls

theorem BallListManager.Holds.counted {m : BallListManager} {balls : List ScreenBall}
    (h : m.Holds balls) : m.Counted balls := ⟨m.tail, h⟩

theorem holds_init : ballManagerInit.Holds [] := ⟨⟨[], Represents.empty, rfl⟩, rfl⟩

theorem BallListManager.Holds.toList_eq {m : BallListManager} {balls : List ScreenBall}
    (h : m.Holds balls) : m.toList = balls := by
  obtain ⟨⟨ns, hr, rfl⟩, _⟩ := h
  exact hr.toList_eq

/-- The ball the client shows for a token. -/
def shownBall (width height : Int) (token : List Char) : ScreenBall :=
  logicalToScreenBall (scanBall token) width height

theorem deleteAllBallLoop_ok {l : Linked ScreenBall} {lost : Bool} {ns : List (Nat × ScreenBall)}
    (hr : Represents l lost ns) {fuel : Nat} (hfuel : ns.length ≤ fuel) (count : Int) :
    ∃ heap, deleteAllBallLoop fuel l.heap l.head count = .ok (heap, count - ns.length) := by
  induction ns generalizing l fuel count with
  | nil =>
    refine ⟨l.heap, ?_⟩
    rw [hr.head_eq_none_iff.mpr rfl]
    cases fuel <;> simp [deleteAllBallLoop]
  | cons n ns ih =>
    obtain ⟨a, x⟩ := n
    obtain ⟨heap, hhead, hcell, hfree, hrest⟩ := hr.free_head
    cases fuel with
    | zero => simp at hfuel
    | succ fuel =>
      obtain ⟨heap', hloop⟩ := ih hrest (by simpa using hfuel) (count - 1)
      refine ⟨heap', ?_⟩
      rw [hhead, deleteAllBallLoop]
      simp only [Heap.read_ok.mpr hcell, hfree, bind, Except.bind]
      rw [hloop, List.length_cons]
      congr 2
      omega

/-- The list is empty afterwards, and the counter has lost the number of its nodes. -/
theorem deleteAllBall_empties {m : BallListManager} {lost : Bool} {ns : List (Nat × ScreenBall)}
    (hr : Represents m.toLinked lost ns) :
    ∃ m', deleteAllBall m = .ok m' ∧ Represents m'.toLinked false [] ∧
      m'.totalCount = m.totalCount - ns.length := by
  obtain ⟨heap, hloop⟩ := deleteAllBallLoop_ok hr hr.length_le m.totalCount
  refine ⟨⟨⟨heap, none, none⟩, m.totalCount - ns.length⟩, ?_, ⟨rfl, by simp, rfl⟩, rfl⟩
  simp only [deleteAllBall, hloop, bind, Except.bind]

theorem deleteAllBall_ok {m : BallListManager} {balls : List ScreenBall} (h : m.Holds balls) :
    ∃ m', deleteAllBall m = .ok m' ∧ m'.Holds [] := by
  obtain ⟨⟨ns, hr, rfl⟩, htotal⟩ := h
  obtain ⟨m', hm', hempty, hcount⟩ := deleteAllBall_empties hr
  refine ⟨m', hm', ⟨[], hempty, rfl⟩, ?_⟩
  rw [hcount, htotal]
  simp

/-- An update forgets the tail of the list it replaces. -/
theorem updateBallListFromSerialized_tail (m : BallListManager) (tail : Option Nat)
    (str : List Char) (width height : Int) (env : UpdateEnv) :
    updateBallListFromSerialized { m with tail := tail } str width height env =
      updateBallListFromSerialized m str width height env := rfl

theorem appendTokens_ok {width height : Int} {alloc : Nat → Option Nat}
    (halloc : ∀ i, alloc i ≠ none) {ts : List (List Char)} {i : Nat} {m : BallListManager}
    {balls : List ScreenBall} (h : m.Holds balls)
    (hcount : (balls.length + ts.length : Int) ≤ 2147483647) :
    ∃ m', appendTokens width height alloc ts i m = .ok m' ∧
      m'.Holds (balls ++ ts.map (shownBall width height)) := by
  induction ts generalizing i m balls with
  | nil => exact ⟨m, rfl, by simpa using h⟩
  | cons t ts ih =>
    obtain ⟨choice, hchoice⟩ := Option.ne_none_iff_exists'.mp (halloc i)
    obtain ⟨⟨ns, hr, rfl⟩, htotal⟩ := h
    rw [List.length_map] at htotal
    obtain ⟨l, hl, hrep⟩ := hr.append_ok (Or.inl rfl) (shownBall width height t) choice
    simp only [List.length_map, List.length_cons, Nat.cast_add, Nat.cast_one] at hcount
    have hint : IsInt (m.totalCount + 1) := ⟨by omega, by omega⟩
    have hnext : BallListManager.Holds
        { heap := l.heap, head := l.head, tail := l.tail, totalCount := m.totalCount + 1 }
        (ns.map Prod.snd ++ [shownBall width height t]) := by
      refine ⟨⟨_, hrep, by simp⟩, ?_⟩
      rw [htotal]
      simp
    obtain ⟨m', hm', hholds⟩ := ih (i := i + 1) hnext (by simp; omega)
    refine ⟨m', ?_, by simpa using hholds⟩
    rw [appendTokens, hchoice]
    simp only [shownBall] at hl hm'
    simp only [hl, checkedInt_ok.mpr ⟨hint, rfl⟩, bind, Except.bind]
    exact hm'

/-- The text replaces the list. -/
theorem updateBallListFromSerialized_ok {m : BallListManager} {balls : List ScreenBall}
    (h : m.Holds balls) {str : List Char} {width height : Int} {env : UpdateEnv}
    (hstrdup : env.strdup = true) (halloc : ∀ i, env.alloc i ≠ none)
    (hcount : ((tokens '|' str).length : Int) ≤ 2147483647) :
    ∃ m', updateBallListFromSerialized m str width height env = .ok m' ∧
      m'.Holds ((tokens '|' str).map (shownBall width height)) := by
  obtain ⟨m₀, hm₀, hempty⟩ := deleteAllBall_ok h
  obtain ⟨m', hm', hholds⟩ := appendTokens_ok halloc (i := 0) hempty (by simpa using hcount)
  refine ⟨m', ?_, by simpa using hholds⟩
  simp only [updateBallListFromSerialized, hm₀, hstrdup, if_true, bind, Except.bind]
  exact hm'

/-- A text that fits in an array is shown, wherever the tail of the old list points. -/
theorem updateBallListFromSerialized_shows {m : BallListManager} {balls : List ScreenBall}
    (h : m.Counted balls) {str : List Char} (hstr : (str.length : Int) ≤ 2147483647)
    {width height : Int} {env : UpdateEnv} (hstrdup : env.strdup = true)
    (halloc : ∀ i, env.alloc i ≠ none) :
    ∃ m', updateBallListFromSerialized m str width height env = .ok m' ∧
      m'.Holds ((tokens '|' str).map (shownBall width height)) := by
  obtain ⟨tail, hholds⟩ := h
  have hcount := length_tokens_le '|' str
  obtain ⟨m', hm', hholds'⟩ : ∃ m', updateBallListFromSerialized { m with tail := tail } str width
      height env = .ok m' ∧ m'.Holds ((tokens '|' str).map (shownBall width height)) :=
    updateBallListFromSerialized_ok hholds hstrdup halloc (by omega)
  rw [updateBallListFromSerialized_tail] at hm'
  exact ⟨m', hm', hholds'⟩

end BallGame.Client
