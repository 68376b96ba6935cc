import BallGame.Library.Memory
import BallGame.Library.Runs
import Mathlib.Data.List.Nodup
import Mathlib.Data.List.Perm.Subperm
import Mathlib.Data.List.Range

/-!
# Singly linked lists on the heap

A list is a heap of nodes with a head and a tail pointer. `Represents l lost ns` says that
following `next` from the head visits exactly the nodes `ns` (addresses with payloads), each
once, and ends in NULL, and that the tail pointer is the last of them, or NULL if it was
`lost` in a failed allocation. The rules at the end say what appending a node, unlinking a
node and walking over the list do to `ns`.
-/

namespace BallGame.Library

structure Node (α : Type) where
  data : α
  next : Option Nat
  deriving DecidableEq

/-- A list header: `none` is the NULL pointer. -/
structure Linked (α : Type) where
  heap : Heap (Node α)
  head : Option Nat
  tail : Option Nat

variable {α β : Type}

namespace Linked

def empty : Linked α := ⟨Heap.empty, none, none⟩

/-- Allocate a node; `none` for the allocator is a failed `malloc`. -/
def createNode (h : Heap (Node α)) (x : α) (alloc : Option Nat) :
    Option Nat × Heap (Node α) :=
  match alloc with
  | none => (none, h)
  | some choice => (some (h.malloc choice ⟨x, none⟩).1, (h.malloc choice ⟨x, none⟩).2)

/-- Append a node behind the tail; an empty list gets the node as its head. A NULL node
from a failed allocation is linked in all the same. -/
def append (l : Linked α) (x : α) (alloc : Option Nat) : Except Stuck (Linked α) :=
  match l.head with
  | none =>
    .ok ⟨(createNode l.heap x alloc).2, (createNode l.heap x alloc).1,
      (createNode l.heap x alloc).1⟩
  | some _ =>
    match l.tail with
    | none => .error .nullDereference
    | some t => do
      let last ← (createNode l.heap x alloc).2.read t
      let heap ← (createNode l.heap x alloc).2.write t
        { last with next := (createNode l.heap x alloc).1 }
      .ok ⟨heap, l.head, (createNode l.heap x alloc).1⟩

/-- The loop `while (cur) { read cur and cur->data; cur = cur->next; }`. -/
def foldNodes (f : β → Nat × α → Except Stuck β) (h : Heap (Node α)) :
    Nat → Option Nat → β → Except Stuck β
  | _, none, b => .ok b
  | 0, some _, _ => .error .nontermination
  | fuel + 1, some p, b => do
    let node ← h.read p
    let b' ← f b (p, node.data)
    foldNodes f h fuel node.next b'

/-- The loop `while (cur) { change cur->data; cur = cur->next; }`. -/
def mapNodes (f : α → α) : Nat → Heap (Node α) → Option Nat → Except Stuck (Heap (Node α))
  | _, h, none => .ok h
  | 0, _, some _ => .error .nontermination
  | fuel + 1, h, some p => do
    let node ← h.read p
    let h' ← h.write p { node with data := f node.data }
    mapNodes f fuel h' node.next

/-- The nodes met by following `next`. -/
def nodesFrom (h : Heap (Node α)) : Nat → Option Nat → List (Nat × α)
  | _, none => []
  | 0, some _ => []
  | fuel + 1, some p =>
    match h.cell p with
    | none => []
    | some node => (p, node.data) :: nodesFrom h fuel node.next

/-- The nodes of the list, from the head. -/
def nodes (l : Linked α) : List (Nat × α) := nodesFrom l.heap l.heap.brk l.head

/-- The payloads of the list, from the head. -/
def toList (l : Linked α) : List α := l.nodes.map Prod.snd

end Linked

/-! ## Chains of nodes -/

/-- Following `next` from `p` visits the nodes `ns` and arrives at `q`. -/
def Chain (h : Heap (Node α)) : Option Nat → List (Nat × α) → Option Nat → Prop
  | p, [], q => p = q
  | p, (a, x) :: ns, q => p = some a ∧ ∃ next, h.cell a = some ⟨x, next⟩ ∧ Chain h next ns q

theorem chain_append {h : Heap (Node α)} {p q : Option Nat} {ns ms : List (Nat × α)} :
    Chain h p (ns ++ ms) q ↔ ∃ r, Chain h p ns r ∧ Chain h r ms q := by
  induction ns generalizing p with
  | nil => simp [Chain]
  | cons n ns ih =>
    obtain ⟨a, x⟩ := n
    simp only [List.cons_append, Chain, ih]
    constructor
    · rintro ⟨hp, next, hc, r, hr, hm⟩
      exact ⟨r, ⟨hp, next, hc, hr⟩, hm⟩
    · rintro ⟨r, ⟨hp, next, hc, hr⟩, hm⟩
      exact ⟨hp, next, hc, r, hr, hm⟩

/-- A chain only depends on its own cells. -/
theorem Chain.congr {h h' : Heap (Node α)} {p q : Option Nat} {ns : List (Nat × α)}
    (hc : Chain h p ns q) (heq : ∀ a ∈ ns.map Prod.fst, h'.cell a = h.cell a) :
    Chain h' p ns q := by
  induction ns generalizing p with
  | nil => exact hc
  | cons n ns ih =>
    obtain ⟨a, x⟩ := n
    obtain ⟨hp, next, ha, hrest⟩ := hc
    refine ⟨hp, next, ?_, ih hrest fun b hb => heq b (List.mem_cons_of_mem _ hb)⟩
    rw [heq a List.mem_cons_self, ha]

theorem Chain.live {h : Heap (Node α)} {p q : Option Nat} {ns : List (Nat × α)}
    (hc : Chain h p ns q) : ∀ n ∈ ns, ∃ next, h.cell n.1 = some ⟨n.2, next⟩ := by
  induction ns generalizing p with
  | nil => simp
  | cons m ns ih =>
    obtain ⟨a, x⟩ := m
    obtain ⟨_, next, ha, hrest⟩ := hc
    intro n hn
    rcases List.mem_cons.mp hn with rfl | hn
    · exact ⟨next, ha⟩
    · exact ih hrest n hn

theorem Chain.head_eq {h : Heap (Node α)} {p : Option Nat} {ns : List (Nat × α)}
    (hc : Chain h p ns none) : p = ns.head?.map Prod.fst := by
  cases ns with
  | nil => exact hc
  | cons n ns => exact hc.1

/-- Distinct live addresses are at most as many as there are addresses. -/
theorem Chain.length_le {h : Heap (Node α)} {p q : Option Nat} {ns : List (Nat × α)}
    (hc : Chain h p ns q) (hd : (ns.map Prod.fst).Nodup) : ns.length ≤ h.brk := by
  have hsub : ns.map Prod.fst ⊆ List.range h.brk := by
    intro a ha
    obtain ⟨n, hn, rfl⟩ := List.mem_map.mp ha
    obtain ⟨next, hcell⟩ := hc.live n hn
    exact List.mem_range.mpr (h.cell_lt _ _ hcell)
  have := (List.subperm_of_subset hd hsub).length_le
  simpa using this

/-! ## Represented lists -/

/-- The list on the heap visits the nodes `ns`. -/
structure Represents (l : Linked α) (lost : Bool) (ns : List (Nat × α)) : Prop where
  chain : Chain l.heap l.head ns none
  nodup : (ns.map Prod.fst).Nodup
  tail : l.tail = if lost then none else ns.getLast?.map Prod.fst

namespace Represents

variable {l : Linked α} {lost : Bool} {ns : List (Nat × α)}

theorem empty : Represents (Linked.empty : Linked α) false [] := ⟨rfl, by simp, rfl⟩

theorem length_le (hr : Represents l lost ns) : ns.length ≤ l.heap.brk :=
  hr.chain.length_le hr.nodup

theorem head_eq_none_iff (hr : Represents l lost ns) : l.head = none ↔ ns = [] := by
  rw [hr.chain.head_eq]
  simp

theorem tail_eq_none_iff (hr : Represents l false ns) : l.tail = none ↔ l.head = none := by
  have htail : l.tail = ns.getLast?.map Prod.fst := hr.tail
  rw [hr.head_eq_none_iff, htail, Option.map_eq_none_iff, List.getLast?_eq_none_iff]

/-- A list only depends on its own cells. -/
theorem congr (hr : Represents l lost ns) {heap : Heap (Node α)}
    (heq : ∀ a ∈ ns.map Prod.fst, heap.cell a = l.heap.cell a) :
    Represents { l with heap := heap } lost ns :=
  ⟨hr.chain.congr heq, hr.nodup, hr.tail⟩

/-- Reading the nodes off the heap gives the represented list. -/
theorem nodes_eq (hr : Represents l lost ns) : l.nodes = ns := by
  suffices h : ∀ fuel p ms, Chain l.heap p ms none → ms.length ≤ fuel →
      Linked.nodesFrom l.heap fuel p = ms from h _ _ _ hr.chain hr.length_le
  intro fuel p ms hc hle
  induction ms generalizing fuel p with
  | nil =>
    obtain rfl : p = none := hc
    cases fuel <;> rfl
  | cons m ms ih =>
    obtain ⟨a, x⟩ := m
    obtain ⟨rfl, next, ha, hrest⟩ := hc
    cases fuel with
    | zero => simp at hle
    | succ fuel =>
      rw [Linked.nodesFrom, ha]
      simp only
      rw [ih fuel next hrest (by simpa using hle)]

theorem toList_eq (hr : Represents l lost ns) : l.toList = ns.map Prod.snd := by
  rw [Linked.toList, hr.nodes_eq]

/-! ### Walking over a list -/

/-- The reading loop is a fold over the nodes. -/
theorem foldNodes_eq (hr : Represents l lost ns) (f : β → Nat × α → Except Stuck β) (b : β) :
    Linked.foldNodes f l.heap l.heap.brk l.head b = ns.foldlM f b := by
  suffices h : ∀ fuel p ms b, Chain l.heap p ms none → ms.length ≤ fuel →
      Linked.foldNodes f l.heap fuel p b = ms.foldlM f b from
    h _ _ _ _ hr.chain hr.length_le
  intro fuel p ms b hc hle
  induction ms generalizing fuel p b with
  | nil =>
    obtain rfl : p = none := hc
    cases fuel <;> rfl
  | cons m ms ih =>
    obtain ⟨a, x⟩ := m
    obtain ⟨rfl, next, ha, hrest⟩ := hc
    cases fuel with
    | zero => simp at hle
    | succ fuel =>
      simp only [Linked.foldNodes, Heap.read_ok.mpr ha, List.foldlM_cons, bind, Except.bind]
      cases f b (a, x) with
      | error e => rfl
      | ok b' => exact ih fuel next b' hrest (by simpa using hle)

/-- The writing loop changes every payload and nothing else. -/
theorem mapNodes_ok (hr : Represents l lost ns) (f : α → α) :
    ∃ heap, Linked.mapNodes f l.heap.brk l.heap l.head = .ok heap ∧
      Represents { l with heap := heap } lost (ns.map fun n => (n.1, f n.2)) := by
  suffices h : ∀ fuel heap p ms, Chain heap p ms none → (ms.map Prod.fst).Nodup →
      ms.length ≤ fuel → ∃ heap', Linked.mapNodes f fuel heap p = .ok heap' ∧
        Chain heap' p (ms.map fun n => (n.1, f n.2)) none ∧
        ∀ a, a ∉ ms.map Prod.fst → heap'.cell a = heap.cell a by
    obtain ⟨heap, hok, hchain, _⟩ := h _ _ _ _ hr.chain hr.nodup hr.length_le
    refine ⟨heap, hok, hchain, ?_, ?_⟩
    · simpa [List.map_map, Function.comp_def] using hr.nodup
    · simp [hr.tail, List.getLast?_map, Function.comp_def]
  intro fuel heap p ms hc hd hle
  induction ms generalizing fuel heap p with
  | nil =>
    obtain rfl : p = none := hc
    exact ⟨heap, by cases fuel <;> rfl, rfl, fun _ _ => rfl⟩
  | cons m ms ih =>
    obtain ⟨a, x⟩ := m
    obtain ⟨rfl, next, ha, hrest⟩ := hc
    simp only [List.map_cons, List.nodup_cons] at hd
    cases fuel with
    | zero => simp at hle
    | succ fuel =>
      obtain ⟨heap₁, hw, _, hcell⟩ := Heap.write_ok (x := ⟨f x, next⟩) ha
      have hrest₁ : Chain heap₁ next ms none := by
        apply hrest.congr
        intro b hb
        have hba : b ≠ a := fun hba => hd.1 (hba ▸ hb)
        simp [hcell, hba]
      obtain ⟨heap', hok, hchain, hframe⟩ := ih fuel heap₁ next hrest₁ hd.2 (by simpa using hle)
      refine ⟨heap', ?_, ⟨rfl, next, ?_, hchain⟩, ?_⟩
      · simp only [Linked.mapNodes, Heap.read_ok.mpr ha, bind, Except.bind, hw, hok]
      · rw [hframe a hd.1, hcell]
        simp
      · intro b hb
        simp only [List.map_cons, List.mem_cons, not_or] at hb
        rw [hframe b hb.2, hcell]
        simp [hb.1]

/-! ### Appending a node -/

/-- A lost tail pointer is followed as soon as there is a node before the new one. -/
theorem append_lost (hr : Represents l true ns) (hns : ns ≠ []) (x : α) (alloc : Option Nat) :
    l.append x alloc = .error .nullDereference := by
  obtain ⟨p, hp⟩ := Option.ne_none_iff_exists'.mp (mt hr.head_eq_none_iff.mp hns)
  have htail : l.tail = none := hr.tail
  simp only [Linked.append, hp, htail]

/-- A failed allocation leaves the nodes alone and loses the tail pointer. -/
theorem append_failed (hr : Represents l lost ns) (hl : lost = false ∨ ns = []) (x : α) :
    ∃ l', l.append x none = .ok l' ∧ Represents l' true ns := by
  rcases List.eq_nil_or_concat ns with rfl | ⟨pre, ⟨t, y⟩, rfl⟩
  · have hhead : l.head = none := hr.chain
    refine ⟨⟨l.heap, none, none⟩, ?_, rfl, by simp, rfl⟩
    simp only [Linked.append, hhead, Linked.createNode]
  · rw [List.concat_eq_append] at *
    obtain rfl : lost = false := by simpa using hl
    obtain ⟨r, hpre, rfl, next, ht, rfl⟩ := chain_append.mp hr.chain
    have htail : l.tail = some t := by simpa using hr.tail
    obtain ⟨p, hp⟩ : ∃ p, l.head = some p :=
      Option.ne_none_iff_exists'.mp (mt hr.head_eq_none_iff.mp (by simp))
    obtain ⟨heap, hw, _, hcell⟩ := Heap.write_ok (x := ⟨y, none⟩) ht
    have hsame : ∀ a, heap.cell a = l.heap.cell a := by
      intro a
      by_cases hat : a = t
      · rw [hat, hcell, Function.update_self, ht]
      · rw [hcell, Function.update_of_ne hat]
    refine ⟨⟨heap, l.head, none⟩, ?_, hr.chain.congr fun a _ => hsame a, hr.nodup, rfl⟩
    simp only [Linked.append, hp, htail, Linked.createNode, Heap.read_ok.mpr ht, bind,
      Except.bind, hw]

/-- A successful allocation appends one node at an address that was not live. -/
theorem append_ok (hr : Represents l lost ns) (hl : lost = false ∨ ns = []) (x : α)
    (choice : Nat) : ∃ l', l.append x (some choice) = .ok l' ∧
      Represents l' false (ns ++ [(l.heap.fresh choice, x)]) := by
  have hnew : l.heap.fresh choice ∉ ns.map Prod.fst := by
    intro hmem
    obtain ⟨n, hn, he⟩ := List.mem_map.mp hmem
    obtain ⟨next, hcell⟩ := hr.chain.live n hn
    rw [he, Heap.fresh_not_live] at hcell
    cases hcell
  have hd : ((ns ++ [(l.heap.fresh choice, x)]).map Prod.fst).Nodup := by
    simpa [List.nodup_append, hr.nodup] using fun a b hab he => hnew (by
      rw [← he]
      exact List.mem_map.mpr ⟨(a, b), hab, rfl⟩)
  have hnewcell : (l.heap.malloc choice ⟨x, none⟩).2.cell (l.heap.fresh choice) =
      some ⟨x, none⟩ := by simp
  have hold : ∀ a ∈ ns.map Prod.fst,
      (l.heap.malloc choice ⟨x, none⟩).2.cell a = l.heap.cell a := by
    intro a ha
    have hne : a ≠ l.heap.fresh choice := fun he => hnew (he ▸ ha)
    simp [hne]
  rcases List.eq_nil_or_concat ns with rfl | ⟨pre, ⟨t, y⟩, rfl⟩
  · have hhead : l.head = none := hr.chain
    refine ⟨_, by simp only [Linked.append, hhead, Linked.createNode]; rfl, ?_, hd, rfl⟩
    exact ⟨rfl, none, hnewcell, rfl⟩
  · rw [List.concat_eq_append] at *
    obtain rfl : lost = false := by simpa using hl
    obtain ⟨r, hpre, rfl, next, ht, rfl⟩ := chain_append.mp hr.chain
    have htail : l.tail = some t := by simpa using hr.tail
    obtain ⟨p, hp⟩ : ∃ p, l.head = some p :=
      Option.ne_none_iff_exists'.mp (mt hr.head_eq_none_iff.mp (by simp))
    have ht₁ : (l.heap.malloc choice ⟨x, none⟩).2.cell t = some ⟨y, none⟩ := by
      rw [hold t (by simp), ht]
    obtain ⟨heap, hw, _, hcell⟩ := Heap.write_ok (x := ⟨y, some (l.heap.fresh choice)⟩) ht₁
    have hte : t ≠ l.heap.fresh choice := fun he => hnew (by simp [← he])
    have hdt : t ∉ pre.map Prod.fst := by
      have hnd := hr.nodup
      rw [List.map_append, List.nodup_append] at hnd
      intro hmem
      exact hnd.2.2 t hmem t (by simp) rfl
    refine ⟨⟨heap, l.head, some (l.heap.fresh choice)⟩, ?_, ?_, hd, by simp⟩
    · simp only [Linked.append, hp, htail, Linked.createNode, Heap.malloc_fst,
        Heap.read_ok.mpr ht₁, bind, Except.bind, hw]
    · rw [List.append_assoc, chain_append]
      refine ⟨some t, hpre.congr fun a ha => ?_, rfl, some (l.heap.fresh choice), ?_,
        rfl, none, ?_, rfl⟩
      · have hat : a ≠ t := fun he => hdt (he ▸ ha)
        have hmem : a ∈ (pre ++ [(t, y)]).map Prod.fst := by
          rw [List.map_append]
          exact List.mem_append_left _ ha
        rw [hcell, Function.update_of_ne hat, hold a hmem]
      · rw [hcell, Function.update_self]
      · rw [hcell, Function.update_of_ne hte.symm, hnewcell]

/-- What an append does: it follows a lost tail pointer, or adds the node, unless the
allocation fails. -/
theorem append_cases (hr : Represents l lost ns) (x : α) (alloc : Option Nat) :
    (lost = true ∧ ns ≠ [] ∧ l.append x alloc = .error .nullDereference) ∨
      ∃ l' new, l.append x alloc = .ok l' ∧ Represents l' alloc.isNone (ns ++ new) ∧
        new.map Prod.snd = if alloc.isSome then [x] else [] := by
  by_cases hl : lost = false ∨ ns = []
  · refine Or.inr ?_
    cases alloc with
    | none =>
      obtain ⟨l', hok, hr'⟩ := hr.append_failed hl x
      exact ⟨l', [], hok, by simpa using hr', rfl⟩
    | some choice =>
      obtain ⟨l', hok, hr'⟩ := hr.append_ok hl x choice
      exact ⟨l', _, hok, hr', rfl⟩
  · rw [not_or, Bool.not_eq_false] at hl
    obtain ⟨rfl, hns⟩ := hl
    exact Or.inl ⟨rfl, hns, hr.append_lost hns x alloc⟩

/-! ### Unlinking a node -/

/-- The target node of an unlinking and its place in the list. -/
theorem target_cell {pre post : List (Nat × α)} {a : Nat} {x : α}
    (hr : Represents l lost (pre ++ (a, x) :: post)) :
    ∃ next, l.heap.cell a = some ⟨x, next⟩ ∧ Chain l.heap next post none ∧
      Chain l.heap l.head pre (some a) := by
  obtain ⟨r, hpre, rfl, next, ha, hpost⟩ := chain_append.mp hr.chain
  exact ⟨next, ha, hpost, hpre⟩

theorem target_not_mem {pre post : List (Nat × α)} {a : Nat} {x : α}
    (hr : Represents l lost (pre ++ (a, x) :: post)) :
    a ∉ pre.map Prod.fst ∧ a ∉ post.map Prod.fst ∧
      ((pre ++ post).map Prod.fst).Nodup := by
  have hd := hr.nodup
  simp only [List.map_append, List.map_cons, List.nodup_append, List.nodup_cons,
    List.mem_cons] at hd ⊢
  obtain ⟨hpre, ⟨ha, hpost⟩, hdisj⟩ := hd
  exact ⟨fun hmem => hdisj a hmem a (Or.inl rfl) rfl, ha, hpre, hpost,
    fun b hb c hc => hdisj b hb c (Or.inr hc)⟩

/-- The tail after an unlinking: the predecessor if the last node was taken. -/
theorem tail_unlink {pre post : List (Nat × α)} {a : Nat} {x : α}
    (hr : Represents l lost (pre ++ (a, x) :: post)) :
    (if l.tail = some a then pre.getLast?.map Prod.fst else l.tail) =
      if lost then none else (pre ++ post).getLast?.map Prod.fst := by
  cases lost with
  | true =>
    have htail : l.tail = none := hr.tail
    simp [htail]
  | false =>
    have htail : l.tail = ((a, x) :: post).getLast?.map Prod.fst := by
      rw [hr.tail, if_neg Bool.false_ne_true, List.getLast?_append]
      cases h : ((a, x) :: post).getLast? with
      | none => simp at h
      | some n => rfl
    rw [if_neg Bool.false_ne_true]
    rcases List.eq_nil_or_concat post with rfl | ⟨post', n, rfl⟩
    · simp [htail]
    · rw [List.concat_eq_append] at *
      have hne : n.1 ≠ a := by
        intro he
        have := (target_not_mem hr).2.1
        simp [he] at this
      have ht : l.tail = some n.1 := by
        rw [htail, ← List.cons_append, List.getLast?_append]
        simp
      rw [ht, if_neg (by simpa using hne), ← List.append_assoc, List.getLast?_append]
      simp

/-- Taking the first node out of the list. -/
theorem unlink_head {post : List (Nat × α)} {a : Nat} {x : α} {next : Option Nat}
    {heap : Heap (Node α)} (hr : Represents l lost ((a, x) :: post))
    (ha : l.heap.cell a = some ⟨x, next⟩)
    (hheap : ∀ b, b ≠ a → heap.cell b = l.heap.cell b) :
    Represents ⟨heap, next, if l.tail = some a then none else l.tail⟩ lost post := by
  have hr' : Represents l lost ([] ++ (a, x) :: post) := hr
  obtain ⟨next', ha', hpost, _⟩ := target_cell hr'
  obtain ⟨_, hnot, hd⟩ := target_not_mem hr'
  rw [ha'] at ha
  cases ha
  refine ⟨hpost.congr fun b hb => hheap b fun he => hnot (he ▸ hb), hd, ?_⟩
  exact tail_unlink hr'

/-- Taking a later node out of the list: its predecessor now points behind it. -/
theorem unlink_next {pre post : List (Nat × α)} {a b : Nat} {x y : α} {next : Option Nat}
    {heap : Heap (Node α)} (hr : Represents l lost (pre ++ (b, y) :: (a, x) :: post))
    (ha : l.heap.cell a = some ⟨x, next⟩) (hb : heap.cell b = some ⟨y, next⟩)
    (hheap : ∀ c, c ≠ a → c ≠ b → heap.cell c = l.heap.cell c) :
    Represents ⟨heap, l.head, if l.tail = some a then some b else l.tail⟩ lost
      (pre ++ (b, y) :: post) := by
  have hra : Represents l lost ((pre ++ [(b, y)]) ++ (a, x) :: post) := by simpa using hr
  obtain ⟨next', ha', hpost, _⟩ := target_cell hra
  obtain ⟨hnpre, hnpost, hd⟩ := target_not_mem hra
  obtain ⟨_, _, _, hpre⟩ := target_cell hr
  obtain ⟨hbpre, hbpost, _⟩ := target_not_mem hr
  rw [ha'] at ha
  cases ha
  simp only [List.map_append, List.map_cons, List.map_nil, List.mem_append, List.mem_cons,
    not_or] at hnpre hbpost
  refine ⟨?_, by simpa using hd, by simpa using tail_unlink hra⟩
  rw [chain_append]
  refine ⟨some b, hpre.congr ?_, rfl, next, hb, hpost.congr ?_⟩
  · intro c hc
    exact hheap c (fun he => hnpre.1 (he ▸ hc)) fun he => hbpre (he ▸ hc)
  · intro c hc
    exact hheap c (fun he => hnpost (he ▸ hc)) fun he => hbpost.2 (he ▸ hc)

/-- Unlinking and freeing the first node. -/
theorem free_head {post : List (Nat × α)} {a : Nat} {x : α}
    (hr : Represents l lost ((a, x) :: post)) :
    ∃ heap, l.head = some a ∧ l.heap.cell a = some ⟨x, post.head?.map Prod.fst⟩ ∧
      l.heap.free a = .ok heap ∧
      Represents ⟨heap, post.head?.map Prod.fst, if l.tail = some a then none else l.tail⟩
        lost post := by
  obtain ⟨hhead, next, ha, hpost⟩ := hr.chain
  obtain rfl := hpost.head_eq
  obtain ⟨heap, hfree, _, hcell⟩ := Heap.free_ok ha
  refine ⟨heap, hhead, ha, hfree, hr.unlink_head ha ?_⟩
  intro c hc
  rw [hcell, Function.update_of_ne hc]

/-- Unlinking and freeing a later node. -/
theorem free_next {pre post : List (Nat × α)} {a b : Nat} {x y : α}
    (hr : Represents l lost (pre ++ (b, y) :: (a, x) :: post)) :
    ∃ heap₁ heap, l.head ≠ some a ∧ l.heap.cell b = some ⟨y, some a⟩ ∧
      l.heap.cell a = some ⟨x, post.head?.map Prod.fst⟩ ∧
      l.heap.write b ⟨y, post.head?.map Prod.fst⟩ = .ok heap₁ ∧
      heap₁.cell a = some ⟨x, post.head?.map Prod.fst⟩ ∧ heap₁.free a = .ok heap ∧
      Represents ⟨heap, l.head, if l.tail = some a then some b else l.tail⟩ lost
        (pre ++ (b, y) :: post) := by
  have hra : Represents l lost ((pre ++ [(b, y)]) ++ (a, x) :: post) := by simpa using hr
  obtain ⟨next, ha, hpost, _⟩ := hra.target_cell
  obtain ⟨nextb, hb, hchain, _⟩ := hr.target_cell
  obtain rfl := hpost.head_eq
  obtain rfl : nextb = some a := hchain.1
  have hnot := hra.target_not_mem.1
  simp only [List.map_append, List.mem_append, not_or] at hnot
  have hab : b ≠ a := fun he => hnot.2 (by simp [he])
  have hhead : l.head ≠ some a := by
    rw [hr.chain.head_eq]
    cases pre with
    | nil => simpa using hab
    | cons k pre => simpa using fun he => hnot.1 (by simp [← he])
  obtain ⟨heap₁, hw, _, hcell₁⟩ :=
    Heap.write_ok (x := ⟨y, post.head?.map Prod.fst⟩) hb
  have ha₁ : heap₁.cell a = some ⟨x, post.head?.map Prod.fst⟩ := by
    rw [hcell₁, Function.update_of_ne hab.symm, ha]
  obtain ⟨heap, hfree, _, hcell⟩ := Heap.free_ok ha₁
  refine ⟨heap₁, heap, hhead, hb, ha, hw, ha₁, hfree,
    hr.unlink_next ha ?_ fun c hca hcb => ?_⟩
  · rw [hcell, Function.update_of_ne hab, hcell₁, Function.update_self]
  · rw [hcell, Function.update_of_ne hca, hcell₁, Function.update_of_ne hcb]

end Represents

end BallGame.Library
