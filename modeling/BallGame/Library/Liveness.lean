import BallGame.Library.LinkedList
import Mathlib.Data.Finset.Card

/-!
# What is live on a heap

The live addresses of a heap as a finite set, and what the operations on lists do to it. A list
that holds as many nodes as there are live addresses owns the whole heap, so nothing has leaked
(`Represents.live_iff`), and the loop that frees it leaves an empty heap (`freeNodes_all`). The
rules also say which cells an append and the freeing of a list leave alone.
-/

namespace BallGame.Library

variable {α β : Type}

namespace Heap

def live (h : Heap α) : Finset Nat := (Finset.range h.brk).filter fun a => (h.cell a).isSome

theorem mem_live {h : Heap α} {a : Nat} : a ∈ h.live ↔ h.cell a ≠ none := by
  rw [live, Finset.mem_filter, Finset.mem_range, Option.isSome_iff_ne_none]
  refine ⟨And.right, fun hne => ⟨?_, hne⟩⟩
  obtain ⟨x, hx⟩ := Option.ne_none_iff_exists'.mp hne
  exact h.cell_lt a x hx

theorem write_cell {h h' : Heap α} {p : Nat} {x : α} (hw : h.write p x = .ok h') :
    h.cell p ≠ none ∧ h'.cell = Function.update h.cell p (some x) := by
  unfold write at hw
  split at hw
  · rename_i y hp
    cases hw
    exact ⟨by rw [hp]; exact Option.some_ne_none y, rfl⟩
  · cases hw

theorem free_cell {h h' : Heap α} {p : Nat} (hf : h.free p = .ok h') :
    h.cell p ≠ none ∧ h'.cell = Function.update h.cell p none := by
  unfold free at hf
  split at hf
  · rename_i y hp
    cases hf
    exact ⟨by rw [hp]; exact Option.some_ne_none y, rfl⟩
  · cases hf

theorem live_write {h h' : Heap α} {p : Nat} {x : α} (hw : h.write p x = .ok h') :
    h'.live = h.live := by
  obtain ⟨hp, hcell⟩ := write_cell hw
  ext a
  rw [mem_live, mem_live, hcell]
  by_cases ha : a = p
  · simp [ha, hp]
  · rw [Function.update_of_ne ha]

theorem card_free {h h' : Heap α} {p : Nat} (hf : h.free p = .ok h') :
    h'.live.card + 1 = h.live.card := by
  obtain ⟨hp, hcell⟩ := free_cell hf
  have herase : h'.live = h.live.erase p := by
    ext a
    rw [mem_live, Finset.mem_erase, mem_live, hcell]
    by_cases ha : a = p
    · simp [ha]
    · simp [ha]
  rw [herase, Finset.card_erase_add_one (mem_live.mpr hp)]

theorem card_malloc (h : Heap α) (choice : Nat) (x : α) :
    (h.malloc choice x).2.live.card = h.live.card + 1 := by
  have hnew : h.fresh choice ∉ h.live := by
    rw [mem_live, h.fresh_not_live choice]
    simp
  have hinsert : (h.malloc choice x).2.live = insert (h.fresh choice) h.live := by
    ext a
    rw [mem_live, Finset.mem_insert, mem_live, malloc_cell]
    by_cases ha : a = h.fresh choice
    · simp [ha]
    · simp [ha]
  rw [hinsert, Finset.card_insert_of_notMem hnew]

end Heap

/-! ## Lists -/

namespace Linked

/-- An append allocates its node and nothing else. -/
theorem card_append {l l' : Linked α} {x : α} {alloc : Option Nat}
    (h : l.append x alloc = .ok l') :
    l'.heap.live.card = l.heap.live.card + if alloc.isSome then 1 else 0 := by
  have hnode : (createNode l.heap x alloc).2.live.card =
      l.heap.live.card + if alloc.isSome then 1 else 0 := by
    cases alloc with
    | none => rfl
    | some choice => exact Heap.card_malloc l.heap choice ⟨x, none⟩
  unfold append at h
  split at h
  · cases h
    exact hnode
  · split at h
    · cases h
    · obtain ⟨last, _, h⟩ := bind_ok.mp h
      obtain ⟨heap, hw, h⟩ := bind_ok.mp h
      cases h
      rw [← hnode, ← Heap.live_write hw]

theorem live_mapNodes {f : α → α} {fuel : Nat} {h h' : Heap (Node α)} {p : Option Nat}
    (hok : mapNodes f fuel h p = .ok h') : h'.live = h.live := by
  induction fuel generalizing h p with
  | zero =>
    cases p with
    | none =>
      cases hok
      rfl
    | some a => cases hok
  | succ fuel ih =>
    cases p with
    | none =>
      cases hok
      rfl
    | some a =>
      obtain ⟨node, _, hok⟩ := bind_ok.mp hok
      obtain ⟨heap, hw, hok⟩ := bind_ok.mp hok
      rw [ih hok, Heap.live_write hw]

/-- The loop `while (cur) { tmp = cur; cur = cur->next; free(tmp); }`. -/
def freeNodes : Nat → Heap (Node α) → Option Nat → Except Stuck (Heap (Node α))
  | _, h, none => .ok h
  | 0, _, some _ => .error .nontermination
  | fuel + 1, h, some p => do
    let node ← h.read p
    let h' ← h.free p
    freeNodes fuel h' node.next

end Linked

namespace Represents

variable {l : Linked α} {lost : Bool} {ns : List (Nat × α)}

theorem mem_live (hr : Represents l lost ns) {a : Nat} (ha : a ∈ ns.map Prod.fst) :
    a ∈ l.heap.live := by
  obtain ⟨n, hn, rfl⟩ := List.mem_map.mp ha
  obtain ⟨next, hcell⟩ := hr.chain.live n hn
  rw [Heap.mem_live, hcell]
  exact Option.some_ne_none _

/-- As many nodes as live addresses: nothing else is live. -/
theorem live_iff (hr : Represents l lost ns) (hcard : l.heap.live.card = ns.length) {a : Nat} :
    l.heap.cell a ≠ none ↔ a ∈ ns.map Prod.fst := by
  have hsub : (ns.map Prod.fst).toFinset ⊆ l.heap.live := by
    intro b hb
    exact hr.mem_live (List.mem_toFinset.mp hb)
  have heq := Finset.eq_of_subset_of_card_le hsub
    (by rw [List.toFinset_card_of_nodup hr.nodup, List.length_map, hcard])
  rw [← Heap.mem_live, ← heq, List.mem_toFinset]

/-- Freeing a list frees its nodes, each once, and leaves the rest of the heap alone. -/
theorem freeNodes_ok (hr : Represents l lost ns) {fuel : Nat} (hfuel : ns.length ≤ fuel) :
    ∃ heap, Linked.freeNodes fuel l.heap l.head = .ok heap ∧
      ∀ a, heap.cell a = if a ∈ ns.map Prod.fst then none else l.heap.cell a := by
  induction ns generalizing l fuel with
  | nil =>
    refine ⟨l.heap, ?_, fun a => by simp⟩
    rw [hr.head_eq_none_iff.mpr rfl]
    cases fuel <;> rfl
  | cons n ns ih =>
    obtain ⟨a, x⟩ := n
    obtain ⟨heap, hhead, hcell, hfree, hrest⟩ := hr.free_head
    cases fuel with
    | zero => simp at hfuel
    | succ fuel =>
      obtain ⟨heap', hloop, hcells⟩ := ih hrest (by simpa using hfuel)
      refine ⟨heap', ?_, ?_⟩
      · rw [hhead, Linked.freeNodes]
        simp only [Heap.read_ok.mpr hcell, hfree, bind, Except.bind]
        exact hloop
      · intro b
        have hb := hcells b
        rw [(Heap.free_cell hfree).2] at hb
        rw [hb, List.map_cons]
        by_cases hba : b = a
        · simp [hba]
        · rw [Function.update_of_ne hba]
          exact if_congr (by rw [List.mem_cons, or_iff_right hba]) rfl rfl

/-- A list that owns the heap leaves nothing behind. -/
theorem freeNodes_all (hr : Represents l lost ns) (hcard : l.heap.live.card = ns.length) :
    ∃ heap, Linked.freeNodes l.heap.brk l.heap l.head = .ok heap ∧ ∀ a, heap.cell a = none := by
  obtain ⟨heap, hfree, hcells⟩ := hr.freeNodes_ok hr.length_le
  refine ⟨heap, hfree, ?_⟩
  intro a
  rw [hcells a]
  split
  · rfl
  · rename_i hnot
    exact Classical.not_not.mp (mt (hr.live_iff hcard).mp hnot)

/-- An append changes the node it makes and the last one of the list. -/
theorem append_frame (hr : Represents l lost ns) {l' : Linked α} {x : α} {alloc : Option Nat}
    (h : l.append x alloc = .ok l') {a : Nat} (hnot : a ∉ ns.map Prod.fst)
    (hnew : ∀ choice, alloc = some choice → a ≠ l.heap.fresh choice) :
    l'.heap.cell a = l.heap.cell a := by
  have hold : (Linked.createNode l.heap x alloc).2.cell a = l.heap.cell a := by
    cases alloc with
    | none => rfl
    | some choice => exact Function.update_of_ne (hnew choice rfl) _ _
  unfold Linked.append at h
  split at h
  · cases h
    exact hold
  · split at h
    · cases h
    · rename_i t ht
      obtain ⟨last, _, h⟩ := bind_ok.mp h
      obtain ⟨heap, hw, h⟩ := bind_ok.mp h
      cases h
      have hat : a ≠ t := by
        rintro rfl
        have htail := ht.symm.trans hr.tail
        split at htail
        · cases htail
        · obtain ⟨n, hn, hnt⟩ := Option.map_eq_some_iff.mp htail.symm
          exact hnot (List.mem_map.mpr ⟨n, List.mem_of_getLast? hn, hnt⟩)
      rw [(Heap.write_cell hw).2, Function.update_of_ne hat, hold]

end Represents

/-! ## Lists that own their heap -/

/-- Every live address is a node of the list. -/
def Linked.Owned (l : Linked α) : Prop :=
  ∃ lost ns, Represents l lost ns ∧ l.heap.live.card = ns.length

namespace Linked.Owned

variable {l l' : Linked α}

theorem empty : (Linked.empty : Linked α).Owned := ⟨false, [], Represents.empty, rfl⟩

theorem live_iff (h : l.Owned) (a : Nat) :
    l.heap.cell a ≠ none ↔ a ∈ l.nodes.map Prod.fst := by
  obtain ⟨lost, ns, hr, hcard⟩ := h
  rw [hr.nodes_eq]
  exact hr.live_iff hcard

theorem freeNodes (h : l.Owned) :
    ∃ heap, Linked.freeNodes l.heap.brk l.heap l.head = .ok heap ∧ ∀ a, heap.cell a = none := by
  obtain ⟨lost, ns, hr, hcard⟩ := h
  exact hr.freeNodes_all hcard

/-- With its node or, if the allocation fails, without it. -/
theorem append (h : l.Owned) {x : α} {alloc : Option Nat} (hok : l.append x alloc = .ok l') :
    l'.Owned := by
  obtain ⟨lost, ns, hr, hcard⟩ := h
  have hlive := Linked.card_append hok
  rcases hr.append_cases x alloc with ⟨_, _, herror⟩ | ⟨l₁, new, hok₁, hr₁, hnew⟩
  · rw [herror] at hok
    cases hok
  · rw [hok₁] at hok
    cases hok
    refine ⟨alloc.isNone, ns ++ new, hr₁, ?_⟩
    have hlength := congrArg List.length hnew
    rw [List.length_map] at hlength
    rw [hlive, hcard, List.length_append, hlength]
    cases alloc with
    | none => rfl
    | some choice => rfl

theorem mapNodes (h : l.Owned) {f : α → α} {heap : Heap (Node α)}
    (hok : Linked.mapNodes f l.heap.brk l.heap l.head = .ok heap) :
    Linked.Owned { l with heap := heap } := by
  obtain ⟨lost, ns, hr, hcard⟩ := h
  obtain ⟨heap', hok', hrep⟩ := hr.mapNodes_ok f
  rw [hok'] at hok
  cases hok
  refine ⟨lost, _, hrep, ?_⟩
  rw [Linked.live_mapNodes hok', hcard, List.length_map]

end Linked.Owned

end BallGame.Library
