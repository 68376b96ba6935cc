import BallGame.Library.Liveness
import Mathlib.Data.List.Enum

/-!
# Copies of lists

The loop that copies a list node by node into a list of its own, while any of the allocations may
fail. A failure before the first node skips it; a failure behind a node loses the tail of the
copy, and the next append follows it. So the copy either holds the nodes whose allocations
succeeded, on new addresses and with the rest of the heap as it was, or the loop follows a NULL
pointer, and `Broken` says when (`Represents.copyNodes_ok`, `Represents.copyNodes_error`). `Beside`
says what else is on the heap of a list.
-/

namespace BallGame.Library

variable {α : Type}

namespace Linked

/-- The loop `while (cur) { append cur->data to the copy; cur = cur->next; }` from the `i`-th
allocation on. -/
def copyNodes (alloc : Nat → Option Nat) :
    Nat → Nat → Linked α → Option Nat → Except Stuck (Linked α)
  | _, _, copy, none => .ok copy
  | 0, _, _, some _ => .error .nontermination
  | fuel + 1, i, copy, some p => do
    let node ← copy.heap.read p
    let copy ← copy.append node.data (alloc i)
    let node ← copy.heap.read p
    copyNodes alloc fuel (i + 1) copy node.next

end Linked

/-- The elements whose allocations succeed, the first one being the `i`-th. -/
def placed (alloc : Nat → Option Nat) (i : Nat) (xs : List α) : List α :=
  ((xs.zipIdx i).filter fun x => (alloc x.2).isSome).map Prod.fst

theorem placed_cons (alloc : Nat → Option Nat) (i : Nat) (x : α) (xs : List α) :
    placed alloc i (x :: xs) =
      (if (alloc i).isSome then [x] else []) ++ placed alloc (i + 1) xs := by
  rw [placed, List.zipIdx_cons, List.filter_cons]
  by_cases h : (alloc i).isSome = true
  · rw [if_pos h, if_pos h]
    rfl
  · rw [if_neg h, if_neg h]
    rfl

theorem placed_all {alloc : Nat → Option Nat} (halloc : ∀ i, alloc i ≠ none) (i : Nat)
    (xs : List α) : placed alloc i xs = xs := by
  induction xs generalizing i with
  | nil => rfl
  | cons x xs ih =>
    rw [placed_cons, ih, if_pos (Option.isSome_iff_ne_none.mpr (halloc i))]
    rfl

/-- One of `n` allocations fails behind one that succeeded, and it is not the last one. -/
def Broken (alloc : Nat → Option Nat) (i n : Nat) : Prop :=
  ∃ j k, i ≤ j ∧ j < k ∧ k + 1 < i + n ∧ alloc j ≠ none ∧ alloc k = none

/-- What stops a copy that has some nodes already, or has lost its tail. -/
def Stops (alloc : Nat → Option Nat) (lost : Bool) (started : Prop) (i n : Nat) : Prop :=
  started ∧ (lost = true ∧ 0 < n ∨ ∃ k, i ≤ k ∧ k + 1 < i + n ∧ alloc k = none) ∨
    Broken alloc i n

theorem stops_failed {alloc : Nat → Option Nat} {lost : Bool} {started : Prop} {i n : Nat}
    (hi : alloc i = none) (hl : ¬ (lost = true ∧ started)) :
    Stops alloc lost started i (n + 1) ↔ Stops alloc true started (i + 1) n := by
  constructor
  · rintro (⟨hs, ⟨hlost, _⟩ | ⟨k, hik, hk, hnone⟩⟩ | ⟨j, k, hij, hjk, hk, hj, hnone⟩)
    · exact absurd ⟨hlost, hs⟩ hl
    · by_cases he : k = i
      · exact Or.inl ⟨hs, Or.inl ⟨rfl, by omega⟩⟩
      · exact Or.inl ⟨hs, Or.inr ⟨k, by omega, by omega, hnone⟩⟩
    · have hne : j ≠ i := fun he => hj (he ▸ hi)
      exact Or.inr ⟨j, k, by omega, hjk, by omega, hj, hnone⟩
  · rintro (⟨hs, ⟨_, hpos⟩ | ⟨k, hik, hk, hnone⟩⟩ | ⟨j, k, hij, hjk, hk, hj, hnone⟩)
    · exact Or.inl ⟨hs, Or.inr ⟨i, le_rfl, by omega, hi⟩⟩
    · exact Or.inl ⟨hs, Or.inr ⟨k, by omega, by omega, hnone⟩⟩
    · exact Or.inr ⟨j, k, by omega, hjk, by omega, hj, hnone⟩

theorem stops_allocated {alloc : Nat → Option Nat} {lost : Bool} {started : Prop} {i n : Nat}
    (hi : alloc i ≠ none) (hl : ¬ (lost = true ∧ started)) :
    Stops alloc lost started i (n + 1) ↔ Stops alloc false True (i + 1) n := by
  constructor
  · rintro (⟨hs, ⟨hlost, _⟩ | ⟨k, hik, hk, hnone⟩⟩ | ⟨j, k, hij, hjk, hk, hj, hnone⟩)
    · exact absurd ⟨hlost, hs⟩ hl
    · have hne : k ≠ i := fun he => hi (he ▸ hnone)
      exact Or.inl ⟨trivial, Or.inr ⟨k, by omega, by omega, hnone⟩⟩
    · exact Or.inl ⟨trivial, Or.inr ⟨k, by omega, by omega, hnone⟩⟩
  · rintro (⟨_, ⟨hlost, _⟩ | ⟨k, hik, hk, hnone⟩⟩ | ⟨j, k, hij, hjk, hk, hj, hnone⟩)
    · cases hlost
    · exact Or.inr ⟨i, k, le_rfl, by omega, by omega, hi, hnone⟩
    · exact Or.inr ⟨j, k, by omega, hjk, by omega, hj, hnone⟩

/-! ## A list beside other cells -/

/-- The heap holds the nodes of a list and, on other addresses, the cells `rest`. -/
structure Beside (rest : Nat → Option (Node α)) (heap : Heap (Node α))
    (ns : List (Nat × α)) : Prop where
  apart : ∀ a ∈ ns.map Prod.fst, rest a = none
  frame : ∀ a, a ∉ ns.map Prod.fst → heap.cell a = rest a

theorem Beside.start (heap : Heap (Node α)) : Beside heap.cell heap [] :=
  ⟨List.forall_mem_nil _, fun _ _ => rfl⟩

theorem Beside.not_mem {rest : Nat → Option (Node α)} {heap : Heap (Node α)}
    {ns : List (Nat × α)} (h : Beside rest heap ns) {a : Nat} (ha : rest a ≠ none) :
    a ∉ ns.map Prod.fst := fun hmem => ha (h.apart a hmem)

/-- The other cells are on the heap. -/
theorem Beside.cell {rest : Nat → Option (Node α)} {heap : Heap (Node α)} {ns : List (Nat × α)}
    (h : Beside rest heap ns) {a : Nat} {x : Node α} (ha : rest a = some x) :
    heap.cell a = some x := by
  rw [h.frame a (h.not_mem (by rw [ha]; exact Option.some_ne_none x)), ha]

/-- The nodes an append adds. -/
def Linked.added (l : Linked α) (x : α) : Option Nat → List (Nat × α)
  | none => []
  | some choice => [(l.heap.fresh choice, x)]

theorem Linked.map_snd_added (l : Linked α) (x : α) (alloc : Option Nat) :
    (l.added x alloc).map Prod.snd = if alloc.isSome then [x] else [] := by
  cases alloc with
  | none => rfl
  | some choice => rfl

theorem Represents.append_added {l : Linked α} {lost : Bool} {ns : List (Nat × α)}
    (hr : Represents l lost ns) (hl : lost = false ∨ ns = []) (x : α) (alloc : Option Nat) :
    ∃ l', l.append x alloc = .ok l' ∧ Represents l' alloc.isNone (ns ++ l.added x alloc) := by
  cases alloc with
  | none =>
    rw [Linked.added, List.append_nil]
    exact hr.append_failed hl x
  | some choice => exact hr.append_ok hl x choice

/-- An append puts its node beside the other cells too. -/
theorem Beside.append {rest : Nat → Option (Node α)} {l l' : Linked α} {lost : Bool}
    {ns : List (Nat × α)} (h : Beside rest l.heap ns) (hr : Represents l lost ns) {x : α}
    {alloc : Option Nat} (hok : l.append x alloc = .ok l') :
    Beside rest l'.heap (ns ++ l.added x alloc) := by
  cases alloc with
  | none =>
    rw [Linked.added, List.append_nil]
    refine ⟨h.apart, ?_⟩
    intro a ha
    rw [hr.append_frame hok ha (fun _ he => nomatch he), h.frame a ha]
  | some choice =>
    have hfresh : l.heap.fresh choice ∉ ns.map Prod.fst := by
      intro hmem
      have hlive := hr.mem_live hmem
      rw [Heap.mem_live, Heap.fresh_not_live] at hlive
      exact hlive rfl
    have haddresses : (ns ++ l.added x (some choice)).map Prod.fst =
        ns.map Prod.fst ++ [l.heap.fresh choice] := List.map_append
    constructor
    · intro a ha
      rw [haddresses, List.mem_append, List.mem_singleton] at ha
      rcases ha with hold | rfl
      · exact h.apart a hold
      · rw [← h.frame _ hfresh, Heap.fresh_not_live]
    · intro a ha
      rw [haddresses, List.mem_append, List.mem_singleton, not_or] at ha
      rw [hr.append_frame hok ha.1 ?_, h.frame a ha.1]
      intro choice' he
      cases he
      exact ha.2

/-- Freeing the list leaves the other cells. -/
theorem Beside.free {rest : Nat → Option (Node α)} {l : Linked α} {lost : Bool}
    {ns : List (Nat × α)} (h : Beside rest l.heap ns) (hr : Represents l lost ns) {fuel : Nat}
    (hfuel : ns.length ≤ fuel) :
    ∃ heap, Linked.freeNodes fuel l.heap l.head = .ok heap ∧ heap.cell = rest := by
  obtain ⟨heap, hfree, hcells⟩ := hr.freeNodes_ok hfuel
  refine ⟨heap, hfree, ?_⟩
  funext a
  rw [hcells a]
  split
  · rename_i hmem
    exact (h.apart a hmem).symm
  · rename_i hnot
    exact h.frame a hnot

/-- The list shares its heap with the cells `rest`. -/
def Linked.Shares (rest : Nat → Option (Node α)) (l : Linked α) : Prop :=
  ∃ lost ns, Represents l lost ns ∧ Beside rest l.heap ns

theorem Linked.Shares.append {rest : Nat → Option (Node α)} {l l' : Linked α}
    (h : l.Shares rest) {x : α} {alloc : Option Nat} (hok : l.append x alloc = .ok l') :
    l'.Shares rest := by
  obtain ⟨lost, ns, hr, hbeside⟩ := h
  by_cases hl : lost = true ∧ ns ≠ []
  · obtain ⟨rfl, hne⟩ := hl
    rw [hr.append_lost hne] at hok
    cases hok
  · rw [not_and_or, Bool.not_eq_true, not_not] at hl
    obtain ⟨l₁, hl₁, hr₁⟩ := hr.append_added hl x alloc
    rw [hl₁] at hok
    cases hok
    exact ⟨_, _, hr₁, hbeside.append hr hl₁⟩

/-! ## The copy -/

/-- The rest of a copy: it holds what was allocated in addition, unless it stops. -/
theorem copyNodes_cases {orig : Heap (Node α)} {alloc : Nat → Option Nat} {fuel i : Nat}
    {copy : Linked α} {lost : Bool} {copied ms : List (Nat × α)} {p : Option Nat}
    (hr : Represents copy lost copied) (hbeside : Beside orig.cell copy.heap copied)
    (hchain : Chain orig p ms none) (hfuel : ms.length ≤ fuel) :
    Stops alloc lost (copied ≠ []) i ms.length ∧
        Linked.copyNodes alloc fuel i copy p = .error .nullDereference ∨
      ¬ Stops alloc lost (copied ≠ []) i ms.length ∧
        ∃ copy' lost' copied', Linked.copyNodes alloc fuel i copy p = .ok copy' ∧
          Represents copy' lost' copied' ∧ Beside orig.cell copy'.heap copied' ∧
          copied'.map Prod.snd = copied.map Prod.snd ++ placed alloc i (ms.map Prod.snd) := by
  induction ms generalizing fuel i copy lost copied p with
  | nil =>
    obtain rfl : p = none := hchain
    refine Or.inr ⟨?_, copy, lost, copied, ?_, hr, hbeside, by simp [placed]⟩
    · rintro (⟨_, ⟨_, hpos⟩ | ⟨k, hik, hk, _⟩⟩ | ⟨j, k, hij, hjk, hk, _⟩)
      · exact absurd hpos (by simp)
      · simp at hk
        omega
      · simp at hk
        omega
    · cases fuel <;> rfl
  | cons m ms ih =>
    obtain ⟨a, x⟩ := m
    obtain ⟨rfl, next, ha, hrest⟩ := hchain
    cases fuel with
    | zero => simp at hfuel
    | succ fuel =>
      have hread := Heap.read_ok.mpr (hbeside.cell ha)
      by_cases hl : lost = true ∧ copied ≠ []
      · -- the tail was lost behind a node
        obtain ⟨rfl, hne⟩ := hl
        refine Or.inl ⟨Or.inl ⟨hne, Or.inl ⟨rfl, Nat.succ_pos _⟩⟩, ?_⟩
        simp only [Linked.copyNodes, hread, hr.append_lost hne, bind, Except.bind]
      · have hl' : lost = false ∨ copied = [] := by
          rw [not_and_or, Bool.not_eq_true, not_not] at hl
          exact hl
        obtain ⟨copy', hok, hr'⟩ := hr.append_added hl' x (alloc i)
        have hbeside' := hbeside.append hr hok
        have hread' := Heap.read_ok.mpr (hbeside'.cell ha)
        have hloop : Linked.copyNodes alloc (fuel + 1) i copy (some a) =
            Linked.copyNodes alloc fuel (i + 1) copy' next := by
          simp only [Linked.copyNodes, hread, hok, hread', bind, Except.bind]
        have hstops : Stops alloc lost (copied ≠ []) i (ms.length + 1) ↔
            Stops alloc (alloc i).isNone (copied ++ copy.added x (alloc i) ≠ []) (i + 1)
              ms.length := by
          cases hi : alloc i with
          | none =>
            rw [stops_failed hi hl, Linked.added, List.append_nil]
            rfl
          | some choice =>
            have hne : copied ++ copy.added x (some choice) ≠ [] :=
              List.append_ne_nil_of_right_ne_nil _ (List.cons_ne_nil _ _)
            rw [stops_allocated (by rw [hi]; exact Option.some_ne_none choice) hl,
              eq_true hne]
            rfl
        rw [List.length_cons, hstops, hloop]
        rcases ih hr' hbeside' hrest (by simpa using hfuel) with
          hstop | ⟨hstop, copy'', lost', copied', hok', hr'', hbeside'', hcopied⟩
        · exact Or.inl hstop
        · refine Or.inr ⟨hstop, copy'', lost', copied', hok', hr'', hbeside'', ?_⟩
          rw [hcopied, List.map_append, Linked.map_snd_added, List.map_cons, placed_cons,
            List.append_assoc]

namespace Represents

variable {l : Linked α} {lost : Bool} {ns : List (Nat × α)}

/-- A list without nodes on any heap. -/
theorem start (heap : Heap (Node α)) : Represents ⟨heap, none, none⟩ false [] :=
  ⟨rfl, List.nodup_nil, rfl⟩

/-- A copy from the beginning stops only if it is broken. -/
theorem stops_start {alloc : Nat → Option Nat} {n : Nat} :
    Stops alloc false (([] : List (Nat × α)) ≠ []) 0 n ↔ Broken alloc 0 n := by
  constructor
  · rintro (⟨hne, _⟩ | hbroken)
    · exact absurd rfl hne
    · exact hbroken
  · exact Or.inr

theorem copyNodes_error (hr : Represents l lost ns) {alloc : Nat → Option Nat}
    (h : Broken alloc 0 ns.length) :
    Linked.copyNodes alloc l.heap.brk 0 ⟨l.heap, none, none⟩ l.head = .error .nullDereference := by
  rcases copyNodes_cases (start l.heap) (Beside.start l.heap) hr.chain hr.length_le with
    ⟨_, herror⟩ | ⟨hstop, _⟩
  · exact herror
  · exact absurd (stops_start.mpr h) hstop

theorem copyNodes_ok (hr : Represents l lost ns) {alloc : Nat → Option Nat}
    (h : ¬ Broken alloc 0 ns.length) :
    ∃ copy lost' copied,
      Linked.copyNodes alloc l.heap.brk 0 ⟨l.heap, none, none⟩ l.head = .ok copy ∧
        Represents copy lost' copied ∧ Beside l.heap.cell copy.heap copied ∧
        copied.map Prod.snd = placed alloc 0 (ns.map Prod.snd) := by
  rcases copyNodes_cases (start l.heap) (Beside.start l.heap) hr.chain hr.length_le with
    ⟨hstop, _⟩ | ⟨_, copy, lost', copied, hok, hr', hbeside, hcopied⟩
  · exact absurd (stops_start.mp hstop) h
  · exact ⟨copy, lost', copied, hok, hr', hbeside, hcopied⟩

end Represents

end BallGame.Library
