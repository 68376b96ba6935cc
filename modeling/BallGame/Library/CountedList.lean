import BallGame.Library.LinkedList

/-!
# Linked lists with a counter

A list is intact if head and tail pointer are right and a counter gives the number of its
nodes. An append whose allocation fails spoils two things at once: it loses the tail pointer,
and a caller that counts it all the same counts one node too many. `Misses l total k` says that
`k` nodes are counted and missing; a list has its tail pointer at least while none is.

* `Misses.append`: what an append does to the number of missing nodes;
* `Misses.intact_iff`: the list is intact exactly while no node is missing.
-/

namespace BallGame.Library

variable {α : Type}

/-- Following `next` from the head visits distinct live nodes and ends in NULL, the tail is the
last of them, and the counter is their number. -/
structure Intact (l : Linked α) (total : Int) : Prop where
  nodes : ∃ ns : List (Nat × α), Chain l.heap l.head ns none ∧ (ns.map Prod.fst).Nodup ∧
    l.tail = ns.getLast?.map Prod.fst ∧ total = ns.length
  tail_eq_none_iff : l.tail = none ↔ l.head = none

theorem intact_of_represents {l : Linked α} {total : Int} {ns : List (Nat × α)}
    (hr : Represents l false ns) (htotal : total = ns.length) : Intact l total :=
  ⟨⟨ns, hr.chain, hr.nodup, hr.tail, htotal⟩, hr.tail_eq_none_iff⟩

theorem Intact.represents {l : Linked α} {total : Int} (h : Intact l total) :
    Represents l false l.nodes ∧ total = l.nodes.length := by
  obtain ⟨⟨ns, hchain, hnodup, htail, htotal⟩, _⟩ := h
  have hr : Represents l false ns := ⟨hchain, hnodup, htail⟩
  rw [hr.nodes_eq]
  exact ⟨hr, htotal⟩

/-- The list lacks `missing` of the nodes that were counted. -/
def Misses (l : Linked α) (total : Int) (missing : Nat) : Prop :=
  ∃ lost ns, Represents l lost ns ∧ total = ns.length + missing ∧ (lost = true → 0 < missing)

/-- The failed ones of the `n` allocations from the `i`-th on. -/
def failures (alloc : Nat → Option Nat) (i n : Nat) : Nat :=
  (List.range' i n).countP fun j => alloc j = none

theorem failures_succ (alloc : Nat → Option Nat) (i n : Nat) :
    failures alloc i (n + 1) = (if alloc i = none then 1 else 0) + failures alloc (i + 1) n := by
  rw [failures, List.range'_succ, List.countP_cons, failures, Nat.add_comm]
  simp only [decide_eq_true_eq]

theorem failures_eq_zero_iff (alloc : Nat → Option Nat) (n : Nat) :
    failures alloc 0 n = 0 ↔ ∀ i < n, alloc i ≠ none := by
  rw [failures, List.countP_eq_zero]
  simp [List.mem_range'_1]

namespace Misses

variable {l : Linked α} {total : Int} {missing : Nat}

theorem empty : Misses (Linked.empty : Linked α) 0 0 :=
  ⟨false, [], Represents.empty, rfl, fun h => by cases h⟩

theorem intact_iff (h : Misses l total missing) : Intact l total ↔ missing = 0 := by
  obtain ⟨lost, ns, hr, htotal, hlost⟩ := h
  constructor
  · intro hintact
    obtain ⟨_, hcount⟩ := hintact.represents
    rw [hr.nodes_eq] at hcount
    omega
  · rintro rfl
    cases lost with
    | true => exact absurd (hlost rfl) (Nat.lt_irrefl 0)
    | false => exact intact_of_represents hr (by simpa using htotal)

/-- An append that ends adds a node or misses one more; one that follows a lost tail pointer
does not end. -/
theorem append (h : Misses l total missing) (x : α) (alloc : Option Nat) :
    Ends (fun l' => Misses l' (total + 1) (missing + if alloc = none then 1 else 0) ∧
        ∃ new, l'.nodes = l.nodes ++ new)
      (fun e => e = .nullDereference ∧ 0 < missing) (l.append x alloc) := by
  obtain ⟨lost, ns, hr, htotal, hlost⟩ := h
  rcases hr.append_cases x alloc with ⟨hl, _, herror⟩ | ⟨l', new, hok, hr', hnew⟩
  · rw [herror]
    exact Ends.error ⟨rfl, hlost hl⟩
  · rw [hok]
    have hlength := congrArg List.length hnew
    rw [List.length_map] at hlength
    refine Ends.ok ⟨⟨alloc.isNone, ns ++ new, hr', ?_, ?_⟩, new, ?_⟩
    · rw [List.length_append]
      cases alloc with
      | none =>
        have hnone : new.length = 0 := hlength
        simp only [if_true]
        omega
      | some choice =>
        have hsome : new.length = 1 := hlength
        simp only [reduceCtorEq, if_false]
        omega
    · intro hnone
      rw [if_pos (Option.isNone_iff_eq_none.mp hnone)]
      exact Nat.succ_pos missing
    · rw [hr'.nodes_eq, hr.nodes_eq]

end Misses

end BallGame.Library
