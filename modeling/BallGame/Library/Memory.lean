import BallGame.Library.Runs
import Mathlib.Logic.Function.Basic

/-!
# Machine integers and the heap

The two parts of the C machine the model needs. A computation ends with a value or is
`Stuck`: its thread has to wait, or it does something that C leaves undefined or that ends the
process, and that therefore has no next state. A heap is a finite set of live addresses with their
cells; an address that was freed is not live until `malloc` hands it out again.
-/

namespace BallGame.Library

/-- Why a step has no next state. -/
inductive Stuck where
  /-- The thread waits, or the step is not possible here. -/
  | blocked
  | nullDereference
  /-- An access to, or a second `free` of, an address that is not live. -/
  | danglingPointer
  | integerOverflow
  | divisionByZero
  | outOfBounds
  /-- A loop that visits more nodes than there are addresses. -/
  | nontermination
  /-- A signal ends the process. -/
  | killed
  deriving DecidableEq, Repr

/-! ## Machine integers -/

/-- The values of a 32-bit `int`. -/
def IsInt (n : Int) : Prop := -2147483648 ≤ n ∧ n ≤ 2147483647

instance (n : Int) : Decidable (IsInt n) := inferInstanceAs (Decidable (_ ∧ _))

/-- The result of a signed operation, which must fit an `int`. -/
def checkedInt (n : Int) : Except Stuck Int := if IsInt n then .ok n else .error .integerOverflow

theorem checkedInt_ok {n m : Int} : checkedInt n = .ok m ↔ IsInt n ∧ m = n := by
  unfold checkedInt
  split <;> simp_all [eq_comm]

theorem checkedInt_ends (n : Int) :
    Ends (fun m => IsInt n ∧ m = n) (fun e => e = .integerOverflow) (checkedInt n) := by
  unfold checkedInt
  split
  · exact Ends.ok ⟨‹_›, rfl⟩
  · exact Ends.error rfl

/-! ## The heap -/

/-- A heap of cells of type `α`. Every live address lies below `brk`. -/
structure Heap (α : Type) where
  cell : Nat → Option α
  brk : Nat
  cell_lt : ∀ p x, cell p = some x → p < brk

namespace Heap

variable {α : Type}

def empty : Heap α := ⟨fun _ => none, 0, fun _ _ h => by cases h⟩

def read (h : Heap α) (p : Nat) : Except Stuck α :=
  match h.cell p with
  | some x => .ok x
  | none => .error .danglingPointer

def write (h : Heap α) (p : Nat) (x : α) : Except Stuck (Heap α) :=
  match hp : h.cell p with
  | some y => .ok ⟨Function.update h.cell p (some x), h.brk, fun q z hq => by
      by_cases hqp : q = p
      · exact hqp ▸ h.cell_lt p y hp
      · exact h.cell_lt q z (by simpa [hqp] using hq)⟩
  | none => .error .danglingPointer

def free (h : Heap α) (p : Nat) : Except Stuck (Heap α) :=
  match h.cell p with
  | some _ => .ok ⟨Function.update h.cell p none, h.brk, fun q z hq => by
      by_cases hqp : q = p
      · simp [hqp] at hq
      · exact h.cell_lt q z (by simpa [hqp] using hq)⟩
  | none => .error .danglingPointer

/-- The address `malloc` returns: the one the allocator chooses, which is never live. -/
def fresh (h : Heap α) (choice : Nat) : Nat := if h.cell choice = none then choice else h.brk

theorem fresh_not_live (h : Heap α) (choice : Nat) : h.cell (h.fresh choice) = none := by
  unfold fresh
  split
  · assumption
  · cases hb : h.cell h.brk with
    | none => rfl
    | some x => exact absurd (h.cell_lt _ _ hb) (Nat.lt_irrefl _)

/-- Allocate a cell for `x`. -/
def malloc (h : Heap α) (choice : Nat) (x : α) : Nat × Heap α :=
  (h.fresh choice, ⟨Function.update h.cell (h.fresh choice) (some x),
    max h.brk (h.fresh choice + 1), fun q z hq => by
      by_cases hqp : q = h.fresh choice
      · omega
      · have := h.cell_lt q z (by simpa [hqp] using hq)
        omega⟩)

/-! ### What the operations do to the cells -/

theorem read_ok {h : Heap α} {p : Nat} {x : α} : h.read p = .ok x ↔ h.cell p = some x := by
  unfold read
  split <;> simp_all

theorem write_ok {h : Heap α} {p : Nat} {x y : α} (hp : h.cell p = some y) :
    ∃ h', h.write p x = .ok h' ∧ h'.brk = h.brk ∧ h'.cell = Function.update h.cell p (some x) := by
  unfold write
  split
  · exact ⟨_, rfl, rfl, rfl⟩
  · rename_i hn
    rw [hp] at hn
    cases hn

theorem free_ok {h : Heap α} {p : Nat} {y : α} (hp : h.cell p = some y) :
    ∃ h', h.free p = .ok h' ∧ h'.brk = h.brk ∧ h'.cell = Function.update h.cell p none := by
  unfold free
  split
  · exact ⟨_, rfl, rfl, rfl⟩
  · rename_i hn
    rw [hp] at hn
    cases hn

@[simp] theorem malloc_fst (h : Heap α) (choice : Nat) (x : α) :
    (h.malloc choice x).1 = h.fresh choice := rfl

@[simp] theorem malloc_cell (h : Heap α) (choice : Nat) (x : α) :
    (h.malloc choice x).2.cell = Function.update h.cell (h.fresh choice) (some x) := rfl

end Heap

end BallGame.Library
