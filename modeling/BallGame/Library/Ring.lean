import Mathlib.Logic.Basic
import Mathlib.Data.Vector.Basic

/-!
# Ring buffers

A ring buffer keeps a queue in an array of `n` slots together with the index of its first
element, the index of the next free slot and the number of elements, so that an empty and a
full buffer differ in the count alone. `RingHolds` relates the four to the queue they stand
for; writing at the rear appends to the queue and stepping the front removes its head,
through every wrap of the two indices.
-/

namespace BallGame.Library

variable {α : Type} {n : Nat}

/-- The buffer with these indices and this count stands for the queue `xs`. -/
structure RingHolds (buf : Vector α n) (front rear : Nat) (count : Int) (xs : List α) :
    Prop where
  front_lt : front < n
  rear_eq : rear = (front + xs.length) % n
  count_eq : count = xs.length
  length_le : xs.length ≤ n
  slot : ∀ i (hi : i < xs.length), buf[(front + i) % n]? = some xs[i]

/-- The elements from the front on. -/
def ringContents (buf : Vector α n) (front : Nat) (count : Int) : List α :=
  (List.range count.toNat).filterMap fun i => buf[(front + i) % n]?

/-- Offsets up to a full turn wrap at most once. -/
theorem wrap_eq {a i : Nat} (ha : a < n) (hi : i ≤ n) :
    (a + i) % n = if a + i < n then a + i else a + i - n := by
  split
  · exact Nat.mod_eq_of_lt ‹_›
  · rw [Nat.mod_eq_sub_mod (by omega), Nat.mod_eq_of_lt (by omega)]

/-- Distinct offsets of less than a full turn lead to distinct slots. -/
theorem wrap_ne {a i j : Nat} (ha : a < n) (hij : i < j) (hj : j < n) :
    (a + i) % n ≠ (a + j) % n := by
  rw [wrap_eq ha (by omega), wrap_eq ha (by omega)]
  split <;> split <;> omega

/-- Stepping the front moves every offset down by one. -/
theorem wrap_succ (a i : Nat) : ((a + 1) % n + i) % n = (a + (i + 1)) % n := by
  rw [Nat.mod_add_mod]
  congr 1
  omega

namespace RingHolds

variable {buf : Vector α n} {front rear : Nat} {count : Int} {xs : List α}

theorem rear_lt (h : RingHolds buf front rear count xs) : rear < n := by
  rw [h.rear_eq]
  exact Nat.mod_lt _ (by have := h.front_lt; omega)

theorem empty (hn : 0 < n) (buf : Vector α n) : RingHolds buf 0 0 0 [] :=
  ⟨hn, by simp, by simp, by simp, fun i hi => by simp at hi⟩

theorem count_eq_zero (h : RingHolds buf front rear count xs) : count = 0 ↔ xs = [] := by
  rw [h.count_eq]
  simp

/-- The slot at the rear belongs to no element. -/
theorem store (h : RingHolds buf front rear count xs) (hlt : xs.length < n) (x : α) :
    RingHolds (buf.set rear x h.rear_lt) front rear count xs := by
  refine ⟨h.front_lt, h.rear_eq, h.count_eq, h.length_le, ?_⟩
  intro i hi
  have hne : rear ≠ (front + i) % n := by
    rw [h.rear_eq]
    exact (wrap_ne h.front_lt hi hlt).symm
  rw [Vector.getElem?_set_ne h.rear_lt hne, h.slot i hi]

/-- Stepping the rear appends what its slot holds. -/
theorem extend (h : RingHolds buf front rear count xs) (hlt : xs.length < n) {x : α}
    (hx : buf[rear]? = some x) :
    RingHolds buf front ((rear + 1) % n) (count + 1) (xs ++ [x]) := by
  refine ⟨h.front_lt, ?_, ?_, by rw [List.length_append]; exact hlt, ?_⟩
  · rw [h.rear_eq, Nat.mod_add_mod, List.length_append]
    rfl
  · rw [h.count_eq]
    simp
  · intro i hi
    have hle : i ≤ xs.length := by simpa [Nat.lt_succ_iff] using hi
    rcases Nat.lt_or_eq_of_le hle with hi' | rfl
    · rw [h.slot i hi', List.getElem_append_left hi']
    · rw [← h.rear_eq, hx]
      simp

/-- Writing the slot at the rear and stepping it appends to the queue. -/
theorem push (h : RingHolds buf front rear count xs) (hlt : xs.length < n) (x : α) :
    RingHolds (buf.set rear x h.rear_lt) front ((rear + 1) % n) (count + 1) (xs ++ [x]) := by
  apply (h.store hlt x).extend hlt
  exact Vector.getElem?_set_self h.rear_lt

/-- Stepping the front removes the head of the queue. -/
theorem pop {x : α} (h : RingHolds buf front rear count (x :: xs)) :
    buf[front]? = some x ∧ RingHolds buf ((front + 1) % n) rear (count - 1) xs := by
  have hn : 0 < n := by
    have := h.front_lt
    omega
  constructor
  · have h0 := h.slot 0 (by simp)
    rwa [Nat.add_zero, Nat.mod_eq_of_lt h.front_lt] at h0
  · refine ⟨Nat.mod_lt _ hn, ?_, ?_, ?_, ?_⟩
    · rw [wrap_succ, h.rear_eq]
      rfl
    · rw [h.count_eq, List.length_cons]
      omega
    · have := h.length_le
      simp only [List.length_cons] at this
      omega
    · intro i hi
      rw [wrap_succ, h.slot (i + 1) (by simpa using hi)]
      rfl

/-- Reading the slots gives the queue. -/
theorem contents_eq (h : RingHolds buf front rear count xs) :
    ringContents buf front count = xs := by
  induction xs generalizing front count with
  | nil =>
    obtain rfl : count = 0 := h.count_eq
    rfl
  | cons x xs ih =>
    obtain ⟨_, hpop⟩ := h.pop
    have hcount : count.toNat = (count - 1).toNat + 1 := by
      have := h.count_eq
      simp only [List.length_cons] at this
      omega
    have hshift : (fun i => buf[(front + i) % n]?) ∘ Nat.succ =
        fun i => buf[((front + 1) % n + i) % n]? := by
      ext i
      simp only [Function.comp_apply, wrap_succ]
    rw [ringContents, hcount, List.range_succ_eq_map, List.filterMap_cons, List.filterMap_map,
      hshift, h.slot 0 (by simp)]
    simp only [List.getElem_cons_zero, List.cons.injEq, true_and]
    exact ih hpop

end RingHolds

end BallGame.Library
