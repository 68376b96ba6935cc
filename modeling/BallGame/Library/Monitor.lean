import BallGame.Library.Memory
import Mathlib.Algebra.BigOperators.Fin
import Mathlib.Algebra.Order.BigOperators.Group.Finset
import Mathlib.Data.Fintype.BigOperators

/-!
# Monitors

A mutex with one condition variable. `signal` wakes an arbitrary sleeper, if there is one, a
sleeper may also wake by itself, and a thread that was woken goes on when it gets the mutex.
Nothing here stops a thread from unlocking a mutex it does not hold.

A program that uses the monitor correctly knows for each of its places whether a thread there
holds the mutex or waits. `Exclusive` and `Tracks` say that the monitor agrees; they are kept
by every operation that is called at a place of the right kind. `number` counts the threads of
a family that sleep or were woken.
-/

namespace BallGame.Library

variable {T : Type}

/-! ## Operations -/

inductive Waiting where
  | no
  | asleep
  | woken
  deriving DecidableEq

structure Monitor (T : Type) where
  holder : Option T
  waiting : T → Waiting

namespace Monitor

/-- Nobody holds the mutex, and nobody waits. -/
def free : Monitor T := ⟨none, fun _ => .no⟩

def unlock (m : Monitor T) : Monitor T := { m with holder := none }

def lock (m : Monitor T) (t : T) : Except Stuck (Monitor T) :=
  if m.holder = none then .ok { m with holder := some t } else .error .blocked

/-- Release the mutex and sleep, in one step. -/
def wait [DecidableEq T] (m : Monitor T) (t : T) : Monitor T :=
  ⟨none, Function.update m.waiting t .asleep⟩

/-- Return from the wait with the mutex. -/
def reenter [DecidableEq T] (m : Monitor T) (t : T) : Except Stuck (Monitor T) :=
  if m.waiting t = .woken ∧ m.holder = none then
    .ok ⟨some t, Function.update m.waiting t .no⟩
  else
    .error .blocked

def wake [DecidableEq T] (m : Monitor T) (t : T) : Monitor T :=
  { m with waiting := Function.update m.waiting t .woken }

/-- A sleeper wakes by itself. -/
def spurious [DecidableEq T] (m : Monitor T) (t : T) : Except Stuck (Monitor T) :=
  if m.waiting t = .asleep then .ok (m.wake t) else .error .blocked

/-- `choice` is the sleeper that is woken; there is none only if nobody sleeps. -/
def signal [DecidableEq T] [Fintype T] (m : Monitor T) : Option T → Except Stuck (Monitor T)
  | some t => m.spurious t
  | none => if ∀ t, m.waiting t ≠ .asleep then .ok m else .error .blocked

def broadcast (m : Monitor T) : Monitor T :=
  { m with waiting := fun t => if m.waiting t = .asleep then .woken else m.waiting t }

/-! ### When the operations succeed -/

theorem lock_ok {m m' : Monitor T} {t : T} :
    m.lock t = .ok m' ↔ m.holder = none ∧ m' = { m with holder := some t } := by
  unfold lock
  split
  · rename_i h
    simp [h, eq_comm]
  · rename_i h
    simp [h]

theorem reenter_ok [DecidableEq T] {m m' : Monitor T} {t : T} :
    m.reenter t = .ok m' ↔ (m.waiting t = .woken ∧ m.holder = none) ∧
      m' = ⟨some t, Function.update m.waiting t .no⟩ := by
  unfold reenter
  split
  · rename_i h
    simp [h, eq_comm]
  · rename_i h
    simp [h]

theorem spurious_ok [DecidableEq T] {m m' : Monitor T} {t : T} :
    m.spurious t = .ok m' ↔ m.waiting t = .asleep ∧ m' = m.wake t := by
  unfold spurious
  split
  · rename_i h
    simp [h, eq_comm]
  · rename_i h
    simp [h]

/-- A signal wakes a sleeper, or nobody sleeps. -/
theorem signal_ok [DecidableEq T] [Fintype T] {m m' : Monitor T} {choice : Option T}
    (h : m.signal choice = .ok m') :
    (∃ t, m.waiting t = .asleep ∧ m' = m.wake t) ∨ ((∀ t, m.waiting t ≠ .asleep) ∧ m' = m) := by
  cases choice with
  | some t => exact Or.inl ⟨t, spurious_ok.mp h⟩
  | none =>
    simp only [signal] at h
    split at h
    · cases h
      exact Or.inr ⟨‹_›, rfl⟩
    · cases h

theorem signal_holder [DecidableEq T] [Fintype T] {m m' : Monitor T} {choice : Option T}
    (h : m.signal choice = .ok m') : m'.holder = m.holder := by
  rcases signal_ok h with ⟨t, _, rfl⟩ | ⟨_, rfl⟩
  · rfl
  · rfl

theorem exists_signal [DecidableEq T] [Fintype T] (m : Monitor T) :
    ∃ choice m', m.signal choice = .ok m' := by
  by_cases h : ∀ t, m.waiting t ≠ .asleep
  · exact ⟨none, m, if_pos h⟩
  · obtain ⟨t, ht⟩ := not_forall.mp h
    exact ⟨some t, m.wake t, spurious_ok.mpr ⟨Classical.not_not.mp ht, rfl⟩⟩

/-! ### An operation that does not succeed waits -/

theorem lock_waits (m : Monitor T) (t : T) :
    Ends (fun _ => True) (fun e => e = Stuck.blocked) (m.lock t) := by
  unfold lock
  split
  · exact Ends.ok trivial
  · exact Ends.error rfl

theorem reenter_waits [DecidableEq T] (m : Monitor T) (t : T) :
    Ends (fun _ => True) (fun e => e = Stuck.blocked) (m.reenter t) := by
  unfold reenter
  split
  · exact Ends.ok trivial
  · exact Ends.error rfl

theorem spurious_waits [DecidableEq T] (m : Monitor T) (t : T) :
    Ends (fun _ => True) (fun e => e = Stuck.blocked) (m.spurious t) := by
  unfold spurious
  split
  · exact Ends.ok trivial
  · exact Ends.error rfl

theorem signal_waits [DecidableEq T] [Fintype T] (m : Monitor T) (choice : Option T) :
    Ends (fun _ => True) (fun e => e = Stuck.blocked) (m.signal choice) := by
  cases choice with
  | some t => exact spurious_waits m t
  | none =>
    simp only [signal]
    split
    · exact Ends.ok trivial
    · exact Ends.error rfl

/-! ## Agreement with the places of a program -/

/-- What a place means for the thread that is there. -/
inductive Status where
  | outside
  | inside
  | waiting
  deriving DecidableEq

/-- The threads inside are the one that holds the mutex. -/
def Exclusive (m : Monitor T) (status : T → Status) : Prop :=
  ∀ t, m.holder = some t ↔ status t = .inside

/-- The threads that wait are at a place where they wait. -/
def Tracks (m : Monitor T) (status : T → Status) : Prop :=
  ∀ t, m.waiting t ≠ .no ↔ status t = .waiting

theorem Exclusive.free_of_none {m : Monitor T} {status : T → Status} (h : m.Exclusive status)
    (hm : m.holder = none) (t : T) : status t ≠ .inside := by
  intro ht
  rw [← h t, hm] at ht
  cases ht

variable {m m' : Monitor T} {status : T → Status} {t : T}

/-- A thread that is inside finds nobody else there. -/
theorem Exclusive.other (h : m.Exclusive status) (ht : status t = .inside) {u : T} (hu : u ≠ t) :
    status u ≠ .inside := by
  intro hin
  have h₁ := (h t).mpr ht
  have h₂ := (h u).mpr hin
  rw [h₁] at h₂
  exact hu (Option.some.inj h₂).symm

theorem Exclusive.lock [DecidableEq T] (h : m.Exclusive status) (hm : m.lock t = .ok m') :
    m'.Exclusive (Function.update status t .inside) := by
  obtain ⟨hfree, rfl⟩ := lock_ok.mp hm
  intro u
  by_cases hu : u = t
  · subst hu
    simp
  · rw [Function.update_of_ne hu]
    have hout := h.free_of_none hfree u
    simp [hout, Ne.symm hu]

/-- Leaving by any operation that releases the mutex. -/
theorem Exclusive.release [DecidableEq T] (h : m.Exclusive status) (ht : status t = .inside)
    {x : Status} (hx : x ≠ .inside) (hm : m'.holder = none) :
    m'.Exclusive (Function.update status t x) := by
  intro u
  rw [hm]
  by_cases hu : u = t
  · subst hu
    simp [hx]
  · rw [Function.update_of_ne hu]
    simp [h.other ht hu]

theorem Exclusive.reenter [DecidableEq T] (h : m.Exclusive status) (hm : m.reenter t = .ok m') :
    m'.Exclusive (Function.update status t .inside) := by
  obtain ⟨⟨_, hfree⟩, rfl⟩ := reenter_ok.mp hm
  intro u
  by_cases hu : u = t
  · subst hu
    simp
  · rw [Function.update_of_ne hu]
    have hout := h.free_of_none hfree u
    simp [hout, Ne.symm hu]

theorem Exclusive.congr (h : m.Exclusive status) (hm : m'.holder = m.holder) :
    m'.Exclusive status := by
  intro u
  rw [hm]
  exact h u

/-- Entering and leaving without waiting. -/
theorem Tracks.move [DecidableEq T] (h : m.Tracks status) (ht : status t ≠ .waiting) {x : Status}
    (hx : x ≠ .waiting) (hm : m'.waiting = m.waiting) :
    m'.Tracks (Function.update status t x) := by
  intro u
  rw [hm]
  by_cases hu : u = t
  · subst hu
    rw [Function.update_self, h u]
    simp [ht, hx]
  · rw [Function.update_of_ne hu, h u]

theorem Tracks.wait [DecidableEq T] (h : m.Tracks status) :
    (m.wait t).Tracks (Function.update status t .waiting) := by
  intro u
  by_cases hu : u = t
  · subst hu
    simp [Monitor.wait]
  · rw [Function.update_of_ne hu, ← h u]
    simp [Monitor.wait, Function.update_of_ne hu]

theorem Tracks.reenter [DecidableEq T] (h : m.Tracks status) (hm : m.reenter t = .ok m')
    {x : Status} (hx : x ≠ .waiting) : m'.Tracks (Function.update status t x) := by
  obtain ⟨_, rfl⟩ := reenter_ok.mp hm
  intro u
  by_cases hu : u = t
  · subst hu
    simp [hx]
  · rw [Function.update_of_ne hu, ← h u]
    simp [Function.update_of_ne hu]

theorem Tracks.wake [DecidableEq T] (h : m.Tracks status) (ht : m.waiting t = .asleep) :
    (m.wake t).Tracks status := by
  intro u
  by_cases hu : u = t
  · subst hu
    have hwait := h u
    rw [ht] at hwait
    simpa [Monitor.wake] using hwait
  · rw [← h u]
    simp [Monitor.wake, Function.update_of_ne hu]

theorem Tracks.broadcast (h : m.Tracks status) : m.broadcast.Tracks status := by
  intro u
  rw [← h u, Monitor.broadcast]
  by_cases hu : m.waiting u = .asleep
  · simp [hu]
  · simp [hu]

/-! ## Counting -/

/-- How many threads of the family `f` wait as `w` says. -/
def number {n : Nat} (f : Fin n → T) (w : Waiting) (waiting : T → Waiting) : Nat :=
  ∑ i, if waiting (f i) = w then 1 else 0

section

variable {n : Nat} {f : Fin n → T} {w : Waiting} {waiting : T → Waiting}

theorem number_update_of_ne [DecidableEq T] (ht : ∀ i, f i ≠ t) (x : Waiting) :
    number f w (Function.update waiting t x) = number f w waiting := by
  unfold number
  apply Finset.sum_congr rfl
  intro i _
  rw [Function.update_of_ne (ht i)]

/-- A change of one thread changes the number by one at most. -/
theorem number_update [DecidableEq T] (hf : Function.Injective f) (i : Fin n) (x : Waiting) :
    number f w (Function.update waiting (f i) x) + (if waiting (f i) = w then 1 else 0) =
      number f w waiting + if x = w then 1 else 0 := by
  unfold number
  rw [Fintype.sum_eq_add_sum_compl i,
    Fintype.sum_eq_add_sum_compl i (fun j => if waiting (f j) = w then 1 else 0)]
  have hrest : (∑ j ∈ {i}ᶜ, if Function.update waiting (f i) x (f j) = w then 1 else 0) =
      ∑ j ∈ {i}ᶜ, if waiting (f j) = w then 1 else 0 := by
    apply Finset.sum_congr rfl
    intro j hj
    have hne : f j ≠ f i := by
      intro he
      simp [hf he] at hj
    rw [Function.update_of_ne hne]
  rw [hrest, Function.update_self]
  omega

theorem number_pos_iff : 0 < number f w waiting ↔ ∃ i, waiting (f i) = w := by
  unfold number
  rw [Finset.sum_pos_iff]
  constructor
  · intro h
    obtain ⟨i, _, hi⟩ := h
    refine ⟨i, ?_⟩
    by_contra hne
    simp [hne] at hi
  · intro h
    obtain ⟨i, hi⟩ := h
    exact ⟨i, Finset.mem_univ i, by simp [hi]⟩

/-- A thread that does not wait is counted neither asleep nor woken. -/
theorem number_add_number_lt {i : Fin n} (hi : waiting (f i) = .no) :
    number f .asleep waiting + number f .woken waiting < n := by
  unfold number
  rw [← Finset.sum_add_distrib]
  calc (∑ j, ((if waiting (f j) = .asleep then 1 else 0) +
        if waiting (f j) = .woken then 1 else 0))
      < ∑ _j : Fin n, 1 := by
        apply Finset.sum_lt_sum
        · intro j _
          split
          · rename_i hj
            simp [hj]
          · split <;> omega
        · exact ⟨i, Finset.mem_univ i, by simp [hi]⟩
    _ = n := by simp

end

end Monitor

end BallGame.Library
