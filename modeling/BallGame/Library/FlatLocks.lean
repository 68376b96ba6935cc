import Mathlib.Algebra.BigOperators.Group.Finset.Piecewise
import BallGame.Library.Locks

/-!
# Locks one at a time

If no thread takes a mutex before it has released the last one, then a thread that waits for a
mutex waits for one that can go on. A mutex that somebody else has released in between makes no
difference.

* `flatLocked_step`: every step keeps the invariant;
* `exists_advance`: while a thread is in a block, some thread can go on;
* `remaining_advances`: whatever the order, every step brings the blocks closer to their ends.
-/

namespace BallGame.Library

variable {T L R B : Type} [DecidableEq L]

/-- The code that is left, for a thread that has locked the mutexes `held`: it takes a mutex only
when it has none, and has none at the end. -/
def Flat : (L → Bool) → List (LockStatement L R) → Prop
  | held, [] => ∀ l, held l = false
  | held, .lock l :: c => (∀ m, held m = false) ∧ Flat (Function.update held l true) c
  | held, .unlock l :: c => Flat (Function.update held l false) c
  | held, .enter _ :: c => Flat held c
  | held, .leave :: c => Flat held c

structure LockState.FlatLocked (s : LockState T L R) : Prop where
  flat : ∀ t, Flat (s.critical t) (s.code t)
  holder : ∀ t l, s.holder l = some t → s.critical t l = true

theorem flatLocked_free : (LockState.free : LockState T L R).FlatLocked :=
  ⟨fun _ _ => rfl, fun _ _ h => nomatch h⟩

variable [DecidableEq T] {blocks : T → B → Option (List (LockStatement L R))}
  {s s' : LockState T L R}

/-- What a thread executes, and how the step changes what the invariant is about. -/
theorem flatLocked_move {t : T} {c : List (LockStatement L R)} {held : L → Bool}
    (h : s.FlatLocked) (hcode : s'.code = Function.update s.code t c)
    (hcritical : s'.critical = Function.update s.critical t held) (hflat : Flat held c)
    (hholder : ∀ u l, s'.holder l = some u → s'.critical u l = true) : s'.FlatLocked := by
  refine ⟨?_, hholder⟩
  intro u
  rw [hcode, hcritical]
  by_cases hu : u = t
  · subst hu
    rw [Function.update_self, Function.update_self]
    exact hflat
  · rw [Function.update_of_ne hu, Function.update_of_ne hu]
    exact h.flat u

/-- A thread takes a mutex, or releases one, its own or that of another thread. -/
theorem critical_of_holder (h : s.FlatLocked) {t u : T} {l m : L} (taken : Bool)
    (hm : Function.update s.holder l (if taken then some t else none) m = some u) :
    Function.update s.critical t (Function.update (s.critical t) l taken) u m = true := by
  by_cases hml : m = l
  · subst hml
    rw [Function.update_self] at hm
    cases taken with
    | true =>
      obtain rfl := Option.some.inj hm
      rw [Function.update_self, Function.update_self]
    | false => cases hm
  · rw [Function.update_of_ne hml] at hm
    have hold := h.holder u m hm
    by_cases hu : u = t
    · subst hu
      rwa [Function.update_self, Function.update_of_ne hml]
    · rwa [Function.update_of_ne hu]

theorem flatLocked_execute {t : T} {a : LockStatement L R} {c : List (LockStatement L R)}
    (h : s.FlatLocked) (hcode : s.code t = a :: c) (hstep : s.execute t c a = .ok s') :
    s'.FlatLocked := by
  have hflat := h.flat t
  rw [hcode] at hflat
  have hself : s.critical = Function.update s.critical t (s.critical t) :=
    (Function.update_eq_self t s.critical).symm
  cases a with
  | lock l =>
    simp only [LockState.execute] at hstep
    split at hstep
    · cases hstep
      exact flatLocked_move h rfl rfl hflat.2 fun _ _ hm => critical_of_holder h true hm
    · cases hstep
  | unlock l =>
    cases hstep
    exact flatLocked_move h rfl rfl hflat fun _ _ hm => critical_of_holder h false hm
  | enter r =>
    cases hstep
    exact flatLocked_move h rfl hself hflat h.holder
  | leave =>
    cases hstep
    exact flatLocked_move h rfl hself hflat h.holder

/-- The step lemma. -/
theorem flatLocked_step (hblocks : ∀ t b c, blocks t b = some c → Flat (fun _ => false) c)
    (h : s.FlatLocked) {l : LockLabel T B} (hstep : lockStep blocks s l = .ok s') :
    s'.FlatLocked := by
  cases l with
  | choose t b =>
    simp only [lockStep] at hstep
    split at hstep
    · rename_i c hcode hb
      cases hstep
      have hend := h.flat t
      rw [hcode] at hend
      have hcritical : s.critical t = fun _ => false := funext hend
      refine flatLocked_move h rfl (Function.update_eq_self t s.critical).symm ?_ h.holder
      rw [hcritical]
      exact hblocks t b c hb
    · cases hstep
  | advance t =>
    simp only [lockStep] at hstep
    split at hstep
    · cases hstep
    · rename_i a c hcode
      exact flatLocked_execute h hcode hstep

/-- A thread that does not lock can go on. -/
theorem advance_of_not_lock {t : T} {a : LockStatement L R} {c : List (LockStatement L R)}
    (hcode : s.code t = a :: c) (ha : ∀ l, a ≠ .lock l) :
    ∃ u, lockStep blocks s (.advance t) = .ok u := by
  simp only [lockStep, hcode]
  cases a with
  | lock l => exact absurd rfl (ha l)
  | unlock l => exact ⟨_, rfl⟩
  | enter r => exact ⟨_, rfl⟩
  | leave => exact ⟨_, rfl⟩

/-- A thread that has locked a mutex is in its block and does not lock another one. -/
theorem advance_of_critical (h : s.FlatLocked) {t : T} {l : L} (ht : s.critical t l = true) :
    ∃ u, lockStep blocks s (.advance t) = .ok u := by
  have hflat := h.flat t
  cases hcode : s.code t with
  | nil =>
    rw [hcode] at hflat
    have hnone : s.critical t l = false := hflat l
    rw [ht] at hnone
    cases hnone
  | cons a c =>
    apply advance_of_not_lock hcode
    rintro m rfl
    rw [hcode] at hflat
    have hnone : s.critical t l = false := hflat.1 l
    rw [ht] at hnone
    cases hnone

/-- **No deadlock.** While a thread is in a block, some thread can go on. -/
theorem exists_advance (h : s.FlatLocked) {t : T} (ht : s.code t ≠ []) :
    ∃ u s', lockStep blocks s (.advance u) = .ok s' := by
  obtain ⟨a, c, hcode⟩ := List.exists_cons_of_ne_nil ht
  by_cases hlock : ∃ l, a = .lock l
  · obtain ⟨l, rfl⟩ := hlock
    cases hholder : s.holder l with
    | none => exact ⟨t, _, by simp only [lockStep, hcode, LockState.execute, hholder]; rfl⟩
    | some u => exact ⟨u, advance_of_critical h (h.holder u l hholder)⟩
  · rw [not_exists] at hlock
    exact ⟨t, advance_of_not_lock hcode hlock⟩

/-! ## The end of the blocks -/

/-- The number of statements that are left in the blocks. -/
def LockState.remaining [Fintype T] (s : LockState T L R) : Nat := ∑ t, (s.code t).length

theorem code_advance {t : T} (hstep : lockStep blocks s (.advance t) = .ok s') :
    ∃ a c, s.code t = a :: c ∧ s'.code = Function.update s.code t c := by
  simp only [lockStep] at hstep
  split at hstep
  · cases hstep
  · rename_i a c hcode
    refine ⟨a, c, hcode, ?_⟩
    cases a with
    | lock l =>
      simp only [LockState.execute] at hstep
      split at hstep <;> cases hstep
      rfl
    | unlock l =>
      cases hstep
      rfl
    | enter r =>
      cases hstep
      rfl
    | leave =>
      cases hstep
      rfl

theorem remaining_advance [Fintype T] {t : T} (hstep : lockStep blocks s (.advance t) = .ok s') :
    s'.remaining + 1 = s.remaining := by
  obtain ⟨a, c, hcode, hcode'⟩ := code_advance hstep
  have hupdate : (fun u => (s'.code u).length) =
      Function.update (fun u => (s.code u).length) t c.length := by
    rw [hcode']
    exact Function.comp_update List.length s.code t c
  have hsplit := Finset.sum_eq_add_sum_sdiff_singleton_of_mem (Finset.mem_univ t)
    fun u => (s.code u).length
  rw [LockState.remaining, hupdate, Finset.sum_update_of_mem (Finset.mem_univ t),
    LockState.remaining, hsplit, hcode, List.length_cons]
  omega

theorem remaining_advances [Fintype T] {ts : List T}
    (hrun : run (lockStep blocks) s (ts.map .advance) = .ok s') :
    s'.remaining + ts.length = s.remaining := by
  induction ts generalizing s with
  | nil =>
    cases hrun
    rfl
  | cons t ts ih =>
    obtain ⟨u, hu, hrest⟩ := run_cons_ok.mp hrun
    have hfirst := remaining_advance hu
    have hrest := ih hrest
    rw [List.length_cons]
    omega

/-- If no thread can go on, then all blocks are at their ends and all mutexes are free. -/
theorem done_of_stuck (h : s.FlatLocked)
    (hstuck : ∀ t u, lockStep blocks s (.advance t) ≠ .ok u) :
    (∀ t, s.code t = []) ∧ ∀ l, s.holder l = none := by
  have hdone : ∀ t, s.code t = [] := by
    intro t
    by_contra ht
    obtain ⟨u, s', hu⟩ := exists_advance h ht
    exact hstuck u s' hu
  refine ⟨hdone, ?_⟩
  intro l
  cases hholder : s.holder l with
  | none => rfl
  | some t =>
    have hflat := h.flat t
    rw [hdone t] at hflat
    have hnone : s.critical t l = false := hflat l
    rw [h.holder t l hholder] at hnone
    cases hnone

end BallGame.Library
