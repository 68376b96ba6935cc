import BallGame.Library.Runs
import BallGame.Library.Memory

/-!
# Lock programs

Threads that execute blocks of straight code: locking and unlocking mutexes, and entering and
leaving regions, each guarded by one of the mutexes. Nothing stops a thread from entering a
region without its mutex or from unlocking a mutex it does not hold.

`Follows` checks a block on its own, without the other threads, up to a statement at which it
stops and which breaks the discipline. Blocks that follow the discipline in this sense keep it
in every interleaving exactly as long as no thread executes the statement at which its block
stops (`disciplined_iff`).
-/

namespace BallGame.Library

inductive LockStatement (L R : Type) where
  | lock (l : L)
  | unlock (l : L)
  | enter (r : R)
  | leave

structure LockState (T L R : Type) where
  holder : L → Option T
  /-- What is left of the block that a thread executes. -/
  code : T → List (LockStatement L R)
  /-- The regions that a thread is in, the innermost first. -/
  inside : T → List R
  /-- The thread has locked the mutex and not unlocked it since. -/
  critical : T → L → Bool

inductive LockLabel (T B : Type) where
  /-- A thread at the end of its block begins another one. -/
  | choose (t : T) (b : B)
  | advance (t : T)

variable {T L R B : Type} [DecidableEq L]

namespace LockState

def free : LockState T L R where
  holder := fun _ => none
  code := fun _ => []
  inside := fun _ => []
  critical := fun _ _ => false

def execute [DecidableEq T] (s : LockState T L R) (t : T) (c : List (LockStatement L R)) :
    LockStatement L R → Except Stuck (LockState T L R)
  | .lock l =>
    match s.holder l with
    | none => .ok { s with
        holder := Function.update s.holder l (some t)
        code := Function.update s.code t c
        critical := Function.update s.critical t (Function.update (s.critical t) l true) }
    | some _ => .error .blocked
  | .unlock l => .ok { s with
      holder := Function.update s.holder l none
      code := Function.update s.code t c
      critical := Function.update s.critical t (Function.update (s.critical t) l false) }
  | .enter r => .ok { s with
      code := Function.update s.code t c
      inside := Function.update s.inside t (r :: s.inside t) }
  | .leave => .ok { s with
      code := Function.update s.code t c
      inside := Function.update s.inside t (s.inside t).tail }

end LockState

/-- `blocks` gives the code of a block, if it belongs to the thread. -/
def lockStep [DecidableEq T] (blocks : T → B → Option (List (LockStatement L R)))
    (s : LockState T L R) : LockLabel T B → Except Stuck (LockState T L R)
  | .choose t b =>
    match s.code t, blocks t b with
    | [], some c => .ok { s with code := Function.update s.code t c }
    | _, _ => .error .blocked
  | .advance t =>
    match s.code t with
    | [] => .error .blocked
    | a :: c => s.execute t c a

/-! ## The discipline -/

/-- Whoever is in a region holds its mutex, and nobody shares a critical section. -/
structure LockState.Guarded (guard : R → L) (s : LockState T L R) : Prop where
  holds : ∀ t r, r ∈ s.inside t → s.holder (guard r) = some t
  exclusive : ∀ l t u, s.critical t l = true → s.critical u l = true → t = u

/-- If the step unlocks a mutex, then its thread holds it. -/
def UnlocksOwn (s : LockState T L R) : LockLabel T B → Prop
  | .advance t => ∀ l c, s.code t = .unlock l :: c → s.holder l = some t
  | .choose _ _ => True

/-- The code that is left, for a thread that has locked the mutexes `held` and is in the
regions `inside`, follows the discipline up to a statement at which it stops. -/
def Follows (guard : R → L) (stop : LockStatement L R → Bool) :
    (L → Bool) → List R → List (LockStatement L R) → Prop
  | held, inside, [] => (∀ l, held l = false) ∧ inside = []
  | held, inside, .lock l :: c =>
    stop (.lock l) = false ∧ held l = false ∧
      Follows guard stop (Function.update held l true) inside c
  | held, inside, .unlock l :: c =>
    if stop (.unlock l) then held l = false
    else held l = true ∧ (∀ r ∈ inside, guard r ≠ l) ∧
      Follows guard stop (Function.update held l false) inside c
  | held, inside, .enter r :: c =>
    if stop (.enter r) then held (guard r) = false
    else held (guard r) = true ∧ Follows guard stop held (r :: inside) c
  | held, inside, .leave :: c => stop .leave = false ∧ Follows guard stop held inside.tail c

/-- The step is not one at which the code of its thread stops. -/
def GoesOn (stop : T → LockStatement L R → Bool) (s : LockState T L R) :
    LockLabel T B → Prop
  | .advance t => ∀ a c, s.code t = a :: c → stop t a = false
  | .choose _ _ => True

structure LockState.WellLocked (guard : R → L) (stop : T → LockStatement L R → Bool)
    (s : LockState T L R) : Prop where
  follows : ∀ t, Follows guard (stop t) (s.critical t) (s.inside t) (s.code t)
  holder : ∀ t l, s.holder l = some t ↔ s.critical t l = true
  guarded : ∀ t r, r ∈ s.inside t → s.critical t (guard r) = true

variable {guard : R → L} {stop : T → LockStatement L R → Bool}
  {blocks : T → B → Option (List (LockStatement L R))} {s s' : LockState T L R}

theorem LockState.WellLocked.disciplined (h : s.WellLocked guard stop) : s.Guarded guard := by
  constructor
  · intro t r hr
    exact (h.holder t (guard r)).mpr (h.guarded t r hr)
  · intro l t u ht hu
    have ht' := (h.holder t l).mpr ht
    have hu' := (h.holder u l).mpr hu
    rw [ht'] at hu'
    exact Option.some.inj hu'

theorem wellLocked_free : (LockState.free : LockState T L R).WellLocked guard stop := by
  refine ⟨fun t => ⟨fun _ => rfl, rfl⟩, ?_, ?_⟩
  · intro t l
    simp [LockState.free]
  · intro t r hr
    cases hr

variable [DecidableEq T]

/-- Thread `t` moves on to the code `c`, and nothing changes for the others. -/
theorem follows_move (h : s.WellLocked guard stop) {t : T} {c : List (LockStatement L R)}
    (hcode : s'.code = Function.update s.code t c) (hinside : ∀ u, u ≠ t → s'.inside u = s.inside u)
    (hcritical : ∀ u, u ≠ t → s'.critical u = s.critical u)
    (ht : Follows guard (stop t) (s'.critical t) (s'.inside t) c) (u : T) :
    Follows guard (stop u) (s'.critical u) (s'.inside u) (s'.code u) := by
  by_cases hu : u = t
  · subst hu
    rw [hcode, Function.update_self]
    exact ht
  · rw [hcode, Function.update_of_ne hu, hinside u hu, hcritical u hu]
    exact h.follows u

/-- A thread takes or releases a mutex that nobody else holds. -/
theorem holder_update (h : s.WellLocked guard stop) {t : T} {l : L} (taken : Bool)
    (hothers : ∀ u, u ≠ t → s.holder l ≠ some u) (u : T) (m : L) :
    Function.update s.holder l (if taken then some t else none) m = some u ↔
      Function.update s.critical t (Function.update (s.critical t) l taken) u m = true := by
  have hold := h.holder u m
  by_cases hu : u = t
  · subst hu
    by_cases hm : m = l
    · subst hm
      cases taken <;> simp
    · simpa [Function.update_of_ne hm] using hold
  · by_cases hm : m = l
    · subst hm
      have hnot := hothers u hu
      cases taken <;> simpa [Function.update_of_ne hu, Ne.symm hu, hnot] using hold
    · simpa [Function.update_of_ne hu, Function.update_of_ne hm] using hold

/-- The regions keep their mutexes, if the thread has left those of a mutex it releases. -/
theorem guarded_update (h : s.WellLocked guard stop) {t : T} {l : L} {taken : Bool}
    (hleft : taken = false → ∀ r ∈ s.inside t, guard r ≠ l) (u : T) (r : R)
    (hr : r ∈ s.inside u) :
    Function.update s.critical t (Function.update (s.critical t) l taken) u (guard r) = true := by
  have hold := h.guarded u r hr
  by_cases hu : u = t
  · subst hu
    by_cases hm : guard r = l
    · cases taken with
      | true => simp [hm]
      | false => exact absurd hm (hleft rfl r hr)
    · simpa [Function.update_of_ne hm] using hold
  · simpa [Function.update_of_ne hu] using hold

/-- A thread takes a free mutex. -/
theorem wellLocked_lock (h : s.WellLocked guard stop) {t : T} {l : L}
    {c : List (LockStatement L R)} (hcode : s.code t = .lock l :: c)
    (hstep : s.execute t c (.lock l) = .ok s') : s'.WellLocked guard stop := by
  have hfollows := h.follows t
  rw [hcode] at hfollows
  obtain ⟨_, hheld, hrest⟩ := hfollows
  simp only [LockState.execute] at hstep
  split at hstep
  · rename_i hfree
    cases hstep
    refine ⟨?_, holder_update h true ?_, guarded_update h (by simp)⟩
    · refine follows_move h (t := t) rfl (fun _ _ => rfl) ?_ ?_
      · intro u hu
        exact Function.update_of_ne hu _ _
      · simpa using hrest
    · intro u _
      simp [hfree]
  · cases hstep

/-- A thread releases a mutex that it holds and whose regions it has left. -/
theorem wellLocked_unlock (h : s.WellLocked guard stop) {t : T} {l : L}
    {c : List (LockStatement L R)} (hcode : s.code t = .unlock l :: c)
    (hstop : stop t (.unlock l) = false) (hstep : s.execute t c (.unlock l) = .ok s') :
    s'.WellLocked guard stop := by
  have hfollows := h.follows t
  rw [hcode, Follows, if_neg (by simp [hstop])] at hfollows
  obtain ⟨hheld, hleft, hrest⟩ := hfollows
  have hmine := (h.holder t l).mpr hheld
  cases hstep
  refine ⟨?_, holder_update h false ?_, guarded_update h (fun _ => hleft)⟩
  · refine follows_move h (t := t) rfl (fun _ _ => rfl) ?_ ?_
    · intro u hu
      exact Function.update_of_ne hu _ _
    · simpa using hrest
  · intro u hu
    rw [hmine]
    intro he
    exact hu (Option.some.inj he).symm

theorem wellLocked_enter (h : s.WellLocked guard stop) {t : T} {r : R}
    {c : List (LockStatement L R)} (hcode : s.code t = .enter r :: c)
    (hstop : stop t (.enter r) = false) (hstep : s.execute t c (.enter r) = .ok s') :
    s'.WellLocked guard stop := by
  have hfollows := h.follows t
  rw [hcode, Follows, if_neg (by simp [hstop])] at hfollows
  obtain ⟨hheld, hrest⟩ := hfollows
  cases hstep
  refine ⟨?_, h.holder, ?_⟩
  · refine follows_move h (t := t) rfl ?_ (fun _ _ => rfl) ?_
    · intro u hu
      exact Function.update_of_ne hu _ _
    · simpa using hrest
  · intro u q hq
    by_cases hu : u = t
    · subst hu
      simp only [Function.update_self, List.mem_cons] at hq
      rcases hq with rfl | hq
      · exact hheld
      · exact h.guarded u q hq
    · simp only [Function.update_of_ne hu] at hq
      exact h.guarded u q hq

theorem wellLocked_leave (h : s.WellLocked guard stop) {t : T} {c : List (LockStatement L R)}
    (hcode : s.code t = .leave :: c) (hstep : s.execute t c .leave = .ok s') :
    s'.WellLocked guard stop := by
  have hfollows := h.follows t
  rw [hcode] at hfollows
  obtain ⟨_, hrest⟩ := hfollows
  cases hstep
  refine ⟨?_, h.holder, ?_⟩
  · refine follows_move h (t := t) rfl ?_ (fun _ _ => rfl) ?_
    · intro u hu
      exact Function.update_of_ne hu _ _
    · simpa using hrest
  · intro u q hq
    by_cases hu : u = t
    · subst hu
      simp only [Function.update_self] at hq
      exact h.guarded u q (List.mem_of_mem_tail hq)
    · simp only [Function.update_of_ne hu] at hq
      exact h.guarded u q hq

theorem wellLocked_step
    (hblocks : ∀ t b c, blocks t b = some c → Follows guard (stop t) (fun _ => false) [] c)
    (h : s.WellLocked guard stop) {l : LockLabel T B} (hgoes : GoesOn stop s l)
    (hstep : lockStep blocks s l = .ok s') : s'.WellLocked guard stop := by
  cases l with
  | choose t b =>
    simp only [lockStep] at hstep
    split at hstep
    · rename_i c hcode hb
      cases hstep
      have hend := h.follows t
      rw [hcode] at hend
      obtain ⟨hheld, hinside⟩ := hend
      refine ⟨?_, h.holder, h.guarded⟩
      refine follows_move h (t := t) rfl (fun _ _ => rfl) (fun _ _ => rfl) ?_
      rw [show s.critical t = fun _ => false from funext hheld, hinside]
      exact hblocks t b c hb
    · cases hstep
  | advance t =>
    simp only [lockStep] at hstep
    split at hstep
    · cases hstep
    · rename_i a c hcode
      have hstop := hgoes a c hcode
      cases a with
      | lock l => exact wellLocked_lock h hcode hstep
      | unlock l => exact wellLocked_unlock h hcode hstop hstep
      | enter r => exact wellLocked_enter h hcode hstop hstep
      | leave => exact wellLocked_leave h hcode hstep

/-- The statement at which a block stops breaks the discipline. -/
theorem goesOn_of_guarded (h : s.WellLocked guard stop) {l : LockLabel T B}
    (hstep : lockStep blocks s l = .ok s') (hguarded : s'.Guarded guard)
    (hunlock : UnlocksOwn s l) : GoesOn stop s l := by
  cases l with
  | choose t b => trivial
  | advance t =>
    intro a c hcode
    have hfollows := h.follows t
    rw [hcode] at hfollows
    simp only [lockStep, hcode] at hstep
    cases a with
    | lock l => exact hfollows.1
    | leave => exact hfollows.1
    | unlock l =>
      by_contra hstop
      rw [Follows, if_pos (by simpa using hstop)] at hfollows
      have hmine := (h.holder t l).mp (hunlock l c hcode)
      rw [hfollows] at hmine
      cases hmine
    | enter r =>
      by_contra hstop
      rw [Follows, if_pos (by simpa using hstop)] at hfollows
      cases hstep
      have hholds := hguarded.holds t r (by simp)
      have hmine := (h.holder t (guard r)).mp hholds
      rw [hfollows] at hmine
      cases hmine

/-- **Blocks that follow the discipline.** All along a run whoever is in a region holds its
mutex, nobody shares a critical section and every mutex is unlocked by its holder, exactly if
no thread of the run executes the statement at which its block stops. -/
theorem disciplined_iff
    (hblocks : ∀ t b c, blocks t b = some c → Follows guard (stop t) (fun _ => false) [] c)
    {ls : List (LockLabel T B)} (hrun : run (lockStep blocks) LockState.free ls = .ok s) :
    ((∀ u, Visits (lockStep blocks) LockState.free ls u → u.Guarded guard) ∧
      Throughout (lockStep blocks) UnlocksOwn LockState.free ls) ↔
      Throughout (lockStep blocks) (GoesOn stop) LockState.free ls := by
  apply visits_and_throughout_iff (I := fun u => u.WellLocked guard stop) _ _ _ _
    wellLocked_free hrun
  · intro u l u' hu hgoes hstep
    exact wellLocked_step hblocks hu hgoes hstep
  · intro u hu
    exact hu.disciplined
  · intro u l hu hgoes
    cases l with
    | choose t b => trivial
    | advance t =>
      intro l c hcode
      have hfollows := hu.follows t
      rw [hcode, Follows, if_neg (by simp [hgoes _ c hcode])] at hfollows
      exact (hu.holder t l).mpr hfollows.1
  · intro u l u' hu hstep hguarded hunlock
    exact goesOn_of_guarded hu hstep hguarded hunlock

end BallGame.Library
