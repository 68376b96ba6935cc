import Mathlib.Logic.Basic

/-!
# Runs of a step function

A step function takes a state and a label and either gives the next state or says why there
is none. A run executes a list of labels; an invariant kept by every step holds after every
run, and a simulation between two step functions carries over to their runs. Conditions on
the single steps of a run are stated with `Throughout`.
-/

namespace BallGame.Library

/-! ## Successful computations -/

theorem bind_ok {ε α β : Type} {x : Except ε α} {f : α → Except ε β} {b : β} :
    (x >>= f) = .ok b ↔ ∃ a, x = .ok a ∧ f a = .ok b := by
  cases x with
  | error e => simp [bind, Except.bind]
  | ok a => simp [bind, Except.bind]

/-- What every step of a successful fold keeps. -/
theorem foldlM_invariant {ε α β : Type} {P : β → Prop} {f : β → α → Except ε β} {xs : List α}
    (hstep : ∀ b x b', x ∈ xs → P b → f b x = .ok b' → P b') {b b' : β} (hb : P b)
    (h : xs.foldlM f b = .ok b') : P b' := by
  induction xs generalizing b with
  | nil =>
    cases h
    exact hb
  | cons x xs ih =>
    obtain ⟨b₁, hb₁, hrest⟩ := bind_ok.mp h
    exact ih (fun b y b' hy => hstep b y b' (List.mem_cons_of_mem x hy))
      (hstep b x b₁ (List.mem_cons_self ..) hb hb₁) hrest

/-! ## How a computation ends -/

/-- The computation succeeds with a result that meets `P`, or fails for a reason that meets
`E`. -/
inductive Ends {ε α : Type} (P : α → Prop) (E : ε → Prop) : Except ε α → Prop where
  | ok {a : α} (h : P a) : Ends P E (.ok a)
  | error {e : ε} (h : E e) : Ends P E (.error e)

namespace Ends

variable {ε α β : Type} {P : α → Prop} {Q : β → Prop} {E : ε → Prop}

theorem bind {x : Except ε α} {f : α → Except ε β} (h : Ends P E x)
    (hf : ∀ a, P a → Ends Q E (f a)) : Ends Q E (x >>= f) := by
  cases h with
  | ok ha => exact hf _ ha
  | error he => exact Ends.error he

theorem mono {P' : α → Prop} {E' : ε → Prop} {x : Except ε α} (h : Ends P E x)
    (hP : ∀ a, P a → P' a) (hE : ∀ e, E e → E' e) : Ends P' E' x := by
  cases h with
  | ok ha => exact Ends.ok (hP _ ha)
  | error he => exact Ends.error (hE _ he)

theorem of_ok {x : Except ε α} {a : α} (h : Ends P E x) (hx : x = .ok a) : P a := by
  subst hx
  cases h with
  | ok ha => exact ha

theorem of_error {x : Except ε α} {e : ε} (h : Ends P E x) (hx : x = .error e) : E e := by
  subst hx
  cases h with
  | error he => exact he

end Ends

/-! ## Computations that agree -/

/-- Both computations succeed with related results, or both fail for the same reason. -/
inductive Agree {ε α β : Type} (R : α → β → Prop) : Except ε α → Except ε β → Prop where
  | ok {a : α} {b : β} (h : R a b) : Agree R (.ok a) (.ok b)
  | error (e : ε) : Agree R (.error e) (.error e)

namespace Agree

variable {ε α β γ δ : Type} {R : α → β → Prop} {S : γ → δ → Prop}

theorem bind {x : Except ε α} {y : Except ε β} {f : α → Except ε γ} {g : β → Except ε δ}
    (h : Agree R x y) (hfg : ∀ a b, R a b → Agree S (f a) (g b)) :
    Agree S (x >>= f) (y >>= g) := by
  cases h with
  | ok hab => exact hfg _ _ hab
  | error e => exact Agree.error e

/-- The first computation goes on with steps that do not fail. -/
theorem bind_left {S : γ → β → Prop} {x : Except ε α} {y : Except ε β} {f : α → Except ε γ}
    (h : Agree R x y) (hf : ∀ a b, R a b → ∃ c, f a = .ok c ∧ S c b) : Agree S (x >>= f) y := by
  cases h with
  | ok hab =>
    obtain ⟨c, hc, hcb⟩ := hf _ _ hab
    rw [show (Except.ok _ >>= f) = f _ from rfl, hc]
    exact Agree.ok hcb
  | error e => exact Agree.error e

/-- What is known of one computation carries over to the other. -/
theorem ends {P : β → Prop} {E : ε → Prop} {x : Except ε α} {y : Except ε β} (h : Agree R x y)
    (hy : Ends P E y) : Ends (fun a => ∃ b, R a b ∧ P b) E x := by
  cases h with
  | ok hab => exact Ends.ok ⟨_, hab, hy.of_ok rfl⟩
  | error e => exact Ends.error (hy.of_error rfl)

theorem left_ok {a : α} {y : Except ε β} (h : Agree R (.ok a) y) : ∃ b, y = .ok b ∧ R a b := by
  cases h with
  | ok hab => exact ⟨_, rfl, hab⟩

theorem right_ok {x : Except ε α} {b : β} (h : Agree R x (.ok b)) : ∃ a, x = .ok a ∧ R a b := by
  cases h with
  | ok hab => exact ⟨_, rfl, hab⟩

theorem left_error {e : ε} {y : Except ε β} (h : Agree R (.error e) y) : y = .error e := by
  cases h with
  | error => rfl

end Agree

/-! ## Runs -/

section

variable {ε σ ι : Type} (step : σ → ι → Except ε σ)

/-- Execute the labels from left to right. -/
def run : σ → List ι → Except ε σ
  | s, [] => .ok s
  | s, i :: is => step s i >>= fun s' => run s' is

/-- Every step of the run from `s` meets the condition `C` on the state before it and its
label. -/
def Throughout (C : σ → ι → Prop) : σ → List ι → Prop
  | _, [] => True
  | s, i :: is => C s i ∧ ∀ s', step s i = .ok s' → Throughout C s' is

/-- The run from `s` passes through `t`. -/
def Visits (s : σ) (is : List ι) (t : σ) : Prop :=
  ∃ pre post, is = pre ++ post ∧ run step s pre = .ok t

end

section

variable {ε σ ι : Type} {step : σ → ι → Except ε σ}

@[simp] theorem run_nil (s : σ) : run step s [] = .ok s := rfl

theorem run_cons_ok {s t : σ} {i : ι} {is : List ι} :
    run step s (i :: is) = .ok t ↔ ∃ s', step s i = .ok s' ∧ run step s' is = .ok t := by
  rw [run, bind_ok]

theorem run_append_ok {s t : σ} {is js : List ι} :
    run step s (is ++ js) = .ok t ↔ ∃ s', run step s is = .ok s' ∧ run step s' js = .ok t := by
  induction is generalizing s with
  | nil => simp
  | cons i is ih =>
    simp only [List.cons_append, run_cons_ok, ih]
    constructor
    · rintro ⟨a, ha, b, hb, hc⟩
      exact ⟨b, ⟨a, ha, hb⟩, hc⟩
    · rintro ⟨b, ⟨a, ha, hb⟩, hc⟩
      exact ⟨a, ha, b, hb, hc⟩

theorem run_concat_ok {s t : σ} {is : List ι} {i : ι} :
    run step s (is ++ [i]) = .ok t ↔ ∃ s', run step s is = .ok s' ∧ step s' i = .ok t := by
  rw [run_append_ok]
  simp [run_cons_ok]

/-- A failed run fails at one of its steps. -/
theorem run_error {s : σ} {is : List ι} {e : ε} (h : run step s is = .error e) :
    ∃ pre i post t, is = pre ++ i :: post ∧ run step s pre = .ok t ∧ step t i = .error e := by
  induction is generalizing s with
  | nil => cases h
  | cons i is ih =>
    cases hi : step s i with
    | error e' =>
      rw [run, hi] at h
      cases h
      exact ⟨[], i, is, s, rfl, rfl, hi⟩
    | ok s' =>
      rw [run, hi] at h
      obtain ⟨pre, j, post, t, rfl, hpre, hj⟩ := ih h
      exact ⟨i :: pre, j, post, t, rfl, run_cons_ok.mpr ⟨s', hi, hpre⟩, hj⟩

/-- The induction over a run. -/
theorem run_invariant {I : σ → Prop}
    (hstep : ∀ s i s', I s → step s i = .ok s' → I s')
    {s t : σ} {is : List ι} (hs : I s) (h : run step s is = .ok t) : I t := by
  induction is generalizing s with
  | nil =>
    cases h
    exact hs
  | cons i is ih =>
    obtain ⟨s', hi, his⟩ := run_cons_ok.mp h
    exact ih (hstep s i s' hs hi) his

/-- The induction over a run, with the reasons for which its steps fail. -/
theorem run_ends {I : σ → Prop} {E : ε → Prop} {C : ι → Prop}
    (hstep : ∀ s i, I s → C i → Ends I E (step s i)) {s : σ} {is : List ι} (hs : I s)
    (his : ∀ i ∈ is, C i) : Ends I E (run step s is) := by
  induction is generalizing s with
  | nil => exact Ends.ok hs
  | cons i is ih =>
    exact (hstep s i hs (his i (List.mem_cons_self ..))).bind fun s' hs' =>
      ih hs' fun j hj => his j (List.mem_cons_of_mem i hj)

/-- The induction over a run all of whose steps meet `C`. -/
theorem run_invariant_throughout {C : σ → ι → Prop} {I : σ → Prop}
    (hstep : ∀ s i s', C s i → I s → step s i = .ok s' → I s')
    {s t : σ} {is : List ι} (hC : Throughout step C s is) (hs : I s)
    (h : run step s is = .ok t) : I t := by
  induction is generalizing s with
  | nil =>
    cases h
    exact hs
  | cons i is ih =>
    obtain ⟨s', hi, his⟩ := run_cons_ok.mp h
    exact ih (hC.2 s' hi) (hstep s i s' hC.1 hs hi) his

/-- A simulation: every step of the first system is matched by the second one on the
corresponding labels (none, one or several). -/
theorem run_simulation {τ κ : Type} {stepB : τ → κ → Except ε τ} {R : σ → τ → Prop}
    {f : ι → List κ}
    (hstep : ∀ s t i s', R s t → step s i = .ok s' → ∃ t', run stepB t (f i) = .ok t' ∧ R s' t')
    {s s' : σ} {t : τ} {is : List ι} (hR : R s t) (h : run step s is = .ok s') :
    ∃ t', run stepB t (is.flatMap f) = .ok t' ∧ R s' t' := by
  induction is generalizing s t with
  | nil =>
    cases h
    exact ⟨t, rfl, hR⟩
  | cons i is ih =>
    obtain ⟨u, hi, his⟩ := run_cons_ok.mp h
    obtain ⟨v, hv, hRv⟩ := hstep s t i u hR hi
    obtain ⟨t', ht', hR'⟩ := ih hRv his
    exact ⟨t', by rw [List.flatMap_cons, run_append_ok]; exact ⟨v, hv, ht'⟩, hR'⟩

/-- A bisimulation: two systems that agree on every step agree on every run. -/
theorem run_agree {τ : Type} {stepB : τ → ι → Except ε τ} {R : σ → τ → Prop}
    (hstep : ∀ s t i, R s t → Agree R (step s i) (stepB t i)) {s : σ} {t : τ} {is : List ι}
    (hR : R s t) : Agree R (run step s is) (run stepB t is) := by
  induction is generalizing s t with
  | nil => exact Agree.ok hR
  | cons i is ih => exact (hstep s t i hR).bind fun _ _ h => ih h

/-- If every state that is not yet done has a step that comes closer, then it can be done, with
such steps alone. -/
theorem exists_run_of_closer {I Done : σ → Prop} {Allowed : ι → Prop} {M : σ → Nat}
    (hcloser : ∀ s, I s → ¬ Done s →
      ∃ i s', Allowed i ∧ step s i = .ok s' ∧ I s' ∧ (Done s' ∨ M s' < M s)) {s : σ} (hs : I s) :
    ∃ is t, run step s is = .ok t ∧ (∀ i ∈ is, Allowed i) ∧ Done t := by
  induction hM : M s using Nat.strongRecOn generalizing s with
  | ind m ih =>
    by_cases hdone : Done s
    · exact ⟨[], s, rfl, by simp, hdone⟩
    · obtain ⟨i, s', hi, hstep, hs', hnext⟩ := hcloser s hs hdone
      rcases hnext with hdone' | hlt
      · exact ⟨[i], s', run_cons_ok.mpr ⟨s', hstep, rfl⟩, by simpa using hi, hdone'⟩
      · obtain ⟨is, t, hrun, his, ht⟩ := ih (M s') (hM ▸ hlt) hs' rfl
        exact ⟨i :: is, t, run_cons_ok.mpr ⟨s', hstep, hrun⟩, by simpa using ⟨hi, his⟩, ht⟩

theorem throughout_cons_of_ok {C : σ → ι → Prop} {s s' : σ} {i : ι} {is : List ι}
    (hi : step s i = .ok s') (hC : C s i) (h : Throughout step C s' is) :
    Throughout step C s (i :: is) := by
  refine ⟨hC, ?_⟩
  intro t ht
  rw [hi] at ht
  cases ht
  exact h

theorem Visits.head (s : σ) (is : List ι) : Visits step s is s := ⟨[], is, rfl, rfl⟩

theorem Visits.last {s t : σ} {is : List ι} (h : run step s is = .ok t) : Visits step s is t :=
  ⟨is, [], (List.append_nil is).symm, h⟩

theorem visits_cons {s t : σ} {i : ι} {is : List ι} :
    Visits step s (i :: is) t ↔ t = s ∨ ∃ s', step s i = .ok s' ∧ Visits step s' is t := by
  constructor
  · rintro ⟨pre, post, he, h⟩
    cases pre with
    | nil =>
      cases h
      exact Or.inl rfl
    | cons j pre =>
      obtain ⟨rfl, rfl⟩ := List.cons.inj he
      obtain ⟨s', hi, hpre⟩ := run_cons_ok.mp h
      exact Or.inr ⟨s', hi, pre, post, rfl, hpre⟩
  · rintro (rfl | ⟨s', hi, pre, post, rfl, hpre⟩)
    · exact Visits.head _ _
    · exact ⟨i :: pre, post, rfl, run_cons_ok.mpr ⟨s', hi, hpre⟩⟩

/-- The induction over the states that a run passes through. -/
theorem visits_invariant_throughout {C : σ → ι → Prop} {I : σ → Prop}
    (hstep : ∀ s i s', I s → C s i → step s i = .ok s' → I s') {s u : σ} {is : List ι}
    (hC : Throughout step C s is) (hI : I s) (hu : Visits step s is u) : I u := by
  induction is generalizing s with
  | nil =>
    obtain ⟨pre, post, he, hpre⟩ := hu
    obtain rfl : pre = [] := (List.append_eq_nil_iff.mp he.symm).1
    cases hpre
    exact hI
  | cons i is ih =>
    rcases visits_cons.mp hu with rfl | ⟨s', hi, hv⟩
    · exact hI
    · exact ih (hC.2 s' hi) (hstep s i s' hI hC.1 hi) hv

/-- If the steps that meet `C` keep an invariant that implies `P` and meet `Q`, and every other
step breaks `P` or does not meet `Q`, then `P` and `Q` hold all along a run exactly if every
step of the run meets `C`. -/
theorem visits_and_throughout_iff {C Q : σ → ι → Prop} {I P : σ → Prop}
    (hkeep : ∀ s i s', I s → C s i → step s i = .ok s' → I s') (hP : ∀ s, I s → P s)
    (hQ : ∀ s i, I s → C s i → Q s i)
    (hbreak : ∀ s i s', I s → step s i = .ok s' → P s' → Q s i → C s i)
    {s t : σ} {is : List ι} (hI : I s) (h : run step s is = .ok t) :
    ((∀ u, Visits step s is u → P u) ∧ Throughout step Q s is) ↔ Throughout step C s is := by
  constructor
  · rintro ⟨hall, hthroughout⟩
    induction is generalizing s with
    | nil => trivial
    | cons i is ih =>
      obtain ⟨s', hi, his⟩ := run_cons_ok.mp h
      have hP' : P s' := hall s' (visits_cons.mpr (Or.inr ⟨s', hi, Visits.head s' is⟩))
      have hC := hbreak s i s' hI hi hP' hthroughout.1
      apply throughout_cons_of_ok hi hC
      apply ih (hkeep s i s' hI hC hi) his _ (hthroughout.2 s' hi)
      intro v hv
      exact hall v (visits_cons.mpr (Or.inr ⟨s', hi, hv⟩))
  · intro hC
    constructor
    · intro u hu
      exact hP u (visits_invariant_throughout hkeep hC hI hu)
    · induction is generalizing s with
      | nil => trivial
      | cons i is ih =>
        obtain ⟨s', hi, his⟩ := run_cons_ok.mp h
        apply throughout_cons_of_ok hi (hQ s i hI hC.1)
        exact ih (hkeep s i s' hI hC.1 hi) his (hC.2 s' hi)

theorem throughout_of_mem {C : ι → Prop} {s : σ} {is : List ι} (h : ∀ i ∈ is, C i) :
    Throughout step (fun _ i => C i) s is := by
  induction is generalizing s with
  | nil => trivial
  | cons i is ih =>
    exact ⟨h i (List.mem_cons_self ..), fun _ _ => ih fun j hj => h j (List.mem_cons_of_mem i hj)⟩

/-- If the steps that meet `C` keep an invariant that implies `P`, and every other step breaks
`P`, then `P` holds all along a run exactly if every step of the run meets `C`. -/
theorem visits_iff_throughout_of_keeps {C : σ → ι → Prop} {I P : σ → Prop}
    (hkeep : ∀ s i s', I s → C s i → step s i = .ok s' → I s') (hP : ∀ s, I s → P s)
    (hbreak : ∀ s i s', I s → step s i = .ok s' → P s' → C s i)
    {s t : σ} {is : List ι} (hI : I s) (h : run step s is = .ok t) :
    (∀ u, Visits step s is u → P u) ↔ Throughout step C s is := by
  rw [← visits_and_throughout_iff hkeep hP (fun _ _ _ _ => trivial)
    (fun s i s' hs hi hP' _ => hbreak s i s' hs hi hP') hI h]
  exact ⟨fun hall => ⟨hall, throughout_of_mem fun _ _ => trivial⟩, fun hall => hall.1⟩

theorem throughout_and_iff {C D : σ → ι → Prop} {s : σ} {is : List ι} :
    Throughout step (fun s i => C s i ∧ D s i) s is ↔
      Throughout step C s is ∧ Throughout step D s is := by
  induction is generalizing s with
  | nil => exact ⟨fun _ => ⟨trivial, trivial⟩, fun _ => trivial⟩
  | cons i is ih =>
    constructor
    · rintro ⟨⟨hC, hD⟩, hrest⟩
      exact ⟨⟨hC, fun s' hi => (ih.mp (hrest s' hi)).1⟩, hD, fun s' hi => (ih.mp (hrest s' hi)).2⟩
    · rintro ⟨⟨hC, hrestC⟩, hD, hrestD⟩
      exact ⟨⟨hC, hD⟩, fun s' hi => ih.mpr ⟨hrestC s' hi, hrestD s' hi⟩⟩

/-- The same for runs of the labels that meet `A`. -/
theorem visits_iff_throughout_of_allowed {A : ι → Prop} {C : σ → ι → Prop} {I P : σ → Prop}
    (hkeep : ∀ s i s', I s → A i → C s i → step s i = .ok s' → I s') (hP : ∀ s, I s → P s)
    (hbreak : ∀ s i s', I s → A i → step s i = .ok s' → P s' → C s i)
    {s t : σ} {is : List ι} (his : ∀ i ∈ is, A i) (hI : I s) (h : run step s is = .ok t) :
    (∀ u, Visits step s is u → P u) ↔ Throughout step C s is := by
  have hA : Throughout step (fun _ i => A i) s is := throughout_of_mem his
  have hboth := visits_and_throughout_iff (C := fun s i => A i ∧ C s i) (Q := fun _ i => A i)
    (fun s i s' hs hC => hkeep s i s' hs hC.1 hC.2) hP (fun _ _ _ hC => hC.1)
    (fun s i s' hs hi hP' hA => ⟨hA, hbreak s i s' hs hA hi hP'⟩) hI h
  rw [throughout_and_iff] at hboth
  exact ⟨fun hall => (hboth.mp ⟨hall, hA⟩).2, fun hC => (hboth.mpr ⟨hA, hC⟩).1⟩

/-- For a run that ends, a condition on the labels alone. -/
theorem throughout_iff_forall {C : ι → Prop} {s t : σ} {is : List ι}
    (h : run step s is = .ok t) : Throughout step (fun _ i => C i) s is ↔ ∀ i ∈ is, C i := by
  constructor
  · intro hC
    induction is generalizing s with
    | nil => simp
    | cons i is ih =>
      obtain ⟨s', hi, his⟩ := run_cons_ok.mp h
      intro j hj
      rcases List.mem_cons.mp hj with rfl | hj
      · exact hC.1
      · exact ih his (hC.2 s' hi) j hj
  · exact throughout_of_mem

/-- Steps that add up faults. If a state is right exactly while there are none, then all states
of a run are right exactly if no step of the run adds one, and if only a fault leads to an error
that is not benign, then the errors of a run without faults are. -/
theorem faultless_iff {M : σ → Nat → Prop} {P : σ → Prop} {A C : ι → Prop} {Benign : ε → Prop}
    (f : ι → Nat) (hf : ∀ i, f i = 0 ↔ C i)
    (hstep : ∀ s k i, M s k → A i →
      Ends (fun s' => M s' (k + f i)) (fun e => Benign e ∨ 0 < k + f i) (step s i))
    (hP : ∀ s k, M s k → (P s ↔ k = 0)) {s : σ} {is : List ι} (hs : M s 0)
    (his : ∀ i ∈ is, A i) :
    (∀ t, run step s is = .ok t → ((∀ u, Visits step s is u → P u) ↔ ∀ i ∈ is, C i)) ∧
      ((∀ i ∈ is, C i) → ∀ e, run step s is = .error e → Benign e) := by
  constructor
  · intro t h
    rw [← throughout_iff_forall h]
    apply visits_iff_throughout_of_allowed (I := fun s => M s 0) _ _ _ his hs h
    · intro u i u' hu hi hC hok
      have hnext := (hstep u 0 i hu hi).of_ok hok
      rwa [(hf i).mpr hC] at hnext
    · intro u hu
      exact (hP u 0 hu).mpr rfl
    · intro u i u' hu hi hok hP'
      have hzero := (hP u' _ ((hstep u 0 i hu hi).of_ok hok)).mp hP'
      exact (hf i).mp (by omega)
  · intro hall e he
    have hends : Ends (fun s => M s 0) Benign (run step s is) := by
      apply run_ends (I := fun s => M s 0) (C := fun i => A i ∧ C i) _ hs
        fun i hi => ⟨his i hi, hall i hi⟩
      intro u i hu hi
      have hzero := (hf i).mpr hi.2
      refine (hstep u 0 i hu hi.1).mono (fun u' hu' => ?_) fun e he => he.resolve_right ?_
      · rwa [hzero] at hu'
      · rw [hzero]
        exact Nat.lt_irrefl 0
    exact hends.of_error he

/-- If a step keeps `P` exactly when it meets `C`, then `P` holds all along a run exactly if
every step of the run meets `C`. -/
theorem visits_iff_throughout {C : σ → ι → Prop} {I P : σ → Prop}
    (hinv : ∀ s i s', I s → step s i = .ok s' → I s')
    (hiff : ∀ s i s', I s → P s → step s i = .ok s' → (P s' ↔ C s i))
    {s t : σ} {is : List ι} (hI : I s) (hP : P s) (h : run step s is = .ok t) :
    (∀ u, Visits step s is u → P u) ↔ Throughout step C s is := by
  apply visits_iff_throughout_of_keeps (I := fun s => I s ∧ P s) _ _ _ ⟨hI, hP⟩ h
  · intro s i s' hs hC hi
    exact ⟨hinv s i s' hs.1 hi, (hiff s i s' hs.1 hs.2 hi).mpr hC⟩
  · intro s hs
    exact hs.2
  · intro s i s' hs hi hP'
    exact (hiff s i s' hs.1 hs.2 hi).mp hP'

end

end BallGame.Library
