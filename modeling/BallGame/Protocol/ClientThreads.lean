import BallGame.Protocol.Keyboard
import BallGame.Protocol.ReceiveBuffers

/-!
# The threads of the client

`main` creates the three threads, joins them in the same order and then frees the `SharedContext`
they use. `keep_running` is cleared by SIGINT and by the thread that receives, when the connection
has ended; the thread at the keyboard leaves with the line `x`, but does not clear it. What the
threads draw and show is left out here, as are the bytes they receive, up to their number.

* `processMove_of_step`: what a step of `main` or of a thread can do;
* `context_outlives_threads`: the context is used after it was freed only if the second or the
  third thread could not be created.
-/

namespace BallGame.Protocol

open Library

/-! ## The process -/

/-- The threads in the order in which they are created and joined. -/
inductive ClientThread where
  | render
  | recv
  | send
  deriving DecidableEq

def ClientThread.index : ClientThread → Nat
  | .render => 0
  | .recv => 1
  | .send => 2

/-- Where `main` stands. -/
inductive MainPlace where
  | create (t : ClientThread)
  | join (t : ClientThread)
  /-- `shutdown` and `close` of the socket. -/
  | close
  | destroy
  /-- `manager_destroy` after the second or the third `pthread_create` has failed. -/
  | destroyFirst
  /-- `shutdown` and `close` behind it. -/
  | closeLast
  | returned
  deriving DecidableEq

inductive RenderPlace where
  /-- `while (keep_running)`. -/
  | test
  | frame
  | exited
  deriving DecidableEq

structure ClientProcess where
  main : MainPlace
  started : ClientThread → Bool
  render : RenderPlace
  receiver : ReceiverPlace
  /-- Its `keepRunning` is that of all threads. -/
  keyboard : Keyboard
  /-- The number of bytes that have arrived and were not received. -/
  arrived : Nat
  /-- The connection ends behind them. -/
  hungUp : Bool
  /-- The `SharedContext` was freed. -/
  destroyed : Bool
  /-- The thread that could not be created. No step looks at it. -/
  failed : Option ClientThread

inductive ProcessLabel where
  | create (t : ClientThread) (ok : Bool)
  | main
  | render
  /-- A step of the thread that receives, with the number of bytes `recv` returns. -/
  | receiver (count : Nat)
  /-- A step of the thread at the keyboard, typing, or SIGINT as `stop`. -/
  | keyboard (l : KeyboardLabel)
  | arrive (count : Nat)
  | hangUp

def ClientThread.afterCreate : ClientThread → MainPlace
  | .render => .create .recv
  | .recv => .create .send
  | .send => .join .render

def ClientThread.afterJoin : ClientThread → MainPlace
  | .render => .join .recv
  | .recv => .join .send
  | .send => .close

def ClientProcess.Exited (s : ClientProcess) : ClientThread → Prop
  | .render => s.render = .exited
  | .recv => s.receiver = .exited
  | .send => s.keyboard.place = .exited

instance (s : ClientProcess) : (t : ClientThread) → Decidable (s.Exited t)
  | .render => inferInstanceAs (Decidable (s.render = .exited))
  | .recv => inferInstanceAs (Decidable (s.receiver = .exited))
  | .send => inferInstanceAs (Decidable (s.keyboard.place = .exited))

/-- An access to the fields of the `SharedContext`. -/
def ClientProcess.useContext (s : ClientProcess) : Except Stuck Unit :=
  if s.destroyed then .error .danglingPointer else .ok ()

def createStep (s : ClientProcess) (t : ClientThread) (ok : Bool) : Except Stuck ClientProcess :=
  if s.main = .create t then
    if ok then
      .ok { s with main := t.afterCreate, started := Function.update s.started t true }
    else
      .ok { s with
        main := if t = .render then .destroy else .destroyFirst
        failed := some t }
  else
    .error .blocked

def mainStep (s : ClientProcess) : Except Stuck ClientProcess :=
  match s.main with
  | .join t => if s.Exited t then .ok { s with main := t.afterJoin } else .error .blocked
  | .close => do
    s.useContext
    .ok { s with main := .destroy }
  | .destroy => .ok { s with main := .returned, destroyed := true }
  | .destroyFirst => .ok { s with main := .closeLast, destroyed := true }
  | .closeLast => do
    s.useContext
    .ok { s with main := .returned }
  | _ => .error .blocked

/-- One round of `render_thread` is one step. -/
def renderStep (s : ClientProcess) : Except Stuck ClientProcess :=
  match s.started .render, s.render with
  | true, .test => .ok { s with render := if s.keyboard.keepRunning then .frame else .exited }
  | true, .frame => do
    s.useContext
    .ok { s with render := .test }
  | _, _ => .error .blocked

def recvStep (s : ClientProcess) (count : Nat) : Except Stuck ClientProcess :=
  match s.started .recv, s.receiver with
  | true, .test =>
    if s.keyboard.keepRunning then do
      s.useContext
      .ok { s with receiver := .receive }
    else
      .ok { s with receiver := .exited }
  | true, .receive =>
    if 0 < count ∧ count ≤ s.arrived then do
      s.useContext
      .ok { s with receiver := .test, arrived := s.arrived - count }
    else if s.arrived = 0 ∧ s.hungUp then do
      s.useContext
      .ok { s with receiver := .exited, keyboard := { s.keyboard with keepRunning := false } }
    else
      .error .blocked
  | _, _ => .error .blocked

/-- The labels that are not steps of the thread at the keyboard. -/
def KeyboardLabel.External : KeyboardLabel → Bool
  | .type _ | .endInput | .stop => true
  | _ => false

/-- Only `send` needs the context. -/
def sendStep (s : ClientProcess) (l : KeyboardLabel) : Except Stuck ClientProcess :=
  if l.External ∨ s.started .send then do
    let keyboard ← keyboardStep s.keyboard l
    if keyboard.sends = s.keyboard.sends then
      .ok { s with keyboard := keyboard }
    else do
      s.useContext
      .ok { s with keyboard := keyboard }
  else
    .error .blocked

/-- Nothing runs behind the end of `main`. -/
def processStep (s : ClientProcess) (l : ProcessLabel) : Except Stuck ClientProcess :=
  if s.main = .returned then
    .error .blocked
  else
    match l with
    | .create t ok => createStep s t ok
    | .main => mainStep s
    | .render => renderStep s
    | .receiver count => recvStep s count
    | .keyboard l => sendStep s l
    | .arrive count => .ok { s with arrived := s.arrived + count }
    | .hangUp => .ok { s with hungUp := true }

def processStart : ClientProcess :=
  ⟨.create .render, fun _ => false, .test, .test, keyboardStart, 0, false, false, none⟩

/-! ## What a step can do -/

inductive ProcessMove (s : ClientProcess) : ProcessLabel → ClientProcess → Prop where
  | created {t : ClientThread} (hmain : s.main = .create t) :
    ProcessMove s (.create t true) { s with
      main := t.afterCreate, started := Function.update s.started t true }
  | notCreated {t : ClientThread} (hmain : s.main = .create t) :
    ProcessMove s (.create t false) { s with
      main := if t = .render then .destroy else .destroyFirst
      failed := some t }
  | joined {t : ClientThread} (hmain : s.main = .join t) (hexited : s.Exited t) :
    ProcessMove s .main { s with main := t.afterJoin }
  | closed (hmain : s.main = .close) : ProcessMove s .main { s with main := .destroy }
  | destroyed (hmain : s.main = .destroy) :
    ProcessMove s .main { s with main := .returned, destroyed := true }
  | destroyedFirst (hmain : s.main = .destroyFirst) :
    ProcessMove s .main { s with main := .closeLast, destroyed := true }
  | closedLast (hmain : s.main = .closeLast) (hcontext : s.destroyed = false) :
    ProcessMove s .main { s with main := .returned }
  | renderTest (hplace : s.render = .test) {p : RenderPlace}
    (hp : p = if s.keyboard.keepRunning then .frame else .exited) :
    ProcessMove s .render { s with render := p }
  | rendered (hplace : s.render = .frame) : ProcessMove s .render { s with render := .test }
  | recvWait {count : Nat} (hplace : s.receiver = .test)
    (hkeep : s.keyboard.keepRunning = true) :
    ProcessMove s (.receiver count) { s with receiver := .receive }
  | recvLeave {count : Nat} (hplace : s.receiver = .test)
    (hstop : s.keyboard.keepRunning = false) :
    ProcessMove s (.receiver count) { s with receiver := .exited }
  | received {count : Nat} (hplace : s.receiver = .receive) (hcount : 0 < count) :
    ProcessMove s (.receiver count) { s with receiver := .test, arrived := s.arrived - count }
  | recvEnd {count : Nat} (hplace : s.receiver = .receive) (hhung : s.hungUp = true) :
    ProcessMove s (.receiver count) { s with
      receiver := .exited, keyboard := { s.keyboard with keepRunning := false } }
  | keyboard {l : KeyboardLabel} {k : Keyboard} (hmove : KeyboardMove s.keyboard l k) :
    ProcessMove s (.keyboard l) { s with keyboard := k }
  | arrive (count : Nat) : ProcessMove s (.arrive count) { s with arrived := s.arrived + count }
  | hangUp : ProcessMove s .hangUp { s with hungUp := true }

theorem useContext_ok {s : ClientProcess} {u : Unit} (h : s.useContext = .ok u) :
    s.destroyed = false := by
  simp only [ClientProcess.useContext] at h
  split at h
  · cases h
  · next hcontext => exact Bool.not_eq_true _ ▸ hcontext

theorem processMove_of_step {s s' : ClientProcess} {l : ProcessLabel}
    (h : processStep s l = .ok s') : ProcessMove s l s' := by
  simp only [processStep] at h
  split at h
  · cases h
  cases l with
  | create t ok =>
    simp only [createStep] at h
    split at h
    · next hmain =>
      cases ok with
      | true =>
        cases h
        exact .created hmain
      | false =>
        cases h
        exact .notCreated hmain
    · cases h
  | main =>
    simp only [mainStep] at h
    split at h
    · next t hmain =>
      split at h
      · next hexited =>
        cases h
        exact .joined hmain hexited
      · cases h
    · next hmain =>
      obtain ⟨u, _, hs'⟩ := bind_ok.mp h
      cases hs'
      exact .closed hmain
    · next hmain =>
      cases h
      exact .destroyed hmain
    · next hmain =>
      cases h
      exact .destroyedFirst hmain
    · next hmain =>
      obtain ⟨u, hu, hs'⟩ := bind_ok.mp h
      cases hs'
      exact .closedLast hmain (useContext_ok hu)
    · cases h
  | render =>
    simp only [renderStep] at h
    split at h
    · next hstarted hplace =>
      cases h
      exact .renderTest hplace rfl
    · next hstarted hplace =>
      obtain ⟨u, _, hs'⟩ := bind_ok.mp h
      cases hs'
      exact .rendered hplace
    · cases h
  | receiver count =>
    simp only [recvStep] at h
    split at h
    · next hstarted hplace =>
      split at h
      · next hkeep =>
        obtain ⟨u, _, hs'⟩ := bind_ok.mp h
        cases hs'
        exact .recvWait hplace hkeep
      · next hstop =>
        cases h
        exact .recvLeave hplace (Bool.not_eq_true _ ▸ hstop)
    · next hstarted hplace =>
      split at h
      · next hcount =>
        obtain ⟨u, _, hs'⟩ := bind_ok.mp h
        cases hs'
        exact .received hplace hcount.1
      · split at h
        · next hend =>
          obtain ⟨u, _, hs'⟩ := bind_ok.mp h
          cases hs'
          exact .recvEnd hplace hend.2
        · cases h
    · cases h
  | keyboard l =>
    simp only [sendStep] at h
    split at h
    · obtain ⟨k, hk, hs'⟩ := bind_ok.mp h
      split at hs'
      · cases hs'
        exact .keyboard (keyboardMove_of_step hk)
      · obtain ⟨u, _, hs''⟩ := bind_ok.mp hs'
        cases hs''
        exact .keyboard (keyboardMove_of_step hk)
    · cases h
  | arrive count =>
    cases h
    exact .arrive count
  | hangUp =>
    cases h
    exact .hangUp

/-! ## The lifetime of the context -/

/-- `main` has not tried to create the thread. -/
def MainPlace.before : MainPlace → ClientThread → Bool
  | .create u, t => u.index ≤ t.index
  | _, _ => false

/-- `main` has created the thread. -/
def MainPlace.created : MainPlace → ClientThread → Bool
  | .create u, t => t.index < u.index
  | .join _, _ => true
  | _, _ => false

/-- `main` will not wait for the thread any more before it frees the context. -/
def MainPlace.past : MainPlace → ClientThread → Bool
  | .join u, t => t.index < u.index
  | .close, _ | .destroy, _ | .returned, _ => true
  | _, _ => false

/-- The context was freed. -/
def MainPlace.freed (m : MainPlace) : Bool := m = .closeLast ∨ m = .returned

/-- On the way that `main` takes if the second or the third thread could not be created. -/
def MainPlace.astray (m : MainPlace) : Bool := m = .destroyFirst ∨ m = .closeLast

theorem before_afterCreate {t u : ClientThread} (h : t.afterCreate.before u = true) :
    u ≠ t ∧ (MainPlace.create t).before u = true := by
  revert h
  cases t <;> cases u <;> decide

theorem created_afterCreate {t u : ClientThread} (h : t.afterCreate.created u = true) :
    u = t ∨ (MainPlace.create t).created u = true := by
  revert h
  cases t <;> cases u <;> decide

theorem past_afterCreate (t u : ClientThread) : t.afterCreate.past u = false := by
  cases t <;> cases u <;> rfl

theorem past_afterJoin {t u : ClientThread} (h : t.afterJoin.past u = true) :
    u = t ∨ (MainPlace.join t).past u = true := by
  revert h
  cases t <;> cases u <;> decide

/-- The thread does not run: it has come to its end, or was never created. -/
def ClientProcess.Ended (s : ClientProcess) (t : ClientThread) : Prop :=
  s.started t = false ∨ s.Exited t

structure ClientProcess.Sound (s : ClientProcess) : Prop where
  before : ∀ t, s.main.before t = true → s.started t = false
  created : ∀ t, s.main.created t = true → s.started t = true
  past : ∀ t, s.main.past t = true → s.Ended t
  destroyed : s.destroyed = s.main.freed
  failed : s.failed.any (· ≠ .render) = s.main.astray

theorem sound_processStart : processStart.Sound where
  before := fun _ _ => rfl
  created := fun t ht => by cases t <;> cases ht
  past := nofun
  destroyed := rfl
  failed := rfl

theorem KeyboardMove.exited {k k' : Keyboard} {l : KeyboardLabel} (h : KeyboardMove k l k')
    (hk : k.place = .exited) : k'.place = .exited := by
  cases h with
  | type | endInput | stop => exact hk
  | wait hplace | wake hplace | leave hplace | readEnd hplace | read hplace | line hplace
  | lastLine hplace | noLine hplace | farewell hplace => exact nomatch hplace.symm.trans hk

/-- A thread that has come to its end makes no step. -/
theorem ProcessMove.exited {s s' : ClientProcess} {l : ProcessLabel} (h : ProcessMove s l s')
    {t : ClientThread} (ht : s.Exited t) : s'.Exited t := by
  cases h with
  | renderTest hplace hp =>
    cases t with
    | render => exact nomatch hplace.symm.trans ht
    | recv | send => exact ht
  | rendered hplace =>
    cases t with
    | render => exact nomatch hplace.symm.trans ht
    | recv | send => exact ht
  | recvWait hplace | recvLeave hplace | received hplace | recvEnd hplace =>
    cases t with
    | recv => exact nomatch hplace.symm.trans ht
    | render | send => exact ht
  | keyboard hmove =>
    cases t with
    | send => exact hmove.exited ht
    | render | recv => exact ht
  | _ => cases t <;> exact ht

/-- The steps of threads and of the world outside leave `main` where it is. -/
theorem ClientProcess.Sound.threads {s s' : ClientProcess} (h : s.Sound)
    (hexited : ∀ t, s.Exited t → s'.Exited t) (hmain : s'.main = s.main)
    (hstarted : s'.started = s.started) (hdestroyed : s'.destroyed = s.destroyed)
    (hfailed : s'.failed = s.failed) : s'.Sound where
  before := by
    rw [hmain, hstarted]
    exact h.before
  created := by
    rw [hmain, hstarted]
    exact h.created
  past := by
    intro t ht
    rw [hmain] at ht
    rw [ClientProcess.Ended, hstarted]
    exact (h.past t ht).imp_right (hexited t)
  destroyed := by
    rw [hmain, hdestroyed]
    exact h.destroyed
  failed := by
    rw [hmain, hfailed]
    exact h.failed

theorem sound_processMove {s s' : ClientProcess} {l : ProcessLabel} (h : s.Sound)
    (hmove : ProcessMove s l s') : s'.Sound := by
  have hexited : ∀ t, s.Exited t → s'.Exited t := fun t => hmove.exited
  cases hmove with
  | @created t hmain =>
    have hdestroyed := h.destroyed
    have hfailed := h.failed
    rw [hmain] at hdestroyed hfailed
    refine ⟨?_, ?_, fun u hu => ?_, by cases t <;> exact hdestroyed,
      by cases t <;> exact hfailed⟩
    · intro u hu
      obtain ⟨hne, hbefore⟩ := before_afterCreate hu
      exact (Function.update_of_ne hne _ _).trans (h.before u (hmain ▸ hbefore))
    · intro u hu
      by_cases hne : u = t
      · subst hne
        exact Function.update_self _ _ _
      · have hcreated := (created_afterCreate hu).resolve_left hne
        exact (Function.update_of_ne hne _ _).trans (h.created u (hmain ▸ hcreated))
    · rw [past_afterCreate] at hu
      cases hu
  | @notCreated t hmain =>
    have hdestroyed := h.destroyed
    rw [hmain] at hdestroyed
    refine ⟨by cases t <;> exact nofun, by cases t <;> exact nofun, ?_,
      by cases t <;> exact hdestroyed, by cases t <;> rfl⟩
    intro u hu
    cases t with
    | render => exact Or.inl (h.before u (hmain ▸ decide_eq_true (Nat.zero_le u.index)))
    | recv | send => cases hu
  | @joined t hmain hended =>
    have hdestroyed := h.destroyed
    have hfailed := h.failed
    rw [hmain] at hdestroyed hfailed
    refine ⟨by cases t <;> exact nofun, fun u _ => h.created u (hmain ▸ rfl), ?_,
      by cases t <;> exact hdestroyed, by cases t <;> exact hfailed⟩
    intro u hu
    rcases past_afterJoin hu with rfl | hpast
    · exact Or.inr hended
    · exact h.past u (hmain ▸ hpast)
  | closed hmain =>
    have hdestroyed := h.destroyed
    have hfailed := h.failed
    rw [hmain] at hdestroyed hfailed
    exact ⟨nofun, nofun, fun t _ => h.past t (hmain ▸ rfl), hdestroyed, hfailed⟩
  | destroyed hmain =>
    have hfailed := h.failed
    rw [hmain] at hfailed
    exact ⟨nofun, nofun, fun t _ => h.past t (hmain ▸ rfl), rfl, hfailed⟩
  | destroyedFirst hmain =>
    have hfailed := h.failed
    rw [hmain] at hfailed
    exact ⟨nofun, nofun, nofun, rfl, hfailed⟩
  | closedLast hmain hcontext =>
    rw [h.destroyed, hmain] at hcontext
    cases hcontext
  | _ => exact h.threads hexited rfl rfl rfl rfl

theorem sound_process {labels : List ProcessLabel} {s : ClientProcess}
    (hrun : run processStep processStart labels = .ok s) : s.Sound :=
  run_invariant (fun _ _ _ h hok => sound_processMove h (processMove_of_step hok))
    sound_processStart hrun

/-! ## Steps that fail -/

theorem keyboardStep_error {k : Keyboard} {l : KeyboardLabel} {e : Stuck}
    (h : keyboardStep k l = .error e) : e = .blocked := by
  cases l <;> simp only [keyboardStep] at h <;> (repeat' split at h) <;> cases h <;> rfl

theorem useContext_error {s : ClientProcess} {e : Stuck} (h : s.useContext = .error e) :
    s.destroyed = true := by
  simp only [ClientProcess.useContext] at h
  split at h
  · assumption
  · cases h

theorem bind_error {x : Except Stuck Unit} {f : Unit → Except Stuck ClientProcess} {e : Stuck}
    (h : (x >>= f) = .error e) (hf : ∀ u, f u ≠ .error e) : x = .error e := by
  cases x with
  | error e' =>
    cases h
    rfl
  | ok u => exact absurd h (hf u)

/-- Only a thread that uses the context after it was freed follows a dangling pointer. -/
theorem destroyed_of_dangling {s : ClientProcess} {l : ProcessLabel}
    (h : processStep s l = .error .danglingPointer) : s.main ≠ .returned ∧ s.destroyed = true := by
  simp only [processStep] at h
  split at h
  · cases h
  · next hmain =>
    refine ⟨hmain, ?_⟩
    cases l with
    | create t ok =>
      simp only [createStep] at h
      repeat' split at h
      all_goals cases h
    | main =>
      simp only [mainStep] at h
      split at h
      · split at h <;> cases h
      · exact useContext_error (bind_error h nofun)
      · cases h
      · cases h
      · exact useContext_error (bind_error h nofun)
      · cases h
    | render =>
      simp only [renderStep] at h
      split at h
      · cases h
      · exact useContext_error (bind_error h nofun)
      · cases h
    | receiver count =>
      simp only [recvStep] at h
      split at h
      · split at h
        · exact useContext_error (bind_error h nofun)
        · cases h
      · split at h
        · exact useContext_error (bind_error h nofun)
        · split at h
          · exact useContext_error (bind_error h nofun)
          · cases h
      · cases h
    | keyboard l =>
      simp only [sendStep] at h
      split at h
      · cases hk : keyboardStep s.keyboard l with
        | error e =>
          rw [hk] at h
          cases h
          cases keyboardStep_error hk
        | ok k =>
          simp only [hk, bind, Except.bind] at h
          split at h
          · cases h
          · exact useContext_error (bind_error h nofun)
      · cases h
    | arrive | hangUp => cases h

/-- **The context outlives the threads.** In every run of the threads, the server and the person
at the keyboard: some step uses the context after it was freed exactly if `main` is about to close
the socket behind `manager_destroy`. It comes there only if the second or the third thread could
not be created; otherwise no thread runs any more when `main` returns. -/
theorem context_outlives_threads (labels : List ProcessLabel) (s : ClientProcess)
    (hrun : run processStep processStart labels = .ok s) :
    ((∃ l, processStep s l = .error .danglingPointer) ↔ s.main = .closeLast) ∧
      (s.main.astray = true ↔ s.failed = some .recv ∨ s.failed = some .send) ∧
      (s.main = .returned → ∀ t, s.Ended t) := by
  have h := sound_process hrun
  refine ⟨⟨?_, ?_⟩, ?_, fun hmain t => h.past t (hmain ▸ rfl)⟩
  · rintro ⟨l, hl⟩
    obtain ⟨hreturned, hdestroyed⟩ := destroyed_of_dangling hl
    rw [h.destroyed, MainPlace.freed, decide_eq_true_eq] at hdestroyed
    exact hdestroyed.resolve_right hreturned
  · intro hmain
    have hdestroyed := h.destroyed
    rw [hmain] at hdestroyed
    refine ⟨.main, ?_⟩
    simp only [processStep, mainStep, hmain, ClientProcess.useContext, hdestroyed]
    rfl
  · rw [← h.failed]
    cases s.failed with
    | none => decide
    | some t => cases t <;> decide

/-- The second thread could not be created. -/
def recvNotCreated : List ProcessLabel :=
  [.create .render true, .render, .create .recv false, .main]

theorem context_outlives_threads_recvNotCreated : ∃ s,
    run processStep processStart recvNotCreated = .ok s ∧ s.render = .frame ∧
      ∃ l, processStep s l = .error .danglingPointer := by
  obtain ⟨s, hs, hrender, hmain⟩ : ∃ s, run processStep processStart recvNotCreated = .ok s ∧
      s.render = .frame ∧ s.main = .closeLast := ⟨_, rfl, rfl, rfl⟩
  exact ⟨s, hs, hrender, (context_outlives_threads recvNotCreated s hs).1.mpr hmain⟩

end BallGame.Protocol
