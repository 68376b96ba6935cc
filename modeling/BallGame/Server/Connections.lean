import BallGame.Server.Transitions

/-!
# Commands and connections

Tasks, balls and entries of the client list name a connection by the number of its socket, and
`accept` hands a number out again as soon as its socket is closed. A task acts on whatever
carries its number when it is executed, which is the connection that sent it as long as no
number is handed out that something still carries.

* `carries_step`: only `accept` ties a number to another connection;
* `commands_act_on_own_connection`: an execution leaves other numbers alone, and other
  connections if its number was free of older tasks, events, balls and clients whenever it was
  accepted;
* `stale_exit_removes_other`: a second `x` of a client removes the client that was accepted
  under its number in between.
-/

namespace BallGame.Server

open Library

variable {W : Type}

/-! ## What carries a number -/

/-- The client the main thread is about. A received task is on its way to the queue. -/
def MainPhase.client : MainPhase → Option (Int × Conn)
  | .idle => none
  | .accepted csock conn => some (csock, conn)
  | .listed csock conn => some (csock, conn)
  | .counted csock conn => some (csock, conn)
  | .received _ => none
  | .hungUp fd conn => some (fd, conn)
  | .removed fd conn => some (fd, conn)

/-- A task between its arrival and the end of its execution. -/
def InFlight (s : ServerState W) (t : ConnTask) : Prop :=
  t ∈ waiting s ∨ ∃ w, Holding s w t ∨ (s.workers w).phase = .exiting t

/-- Something that carries the number `f` belongs to the connection `c`. -/
inductive Carries (s : ServerState W) (f : Int) (c : Conn) : Prop where
  | ball {n : Nat × LogicalBall} (h : n ∈ s.nodes) (ho : n.2.ownerId = f)
      (hc : s.history.creator n.1 = c)
  | client {ctx : SocketContext Conn} (h : ctx ∈ s.clientList) (hf : ctx.csock = f)
      (hc : ctx.cliaddr = c)
  | socket (h : s.socket f = some c)
  | event (h : Event.client f c ∈ s.events)
  | main (h : s.main.client = some (f, c))
  | task {t : ConnTask} (h : InFlight s t) (hf : t.task.fd = f) (hc : t.conn = c)

theorem claim_creator_of_mem {h : History} {old : List (Nat × LogicalBall)} {conn : Conn}
    {n : Nat × LogicalBall} (hn : n ∈ old) : (h.claim old conn).creator n.1 = h.creator n.1 :=
  if_pos (List.mem_map_of_mem hn)

theorem claim_creator_of_new {h : History} {old : List (Nat × LogicalBall)} {conn : Conn}
    {n : Nat × LogicalBall} (hn : n.1 ∉ old.map Prod.fst) :
    (h.claim old conn).creator n.1 = conn :=
  if_neg hn

/-- A command for `o` claims the balls it creates. -/
theorem carries_served {s : ServerState W} {o : Int} {conn : Conn} (hconn : Carries s o conn)
    {creates : Prop} {ns' : List (Nat × LogicalBall)} (h : Serves o creates s.nodes ns')
    {n : Nat × LogicalBall} (hn : n ∈ ns') :
    Carries s n.2.ownerId ((s.history.claim s.nodes conn).creator n.1) := by
  cases ho : nodeOwnedBy o n with
  | true =>
    have hown : n.2.ownerId = o := of_decide_eq_true ho
    rcases h.own n hn ho with ⟨n₀, hn₀, haddr, ho₀⟩ | ⟨_, hnew⟩
    · rw [← haddr, claim_creator_of_mem hn₀]
      exact .ball hn₀ ((of_decide_eq_true ho₀ : n₀.2.ownerId = o).trans hown.symm) rfl
    · rw [claim_creator_of_new hnew, hown]
      exact hconn
  | false =>
    have hmem : n ∈ ns'.filter fun n => !nodeOwnedBy o n :=
      List.mem_filter.mpr ⟨hn, by rw [ho]; rfl⟩
    rw [h.others] at hmem
    have hold := (List.mem_filter.mp hmem).1
    rw [claim_creator_of_mem hold]
    exact .ball hold rfl rfl

theorem carries_deleted {s : ServerState W} (hs : s.Sound) {fd : Int} {balls : BallListManager}
    (hballs : eventStep s.ballListManager (.disconnect fd) = .ok balls)
    {n : Nat × LogicalBall} (hn : n ∈ balls.nodes) :
    Carries s n.2.ownerId (s.history.creator n.1) := by
  rw [eventStep_disconnect_nodes hs.balls hballs] at hn
  exact .ball (List.mem_filter.mp hn).1 rfl rfl

theorem socket_of_afterRemoval (s : ServerState W) (fd : Int)
    (clients : ClientListManager Conn) {f : Int} {c : Conn}
    (h : (afterRemoval s fd clients).socket f = some c) : s.socket f = some c := by
  rw [afterRemoval] at h
  cases hclient : s.client fd with
  | none => rwa [hclient] at h
  | some ctx =>
    rw [hclient] at h
    have hupdate : Function.update s.socket ctx.csock none f = some c := h
    by_cases hf : f = ctx.csock
    · rw [hf, Function.update_self] at hupdate
      cases hupdate
    · rwa [Function.update_of_ne hf] at hupdate

theorem InFlight.congr {s s' : ServerState W} {t : ConnTask} (h : InFlight s' t)
    (hworkers : s'.workers = s.workers) (hwaiting : waiting s' = waiting s) : InFlight s t := by
  rcases h with h | ⟨w, h⟩
  · exact Or.inl (hwaiting ▸ h)
  · exact Or.inr ⟨w, by rwa [Holding, hworkers] at h⟩

/-! ## Numbers name connections -/

/-- The number is free when it is accepted: nothing carries it. -/
def FreshAt (f : Int) (s : ServerState W) : Label W → Prop
  | .accept csock => csock = f → ∀ c, ¬ Carries s f c
  | _ => True

/-- Every accepted number is free. -/
def FreshNumber (s : ServerState W) : Label W → Prop
  | .accept csock => ∀ c, ¬ Carries s csock c
  | _ => True

/-- Every accepted number is a new one. -/
def NewNumber (s : ServerState W) : Label W → Prop
  | .accept csock => s.history.holder csock = none
  | _ => True

/-- No two numbers had the same connection, and connections are numbered as they come. -/
structure Holders (s : ServerState W) : Prop where
  unique : ∀ f f' c, s.history.holder f = some c → s.history.holder f' = some c → f = f'
  bound : ∀ f c, s.history.holder f = some c → c < s.accepted

/-- Everything that carries the number belongs to the last connection with it. -/
def TiedAt (f : Int) (s : ServerState W) : Prop := ∀ c, Carries s f c → s.history.holder f = some c

def Tied (s : ServerState W) : Prop := ∀ f, TiedAt f s

/-- What holds in every run. -/
structure Numbered (s : ServerState W) : Prop where
  sound : s.Sound
  holders : Holders s
  received : ∀ t, InFlight s t → t ∈ s.history.received
  /-- A connection has one number. -/
  single : ∀ f f' c, Carries s f c → Carries s f' c → f = f'
  bound : ∀ f c, Carries s f c → c < s.accepted

theorem not_inFlight_start {t : ConnTask} : ¬ InFlight (start : ServerState W) t := by
  rintro (h | ⟨w, h | h⟩)
  · rw [waiting, queued_start] at h
    cases h
  · cases h
  · cases h

theorem not_carries_start {f : Int} {c : Conn} : ¬ Carries (start : ServerState W) f c := by
  intro h
  cases h with
  | ball h => cases h
  | client h => cases h
  | socket h => cases h
  | event h => cases h
  | main h => cases h
  | task h => exact not_inFlight_start h

theorem numbered_start : Numbered (start : ServerState W) where
  sound := sound_start
  holders := by
    refine ⟨fun f f' c h => ?_, fun f c h => ?_⟩ <;> cases h
  received := fun _ h => absurd h not_inFlight_start
  single := fun _ _ _ h => absurd h not_carries_start
  bound := fun _ _ h => absurd h not_carries_start

theorem tied_start : Tied (start : ServerState W) := fun _ _ h => absurd h not_carries_start

/-- What carries the number of a connection is what carries the connection. -/
theorem conn_eq_iff {s : ServerState W} (hn : Numbered s) {fd : Int} (htied : TiedAt fd s)
    {conn : Conn} (hfd : Carries s fd conn) {f : Int} {c : Conn} (h : Carries s f c) :
    c = conn ↔ f = fd := by
  constructor
  · rintro rfl
    exact hn.single _ _ _ h hfd
  · rintro rfl
    have hholder := htied _ h
    rw [htied _ hfd] at hholder
    exact (Option.some.inj hholder).symm

/-! ## Only `accept` ties a number to a connection -/

variable [DecidableEq W]

/-- A worker that moves has a task that was in flight. -/
theorem InFlight.of_setWorker {s u : ServerState W} {w : W} {worker : Worker} {t : ConnTask}
    (h : InFlight (setWorker u w worker) t) (hworkers : u.workers = s.workers)
    (hwaiting : ∀ t ∈ waiting u, InFlight s t)
    (hself : ∀ t, worker.phase = .holding t ∨ worker.phase = .exiting t → InFlight s t) :
    InFlight s t := by
  rcases h with h | ⟨w', h⟩
  · exact hwaiting t h
  · rw [Holding, phase_setWorker, phase_setWorker, hworkers] at h
    rcases h with (⟨_, h⟩ | ⟨_, h⟩) | (⟨_, h⟩ | ⟨_, h⟩)
    · exact hself t (Or.inl h)
    · exact Or.inr ⟨w', Or.inl h⟩
    · exact hself t (Or.inr h)
    · exact Or.inr ⟨w', Or.inr h⟩

/-- A task in flight was so before, or it has just been received. -/
theorem inFlight_step {s s' : ServerState W} {l : Label W} (ht : Transition s l s') {t : ConnTask}
    (h : InFlight s' t) :
    InFlight s t ∨ (s.socket t.task.fd = some t.conn ∧ s'.history.received =
      s.history.received ++ [t]) := by
  cases ht with
  | epollWait => exact Or.inl h
  | accept hmain => exact Or.inl (h.congr rfl (by rw [waiting, waiting, hmain]; rfl))
  | skipEvent => exact Or.inl h
  | addClient hmain => exact Or.inl (h.congr rfl (by rw [waiting, waiting, hmain]; rfl))
  | countClient hmain => exact Or.inl (h.congr rfl (by rw [waiting, waiting, hmain]; rfl))
  | addInitialBalls hmain => exact Or.inl (h.congr rfl (by rw [waiting, waiting, hmain]; rfl))
  | recvData hmain hevents hsocket ht =>
    rcases h with h | h
    · rcases List.mem_append.mp h with h | h
      · exact Or.inl (Or.inl (List.mem_append_left _ h))
      · obtain rfl := List.mem_singleton.mp h
        exact Or.inr ⟨by rw [ht]; exact hsocket, rfl⟩
    · exact Or.inl (Or.inr h)
  | recvEnd hmain => exact Or.inl (h.congr rfl (by rw [waiting, waiting, hmain]; rfl))
  | push hmain hqueue =>
    refine Or.inl (h.congr rfl ?_)
    rw [waiting, waiting, hmain, ServerState.queued, hqueue]
    exact List.append_nil _
  | hangUpRemove hmain => exact Or.inl (h.congr rfl (by rw [waiting, waiting, hmain]; rfl))
  | hangUpDelete hmain => exact Or.inl (h.congr rfl (by rw [waiting, waiting, hmain]; rfl))
  | pop hworker hqueue =>
    have hwaiting : ∀ u ∈ waiting s, InFlight s u := fun u hu => Or.inl hu
    rw [waiting, hqueue] at hwaiting
    refine Or.inl (h.of_setWorker rfl ?_ ?_)
    · intro u hu
      exact hwaiting u (List.mem_cons_of_mem _ hu)
    · intro u hu
      rcases hu with hu | hu
      · cases hu
        exact hwaiting _ (List.mem_cons_self ..)
      · cases hu
  | refuse hworker =>
    refine Or.inl (h.of_setWorker rfl (fun u hu => Or.inl hu) ?_)
    intro u hu
    rcases hu with hu | hu <;> cases hu
  | exit hworker =>
    refine Or.inl (h.of_setWorker rfl (fun u hu => Or.inl hu) ?_)
    intro u hu
    rcases hu with hu | hu
    · cases hu
    · cases hu
      exact Or.inr ⟨_, Or.inl hworker⟩
  | dispatch hworker =>
    refine Or.inl (h.of_setWorker rfl (fun u hu => Or.inl hu) ?_)
    intro u hu
    rcases hu with hu | hu <;> cases hu
  | exitDelete hworker =>
    refine Or.inl (h.of_setWorker rfl (fun u hu => Or.inl hu) ?_)
    intro u hu
    rcases hu with hu | hu <;> cases hu
  | tick => exact Or.inl h

theorem creator_step {s s' : ServerState W} (hs : s.Sound) {l : Label W}
    (ht : Transition s l s') {n : Nat × LogicalBall} (hn : n ∈ s'.nodes) :
    Carries s n.2.ownerId (s'.history.creator n.1) := by
  cases ht with
  | epollWait => exact .ball hn rfl rfl
  | accept => exact .ball hn rfl rfl
  | skipEvent => exact .ball hn rfl rfl
  | addClient => exact .ball hn rfl rfl
  | countClient => exact .ball hn rfl rfl
  | addInitialBalls hmain hballs =>
    exact carries_served (.main (by rw [hmain]; rfl)) (eventStep_command hs.balls hballs) hn
  | recvData => exact .ball hn rfl rfl
  | recvEnd => exact .ball hn rfl rfl
  | push => exact .ball hn rfl rfl
  | hangUpRemove => exact .ball hn rfl rfl
  | hangUpDelete hmain hballs => exact carries_deleted hs hballs hn
  | pop => exact .ball hn rfl rfl
  | refuse => exact .ball hn rfl rfl
  | exit => exact .ball hn rfl rfl
  | dispatch hworker hball hballs =>
    exact carries_served (.task (Or.inr ⟨_, Or.inl hworker⟩) rfl rfl)
      (eventStep_command hs.balls hballs) hn
  | exitDelete hworker hballs => exact carries_deleted hs hballs hn
  | tick hballs =>
    rw [ServerState.nodes, eventStep_tick_nodes hs.balls hballs] at hn
    obtain ⟨n₀, hn₀, rfl⟩ := List.mem_map.mp hn
    exact .ball hn₀ rfl rfl

theorem client_step {s s' : ServerState W} {l : Label W} (ht : Transition s l s')
    {ctx : SocketContext Conn} (h : ctx ∈ s'.clientList) : Carries s ctx.csock ctx.cliaddr := by
  cases ht with
  | epollWait => exact .client h rfl rfl
  | accept => exact .client h rfl rfl
  | skipEvent => exact .client h rfl rfl
  | addClient hmain hclients =>
    rw [ServerState.clientList, hclients] at h
    split at h
    · rcases List.mem_append.mp h with h | h
      · exact .client h rfl rfl
      · obtain rfl := List.mem_singleton.mp h
        exact .main (by rw [hmain]; rfl)
    · exact .client h rfl rfl
  | countClient hmain hclients =>
    rw [ServerState.clientList, hclients] at h
    exact .client h rfl rfl
  | addInitialBalls => exact .client h rfl rfl
  | recvData => exact .client h rfl rfl
  | recvEnd => exact .client h rfl rfl
  | push => exact .client h rfl rfl
  | @hangUpRemove fd conn clients hmain hclients =>
    have h' : ctx ∈ clients.toList := h
    exact .client (List.mem_of_mem_eraseP (hclients ▸ h')) rfl rfl
  | hangUpDelete => exact .client h rfl rfl
  | pop => exact .client h rfl rfl
  | refuse => exact .client h rfl rfl
  | @exit w env t count radius clients hworker hexit hclients =>
    have h' : ctx ∈ clients.toList := h
    exact .client (List.mem_of_mem_eraseP (hclients ▸ h')) rfl rfl
  | dispatch => exact .client h rfl rfl
  | exitDelete => exact .client h rfl rfl
  | tick => exact .client h rfl rfl

theorem socket_step {s s' : ServerState W} {l : Label W} (ht : Transition s l s') {f : Int}
    {c : Conn} (h : s'.socket f = some c) :
    Carries s f c ∨ (l = .accept f ∧ c = s.accepted) := by
  cases ht with
  | epollWait => exact Or.inl (.socket h)
  | @accept csock rest hmain hevents hfree =>
    by_cases hf : f = csock
    · subst hf
      have h' : Function.update s.socket f (some s.accepted) f = some c := h
      rw [Function.update_self] at h'
      exact Or.inr ⟨rfl, (Option.some.inj h').symm⟩
    · have h' : Function.update s.socket csock (some s.accepted) f = some c := h
      rw [Function.update_of_ne hf] at h'
      exact Or.inl (.socket h')
  | skipEvent => exact Or.inl (.socket h)
  | addClient => exact Or.inl (.socket h)
  | countClient => exact Or.inl (.socket h)
  | addInitialBalls => exact Or.inl (.socket h)
  | recvData => exact Or.inl (.socket h)
  | recvEnd => exact Or.inl (.socket h)
  | push => exact Or.inl (.socket h)
  | @hangUpRemove fd conn clients =>
    exact Or.inl (.socket (socket_of_afterRemoval s fd clients h))
  | hangUpDelete => exact Or.inl (.socket h)
  | pop => exact Or.inl (.socket h)
  | refuse => exact Or.inl (.socket h)
  | @exit w env t count radius clients =>
    exact Or.inl (.socket (socket_of_afterRemoval (afterExecution s t) t.task.fd clients h))
  | dispatch => exact Or.inl (.socket h)
  | exitDelete => exact Or.inl (.socket h)
  | tick => exact Or.inl (.socket h)

theorem event_step {s s' : ServerState W} {l : Label W} (ht : Transition s l s') {f : Int}
    {c : Conn} (h : Event.client f c ∈ s'.events) : Carries s f c := by
  cases ht with
  | epollWait hmain hevents hready => exact .socket (hready _ h)
  | accept hmain hevents => exact .event (hevents ▸ List.mem_cons_of_mem _ h)
  | skipEvent hmain hevents => exact .event (hevents ▸ List.mem_cons_of_mem _ h)
  | addClient => exact .event h
  | countClient => exact .event h
  | addInitialBalls => exact .event h
  | recvData hmain hevents => exact .event (hevents ▸ List.mem_cons_of_mem _ h)
  | recvEnd hmain hevents => exact .event (hevents ▸ List.mem_cons_of_mem _ h)
  | push => exact .event h
  | hangUpRemove => exact .event h
  | hangUpDelete => exact .event h
  | pop => exact .event h
  | refuse => exact .event h
  | exit => exact .event h
  | dispatch => exact .event h
  | exitDelete => exact .event h
  | tick => exact .event h

theorem main_step {s s' : ServerState W} {l : Label W} (ht : Transition s l s') {f : Int}
    {c : Conn} (h : s'.main.client = some (f, c)) :
    Carries s f c ∨ (l = .accept f ∧ c = s.accepted) := by
  cases ht with
  | epollWait => exact Or.inl (.main h)
  | accept hmain hevents hfree =>
    cases h
    exact Or.inr ⟨rfl, rfl⟩
  | skipEvent => exact Or.inl (.main h)
  | addClient hmain => exact Or.inl (.main (by rw [hmain]; exact h))
  | countClient hmain => exact Or.inl (.main (by rw [hmain]; exact h))
  | addInitialBalls => cases h
  | recvData => cases h
  | recvEnd hmain hevents =>
    cases h
    exact Or.inl (.event (hevents ▸ List.mem_cons_self ..))
  | push => cases h
  | hangUpRemove hmain => exact Or.inl (.main (by rw [hmain]; exact h))
  | hangUpDelete => cases h
  | pop => exact Or.inl (.main h)
  | refuse => exact Or.inl (.main h)
  | exit => exact Or.inl (.main h)
  | dispatch => exact Or.inl (.main h)
  | exitDelete => exact Or.inl (.main h)
  | tick => exact Or.inl (.main h)

/-- **The step lemma.** Only `accept` ties a number to another connection. -/
theorem carries_step {s s' : ServerState W} (hs : s.Sound) {l : Label W}
    (ht : Transition s l s') {f : Int} {c : Conn} (h : Carries s' f c) :
    Carries s f c ∨ (l = .accept f ∧ c = s.accepted) := by
  cases h with
  | ball h ho hc => exact Or.inl (ho ▸ hc ▸ creator_step hs ht h)
  | client h hf hc => exact Or.inl (hf ▸ hc ▸ client_step ht h)
  | socket h => exact socket_step ht h
  | event h => exact Or.inl (event_step ht h)
  | main h => exact main_step ht h
  | task h hf hc =>
    subst hf hc
    rcases inFlight_step ht h with h | ⟨h, _⟩
    · exact Or.inl (.task h rfl rfl)
    · exact Or.inl (.socket h)

theorem holder_step {s s' : ServerState W} {l : Label W} (ht : Transition s l s') :
    (s'.history.holder = s.history.holder ∧ s'.accepted = s.accepted ∧ ∀ csock, l ≠ .accept csock) ∨
      ∃ csock, l = .accept csock ∧ s'.accepted = s.accepted + 1 ∧
        s'.history.holder = Function.update s.history.holder csock (some s.accepted) := by
  cases ht with
  | accept => exact Or.inr ⟨_, rfl, rfl, rfl⟩
  | _ => exact Or.inl ⟨rfl, rfl, fun csock hl => by cases hl⟩

theorem holders_step {s s' : ServerState W} {l : Label W} (h : Holders s)
    (ht : Transition s l s') : Holders s' := by
  rcases holder_step ht with ⟨hholder, haccepted, _⟩ | ⟨csock, _, haccepted, hholder⟩
  · refine ⟨?_, ?_⟩
    · rw [hholder]
      exact h.unique
    · rw [hholder, haccepted]
      exact h.bound
  · have hother : ∀ f c, s'.history.holder f = some c → f ≠ csock →
        s.history.holder f = some c := by
      intro f c hf hne
      rwa [hholder, Function.update_of_ne hne] at hf
    have hself : ∀ c, s'.history.holder csock = some c → c = s.accepted := by
      intro c hc
      rw [hholder, Function.update_self] at hc
      exact (Option.some.inj hc).symm
    constructor
    · intro f f' c hf hf'
      by_cases hne : f = csock
      · by_cases hne' : f' = csock
        · rw [hne, hne']
        · have hlt := h.bound f' c (hother f' c hf' hne')
          rw [hself c (hne ▸ hf)] at hlt
          exact absurd hlt (Nat.lt_irrefl _)
      · by_cases hne' : f' = csock
        · have hlt := h.bound f c (hother f c hf hne)
          rw [hself c (hne' ▸ hf')] at hlt
          exact absurd hlt (Nat.lt_irrefl _)
        · exact h.unique f f' c (hother f c hf hne) (hother f' c hf' hne')
    · intro f c hf
      rw [haccepted]
      by_cases hne : f = csock
      · rw [hself c (hne ▸ hf)]
        exact Nat.lt_succ_self _
      · exact Nat.lt_succ_of_lt (h.bound f c (hother f c hf hne))

theorem tiedAt_step {s s' : ServerState W} (hs : s.Sound) {l : Label W} {f : Int} (h : TiedAt f s)
    (hl : FreshAt f s l) (ht : Transition s l s') : TiedAt f s' := by
  intro c hcarries
  rcases holder_step ht with ⟨hholder, _, hne⟩ | ⟨csock, rfl, _, hholder⟩
  · rw [hholder]
    rcases carries_step hs ht hcarries with hold | ⟨rfl, _⟩
    · exact h c hold
    · exact absurd rfl (hne f)
  · rw [hholder]
    rcases carries_step hs ht hcarries with hold | ⟨hf, rfl⟩
    · have hne : f ≠ csock := by
        rintro rfl
        exact hl rfl c hold
      rw [Function.update_of_ne hne]
      exact h c hold
    · obtain rfl : csock = f := by
        cases hf
        rfl
      rw [Function.update_self]

omit [DecidableEq W] in
theorem FreshNumber.at {s : ServerState W} {l : Label W} (h : FreshNumber s l) (f : Int) :
    FreshAt f s l := by
  cases l with
  | accept csock =>
    rintro rfl
    exact h
  | _ => trivial

/-- A connection keeps its number. -/
theorem single_step {s s' : ServerState W} {l : Label W} (hn : Numbered s)
    (ht : Transition s l s') : (∀ f f' c, Carries s' f c → Carries s' f' c → f = f') ∧
      ∀ f c, Carries s' f c → c < s'.accepted := by
  constructor
  · intro f f' c h h'
    rcases carries_step hn.sound ht h with hold | ⟨hl, hc⟩
    · rcases carries_step hn.sound ht h' with hold' | ⟨_, hc⟩
      · exact hn.single f f' c hold hold'
      · exact absurd (hn.bound f c hold) (hc ▸ Nat.lt_irrefl _)
    · rcases carries_step hn.sound ht h' with hold' | ⟨hl', _⟩
      · exact absurd (hn.bound f' c hold') (hc ▸ Nat.lt_irrefl _)
      · cases hl.symm.trans hl'
        rfl
  · intro f c h
    rcases holder_step ht with ⟨_, haccepted, hne⟩ | ⟨csock, _, haccepted, _⟩
    · rcases carries_step hn.sound ht h with hold | ⟨hl, _⟩
      · exact haccepted ▸ hn.bound f c hold
      · exact absurd hl (hne f)
    · rw [haccepted]
      rcases carries_step hn.sound ht h with hold | ⟨_, rfl⟩
      · exact Nat.lt_succ_of_lt (hn.bound f c hold)
      · exact Nat.lt_succ_self _

/-! ## Executions -/

/-- A worker executes the task, or deletes the balls after an `x`. -/
def Executes (s : ServerState W) (t : ConnTask) (s' : ServerState W) : Prop :=
  ∃ w, (Holding s w t ∧ ∃ env, step s (.execute w env) = .ok s') ∨
    ((s.workers w).phase = .exiting t ∧ step s (.exitDelete w) = .ok s')

theorem Serves.congr_of_none {o : Int} {creates : Prop} {ns ns' : List (Nat × LogicalBall)}
    (h : Serves o creates ns ns') (hnone : ∀ n ∈ ns, nodeOwnedBy o n = false)
    (hcreates : ¬ creates) : ns' = ns := by
  have hnone' : ∀ n ∈ ns', (!nodeOwnedBy o n) = true := by
    intro n hn
    cases ho : nodeOwnedBy o n with
    | false => rfl
    | true =>
      rcases h.own n hn ho with ⟨n₀, hn₀, _, ho₀⟩ | ⟨hc, _⟩
      · rw [hnone n₀ hn₀] at ho₀
        cases ho₀
      · exact absurd hc hcreates
  rw [← List.filter_eq_self.mpr hnone', h.others]
  exact List.filter_eq_self.mpr fun n hn => by rw [hnone n hn]; rfl

/-- **What an execution does:** it serves the number in the task. -/
theorem executes_ok {s s' : ServerState W} (hs : s.Sound) {t : ConnTask} (h : Executes s t s') :
    Serves t.task.fd (t.command.1 = cmdAdd) s.nodes s'.nodes ∧
      (s'.clientList = s.clientList ∨
        s'.clientList = s.clientList.eraseP fun c => c.csock = t.task.fd) := by
  obtain ⟨w, ⟨hholding, env, hok⟩ | ⟨hexiting, hok⟩⟩ := h
  · have htrans := (transition_of_step hs hok).2
    cases htrans with
    | refuse hworker hexit hball =>
      exact ⟨(Serves.refl _ _).mono False.elim, Or.inl rfl⟩
    | exit hworker hexit hclients =>
      rw [Holding, hworker] at hholding
      cases hholding
      exact ⟨(Serves.refl _ _).mono False.elim, Or.inr hclients⟩
    | dispatch hworker hball hballs =>
      rw [Holding, hworker] at hholding
      cases hholding
      exact ⟨(eventStep_command hs.balls hballs).mono fun hc => hc.2.1, Or.inl rfl⟩
  · have htrans := (transition_of_step hs hok).2
    cases htrans with
    | exitDelete hworker hballs =>
      rw [hexiting] at hworker
      cases hworker
      exact ⟨(eventStep_disconnect_serves hs.balls hballs).mono False.elim, Or.inl rfl⟩

theorem Executes.clients {s s' : ServerState W} (hs : s.Sound) {t : ConnTask}
    (h : Executes s t s') {q : SocketContext Conn → Bool}
    (hq : ∀ c ∈ s.clientList, c.csock = t.task.fd → q c = false) :
    s'.clientList.filter q = s.clientList.filter q := by
  rcases (executes_ok hs h).2 with hclients | hclients
  · rw [hclients]
  · rw [hclients]
    exact filter_eraseP_of_disjoint fun c hc hfd => hq c hc (of_decide_eq_true hfd)

theorem Executes.inFlight {s s' : ServerState W} {t : ConnTask} (h : Executes s t s') :
    InFlight s t := by
  obtain ⟨w, ⟨hholding, _⟩ | ⟨hexiting, _⟩⟩ := h
  · exact Or.inr ⟨w, Or.inl hholding⟩
  · exact Or.inr ⟨w, Or.inr hexiting⟩

theorem Executes.step {s s' : ServerState W} {t : ConnTask} (h : Executes s t s') :
    ∃ l, Server.step s l = .ok s' ∧ ∀ csock, l ≠ .accept csock := by
  obtain ⟨w, ⟨_, env, hok⟩ | ⟨_, hok⟩⟩ := h
  · exact ⟨_, hok, fun csock hl => by cases hl⟩
  · exact ⟨_, hok, fun csock hl => by cases hl⟩

theorem received_step {s s' : ServerState W} {l : Label W} (ht : Transition s l s') :
    ∃ ts, s'.history.received = s.history.received ++ ts := by
  cases ht with
  | recvData => exact ⟨_, rfl⟩
  | _ => exact ⟨[], (List.append_nil _).symm⟩

theorem numbered_step {s s' : ServerState W} {l : Label W} (h : Numbered s)
    (hok : step s l = .ok s') : Numbered s' := by
  obtain ⟨hs', ht⟩ := transition_of_step h.sound hok
  obtain ⟨hsingle, hbound⟩ := single_step h ht
  refine ⟨hs', holders_step h.holders ht, ?_, hsingle, hbound⟩
  intro t hin
  rcases inFlight_step ht hin with hin | ⟨_, hreceived⟩
  · obtain ⟨ts, hts⟩ := received_step ht
    rw [hts]
    exact List.mem_append_left _ (h.received t hin)
  · rw [hreceived]
    exact List.mem_append_right _ (List.mem_singleton_self t)

/-- The step takes a client off the list because this client sent `x` or hung up. -/
def RemovesItself (s : ServerState W) (conn : Conn) : Label W → Prop
  | .execute w _ => ∃ t ∈ s.history.received, Holding s w t ∧ t.conn = conn ∧ t.command.1 = cmdExit
  | .hangUpRemove => ∃ fd, s.main = .hungUp fd conn
  | _ => False

theorem removesItself_of_gone {s s' : ServerState W} (hn : Numbered s) {l : Label W}
    (hok : step s l = .ok s') {ctx : SocketContext Conn} (htied : TiedAt ctx.csock s)
    (hbefore : ctx ∈ s.clientList) (hafter : ctx ∉ s'.clientList) :
    RemovesItself s ctx.cliaddr l := by
  have hgone : ∀ {fd : Int}, ctx ∉ (s.clientList.eraseP fun c => c.csock = fd) →
      ∀ {conn : Conn}, Carries s fd conn → conn = ctx.cliaddr := by
    intro fd herase conn hconn
    have hfd : ctx.csock = fd := by
      by_contra hne
      exact herase ((List.mem_eraseP_of_neg (by simpa using hne)).mpr hbefore)
    exact (conn_eq_iff hn htied (.client hbefore rfl rfl) hconn).mpr hfd.symm
  have ht := (transition_of_step hn.sound hok).2
  cases ht with
  | addClient hmain hclients =>
    rw [ServerState.clientList, hclients] at hafter
    split at hafter
    · exact absurd (List.mem_append_left _ hbefore) hafter
    · exact absurd hbefore hafter
  | countClient hmain hclients =>
    rw [ServerState.clientList, hclients] at hafter
    exact absurd hbefore hafter
  | @hangUpRemove fd conn clients hmain hclients =>
    have hafter' : ctx ∉ clients.toList := hafter
    obtain rfl := hgone (hclients ▸ hafter') (.main (by rw [hmain]; rfl))
    exact ⟨fd, hmain⟩
  | @exit w env t count radius clients hworker hexit hclients =>
    have hafter' : ctx ∉ clients.toList := hafter
    have hflight : InFlight s t := Or.inr ⟨w, Or.inl hworker⟩
    have hconn := hgone (hclients ▸ hafter') (.task hflight rfl rfl)
    exact ⟨t, hn.received t hflight, hworker, hconn, hexit⟩
  | _ => exact absurd hbefore hafter

/-- A task serves its own connection. -/
theorem executes_own {s s' : ServerState W} (hn : Numbered s) {t : ConnTask}
    (htied : TiedAt t.task.fd s) (h : Executes s t s') :
    (s'.nodes.filter fun n => s'.history.creator n.1 ≠ t.conn) =
        (s.nodes.filter fun n => s.history.creator n.1 ≠ t.conn) ∧
      ((s'.clientList.filter fun c => c.cliaddr ≠ t.conn) =
        s.clientList.filter fun c => c.cliaddr ≠ t.conn) := by
  obtain ⟨l, hok, hl⟩ := h.step
  have ht := (transition_of_step hn.sound hok).2
  have hfd : Carries s t.task.fd t.conn := .task h.inFlight rfl rfl
  have hcreator : ∀ {n : Nat × LogicalBall} {c : Conn}, Carries s n.2.ownerId c →
      decide (c ≠ t.conn) = !nodeOwnedBy t.task.fd n := by
    intro n c hcarries
    simp [nodeOwnedBy, LogicalBall.ownedBy, conn_eq_iff hn htied hfd hcarries]
  refine ⟨?_, h.clients hn.sound ?_⟩
  · have hafter : ∀ n ∈ s'.nodes, decide (s'.history.creator n.1 ≠ t.conn) =
        !nodeOwnedBy t.task.fd n := fun n hmem => hcreator (creator_step hn.sound ht hmem)
    have hbefore : ∀ n ∈ s.nodes, decide (s.history.creator n.1 ≠ t.conn) =
        !nodeOwnedBy t.task.fd n := fun n hmem => hcreator (.ball hmem rfl rfl)
    rw [List.filter_congr hafter, List.filter_congr hbefore]
    exact (executes_ok hn.sound h).1.others
  · intro c hc hcsock
    simp [(conn_eq_iff hn htied hfd (.client hc rfl rfl)).mpr hcsock]

/-- A task of a connection that is not on the list changes no client, and without balls of the
connection only an addition changes a ball. -/
theorem executes_gone {s s' : ServerState W} (hn : Numbered s) {t : ConnTask}
    (htied : TiedAt t.task.fd s) (h : Executes s t s')
    (hgone : ∀ c ∈ s.clientList, c.cliaddr ≠ t.conn) :
    s'.clientList = s.clientList ∧ ((∀ n ∈ s.nodes, s.history.creator n.1 ≠ t.conn) →
      t.command.1 ≠ cmdAdd → s'.nodes = s.nodes) := by
  have hne : ∀ {f : Int} {c : Conn}, Carries s f c → c ≠ t.conn → f ≠ t.task.fd := by
    intro f c hcarries hc
    exact mt (conn_eq_iff hn htied (.task h.inFlight rfl rfl) hcarries).mpr hc
  obtain ⟨hserves, hclients⟩ := executes_ok hn.sound h
  refine ⟨?_, fun hballs hadd => hserves.congr_of_none ?_ hadd⟩
  · rcases hclients with hclients | hclients
    · exact hclients
    · rw [hclients]
      exact List.eraseP_of_forall_not fun c hc => by
        simpa using hne (.client hc rfl rfl) (hgone c hc)
  · intro n hmem
    exact decide_eq_false (hne (.ball hmem rfl rfl) (hballs n hmem))

/-- **Commands act on what carries their number,** and on nothing of another connection if this
number was free whenever it was accepted. -/
theorem commands_act_on_own_connection (labels : List (Label W)) (s : ServerState W)
    (hrun : run step start labels = .ok s) :
    (∀ t s', Executes s t s' →
      (s'.nodes.filter fun n => n.2.ownerId ≠ t.task.fd) =
          (s.nodes.filter fun n => n.2.ownerId ≠ t.task.fd) ∧
        (s'.clientList.filter fun c => c.csock ≠ t.task.fd) =
          s.clientList.filter fun c => c.csock ≠ t.task.fd) ∧
      ∀ fd, Throughout step (FreshAt fd) start labels →
        (∀ t s', t.task.fd = fd → Executes s t s' →
          ((s'.nodes.filter fun n => s'.history.creator n.1 ≠ t.conn) =
              (s.nodes.filter fun n => s.history.creator n.1 ≠ t.conn) ∧
            (s'.clientList.filter fun c => c.cliaddr ≠ t.conn) =
              s.clientList.filter fun c => c.cliaddr ≠ t.conn) ∧
          ((∀ c ∈ s.clientList, c.cliaddr ≠ t.conn) → s'.clientList = s.clientList ∧
            ((∀ n ∈ s.nodes, s.history.creator n.1 ≠ t.conn) → t.command.1 ≠ cmdAdd →
              s'.nodes = s.nodes))) ∧
        ∀ l s', step s l = .ok s' → ∀ c ∈ s.clientList, c.csock = fd → c ∉ s'.clientList →
          RemovesItself s c.cliaddr l := by
  have hn : Numbered s := run_invariant (fun _ _ _ h hok => numbered_step h hok) numbered_start hrun
  refine ⟨fun t s' h => ⟨?_, ?_⟩, fun fd hfresh => ?_⟩
  · simpa [nodeOwnedBy, LogicalBall.ownedBy] using (executes_ok hn.sound h).1.others
  · exact h.clients hn.sound fun c _ hc => by simp [hc]
  have htied : TiedAt fd s := (run_invariant_throughout
    (I := fun s => Numbered s ∧ TiedAt fd s) (fun s l s' hl h hok =>
      ⟨numbered_step h.1 hok, tiedAt_step h.1.sound h.2 hl (transition_of_step h.1.sound hok).2⟩)
    hfresh ⟨numbered_start, tied_start fd⟩ hrun).2
  constructor
  · rintro t s' rfl h
    exact ⟨executes_own hn htied h, executes_gone hn htied h⟩
  · rintro l s' hok c hbefore rfl hafter
    exact removesItself_of_gone hn hok htied hbefore hafter

/-- A number that was never handed out is free. -/
theorem throughout_freshAt {s : ServerState W} {labels : List (Label W)} (hn : Numbered s)
    {f : Int} (htied : TiedAt f s) (hnew : Throughout step NewNumber s labels) :
    Throughout step (FreshAt f) s labels := by
  induction labels generalizing s with
  | nil => trivial
  | cons l labels ih =>
    have hfresh : FreshAt f s l := by
      cases l with
      | accept csock =>
        rintro rfl c hcarries
        have hholder := htied _ hcarries
        rw [show s.history.holder csock = none from hnew.1] at hholder
        cases hholder
      | _ => trivial
    refine ⟨hfresh, fun s' hok => ih (numbered_step hn hok) ?_ (hnew.2 s' hok)⟩
    exact tiedAt_step hn.sound htied hfresh (transition_of_step hn.sound hok).2

/-- Two clients connect as sockets 7 and 8, and the first one sends `w`. -/
def twoClients : List (Label Unit) :=
  [.epollWait [.listener, .listener], .accept 7, .addClient (some 0), .countClient,
    .addInitialBalls zeroDraws, .accept 8, .addClient (some 0), .countClient,
    .addInitialBalls zeroDraws, .epollWait [.client 7 0], .recvData ['w'], .push, .pop ()]

theorem commands_act_on_own_connection_two_clients :
    ∃ s s', run step start twoClients = .ok s ∧ step s (.execute () zeroDraws) = .ok s' ∧
      s.nodes.map (fun n => s.history.creator n.1) = [0, 0, 0, 0, 0, 1, 1, 1, 1, 1] ∧
      (s'.nodes.filter fun n => s'.history.creator n.1 ≠ 0) =
        s.nodes.filter fun n => s.history.creator n.1 ≠ 0 := by
  obtain ⟨s, s', hs, hs', t, hheld, hfd, hconn, hcreators⟩ : ∃ s s',
      run step start twoClients = .ok s ∧ step s (.execute () zeroDraws) = .ok s' ∧
      ∃ t, Holding s () t ∧ t.task.fd = 7 ∧ t.conn = 0 ∧
      s.nodes.map (fun n => s.history.creator n.1) = [0, 0, 0, 0, 0, 1, 1, 1, 1, 1] :=
    ⟨_, _, rfl, rfl, _, rfl, rfl, rfl, rfl⟩
  refine ⟨s, s', hs, hs', hcreators, ?_⟩
  have hfresh : Throughout step (FreshAt 7) start twoClients := by
    apply throughout_freshAt numbered_start (tied_start 7)
    refine throughout_cons_of_ok rfl trivial (throughout_cons_of_ok rfl rfl ?_)
    iterate 3 refine throughout_cons_of_ok rfl trivial ?_
    refine throughout_cons_of_ok rfl rfl ?_
    iterate 7 refine throughout_cons_of_ok rfl trivial ?_
    trivial
  have h := (((commands_act_on_own_connection twoClients s hs).2 7 hfresh).1 t s' hfd
    ⟨(), Or.inl ⟨hheld, zeroDraws, hs'⟩⟩).1.1
  rw [hconn] at h
  exact h

/-- A client connects as socket 7, sends `x` twice, and is gone when another client is accepted
under the same number. -/
def exitTwice : List (Label Unit) :=
  [.epollWait [.listener], .accept 7, .addClient (some 0), .countClient,
    .addInitialBalls zeroDraws, .epollWait [.client 7 0], .recvData ['x'], .push,
    .epollWait [.client 7 0], .recvData ['x'], .push, .pop (), .execute () zeroDraws,
    .exitDelete (), .epollWait [.listener], .accept 7, .addClient (some 0), .countClient,
    .addInitialBalls zeroDraws, .pop ()]

/-- The second `x` removes the other client and deletes its balls. -/
theorem stale_exit_removes_other :
    ∃ s s₁ s₂ t, run step start exitTwice = .ok s ∧ Executes s t s₁ ∧ Executes s₁ t s₂ ∧
      t.conn = 0 ∧ s.clientList = [⟨7, 1⟩] ∧ s₁.clientList = [] ∧
      s₁.nodes.map (fun n => s₁.history.creator n.1) = [1, 1, 1, 1, 1] ∧ s₂.nodes = [] :=
  ⟨_, _, _, _, rfl, ⟨(), Or.inl ⟨rfl, zeroDraws, rfl⟩⟩, ⟨(), Or.inr ⟨rfl, rfl⟩⟩, rfl, rfl, rfl,
    rfl, rfl⟩

end BallGame.Server
