import BallGame.Protocol.Keyboard
import BallGame.Server.CommandOrder

/-!
# From the keyboard of a client to the balls

One client whose keyboard thread sends what is typed, the bytes on their way, and the server with
its workers and all its other clients. The kernel delivers the bytes in their order and cuts them
anywhere; a server thread, the keyboard thread and the person at the keyboard can all take the
next step.

* `Dialog.Sound`: what holds in every run. No byte is lost, doubled or overtaken;
* `typed_commands_applied`: the commands of the lines that were typed are applied once and in
  their order, if each is received and applied before the next one.
-/

namespace BallGame.Protocol

open Library Server

variable {W : Type}

/-! ## The system -/

structure Dialog (W : Type) where
  keyboard : Keyboard
  server : ServerState W
  /-- The strings that were sent, as far as the server has not received their bytes. -/
  wire : List (List Char)

inductive DialogLabel (W : Type) where
  | client (l : KeyboardLabel)
  | server (l : Label W)

/-- Take so many bytes off the wire. -/
def dropBytes : Nat → List (List Char) → List (List Char)
  | _, [] => []
  | n, text :: texts =>
    if n < text.length then text.drop n :: texts else dropBytes (n - text.length) texts

/-- The bytes that the step receives from the connection. -/
def recvFrom (conn : Conn) (s : ServerState W) : Label W → Option (List Char)
  | .recvData bytes =>
    match s.events with
    | .client fd _ :: _ => if s.socket fd = some conn then some bytes else none
    | _ => none
  | _ => none

def dialogStart : Dialog W := ⟨keyboardStart, start, []⟩

variable [DecidableEq W]

/-- `send` of an empty string brings nothing on its way. -/
def dialogStep (conn : Conn) (s : Dialog W) : DialogLabel W → Except Stuck (Dialog W)
  | .client l => do
    let keyboard ← keyboardStep s.keyboard l
    let texts := keyboard.sends.drop s.keyboard.sends.length
    .ok { s with keyboard := keyboard, wire := s.wire ++ texts.filter (· ≠ []) }
  | .server l => do
    let server ← step s.server l
    match recvFrom conn s.server l with
    | none => .ok { s with server := server }
    | some bytes =>
      if bytes <+: s.wire.flatten then
        .ok { s with server := server, wire := dropBytes bytes.length s.wire }
      else
        .error .blocked

theorem flatten_dropBytes (n : Nat) (texts : List (List Char)) :
    (dropBytes n texts).flatten = texts.flatten.drop n := by
  induction texts generalizing n with
  | nil => rw [dropBytes, List.flatten_nil, List.drop_nil]
  | cons text texts ih =>
    rw [dropBytes, List.flatten_cons, List.drop_append]
    split
    · next hlt =>
      rw [List.flatten_cons, Nat.sub_eq_zero_of_le (Nat.le_of_lt hlt), List.drop_zero]
    · next hle => rw [ih, List.drop_eq_nil_of_le (Nat.le_of_not_lt hle), List.nil_append]

/-- A string that is received as a whole. -/
theorem dropBytes_head {text : List Char} {texts : List (List Char)}
    (h : ∀ t ∈ texts, t ≠ []) : dropBytes text.length (text :: texts) = texts := by
  rw [dropBytes, if_neg (lt_irrefl _), Nat.sub_self]
  cases texts with
  | nil => rfl
  | cons t texts =>
    rw [dropBytes, if_pos (List.length_pos_of_ne_nil (h t (List.mem_cons_self ..))), List.drop_zero]

/-! ## What was received -/

/-- The bytes of each `recv` from the connection. -/
def receivedTexts (conn : Conn) (s : ServerState W) : List (List Char) :=
  (s.history.received.filter fun t => t.conn = conn).map fun t => t.task.data

omit [DecidableEq W] in
theorem receivedTexts_concat {conn : Conn} {s u : ServerState W} {t : ConnTask}
    (h : u.history.received = s.history.received ++ [t]) :
    receivedTexts conn u =
      receivedTexts conn s ++ if t.conn = conn then [t.task.data] else [] := by
  rw [receivedTexts, h, List.filter_append, List.map_append]
  by_cases hconn : t.conn = conn
  · rw [if_pos hconn, List.filter_cons_of_pos (by simpa using hconn)]
    rfl
  · rw [if_neg hconn, List.filter_cons_of_neg (by simpa using hconn)]
    rfl

/-- A step receives what `recvFrom` says. -/
theorem receivedTexts_step {conn : Conn} {s s' : ServerState W} {l : Label W}
    (ht : Transition s l s') :
    receivedTexts conn s' = receivedTexts conn s ++ (recvFrom conn s l).toList := by
  cases ht with
  | @recvData fd c c' rest bytes t hmain hevents hsocket ht =>
    subst ht
    rw [receivedTexts_concat rfl, recvFrom, hevents]
    simp only [hsocket, Option.some.injEq]
    split <;> rfl
  | _ => exact (List.append_nil _).symm

/-- The length of a task is that of its bytes. -/
def WholeTasks (s : ServerState W) : Prop :=
  ∀ t ∈ s.history.received, t.task.length = t.task.data.length

theorem wholeTasks_step {s s' : ServerState W} {l : Label W} (h : WholeTasks s)
    (ht : Transition s l s') : WholeTasks s' := by
  cases ht with
  | recvData hmain hevents hsocket ht =>
    subst ht
    intro t hmem
    rcases List.mem_append.mp hmem with hmem | hmem
    · exact h t hmem
    · obtain rfl := List.mem_singleton.mp hmem
      rfl
  | _ => exact h

/-! ## The commands of strings -/

/-- The command for the ball store that a string is, with its count and its radius. -/
def storeCommandOf (text : List Char) : Option (Char × Int × Int) :=
  let parsed := parseCommand text 0 0
  if isBallCommand parsed.1 then
    some (parsed.1, if parsed.2.1 ≤ 0 then 1 else parsed.2.1, parsed.2.2)
  else
    none

def storeCommands (texts : List (List Char)) : List (Char × Int × Int) :=
  texts.filterMap storeCommandOf

theorem storeCommands_filter (texts : List (List Char)) :
    storeCommands (texts.filter (· ≠ [])) = storeCommands texts := by
  rw [storeCommands, List.filterMap_filter]
  refine List.filterMap_congr fun text _ => ?_
  by_cases htext : text = []
  · rw [htext]
    rfl
  · rw [if_pos (by simpa using htext)]

omit [DecidableEq W] in
/-- The command that a worker reads in a task of the connection. -/
theorem command_of_text {conn : Conn} {s : ServerState W} (hwhole : WholeTasks s)
    (hnul : ∀ text ∈ receivedTexts conn s, Char.ofNat 0 ∉ text) {t : ConnTask}
    (hmem : t ∈ s.history.received) (hconn : t.conn = conn) :
    t.command = parseCommand t.task.data 0 0 := by
  have htext : t.task.data ∈ receivedTexts conn s :=
    List.mem_map_of_mem (List.mem_filter.mpr ⟨hmem, decide_eq_true hconn⟩)
  rw [ConnTask.command, taskCommand, hwhole t hmem, Int.toNat_natCast, List.take_length,
    cString_of_not_mem (hnul _ htext)]

omit [DecidableEq W] in
/-- What the server reads in the bytes it has received. -/
theorem receivedCommands_eq {conn : Conn} {s : ServerState W} (hwhole : WholeTasks s)
    (hnul : ∀ text ∈ receivedTexts conn s, Char.ofNat 0 ∉ text) :
    receivedCommands s conn = storeCommands (receivedTexts conn s) := by
  rw [receivedCommands, ofClient, receivedTexts, storeCommands, List.filterMap_map,
    ← List.filterMap_eq_map, List.filterMap_filter, List.filterMap_filter]
  refine List.filterMap_congr fun t hmem => ?_
  by_cases hconn : t.conn = conn
  · have hread : storeCommandOf t.task.data = if t.isBall then some t.ballCommand else none := by
      simp only [storeCommandOf, ← command_of_text hwhole hnul hmem hconn]
      rfl
    rw [Function.comp_apply, Function.comp_apply, hread]
    simp only [hconn, true_and, decide_true, if_true, Bool.decide_eq_true]
  · rw [if_neg (by simp [hconn]), if_neg (by simpa using hconn)]

/-! ## What holds in every run -/

/-- No byte is lost, doubled or overtaken, and what was executed is what was logged. -/
structure Dialog.Sound (conn : Conn) (s : Dialog W) : Prop where
  keyboard : ∃ consumed, s.keyboard.Consumed consumed
  server : s.server.Sound
  whole : WholeTasks s.server
  logged : LogsExecuted s.server
  bytes : (receivedTexts conn s.server).flatten ++ s.wire.flatten = s.keyboard.sends.flatten

theorem KeyboardMove.sends_grow {s s' : Keyboard} {l : KeyboardLabel} (h : KeyboardMove s l s') :
    ∃ texts, s'.sends = s.sends ++ texts := by
  cases h with
  | line | lastLine | farewell => exact ⟨_, rfl⟩
  | _ => exact ⟨[], (List.append_nil _).symm⟩

/-- What a step of the dialog is. -/
inductive Dialog.Move (conn : Conn) (s : Dialog W) : DialogLabel W → Dialog W → Prop where
  | client {l : KeyboardLabel} {k : Keyboard} {texts : List (List Char)}
      (hmove : KeyboardMove s.keyboard l k) (hsends : k.sends = s.keyboard.sends ++ texts) :
      Dialog.Move conn s (.client l) { s with
        keyboard := k
        wire := s.wire ++ texts.filter (· ≠ []) }
  | other {l : Label W} {server : ServerState W} (hok : step s.server l = .ok server)
      (hrecv : recvFrom conn s.server l = none) :
      Dialog.Move conn s (.server l) { s with server := server }
  | recv {l : Label W} {server : ServerState W} {bytes rest : List Char}
      (hok : step s.server l = .ok server) (hrecv : recvFrom conn s.server l = some bytes)
      (hwire : s.wire.flatten = bytes ++ rest) :
      Dialog.Move conn s (.server l) { s with
        server := server
        wire := dropBytes bytes.length s.wire }

theorem dialogMove_of_step {conn : Conn} {s s' : Dialog W} {l : DialogLabel W}
    (h : dialogStep conn s l = .ok s') : s.Move conn l s' := by
  cases l with
  | client l =>
    obtain ⟨k, hk, hs'⟩ := bind_ok.mp h
    obtain ⟨texts, htexts⟩ := (keyboardMove_of_step hk).sends_grow
    cases hs'
    rw [htexts, List.drop_left]
    exact .client (keyboardMove_of_step hk) htexts
  | server l =>
    obtain ⟨server, hok, hs'⟩ := bind_ok.mp h
    split at hs'
    · next hrecv =>
      cases hs'
      exact .other hok hrecv
    · next bytes hrecv =>
      split at hs'
      · next hprefix =>
        obtain ⟨rest, hrest⟩ := hprefix
        cases hs'
        exact .recv hok hrecv hrest.symm
      · cases hs'

theorem sound_dialogStep {conn : Conn} {s s' : Dialog W} {l : DialogLabel W} (h : s.Sound conn)
    (hmove : s.Move conn l s') : s'.Sound conn := by
  cases hmove with
  | client hmove hsends =>
    obtain ⟨consumed, hconsumed⟩ := h.keyboard
    refine ⟨consumed_step hconsumed hmove, h.server, h.whole, h.logged, ?_⟩
    rw [List.flatten_append, List.flatten_filter_ne_nil, ← List.append_assoc, h.bytes, hsends,
      List.flatten_append]
  | other hok hrecv =>
    obtain ⟨hserver, ht⟩ := transition_of_step h.server hok
    refine ⟨h.keyboard, hserver, wholeTasks_step h.whole ht, logsExecuted_step h.logged ht, ?_⟩
    rw [receivedTexts_step ht, hrecv]
    exact (congrArg (fun ts => List.flatten ts ++ s.wire.flatten) (List.append_nil _)).trans h.bytes
  | @recv l server bytes rest hok hrecv hwire =>
    obtain ⟨hserver, ht⟩ := transition_of_step h.server hok
    refine ⟨h.keyboard, hserver, wholeTasks_step h.whole ht, logsExecuted_step h.logged ht, ?_⟩
    rw [receivedTexts_step ht, hrecv, flatten_dropBytes, hwire, List.drop_left, ← h.bytes, hwire,
      List.flatten_append, List.append_assoc]
    congr 1
    rw [Option.toList_some, List.flatten_singleton]

omit [DecidableEq W] in
theorem sound_dialogStart (conn : Conn) : (dialogStart : Dialog W).Sound conn where
  keyboard := ⟨[], consumed_start⟩
  server := sound_start
  whole := fun _ hmem => absurd hmem List.not_mem_nil
  logged := fun _ => rfl
  bytes := rfl

/-! ## Orderly runs -/

/-- The input is a terminal, every string that is sent is received as a whole by a `recv` of its
own, and no command of a client overtakes another. -/
def Orderly (conn : Conn) (s : Dialog W) : DialogLabel W → Prop
  | .client l => ReadsLine s.keyboard l
  | .server l => NoOvertaking s.server l ∧
    ∀ bytes, recvFrom conn s.server l = some bytes → s.wire.head? = some bytes

structure Dialog.InStep (conn : Conn) (s : Dialog W) : Prop where
  sound : s.Sound conn
  prompt : s.keyboard.Prompt
  order : InOrder s.server
  texts : receivedTexts conn s.server ++ s.wire = s.keyboard.sends.filter (· ≠ [])

omit [DecidableEq W] in
theorem inStep_start (conn : Conn) : (dialogStart : Dialog W).InStep conn where
  sound := sound_dialogStart conn
  prompt := ⟨nofun, fun _ => rfl⟩
  order := inOrder_start
  texts := rfl

omit [DecidableEq W] in
theorem Dialog.InStep.wire_ne_nil {conn : Conn} {s : Dialog W} (h : s.InStep conn) :
    ∀ text ∈ s.wire, text ≠ [] := by
  intro text hmem
  have hsent : text ∈ s.keyboard.sends.filter (· ≠ []) :=
    h.texts ▸ List.mem_append_right _ hmem
  exact of_decide_eq_true (List.mem_filter.mp hsent).2

theorem inStep_dialogStep {conn : Conn} {s s' : Dialog W} {l : DialogLabel W}
    (hl : Orderly conn s l) (h : s.InStep conn) (hmove : s.Move conn l s') : s'.InStep conn := by
  have hsound := sound_dialogStep h.sound hmove
  cases hmove with
  | client hmove hsends =>
    refine ⟨hsound, prompt_step hl h.prompt hmove, h.order, ?_⟩
    rw [← List.append_assoc, h.texts, hsends, List.filter_append]
  | other hok hrecv =>
    have ht := (transition_of_step h.sound.server hok).2
    refine ⟨hsound, h.prompt, inOrder_step h.order hl.1 ht, ?_⟩
    rw [receivedTexts_step ht, hrecv, Option.toList_none, List.append_nil]
    exact h.texts
  | @recv l server bytes rest hok hrecv hwire =>
    have ht := (transition_of_step h.sound.server hok).2
    refine ⟨hsound, h.prompt, inOrder_step h.order hl.1 ht, ?_⟩
    obtain ⟨texts, hhead⟩ := List.head?_eq_some_iff.mp (hl.2 bytes hrecv)
    have hne := h.wire_ne_nil
    have htexts := h.texts
    rw [hhead] at hne htexts
    rw [receivedTexts_step ht, hrecv, hhead,
      dropBytes_head fun t hmem => hne t (List.mem_cons_of_mem _ hmem), ← htexts,
      List.append_assoc]
    rfl

/-- Everything that was typed is on its way, and nothing is left to do. -/
structure Dialog.Settled (s : Dialog W) : Prop where
  waits : s.keyboard.place = .test ∨ s.keyboard.place = .select
  incoming : s.keyboard.incoming = []
  endSeen : s.keyboard.endSeen = false
  wire : s.wire = []
  quiescent : Quiescent s.server

theorem nul_not_mem_inputText (line : List Char) : Char.ofNat 0 ∉ inputText line := by
  intro hmem
  have hne := List.mem_takeWhile_imp hmem
  simp at hne

/-- No byte of the strings that are sent is NUL. -/
theorem Keyboard.Consumed.nul_not_mem {s : Keyboard} {consumed : List Char}
    (h : s.Consumed consumed) : ∀ text ∈ s.sends, Char.ofNat 0 ∉ text := by
  intro text hmem
  rw [h.sends] at hmem
  rcases List.mem_append.mp hmem with hspoken | hexit
  · obtain ⟨line, _, rfl⟩ := List.mem_map.mp hspoken
    exact nul_not_mem_inputText line
  · split at hexit
    · rw [List.mem_singleton.mp hexit]
      decide
    · cases hexit

/-- **From the keyboard to the balls.** In every run the bytes that the server has received from the
client and those on the wire are, in their order, the bytes that were sent. In an orderly run of a
server that is not told to end, the commands of the client that were applied to the balls are, once
all is done and while the keyboard thread waits for more, the commands of the lines that were typed,
once each and in their order. -/
theorem typed_commands_applied (conn : Conn) (labels : List (DialogLabel W)) (s : Dialog W)
    (hrun : run (dialogStep conn) dialogStart labels = .ok s) :
    (receivedTexts conn s.server).flatten ++ s.wire.flatten = s.keyboard.sends.flatten ∧
      (Throughout (dialogStep conn) (Orderly conn) dialogStart labels → s.Settled →
        appliedCommands s.server conn =
          storeCommands ((cutLines lineRoom s.keyboard.typed).1.map inputText)) := by
  have hsound := run_invariant (I := fun s => Dialog.Sound conn s)
    (fun _ _ _ h hok => sound_dialogStep h (dialogMove_of_step hok)) (sound_dialogStart conn) hrun
  refine ⟨hsound.bytes, ?_⟩
  intro horderly hdone
  have h := run_invariant_throughout (I := fun s => Dialog.InStep conn s)
    (fun _ _ _ hl h hok => inStep_dialogStep hl h (dialogMove_of_step hok)) horderly
    (inStep_start conn) hrun
  obtain ⟨consumed, hconsumed⟩ := hsound.keyboard
  have hplace : s.keyboard.place ≠ .exited ∧ s.keyboard.place ≠ .fgets := by
    rcases hdone.waits with hplace | hplace <;> rw [hplace] <;> exact ⟨nofun, nofun⟩
  have htexts := h.texts
  rw [hdone.wire, List.append_nil] at htexts
  have hnul : ∀ text ∈ receivedTexts conn s.server, Char.ofNat 0 ∉ text := by
    intro text hmem
    rw [htexts] at hmem
    exact hconsumed.nul_not_mem text (List.mem_filter.mp hmem).1
  have hlines := hconsumed.unsent hplace.1 hdone.incoming hdone.endSeen
  rw [h.prompt.buffer hplace.2] at hlines
  have hsends : (cutLines lineRoom s.keyboard.typed).1.map inputText = s.keyboard.sends :=
    hlines.trans (List.append_nil _)
  rw [hsound.logged conn, ← h.order.quiescent hdone.quiescent conn, hsends,
    ← storeCommands_filter, ← htexts]
  exact receivedCommands_eq hsound.whole hnul

/-- A client connects as socket 7 and types the lines `a` and `w`; the only worker applies the
first command before the second one comes. -/
def twoLines : List (DialogLabel Unit) :=
  [.server (.epollWait [.listener]), .server (.accept 7), .server (.addClient (some 0)),
    .server .countClient, .server (.addInitialBalls zeroDraws),
    .client (.type ['a', '\n', 'w', '\n']), .client .test, .client (.select false),
    .client (.read 2), .client .fgets, .server (.epollWait [.client 7 0]),
    .server (.recvData ['a']), .server .push, .server (.pop ()), .server (.execute () zeroDraws),
    .client .test, .client (.select false), .client (.read 2), .client .fgets,
    .server (.epollWait [.client 7 0]), .server (.recvData ['w']), .server .push,
    .server (.pop ()), .server (.execute () zeroDraws)]

/-- A worker does not overtake itself. -/
theorem noOvertaking_unit (s : ServerState Unit) (l : Label Unit) : NoOvertaking s l := by
  cases l with
  | execute w env =>
    intro t ht _ w' t' ht' _ _
    rw [Holding, ht] at ht'
    cases ht'
    exact le_refl _
  | _ => trivial

theorem orderly_twoLines : Throughout (dialogStep 0) (Orderly 0) dialogStart twoLines := by
  iterate 5 refine throughout_cons_of_ok rfl ⟨noOvertaking_unit _ _, by rintro _ ⟨⟩⟩ ?_
  iterate 3 refine throughout_cons_of_ok rfl trivial ?_
  refine throughout_cons_of_ok rfl (by rintro _ _ ⟨⟩; rfl) (throughout_cons_of_ok rfl trivial ?_)
  refine throughout_cons_of_ok rfl ⟨noOvertaking_unit _ _, by rintro _ ⟨⟩⟩ ?_
  refine throughout_cons_of_ok rfl ⟨noOvertaking_unit _ _, by rintro _ ⟨⟩; rfl⟩ ?_
  iterate 3 refine throughout_cons_of_ok rfl ⟨noOvertaking_unit _ _, by rintro _ ⟨⟩⟩ ?_
  iterate 2 refine throughout_cons_of_ok rfl trivial ?_
  refine throughout_cons_of_ok rfl (by rintro _ _ ⟨⟩; rfl) (throughout_cons_of_ok rfl trivial ?_)
  refine throughout_cons_of_ok rfl ⟨noOvertaking_unit _ _, by rintro _ ⟨⟩⟩ ?_
  refine throughout_cons_of_ok rfl ⟨noOvertaking_unit _ _, by rintro _ ⟨⟩; rfl⟩ ?_
  iterate 3 refine throughout_cons_of_ok rfl ⟨noOvertaking_unit _ _, by rintro _ ⟨⟩⟩ ?_
  trivial

theorem typed_commands_applied_twoLines : ∃ s, run (dialogStep 0) dialogStart twoLines = .ok s ∧
    appliedCommands s.server 0 = [('a', 1, 20), ('w', 1, 20)] := by
  obtain ⟨s, hs, hsettled, hlines⟩ : ∃ s, run (dialogStep 0) dialogStart twoLines = .ok s ∧
      s.Settled ∧ storeCommands ((cutLines lineRoom s.keyboard.typed).1.map inputText) =
        [('a', 1, 20), ('w', 1, 20)] :=
    ⟨_, rfl, ⟨Or.inl rfl, rfl, rfl, rfl, rfl, rfl, fun _ => rfl⟩, by decide⟩
  have happlied := (typed_commands_applied 0 twoLines s hs).2 orderly_twoLines hsettled
  exact ⟨s, hs, happlied.trans hlines⟩

end BallGame.Protocol
