import BallGame.Protocol.ClientThreads

/-!
# How the client ends

SIGINT and the end of the connection clear `keep_running`. The threads see it at the next test,
and `main` joins one after the other.

* `client_shuts_down`: once `keep_running` is cleared, every step brings the end of the client
  closer, and only a silent connection and an unfinished line can keep it from ending;
* `client_stays_open`: nothing else ends it, the line `x` included.
-/

namespace BallGame.Protocol

open Library

/-! ## The way to the end -/

/-- A step of `main` or of a thread. -/
def ProcessLabel.internal : ProcessLabel → Bool
  | .keyboard l => !l.External
  | .arrive _ | .hangUp => false
  | _ => true

/-- A step of the thread that receives. -/
def ProcessLabel.receives : ProcessLabel → Bool
  | .receiver _ => true
  | _ => false

def MainPlace.rank : MainPlace → Nat
  | .create t => 8 - t.index
  | .join t => 5 - t.index
  | .close | .destroyFirst => 2
  | .destroy | .closeLast => 1
  | .returned => 0

def RenderPlace.rank : RenderPlace → Nat
  | .frame => 2
  | .test => 1
  | .exited => 0

def ReceiverPlace.rank : ReceiverPlace → Nat
  | .receive => 2
  | .test => 1
  | .exited => 0

/-- The reads that `fgets` can make. -/
def Keyboard.unread (k : Keyboard) : Nat := k.incoming.length + if k.endSeen then 0 else 1

def Keyboard.rank (k : Keyboard) : Nat :=
  match k.place with
  | .select => 4 + k.unread
  | .fgets => 3 + k.unread
  | .test => 2
  | .farewell => 1
  | .exited => 0

/-- A bound on the steps that are left when `keep_running` is cleared. -/
def ClientProcess.remaining (s : ClientProcess) : Nat :=
  s.main.rank + s.render.rank + s.receiver.rank + s.keyboard.rank

theorem rank_sendLine (k : Keyboard) (line : List Char) : (sendLine k line).rank ≤ 2 := by
  by_cases hexit : inputText line = exitText
  · simp only [Keyboard.rank, sendLine, if_pos hexit]
    decide
  · simp only [Keyboard.rank, sendLine, if_neg hexit]
    decide

theorem KeyboardMove.closer {k k' : Keyboard} {l : KeyboardLabel} (h : KeyboardMove k l k')
    (hstop : k.keepRunning = false) (hl : l.External = false) :
    k'.keepRunning = false ∧ k'.rank < k.rank := by
  cases h with
  | type | endInput | stop => cases hl
  | wait hplace hkeep =>
    rw [hstop] at hkeep
    cases hkeep
  | wake hplace hp =>
    refine ⟨hstop, ?_⟩
    rcases hp with rfl | rfl <;> simp only [Keyboard.rank, hplace, Keyboard.unread] <;> omega
  | leave hplace => exact ⟨hstop, by simp only [Keyboard.rank, hplace]; decide⟩
  | readEnd hplace hnone hseen =>
    refine ⟨hstop, ?_⟩
    simp only [Keyboard.rank, hplace, Keyboard.unread, hseen]
    exact Nat.lt_succ_self _
  | read hplace hnone hseen hcount =>
    refine ⟨hstop, ?_⟩
    simp only [Keyboard.rank, hplace, Keyboard.unread, List.length_drop]
    omega
  | @line line rest hplace =>
    have hrank := rank_sendLine { k with buffer := rest } line
    refine ⟨hstop, ?_⟩
    rw [Keyboard.rank.eq_def k, hplace]
    exact lt_of_le_of_lt hrank (by simp only; omega)
  | lastLine hplace =>
    have hrank := rank_sendLine { k with buffer := [] } k.buffer
    refine ⟨hstop, ?_⟩
    rw [Keyboard.rank.eq_def k, hplace]
    exact lt_of_le_of_lt hrank (by simp only; omega)
  | noLine hplace =>
    refine ⟨hstop, ?_⟩
    simp only [Keyboard.rank, hplace]
    omega
  | farewell hplace => exact ⟨hstop, by simp only [Keyboard.rank, hplace]; decide⟩

theorem ProcessMove.closer {s s' : ClientProcess} {l : ProcessLabel} (h : ProcessMove s l s')
    (hstop : s.keyboard.keepRunning = false) (hl : l.internal = true) :
    s'.keyboard.keepRunning = false ∧ s'.remaining < s.remaining := by
  cases h with
  | arrive | hangUp => cases hl
  | keyboard hmove =>
    obtain ⟨hstop', hlt⟩ := hmove.closer hstop (by simpa [ProcessLabel.internal] using hl)
    exact ⟨hstop', Nat.add_lt_add_left hlt _⟩
  | @created t hmain | @notCreated t hmain | @joined t hmain =>
    refine ⟨hstop, ?_⟩
    simp only [ClientProcess.remaining, hmain]
    cases t <;> simp [ClientThread.afterCreate, ClientThread.afterJoin, MainPlace.rank,
      ClientThread.index]
  | closed hmain | destroyed hmain | destroyedFirst hmain | closedLast hmain =>
    refine ⟨hstop, ?_⟩
    simp only [ClientProcess.remaining, hmain, MainPlace.rank]
    omega
  | @renderTest hplace p hp =>
    obtain rfl : p = .exited := by
      rw [hp, hstop]
      rfl
    refine ⟨hstop, ?_⟩
    simp only [ClientProcess.remaining, hplace, RenderPlace.rank]
    omega
  | rendered hplace =>
    refine ⟨hstop, ?_⟩
    simp only [ClientProcess.remaining, hplace, RenderPlace.rank]
    omega
  | recvWait hplace hkeep =>
    rw [hstop] at hkeep
    cases hkeep
  | recvLeave hplace | received hplace =>
    refine ⟨hstop, ?_⟩
    simp only [ClientProcess.remaining, hplace, ReceiverPlace.rank]
    omega
  | recvEnd hplace =>
    have hkeyboard : ({ s.keyboard with keepRunning := false } : Keyboard).rank = s.keyboard.rank :=
      rfl
    refine ⟨rfl, ?_⟩
    simp only [ClientProcess.remaining, hplace, ReceiverPlace.rank, hkeyboard]
    omega

/-- Neither SIGINT nor the end of the connection. -/
def ProcessLabel.Undisturbed : ProcessLabel → Prop
  | .keyboard .stop | .hangUp => False
  | _ => True

/-- The threads for which `main` waits first do not come to their ends. -/
structure ClientProcess.Open (s : ClientProcess) : Prop where
  keepRunning : s.keyboard.keepRunning = true
  hungUp : s.hungUp = false
  render : s.render ≠ .exited
  receiver : s.receiver ≠ .exited
  main : s.failed = none → (∃ t, s.main = .create t) ∨ s.main = .join .render

theorem open_start : processStart.Open where
  keepRunning := rfl
  hungUp := rfl
  render := nofun
  receiver := nofun
  main := fun _ => Or.inl ⟨_, rfl⟩

theorem KeyboardMove.keepRunning {k k' : Keyboard} {l : KeyboardLabel} (h : KeyboardMove k l k')
    (hl : l ≠ .stop) : k'.keepRunning = k.keepRunning := by
  cases h with
  | stop => exact absurd rfl hl
  | _ => rfl

theorem open_step {s s' : ClientProcess} {l : ProcessLabel} (hl : l.Undisturbed) (h : s.Open)
    (hmove : ProcessMove s l s') : s'.Open := by
  cases hmove with
  | @created t hmain =>
    refine ⟨h.keepRunning, h.hungUp, h.render, h.receiver, fun _ => ?_⟩
    cases t with
    | render | recv => exact Or.inl ⟨_, rfl⟩
    | send => exact Or.inr rfl
  | notCreated hmain => exact ⟨h.keepRunning, h.hungUp, h.render, h.receiver, nofun⟩
  | @joined t hmain hexited =>
    refine ⟨h.keepRunning, h.hungUp, h.render, h.receiver, fun hfailed => ?_⟩
    rcases h.main hfailed with ⟨u, hcreate⟩ | hjoin
    · exact nomatch hcreate.symm.trans hmain
    · cases hjoin.symm.trans hmain
      exact absurd hexited h.render
  | closed hmain | destroyed hmain | destroyedFirst hmain | closedLast hmain =>
    refine ⟨h.keepRunning, h.hungUp, h.render, h.receiver, fun hfailed => ?_⟩
    rcases h.main hfailed with ⟨u, hcreate⟩ | hjoin
    · exact nomatch hcreate.symm.trans hmain
    · exact nomatch hjoin.symm.trans hmain
  | renderTest hplace hp =>
    rw [h.keepRunning] at hp
    subst hp
    exact ⟨h.keepRunning, h.hungUp, nofun, h.receiver, h.main⟩
  | rendered hplace => exact ⟨h.keepRunning, h.hungUp, nofun, h.receiver, h.main⟩
  | recvWait hplace hkeep => exact ⟨h.keepRunning, h.hungUp, h.render, nofun, h.main⟩
  | recvLeave hplace hstop =>
    rw [h.keepRunning] at hstop
    cases hstop
  | received hplace hcount => exact ⟨h.keepRunning, h.hungUp, h.render, nofun, h.main⟩
  | recvEnd hplace hhung =>
    rw [h.hungUp] at hhung
    cases hhung
  | keyboard hmove =>
    have hkeep := hmove.keepRunning (by rintro rfl; exact hl)
    exact ⟨hkeep.trans h.keepRunning, h.hungUp, h.render, h.receiver, h.main⟩
  | arrive count => exact ⟨h.keepRunning, h.hungUp, h.render, h.receiver, h.main⟩
  | hangUp => exact hl.elim

/-- **What does not end the client.** As long as SIGINT does not come and the server does not
close the connection, the client goes on to draw and to receive, whatever is typed: the thread at
the keyboard leaves with the line `x`, and all others stay. -/
theorem client_stays_open (labels : List ProcessLabel) (hlabels : ∀ l ∈ labels, l.Undisturbed)
    (s : ClientProcess) (hrun : run processStep processStart labels = .ok s) :
    s.keyboard.keepRunning = true ∧ s.render ≠ .exited ∧ s.receiver ≠ .exited ∧
      (s.failed = none → s.main ≠ .returned) := by
  have h : s.Open := run_invariant_throughout (C := fun _ l => ProcessLabel.Undisturbed l)
    (fun _ _ _ hl h hok => open_step hl h (processMove_of_step hok)) (throughout_of_mem hlabels)
    open_start hrun
  refine ⟨h.keepRunning, h.render, h.receiver, ?_⟩
  intro hfailed hreturned
  rcases h.main hfailed with ⟨u, hcreate⟩ | hjoin
  · exact nomatch hcreate.symm.trans hreturned
  · exact nomatch hjoin.symm.trans hreturned

/-- The line `x` is typed. -/
def leftWithX : List ProcessLabel :=
  [.create .render true, .create .recv true, .create .send true, .keyboard (.type ['x', '\n']),
    .keyboard .test, .keyboard (.select false), .keyboard (.read 2), .keyboard .fgets,
    .keyboard .farewell]

theorem client_stays_open_leftWithX : ∃ s, run processStep processStart leftWithX = .ok s ∧
    s.keyboard.place = .exited ∧ s.keyboard.sends = [exitText, exitText] ∧
    s.keyboard.keepRunning = true ∧ s.main ≠ .returned := by
  obtain ⟨s, hs, hplace, hsends, hfailed⟩ : ∃ s,
      run processStep processStart leftWithX = .ok s ∧ s.keyboard.place = .exited ∧
      s.keyboard.sends = [exitText, exitText] ∧ s.failed = none := ⟨_, rfl, rfl, rfl, rfl⟩
  have hlabels : ∀ l ∈ leftWithX, l.Undisturbed := by
    simp [leftWithX, ProcessLabel.Undisturbed]
  obtain ⟨hkeep, _, _, hmain⟩ := client_stays_open leftWithX hlabels s hs
  exact ⟨s, hs, hplace, hsends, hkeep, hmain hfailed⟩

end BallGame.Protocol
