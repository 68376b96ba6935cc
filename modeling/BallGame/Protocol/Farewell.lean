import BallGame.Protocol.TypedCommands

/-!
# Whether the server hears the farewell

A client that leaves sends `x`, and `x` once more behind its loop. If both arrive with one `recv`,
the server reads `xx`, which is no command, and the client stays on its list.

* `exit_heard_iff`: the server reads an exit command exactly if the last `recv` returns one `x`.
-/

namespace BallGame.Protocol

open Library Server

variable {W : Type}

/-! ## Pieces of a stream -/

/-- A character that stands nowhere in front. -/
theorem split_at_marker {c : Char} {u v pre rest : List Char} (hu : c ∉ u)
    (h : pre ++ c :: rest = u ++ v) : ∃ w, w ++ c :: rest = v := by
  rcases List.append_eq_append_iff.mp h with ⟨w, rfl, hrest⟩ | ⟨w, _, hv⟩
  · cases w with
    | nil => exact ⟨[], hrest⟩
    | cons d w =>
      cases hrest
      exact absurd (List.mem_append_right _ (List.mem_cons_self ..)) hu
  · exact ⟨w, hv.symm⟩

theorem eq_nil_of_flatten {ps : List (List Char)} (hne : ∀ p ∈ ps, p ≠ [])
    (h : ps.flatten = []) : ps = [] := by
  cases ps with
  | nil => rfl
  | cons p ps =>
    rw [List.flatten_cons] at h
    exact absurd (List.append_eq_nil_iff.mp h).1 (hne p (List.mem_cons_self ..))

/-- Non-empty pieces of one character. -/
theorem eq_singleton_of_flatten {c : Char} {ps : List (List Char)} (hne : ∀ p ∈ ps, p ≠ [])
    (h : ps.flatten = [c]) : ps = [[c]] := by
  cases ps with
  | nil => cases h
  | cons p ps =>
    rw [List.flatten_cons] at h
    rcases List.append_eq_singleton_iff.mp h with ⟨rfl, _⟩ | ⟨rfl, hrest⟩
    · exact absurd rfl (hne [] (List.mem_cons_self ..))
    · rw [eq_nil_of_flatten (fun q hq => hne q (List.mem_cons_of_mem _ hq)) hrest]

/-- The first character of a command is its letter. -/
theorem cons_of_exit {p : List Char} (h : (parseCommand p 0 0).1 = cmdExit) :
    ∃ rest, p = cmdExit :: rest := by
  have hread : (parseCommand p 0 0).1 ≠ Char.ofNat 0 := by
    rw [h]
    decide
  have hhead := parseCommand_op hread
  rw [h] at hhead
  exact ⟨_, List.eq_cons_of_mem_head? hhead⟩

/-- What follows the first or the last of at most two `x`. -/
theorem behind_exit {w r v : List Char} (hv : v = exitText ∨ v = exitText ++ exitText)
    (h : w ++ cmdExit :: r = v) : r = [] ∨ r = exitText := by
  have hlength := congrArg List.length h
  rw [List.length_append, List.length_cons] at hlength
  rcases hv with rfl | rfl
  · have hone : exitText.length = 1 := rfl
    exact Or.inl (List.length_eq_zero_iff.mp (by omega))
  · have htwo : (exitText ++ exitText).length = 2 := rfl
    cases w with
    | nil => exact Or.inr (List.cons.inj h).2
    | cons d w =>
      rw [List.length_cons] at hlength
      exact Or.inl (List.length_eq_zero_iff.mp (by omega))

/-- One or two `x` behind bytes that are no `x`, in non-empty pieces. -/
theorem exit_piece_iff {ps : List (List Char)} {u v : List Char} (hne : ∀ p ∈ ps, p ≠ [])
    (hu : cmdExit ∉ u) (hv : v = exitText ∨ v = exitText ++ exitText) (h : ps.flatten = u ++ v) :
    (∃ p ∈ ps, (parseCommand p 0 0).1 = cmdExit) ↔ ps.getLast? = some exitText := by
  constructor
  · rintro ⟨p, hp, hexit⟩
    obtain ⟨rest, rfl⟩ := cons_of_exit hexit
    obtain ⟨pre, post, rfl⟩ := List.append_of_mem hp
    rw [List.flatten_append, List.flatten_cons, List.cons_append] at h
    obtain ⟨w, hw⟩ := split_at_marker hu h
    have hpost : ∀ q ∈ post, q ≠ [] := fun q hq =>
      hne q (List.mem_append_right _ (List.mem_cons_of_mem _ hq))
    rw [List.getLast?_append_cons]
    -- the piece is the last `x`, or the first of two, and the other one comes alone
    rcases behind_exit hv hw with hnil | hx
    · obtain ⟨rfl, hflat⟩ := List.append_eq_nil_iff.mp hnil
      rw [eq_nil_of_flatten hpost hflat]
      rfl
    · rcases List.append_eq_singleton_iff.mp hx with ⟨rfl, hflat⟩ | ⟨rfl, hflat⟩
      · rw [eq_singleton_of_flatten hpost hflat]
        rfl
      · exact absurd hexit (by decide)
  · intro hlast
    exact ⟨exitText, List.mem_of_getLast? hlast, by decide⟩

/-! ## The end of a client -/

/-- Every `recv` returned some bytes. -/
def NonemptyTasks (s : ServerState W) : Prop := ∀ t ∈ s.history.received, t.task.data ≠ []

variable [DecidableEq W]

theorem nonemptyTasks_step {s s' : ServerState W} {l : Label W} (hs : s.Sound)
    (h : NonemptyTasks s) (hok : step s l = .ok s') : NonemptyTasks s' := by
  cases l with
  | recvData bytes =>
    simp only [step, recvData] at hok
    split at hok
    · split at hok
      · split at hok
        · next hbytes =>
          cases hok
          intro t hmem
          rcases List.mem_append.mp hmem with hmem | hmem
          · exact h t hmem
          · obtain rfl := List.mem_singleton.mp hmem
            exact hbytes.1
        · cases hok
      · cases hok
    · cases hok
  | _ =>
    have ht := (transition_of_step hs hok).2
    cases ht <;> exact h

/-- The strings that are sent when the thread at the keyboard has left: lines without an `x`, and
one or two `x`. -/
theorem Keyboard.Consumed.farewell {s : Keyboard} {consumed : List Char}
    (h : s.Consumed consumed) (hexited : s.place = .exited)
    (hlines : ∀ text ∈ s.sends, text = exitText ∨ cmdExit ∉ text) :
    ∃ u v, s.sends.flatten = u ++ v ∧ cmdExit ∉ u ∧ (v = exitText ∨ v = exitText ++ exitText) := by
  have hsends := h.sends
  have hno := h.noExit
  rw [if_pos hexited] at hsends
  rw [hsends] at hlines ⊢
  rcases List.eq_nil_or_concat (spoken consumed) with hnil | ⟨init, last, hconcat⟩
  · rw [hnil]
    exact ⟨[], exitText, rfl, List.not_mem_nil, Or.inl rfl⟩
  · rw [hconcat, List.concat_eq_append] at hlines hno ⊢
    rw [List.dropLast_concat] at hno
    have hinit : cmdExit ∉ init.flatten := by
      intro hmem
      obtain ⟨text, htext, hx⟩ := List.mem_flatten.mp hmem
      rcases hlines text (by simp [htext]) with rfl | hfree
      · exact hno htext
      · exact hfree hx
    rw [List.flatten_append, List.flatten_append, List.flatten_singleton, List.flatten_singleton]
    rcases hlines last (by simp) with rfl | hfree
    · exact ⟨init.flatten, _, List.append_assoc .., hinit, Or.inr rfl⟩
    · refine ⟨init.flatten ++ last, exitText, rfl, ?_, Or.inl rfl⟩
      intro hmem
      exact (List.mem_append.mp hmem).elim hinit hfree

/-- **Whether the server hears the farewell.** In every run in which a client has left that typed
no line with an `x` but `x` itself, once all bytes have been received: the server has read an exit
command of this client exactly if the last `recv` returned a single `x`. -/
theorem exit_heard_iff (conn : Conn) (labels : List (DialogLabel W)) (s : Dialog W)
    (hrun : run (dialogStep conn) dialogStart labels = .ok s)
    (hexited : s.keyboard.place = .exited) (hwire : s.wire = [])
    (hlines : ∀ text ∈ s.keyboard.sends, text = exitText ∨ cmdExit ∉ text) :
    (∃ t ∈ s.server.history.received, t.conn = conn ∧ t.command.1 = cmdExit) ↔
      (receivedTexts conn s.server).getLast? = some exitText := by
  obtain ⟨hsound, hnonempty⟩ := run_invariant
    (I := fun s => Dialog.Sound conn s ∧ NonemptyTasks s.server) (fun s _ _ h hok => by
      have hmove := dialogMove_of_step hok
      refine ⟨sound_dialogStep h.1 hmove, ?_⟩
      cases hmove with
      | client => exact h.2
      | other hstep => exact nonemptyTasks_step h.1.server h.2 hstep
      | recv hstep => exact nonemptyTasks_step h.1.server h.2 hstep)
    ⟨sound_dialogStart conn, fun _ hmem => absurd hmem List.not_mem_nil⟩ hrun
  obtain ⟨consumed, hconsumed⟩ := hsound.keyboard
  obtain ⟨u, v, hflat, hu, hv⟩ := hconsumed.farewell hexited hlines
  have hbytes := hsound.bytes
  rw [hwire, List.flatten_nil, List.append_nil] at hbytes
  have hnul : ∀ text ∈ receivedTexts conn s.server, Char.ofNat 0 ∉ text := by
    intro text hmem hzero
    have hsent : Char.ofNat 0 ∈ s.keyboard.sends.flatten :=
      hbytes ▸ List.mem_flatten.mpr ⟨text, hmem, hzero⟩
    obtain ⟨line, hline, hzero'⟩ := List.mem_flatten.mp hsent
    exact hconsumed.nul_not_mem line hline hzero'
  have hne : ∀ text ∈ receivedTexts conn s.server, text ≠ [] := by
    intro text hmem
    obtain ⟨t, ht, rfl⟩ := List.mem_map.mp hmem
    exact hnonempty t (List.mem_filter.mp ht).1
  rw [← exit_piece_iff hne hu hv (hbytes.trans hflat)]
  constructor
  · rintro ⟨t, hmem, hconn, hexit⟩
    rw [command_of_text hsound.whole hnul hmem hconn] at hexit
    exact ⟨_, List.mem_map_of_mem (List.mem_filter.mpr ⟨hmem, decide_eq_true hconn⟩), hexit⟩
  · rintro ⟨text, hmem, hexit⟩
    obtain ⟨t, ht, rfl⟩ := List.mem_map.mp hmem
    obtain ⟨hreceived, hconn⟩ := List.mem_filter.mp ht
    have hconn := of_decide_eq_true hconn
    refine ⟨t, hreceived, hconn, ?_⟩
    rw [command_of_text hsound.whole hnul hreceived hconn, hexit]

/-- Both `x` come with one `recv`. -/
def doubleFarewell : List (DialogLabel Unit) :=
  [.server (.epollWait [.listener]), .server (.accept 7), .server (.addClient (some 0)),
    .server .countClient, .server (.addInitialBalls zeroDraws), .client (.type ['x', '\n']),
    .client .test, .client (.select false), .client (.read 2), .client .fgets, .client .farewell,
    .server (.epollWait [.client 7 0]), .server (.recvData ['x', 'x']), .server .push,
    .server (.pop ()), .server (.execute () zeroDraws)]

theorem exit_heard_iff_doubleFarewell : ∃ s,
    run (dialogStep 0) dialogStart doubleFarewell = .ok s ∧ Quiescent s.server ∧
      s.server.clientListManager.toList.map SocketContext.csock = [7] ∧
      ¬ ∃ t ∈ s.server.history.received, t.conn = 0 ∧ t.command.1 = cmdExit := by
  obtain ⟨s, hs, hquiescent, hclients, hplace, hwire, hsends, hlast⟩ : ∃ s,
      run (dialogStep 0) dialogStart doubleFarewell = .ok s ∧ Quiescent s.server ∧
      s.server.clientListManager.toList.map SocketContext.csock = [7] ∧
      s.keyboard.place = .exited ∧ s.wire = [] ∧ s.keyboard.sends = [exitText, exitText] ∧
      (receivedTexts 0 s.server).getLast? = some ['x', 'x'] :=
    ⟨_, rfl, ⟨rfl, rfl, fun _ => rfl⟩, rfl, rfl, rfl, rfl, rfl⟩
  have hlines : ∀ text ∈ s.keyboard.sends, text = exitText ∨ cmdExit ∉ text := by
    rw [hsends]
    decide
  refine ⟨s, hs, hquiescent, hclients, ?_⟩
  rw [exit_heard_iff 0 doubleFarewell s hs hplace hwire hlines, hlast]
  decide

end BallGame.Protocol
