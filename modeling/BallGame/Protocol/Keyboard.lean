import BallGame.Library.LineInput
import BallGame.Library.Runs
import BallGame.Server.Command

/-!
# The keyboard of the client

`socket_send_thread` waits in `select` until the standard input is readable, takes a line with
`fgets` and sends it without its newline. `fgets` reads from the buffer of `stdin`, which `select`
does not see: how much a `read` brings there is up to the kernel.

* `lines_sent`: what is sent are the first lines that were typed, whatever the reads bring, and an
  `x` at the end;
* `lines_stranded`: while the thread waits, the complete lines that were not sent are those in the
  buffer of `stdin`, and there are none if no `read` goes past the end of a line.
-/

namespace BallGame.Protocol

open Library Server

/-! ## The thread -/

/-- Where `socket_send_thread` stands. -/
inductive KeyboardPlace where
  /-- `while (keep_running)`. -/
  | test
  | select
  | fgets
  /-- Behind the loop. -/
  | farewell
  | exited
  deriving DecidableEq

/-- The loop goes on. -/
def KeyboardPlace.InLoop : KeyboardPlace → Prop
  | .test | .select | .fgets => True
  | .farewell | .exited => False

structure Keyboard where
  /-- Characters that no `read` has returned so far. -/
  incoming : List Char
  /-- Nothing more will be typed. -/
  ended : Bool
  /-- The buffer of `stdin`. -/
  buffer : List Char
  /-- A `read` of `stdin` has returned 0. -/
  endSeen : Bool
  keepRunning : Bool
  place : KeyboardPlace
  /-- The strings passed to `send`, in order. -/
  sends : List (List Char)
  /-- Everything that was typed. No step looks at it. -/
  typed : List Char

inductive KeyboardLabel where
  | type (text : List Char)
  | endInput
  /-- Another thread clears `keep_running`. -/
  | stop
  | test
  | select (interrupted : Bool)
  /-- A `read` within `fgets`, which returns so many characters. -/
  | read (count : Nat)
  /-- `fgets` returns. -/
  | fgets
  | farewell

/-- `fgets` leaves a place of `input` for the NUL. -/
def lineRoom : Nat := maxInput - 1

/-- What is sent of a line: `input[strcspn(input, "\n")] = '\0'`, and `strlen(input)` bytes. -/
def inputText (line : List Char) : List Char := cString (line.takeWhile (· ≠ '\n'))

def exitText : List Char := [cmdExit]

/-- Send a line and leave the loop if it is `x`. -/
def sendLine (s : Keyboard) (line : List Char) : Keyboard :=
  { s with
    sends := s.sends ++ [inputText line]
    place := if inputText line = exitText then .farewell else .test }

def keyboardStep (s : Keyboard) : KeyboardLabel → Except Stuck Keyboard
  | .type text =>
    if s.ended then .error .blocked
    else .ok { s with incoming := s.incoming ++ text, typed := s.typed ++ text }
  | .endInput => .ok { s with ended := true }
  | .stop => .ok { s with keepRunning := false }
  | .test =>
    if s.place = .test then
      .ok { s with place := if s.keepRunning then .select else .farewell }
    else
      .error .blocked
  | .select interrupted =>
    if s.place = .select then
      -- the end of the input is readable, too
      if interrupted = false ∧ (s.incoming ≠ [] ∨ s.ended) then .ok { s with place := .fgets }
      else .ok { s with place := .test }
    else
      .error .blocked
  | .read count =>
    if s.place = .fgets ∧ takeLine lineRoom s.buffer = none ∧ s.endSeen = false then
      if s.incoming = [] ∧ s.ended then .ok { s with endSeen := true }
      else if 0 < count ∧ count ≤ s.incoming.length then
        .ok { s with
          incoming := s.incoming.drop count
          buffer := s.buffer ++ s.incoming.take count }
      else .error .blocked
    else
      .error .blocked
  | .fgets =>
    if s.place = .fgets then
      match takeLine lineRoom s.buffer with
      | some (line, rest) => .ok (sendLine { s with buffer := rest } line)
      | none =>
        if s.endSeen then
          -- without a character in front of the end `fgets` returns NULL
          if s.buffer = [] then .ok { s with place := .test }
          else .ok (sendLine { s with buffer := [] } s.buffer)
        else .error .blocked
    else
      .error .blocked
  | .farewell =>
    if s.place = .farewell then
      .ok { s with sends := s.sends ++ [exitText], place := .exited }
    else
      .error .blocked

def keyboardStart : Keyboard := ⟨[], false, [], false, true, .test, [], []⟩

/-! ## What a step can do -/

inductive KeyboardMove (s : Keyboard) : KeyboardLabel → Keyboard → Prop where
  | type (text : List Char) (hopen : s.ended = false) :
    KeyboardMove s (.type text) { s with
      incoming := s.incoming ++ text
      typed := s.typed ++ text }
  | endInput : KeyboardMove s .endInput { s with ended := true }
  | stop : KeyboardMove s .stop { s with keepRunning := false }
  | wait (hplace : s.place = .test) (hkeep : s.keepRunning = true) :
    KeyboardMove s .test { s with place := .select }
  | wake {interrupted : Bool} {p : KeyboardPlace} (hplace : s.place = .select)
    (hp : p = .test ∨ p = .fgets) : KeyboardMove s (.select interrupted) { s with place := p }
  | leave (hplace : s.place = .test) (hstop : s.keepRunning = false) :
    KeyboardMove s .test { s with place := .farewell }
  | readEnd {count : Nat} (hplace : s.place = .fgets) (hnone : takeLine lineRoom s.buffer = none)
    (hseen : s.endSeen = false) (hincoming : s.incoming = []) (hended : s.ended = true) :
    KeyboardMove s (.read count) { s with endSeen := true }
  | read {count : Nat} (hplace : s.place = .fgets) (hnone : takeLine lineRoom s.buffer = none)
    (hseen : s.endSeen = false) (hcount : 0 < count ∧ count ≤ s.incoming.length) :
    KeyboardMove s (.read count) { s with
      incoming := s.incoming.drop count
      buffer := s.buffer ++ s.incoming.take count }
  | line {line rest : List Char} (hplace : s.place = .fgets)
    (hline : takeLine lineRoom s.buffer = some (line, rest)) :
    KeyboardMove s .fgets (sendLine { s with buffer := rest } line)
  | lastLine (hplace : s.place = .fgets) (hnone : takeLine lineRoom s.buffer = none)
    (hseen : s.endSeen = true) (hbuffer : s.buffer ≠ []) :
    KeyboardMove s .fgets (sendLine { s with buffer := [] } s.buffer)
  | noLine (hplace : s.place = .fgets) (hbuffer : s.buffer = []) :
    KeyboardMove s .fgets { s with place := .test }
  | farewell (hplace : s.place = .farewell) :
    KeyboardMove s .farewell { s with sends := s.sends ++ [exitText], place := .exited }

theorem keyboardMove_of_step {s s' : Keyboard} {l : KeyboardLabel}
    (h : keyboardStep s l = .ok s') : KeyboardMove s l s' := by
  cases l with
  | type text =>
    simp only [keyboardStep] at h
    split at h
    · cases h
    · next hended =>
      cases h
      exact .type text (Bool.not_eq_true _ ▸ hended)
  | endInput =>
    cases h
    exact .endInput
  | stop =>
    cases h
    exact .stop
  | test =>
    simp only [keyboardStep] at h
    split at h
    · next hplace =>
      cases h
      split
      · next hkeep => exact .wait hplace hkeep
      · next hstop => exact .leave hplace (Bool.not_eq_true _ ▸ hstop)
    · cases h
  | select interrupted =>
    simp only [keyboardStep] at h
    split at h
    · next hplace =>
      split at h
      · cases h
        exact .wake hplace (Or.inr rfl)
      · cases h
        exact .wake hplace (Or.inl rfl)
    · cases h
  | read count =>
    simp only [keyboardStep] at h
    split at h
    · next hcan =>
      obtain ⟨hplace, hnone, hseen⟩ := hcan
      split at h
      · next hend =>
        cases h
        exact .readEnd hplace hnone hseen hend.1 hend.2
      · split at h
        · next hcount =>
          cases h
          exact .read hplace hnone hseen hcount
        · cases h
    · cases h
  | fgets =>
    simp only [keyboardStep] at h
    split at h
    · next hplace =>
      split at h
      · next line rest hline =>
        cases h
        exact .line hplace hline
      · next hnone =>
        split at h
        · next hseen =>
          split at h
          · next hbuffer =>
            cases h
            exact .noLine hplace hbuffer
          · next hbuffer =>
            cases h
            exact .lastLine hplace hnone hseen hbuffer
        · cases h
    · cases h
  | farewell =>
    simp only [keyboardStep] at h
    split at h
    · next hplace =>
      cases h
      exact .farewell hplace
    · cases h

/-! ## The lines -/

/-- The strings that the loop has sent, when `fgets` has returned the characters `consumed`. -/
def spoken (consumed : List Char) : List (List Char) :=
  (allLines lineRoom consumed).map inputText

/-- `fgets` has returned the characters `consumed`. -/
structure Keyboard.Consumed (s : Keyboard) (consumed : List Char) : Prop where
  typed : s.typed = consumed ++ s.buffer ++ s.incoming
  boundary : (∃ lines, cutLines lineRoom consumed = (lines, [])) ∨
    (s.buffer = [] ∧ s.incoming = [] ∧ s.endSeen = true)
  endSeen : s.endSeen = true → s.ended = true ∧ s.incoming = []
  sends : s.sends = spoken consumed ++ if s.place = .exited then [exitText] else []
  noExit : exitText ∉ (spoken consumed).dropLast
  inLoop : s.place.InLoop → exitText ∉ spoken consumed
  left : ¬ s.place.InLoop → s.keepRunning = false ∨ (spoken consumed).getLast? = some exitText

theorem consumed_start : keyboardStart.Consumed [] where
  typed := rfl
  boundary := Or.inl ⟨[], rfl⟩
  endSeen := nofun
  sends := rfl
  noExit := List.not_mem_nil
  inLoop := fun _ => List.not_mem_nil
  left := fun hleft => absurd trivial hleft

/-- One more line is sent. -/
theorem Keyboard.Consumed.hear {s : Keyboard} {consumed : List Char} (h : s.Consumed consumed)
    (hplace : s.place = .fgets) {line rest : List Char} (hsplit : s.buffer = line ++ rest)
    (hspoken : spoken (consumed ++ line) = spoken consumed ++ [inputText line])
    (hboundary : (∃ lines, cutLines lineRoom (consumed ++ line) = (lines, [])) ∨
      (rest = [] ∧ s.incoming = [] ∧ s.endSeen = true)) :
    (sendLine { s with buffer := rest } line).Consumed (consumed ++ line) := by
  have hsends := h.sends
  have hno := h.inLoop (hplace ▸ trivial)
  have htyped : s.typed = consumed ++ line ++ rest ++ s.incoming := by
    rw [h.typed, hsplit, ← List.append_assoc consumed]
  rw [hplace, if_neg (by decide), List.append_nil] at hsends
  by_cases hexit : inputText line = exitText
  · have hsent : sendLine { s with buffer := rest } line =
        { s with buffer := rest, sends := s.sends ++ [inputText line], place := .farewell } := by
      rw [sendLine, if_pos hexit]
    rw [hsent]
    refine ⟨htyped, hboundary, h.endSeen, ?_, ?_, ?_, ?_⟩
    · rw [hspoken, hsends]
      exact (List.append_nil _).symm
    · rw [hspoken, List.dropLast_concat]
      exact hno
    · exact False.elim
    · intro _
      rw [hspoken, List.getLast?_concat, hexit]
      exact Or.inr rfl
  · have hsent : sendLine { s with buffer := rest } line =
        { s with buffer := rest, sends := s.sends ++ [inputText line], place := .test } := by
      rw [sendLine, if_neg hexit]
    rw [hsent]
    refine ⟨htyped, hboundary, h.endSeen, ?_, ?_, ?_, ?_⟩
    · rw [hspoken, hsends]
      exact (List.append_nil _).symm
    · rw [hspoken, List.dropLast_concat]
      exact hno
    · intro _ hmem
      rw [hspoken] at hmem
      rcases List.mem_append.mp hmem with hmem | hmem
      · exact hno hmem
      · exact hexit (List.mem_singleton.mp hmem).symm
    · exact fun hleft => absurd trivial hleft

/-- A step that sends nothing and leaves the characters where they are. -/
theorem Keyboard.Consumed.go {s : Keyboard} {consumed : List Char} (h : s.Consumed consumed)
    (hplace : s.place.InLoop) {p : KeyboardPlace} (hp : p ≠ .exited)
    (hleft : ¬ p.InLoop → s.keepRunning = false) :
    Keyboard.Consumed { s with place := p } consumed := by
  have hin : s.place ≠ .exited := fun hexited => (hexited ▸ hplace : KeyboardPlace.exited.InLoop)
  have hsends := h.sends
  rw [if_neg hin] at hsends
  refine ⟨h.typed, h.boundary, h.endSeen, ?_, h.noExit, fun _ => h.inLoop hplace,
    fun hout => Or.inl (hleft hout)⟩
  rw [if_neg hp]
  exact hsends

/-- At the boundary of a line, unless `fgets` has seen the end. -/
theorem Keyboard.Consumed.lines_of_buffer {s : Keyboard} {consumed : List Char}
    (h : s.Consumed consumed) (hbuffer : s.buffer ≠ []) :
    ∃ lines, cutLines lineRoom consumed = (lines, []) := by
  rcases h.boundary with hlines | ⟨hnil, _⟩
  · exact hlines
  · exact absurd hnil hbuffer

/-- **The step lemma.** -/
theorem consumed_step {s s' : Keyboard} {l : KeyboardLabel} {consumed : List Char}
    (h : s.Consumed consumed) (hmove : KeyboardMove s l s') :
    ∃ consumed', s'.Consumed consumed' := by
  cases hmove with
  | type text hopen =>
    have hseen : s.endSeen ≠ true := by
      intro hseen
      rw [(h.endSeen hseen).1] at hopen
      cases hopen
    refine ⟨consumed, ?_, ?_, fun hs => absurd hs hseen, h.sends, h.noExit, h.inLoop, h.left⟩
    · rw [h.typed, List.append_assoc _ s.incoming]
    · rcases h.boundary with hlines | ⟨_, _, hs⟩
      · exact Or.inl hlines
      · exact absurd hs hseen
  | endInput =>
    exact ⟨consumed, h.typed, h.boundary, fun hs => ⟨rfl, (h.endSeen hs).2⟩, h.sends, h.noExit,
      h.inLoop, h.left⟩
  | stop =>
    exact ⟨consumed, h.typed, h.boundary, h.endSeen, h.sends, h.noExit, h.inLoop,
      fun _ => Or.inl rfl⟩
  | wait hplace hkeep =>
    exact ⟨consumed, h.go (hplace ▸ trivial) nofun fun hleft => absurd trivial hleft⟩
  | wake hplace hp =>
    rcases hp with rfl | rfl
    · exact ⟨consumed, h.go (hplace ▸ trivial) nofun fun hleft => absurd trivial hleft⟩
    · exact ⟨consumed, h.go (hplace ▸ trivial) nofun fun hleft => absurd trivial hleft⟩
  | leave hplace hstop => exact ⟨consumed, h.go (hplace ▸ trivial) nofun fun _ => hstop⟩
  | readEnd hplace hnone hseen hincoming hended =>
    refine ⟨consumed, h.typed, ?_, fun _ => ⟨hended, hincoming⟩, h.sends, h.noExit, h.inLoop,
      h.left⟩
    exact h.boundary.imp_right fun hend => ⟨hend.1, hend.2.1, rfl⟩
  | @read count hplace hnone hseen hcount =>
    refine ⟨consumed, ?_, ?_, ?_, h.sends, h.noExit, h.inLoop, h.left⟩
    · rw [h.typed, ← List.append_assoc consumed, List.append_assoc _ (s.incoming.take count),
        List.take_append_drop]
    · rcases h.boundary with hlines | ⟨_, _, hs⟩
      · exact Or.inl hlines
      · rw [hseen] at hs
        cases hs
    · intro hs
      rw [hseen] at hs
      cases hs
  | @line line rest hplace hline =>
    have hsplit := takeLine_eq hline
    obtain ⟨lines, hlines⟩ := h.lines_of_buffer (by rintro hnil; rw [hnil] at hline; cases hline)
    have hnext := cutLines_takeLine (by decide) hlines hline
    refine ⟨consumed ++ line, h.hear hplace hsplit ?_ (Or.inl ⟨_, hnext⟩)⟩
    rw [spoken, spoken, allLines_of_cutLines hnext, allLines_of_cutLines hlines, List.map_append,
      List.map_singleton]
  | lastLine hplace hnone hseen hbuffer =>
    obtain ⟨lines, hlines⟩ := h.lines_of_buffer hbuffer
    have hnext := cutLines_none hlines hnone
    refine ⟨consumed ++ s.buffer, h.hear hplace (List.append_nil _).symm ?_
      (Or.inr ⟨rfl, (h.endSeen hseen).2, hseen⟩)⟩
    rw [spoken, spoken, allLines, hnext, if_neg hbuffer, allLines_of_cutLines hlines,
      List.map_append, List.map_singleton]
  | noLine hplace hbuffer =>
    exact ⟨consumed, h.go (hplace ▸ trivial) nofun fun hleft => absurd trivial hleft⟩
  | farewell hplace =>
    have hsends := h.sends
    rw [hplace, if_neg (by decide), List.append_nil] at hsends
    refine ⟨consumed, h.typed, h.boundary, h.endSeen, ?_, h.noExit, ?_, ?_⟩
    · rw [if_pos rfl, hsends]
    · exact False.elim
    · intro _
      exact h.left (hplace ▸ id)

theorem exists_consumed {labels : List KeyboardLabel} {s : Keyboard}
    (hrun : run keyboardStep keyboardStart labels = .ok s) : ∃ consumed, s.Consumed consumed :=
  run_invariant (I := fun s => ∃ consumed, Keyboard.Consumed s consumed)
    (fun _ _ _ ⟨_, h⟩ hok => consumed_step h (keyboardMove_of_step hok)) ⟨[], consumed_start⟩ hrun

/-- The lines that were consumed are the first ones of those that were typed. -/
theorem Keyboard.Consumed.spoken_prefix {s : Keyboard} {consumed : List Char}
    (h : s.Consumed consumed) : spoken consumed <+: spoken s.typed := by
  rcases h.boundary with ⟨lines, hlines⟩ | ⟨hbuffer, hincoming, _⟩
  · rw [h.typed, List.append_assoc, spoken, spoken, allLines_append hlines,
      allLines_of_cutLines hlines, List.map_append]
    exact List.prefix_append _ _
  · rw [h.typed, hbuffer, hincoming, List.append_nil, List.append_nil]

/-- **What is sent.** In every run, however the reads cut what is typed: the loop sends the first
lines of it, each once and in their order, up to an `x` at most, and the thread takes leave with
another `x` once `x` was sent or `keep_running` is cleared. Nothing is left out when `fgets` has
come to the end of the input. -/
theorem lines_sent (labels : List KeyboardLabel) (s : Keyboard)
    (hrun : run keyboardStep keyboardStart labels = .ok s) :
    ∃ sent, s.sends = sent ++ (if s.place = .exited then [exitText] else []) ∧
      sent <+: spoken s.typed ∧ exitText ∉ sent.dropLast ∧
      (exitText ∈ sent → ¬ s.place.InLoop) ∧
      (s.place = .exited → s.keepRunning = false ∨ sent.getLast? = some exitText) ∧
      (s.endSeen = true → s.buffer = [] → sent = spoken s.typed) := by
  obtain ⟨consumed, h⟩ := exists_consumed hrun
  refine ⟨spoken consumed, h.sends, h.spoken_prefix, h.noExit, fun hmem hloop =>
    h.inLoop hloop hmem, fun hexited => h.left (hexited ▸ id), ?_⟩
  intro hseen hbuffer
  rw [h.typed, hbuffer, (h.endSeen hseen).2, List.append_nil, List.append_nil]

/-- A line is typed behind `x`. -/
def exitTyped : List KeyboardLabel :=
  [.type ['x', '\n', 'd', '\n'], .test, .select false, .read 4, .fgets, .farewell]

theorem lines_sent_exitTyped : ∃ s, run keyboardStep keyboardStart exitTyped = .ok s ∧
    s.sends = [exitText, exitText] ∧ s.keepRunning = true ∧ spoken s.typed = [exitText, ['d']] ∧
    ∃ sent, s.sends = sent ++ [exitText] ∧ sent <+: spoken s.typed := by
  obtain ⟨s, hs, hsends, hplace, hkeep, hspoken⟩ : ∃ s,
      run keyboardStep keyboardStart exitTyped = .ok s ∧ s.sends = [exitText, exitText] ∧
      s.place = .exited ∧ s.keepRunning = true ∧ spoken s.typed = [exitText, ['d']] :=
    ⟨_, rfl, rfl, rfl, rfl, rfl⟩
  obtain ⟨sent, hsent, hprefix, _⟩ := lines_sent exitTyped s hs
  rw [if_pos hplace] at hsent
  exact ⟨s, hs, hsends, hkeep, hspoken, sent, hsent, hprefix⟩

/-! ## Lines that stay behind -/

/-- A `read` goes no further than the line that `fgets` waits for. -/
def ReadsLine (s : Keyboard) : KeyboardLabel → Prop
  | .read count => ∀ line rest,
    takeLine lineRoom (s.buffer ++ s.incoming.take count) = some (line, rest) → rest = []
  | _ => True

/-- The buffer holds nothing behind the line that `fgets` returns next, and nothing at all while
there is no call. -/
structure Keyboard.Prompt (s : Keyboard) : Prop where
  rest : ∀ line rest, takeLine lineRoom s.buffer = some (line, rest) → rest = []
  buffer : s.place ≠ .fgets → s.buffer = []

theorem Keyboard.Prompt.go {s : Keyboard} (h : s.Prompt) (hplace : s.place ≠ .fgets)
    (p : KeyboardPlace) : Keyboard.Prompt { s with place := p } :=
  ⟨h.rest, fun _ => h.buffer hplace⟩

theorem prompt_sendLine {s : Keyboard} (hbuffer : s.buffer = []) (line : List Char) :
    (sendLine s line).Prompt := by
  have hempty : (sendLine s line).buffer = [] := hbuffer
  refine ⟨fun l r h => ?_, fun _ => hempty⟩
  rw [hempty] at h
  cases h

theorem prompt_step {s s' : Keyboard} {l : KeyboardLabel} (hl : ReadsLine s l) (h : s.Prompt)
    (hmove : KeyboardMove s l s') : s'.Prompt := by
  cases hmove with
  | type | endInput | stop => exact ⟨h.rest, h.buffer⟩
  | wait hplace hkeep => exact h.go (hplace ▸ nofun) _
  | wake hplace hp => exact h.go (hplace ▸ nofun) _
  | leave hplace hstop => exact h.go (hplace ▸ nofun) _
  | readEnd hplace hnone hseen hincoming hended => exact ⟨h.rest, h.buffer⟩
  | read hplace hnone hseen hcount => exact ⟨hl, fun hout => absurd hplace hout⟩
  | @line line rest hplace hline => exact prompt_sendLine (h.rest line rest hline) line
  | lastLine hplace hnone hseen hbuffer => exact prompt_sendLine rfl _
  | noLine hplace hbuffer => exact ⟨h.rest, fun _ => hbuffer⟩
  | farewell hplace =>
    have hbuffer := h.buffer (hplace ▸ nofun)
    exact ⟨h.rest, fun _ => hbuffer⟩

/-- The complete lines that were not sent while nothing is left to read. -/
theorem Keyboard.Consumed.unsent {s : Keyboard} {consumed : List Char} (h : s.Consumed consumed)
    (hplace : s.place ≠ .exited) (hincoming : s.incoming = []) (hseen : s.endSeen = false) :
    (cutLines lineRoom s.typed).1.map inputText =
      s.sends ++ (cutLines lineRoom s.buffer).1.map inputText := by
  obtain ⟨lines, hlines⟩ : ∃ lines, cutLines lineRoom consumed = (lines, []) := by
    rcases h.boundary with hlines | ⟨_, _, hend⟩
    · exact hlines
    · rw [hseen] at hend
      cases hend
  have hsends := h.sends
  rw [if_neg hplace, List.append_nil, spoken, allLines_of_cutLines hlines] at hsends
  rw [h.typed, hincoming, List.append_nil, cutLines_append hlines, List.map_append, hsends]

/-- **Lines that stay behind.** Whenever the thread waits for a readable input, nothing is left to
read and the end of the input was not seen, the complete lines that were not sent are those in the
buffer of `stdin`. There are none if no `read` went past the line that `fgets` waited for, as with a
terminal. -/
theorem lines_stranded (labels : List KeyboardLabel) (s : Keyboard)
    (hrun : run keyboardStep keyboardStart labels = .ok s)
    (hwaits : s.place = .test ∨ s.place = .select) (hincoming : s.incoming = [])
    (hseen : s.endSeen = false) :
    (cutLines lineRoom s.typed).1.map inputText =
        s.sends ++ (cutLines lineRoom s.buffer).1.map inputText ∧
      (Throughout keyboardStep ReadsLine keyboardStart labels → s.buffer = []) := by
  obtain ⟨consumed, h⟩ := exists_consumed hrun
  have hplace : s.place ≠ .exited ∧ s.place ≠ .fgets := by
    rcases hwaits with hplace | hplace <;> rw [hplace] <;> exact ⟨nofun, nofun⟩
  refine ⟨h.unsent hplace.1 hincoming hseen, ?_⟩
  intro hreads
  have hprompt := run_invariant_throughout (I := Keyboard.Prompt)
    (fun _ _ _ hl h hok => prompt_step hl h (keyboardMove_of_step hok)) hreads
    ⟨nofun, fun _ => rfl⟩ hrun
  exact hprompt.buffer hplace.2

/-- Two lines that come at once: the second one is not sent. -/
def pastedLines : List KeyboardLabel :=
  [.type ['a', '\n', 'd', '\n'], .test, .select false, .read 4, .fgets]

theorem lines_stranded_pastedLines : ∃ s, run keyboardStep keyboardStart pastedLines = .ok s ∧
    s.sends = [['a']] ∧ (cutLines lineRoom s.typed).1.map inputText = s.sends ++ [['d']] := by
  obtain ⟨s, hs, hsends, hplace, hincoming, hseen, hbuffer⟩ : ∃ s,
      run keyboardStep keyboardStart pastedLines = .ok s ∧ s.sends = [['a']] ∧ s.place = .test ∧
      s.incoming = [] ∧ s.endSeen = false ∧ (cutLines lineRoom s.buffer).1 = [['d', '\n']] :=
    ⟨_, rfl, rfl, rfl, rfl, rfl, rfl⟩
  obtain ⟨hlines, _⟩ := lines_stranded pastedLines s hs (Or.inl hplace) hincoming hseen
  rw [hbuffer] at hlines
  exact ⟨s, hs, hsends, hlines⟩

end BallGame.Protocol
