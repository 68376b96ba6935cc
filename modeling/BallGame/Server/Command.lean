import BallGame.Library.Blocks
import BallGame.Library.Stdio
import BallGame.Server.LocalBallManager
import BallGame.Server.Task

/-!
# Commands on the wire

A client sends every input line without its newline, and the server makes a task of whatever
one `recv` returns. Nothing marks where a command ends, so the server reads the commands that
were sent only if TCP delivers them one at a time.

* `parseCommand_op`: a command that is accepted begins with its operation;
* `framing_exact_iff`: the decoded commands are the sent ones if every `recv` returns one
  command, and, for commands of the documented forms, only then;
* `framing_coalesced`: two commands in one segment are lost.
-/

namespace BallGame.Server

open Library

/-! ## Parsing -/

/-- `"%c:%d:%d"`. -/
def fullFormat : List Directive := [.char, .literal ':', .int, .literal ':', .int]

/-- `"%c:%d"`. -/
def countFormat : List Directive := [.char, .literal ':', .int]

/-- The operation (NUL for a string that is not a command) with the ball count and the radius,
which keep their values when the string is refused. -/
def parseCommand (cmdStr : List Char) (ballCount radius : Int) : Char × Int × Int :=
  match scan fullFormat cmdStr with
  | [.char op, .int n1, .int n2] => (op, n1, n2)
  | _ =>
    match scan countFormat cmdStr with
    | [.char op, .int n1] => (op, n1, startBallRadius)
    | _ =>
      if cmdStr.length = 1 then (cmdStr.headD (Char.ofNat 0), 0, startBallRadius)
      else (Char.ofNat 0, ballCount, radius)

/-- The task the main thread makes of the bytes one `recv` returned. -/
def receivedTask (fd : Int) (bytes : List Char) : Task := ⟨fd, bytes, bytes.length⟩

/-- The command a worker reads in a task: `data[length]` is set to NUL first. -/
def taskCommand (task : Task) (ballCount radius : Int) : Char × Int × Int :=
  parseCommand (cString (task.data.take task.length.toNat)) ballCount radius

theorem scan_char {ds : List Directive} {s : List Char} {c : Char} {vs : List Scanned}
    (h : scan (.char :: ds) s = .char c :: vs) : s.head? = some c := by
  cases s with
  | nil => simp [scan, scanDirective] at h
  | cons d s =>
    simp only [scan, scanDirective, Option.toList, List.singleton_append, List.cons.injEq,
      Scanned.char.injEq] at h
    rw [List.head?_cons, h.1]

/-- What `parseCommand` returns: one of the three forms, or nothing. -/
theorem parseCommand_cases (s : List Char) :
    (∃ op n1 n2, s.head? = some op ∧ ∀ b r, parseCommand s b r = (op, n1, n2)) ∨
      ∀ b r, parseCommand s b r = (Char.ofNat 0, b, r) := by
  by_cases hfull : ∃ op n1 n2, scan fullFormat s = [.char op, .int n1, .int n2]
  · obtain ⟨op, n1, n2, h⟩ := hfull
    exact Or.inl ⟨op, n1, n2, scan_char h, fun b r => by simp only [parseCommand, h]⟩
  by_cases hcount : ∃ op n1, scan countFormat s = [.char op, .int n1]
  · obtain ⟨op, n1, h⟩ := hcount
    refine Or.inl ⟨op, n1, startBallRadius, scan_char h, ?_⟩
    intro b r
    unfold parseCommand
    split
    · rename_i he
      exact absurd ⟨_, _, _, he⟩ hfull
    · simp only [h]
  have hrest : ∀ b r, parseCommand s b r =
      if s.length = 1 then (s.headD (Char.ofNat 0), 0, startBallRadius)
      else (Char.ofNat 0, b, r) := by
    intro b r
    unfold parseCommand
    split
    · rename_i he
      exact absurd ⟨_, _, _, he⟩ hfull
    · split
      · rename_i he
        exact absurd ⟨_, _, he⟩ hcount
      · rfl
  by_cases hlen : s.length = 1
  · obtain ⟨c, rfl⟩ := List.length_eq_one_iff.mp hlen
    exact Or.inl ⟨c, 0, startBallRadius, rfl, fun b r => by rw [hrest, if_pos hlen]; rfl⟩
  · exact Or.inr fun b r => by rw [hrest, if_neg hlen]

/-- Count and radius of an accepted command are an `int` each. -/
theorem parseCommand_isInt {s : List Char} {b r : Int}
    (h : (parseCommand s b r).1 ≠ Char.ofNat 0) :
    IsInt (parseCommand s b r).2.1 ∧ IsInt (parseCommand s b r).2.2 := by
  have hzero : IsInt 0 := by decide
  have hradius : IsInt startBallRadius := by decide
  unfold parseCommand at h ⊢
  split
  · rename_i op n1 n2 hscan
    have hcount : .int n1 ∈ scan fullFormat s := by simp [hscan]
    have hrange : .int n2 ∈ scan fullFormat s := by simp [hscan]
    exact ⟨isInt_of_mem_scan hcount, isInt_of_mem_scan hrange⟩
  · split
    · rename_i op n1 hscan
      have hcount : .int n1 ∈ scan countFormat s := by simp [hscan]
      exact ⟨isInt_of_mem_scan hcount, hradius⟩
    · split
      · exact ⟨hzero, hradius⟩
      · simp_all

/-- A command that is accepted begins with its operation. -/
theorem parseCommand_op {s : List Char} {ballCount radius : Int}
    (h : (parseCommand s ballCount radius).1 ≠ Char.ofNat 0) :
    s.head? = some (parseCommand s ballCount radius).1 := by
  rcases parseCommand_cases s with ⟨op, n1, n2, hhead, heq⟩ | hnone
  · rw [heq, hhead]
  · rw [hnone] at h
    exact absurd rfl h

/-- The result of an accepted command does not depend on the command before it. -/
theorem parseCommand_fresh {s : List Char} {b r : Int}
    (h : (parseCommand s b r).1 ≠ Char.ofNat 0) (b' r' : Int) :
    parseCommand s b r = parseCommand s b' r' := by
  rcases parseCommand_cases s with ⟨op, n1, n2, _, heq⟩ | hnone
  · rw [heq, heq]
  · rw [hnone] at h
    exact absurd rfl h

/-! ## Framing -/

/-- The size of the client's input buffer. -/
def maxInput : Nat := 100

/-- A line `fgets` reads, without its newline. -/
def InputLine (s : List Char) : Prop :=
  s ≠ [] ∧ s.length < maxInput ∧ '\n' ∉ s ∧ Char.ofNat 0 ∉ s

instance (s : List Char) : Decidable (InputLine s) := inferInstanceAs (Decidable (_ ∧ _))

/-- What the calls of `recv` return, in order: the bytes that were sent, cut somehow. -/
structure Segmentation (sent received : List (List Char)) : Prop where
  bytes : received.flatten = sent.flatten
  pieces : ∀ r ∈ received, r ≠ [] ∧ r.length ≤ bufsiz

/-- The letters of the command guide. -/
def isCommandLetter (c : Char) : Bool :=
  c ∈ [cmdAdd, cmdDel, cmdSpeedUp, cmdSpeedDown, cmdExit]

/-- A command as the guide shows it: it is accepted, and its letter stands in front and
nowhere else. -/
structure Documented (s : List Char) : Prop where
  line : InputLine s
  accepted : (parseCommand s 0 0).1 ≠ Char.ofNat 0
  block : IsBlock isCommandLetter s

/-- The command the server reads in the bytes of one `recv`. -/
def decode (fd ballCount radius : Int) (bytes : List Char) : Char × Int × Int :=
  taskCommand (receivedTask fd bytes) ballCount radius

theorem decode_eq {bytes : List Char} (h : Char.ofNat 0 ∉ bytes) (fd b r : Int) :
    decode fd b r bytes = parseCommand bytes b r := by
  simp only [decode, taskCommand, receivedTask, Int.toNat_natCast, List.take_length,
    cString_of_not_mem h]

/-- No byte of a stream of input lines is NUL. -/
theorem Segmentation.nul_not_mem {sent received : List (List Char)}
    (hs : Segmentation sent received) (hsent : ∀ s ∈ sent, InputLine s) :
    ∀ r ∈ received, Char.ofNat 0 ∉ r := by
  intro r hr hmem
  have hflat : Char.ofNat 0 ∈ received.flatten := List.mem_flatten.mpr ⟨r, hr, hmem⟩
  rw [hs.bytes] at hflat
  obtain ⟨s, hsmem, hs0⟩ := List.mem_flatten.mp hflat
  exact (hsent s hsmem).2.2.2 hs0

/-- Commands of the documented forms are decoded in no other segmentation. -/
theorem segments_eq_of_decoded {sent received : List (List Char)} {fd b r : Int}
    (hsent : ∀ s ∈ sent, Documented s) (hs : Segmentation sent received)
    (h : received.map (decode fd b r) = sent.map fun s => parseCommand s b r) :
    received = sent := by
  have hnul := hs.nul_not_mem fun s hmem => (hsent s hmem).line
  have hlen : received.length = sent.length := by simpa using congrArg List.length h
  refine pieces_eq_blocks (fun s hmem => (hsent s hmem).block) ?_ hlen hs.bytes
  intro g hg
  -- the piece is decoded to one of the commands, so it begins with that command's letter
  obtain ⟨s, hmem, hdec⟩ : ∃ s ∈ sent, parseCommand s b r = decode fd b r g := by
    have hg' : decode fd b r g ∈ received.map (decode fd b r) := List.mem_map_of_mem hg
    rw [h] at hg'
    simpa using hg'
  rw [decode_eq (hnul g hg)] at hdec
  have hacc : (parseCommand s b r).1 ≠ Char.ofNat 0 := by
    rw [← parseCommand_fresh (hsent s hmem).accepted b r]
    exact (hsent s hmem).accepted
  obtain ⟨c, hc, hletter⟩ := (hsent s hmem).block.1
  have hop := parseCommand_op hacc
  rw [hdec] at hacc hop
  rw [Option.mem_def, hop, Option.some.injEq] at hc
  subst hc
  exact ⟨_, parseCommand_op hacc, hletter⟩

/-- **Client-to-server framing.** If every `recv` returns exactly one command, the server reads
the commands that were sent. For commands of the documented forms every other segmentation of
the stream is read differently. -/
theorem framing_exact_iff (sent received : List (List Char)) (fd b r : Int)
    (hsent : ∀ s ∈ sent, InputLine s) (hs : Segmentation sent received) :
    (received = sent → received.map (decode fd b r) = sent.map fun s => parseCommand s b r) ∧
      ((∀ s ∈ sent, Documented s) →
        (received.map (decode fd b r) = sent.map (fun s => parseCommand s b r) ↔
          received = sent)) := by
  have hexact : received = sent →
      received.map (decode fd b r) = sent.map fun s => parseCommand s b r := by
    rintro rfl
    exact List.map_congr_left fun s hmem => decode_eq (hsent s hmem).2.2.2 fd b r
  exact ⟨hexact, fun hdoc => ⟨segments_eq_of_decoded hdoc hs, hexact⟩⟩

/-- `a:3` and `d`, delivered one at a time. -/
theorem framing_exact_iff_two_commands :
    [['a', ':', '3'], ['d']].map (decode 5 0 0) = [('a', 3, 20), ('d', 0, 20)] ∧
      ([['a', ':', '3'], ['d']].map (decode 5 0 0) =
        [['a', ':', '3'], ['d']].map (fun s => parseCommand s 0 0) ↔
          [['a', ':', '3'], ['d']] = [['a', ':', '3'], ['d']]) := by
  have hdoc : ∀ s ∈ [['a', ':', '3'], ['d']], Documented s := by
    intro s hs
    simp only [List.mem_cons, List.not_mem_nil, or_false] at hs
    rcases hs with rfl | rfl
    · exact ⟨by decide, by decide, ⟨'a', rfl, rfl⟩,
      List.forall_mem_cons.mpr ⟨rfl, List.forall_mem_singleton.mpr rfl⟩⟩
    · exact ⟨by decide, by decide, ⟨'d', rfl, rfl⟩, List.forall_mem_nil _⟩
  have hseg : Segmentation [['a', ':', '3'], ['d']] [['a', ':', '3'], ['d']] :=
    ⟨rfl, by decide⟩
  exact ⟨by decide, (framing_exact_iff _ _ 5 0 0 (fun s hs => (hdoc s hs).line) hseg).2 hdoc⟩

/-- The commands `a` and `d` in one segment: neither is read. -/
theorem framing_coalesced :
    ¬ ∀ (sent received : List (List Char)) (fd b r : Int), (∀ s ∈ sent, InputLine s) →
      Segmentation sent received →
      received.map (decode fd b r) = sent.map fun s => parseCommand s b r := by
  intro hall
  have hseg : Segmentation [['a'], ['d']] [['a', 'd']] := ⟨rfl, by decide⟩
  have := hall [['a'], ['d']] [['a', 'd']] 5 0 0 (by decide) hseg
  exact absurd this (by decide)

end BallGame.Server
