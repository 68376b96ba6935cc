import BallGame.Protocol.Frames
import BallGame.Server.Task

/-!
# The stream from the server to a client

The bytes of all writes to one socket form a stream, and `recv` cuts it anywhere. The client
replaces its list on every `recv`, by what it can make of these bytes alone.

* `run_socketRecv`: after any sequence of `recv` results the client shows the tokens of the last
  one;
* `frame_shown_exactly`: this is the list of balls of a frame if the `recv` that completes the
  frame begins with it;
* `frame_cut_in_two`: a frame of two balls of which only the second one is shown.
-/

namespace BallGame.Protocol

open Library Server Client

/-! ## Writing and receiving -/

/-- A call of `send` to the socket of a client. -/
inductive ServerWrite where
  | all (m : Server.BallListManager)
  | own (m : Server.BallListManager) (csock : Int)
  | reply (cmd : Char) (count : Int)
  | invalidFormat
  | unknownCommand

def ServerWrite.bytes : ServerWrite → Except Stuck (List Char)
  | .all m => serializeBallListAll m
  | .own m csock => serializeBallList m csock
  | .reply cmd count => .ok (okReply cmd count)
  | .invalidFormat => .ok invalidFormatReply
  | .unknownCommand => .ok unknownCommandReply

/-- The balls are those of some run of the server. -/
def ServerWrite.Possible : ServerWrite → Prop
  | .all m => ∃ events, run eventStep Server.ballManagerInit events = .ok m
  | .own m _ => ∃ events, run eventStep Server.ballManagerInit events = .ok m
  | _ => True

def stream : List ServerWrite → Except Stuck (List Char)
  | [] => .ok []
  | w :: ws => do
    let bytes ← w.bytes
    let rest ← stream ws
    .ok (bytes ++ rest)

/-- The bytes one `recv` returns, and what the allocator does during the update. -/
structure Recv where
  bytes : List Char
  env : UpdateEnv

/-- `recv` returns at least one byte and leaves one place of the buffer free; the memory of the
client suffices. -/
structure Recv.Complete (r : Recv) : Prop where
  nonempty : r.bytes ≠ []
  fits : r.bytes.length ≤ bufsiz - 1
  strdup : r.env.strdup = true
  alloc : ∀ i, r.env.alloc i ≠ none

/-- One iteration of `socket_recv_thread`. -/
def socketRecv (width height : Int) (m : Client.BallListManager) (r : Recv) :
    Except Stuck Client.BallListManager :=
  updateBallListFromSerialized m (cString r.bytes) width height r.env

/-- The writes of the server up to a frame that is not empty, and how their bytes are cut: the
last piece ends with the frame. -/
structure Delivery (writes : List ServerWrite) (m : Server.BallListManager) (text : List Char)
    (chunks : List Recv) (last : Recv) : Prop where
  possible : ∀ w ∈ writes ++ [.all m], w.Possible
  frame : serializeBallListAll m = .ok text
  nonempty : text ≠ []
  cut : ∃ sent, stream writes = .ok sent ∧
    ((chunks ++ [last]).map Recv.bytes).flatten = sent ++ text
  complete : ∀ r ∈ chunks ++ [last], r.Complete

/-! ## What the client shows -/

theorem socketRecv_ok {m : Client.BallListManager} {balls : List ScreenBall} (h : m.Holds balls)
    {r : Recv} (hr : r.Complete) (width height : Int) :
    ∃ m', socketRecv width height m r = .ok m' ∧
      m'.Holds ((tokens '|' (cString r.bytes)).map (shownBall width height)) := by
  apply updateBallListFromSerialized_ok h hr.strdup hr.alloc
  have htokens := length_tokens_le '|' (cString r.bytes)
  have hstring : (cString r.bytes).length ≤ r.bytes.length := (List.takeWhile_sublist _).length_le
  have hfits := hr.fits
  simp only [bufsiz] at hfits
  omega

/-- After the last `recv` the client shows its tokens, whatever came before. -/
theorem run_socketRecv {m : Client.BallListManager} {balls : List ScreenBall} (h : m.Holds balls)
    {chunks : List Recv} {last : Recv} (hcomplete : ∀ r ∈ chunks ++ [last], r.Complete)
    (width height : Int) :
    ∃ m', run (socketRecv width height) m (chunks ++ [last]) = .ok m' ∧
      m'.toList = (tokens '|' (cString last.bytes)).map (shownBall width height) := by
  induction chunks generalizing m balls with
  | nil =>
    obtain ⟨m', hm', hholds⟩ := socketRecv_ok h (hcomplete last (List.mem_singleton_self _)) width
      height
    exact ⟨m', run_cons_ok.mpr ⟨m', hm', rfl⟩, hholds.toList_eq⟩
  | cons r chunks ih =>
    obtain ⟨m₁, hm₁, hholds⟩ := socketRecv_ok h (hcomplete r (List.mem_cons_self ..)) width height
    obtain ⟨m', hm', hlist⟩ := ih hholds fun c hc => hcomplete c (List.mem_cons_of_mem _ hc)
    exact ⟨m', run_cons_ok.mpr ⟨m₁, hm₁, hm'⟩, hlist⟩

theorem nul_not_mem_frame {bs : List Server.LogicalBall} (hbs : ∀ b ∈ bs, b.Printable) :
    Char.ofNat 0 ∉ frame bs :=
  nul_not_mem_frameBy (fun b hb => (hbs b hb).id) fun b hb => (hbs b hb).ints

theorem Separator.nul_not_mem {sep : List Char} (h : Separator sep) : Char.ofNat 0 ∉ sep := by
  obtain ⟨bars, spaces, rfl, hbars, hspaces⟩ := h
  intro hmem
  rcases List.mem_append.mp hmem with hmem | hmem
  · exact absurd (hbars _ hmem) (by decide)
  · exact absurd (hspaces _ hmem) (by decide)

/-- The text of a reachable list is the frame of its balls, which are in bounds. -/
theorem serialized_run {events : List StoreEvent} {m : Server.BallListManager}
    (hrun : run eventStep Server.ballManagerInit events = .ok m) {text : List Char}
    (htext : serializeBallListAll m = .ok text) :
    text = frame m.toList ∧ ∀ b ∈ m.toList, b.Printable := by
  obtain ⟨s, hholds, hbounded⟩ := bounded_run hrun
  rw [serializeBallListAll_eq hholds] at htext
  rw [hholds.toList_eq]
  split at htext
  · cases htext
    exact ⟨rfl, fun b hb => (hbounded.balls b hb).printable⟩
  · cases htext

/-- **A frame is shown exactly** if the `recv` that completes it begins with it. In any case the
client shows after each `recv` the tokens of this one. -/
theorem frame_shown_exactly (writes : List ServerWrite) (m : Server.BallListManager)
    (text : List Char) (chunks : List Recv) (last : Recv)
    (h : Delivery writes m text chunks last) (width height : Int) :
    (∀ before r after, chunks ++ [last] = before ++ r :: after →
      ∃ shown, run (socketRecv width height) Client.ballManagerInit (before ++ [r]) = .ok shown ∧
        shown.toList = (tokens '|' (cString r.bytes)).map (shownBall width height)) ∧
    ∃ client, run (socketRecv width height) Client.ballManagerInit (chunks ++ [last]) =
        .ok client ∧
      client.toList = (tokens '|' (cString last.bytes)).map (shownBall width height) ∧
      (∀ sep, Separator sep → last.bytes = sep ++ text →
        client.toList = m.toList.map (image width height)) := by
  obtain ⟨client, hrun, hlist⟩ := run_socketRecv Client.holds_init h.complete width height
  refine ⟨?_, client, hrun, hlist, ?_⟩
  · intro before r after hsplit
    refine run_socketRecv Client.holds_init (fun c hc => h.complete c ?_) width height
    rw [hsplit, List.append_cons]
    exact List.mem_append_left _ hc
  intro sep hsep hlast
  obtain ⟨events, hevents⟩ : (ServerWrite.all m).Possible :=
    h.possible _ (List.mem_append_right _ (List.mem_singleton_self _))
  obtain ⟨htext, hbounded⟩ := serialized_run hevents h.frame
  have hne : m.toList ≠ [] := by
    intro hnil
    rw [hnil] at htext
    exact h.nonempty htext
  have hnul : Char.ofNat 0 ∉ sep ++ frame m.toList := by
    simp [hsep.nul_not_mem, nul_not_mem_frame hbounded]
  rw [hlist, hlast, htext, cString_of_not_mem hnul, shown_frame hbounded hne hsep]

/-! ## A frame of two balls -/

def twoBalls : List StoreEvent := [.command 'a' 2 20 7 zeroDraws]

def enoughMemory : UpdateEnv := ⟨true, some⟩

theorem twoBalls_run : ∃ m b₁ b₂, run eventStep Server.ballManagerInit twoBalls = .ok m ∧
    m.toList = [b₁, b₂] ∧ b₁.Printable ∧ b₂.Printable ∧
    serializeBallListAll m = .ok (frame [b₁, b₂]) := by
  obtain ⟨m, b₁, b₂, hm, hlist⟩ : ∃ m b₁ b₂, run eventStep Server.ballManagerInit twoBalls = .ok m ∧
      m.toList = [b₁, b₂] := ⟨_, _, _, rfl, rfl⟩
  obtain ⟨s, hholds, hbounded⟩ := bounded_run hm
  have hballs : s.balls = [b₁, b₂] := hholds.toList_eq.symm.trans hlist
  refine ⟨m, b₁, b₂, hm, hlist, (hbounded.balls b₁ (by simp [hballs])).printable,
    (hbounded.balls b₂ (by simp [hballs])).printable, ?_⟩
  rw [← hballs]
  exact serializeBallListAll_ok hholds hbounded (by simp [hballs])

theorem complete_text {text : List Char} (hne : text ≠ []) (hlen : text.length ≤ 8191) :
    Recv.Complete ⟨text, enoughMemory⟩ :=
  ⟨hne, hlen, rfl, fun i hi => by cases hi⟩

/-- An answer and a frame, each received by itself. -/
theorem frame_shown_exactly_two_balls :
    ∃ m text client, run eventStep Server.ballManagerInit twoBalls = .ok m ∧
      run (socketRecv 800 480) Client.ballManagerInit
        [⟨okReply 'a' 2, enoughMemory⟩, ⟨text, enoughMemory⟩] = .ok client ∧
      client.toList = m.toList.map (image 800 480) ∧ m.toList.length = 2 := by
  obtain ⟨m, b₁, b₂, hm, hlist, hb₁, hb₂, htext⟩ := twoBalls_run
  have hlen : (frame [b₁, b₂]).length ≤ 202 := length_frame (by simp [hb₁, hb₂])
  have hne : frame [b₁, b₂] ≠ [] := by
    rw [frame_cons hb₁]
    exact List.append_ne_nil_of_left_ne_nil (ballText_ne_nil _ _) _
  have h : Delivery [.reply 'a' 2] m (frame [b₁, b₂]) [⟨okReply 'a' 2, enoughMemory⟩]
      ⟨frame [b₁, b₂], enoughMemory⟩ := by
    refine ⟨?_, htext, hne, ⟨okReply 'a' 2, rfl, by simp⟩, ?_⟩
    · simp only [List.cons_append, List.nil_append, List.mem_cons, List.not_mem_nil, or_false]
      rintro w (rfl | rfl)
      · trivial
      · exact ⟨twoBalls, hm⟩
    · simp only [List.cons_append, List.nil_append, List.mem_cons, List.not_mem_nil, or_false]
      rintro r (rfl | rfl)
      · exact complete_text (by decide) (by decide)
      · exact complete_text hne (by omega)
  obtain ⟨_, client, hrun, _, hexact⟩ := frame_shown_exactly _ _ _ _ _ h 800 480
  refine ⟨m, _, client, hm, hrun, hexact [] separator_nil rfl, ?_⟩
  rw [hlist]
  rfl

/-- The frame is cut behind its first ball, and only the second one is shown. -/
theorem frame_cut_in_two :
    ∃ m text first last client, run eventStep Server.ballManagerInit twoBalls = .ok m ∧
      Delivery [] m text [⟨first, enoughMemory⟩] ⟨last, enoughMemory⟩ ∧
      run (socketRecv 800 480) Client.ballManagerInit
        [⟨first, enoughMemory⟩, ⟨last, enoughMemory⟩] = .ok client ∧
      m.toList.length = 2 ∧ client.toList.length = 1 ∧
      client.toList ≠ m.toList.map (image 800 480) := by
  obtain ⟨m, b₁, b₂, hm, hlist, hb₁, hb₂, htext⟩ := twoBalls_run
  have hlen : (frame [b₁, b₂]).length ≤ 202 := length_frame (by simp [hb₁, hb₂])
  have hsplit : frame [b₁, b₂] = ballText b₁.id b₁ ++ ['|'] ++ frame [b₂] := by
    rw [frame_cons hb₁, List.append_assoc]
    rfl
  have hne : ∀ b : Server.LogicalBall, b.Printable → frame [b] ≠ [] := fun b hb => by
    rw [frame_cons hb]
    exact List.append_ne_nil_of_left_ne_nil (ballText_ne_nil _ _) _
  rw [hsplit] at hlen
  simp only [List.length_append, List.length_cons, List.length_nil] at hlen
  have hcomplete : ∀ r ∈ [(⟨ballText b₁.id b₁ ++ ['|'], enoughMemory⟩ : Recv)] ++
      [⟨frame [b₂], enoughMemory⟩], r.Complete := by
    simp only [List.cons_append, List.nil_append, List.mem_cons, List.not_mem_nil, or_false]
    rintro r (rfl | rfl)
    · apply complete_text (List.append_ne_nil_of_left_ne_nil (ballText_ne_nil _ _) _)
      simp only [List.length_append, List.length_cons, List.length_nil]
      omega
    · exact complete_text (hne b₂ hb₂) (by omega)
  obtain ⟨client, hrun, hshown⟩ := run_socketRecv Client.holds_init hcomplete 800 480
  have hnul : Char.ofNat 0 ∉ frame [b₂] := nul_not_mem_frame (by simp [hb₂])
  have hone : client.toList.length = 1 := by
    rw [hshown, List.length_map, cString_of_not_mem hnul, tokens_frame (by simp [hb₂]),
      List.length_map, List.length_singleton]
  have htwo : m.toList.length = 2 := by
    rw [hlist]
    rfl
  refine ⟨m, _, _, _, client, hm, ⟨?_, htext, ?_, ⟨[], rfl, ?_⟩, hcomplete⟩, hrun, htwo, hone, ?_⟩
  · simp only [List.nil_append, List.mem_singleton]
    rintro w rfl
    exact ⟨twoBalls, hm⟩
  · rw [hsplit]
    exact List.append_ne_nil_of_right_ne_nil _ (hne b₂ hb₂)
  · rw [hsplit]
    simp
  · intro he
    rw [he, List.length_map, htwo] at hone
    cases hone

end BallGame.Protocol
