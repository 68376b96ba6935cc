import BallGame.Library.Stdio
import BallGame.Server.BallBounds
import BallGame.Server.ClientListManager

/-!
# What the server sends

The texts of `serialize_ball_list` and `serialize_ball_list_all`, the two broadcasts and the
answers of a worker. Balls are formatted one by one into an array of 256 characters and
concatenated in a buffer of 8192; the text of too many balls runs over its end. The allocation
of the buffer succeeds.

* `serializeBallListAll_eq`: the text of all balls, or the overflow;
* `formatBall_eq`: the text of a ball fits in its array.
-/

namespace BallGame.Server

open Library

/-! ## Texts -/

/-- The fields of a ball, up to the delimiter. The first one is the identifier or the owner. -/
def ballText (first : Int) (b : LogicalBall) : List Char :=
  printInt first ++ ',' :: (printFixed b.x ++ ',' :: (printFixed b.y ++ ',' ::
    (printInt b.dx ++ ',' :: (printInt b.dy ++ ',' :: (printInt b.radius ++ ',' ::
      (Nat.toDigits 10 b.color.r.toNat ++ ',' :: (Nat.toDigits 10 b.color.g.toNat ++ ',' ::
        Nat.toDigits 10 b.color.b.toNat)))))))

/-- `snprintf` into `char temp[256]`. -/
def formatBall (first : Int) (b : LogicalBall) : List Char := (ballText first b ++ ['|']).take 255

/-- The size of the allocated buffer. -/
def bufferSize : Nat := 8192

def strcat (buffer temp : List Char) : Except Stuck (List Char) :=
  if buffer.length + temp.length < bufferSize then .ok (buffer ++ temp) else .error .outOfBounds

def serializeBallListAll (m : BallListManager) : Except Stuck (List Char) :=
  Linked.foldNodes (fun buffer node => strcat buffer (formatBall node.2.id node.2))
    m.heap m.heap.brk m.head []

/-- The balls of one owner, whose number stands in the place of the identifier. -/
def serializeBallList (m : BallListManager) (ownerId : Int) : Except Stuck (List Char) :=
  Linked.foldNodes (fun buffer node =>
    if node.2.ownerId = ownerId then strcat buffer (formatBall node.2.ownerId node.2)
    else .ok buffer) m.heap m.heap.brk m.head []

def okReply (cmd : Char) (count : Int) : List Char :=
  ("OK ".toList ++ cmd :: (" : ".toList ++ printInt count ++ ['\n'])).take 63

def invalidFormatReply : List Char := "Invalid command format\n".toList

def unknownCommandReply : List Char := "Unknown command\n".toList

/-! ## Broadcasts -/

/-- The calls of `send`: the socket and the bytes. -/
abbrev Sends := List (Int × List Char)

variable {α : Type}

/-- Every client gets its own balls; a client without balls gets nothing. -/
def broadcastBallState (clients : ClientListManager α) (m : BallListManager) :
    Except Stuck Sends :=
  Linked.foldNodes (fun sends node => do
    let data ← serializeBallList m node.2.csock
    .ok (if 0 < data.length then sends ++ [(node.2.csock, data)] else sends))
    clients.heap clients.heap.brk clients.head []

/-- Every client gets all balls. -/
def broadcastBallStateAll (clients : ClientListManager α) (m : BallListManager) :
    Except Stuck Sends := do
  let buffer ← serializeBallListAll m
  Linked.foldNodes (fun sends node => .ok (sends ++ [(node.2.csock, buffer)]))
    clients.heap clients.heap.brk clients.head []

/-- One round of `cycle_broadcast_ball_state`. -/
def cycleBroadcastBallState (clients : ClientListManager α) (m : BallListManager) :
    Except Stuck (BallListManager × Sends) := do
  let m ← moveAllBall m
  let sends ← broadcastBallStateAll clients m
  .ok (m, sends)

/-! ## The text of all balls -/

/-- The texts of the balls one after the other. -/
def frame (balls : List LogicalBall) : List Char := balls.flatMap fun b => formatBall b.id b

/-- Appending piece by piece fails exactly if the whole is too long. -/
theorem foldlM_strcat {β : Type} (f : β → List Char) (xs : List β) {buffer : List Char}
    (hbuffer : buffer.length < bufferSize) :
    xs.foldlM (fun buffer x => strcat buffer (f x)) buffer =
      if (buffer ++ xs.flatMap f).length < bufferSize then .ok (buffer ++ xs.flatMap f)
      else .error .outOfBounds := by
  induction xs generalizing buffer with
  | nil =>
    rw [List.flatMap_nil, List.append_nil, if_pos hbuffer]
    rfl
  | cons x xs ih =>
    rw [List.foldlM_cons, strcat, List.flatMap_cons, ← List.append_assoc]
    by_cases hx : buffer.length + (f x).length < bufferSize
    · rw [if_pos hx]
      exact ih (by rwa [List.length_append])
    · rw [if_neg hx, if_neg (by simp only [List.length_append]; omega)]
      rfl

theorem serializeBallListAll_eq {m : BallListManager} {s : BallStore} (h : m.Holds s) :
    serializeBallListAll m =
      if (frame s.balls).length < bufferSize then .ok (frame s.balls) else .error .outOfBounds := by
  obtain ⟨hr, hns⟩ := h.nodes_eq
  rw [serializeBallListAll, hr.foldNodes_eq,
    foldlM_strcat (fun node : Nat × LogicalBall => formatBall node.2.id node.2) _ (by decide),
    List.nil_append, frame, ← hns, List.flatMap_map]

theorem foldlM_append_ok {β γ : Type} (f : β → γ) (xs : List β) (ys : List γ) :
    xs.foldlM (fun ys x => (.ok (ys ++ [f x]) : Except Stuck (List γ))) ys =
      .ok (ys ++ xs.map f) := by
  induction xs generalizing ys with
  | nil =>
    rw [List.map_nil, List.append_nil]
    rfl
  | cons x xs ih =>
    have hrest := ih (ys ++ [f x])
    rw [List.append_assoc, List.singleton_append] at hrest
    exact hrest

/-- The frame goes to every client of the list. -/
theorem broadcastBallStateAll_eq {clients : ClientListManager α} {cs : List (SocketContext α)}
    (hclients : clients.Holds cs) {m : BallListManager} {s : BallStore} (h : m.Holds s) :
    broadcastBallStateAll clients m =
      if (frame s.balls).length < bufferSize then .ok (cs.map fun c => (c.csock, frame s.balls))
      else .error .outOfBounds := by
  obtain ⟨lost, ns, hr, rfl⟩ := hclients
  rw [broadcastBallStateAll, serializeBallListAll_eq h]
  split
  · simp only [bind, Except.bind]
    rw [hr.foldNodes_eq, foldlM_append_ok (fun n : Nat × SocketContext α =>
      (n.2.csock, frame s.balls)), List.map_map]
    rfl
  · rfl

theorem strcat_length {buffer temp buffer' : List Char} (h : strcat buffer temp = .ok buffer') :
    buffer'.length < bufferSize := by
  unfold strcat at h
  split at h
  · cases h
    rwa [List.length_append]
  · cases h

theorem serializeBallList_length {m : BallListManager} {s : BallStore} (h : m.Holds s)
    {ownerId : Int} {text : List Char} (htext : serializeBallList m ownerId = .ok text) :
    text.length < bufferSize := by
  rw [serializeBallList, h.nodes_eq.1.foldNodes_eq] at htext
  refine foldlM_invariant (P := fun buffer => buffer.length < bufferSize)
    (fun buffer node buffer' _ hbuffer hok => ?_) (by decide) htext
  split at hok
  · exact strcat_length hok
  · cases hok
    exact hbuffer

/-- Every client is sent the text of its own balls. -/
theorem broadcastBallState_texts {clients : ClientListManager α}
    {cs : List (SocketContext α)} (hclients : clients.Holds cs) {m : BallListManager}
    {sends : Sends} (hsends : broadcastBallState clients m = .ok sends) :
    ∀ p ∈ sends, serializeBallList m p.1 = .ok p.2 := by
  obtain ⟨lost, ns, hr, rfl⟩ := hclients
  rw [broadcastBallState, hr.foldNodes_eq] at hsends
  refine foldlM_invariant (P := fun sends : Sends => ∀ p ∈ sends, serializeBallList m p.1 = .ok p.2)
    (fun sends node sends' _ hold hok => ?_) (fun p hp => absurd hp List.not_mem_nil) hsends
  obtain ⟨data, hdata, he⟩ := bind_ok.mp hok
  cases he
  intro p hp
  split at hp
  · rcases List.mem_append.mp hp with hp | hp
    · exact hold p hp
    · rw [List.mem_singleton.mp hp]
      exact hdata
  · exact hold p hp

/-! ## The text of a ball -/

/-- The fields are printed with a bounded number of characters, none of which is a delimiter. -/
structure LogicalBall.Printable (b : LogicalBall) : Prop where
  id : IsInt b.id
  x : BoundedCoordinate b.x
  y : BoundedCoordinate b.y
  dx : IsInt b.dx
  dy : IsInt b.dy
  radius : IsInt b.radius

theorem LogicalBall.Bounded.printable {b : LogicalBall} (hb : b.Bounded) : b.Printable := by
  have hvelocity : ∀ {v : Int}, BoundedVelocity v → IsInt v := by
    intro v hv
    exact ⟨Int.le_trans (by decide) hv.1, Int.le_trans hv.2 (by decide)⟩
  exact ⟨hb.id, hb.x, hb.y, hvelocity hb.dx, hvelocity hb.dy, hb.radius⟩

/-- The characters of the text of a ball. -/
def isBallChar (c : Char) : Bool := isNumeral c || c ∈ ['i', 'n', 'f', 'a'] || c = ','

theorem isBallChar_ballText {first : Int} {b : LogicalBall} {c : Char}
    (hc : c ∈ ballText first b) : isBallChar c = true := by
  have hnumeral : isNumeral c = true → isBallChar c = true := fun h => by simp [isBallChar, h]
  have hfixed : ∀ {x : Single}, c ∈ printFixed x → isBallChar c = true := by
    intro x hx
    rcases printFixed_chars hx with h | h
    · exact hnumeral h
    · simp only [isBallChar, decide_eq_true h, Bool.or_true, Bool.true_or]
  simp only [ballText, List.mem_append, List.mem_cons] at hc
  rcases hc with hc | rfl | hc | rfl | hc | rfl | hc | rfl | hc | rfl | hc | rfl | hc | rfl | hc |
    rfl | hc
  · exact hnumeral (isNumeral_printInt hc)
  · rfl
  · exact hfixed hc
  · rfl
  · exact hfixed hc
  · rfl
  · exact hnumeral (isNumeral_printInt hc)
  · rfl
  · exact hnumeral (isNumeral_printInt hc)
  · rfl
  · exact hnumeral (isNumeral_printInt hc)
  · rfl
  · exact hnumeral (isNumeral_digits hc)
  · rfl
  · exact hnumeral (isNumeral_digits hc)
  · rfl
  · exact hnumeral (isNumeral_digits hc)

/-- The `int` fields that are printed hold an `int`. -/
structure LogicalBall.Ints (b : LogicalBall) : Prop where
  id : IsInt b.id
  dx : IsInt b.dx
  dy : IsInt b.dy
  radius : IsInt b.radius

theorem LogicalBall.Printable.ints {b : LogicalBall} (hb : b.Printable) : b.Ints :=
  ⟨hb.id, hb.dx, hb.dy, hb.radius⟩

theorem length_printInt_le {n : Int} (hn : IsInt n) : (printInt n).length ≤ 11 := by
  obtain ⟨hlow, hhigh⟩ := hn
  exact length_printInt (by decide) (by omega)

theorem length_byte_le (c : UInt8) : (Nat.toDigits 10 c.toNat).length ≤ 3 := by
  have hlt := c.toNat_lt
  exact (Nat.length_toDigits_le_iff (by decide) (by decide)).mpr (by omega)

/-- The text of a ball, from the widths of its coordinates. -/
theorem length_ballText_le {first : Int} (hfirst : IsInt first) {b : LogicalBall} (hb : b.Ints)
    {k : Nat} (hx : (printFixed b.x).length ≤ k) (hy : (printFixed b.y).length ≤ k) :
    (ballText first b).length ≤ 61 + 2 * k := by
  have h₁ := length_printInt_le hfirst
  have h₂ := length_printInt_le hb.dx
  have h₃ := length_printInt_le hb.dy
  have h₄ := length_printInt_le hb.radius
  have h₅ := length_byte_le b.color.r
  have h₆ := length_byte_le b.color.g
  have h₇ := length_byte_le b.color.b
  simp only [ballText, List.length_append, List.length_cons]
  omega

theorem length_ballText {first : Int} (hfirst : IsInt first) {b : LogicalBall}
    (hb : b.Printable) : (ballText first b).length ≤ 100 := by
  have hcoordinate : ∀ {x : Single}, BoundedCoordinate x → (printFixed x).length ≤ 17 := by
    rintro x ⟨n, hx, hn⟩
    obtain ⟨hlow, hhigh⟩ := abs_le.mp hn
    exact length_printFixed hx (by decide) (by omega)
  have hlen := length_ballText_le hfirst hb.ints (hcoordinate hb.x) (hcoordinate hb.y)
  omega

/-- The text of a ball fits in its array. -/
theorem formatBall_eq {first : Int} (hfirst : IsInt first) {b : LogicalBall} (hb : b.Ints) :
    formatBall first b = ballText first b ++ ['|'] := by
  have hlen := length_ballText_le hfirst hb (length_printFixed_le b.x) (length_printFixed_le b.y)
  rw [formatBall, List.take_of_length_le]
  rw [List.length_append, List.length_singleton]
  omega

theorem length_frame {bs : List LogicalBall} (hbs : ∀ b ∈ bs, b.Printable) :
    (frame bs).length ≤ 101 * bs.length := by
  induction bs with
  | nil => exact Nat.le_refl 0
  | cons b bs ih =>
    have hb := hbs b (List.mem_cons_self ..)
    have hlen := length_ballText hb.id hb
    have hrest := ih fun c hc => hbs c (List.mem_cons_of_mem _ hc)
    have hcons : frame (b :: bs) = ballText b.id b ++ ['|'] ++ frame bs := by
      rw [frame, List.flatMap_cons, formatBall_eq hb.id hb.ints]
      rfl
    rw [hcons]
    simp only [List.length_append, List.length_cons, List.length_nil]
    omega

/-- Up to 81 balls always fit in the buffer. -/
theorem serializeBallListAll_ok {m : BallListManager} {s : BallStore} (h : m.Holds s)
    (hs : s.Bounded) (hcount : s.balls.length ≤ 81) :
    serializeBallListAll m = .ok (frame s.balls) := by
  have hlen := length_frame fun b hb => (hs.balls b hb).printable
  rw [serializeBallListAll_eq h, if_pos]
  simp only [bufferSize]
  omega

end BallGame.Server
