import BallGame.Client.ScreenBallManager
import BallGame.Server.Arena
import BallGame.Server.Broadcast

/-!
# Frames

A frame is the text of all balls. The client takes it apart again: the tokens of a frame are
the texts of its balls, and scanning the text of a ball that is in bounds gives all its fields
back.

* `scanBall_ballText`: the round trip of one ball;
* `legible_serializeBallList`: the balls of an owner are a text with a token, if there are any;
* `tokens_frame`: the tokens of a frame, also behind delimiters and white space;
* `shown_frame`: what the client shows after a frame;
* `codec_round_trip`: the list of the client after the text of a list of the server.
-/

namespace BallGame.Protocol

open Library Server Client

/-! ## One ball -/

/-- The ball as the client reads it, with the first field of its text as identifier. -/
def sentBall (first : Int) (b : Server.LogicalBall) : Client.LogicalBall :=
  ⟨some first, some b.x, some b.y, some b.dx, some b.dy, some b.radius,
    ⟨some b.color.r, some b.color.g, some b.color.b⟩⟩

theorem endsDigits_comma (s : List Char) : EndsDigits (',' :: s) := endsDigits_cons rfl s

theorem endsDecimal_comma (s : List Char) : EndsDecimal (',' :: s) := by
  intro c hc
  cases hc
  decide

theorem scan_int {n : Int} (hn : IsInt n) (ds : List Directive) (s : List Char) :
    scan (.int :: .literal ',' :: ds) (printInt n ++ ',' :: s) = .int n :: scan ds s := by
  simp [scan, scanDirective, scanInt_printInt hn (endsDigits_comma s)]

theorem scan_float {x : Single} {n : Int} (hx : x.IsWhole n) (ds : List Directive)
    (s : List Char) :
    scan (.float :: .literal ',' :: ds) (printFixed x ++ ',' :: s) = .float x :: scan ds s := by
  simp [scan, scanDirective, scanFloat_printFixed hx (endsDecimal_comma s)]

theorem scan_byte (b : UInt8) (ds : List Directive) (s : List Char) :
    scan (.byte :: .literal ',' :: ds) (Nat.toDigits 10 b.toNat ++ ',' :: s) =
      .byte b :: scan ds s := by
  simp [scan, scanDirective, scanByte_printNat b (endsDigits_comma s)]

theorem scan_last_byte (b : UInt8) : scan [.byte] (Nat.toDigits 10 b.toNat) = [.byte b] := by
  have hscan := scanByte_printNat b endsDigits_nil
  rw [List.append_nil] at hscan
  simp [scan, scanDirective, hscan]

/-- Scanning the text of a ball gives its fields back. -/
theorem scanBall_ballText {first : Int} (hfirst : IsInt first) {b : Server.LogicalBall}
    (hb : b.Printable) : scanBall (ballText first b) = sentBall first b := by
  obtain ⟨x, hx, _⟩ := hb.x
  obtain ⟨y, hy, _⟩ := hb.y
  have hscan : scan ballFormat (ballText first b) = [.int first, .float b.x, .float b.y,
      .int b.dx, .int b.dy, .int b.radius, .byte b.color.r, .byte b.color.g, .byte b.color.b] := by
    rw [ballFormat, ballText, scan_int hfirst, scan_float hx, scan_float hy,
      scan_int hb.dx, scan_int hb.dy, scan_int hb.radius, scan_byte,
      scan_byte, scan_last_byte]
  simp only [scanBall, hscan]
  rfl

/-- `%d` skips white space. -/
theorem scanBall_spaces {spaces : List Char} (hspaces : ∀ c ∈ spaces, isSpace c = true)
    (s : List Char) : scanBall (spaces ++ s) = scanBall s := by
  have hscan : scan ballFormat (spaces ++ s) = scan ballFormat s := by
    simp only [ballFormat, scan, scanDirective, scanInt,
      List.dropWhile_append_of_pos hspaces]
  rw [scanBall, hscan, scanBall]

/-! ## Texts with a token -/

/-- A text at whose beginning the client finds a token. -/
def Legible (text : List Char) : Prop :=
  ∃ c rest, text = c :: rest ∧ c ≠ '|' ∧ c ≠ Char.ofNat 0

theorem Legible.tokens_ne_nil {text : List Char} (h : Legible text) :
    tokens '|' (cString text) ≠ [] := by
  obtain ⟨c, rest, rfl, hbar, hnul⟩ := h
  rw [cString, List.takeWhile_cons_of_pos (by simpa using hnul)]
  exact tokens_cons_ne_nil hbar _

theorem Legible.ne_nil {text : List Char} (h : Legible text) : text ≠ [] := by
  obtain ⟨c, rest, rfl, _⟩ := h
  exact List.cons_ne_nil c rest

theorem Legible.append {text : List Char} (h : Legible text) (rest : List Char) :
    Legible (text ++ rest) := by
  obtain ⟨c, tail, rfl, hc⟩ := h
  exact ⟨c, tail ++ rest, rfl, hc⟩

theorem legible_formatBall (first : Int) (b : Server.LogicalBall) :
    Legible (formatBall first b) := by
  obtain ⟨c, digits, hprint⟩ := List.exists_cons_of_ne_nil (printInt_ne_nil first)
  have hc : isNumeral c = true :=
    isNumeral_printInt (n := first) (by rw [hprint]; exact List.mem_cons_self ..)
  rw [formatBall, ballText, hprint]
  refine ⟨c, _, rfl, ?_, ?_⟩
  · rintro rfl
    exact absurd hc (by decide)
  · rintro rfl
    exact absurd hc (by decide)

theorem legible_frame {bs : List Server.LogicalBall} (hne : bs ≠ []) : Legible (frame bs) := by
  obtain ⟨b, bs, rfl⟩ := List.exists_cons_of_ne_nil hne
  rw [frame, List.flatMap_cons]
  exact (legible_formatBall b.id b).append _

theorem legible_of_frame {bs : List Server.LogicalBall} (h : frame bs ≠ []) :
    Legible (frame bs) :=
  legible_frame fun hnil => h (by rw [hnil]; rfl)

/-- The balls of an owner, if there are any. -/
theorem legible_serializeBallList {m : Server.BallListManager} {store : BallStore}
    (h : m.Holds store) {ownerId : Int} {text : List Char}
    (htext : serializeBallList m ownerId = .ok text) (hne : text ≠ []) : Legible text := by
  rw [serializeBallList, h.nodes_eq.1.foldNodes_eq] at htext
  refine foldlM_invariant (P := fun buffer => buffer ≠ [] → Legible buffer)
    (fun buffer node buffer' _ hbuffer hok => ?_) (fun h => absurd rfl h) htext hne
  split at hok
  · unfold strcat at hok
    split at hok
    · cases hok
      intro _
      cases buffer with
      | nil => exact legible_formatBall _ _
      | cons c buffer => exact (hbuffer (List.cons_ne_nil c buffer)).append _
    · cases hok
  · cases hok
    exact hbuffer

theorem legible_okReply (cmd : Char) (count : Int) : Legible (okReply cmd count) :=
  ⟨'O', _, rfl, by decide, by decide⟩

/-! ## The tokens of a frame -/

theorem ballText_ne_nil (first : Int) (b : Server.LogicalBall) : ballText first b ≠ [] := by
  rw [ballText]
  exact List.append_ne_nil_of_left_ne_nil (printInt_ne_nil first) _

theorem bar_not_mem_ballText (first : Int) (b : Server.LogicalBall) : '|' ∉ ballText first b :=
  fun hmem => absurd (isBallChar_ballText hmem) (by decide)

theorem tokens_bars {bars : List Char} (hbars : ∀ c ∈ bars, c = '|') (s : List Char) :
    tokens '|' (bars ++ s) = tokens '|' s := by
  induction bars with
  | nil => rfl
  | cons c bars ih =>
    obtain rfl := hbars c (List.mem_cons_self ..)
    have h := tokens_append '|' [] (bars ++ s)
    rw [List.nil_append, tokens_nil, List.nil_append] at h
    rw [List.cons_append, h]
    exact ih fun c hc => hbars c (List.mem_cons_of_mem _ hc)

/-- The texts of the balls, each with `first` as its first field. -/
def frameBy (first : Server.LogicalBall → Int) (bs : List Server.LogicalBall) : List Char :=
  bs.flatMap fun b => formatBall (first b) b

theorem frameBy_cons {first : Server.LogicalBall → Int} {b : Server.LogicalBall}
    (hfirst : IsInt (first b)) (hb : b.Ints) (bs : List Server.LogicalBall) :
    frameBy first (b :: bs) = ballText (first b) b ++ '|' :: frameBy first bs := by
  rw [frameBy, List.flatMap_cons, formatBall_eq hfirst hb, List.append_assoc]
  rfl

theorem tokens_frameBy {first : Server.LogicalBall → Int} {bs : List Server.LogicalBall}
    (hfirst : ∀ b ∈ bs, IsInt (first b)) (hbs : ∀ b ∈ bs, b.Ints) :
    tokens '|' (frameBy first bs) = bs.map fun b => ballText (first b) b := by
  induction bs with
  | nil => rfl
  | cons b bs ih =>
    obtain ⟨hb, hrest⟩ := List.forall_mem_cons.mp hbs
    obtain ⟨hfirst, hfirsts⟩ := List.forall_mem_cons.mp hfirst
    rw [frameBy_cons hfirst hb, tokens_append, tokens_of_not_mem (bar_not_mem_ballText _ _)
      (ballText_ne_nil _ _), ih hfirsts hrest]
    rfl

theorem nul_not_mem_frameBy {first : Server.LogicalBall → Int} {bs : List Server.LogicalBall}
    (hfirst : ∀ b ∈ bs, IsInt (first b)) (hbs : ∀ b ∈ bs, b.Ints) :
    Char.ofNat 0 ∉ frameBy first bs := by
  intro hmem
  obtain ⟨b, hb, hmem⟩ := List.mem_flatMap.mp hmem
  rw [formatBall_eq (hfirst b hb) (hbs b hb)] at hmem
  rcases List.mem_append.mp hmem with hmem | hmem
  · exact absurd (isBallChar_ballText hmem) (by decide)
  · exact absurd (List.mem_singleton.mp hmem) (by decide)

theorem frame_cons {b : Server.LogicalBall} (hb : b.Printable) (bs : List Server.LogicalBall) :
    frame (b :: bs) = ballText b.id b ++ '|' :: frame bs :=
  frameBy_cons hb.id hb.ints bs

theorem tokens_frame {bs : List Server.LogicalBall} (hbs : ∀ b ∈ bs, b.Printable) :
    tokens '|' (frame bs) = bs.map fun b => ballText b.id b :=
  tokens_frameBy (fun b hb => (hbs b hb).id) fun b hb => (hbs b hb).ints

/-- Delimiters and white space: what the end of an earlier text may leave in front of a frame. -/
def Separator (sep : List Char) : Prop :=
  ∃ bars spaces, sep = bars ++ spaces ∧ (∀ c ∈ bars, c = '|') ∧ ∀ c ∈ spaces, isSpace c = true

theorem separator_nil : Separator [] :=
  ⟨[], [], rfl, fun _ hc => absurd hc List.not_mem_nil, fun _ hc => absurd hc List.not_mem_nil⟩

/-- The ball as the client shows it. -/
def image (width height : Int) (b : Server.LogicalBall) : ScreenBall :=
  logicalToScreenBall (sentBall b.id b) width height

/-- The tokens of a frame show its balls. -/
theorem shown_tokens {bs : List Server.LogicalBall} (hbs : ∀ b ∈ bs, b.Printable)
    (width height : Int) :
    (tokens '|' (frame bs)).map (shownBall width height) = bs.map (image width height) := by
  rw [tokens_frame hbs, List.map_map]
  apply List.map_congr_left
  intro b hb
  rw [Function.comp_apply, shownBall, scanBall_ballText (hbs b hb).id (hbs b hb), image]

/-- The client shows the balls of a frame, in their order. -/
theorem shown_frame {bs : List Server.LogicalBall} (hbs : ∀ b ∈ bs, b.Printable) (hne : bs ≠ [])
    {sep : List Char} (hsep : Separator sep) (width height : Int) :
    (tokens '|' (sep ++ frame bs)).map (shownBall width height) = bs.map (image width height) := by
  obtain ⟨bars, spaces, rfl, hbars, hspaces⟩ := hsep
  obtain ⟨b, bs, rfl⟩ := List.exists_cons_of_ne_nil hne
  have hb := hbs b (List.mem_cons_self ..)
  have hrest : ∀ c ∈ bs, c.Printable := fun c hc => hbs c (List.mem_cons_of_mem _ hc)
  have hbar : '|' ∉ spaces ++ ballText b.id b := by
    intro hmem
    rcases List.mem_append.mp hmem with h | h
    · exact absurd (hspaces _ h) (by decide)
    · exact bar_not_mem_ballText _ _ h
  have hshown := shown_tokens hbs width height
  rw [frame_cons hb, tokens_append, tokens_of_not_mem (bar_not_mem_ballText _ _)
    (ballText_ne_nil _ _), List.singleton_append, List.map_cons, List.map_cons] at hshown
  obtain ⟨hfirst, hothers⟩ := List.cons.inj hshown
  rw [List.append_assoc, tokens_bars hbars, frame_cons hb, ← List.append_assoc, tokens_append,
    tokens_of_not_mem hbar (List.append_ne_nil_of_right_ne_nil _ (ballText_ne_nil _ _)),
    List.singleton_append, List.map_cons, List.map_cons, hothers, shownBall,
    scanBall_spaces hspaces]
  rw [shownBall] at hfirst
  rw [hfirst]

/-! ## The round trip -/

/-- A whole place of less than 25 bits. -/
def ExactCoordinate (x : Single) : Prop := ∃ n : Int, x.IsWhole n ∧ |n| < 2 ^ 24

/-- The balls the encoding is meant for: integer fields of any value, and the coordinates that
motion produces. -/
structure Encodable (b : Server.LogicalBall) : Prop where
  id : IsInt b.id
  x : ExactCoordinate b.x
  y : ExactCoordinate b.y
  dx : IsInt b.dx
  dy : IsInt b.dy
  radius : IsInt b.radius

theorem Encodable.printable {b : Server.LogicalBall} (h : Encodable b) : b.Printable := by
  have hcoordinate : ∀ {x : Single}, ExactCoordinate x → BoundedCoordinate x := by
    intro x hx
    obtain ⟨n, hwhole, hn⟩ := hx
    exact ⟨n, hwhole, hn.le.trans (by norm_num)⟩
  exact ⟨h.id, hcoordinate h.x, hcoordinate h.y, h.dx, h.dy, h.radius⟩

/-- The balls in the arena are encodable. -/
theorem encodable_inArena {b : Server.LogicalBall} (h : b.InArena) (hid : IsInt b.id) :
    Encodable b := by
  obtain ⟨hlow, hhigh⟩ := h.radius
  have hcoordinate : ∀ {x : Single} {v : Int}, InsideCoordinate x v b.radius →
      ExactCoordinate x ∧ IsInt v := by
    intro x v hx
    obtain ⟨n, hinside, hexact⟩ := hx
    obtain ⟨hvlow, hvhigh⟩ := hinside.abs_velocity
    have hnlow := hinside.low
    have hnhigh := hinside.high
    exact ⟨⟨n, hexact.whole, abs_lt.mpr ⟨by omega, by omega⟩⟩, by omega, by omega⟩
  exact ⟨hid, (hcoordinate h.x).1, (hcoordinate h.y).1, (hcoordinate h.x).2, (hcoordinate h.y).2,
    by omega, by omega⟩

/-- **The codec round trip.** Decoding the text of all balls of the server replaces whatever the
client had by one ball for each of them, in the same order. Identifier, velocity and colour come
back unchanged, and place and radius are those of the conversion to the screen. -/
theorem codec_round_trip (m : Server.BallListManager) (store : BallStore) (hm : m.Holds store)
    (hballs : ∀ b ∈ store.balls, Encodable b) (text : List Char)
    (htext : serializeBallListAll m = .ok text)
    (client : Client.BallListManager) (before : List ScreenBall) (hclient : client.Counted before)
    (width height : Int) (env : UpdateEnv) (hstrdup : env.strdup = true)
    (halloc : ∀ i, env.alloc i ≠ none) :
    ∃ client', updateBallListFromSerialized client text width height env = .ok client' ∧
      client'.toList = store.balls.map (image width height) ∧
      (client'.toList.map fun s => (s.id, s.dx, s.dy, s.color)) = (store.balls.map fun b =>
        (some b.id, some b.dx, some b.dy, ⟨some b.color.r, some b.color.g, some b.color.b⟩)) ∧
      client'.tail = client'.nodes.getLast?.map Prod.fst ∧
      client'.totalCount = store.balls.length := by
  have hprintable : ∀ b ∈ store.balls, b.Printable := fun b hb => (hballs b hb).printable
  obtain ⟨hfits, rfl⟩ : (frame store.balls).length < bufferSize ∧ text = frame store.balls := by
    rw [serializeBallListAll_eq hm] at htext
    split at htext
    · rename_i hfits
      cases htext
      exact ⟨hfits, rfl⟩
    · cases htext
  simp only [bufferSize] at hfits
  obtain ⟨client', hupdate, hholds'⟩ : ∃ client',
      updateBallListFromSerialized client (frame store.balls) width height env = .ok client' ∧
      client'.Holds ((tokens '|' (frame store.balls)).map (shownBall width height)) :=
    updateBallListFromSerialized_shows hclient (by omega) hstrdup halloc
  rw [shown_tokens hprintable] at hholds'
  obtain ⟨ns, hr, hns⟩ := hholds'.nodes
  refine ⟨client', hupdate, hholds'.toList_eq, ?_, ?_, ?_⟩
  · rw [hholds'.toList_eq, List.map_map]
    rfl
  · rw [hr.nodes_eq]
    exact hr.tail
  · rw [hholds'.totalCount, List.length_map]

/-- Two new balls reach a client that had none. -/
theorem codec_round_trip_two_balls :
    ∃ m text client, run ballStep Server.ballManagerInit [.add 2 20 7 zeroDraws] = .ok m ∧
      serializeBallListAll m = .ok text ∧
      updateBallListFromSerialized Client.ballManagerInit text 800 480 ⟨true, some⟩ =
        .ok client ∧
      client.toList = m.toList.map (image 800 480) ∧ client.totalCount = 2 := by
  obtain ⟨store, b₁, b₂, hstore, hballs, hid₁, hid₂⟩ : ∃ store b₁ b₂,
      run storeStep BallStore.empty [.add 2 20 7 zeroDraws] = .ok store ∧
      store.balls = [b₁, b₂] ∧ b₁.id = 0 ∧ b₂.id = 1 := ⟨_, _, _, rfl, rfl, rfl, rfl⟩
  have hagree := ballRun_refines [.add 2 20 7 zeroDraws]
  rw [hstore] at hagree
  obtain ⟨m, hm, hholds⟩ := hagree.right_ok
  have hinside : ∀ b ∈ store.balls, b.InArena := by
    apply run_storeStep_inArena _ _ hstore
    · intro op hop
      rw [List.mem_singleton.mp hop]
      exact ⟨by decide, by decide⟩
    · intro b hb
      cases hb
  have hencodable : ∀ b ∈ store.balls, Encodable b := by
    intro b hb
    apply encodable_inArena (hinside b hb)
    rw [hballs] at hb
    rcases List.mem_pair.mp hb with rfl | rfl
    · rw [hid₁]
      decide
    · rw [hid₂]
      decide
  have hlen := length_frame fun b hb => (hencodable b hb).printable
  have htext : serializeBallListAll m = .ok (frame store.balls) := by
    rw [hballs, List.length_cons, List.length_singleton] at hlen
    rw [serializeBallListAll_eq hholds, if_pos]
    simp only [bufferSize, hballs]
    omega
  obtain ⟨client, hclient, hlist, _, _, htotal⟩ := codec_round_trip m store hholds hencodable _
    htext Client.ballManagerInit [] Client.holds_init.counted 800 480 ⟨true, some⟩ rfl
    (fun i hi => by cases hi)
  refine ⟨m, _, client, hm, htext, hclient, ?_, ?_⟩
  · rw [hlist, hholds.toList_eq]
  · rw [htotal, hballs]
    rfl

end BallGame.Protocol
