import BallGame.Protocol.Stream
import BallGame.Server.BufferSize

/-!
# The two serializers

`serialize_ball_list` and `serialize_ball_list_all` print the same fields with one exception:
the first one prints the owner where the second one prints the identifier. The client reads both
kinds of text with the same function.

* `frameBy_injective`: a text determines the first fields;
* `serializers_agree_iff`: when both texts are the same, and what the client makes of them.
-/

namespace BallGame.Protocol

open Library Server Client

/-! ## The first field of a text -/

/-- The texts of the same balls with other first fields differ. -/
theorem frameBy_injective {first first' : Server.LogicalBall → Int}
    {bs : List Server.LogicalBall} (hfirst : ∀ b ∈ bs, IsInt (first b))
    (hfirst' : ∀ b ∈ bs, IsInt (first' b)) (hbs : ∀ b ∈ bs, b.Ints)
    (h : frameBy first bs = frameBy first' bs) : ∀ b ∈ bs, first b = first' b := by
  induction bs with
  | nil => simp
  | cons b bs ih =>
    obtain ⟨hb, hrest⟩ := List.forall_mem_cons.mp hbs
    obtain ⟨hone, hones⟩ := List.forall_mem_cons.mp hfirst
    obtain ⟨hone', hones'⟩ := List.forall_mem_cons.mp hfirst'
    rw [frameBy_cons hone hb, frameBy_cons hone' hb, ballText, ballText, List.append_assoc,
      List.append_assoc] at h
    have hscan := congrArg scanInt h
    rw [List.cons_append, List.cons_append, scanInt_printInt hone (endsDigits_comma _),
      scanInt_printInt hone' (endsDigits_comma _)] at hscan
    obtain ⟨heq, htail⟩ := Prod.mk.inj (Option.some.inj hscan)
    have hframes : frameBy first bs = frameBy first' bs := by simpa using htail
    exact List.forall_mem_cons.mpr ⟨heq, ih hones hones' hrest hframes⟩

/-! ## What the client reads -/

/-- All but the identifier. -/
def withoutId (s : ScreenBall) : ScreenBall := { s with id := none }

/-- The first field of a text decides nothing but the first value that is read. -/
theorem scan_ballText (b : Server.LogicalBall) :
    ∃ values, ∀ first, IsInt first →
      scan ballFormat (ballText first b) = .int first :: values := by
  obtain ⟨rest, hrest⟩ : ∃ rest, ∀ first, ballText first b = printInt first ++ ',' :: rest :=
    ⟨_, fun _ => rfl⟩
  refine ⟨scan (ballFormat.drop 2) rest, ?_⟩
  intro first hfirst
  rw [hrest, ballFormat, scan_int hfirst]
  rfl

/-- The client takes the first field for the identifier. -/
theorem shownBall_first (b : Server.LogicalBall) (width height : Int) :
    ∃ s : ScreenBall, ∀ first, IsInt first →
      shownBall width height (ballText first b) = { s with id := some first } := by
  obtain ⟨values, hvalues⟩ := scan_ballText b
  refine ⟨shownBall width height (ballText 0 b), ?_⟩
  intro first hfirst
  simp only [shownBall, scanBall, hvalues first hfirst, hvalues 0 (by decide)]
  rfl

/-- The balls that the client shows for a text. -/
def shownBy (first : Server.LogicalBall → Int) (width height : Int)
    (bs : List Server.LogicalBall) : List ScreenBall :=
  bs.map fun b => shownBall width height (ballText (first b) b)

section

variable {first first' : Server.LogicalBall → Int} {bs : List Server.LogicalBall}

theorem shownBy_ids (hfirst : ∀ b ∈ bs, IsInt (first b)) (width height : Int) :
    (shownBy first width height bs).map ScreenBall.id = bs.map fun b => some (first b) := by
  rw [shownBy, List.map_map]
  apply List.map_congr_left
  intro b hb
  obtain ⟨s, hs⟩ := shownBall_first b width height
  rw [Function.comp_apply, hs _ (hfirst b hb)]

theorem shownBy_withoutId (hfirst : ∀ b ∈ bs, IsInt (first b))
    (hfirst' : ∀ b ∈ bs, IsInt (first' b)) (width height : Int) :
    (shownBy first width height bs).map withoutId =
      (shownBy first' width height bs).map withoutId := by
  rw [shownBy, shownBy, List.map_map, List.map_map]
  apply List.map_congr_left
  intro b hb
  obtain ⟨s, hs⟩ := shownBall_first b width height
  rw [Function.comp_apply, Function.comp_apply, hs _ (hfirst b hb), hs _ (hfirst' b hb)]
  rfl

theorem shownBy_eq_iff (hfirst : ∀ b ∈ bs, IsInt (first b))
    (hfirst' : ∀ b ∈ bs, IsInt (first' b)) (width height : Int) :
    shownBy first width height bs = shownBy first' width height bs ↔
      ∀ b ∈ bs, first b = first' b := by
  constructor
  · intro h
    have hids := congrArg (List.map ScreenBall.id) h
    rw [shownBy_ids hfirst, shownBy_ids hfirst', List.map_inj_left] at hids
    exact fun b hb => Option.some.inj (hids b hb)
  · intro h
    rw [shownBy, shownBy, List.map_inj_left]
    intro b hb
    rw [h b hb]

/-- The list of the client after a text. -/
theorem frameBy_shown (hfirst : ∀ b ∈ bs, IsInt (first b)) (hbs : ∀ b ∈ bs, b.Ints)
    (hfits : (frameBy first bs).length < bufferSize) {client : Client.BallListManager}
    {before : List ScreenBall} (hclient : client.Counted before) (width height : Int)
    {env : UpdateEnv} (hstrdup : env.strdup = true) (halloc : ∀ i, env.alloc i ≠ none) :
    ∃ client', updateBallListFromSerialized client (frameBy first bs) width height env =
        .ok client' ∧ client'.toList = shownBy first width height bs := by
  simp only [bufferSize] at hfits
  obtain ⟨client', hupdate, hholds⟩ : ∃ client',
      updateBallListFromSerialized client (frameBy first bs) width height env = .ok client' ∧
      client'.Holds ((tokens '|' (frameBy first bs)).map (shownBall width height)) :=
    updateBallListFromSerialized_shows hclient (by omega) hstrdup halloc
  refine ⟨client', hupdate, ?_⟩
  rw [hholds.toList_eq, tokens_frameBy hfirst hbs, List.map_map]
  rfl

end

/-! ## Agreement -/

/-- A text that is built in the buffer. -/
theorem buffered_ok {built text : List Char} :
    (if built.length < bufferSize then .ok built else .error .outOfBounds :
      Except Stuck (List Char)) = .ok text ↔ built.length < bufferSize ∧ text = built := by
  split
  · rename_i hfits
    simp [hfits, eq_comm]
  · rename_i hfits
    simp [hfits]

section

variable {m sub : Server.BallListManager} {store own : BallStore} {ownerId : Int}

theorem serializeBallList_ok (hm : m.Holds store)
    (hown : own.balls = store.balls.filter (LogicalBall.ownedBy ownerId)) {text : List Char} :
    serializeBallList m ownerId = .ok text ↔
      (frameBy (fun _ => ownerId) own.balls).length < bufferSize ∧
        text = frameBy (fun _ => ownerId) own.balls := by
  rw [serializeBallList_eq hm, buffered_ok, ← hown]
  rfl

theorem serializeBallListAll_ok_iff (hsub : sub.Holds own) {text : List Char} :
    serializeBallListAll sub = .ok text ↔
      (frame own.balls).length < bufferSize ∧ text = frame own.balls := by
  rw [serializeBallListAll_eq hsub, buffered_ok]

/-- The strings are the same if the identifiers are the owner. -/
theorem same_text_iff (hm : m.Holds store) (hsub : sub.Holds own) (howner : IsInt ownerId)
    (hown : own.balls = store.balls.filter (LogicalBall.ownedBy ownerId))
    (hints : ∀ b ∈ own.balls, b.Ints) :
    (∃ text, serializeBallList m ownerId = .ok text ∧ serializeBallListAll sub = .ok text) ↔
      (∀ b ∈ own.balls, b.id = ownerId) ∧ (frame own.balls).length < bufferSize := by
  simp only [serializeBallList_ok hm hown, serializeBallListAll_ok_iff hsub]
  constructor
  · rintro ⟨text, ⟨_, htext⟩, hfits, htext'⟩
    have hsame : frameBy (fun b => b.id) own.balls = frameBy (fun _ => ownerId) own.balls :=
      htext'.symm.trans htext
    exact ⟨frameBy_injective (fun b hb => (hints b hb).id) (fun _ _ => howner) hints hsame, hfits⟩
  · rintro ⟨hids, hfits⟩
    have hsame : frameBy (fun _ => ownerId) own.balls = frame own.balls := by
      apply List.flatMap_congr
      intro b hb
      rw [hids b hb]
    rw [hsame]
    exact ⟨_, ⟨hfits, rfl⟩, hfits, rfl⟩

end

/-- **The two serializers.** On a list `m` and a list `sub` of the balls of one owner in `m`,
`serialize_ball_list` and `serialize_ball_list_all` give the same string if all these balls have
the owner for their identifier and their text fits in the buffer, and only then. From the two
texts the client always obtains balls with the same place, velocity, radius and colour, but with
the owner for the identifier in one case and the identifier in the other. -/
theorem serializers_agree_iff (m sub : Server.BallListManager) (store own : BallStore)
    (hm : m.Holds store) (hsub : sub.Holds own) (ownerId : Int) (howner : IsInt ownerId)
    (hown : own.balls = store.balls.filter (LogicalBall.ownedBy ownerId))
    (hints : ∀ b ∈ store.balls, b.Ints) :
    ((∃ text, serializeBallList m ownerId = .ok text ∧ serializeBallListAll sub = .ok text) ↔
      (∀ b ∈ own.balls, b.id = ownerId) ∧ (frame own.balls).length < bufferSize) ∧
    ∀ ownText allText, serializeBallList m ownerId = .ok ownText →
      serializeBallListAll sub = .ok allText →
      ∀ (client : Client.BallListManager) (before : List ScreenBall), client.Counted before →
      ∀ (width height : Int) (env : UpdateEnv), env.strdup = true → (∀ i, env.alloc i ≠ none) →
        ∃ client₁ client₂,
          updateBallListFromSerialized client ownText width height env = .ok client₁ ∧
          updateBallListFromSerialized client allText width height env = .ok client₂ ∧
          client₁.toList.map withoutId = client₂.toList.map withoutId ∧
          (client₁.toList.map ScreenBall.id = own.balls.map fun _ => some ownerId) ∧
          (client₂.toList.map ScreenBall.id = own.balls.map fun b => some b.id) ∧
          (client₁.toList = client₂.toList ↔ ∀ b ∈ own.balls, b.id = ownerId) := by
  have hints' : ∀ b ∈ own.balls, b.Ints := by
    intro b hb
    rw [hown] at hb
    exact hints b (List.mem_of_mem_filter hb)
  have hfirst : ∀ b ∈ own.balls, IsInt ownerId := fun _ _ => howner
  have hid : ∀ b ∈ own.balls, IsInt b.id := fun b hb => (hints' b hb).id
  refine ⟨same_text_iff hm hsub howner hown hints', ?_⟩
  intro ownText allText hownText hallText client before hclient width height env hstrdup halloc
  obtain ⟨hownFits, rfl⟩ := (serializeBallList_ok hm hown).mp hownText
  obtain ⟨hallFits, rfl⟩ := (serializeBallListAll_ok_iff hsub).mp hallText
  obtain ⟨client₁, hupdate₁, hshown₁⟩ :=
    frameBy_shown hfirst hints' hownFits hclient width height hstrdup halloc
  obtain ⟨client₂, hupdate₂, hshown₂⟩ :=
    frameBy_shown hid hints' hallFits hclient width height hstrdup halloc
  refine ⟨client₁, client₂, hupdate₁, hupdate₂, ?_, ?_, ?_, ?_⟩
  · rw [hshown₁, hshown₂, shownBy_withoutId hfirst hid]
  · rw [hshown₁, shownBy_ids hfirst]
  · rw [hshown₂, shownBy_ids hid]
  · rw [hshown₁, hshown₂, shownBy_eq_iff hfirst hid]
    exact forall₂_congr fun b _ => eq_comm

/-- The first ball of the server has the identifier 0. -/
theorem firstBall_run (ownerId : Int) :
    ∃ m store b, run ballStep Server.ballManagerInit [.add 1 20 ownerId zeroDraws] = .ok m ∧
      m.Holds store ∧ store.balls = [b] ∧ b.id = 0 ∧ b.ownerId = ownerId ∧ b.Ints := by
  have hid : IsInt 0 := by decide
  have hvelocity : IsInt (-2) := by decide
  have hradius : IsInt 20 := by decide
  obtain ⟨store, b, hstore, hballs, hb, howner, hints⟩ : ∃ store b,
      run storeStep BallStore.empty [.add 1 20 ownerId zeroDraws] = .ok store ∧
      store.balls = [b] ∧ b.id = 0 ∧ b.ownerId = ownerId ∧ b.Ints :=
    ⟨_, _, rfl, rfl, rfl, rfl, hid, hvelocity, hvelocity, hradius⟩
  have hagree := ballRun_refines [.add 1 20 ownerId zeroDraws]
  rw [hstore] at hagree
  obtain ⟨m, hm, hholds⟩ := hagree.right_ok
  exact ⟨m, store, b, hm, hholds, hballs, hb, howner, hints⟩

/-- All balls belong to the owner. -/
theorem filter_ownedBy_singleton {b : Server.LogicalBall} {ownerId : Int}
    (h : b.ownerId = ownerId) : [b] = [b].filter (LogicalBall.ownedBy ownerId) := by
  rw [List.filter_cons_of_pos (LogicalBall.ownedBy_iff.mpr h), List.filter_nil]

/-- An owner with the number 0. -/
theorem serializers_agree_iff_owner_zero :
    ∃ m text, run ballStep Server.ballManagerInit [.add 1 20 0 zeroDraws] = .ok m ∧
      serializeBallList m 0 = .ok text ∧ serializeBallListAll m = .ok text := by
  obtain ⟨m, store, b, hm, hholds, hballs, hid, howner, hints⟩ := firstBall_run 0
  have hown : store.balls = store.balls.filter (LogicalBall.ownedBy 0) := by
    rw [hballs]
    exact filter_ownedBy_singleton howner
  have hall : ∀ c ∈ store.balls, c.Ints := by
    rw [hballs]
    exact List.forall_mem_singleton.mpr hints
  obtain ⟨text, htext, htext'⟩ :=
    (serializers_agree_iff m m store store hholds hholds 0 (by decide) hown hall).1.mpr (by
      rw [hballs]
      refine ⟨List.forall_mem_singleton.mpr hid, ?_⟩
      have hlen : (formatBall b.id b).length ≤ 255 := List.length_take_le ..
      rw [frame, List.flatMap_cons, List.flatMap_nil, List.append_nil, bufferSize]
      omega)
  exact ⟨m, text, hm, htext, htext'⟩

/-- The client with the number 7 has one ball, and no other client has any. The other balls that its
connection began with are left out. -/
theorem serializers_disagree :
    ∃ m, run ballStep Server.ballManagerInit [.add 1 20 7 zeroDraws] = .ok m ∧
      (∀ b ∈ m.toList, b.ownerId = 7) ∧
      ¬ ∃ text, serializeBallList m 7 = .ok text ∧ serializeBallListAll m = .ok text := by
  obtain ⟨m, store, b, hm, hholds, hballs, hid, howner, hints⟩ := firstBall_run 7
  have hown : store.balls = store.balls.filter (LogicalBall.ownedBy 7) := by
    rw [hballs]
    exact filter_ownedBy_singleton howner
  refine ⟨m, hm, ?_, ?_⟩
  · rw [hholds.toList_eq, hballs]
    exact List.forall_mem_singleton.mpr howner
  · rw [same_text_iff hholds hholds (by decide) hown (by
      rw [hballs]
      exact List.forall_mem_singleton.mpr hints), hballs]
    rintro ⟨hids, _⟩
    rw [List.forall_mem_singleton, hid] at hids
    exact absurd hids (by decide)

end BallGame.Protocol
