import BallGame.Client.BallDrawing
import BallGame.Client.Scaling
import BallGame.Protocol.Stream

/-!
# The size of the balls

The radius of an add command reaches the client, which scales it to the screen. Every scaled
radius is then replaced by 5, because it is not greater than the screen, and `draw_ball` draws a
disc of the same radius for every ball.

* `radius_image`: the radius of every decoded ball;
* `ball_size_ignored`: neither the decoded nor the drawn size follows the radius.
-/

namespace BallGame.Protocol

open Library Server Client

/-! ## From the command to the disc -/

/-- A ball with a radius that may be chosen, which is at least five pixels on the screen. -/
structure Scaled (width height : Int) (b : Server.LogicalBall) (px : Int) : Prop where
  radius : 1 ≤ b.radius ∧ b.radius ≤ 499
  scaled : logicToPixel (.ofInt b.radius) (if width < height then width else height) = some px
  visible : 5 ≤ px

/-- What the scaled radius is for. -/
structure SizeFollows (s : ScreenBall) (px : Int) : Prop where
  decoded : s.radius = some px
  drawn : HalfWidth s px

/-- The first ball is drawn smaller than the second one. -/
def DrawnSmaller (s₁ s₂ : ScreenBall) : Prop :=
  ∃ w₁ w₂, 0 ≤ w₁ ∧ w₁ < w₂ ∧ HalfWidth s₁ w₁ ∧ HalfWidth s₂ w₂

/-- The decoded radius does not depend on the radius. -/
theorem radius_image {width height px : Int} {b : Server.LogicalBall}
    (h : Scaled width height b px) : (image width height b).radius = some 5 := by
  obtain ⟨⟨hlow, hhigh⟩, hscaled, hvisible⟩ := h
  have hle := logicToPixel_le (by omega) (by omega) hscaled (by omega)
  simp only [image, sentBall, logicalToScreenBall, Option.bind_some, hscaled, Option.map_some,
    if_pos hle]

theorem not_sizeFollows {width height px : Int} {b : Server.LogicalBall}
    (h : Scaled width height b px) : ¬ SizeFollows (image width height b) px := by
  rintro ⟨hdecoded, hdrawn⟩
  rw [radius_image h] at hdecoded
  obtain rfl := Option.some.inj hdecoded
  exact absurd (hdrawn.eq (by decide)) (by decide)

theorem not_drawnSmaller (s₁ s₂ : ScreenBall) : ¬ DrawnSmaller s₁ s₂ := by
  rintro ⟨w₁, w₂, hpos, hlt, h₁, h₂⟩
  have heq₁ := h₁.eq hpos
  have heq₂ := h₂.eq (by omega)
  omega

/-- The list of a client after the frame of a run. -/
theorem decoded_frame {events : List StoreEvent} {m : Server.BallListManager}
    (hrun : run eventStep Server.ballManagerInit events = .ok m) {text : List Char}
    (htext : serializeBallListAll m = .ok text) {client : Client.BallListManager}
    {before : List ScreenBall} (hclient : client.Counted before) (width height : Int)
    (env : UpdateEnv) (hstrdup : env.strdup = true) (halloc : ∀ i, env.alloc i ≠ none) :
    ∃ client', updateBallListFromSerialized client text width height env = .ok client' ∧
      client'.toList = m.toList.map (image width height) := by
  obtain ⟨s, hholds, hbounded⟩ := bounded_run hrun
  have hprintable : ∀ b ∈ s.balls, b.Printable := fun b hb => (hbounded.balls b hb).printable
  rw [serializeBallListAll_eq hholds] at htext
  split at htext
  · rename_i hfits
    cases htext
    simp only [bufferSize] at hfits
    obtain ⟨client', hupdate, hshown⟩ : ∃ client',
        updateBallListFromSerialized client (frame s.balls) width height env = .ok client' ∧
        client'.Holds ((tokens '|' (frame s.balls)).map (shownBall width height)) :=
      updateBallListFromSerialized_shows hclient (by omega) hstrdup halloc
    rw [shown_tokens hprintable] at hshown
    exact ⟨client', hupdate, by rw [hshown.toList_eq, hholds.toList_eq]⟩
  · cases htext

/-- **Sizes.** Whatever balls were added with whatever radius, on no screen has a ball that the
client decodes from a frame the size of its scaled radius, and no ball is drawn smaller than
another one. -/
theorem ball_size_ignored {events : List StoreEvent} {m : Server.BallListManager}
    (hrun : run eventStep Server.ballManagerInit events = .ok m) {text : List Char}
    (htext : serializeBallListAll m = .ok text) {client : Client.BallListManager}
    {before : List ScreenBall} (hclient : client.Counted before) (width height : Int)
    (env : UpdateEnv) (hstrdup : env.strdup = true) (halloc : ∀ i, env.alloc i ≠ none) :
    ∃ client', updateBallListFromSerialized client text width height env = .ok client' ∧
      client'.toList = m.toList.map (image width height) ∧
      (∀ b ∈ m.toList, ∀ px, Scaled width height b px →
        (image width height b).radius = some 5 ∧
          (∀ w, 0 ≤ w → HalfWidth (image width height b) w → w = Shared.radius) ∧
          ¬ SizeFollows (image width height b) px) ∧
      ∀ b₁ ∈ m.toList, ∀ b₂ ∈ m.toList, ∀ px₁ px₂, Scaled width height b₁ px₁ →
        Scaled width height b₂ px₂ → px₁ < px₂ →
        ¬ DrawnSmaller (image width height b₁) (image width height b₂) := by
  obtain ⟨client', hupdate, hlist⟩ := decoded_frame hrun htext hclient width height env hstrdup
    halloc
  refine ⟨client', hupdate, hlist, ?_, ?_⟩
  · intro b _ px h
    exact ⟨radius_image h, fun w hw hwidth => hwidth.eq hw, not_sizeFollows h⟩
  · intro b₁ _ b₂ _ px₁ px₂ _ _ _
    exact not_drawnSmaller _ _

/-! ## A small ball and a big one -/

def twoSizes : List StoreEvent :=
  [.command 'a' 1 100 7 zeroDraws, .command 'a' 1 400 7 zeroDraws]

theorem twoSizes_run : ∃ m b₁ b₂, run eventStep Server.ballManagerInit twoSizes = .ok m ∧
    m.toList = [b₁, b₂] ∧ Scaled 800 480 b₁ 48 ∧ Scaled 800 480 b₂ 192 ∧
    serializeBallListAll m = .ok (frame [b₁, b₂]) := by
  obtain ⟨m, b₁, b₂, hm, hlist, hb₁, hb₂⟩ : ∃ m b₁ b₂,
      run eventStep Server.ballManagerInit twoSizes = .ok m ∧ m.toList = [b₁, b₂] ∧
        b₁.radius = 100 ∧ b₂.radius = 400 := ⟨_, _, _, rfl, rfl, rfl, rfl⟩
  obtain ⟨s, hholds, hbounded⟩ := bounded_run hm
  have hballs : s.balls = [b₁, b₂] := hholds.toList_eq.symm.trans hlist
  refine ⟨m, b₁, b₂, hm, hlist, ?_, ?_, ?_⟩
  · exact ⟨by omega, by rw [hb₁]; decide +kernel, by decide⟩
  · exact ⟨by omega, by rw [hb₂]; decide +kernel, by decide⟩
  · rw [← hballs]
    exact serializeBallListAll_ok hholds hbounded (by simp [hballs])

/-- Both are decoded with a radius of 5. -/
theorem ball_size_ignored_two_sizes :
    ∃ m text client, run eventStep Server.ballManagerInit twoSizes = .ok m ∧
      serializeBallListAll m = .ok text ∧
      updateBallListFromSerialized Client.ballManagerInit text 800 480 enoughMemory =
        .ok client ∧
      client.toList.map ScreenBall.radius = [some 5, some 5] := by
  obtain ⟨m, b₁, b₂, hm, hlist, hscaled₁, hscaled₂, htext⟩ := twoSizes_run
  obtain ⟨client, hupdate, hclient, hballs, _⟩ := ball_size_ignored hm htext
    Client.holds_init.counted 800 480 enoughMemory rfl (fun i => Option.some_ne_none i)
  refine ⟨m, _, client, hm, htext, hupdate, ?_⟩
  have hfirst := (hballs b₁ (by simp [hlist]) 48 hscaled₁).1
  have hsecond := (hballs b₂ (by simp [hlist]) 192 hscaled₂).1
  rw [hclient, hlist, List.map_map, List.map_cons, List.map_cons, List.map_nil,
    Function.comp_apply, Function.comp_apply, hfirst, hsecond]

/-- A ball of 48 pixels and one of 192 pixels have the same size. -/
theorem ball_sizes_equal :
    ¬ ∀ (events : List StoreEvent) (m : Server.BallListManager) (text : List Char)
      (width height : Int) (client : Client.BallListManager),
      run eventStep Server.ballManagerInit events = .ok m →
      serializeBallListAll m = .ok text →
      updateBallListFromSerialized Client.ballManagerInit text width height enoughMemory =
        .ok client →
      client.toList = m.toList.map (image width height) ∧
        (∀ b ∈ m.toList, ∀ px, Scaled width height b px →
          SizeFollows (image width height b) px) ∧
        ∀ b₁ ∈ m.toList, ∀ b₂ ∈ m.toList, ∀ px₁ px₂, Scaled width height b₁ px₁ →
          Scaled width height b₂ px₂ → px₁ < px₂ →
          DrawnSmaller (image width height b₁) (image width height b₂) := by
  intro hall
  obtain ⟨m, b₁, b₂, hm, hlist, hscaled₁, hscaled₂, htext⟩ := twoSizes_run
  obtain ⟨client, hupdate, _⟩ := decoded_frame hm htext Client.holds_init.counted 800 480
    enoughMemory rfl (fun i => Option.some_ne_none i)
  obtain ⟨_, hfollows, _⟩ := hall _ _ _ 800 480 _ hm htext hupdate
  exact not_sizeFollows hscaled₁ (hfollows b₁ (by simp [hlist]) 48 hscaled₁)

end BallGame.Protocol
