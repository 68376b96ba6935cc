import BallGame.Client.Leaks
import BallGame.Client.Scaling
import BallGame.Protocol.Session

/-!
# From the balls of the server to the screen of a client

A tick moves the balls and sends their frame; the client decodes it, scales the places and draws
the list into the memory of its device. Put together, the screen shows the balls of the server.

* `session_proper`: the balls of a session are in the arena and have the colors of their owners;
* `exists_sprite`: such a ball is drawn where exact arithmetic puts it;
* `tick_rendered`: the screen behind a tick.
-/

namespace BallGame.Protocol

open Library Server Client Shared

/-! ## The balls of a session -/

/-- A ball in the arena that has the color of its owner. -/
structure Proper (b : Server.LogicalBall) : Prop where
  inArena : b.InArena
  color : b.color = getColorByOwner b.ownerId

theorem storeStep_proper {s s' : BallStore} {op : Server.BallOp} (hop : op.FitsArena)
    (h : ∀ b ∈ s.balls, Proper b) (hok : storeStep s op = .ok s') : ∀ b ∈ s'.balls, Proper b := by
  apply storeStep_forall (fun _ b _ hb => ⟨inArena_move b hb.inArena, hb.color⟩)
    (fun _ _ b _ _ hb => ⟨inArena_speedUp b hb.inArena, hb.color⟩)
    (fun b hb => ⟨inArena_speedDown b hb.inArena, hb.color⟩) _ h hok
  intro count radius ownerId env he id k b hb
  subst he
  refine ⟨inArena_create hop hb, ?_⟩
  obtain ⟨x, y, _, _, rfl⟩ := createLogicalBall_ok.mp hb
  rfl

/-- An add command asks for a radius that leaves room in the arena. -/
def FitsArena (cmd : Char) (radius : Int) : Prop := cmd = cmdAdd → 0 ≤ radius ∧ radius ≤ 499

theorem commandOp_fitsArena {cmd : Char} {count radius ownerId : Int} {env : CommandEnv}
    (h : FitsArena cmd radius) {op : Server.BallOp}
    (hop : commandOp cmd count radius ownerId env = some op) : op.FitsArena := by
  unfold commandOp at hop
  split at hop
  · rename_i hadd
    cases hop
    exact h hadd
  · split at hop
    · cases hop
      trivial
    · split at hop
      · cases hop
        trivial
      · split at hop
        · cases hop
          trivial
        · cases hop

theorem storeCommand_proper {s s' : BallStore} {cmd : Char} {count radius ownerId : Int}
    {env : CommandEnv} (hfits : FitsArena cmd radius) (h : ∀ b ∈ s.balls, Proper b)
    (hok : storeCommand s cmd count radius ownerId env = .ok s') : ∀ b ∈ s'.balls, Proper b := by
  unfold storeCommand at hok
  split at hok
  · rename_i op hop
    exact storeStep_proper (commandOp_fitsArena hfits hop) h hok
  · cases hok
    exact h

def SessionLabel.FitsArena : SessionLabel → Prop
  | .command cmd _ radius _ _ => Protocol.FitsArena cmd radius
  | _ => True

/-- The state of a session whose balls are proper. -/
structure Session.Playable (s : Session) : Prop where
  sound : s.Sound
  proper : ∀ b ∈ s.ballListManager.toList, Proper b

/-- An event of the store. -/
theorem Session.Playable.store {s s' : Session} (h : s.Playable) {e : StoreEvent}
    (hevent : ∀ store store' : BallStore, storeEvent store e = .ok store' →
      (∀ b ∈ store.balls, Proper b) → ∀ b ∈ store'.balls, Proper b)
    (hok : s.store e = .ok s') : ∀ b ∈ s'.ballListManager.toList, Proper b := by
  obtain ⟨store, hholds, _⟩ := h.sound.balls
  obtain ⟨balls, hballs, he⟩ := bind_ok.mp hok
  cases he
  obtain ⟨store', hstore', hholds'⟩ := (hballs ▸ eventStep_agree hholds e).left_ok
  show ∀ b ∈ balls.toList, Proper b
  rw [hholds'.toList_eq]
  apply hevent store store' hstore'
  rw [← hholds.toList_eq]
  exact h.proper

/-- The step lemma. -/
theorem playable_sessionStep {s s' : Session} (h : s.Playable) {l : SessionLabel}
    (hl : l.FitsArena) (hok : sessionStep s l = .ok s') : s'.Playable := by
  refine ⟨sound_sessionStep h.sound hok, ?_⟩
  cases l with
  | connect csock width height alloc =>
    obtain ⟨clients, _, he⟩ := bind_ok.mp hok
    cases he
    exact h.proper
  | disconnect fd =>
    obtain ⟨⟨_, clients⟩, _, he⟩ := bind_ok.mp hok
    cases he
    exact h.proper
  | deleteBalls fd =>
    apply h.store _ hok
    intro store store' hstore hproper
    have hdelete : storeStep store (.deleteBySocket fd) = .ok store' := hstore
    have hop : (Server.BallOp.deleteBySocket fd).FitsArena := trivial
    exact storeStep_proper hop hproper hdelete
  | command cmd count radius csock env =>
    apply h.store _ hok
    intro store store' hstore hproper
    have hcommand : storeCommand store cmd count radius csock env = .ok store' := hstore
    exact storeCommand_proper hl hproper hcommand
  | reply fd cmd count =>
    cases hok
    exact h.proper
  | invalidFormat fd =>
    cases hok
    exact h.proper
  | unknownCommand fd =>
    cases hok
    exact h.proper
  | broadcast =>
    obtain ⟨sends, _, he⟩ := bind_ok.mp hok
    cases he
    exact h.proper
  | tick =>
    obtain ⟨balls, _, hlist, hcycle⟩ := cycleBroadcastBallState_eq h.sound
    simp only [sessionStep, hcycle] at hok
    split at hok
    · cases hok
      show ∀ b ∈ balls.toList, Proper b
      rw [hlist]
      intro b hb
      obtain ⟨b₀, hb₀, rfl⟩ := List.mem_map.mp hb
      have hproper := h.proper b₀ hb₀
      exact ⟨inArena_move b₀ hproper.inArena, hproper.color⟩
    · cases hok
  | receive fd choice =>
    simp only [sessionStep] at hok
    split at hok
    · cases hok
    · obtain ⟨view, _, he⟩ := bind_ok.mp hok
      cases he
      exact h.proper

/-- The run lemma. -/
theorem session_proper {labels : List SessionLabel} (hlabels : ∀ l ∈ labels, l.FitsArena)
    {s : Session} (hrun : run sessionStep sessionStart labels = .ok s) : s.Playable := by
  have hstart : sessionStart.Playable := ⟨sound_sessionStart, fun b hb => nomatch hb⟩
  have hall : Throughout sessionStep (fun _ l => l.FitsArena) sessionStart labels :=
    throughout_of_mem hlabels
  exact run_invariant_throughout (fun _ _ _ hl h hok => playable_sessionStep h hl hok) hall hstart
    hrun

/-! ## The balls on the screen -/

/-- A pixel of the scaled place `n`: it is the place without its fraction, or the one before if
there is no fraction. -/
def ScaledTo (size : Nat) (n px : Int) : Prop := 1000 * px ≤ n * size ∧ n * size ≤ 1000 * (px + 1)

/-- How a ball of the server is drawn on a screen. -/
structure DrawnAs (fb : DevFb) (b : Server.LogicalBall) (s : Sprite) : Prop where
  column : ∃ n, b.x.IsWhole n ∧ b.radius ≤ n ∧ n ≤ 999 - b.radius ∧
    ScaledTo fb.vinfo.xres.toNat n s.center.x
  row : ∃ n, b.y.IsWhole n ∧ b.radius ≤ n ∧ n ≤ 999 - b.radius ∧
    ScaledTo fb.vinfo.yres.toNat n s.center.y
  color : (⟨s.r, s.g, s.b⟩ : Server.RGBColor) = getColorByOwner b.ownerId
  /-- Its pixels hold all 24 bits of the color. -/
  bytes : s.bytes fb = [s.b.toBitVec, s.g.toBitVec, s.r.toBitVec, 0]

/-- One coordinate of a ball in the arena. -/
theorem exists_pixel {place : Single} {velocity radius : Int} (hradius : 0 ≤ radius)
    (h : InsideCoordinate place velocity radius) {size : Nat} (hsize : size ≤ 4096) :
    ∃ n px, place.IsWhole n ∧ radius ≤ n ∧ n ≤ 999 - radius ∧ ScaledTo size n px ∧
      0 ≤ px ∧ px ≤ 4096 ∧ logicToPixel place size = some px := by
  obtain ⟨n, hinside, hexact⟩ := h
  have hlow := hinside.low
  have hhigh := hinside.high
  have hplace : 0 ≤ n ∧ n ≤ 1000 := by omega
  have hscreen : 0 ≤ (size : Int) ∧ (size : Int) ≤ 4096 := by omega
  obtain ⟨px, hpx, hpos, hle, hbelow, habove⟩ := logicToPixel_near hexact.whole hplace hscreen
  exact ⟨n, px, hexact.whole, hlow, hhigh, ⟨hbelow, habove⟩, hpos, by omega, hpx⟩

/-- A proper ball is drawn. -/
theorem exists_sprite {fb : DevFb} (hdepth : fb.vinfo.bitsPerPixel = 32)
    (hxres : fb.vinfo.xres.toNat ≤ 4096) (hyres : fb.vinfo.yres.toNat ≤ 4096)
    {b : Server.LogicalBall} (hb : Proper b) :
    ∃ s, (image fb.vinfo.xres.toNat fb.vinfo.yres.toNat b).sprite = some s ∧ DrawnAs fb b s ∧
      s.Fits := by
  obtain ⟨⟨hradius, hx, hy⟩, hcolor⟩ := hb
  obtain ⟨n, px, hn, hnlow, hnhigh, hscaled, hpos, hle, hpx⟩ := exists_pixel hradius.1 hx hxres
  obtain ⟨k, py, hk, hklow, hkhigh, hscaled', hpos', hle', hpy⟩ := exists_pixel hradius.1 hy hyres
  refine ⟨⟨⟨px, py⟩, b.color.r, b.color.g, b.color.b⟩, ?_,
    ⟨⟨n, hn, hnlow, hnhigh, hscaled⟩, ⟨k, hk, hklow, hkhigh, hscaled'⟩, hcolor,
      if_pos hdepth⟩, ?_⟩
  · simp only [image, sentBall, logicalToScreenBall, ScreenBall.sprite, Option.bind_some,
      Option.map_some, hpx, hpy]
  · have hradius : Shared.radius = 20 := rfl
    unfold Sprite.Fits IsInt
    dsimp only
    omega

theorem exists_sprites {fb : DevFb} (hdepth : fb.vinfo.bitsPerPixel = 32)
    (hxres : fb.vinfo.xres.toNat ≤ 4096) (hyres : fb.vinfo.yres.toNat ≤ 4096)
    {bs : List Server.LogicalBall} (hbs : ∀ b ∈ bs, Proper b) :
    ∃ sprites : List Sprite, (bs.map (image fb.vinfo.xres.toNat fb.vinfo.yres.toNat)).map
        ScreenBall.sprite = sprites.map some ∧ List.Forall₂ (DrawnAs fb) bs sprites ∧
      ∀ s ∈ sprites, s.Fits := by
  induction bs with
  | nil => exact ⟨[], rfl, List.Forall₂.nil, List.forall_mem_nil _⟩
  | cons b bs ih =>
    rw [List.forall_mem_cons] at hbs
    obtain ⟨s, hs, hdrawn, hfits⟩ := exists_sprite hdepth hxres hyres hbs.1
    obtain ⟨sprites, hsprites, hall, hallfit⟩ := ih hbs.2
    refine ⟨s :: sprites, ?_, List.Forall₂.cons hdrawn hall, ?_⟩
    · rw [List.map_cons, List.map_cons, hs, hsprites, List.map_cons]
    · rw [List.forall_mem_cons]
      exact ⟨hfits, hallfit⟩

/-! ## The screen behind a tick -/

/-- The list of a client that has received everything is a proper list on its heap. -/
theorem drain_holds {s : Session} (h : s.Sound) {fd : Int} {choice : Nat → Nat}
    {view : Client.BallListManager} (hdrain : (s.conns fd).drain choice = .ok view) :
    ∃ shown, view.Holds shown := by
  have hstep : ∀ (m : Client.BallListManager) (r : Recv), (∃ shown, m.Holds shown) → r.Complete →
      Ends (fun m => ∃ shown, m.Holds shown) (fun _ => False)
        (socketRecv (s.conns fd).width (s.conns fd).height m r) := by
    rintro m r ⟨shown, hshown⟩ hr
    obtain ⟨m', hm', hholds⟩ := socketRecv_ok hshown hr (s.conns fd).width (s.conns fd).height
    rw [hm']
    exact Ends.ok ⟨_, hholds⟩
  have hall : ∀ r ∈ (s.conns fd).inbox.map (idealRecv choice), r.Complete := by
    intro r hr
    obtain ⟨bytes, hbytes, rfl⟩ := List.mem_map.mp hr
    obtain ⟨htext, hlen⟩ := h.inboxes fd bytes hbytes
    exact complete_idealRecv choice htext hlen
  have hends : Ends (fun m : Client.BallListManager => ∃ shown, m.Holds shown) (fun _ => False)
      ((s.conns fd).drain choice) := run_ends hstep (h.views fd) hall
  exact hends.of_ok hdrain

/-- **From the store to the screen.** In every run of the server with any clients, commands,
connections and ticks, in which the balls are asked for with radii between 0 and 499 and delivery is
ideal, so that every `send` arrives whole and a `recv` returns the bytes of one: if a tick can be
shown to a client of the list (`Session.TickShown`), then it is. When the client has received
everything and has rendered its list on a screen of 32 bits for a pixel that is inside its mapping,
with enough memory for the copy, every visible pixel shows the scene of the balls of the server, one
sprite for each of them in their order, at its place in exact arithmetic and in the color of its
owner, and nothing was stored outside the mapping. This does not depend on what the device showed
before. -/
theorem tick_rendered {labels : List SessionLabel} (hlabels : ∀ l ∈ labels, l.FitsArena)
    {s : Session} (hrun : run sessionStep sessionStart labels = .ok s)
    {ctx : SocketContext Unit} (hctx : ctx ∈ s.clientListManager.toList)
    (hshown : s.TickShown ctx.csock) {fb : DevFb} (h : Geometry fb)
    (hdepth : fb.vinfo.bitsPerPixel = 32)
    (hwrap : fb.lineLength.toNat * fb.vinfo.yresVirtual.toNat < 2 ^ 32) (hin : Inside fb)
    (hxres : fb.vinfo.xres.toNat ≤ 4096) (hyres : fb.vinfo.yres.toNat ≤ 4096)
    (hwidth : (s.conns ctx.csock).width = fb.vinfo.xres.toNat)
    (hheight : (s.conns ctx.csock).height = fb.vinfo.yres.toNat) (choice : Nat → Nat)
    {alloc : Nat → Option Nat} (halloc : ∀ i, alloc i ≠ none) (mem : Nat → BitVec 8) :
    ∃ s' view stores copy sprites, sessionStep s .tick = .ok s' ∧
      (s'.conns ctx.csock).drain choice = .ok view ∧
      renderLocked fb view alloc = .ok (some stores, copy) ∧
      List.Forall₂ (DrawnAs fb) s'.ballListManager.toList sprites ∧
      (∀ store ∈ stores, store.Inside fb) ∧
      ∀ p, Visible fb p → picture fb (execute mem stores) p = scene fb sprites p := by
  have hplayable := session_proper hlabels hrun
  obtain ⟨s', hstep, view, hview, hlist⟩ := agrees_of_tickShown hplayable.sound hctx hshown choice
  have hafter := playable_sessionStep (l := .tick) hplayable trivial hstep
  have hsize : (s'.conns ctx.csock).width = fb.vinfo.xres.toNat ∧
      (s'.conns ctx.csock).height = fb.vinfo.yres.toNat := by
    obtain ⟨balls, _, _, hcycle⟩ := cycleBroadcastBallState_eq hplayable.sound
    simp only [sessionStep, hcycle] at hstep
    split at hstep
    · cases hstep
      exact ⟨hwidth, hheight⟩
    · cases hstep
  rw [hsize.1, hsize.2] at hlist
  obtain ⟨sprites, hsprites, hdrawn, hfits⟩ := exists_sprites hdepth hxres hyres hafter.proper
  obtain ⟨shown, ⟨ns, hr, _⟩, _⟩ := drain_holds hafter.sound hview
  have hballs : (placed alloc 0 (ns.map Prod.snd)).map ScreenBall.sprite = sprites.map some := by
    rw [placed_all halloc, ← hr.toList_eq, hlist, hsprites]
  have hbroken : ¬ Broken alloc 0 ns.length := by
    rintro ⟨j, k, _, _, _, _, hnone⟩
    exact halloc k hnone
  obtain ⟨stores, copy, hrender, hinside, hscene⟩ := renderLocked_shows h hwrap (by omega) hin hr
    hbroken hballs hfits mem
  exact ⟨s', view, stores, copy, sprites, hstep, hview, hrender, hdrawn, hinside, hscene⟩

def oneFullScreen : List SessionLabel :=
  [.connect 7 1920 1080 (some 0), .command 'a' 1 20 7 zeroDraws]

/-- A client with one ball on a screen of 1920 columns and 1080 rows. -/
theorem tick_rendered_full_screen :
    ∃ s s' view stores copy sprites, run sessionStep sessionStart oneFullScreen = .ok s ∧
      sessionStep s .tick = .ok s' ∧ (s'.conns 7).drain id = .ok view ∧
      renderLocked (plainScreen 32 7680) view some = .ok (some stores, copy) ∧
      List.Forall₂ (DrawnAs (plainScreen 32 7680)) s'.ballListManager.toList sprites ∧
      (∀ store ∈ stores, store.Inside (plainScreen 32 7680)) ∧
      ∀ p, Visible (plainScreen 32 7680) p →
        picture (plainScreen 32 7680) (execute (fun _ => 0) stores) p =
          scene (plainScreen 32 7680) sprites p := by
  obtain ⟨s, b, ctx, hrun, hlist, hclients, hcsock, hwidth, hheight⟩ : ∃ s b ctx,
      run sessionStep sessionStart oneFullScreen = .ok s ∧ s.ballListManager.toList = [b] ∧
      s.clientListManager.toList = [ctx] ∧ ctx.csock = 7 ∧ (s.conns 7).width = 1920 ∧
      (s.conns 7).height = 1080 := ⟨_, _, _, rfl, rfl, rfl, rfl, rfl, rfl⟩
  have hlabels : ∀ l ∈ oneFullScreen, l.FitsArena := by
    rw [oneFullScreen, List.forall_mem_cons, List.forall_mem_singleton]
    exact ⟨trivial, fun _ => by decide⟩
  have hctx : ctx ∈ s.clientListManager.toList := by simp [hclients]
  have hshown : s.TickShown ctx.csock := by
    obtain ⟨store, hholds, hbounded⟩ := (sound_session hrun).balls
    have hb : b.Bounded := hbounded.balls b (by simp [← hholds.toList_eq, hlist])
    have hlen : (frame [moveLogicalBall b]).length ≤ 101 :=
      length_frame (by simpa using (moveLogicalBall_bounded hb).printable)
    rw [Session.TickShown, hlist, List.map_singleton]
    refine ⟨?_, Or.inl (List.cons_ne_nil _ _)⟩
    simp only [bufferSize]
    omega
  obtain ⟨s', view, stores, copy, sprites, hshow⟩ := tick_rendered hlabels hrun hctx hshown
    plainScreen_geometry rfl (by decide) plainScreen_inside (by decide) (by decide)
    (by rw [hcsock, hwidth]; rfl) (by rw [hcsock, hheight]; rfl) id
    (fun i => Option.some_ne_none i) (fun _ => 0)
  rw [hcsock] at hshow
  exact ⟨s, s', view, stores, copy, sprites, hrun, hshow⟩

end BallGame.Protocol
