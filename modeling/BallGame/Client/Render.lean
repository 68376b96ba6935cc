import BallGame.Client.BallDrawing
import BallGame.Client.ScreenBallManager
import BallGame.Library.Copies
import BallGame.Shared.Screen
import BallGame.Shared.Text

/-!
# Rendering

`render_thread` copies the list while it holds the mutex, clears the screen, and draws the balls
of the copy and the command guide. `scene` is the picture it is to show: the guide in the lowest
rows, and above it every pixel in the color of the last ball of the list that covers it.

* `renderLocked_cases`: the critical section with any results of its allocations;
* `renderLocked_shows`: the screen afterwards.
-/

namespace BallGame.Client

open Library Shared

/-! ## The code -/

/-- `deep_copy_ball_list`: the copy, in the same memory as the list. -/
def deepCopyBallList (heap : Heap (Node ScreenBall)) (head : Option Nat)
    (alloc : Nat → Option Nat) : Except Stuck (Linked ScreenBall) :=
  Linked.copyNodes alloc heap.brk 0 ⟨heap, none, none⟩ head

/-- `draw_ball_list`, if the places and the colors of the balls have values. -/
def drawBallList (fb : DevFb) (heap : Heap (Node ScreenBall)) (head : Option Nat) :
    Except Stuck (Option (List Store)) :=
  Linked.foldNodes (fun stores node => .ok (stores.bind fun before =>
    (drawBall fb node.2).map fun ball => before ++ ball)) heap heap.brk head (some [])

/-- `text_height`. -/
def textHeight : Int := 12

def padding : Int := 5

/-- `cmd_guide`. -/
def commandGuide : List Char := "a: Create | d: Delete | w/s: Speed | a:3 d:2 | x: Exit".toList

/-- `fb->vinfo.yres - text_height - padding`, which is unsigned and stored in an `int`. -/
def guideTop (fb : DevFb) : Int :=
  wrapInt (fb.vinfo.yres - UInt32.ofInt textHeight - UInt32.ofInt padding).toNat

/-- What `fb_printStr` draws of the guide. There is no tab in it. -/
def guideText (fb : DevFb) : Option (List Pixel) :=
  (printStr 0 (wrapInt fb.vinfo.xres.toNat) commandGuide ⟨10, guideTop fb⟩ textHeight).map
    fun drawn => drawn.1.flatten

/-- `draw_command_guide`. -/
def drawCommandGuide (fb : DevFb) : Option (List Store) :=
  (guideText fb).map fun text =>
    fillBox fb ⟨0, guideTop fb⟩ (wrapInt fb.vinfo.xres.toNat) (textHeight + padding * 2) 0 0 0 ++
      drawPixels fb text 255 255 255

/-- The critical section of `render_thread`: what is stored, and the copy. -/
def renderLocked (fb : DevFb) (m : BallListManager) (alloc : Nat → Option Nat) :
    Except Stuck (Option (List Store) × Linked ScreenBall) := do
  let copy ← deepCopyBallList m.heap m.head alloc
  let balls ← drawBallList fb copy.heap copy.head
  .ok (balls.bind fun balls => (drawCommandGuide fb).map fun guide =>
    fillScr fb 0 0 0 ++ balls ++ guide, copy)

/-! ## Balls with a place and a color -/

/-- A disc of the screen. -/
structure Sprite where
  center : Pixel
  r : UInt8
  g : UInt8
  b : UInt8

def ScreenBall.sprite (b : ScreenBall) : Option Sprite :=
  b.x.bind fun x => b.y.bind fun y => b.color.r.bind fun red => b.color.g.bind fun green =>
    b.color.b.map fun blue => ⟨⟨x, y⟩, red, green, blue⟩

namespace Sprite

def pixels (s : Sprite) : List Pixel := drawFilledCircle Shared.radius s.center

def call (s : Sprite) : DrawCall := .pixels s.pixels s.r.toBitVec s.g.toBitVec s.b.toBitVec 0

/-- The bytes that stand for the color; with 16 bits several colors have the same. -/
def bytes (fb : DevFb) (s : Sprite) : List (BitVec 8) :=
  pixelBytes fb.vinfo.bitsPerPixel s.r.toBitVec s.g.toBitVec s.b.toBitVec 0

/-- No coordinate of the disc overflows. -/
def Fits (s : Sprite) : Prop :=
  (IsInt (s.center.x - Shared.radius) ∧ IsInt (s.center.y - Shared.radius)) ∧
    (IsInt (s.center.x + Shared.radius) ∧ IsInt (s.center.y + Shared.radius))

theorem Fits.drawable {s : Sprite} (h : s.Fits) : s.call.Drawable := by
  intro p hp
  obtain ⟨hx, hy⟩ := abs_le_of_mem (R := Shared.radius) (by decide) hp
  obtain ⟨⟨hxlow, hylow⟩, hxhigh, hyhigh⟩ := h
  rw [abs_le] at hx hy
  unfold IsInt at *
  omega

end Sprite

theorem drawBall_eq (fb : DevFb) (b : ScreenBall) :
    drawBall fb b = b.sprite.map fun s => s.call.stores fb := by
  obtain ⟨id, x, y, dx, dy, radius, red, green, blue⟩ := b
  cases x with
  | none => rfl
  | some x =>
    cases y with
    | none => rfl
    | some y =>
      cases red with
      | none => rfl
      | some red =>
        cases green with
        | none => rfl
        | some green =>
          cases blue with
          | none => rfl
          | some blue => rfl

/-- What `draw_ball_list` stores for a list of balls. -/
def ballStores (fb : DevFb) (balls : List ScreenBall) : Option (List Store) :=
  balls.foldl (fun stores b => stores.bind fun before =>
    (drawBall fb b).map fun ball => before ++ ball) (some [])

theorem ballStores_sprites (fb : DevFb) {balls : List ScreenBall} {sprites : List Sprite}
    (h : balls.map ScreenBall.sprite = sprites.map some) :
    ballStores fb balls = some ((sprites.map Sprite.call).flatMap (DrawCall.stores fb)) := by
  suffices hall : ∀ before : List Store,
      balls.foldl (fun stores b => stores.bind fun before =>
        (drawBall fb b).map fun ball => before ++ ball) (some before) =
        some (before ++ (sprites.map Sprite.call).flatMap (DrawCall.stores fb)) from hall []
  induction balls generalizing sprites with
  | nil =>
    intro before
    obtain rfl : sprites = [] := List.map_eq_nil_iff.mp h.symm
    simp
  | cons b balls ih =>
    intro before
    cases sprites with
    | nil => cases h
    | cons s sprites =>
      rw [List.map_cons, List.map_cons, List.cons.injEq] at h
      rw [List.foldl_cons, Option.bind_some, drawBall_eq, h.1, Option.map_some, Option.map_some,
        ih h.2, List.map_cons, List.flatMap_cons, List.append_assoc]

/-! ## The critical section -/

theorem drawBallList_eq {l : Linked ScreenBall} {lost : Bool} {ns : List (Nat × ScreenBall)}
    (hr : Represents l lost ns) (fb : DevFb) :
    drawBallList fb l.heap l.head = .ok (ballStores fb (ns.map Prod.snd)) := by
  rw [drawBallList, hr.foldNodes_eq, ballStores, List.foldl_map]
  generalize (some [] : Option (List Store)) = stores
  induction ns generalizing l stores with
  | nil => rfl
  | cons n ns ih =>
    obtain ⟨heap, _, _, _, hrest⟩ := hr.free_head
    rw [List.foldlM_cons, List.foldl_cons]
    exact ih hrest _

/-- It follows a NULL pointer exactly if an allocation fails behind one that succeeded and in
front of another one. Otherwise it draws the balls it could copy, which lie beside the cells there
were. -/
theorem renderLocked_cases (fb : DevFb) {m : BallListManager} {lost : Bool}
    {ns : List (Nat × ScreenBall)} (hr : Represents m.toLinked lost ns)
    (alloc : Nat → Option Nat) :
    (Broken alloc 0 ns.length ∧ renderLocked fb m alloc = .error .nullDereference) ∨
      ¬ Broken alloc 0 ns.length ∧ ∃ copy lost' copied, Represents copy lost' copied ∧
        Beside m.heap.cell copy.heap copied ∧
        copied.map Prod.snd = placed alloc 0 (ns.map Prod.snd) ∧
        renderLocked fb m alloc = .ok
          ((ballStores fb (placed alloc 0 (ns.map Prod.snd))).bind fun balls =>
            (drawCommandGuide fb).map fun guide => fillScr fb 0 0 0 ++ balls ++ guide, copy) := by
  by_cases hbroken : Broken alloc 0 ns.length
  · refine Or.inl ⟨hbroken, ?_⟩
    simp only [renderLocked, deepCopyBallList, hr.copyNodes_error hbroken, bind, Except.bind]
  · obtain ⟨copy, lost', copied, hcopy, hr', hbeside, hcopied⟩ := hr.copyNodes_ok hbroken
    refine Or.inr ⟨hbroken, copy, lost', copied, hr', hbeside, hcopied, ?_⟩
    simp only [renderLocked, deepCopyBallList, hcopy, drawBallList_eq hr', hcopied, bind,
      Except.bind]

/-! ## The guide -/

/-- A column in which characters are printed. -/
def Printing (xres height lnStart x : Int) : Prop :=
  lnStart ≤ x ∧ x + cellWidth height ≤ max xres (lnStart + cellWidth height)

theorem printing_start (xres height lnStart : Int) : Printing xres height lnStart lnStart :=
  ⟨le_rfl, le_max_right _ _⟩

/-- One character without a tab, and where the cursor is behind it. -/
theorem printChar_bounds (fuel : Nat) (xres lnStart : Int) {height : Int} (hh : 3 ≤ height)
    {c : Char} (hc : c ≠ '\t') {cursor : Pixel} (hx : Printing xres height lnStart cursor.x) :
    ∃ pixels cursor', printChar fuel xres height lnStart c cursor = some (pixels, cursor') ∧
      (∀ r ∈ pixels, cursor.InCell height r) ∧ Printing xres height lnStart cursor'.x ∧
      cursor.y ≤ cursor'.y ∧ cursor'.y ≤ cursor.y + (3 * height).tdiv 2 := by
  have hline := lineHeight hh
  have hnew : Printing xres height lnStart (newLine height lnStart cursor).x :=
    printing_start xres height lnStart
  have hadvance : Printing xres height lnStart (advance xres height lnStart cursor).x ∧
      cursor.y ≤ (advance xres height lnStart cursor).y ∧
      (advance xres height lnStart cursor).y ≤ cursor.y + (3 * height).tdiv 2 := by
    have hwidth := cellWidth_bounds hh
    unfold advance
    split
    · refine ⟨printing_start xres height lnStart, ?_, le_rfl⟩
      simp only [newLine, forward]
      omega
    · rename_i hover
      unfold Overflows at hover
      refine ⟨⟨?_, le_max_of_le_left (not_lt.mp hover)⟩, le_rfl, ?_⟩
      · have hlow := hx.1
        simp only [forward]
        omega
      · simp only [forward]
        omega
  unfold printChar
  by_cases hn : c = '\n'
  · rw [if_pos hn]
    refine ⟨[], _, rfl, List.forall_mem_nil _, hnew, ?_, le_rfl⟩
    simp only [newLine]
    omega
  · rw [if_neg hn, if_neg hc]
    exact ⟨_, _, rfl, drawChar_inCell hh c cursor, hadvance⟩

/-- A text without tabs stays between the columns, and takes at most a line a character. -/
theorem printLoop_bounds (fuel : Nat) (xres lnStart : Int) {height : Int} (hh : 3 ≤ height)
    {str : List Char} (hstr : '\t' ∉ str) {cursor : Pixel}
    (hx : Printing xres height lnStart cursor.x) :
    ∃ drawn, printLoop fuel xres height lnStart str cursor = some drawn ∧
      ∀ r ∈ drawn.1.flatten, lnStart ≤ r.x ∧ r.x ≤ max xres (lnStart + cellWidth height) ∧
        cursor.y ≤ r.y ∧ r.y ≤ cursor.y + str.length * (3 * height).tdiv 2 := by
  induction str generalizing cursor with
  | nil => exact ⟨_, rfl, List.forall_mem_nil _⟩
  | cons c str ih =>
    obtain ⟨pixels, cursor₁, hchar, hcell, hx₁, hlow, hhigh⟩ :=
      printChar_bounds fuel xres lnStart hh (Ne.symm (List.ne_of_not_mem_cons hstr)) hx
    obtain ⟨drawn, hloop, hdrawn⟩ := ih (List.not_mem_of_not_mem_cons hstr) hx₁
    refine ⟨(pixels :: drawn.1, drawn.2), by rw [printLoop, hchar, Option.bind_some, hloop]; rfl,
      ?_⟩
    have hline := lineHeight hh
    have hlines : ((c :: str).length : Int) * (3 * height).tdiv 2 =
        str.length * (3 * height).tdiv 2 + (3 * height).tdiv 2 := by
      rw [List.length_cons]
      push_cast
      ring
    have hlen : 0 ≤ (str.length : Int) * (3 * height).tdiv 2 :=
      mul_nonneg (Int.natCast_nonneg _) (by omega)
    rw [hlines]
    intro r hr
    rw [List.flatten_cons, List.mem_append] at hr
    rcases hr with hr | hr
    · obtain ⟨⟨hleft, hright⟩, htop, hbottom⟩ := hcell r hr
      obtain ⟨hxlow, hxhigh⟩ := hx
      omega
    · have hrest := hdrawn r hr
      omega

theorem guideTop_eq {fb : DevFb} (hyres : fb.vinfo.yres.toNat ≤ 2 ^ 30) :
    guideTop fb = fb.vinfo.yres.toNat - 17 := by
  have htop : (fb.vinfo.yres - UInt32.ofInt textHeight - UInt32.ofInt padding).toNat =
      (fb.vinfo.yres.toNat + (2 ^ 32 - 17)) % 2 ^ 32 := by
    have h12 : (UInt32.ofInt textHeight).toNat = 12 := rfl
    have h5 : (UInt32.ofInt padding).toNat = 5 := rfl
    rw [UInt32.toNat_sub, UInt32.toNat_sub, h12, h5]
    omega
  rw [guideTop, htop, wrapInt]
  by_cases hlarge : 17 ≤ fb.vinfo.yres.toNat
  · rw [Int.bmod_eq_of_le (by omega) (by omega)]
    omega
  · rw [Nat.mod_eq_of_lt (by omega), Int.bmod_def]
    split
    · omega
    · omega

def guidePixels (fb : DevFb) : List Pixel := (guideText fb).getD []

/-- The guide is drawn below its top, with coordinates of type `int`. -/
theorem guideText_eq {fb : DevFb} (h : Geometry fb) (hyres : fb.vinfo.yres.toNat ≤ 2 ^ 30) :
    guideText fb = some (guidePixels fb) ∧
      ∀ p ∈ guidePixels fb, (IsInt p.x ∧ IsInt p.y) ∧ guideTop fb ≤ p.y := by
  have htop := guideTop_eq hyres
  have hxres : wrapInt fb.vinfo.xres.toNat = fb.vinfo.xres.toNat := by
    have hlt := h.xres_lt
    rw [wrapInt, Int.bmod_eq_of_le (by omega) (by omega)]
  have hstart : Printing fb.vinfo.xres.toNat textHeight 10 (⟨10, guideTop fb⟩ : Pixel).x :=
    printing_start _ _ _
  have htab : '\t' ∉ commandGuide := by decide
  obtain ⟨drawn, hprint, hbounds⟩ := printLoop_bounds 0 _ _ (by decide) htab hstart
  have htext : guideText fb = some drawn.1.flatten := by
    rw [guideText, hxres, printStr, hprint]
    rfl
  have hpixels : guidePixels fb = drawn.1.flatten := by rw [guidePixels, htext]; rfl
  refine ⟨by rw [hpixels, htext], ?_⟩
  rw [hpixels]
  intro p hp
  have hlt := h.xres_lt
  have hwidth : cellWidth textHeight = 4 := by decide
  have hlines : (commandGuide.length : Int) * (3 * textHeight).tdiv 2 = 972 := by decide
  obtain ⟨hxlow, hxhigh, hylow, hyhigh⟩ := hbounds p hp
  rw [hwidth] at hxhigh
  rw [hlines] at hyhigh
  simp only at hylow hyhigh
  unfold IsInt
  omega

/-! ## The scene -/

def black (fb : DevFb) : List (BitVec 8) := List.replicate (pixelSize fb) 0

/-- What is to be seen: the guide over the balls, and a later ball over an earlier one. -/
def scene (fb : DevFb) (sprites : List Sprite) : Picture := fun p =>
  if p ∈ guidePixels fb then pixelBytes fb.vinfo.bitsPerPixel 255 255 255 0
  else if guideTop fb ≤ p.y then black fb
  else match sprites.reverse.find? fun s => p ∈ s.pixels with
    | some s => s.bytes fb
    | none => black fb

/-- The calls of an iteration. -/
def frameCalls (fb : DevFb) (sprites : List Sprite) : List DrawCall :=
  .fill 0 0 0 :: sprites.map Sprite.call ++
    [.pixels (filledPixels ⟨0, guideTop fb⟩ (wrapInt fb.vinfo.xres.toNat)
      (textHeight + padding * 2)) 0 0 0 0, .pixels (guidePixels fb) 255 255 255 0]

theorem paint_sprites (fb : DevFb) (sprites : List Sprite) (pic : Picture) (p : Pixel) :
    (sprites.map Sprite.call).foldl (fun pic call => call.paint fb pic) pic p =
      match sprites.reverse.find? fun s => p ∈ s.pixels with
      | some s => s.bytes fb
      | none => pic p := by
  induction sprites using List.reverseRecOn with
  | nil => rfl
  | append_singleton sprites s ih =>
    rw [List.map_append, List.foldl_append, List.reverse_append, List.reverse_singleton,
      List.singleton_append, List.find?_cons]
    by_cases hp : p ∈ s.pixels
    · simp only [List.map_cons, List.map_nil, List.foldl_cons, List.foldl_nil, Sprite.call,
        DrawCall.paint, if_pos hp, decide_eq_true hp]
      rfl
    · simp only [List.map_cons, List.map_nil, List.foldl_cons, List.foldl_nil, Sprite.call,
        DrawCall.paint, if_neg hp, decide_eq_false hp]
      exact ih

section

variable {fb : DevFb} (h : Geometry fb)

include h

theorem pixelBytes_black : pixelBytes fb.vinfo.bitsPerPixel 0 0 0 0 = black fb ∧
    [(0 : BitVec 8), 0, 0, 0].take (pixelSize fb) = black fb := by
  rcases h.pixelSize_cases with ⟨hsize, hd⟩ | ⟨hsize, hd⟩
  · rw [black, hsize, hd]
    exact ⟨rfl, rfl⟩
  · rw [black, hsize, hd]
    exact ⟨rfl, rfl⟩

/-- The box of the guide reaches from its top to the end of the screen. -/
theorem mem_guideBox (hyres : fb.vinfo.yres.toNat ≤ 2 ^ 30) {p : Pixel} (hp : Visible fb p) :
    p ∈ filledPixels ⟨0, guideTop fb⟩ (wrapInt fb.vinfo.xres.toNat) (textHeight + padding * 2) ↔
      guideTop fb ≤ p.y := by
  have hlt := h.xres_lt
  have hxres : wrapInt fb.vinfo.xres.toNat = fb.vinfo.xres.toNat := by
    rw [wrapInt, Int.bmod_eq_of_le (by omega) (by omega)]
  have hheight : textHeight + padding * 2 = 22 := rfl
  obtain ⟨hx, hxlt, hy, hylt⟩ := hp
  rw [mem_filledPixels, guideTop_eq hyres, hxres, hheight]
  dsimp only
  omega

theorem paint_frame (hyres : fb.vinfo.yres.toNat ≤ 2 ^ 30) (sprites : List Sprite)
    (pic : Picture) {p : Pixel} (hp : Visible fb p) :
    (frameCalls fb sprites).foldl (fun pic call => call.paint fb pic) pic p =
      scene fb sprites p := by
  obtain ⟨hpixel, hfill⟩ := pixelBytes_black h
  have hbox := mem_guideBox h hyres hp
  have hballs := paint_sprites fb sprites (DrawCall.paint fb pic (.fill 0 0 0)) p
  rw [frameCalls, List.cons_append, List.foldl_cons, List.foldl_append, List.foldl_cons,
    List.foldl_cons, List.foldl_nil]
  generalize (sprites.map Sprite.call).foldl (fun pic call => call.paint fb pic)
    (DrawCall.paint fb pic (.fill 0 0 0)) = shown at hballs ⊢
  simp only [DrawCall.paint, hfill] at hballs
  simp only [DrawCall.paint, hbox, hpixel, hballs, scene]

theorem drawable_frame (hyres : fb.vinfo.yres.toNat ≤ 2 ^ 30) {sprites : List Sprite}
    (hfits : ∀ s ∈ sprites, s.Fits) : ∀ call ∈ frameCalls fb sprites, call.Drawable := by
  intro call hcall
  simp only [frameCalls, List.cons_append, List.mem_cons, List.mem_append, List.mem_map,
    List.not_mem_nil, or_false] at hcall
  rcases hcall with rfl | ⟨s, hs, rfl⟩ | rfl | rfl
  · trivial
  · exact (hfits s hs).drawable
  · intro p hp
    have hlt := h.xres_lt
    have hxres : wrapInt fb.vinfo.xres.toNat = fb.vinfo.xres.toNat := by
      rw [wrapInt, Int.bmod_eq_of_le (by omega) (by omega)]
    have hheight : textHeight + padding * 2 = 22 := rfl
    rw [mem_filledPixels, guideTop_eq hyres, hxres, hheight] at hp
    unfold IsInt
    dsimp only at hp
    omega
  · intro p hp
    exact ((guideText_eq h hyres).2 p hp).1

/-- What an iteration stores is the program of these calls. -/
theorem frameStores_eq (hyres : fb.vinfo.yres.toNat ≤ 2 ^ 30) {balls : List ScreenBall}
    {sprites : List Sprite} (hballs : balls.map ScreenBall.sprite = sprites.map some) :
    ((ballStores fb balls).bind fun balls => (drawCommandGuide fb).map fun guide =>
      fillScr fb 0 0 0 ++ balls ++ guide) =
        some ((frameCalls fb sprites).flatMap (DrawCall.stores fb)) := by
  rw [ballStores_sprites fb hballs, drawCommandGuide, (guideText_eq h hyres).1]
  simp only [Option.bind_some, Option.map_some, frameCalls, List.cons_append, List.flatMap_cons,
    List.flatMap_append, List.flatMap_nil, List.append_nil, List.append_assoc]
  rfl

end

/-- The screen behind the critical section, whatever the memory of the device held. -/
theorem renderLocked_shows {fb : DevFb} (h : Geometry fb)
    (hwrap : fb.lineLength.toNat * fb.vinfo.yresVirtual.toNat < 2 ^ 32)
    (hyres : fb.vinfo.yres.toNat ≤ 2 ^ 30) (hin : Inside fb) {m : BallListManager} {lost : Bool}
    {ns : List (Nat × ScreenBall)} (hr : Represents m.toLinked lost ns)
    {alloc : Nat → Option Nat} (hbroken : ¬ Broken alloc 0 ns.length) {sprites : List Sprite}
    (hballs : (placed alloc 0 (ns.map Prod.snd)).map ScreenBall.sprite = sprites.map some)
    (hfits : ∀ s ∈ sprites, s.Fits) (mem : Nat → BitVec 8) :
    ∃ stores copy, renderLocked fb m alloc = .ok (some stores, copy) ∧
      (∀ s ∈ stores, s.Inside fb) ∧
      ∀ p, Visible fb p → picture fb (execute mem stores) p = scene fb sprites p := by
  rcases renderLocked_cases fb hr alloc with ⟨hb, _⟩ | ⟨_, copy, _, _, _, _, _, hok⟩
  · exact absurd hb hbroken
  · rw [frameStores_eq h hyres hballs] at hok
    have hcalls := drawable_frame h hyres hfits
    refine ⟨_, copy, hok, hin.calls hcalls, ?_⟩
    intro p hp
    rw [picture_calls h hwrap hcalls (fun _ _ => rfl) hp, paint_frame h hyres sprites _ hp]

end BallGame.Client
