import BallGame.Library.Writes
import BallGame.Shared.Framebuffer

/-!
# What the screen shows

The picture on the screen is the abstract side of the framebuffer: for every visible pixel the
bytes it has in the memory of the device. Where 32 bits are enough for the addresses, the bytes of
different pixels are disjoint, and every routine only changes the picture as it says. The memory has
no end here: whether the stores are inside the mapping is `Inside`.

* `locate_before`: the pixels are in the memory row by row;
* `execute_call`: what a routine does to the picture, and that it leaves all other bytes alone;
* `screen_refines`: a program of drawing calls computes the picture that it paints.
-/

namespace BallGame.Shared

open Library

/-! ## The bytes of the pixels -/

/-- The memory of the device after the stores, as far as they reach. -/
def execute (mem : Nat → BitVec 8) (stores : List Store) : Nat → BitVec 8 :=
  writeAll mem (stores.map fun s => (s.offset, s.value))

theorem execute_append (mem : Nat → BitVec 8) (first second : List Store) :
    execute mem (first ++ second) = execute (execute mem first) second := by
  rw [execute, List.map_append, writeAll_append]
  rfl

/-- The pixels of the visible area, as `fb_fillScr` visits them. -/
def screenPixels (fb : DevFb) : List Pixel :=
  filledPixels ⟨0, 0⟩ (wrapInt fb.vinfo.xres.toNat) (wrapInt fb.vinfo.yres.toNat)

def Visible (fb : DevFb) (p : Pixel) : Prop :=
  0 ≤ p.x ∧ p.x < fb.vinfo.xres.toNat ∧ 0 ≤ p.y ∧ p.y < fb.vinfo.yres.toNat

instance (fb : DevFb) (p : Pixel) : Decidable (Visible fb p) :=
  inferInstanceAs (Decidable (_ ∧ _ ∧ _ ∧ _))

/-- `p` is drawn before `q` if rows are drawn from the top and from the left. -/
def Pixel.Before (p q : Pixel) : Prop := p.y < q.y ∨ p.y = q.y ∧ p.x < q.x

theorem Pixel.before_or_before {p q : Pixel} (h : p ≠ q) : p.Before q ∨ q.Before p := by
  unfold Pixel.Before
  have hne : p.x ≠ q.x ∨ p.y ≠ q.y := by
    by_contra hand
    rw [not_or, Classical.not_not, Classical.not_not] at hand
    exact h (Pixel.ext hand.1 hand.2)
  omega

section

variable {fb : DevFb} (h : Geometry fb)
  (hwrap : fb.lineLength.toNat * fb.vinfo.yresVirtual.toNat < 2 ^ 32)

include h hwrap

/-- The address of a pixel, without a carry. -/
theorem locate_visible {p : Pixel} (hp : Visible fb p) :
    locate fb p.x p.y = (p.x.toNat + fb.vinfo.xoffset.toNat) * pixelSize fb +
        (p.y.toNat + fb.vinfo.yoffset.toNat) * fb.lineLength.toNat ∧
      (p.x.toNat + fb.vinfo.xoffset.toNat) * pixelSize fb + pixelSize fb ≤
        fb.lineLength.toNat := by
  obtain ⟨hx, hxres, hy, hyres⟩ := hp
  obtain ⟨x, hx⟩ := Int.eq_ofNat_of_zero_le hx
  obtain ⟨y, hy⟩ := Int.eq_ofNat_of_zero_le hy
  rw [hx] at hxres
  rw [hy] at hyres
  have hcolumns := h.columns
  have hrows := h.rows
  have hcolumn : (x + fb.vinfo.xoffset.toNat + 1) * pixelSize fb ≤ fb.lineLength.toNat :=
    (Nat.mul_le_mul_right _ (by omega)).trans h.stride
  have hrow : (y + fb.vinfo.yoffset.toNat + 1) * fb.lineLength.toNat ≤
      fb.lineLength.toNat * fb.vinfo.yresVirtual.toNat := by
    rw [Nat.mul_comm]
    exact Nat.mul_le_mul_left _ (by omega)
  rw [Nat.add_mul, Nat.one_mul] at hcolumn hrow
  have hpixel := h.pixelSize_pos
  rw [hx, hy, locate_natCast, Int.toNat_natCast, Int.toNat_natCast, Nat.mod_eq_of_lt (by omega)]
  exact ⟨rfl, hcolumn⟩

/-- The bytes of the pixels are in the memory in the order of the rows. -/
theorem locate_before {p q : Pixel} (hp : Visible fb p) (hq : Visible fb q) (hpq : p.Before q) :
    locate fb p.x p.y + pixelSize fb ≤ locate fb q.x q.y := by
  obtain ⟨hlocp, hfits⟩ := locate_visible h hwrap hp
  obtain ⟨hlocq, _⟩ := locate_visible h hwrap hq
  obtain ⟨hpx, _, hpy, _⟩ := hp
  obtain ⟨hqx, _, hqy, _⟩ := hq
  rw [hlocp, hlocq]
  rcases hpq with hy | ⟨hy, hx⟩
  · have hrow : (p.y.toNat + fb.vinfo.yoffset.toNat + 1) * fb.lineLength.toNat ≤
        (q.y.toNat + fb.vinfo.yoffset.toNat) * fb.lineLength.toNat :=
      Nat.mul_le_mul_right _ (by omega)
    rw [Nat.add_mul, Nat.one_mul] at hrow
    omega
  · have hcolumn : (p.x.toNat + fb.vinfo.xoffset.toNat + 1) * pixelSize fb ≤
        (q.x.toNat + fb.vinfo.xoffset.toNat) * pixelSize fb :=
      Nat.mul_le_mul_right _ (by omega)
    rw [Nat.add_mul, Nat.one_mul] at hcolumn
    rw [hy]
    omega

/-- The visible pixels are cells of the memory. -/
def screenCells : Cells Pixel where
  Valid := Visible fb
  start p := locate fb p.x p.y
  size := pixelSize fb
  disjoint := by
    intro p q hp hq hne
    rcases Pixel.before_or_before hne with hpq | hqp
    · exact Or.inl (locate_before h hwrap hp hq hpq)
    · exact Or.inr (locate_before h hwrap hq hp hqp)

theorem visible_iff_mem {p : Pixel} : Visible fb p ↔ p ∈ screenPixels fb := by
  have hxres := h.xres_lt
  have hwidth : wrapInt fb.vinfo.xres.toNat = fb.vinfo.xres.toNat := by
    rw [wrapInt, Int.bmod_eq_of_le (by omega) (by omega)]
  rw [screenPixels, mem_filledPixels, hwidth]
  simp only [zero_add]
  by_cases hx : fb.vinfo.xres.toNat = 0
  · rw [hx]
    unfold Visible
    rw [hx]
    omega
  · -- a row has at least two bytes
    have hline : 2 ≤ fb.lineLength.toNat := by
      have hcolumns := h.columns
      have hstride := h.stride
      rcases h.pixelSize_cases with ⟨he, _⟩ | ⟨he, _⟩
      · rw [he] at hstride
        omega
      · rw [he] at hstride
        omega
    have hyres := Nat.mul_le_mul hline (Nat.le_of_add_left_le h.rows)
    have hheight : wrapInt fb.vinfo.yres.toNat = fb.vinfo.yres.toNat := by
      rw [wrapInt, Int.bmod_eq_of_le (by omega) (by omega)]
    rw [hheight]
    rfl

end

/-! ## Drawing calls -/

/-- A call of `fb_fillScr`, or of a routine that draws pixels of one color. -/
inductive DrawCall where
  | pixels (ps : List Pixel) (r g b a : BitVec 8)
  | fill (r g b : BitVec 8)

def DrawCall.stores (fb : DevFb) : DrawCall → List Store
  | .pixels ps r g b a => drawPixelswithAlpha fb ps r g b a
  | .fill r g b => fillScr fb r g b

/-- The coordinates are of type `int`. -/
def DrawCall.Drawable : DrawCall → Prop
  | .pixels ps _ _ _ _ => ∀ p ∈ ps, IsInt p.x ∧ IsInt p.y
  | .fill _ _ _ => True

/-- What is shown at a pixel. -/
abbrev Picture := Pixel → List (BitVec 8)

/-- The pixels of the call get the bytes that stand for its color, with 16 bits those of `color16`;
`fb_fillScr` writes the bytes of 32 bits. -/
def DrawCall.paint (fb : DevFb) (pic : Picture) : DrawCall → Picture
  | .pixels ps r g b a => fun p =>
    if p ∈ ps then pixelBytes fb.vinfo.bitsPerPixel r g b a else pic p
  | .fill r g b => fun _ => [b, g, r, 0].take (pixelSize fb)

/-- What the memory shows. -/
def picture (fb : DevFb) (mem : Nat → BitVec 8) : Picture := fun p =>
  readBlock mem (locate fb p.x p.y) (pixelSize fb)

theorem visible_iff_checkPx {fb : DevFb} {p : Pixel} (hp : IsInt p.x ∧ IsInt p.y) :
    Visible fb p ↔ checkPx fb p.x p.y = true := by
  rw [checkPx_iff fb hp.1 hp.2]
  constructor
  · rintro ⟨hx, hxres, hy, hyres⟩
    obtain ⟨x, hx⟩ := Int.eq_ofNat_of_zero_le hx
    obtain ⟨y, hy⟩ := Int.eq_ofNat_of_zero_le hy
    obtain ⟨⟨_, hxint⟩, _, hyint⟩ := hp
    exact ⟨x, y, hx, hy, by omega, by omega, by omega, by omega⟩
  · rintro ⟨x, y, hx, hy, _, _, hxres, hyres⟩
    unfold Visible
    omega

theorem screenPixels_pairwise (fb : DevFb) : (screenPixels fb).Pairwise Pixel.Before := by
  rw [screenPixels, filledPixels, List.pairwise_flatMap]
  constructor
  · intro y _
    rw [List.pairwise_map]
    apply List.pairwise_lt_range.imp
    intro x x' hx
    exact Or.inr ⟨rfl, by dsimp only; omega⟩
  · apply List.pairwise_lt_range.imp
    intro y y' hy p hp q hq
    obtain ⟨x, _, rfl⟩ := List.mem_map.mp hp
    obtain ⟨x', _, rfl⟩ := List.mem_map.mp hq
    exact Or.inl (by dsimp only; omega)

theorem map_storeBytes (location : Nat) (bytes : List (BitVec 8)) :
    (storeBytes location bytes).map (fun s => (s.offset, s.value)) = block location bytes := by
  rw [storeBytes, block, List.mapIdx_eq_zipIdx_map, List.mapIdx_eq_zipIdx_map, List.map_map]
  rfl

section

variable {fb : DevFb} (h : Geometry fb)
  (hwrap : fb.lineLength.toNat * fb.vinfo.yresVirtual.toNat < 2 ^ 32)

include h hwrap

/-- The routines that draw pixels write the cells of those that are visible. -/
theorem execute_pixels {ps : List Pixel} (hps : ∀ p ∈ ps, IsInt p.x ∧ IsInt p.y)
    (mem : Nat → BitVec 8) (r g b a : BitVec 8) :
    execute mem (drawPixelswithAlpha fb ps r g b a) =
      writeAll mem ((screenCells h hwrap).writes ((ps.filter fun p => Visible fb p).map fun p =>
        (p, pixelBytes fb.vinfo.bitsPerPixel r g b a))) := by
  induction ps generalizing mem with
  | nil => rfl
  | cons p ps ih =>
    rw [List.forall_mem_cons] at hps
    have hcons : drawPixelswithAlpha fb (p :: ps) r g b a =
        drawPixelwithAlpha fb p.x p.y r g b a ++ drawPixelswithAlpha fb ps r g b a := rfl
    rw [hcons, execute_append, ih hps.2, drawPixelwithAlpha]
    by_cases hp : Visible fb p
    · rw [if_pos ((visible_iff_checkPx hps.1).mp hp), List.filter_cons_of_pos (by simpa using hp),
        List.map_cons, Cells.writes_cons, writeAll_append, execute, map_storeBytes]
      rfl
    · rw [if_neg fun hcheck => hp ((visible_iff_checkPx hps.1).mpr hcheck),
        List.filter_cons_of_neg (by simpa using hp)]
      rfl

/-- `fb_fillScr` writes the cells in ascending order. -/
theorem execute_fill (mem : Nat → BitVec 8) (r g b : BitVec 8) :
    execute mem (fillScr fb r g b) = writeAll mem ((screenCells h hwrap).writes
      ((screenPixels fb).map fun p => (p, [b, g, r, 0]))) := by
  have hstores : (fillScr fb r g b).map (fun s => (s.offset, s.value)) =
      (screenPixels fb).flatMap fun p => block (locate fb p.x p.y) [b, g, r, 0] := by
    simp only [fillScr, screenPixels, filledPixels, List.map_flatMap, List.flatMap_assoc,
      List.flatMap_map, map_storeBytes, zero_add]
  rw [execute, hstores, Cells.writes, List.flatMap_map]
  rfl

/-- **One call.** The picture changes as the call says. -/
theorem picture_call {call : DrawCall} (hcall : call.Drawable) (mem : Nat → BitVec 8) {p : Pixel}
    (hp : Visible fb p) :
    picture fb (execute mem (call.stores fb)) p = call.paint fb (picture fb mem) p := by
  cases call with
  | pixels ps r g b a =>
    have hbytes := h.length_pixelBytes r g b a
    rw [DrawCall.stores, execute_pixels h hwrap hcall]
    refine ((screenCells h hwrap).contents_writes ?_ (fun _ _ => rfl) hp).trans ?_
    · intro w hw
      obtain ⟨q, hq, rfl⟩ := List.mem_map.mp hw
      have hvisible : Visible fb q := of_decide_eq_true (List.mem_filter.mp hq).2
      exact ⟨hvisible, hbytes⟩
    · rw [Cells.foldl_update_const]
      simp only [DrawCall.paint, List.mem_filter, hp, decide_true, and_true]
      rfl
  | fill r g b =>
    rw [DrawCall.stores, execute_fill h hwrap]
    have hmem := (visible_iff_mem h hwrap).mp hp
    have hlen : pixelSize fb ≤ 4 := by
      rcases h.pixelSize_cases with ⟨he, _⟩ | ⟨he, _⟩
      · omega
      · omega
    refine (screenCells h hwrap).contents_writes_ascending (w := (p, [b, g, r, 0])) ?_ ?_
      (List.mem_map.mpr ⟨p, hmem, rfl⟩)
    · rw [List.pairwise_map]
      apply (screenPixels_pairwise fb).imp_of_mem
      intro q q' hq hq' hbefore
      exact locate_before h hwrap ((visible_iff_mem h hwrap).mpr hq)
        ((visible_iff_mem h hwrap).mpr hq') hbefore
    · intro w hw
      obtain ⟨q, _, rfl⟩ := List.mem_map.mp hw
      exact hlen

/-- The calls after which a byte beside the visible pixels is what it was. -/
def DrawCall.Exact (fb : DevFb) : DrawCall → Prop
  | .pixels _ _ _ _ _ => True
  | .fill _ _ _ => fb.vinfo.bitsPerPixel = 32

theorem execute_outside {call : DrawCall} (hcall : call.Drawable) (hexact : call.Exact fb)
    (mem : Nat → BitVec 8) {a : Nat} (ha : ¬ (screenCells h hwrap).Covers a) :
    execute mem (call.stores fb) a = mem a := by
  cases call with
  | pixels ps r g b a =>
    rw [DrawCall.stores, execute_pixels h hwrap hcall]
    apply Cells.writes_outside _ ha
    intro w hw
    obtain ⟨q, hq, rfl⟩ := List.mem_map.mp hw
    have hvisible : Visible fb q := of_decide_eq_true (List.mem_filter.mp hq).2
    exact ⟨hvisible, h.length_pixelBytes r g b _⟩
  | fill r g b =>
    have hexact : fb.vinfo.bitsPerPixel = 32 := hexact
    have hsize : pixelSize fb = 4 := by
      rw [pixelSize, hexact]
      rfl
    rw [DrawCall.stores, execute_fill h hwrap]
    apply Cells.writes_outside _ ha
    intro w hw
    obtain ⟨q, hq, rfl⟩ := List.mem_map.mp hw
    exact ⟨(visible_iff_mem h hwrap).mpr hq, hsize.symm⟩

/-! ## Programs of calls -/

/-- What is shown after the calls is what they paint, one after the other. -/
theorem picture_calls {calls : List DrawCall} (hcalls : ∀ call ∈ calls, call.Drawable)
    {mem : Nat → BitVec 8} {pic : Picture} (hpic : ∀ p, Visible fb p → picture fb mem p = pic p)
    {p : Pixel} (hp : Visible fb p) :
    picture fb (execute mem (calls.flatMap (DrawCall.stores fb))) p =
      calls.foldl (fun pic call => call.paint fb pic) pic p := by
  induction calls generalizing mem pic with
  | nil => exact hpic p hp
  | cons call calls ih =>
    rw [List.forall_mem_cons] at hcalls
    rw [List.flatMap_cons, execute_append, List.foldl_cons]
    apply ih hcalls.2
    intro q hq
    rw [picture_call h hwrap hcalls.1 mem hq]
    cases call with
    | pixels ps r g b a => simp only [DrawCall.paint, hpic q hq]
    | fill r g b => rfl

theorem execute_calls_outside {calls : List DrawCall}
    (hcalls : ∀ call ∈ calls, call.Drawable ∧ call.Exact fb) (mem : Nat → BitVec 8) {a : Nat}
    (ha : ¬ (screenCells h hwrap).Covers a) :
    execute mem (calls.flatMap (DrawCall.stores fb)) a = mem a := by
  induction calls generalizing mem with
  | nil => rfl
  | cons call calls ih =>
    rw [List.forall_mem_cons] at hcalls
    rw [List.flatMap_cons, execute_append, ih hcalls.2,
      execute_outside h hwrap hcalls.1.1 hcalls.1.2 mem ha]

end

/-- Where nothing is stored outside the mapping, the calls do not either. -/
theorem Inside.calls {fb : DevFb} (hin : Inside fb) {calls : List DrawCall}
    (hcalls : ∀ call ∈ calls, call.Drawable) :
    ∀ s ∈ calls.flatMap (DrawCall.stores fb), s.Inside fb := by
  intro s hs
  obtain ⟨call, hcall, hs⟩ := List.mem_flatMap.mp hs
  cases call with
  | pixels ps r g b a => exact hin.routineAlpha ps (hcalls _ hcall) r g b a s hs
  | fill r g b => exact hin.fill r g b s hs

/-- **The screen.** Whatever was in the memory and whatever is drawn in whatever order, with 16 or
with 32 bits for a pixel, the visible pixels hold the bytes that the calls paint, the last call that
has a pixel deciding them. No other byte changes, unless `fb_fillScr` runs with 16 bits. The memory
is larger than the mapping; on the screens that are `Inside` it, no store is beyond it. -/
theorem screen_refines {fb : DevFb} (h : Geometry fb)
    (hwrap : fb.lineLength.toNat * fb.vinfo.yresVirtual.toNat < 2 ^ 32) (calls : List DrawCall)
    (hcalls : ∀ call ∈ calls, call.Drawable) (mem : Nat → BitVec 8) :
    (∀ p, Visible fb p →
      picture fb (execute mem (calls.flatMap (DrawCall.stores fb))) p =
        calls.foldl (fun pic call => call.paint fb pic) (picture fb mem) p) ∧
      ((∀ call ∈ calls, call.Exact fb) → ∀ a,
        (∀ p, Visible fb p → a < locate fb p.x p.y ∨ locate fb p.x p.y + pixelSize fb ≤ a) →
        execute mem (calls.flatMap (DrawCall.stores fb)) a = mem a) ∧
      (Inside fb → ∀ s ∈ calls.flatMap (DrawCall.stores fb), s.Inside fb) := by
  refine ⟨?_, ?_, fun hin => hin.calls hcalls⟩
  · intro p hp
    exact picture_calls h hwrap hcalls (fun _ _ => rfl) hp
  · intro hexact a ha
    apply execute_calls_outside h hwrap fun call hcall => ⟨hcalls call hcall, hexact call hcall⟩
    rintro ⟨p, hp, hlow, hhigh⟩
    have hbeside := ha p hp
    simp only [screenCells] at hlow hhigh
    omega

/-- A screen of 1920 columns and 1080 rows with four bytes for a pixel. -/
theorem plainScreen_geometry : Geometry (plainScreen 32 7680) :=
  ⟨Or.inr rfl, by decide, by decide, by decide⟩

theorem plainScreen_inside : Inside (plainScreen 32 7680) := by
  rw [inside_iff_fitsRows plainScreen_geometry (by decide),
    fitsRows_iff_fitsScreen plainScreen_geometry (by decide) (by decide)]
  exact Or.inr (Or.inr ⟨rfl, Or.inl rfl⟩)

/-- A red line over a white screen. -/
def redLine : List Store :=
  fillScr (plainScreen 32 7680) 255 255 255 ++
    drawPixels (plainScreen 32 7680) (drawLine ⟨0, 0⟩ ⟨9, 3⟩) 255 0 0

theorem screen_refines_line :
    picture (plainScreen 32 7680) (execute (fun _ => 7) redLine) ⟨9, 3⟩ = [0, 0, 255, 0] ∧
      picture (plainScreen 32 7680) (execute (fun _ => 7) redLine) ⟨0, 9⟩ =
        [255, 255, 255, 0] := by
  have hcalls : ∀ call ∈ [DrawCall.fill 255 255 255,
      .pixels (drawLine ⟨0, 0⟩ ⟨9, 3⟩) 255 0 0 0], call.Drawable := by
    rw [List.forall_mem_cons, List.forall_mem_singleton]
    refine ⟨trivial, ?_⟩
    intro q hq
    obtain ⟨hx, hy⟩ := (drawLine_digital ⟨0, 0⟩ ⟨9, 3⟩).box q hq
    unfold IsInt
    dsimp only at hx hy
    omega
  have hscreen := (screen_refines plainScreen_geometry (by decide) _ hcalls fun _ => 7).1
  rw [List.flatMap_cons, List.flatMap_cons, List.flatMap_nil, List.append_nil] at hscreen
  exact ⟨(hscreen ⟨9, 3⟩ (by decide)).trans (by decide),
    (hscreen ⟨0, 9⟩ (by decide)).trans (by decide)⟩

end BallGame.Shared
