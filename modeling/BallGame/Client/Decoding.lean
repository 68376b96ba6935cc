import BallGame.Client.ScreenBallManager
import BallGame.Library.Fields

/-!
# Balls that were not decoded

`updateBallListFromSerialized` appends a ball for every token and does not look at the result of
`sscanf`. The fields behind the first conversion that fails keep what happens to be in the local
variable, and a number that is too large for the screen has no conversion to `int` either.

* `decoded_iff`: a ball has all its fields exactly if `sscanf` returns 9;
* `complete_iff`: the tokens for which it does;
* `shown_balls_decoded_iff`: the exact condition on the tokens of a text;
* `reply_shown`: a reply of the server is shown as a ball.
-/

namespace BallGame.Client

open Library

/-! ## One token -/

/-- `sscanf` converts all nine fields. -/
def Complete (token : List Char) : Prop := (scan ballFormat token).length = 9

instance : DecidablePred Complete := fun _ => inferInstanceAs (Decidable (_ = _))

/-- The numbers of a ball. -/
def ballFields : List Directive :=
  [.int, .float, .float, .int, .int, .int, .byte, .byte, .byte]

theorem ballFormat_eq : ballFormat = ballFields.intersperse (.literal ',') := rfl

/-- All nine are converted exactly if the token begins with nine numbers that are separated by
single commas. -/
theorem complete_iff {token : List Char} : Complete token ↔ Fields ',' ballFields token := by
  have hnumbers : ∀ d ∈ ballFields, d.isNumber := by decide
  rw [Complete, ballFormat_eq]
  exact scan_fields_iff (by decide) hnumbers

structure RGBColor.Defined (c : RGBColor) : Prop where
  r : c.r.isSome
  g : c.g.isSome
  b : c.b.isSome

/-- No field is left as it was. -/
structure LogicalBall.Decoded (l : LogicalBall) : Prop where
  id : l.id.isSome
  x : l.x.isSome
  y : l.y.isSome
  dx : l.dx.isSome
  dy : l.dy.isSome
  radius : l.radius.isSome
  color : l.color.Defined

/-- No field is undefined. -/
structure ScreenBall.Defined (s : ScreenBall) : Prop where
  id : s.id.isSome
  x : s.x.isSome
  y : s.y.isSome
  dx : s.dx.isSome
  dy : s.dy.isSome
  radius : s.radius.isSome
  color : s.color.Defined

/-- A field whose directive converted has a value. -/
theorem field_isSome {α : Type} {value : Scanned → Option α} {d : Directive}
    (hvalue : ∀ v : Scanned, v.directive = d → (value v).isSome) {vs : List Scanned} {i : Nat}
    (h : (vs.map Scanned.directive)[i]? = some d) : (vs[i]?.bind value).isSome := by
  rw [List.getElem?_map] at h
  obtain ⟨v, hv, hd⟩ := Option.map_eq_some_iff.mp h
  rw [hv]
  exact hvalue v hd

theorem intValue_isSome (v : Scanned) (h : v.directive = .int) : (intValue v).isSome := by
  cases v with
  | int n => rfl
  | _ => cases h

theorem floatValue_isSome (v : Scanned) (h : v.directive = .float) : (floatValue v).isSome := by
  cases v with
  | float x => rfl
  | _ => cases h

theorem byteValue_isSome (v : Scanned) (h : v.directive = .byte) : (byteValue v).isSome := by
  cases v with
  | byte b => rfl
  | _ => cases h

/-- Only a conversion of all nine fields leaves no field as it was. -/
theorem decoded_iff {token : List Char} : (scanBall token).Decoded ↔ Complete token := by
  constructor
  · intro h
    have hle : (scan ballFormat token).length ≤ 9 := by
      have hprefix := (scan_directives ballFormat token).length_le
      rwa [List.length_map] at hprefix
    have hlast : ((scan ballFormat token)[8]?.bind byteValue).isSome := h.color.b
    have hlong : ¬ (scan ballFormat token).length ≤ 8 := by
      intro hshort
      rw [List.getElem?_eq_none hshort] at hlast
      cases hlast
    show (scan ballFormat token).length = 9
    omega
  · intro h
    have hkinds : (scan ballFormat token).map Scanned.directive = ballFields :=
      scan_directives_eq h
    refine ⟨?_, ?_, ?_, ?_, ?_, ?_, ?_, ?_, ?_⟩
    · exact field_isSome intValue_isSome (by rw [hkinds]; rfl)
    · exact field_isSome floatValue_isSome (by rw [hkinds]; rfl)
    · exact field_isSome floatValue_isSome (by rw [hkinds]; rfl)
    · exact field_isSome intValue_isSome (by rw [hkinds]; rfl)
    · exact field_isSome intValue_isSome (by rw [hkinds]; rfl)
    · exact field_isSome intValue_isSome (by rw [hkinds]; rfl)
    · exact field_isSome byteValue_isSome (by rw [hkinds]; rfl)
    · exact field_isSome byteValue_isSome (by rw [hkinds]; rfl)
    · exact field_isSome byteValue_isSome (by rw [hkinds]; rfl)

/-- Place and size, scaled to the screen, are numbers of type `int`. -/
structure OnScreen (width height : Int) (token : List Char) : Prop where
  x : ∀ x ∈ (scanBall token).x, (logicToPixel x width).isSome
  y : ∀ y ∈ (scanBall token).y, (logicToPixel y height).isSome
  radius : ∀ r ∈ (scanBall token).radius,
    (logicToPixel (.ofInt r) (if width < height then width else height)).isSome

theorem isSome_bind_iff {α β : Type} {o : Option α} {f : α → Option β} :
    (o.bind f).isSome ↔ o.isSome ∧ ∀ x ∈ o, (f x).isSome := by
  cases o with
  | none => simp
  | some x => simp

/-- The ball that is shown for a token has all its fields if the token is complete and the
scaled numbers fit. -/
theorem defined_shownBall_iff {width height : Int} {token : List Char} :
    (shownBall width height token).Defined ↔ Complete token ∧ OnScreen width height token := by
  rw [← decoded_iff]
  constructor
  · rintro ⟨hid, hx, hy, hdx, hdy, hradius, hcolor⟩
    obtain ⟨hx, hpx⟩ := isSome_bind_iff.mp hx
    obtain ⟨hy, hpy⟩ := isSome_bind_iff.mp hy
    obtain ⟨hradius, hpr⟩ := isSome_bind_iff.mp ((Option.isSome_map ..).symm.trans hradius)
    exact ⟨⟨hid, hx, hy, hdx, hdy, hradius, hcolor⟩, ⟨hpx, hpy, hpr⟩⟩
  · rintro ⟨⟨hid, hx, hy, hdx, hdy, hradius, hcolor⟩, ⟨hpx, hpy, hpr⟩⟩
    have hscaled := isSome_bind_iff.mpr ⟨hradius, hpr⟩
    exact ⟨hid, isSome_bind_iff.mpr ⟨hx, hpx⟩, isSome_bind_iff.mpr ⟨hy, hpy⟩, hdx, hdy,
      (Option.isSome_map ..).trans hscaled, hcolor⟩

/-! ## A text -/

/-- The list elements whose allocation succeeds. -/
def allocated {α : Type} (alloc : Nat → Option Nat) : Nat → List α → List α
  | _, [] => []
  | i, x :: xs =>
    if (alloc i).isSome then x :: allocated alloc (i + 1) xs else allocated alloc (i + 1) xs

/-- The tokens for which an update appends a ball: all of them, if the memory suffices. -/
def shownTokens (env : UpdateEnv) (str : List Char) : List (List Char) :=
  if env.strdup then allocated env.alloc 0 (tokens '|' str) else []

theorem allocated_eq {α : Type} {alloc : Nat → Option Nat} (halloc : ∀ i, alloc i ≠ none)
    (i : Nat) (xs : List α) : allocated alloc i xs = xs := by
  induction xs generalizing i with
  | nil => rfl
  | cons x xs ih => rw [allocated, if_pos (Option.isSome_iff_ne_none.mpr (halloc i)), ih]

theorem shownTokens_eq {env : UpdateEnv} (hstrdup : env.strdup = true)
    (halloc : ∀ i, env.alloc i ≠ none) (str : List Char) :
    shownTokens env str = tokens '|' str := by
  rw [shownTokens, if_pos hstrdup, allocated_eq halloc]

theorem appendTokens_shows {width height : Int} {alloc : Nat → Option Nat} {ts : List (List Char)}
    {i : Nat} {m m' : BallListManager} {lost : Bool} {ns : List (Nat × ScreenBall)}
    (hr : Represents m.toLinked lost ns) (h : appendTokens width height alloc ts i m = .ok m') :
    m'.toList = ns.map Prod.snd ++ (allocated alloc i ts).map (shownBall width height) := by
  induction ts generalizing i m lost ns with
  | nil =>
    cases h
    rw [hr.toList_eq, allocated, List.map_nil, List.append_nil]
  | cons t ts ih =>
    obtain ⟨l, hl, hrest⟩ := bind_ok.mp h
    obtain ⟨total, _, hrest⟩ := bind_ok.mp hrest
    rcases hr.append_cases (shownBall width height t) (alloc i) with ⟨_, _, herror⟩ |
      ⟨l', new, hok, hr', hnew⟩
    · rw [shownBall, hl] at herror
      cases herror
    · rw [shownBall, hl] at hok
      cases hok
      rw [ih hr' hrest, List.map_append, hnew, List.append_assoc, allocated]
      split
      · rfl
      · rfl

/-- The list after an update. -/
theorem update_shows {m m' : BallListManager} {str : List Char} {width height : Int}
    {env : UpdateEnv} (h : updateBallListFromSerialized m str width height env = .ok m') :
    m'.toList = (shownTokens env str).map (shownBall width height) := by
  obtain ⟨m₀, hm₀, hrest⟩ := bind_ok.mp h
  obtain ⟨⟨heap, count⟩, _, he⟩ := bind_ok.mp hm₀
  cases he
  have hempty : Represents (⟨heap, none, none⟩ : Linked ScreenBall) false [] :=
    ⟨rfl, List.nodup_nil, rfl⟩
  rw [shownTokens]
  split at hrest
  · rename_i hstrdup
    rw [if_pos hstrdup, appendTokens_shows hempty hrest]
    rfl
  · rename_i hstrdup
    cases hrest
    rw [if_neg hstrdup]
    exact hempty.toList_eq

/-- The shown balls are those of the complete tokens if there are no other tokens. -/
theorem shows_complete_iff {ts : List (List Char)} {width height : Int} :
    ts.map (shownBall width height) =
        (ts.filter fun t => Complete t).map (shownBall width height) ↔
      ∀ t ∈ ts, Complete t := by
  constructor
  · intro h
    have hlen := congrArg List.length h
    rw [List.length_map, List.length_map] at hlen
    have hall := List.length_filter_eq_length_iff.mp hlen.symm
    exact fun t ht => of_decide_eq_true (hall t ht)
  · intro h
    rw [List.filter_eq_self.mpr fun t ht => decide_eq_true (h t ht)]

/-- **Undecoded balls.** An update shows the balls of the tokens that were decoded completely,
and no others, if every token for which it appends a ball begins with the nine numbers, and not
otherwise. That no field of a ball is undefined also takes that the scaled numbers fit. -/
theorem shown_balls_decoded_iff {m m' : BallListManager} {str : List Char} {width height : Int}
    {env : UpdateEnv} (h : updateBallListFromSerialized m str width height env = .ok m') :
    (m'.toList = ((shownTokens env str).filter fun t => Complete t).map (shownBall width height) ↔
        ∀ t ∈ shownTokens env str, Fields ',' ballFields t) ∧
      ((m'.toList =
            ((shownTokens env str).filter fun t => Complete t).map (shownBall width height) ∧
          ∀ s ∈ m'.toList, s.Defined) ↔
        ∀ t ∈ shownTokens env str, Fields ',' ballFields t ∧ OnScreen width height t) := by
  have hcomplete : (∀ t ∈ shownTokens env str, Complete t) ↔
      ∀ t ∈ shownTokens env str, Fields ',' ballFields t :=
    forall₂_congr fun t _ => complete_iff
  rw [update_shows h, shows_complete_iff, hcomplete]
  refine ⟨Iff.rfl, ?_⟩
  constructor
  · rintro ⟨hfields, hdefined⟩ t ht
    exact ⟨hfields t ht, (defined_shownBall_iff.mp (hdefined _ (List.mem_map_of_mem ht))).2⟩
  · intro hall
    refine ⟨fun t ht => (hall t ht).1, ?_⟩
    intro s hs
    obtain ⟨t, ht, rfl⟩ := List.mem_map.mp hs
    exact defined_shownBall_iff.mpr ⟨complete_iff.mpr (hall t ht).1, (hall t ht).2⟩

/-- The first text a client reads. -/
theorem first_update (str : List Char) (hstr : (str.length : Int) ≤ 2147483647)
    (width height : Int) : ∃ m', updateBallListFromSerialized ballManagerInit str width height
      ⟨true, some⟩ = .ok m' ∧ m'.toList = (tokens '|' str).map (shownBall width height) := by
  have halloc : ∀ i, (⟨true, some⟩ : UpdateEnv).alloc i ≠ none := fun i => Option.some_ne_none i
  obtain ⟨m', hm', hholds⟩ :=
    updateBallListFromSerialized_shows holds_init.counted hstr rfl halloc
  exact ⟨m', hm', hholds.toList_eq⟩

/-- A ball at the origin. -/
theorem shown_balls_decoded_iff_origin :
    ∃ m', updateBallListFromSerialized ballManagerInit "0,0,0,0,0,0,0,0,0".toList 800 480
        ⟨true, some⟩ = .ok m' ∧
      m'.toList.length = 1 ∧ ∀ s ∈ m'.toList, s.Defined := by
  have htoken : tokens '|' "0,0,0,0,0,0,0,0,0".toList = ["0,0,0,0,0,0,0,0,0".toList] :=
    tokens_of_not_mem (by decide) (by decide)
  obtain ⟨m', hm', hlist⟩ := first_update "0,0,0,0,0,0,0,0,0".toList (by decide) 800 480
  have hscreen : OnScreen 800 480 "0,0,0,0,0,0,0,0,0".toList :=
    ⟨by decide +kernel, by decide +kernel, by decide +kernel⟩
  have hall : ∀ t ∈ shownTokens ⟨true, some⟩ "0,0,0,0,0,0,0,0,0".toList,
      Fields ',' ballFields t ∧ OnScreen 800 480 t := by
    rw [shownTokens_eq rfl fun i => Option.some_ne_none i, htoken]
    exact List.forall_mem_singleton.mpr ⟨complete_iff.mp (by decide +kernel), hscreen⟩
  refine ⟨m', hm', ?_, ((shown_balls_decoded_iff hm').2.mpr hall).2⟩
  rw [hlist, htoken]
  rfl

/-- The reply to `a:1` is shown as a ball without an id. -/
theorem reply_shown :
    ¬ ∀ (m m' : BallListManager) (str : List Char) (width height : Int) (env : UpdateEnv),
      updateBallListFromSerialized m str width height env = .ok m' →
      m'.toList =
        ((shownTokens env str).filter fun t => Complete t).map (shownBall width height) := by
  intro hall
  obtain ⟨m', hm', hlist⟩ := first_update "OK a : 1\n".toList (by decide) 800 480
  have hcomplete := hall _ _ _ _ _ _ hm'
  rw [hlist, shownTokens_eq rfl fun i => Option.some_ne_none i, shows_complete_iff] at hcomplete
  have htoken : "OK a : 1\n".toList ∈ tokens '|' "OK a : 1\n".toList := by decide +kernel
  exact absurd (hcomplete _ htoken) (by decide +kernel)

end BallGame.Client
