import BallGame.Shared.Framebuffer
import BallGame.Shared.Glyphs

/-!
# Text

`fb_printStr` moves a cursor by two cell widths for every character, and to the next line where
the next cell would leave the screen. A tab is a loop of four such moves that starts over
whenever it wraps, with the counter at zero before it is incremented.

* `cells_disjoint`: the characters of a text without tabs do not overlap;
* `printStr_terminates_iff`: a text with a tab is printed only if three moves and a cell fit
  behind the column in which it begins;
* `printStr_diverges`: a tab that wraps forever.
-/

namespace BallGame.Shared

open Library

/-! ## The cursor -/

/-- `cursor->y+=3*height/2` and `cursor->x=lnStart`. -/
def newLine (height lnStart : Int) (cursor : Pixel) : Pixel :=
  ⟨lnStart, cursor.y + (3 * height).tdiv 2⟩

/-- `cursor->x+=c_offset`. -/
def forward (height : Int) (cursor : Pixel) : Pixel :=
  { cursor with x := cursor.x + 2 * cellWidth height }

/-- The cell at the cursor leaves the screen. -/
def Overflows (xres height : Int) (cursor : Pixel) : Prop :=
  cursor.x + cellWidth height > xres

instance (xres height : Int) (cursor : Pixel) : Decidable (Overflows xres height cursor) :=
  Int.decLt _ _

/-- The cursor behind a character. -/
def advance (xres height lnStart : Int) (cursor : Pixel) : Pixel :=
  if Overflows xres height (forward height cursor) then
    newLine height lnStart (forward height cursor)
  else forward height cursor

/-- The loop of a tab, with what it has drawn and the cursor behind it, if it looks at its
condition at most `fuel` times. -/
def tabLoop (xres height lnStart : Int) : Nat → Int → Pixel → Option (List Pixel × Pixel)
  | 0, _, _ => none
  | fuel + 1, j, cursor =>
    if j < 4 then
      let pixels := drawChar ' ' cursor height
      -- `j=0` and then `j++`
      let rest :=
        if Overflows xres height (forward height cursor) then
          tabLoop xres height lnStart fuel 1 (newLine height lnStart (forward height cursor))
        else tabLoop xres height lnStart fuel (j + 1) (forward height cursor)
      rest.map fun r => (pixels ++ r.1, r.2)
    else some ([], cursor)

/-- One run of the body of the loop over the characters. -/
def printChar (fuel : Nat) (xres height lnStart : Int) (c : Char) (cursor : Pixel) :
    Option (List Pixel × Pixel) :=
  if c = '\n' then some ([], newLine height lnStart cursor)
  else if c = '\t' then tabLoop xres height lnStart fuel 0 cursor
  else some (drawChar c cursor height, advance xres height lnStart cursor)

/-- The loop over the characters: what is drawn for each of them, and the cursor behind all. -/
def printLoop (fuel : Nat) (xres height lnStart : Int) :
    List Char → Pixel → Option (List (List Pixel) × Pixel)
  | [], cursor => some ([], cursor)
  | c :: str, cursor =>
    (printChar fuel xres height lnStart c cursor).bind fun drawn =>
      (printLoop fuel xres height lnStart str drawn.2).map fun rest =>
        (drawn.1 :: rest.1, rest.2)

/-- `fb_printStr`, if every loop of a tab looks at its condition at most `fuel` times. -/
def printStr (fuel : Nat) (xres : Int) (str : List Char) (cursor : Pixel) (height : Int) :
    Option (List (List Pixel) × Pixel) :=
  printLoop fuel xres height cursor.x str cursor

/-! ## Cells -/

/-- A cursor at a later position, at least a cell to the right or a line below. -/
def Later (height : Int) (cursor cursor' : Pixel) : Prop :=
  cursor'.y = cursor.y ∧ cursor.x + 2 * cellWidth height ≤ cursor'.x ∨
    cursor.y + (3 * height).tdiv 2 ≤ cursor'.y

theorem lineHeight {height : Int} (hh : 3 ≤ height) : height < (3 * height).tdiv 2 := by
  rw [Int.tdiv_eq_ediv_of_nonneg (by omega)]
  omega

theorem later_newLine (height lnStart : Int) (cursor : Pixel) :
    Later height cursor (newLine height lnStart cursor) :=
  Or.inr le_rfl

theorem later_advance (xres height lnStart : Int) (cursor : Pixel) :
    Later height cursor (advance xres height lnStart cursor) := by
  unfold advance
  split
  · exact Or.inr le_rfl
  · exact Or.inl ⟨rfl, le_rfl⟩

theorem Later.trans {height : Int} (hh : 3 ≤ height) {a b c : Pixel} (hab : Later height a b)
    (hbc : Later height b c) : Later height a c := by
  have hline := lineHeight hh
  have hwidth := cellWidth_bounds hh
  unfold Later at *
  omega

/-- The cells at a cursor and at a later one do not meet. -/
theorem Later.disjoint {height : Int} (hh : 3 ≤ height) {a b : Pixel} (h : Later height a b)
    {r : Pixel} (ha : a.InCell height r) : ¬ b.InCell height r := by
  intro hb
  have hline := lineHeight hh
  have hwidth := cellWidth_bounds hh
  have hax := ha.x
  have hay := ha.y
  have hbx := hb.x
  have hby := hb.y
  rcases h with ⟨hy, hx⟩ | hy
  · omega
  · omega

/-- One character without a tab: it is drawn in its cell, and the cursor goes on. -/
theorem printChar_cell (fuel : Nat) (xres lnStart : Int) {height : Int} (hh : 3 ≤ height)
    {c : Char} (hc : c ≠ '\t') (cursor : Pixel) :
    ∃ pixels cursor', printChar fuel xres height lnStart c cursor = some (pixels, cursor') ∧
      (∀ r ∈ pixels, cursor.InCell height r) ∧ Later height cursor cursor' := by
  unfold printChar
  by_cases hn : c = '\n'
  · rw [if_pos hn]
    exact ⟨[], _, rfl, List.forall_mem_nil _, later_newLine height lnStart cursor⟩
  · rw [if_neg hn, if_neg hc]
    exact ⟨_, _, rfl, drawChar_inCell hh c cursor, later_advance xres height lnStart cursor⟩

/-- What is drawn for a text without tabs lies in cells at the cursor and at later ones, and the
cells of different characters are disjoint. -/
theorem printLoop_cells (fuel : Nat) (xres lnStart : Int) {height : Int} (hh : 3 ≤ height)
    {str : List Char} (hstr : '\t' ∉ str) (cursor : Pixel) :
    ∃ out cursor', printLoop fuel xres height lnStart str cursor = some (out, cursor') ∧
      out.length = str.length ∧
      (∀ pixels ∈ out, ∃ cell, (cell = cursor ∨ Later height cursor cell) ∧
        ∀ r ∈ pixels, cell.InCell height r) ∧ out.Pairwise List.Disjoint := by
  induction str generalizing cursor with
  | nil => exact ⟨[], cursor, rfl, rfl, List.forall_mem_nil _, List.Pairwise.nil⟩
  | cons c str ih =>
    have hc := List.ne_of_not_mem_cons hstr
    have hrest := List.not_mem_of_not_mem_cons hstr
    obtain ⟨pixels, cursor₁, hchar, hcell, hlater⟩ :=
      printChar_cell fuel xres lnStart hh (Ne.symm hc) cursor
    obtain ⟨out, cursor₂, hloop, hlen, hcells, hdisjoint⟩ := ih hrest cursor₁
    have hafter : ∀ pixels' ∈ out, ∃ cell, Later height cursor cell ∧
        ∀ r ∈ pixels', cell.InCell height r := by
      intro pixels' hmem
      obtain ⟨cell, rfl | hcell', hin⟩ := hcells pixels' hmem
      · exact ⟨cell, hlater, hin⟩
      · exact ⟨cell, hlater.trans hh hcell', hin⟩
    refine ⟨pixels :: out, cursor₂, by simp [printLoop, hchar, hloop], by simp [hlen], ?_, ?_⟩
    · rw [List.forall_mem_cons]
      refine ⟨⟨cursor, Or.inl rfl, hcell⟩, ?_⟩
      intro pixels' hmem
      obtain ⟨cell, hcell', hin⟩ := hafter pixels' hmem
      exact ⟨cell, Or.inr hcell', hin⟩
    · rw [List.pairwise_cons]
      refine ⟨?_, hdisjoint⟩
      intro pixels' hmem r hr hr'
      obtain ⟨cell, hcell', hin⟩ := hafter pixels' hmem
      exact hcell'.disjoint hh (hcell r hr) (hin r hr')

/-- A character is drawn inside the mapping where everything is. -/
theorem Inside.char {fb : DevFb} (hin : Inside fb) {h : Int} (hh : 3 ≤ h) (c : Char)
    {start : Pixel} (hlow : IsInt start.x ∧ IsInt start.y)
    (hhigh : IsInt (start.x + cellWidth h) ∧ IsInt (start.y + h)) (r g b : BitVec 8) :
    ∀ s ∈ drawPixels fb (drawChar c start h) r g b, s.Inside fb := by
  apply hin.routine
  intro p hp
  obtain ⟨hx, hy⟩ := drawChar_inCell hh c start p hp
  unfold IsInt at *
  omega

/-- **Cells.** Every glyph is drawn in its cell, and the characters of a text without tabs are
drawn on disjoint pixels, whatever the screen and the cursor are. -/
theorem cells_disjoint {h : Int} (hh : 3 ≤ h) :
    (∀ (c : Char) (start : Pixel), ∀ r ∈ drawChar c start h,
      start.x ≤ r.x ∧ r.x ≤ start.x + cellWidth h ∧ start.y ≤ r.y ∧ r.y ≤ start.y + h) ∧
      ∀ (str : List Char), '\t' ∉ str → ∀ (fuel : Nat) (xres : Int) (cursor : Pixel),
        ∃ out cursor', printStr fuel xres str cursor h = some (out, cursor') ∧
          out.length = str.length ∧ out.Pairwise List.Disjoint := by
  constructor
  · intro c start r hr
    obtain ⟨⟨hleft, hright⟩, htop, hbottom⟩ := drawChar_inCell hh c start r hr
    exact ⟨hleft, hright, htop, hbottom⟩
  · intro str hstr fuel xres cursor
    obtain ⟨out, cursor', hloop, hlen, _, hdisjoint⟩ :=
      printLoop_cells fuel xres cursor.x hh hstr cursor
    exact ⟨out, cursor', hloop, hlen, hdisjoint⟩

/-- Two lines at the smallest height. -/
theorem cells_disjoint_smallest :
    ∃ out cursor', printStr 0 20 ['o', 'k', '\n', '!', '!'] ⟨3, 5⟩ 3 = some (out, cursor') ∧
      out.length = 5 ∧ out.Pairwise List.Disjoint :=
  (cells_disjoint (by decide)).2 ['o', 'k', '\n', '!', '!'] (by decide) 0 20 ⟨3, 5⟩

/-! ## Tabs -/

section

variable {xres height lnStart : Int}

/-- A tab that was finished is finished with more fuel too. -/
theorem tabLoop_mono {fuel : Nat} {j : Int} {cursor : Pixel}
    {r : List Pixel × Pixel} (h : tabLoop xres height lnStart fuel j cursor = some r)
    {fuel' : Nat} (hle : fuel ≤ fuel') : tabLoop xres height lnStart fuel' j cursor = some r := by
  induction fuel generalizing fuel' j cursor r with
  | zero => cases h
  | succ fuel ih =>
    obtain ⟨fuel', rfl⟩ := Nat.exists_eq_add_of_lt (Nat.lt_of_succ_le hle)
    rw [tabLoop] at h ⊢
    split at h
    · rename_i hj
      rw [if_pos hj]
      obtain ⟨r', hr', rfl⟩ := Option.map_eq_some_iff.mp h
      split at hr'
      · rename_i hover
        rw [if_pos hover, ih hr' (by omega)]
        rfl
      · rename_i hover
        rw [if_neg hover, ih hr' (by omega)]
        rfl
    · rename_i hj
      rw [if_neg hj]
      exact h

/-- The loop comes to its end. -/
def TabFinishes (xres height lnStart j : Int) (cursor : Pixel) : Prop :=
  ∃ fuel r, tabLoop xres height lnStart fuel j cursor = some r

theorem tabFinishes_end {j : Int} (hj : ¬ j < 4) (cursor : Pixel) :
    TabFinishes xres height lnStart j cursor :=
  ⟨1, _, by rw [tabLoop, if_neg hj]⟩

/-- A move that wraps. -/
theorem tabFinishes_wrap {j : Int} (hj : j < 4) {cursor : Pixel}
    (hover : Overflows xres height (forward height cursor))
    (h : TabFinishes xres height lnStart 1 (newLine height lnStart (forward height cursor))) :
    TabFinishes xres height lnStart j cursor := by
  obtain ⟨fuel, r, hr⟩ := h
  exact ⟨fuel + 1, _, by rw [tabLoop, if_pos hj, if_pos hover, hr, Option.map_some]⟩

/-- A move that does not wrap. -/
theorem tabFinishes_forward {j : Int} (hj : j < 4) {cursor : Pixel}
    (hover : ¬ Overflows xres height (forward height cursor))
    (h : TabFinishes xres height lnStart (j + 1) (forward height cursor)) :
    TabFinishes xres height lnStart j cursor := by
  obtain ⟨fuel, r, hr⟩ := h
  exact ⟨fuel + 1, _, by rw [tabLoop, if_pos hj, if_neg hover, hr, Option.map_some]⟩

/-- A column from which the rest of the moves can be made without wrapping. -/
def Roomy (xres height j x : Int) : Prop :=
  x + (4 - j) * (2 * cellWidth height) + cellWidth height ≤ xres

theorem roomy_succ {j x : Int} :
    Roomy xres height (j + 1) (x + 2 * cellWidth height) ↔ Roomy xres height j x := by
  have hmoves : (4 - j) * (2 * cellWidth height) =
      (4 - (j + 1)) * (2 * cellWidth height) + 2 * cellWidth height := by ring
  unfold Roomy
  omega

/-- With room for the rest of the moves the loop does not wrap any more. -/
theorem tabFinishes_of_roomy (hw : 0 < cellWidth height) (n : Nat) {j : Int} (hj : j + n = 4)
    {cursor : Pixel} (hroom : Roomy xres height j cursor.x) :
    TabFinishes xres height lnStart j cursor := by
  induction n generalizing j cursor with
  | zero => exact tabFinishes_end (by omega) cursor
  | succ n ih =>
    have hnext : Roomy xres height (j + 1) (forward height cursor).x := roomy_succ.mpr hroom
    have hmoves : 0 ≤ (4 - (j + 1)) * (2 * cellWidth height) :=
      mul_nonneg (by omega) (by omega)
    have hover : ¬ Overflows xres height (forward height cursor) := by
      unfold Overflows Roomy at *
      omega
    exact tabFinishes_forward (by omega) hover (ih (by omega) hnext)

/-- With room behind the column in which lines begin, the loop ends wherever it is. -/
theorem tabFinishes_of_start (hw : 0 < cellWidth height) (hroom : Roomy xres height 1 lnStart)
    (n : Nat) {j : Int} (hj : j + n = 4) (cursor : Pixel) :
    TabFinishes xres height lnStart j cursor := by
  induction n generalizing j cursor with
  | zero => exact tabFinishes_end (by omega) cursor
  | succ n ih =>
    by_cases hover : Overflows xres height (forward height cursor)
    · exact tabFinishes_wrap (by omega) hover (tabFinishes_of_roomy hw 3 (by decide) hroom)
    · exact tabFinishes_forward (by omega) hover (ih (by omega) _)

/-- Without it, a loop that has no room for its moves wraps again and again. -/
theorem tabLoop_none (hroom : ¬ Roomy xres height 1 lnStart) (fuel : Nat) {j : Int} (hj : j < 4)
    {cursor : Pixel} (h : ¬ Roomy xres height j cursor.x) :
    tabLoop xres height lnStart fuel j cursor = none := by
  induction fuel generalizing j cursor with
  | zero => rfl
  | succ fuel ih =>
    rw [tabLoop, if_pos hj]
    dsimp only
    by_cases hover : Overflows xres height (forward height cursor)
    · rw [if_pos hover, ih (by decide) hroom, Option.map_none]
    · have hnext : ¬ Roomy xres height (j + 1) (forward height cursor).x :=
        fun hr => h (roomy_succ.mp hr)
      have hj' : j + 1 < 4 := by
        by_contra hge
        obtain rfl : j = 3 := by omega
        unfold Overflows Roomy at *
        omega
      rw [if_neg hover, ih hj' hnext, Option.map_none]

end

/-! ## Texts with tabs -/

/-- The loops over the characters and over the moves of every tab come to their end. -/
def Terminates (xres : Int) (str : List Char) (cursor : Pixel) (height : Int) : Prop :=
  ∃ fuel r, printStr fuel xres str cursor height = some r

theorem printChar_mono {fuel fuel' : Nat} (hle : fuel ≤ fuel') {xres height lnStart : Int}
    {c : Char} {cursor : Pixel} {drawn : List Pixel × Pixel}
    (h : printChar fuel xres height lnStart c cursor = some drawn) :
    printChar fuel' xres height lnStart c cursor = some drawn := by
  unfold printChar at *
  by_cases hn : c = '\n'
  · rw [if_pos hn] at h ⊢
    exact h
  · rw [if_neg hn] at h ⊢
    by_cases ht : c = '\t'
    · rw [if_pos ht] at h ⊢
      exact tabLoop_mono h hle
    · rw [if_neg ht] at h ⊢
      exact h

theorem printLoop_mono {fuel fuel' : Nat} (hle : fuel ≤ fuel') {xres height lnStart : Int}
    {str : List Char} {cursor : Pixel} {r : List (List Pixel) × Pixel}
    (h : printLoop fuel xres height lnStart str cursor = some r) :
    printLoop fuel' xres height lnStart str cursor = some r := by
  induction str generalizing cursor r with
  | nil => exact h
  | cons c str ih =>
    obtain ⟨drawn, hchar, hrest⟩ := Option.bind_eq_some_iff.mp h
    obtain ⟨rest, hloop, rfl⟩ := Option.map_eq_some_iff.mp hrest
    rw [printLoop, printChar_mono hle hchar, Option.bind_some, ih hloop]
    rfl

/-- With room behind the column in which lines begin, every text is printed. -/
theorem printLoop_finishes {xres height lnStart : Int} (hw : 0 < cellWidth height)
    (hroom : Roomy xres height 1 lnStart) (str : List Char) (cursor : Pixel) :
    ∃ fuel r, printLoop fuel xres height lnStart str cursor = some r := by
  induction str generalizing cursor with
  | nil => exact ⟨0, _, rfl⟩
  | cons c str ih =>
    have hchar : ∃ fuel drawn, printChar fuel xres height lnStart c cursor = some drawn := by
      unfold printChar
      split
      · exact ⟨0, _, rfl⟩
      · split
        · exact tabFinishes_of_start hw hroom 4 (by decide) cursor
        · exact ⟨0, _, rfl⟩
    obtain ⟨fuel, drawn, hchar⟩ := hchar
    obtain ⟨fuel', rest, hrest⟩ := ih drawn.2
    refine ⟨max fuel fuel', (drawn.1 :: rest.1, rest.2), ?_⟩
    rw [printLoop, printChar_mono (le_max_left fuel fuel') hchar, Option.bind_some,
      printLoop_mono (le_max_right fuel fuel') hrest]
    rfl

/-- The cursor does not go to the left of the column in which lines begin. -/
theorem lnStart_le_advance {xres height lnStart : Int} (hw : 0 < cellWidth height)
    {cursor : Pixel} (hx : lnStart ≤ cursor.x) :
    lnStart ≤ (advance xres height lnStart cursor).x := by
  unfold advance
  split
  · exact le_rfl
  · simp only [forward]
    omega

/-- Without room, a text is not printed to the end if there is a tab in it. -/
theorem printLoop_none {fuel : Nat} {xres height lnStart : Int} (hw : 0 < cellWidth height)
    (hroom : ¬ Roomy xres height 1 lnStart) {str : List Char} (htab : '\t' ∈ str)
    {cursor : Pixel} (hx : lnStart ≤ cursor.x) :
    printLoop fuel xres height lnStart str cursor = none := by
  induction str generalizing cursor with
  | nil => cases htab
  | cons c str ih =>
    rw [printLoop, printChar]
    by_cases hn : c = '\n'
    · have hmem : '\t' ∈ str := List.mem_of_ne_of_mem (by rw [hn]; decide) htab
      rw [if_pos hn, Option.bind_some, ih hmem le_rfl]
      rfl
    by_cases ht : c = '\t'
    · have hfirst : ¬ Roomy xres height 0 cursor.x := by
        unfold Roomy at *
        omega
      rw [if_neg hn, if_pos ht, tabLoop_none hroom fuel (by decide) hfirst]
      rfl
    · have hmem : '\t' ∈ str := List.mem_of_ne_of_mem (Ne.symm ht) htab
      rw [if_neg hn, if_neg ht, Option.bind_some, ih hmem (lnStart_le_advance hw hx)]
      rfl

/-- **Termination.** A text is printed to its end if there is no tab in it, or if three moves and
a cell fit behind the column in which it begins, and only then. -/
theorem printStr_terminates_iff {height : Int} (hh : 3 ≤ height) (xres : Int) (str : List Char)
    (cursor : Pixel) :
    Terminates xres str cursor height ↔
      '\t' ∉ str ∨ cursor.x + 3 * (2 * cellWidth height) + cellWidth height ≤ xres := by
  have hw : 0 < cellWidth height := by
    have := cellWidth_bounds hh
    omega
  have hroom : Roomy xres height 1 cursor.x ↔
      cursor.x + 3 * (2 * cellWidth height) + cellWidth height ≤ xres := Iff.rfl
  rw [← hroom]
  constructor
  · rintro ⟨fuel, r, hr⟩
    by_contra hnot
    obtain ⟨htab, hnoroom⟩ := not_or.mp hnot
    rw [printStr, printLoop_none hw hnoroom (not_not.mp htab) le_rfl] at hr
    cases hr
  · rintro (htab | hroomy)
    · obtain ⟨out, cursor', hloop, _⟩ := printLoop_cells 0 xres cursor.x hh htab cursor
      exact ⟨0, _, hloop⟩
    · exact printLoop_finishes hw hroomy str cursor

/-- A tab and a letter on a screen of full width. -/
theorem printStr_terminates_wide : Terminates 1920 ['\t', 'a'] ⟨0, 0⟩ 24 :=
  (printStr_terminates_iff (by decide) 1920 ['\t', 'a'] ⟨0, 0⟩).mpr (Or.inr (by decide))

/-- A tab at the right edge wraps forever. -/
theorem printStr_diverges :
    ¬ ∀ (str : List Char) (height xres : Int) (cursor : Pixel), 3 ≤ height → 1 ≤ xres →
      0 ≤ cursor.x → cursor.x < xres → Terminates xres str cursor height := by
  intro hall
  obtain ⟨fuel, r, hr⟩ := hall ['\t'] 24 1920 ⟨1900, 0⟩ (by decide) (by decide) (by decide)
    (by decide)
  have hnone : printStr fuel 1920 ['\t'] ⟨1900, 0⟩ 24 = none :=
    printLoop_none (by decide) (by unfold Roomy; decide) (by decide) le_rfl
  rw [hnone] at hr
  cases hr

end BallGame.Shared
