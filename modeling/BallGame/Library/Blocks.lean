import Mathlib.Data.List.Basic

/-!
# Cutting a list into blocks

A block starts with a marked element and has no other one. A list that is a row of blocks is
cut into pieces with a marked first element, as many as there are blocks, in one way only.
-/

namespace BallGame.Library

variable {α : Type} {p : α → Bool}

/-- The first element is marked. -/
def StartsMarked (p : α → Bool) (xs : List α) : Prop := ∃ a ∈ xs.head?, p a = true

/-- Only the first element is marked. -/
def IsBlock (p : α → Bool) (xs : List α) : Prop :=
  StartsMarked p xs ∧ ∀ a ∈ xs.tail, p a = false

theorem StartsMarked.eq_cons {xs : List α} (h : StartsMarked p xs) :
    ∃ a ys, xs = a :: ys ∧ p a = true := by
  obtain ⟨a, ha, hp⟩ := h
  cases xs with
  | nil => cases ha
  | cons b ys =>
    cases ha
    exact ⟨_, _, rfl, hp⟩

theorem IsBlock.countP {xs : List α} (h : IsBlock p xs) : xs.countP p = 1 := by
  obtain ⟨a, ys, rfl, ha⟩ := h.1.eq_cons
  have hys : ys.countP p = 0 := List.countP_eq_zero.mpr fun b hb => by simp [h.2 b hb]
  rw [List.countP_cons, hys, if_pos ha]

/-- Every piece that starts with a marked element accounts for one. -/
theorem length_le_countP_flatten {xss : List (List α)} (h : ∀ xs ∈ xss, StartsMarked p xs) :
    xss.length ≤ xss.flatten.countP p := by
  induction xss with
  | nil => simp
  | cons xs xss ih =>
    obtain ⟨a, ys, rfl, ha⟩ := (h xs List.mem_cons_self).eq_cons
    have hrest := ih fun zs hzs => h zs (List.mem_cons_of_mem _ hzs)
    rw [List.flatten_cons, List.countP_append, List.countP_cons, if_pos ha, List.length_cons]
    omega

theorem countP_flatten_blocks {xss : List (List α)} (h : ∀ xs ∈ xss, IsBlock p xs) :
    xss.flatten.countP p = xss.length := by
  induction xss with
  | nil => rfl
  | cons xs xss ih =>
    rw [List.flatten_cons, List.countP_append, (h xs List.mem_cons_self).countP,
      ih fun zs hzs => h zs (List.mem_cons_of_mem _ hzs), List.length_cons, Nat.add_comm]

/-- Pieces with marked first elements, of which there are no more than pieces, are blocks. -/
theorem isBlock_of_countP {xss : List (List α)} (h : ∀ xs ∈ xss, StartsMarked p xs)
    (hcount : xss.flatten.countP p ≤ xss.length) : ∀ xs ∈ xss, IsBlock p xs := by
  induction xss with
  | nil => simp
  | cons xs xss ih =>
    have hxs := h xs List.mem_cons_self
    have htail : ∀ zs ∈ xss, StartsMarked p zs := fun zs hzs => h zs (List.mem_cons_of_mem _ hzs)
    obtain ⟨a, ys, rfl, ha⟩ := hxs.eq_cons
    have hrest := length_le_countP_flatten htail
    rw [List.flatten_cons, List.countP_append, List.countP_cons, if_pos ha,
      List.length_cons] at hcount
    intro zs hzs
    rcases List.mem_cons.mp hzs with rfl | hzs
    · have hys : ys.countP p = 0 := by omega
      refine ⟨hxs, ?_⟩
      intro b hb
      simpa using List.countP_eq_zero.mp hys b hb
    · exact ih htail (by omega) zs hzs

/-- The end of a block is the next marked element, or the end of the list. -/
theorem block_eq_takeWhile {ys : List α} (hys : ∀ b ∈ ys, p b = false)
    {xss : List (List α)} (hxss : ∀ xs ∈ xss, StartsMarked p xs) :
    (ys ++ xss.flatten).takeWhile (fun b => !p b) = ys := by
  rw [List.takeWhile_append_of_pos fun b hb => by simp [hys b hb]]
  cases xss with
  | nil => simp
  | cons xs xss =>
    obtain ⟨b, zs, rfl, hb⟩ := (hxss xs List.mem_cons_self).eq_cons
    simp [hb]

theorem blocks_unique {xss yss : List (List α)} (hx : ∀ xs ∈ xss, IsBlock p xs)
    (hy : ∀ ys ∈ yss, IsBlock p ys) (h : yss.flatten = xss.flatten) : yss = xss := by
  induction xss generalizing yss with
  | nil =>
    cases yss with
    | nil => rfl
    | cons ys yss =>
      obtain ⟨a, zs, rfl, _⟩ := (hy ys List.mem_cons_self).1.eq_cons
      simp at h
  | cons xs xss ih =>
    obtain ⟨a, us, rfl, ha⟩ := (hx xs List.mem_cons_self).1.eq_cons
    cases yss with
    | nil => simp at h
    | cons ys yss =>
      obtain ⟨b, vs, rfl, hb⟩ := (hy ys List.mem_cons_self).1.eq_cons
      simp only [List.flatten_cons, List.cons_append, List.cons.injEq] at h
      obtain ⟨rfl, h⟩ := h
      have hxt : ∀ zs ∈ xss, IsBlock p zs := fun zs hzs => hx zs (List.mem_cons_of_mem _ hzs)
      have hyt : ∀ zs ∈ yss, IsBlock p zs := fun zs hzs => hy zs (List.mem_cons_of_mem _ hzs)
      have hus := block_eq_takeWhile (hx _ List.mem_cons_self).2 fun zs hzs => (hxt zs hzs).1
      have hvs := block_eq_takeWhile (hy _ List.mem_cons_self).2 fun zs hzs => (hyt zs hzs).1
      simp only [List.tail_cons] at hus hvs
      obtain rfl : vs = us := by rw [← hvs, h, hus]
      rw [ih hxt hyt (List.append_cancel_left h)]

/-- Pieces with marked first elements, as many as there are blocks, are the blocks. -/
theorem pieces_eq_blocks {xss yss : List (List α)} (hx : ∀ xs ∈ xss, IsBlock p xs)
    (hy : ∀ ys ∈ yss, StartsMarked p ys) (hlen : yss.length = xss.length)
    (h : yss.flatten = xss.flatten) : yss = xss := by
  have hcount : yss.flatten.countP p = yss.length := by
    rw [hlen, ← countP_flatten_blocks hx, h]
  exact blocks_unique hx (isBlock_of_countP hy (Nat.le_of_eq hcount)) h

end BallGame.Library
