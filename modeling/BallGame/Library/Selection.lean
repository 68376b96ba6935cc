import Mathlib.Data.List.DropRight
import Mathlib.Data.List.Induction

/-!
# Removing the last matching elements

`eraseLast p n xs` is `xs` without the last `n` of its elements that satisfy `p`. It leaves
the other elements and their order alone, and takes the last `n` off the matching ones. A
window of size `n` that is pushed through a list holds its last `n` elements.
-/

namespace BallGame.Library

variable {α β : Type}

/-! ## Removal -/

/-- Remove the first `n` elements that satisfy `p`. -/
def eraseFirst (p : α → Bool) : Nat → List α → List α
  | 0, xs => xs
  | _ + 1, [] => []
  | n + 1, x :: xs => if p x then eraseFirst p n xs else x :: eraseFirst p (n + 1) xs

/-- Remove the last `n` elements that satisfy `p`. -/
def eraseLast (p : α → Bool) (n : Nat) (xs : List α) : List α :=
  (eraseFirst p n xs.reverse).reverse

@[simp] theorem eraseFirst_nil (p : α → Bool) (n : Nat) : eraseFirst p n [] = [] := by
  cases n <;> rfl

@[simp] theorem eraseLast_zero (p : α → Bool) (xs : List α) : eraseLast p 0 xs = xs := by
  simp [eraseLast, eraseFirst]

@[simp] theorem eraseLast_nil (p : α → Bool) (n : Nat) : eraseLast p n [] = [] := by
  simp [eraseLast]

/-- The recursion of the removal from the end of the list. -/
theorem eraseLast_concat_of_pos {p : α → Bool} {x : α} (hx : p x = true) (n : Nat)
    (xs : List α) : eraseLast p (n + 1) (xs ++ [x]) = eraseLast p n xs := by
  simp [eraseLast, eraseFirst, hx]

theorem eraseLast_concat_of_neg {p : α → Bool} {x : α} (hx : p x = false) (n : Nat)
    (xs : List α) : eraseLast p n (xs ++ [x]) = eraseLast p n xs ++ [x] := by
  cases n with
  | zero => simp
  | succ n => simp [eraseLast, eraseFirst, hx]

theorem eraseLast_sublist (p : α → Bool) (n : Nat) (xs : List α) :
    (eraseLast p n xs).Sublist xs := by
  induction xs using List.reverseRecOn generalizing n with
  | nil => simp
  | append_singleton xs x ih =>
    cases n with
    | zero => simp
    | succ n =>
      cases hx : p x with
      | true =>
        rw [eraseLast_concat_of_pos hx]
        exact (ih n).trans (List.sublist_append_left _ _)
      | false =>
        rw [eraseLast_concat_of_neg hx]
        exact (ih (n + 1)).append_right [x]

/-- Selecting elements that the removal does not match gives what it gave before. -/
theorem filter_eraseP_of_disjoint {p q : α → Bool} {xs : List α}
    (hpq : ∀ x ∈ xs, p x = true → q x = false) : (xs.eraseP p).filter q = xs.filter q := by
  induction xs with
  | nil => rfl
  | cons x xs ih =>
    have hrest := ih fun y hy => hpq y (List.mem_cons_of_mem x hy)
    cases hx : p x with
    | true =>
      have hq := hpq x (List.mem_cons_self ..) hx
      rw [List.eraseP_cons_of_pos hx, List.filter_cons_of_neg (by simp [hq])]
    | false =>
      rw [List.eraseP_cons_of_neg (by simp [hx]), List.filter_cons, List.filter_cons, hrest]

theorem filter_eraseLast_of_disjoint {p q : α → Bool} (hpq : ∀ x, p x = true → q x = false)
    (n : Nat) (xs : List α) : (eraseLast p n xs).filter q = xs.filter q := by
  induction xs using List.reverseRecOn generalizing n with
  | nil => simp
  | append_singleton xs x ih =>
    cases n with
    | zero => simp
    | succ n =>
      cases hx : p x with
      | true =>
        rw [eraseLast_concat_of_pos hx, ih, List.filter_append]
        simp [hpq x hx]
      | false => rw [eraseLast_concat_of_neg hx, List.filter_append, ih, List.filter_append]

/-- The removal takes the last `n` elements off the matching ones. -/
theorem filter_eraseLast (p : α → Bool) (n : Nat) (xs : List α) :
    (eraseLast p n xs).filter p = eraseLast p n (xs.filter p) := by
  induction xs using List.reverseRecOn generalizing n with
  | nil => simp
  | append_singleton xs x ih =>
    cases n with
    | zero => simp
    | succ n =>
      cases hx : p x with
      | true =>
        rw [eraseLast_concat_of_pos hx, ih, List.filter_append]
        simp only [List.filter_cons, hx, if_true, List.filter_nil]
        rw [eraseLast_concat_of_pos hx]
      | false =>
        rw [eraseLast_concat_of_neg hx, List.filter_append, ih, List.filter_append]
        simp [hx]

theorem countP_eraseLast (p : α → Bool) (n : Nat) (xs : List α) :
    (eraseLast p n xs).countP p = xs.countP p - n := by
  induction xs using List.reverseRecOn generalizing n with
  | nil => simp
  | append_singleton xs x ih =>
    cases n with
    | zero => simp
    | succ n =>
      cases hx : p x with
      | true =>
        rw [eraseLast_concat_of_pos hx, ih, List.countP_append, List.countP_singleton, hx]
        simp only [if_true]
        omega
      | false =>
        rw [eraseLast_concat_of_neg hx, List.countP_append, ih, List.countP_append,
          List.countP_singleton, hx]
        rfl

/-- The removal does not look at what a map leaves out. -/
theorem map_eraseLast (f : α → β) {p : α → Bool} {q : β → Bool} (hpq : ∀ x, q (f x) = p x)
    (n : Nat) (xs : List α) : (eraseLast p n xs).map f = eraseLast q n (xs.map f) := by
  induction xs using List.reverseRecOn generalizing n with
  | nil => simp
  | append_singleton xs x ih =>
    rw [List.map_append, List.map_singleton]
    cases n with
    | zero => simp
    | succ n =>
      cases hx : p x with
      | true => rw [eraseLast_concat_of_pos hx, ih, eraseLast_concat_of_pos (by rw [hpq, hx])]
      | false =>
        rw [eraseLast_concat_of_neg hx, List.map_append, ih,
          eraseLast_concat_of_neg (by rw [hpq, hx])]
        rfl

/-- What is removed, if a key tells the elements apart: the last `n` of the matching ones. -/
theorem eraseLast_eq_filter {κ : Type} [DecidableEq κ] (key : α → κ) (p : α → Bool) (n : Nat)
    {xs : List α} (hkey : (xs.map key).Nodup) :
    eraseLast p n xs = xs.filter fun x => key x ∉ ((xs.filter p).rtake n).map key := by
  induction xs using List.reverseRecOn generalizing n with
  | nil => simp
  | append_singleton xs x ih =>
    rw [List.map_append, List.nodup_append] at hkey
    obtain ⟨hxs, _, hdisjoint⟩ := hkey
    have hne : ∀ y ∈ xs, key y ≠ key x := fun y hy =>
      hdisjoint _ (List.mem_map_of_mem hy) _ (by simp)
    cases n with
    | zero => simp
    | succ n =>
      cases hx : p x with
      | true =>
        have hfilter : (xs ++ [x]).filter p = xs.filter p ++ [x] := by
          rw [List.filter_append, List.filter_cons_of_pos hx, List.filter_nil]
        rw [eraseLast_concat_of_pos hx, ih n hxs, hfilter, List.rtake_concat_succ,
          List.filter_append, List.filter_cons_of_neg (by simp), List.filter_nil, List.append_nil]
        apply List.filter_congr
        intro y hy
        simp [hne y hy]
      | false =>
        have hfilter : (xs ++ [x]).filter p = xs.filter p := by
          rw [List.filter_append, List.filter_cons_of_neg (by simp [hx]), List.filter_nil,
            List.append_nil]
        have hkept : key x ∉ ((xs.filter p).rtake (n + 1)).map key := by
          intro hmem
          obtain ⟨y, hy, hxy⟩ := List.mem_map.mp hmem
          exact hne y (List.mem_of_mem_filter (List.mem_of_mem_drop hy)) hxy
        rw [eraseLast_concat_of_neg hx, ih (n + 1) hxs, hfilter, List.filter_append,
          List.filter_cons_of_pos (by simpa using hkept), List.filter_nil]

theorem length_eraseLast (p : α → Bool) (n : Nat) (xs : List α) :
    (eraseLast p n xs).length + min n (xs.countP p) = xs.length := by
  induction xs using List.reverseRecOn generalizing n with
  | nil => simp
  | append_singleton xs x ih =>
    rw [List.countP_append, List.countP_singleton, List.length_append, List.length_singleton]
    cases n with
    | zero => simp
    | succ n =>
      cases hx : p x with
      | true =>
        have hrest := ih n
        rw [eraseLast_concat_of_pos hx, if_pos rfl]
        omega
      | false =>
        have hrest := ih (n + 1)
        rw [eraseLast_concat_of_neg hx, if_neg (by simp), List.length_append,
          List.length_singleton]
        omega

/-- From the number of matching elements on, all of them are removed. -/
theorem eraseLast_of_countP_le {p : α → Bool} {n : Nat} {xs : List α} (h : xs.countP p ≤ n) :
    eraseLast p n xs = xs.filter fun x => !p x := by
  induction xs using List.reverseRecOn generalizing n with
  | nil => simp
  | append_singleton xs x ih =>
    rw [List.countP_append, List.countP_singleton] at h
    cases hx : p x with
    | true =>
      rw [hx, if_pos rfl] at h
      obtain ⟨n, rfl⟩ : ∃ k, n = k + 1 := ⟨n - 1, by omega⟩
      rw [eraseLast_concat_of_pos hx, ih (by omega), List.filter_append]
      simp [hx]
    | false =>
      rw [hx, if_neg (by simp)] at h
      rw [eraseLast_concat_of_neg hx, ih h, List.filter_append]
      simp [hx]

/-! ## A sliding window -/

/-- Push an element into a window of size `n`; the oldest element leaves a full window. -/
def pushWindow (n : Nat) (w : List α) (x : α) : List α :=
  if w.length < n then w ++ [x] else w.tail ++ [x]

/-- A window that was pushed through a list holds the last elements of what it saw. -/
theorem foldl_pushWindow {n : Nat} (hn : 0 < n) (xs w : List α) (hw : w.length ≤ n) :
    xs.foldl (pushWindow n) w = (w ++ xs).drop ((w ++ xs).length - n) := by
  induction xs generalizing w with
  | nil => simp [Nat.sub_eq_zero_of_le hw]
  | cons x xs ih =>
    rw [List.foldl_cons]
    by_cases hlt : w.length < n
    · have hpush : pushWindow n w x = w ++ [x] := if_pos hlt
      rw [hpush, ih _ (by rw [List.length_append]; exact hlt), List.append_assoc]
      rfl
    · have hpush : pushWindow n w x = w.tail ++ [x] := if_neg hlt
      cases w with
      | nil => exact absurd hn hlt
      | cons y w =>
        simp only [List.tail_cons, List.length_cons] at hlt hw hpush
        have hlen : (y :: w ++ x :: xs).length - n = (w ++ [x] ++ xs).length - n + 1 := by
          simp only [List.length_append, List.length_cons, List.length_nil]
          omega
        rw [hpush, ih _ (by rw [List.length_append]; exact hw), hlen, List.cons_append,
          List.drop_succ_cons, List.append_assoc]
        rfl

/-- Reading a window backwards meets the elements from the last one on. -/
theorem reverse_foldl_pushWindow {n : Nat} (hn : 0 < n) (xs : List α) :
    (xs.foldl (pushWindow n) []).reverse = xs.reverse.take n := by
  rw [foldl_pushWindow hn xs [] (by simp), List.nil_append, List.reverse_drop]
  rcases Nat.le_total n xs.length with hle | hle
  · rw [Nat.sub_sub_self hle]
  · rw [Nat.sub_eq_zero_of_le hle, Nat.sub_zero, List.take_of_length_le (by simp),
      List.take_of_length_le (by simpa using hle)]

end BallGame.Library
