import Mathlib.Data.List.Infix

/-!
# Lines from a buffered stream

`fgets` returns the characters up to the first newline, but no more than its array has room for.
It takes them from the buffer of the stream, which it refills as long as they do not suffice.

* `takeLine`: what one call takes of the characters it can see;
* `cutLines`: the results of successive calls on a text, and the characters that are left over;
* `cutLines_takeLine`, `cutLines_none`: the results do not depend on what the buffer held.
-/

namespace BallGame.Library

/-- The result of one call with room for `n` characters, and the characters it leaves. There is
none if the characters do not suffice. -/
def takeLine : Nat → List Char → Option (List Char × List Char)
  | 0, s => some ([], s)
  | _ + 1, [] => none
  | n + 1, c :: s =>
    if c = '\n' then some ([c], s) else (takeLine n s).map fun p => (c :: p.1, p.2)

/-- One more character after some results and a line that is still open. -/
def cutStep (n : Nat) (p : List (List Char) × List Char) (c : Char) :
    List (List Char) × List Char :=
  if c = '\n' ∨ p.2.length + 1 = n then (p.1 ++ [p.2 ++ [c]], []) else (p.1, p.2 ++ [c])

/-- The results of successive calls, and the characters that do not suffice for another one. -/
def cutLines (n : Nat) (s : List Char) : List (List Char) × List Char :=
  s.foldl (cutStep n) ([], [])

/-- The results of all calls on a text that ends. -/
def allLines (n : Nat) (s : List Char) : List (List Char) :=
  (cutLines n s).1 ++ if (cutLines n s).2 = [] then [] else [(cutLines n s).2]

/-! ## One call -/

theorem takeLine_cons {n : Nat} {c : Char} {s l r : List Char} :
    takeLine (n + 1) (c :: s) = some (l, r) ↔
      (c = '\n' ∧ l = [c] ∧ r = s) ∨
        (c ≠ '\n' ∧ ∃ l', l = c :: l' ∧ takeLine n s = some (l', r)) := by
  rw [takeLine]
  by_cases hc : c = '\n'
  · rw [if_pos hc, Option.some.injEq, Prod.mk.injEq]
    constructor
    · rintro ⟨rfl, rfl⟩
      exact Or.inl ⟨hc, rfl, rfl⟩
    · rintro (⟨_, rfl, rfl⟩ | ⟨hne, _⟩)
      · exact ⟨rfl, rfl⟩
      · exact absurd hc hne
  · rw [if_neg hc, Option.map_eq_some_iff]
    constructor
    · rintro ⟨⟨l', r'⟩, htake, heq⟩
      cases heq
      exact Or.inr ⟨hc, l', rfl, htake⟩
    · rintro (⟨hnl, _⟩ | ⟨_, l', rfl, htake⟩)
      · exact absurd hnl hc
      · exact ⟨(l', r), htake, rfl⟩

theorem takeLine_cons_none {n : Nat} {c : Char} {s : List Char} :
    takeLine (n + 1) (c :: s) = none ↔ c ≠ '\n' ∧ takeLine n s = none := by
  rw [takeLine]
  split
  · next hc => exact ⟨fun h => (Option.some_ne_none _ h).elim, fun h => absurd hc h.1⟩
  · next hc => rw [Option.map_eq_none_iff, and_iff_right hc]

theorem takeLine_eq {n : Nat} {s l r : List Char} (h : takeLine n s = some (l, r)) :
    s = l ++ r := by
  induction n generalizing s l with
  | zero =>
    cases h
    rfl
  | succ n ih =>
    cases s with
    | nil => cases h
    | cons c s =>
      obtain ⟨_, rfl, rfl⟩ | ⟨_, l', rfl, htake⟩ := takeLine_cons.mp h
      · rfl
      · rw [ih htake, List.cons_append]

/-! ## Successive calls -/

variable {n : Nat} {lines : List (List Char)}

/-- The characters that complete an open line. -/
theorem foldl_cutStep_line {s l r : List Char} {k : Nat} {p : List Char} (hk : p.length + k = n)
    (hpos : 0 < k) (h : takeLine k s = some (l, r)) :
    l.foldl (cutStep n) (lines, p) = (lines ++ [p ++ l], []) := by
  induction k generalizing s l p with
  | zero => omega
  | succ k ih =>
    cases s with
    | nil => cases h
    | cons c s =>
      rcases takeLine_cons.mp h with ⟨hc, rfl, _⟩ | ⟨hc, l', rfl, htake⟩
      · rw [List.foldl_cons, cutStep, if_pos (Or.inl hc), List.foldl_nil]
      · rw [List.foldl_cons, cutStep]
        cases k with
        | zero =>
          cases htake
          rw [if_pos (Or.inr hk), List.foldl_nil]
        | succ k =>
          have hopen : ¬ (c = '\n' ∨ p.length + 1 = n) := by
            rintro (hnl | hlast)
            · exact hc hnl
            · omega
          have hlength : (p ++ [c]).length + (k + 1) = n := by
            rw [List.length_append, List.length_singleton]
            omega
          rw [if_neg hopen, ih hlength (Nat.succ_pos k) htake, List.append_assoc,
            List.singleton_append]

/-- Characters that do not complete the line. -/
theorem foldl_cutStep_none {s : List Char} {k : Nat} {p : List Char} (hk : p.length + k = n)
    (h : takeLine k s = none) : s.foldl (cutStep n) (lines, p) = (lines, p ++ s) := by
  induction k generalizing s p with
  | zero => cases h
  | succ k ih =>
    cases s with
    | nil => rw [List.append_nil, List.foldl_nil]
    | cons c s =>
      obtain ⟨hc, hnone⟩ := takeLine_cons_none.mp h
      have hopen : ¬ (c = '\n' ∨ p.length + 1 = n) := by
        rintro (hnl | hlast)
        · exact hc hnl
        · obtain rfl : k = 0 := by omega
          cases hnone
      have hlength : (p ++ [c]).length + k = n := by
        rw [List.length_append, List.length_singleton]
        omega
      rw [List.foldl_cons, cutStep, if_neg hopen, ih hlength hnone, List.append_assoc,
        List.singleton_append]

/-- **One more call** after some that left nothing over. -/
theorem cutLines_takeLine (hn : 0 < n) {s t l r : List Char} (hs : cutLines n s = (lines, []))
    (h : takeLine n t = some (l, r)) : cutLines n (s ++ l) = (lines ++ [l], []) := by
  have hs' : s.foldl (cutStep n) ([], []) = (lines, []) := hs
  rw [cutLines, List.foldl_append, hs', foldl_cutStep_line (Nat.zero_add n) hn h, List.nil_append]

/-- A rest that does not suffice for a call. -/
theorem cutLines_none {s t : List Char} (hs : cutLines n s = (lines, []))
    (h : takeLine n t = none) : cutLines n (s ++ t) = (lines, t) := by
  have hs' : s.foldl (cutStep n) ([], []) = (lines, []) := hs
  rw [cutLines, List.foldl_append, hs', foldl_cutStep_none (Nat.zero_add n) h, List.nil_append]

/-- The results before stay in front. -/
theorem foldl_cutStep_front (front : List (List Char)) (p : List (List Char) × List Char)
    (t : List Char) :
    t.foldl (cutStep n) (front ++ p.1, p.2) =
      (front ++ (t.foldl (cutStep n) p).1, (t.foldl (cutStep n) p).2) := by
  induction t generalizing p with
  | nil => rfl
  | cons c t ih =>
    rw [List.foldl_cons, List.foldl_cons, ← ih]
    congr 1
    simp only [cutStep]
    split
    · rw [List.append_assoc]
    · rfl

/-- Behind calls that left nothing over the text is cut afresh. -/
theorem cutLines_append {s : List Char} (hs : cutLines n s = (lines, [])) (t : List Char) :
    cutLines n (s ++ t) = (lines ++ (cutLines n t).1, (cutLines n t).2) := by
  have hs' : s.foldl (cutStep n) ([], []) = (lines, []) := hs
  have hfront := foldl_cutStep_front (n := n) lines ([], []) t
  rw [List.append_nil] at hfront
  rw [cutLines, List.foldl_append, hs', hfront]
  rfl

theorem allLines_append {s : List Char} (hs : cutLines n s = (lines, [])) (t : List Char) :
    allLines n (s ++ t) = lines ++ allLines n t := by
  rw [allLines, cutLines_append hs, List.append_assoc]
  rfl

theorem allLines_of_cutLines {s : List Char} (hs : cutLines n s = (lines, [])) :
    allLines n s = lines := by
  rw [allLines, hs, if_pos rfl, List.append_nil]

end BallGame.Library
