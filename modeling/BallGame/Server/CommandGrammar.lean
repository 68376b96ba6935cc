import BallGame.Library.Fields
import BallGame.Server.Command

/-!
# The grammar of commands

The guide shows commands of three forms, `c`, `c:n` and `c:n:r`. `parseCommand` accepts every
string that `sscanf` can read as such a command, and `sscanf` skips the blanks in front of a
number, does not look at what stands behind the last one, and cuts a number to an `int`.

* `parseCommand_of_grammar`: the strings of the grammar are read exactly;
* `grammar_only_iff`: the strings for which nothing else is accepted;
* `trailing_text_accepted`: a string that is accepted and no command;
* `parseCommand_printed`: what was printed in one of the three forms is read back.
-/

namespace BallGame.Server

open Library

/-! ## What is accepted -/

/-- The radius `sscanf` finds behind the count, or the default. -/
def radiusBehind : List Char → Int
  | ':' :: u => ((scanInt u).map Prod.fst).getD startBallRadius
  | _ => startBallRadius

theorem scan_radius (rest : List Char) :
    (scan [.literal ':', .int] rest = [] ∧ radiusBehind rest = startBallRadius) ∨
      ∃ r, scan [.literal ':', .int] rest = [.int r] ∧ radiusBehind rest = r := by
  cases rest with
  | nil => exact Or.inl ⟨rfl, rfl⟩
  | cons d u =>
    by_cases hd : d = ':'
    · subst hd
      cases hu : scanInt u with
      | none => exact Or.inl (by simp [scan, scanDirective, radiusBehind, hu])
      | some v => exact Or.inr ⟨v.1, by simp [scan, scanDirective, radiusBehind, hu]⟩
    · exact Or.inl (by simp [scan, scanDirective, radiusBehind, hd])

/-- A string with a count is accepted, whatever stands behind it. -/
theorem parseCommand_count {c : Char} {t rest : List Char} {n : Int}
    (h : scanInt t = some (n, rest)) (b r : Int) :
    parseCommand (c :: ':' :: t) b r = (c, n, radiusBehind rest) := by
  have hcount : scan countFormat (c :: ':' :: t) = [.char c, .int n] := by
    simp [countFormat, scan, scanDirective, h]
  have hfull : scan fullFormat (c :: ':' :: t) =
      .char c :: .int n :: scan [.literal ':', .int] rest := by
    simp [fullFormat, scan, scanDirective, h]
  rcases scan_radius rest with ⟨hnone, hradius⟩ | ⟨v, hsome, hradius⟩
  · simp only [parseCommand, hfull, hnone, hcount, hradius]
  · simp only [parseCommand, hfull, hsome, hradius]

/-- A string without a count is accepted if it is a single character. -/
theorem parseCommand_other {s : List Char}
    (h : ∀ c t, s = c :: ':' :: t → scanInt t = none) (b r : Int) :
    parseCommand s b r =
      if s.length = 1 then (s.headD (Char.ofNat 0), 0, startBallRadius)
      else (Char.ofNat 0, b, r) := by
  have hone : ∀ ds, (scan (.char :: .literal ':' :: .int :: ds) s).length ≤ 1 := by
    intro ds
    cases s with
    | nil => simp [scan, scanDirective]
    | cons c s =>
      cases s with
      | nil => simp [scan, scanDirective]
      | cons d t =>
        by_cases hd : d = ':'
        · subst hd
          simp [scan, scanDirective, h c t rfl]
        · simp [scan, scanDirective, hd]
  have hfull := hone [.literal ':', .int]
  have hcount := hone []
  unfold parseCommand
  split
  · rename_i he
    rw [← fullFormat, he] at hfull
    simp at hfull
  · split
    · rename_i he
      rw [← countFormat, he] at hcount
      simp at hcount
    · rfl

/-! ## The grammar -/

/-- The forms of a command, with its operation, its count and its radius. The numbers are
decimal integers of type `int`, and where one is absent it has its default. -/
inductive Grammar : List Char → Char → Int → Int → Prop where
  | letter (c : Char) : Grammar [c] c 0 startBallRadius
  | count (c : Char) {num : List Char} {n : Int} (hnum : Decimal num n) (hn : IsInt n) :
      Grammar (c :: ':' :: num) c n startBallRadius
  | radius (c : Char) {num num' : List Char} {n r : Int} (hnum : Decimal num n) (hn : IsInt n)
      (hnum' : Decimal num' r) (hr : IsInt r) : Grammar (c :: ':' :: (num ++ ':' :: num')) c n r

/-- The strings with a count, or what is read as one, that are not in the grammar. -/
inductive Misread : List Char → Prop where
  /-- Blanks stand in front of the count. -/
  | blanks (c : Char) {blanks num rest : List Char} {n : Int} (hne : blanks ≠ [])
      (hblanks : ∀ b ∈ blanks, isSpace b = true) (hnum : Decimal num n)
      (hrest : EndsDigits rest) : Misread (c :: ':' :: (blanks ++ (num ++ rest)))
  /-- The count is not of type `int`. -/
  | range (c : Char) {num rest : List Char} {n : Int} (hnum : Decimal num n)
      (hrest : EndsDigits rest) (hn : ¬ IsInt n) : Misread (c :: ':' :: (num ++ rest))
  /-- Something else than a colon stands behind the count. -/
  | trailing (c d : Char) {num rest : List Char} {n : Int} (hnum : Decimal num n)
      (hdigit : d.isDigit = false) (hcolon : d ≠ ':') : Misread (c :: ':' :: (num ++ d :: rest))
  /-- What stands behind the second colon is not a number of type `int`. -/
  | radius (c : Char) {num rest : List Char} {n : Int} (hnum : Decimal num n)
      (hrest : ∀ r, Decimal rest r → ¬ IsInt r) : Misread (c :: ':' :: (num ++ ':' :: rest))

/-- The strings of the grammar are read exactly. -/
theorem parseCommand_of_grammar {s : List Char} {op : Char} {n ρ : Int} (h : Grammar s op n ρ)
    (b r : Int) : parseCommand s b r = (op, n, ρ) := by
  cases h with
  | letter =>
    rw [parseCommand_other]
    · rfl
    · intro c t he
      cases he
  | count c hnum hn =>
    have hscan := scanInt_decimal hnum hn endsDigits_nil
    rw [List.append_nil] at hscan
    exact parseCommand_count hscan b r
  | @radius c num num' n r hnum hn hnum' hr =>
    have hscan := scanInt_decimal hnum hn (endsDigits_cons (c := ':') rfl num')
    have hradius := scanInt_decimal hnum' hr endsDigits_nil
    rw [List.append_nil] at hradius
    rw [parseCommand_count hscan, radiusBehind, hradius]
    rfl

/-- What the grammar allows behind the first colon. -/
theorem Grammar.behind {c op : Char} {t : List Char} {n ρ : Int}
    (h : Grammar (c :: ':' :: t) op n ρ) :
    ∃ num rest, t = num ++ rest ∧ Decimal num n ∧ IsInt n ∧ EndsDigits rest ∧
      (rest = [] ∨ ∃ num', rest = ':' :: num' ∧ Decimal num' ρ ∧ IsInt ρ) := by
  generalize hs : c :: ':' :: t = s at h
  cases h with
  | letter => cases hs
  | count c hnum hn =>
    cases hs
    exact ⟨t, [], (List.append_nil t).symm, hnum, hn, endsDigits_nil, Or.inl rfl⟩
  | radius c hnum hn hnum' hr =>
    cases hs
    exact ⟨_, _, rfl, hnum, hn, endsDigits_cons rfl _, Or.inr ⟨_, rfl, hnum', hr⟩⟩

/-- A string that is misread begins with its operation and something `sscanf` takes for a count. -/
theorem Misread.counted {s : List Char} (h : Misread s) :
    ∃ c t n rest, s = c :: ':' :: t ∧ scanInt t = some (n, rest) := by
  have hnone : ∀ b ∈ ([] : List Char), isSpace b = true := List.forall_mem_nil _
  cases h with
  | blanks c hne hblanks hnum hrest =>
    exact ⟨c, _, _, _, rfl, scanInt_iff.mpr ⟨_, _, _, rfl, hblanks, hnum, hrest, rfl⟩⟩
  | range c hnum hrest hn =>
    exact ⟨c, _, _, _, rfl, scanInt_iff.mpr ⟨[], _, _, rfl, hnone, hnum, hrest, rfl⟩⟩
  | trailing c d hnum hdigit hcolon =>
    exact ⟨c, _, _, _, rfl,
      scanInt_iff.mpr ⟨[], _, _, rfl, hnone, hnum, endsDigits_cons hdigit _, rfl⟩⟩
  | radius c hnum hrest =>
    exact ⟨c, _, _, _, rfl,
      scanInt_iff.mpr ⟨[], _, _, rfl, hnone, hnum, endsDigits_cons rfl _, rfl⟩⟩

/-- No string of the grammar is misread. -/
theorem Misread.not_grammar {s : List Char} (h : Misread s) (op : Char) (n ρ : Int) :
    ¬ Grammar s op n ρ := by
  intro hg
  cases h with
  | @blanks c blanks num rest n hne hblanks hnum hrest =>
    obtain ⟨num', rest', hsplit, hnum', _, _, _⟩ := hg.behind
    obtain ⟨_, _, hspace, _⟩ := hnum'.signed rest'
    cases blanks with
    | nil => exact hne rfl
    | cons b blanks =>
      rw [← hsplit, List.cons_append, List.dropWhile_cons, if_pos (hblanks b List.mem_cons_self)]
        at hspace
      have hlen := List.length_dropWhile_le isSpace (blanks ++ (num ++ rest))
      rw [hspace, List.length_cons] at hlen
      omega
  | range c hnum hrest hn =>
    obtain ⟨num', rest', hsplit, hnum', hn', hrest', _⟩ := hg.behind
    obtain ⟨_, _, rfl⟩ := hnum.append_inj hnum' hrest hrest' hsplit
    exact hn hn'
  | trailing c d hnum hdigit hcolon =>
    obtain ⟨num', rest', hsplit, hnum', _, hrest', hend⟩ := hg.behind
    obtain ⟨_, rfl, _⟩ := hnum.append_inj hnum' (endsDigits_cons hdigit _) hrest' hsplit
    rcases hend with hnil | ⟨_, hcons, _⟩
    · cases hnil
    · cases hcons
      exact hcolon rfl
  | radius c hnum hrest =>
    obtain ⟨num', rest', hsplit, hnum', _, hrest', hend⟩ := hg.behind
    obtain ⟨_, rfl, _⟩ := hnum.append_inj hnum' (endsDigits_cons rfl _) hrest' hsplit
    rcases hend with hnil | ⟨_, hcons, hdecimal, hr⟩
    · cases hnil
    · cases hcons
      exact hrest ρ hdecimal hr

/-- What `sscanf` takes for a command with a count is in the grammar, or it is misread. -/
theorem grammar_or_misread {c : Char} {t rest : List Char} {v : Int}
    (h : scanInt t = some (v, rest)) :
    (∃ n ρ, Grammar (c :: ':' :: t) c n ρ) ∨ Misread (c :: ':' :: t) := by
  obtain ⟨blanks, num, n, rfl, hblanks, hnum, hrest, _⟩ := scanInt_iff.mp h
  by_cases hne : blanks = []
  · rw [hne, List.nil_append]
    by_cases hn : IsInt n
    · cases rest with
      | nil =>
        rw [List.append_nil]
        exact Or.inl ⟨n, _, .count c hnum hn⟩
      | cons d u =>
        by_cases hcolon : d = ':'
        · subst hcolon
          by_cases hu : ∃ r, Decimal u r ∧ IsInt r
          · obtain ⟨r, hdecimal, hr⟩ := hu
            exact Or.inl ⟨n, r, .radius c hnum hn hdecimal hr⟩
          · exact Or.inr (.radius c hnum fun r hdecimal hr => hu ⟨r, hdecimal, hr⟩)
        · exact Or.inr (.trailing c d hnum (hrest d rfl) hcolon)
    · exact Or.inr (.range c hnum hrest hn)
  · exact Or.inr (.blanks c hne hblanks hnum hrest)

/-- The string is accepted only if it is in the grammar, with the numbers it denotes, and
nothing is changed if it is not. -/
structure GrammarOnly (s : List Char) (b r : Int) : Prop where
  accepted : (parseCommand s b r).1 ≠ Char.ofNat 0 →
    ∃ n ρ, Grammar s (parseCommand s b r).1 n ρ ∧ (parseCommand s b r).2 = (n, ρ)
  refused : (∀ op n ρ, ¬ Grammar s op n ρ) → parseCommand s b r = (Char.ofNat 0, b, r)

theorem grammarOnly_of_grammar {s : List Char} {op : Char} {n ρ : Int} (h : Grammar s op n ρ)
    (b r : Int) : GrammarOnly s b r := by
  have heq := parseCommand_of_grammar h b r
  constructor
  · intro _
    rw [heq]
    exact ⟨n, ρ, h, rfl⟩
  · intro hnone
    exact absurd h (hnone op n ρ)

/-- **The grammar of commands.** A string that is not misread is accepted only if it is in the
grammar, with the count and the radius it denotes, and is refused otherwise. A string that is
misread is accepted. -/
theorem grammar_only_iff {s : List Char} (hs : Char.ofNat 0 ∉ s) (b r : Int) :
    (GrammarOnly s b r ↔ ¬ Misread s) ∧
      ∀ op n ρ, Grammar s op n ρ → parseCommand s b r = (op, n, ρ) := by
  refine ⟨?_, fun op n ρ h => parseCommand_of_grammar h b r⟩
  constructor
  · intro h hmis
    obtain ⟨c, t, n, rest, rfl, hscan⟩ := hmis.counted
    have hop : (parseCommand (c :: ':' :: t) b r).1 ≠ Char.ofNat 0 := by
      rw [parseCommand_count hscan]
      rintro rfl
      exact hs List.mem_cons_self
    obtain ⟨n', ρ, hg, _⟩ := h.accepted hop
    exact hmis.not_grammar _ _ _ hg
  · intro hmis
    by_cases hcount : ∃ c t n rest, s = c :: ':' :: t ∧ scanInt t = some (n, rest)
    · obtain ⟨c, t, n, rest, rfl, hscan⟩ := hcount
      rcases grammar_or_misread (c := c) hscan with ⟨n', ρ, hg⟩ | h
      · exact grammarOnly_of_grammar hg b r
      · exact absurd h hmis
    · have hnone : ∀ c t, s = c :: ':' :: t → scanInt t = none := by
        intro c t he
        by_contra hsome
        obtain ⟨⟨n, rest⟩, hscan⟩ := Option.ne_none_iff_exists'.mp hsome
        exact hcount ⟨c, t, n, rest, he, hscan⟩
      have hother := parseCommand_other hnone b r
      by_cases hlen : s.length = 1
      · obtain ⟨c, rfl⟩ := List.length_eq_one_iff.mp hlen
        exact grammarOnly_of_grammar (.letter c) b r
      · rw [if_neg hlen] at hother
        refine ⟨fun hne => absurd ?_ hne, fun _ => hother⟩
        rw [hother]

theorem decimal_three : Decimal ['3'] 3 :=
  @Decimal.unsigned ['3'] (List.cons_ne_nil _ _) (List.forall_mem_singleton.mpr rfl)

/-- `a:3` after the command `d:5:40`. -/
theorem grammar_only_iff_add :
    GrammarOnly ['a', ':', '3'] 5 40 ∧ parseCommand ['a', ':', '3'] 5 40 = ('a', 3, 20) := by
  have hg : Grammar ['a', ':', '3'] 'a' 3 startBallRadius := .count 'a' decimal_three (by decide)
  have hiff := grammar_only_iff (s := ['a', ':', '3']) (by decide) 5 40
  exact ⟨hiff.1.mpr fun hmis => hmis.not_grammar _ _ _ hg, hiff.2 'a' 3 startBallRadius hg⟩

/-- A count with letters behind it is accepted. -/
theorem trailing_text_accepted :
    ¬ ∀ (s : List Char) (b r : Int), Char.ofNat 0 ∉ s → GrammarOnly s b r := by
  intro hall
  have hmis : Misread ['a', ':', '3', 'x', 'y', 'z'] :=
    .trailing 'a' 'x' decimal_three rfl (by decide)
  obtain ⟨n, ρ, hg, _⟩ := (hall ['a', ':', '3', 'x', 'y', 'z'] 0 0 (by decide)).accepted
    (by decide)
  exact hmis.not_grammar _ n ρ hg

/-! ## Printed commands -/

/-- The text of `"%c:%d:%d"`. -/
def printFull (c : Char) (n r : Int) : List Char :=
  c :: ':' :: (printInt n ++ ':' :: printInt r)

/-- The text of `"%c:%d"`. -/
def printCount (c : Char) (n : Int) : List Char := c :: ':' :: printInt n

/-- What is read in a buffer that holds the text, its NUL and anything behind it. -/
def parseText (s rest : List Char) (b ρ : Int) : Char × Int × Int :=
  parseCommand (cString (s ++ Char.ofNat 0 :: rest)) b ρ

/-- The three forms are read back with the numbers they were printed from, and no form satisfies
an attempt for a longer one. -/
structure ReadBack (c : Char) (n r : Int) (rest : List Char) (b ρ : Int) : Prop where
  full : parseText (printFull c n r) rest b ρ = (c, n, r)
  count : parseText (printCount c n) rest b ρ = (c, n, startBallRadius)
  letter : parseText [c] rest b ρ = (c, 0, startBallRadius)
  count_stops : scan fullFormat (printCount c n) = [.char c, .int n]
  letter_stops : scan fullFormat [c] = [.char c] ∧ scan countFormat [c] = [.char c]

theorem nul_not_mem_printInt (n : Int) : Char.ofNat 0 ∉ printInt n := by
  intro h
  have hnumeral := isNumeral_printInt h
  revert hnumeral
  decide

theorem nul_not_mem_printCount {c : Char} (hc : c ≠ Char.ofNat 0) (n : Int) :
    Char.ofNat 0 ∉ printCount c n := by
  simp [printCount, hc.symm, nul_not_mem_printInt]

theorem nul_not_mem_printFull {c : Char} (hc : c ≠ Char.ofNat 0) (n r : Int) :
    Char.ofNat 0 ∉ printFull c n r := by
  simp [printFull, hc.symm, nul_not_mem_printInt]

/-- The number behind the first colon of a printed command. -/
theorem scanInt_printed {n : Int} (hn : IsInt n) : scanInt (printInt n) = some (n, []) := by
  have h := scanInt_printInt hn endsDigits_nil
  rwa [List.append_nil] at h

theorem parseCommand_printFull {c : Char} {n r : Int} (hn : IsInt n) (hr : IsInt r)
    (b ρ : Int) : parseCommand (printFull c n r) b ρ = (c, n, r) := by
  have hscan := scanInt_printInt hn (endsDigits_cons (c := ':') rfl (printInt r))
  rw [printFull, parseCommand_count hscan, radiusBehind, scanInt_printed hr]
  rfl

theorem parseCommand_printCount {c : Char} {n : Int} (hn : IsInt n) (b ρ : Int) :
    parseCommand (printCount c n) b ρ = (c, n, startBallRadius) :=
  parseCommand_count (scanInt_printed hn) b ρ

/-- **Printed commands.** Whatever operation and numbers were printed, and whatever the count
and the radius were before, parsing returns what was printed. -/
theorem parseCommand_printed {c : Char} (hc : c ≠ Char.ofNat 0) {n r : Int} (hn : IsInt n)
    (hr : IsInt r) (rest : List Char) (b ρ : Int) : ReadBack c n r rest b ρ where
  full := by
    rw [parseText, cString_terminated (nul_not_mem_printFull hc n r),
      parseCommand_printFull hn hr]
  count := by
    rw [parseText, cString_terminated (nul_not_mem_printCount hc n), parseCommand_printCount hn]
  letter := by
    rw [parseText, cString_terminated (by simpa using hc.symm)]
    exact parseCommand_of_grammar (.letter c) b ρ
  count_stops := by
    simp [printCount, fullFormat, scan, scanDirective, scanInt_printed hn]
  letter_stops := by
    simp [fullFormat, countFormat, scan, scanDirective]

/-- A colon as the operation, with the least and the greatest number. -/
theorem parseCommand_printed_extreme :
    ReadBack ':' (-2147483648) 2147483647 ['x'] 5 40 :=
  parseCommand_printed (by decide) ⟨by decide, by decide⟩ ⟨by decide, by decide⟩ ['x'] 5 40

end BallGame.Server
