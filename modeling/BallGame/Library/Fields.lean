import BallGame.Library.Stdio

/-!
# Fields of a text

How far `sscanf` gets in a text. The conversions of numbers do not read across a delimiter, so
a format of numbers with delimiters between them is converted field by field.

* `scan_directives`: the kinds of the converted values;
* `scan_fields_iff`: the texts of which all numbers are converted;
* `scanInt_iff`: the texts `%d` reads, by their grammar.
-/

namespace BallGame.Library

/-! ## What was converted -/

/-- The directive that converts to such a value. -/
def Scanned.directive : Scanned → Directive
  | .char _ => .char
  | .int _ => .int
  | .float _ => .float
  | .byte _ => .byte

/-- The directive gives a value. -/
def Directive.converts : Directive → Bool
  | .literal _ => false
  | _ => true

theorem scanDirective_directive {d : Directive} {s rest : List Char} {v : Option Scanned}
    (h : scanDirective d s = some (v, rest)) :
    v.toList.map Scanned.directive = [d].filter Directive.converts := by
  cases d with
  | literal c =>
    simp only [scanDirective] at h
    split at h
    · split at h
      · cases h
        rfl
      · cases h
    · cases h
  | char =>
    simp only [scanDirective] at h
    split at h
    · cases h
      rfl
    · cases h
  | int | float | byte =>
    obtain ⟨r, _, he⟩ := Option.map_eq_some_iff.mp h
    cases he
    rfl

/-- The values are those of the first converting directives, in their order. -/
theorem scan_directives (ds : List Directive) (s : List Char) :
    (scan ds s).map Scanned.directive <+: ds.filter Directive.converts := by
  induction ds generalizing s with
  | nil => exact List.nil_prefix
  | cons d ds ih =>
    rw [scan]
    split
    · exact List.nil_prefix
    · rename_i v rest hd
      have hfilter : (d :: ds).filter Directive.converts =
          [d].filter Directive.converts ++ ds.filter Directive.converts := by
        rw [← List.filter_append, List.singleton_append]
      rw [List.map_append, scanDirective_directive hd, hfilter]
      exact (List.prefix_append_right_inj _).mpr (ih rest)

/-- All directives succeeded that give a value, if the number of values is theirs. -/
theorem scan_directives_eq {ds : List Directive} {s : List Char}
    (h : (scan ds s).length = (ds.filter Directive.converts).length) :
    (scan ds s).map Scanned.directive = ds.filter Directive.converts := by
  apply (scan_directives ds s).eq_of_length
  rw [List.length_map, h]

/-! ## Where a number ends -/

/-- The characters of a number, the blanks in front of it, and the letters of `inf` and `nan`. -/
def isNumberChar (c : Char) : Bool :=
  isSpace c || isHexDigit c || c.toLower ∈ ['+', '-', '.', 'x', 'p', 'i', 'n', 'f', 't', 'y', 'a']

/-- A text is read from the left, and something stands behind what is read. -/
def behind {α : Type} (r : List Char) (v : α × List Char) : α × List Char := (v.1, v.2 ++ r)

theorem takeWhile_delimited {p : Char → Bool} {c : Char} (hc : p c = false) (s r : List Char) :
    (s ++ c :: r).takeWhile p = s.takeWhile p := by
  induction s with
  | nil => simp [hc]
  | cons a s ih =>
    rw [List.cons_append, List.takeWhile_cons, List.takeWhile_cons, ih]

theorem dropWhile_delimited {p : Char → Bool} {c : Char} (hc : p c = false) (s r : List Char) :
    (s ++ c :: r).dropWhile p = s.dropWhile p ++ c :: r := by
  induction s with
  | nil => simp [hc]
  | cons a s ih =>
    rw [List.cons_append, List.dropWhile_cons, List.dropWhile_cons, ih]
    split
    · rfl
    · rfl

section

variable {c : Char} (hc : isNumberChar c = false)

include hc

theorem isSpace_delimiter : isSpace c = false := by
  simp only [isNumberChar, Bool.or_eq_false_iff] at hc
  exact hc.1.1

theorem isHexDigit_delimiter : isHexDigit c = false := by
  simp only [isNumberChar, Bool.or_eq_false_iff] at hc
  exact hc.1.2

theorem isDigit_delimiter : c.isDigit = false := by
  have h := isHexDigit_delimiter hc
  simp only [isHexDigit, Bool.or_eq_false_iff] at h
  exact h.1

/-- The delimiter is none of the characters of a number. -/
theorem delimiter_ne {d : Char} (hd : isNumberChar d = true) : c ≠ d := by
  rintro rfl
  rw [hc] at hd
  cases hd

theorem scanSign_delimited (s r : List Char) :
    scanSign (s ++ c :: r) = behind (c :: r) (scanSign s) := by
  cases s with
  | nil =>
    have hminus := delimiter_ne hc (d := '-') (by decide)
    have hplus := delimiter_ne hc (d := '+') (by decide)
    simp [scanSign, behind, hminus, hplus]
  | cons a s =>
    simp only [List.cons_append, scanSign]
    split <;> simp_all [behind]

theorem scanInt_delimited (s r : List Char) :
    scanInt (s ++ c :: r) = (scanInt s).map (behind (c :: r)) := by
  have hdigit := isDigit_delimiter hc
  simp only [scanInt, dropWhile_delimited (isSpace_delimiter hc), scanSign_delimited hc, behind,
    takeWhile_delimited hdigit, dropWhile_delimited hdigit]
  split
  · rfl
  · rfl

theorem scanByte_delimited (s r : List Char) :
    scanByte (s ++ c :: r) = (scanByte s).map (behind (c :: r)) := by
  have hdigit := isDigit_delimiter hc
  simp only [scanByte, dropWhile_delimited (isSpace_delimiter hc), scanSign_delimited hc, behind,
    takeWhile_delimited hdigit, dropWhile_delimited hdigit]
  split
  · rfl
  · rfl

theorem scanExponent_delimited {mark : Char} (hmark : c ≠ mark) (hupper : c ≠ mark.toUpper)
    (s r : List Char) :
    scanExponent mark (s ++ c :: r) = behind (c :: r) (scanExponent mark s) := by
  have hdigit := isDigit_delimiter hc
  cases s with
  | nil => simp [scanExponent, behind, hmark, hupper]
  | cons a s =>
    simp only [List.cons_append, scanExponent]
    split
    · simp only [scanSign_delimited hc, behind, takeWhile_delimited hdigit,
        dropWhile_delimited hdigit]
    · rfl

theorem scanFraction_delimited {digit : Char → Bool} (hdigit : digit c = false)
    (s r : List Char) :
    scanFraction digit (s ++ c :: r) = behind (c :: r) (scanFraction digit s) := by
  cases s with
  | nil =>
    have hpoint := delimiter_ne hc (d := '.') (by decide)
    simp [scanFraction, behind, hpoint]
  | cons a s =>
    by_cases ha : a = '.'
    · subst ha
      simp only [List.cons_append, scanFraction, behind, takeWhile_delimited hdigit,
        dropWhile_delimited hdigit]
    · simp [scanFraction, behind, ha]

theorem scanDecimal_delimited (s r : List Char) :
    scanDecimal (s ++ c :: r) = (scanDecimal s).map (behind (c :: r)) := by
  have hdigit := isDigit_delimiter hc
  have he := delimiter_ne hc (d := 'e') (by decide)
  have hE := delimiter_ne hc (d := 'e'.toUpper) (by decide)
  simp only [scanDecimal, takeWhile_delimited hdigit, dropWhile_delimited hdigit,
    scanFraction_delimited hc hdigit, scanExponent_delimited hc he hE, behind]
  split
  · rfl
  · rfl

theorem scanHexadecimal_delimited (s r : List Char) :
    scanHexadecimal (s ++ c :: r) = (scanHexadecimal s).map (behind (c :: r)) := by
  have hdigit := isHexDigit_delimiter hc
  have hp := delimiter_ne hc (d := 'p') (by decide)
  have hP := delimiter_ne hc (d := 'p'.toUpper) (by decide)
  have hhead : (s ++ c :: r).head? = some '.' ↔ s.head? = some '.' := by
    cases s with
    | nil => simp [delimiter_ne hc (d := '.') (by decide)]
    | cons a s => rfl
  simp only [scanHexadecimal, takeWhile_delimited hdigit, dropWhile_delimited hdigit,
    scanFraction_delimited hc hdigit, scanExponent_delimited hc hp hP, behind, hhead]
  split
  · split
    · rfl
    · rfl
  · rfl

theorem scanNumber_delimited (s r : List Char) :
    scanNumber (s ++ c :: r) = (scanNumber s).map (behind (c :: r)) := by
  have hdecimal := scanDecimal_delimited hc s r
  match s with
  | [] => simpa [scanNumber, delimiter_ne hc (d := '0') (by decide)] using hdecimal
  | [a] =>
    have hx := delimiter_ne hc (d := 'x') (by decide)
    have hX := delimiter_ne hc (d := 'X') (by decide)
    simpa [scanNumber, hx, hX] using hdecimal
  | a :: b :: s =>
    by_cases hmark : a = '0' ∧ (b = 'x' ∨ b = 'X')
    · obtain ⟨rfl, rfl | rfl⟩ := hmark
      · exact scanHexadecimal_delimited hc s r
      · exact scanHexadecimal_delimited hc s r
    · have hnumber : ∀ t, scanNumber (a :: b :: t) = scanDecimal (a :: b :: t) := by
        intro t
        unfold scanNumber
        split
        · simp_all
        · simp_all
        · rfl
      rw [List.cons_append, List.cons_append, hnumber, hnumber]
      exact hdecimal

theorem toLower_delimiter_ne {d : Char} (hd : d ∈ "infinity".toList ++ ['n', 'a', 'n']) :
    c.toLower ≠ d := by
  have hletters : "infinity".toList ++ ['n', 'a', 'n'] ⊆
      ['+', '-', '.', 'x', 'p', 'i', 'n', 'f', 't', 'y', 'a'] := by decide
  rintro rfl
  simp only [isNumberChar, Bool.or_eq_false_iff, decide_eq_false_iff_not] at hc
  exact hc.2 (hletters hd)

theorem prefix_delimited {w : List Char} (hw : w ⊆ "infinity".toList ++ ['n', 'a', 'n'])
    (s r : List Char) : w <+: (s ++ c :: r).map Char.toLower ↔ w <+: s.map Char.toLower := by
  induction w generalizing s with
  | nil => simp
  | cons d w ih =>
    cases s with
    | nil => simp [(toLower_delimiter_ne hc (hw List.mem_cons_self)).symm]
    | cons a s =>
      have hrest := ih (fun d hd => hw (List.mem_cons_of_mem _ hd)) s
      rw [List.cons_append, List.map_cons, List.map_cons, List.cons_prefix_cons,
        List.cons_prefix_cons, hrest]

theorem scanWord_delimited (negative : Bool) (s r : List Char) :
    scanWord negative (s ++ c :: r) = (scanWord negative s).map (behind (c :: r)) := by
  have hdrop : ∀ {w : List Char} {n : Nat}, w <+: s.map Char.toLower → w.length = n →
      (s ++ c :: r).drop n = s.drop n ++ c :: r := by
    intro w n hw hn
    have hlen := hw.length_le
    rw [List.length_map, hn] at hlen
    exact List.drop_append_of_le_length hlen
  simp only [scanWord, prefix_delimited hc (w := ['n', 'a', 'n']) (by decide),
    prefix_delimited hc (w := "infinity".toList) (by decide),
    prefix_delimited hc (w := ['i', 'n', 'f', 'i']) (by decide),
    prefix_delimited hc (w := ['i', 'n', 'f']) (by decide)]
  split
  · rename_i hw
    rw [hdrop hw (by decide)]
    rfl
  · split
    · rename_i hw
      rw [hdrop hw (by decide)]
      rfl
    · split
      · rfl
      · split
        · rename_i hw
          rw [hdrop hw (by decide)]
          rfl
        · rfl

theorem scanFloat_delimited (s r : List Char) :
    scanFloat (s ++ c :: r) = (scanFloat s).map (behind (c :: r)) := by
  simp only [scanFloat, dropWhile_delimited (isSpace_delimiter hc), scanSign_delimited hc, behind,
    scanNumber_delimited hc]
  cases scanNumber (scanSign (s.dropWhile isSpace)).2 with
  | none => exact scanWord_delimited hc _ _ r
  | some v => rfl

end

/-! ## What is left of a text -/

theorem scanSign_suffix (s : List Char) : (scanSign s).2 <:+ s := by
  unfold scanSign
  split
  · exact List.suffix_cons _ _
  · exact List.suffix_cons _ _
  · exact List.suffix_rfl

/-- Behind the blanks, the sign and the digits. -/
theorem signed_suffix (s : List Char) :
    (scanSign (s.dropWhile isSpace)).2.dropWhile Char.isDigit <:+ s :=
  (List.dropWhile_suffix _).trans ((scanSign_suffix _).trans (List.dropWhile_suffix _))

theorem scanInt_suffix {s rest : List Char} {n : Int} (h : scanInt s = some (n, rest)) :
    rest <:+ s := by
  simp only [scanInt] at h
  split at h
  · cases h
  · cases h
    exact signed_suffix s

theorem scanByte_suffix {s rest : List Char} {b : UInt8} (h : scanByte s = some (b, rest)) :
    rest <:+ s := by
  simp only [scanByte] at h
  split at h
  · cases h
  · cases h
    exact signed_suffix s

theorem scanExponent_suffix (mark : Char) (s : List Char) : (scanExponent mark s).2 <:+ s := by
  unfold scanExponent
  split
  · split
    · exact (List.dropWhile_suffix _).trans ((scanSign_suffix _).trans (List.suffix_cons _ _))
    · exact List.suffix_rfl
  · exact List.suffix_rfl

theorem scanFraction_suffix (digit : Char → Bool) (s : List Char) :
    (scanFraction digit s).2 <:+ s := by
  unfold scanFraction
  split
  · exact (List.dropWhile_suffix _).trans (List.suffix_cons _ _)
  · exact List.suffix_rfl

theorem scanDecimal_suffix {s rest : List Char} {q : ℚ} (h : scanDecimal s = some (q, rest)) :
    rest <:+ s := by
  simp only [scanDecimal] at h
  split at h
  · cases h
  · cases h
    exact (scanExponent_suffix _ _).trans
      ((scanFraction_suffix _ _).trans (List.dropWhile_suffix _))

theorem scanHexadecimal_suffix {s rest : List Char} {q : ℚ}
    (h : scanHexadecimal s = some (q, rest)) : rest <:+ s := by
  simp only [scanHexadecimal] at h
  split at h
  · split at h
    · cases h
      exact (scanFraction_suffix _ _).trans (List.dropWhile_suffix _)
    · cases h
  · cases h
    exact (scanExponent_suffix _ _).trans
      ((scanFraction_suffix _ _).trans (List.dropWhile_suffix _))

theorem scanNumber_suffix {s rest : List Char} {q : ℚ} (h : scanNumber s = some (q, rest)) :
    rest <:+ s := by
  unfold scanNumber at h
  split at h
  · exact (scanHexadecimal_suffix h).trans
      ((List.suffix_cons _ _).trans (List.suffix_cons _ _))
  · exact (scanHexadecimal_suffix h).trans
      ((List.suffix_cons _ _).trans (List.suffix_cons _ _))
  · exact scanDecimal_suffix h

theorem scanWord_suffix {negative : Bool} {s rest : List Char} {x : Single}
    (h : scanWord negative s = some (x, rest)) : rest <:+ s := by
  simp only [scanWord] at h
  split at h
  · cases h
    exact List.drop_suffix _ _
  · split at h
    · cases h
      exact List.drop_suffix _ _
    · split at h
      · cases h
      · split at h
        · cases h
          exact List.drop_suffix _ _
        · cases h

theorem scanFloat_suffix {s rest : List Char} {x : Single} (h : scanFloat s = some (x, rest)) :
    rest <:+ s := by
  have hsigned : (scanSign (s.dropWhile isSpace)).2 <:+ s :=
    (scanSign_suffix _).trans (List.dropWhile_suffix _)
  simp only [scanFloat] at h
  split at h
  · rename_i hnumber
    cases h
    exact (scanNumber_suffix hnumber).trans hsigned
  · exact (scanWord_suffix h).trans hsigned

/-! ## Numbers with a delimiter between them -/

/-- The directive reads a number. -/
def Directive.isNumber : Directive → Bool
  | .literal _ | .char => false
  | .int | .float | .byte => true

theorem scanDirective_suffix {d : Directive} (hd : d.isNumber) {s rest : List Char}
    {v : Option Scanned} (h : scanDirective d s = some (v, rest)) : rest <:+ s := by
  cases d with
  | literal c => cases hd
  | char => cases hd
  | int =>
    obtain ⟨⟨n, rest'⟩, hscan, he⟩ := Option.map_eq_some_iff.mp h
    cases he
    exact scanInt_suffix hscan
  | float =>
    obtain ⟨⟨x, rest'⟩, hscan, he⟩ := Option.map_eq_some_iff.mp h
    cases he
    exact scanFloat_suffix hscan
  | byte =>
    obtain ⟨⟨b, rest'⟩, hscan, he⟩ := Option.map_eq_some_iff.mp h
    cases he
    exact scanByte_suffix hscan

theorem scanDirective_delimited {c : Char} (hc : isNumberChar c = false) {d : Directive}
    (hd : d.isNumber) (s r : List Char) :
    scanDirective d (s ++ c :: r) = (scanDirective d s).map (behind (c :: r)) := by
  cases d with
  | literal c => cases hd
  | char => cases hd
  | int =>
    simp only [scanDirective, scanInt_delimited hc, Option.map_map]
    rfl
  | float =>
    simp only [scanDirective, scanFloat_delimited hc, Option.map_map]
    rfl
  | byte =>
    simp only [scanDirective, scanByte_delimited hc, Option.map_map]
    rfl

/-- A number gives one value. -/
theorem scanDirective_value {d : Directive} (hd : d.isNumber) {s rest : List Char}
    {v : Option Scanned} (h : scanDirective d s = some (v, rest)) : v.toList.length = 1 := by
  cases d with
  | literal c => cases hd
  | char => cases hd
  | int | float | byte =>
    obtain ⟨r, _, he⟩ := Option.map_eq_some_iff.mp h
    cases he
    rfl

/-- The directive reads the text to its end. -/
def Directive.Reads (d : Directive) (s : List Char) : Prop := ∃ v, scanDirective d s = some (v, [])

/-- The text begins with one field for each directive, and a single delimiter stands between
two fields. -/
def Fields (delim : Char) : List Directive → List Char → Prop
  | [], _ => True
  | [d], s => (scanDirective d s).isSome
  | d :: d' :: ds, s =>
    ∃ field rest, s = field ++ delim :: rest ∧ delim ∉ field ∧ d.Reads field ∧
      Fields delim (d' :: ds) rest

/-- What stands in front of the first delimiter is read, and nothing of what follows. -/
theorem scanDirective_field_iff {delim : Char} (hdelim : isNumberChar delim = false)
    {d : Directive} (hd : d.isNumber) {s rest : List Char} {v : Option Scanned} :
    scanDirective d s = some (v, delim :: rest) ↔
      ∃ field, s = field ++ delim :: rest ∧ delim ∉ field ∧
        scanDirective d field = some (v, []) := by
  constructor
  · intro h
    have hmem : delim ∈ s := (scanDirective_suffix hd h).subset List.mem_cons_self
    obtain ⟨field, rest', rfl, hfield⟩ := List.eq_append_cons_of_mem hmem
    rw [scanDirective_delimited hdelim hd] at h
    obtain ⟨⟨v', left⟩, hscan, he⟩ := Option.map_eq_some_iff.mp h
    -- the field has no delimiter, so all of it has been read
    cases left with
    | nil =>
      cases he
      exact ⟨field, rfl, hfield, hscan⟩
    | cons c left =>
      cases he
      exact absurd ((scanDirective_suffix hd hscan).subset List.mem_cons_self) hfield
  · rintro ⟨field, rfl, _, hscan⟩
    rw [scanDirective_delimited hdelim hd, hscan]
    rfl

/-- Behind a number the scan goes on at the delimiter, or it ends there. -/
theorem length_scan_delimiter {delim : Char} {d : Directive} (hd : d.isNumber)
    {ds : List Directive} {s : List Char} {n : Nat} :
    (scan (d :: .literal delim :: ds) s).length = n + 2 ↔
      ∃ v rest, scanDirective d s = some (v, delim :: rest) ∧ (scan ds rest).length = n + 1 := by
  rw [scan]
  cases hscan : scanDirective d s with
  | none => simp
  | some r =>
    obtain ⟨v, left⟩ := r
    simp only [List.length_append, scanDirective_value hd hscan]
    cases left with
    | nil => simp [scan, scanDirective]
    | cons c left =>
      by_cases hc : c = delim
      · subst hc
        simp only [scan, scanDirective, if_true, Option.toList, List.nil_append]
        constructor
        · intro h
          exact ⟨v, left, rfl, by omega⟩
        · rintro ⟨v', rest, he, h⟩
          cases he
          omega
      · simp [scan, scanDirective, hc]

/-- Numbers with a delimiter between them are all converted exactly if the fields are there. -/
theorem scan_fields_iff {delim : Char} (hdelim : isNumberChar delim = false)
    {ds : List Directive} (hds : ∀ d ∈ ds, d.isNumber) {s : List Char} :
    (scan (ds.intersperse (.literal delim)) s).length = ds.length ↔ Fields delim ds s := by
  induction ds generalizing s with
  | nil => simp [scan, Fields]
  | cons d ds ih =>
    have hd : d.isNumber := hds d List.mem_cons_self
    have hrest : ∀ d ∈ ds, d.isNumber := fun d hmem => hds d (List.mem_cons_of_mem _ hmem)
    cases ds with
    | nil =>
      rw [List.intersperse_singleton, scan, Fields]
      cases hscan : scanDirective d s with
      | none => simp
      | some r =>
        obtain ⟨v, rest⟩ := r
        simp [scan, scanDirective_value hd hscan]
    | cons d' ds =>
      rw [List.intersperse_cons_cons, List.length_cons, List.length_cons,
        length_scan_delimiter hd, Fields]
      constructor
      · rintro ⟨v, rest, hscan, hlen⟩
        obtain ⟨field, hsplit, hfield, hread⟩ := (scanDirective_field_iff hdelim hd).mp hscan
        exact ⟨field, rest, hsplit, hfield, ⟨v, hread⟩, (ih hrest).mp hlen⟩
      · rintro ⟨field, rest, hsplit, hfield, ⟨v, hread⟩, hfields⟩
        exact ⟨v, rest, (scanDirective_field_iff hdelim hd).mpr ⟨field, hsplit, hfield, hread⟩,
          (ih hrest).mpr hfields⟩

/-! ## Decimal integers -/

/-- A row of digits, with a sign or without, and the integer it denotes. -/
inductive Decimal : List Char → Int → Prop where
  | unsigned {ds : List Char} (hne : ds ≠ []) (hds : ∀ c ∈ ds, c.isDigit = true) :
      Decimal ds (digitsValue ds)
  | plus {ds : List Char} (hne : ds ≠ []) (hds : ∀ c ∈ ds, c.isDigit = true) :
      Decimal ('+' :: ds) (digitsValue ds)
  | minus {ds : List Char} (hne : ds ≠ []) (hds : ∀ c ∈ ds, c.isDigit = true) :
      Decimal ('-' :: ds) (-digitsValue ds)

/-- The sign and the digits are told apart again, and no blank is skipped. -/
theorem Decimal.signed {num : List Char} {n : Int} (h : Decimal num n) (rest : List Char) :
    ∃ negative ds, (num ++ rest).dropWhile isSpace = num ++ rest ∧
      scanSign (num ++ rest) = (negative, ds ++ rest) ∧ ds ≠ [] ∧
      (∀ c ∈ ds, c.isDigit = true) ∧
      n = if negative then -(digitsValue ds : Int) else digitsValue ds := by
  cases h with
  | unsigned hne hds =>
    cases num with
    | nil => exact absurd rfl hne
    | cons c ds =>
      obtain ⟨hspace, hsign⟩ := digit_first (s := ds ++ rest) (hds c List.mem_cons_self)
      exact ⟨false, c :: ds, hspace, hsign, hne, hds, rfl⟩
  | plus hne hds => exact ⟨false, _, by simp [isSpace], rfl, hne, hds, rfl⟩
  | minus hne hds => exact ⟨true, _, by simp [isSpace], rfl, hne, hds, rfl⟩

/-- Where a decimal integer ends is decided by what stands behind it. -/
theorem Decimal.append_inj {num num' rest rest' : List Char} {n n' : Int} (h : Decimal num n)
    (h' : Decimal num' n') (hrest : EndsDigits rest) (hrest' : EndsDigits rest')
    (heq : num ++ rest = num' ++ rest') : num = num' ∧ rest = rest' ∧ n = n' := by
  obtain ⟨negative, ds, _, hsign, _, hds, rfl⟩ := h.signed rest
  obtain ⟨negative', ds', _, hsign', _, hds', rfl⟩ := h'.signed rest'
  obtain ⟨htake, hdrop⟩ := hrest.span hds
  obtain ⟨htake', hdrop'⟩ := hrest'.span hds'
  rw [heq, hsign'] at hsign
  obtain ⟨hnegative, hsplit⟩ := Prod.mk.inj hsign
  rw [hsplit, htake] at htake'
  rw [hsplit, hdrop] at hdrop'
  subst hnegative htake' hdrop'
  exact ⟨List.append_cancel_right heq, rfl, rfl⟩

/-- A sign that may be there and the digits behind it are a decimal integer. -/
theorem decimal_of_scanSign {s : List Char} (hds : (scanSign s).2.takeWhile Char.isDigit ≠ []) :
    ∃ num, s = num ++ (scanSign s).2.dropWhile Char.isDigit ∧
      Decimal num (if (scanSign s).1 then
        -(digitsValue ((scanSign s).2.takeWhile Char.isDigit) : Int)
        else digitsValue ((scanSign s).2.takeWhile Char.isDigit)) := by
  have hdigits : ∀ {u : List Char}, ∀ c ∈ u.takeWhile Char.isDigit, c.isDigit = true :=
    fun c hc => List.mem_takeWhile_imp hc
  revert hds
  unfold scanSign
  split
  · rename_i u
    intro hds
    exact ⟨'-' :: u.takeWhile Char.isDigit, by simp, .minus hds hdigits⟩
  · rename_i u
    intro hds
    exact ⟨'+' :: u.takeWhile Char.isDigit, by simp, .plus hds hdigits⟩
  · intro hds
    exact ⟨s.takeWhile Char.isDigit, by simp, .unsigned hds hdigits⟩

theorem endsDigits_dropWhile (s : List Char) : EndsDigits (s.dropWhile Char.isDigit) := by
  intro c hc
  have := List.head?_dropWhile_not Char.isDigit s
  rw [Option.mem_def.mp hc] at this
  exact this

/-- `%d` reads a text if it consists of blanks, a decimal integer and something that does not
continue it. -/
theorem scanInt_iff {s rest : List Char} {v : Int} :
    scanInt s = some (v, rest) ↔
      ∃ blanks num n, s = blanks ++ (num ++ rest) ∧ (∀ c ∈ blanks, isSpace c = true) ∧
        Decimal num n ∧ EndsDigits rest ∧ v = wrapInt (clampLong n) := by
  constructor
  · intro h
    simp only [scanInt] at h
    split at h
    · cases h
    · rename_i hds
      cases h
      obtain ⟨num, hsplit, hnum⟩ := decimal_of_scanSign hds
      refine ⟨s.takeWhile isSpace, num, _, ?_, fun c hc => List.mem_takeWhile_imp hc, hnum,
        endsDigits_dropWhile _, rfl⟩
      rw [← hsplit, List.takeWhile_append_dropWhile]
  · rintro ⟨blanks, num, n, rfl, hblanks, hnum, hrest, rfl⟩
    obtain ⟨negative, ds, hspace, hsign, hne, hds, rfl⟩ := hnum.signed rest
    obtain ⟨htake, hdrop⟩ := hrest.span hds
    simp only [scanInt, List.dropWhile_append_of_pos hblanks, hspace, hsign, htake, hdrop, hne,
      if_false]

/-- A decimal integer of type `int` is read exactly. -/
theorem scanInt_decimal {num rest : List Char} {n : Int} (hnum : Decimal num n) (hn : IsInt n)
    (hrest : EndsDigits rest) : scanInt (num ++ rest) = some (n, rest) := by
  have hnone : ∀ c ∈ ([] : List Char), isSpace c = true := List.forall_mem_nil _
  exact scanInt_iff.mpr ⟨[], num, n, rfl, hnone, hnum, hrest, (wrapInt_clampLong hn).symm⟩

end BallGame.Library
