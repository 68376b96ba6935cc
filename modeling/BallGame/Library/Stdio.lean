import BallGame.Library.Binary32
import Mathlib.Data.List.TakeWhile
import Mathlib.Data.Nat.Log
import Mathlib.Data.Rat.Floor

/-!
# Formatted input and output

The parts of the C library the program formats and parses its texts with. A text is a list
of characters, one for each byte. A format is a list of directives; `scan` returns the values
that were converted before the first directive that fails, so its length is what `sscanf`
returns. The conversions follow glibc: `%d` reads a `long`, clamps it to its range and keeps
the low 32 bits.

* `scanInt_printInt`, `scanByte_printNat`, `scanFloat_printFixed`: what was printed is read
  back;
* `tokens_append`, `tokens_singleton`: the tokens of a text.
-/

namespace BallGame.Library

/-! ## Strings -/

/-- The string in a byte array, which ends at the first NUL. -/
def cString (bytes : List Char) : List Char := bytes.takeWhile (· ≠ Char.ofNat 0)

theorem cString_of_not_mem {bytes : List Char} (h : Char.ofNat 0 ∉ bytes) :
    cString bytes = bytes := by
  rw [cString, List.takeWhile_eq_self_iff]
  intro c hc
  have hne : c ≠ Char.ofNat 0 := fun he => h (he ▸ hc)
  simpa using hne

/-- Nothing behind the first NUL belongs to the string. -/
theorem cString_terminated {s : List Char} (h : Char.ofNat 0 ∉ s) (rest : List Char) :
    cString (s ++ Char.ofNat 0 :: rest) = s := by
  have hs : ∀ c ∈ s, decide (c ≠ Char.ofNat 0) = true := by
    intro c hc
    exact decide_eq_true fun he => h (he ▸ hc)
  rw [cString, List.takeWhile_append_of_pos hs, List.takeWhile_cons_of_neg (by simp),
    List.append_nil]

/-- `isspace` in the C locale. -/
def isSpace (c : Char) : Bool := c = ' ' || (9 ≤ c.toNat && c.toNat ≤ 13)

/-- The tokens `strtok` finds: the longest pieces without the delimiter, except empty ones. -/
def tokens (delim : Char) (s : List Char) : List (List Char) :=
  (s.splitOn delim).filter (· ≠ [])

/-! ## Printing -/

/-- `%d`. -/
def printInt (n : Int) : List Char :=
  if n < 0 then '-' :: Nat.toDigits 10 n.natAbs else Nat.toDigits 10 n.natAbs

/-- The two digits behind a decimal point. -/
def printHundredths (n : Nat) : List Char := [(n / 10 % 10).digitChar, (n % 10).digitChar]

/-- `%.2f`: the value is rounded to hundredths, ties to even. -/
def printFixed : Single → List Char
  | .finite q _ =>
    (if q < 0 then ['-'] else []) ++ Nat.toDigits 10 ((roundHalfEven (|q| * 100)).toNat / 100) ++
      '.' :: printHundredths (roundHalfEven (|q| * 100)).toNat
  | .infinite negative => (if negative then ['-'] else []) ++ ['i', 'n', 'f']
  | .nan => ['n', 'a', 'n']

/-! ## Scanning -/

/-- The value of a row of digits. -/
def digitsValue (ds : List Char) : Nat := ds.foldl (fun n c => 10 * n + (c.toNat - 48)) 0

def scanSign : List Char → Bool × List Char
  | '-' :: s => (true, s)
  | '+' :: s => (false, s)
  | s => (false, s)

def clampLong (n : Int) : Int := max (-9223372036854775808) (min n 9223372036854775807)

/-- The conversion of a `long` to an `int`. -/
def wrapInt (n : Int) : Int := n.bmod 4294967296

/-- `%d`. -/
def scanInt (s : List Char) : Option (Int × List Char) :=
  let signed := scanSign (s.dropWhile isSpace)
  let ds := signed.2.takeWhile Char.isDigit
  if ds = [] then none
  else
    let n : Int := if signed.1 then -digitsValue ds else digitsValue ds
    some (wrapInt (clampLong n), signed.2.dropWhile Char.isDigit)

/-- `%hhu`: an `unsigned long`, saturated and negated as `strtoul` does, cut to its low byte. -/
def scanByte (s : List Char) : Option (UInt8 × List Char) :=
  let signed := scanSign (s.dropWhile isSpace)
  let ds := signed.2.takeWhile Char.isDigit
  if ds = [] then none
  else
    let n : Int :=
      if 18446744073709551615 < digitsValue ds then 18446744073709551615
      else if signed.1 then -digitsValue ds
      else digitsValue ds
    some (UInt8.ofNat (n % 256).toNat, signed.2.dropWhile Char.isDigit)

/-- The exponent of a number, with the sign and the digits it may lack. -/
def scanExponent (mark : Char) : List Char → Int × List Char
  | c :: s =>
    if c = mark ∨ c = mark.toUpper then
      let signed := scanSign s
      let n := digitsValue (signed.2.takeWhile Char.isDigit)
      (if signed.1 then -n else n, signed.2.dropWhile Char.isDigit)
    else (0, c :: s)
  | [] => (0, [])

/-- The fraction behind the point: its digits, and the rest. -/
def scanFraction (digit : Char → Bool) : List Char → List Char × List Char
  | '.' :: s => (s.takeWhile digit, s.dropWhile digit)
  | s => ([], s)

/-- A decimal number without a sign. -/
def scanDecimal (s : List Char) : Option (ℚ × List Char) :=
  let whole := s.takeWhile Char.isDigit
  let fraction := scanFraction Char.isDigit (s.dropWhile Char.isDigit)
  if whole ++ fraction.1 = [] then none
  else
    let exponent := scanExponent 'e' fraction.2
    some (digitsValue (whole ++ fraction.1) * 10 ^ (exponent.1 - fraction.1.length), exponent.2)

def isHexDigit (c : Char) : Bool := c.isDigit || ('a' ≤ c.toLower && c.toLower ≤ 'f')

def hexDigitValue (c : Char) : Nat := if c.isDigit then c.toNat - 48 else c.toLower.toNat - 87

/-- The value of a row of hexadecimal digits. -/
def hexValue (ds : List Char) : Nat := ds.foldl (fun n c => 16 * n + hexDigitValue c) 0

/-- A hexadecimal number behind its `0x`. Of `0x.` the zero is read. -/
def scanHexadecimal (s : List Char) : Option (ℚ × List Char) :=
  let whole := s.takeWhile isHexDigit
  let fraction := scanFraction isHexDigit (s.dropWhile isHexDigit)
  if whole ++ fraction.1 = [] then
    if s.head? = some '.' then some (0, fraction.2) else none
  else
    let exponent := scanExponent 'p' fraction.2
    some (hexValue (whole ++ fraction.1) * 2 ^ (exponent.1 - 4 * fraction.1.length), exponent.2)

/-- A number without a sign. -/
def scanNumber : List Char → Option (ℚ × List Char)
  | '0' :: 'x' :: s | '0' :: 'X' :: s => scanHexadecimal s
  | s => scanDecimal s

/-- The words `%f` reads, in any case: `nan`, `inf` and `infinity`. -/
def scanWord (negative : Bool) (s : List Char) : Option (Single × List Char) :=
  let word := s.map Char.toLower
  if ['n', 'a', 'n'] <+: word then some (.nan, s.drop 3)
  else if "infinity".toList <+: word then some (.infinite negative, s.drop 8)
  else if ['i', 'n', 'f', 'i'] <+: word then none
  else if ['i', 'n', 'f'] <+: word then some (.infinite negative, s.drop 3)
  else none

/-- `%f`: the nearest single precision value. -/
def scanFloat (s : List Char) : Option (Single × List Char) :=
  let signed := scanSign (s.dropWhile isSpace)
  match scanNumber signed.2 with
  | some (q, rest) => some (Single.ofRat (if signed.1 then -q else q), rest)
  | none => scanWord signed.1 signed.2

/-! ## Formats -/

/-- A directive of a `scanf` format: a character to match, `%c`, `%d`, `%f` or `%hhu`. -/
inductive Directive where
  | literal (c : Char)
  | char
  | int
  | float
  | byte
  deriving DecidableEq

/-- A converted value. -/
inductive Scanned where
  | char (c : Char)
  | int (n : Int)
  | float (x : Single)
  | byte (b : UInt8)
  deriving DecidableEq

def scanDirective : Directive → List Char → Option (Option Scanned × List Char)
  | .literal c, s =>
    match s with
    | c' :: s' => if c' = c then some (none, s') else none
    | [] => none
  | .char, s =>
    match s with
    | c :: s' => some (some (.char c), s')
    | [] => none
  | .int, s => (scanInt s).map fun r => (some (.int r.1), r.2)
  | .float, s => (scanFloat s).map fun r => (some (.float r.1), r.2)
  | .byte, s => (scanByte s).map fun r => (some (.byte r.1), r.2)

/-- `sscanf`: the values converted before the first failure. -/
def scan : List Directive → List Char → List Scanned
  | [], _ => []
  | d :: ds, s =>
    match scanDirective d s with
    | none => []
    | some (v, rest) => v.toList ++ scan ds rest

/-! ## Reading what was printed -/

theorem digitsValue_toDigits (n : Nat) : digitsValue (Nat.toDigits 10 n) = n := by
  induction n using Nat.strongRecOn with
  | _ n ih =>
    rw [Nat.toDigits_eq_if (by decide)]
    split
    · rename_i hlt
      simp [digitsValue, Nat.toNat_digitChar_sub_48_of_lt_ten hlt]
    · rename_i hge
      have hdiv := ih (n / 10) (by omega)
      have hmod := Nat.toNat_digitChar_sub_48_of_lt_ten (Nat.mod_lt n (show 0 < 10 by decide))
      simp only [digitsValue, List.foldl_append, List.foldl_cons, List.foldl_nil] at hdiv ⊢
      rw [hdiv, hmod]
      omega

theorem isDigit_toDigits {n : Nat} {c : Char} (hc : c ∈ Nat.toDigits 10 n) : c.isDigit = true :=
  Nat.isDigit_of_mem_toDigits (by decide) (by decide) hc

/-- The text goes on with something that is not a digit. -/
def EndsDigits (rest : List Char) : Prop := ∀ c ∈ rest.head?, c.isDigit = false

theorem endsDigits_nil : EndsDigits [] := by
  intro c hc
  cases hc

theorem endsDigits_cons {c : Char} (hc : c.isDigit = false) (s : List Char) :
    EndsDigits (c :: s) := by
  intro d hd
  cases hd
  exact hc

theorem EndsDigits.span {rest : List Char} (h : EndsDigits rest) {ds : List Char}
    (hds : ∀ c ∈ ds, c.isDigit = true) :
    (ds ++ rest).takeWhile Char.isDigit = ds ∧ (ds ++ rest).dropWhile Char.isDigit = rest := by
  rw [List.takeWhile_append_of_pos hds, List.dropWhile_append_of_pos hds]
  cases rest with
  | nil => simp
  | cons c rest =>
    have hc : c.isDigit = false := h c rfl
    simp [hc]

/-- A digit is neither a space nor a sign. -/
theorem digit_first {c : Char} {s : List Char} (hc : c.isDigit = true) :
    (c :: s).dropWhile isSpace = c :: s ∧ scanSign (c :: s) = (false, c :: s) := by
  obtain ⟨hlow, hhigh⟩ : 48 ≤ c.toNat ∧ c.toNat ≤ 57 := Char.isDigit_iff_toNat.mp hc
  have hne : ∀ d : Char, d.toNat < 48 → c ≠ d := by
    rintro d hd rfl
    omega
  have hspace : isSpace c = false := by
    simp [isSpace, hne ' ' (by decide)]
    omega
  refine ⟨by simp [hspace], ?_⟩
  unfold scanSign
  split
  · rename_i he
    exact absurd (List.cons.inj he).1 (hne '-' (by decide))
  · rename_i he
    exact absurd (List.cons.inj he).1 (hne '+' (by decide))
  · rfl

theorem minus_first (s : List Char) :
    ('-' :: s).dropWhile isSpace = '-' :: s ∧ scanSign ('-' :: s) = (true, s) :=
  ⟨by simp [isSpace], rfl⟩

/-- The sign and the digits of a printed number are read off again. -/
theorem scanSign_printed (negative : Bool) (n : Nat) (s : List Char) :
    scanSign (((if negative then ['-'] else []) ++ Nat.toDigits 10 n ++ s).dropWhile isSpace) =
      (negative, Nat.toDigits 10 n ++ s) := by
  cases negative with
  | true =>
    simp only [if_true, List.cons_append, List.nil_append]
    rw [(minus_first _).1, (minus_first _).2]
  | false =>
    simp only [Bool.false_eq_true, if_false, List.nil_append]
    cases hds : Nat.toDigits 10 n with
    | nil => exact absurd hds Nat.toDigits_ne_nil
    | cons c ds =>
      have hc : c.isDigit = true := isDigit_toDigits (n := n) (hds ▸ List.mem_cons_self)
      rw [List.cons_append, (digit_first hc).1, (digit_first hc).2]

theorem printInt_eq (n : Int) :
    printInt n = (if decide (n < 0) then ['-'] else []) ++ Nat.toDigits 10 n.natAbs := by
  unfold printInt
  by_cases hn : n < 0
  · simp [hn]
  · simp [hn]

theorem wrapInt_clampLong {n : Int} (hn : IsInt n) : wrapInt (clampLong n) = n := by
  have hclamp : clampLong n = n := by
    unfold clampLong
    have h₁ := hn.1
    have h₂ := hn.2
    omega
  rw [hclamp, wrapInt]
  apply Int.bmod_eq_of_le
  · have := hn.1
    omega
  · have := hn.2
    omega

/-- Every `int` is read back. -/
theorem scanInt_printInt {n : Int} (hn : IsInt n) {rest : List Char} (hrest : EndsDigits rest) :
    scanInt (printInt n ++ rest) = some (n, rest) := by
  obtain ⟨htake, hdrop⟩ := hrest.span fun c hc => isDigit_toDigits (n := n.natAbs) hc
  have habs : (if decide (n < 0) = true then -(n.natAbs : Int) else n.natAbs) = n := by
    split
    · rename_i h
      have := of_decide_eq_true h
      omega
    · rename_i h
      have := of_decide_eq_false (Bool.eq_false_iff.mpr h)
      omega
  simp only [scanInt, printInt_eq, scanSign_printed, htake, hdrop, digitsValue_toDigits,
    Nat.toDigits_ne_nil, if_false, habs, wrapInt_clampLong hn]

/-- Every byte is read back. -/
theorem scanByte_printNat (b : UInt8) {rest : List Char} (hrest : EndsDigits rest) :
    scanByte (Nat.toDigits 10 b.toNat ++ rest) = some (b, rest) := by
  obtain ⟨htake, hdrop⟩ := hrest.span fun c hc => isDigit_toDigits (n := b.toNat) hc
  have hsign := scanSign_printed false b.toNat rest
  simp only [Bool.false_eq_true, if_false, List.nil_append] at hsign
  have hlt := b.toNat_lt
  have hsmall : ¬ 18446744073709551615 < b.toNat := by omega
  have hmod : ((b.toNat : Int) % 256).toNat = b.toNat := by omega
  simp only [scanByte, hsign, htake, hdrop, digitsValue_toDigits, Nat.toDigits_ne_nil, if_false,
    hsmall, Bool.false_eq_true, hmod, UInt8.ofNat_toNat]

/-- A whole number is printed with two zeros behind the point. -/
theorem printFixed_of_isWhole {x : Single} {n : Int} (hx : x.IsWhole n) :
    printFixed x = (if decide (n < 0) then ['-'] else []) ++ Nat.toDigits 10 n.natAbs ++
      ['.', '0', '0'] := by
  obtain ⟨h, rfl⟩ := hx
  have habs : roundHalfEven (|(n : ℚ)| * 100) = (n.natAbs * 100 : ℕ) := by
    have hcast : |(n : ℚ)| * 100 = (((n.natAbs * 100 : ℕ) : ℤ) : ℚ) := by
      push_cast
      rfl
    rw [hcast, roundHalfEven_intCast]
  have hdiv : n.natAbs * 100 / 100 = n.natAbs := Nat.mul_div_cancel _ (by decide)
  have hneg : ((n : ℚ) < 0) = (n < 0) := by simp
  have hzeros : printHundredths (n.natAbs * 100) = ['0', '0'] := by
    have h₁ : n.natAbs * 100 / 10 % 10 = 0 := by omega
    have h₂ : n.natAbs * 100 % 10 = 0 := by omega
    rw [printHundredths, h₁, h₂]
    rfl
  simp only [printFixed, habs, Int.toNat_natCast, hdiv, hneg, hzeros, decide_eq_true_eq]

/-- The text behind a printed decimal number does not continue it. -/
def EndsDecimal (rest : List Char) : Prop :=
  ∀ c ∈ rest.head?, c.isDigit = false ∧ c ≠ 'e' ∧ c ≠ 'E'

theorem scanDecimal_printed (n : Nat) {rest : List Char} (hrest : EndsDecimal rest) :
    scanDecimal (Nat.toDigits 10 n ++ ['.', '0', '0'] ++ rest) = some ((n : ℚ), rest) := by
  have hpoint : EndsDigits ('.' :: '0' :: '0' :: rest) := endsDigits_cons rfl _
  have hdigits : EndsDigits rest := fun c hc => (hrest c hc).1
  obtain ⟨htake, hdrop⟩ := hpoint.span fun c hc => isDigit_toDigits (n := n) hc
  have hzeros : ∀ c ∈ ['0', '0'], c.isDigit = true :=
    List.forall_mem_cons.mpr ⟨rfl, List.forall_mem_singleton.mpr rfl⟩
  obtain ⟨htake', hdrop'⟩ := hdigits.span hzeros
  have hexponent : scanExponent 'e' rest = (0, rest) := by
    cases rest with
    | nil => rfl
    | cons c rest =>
      obtain ⟨_, he, hE⟩ := hrest c rfl
      simp [scanExponent, he, hE]
  have hvalue : digitsValue (Nat.toDigits 10 n ++ ['0', '0']) = 100 * n := by
    have hn := digitsValue_toDigits n
    simp only [digitsValue, List.foldl_append, List.foldl_cons, List.foldl_nil] at hn ⊢
    rw [hn]
    simp
    omega
  have hfraction : scanFraction Char.isDigit ('.' :: '0' :: '0' :: rest) = (['0', '0'], rest) := by
    simp only [scanFraction]
    rw [show '0' :: '0' :: rest = ['0', '0'] ++ rest from rfl, htake', hdrop']
  have hsplit : Nat.toDigits 10 n ++ ['.', '0', '0'] ++ rest =
      Nat.toDigits 10 n ++ '.' :: '0' :: '0' :: rest := by simp
  simp only [scanDecimal, hsplit, htake, hdrop, hfraction, hexponent, hvalue,
    List.append_eq_nil_iff, Nat.toDigits_ne_nil, false_and, if_false, List.length_cons,
    List.length_nil]
  norm_num
  field_simp

/-- A printed number is not hexadecimal. -/
theorem scanNumber_printed (n : Nat) {rest : List Char} (hrest : EndsDecimal rest) :
    scanNumber (Nat.toDigits 10 n ++ ['.', '0', '0'] ++ rest) = some ((n : ℚ), rest) := by
  have hdigit : ∀ {c : Char} {s : List Char}, Nat.toDigits 10 n ++ ['.', '0', '0'] ++ rest =
      '0' :: c :: s → c.isDigit = true ∨ c = '.' := by
    intro c s h
    have hdigits : ∀ c ∈ Nat.toDigits 10 n, c.isDigit = true := fun c hc => isDigit_toDigits hc
    cases hds : Nat.toDigits 10 n with
    | nil => exact absurd hds Nat.toDigits_ne_nil
    | cons d ds =>
      rw [hds] at h hdigits
      cases ds with
      | nil =>
        cases h
        exact Or.inr rfl
      | cons d' ds =>
        cases h
        exact Or.inl (hdigits c (by simp))
  rw [← scanDecimal_printed n hrest]
  unfold scanNumber
  split
  · rename_i h
    exact absurd (hdigit h) (by decide)
  · rename_i h
    exact absurd (hdigit h) (by decide)
  · rfl

/-- Every whole single precision value is read back. -/
theorem scanFloat_printFixed {x : Single} {n : Int} (hx : x.IsWhole n) {rest : List Char}
    (hrest : EndsDecimal rest) : scanFloat (printFixed x ++ rest) = some (x, rest) := by
  have hvalue : (if decide (n < 0) = true then -(n.natAbs : ℚ) else n.natAbs) = n := by
    rw [Nat.cast_natAbs]
    split
    · rename_i h
      rw [abs_of_neg (of_decide_eq_true h), Int.cast_neg, neg_neg]
    · rename_i h
      have := of_decide_eq_false (Bool.eq_false_iff.mpr h)
      rw [abs_of_nonneg (by omega)]
  have hsplit : printFixed x ++ rest = (if decide (n < 0) then ['-'] else []) ++
      Nat.toDigits 10 n.natAbs ++ (['.', '0', '0'] ++ rest) := by
    rw [printFixed_of_isWhole hx, List.append_assoc]
  obtain ⟨h, rfl⟩ := hx
  rw [scanFloat, hsplit, scanSign_printed]
  simp only [← List.append_assoc, scanNumber_printed _ hrest, hvalue, Single.ofRat_of_isSingle h]

/-! ## What an `int` directive reads -/

theorem isInt_wrapInt (n : Int) : IsInt (wrapInt n) := by
  have hlow := Int.le_bmod (x := n) (m := 4294967296) (by decide)
  have hhigh := Int.bmod_lt (x := n) (m := 4294967296) (by decide)
  constructor
  · rw [wrapInt]
    omega
  · rw [wrapInt]
    omega

theorem isInt_of_scanDirective {d : Directive} {s rest : List Char} {n : Int}
    (h : scanDirective d s = some (some (.int n), rest)) : IsInt n := by
  cases d with
  | int =>
    obtain ⟨r, hr, he⟩ := Option.map_eq_some_iff.mp h
    cases he
    simp only [scanInt] at hr
    split at hr
    · cases hr
    · cases hr
      exact isInt_wrapInt _
  | literal c =>
    simp only [scanDirective] at h
    split at h
    · split at h
      · cases h
      · cases h
    · cases h
  | char =>
    simp only [scanDirective] at h
    split at h
    · cases h
    · cases h
  | float =>
    obtain ⟨r, _, he⟩ := Option.map_eq_some_iff.mp h
    cases he
  | byte =>
    obtain ⟨r, _, he⟩ := Option.map_eq_some_iff.mp h
    cases he

theorem isInt_of_mem_scan {ds : List Directive} {s : List Char} {n : Int}
    (h : .int n ∈ scan ds s) : IsInt n := by
  induction ds generalizing s with
  | nil => cases h
  | cons d ds ih =>
    rw [scan] at h
    split at h
    · cases h
    · rename_i v rest hd
      rcases List.mem_append.mp h with hv | hrest
      · rw [Option.mem_toList] at hv
        cases hv
        exact isInt_of_scanDirective hd
      · exact ih hrest

/-! ## The shape of printed numbers -/

/-- The characters of a printed number. -/
def isNumeral (c : Char) : Bool := c.isDigit || c = '-' || c = '.'

theorem isNumeral_digits {n : Nat} {c : Char} (hc : c ∈ Nat.toDigits 10 n) :
    isNumeral c = true := by
  simp [isNumeral, isDigit_toDigits hc]

theorem isNumeral_printInt {n : Int} {c : Char} (hc : c ∈ printInt n) : isNumeral c = true := by
  unfold printInt at hc
  split at hc
  · rcases List.mem_cons.mp hc with rfl | hc
    · rfl
    · exact isNumeral_digits hc
  · exact isNumeral_digits hc

theorem isNumeral_digitChar {n : Nat} (hn : n < 10) : isNumeral n.digitChar = true := by
  revert n
  decide

/-- A value that is not finite is printed as a word. -/
theorem printFixed_chars {x : Single} {c : Char} (hc : c ∈ printFixed x) :
    isNumeral c = true ∨ c ∈ ['i', 'n', 'f', 'a'] := by
  cases x with
  | finite q h =>
    left
    simp only [printFixed, printHundredths] at hc
    rcases List.mem_append.mp hc with hc | hc
    · rcases List.mem_append.mp hc with hc | hc
      · split at hc
        · rw [List.mem_singleton.mp hc]
          rfl
        · cases hc
      · exact isNumeral_digits hc
    · rcases List.mem_cons.mp hc with rfl | hc
      · rfl
      · rcases List.mem_pair.mp hc with rfl | rfl
        · exact isNumeral_digitChar (Nat.mod_lt _ (by decide))
        · exact isNumeral_digitChar (Nat.mod_lt _ (by decide))
  | infinite negative =>
    simp only [printFixed] at hc
    rcases List.mem_append.mp hc with hc | hc
    · split at hc
      · rw [List.mem_singleton.mp hc]
        exact Or.inl rfl
      · cases hc
    · exact Or.inr (List.mem_append_left ['a'] hc)
  | nan =>
    right
    simp only [printFixed, List.mem_cons, List.not_mem_nil, or_false] at hc
    rcases hc with rfl | rfl | rfl
    · decide
    · decide
    · decide

theorem printInt_ne_nil (n : Int) : printInt n ≠ [] := by
  unfold printInt
  split
  · exact List.cons_ne_nil _ _
  · exact Nat.toDigits_ne_nil

/-- The number of characters of `%d`. -/
def decimalWidth (n : Int) : Nat := (if n < 0 then 1 else 0) + (Nat.log 10 n.natAbs + 1)

theorem length_toDigits (n : Nat) : (Nat.toDigits 10 n).length = Nat.log 10 n + 1 := by
  have hle : (Nat.toDigits 10 n).length ≤ Nat.log 10 n + 1 :=
    (Nat.length_toDigits_le_iff (by decide) (by omega)).mpr
      (Nat.lt_pow_succ_log_self (by decide) n)
  have hpos : 0 < (Nat.toDigits 10 n).length := Nat.length_toDigits_pos
  by_contra hne
  have hlt : (Nat.toDigits 10 n).length ≤ Nat.log 10 n := by omega
  have hsmall := (Nat.length_toDigits_le_iff (by decide) (by omega)).mp hlt
  have hn : n ≠ 0 := by
    rintro rfl
    rw [Nat.log_zero_right] at hlt
    omega
  exact absurd (Nat.pow_log_le_self 10 hn) (by omega)

theorem length_printInt_eq (n : Int) : (printInt n).length = decimalWidth n := by
  unfold printInt decimalWidth
  split
  · rw [List.length_cons, length_toDigits]
    omega
  · rw [length_toDigits]
    omega

theorem length_printFixed_eq {x : Single} {n : Int} (hx : x.IsWhole n) :
    (printFixed x).length = decimalWidth n + 3 := by
  rw [printFixed_of_isWhole hx, List.length_append, List.length_append, length_toDigits,
    decimalWidth]
  simp only [decide_eq_true_eq, List.length_cons, List.length_nil]
  split
  · rw [List.length_singleton]
  · rw [List.length_nil]

theorem length_printInt {n : Int} {k : Nat} (hk : 0 < k) (hn : n.natAbs < 10 ^ k) :
    (printInt n).length ≤ k + 1 := by
  have hdigits := (Nat.length_toDigits_le_iff (by decide) hk).mpr hn
  unfold printInt
  split
  · rw [List.length_cons]
    omega
  · omega

theorem length_printFixed {x : Single} {n : Int} (hx : x.IsWhole n) {k : Nat} (hk : 0 < k)
    (hn : n.natAbs < 10 ^ k) : (printFixed x).length ≤ k + 4 := by
  have hdigits := (Nat.length_toDigits_le_iff (by decide) hk).mpr hn
  rw [printFixed_of_isWhole hx, List.length_append, List.length_append]
  split
  · simp only [List.length_cons, List.length_nil]
    omega
  · simp only [List.length_cons, List.length_nil]
    omega

/-- A `float` has at most 39 digits before the point. -/
theorem length_printFixed_le (x : Single) : (printFixed x).length ≤ 43 := by
  cases x with
  | finite q h =>
    have hround : roundHalfEven (|q| * 100) ≤ 2 ^ 128 * 100 := by
      have hle : |q| * 100 ≤ ((2 ^ 128 * 100 : ℤ) : ℚ) := by
        push_cast
        linarith [h.2]
      have hmono := roundHalfEven_mono hle
      rwa [roundHalfEven_intCast] at hmono
    have hsmall : (roundHalfEven (|q| * 100)).toNat / 100 < 10 ^ 39 := by omega
    have hdigits := (Nat.length_toDigits_le_iff (by decide) (by decide)).mpr hsmall
    simp only [printFixed, printHundredths, List.length_append, List.length_cons,
      List.length_nil]
    split
    · rw [List.length_singleton]
      omega
    · rw [List.length_nil]
      omega
  | infinite negative => cases negative <;> decide
  | nan => decide

/-! ## Tokens -/

theorem tokens_append (delim : Char) (s t : List Char) :
    tokens delim (s ++ delim :: t) = tokens delim s ++ tokens delim t := by
  simp [tokens, List.splitOn_append_cons_self]

theorem tokens_of_not_mem {delim : Char} {s : List Char} (h : delim ∉ s) (hs : s ≠ []) :
    tokens delim s = [s] := by
  simp [tokens, List.splitOn_eq_singleton h, hs]

theorem tokens_nil (delim : Char) : tokens delim [] = [] := rfl

/-- There is a token at the beginning of a text that does not begin with the delimiter. -/
theorem tokens_cons_ne_nil {delim c : Char} (hc : c ≠ delim) (s : List Char) :
    tokens delim (c :: s) ≠ [] := by
  by_cases hmem : delim ∈ c :: s
  · obtain ⟨a, b, hsplit, hnot⟩ := List.eq_append_cons_of_mem hmem
    have ha : a ≠ [] := by
      rintro rfl
      exact hc (List.cons.inj hsplit).1
    rw [hsplit, tokens_append, tokens_of_not_mem hnot ha]
    exact List.append_ne_nil_of_left_ne_nil (List.cons_ne_nil _ _) _
  · rw [tokens_of_not_mem hmem (List.cons_ne_nil c s)]
    exact List.cons_ne_nil _ _

/-- Every token takes at least one character. -/
theorem length_tokens_le (delim : Char) (s : List Char) : (tokens delim s).length ≤ s.length := by
  induction hn : s.length using Nat.strongRecOn generalizing s with
  | _ n ih =>
    subst hn
    by_cases hmem : delim ∈ s
    · obtain ⟨a, b, rfl⟩ := List.append_of_mem hmem
      have ha := ih a.length (by simp only [List.length_append, List.length_cons]; omega) a rfl
      have hb := ih b.length (by simp only [List.length_append, List.length_cons]; omega) b rfl
      rw [tokens_append]
      simp only [List.length_append, List.length_cons]
      omega
    · cases s with
      | nil => exact Nat.le_refl 0
      | cons c s =>
        rw [tokens_of_not_mem hmem (List.cons_ne_nil c s)]
        simp

end BallGame.Library
