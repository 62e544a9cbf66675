import ScriptTree.Proofs.Lexical.Literals
import ScriptTree.Source.Place
import Mathlib.Algebra.Order.Field.Power
import Mathlib.Algebra.Order.Field.Rat
import Mathlib.Tactic.FieldSimp
import Mathlib.Tactic.Ring

/-!
What number literals stand for. The value of a decimal literal of ECMAScript 5 is a rational
number: its digits on both sides of the point, times a power of ten. The text of an integer or
of a finite decimal is a literal with exactly its value, after a sign if it is negative.
-/

namespace ScriptTree.Lexical

open Source Json

/-- Whether digits can stand before the point: a zero alone, or digits that start with another
one. -/
def isDecimalInteger : Text → Bool
  | [] => false
  | first :: more => !first.is '0' || more.isEmpty

def afterPoint : Text → Text × Text
  | [] => ([], [])
  | c :: rest => if c.is '.' then Decimal.splitDigits rest else ([], c :: rest)

/-- The value of a decimal literal, if the text is one: digits must stand on one side of the
point at least, and nothing may follow the exponent. -/
def decimalValue? (t : Text) : Option ℚ :=
  let (whole, rest) := Decimal.splitDigits t
  let (places, power) := afterPoint rest
  if isDecimalInteger whole || whole.isEmpty && !places.isEmpty then
    (Decimal.exponent? power).map fun exponent =>
      (Text.digitsValue whole + Text.digitsValue places / 10 ^ places.length) * 10 ^ exponent
  else none

section Reading

variable {digits frac power rest : Text}

theorem splitDigits_append (h : AllDigits digits)
    (hrest : stops CodePoint.isAsciiDigit rest = true) :
    Decimal.splitDigits (digits ++ rest) = (digits, rest) := by
  have hdrop : (digits ++ rest).dropWhile CodePoint.isAsciiDigit = rest := by
    rw [List.dropWhile_append_of_pos h]
    cases rest with
    | nil => rfl
    | cons c rest =>
      have hc : c.isAsciiDigit = false := by simpa [stops] using hrest
      simp [hc]
  rw [Decimal.splitDigits, List.span_eq_takeWhile_dropWhile, takeWhile_stops h hrest, hdrop]

theorem stops_power (h : IsPower power) : stops continuesFraction power = true := by
  rcases h with rfl | ⟨mark, sign, digits, rfl, -, -, rfl | rfl, -⟩ <;> rfl

theorem afterPoint_append (hfrac : IsFraction frac) (hpower : IsPower power) :
    afterPoint (frac ++ power) = (frac.drop 1, power) := by
  rcases hfrac with rfl | ⟨places, rfl, -, hplaces⟩
  · rcases hpower with rfl | ⟨mark, sign, digits, rfl, -, -, rfl | rfl, -⟩ <;> rfl
  · exact splitDigits_append hplaces (stops_digits (stops_power hpower))

theorem isDecimalInteger_of_isWhole (h : IsWhole digits) : isDecimalInteger digits = true := by
  obtain ⟨-, first, more, rfl, hzero⟩ := h
  cases hfirst : first.is '0' with
  | false => simp [isDecimalInteger, hfirst]
  | true => simp [isDecimalInteger, hzero hfirst]

/-- The value of a literal, of its parts. -/
theorem decimalValue?_parts (hwhole : IsWhole digits) (hfrac : IsFraction frac)
    (hpower : IsPower power) :
    decimalValue? (digits ++ frac ++ power) = (Decimal.exponent? power).map fun exponent =>
      ((Text.digitsValue digits : ℚ) +
        Text.digitsValue (frac.drop 1) / 10 ^ (frac.drop 1).length) * 10 ^ exponent := by
  have hstops := stops_fraction hfrac (stops_power hpower)
  rw [decimalValue?, List.append_assoc, splitDigits_append hwhole.1 hstops]
  dsimp only
  rw [afterPoint_append hfrac hpower]
  dsimp only
  rw [isDecimalInteger_of_isWhole hwhole, Bool.true_or, if_pos rfl]

/-- Moving the point to the end of the digits takes one power of ten for each place. -/
theorem value_places (whole places : Text) (exponent : Int) :
    ((Text.digitsValue whole : ℚ) + Text.digitsValue places / 10 ^ places.length) *
        10 ^ (exponent + places.length) =
      Text.digitsValue (whole ++ places) * 10 ^ exponent := by
  have hten : (10 : ℚ) ^ places.length ≠ 0 := pow_ne_zero _ (by norm_num)
  have hpower : (10 : ℚ) ^ (exponent + places.length) = 10 ^ exponent * 10 ^ places.length := by
    rw [zpow_add₀ (by norm_num), zpow_natCast]
  rw [digitsValue_append, hpower]
  push_cast
  field_simp

/-- The literal of the digits of a natural number. -/
theorem decimalValue?_ofNat (n : Nat) : decimalValue? (Text.ofNat n) = some (n : ℚ) := by
  have hparts := decimalValue?_parts (isWhole_ofNat n) (.inl rfl) (.inl rfl)
  have hzero : Text.digitsValue [] = 0 := rfl
  simpa [Decimal.exponent?, digitsValue_ofNat, hzero] using hparts

theorem decimalValue?_magnitudeText (coefficient : Nat) (exponent : Int) :
    decimalValue? (Decimal.magnitudeText coefficient exponent) =
      some ((coefficient : ℚ) * 10 ^ exponent) := by
  obtain ⟨digits, frac, power, htext, hparts⟩ := exists_parts coefficient exponent
  rw [htext, decimalValue?_parts hparts.isWhole hparts.isFraction hparts.isPower,
    hparts.exponent_eq, Option.map_some, value_places, hparts.coefficient_eq]

end Reading

section Tokens

variable {digits frac power : Text}

theorem tokens?_number (α : Alphabet) (hwhole : IsWhole digits) (hfrac : IsFraction frac)
    (hpower : IsPower power) :
    tokens? α (digits ++ frac ++ power) = some [digits ++ frac ++ power] := by
  obtain ⟨phase, hphase, -, hscan⟩ := scan_number (α := α) hwhole hfrac hpower
  rw [tokens?, hscan]
  cases phase with
  | zero | whole | hexadecimal | fraction | exponent => rfl
  | _ => cases hphase

theorem head_number (hwhole : IsWhole digits) :
    (digits ++ frac ++ power).startsWith "-" = false := by
  obtain ⟨hall, c, more, rfl, -⟩ := hwhole
  have hc : c ≠ CodePoint.ofChar '-' := by
    rintro rfl
    exact absurd (hall _ List.mem_cons_self) (by decide)
  simpa [Text.startsWith, Text.ofString, List.isPrefixOf] using hc.symm

end Tokens

inductive ExactNumber where
  | int (i : Int)
  | decimal (negative : Bool) (coefficient : Nat) (exponent : Int)
deriving DecidableEq

namespace ExactNumber

def atom : ExactNumber → Atom
  | .int i => .int i
  | .decimal negative coefficient exponent => .decimal (.finite negative coefficient exponent)

/-- The sign, which a zero can have, too. -/
def isNegative : ExactNumber → Bool
  | .int i => i < 0
  | .decimal negative _ _ => negative

def magnitude : ExactNumber → ℚ
  | .int i => |(i : ℚ)|
  | .decimal _ coefficient exponent => coefficient * 10 ^ exponent

def value : ExactNumber → ℚ
  | .int i => i
  | .decimal negative coefficient exponent =>
    (if negative then -1 else 1) * coefficient * 10 ^ exponent

def magnitudeText : ExactNumber → Text
  | .int i => Text.ofNat i.natAbs
  | .decimal _ coefficient exponent => Decimal.magnitudeText coefficient exponent

variable (x : ExactNumber)

theorem value_eq : x.value = (if x.isNegative then -1 else 1) * x.magnitude := by
  cases x with
  | int i =>
    by_cases hi : i < 0
    · have habs : |(i : ℚ)| = -i := abs_of_neg (by exact_mod_cast hi)
      simp [value, isNegative, magnitude, hi, habs]
    · have habs : |(i : ℚ)| = i := abs_of_nonneg (by exact_mod_cast Int.not_lt.mp hi)
      simp [value, isNegative, magnitude, hi, habs]
  | decimal negative coefficient exponent =>
    exact mul_assoc ..

/-- The text can be shown: an integer must not have too many digits. -/
def IsShown : ExactNumber → Prop
  | .int i => i.natAbs < 10 ^ Text.digitLimit
  | .decimal .. => True

variable {x} in
theorem numberText?_atom (h : x.IsShown) :
    numberText? x.atom = some (Json.signText x.isNegative ++ x.magnitudeText) := by
  cases x with
  | int i =>
    rw [atom, numberText?, Text.ofInt?_eq_some_iff]
    refine ⟨h, ?_⟩
    rw [Text.ofInt]
    by_cases hi : i < 0 <;> simp [hi, isNegative, magnitudeText, Json.signText, Text.ofString]
  | decimal negative coefficient exponent => cases negative <;> rfl

variable {x} in
theorem number_atom (h : x.IsShown) :
    number (.atom x.atom) = .ok (Json.signText x.isNegative ++ x.magnitudeText) := by
  have htext := numberText?_atom h
  cases x <;> simp only [atom] at htext ⊢ <;> rw [number, htext] <;> exact nofun

variable {x} in
theorem number_of_not_isShown (h : ¬x.IsShown) :
    number (.atom x.atom) = .error .tooManyDigits := by
  cases x with
  | int i =>
    have htext : numberText? (.int i) = none := Text.ofInt?_eq_none_iff.mpr h
    rw [atom, number, htext]
    · rfl
    · exact nofun
  | decimal negative coefficient exponent => exact absurd trivial h

variable {x} in
/-- Where a literal needs parentheses depends on its text alone. -/
theorem refuses_literal (h : x.IsShown) (place : Place) :
    place.refuses (.node (.literal (.atom x.atom))) =
      place.refusesNumber (Json.signText x.isNegative ++ x.magnitudeText) := by
  rw [Place.refuses, numberOf?, numberText?_atom h]
  cases place <;> rfl

theorem decimalValue?_magnitudeText : decimalValue? x.magnitudeText = some x.magnitude := by
  cases x with
  | int i =>
    rw [magnitudeText, decimalValue?_ofNat, magnitude]
    congr 1
    rw [← Int.cast_abs, Int.abs_eq_natAbs, Int.cast_natCast]
  | decimal negative coefficient exponent =>
    exact Lexical.decimalValue?_magnitudeText coefficient exponent

theorem exists_parts : ∃ digits frac power, x.magnitudeText = digits ++ frac ++ power ∧
    IsWhole digits ∧ IsFraction frac ∧ IsPower power := by
  cases x with
  | int i => exact ⟨Text.ofNat i.natAbs, [], [], by simp [magnitudeText], isWhole_ofNat _,
      .inl rfl, .inl rfl⟩
  | decimal negative coefficient exponent =>
    obtain ⟨digits, frac, power, htext, hparts⟩ := Lexical.exists_parts coefficient exponent
    exact ⟨digits, frac, power, htext, hparts.isWhole, hparts.isFraction, hparts.isPower⟩

theorem startsWith_text :
    (Json.signText x.isNegative ++ x.magnitudeText).startsWith "-" = x.isNegative := by
  obtain ⟨digits, frac, power, htext, hwhole, -, -⟩ := x.exists_parts
  cases x.isNegative with
  | false => rw [htext]; exact head_number hwhole
  | true => rfl

end ExactNumber

/-- The text of an integer or of a finite decimal is a sign if it is negative, and one decimal
literal with exactly its value. The sign decides where the literal needs parentheses: it needs
them before an argument list and before an access by index, and every number does before an
access by name. Only an integer with too many digits has no text, and printing it fails. -/
theorem number_exact (α : Alphabet) (x : ExactNumber) :
    (x.IsShown ∧ ∃ text literal magnitude, number (.atom x.atom) = .ok text ∧
      text = Json.signText x.isNegative ++ literal ∧
      tokens? α literal = some [literal] ∧ decimalValue? literal = some magnitude ∧
      x.value = (if x.isNegative then -1 else 1) * magnitude ∧
      text.startsWith "-" = x.isNegative ∧
      Place.callee.refuses (.node (.literal (.atom x.atom))) = x.isNegative ∧
      (Place.object true).refuses (.node (.literal (.atom x.atom))) = x.isNegative ∧
      (Place.object false).refuses (.node (.literal (.atom x.atom))) = true) ∨
    (¬x.IsShown ∧ number (.atom x.atom) = .error .tooManyDigits) := by
  by_cases hshown : x.IsShown
  · obtain ⟨digits, frac, power, htext, hwhole, hfrac, hpower⟩ := x.exists_parts
    have hsign := x.startsWith_text
    refine .inl ⟨hshown, _, x.magnitudeText, x.magnitude, ExactNumber.number_atom hshown, rfl, ?_,
      x.decimalValue?_magnitudeText, x.value_eq, hsign, ?_, ?_, ?_⟩
    · rw [htext]
      exact tokens?_number α hwhole hfrac hpower
    · rw [ExactNumber.refuses_literal hshown]
      exact hsign
    · rw [ExactNumber.refuses_literal hshown]
      exact hsign
    · rw [ExactNumber.refuses_literal hshown]
      rfl
  · exact .inr ⟨hshown, ExactNumber.number_of_not_isShown hshown⟩

def leastHidden : ExactNumber := .int (10 ^ Text.digitLimit : Nat)

theorem number_leastHidden : number (.atom leastHidden.atom) = .error .tooManyDigits := by
  refine ExactNumber.number_of_not_isShown fun h => ?_
  have hlt : ((10 ^ Text.digitLimit : Nat) : Int).natAbs < 10 ^ Text.digitLimit := h
  rw [Int.natAbs_natCast] at hlt
  exact lt_irrefl _ hlt

end ScriptTree.Lexical
