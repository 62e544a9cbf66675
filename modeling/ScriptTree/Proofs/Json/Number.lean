import ScriptTree.Json.Parser
import ScriptTree.Json.Writer
import ScriptTree.Proofs.Text
import ScriptTree.Proofs.Number.Shortest
import Mathlib.Tactic.IntervalCases

/-!
Numbers in JSON text. A number is read up to the first code point that cannot continue it,
and its parts are its sign, whole part, fraction and exponent. The text of an integer and
the text of a finite double are read back as the number they were written for.
-/

namespace ScriptTree.Json

/-- Whether a text ends, or goes on with a code point that is not of a class. -/
def stops (p : CodePoint → Bool) : Text → Bool
  | [] => true
  | c :: _ => !p c

theorem takeWhile_stops {p : CodePoint → Bool} {run rest : Text} (hrun : ∀ c ∈ run, p c = true)
    (hrest : stops p rest = true) : (run ++ rest).takeWhile p = run := by
  rw [List.takeWhile_append_of_pos hrun]
  cases rest with
  | nil => simp
  | cons c rest =>
    have hc : p c = false := by simpa [stops] using hrest
    simp [hc]

section Digits

def AllDigits (t : Text) : Prop := ∀ c ∈ t, c.isAsciiDigit = true

theorem allDigits_ofNat (n : Nat) : AllDigits (Text.ofNat n) := fun _ =>
  Text.isAsciiDigit_of_mem_ofNat

theorem AllDigits.append {a b : Text} (ha : AllDigits a) (hb : AllDigits b) :
    AllDigits (a ++ b) := by
  intro c hc
  rcases List.mem_append.mp hc with h | h
  · exact ha c h
  · exact hb c h

theorem allDigits_zeros (k : Nat) : AllDigits (Text.repeated "0" k) := by
  intro c hc
  obtain ⟨unit, hunit, hc⟩ := List.mem_flatten.mp hc
  obtain rfl := List.eq_of_mem_replicate hunit
  obtain rfl : c = CodePoint.ofChar '0' := by simpa [Text.ofString] using hc
  decide

theorem digitsValue_append (a b : Text) :
    Text.digitsValue (a ++ b) = Text.digitsValue a * 10 ^ b.length + Text.digitsValue b := by
  have hfold : ∀ (t : Text) (n : Nat), t.foldl (fun n c => n * 10 + c.digitValue) n =
      n * 10 ^ t.length + Text.digitsValue t := by
    intro t
    induction t with
    | nil => intro n; simp [Text.digitsValue]
    | cons c rest ih =>
      intro n
      rw [Text.digitsValue, List.foldl_cons, List.foldl_cons, ih, ih, List.length_cons, pow_succ]
      ring
  rw [Text.digitsValue, List.foldl_append, hfold]
  rfl

theorem digitsValue_ofNat (n : Nat) : Text.digitsValue (Text.ofNat n) = n := by
  have hchars : ∀ (cs : List Char) (k : Nat),
      (cs.map CodePoint.ofChar).foldl (fun n c => n * 10 + c.digitValue) k =
        Nat.ofDigitChars 10 cs k := by
    intro cs
    induction cs with
    | nil => intro k; rfl
    | cons c cs ih =>
      intro k
      rw [List.map_cons, List.foldl_cons, ih, Nat.ofDigitChars_cons, Nat.mul_comm 10 k]
      rfl
  rw [Text.digitsValue, Text.ofNat, hchars, Nat.ofDigitChars_toDigits (by decide) (by decide)]

@[simp] theorem length_zeros (k : Nat) : (Text.repeated "0" k).length = k := by
  have hunit : (Text.ofString "0").length = 1 := by decide
  simp [Text.repeated, hunit]

@[simp] theorem digitsValue_zeros (k : Nat) : Text.digitsValue (Text.repeated "0" k) = 0 := by
  induction k with
  | zero => rfl
  | succ k ih =>
    have hsucc : Text.repeated "0" (k + 1) = Text.ofString "0" ++ Text.repeated "0" k := by
      simp [Text.repeated, List.replicate_succ]
    have hunit : Text.digitsValue "0" = 0 := by decide
    rw [hsucc, digitsValue_append, ih, hunit, Nat.zero_mul]

/-- A positive number does not start with a zero. -/
theorem ofNat_head {n : Nat} (hn : 0 < n) :
    ∃ first rest, Text.ofNat n = first :: rest ∧ first.is '0' = false := by
  have hdigits : ∀ n, 0 < n → ∃ c cs, Nat.toDigits 10 n = c :: cs ∧ c ≠ '0' := by
    intro n
    induction n using Nat.strong_induction_on with
    | _ n ih =>
      intro hn
      by_cases hlt : n < 10
      · refine ⟨n.digitChar, [], Nat.toDigits_of_lt_base hlt, ?_⟩
        interval_cases n <;> decide
      · obtain ⟨c, cs, heq, hc⟩ := ih (n / 10) (by omega) (by omega)
        refine ⟨c, cs ++ [(n % 10).digitChar], ?_, hc⟩
        rw [Nat.toDigits_of_base_le (by decide) (by omega), heq]
        rfl
  obtain ⟨c, cs, heq, hc⟩ := hdigits n hn
  refine ⟨CodePoint.ofChar c, cs.map CodePoint.ofChar, by rw [Text.ofNat, heq, List.map_cons], ?_⟩
  by_contra h
  have hzero := CodePoint.is_iff.mp (by simpa using h)
  exact hc (CodePoint.ofChar_injective hzero)

end Digits

section Parts

/-- A whole part as it is written: a zero alone, or digits that start with another one. -/
def IsWhole (t : Text) : Prop :=
  AllDigits t ∧ ∃ first more, t = first :: more ∧ (first.is '0' = true → more = [])

/-- A fraction as it is written: nothing, or a point and digits. -/
def IsFraction (t : Text) : Prop :=
  t = [] ∨ ∃ places, t = CodePoint.ofChar '.' :: places ∧ places ≠ [] ∧ AllDigits places

/-- An exponent as it is written: nothing, or a mark, a sign and digits. -/
def IsExponent (t : Text) : Prop :=
  t = [] ∨ ∃ sign digits, t = CodePoint.ofChar 'e' :: sign :: digits ∧ digits ≠ [] ∧
    AllDigits digits ∧ (sign = CodePoint.ofChar '-' ∨ sign = CodePoint.ofChar '+')

def continuesNumber (c : CodePoint) : Bool :=
  c.isAsciiDigit || c.is '.' || c.toAsciiLower.is 'e'

def continuesFraction (c : CodePoint) : Bool := c.isAsciiDigit || c.is '.'

theorem stops_mono {p q : CodePoint → Bool} (hpq : ∀ c, q c = true → p c = true) {t : Text}
    (h : stops p t = true) : stops q t = true := by
  cases t with
  | nil => rfl
  | cons c rest =>
    by_contra hq
    have hc : q c = true := by simpa [stops] using hq
    simp [stops, hpq c hc] at h

theorem stops_digits {t : Text} (h : stops continuesFraction t = true) :
    stops CodePoint.isAsciiDigit t = true :=
  stops_mono (fun c hc => by simp [continuesFraction, hc]) h

theorem stops_exponent {exp rest : Text} (hexp : IsExponent exp)
    (hrest : stops continuesNumber rest = true) :
    stops continuesFraction (exp ++ rest) = true := by
  rcases hexp with rfl | ⟨sign, digits, rfl, -, -, -⟩
  · exact stops_mono (fun c hc => by simp_all [continuesNumber, continuesFraction]) hrest
  · rfl

theorem stops_fraction {frac rest : Text} (hfrac : IsFraction frac)
    (hrest : stops continuesFraction rest = true) :
    stops CodePoint.isAsciiDigit (frac ++ rest) = true := by
  rcases hfrac with rfl | ⟨places, rfl, -, -⟩
  · exact stops_digits hrest
  · rfl

theorem whole_append {digits rest : Text} (hwhole : IsWhole digits)
    (hrest : stops CodePoint.isAsciiDigit rest = true) : whole (digits ++ rest) = digits := by
  obtain ⟨hdigits, first, more, rfl, hzero⟩ := hwhole
  by_cases hfirst : first.is '0' = true
  · simp [whole, hfirst, hzero hfirst]
  · have hrun := takeWhile_stops hdigits hrest
    simp only [List.cons_append] at hrun
    simp [whole, hfirst, hrun]

theorem fraction_append {frac rest : Text} (hfrac : IsFraction frac)
    (hrest : stops continuesFraction rest = true) : fraction (frac ++ rest) = frac := by
  rcases hfrac with rfl | ⟨places, rfl, hne, hdigits⟩
  · cases rest with
    | nil => rfl
    | cons c rest =>
      have hpoint : c.is '.' = false := by
        by_contra h
        simp_all [stops, continuesFraction]
      simp [fraction, hpoint]
  · have hrun := takeWhile_stops hdigits (stops_digits hrest)
    have hpoint : (CodePoint.ofChar '.').is '.' = true := by decide
    simp [fraction, hrun, hne, hpoint]

theorem exponent_append {exp rest : Text} (hexp : IsExponent exp)
    (hrest : stops continuesNumber rest = true) : exponent (exp ++ rest) = exp := by
  rcases hexp with rfl | ⟨sign, digits, rfl, hne, hdigits, hsign⟩
  · cases rest with
    | nil => rfl
    | cons c rest =>
      have hmark : c.toAsciiLower.is 'e' = false := by
        by_contra h
        simp_all [stops, continuesNumber]
      simp [exponent, hmark]
  · have hstop : stops CodePoint.isAsciiDigit rest = true :=
      stops_mono (fun c hc => by simp [continuesNumber, hc]) hrest
    have hrun := takeWhile_stops hdigits hstop
    have hmark : (CodePoint.ofChar 'e').toAsciiLower.is 'e' = true := by decide
    have hsign : (sign.is '-' || sign.is '+') = true := by
      rcases hsign with rfl | rfl <;> decide
    simp [exponent, hsign, hrun, hne, hmark]

def signText (negative : Bool) : Text := if negative then "-" else ""

def numberOf (negative : Bool) (digits frac exp : Text) : Json :=
  if frac.isEmpty && exp.isEmpty then
    .int (if negative then -(Text.digitsValue digits : Int) else Text.digitsValue digits)
  else
    .double (.ofDecimal negative (Text.digitsValue (digits ++ frac.drop 1))
      (exponentValue exp - (frac.drop 1).length))

def signAt : Text → Text
  | c :: _ => if c.is '-' then [c] else []
  | [] => []

/-- A number is read part by part, each of them where the one before it ends. -/
theorem number?_of_parts {t sign digits frac exp : Text} (hsign : signAt t = sign)
    (hdigits : whole (t.drop sign.length) = digits) (hne : digits ≠ [])
    (hfrac : fraction (t.drop (sign.length + digits.length)) = frac)
    (hexp : exponent ((t.drop (sign.length + digits.length)).drop frac.length) = exp) :
    number? t = some (numberOf (!sign.isEmpty) digits frac exp,
      sign.length + digits.length + frac.length + exp.length) := by
  have hread : number? t =
      if digits.isEmpty then none
      else if frac.isEmpty && exp.isEmpty then
        some (.int (if !sign.isEmpty then -(Text.digitsValue digits : Int)
          else Text.digitsValue digits),
          sign.length + digits.length + frac.length + exp.length)
      else
        some (.double (.ofDecimal (!sign.isEmpty) (Text.digitsValue (digits ++ frac.drop 1))
          (exponentValue exp - (frac.drop 1).length)),
          sign.length + digits.length + frac.length + exp.length) := by
    subst hsign hdigits hfrac hexp
    rfl
  rw [hread, if_neg (by simpa using hne), numberOf]
  split <;> rfl

theorem signAt_signText (negative : Bool) {digits rest : Text} (hdigits : IsWhole digits) :
    signAt (signText negative ++ (digits ++ rest)) = signText negative := by
  cases negative with
  | true => rfl
  | false =>
    obtain ⟨hall, first, more, rfl, -⟩ := hdigits
    refine if_neg fun hminus => ?_
    have hfirst := hall first List.mem_cons_self
    rw [CodePoint.is_iff.mp hminus] at hfirst
    exact absurd hfirst (by decide)

/-- A number is read as its parts, as far as they go. -/
theorem number?_parts (negative : Bool) {digits frac exp rest : Text} (hwhole : IsWhole digits)
    (hfrac : IsFraction frac) (hexp : IsExponent exp)
    (hrest : stops continuesNumber rest = true) :
    number? (signText negative ++ digits ++ frac ++ exp ++ rest) =
      some (numberOf negative digits frac exp,
        (signText negative ++ digits ++ frac ++ exp).length) := by
  have hstop := stops_exponent hexp hrest
  have hne : digits ≠ [] := by
    obtain ⟨-, first, more, rfl, -⟩ := hwhole
    exact List.cons_ne_nil first more
  have hdrop : (signText negative ++ (digits ++ (frac ++ (exp ++ rest)))).drop
      ((signText negative).length + digits.length) = frac ++ (exp ++ rest) := by
    rw [← List.append_assoc, List.drop_left' List.length_append]
  have hdigits : whole ((signText negative ++ (digits ++ (frac ++ (exp ++ rest)))).drop
      (signText negative).length) = digits := by
    rw [List.drop_left]
    exact whole_append hwhole (stops_fraction hfrac hstop)
  have hpower : exponent (((signText negative ++ (digits ++ (frac ++ (exp ++ rest)))).drop
      ((signText negative).length + digits.length)).drop frac.length) = exp := by
    rw [hdrop, List.drop_left]
    exact exponent_append hexp hrest
  have hread := number?_of_parts (signAt_signText negative hwhole) hdigits hne
    ((congrArg fraction hdrop).trans (fraction_append hfrac hstop)) hpower
  have hnegative : (!(signText negative).isEmpty) = negative := by cases negative <;> rfl
  simpa [hnegative, Nat.add_assoc] using hread

def IsNumber (t : Text) (value : Json) : Prop :=
  ∃ negative digits frac exp, t = signText negative ++ digits ++ frac ++ exp ∧
    IsWhole digits ∧ IsFraction frac ∧ IsExponent exp ∧ numberOf negative digits frac exp = value

def startsNumber : Text → Bool
  | c :: rest => c.isAsciiDigit || c.is '-' && !stops CodePoint.isAsciiDigit rest
  | [] => false

theorem IsNumber.starts {t rest : Text} {value : Json} (h : IsNumber t value) :
    startsNumber (t ++ rest) = true := by
  obtain ⟨negative, digits, frac, exp, rfl, ⟨hall, first, more, rfl, -⟩, -, -, -⟩ := h
  have hfirst : first.isAsciiDigit = true := hall first (by simp)
  have hminus : (CodePoint.ofChar '-').is '-' = true := by decide
  cases negative with
  | false => simp [signText, Text.ofString, startsNumber, hfirst]
  | true => simp [signText, Text.ofString, startsNumber, stops, hminus, hfirst]

/-- No word that names a value starts like a number. -/
theorem words_find?_number {t : Text} (h : startsNumber t = true) :
    words.find? (fun (word, _) => word.isPrefixOf t) = none := by
  have hwords : ∀ entry ∈ words, startsNumber entry.1 = false ∧ 2 ≤ entry.1.length := by decide
  rw [List.find?_eq_none]
  rintro ⟨word, value⟩ hmem hword
  obtain ⟨hstart, hlength⟩ := hwords _ hmem
  obtain ⟨more, rfl⟩ := List.isPrefixOf_iff_prefix.mp hword
  match word, hlength with
  | a :: b :: tail, _ =>
    have hsame : startsNumber (a :: b :: tail ++ more) = startsNumber (a :: b :: tail) := rfl
    rw [hsame, hstart] at h
    exact Bool.false_ne_true h

/-- A number is read as the value it stands for. -/
theorem scalar?_isNumber {t rest : Text} {value : Json} (h : IsNumber t value)
    (hrest : stops continuesNumber rest = true) :
    scalar? (t ++ rest) = some (value, t.length) := by
  rw [scalar?, words_find?_number h.starts]
  obtain ⟨negative, digits, frac, exp, rfl, hwhole, hfrac, hexp, rfl⟩ := h
  exact number?_parts negative hwhole hfrac hexp hrest

theorem isWhole_ofNat (n : Nat) : IsWhole (Text.ofNat n) := by
  refine ⟨allDigits_ofNat n, ?_⟩
  rcases Nat.eq_zero_or_pos n with rfl | hn
  · exact ⟨CodePoint.ofChar '0', [], rfl, fun _ => rfl⟩
  · obtain ⟨first, more, heq, hfirst⟩ := ofNat_head hn
    exact ⟨first, more, heq, fun h => by simp [hfirst] at h⟩

theorem isNumber_ofInt (i : Int) : IsNumber (Text.ofInt i) (.int i) := by
  refine ⟨decide (i < 0), Text.ofNat i.natAbs, [], [], ?_, isWhole_ofNat _, .inl rfl, .inl rfl, ?_⟩
  · unfold Text.ofInt signText
    by_cases hi : i < 0 <;> simp [hi, Text.ofString]
  · simp only [numberOf, List.isEmpty_nil, Bool.and_self, if_true, digitsValue_ofNat]
    congr 1
    by_cases hi : i < 0
    · simp only [hi, decide_true, if_true]
      omega
    · simp only [hi, decide_false, Bool.false_eq_true, if_false]
      omega

end Parts

section Doubles

open Double

variable {d : Digits}

theorem digitsValue_twoDigits (n : Nat) : Text.digitsValue (twoDigits n) = n := by
  unfold twoDigits
  split
  · have hzero : Text.digitsValue "0" = 0 := by decide
    rw [digitsValue_append, digitsValue_ofNat, hzero, Nat.zero_mul, Nat.zero_add]
  · exact digitsValue_ofNat n

theorem allDigits_twoDigits (n : Nat) : AllDigits (twoDigits n) := by
  unfold twoDigits
  split
  · refine AllDigits.append ?_ (allDigits_ofNat n)
    intro c hc
    obtain rfl : c = CodePoint.ofChar '0' := by simpa [Text.ofString] using hc
    decide
  · exact allDigits_ofNat n

theorem twoDigits_ne_nil (n : Nat) : twoDigits n ≠ [] := by
  unfold twoDigits
  split <;> simp [Text.ofNat_ne_nil]

/-- The parts of the text of a decimal number: they make up its text, and what they
stand for has its value. -/
def HasParts (d : Digits) (digits frac exp : Text) : Prop :=
  d.text = digits ++ frac ++ exp ∧ IsWhole digits ∧ IsFraction frac ∧ IsExponent exp ∧
    ¬(frac = [] ∧ exp = []) ∧
    (⟨Text.digitsValue (digits ++ frac.drop 1),
      exponentValue exp - (frac.drop 1).length⟩ : Digits).value = d.value

theorem value_of_exponent {e : Int} (he : e = d.exponent) :
    (⟨d.coefficient, e⟩ : Digits).value = d.value := by rw [he]

def exponentText (e : Int) : Text := (if e < 0 then "e-" else "e+") ++ twoDigits e.natAbs

theorem isExponent_exponentText (e : Int) : IsExponent (exponentText e) := by
  refine .inr ⟨if e < 0 then CodePoint.ofChar '-' else CodePoint.ofChar '+', twoDigits e.natAbs,
    ?_, twoDigits_ne_nil _, allDigits_twoDigits _, ?_⟩
  · unfold exponentText
    split <;> rfl
  · split
    · exact .inl rfl
    · exact .inr rfl

theorem exponentValue_exponentText (e : Int) : exponentValue (exponentText e) = e := by
  have hminus : (CodePoint.ofChar '-').is '-' = true := by decide
  have hplus : (CodePoint.ofChar '+').is '-' = false := by decide
  have hplus' : (CodePoint.ofChar '+').is '+' = true := by decide
  unfold exponentText
  by_cases he : e < 0
  · have hmagnitude : (e.natAbs : Int) = -e := by omega
    simp [he, Text.ofString, exponentValue, hminus, digitsValue_twoDigits, hmagnitude,
      -Nat.cast_natAbs]
  · have hmagnitude : (e.natAbs : Int) = e := by omega
    simp [he, Text.ofString, exponentValue, hplus, hplus', digitsValue_twoDigits, hmagnitude,
      -Nat.cast_natAbs]

theorem hasParts_exponent {first : CodePoint} {more : Text}
    (hdigits : Text.ofNat d.coefficient = first :: more)
    (hfar : (d.exponent + (first :: more).length < -3 ||
      16 < d.exponent + (first :: more).length) = true) :
    ∃ digits frac exp, HasParts d digits frac exp := by
  have hall : AllDigits (first :: more) := hdigits ▸ allDigits_ofNat d.coefficient
  have hwhole : IsWhole [first] :=
    ⟨fun c hc => hall c (by simp_all), first, [], rfl, fun _ => rfl⟩
  have hvalue : Text.digitsValue (first :: more) = d.coefficient := by
    rw [← hdigits, digitsValue_ofNat]
  have hexp := isExponent_exponentText (d.exponent + (first :: more).length - 1)
  have hpower := exponentValue_exponentText (d.exponent + (first :: more).length - 1)
  have hmarked : exponentText (d.exponent + (first :: more).length - 1) ≠ [] := by
    unfold exponentText
    split <;> simp [Text.ofString]
  cases more with
  | nil =>
    refine ⟨[first], [], _, ?_, hwhole, .inl rfl, hexp, fun h => hmarked h.2, ?_⟩
    · simp only [Digits.text, hdigits, hfar, if_true, exponentText]
      simp
    · simp only [List.drop_nil, List.append_nil, hvalue, hpower]
      exact value_of_exponent (by simp)
  | cons second more =>
    refine ⟨[first], CodePoint.ofChar '.' :: second :: more, _, ?_, hwhole, ?_, hexp,
      fun h => hmarked h.2, ?_⟩
    · simp only [Digits.text, hdigits, hfar, if_true, exponentText]
      simp
    · exact .inr ⟨second :: more, rfl, by simp, fun c hc => hall c (by simp_all)⟩
    · simp only [List.drop_one, List.tail_cons, List.singleton_append, hvalue, hpower]
      exact value_of_exponent (by simp only [List.length_cons]; omega)

theorem hasParts_small (hfar : (d.exponent + (Text.ofNat d.coefficient).length < -3 ||
      16 < d.exponent + (Text.ofNat d.coefficient).length) = false)
    (hpoint : d.exponent + (Text.ofNat d.coefficient).length ≤ 0) :
    ∃ digits frac exp, HasParts d digits frac exp := by
  let point : Int := d.exponent + (Text.ofNat d.coefficient).length
  refine ⟨Text.ofNat 0, CodePoint.ofChar '.' :: (Text.repeated "0" point.natAbs ++
    Text.ofNat d.coefficient), [], ?_, isWhole_ofNat 0, ?_, .inl rfl, by simp, ?_⟩
  · simp only [Digits.text, hfar, if_pos hpoint, Bool.false_eq_true, if_false, List.append_nil]
    rfl
  · exact .inr ⟨_, rfl, by simp [Text.ofNat_ne_nil],
      (allDigits_zeros _).append (allDigits_ofNat _)⟩
  · simp only [List.drop_one, List.tail_cons, digitsValue_append, digitsValue_ofNat,
      digitsValue_zeros, Nat.zero_mul, Nat.zero_add, List.length_append, length_zeros]
    refine value_of_exponent ?_
    simp only [exponentValue, point]
    omega

theorem hasParts_large (hd : 0 < d.coefficient ∨ d.exponent = 0)
    (hfar : (d.exponent + (Text.ofNat d.coefficient).length < -3 ||
      16 < d.exponent + (Text.ofNat d.coefficient).length) = false)
    (hpoint : 0 ≤ d.exponent) :
    ∃ digits frac exp, HasParts d digits frac exp := by
  have hpositive : 0 < (Text.ofNat d.coefficient).length :=
    List.length_pos_of_ne_nil (Text.ofNat_ne_nil _)
  obtain ⟨k, hk⟩ := Int.eq_ofNat_of_zero_le hpoint
  refine ⟨Text.ofNat d.coefficient ++ Text.repeated "0" k, ".0", [], ?_, ?_, ?_, .inl rfl,
    by simp [Text.ofString], ?_⟩
  · have hsmall : ¬ d.exponent + (Text.ofNat d.coefficient).length ≤ 0 := by omega
    have hlarge : (Text.ofNat d.coefficient).length ≤
        (d.exponent + (Text.ofNat d.coefficient).length).natAbs := by omega
    have hzeros : (d.exponent + (Text.ofNat d.coefficient).length).natAbs -
        (Text.ofNat d.coefficient).length = k := by omega
    simp only [Digits.text, hfar, if_neg hsmall, if_pos hlarge, hzeros]
    simp
  · refine ⟨(allDigits_ofNat _).append (allDigits_zeros _), ?_⟩
    rcases Nat.eq_zero_or_pos d.coefficient with hc | hc
    · obtain rfl : k = 0 := by omega
      exact ⟨CodePoint.ofChar '0', [], by rw [hc]; rfl, fun _ => rfl⟩
    · obtain ⟨first, more, heq, hfirst⟩ := ofNat_head hc
      exact ⟨first, more ++ Text.repeated "0" k, by rw [heq]; rfl, fun h => by simp [hfirst] at h⟩
  · exact .inr ⟨Text.ofNat 0, rfl, Text.ofNat_ne_nil 0, allDigits_ofNat 0⟩
  · have hvalue : Text.digitsValue (Text.ofNat d.coefficient ++ Text.repeated "0" k ++
        Text.ofNat 0) = d.coefficient * 10 ^ (k + 1) := by
      rw [digitsValue_append, digitsValue_append, digitsValue_ofNat, digitsValue_ofNat,
        digitsValue_zeros, length_zeros, pow_succ]
      simp [Text.ofNat, Nat.mul_assoc]
    have hshift := Digits.value_shift d.coefficient (k + 1) (-1)
    show (⟨Text.digitsValue (Text.ofNat d.coefficient ++ Text.repeated "0" k ++ Text.ofNat 0),
      -1⟩ : Digits).value = d.value
    rw [hvalue, hshift]
    exact value_of_exponent (by rw [hk]; push_cast; omega)

theorem hasParts_split (hd : 0 < d.coefficient) (hpoint : d.exponent < 0)
    (hfar : (d.exponent + (Text.ofNat d.coefficient).length < -3 ||
      16 < d.exponent + (Text.ofNat d.coefficient).length) = false)
    (hinner : 0 < d.exponent + (Text.ofNat d.coefficient).length) :
    ∃ digits frac exp, HasParts d digits frac exp := by
  obtain ⟨k, hk⟩ : ∃ k : Nat, d.exponent + (Text.ofNat d.coefficient).length = (k : Int) + 1 :=
    ⟨(d.exponent + (Text.ofNat d.coefficient).length - 1).toNat, by omega⟩
  have hplaces : (d.exponent + (Text.ofNat d.coefficient).length).natAbs = k + 1 := by omega
  have hlength : k + 1 < (Text.ofNat d.coefficient).length := by omega
  have hall := allDigits_ofNat d.coefficient
  refine ⟨(Text.ofNat d.coefficient).take (k + 1),
    CodePoint.ofChar '.' :: (Text.ofNat d.coefficient).drop (k + 1), [], ?_, ?_, ?_, .inl rfl,
    by simp, ?_⟩
  · simp only [Digits.text, hfar, hplaces, if_neg (not_le.mpr hinner),
      if_neg (not_le.mpr hlength), Bool.false_eq_true, if_false, List.append_nil]
    simp [Text.ofString]
  · refine ⟨fun c hc => hall c (List.mem_of_mem_take hc), ?_⟩
    obtain ⟨first, more, heq, hfirst⟩ := ofNat_head hd
    exact ⟨first, more.take k, by rw [heq]; rfl, fun h => by simp [hfirst] at h⟩
  · refine .inr ⟨_, rfl, ?_, fun c hc => hall c (List.mem_of_mem_drop hc)⟩
    simpa using hlength
  · simp only [List.drop_one, List.tail_cons, List.take_append_drop, digitsValue_ofNat,
      List.length_drop]
    refine value_of_exponent ?_
    simp only [exponentValue]
    omega

/-- The text of a decimal number has parts of the same value, whatever its layout. -/
theorem exists_hasParts (hd : 0 < d.coefficient ∨ d = ⟨0, 0⟩) :
    ∃ digits frac exp, HasParts d digits frac exp := by
  cases hfar : (d.exponent + (Text.ofNat d.coefficient).length < -3 ||
      16 < d.exponent + (Text.ofNat d.coefficient).length) with
  | true =>
    obtain ⟨first, more, hdigits⟩ := List.exists_cons_of_ne_nil (Text.ofNat_ne_nil d.coefficient)
    exact hasParts_exponent hdigits (by rwa [hdigits] at hfar)
  | false =>
    by_cases hsmall : d.exponent + (Text.ofNat d.coefficient).length ≤ 0
    · exact hasParts_small hfar hsmall
    · by_cases hlarge : 0 ≤ d.exponent
      · exact hasParts_large (hd.imp_right fun h => by rw [h]) hfar hlarge
      · refine hasParts_split ?_ (not_le.mp hlarge) hfar (not_le.mp hsmall)
        rcases hd with hd | rfl
        · exact hd
        · simp at hlarge

/-- The text of a finite double stands for that double. -/
theorem isNumber_double {d : Double} (hfinite : d.isFinite = true) :
    IsNumber d.text (.double d) := by
  cases d with
  | nan => simp [isFinite] at hfinite
  | signed negative rank =>
    have hlt : rank.val < infinityRank := by simpa [isFinite] using hfinite
    have hshape : 0 < (shortest rank.val).coefficient ∨ shortest rank.val = ⟨0, 0⟩ := by
      rcases Nat.eq_zero_or_pos rank.val with hzero | hpos
      · exact .inr (by simp [shortest, hzero])
      · exact .inl (Digits.coefficient_pos (by rwa [rank_shortest hpos hlt]))
    obtain ⟨digits, frac, exp, hparts, hwhole, hfrac, hexp, hdouble, hvalue⟩ :=
      exists_hasParts hshape
    refine ⟨negative, digits, frac, exp, ?_, hwhole, hfrac, hexp, ?_⟩
    · simp only [Double.text, textWith, if_neg (ne_of_lt hlt), hparts, signText]
      cases negative <;> simp [Text.ofString]
    · have hempty : (frac.isEmpty && exp.isEmpty) = false := by
        by_contra h
        exact hdouble (by simpa using h)
      rw [numberOf, hempty, if_neg Bool.false_ne_true]
      congr 1
      rcases Nat.eq_zero_or_pos rank.val with hzero | hpos
      · have hrank : rank = 0 := Fin.ext hzero
        have hcoefficient : Text.digitsValue (digits ++ frac.drop 1) = 0 := by
          have hten : (10 : ℚ) ^ (exponentValue exp - (frac.drop 1).length) ≠ 0 :=
            zpow_ne_zero _ (by norm_num)
          simp only [Digits.value, shortest, hzero, if_true, Nat.cast_zero, zero_mul] at hvalue
          exact_mod_cast (mul_eq_zero.mp hvalue).resolve_right hten
        rw [hcoefficient, hrank]
        simp [ofDecimal, zero]
      · exact ofDecimal_of_rank negative (by rw [Digits.rank_congr hvalue, rank_shortest hpos hlt])
          hpos hlt

end Doubles

end ScriptTree.Json
