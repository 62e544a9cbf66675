import ScriptTree.Proofs.Json.Number
import ScriptTree.Proofs.Lexical.Boundary
import ScriptTree.Source.Literal

/-!
Names and literals are tokens. A name is one word, a string is one token from quote to quote
whatever it escapes, and a number is one token, after its sign if it has one. The tokens of a
text of ASCII do not depend on the alphabet, so those of a fixed text can be computed.
-/

namespace ScriptTree.Lexical

open Source

/-- A text that can stand where a class admits it, and that ends as another one says. -/
structure Lexes (α : Alphabet) (k : Class) (t : Text) (k' : Class) : Prop where
  head : t.head?.any (k.admits α) = true
  meets : (scan α {} t).meets k' = true

def IsName (α : Alphabet) (t : Text) : Prop := scan α {} t = ⟨[], t, .word⟩

section Ascii

variable {α : Alphabet} {st : State} {c : CodePoint} {t : Text} {k k' : Class}

def Alphabet.ascii : Alphabet := ⟨fun _ => false, fun _ => false⟩

def isAscii (c : CodePoint) : Bool := c.val ≤ 0x7F

theorem starts_ascii (h : isAscii c = true) : α.starts c = Alphabet.ascii.starts c := by
  have hle : c.val ≤ 0x7F := by simpa [isAscii] using h
  simp [Alphabet.starts, Nat.not_lt.mpr hle]

theorem continues_ascii (h : isAscii c = true) : α.continues c = Alphabet.ascii.continues c := by
  have hle : c.val ≤ 0x7F := by simpa [isAscii] using h
  simp [Alphabet.continues, starts_ascii (α := α) h, Nat.not_lt.mpr hle]

theorem admits_ascii (h : isAscii c = true) : k.admits α c = k.admits .ascii c := by
  cases k <;> simp only [Class.admits, starts_ascii (α := α) h]

theorem step_ascii (h : isAscii c = true) : st.step α c = st.step .ascii c := by
  have hnext : next α st.phase st.pending c = next .ascii st.phase st.pending c := by
    unfold next
    rw [continues_ascii h]
  unfold State.step State.endsBefore first
  rw [hnext, starts_ascii h]

theorem scan_ascii (h : t.all isAscii = true) : scan α st t = scan .ascii st t := by
  induction t generalizing st with
  | nil => rfl
  | cons c t ih =>
    obtain ⟨hc, ht⟩ : isAscii c = true ∧ t.all isAscii = true := by simpa using h
    rw [scan_cons, scan_cons, step_ascii hc, ih ht]

def spells (k : Class) (t : Text) (k' : Class) : Bool :=
  t.all isAscii && t.head?.any (k.admits .ascii) && (scan .ascii {} t).meets k'

theorem lexes_of_spells (h : spells k t k' = true) : Lexes α k t k' := by
  simp only [spells, Bool.and_eq_true] at h
  obtain ⟨⟨hascii, hhead⟩, hmeets⟩ := h
  refine ⟨?_, ?_⟩
  · cases t with
    | nil => cases hhead
    | cons c t =>
      have hc : isAscii c = true := by simp at hascii; exact hascii.1
      rw [List.head?_cons, Option.any_some] at hhead ⊢
      rw [admits_ascii hc]
      exact hhead
  · rw [scan_ascii hascii]
    exact hmeets

def spellAlike (k : Class) (t u : Text) (k' : Class) : Bool :=
  spells k t k' && spells k u k' && (scan .ascii {} t).taken = (scan .ascii {} u).taken

theorem taken_of_spellAlike {u : Text} (h : spellAlike k t u k' = true) :
    (scan α {} t).taken = (scan α {} u).taken := by
  simp only [spellAlike, spells, Bool.and_eq_true, decide_eq_true_eq] at h
  rw [scan_ascii h.1.1.1.1, scan_ascii h.1.2.1.1, h.2]

end Ascii

section Words

variable {α : Alphabet} {st : State} {c : CodePoint} {t : Text}

theorem isWordPoint_of_hexDigit (h : isHexDigit c = true) : isWordPoint c = true := by
  have hword := isAsciiWord_of_hexDigit h
  simp only [Bool.or_eq_true] at hword
  simp only [isWordPoint, Bool.or_eq_true]
  tauto

theorem isWordPoint_of_next {phase : Phase} {pending : Text}
    (h : next α phase pending c = some .word) : isWordPoint c = true := by
  cases phase with
  | word =>
    simp only [next] at h
    split_ifs at h with hcontinues
    · exact isWordPoint_of_continues hcontinues
    · cases h
  | escapeDigits more =>
    simp only [next] at h
    split_ifs at h with hhex
    exact isWordPoint_of_hexDigit hhex
  | stringDigits double more =>
    simp only [next] at h
    split_ifs at h
    cases more <;> cases h
  | between => cases h
  | closed => cases h
  | commentEnd => cases h
  | failed => cases h
  | _ =>
    simp only [next, punctuatorNext, quotedNext, escapeNext] at h
    split_ifs at h <;> simp at h

theorem isWordPoint_of_first (h : first α c = .word) : isWordPoint c = true := by
  revert h
  fun_cases first α c with
  | case2 _ hstarts => exact fun _ => isWordPoint_of_starts hstarts
  | _ => nofun

/-- A word ends with a code point that can continue one. -/
theorem isWordPoint_of_step (h : (st.step α c).phase = .word) : isWordPoint c = true := by
  unfold State.step at h
  split at h
  · next phase hnext =>
    have hphase : phase = .word := h
    rw [hphase] at hnext
    exact isWordPoint_of_next hnext
  · split at h
    · exact isWordPoint_of_first h
    · cases h

theorem step_start (c : CodePoint) : State.step α {} c = ⟨[], [c], first α c⟩ := by
  simp [State.step, next, State.endsBefore, State.taken, Phase.isComplete, Phase.isDropped,
    Phase.isNumber]

def Phase.isWord : Phase → Bool
  | .word | .escape | .escapeDigits _ => true
  | _ => false

theorem isWord_of_next {phase phase' : Phase} {pending : Text}
    (h : next α phase pending c = some phase') (hword : phase'.isWord = true) :
    phase.isWord = true := by
  cases phase with
  | word => rfl
  | escape => rfl
  | escapeDigits more => rfl
  | stringDigits double more =>
    simp only [next] at h
    split_ifs at h
    cases more <;> obtain rfl := Option.some.inj h <;> cases hword
  | between => cases h
  | closed => cases h
  | commentEnd => cases h
  | failed =>
    obtain rfl := Option.some.inj h
    cases hword
  | _ =>
    simp only [next, punctuatorNext, quotedNext, escapeNext] at h
    split_ifs at h <;> obtain rfl := Option.some.inj h <;> cases hword

/-- Of a text that does not start like a name, not all is one name: the name would have to
start later. -/
theorem not_word_of_scan {consumed : Nat} (hconsumed : 0 < consumed)
    (h : st.phase.isWord = false ∨ st.pending.length < consumed) :
    (scan α st t).phase.isWord = false ∨
      (scan α st t).pending.length < consumed + t.length := by
  induction t generalizing st consumed with
  | nil => exact h
  | cons c t ih =>
    have hstep : (st.step α c).phase.isWord = false ∨
        (st.step α c).pending.length < consumed + 1 := by
      unfold State.step
      cases hnext : next α st.phase st.pending c with
      | some phase =>
        rcases h with h | h
        · refine .inl ?_
          by_contra hword
          rw [isWord_of_next hnext (by simpa using hword)] at h
          cases h
        · exact .inr (by simpa using h)
      | none =>
        dsimp only
        split
        · exact .inr (by simpa using hconsumed)
        · exact .inl rfl
    have hrest := ih (by omega) hstep
    rwa [Nat.add_right_comm, Nat.add_assoc] at hrest

/-- A name starts with a letter or with an escape. -/
theorem IsName.head (h : IsName α t) :
    ∃ c, t.head? = some c ∧ (α.starts c = true ∨ c.is '\\' = true) := by
  unfold IsName at h
  cases t with
  | nil => cases h
  | cons c t =>
    refine ⟨c, rfl, ?_⟩
    by_contra hstart
    have hfirst : (first α c).isWord = false := by
      fun_cases first α c with
      | case2 _ hstarts => exact absurd (.inl hstarts) hstart
      | case3 _ _ hbackslash => exact absurd (.inr hbackslash) hstart
      | _ => rfl
    have hstart : State.phase ⟨[], [c], first α c⟩ = first α c := rfl
    have hscan := not_word_of_scan (α := α) (t := t) Nat.one_pos (.inl (hstart ▸ hfirst))
    rw [scan_cons, step_start] at h
    rw [h] at hscan
    rcases hscan with hscan | hscan
    · cases hscan
    · rw [List.length_cons, Nat.add_comm] at hscan
      exact absurd hscan (Nat.lt_irrefl _)

theorem IsName.meets (h : IsName α t) : (scan α {} t).meets .object = true := by
  obtain ⟨c, hc, -⟩ := h.head
  have hne : t ≠ [] := by
    rintro rfl
    cases hc
  obtain ⟨before, last, rfl⟩ := (List.eq_nil_or_concat' t).resolve_left hne
  have hlast : isWordPoint last = true := by
    have hphase : (scan α {} (before ++ [last])).phase = .word := by rw [h]
    rw [scan_append] at hphase
    exact isWordPoint_of_step hphase
  rw [h]
  simp [State.meets, State.endsOperand, State.endsInWord, hlast, Phase.isWhole]

/-- A name after something that is no word, or a point. -/
theorem IsName.lexes (h : IsName α t) {k : Class} (hk : k = .clear ∨ k = .point) :
    Lexes α k t .object := by
  refine ⟨?_, h.meets⟩
  obtain ⟨c, hc, hstarts⟩ := h.head
  rcases hk with rfl | rfl <;> rcases hstarts with hstarts | hstarts <;>
    simp [hc, Class.admits, hstarts]

/-- A name that does not start with an escape can also follow a word, after a space. -/
theorem IsName.lexes_any (h : IsName α t) (hescape : t.head?.any (·.is '\\') = false) :
    Lexes α .any t .object := by
  refine ⟨?_, h.meets⟩
  obtain ⟨c, hc, hstarts⟩ := h.head
  rw [hc, Option.any_some] at hescape
  simp [hc, Class.admits, hstarts.resolve_right (by simp [hescape])]

end Words

section Numbers

open Json

variable {α : Alphabet} {done : List Text} {pending : Text}

def IsPower (t : Text) : Prop :=
  t = [] ∨ ∃ mark sign digits, t = mark :: sign :: digits ∧ digits ≠ [] ∧ AllDigits digits ∧
    (mark = CodePoint.ofChar 'e' ∨ mark = CodePoint.ofChar 'E') ∧
    (sign = CodePoint.ofChar '-' ∨ sign = CodePoint.ofChar '+')

theorem isPower_of_isExponent {t : Text} (h : IsExponent t) : IsPower t := by
  rcases h with rfl | ⟨sign, digits, rfl, hne, hdigits, hsign⟩
  · exact .inl rfl
  · exact .inr ⟨_, sign, digits, rfl, hne, hdigits, .inl rfl, hsign⟩

/-- A phase that digits go on with. -/
theorem scan_digits {phase : Phase} (hphase : ∀ pending c, c.isAsciiDigit = true →
      next α phase pending c = some phase) {digits : Text} (h : AllDigits digits) :
    scan α ⟨done, pending, phase⟩ digits = ⟨done, pending ++ digits, phase⟩ := by
  induction digits generalizing pending with
  | nil => simp [scan_nil]
  | cons c digits ih =>
    have hstep : State.step α ⟨done, pending, phase⟩ c = ⟨done, pending ++ [c], phase⟩ := by
      simp [State.step, hphase pending c (h c List.mem_cons_self)]
    rw [scan_cons, hstep, ih fun d hd => h d (List.mem_cons_of_mem c hd), List.append_assoc,
      List.singleton_append]

theorem scan_step {st : State} {c : CodePoint} {phase : Phase}
    (h : next α st.phase st.pending c = some phase) :
    st.step α c = ⟨st.done, st.pending ++ [c], phase⟩ := by
  simp [State.step, h]

/-- A number starts with a zero or with another digit. -/
theorem first_digit {c : CodePoint} (h : c.isAsciiDigit = true) :
    first α c = if c.is '0' then .zero else .whole := by
  have hblank : isBlank c = false := by
    by_contra hblank
    rw [(isApart_of_blank (α := α) (by simpa using hblank)).digit] at h
    cases h
  have hbackslash : c.is '\\' = false :=
    is_eq_false (p := fun c => !c.isAsciiDigit) '\\' (by simp [h]) (by decide)
  simp [first, hblank, not_starts_digit h, hbackslash, h]

/-- The whole part of a number. -/
theorem scan_whole {digits : Text} (h : IsWhole digits) :
    ∃ phase, (phase = .zero ∨ phase = .whole) ∧ scan α {} digits = ⟨[], digits, phase⟩ := by
  obtain ⟨hall, c, more, rfl, hzero⟩ := h
  have hfirst := first_digit (α := α) (hall c List.mem_cons_self)
  rw [scan_cons, step_start, hfirst]
  by_cases hc : c.is '0' = true
  · rw [hzero hc, if_pos hc]
    exact ⟨.zero, .inl rfl, rfl⟩
  · rw [if_neg hc]
    refine ⟨.whole, .inr rfl, ?_⟩
    exact scan_digits (fun pending c hc => by simp [next, hc])
      fun d hd => hall d (List.mem_cons_of_mem c hd)

theorem scan_fraction (done : List Text) (pending : Text) {phase : Phase}
    (hphase : phase = .zero ∨ phase = .whole) {frac : Text} (h : IsFraction frac) :
    ∃ phase', (((phase' = .zero ∨ phase' = .whole) ∧ frac = []) ∨ phase' = .fraction) ∧
      scan α ⟨done, pending, phase⟩ frac = ⟨done, pending ++ frac, phase'⟩ := by
  rcases h with rfl | ⟨places, rfl, -, hdigits⟩
  · exact ⟨phase, .inl ⟨hphase, rfl⟩, by simp [scan_nil]⟩
  · have hpoint : next α phase pending (CodePoint.ofChar '.') = some .fraction := by
      rcases hphase with rfl | rfl <;> rfl
    refine ⟨.fraction, .inr rfl, ?_⟩
    rw [scan_cons, scan_step hpoint, scan_digits (fun pending c hc => by simp [next, hc]) hdigits,
      List.append_assoc, List.singleton_append]

theorem scan_power (done : List Text) (pending : Text) {phase : Phase}
    (hphase : phase = .zero ∨ phase = .whole ∨ phase = .fraction) {power : Text}
    (h : IsPower power) :
    ∃ phase', phase'.isNumber = true ∧ (phase'.isWhole = true → phase' = phase ∧ power = []) ∧
      scan α ⟨done, pending, phase⟩ power = ⟨done, pending ++ power, phase'⟩ := by
  rcases h with rfl | ⟨mark, sign, digits, rfl, hne, hdigits, hmark, hsign⟩
  · refine ⟨phase, ?_, fun _ => ⟨rfl, rfl⟩, by simp [scan_nil]⟩
    rcases hphase with rfl | rfl | rfl <;> rfl
  · have hmarked : next α phase pending mark = some .mark := by
      rcases hphase with rfl | rfl | rfl <;> rcases hmark with rfl | rfl <;> rfl
    have hsigned : next α .mark (pending ++ [mark]) sign = some .sign := by
      rcases hsign with rfl | rfl <;> rfl
    obtain ⟨c, more, rfl⟩ := List.exists_cons_of_ne_nil hne
    have hdigit : next α .sign (pending ++ [mark] ++ [sign]) c = some .exponent := by
      simp [next, hdigits c List.mem_cons_self]
    refine ⟨.exponent, rfl, fun hwhole => absurd hwhole Bool.false_ne_true, ?_⟩
    rw [scan_cons, scan_step hmarked, scan_cons, scan_step hsigned, scan_cons, scan_step hdigit,
      scan_digits (fun pending c hc => by simp [next, hc])
        fun d hd => hdigits d (List.mem_cons_of_mem c hd)]
    simp

/-- A number without a sign is one token, and is whole only without a point and a power. -/
theorem scan_number {digits frac power : Text} (hwhole : IsWhole digits) (hfrac : IsFraction frac)
    (hpower : IsPower power) :
    ∃ phase, phase.isNumber = true ∧ (phase.isWhole = true → frac = [] ∧ power = []) ∧
      scan α {} (digits ++ frac ++ power) = ⟨[], digits ++ frac ++ power, phase⟩ := by
  obtain ⟨phase, hphase, hscan⟩ := scan_whole (α := α) hwhole
  obtain ⟨phase', hphase', hscan'⟩ := scan_fraction (α := α) [] digits hphase hfrac
  have hnumber : phase' = .zero ∨ phase' = .whole ∨ phase' = .fraction := by tauto
  obtain ⟨phase'', hphase'', hwhole'', hscan''⟩ :=
    scan_power (α := α) [] (digits ++ frac) hnumber hpower
  refine ⟨phase'', hphase'', fun h => ?_, by rw [scan_append, scan_append, hscan, hscan', hscan'']⟩
  obtain ⟨rfl, rfl⟩ := hwhole'' h
  rcases hphase' with ⟨-, rfl⟩ | rfl
  · exact ⟨rfl, rfl⟩
  · cases h

/-- A number ends with a digit. -/
theorem getLast?_number {digits frac power : Text} (hwhole : IsWhole digits)
    (hfrac : IsFraction frac) (hpower : IsPower power) :
    (digits ++ frac ++ power).getLast?.any isWordPoint = true := by
  have hdigits {t : Text} (hne : t ≠ []) (h : AllDigits t) (before : Text) :
      (before ++ t).getLast?.any isWordPoint = true := by
    rw [List.getLast?_append_of_ne_nil _ hne, List.getLast?_eq_some_getLast hne]
    simp [isWordPoint, h _ (List.getLast_mem hne)]
  rcases hpower with rfl | ⟨mark, sign, more, rfl, hne, hmore, -, -⟩
  · rcases hfrac with rfl | ⟨places, rfl, hne, hplaces⟩
    · obtain ⟨hall, c, more, rfl, -⟩ := hwhole
      simpa using hdigits (by simp) hall []
    · simpa using hdigits hne hplaces (digits ++ [CodePoint.ofChar '.'])
  · simpa using hdigits hne hmore (digits ++ frac ++ [mark, sign])

/-- A sign before a number, or before a word that stands for one, is a token of its own. -/
theorem lexes_signed (negative : Bool) {t : Text} {k : Class} (h : Lexes α .any t k)
    (hhead : t.head?.any isWordPoint = true) : Lexes α .any (signText negative ++ t) k := by
  cases negative with
  | false => exact h
  | true =>
    cases t with
    | nil => cases hhead
    | cons c t =>
      have hsign : State.step α {} (CodePoint.ofChar '-') = ⟨[], "-", .punctuator⟩ := rfl
      have hopen : State.isOpen ⟨[], "-", .punctuator⟩ = true := by decide
      have hseparates : State.Separates α ⟨[], "-", .punctuator⟩ c :=
        separates_word hopen rfl (by simpa using hhead)
      have hcons : signText true ++ c :: t = CodePoint.ofChar '-' :: c :: t := rfl
      refine ⟨rfl, ?_⟩
      rw [hcons, scan_cons, hsign, scan_separated hseparates, meets_after]
      exact h.meets

/-- The text of a number is a sign if it is negative, and one more token. A point can follow it
unless it is whole. -/
theorem lexes_number (negative : Bool) {digits frac power : Text} (hwhole : IsWhole digits)
    (hfrac : IsFraction frac) (hpower : IsPower power) :
    Lexes α .any (signText negative ++ (digits ++ frac ++ power))
      (if frac = [] ∧ power = [] then .operand else .object) := by
  obtain ⟨phase, hphase, hpart, hscan⟩ := scan_number (α := α) hwhole hfrac hpower
  have hlast := getLast?_number hwhole hfrac hpower
  have hends : (scan α {} (digits ++ frac ++ power)).endsOperand = true := by
    rw [hscan]
    cases phase <;> simp_all [State.endsOperand, State.endsInWord, Phase.isNumber]
  have hmeets : (scan α {} (digits ++ frac ++ power)).meets
      (if frac = [] ∧ power = [] then .operand else .object) = true := by
    split
    · exact hends
    · next hnot =>
      have hwhole : (scan α {} (digits ++ frac ++ power)).phase.isWhole = false := by
        rw [hscan]
        exact Bool.eq_false_iff.mpr fun h => hnot (hpart h)
      simp only [State.meets, hends, hwhole, Bool.not_false, Bool.and_self]
  obtain ⟨hall, c, more, rfl, -⟩ := hwhole
  have hc : c.isAsciiDigit = true := hall c List.mem_cons_self
  exact lexes_signed negative ⟨by simp [Class.admits, hc], hmeets⟩ (by simp [isWordPoint, hc])

/-- The name of what is no number, or of what is larger than every number. -/
theorem lexes_special {name : String} (hname : name = "NaN" ∨ name = "Infinity")
    (negative : Bool) : Lexes α .any (signText negative ++ name) .object := by
  rcases hname with rfl | rfl <;> exact lexes_signed negative ⟨rfl, rfl⟩ rfl

theorem isPower_exponent (e : Int) :
    IsPower (Text.ofString (if e < 0 then "E-" else "E+") ++ Text.ofNat e.natAbs) := by
  refine .inr ⟨CodePoint.ofChar 'E', if e < 0 then CodePoint.ofChar '-' else CodePoint.ofChar '+',
    Text.ofNat e.natAbs, ?_, Text.ofNat_ne_nil _, allDigits_ofNat _, .inr rfl, ?_⟩
  · split <;> rfl
  · split
    · exact .inl rfl
    · exact .inr rfl

theorem exponent?_powerText (e : Int) :
    Decimal.exponent? (Text.ofString (if e < 0 then "E-" else "E+") ++ Text.ofNat e.natAbs) =
      some e := by
  have hne : (Text.ofNat e.natAbs).isEmpty = false := by
    simpa using Text.ofNat_ne_nil e.natAbs
  have hall : (Text.ofNat e.natAbs).all CodePoint.isAsciiDigit = true :=
    List.all_eq_true.mpr (allDigits_ofNat e.natAbs)
  have hpower : ∀ negative : Bool,
      Decimal.exponent? (Text.ofString (if negative then "E-" else "E+") ++ Text.ofNat e.natAbs) =
        some (if negative then -(e.natAbs : Int) else e.natAbs) := by
    intro negative
    have hmark : (CodePoint.ofChar 'E').toAsciiLower.is 'e' = true := by decide
    have hminus : (CodePoint.ofChar '-').is '-' = true := by decide
    have hplus : (CodePoint.ofChar '+').is '-' = false := by decide
    have hplus' : (CodePoint.ofChar '+').is '+' = true := by decide
    cases negative <;>
      simp [Text.ofString, Decimal.exponent?, Decimal.splitSign, hmark, hminus, hplus, hplus', hne,
        hall, digitsValue_ofNat, -List.all_eq_true]
  have hsign := hpower (decide (e < 0))
  simp only [decide_eq_true_eq] at hsign
  rw [hsign]
  congr 1
  split <;> omega

/-- The parts of a decimal as it is written, and the coefficient and the exponent that they
stand for: the places after the point belong to the coefficient. -/
structure DecimalParts (coefficient : Nat) (exponent : Int) (digits frac power : Text) : Prop where
  isWhole : IsWhole digits
  isFraction : IsFraction frac
  isPower : IsPower power
  coefficient_eq : Text.digitsValue (digits ++ frac.drop 1) = coefficient
  exponent_eq : Decimal.exponent? power = some (exponent + (frac.drop 1).length)

def IsPositional (coefficient : Nat) (exponent : Int) : Prop :=
  exponent ≤ 0 ∧ -6 ≤ exponent + ((Text.ofNat coefficient).length - 1 : Nat)

/-- Digits alone, with a point between them, or after a zero and a point. -/
theorem decimalParts_positional {coefficient : Nat} {exponent : Int}
    (h : IsPositional coefficient exponent) :
    ∃ digits frac, Decimal.magnitudeText coefficient exponent = digits ++ frac ∧
      DecimalParts coefficient exponent digits frac [] := by
  have hposition : (exponent ≤ 0 &&
      -6 ≤ exponent + ((Text.ofNat coefficient).length - 1 : Nat) : Bool) = true := by
    simpa [IsPositional] using h
  obtain ⟨places, rfl⟩ := Int.exists_eq_neg_ofNat h.1
  rw [Decimal.magnitudeText]
  simp only [hposition, if_true, Int.natAbs_neg, Int.natAbs_natCast]
  have hall := allDigits_ofNat coefficient
  have hvalue := digitsValue_ofNat coefficient
  obtain ⟨-, c, more, hdigits, hzero⟩ := isWhole_ofNat coefficient
  generalize Text.ofNat coefficient = written at hall hvalue hdigits ⊢
  split
  · next hplaces =>
    refine ⟨written, [], by simp, ⟨hall, c, more, hdigits, hzero⟩, .inl rfl, .inl rfl, ?_, ?_⟩
    · simpa using hvalue
    · simp [hplaces, Decimal.exponent?]
  split
  · next hlength =>
    obtain ⟨k, hk⟩ : ∃ k, written.length - places = k + 1 := ⟨written.length - places - 1, by omega⟩
    rw [hk]
    refine ⟨written.take (k + 1), CodePoint.ofChar '.' :: written.drop (k + 1),
      by simp [Text.ofString], ⟨fun d hd => hall d (List.mem_of_mem_take hd), c, more.take k, ?_,
        fun h => ?_⟩, .inr ⟨_, rfl, ?_, fun d hd => hall d (List.mem_of_mem_drop hd)⟩, .inl rfl,
      ?_, ?_⟩
    · rw [hdigits]
      rfl
    · rw [hzero h, List.take_nil]
    · intro hnil
      have hle := List.drop_eq_nil_iff.mp hnil
      omega
    · rw [List.drop_one, List.tail_cons, List.take_append_drop, hvalue]
    · have hdrop : (written.drop (k + 1)).length = places := by
        rw [List.length_drop]
        omega
      rw [List.drop_one, List.tail_cons, hdrop]
      simp [Decimal.exponent?]
  · next hlength =>
    refine ⟨Text.ofNat 0, CodePoint.ofChar '.' ::
      (Text.repeated "0" (places - written.length) ++ written), by simp; rfl, isWhole_ofNat 0,
      .inr ⟨_, rfl, ?_, (allDigits_zeros _).append hall⟩, .inl rfl, ?_, ?_⟩
    · simp [hdigits]
    · rw [List.drop_one, List.tail_cons, digitsValue_append, digitsValue_append, digitsValue_ofNat,
        digitsValue_zeros, hvalue]
      simp
    · have hsum : places - written.length + written.length = places := by omega
      rw [List.drop_one, List.tail_cons, List.length_append, length_zeros, hsum]
      simp [Decimal.exponent?]

/-- One digit, the other ones after a point, and a power of ten. -/
theorem decimalParts_scientific {coefficient : Nat} {exponent : Int}
    (h : ¬IsPositional coefficient exponent) :
    ∃ digits frac power, Decimal.magnitudeText coefficient exponent = digits ++ frac ++ power ∧
      DecimalParts coefficient exponent digits frac power := by
  have hposition : ¬(exponent ≤ 0 &&
      -6 ≤ exponent + ((Text.ofNat coefficient).length - 1 : Nat) : Bool) = true := by
    simpa [IsPositional] using h
  rw [Decimal.magnitudeText]
  dsimp only
  rw [if_neg hposition]
  have hall := allDigits_ofNat coefficient
  have hvalue := digitsValue_ofNat coefficient
  obtain ⟨-, c, more, hdigits, -⟩ := isWhole_ofNat coefficient
  rw [hdigits] at hall hvalue ⊢
  rw [List.length_cons, Nat.add_sub_cancel]
  have hwhole : IsWhole [c] :=
    ⟨fun d hd => hall d (by simp_all), c, [], rfl, fun _ => rfl⟩
  have hpower := isPower_exponent (exponent + more.length)
  have hexponent := exponent?_powerText (exponent + more.length)
  cases more with
  | nil => exact ⟨[c], [], _, List.append_assoc .., hwhole, .inl rfl, hpower, hvalue, hexponent⟩
  | cons d more =>
    have hfrac : IsFraction (CodePoint.ofChar '.' :: d :: more) :=
      .inr ⟨d :: more, rfl, by simp, fun x hx => hall x (List.mem_cons_of_mem c hx)⟩
    exact ⟨[c], _, _, List.append_assoc .., hwhole, hfrac, hpower, hvalue, hexponent⟩

/-- The text of a decimal consists of parts that stand for its coefficient and its exponent. -/
theorem exists_parts (coefficient : Nat) (exponent : Int) :
    ∃ digits frac power, Decimal.magnitudeText coefficient exponent = digits ++ frac ++ power ∧
      DecimalParts coefficient exponent digits frac power := by
  by_cases h : IsPositional coefficient exponent
  · obtain ⟨digits, frac, htext, hparts⟩ := decimalParts_positional h
    exact ⟨digits, frac, [], by rw [htext, List.append_nil], hparts⟩
  · exact decimalParts_scientific h

/-- What stands for a number after its sign: digits, or a word. -/
inductive IsMagnitude : Text → Prop
  | digits {digits frac power : Text} (hwhole : IsWhole digits) (hfrac : IsFraction frac)
      (hpower : IsPower power) : IsMagnitude (digits ++ frac ++ power)
  | word {name : String} (hname : name = "NaN" ∨ name = "Infinity") : IsMagnitude name

def IsNumeral (t : Text) : Prop :=
  ∃ negative magnitude, t = Json.signText negative ++ magnitude ∧ IsMagnitude magnitude

/-- Digits alone, after a sign or not: a point would go on with the number. -/
def isWholeText (t : Text) : Bool := t.all fun c => c.isAsciiDigit || c.is '-'

theorem isWholeText_number (negative : Bool) {digits frac power : Text} (hwhole : IsWhole digits)
    (hfrac : IsFraction frac) (hpower : IsPower power) :
    isWholeText (signText negative ++ (digits ++ frac ++ power)) = true ↔
      frac = [] ∧ power = [] := by
  have hsign : (signText negative).all (fun c => c.isAsciiDigit || c.is '-') = true := by
    cases negative <;> decide
  have hdigits : digits.all (fun c => c.isAsciiDigit || c.is '-') = true :=
    List.all_eq_true.mpr fun c hc => by simp [hwhole.1 c hc]
  have hpoint : ((CodePoint.ofChar '.').isAsciiDigit || (CodePoint.ofChar '.').is '-') = false := by
    decide
  rw [isWholeText, List.all_append, List.all_append, List.all_append, hsign, hdigits]
  rcases hfrac with rfl | ⟨places, rfl, -⟩
  · rcases hpower with rfl | ⟨mark, sign, digits, rfl, -, -, rfl | rfl, -⟩ <;>
      simp [CodePoint.isAsciiDigit, CodePoint.within, CodePoint.is, CodePoint.ofChar]
  · simp only [List.all_cons, hpoint]
    simp

theorem IsNumeral.lexes {t : Text} (h : IsNumeral t) :
    Lexes α .any t (if isWholeText t then .operand else .object) := by
  obtain ⟨negative, magnitude, rfl, hmagnitude⟩ := h
  cases hmagnitude with
  | digits hwhole hfrac hpower =>
    simp only [isWholeText_number negative hwhole hfrac hpower]
    exact lexes_number negative hwhole hfrac hpower
  | @word name hname =>
    have htext : isWholeText (signText negative ++ Text.ofString name) = false := by
      rcases hname with rfl | rfl <;> cases negative <;> rfl
    rw [htext]
    exact lexes_special hname negative

/-- Numbers are written with digits, signs, a point and marks of a power of ten. -/
theorem IsNumeral.all {p : CodePoint → Bool} {t : Text} (h : IsNumeral t)
    (hdigits : ∀ c, c.isAsciiDigit = true → p c = true)
    (hmarks : (Text.ofString "+-.eE").all p = true) (hnan : (Text.ofString "NaN").all p = true)
    (hinfinity : (Text.ofString "Infinity").all p = true) : t.all p = true := by
  have hall {digits : Text} (h : AllDigits digits) : digits.all p = true :=
    List.all_eq_true.mpr fun c hc => hdigits c (h c hc)
  obtain ⟨hplus, hminus, hpoint, he, hE⟩ : p '+' = true ∧ p '-' = true ∧ p '.' = true ∧
      p 'e' = true ∧ p 'E' = true := by simpa [Text.ofString] using hmarks
  obtain ⟨negative, magnitude, rfl, hmagnitude⟩ := h
  have hsign : (Json.signText negative).all p = true := by
    cases negative <;> simp [Json.signText, Text.ofString, hminus]
  rw [List.all_append, hsign, Bool.true_and]
  cases hmagnitude with
  | digits hwhole hfrac hpower =>
    rw [List.all_append, List.all_append, hall hwhole.1, Bool.true_and, Bool.and_eq_true]
    constructor
    · rcases hfrac with rfl | ⟨places, rfl, -, hplaces⟩
      · rfl
      · simp only [List.all_cons, hall hplaces, hpoint, Bool.and_true]
    · rcases hpower with rfl | ⟨mark, sign, digits, rfl, -, hdigits, hmark, hsign⟩
      · rfl
      · simp only [List.all_cons, hall hdigits, Bool.and_true, Bool.and_eq_true]
        rcases hmark with rfl | rfl <;> rcases hsign with rfl | rfl <;> simp only [*, and_self]
  | word hname =>
    rcases hname with rfl | rfl
    · exact hnan
    · exact hinfinity

theorem isNumeral_of_isNumber {t : Text} {value : Json} (h : IsNumber t value) : IsNumeral t := by
  obtain ⟨negative, digits, frac, exp, rfl, hwhole, hfrac, hexp, -⟩ := h
  refine ⟨negative, digits ++ frac ++ exp, by simp only [List.append_assoc], ?_⟩
  exact .digits hwhole hfrac (isPower_of_isExponent hexp)

theorem isNumeral_decimal {d : Decimal} {t : Text} (h : numberText? (.decimal d) = some t) :
    IsNumeral t := by
  cases d with
  | finite negative coefficient exponent =>
    obtain rfl := Option.some.inj h
    obtain ⟨digits, frac, power, htext, hparts⟩ := exists_parts coefficient exponent
    refine ⟨negative, Decimal.magnitudeText coefficient exponent, by cases negative <;> rfl, ?_⟩
    rw [htext]
    exact .digits hparts.isWhole hparts.isFraction hparts.isPower
  | infinity negative =>
    obtain rfl := Option.some.inj h
    exact ⟨negative, _, rfl, .word (.inr rfl)⟩
  | nan negative signaling payload =>
    obtain rfl := Option.some.inj h
    exact ⟨false, _, rfl, .word (.inl rfl)⟩

theorem isNumeral_double (d : Double) : IsNumeral (d.textWith ⟨"NaN", "Infinity"⟩) := by
  cases d with
  | nan => exact ⟨false, _, rfl, .word (.inl rfl)⟩
  | signed negative rank =>
    by_cases hrank : rank.val = Double.infinityRank
    · refine ⟨negative, _, ?_, .word (.inr rfl)⟩
      simp only [Double.textWith, if_pos hrank]
      cases negative <;> rfl
    · have hfinite : (Double.signed negative rank).isFinite = true :=
        decide_eq_true (Nat.lt_of_le_of_ne (Nat.le_of_lt_succ rank.isLt) hrank)
      have hnumeral := isNumeral_of_isNumber (isNumber_double hfinite)
      simpa [Double.text, Double.textWith, hrank] using hnumeral

/-- The text of every number is a number, or a word that stands for one. -/
theorem isNumeral_numberText {a : Atom} {t : Text} (h : numberText? a = some t) : IsNumeral t := by
  cases a with
  | int i =>
    obtain ⟨-, rfl⟩ := Text.ofInt?_eq_some_iff.mp h
    exact isNumeral_of_isNumber (isNumber_ofInt i)
  | double d =>
    obtain rfl := Option.some.inj h
    exact isNumeral_double d
  | decimal d => exact isNumeral_decimal h
  | _ => cases h

end Numbers

section Strings

variable {α : Alphabet} {done : List Text} {pending : Text}

def inString (done : List Text) (pending : Text) : State := ⟨done, pending, .quoted false⟩

theorem isHexDigit_hexDigit (n : Nat) : isHexDigit (Text.hexDigit true (n % 16)) = true := by
  have hlt : n % 16 < 16 := Nat.mod_lt n (by decide)
  interval_cases n % 16 <;> rfl

/-- Phases that count the digits of an escape down lead to what goes on after it. -/
theorem scan_hexDigits {counting : Nat → Phase} {target : Phase}
    (hmore : ∀ more pending c, isHexDigit c = true →
      next α (counting (more + 1)) pending c = some (counting more))
    (hlast : ∀ pending c, isHexDigit c = true → next α (counting 0) pending c = some target)
    {digits : Text} {more : Nat} (hlength : digits.length = more + 1)
    (hdigits : ∀ c ∈ digits, isHexDigit c = true) :
    scan α ⟨done, pending, counting more⟩ digits = ⟨done, pending ++ digits, target⟩ := by
  induction digits generalizing more pending with
  | nil => cases hlength
  | cons c digits ih =>
    have hc := hdigits c List.mem_cons_self
    cases more with
    | zero =>
      obtain rfl : digits = [] := List.length_eq_zero_iff.mp (by simpa using hlength)
      rw [scan_cons, scan_nil, scan_step (hlast pending c hc)]
    | succ more =>
      rw [scan_cons, scan_step (hmore more pending c hc),
        ih (by simpa using hlength) fun d hd => hdigits d (List.mem_cons_of_mem c hd)]
      simp

theorem scan_hex (more n : Nat) :
    scan α ⟨done, pending, .stringDigits false more⟩ (Text.hex true (more + 1) n) =
      inString done (pending ++ Text.hex true (more + 1) n) := by
  refine scan_hexDigits (fun more pending c hc => by simp [next, hc])
    (fun pending c hc => by simp [next, hc]) (by simp [Text.hex]) fun c hc => ?_
  obtain ⟨i, -, rfl⟩ := List.mem_map.mp hc
  exact isHexDigit_hexDigit _

def backslashed (letter : CodePoint) : Text := [CodePoint.ofChar '\\', letter]

theorem scan_backslashed {letter : CodePoint} {phase : Phase}
    (h : escapeNext false letter = some phase) :
    scan α (inString done pending) (backslashed letter) =
      ⟨done, pending ++ backslashed letter, phase⟩ := by
  have hfirst : State.step α (inString done pending) (CodePoint.ofChar '\\') =
      ⟨done, pending ++ [CodePoint.ofChar '\\'], .stringEscape false⟩ := scan_step rfl
  have hsecond : next α (.stringEscape false) (pending ++ [CodePoint.ofChar '\\']) letter =
      some phase := h
  rw [backslashed, scan_cons, hfirst, scan_cons, scan_nil, scan_step hsecond]
  simp

def shortEscapes : List (CodePoint × CodePoint) :=
  [('\\', '\\'), ('\'', '\''), ('n', '\n'), ('r', '\r'), ('t', '\t'), ('b', '\x08'), ('f', '\x0c'),
    ('v', '\x0b')]

/-- An escape of a code point's own is a backslash and a letter. -/
theorem exists_shortEscape {c : CodePoint} {escape : Text} (h : simpleEscape? c = some escape) :
    ∃ entry ∈ shortEscapes, escape = backslashed entry.1 ∧ c = entry.2 := by
  have hshort (entry : CodePoint × CodePoint) (hentry : entry ∈ shortEscapes) (hc : c = entry.2)
      (h : some (backslashed entry.1) = some escape) :
      ∃ entry ∈ shortEscapes, escape = backslashed entry.1 ∧ c = entry.2 :=
    ⟨entry, hentry, (Option.some.inj h).symm, hc⟩
  revert h
  fun_cases simpleEscape? c with
  | case1 hc => exact hshort ('\\', '\\') (by decide) (CodePoint.is_iff.mp hc)
  | case2 _ hc => exact hshort ('\'', '\'') (by decide) (CodePoint.is_iff.mp hc)
  | case3 _ _ hc => exact hshort ('n', '\n') (by decide) (CodePoint.is_iff.mp hc)
  | case4 _ _ _ hc => exact hshort ('r', '\r') (by decide) (CodePoint.is_iff.mp hc)
  | case5 _ _ _ _ hc => exact hshort ('t', '\t') (by decide) (CodePoint.is_iff.mp hc)
  | case6 _ _ _ _ _ hc => exact hshort ('b', '\x08') (by decide) (CodePoint.ext_val hc)
  | case7 _ _ _ _ _ _ hc => exact hshort ('f', '\x0c') (by decide) (CodePoint.ext_val hc)
  | case8 _ _ _ _ _ _ _ hc => exact hshort ('v', '\x0b') (by decide) (CodePoint.ext_val hc)
  | case9 => nofun

theorem scan_simpleEscape {c : CodePoint} {escape : Text} (h : simpleEscape? c = some escape) :
    scan α (inString done pending) escape = inString done (pending ++ escape) := by
  have hnext : ∀ entry ∈ shortEscapes, escapeNext false entry.1 = some (.quoted false) := by decide
  obtain ⟨entry, hentry, rfl, -⟩ := exists_shortEscape h
  exact scan_backslashed (hnext entry hentry)

/-- A code point that stands for itself in a string. -/
theorem quotedNext_raw {c : CodePoint} (hescape : simpleEscape? c = none)
    (hline : ¬(c.val = 0x2028 ∨ c.val = 0x2029)) : quotedNext false c = some (.quoted false) := by
  revert hescape
  fun_cases simpleEscape? c with
  | case9 hbackslash hquote hfeed hreturn =>
    intro _
    have hends : isLineEnd c = false := by
      simp only [isLineEnd, hfeed, hreturn, CodePoint.within, Bool.false_or, Bool.and_eq_false_iff,
        decide_eq_false_iff_not]
      omega
    have hother : c ≠ quote false := fun heq => hquote (CodePoint.is_iff.mpr heq)
    simp [quotedNext, hother, hbackslash, hends]
  | _ =>
    intro hescape
    cases hescape

/-- After the short escape of the null character the string goes on unless a digit follows. -/
theorem scan_null {more : Text} (h : more.head?.any (!·.isAsciiDigit) = true) :
    scan α ⟨done, pending, .stringNull false⟩ more = scan α (inString done pending) more := by
  cases more with
  | nil => cases h
  | cons c more =>
    have hdigit : c.isAsciiDigit = false := by simpa using h
    have hstep : State.step α ⟨done, pending, .stringNull false⟩ c =
        State.step α (inString done pending) c := by
      unfold State.step State.endsBefore
      simp [inString, next, hdigit, Phase.isComplete, Phase.isNumber]
    rw [scan_cons, hstep, scan_cons]

/-- An escape in a string, or a code point that stands for itself there, leads back to the
string. After the short escape of the null character no digit must follow. -/
theorem scan_escapedPoint (c : CodePoint) (rest more : Text)
    (hmore : more.head?.any (!·.isAsciiDigit) = true ∨ rest.head?.any CodePoint.isDigit = true) :
    scan α (inString done pending) (escapedPoint c rest ++ more) =
      scan α (inString done (pending ++ escapedPoint c rest)) more := by
  have hdigits (letter : CodePoint) (width : Nat)
      (hnext : escapeNext false letter = some (.stringDigits false width)) :
      scan α (inString done pending) (backslashed letter ++ Text.hex true (width + 1) c.val) =
        inString done (pending ++ (backslashed letter ++ Text.hex true (width + 1) c.val)) := by
    rw [scan_append, scan_backslashed hnext, scan_hex, List.append_assoc]
  rw [scan_append]
  unfold escapedPoint
  cases hescape : simpleEscape? c with
  | some escape => rw [scan_simpleEscape hescape]
  | none =>
    dsimp only
    split_ifs with hnull hdigit hcontrol hunicode
    · have hzeros : Text.hex true 2 c.val = Text.ofString "00" := by rw [hnull]; rfl
      have htwo := hdigits 'x' 1 rfl
      rw [hzeros] at htwo
      exact congrArg (scan α · more) htwo
    · have hletter : scan α (inString done pending) (backslashed '0') =
          ⟨done, pending ++ backslashed '0', .stringNull false⟩ := scan_backslashed rfl
      exact (congrArg (scan α · more) hletter).trans (scan_null (hmore.resolve_right hdigit))
    · exact congrArg (scan α · more) (hdigits 'x' 1 rfl)
    · exact congrArg (scan α · more) (hdigits 'u' 3 rfl)
    · have hraw : next α (inString done pending).phase (inString done pending).pending c =
          some (.quoted false) := quotedNext_raw hescape (by simp at hunicode; tauto)
      rw [scan_cons, scan_nil, scan_step hraw]
      rfl

theorem head_escapedText (t : Text) (h : t.head?.any CodePoint.isDigit = false) :
    (escapedText t ++ Text.ofString "'").head?.any (!·.isAsciiDigit) = true := by
  cases t with
  | nil => rfl
  | cons c rest =>
    have hc : c.isAsciiDigit = false := by
      have hdigit : c.isDigit = false := by simpa using h
      by_contra hascii
      have hrange : c.isAsciiDigit = true := by simpa using hascii
      simp only [CodePoint.isDigit, CodePoint.inRanges, CodePoint.digitRanges, List.any_cons,
        Bool.or_eq_false_iff] at hdigit
      rw [CodePoint.isAsciiDigit, hdigit.1] at hrange
      cases hrange
    unfold escapedText escapedPoint
    cases hescape : simpleEscape? c with
    | some escape =>
      obtain ⟨entry, -, rfl, -⟩ := exists_shortEscape hescape
      rfl
    | none =>
      dsimp only
      split_ifs
      · rfl
      · rfl
      · rfl
      · rfl
      · simp [hc]

/-- No digit follows the short escape of the null character. -/
theorem escapedText_follows (rest : Text) :
    (escapedText rest ++ Text.ofString "'").head?.any (!·.isAsciiDigit) = true ∨
      rest.head?.any CodePoint.isDigit = true := by
  cases h : rest.head?.any CodePoint.isDigit with
  | true => exact .inr rfl
  | false => exact .inl (head_escapedText rest h)

theorem scan_escapedText (t : Text) :
    scan α (inString done pending) (escapedText t ++ Text.ofString "'") =
      ⟨done, pending ++ (escapedText t ++ Text.ofString "'"), .closed⟩ := by
  induction t generalizing pending with
  | nil => rfl
  | cons c rest ih =>
    rw [escapedText, List.append_assoc, scan_escapedPoint c rest _ (escapedText_follows rest), ih,
      List.append_assoc]

/-- A string literal is scanned as one token, which its last quote closes. -/
theorem scan_stringLiteral (t : Text) :
    scan α {} (stringLiteral t) = ⟨[], stringLiteral t, .closed⟩ := by
  have hquote : State.step α {} (CodePoint.ofChar '\'') = inString [] (Text.ofString "'") := rfl
  have hcons : stringLiteral t =
      CodePoint.ofChar '\'' :: (escapedText t ++ Text.ofString "'") := rfl
  rw [hcons, scan_cons, hquote, scan_escapedText]
  rfl

theorem lexes_stringLiteral (t : Text) : Lexes α .any (stringLiteral t) .object := by
  refine ⟨rfl, ?_⟩
  rw [scan_stringLiteral]
  rfl

end Strings

end ScriptTree.Lexical
