import ScriptTree.Proofs.Lexical.Scanner

/-!
Where one token ends and another one starts. A code point is told apart from the token before
it by what that token is: blanks, brackets and quotes end every token; an operator ends an
operand; a point ends an operand that is no number; and where a word or a sign would join
what stands before it, a space is written between them.
-/

namespace ScriptTree.Lexical

open Source

inductive Class where
  /-- Something that an expression or a statement can follow, if need be after a space. -/
  | any
  /-- Something that they can follow directly: neither a word nor a number. -/
  | clear
  /-- The point before a name. -/
  | point
  /-- The end of an operand. -/
  | operand
  /-- The end of an operand that can be accessed by a name: it is no whole number. -/
  | object
deriving DecidableEq

def closesOperand (t : Text) : Bool :=
  [")", "]", "\x7d", "++", "--"].any fun p => Text.ofString p == t

namespace State

def endsInWord (st : State) : Bool := st.pending.getLast?.any isWordPoint

def isOpen (st : State) : Bool :=
  match st.phase with
  | .between | .closed => true
  | .punctuator => !st.pending.isEmpty && st.pending ≠ Text.ofString "."
  | .word => st.endsInWord
  | phase => phase.isNumber && st.endsInWord

def isClear (st : State) : Bool :=
  match st.phase with
  | .between | .closed | .punctuator => st.isOpen
  | _ => false

def endsOperand (st : State) : Bool :=
  match st.phase with
  | .closed => true
  | .punctuator => closesOperand st.pending
  | .word => st.endsInWord
  | phase => phase.isNumber && st.endsInWord

def meets (st : State) : Class → Bool
  | .any => st.isOpen
  | .clear => st.isClear
  | .point => st.phase = .punctuator && st.pending = Text.ofString "."
  | .operand => st.endsOperand
  | .object => st.endsOperand && !st.phase.isWhole

end State

def isOneOf (chars : List Char) (c : CodePoint) : Bool := chars.any c.is

def isPause (c : CodePoint) : Bool :=
  isBlank c ||
    isOneOf ['(', ')', '[', ']', '\x7b', '\x7d', ';', ',', ':', '?', '~', '"', '\''] c

def isSign : CodePoint → Bool := isOneOf ['+', '-', '!']

def isOperator : CodePoint → Bool :=
  isOneOf ['+', '-', '!', '*', '/', '%', '<', '>', '=', '&', '|', '^']

/-- Whether a text can start with a code point after something of a class. An escape in a name
cannot directly follow a word, and no space is written there. -/
def Class.admits (α : Alphabet) (k : Class) (c : CodePoint) : Bool :=
  match k with
  | .any => isPause c || isSign c || α.starts c || c.isAsciiDigit
  | .clear => isPause c || isSign c || α.starts c || c.isAsciiDigit || c.is '\\'
  | .point => α.starts c || c.is '\\'
  | .operand => isPause c || isOperator c
  | .object => isPause c || isOperator c || c.is '.'

section Points

variable {α : Alphabet} {c : CodePoint}

theorem isWordPoint_of_starts (h : α.starts c = true) : isWordPoint c = true := by
  unfold Alphabet.starts at h
  unfold isWordPoint
  simp only [Bool.or_eq_true, Bool.and_eq_true, decide_eq_true_eq] at h ⊢
  tauto

theorem isWordPoint_of_continues (h : α.continues c = true) : isWordPoint c = true := by
  unfold Alphabet.continues at h
  simp only [Bool.or_eq_true, Bool.and_eq_true, decide_eq_true_eq] at h
  rcases h with (h | h) | h
  · exact isWordPoint_of_starts h
  · simp [isWordPoint, h]
  · simp [isWordPoint, h.1.1]

theorem not_starts_digit (h : c.isAsciiDigit = true) : α.starts c = false := by
  have hrange : 0x30 ≤ c.val ∧ c.val ≤ 0x39 := by
    simpa [CodePoint.isAsciiDigit, CodePoint.within] using h
  simp only [Alphabet.starts, CodePoint.isAsciiLetter, CodePoint.within, CodePoint.is,
    Bool.or_eq_false_iff, Bool.and_eq_false_iff, decide_eq_false_iff_not, beq_eq_false_iff_ne,
    show '_'.toNat = 0x5F from rfl, show '$'.toNat = 0x24 from rfl]
  omega

def isAsciiWord (c : CodePoint) : Bool :=
  c.isAsciiLetter || c.isAsciiDigit || c.is '_' || c.is '$' || c.is '\\'

theorem isAsciiWord_of_hexDigit (h : isHexDigit c = true) :
    (c.isAsciiLetter || c.isAsciiDigit) = true := by
  unfold isHexDigit CodePoint.hexValue? at h
  unfold CodePoint.isAsciiLetter CodePoint.isAsciiDigit
  simp only [CodePoint.within, Bool.and_eq_true, Bool.or_eq_true, decide_eq_true_eq] at h ⊢
  by_cases hdigit : 0x30 ≤ c.val ∧ c.val ≤ 0x39
  · exact .inr hdigit
  · by_cases hupper : 0x41 ≤ c.val ∧ c.val ≤ 0x46
    · omega
    · by_cases hlower : 0x61 ≤ c.val ∧ c.val ≤ 0x66
      · omega
      · simp [hdigit, hupper, hlower] at h

theorem exists_of_isOneOf {chars : List Char} (h : isOneOf chars c = true) :
    ∃ x ∈ chars, c = CodePoint.ofChar x := by
  obtain ⟨x, hx, his⟩ := List.any_eq_true.mp h
  exact ⟨x, hx, CodePoint.is_iff.mp his⟩

theorem is_eq_false {p : CodePoint → Bool} (x : Char) (h : p c = false)
    (hx : p (CodePoint.ofChar x) = true) : c.is x = false := by
  by_contra his
  obtain rfl : c = CodePoint.ofChar x := CodePoint.is_iff.mp (by simpa using his)
  rw [hx] at h
  cases h

structure IsApart (α : Alphabet) (c : CodePoint) : Prop where
  starts : α.starts c = false
  continues : α.continues c = false
  ascii : isAsciiWord c = false

theorem isApart_of_blank (h : isBlank c = true) : IsApart α c := by
  have hascii : isAsciiWord c = false := by
    simp only [isBlank, CodePoint.inRanges, List.any_cons, List.any_nil, CodePoint.within,
      Bool.or_eq_true, Bool.and_eq_true, decide_eq_true_eq, Bool.false_eq_true, or_false] at h
    simp only [isAsciiWord, CodePoint.isAsciiLetter, CodePoint.isAsciiDigit, CodePoint.within,
      CodePoint.is, Bool.or_eq_false_iff, Bool.and_eq_false_iff, decide_eq_false_iff_not,
      beq_eq_false_iff_ne, show '_'.toNat = 0x5F from rfl, show '$'.toNat = 0x24 from rfl,
      show '\\'.toNat = 0x5C from rfl]
    omega
  have hparts := hascii
  simp only [isAsciiWord, Bool.or_eq_false_iff] at hparts
  have hstarts : α.starts c = false := by simp [Alphabet.starts, hparts, h]
  exact ⟨hstarts, by simp [Alphabet.continues, hstarts, hparts, h], hascii⟩

theorem isApart_of_oneOf {chars : List Char}
    (hchars : (chars.all fun x =>
      !isAsciiWord (.ofChar x) && (CodePoint.ofChar x).val ≤ 0x7F) = true)
    (h : isOneOf chars c = true) : IsApart α c := by
  obtain ⟨x, hx, rfl⟩ := exists_of_isOneOf h
  have hboth := List.all_eq_true.mp hchars x hx
  simp only [Bool.and_eq_true, Bool.not_eq_true', decide_eq_true_eq] at hboth
  obtain ⟨hascii, hle⟩ := hboth
  have hparts := hascii
  simp only [isAsciiWord, Bool.or_eq_false_iff] at hparts
  have hlt : ¬0x7F < (CodePoint.ofChar x).val := by omega
  have hstarts : α.starts (CodePoint.ofChar x) = false := by simp [Alphabet.starts, hparts, hlt]
  exact ⟨hstarts, by simp [Alphabet.continues, hstarts, hparts, hlt], hascii⟩

theorem isApart_of_pause (h : isPause c = true) : IsApart α c := by
  rcases Bool.or_eq_true_iff.mp h with h | h
  · exact isApart_of_blank h
  · exact isApart_of_oneOf (by decide) h

theorem isApart_of_operator (h : isOperator c = true) : IsApart α c :=
  isApart_of_oneOf (by decide) h

namespace IsApart

variable (h : IsApart α c)

include h

theorem digit : c.isAsciiDigit = false := by
  have hascii := h.ascii
  simp only [isAsciiWord, Bool.or_eq_false_iff] at hascii
  exact hascii.1.1.1.2

theorem hex : isHexDigit c = false := by
  have hascii := h.ascii
  simp only [isAsciiWord, Bool.or_eq_false_iff] at hascii
  by_contra hhex
  have hword := isAsciiWord_of_hexDigit (by simpa using hhex)
  simp [hascii] at hword

theorem letter {x : Char} (hx : isAsciiWord (.ofChar x) = true) : c.is x = false :=
  is_eq_false x h.ascii hx

end IsApart

end Points

section Punctuators

variable {c : CodePoint} {pending : Text}

/-- What holds of the beginning and the last code point of every punctuator. -/
theorem of_isPunctuator {q : Text → CodePoint → Bool}
    (hq : (punctuators.all fun p =>
      (Text.ofString p).getLast?.all (q (Text.ofString p).dropLast)) = true)
    (h : isPunctuator (pending ++ [c]) = true) : q pending c = true := by
  obtain ⟨p, hp, heq⟩ := List.any_eq_true.mp h
  have hall := List.all_eq_true.mp hq p hp
  rw [beq_iff_eq.mp heq] at hall
  simpa using hall

theorem punctuatorNext_of_pause (hne : pending ≠ []) (h : isPause c = true) :
    punctuatorNext pending c = none := by
  have hapart : IsApart ⟨fun _ => false, fun _ => false⟩ c := isApart_of_pause h
  have hslash : c.is '/' = false :=
    is_eq_false (p := fun c => !isPause c) '/' (by simp [h]) (by decide)
  have hstar : c.is '*' = false :=
    is_eq_false (p := fun c => !isPause c) '*' (by simp [h]) (by decide)
  have hlonger : isPunctuator (pending ++ [c]) = false := by
    by_contra hlonger
    have hq := of_isPunctuator (q := fun init c => init.isEmpty || !isPause c) (by decide)
      (by simpa using hlonger)
    simp [h, hne] at hq
  simp [punctuatorNext, hapart.digit, hslash, hstar, hlonger]

/-- A sign makes a longer punctuator only where it would join the one before it. -/
theorem punctuatorNext_of_sign (hne : pending ≠ []) (h : isSign c = true) :
    punctuatorNext pending c = none ∨ pending = [c] ∧ joins c c = true := by
  have hapart : IsApart ⟨fun _ => false, fun _ => false⟩ c := isApart_of_oneOf (by decide) h
  have hslash : c.is '/' = false :=
    is_eq_false (p := fun c => !isSign c) '/' (by simp [h]) (by decide)
  have hstar : c.is '*' = false :=
    is_eq_false (p := fun c => !isSign c) '*' (by simp [h]) (by decide)
  by_cases hlonger : isPunctuator (pending ++ [c]) = true
  · have hq := of_isPunctuator
      (q := fun init c => init.isEmpty || !isSign c || (init == [c] && joins c c))
      (by decide) hlonger
    simp only [h, List.isEmpty_iff, hne, Bool.not_true, Bool.or_false, Bool.or_eq_true,
      Bool.and_eq_true, beq_iff_eq, false_or] at hq
    exact .inr hq
  · left
    simp [punctuatorNext, hapart.digit, hslash, hstar, hlonger]

/-- Nothing makes a longer punctuator of one that ends an operand. -/
theorem punctuatorNext_of_closes (h : closesOperand pending = true) :
    punctuatorNext pending c = none := by
  have hlonger : isPunctuator (pending ++ [c]) = false := by
    by_contra hlonger
    have hq := of_isPunctuator (q := fun init _ => !closesOperand init) (by decide)
      (by simpa using hlonger)
    simp [h] at hq
  have hpoint : pending ≠ Text.ofString "." := by
    rintro rfl
    revert h
    decide
  have hslash : pending ≠ Text.ofString "/" := by
    rintro rfl
    revert h
    decide
  simp [punctuatorNext, hpoint, hslash, hlonger]

theorem punctuatorNext_of_wordPoint (hpoint : pending ≠ Text.ofString ".")
    (h : isWordPoint c = true) : punctuatorNext pending c = none := by
  have hlonger : isPunctuator (pending ++ [c]) = false := by
    by_contra hlonger
    have hq := of_isPunctuator (q := fun _ c => !isWordPoint c) (by decide) (by simpa using hlonger)
    simp [h] at hq
  have hslash : c.is '/' = false := not_is_of_isWordPoint h (by decide)
  have hstar : c.is '*' = false := not_is_of_isWordPoint h (by decide)
  simp [punctuatorNext, hpoint, hslash, hstar, hlonger]

end Punctuators

section States

variable {α : Alphabet} {c : CodePoint} {st : State}

@[simp] theorem meets_after (before : List Text) (k : Class) :
    (st.after before).meets k = st.meets k := rfl

theorem isOpen_of_isClear (h : st.isClear = true) : st.isOpen = true := by
  unfold State.isClear at h
  cases hphase : st.phase <;> simp_all

theorem isOpen_of_meets {k : Class} (hk : k ≠ .point) (h : st.meets k = true) :
    st.isOpen = true := by
  have hoperand (h : st.endsOperand = true) : st.isOpen = true := by
    unfold State.endsOperand at h
    unfold State.isOpen
    cases hphase : st.phase <;> simp only [hphase] at h ⊢ <;> try exact h
    have hne : st.pending ≠ [] := by
      intro heq
      rw [heq] at h
      revert h
      decide
    have hpoint : st.pending ≠ Text.ofString "." := by
      intro heq
      rw [heq] at h
      revert h
      decide
    simp [hne, hpoint]
  cases k with
  | any => exact h
  | clear => exact isOpen_of_isClear h
  | point => exact absurd rfl hk
  | operand => exact hoperand h
  | object =>
    simp only [State.meets, Bool.and_eq_true] at h
    exact hoperand h.1

def Class.under (k k' : Class) : Bool :=
  k = k' || (k' = .any && k ≠ .point) || (k = .object && k' = .operand)

theorem Class.under_self (k : Class) : k.under k = true := by cases k <;> rfl

theorem meets_of_under {k k' : Class} (hk : k.under k' = true) (h : st.meets k = true) :
    st.meets k' = true := by
  simp only [Class.under, Bool.or_eq_true, Bool.and_eq_true, decide_eq_true_eq] at hk
  rcases hk with (rfl | ⟨rfl, hk⟩) | ⟨rfl, rfl⟩
  · exact h
  · exact isOpen_of_meets hk h
  · simp only [State.meets, Bool.and_eq_true] at h
    exact h.1

theorem isComplete_of_isOpen (h : st.isOpen = true) : st.phase.isComplete = true := by
  unfold State.isOpen at h
  unfold Phase.isComplete
  cases hphase : st.phase <;> simp_all [Phase.isNumber]

/-- A code point that is part of no word or number ends them; a point goes on with a whole
number. -/
theorem separates_of_apart (h : st.isOpen = true) (hapart : IsApart α c)
    (hpunctuator : st.phase = .punctuator → punctuatorNext st.pending c = none)
    (hpoint : c.is '.' = true → st.phase.isWhole = false) : st.Separates α c := by
  constructor
  · have he := hapart.letter (x := 'e') (by decide)
    have hE := hapart.letter (x := 'E') (by decide)
    have hx := hapart.letter (x := 'x') (by decide)
    have hX := hapart.letter (x := 'X') (by decide)
    have hbackslash := hapart.letter (x := '\\') (by decide)
    have hdot : st.phase.isWhole = true → c.is '.' = false := by
      intro hwhole
      by_contra hdot
      rw [hpoint (by simpa using hdot)] at hwhole
      cases hwhole
    unfold State.isOpen at h
    cases hphase : st.phase <;>
      simp_all [next, hapart.continues, hapart.digit, hapart.hex, Phase.isNumber, Phase.isWhole]
  · simp [State.endsBefore, isComplete_of_isOpen h, hapart.starts, hapart.digit,
      hapart.letter (x := '\\') (by decide)]

theorem pending_of_isOpen (h : st.isOpen = true) (hphase : st.phase = .punctuator) :
    st.pending ≠ [] ∧ st.pending ≠ Text.ofString "." := by
  simpa [State.isOpen, hphase] using h

theorem separates_pause (h : st.isOpen = true) (hc : isPause c = true) : st.Separates α c := by
  refine separates_of_apart h (isApart_of_pause hc)
    (fun hphase => punctuatorNext_of_pause (pending_of_isOpen h hphase).1 hc) fun hpoint => ?_
  rw [is_eq_false (p := fun c => !isPause c) '.' (by simp [hc]) (by decide)] at hpoint
  cases hpoint

def State.JoinedBy (st : State) (c : CodePoint) : Prop :=
  st.phase ≠ .between ∧ ∃ last, st.pending.getLast? = some last ∧ joins last c = true

theorem sign_admitted (h : st.isOpen = true) (hc : isSign c = true) :
    st.Separates α c ∨ st.JoinedBy c := by
  have hapart : IsApart α c := isApart_of_oneOf (by decide) hc
  have hpoint : c.is '.' = true → st.phase.isWhole = false := by
    rw [is_eq_false (p := fun c => !isSign c) '.' (by simp [hc]) (by decide)]
    exact nofun
  by_cases hphase : st.phase = .punctuator
  · rcases punctuatorNext_of_sign (pending_of_isOpen h hphase).1 hc with hnext | ⟨heq, hjoins⟩
    · exact .inl (separates_of_apart h hapart (fun _ => hnext) hpoint)
    · exact .inr ⟨by simp [hphase], c, by simp [heq], hjoins⟩
  · exact .inl (separates_of_apart h hapart (fun heq => absurd heq hphase) hpoint)

/-- What is open is a word or a number that ends like a word, or it is neither. -/
theorem isOpen_cases (h : st.isOpen = true) :
    (st.phase ≠ .between ∧ st.endsInWord = true) ∨ st.phase = .between ∨ st.phase = .closed ∨
      st.phase = .punctuator := by
  unfold State.isOpen at h
  cases hphase : st.phase <;> simp_all [Phase.isNumber]

theorem separates_word (h : st.isOpen = true) (hphase : st.phase = .punctuator)
    (hc : isWordPoint c = true) : st.Separates α c := by
  have hnext := punctuatorNext_of_wordPoint (pending_of_isOpen h hphase).2 hc
  refine ⟨by rw [hphase]; exact hnext, ?_⟩
  simp [State.endsBefore, hphase, Phase.isComplete, Phase.isNumber]

theorem word_admitted (h : st.isOpen = true) (hc : isWordPoint c = true) :
    st.Separates α c ∨ st.JoinedBy c := by
  rcases isOpen_cases h with ⟨hphase, hends⟩ | hphase | hphase | hphase
  · rw [State.endsInWord, Option.any_eq_true] at hends
    obtain ⟨last, hlast, hword⟩ := hends
    exact .inr ⟨hphase, last, hlast, by simp [joins, hword, hc]⟩
  · exact .inl (separates_between hphase)
  · refine .inl ⟨by rw [hphase]; rfl, ?_⟩
    simp [State.endsBefore, hphase, Phase.isComplete, Phase.isNumber]
  · exact .inl (separates_word h hphase hc)

/-- What is no word and no number ends before an escape. -/
theorem separates_escape (h : st.isClear = true) (hc : c.is '\\' = true) : st.Separates α c := by
  obtain rfl : c = CodePoint.ofChar '\\' := CodePoint.is_iff.mp hc
  have hlonger (pending : Text) : punctuatorNext pending (CodePoint.ofChar '\\') = none := by
    have hnone : isPunctuator (pending ++ [CodePoint.ofChar '\\']) = false := by
      by_contra hlonger
      have hq := of_isPunctuator (q := fun _ c => !c.is '\\') (by decide) (by simpa using hlonger)
      cases hq
    have hdigit : (CodePoint.ofChar '\\').isAsciiDigit = false := by decide
    have hslash : (CodePoint.ofChar '\\').is '/' = false := by decide
    have hstar : (CodePoint.ofChar '\\').is '*' = false := by decide
    simp [punctuatorNext, hnone, hdigit, hslash, hstar]
  unfold State.isClear at h
  constructor
  · cases hphase : st.phase <;> simp_all [next]
  · cases hphase : st.phase <;> simp_all [State.endsBefore, Phase.isComplete, Phase.isNumber]

/-- A name after a point. -/
theorem separates_name (h : st.meets .point = true) (hc : Class.point.admits α c = true) :
    st.Separates α c := by
  simp only [State.meets, Bool.and_eq_true, decide_eq_true_eq] at h
  obtain ⟨hphase, hpending⟩ := h
  have hlonger : punctuatorNext (Text.ofString ".") c = none := by
    have hnone : isPunctuator (Text.ofString "." ++ [c]) = false := by
      by_contra hlonger
      have hq := of_isPunctuator (q := fun init _ => init != Text.ofString ".") (by decide)
        (by simpa using hlonger)
      simp at hq
    have hdigit : c.isAsciiDigit = false := by
      by_contra hdigit
      have hdigit : c.isAsciiDigit = true := by simpa using hdigit
      have hbackslash : c.is '\\' = false :=
        is_eq_false (p := fun c => !c.isAsciiDigit) '\\' (by simp [hdigit]) (by decide)
      simp [Class.admits, not_starts_digit hdigit, hbackslash] at hc
    have hne : Text.ofString "." ≠ Text.ofString "/" := by decide
    simp [punctuatorNext, hnone, hdigit, hne]
  refine ⟨by rw [hphase, hpending]; exact hlonger, ?_⟩
  simp [State.endsBefore, hphase, Phase.isComplete, Phase.isNumber]

/-- What a class admits is told apart from what stands before, or a space is written. -/
theorem admitted {k : Class} (h : st.meets k = true) (hc : k.admits α c = true) :
    st.Separates α c ∨ st.JoinedBy c := by
  have hoperator (hends : st.endsOperand = true) (hc : isOperator c = true) : st.Separates α c := by
    refine separates_of_apart (isOpen_of_meets (k := .operand) nofun hends)
      (isApart_of_operator hc) (fun hphase => ?_) fun hpoint => ?_
    · refine punctuatorNext_of_closes ?_
      simpa [State.endsOperand, hphase] using hends
    · rw [is_eq_false (p := fun c => !isOperator c) '.' (by simp [hc]) (by decide)] at hpoint
      cases hpoint
  have hany (hopen : st.isOpen = true) (hc : Class.any.admits α c = true) :
      st.Separates α c ∨ st.JoinedBy c := by
    simp only [Class.admits, Bool.or_eq_true] at hc
    rcases hc with ((hc | hc) | hc) | hc
    · exact .inl (separates_pause hopen hc)
    · exact sign_admitted hopen hc
    · exact word_admitted hopen (isWordPoint_of_starts hc)
    · exact word_admitted hopen (by simp [isWordPoint, hc])
  cases k with
  | any => exact hany h hc
  | clear =>
    rcases Bool.or_eq_true_iff.mp hc with hc | hc
    · exact hany (isOpen_of_isClear h) hc
    · exact .inl (separates_escape h hc)
  | point => exact .inl (separates_name h hc)
  | operand =>
    simp only [Class.admits, Bool.or_eq_true] at hc
    rcases hc with hc | hc
    · exact .inl (separates_pause (isOpen_of_meets (k := .operand) nofun h) hc)
    · exact .inl (hoperator h hc)
  | object =>
    have hopen := isOpen_of_meets (k := .object) nofun h
    simp only [State.meets, Bool.and_eq_true, Bool.not_eq_true'] at h
    simp only [Class.admits, Bool.or_eq_true] at hc
    rcases hc with (hc | hc) | hc
    · exact .inl (separates_pause hopen hc)
    · exact .inl (hoperator h.1 hc)
    · have hpoint : isOneOf ['.'] c = true := by simp [isOneOf, hc]
      have hapart : IsApart α c := isApart_of_oneOf (by decide) hpoint
      refine .inl (separates_of_apart hopen hapart (fun hphase => ?_) fun _ => h.2)
      refine punctuatorNext_of_closes ?_
      simpa [State.endsOperand, hphase] using h.1

end States

end ScriptTree.Lexical
