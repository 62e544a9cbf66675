import ScriptTree.Text.Encoding
import ScriptTree.Proofs.Lexical.Literals

/-!
What string literals stand for. The value of a string literal of ECMAScript 5 is a sequence
of sixteen-bit units, read off one character after the other: a code point stands for its own
units, an escape for those it names, and an escaped line end for none. The literal of a text
is one token, no surrogate stands in it, and its value is the units of the text.
-/

namespace ScriptTree.Lexical

open Source

/-- The units of the escape of a letter: a few letters stand for control characters, and every
other one for itself. -/
def letterUnits (c : CodePoint) : List Nat :=
  if c.is 'b' then [0x08]
  else if c.is 't' then [0x09]
  else if c.is 'n' then [0x0A]
  else if c.is 'v' then [0x0B]
  else if c.is 'f' then [0x0C]
  else if c.is 'r' then [0x0D]
  else Text.units16 c

def hexUnit? (width : Nat) (t : Text) : Option (List Nat × Text) := do
  let digits ← (t.take width).mapM CodePoint.hexValue?
  if digits.length = width then some ([digits.foldl (16 * · + ·) 0], t.drop width) else none

/-- The units that what follows a backslash stands for, and the rest. A zero is the null
character unless a digit follows it, and no other digit can be escaped. -/
def escape? : Text → Option (List Nat × Text)
  | [] => none
  | c :: rest =>
    if c.is 'x' then hexUnit? 2 rest
    else if c.is 'u' then hexUnit? 4 rest
    else if c.is '0' then
      if rest.head?.any CodePoint.isAsciiDigit then none else some ([0], rest)
    else if c.isAsciiDigit then none
    else if c.is '\r' && rest.head?.any (·.is '\n') then some ([], rest.tail)
    else if isLineEnd c then some ([], rest)
    else some (letterUnits c, rest)

def character? : Text → Option (List Nat × Text)
  | [] => none
  | c :: rest =>
    if c.is '\\' then escape? rest
    else if c.is '\'' || isLineEnd c then none
    else some (Text.units16 c, rest)

theorem length_of_hexUnit? {width : Nat} {t rest : Text} {units : List Nat}
    (h : hexUnit? width t = some (units, rest)) : rest.length ≤ t.length := by
  unfold hexUnit? at h
  simp only [Option.bind_eq_bind, Option.bind_eq_some_iff] at h
  obtain ⟨digits, -, h⟩ := h
  split at h
  · obtain ⟨-, rfl⟩ := Prod.mk.inj (Option.some.inj h)
    rw [List.length_drop]
    omega
  · cases h

theorem length_of_escape? {t rest : Text} {units : List Nat} (h : escape? t = some (units, rest)) :
    rest.length < t.length := by
  cases t with
  | nil => cases h
  | cons c t =>
    apply Nat.lt_succ_of_le
    rw [escape?] at h
    split_ifs at h
    · exact length_of_hexUnit? h
    · exact length_of_hexUnit? h
    all_goals
      obtain ⟨-, rfl⟩ := Prod.mk.inj (Option.some.inj h)
      simp

/-- Every character of a string takes at least one code point. -/
theorem length_of_character? {t rest : Text} {units : List Nat}
    (h : character? t = some (units, rest)) : rest.length < t.length := by
  cases t with
  | nil => cases h
  | cons c t =>
    rw [character?] at h
    split_ifs at h
    · exact Nat.lt_succ_of_lt (length_of_escape? h)
    · obtain ⟨-, rfl⟩ := Prod.mk.inj (Option.some.inj h)
      exact Nat.lt_succ_self _

/-- The units of the characters up to a quote, which has to be the last code point. -/
def unitsUntilQuote? (t : Text) : Option (List Nat) :=
  if t = [CodePoint.ofChar '\''] then some []
  else
    match h : character? t with
    | none => none
    | some (units, rest) =>
      have : rest.length < t.length := length_of_character? h
      (unitsUntilQuote? rest).map (units ++ ·)
termination_by t.length

def stringValue? : Text → Option (List Nat)
  | [] => none
  | c :: rest => if c.is '\'' then unitsUntilQuote? rest else none

section Characters

variable {c : CodePoint} {rest more : Text}

theorem hexValue?_upperDigit (n : Nat) :
    (Text.hexDigit true (n % 16)).hexValue? = some (n % 16) := by
  have hlt : n % 16 < 16 := Nat.mod_lt n (by decide)
  interval_cases n % 16 <;> rfl

theorem hex_succ (upper : Bool) (width n : Nat) :
    Text.hex upper (width + 1) n =
      Text.hex upper width (n / 16) ++ [Text.hexDigit upper (n % 16)] := by
  unfold Text.hex
  rw [List.range_succ, List.map_append, List.map_singleton]
  congr 1
  · apply List.map_congr_left
    intro i hi
    have hlt : i < width := List.mem_range.mp hi
    have hplaces : width + 1 - 1 - i = (width - 1 - i) + 1 := by omega
    rw [hplaces]
    simp only [Nat.pow_eq, Nat.pow_succ, Nat.mul_comm _ 16, Nat.div_div_eq_div_mul]
  · simp

/-- The digits of a number are read back, as far as the number has no more of them. -/
theorem mapM_hex (width n : Nat) :
    ∃ digits, (Text.hex true width n).mapM CodePoint.hexValue? = some digits ∧
      digits.length = width ∧ digits.foldl (16 * · + ·) 0 = n % 16 ^ width := by
  induction width generalizing n with
  | zero => exact ⟨[], rfl, rfl, by simp [Nat.mod_one]⟩
  | succ width ih =>
    obtain ⟨digits, hdigits, hlength, hvalue⟩ := ih (n / 16)
    refine ⟨digits ++ [n % 16], ?_, by simp [hlength], ?_⟩
    · rw [hex_succ, List.mapM_append, hdigits]
      simp [hexValue?_upperDigit]
    · have hmod : n % 16 ^ (width + 1) = n % 16 + 16 * (n / 16 % 16 ^ width) := by
        rw [Nat.pow_succ, Nat.mul_comm, Nat.mod_mul]
      rw [List.foldl_append, hvalue, hmod]
      simp only [List.foldl_cons, List.foldl_nil]
      omega

theorem hexUnit?_hex {width n : Nat} (hn : n < 16 ^ width) (more : Text) :
    hexUnit? width (Text.hex true width n ++ more) = some ([n], more) := by
  obtain ⟨digits, hdigits, hlength, hvalue⟩ := mapM_hex width n
  have hwidth : (Text.hex true width n).length = width := by simp [Text.hex]
  have htake : (Text.hex true width n ++ more).take width = Text.hex true width n :=
    List.take_left' hwidth
  have hdrop : (Text.hex true width n ++ more).drop width = more := List.drop_left' hwidth
  rw [hexUnit?, htake, hdrop, hdigits]
  simp [hlength, hvalue, Nat.mod_eq_of_lt hn]

theorem units16_of_lt (h : c.val < 0x10000) : Text.units16 c = [c.val] := if_pos h

theorem character?_simpleEscape {escape : Text} (h : simpleEscape? c = some escape) :
    character? (escape ++ more) = some (Text.units16 c, more) := by
  obtain ⟨entry, hentry, rfl, rfl⟩ := exists_shortEscape h
  simp only [shortEscapes, List.mem_cons, List.not_mem_nil, or_false] at hentry
  rcases hentry with rfl | rfl | rfl | rfl | rfl | rfl | rfl | rfl <;> rfl

/-- A code point that is neither escaped nor ends the string stands for itself. -/
theorem character?_raw (hescape : simpleEscape? c = none)
    (hline : ¬(c.val = 0x2028 ∨ c.val = 0x2029)) :
    character? (c :: more) = some (Text.units16 c, more) := by
  have hraw := quotedNext_raw hescape hline
  unfold quotedNext at hraw
  split_ifs at hraw with hquote hbackslash hends
  · cases hraw
  · cases hraw
  · have hother : c.is '\'' = false := by
      by_contra his
      exact hquote (CodePoint.is_iff.mp (by simpa using his))
    simp [character?, hbackslash, hother, hends]

/-- Every code point of a text stands for itself in the literal, whatever follows it there: after
the short escape of the null character no digit must follow. -/
theorem character?_escapedPoint
    (hmore : more.head?.any (!·.isAsciiDigit) = true ∨ rest.head?.any CodePoint.isDigit = true) :
    character? (escapedPoint c rest ++ more) = some (Text.units16 c, more) := by
  unfold escapedPoint
  cases hescape : simpleEscape? c with
  | some escape => exact character?_simpleEscape hescape
  | none =>
    dsimp only
    split_ifs with hnull hdigit hcontrol hunicode
    · rw [units16_of_lt (by omega), hnull]
      rfl
    · have hfollows : more.head?.any CodePoint.isAsciiDigit = false := by
        have hany := hmore.resolve_right hdigit
        cases more with
        | nil => cases hany
        | cons d more => simpa using hany
      rw [units16_of_lt (by omega), hnull]
      exact if_neg (by simpa using hfollows)
    · have hlt : c.val < 16 ^ 2 := by
        simp [CodePoint.within] at hcontrol
        omega
      rw [units16_of_lt (by omega)]
      exact hexUnit?_hex hlt more
    · have hlt : c.val < 16 ^ 4 := by
        simp [CodePoint.isSurrogate, CodePoint.within] at hunicode
        omega
      rw [units16_of_lt (by omega)]
      exact hexUnit?_hex hlt more
    · exact character?_raw hescape (by simp at hunicode; tauto)

end Characters

/-- What follows the opening quote of a literal stands for the units of the text. -/
theorem unitsUntilQuote?_escapedText (t : Text) :
    unitsUntilQuote? (escapedText t ++ Text.ofString "'") = some (t.flatMap Text.units16) := by
  induction t with
  | nil =>
    rw [unitsUntilQuote?]
    rfl
  | cons c rest ih =>
    have hfirst := character?_escapedPoint (c := c) (escapedText_follows rest)
    have hgoes : escapedPoint c rest ++ (escapedText rest ++ Text.ofString "'") ≠
        [CodePoint.ofChar '\''] := by
      intro heq
      rw [heq] at hfirst
      cases hfirst
    rw [escapedText, List.append_assoc, unitsUntilQuote?, if_neg hgoes]
    split
    · next hnone =>
      rw [hnone] at hfirst
      cases hfirst
    · next units more hsome =>
      obtain ⟨rfl, rfl⟩ := Prod.mk.inj (Option.some.inj (hsome.symm.trans hfirst))
      rw [ih]
      rfl

section Surrogates

/-- Escapes are written in ASCII. -/
theorem isAscii_hexDigit (n : Nat) : isAscii (Text.hexDigit true (n % 16)) = true := by
  have hlt : n % 16 < 16 := Nat.mod_lt n (by decide)
  interval_cases n % 16 <;> rfl

theorem not_isSurrogate_of_isAscii {c : CodePoint} (h : isAscii c = true) :
    c.isSurrogate = false := by
  have hle : c.val ≤ 0x7F := by simpa [isAscii] using h
  simp only [CodePoint.isSurrogate, CodePoint.within, Bool.and_eq_false_iff,
    decide_eq_false_iff_not]
  omega

theorem isAscii_simpleEscape {c : CodePoint} {escape : Text} (h : simpleEscape? c = some escape) :
    escape.all isAscii = true := by
  have hletters : ∀ entry ∈ shortEscapes, (backslashed entry.1).all isAscii = true := by decide
  obtain ⟨entry, hentry, rfl, -⟩ := exists_shortEscape h
  exact hletters entry hentry

theorem not_isSurrogate_escapedPoint {c d : CodePoint} {rest : Text}
    (h : d ∈ escapedPoint c rest) : d.isSurrogate = false := by
  have hascii {t : Text} (ht : t.all isAscii = true) (hd : d ∈ t) : d.isSurrogate = false :=
    not_isSurrogate_of_isAscii (List.all_eq_true.mp ht d hd)
  have hdigits (width : Nat) : (Text.hex true width c.val).all isAscii = true := by
    simp [Text.hex, isAscii_hexDigit]
  unfold escapedPoint at h
  cases hescape : simpleEscape? c with
  | some escape =>
    rw [hescape] at h
    exact hascii (isAscii_simpleEscape hescape) h
  | none =>
    rw [hescape] at h
    dsimp only at h
    split_ifs at h with hnull hdigit hcontrol hunicode
    · exact hascii (by decide) h
    · exact hascii (by decide) h
    · refine hascii ?_ h
      rw [List.all_append, hdigits]
      rfl
    · refine hascii ?_ h
      rw [List.all_append, hdigits]
      rfl
    · rw [List.mem_singleton.mp h]
      simp only [Bool.or_eq_true, not_or] at hunicode
      simpa using hunicode.2

theorem not_isSurrogate_escapedText {t : Text} {c : CodePoint} (h : c ∈ escapedText t) :
    c.isSurrogate = false := by
  induction t with
  | nil => cases h
  | cons d rest ih =>
    rcases List.mem_append.mp h with h | h
    · exact not_isSurrogate_escapedPoint h
    · exact ih h

end Surrogates

/-- The literal of a text is one token, no surrogate stands in it, and its value is the text in
sixteen-bit units. -/
theorem stringLiteral_denotes (α : Alphabet) (t : Text) :
    tokens? α (stringLiteral t) = some [stringLiteral t] ∧
      stringValue? (stringLiteral t) = some (t.flatMap Text.units16) ∧
      ∀ c ∈ stringLiteral t, c.isSurrogate = false := by
  refine ⟨?_, unitsUntilQuote?_escapedText t, ?_⟩
  · rw [tokens?, scan_stringLiteral]
    rfl
  · intro c hc
    rcases List.mem_append.mp hc with hc | hc
    · rcases List.mem_append.mp hc with hc | hc
      · exact not_isSurrogate_of_isAscii (List.all_eq_true.mp (by decide) c hc)
      · exact not_isSurrogate_escapedText hc
    · exact not_isSurrogate_of_isAscii (List.all_eq_true.mp (by decide) c hc)

end ScriptTree.Lexical
