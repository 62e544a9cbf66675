import ScriptTree.Proofs.Lexical.Boundary
import ScriptTree.Source.Literal

/-!
Regular expressions as tokens. A regular expression of ECMAScript 5 stands between two
slashes: a slash does not end it after a backslash or in a class, and no line ends in it. The
literal of a pattern is such a token exactly if the pattern is on one line, does not start
like a comment, and ends neither in a backslash that escapes nothing nor in a class. Its body
is then the pattern with the slashes escaped that are not.
-/

namespace ScriptTree.Lexical

open Source

def isOther (chars : List Char) (c : CodePoint) : Bool := !isLineEnd c && !isOneOf chars c

inductive ClassChars : Text → Prop where
  | nil : ClassChars []
  | plain {c : CodePoint} {rest : Text} (hc : isOther [']', '\\'] c = true)
      (h : ClassChars rest) : ClassChars (c :: rest)
  | escape {c : CodePoint} {rest : Text} (hc : isLineEnd c = false) (h : ClassChars rest) :
      ClassChars (CodePoint.ofChar '\\' :: c :: rest)

inductive BodyChars : Text → Prop where
  | nil : BodyChars []
  | plain {c : CodePoint} {rest : Text} (hc : isOther ['\\', '/', '['] c = true)
      (h : BodyChars rest) : BodyChars (c :: rest)
  | escape {c : CodePoint} {rest : Text} (hc : isLineEnd c = false) (h : BodyChars rest) :
      BodyChars (CodePoint.ofChar '\\' :: c :: rest)
  | bracket {inner rest : Text} (hinner : ClassChars inner) (h : BodyChars rest) :
      BodyChars (CodePoint.ofChar '[' :: (inner ++ CodePoint.ofChar ']' :: rest))

/-- The text is a regular expression with the body and the flags. Two slashes, or a slash and
an asterisk, would start a comment. -/
structure IsRegexToken (α : Alphabet) (t body flags : Text) : Prop where
  text : t = "/" ++ body ++ "/" ++ flags
  ne_nil : body ≠ []
  start : body.head?.any (·.is '*') = false
  body : BodyChars body
  flags : ∀ c ∈ flags, α.continues c = true

/-- The last code point is a backslash that no other one escapes. -/
def endsUnpaired (t : Text) : Bool := (t.reverse.takeWhile (·.is '\\')).length % 2 = 1

/-- Whether a class is open at the end of a pattern. What follows a backslash is passed over. -/
def classOpen (inClass : Bool) : Text → Bool
  | [] => inClass
  | c :: rest =>
    if c.is '\\' then
      match rest with
      | [] => inClass
      | _ :: rest => classOpen inClass rest
    else if c.is '[' then classOpen true rest
    else if c.is ']' then classOpen false rest
    else classOpen inClass rest

/-- A pattern with a backslash before every slash that is not escaped. -/
def slashesEscaped (before : Text) : Text → Text
  | [] => []
  | c :: rest =>
    (if c.is '/' && !endsUnpaired before then [CodePoint.ofChar '\\', c] else [c]) ++
      slashesEscaped (before ++ [c]) rest

/-- A pattern that can stand between slashes once its slashes are escaped. -/
structure IsPattern (p : Text) : Prop where
  oneLine : ∀ c ∈ p, isLineEnd c = false
  start : p.head?.any (·.is '*') = false
  paired : endsUnpaired p = false
  closed : classOpen false p = false

/-! ### Bodies from their start -/

def EndsBody (inClass : Bool) (t : Text) : Prop :=
  if inClass then
    ∃ inner rest, t = inner ++ CodePoint.ofChar ']' :: rest ∧ ClassChars inner ∧ BodyChars rest
  else BodyChars t

section Bodies

variable {inClass : Bool} {c : CodePoint} {t : Text}

theorem endsBody_true :
    EndsBody true t ↔ ∃ inner rest,
      t = inner ++ CodePoint.ofChar ']' :: rest ∧ ClassChars inner ∧ BodyChars rest := Iff.rfl

theorem endsBody_false : EndsBody false t ↔ BodyChars t := Iff.rfl

theorem endsBody_nil : EndsBody inClass [] ↔ inClass = false := by
  cases inClass with
  | false => exact ⟨fun _ => rfl, fun _ => .nil⟩
  | true =>
    rw [endsBody_true]
    constructor
    · rintro ⟨inner, rest, h, -⟩
      simp at h
    · intro h
      cases h

/-- Inside a class, only a bracket and a backslash are special. -/
theorem endsBody_inside (hc : isOneOf [']', '\\'] c = false) :
    EndsBody true (c :: t) ↔ isLineEnd c = false ∧ EndsBody true t := by
  rw [endsBody_true, endsBody_true]
  constructor
  · rintro ⟨inner, rest, heq, hinner, hrest⟩
    cases hinner with
    | nil =>
      obtain ⟨rfl, -⟩ := List.cons.inj heq
      cases hc
    | plain hd hinner =>
      obtain ⟨rfl, htail⟩ := List.cons.inj heq
      simp only [isOther, Bool.and_eq_true, Bool.not_eq_true'] at hd
      exact ⟨hd.1, _, rest, htail, hinner, hrest⟩
    | escape hd hinner =>
      obtain ⟨rfl, -⟩ := List.cons.inj heq
      cases hc
  · rintro ⟨hline, inner, rest, rfl, hinner, hrest⟩
    have hd : isOther [']', '\\'] c = true := by simp [isOther, hline, hc]
    exact ⟨_, rest, rfl, .plain hd hinner, hrest⟩

/-- A code point that is not special goes on as before. -/
theorem endsBody_plain (hc : isOneOf ['\\', '/', '[', ']'] c = false) :
    EndsBody inClass (c :: t) ↔ isLineEnd c = false ∧ EndsBody inClass t := by
  have hparts : ∀ x ∈ ['\\', '/', '[', ']'], c.is x = false := by
    intro x hx
    simpa using List.any_eq_false.mp hc x hx
  have honeOf {chars : List Char} (hsub : chars ⊆ ['\\', '/', '[', ']']) :
      isOneOf chars c = false :=
    List.any_eq_false.mpr fun x hx => by simp [hparts x (hsub hx)]
  cases inClass with
  | true => exact endsBody_inside (honeOf (by simp))
  | false =>
    rw [endsBody_false, endsBody_false]
    constructor
    · intro h
      cases h with
      | plain hd h =>
        simp only [isOther, Bool.and_eq_true, Bool.not_eq_true'] at hd
        exact ⟨hd.1, h⟩
      | escape _ _ => cases hc
      | bracket _ _ => cases hc
    · rintro ⟨hline, h⟩
      exact .plain (by simp [isOther, hline, honeOf]) h

theorem endsBody_escape :
    EndsBody inClass (CodePoint.ofChar '\\' :: c :: t) ↔
      isLineEnd c = false ∧ EndsBody inClass t := by
  cases inClass with
  | false =>
    rw [endsBody_false, endsBody_false]
    constructor
    · intro h
      cases h with
      | plain hc _ => cases hc
      | escape hc h => exact ⟨hc, h⟩
    · rintro ⟨hc, h⟩
      exact .escape hc h
  | true =>
    rw [endsBody_true, endsBody_true]
    constructor
    · rintro ⟨inner, rest, heq, hinner, hrest⟩
      cases hinner with
      | nil => cases heq
      | plain hd _ =>
        obtain ⟨rfl, -⟩ := List.cons.inj heq
        cases hd
      | escape hd hinner =>
        obtain ⟨-, hnext⟩ := List.cons.inj heq
        obtain ⟨rfl, htail⟩ := List.cons.inj hnext
        exact ⟨hd, _, rest, htail, hinner, hrest⟩
    · rintro ⟨hc, inner, rest, rfl, hinner, hrest⟩
      exact ⟨_, rest, rfl, .escape hc hinner, hrest⟩

theorem not_endsBody_backslash : ¬EndsBody inClass [CodePoint.ofChar '\\'] := by
  cases inClass with
  | false =>
    intro h
    cases h with
    | plain hc _ => cases hc
  | true =>
    rintro ⟨inner, rest, heq, hinner, -⟩
    cases hinner with
    | nil => cases heq
    | plain hd _ =>
      obtain ⟨rfl, -⟩ := List.cons.inj heq
      cases hd
    | escape hd hinner => simp at heq

theorem endsBody_open :
    EndsBody inClass (CodePoint.ofChar '[' :: t) ↔ EndsBody true t := by
  cases inClass with
  | true =>
    rw [endsBody_inside (by decide)]
    exact and_iff_right (by decide)
  | false =>
    rw [endsBody_false, endsBody_true]
    constructor
    · intro h
      cases h with
      | plain hc _ => cases hc
      | bracket hinner h => exact ⟨_, _, rfl, hinner, h⟩
    · rintro ⟨inner, rest, rfl, hinner, hrest⟩
      exact .bracket hinner hrest

theorem endsBody_close :
    EndsBody inClass (CodePoint.ofChar ']' :: t) ↔ EndsBody false t := by
  cases inClass with
  | false =>
    rw [endsBody_false]
    constructor
    · intro h
      cases h with
      | plain _ h => exact h
    · intro h
      exact .plain (by decide) h
  | true =>
    rw [endsBody_true, endsBody_false]
    constructor
    · rintro ⟨inner, rest, heq, hinner, hrest⟩
      cases hinner with
      | nil =>
        obtain ⟨-, rfl⟩ := List.cons.inj heq
        exact hrest
      | plain hd _ =>
        obtain ⟨rfl, -⟩ := List.cons.inj heq
        cases hd
      | escape _ _ => cases heq
    · intro h
      exact ⟨[], t, rfl, .nil, h⟩

end Bodies

/-! ### Backslashes at the end -/

section Pairs

variable {c : CodePoint} {t : Text}

theorem endsUnpaired_concat (t : Text) (c : CodePoint) :
    endsUnpaired (t ++ [c]) = (c.is '\\' && !endsUnpaired t) := by
  unfold endsUnpaired
  rw [List.reverse_append, List.reverse_singleton, List.singleton_append, List.takeWhile_cons]
  cases c.is '\\' with
  | false => rfl
  | true =>
    simp only [if_true, List.length_cons, Bool.true_and, ← decide_not, decide_eq_decide]
    omega

/-- Whether a backslash escapes what follows can be told from left to right. -/
theorem endsUnpaired_append (before t : Text) :
    endsUnpaired (before ++ t) =
      t.foldl (fun escaped c => c.is '\\' && !escaped) (endsUnpaired before) := by
  induction t generalizing before with
  | nil => simp
  | cons c t ih =>
    have hsplit : before ++ c :: t = (before ++ [c]) ++ t := by simp
    rw [hsplit, ih, endsUnpaired_concat, List.foldl_cons]

theorem endsUnpaired_eq_foldl (t : Text) :
    endsUnpaired t = t.foldl (fun escaped c => c.is '\\' && !escaped) false :=
  endsUnpaired_append [] t

theorem endsUnpaired_cons (hc : c.is '\\' = false) : endsUnpaired (c :: t) = endsUnpaired t := by
  rw [endsUnpaired_eq_foldl, List.foldl_cons, hc, Bool.false_and, endsUnpaired_eq_foldl]

theorem endsUnpaired_pair (hc : c.is '\\' = true) (d : CodePoint) :
    endsUnpaired (c :: d :: t) = endsUnpaired t := by
  rw [endsUnpaired_eq_foldl, List.foldl_cons, List.foldl_cons, hc, endsUnpaired_eq_foldl]
  simp

end Pairs

/-! ### Patterns -/

section Patterns

variable {c : CodePoint} {p rest : Text}

theorem escapedPattern_pair (rest : Text) :
    escapedPattern false (CodePoint.ofChar '\\' :: c :: rest) =
      CodePoint.ofChar '\\' :: c :: escapedPattern false rest := rfl

theorem escapedPattern_slash (rest : Text) :
    escapedPattern false (CodePoint.ofChar '/' :: rest) =
      CodePoint.ofChar '\\' :: CodePoint.ofChar '/' :: escapedPattern false rest := rfl

theorem escapedPattern_plain (hescape : ¬c.is '\\' = true) (hslash : ¬c.is '/' = true) :
    escapedPattern false (c :: rest) = c :: escapedPattern false rest := by
  rw [escapedPattern, if_neg (by simp), if_neg hescape, if_neg hslash]

/-- The slashes that are escaped are those that no backslash escapes already. -/
theorem escapedPattern_eq (before p : Text) :
    escapedPattern (endsUnpaired before) p = slashesEscaped before p := by
  induction p generalizing before with
  | nil => rfl
  | cons c rest ih =>
    have hrest := ih (before ++ [c])
    rw [endsUnpaired_concat] at hrest
    rw [slashesEscaped, ← hrest, escapedPattern]
    by_cases hescape : c.is '\\' = true
    · obtain rfl := CodePoint.is_iff.mp hescape
      cases endsUnpaired before <;> rfl
    · cases endsUnpaired before <;> by_cases hslash : c.is '/' = true <;> simp [hescape, hslash]

theorem escapedPattern_idem (escaped : Bool) (p : Text) :
    escapedPattern escaped (escapedPattern escaped p) = escapedPattern escaped p := by
  fun_induction escapedPattern escaped p with
  | case1 => rfl
  | case2 c rest ih => rw [escapedPattern, if_pos rfl, ih]
  | case3 escaped c rest hescaped hescape ih =>
    rw [escapedPattern, if_neg hescaped, if_pos hescape, ih]
  | case4 escaped c rest hescaped _ _ ih =>
    rw [Bool.not_eq_true] at hescaped
    rw [hescaped, escapedPattern_pair, ih]
  | case5 escaped c rest hescaped hescape hslash ih =>
    rw [Bool.not_eq_true] at hescaped
    rw [hescaped, escapedPattern_plain hescape hslash, ih]

/-- The escaped pattern is the rest of a body exactly if no line ends in it, and it ends neither
in a backslash that escapes nothing nor in a class. -/
theorem endsBody_escapedPattern (inClass : Bool) (p : Text) :
    EndsBody inClass (escapedPattern false p) ↔
      (∀ c ∈ p, isLineEnd c = false) ∧ endsUnpaired p = false ∧ classOpen inClass p = false := by
  fun_induction classOpen inClass p with
  | case1 inClass =>
    rw [escapedPattern, endsBody_nil]
    simp [endsUnpaired]
  | case2 inClass c hc =>
    obtain rfl := CodePoint.is_iff.mp hc
    refine iff_of_false not_endsBody_backslash ?_
    rintro ⟨-, hpaired, -⟩
    cases hpaired
  | case3 inClass c hc d rest ih =>
    obtain rfl := CodePoint.is_iff.mp hc
    have hline : isLineEnd (CodePoint.ofChar '\\') = false := by decide
    rw [escapedPattern_pair, endsBody_escape, ih, endsUnpaired_pair hc, List.forall_mem_cons,
      List.forall_mem_cons]
    simp only [hline, true_and, and_assoc]
  | case4 inClass c rest hescape hopen ih =>
    obtain rfl := CodePoint.is_iff.mp hopen
    have hline : isLineEnd (CodePoint.ofChar '[') = false := by decide
    rw [escapedPattern_plain hescape (by decide), endsBody_open, ih, endsUnpaired_cons (by decide),
      List.forall_mem_cons]
    simp only [hline, true_and]
  | case5 inClass c rest hescape _ hclose ih =>
    obtain rfl := CodePoint.is_iff.mp hclose
    have hline : isLineEnd (CodePoint.ofChar ']') = false := by decide
    rw [escapedPattern_plain hescape (by decide), endsBody_close, ih, endsUnpaired_cons (by decide),
      List.forall_mem_cons]
    simp only [hline, true_and]
  | case6 inClass c rest hescape hopen hclose ih =>
    rw [Bool.not_eq_true] at hescape
    rw [endsUnpaired_cons hescape, List.forall_mem_cons, and_assoc, ← ih]
    by_cases hslash : c.is '/' = true
    · obtain rfl := CodePoint.is_iff.mp hslash
      rw [escapedPattern_slash, endsBody_escape]
    · have hplain : isOneOf ['\\', '/', '[', ']'] c = false := by
        simp [isOneOf, hescape, hopen, hclose, hslash]
      rw [escapedPattern_plain (by simp [hescape]) hslash, endsBody_plain hplain]

end Patterns

/-! ### Literals -/

section Literals

variable {α : Alphabet} {p body flags : Text} {f : RegexFlags}

/-- The body of the literal of a pattern; without one, two slashes would start a comment. -/
def regexBody (p : Text) : Text := if p = [] then Text.ofString "(?:)" else slashesEscaped [] p

theorem regexBody_nil : regexBody [] = Text.ofString "(?:)" := rfl

theorem regexBody_of_ne_nil (hp : p ≠ []) : regexBody p = escapedPattern false p := by
  rw [regexBody, if_neg hp, ← escapedPattern_eq]
  rfl

theorem regexLiteral_eq (p : Text) (f : RegexFlags) :
    regexLiteral p f = "/" ++ regexBody p ++ "/" ++ f.text := by
  unfold regexLiteral
  by_cases hp : p = []
  · rw [if_pos (List.isEmpty_iff.mpr hp), hp, regexBody_nil]
  · rw [if_neg (by rwa [List.isEmpty_iff]), regexBody_of_ne_nil hp]

/-- A pattern and its body start alike, up to the backslash before a slash. -/
theorem escapedPattern_cons (c : CodePoint) (rest : Text) :
    ∃ d tail, escapedPattern false (c :: rest) = d :: tail ∧ d.is '*' = c.is '*' := by
  by_cases hescape : c.is '\\' = true
  · exact ⟨c, _, by rw [escapedPattern, if_neg (by simp), if_pos hescape], rfl⟩
  · by_cases hslash : c.is '/' = true
    · obtain rfl := CodePoint.is_iff.mp hslash
      exact ⟨_, _, escapedPattern_slash rest, rfl⟩
    · exact ⟨c, _, escapedPattern_plain hescape hslash, rfl⟩

theorem regexBody_ne_nil (p : Text) : regexBody p ≠ [] := by
  cases p with
  | nil => decide
  | cons c rest =>
    obtain ⟨d, tail, heq, -⟩ := escapedPattern_cons c rest
    rw [regexBody_of_ne_nil (List.cons_ne_nil c rest), heq]
    exact List.cons_ne_nil d tail

theorem regexBody_start (p : Text) :
    (regexBody p).head?.any (·.is '*') = p.head?.any (·.is '*') := by
  cases p with
  | nil => decide
  | cons c rest =>
    obtain ⟨d, tail, heq, hd⟩ := escapedPattern_cons c rest
    rw [regexBody_of_ne_nil (List.cons_ne_nil c rest), heq, List.head?_cons, List.head?_cons,
      Option.any_some, Option.any_some, hd]

theorem regexBody_idem (p : Text) : regexBody (regexBody p) = regexBody p := by
  rw [regexBody_of_ne_nil (regexBody_ne_nil p)]
  by_cases hp : p = []
  · rw [hp, regexBody_nil]
    decide
  · rw [regexBody_of_ne_nil hp, escapedPattern_idem]

theorem bodyChars_regexBody (p : Text) :
    BodyChars (regexBody p) ↔
      (∀ c ∈ p, isLineEnd c = false) ∧ endsUnpaired p = false ∧ classOpen false p = false := by
  by_cases hp : p = []
  · have hbody : BodyChars (escapedPattern false (Text.ofString "(?:)")) :=
      (endsBody_escapedPattern false _).mpr (by decide)
    rw [hp, regexBody_nil]
    exact iff_of_true hbody (by decide)
  · rw [regexBody_of_ne_nil hp, ← endsBody_false, endsBody_escapedPattern]

theorem continues_letter (α : Alphabet) (flag : RegexFlag) :
    α.continues (CodePoint.ofChar flag.letter) = true := by
  have hletter : (CodePoint.ofChar flag.letter).isAsciiLetter = true := by cases flag <;> decide
  simp [Alphabet.continues, Alphabet.starts, hletter]

theorem continues_flags (α : Alphabet) (f : RegexFlags) : ∀ c ∈ f.text, α.continues c = true := by
  intro c hc
  obtain ⟨flag, -, rfl⟩ := List.mem_map.mp hc
  exact continues_letter α flag

theorem isRegexToken_regexLiteral_iff :
    IsRegexToken α (regexLiteral p f) (regexBody p) f.text ↔ IsPattern p := by
  constructor
  · intro h
    obtain ⟨hlines, hpaired, hclosed⟩ := (bodyChars_regexBody p).mp h.body
    exact ⟨hlines, (regexBody_start p).symm.trans h.start, hpaired, hclosed⟩
  · intro h
    exact ⟨regexLiteral_eq p f, regexBody_ne_nil p, (regexBody_start p).trans h.start,
      (bodyChars_regexBody p).mpr ⟨h.oneLine, h.paired, h.closed⟩, continues_flags α f⟩

/-- The slash before the flags is the last one. -/
theorem append_slash_inj {a b u v : Text} (hu : ∀ c ∈ u, α.continues c = true)
    (hv : ∀ c ∈ v, α.continues c = true)
    (h : a ++ CodePoint.ofChar '/' :: u = b ++ CodePoint.ofChar '/' :: v) : a = b ∧ u = v := by
  have hslash : α.continues (CodePoint.ofChar '/') = false := rfl
  induction a generalizing b with
  | nil =>
    cases b with
    | nil => exact ⟨rfl, (List.cons.inj h).2⟩
    | cons d b =>
      have hmem : CodePoint.ofChar '/' ∈ u := by simp [(List.cons.inj h).2]
      rw [hu _ hmem] at hslash
      cases hslash
  | cons c a ih =>
    cases b with
    | nil =>
      have hmem : CodePoint.ofChar '/' ∈ v := by simp [← (List.cons.inj h).2]
      rw [hv _ hmem] at hslash
      cases hslash
    | cons d b =>
      obtain ⟨hhead, htail⟩ := List.cons.inj h
      obtain ⟨hab, huv⟩ := ih htail
      exact ⟨by rw [hhead, hab], huv⟩

/-- No other cut of the literal makes it a regular expression. -/
theorem IsRegexToken.of_regexLiteral (h : IsRegexToken α (regexLiteral p f) body flags) :
    body = regexBody p ∧ flags = f.text := by
  have htexts := h.text.symm.trans (regexLiteral_eq p f)
  simp only [List.append_assoc, List.append_cancel_left_eq] at htexts
  exact append_slash_inj h.flags (continues_flags α f) htexts

end Literals

/-- The literal of a pattern is one regular expression with the flags exactly if the pattern is
on one line, does not start like a comment, and ends neither in a backslash that escapes nothing
nor in a class. It has no other body than the pattern with its slashes escaped, and that body is
its own pattern. -/
theorem regexLiteral_isToken_iff (α : Alphabet) (p : Text) (f : RegexFlags) :
    ((∃ body, IsRegexToken α (regexLiteral p f) body f.text) ↔ IsPattern p) ∧
      ∀ body flags, IsRegexToken α (regexLiteral p f) body flags →
        flags = f.text ∧ body = (if p = [] then Text.ofString "(?:)" else slashesEscaped [] p) ∧
          ∀ g, regexLiteral body g = "/" ++ body ++ "/" ++ g.text := by
  refine ⟨⟨?_, fun h => ⟨_, isRegexToken_regexLiteral_iff.mpr h⟩⟩, ?_⟩
  · rintro ⟨body, h⟩
    obtain ⟨rfl, -⟩ := h.of_regexLiteral
    exact isRegexToken_regexLiteral_iff.mp h
  · intro body flags h
    obtain ⟨rfl, rfl⟩ := h.of_regexLiteral
    refine ⟨rfl, rfl, fun g => ?_⟩
    rw [regexLiteral_eq, regexBody_idem]

end ScriptTree.Lexical
