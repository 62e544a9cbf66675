import ScriptTree.Proofs.Lexical.Literals

/-!
Identifiers. A name may spell its code points by escapes, and is judged by what it means: the
code points must be those of a name, also where they are escaped, and the whole must not be
reserved. Whatever is an identifier is one word for the scanner.
-/

namespace ScriptTree.Lexical

open Source

def reservedWords : List String :=
  ["break", "case", "catch", "class", "const", "continue", "debugger", "default", "delete", "do",
   "else", "enum", "export", "extends", "false", "finally", "for", "function", "if", "import",
   "in", "instanceof", "new", "null", "return", "super", "switch", "this", "throw", "true", "try",
   "typeof", "var", "void", "while", "with"]

def hexNumber (digits : Text) : Nat := digits.foldl (fun n d => 16 * n + d.hexValue?.getD 0) 0

/-- The code points that a name means, each spelled by itself or by an escape of four digits. -/
inductive Means : Text → Text → Prop where
  | nil : Means [] []
  | point {c : CodePoint} {t v : Text} (hc : c.is '\\' = false) (h : Means t v) :
    Means (c :: t) (c :: v)
  | escape {digits t v : Text} {c : CodePoint} (hlength : digits.length = 4)
    (hdigits : ∀ d ∈ digits, isHexDigit d = true) (hc : c.val = hexNumber digits)
    (h : Means t v) : Means (Text.ofString "\\u" ++ digits ++ t) (c :: v)

structure IsWord (α : Alphabet) (v : Text) : Prop where
  starts : v.head?.any α.starts = true
  continues : ∀ c ∈ v, α.continues c = true

def IsIdentifierName (α : Alphabet) (x : Text) : Prop := ∃ v, Means x v ∧ IsWord α v

def IsIdentifier (α : Alphabet) (x : Text) : Prop :=
  ∃ v, Means x v ∧ IsWord α v ∧ ∀ w ∈ reservedWords, v ≠ Text.ofString w

section Scanning

variable {α : Alphabet} {x t v pending : Text} {c : CodePoint}

theorem first_of_starts (h : α.starts c = true) : first α c = .word := by
  have hblank : isBlank c = false := by
    by_contra hblank
    rw [(isApart_of_blank (α := α) (by simpa using hblank)).starts] at h
    cases h
  rw [first, hblank, if_neg Bool.false_ne_true, if_pos h]

theorem scan_nameDigits {digits : Text} (hlength : digits.length = 4)
    (hdigits : ∀ d ∈ digits, isHexDigit d = true) :
    scan α ⟨[], pending, .escapeDigits 3⟩ digits = ⟨[], pending ++ digits, .word⟩ :=
  scan_hexDigits (fun more pending c hc => by simp [next, hc])
    (fun pending c hc => by simp [next, hc]) hlength hdigits

/-- The rest of a name goes on with the word. -/
theorem Means.scan (h : Means t v) (hv : ∀ c ∈ v, α.continues c = true) (pending : Text) :
    scan α ⟨[], pending, .word⟩ t = ⟨[], pending ++ t, .word⟩ := by
  induction h generalizing pending with
  | nil => simp [scan_nil]
  | point hc _ ih =>
    have hnext : next α .word pending _ = some .word := if_pos (hv _ List.mem_cons_self)
    rw [scan_cons, scan_step hnext, ih fun d hd => hv d (List.mem_cons_of_mem _ hd)]
    simp
  | @escape digits t v c hlength hdigits hc _ ih =>
    have hopen : Lexical.scan α ⟨[], pending, .word⟩ (Text.ofString "\\u") =
        ⟨[], pending ++ Text.ofString "\\u", .escapeDigits 3⟩ := by
      have hbackslash : next α .word pending (CodePoint.ofChar '\\') = some .escape := rfl
      have hletter : next α .escape (pending ++ [CodePoint.ofChar '\\']) (CodePoint.ofChar 'u') =
          some (.escapeDigits 3) := rfl
      have htext : Text.ofString "\\u" = [CodePoint.ofChar '\\', CodePoint.ofChar 'u'] := rfl
      rw [htext, scan_cons, scan_step hbackslash, scan_cons, scan_nil, scan_step hletter]
      simp
    rw [scan_append, scan_append, hopen, scan_nameDigits hlength hdigits,
      ih fun d hd => hv d (List.mem_cons_of_mem _ hd)]
    simp

theorem IsIdentifierName.isName (h : IsIdentifierName α x) : IsName α x := by
  obtain ⟨v, hmeans, hstarts, hcontinues⟩ := h
  unfold IsName
  cases hmeans with
  | nil => cases hstarts
  | @point c t v hc hmeans =>
    rw [scan_cons, step_start, first_of_starts hstarts,
      hmeans.scan fun d hd => hcontinues d (List.mem_cons_of_mem _ hd)]
    rfl
  | @escape digits t v c hlength hdigits hc hmeans =>
    have hopen : Lexical.scan α {} (Text.ofString "\\u") =
        ⟨[], Text.ofString "\\u", .escapeDigits 3⟩ := by
      rw [scan_ascii (by decide)]
      decide
    rw [scan_append, scan_append, hopen, scan_nameDigits hlength hdigits,
      hmeans.scan fun d hd => hcontinues d (List.mem_cons_of_mem _ hd)]

theorem IsIdentifier.isIdentifierName (h : IsIdentifier α x) : IsIdentifierName α x := by
  obtain ⟨v, hmeans, hword, -⟩ := h
  exact ⟨v, hmeans, hword⟩

theorem IsName.tokens (h : IsName α x) : tokens? α x = some [x] := by
  rw [tokens?, h]
  rfl

theorem IsName.ne_nil (h : IsName α x) : x ≠ [] := by
  obtain ⟨c, hc, -⟩ := h.head
  rintro rfl
  cases hc

theorem means_self (h : ∀ c ∈ x, c.is '\\' = false) : Means x x := by
  induction x with
  | nil => exact .nil
  | cons c rest ih =>
    exact .point (h c List.mem_cons_self) (ih fun d hd => h d (List.mem_cons_of_mem c hd))

/-- A word of ASCII that is not reserved. -/
def isPlainIdentifier (x : Text) : Bool :=
  x.head?.any Alphabet.ascii.starts && x.all (fun c => isAscii c && Alphabet.ascii.continues c) &&
    reservedWords.all (x ≠ Text.ofString ·)

theorem isIdentifier_of_plain (h : isPlainIdentifier x = true) : IsIdentifier α x := by
  simp only [isPlainIdentifier, Bool.and_eq_true, List.all_eq_true, decide_eq_true_eq] at h
  obtain ⟨⟨hstarts, hall⟩, hfree⟩ := h
  have hplain : ∀ c ∈ x, c.is '\\' = false := fun c hc =>
    is_eq_false (p := fun c => !Alphabet.ascii.continues c) '\\' (by simp [(hall c hc).2])
      (by decide)
  refine ⟨x, means_self hplain, ⟨?_, fun c hc => ?_⟩, hfree⟩
  · cases x with
    | nil => cases hstarts
    | cons c rest =>
      rw [List.head?_cons, Option.any_some] at hstarts ⊢
      rw [starts_ascii (hall c List.mem_cons_self).1, hstarts]
  · rw [continues_ascii (hall c hc).1, (hall c hc).2]

end Scanning

end ScriptTree.Lexical
