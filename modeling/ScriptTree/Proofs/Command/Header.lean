import ScriptTree.Proofs.Command.Line
import ScriptTree.Proofs.Lexical.Literals

/-!
The comment at the start of generated source. It is followed by a line break and by the source
alone. The comment is one line as long as no line end stands in what the command line names:
texts that are given are taken over as they are, only values that are no texts, and values of
options that are nothing but blanks, are escaped.
-/

namespace ScriptTree

open Lexical Json

def Text.isOneLine (t : Text) : Bool := t.all fun c => !isLineEnd c

namespace Text

theorem isOneLine_append (a b : Text) :
    (a ++ b).isOneLine = (a.isOneLine && b.isOneLine) := List.all_append

theorem isOneLine_joinWith {separator : Text} (hseparator : separator.isOneLine = true)
    (parts : List Text) : (joinWith separator parts).isOneLine = parts.all isOneLine := by
  induction parts with
  | nil => rfl
  | cons part parts ih =>
    cases parts with
    | nil => simp [joinWith]
    | cons next parts =>
      have hjoin : joinWith separator (part :: next :: parts) =
          part ++ separator ++ joinWith separator (next :: parts) := rfl
      rw [hjoin, isOneLine_append, isOneLine_append, hseparator, ih, Bool.and_true,
        List.all_cons (a := part)]

theorem isOneLine_join (parts : List Text) : (join parts).isOneLine = parts.all isOneLine := by
  induction parts with
  | nil => rfl
  | cons part parts ih =>
    have hjoin : join (part :: parts) = part ++ join parts := List.flatten_cons
    rw [hjoin, isOneLine_append, ih, List.all_cons]

end Text

/-! ### Escaped values -/

section Escapes

theorem val_of_isLineEnd {c : CodePoint} (h : isLineEnd c = true) :
    c.val = 0x0A ∨ c.val = 0x0D ∨ c.val = 0x2028 ∨ c.val = 0x2029 := by
  simp only [isLineEnd, CodePoint.is, CodePoint.within, Bool.or_eq_true, Bool.and_eq_true,
    beq_iff_eq, decide_eq_true_eq] at h
  have hlf : '\n'.toNat = 0x0A := rfl
  have hcr : '\r'.toNat = 0x0D := rfl
  omega

theorem not_isPrintable_of_isLineEnd {c : CodePoint} (h : isLineEnd c = true) :
    c.isPrintable = false := by
  have hprintable {d : CodePoint} (hd : c.val = d.val) (h : d.isPrintable = false) :
      c.isPrintable = false := CodePoint.ext_val hd ▸ h
  rcases val_of_isLineEnd h with hval | hval | hval | hval
  · exact hprintable (d := ⟨0x0A, by decide⟩) hval (by decide)
  · exact hprintable (d := ⟨0x0D, by decide⟩) hval (by decide)
  · exact hprintable (d := ⟨0x2028, by decide⟩) hval (by decide +kernel)
  · exact hprintable (d := ⟨0x2029, by decide⟩) hval (by decide +kernel)

theorem isOneLine_hex (width n : Nat) : (Text.hex false width n).isOneLine = true := by
  have hdigit (n : Nat) : isLineEnd (Text.hexDigit false (n % 16)) = false := by
    have hlt : n % 16 < 16 := Nat.mod_lt n (by decide)
    interval_cases n % 16 <;> rfl
  simp [Text.hex, Text.isOneLine, hdigit]

theorem isOneLine_single (c : CodePoint) : Text.isOneLine [c] = !isLineEnd c := by
  simp [Text.isOneLine]

theorem isOneLine_quotedPoint {mark : CodePoint} (hmark : isLineEnd mark = false) (c : CodePoint) :
    (Text.quotedPoint mark c).isOneLine = true := by
  have hbackslash : Text.isOneLine [CodePoint.ofChar '\\'] = true := by decide
  fun_cases Text.quotedPoint mark c with
  | case1 hquote =>
    have hc : isLineEnd c = false := by
      simp only [Bool.or_eq_true, decide_eq_true_eq, CodePoint.is_iff] at hquote
      rcases hquote with rfl | rfl
      · exact hmark
      · decide
    have hpair : [CodePoint.ofChar '\\', c] = [CodePoint.ofChar '\\'] ++ [c] := rfl
    rw [hpair, Text.isOneLine_append, hbackslash, isOneLine_single, hc]
    rfl
  | case2 => decide
  | case3 => decide
  | case4 => decide
  | case5 _ _ _ _ hprintable =>
    rw [isOneLine_single, Bool.not_eq_true']
    by_contra hc
    rw [not_isPrintable_of_isLineEnd (by simpa using hc)] at hprintable
    cases hprintable
  | _ =>
    rw [Text.isOneLine_append, isOneLine_hex]
    decide

theorem isOneLine_quoted (t : Text) : t.quoted.isOneLine = true := by
  have hmark : isLineEnd t.quotationMark = false := by
    unfold Text.quotationMark
    split <;> decide
  have hpoints : Text.isOneLine (t.flatMap (Text.quotedPoint t.quotationMark)) = true := by
    unfold Text.isOneLine
    rw [List.all_flatMap, List.all_eq_true]
    exact fun c _ => isOneLine_quotedPoint hmark c
  rw [Text.quoted, Text.isOneLine_append, Text.isOneLine_append, isOneLine_single, hpoints, hmark]
  rfl

theorem isOneLine_of_isNumeral {t : Text} (h : IsNumeral t) : t.isOneLine = true := by
  refine h.all (fun c hc => ?_) (by decide) (by decide) (by decide)
  rw [Bool.not_eq_true']
  by_contra hend
  have hval := val_of_isLineEnd (by simpa using hend)
  simp only [CodePoint.isAsciiDigit, CodePoint.within, Bool.and_eq_true, decide_eq_true_eq] at hc
  omega

theorem isOneLine_double (d : Double) : d.text.isOneLine = true := by
  cases hfinite : d.isFinite with
  | true => exact isOneLine_of_isNumeral (isNumeral_of_isNumber (isNumber_double hfinite))
  | false =>
    cases d with
    | nan => decide
    | signed negative rank =>
      have hrank : rank.val = Double.infinityRank := by
        have hge := of_decide_eq_false hfinite
        have hle := rank.isLt
        omega
      rw [Double.text, Double.textWith, if_pos hrank]
      cases negative <;> decide

/-- What a value is described as is one line: texts are escaped. -/
theorem isOneLine_description (value : Json) : value.description.isOneLine = true := by
  induction value using Json.description.induct
    (motive_2 := fun fields => (fieldDescriptions fields).all Text.isOneLine = true)
    (motive_3 := fun items => (itemDescriptions items).all Text.isOneLine = true) with
  | case1 => decide
  | case2 => decide
  | case3 => decide
  | case4 i => exact isOneLine_of_isNumeral (isNumeral_of_isNumber (isNumber_ofInt i))
  | case5 d => exact isOneLine_double d
  | case6 t => exact isOneLine_quoted t
  | case7 items ih =>
    have hmarks : (Text.ofString "[").isOneLine = true ∧ (Text.ofString ", ").isOneLine = true ∧
        (Text.ofString "]").isOneLine = true := by decide
    rw [description, Text.isOneLine_join]
    simp [Text.isOneLine_joinWith, ih, hmarks]
  | case8 fields ih =>
    have hmarks : (Text.ofString "\x7b").isOneLine = true ∧
        (Text.ofString ", ").isOneLine = true ∧ (Text.ofString "\x7d").isOneLine = true := by decide
    rw [description, Text.isOneLine_join]
    simp [Text.isOneLine_joinWith, ih, hmarks]
  | case9 => rfl
  | case10 item rest ihItem ihRest => rw [itemDescriptions, List.all_cons, ihItem, ihRest]; rfl
  | case11 => rfl
  | case12 name value rest ihValue ihRest =>
    have hcolon : (Text.ofString ": ").isOneLine = true := by decide
    rw [fieldDescriptions, List.all_cons, Text.isOneLine_join, ihRest]
    simp [isOneLine_quoted, ihValue, hcolon]

end Escapes

/-! ### Words of the command line -/

namespace Command

section Words

variable {fs : Files} {here : Path} {values : Values} {word : Text} {words : List Text}

/-- A text that the description takes over as it is: what is shown for an argument, and what is
shown for an option unless it is nothing but blanks. -/
inductive TakesOver (fs : Files) (here : Path) (values : Values) : Text → Prop
  | argument {key : String} {t word : Text} (hkey : key ∈ argumentKeys)
      (hgiven : Json.lookup? values key = some (.text t))
      (hshown : shown fs here (.text t) = .ok word) : TakesOver fs here values word
  | option {option : Switch} {t word : Text} (hvalue : option.takesValue = true)
      (hgiven : Json.lookup? values option.key = some (.text t))
      (hshown : shown fs here (.text t) = .ok word) (hblank : word.isBlank = false) :
      TakesOver fs here values word

/-- A value that is no text is shown in one line. -/
theorem isOneLine_shown {value : Json} (h : shown fs here value = .ok word) :
    (∃ t, value = .text t) ∨ word.isOneLine = true := by
  cases value with
  | text t => exact .inl ⟨t, rfl⟩
  | _ =>
    obtain rfl := Except.ok.inj h
    exact .inr (isOneLine_description _)

theorem isOneLine_argumentWords {key : String} (hkey : key ∈ argumentKeys)
    (h : argumentWords fs here values key = .ok words)
    (hover : ∀ word, TakesOver fs here values word → word.isOneLine = true) :
    words.all Text.isOneLine = true := by
  unfold argumentWords at h
  split at h
  · next value hgiven =>
    split at h
    · obtain rfl := Except.ok.inj h
      rfl
    · obtain ⟨word, hword, hwords⟩ := bind_eq_ok.mp h
      obtain rfl := pure_eq_ok.mp hwords
      rw [List.all_cons, List.all_nil, Bool.and_true]
      obtain ⟨t, rfl⟩ | hone := isOneLine_shown hword
      · exact hover word (.argument hkey hgiven hword)
      · exact hone
  · obtain rfl := Except.ok.inj h
    rfl

theorem isOneLine_optionWords {option : Switch} (h : optionWords fs here values option = .ok words)
    (hover : ∀ word, TakesOver fs here values word → word.isOneLine = true) :
    words.all Text.isOneLine = true := by
  have hlong : (Text.ofString option.long).isOneLine = true := by cases option <;> decide
  unfold optionWords at h
  split at h
  · next value hgiven =>
    split at h
    · obtain rfl := Except.ok.inj h
      rfl
    · obtain ⟨word, hword, h⟩ := bind_eq_ok.mp h
      split at h
      · next hvalue =>
        obtain rfl := pure_eq_ok.mp h
        rw [List.all_cons, hlong, List.all_cons, List.all_nil, Bool.and_true, Bool.true_and]
        cases hblank : word.isBlank with
        | true => exact isOneLine_quoted word
        | false =>
          obtain ⟨t, rfl⟩ | hone := isOneLine_shown hword
          · exact hover word (.option hvalue hgiven hword hblank)
          · exact hone
      · obtain rfl := pure_eq_ok.mp h
        rw [List.all_cons, hlong]
        rfl
  · obtain rfl := Except.ok.inj h
    rfl

theorem argumentWords_text {key : String} {t : Text}
    (hgiven : Json.lookup? values key = some (.text t))
    (hshown : shown fs here (.text t) = .ok word)
    (h : argumentWords fs here values key = .ok words) : words = [word] := by
  rw [argumentWords, hgiven] at h
  obtain ⟨word', hword', hwords⟩ := bind_eq_ok.mp h
  obtain rfl := Except.ok.inj (hshown.symm.trans hword')
  exact (pure_eq_ok.mp hwords).symm

theorem optionWords_text {option : Switch} {t : Text} (hvalue : option.takesValue = true)
    (hgiven : Json.lookup? values option.key = some (.text t))
    (hshown : shown fs here (.text t) = .ok word) (hblank : word.isBlank = false)
    (h : optionWords fs here values option = .ok words) :
    words = [Text.ofString option.long, word] := by
  rw [optionWords, hgiven] at h
  obtain ⟨word', hword', hwords⟩ := bind_eq_ok.mp h
  obtain rfl := Except.ok.inj (hshown.symm.trans hword')
  rw [if_pos hvalue, hblank] at hwords
  exact (pure_eq_ok.mp hwords).symm

/-- A command line is one line exactly if the texts are that it takes over. -/
theorem isOneLine_line {described : Text} (h : line fs here values = .ok described) :
    described.isOneLine = true ↔
      ∀ word, TakesOver fs here values word → word.isOneLine = true := by
  have hname : commandName.isOneLine = true := by decide
  simp only [line, bind_eq_ok, pure_eq_ok] at h
  obtain ⟨arguments, harguments, options, hoptions, rfl⟩ := h
  have harguments := mapM_eq_ok.mp harguments
  have hoptions := mapM_eq_ok.mp hoptions
  rw [Text.isOneLine_joinWith (by decide), List.cons_append, List.all_cons, hname, Bool.true_and,
    List.all_append, Bool.and_eq_true, List.all_flatten, List.all_flatten, List.all_eq_true,
    List.all_eq_true]
  constructor
  · rintro ⟨hargument, hoption⟩ word hword
    cases hword with
    | argument hkey hgiven hshown =>
      obtain ⟨words, hmem, hwords⟩ := exists_of_mem_left harguments hkey
      obtain rfl := argumentWords_text hgiven hshown hwords
      simpa using hargument _ hmem
    | @option option _ _ hvalue hgiven hshown hblank =>
      have hkept : option ∈ keptSwitches := by cases option <;> first | decide | cases hvalue
      obtain ⟨words, hmem, hwords⟩ := exists_of_mem_left hoptions hkept
      obtain rfl := optionWords_text hvalue hgiven hshown hblank hwords
      have hone := hoption _ hmem
      simp only [List.all_cons, Bool.and_eq_true] at hone
      exact hone.2.1
  · intro hover
    constructor
    · intro words hwords
      obtain ⟨key, hkey, h⟩ := exists_of_mem_right harguments hwords
      exact isOneLine_argumentWords hkey h hover
    · intro words hwords
      obtain ⟨option, -, h⟩ := exists_of_mem_right hoptions hwords
      exact isOneLine_optionWords h hover

end Words

end Command

namespace Generator

open Command

variable {g : Generator} {comment : Text}

/-- The parts of a comment: a mark, fixed words and the command line. -/
theorem comment_eq_some (h : g.comment = .ok (some comment)) :
    comment = Text.join ["// Generated by ", commandName, " v", version, " : ", g.commandLine] ∧
      ∃ settings, g.settings.printer = .given settings := by
  unfold Generator.comment at h
  split_ifs at h
  · cases h
  · obtain ⟨settings, hsettings, h⟩ := bind_eq_ok.mp h
    split_ifs at h
    · cases h
    · refine ⟨(Option.some.inj (pure_eq_ok.mp h)).symm, settings, ?_⟩
      cases hprinter : g.settings.printer <;> rw [hprinter] at hsettings
      · rw [Except.ok.inj hsettings]
      · cases hsettings
      · cases hsettings

theorem isOneLine_comment (h : g.comment = .ok (some comment)) :
    comment.isOneLine = g.commandLine.isOneLine := by
  have hfixed : (Text.ofString "// Generated by ").isOneLine = true ∧
      commandName.isOneLine = true ∧ (Text.ofString " v").isOneLine = true ∧
      version.isOneLine = true ∧ (Text.ofString " : ").isOneLine = true := by decide
  rw [(comment_eq_some h).1, Text.isOneLine_join]
  simp [hfixed]

/-- Generated source that has a comment is the comment, a line break and the source text of the
tree, whatever the command line. The comment is one line exactly if no text that the command
line takes over has a line end in it. -/
theorem comment_isOneLine_iff {fs : Files} {here : Path} {values : Values}
    (hline : line fs here values = .ok g.commandLine) (h : g.comment = .ok (some comment))
    (t : Tree) :
    comment.startsWith "//" = true ∧
      (∃ settings, g.settings.printer = .given settings ∧
        g.generate t = (do
          let source ← (Source.toSource settings t).mapError .tree
          return comment ++ "\n" ++ source)) ∧
      (comment.isOneLine = true ↔
        ∀ word, TakesOver fs here values word → word.isOneLine = true) := by
  obtain ⟨hcomment, settings, hprinter⟩ := comment_eq_some h
  refine ⟨?_, ⟨settings, hprinter, ?_⟩, ?_⟩
  · rw [hcomment]
    rfl
  · have hsettings : g.printSettings = .ok settings := by rw [printSettings, hprinter]
    rw [generate, hsettings, h]
    rfl
  · rw [isOneLine_comment h]
    exact isOneLine_line hline

def indentedBy (unit : Text) : Values :=
  [("path", .text "in.json"), ("output", .text "out.js"), ("indent", .text unit)]

/-- The generator of such a run, of which the unit is shown as a word. -/
def indentedRun (word : Text) : Generator where
  commandLine := "estree_to_code in.json out.js --indent " ++ word

/-- A unit that is a tab is escaped, so nothing is left to break the line. -/
theorem comment_isOneLine_tab : ∃ comment,
    line {} [] (indentedBy "\t") = .ok (indentedRun "'\\t'").commandLine ∧
      (indentedRun "'\\t'").comment = .ok (some comment) ∧ comment.isOneLine = true ∧
      (indentedRun "'\\t'").generate .missing = .ok (comment ++ "\n" ++ ";\n") := by
  have hline : line {} [] (indentedBy "\t") = .ok (indentedRun "'\\t'").commandLine := rfl
  obtain ⟨-, ⟨settings, hsettings, hgenerate⟩, hone⟩ := comment_isOneLine_iff hline rfl .missing
  refine ⟨_, hline, rfl, hone.mpr fun word hword => ?_, ?_⟩
  · cases hword with
    | argument hkey hgiven hshown =>
      simp only [argumentKeys, List.mem_cons, List.not_mem_nil, or_false] at hkey
      rcases hkey with rfl | rfl <;> obtain rfl := Json.text.inj (Option.some.inj hgiven) <;>
        obtain rfl := Except.ok.inj hshown <;> decide
    | @option option _ _ hvalue hgiven hshown hblank =>
      cases option with
      | indent =>
        obtain rfl := Json.text.inj (Option.some.inj hgiven)
        obtain rfl := Except.ok.inj hshown
        exact absurd hblank (by decide)
      | config =>
        have hnone : Json.lookup? (indentedBy "\t") Switch.config.key = none := rfl
        rw [hnone] at hgiven
        cases hgiven
      | _ => cases hvalue
  · rw [hgenerate]
    cases hsettings
    rfl

/-- A unit with a line feed in it is taken over as it is and breaks the line. -/
theorem not_isOneLine_lineFeed : ∃ comment,
    line {} [] (indentedBy "a\nb") = .ok (indentedRun "a\nb").commandLine ∧
      (indentedRun "a\nb").comment = .ok (some comment) ∧ comment.isOneLine = false :=
  ⟨_, rfl, rfl, by decide⟩

end Generator

end ScriptTree
