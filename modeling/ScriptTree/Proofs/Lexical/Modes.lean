import ScriptTree.Proofs.Lexical.Printing

/-!
Minified source is pretty source with other blanks. A tree that minifying does not rewrite and
whose neighbours are told apart has the same tokens in both modes, and under all settings that
indent and end lines with blanks. Where neighbours are not told apart it may have others: an
access without indices hides a number from the access by name around it, and what follows the
point is then read as part of the number.
-/

namespace ScriptTree.Lexical

open Source

section Trees

variable {α : Alphabet} {s : PrintSettings} {t : Tree}

theorem reads_script (h : t.Throughout fun n => n.IsKept α ∧ n.StaysApart) :
    Reads α .clear (fun m => script m t) .any := by
  have hreads : t.Throughout fun n => (n.IsKept α ∧ n.StaysApart) ∧ ReadsNode α n :=
    h.strengthen (fun n hn => hn.1.slots) fun n hn hfilled =>
      reads_node (fun n hn => hn.1.1) (fun n hn => hn.2) hn.1 hn.2 hfilled
  cases t with
  | missing => exact (Reads.finish (i := .clear) (by decide)).weaken rfl rfl
  | node n => exact hreads.here.2.weaken (clear_under_entry _) (exit_under_any _)
  | _ => exact .fail _

/-- Pieces that can be read from the start are split into the tokens they add. -/
theorem tokens?_of_scans {pieces : List Piece} {L : List Text}
    (h : Scans α s .clear pieces L .any) :
    tokens? α (rendered s (Position.run {} pieces).laid) = some L := by
  obtain ⟨-, htaken, hmeets, -⟩ := h {} {} (follows_between Position.isPlain_start rfl) rfl
  have hcomplete := isComplete_of_isOpen (isOpen_of_meets (k := .any) nofun hmeets)
  rw [tokens?, if_pos hcomplete, htaken]
  rfl

/-- A tree that minifying does not rewrite, with valid names and no regular expressions, and in
which neighbours are told apart, has the same tokens however it is printed. -/
theorem tokens_unaffected {s' : PrintSettings} (hs : s.HasBlanks) (hs' : s'.HasBlanks)
    (h : t.Throughout fun n => n.IsKept α ∧ n.StaysApart) {text : Text}
    (hprints : toSource s t = .ok text) :
    ∃ text' L, toSource s' t = .ok text' ∧ tokens? α text = some L ∧ tokens? α text' = some L := by
  have hslots : t.Throughout Node.HasSlots := h.mono fun n hn => hn.1.slots
  obtain ⟨hfailure, rfl⟩ := (toSource_eq_ok_iff hs.hasTexts hslots).mp hprints
  have hfailure' : (script s'.mode t).failure = none := by
    rw [failure_script hslots] at hfailure ⊢
    exact hfailure
  obtain ⟨L, hscans⟩ := reads_script h
  exact ⟨_, L, (toSource_eq_ok_iff hs'.hasTexts hslots).mpr ⟨hfailure', rfl⟩,
    tokens?_of_scans (hscans _ hfailure s hs), tokens?_of_scans (hscans _ hfailure' s' hs')⟩

end Trees

section Examples

def nameOf (name : Text) : Tree := .node (.identifier (.ofText name))

def numberOf (value : Int) : Tree := .node (.literal (.atom (.int value)))

/-- A loop whose body follows a word, and whose test has a sign after a sign. -/
def signedLoop : Tree :=
  .node (.doWhileStatement (.node (.expressionStatement (nameOf "a")))
    (.node (.unaryExpression (.ofMember (.unaryOperator .positive))
      (.node (.unaryExpression (.ofMember (.unaryOperator .positive)) (nameOf "b"))))))

/-- The sum of an access by name and a number. What is accessed is a number too, but an access
by index that has no indices stands between them. -/
def hiddenNumber : Tree :=
  .node (.binaryExpression
    (.node (.memberExpression
      (.node (.memberExpression (numberOf 1) (.list []) (.atom (.bool true))))
      (.list [nameOf "e"]) (.atom (.bool false))))
    (.ofMember (.binaryOperator .add)) (.list [numberOf 2]))

def escapedLoop : Tree :=
  .node (.doWhileStatement (.node (.expressionStatement (nameOf "\\u0061"))) (nameOf "b"))

theorem isName_ascii :
    IsName .ascii "a" ∧ IsName .ascii "b" ∧ IsName .ascii "e" ∧ IsName .ascii "\\u0061" := by
  unfold IsName
  decide

theorem isKept_of_filled {α : Alphabet} {n : Node Tree}
    (hkind : n.kind?.any [Kind.identifier, .literal].contains = false)
    (hkept : n.isRewritten = false) (h : n.Filled (Node.IsKept α)) :
    (Tree.node n).Throughout (Node.IsKept α) := by
  refine throughout_of_filled (fun _ hslots => ⟨hslots, by simp, by simp, rfl⟩)
    (fun hslots => ⟨hslots, ?_, ?_, hkept⟩) h
  · rintro name rfl
    cases hkind
  · rintro pattern flags rfl
    cases hkind

theorem isKept_nameOf {α : Alphabet} {name : Text} (h : IsName α name) :
    NodeSlot (Node.IsKept α) .expression (nameOf name) := by
  refine .of_has rfl (throughout_of_filled (fun _ hslots => ⟨hslots, by simp, by simp, rfl⟩)
    (fun hslots => ⟨hslots, ?_, by simp, rfl⟩) ⟨name, rfl⟩)
  intro name' heq
  obtain rfl : name = name' := by simpa [Tree.ofText] using heq
  exact h

theorem isKept_numberOf {α : Alphabet} (value : Int) :
    NodeSlot (Node.IsKept α) .expression (numberOf value) :=
  .of_has rfl (throughout_of_filled (fun _ hslots => ⟨hslots, by simp, by simp, rfl⟩)
    (fun hslots => ⟨hslots, by simp, by simp, rfl⟩) trivial)

/-- A loop around an expression statement. -/
theorem isKept_doWhile {α : Alphabet} {expression test : Tree}
    (hexpression : NodeSlot (Node.IsKept α) .expression expression)
    (htest : NodeSlot (Node.IsKept α) .expression test) :
    (Tree.node (.doWhileStatement (.node (.expressionStatement expression)) test)).Throughout
      (Node.IsKept α) := by
  have hbody := isKept_of_filled (n := .expressionStatement expression) rfl rfl hexpression
  exact isKept_of_filled rfl rfl ⟨.of_has rfl hbody, htest⟩

theorem isKept_signedLoop : signedLoop.Throughout fun n => n.IsKept .ascii ∧ n.StaysApart := by
  have hsigned {t : Tree} (h : NodeSlot (Node.IsKept .ascii) .expression t) :
      NodeSlot (Node.IsKept .ascii) .expression
        (.node (.unaryExpression (.ofMember (.unaryOperator .positive)) t)) :=
    .of_has rfl (isKept_of_filled rfl rfl ⟨⟨_, rfl⟩, h⟩)
  have hkept : signedLoop.Throughout (Node.IsKept .ascii) :=
    isKept_doWhile (isKept_nameOf isName_ascii.1)
    (hsigned (hsigned (isKept_nameOf isName_ascii.2.1)))
  have hletter : (Text.ofString "a").head?.any (·.is '\\') = false := by decide
  have hapart : signedLoop.Throughout Node.StaysApart := by
    simp [signedLoop, nameOf, throughout_node, Node.staysApart_iff, Node.entries,
      Node.accessesWhole, Node.escapesAfterWord, opensWithEscape, Tree.ofText, Tree.ofMember,
      hletter]
  exact hkept.and hapart

theorem tokens_unaffected_signedLoop :
    toSource {} signedLoop = .ok "do\n    a;\nwhile (+ +b);\n" ∧
      toSource { minify := .bool true } signedLoop = .ok "do a;while(+ +b);" ∧
      ∃ L, tokens? .ascii "do\n    a;\nwhile (+ +b);\n" = some L ∧
        tokens? .ascii "do a;while(+ +b);" = some L := by
  have hpretty : toSource {} signedLoop = .ok "do\n    a;\nwhile (+ +b);\n" := by decide
  have hminified : toSource { minify := .bool true } signedLoop = .ok "do a;while(+ +b);" := by
    decide
  have hblanks (minify : Json) : PrintSettings.HasBlanks { minify } :=
    ⟨⟨_, rfl, by decide⟩, ⟨_, rfl, by decide, by decide⟩⟩
  obtain ⟨text, L, htext, htokens, htokens'⟩ :=
    tokens_unaffected (hblanks (.bool false)) (hblanks (.bool true)) isKept_signedLoop hpretty
  obtain rfl : Text.ofString "do a;while(+ +b);" = text :=
    Except.ok.inj (hminified.symm.trans htext)
  exact ⟨hpretty, hminified, L, htokens, htokens'⟩

theorem isKept_hiddenNumber : hiddenNumber.Throughout fun n => n.IsKept .ascii := by
  have hinner : NodeSlot (Node.IsKept .ascii) .expression
      (.node (.memberExpression (numberOf 1) (.list []) (.atom (.bool true)))) :=
    .of_has rfl (isKept_of_filled rfl rfl
      ⟨isKept_numberOf 1, ⟨_, rfl, by simp⟩, ⟨_, rfl⟩⟩)
  have houter : NodeSlot (Node.IsKept .ascii) .expression (.node (.memberExpression
      (.node (.memberExpression (numberOf 1) (.list []) (.atom (.bool true))))
      (.list [nameOf "e"]) (.atom (.bool false)))) :=
    .of_has rfl (isKept_of_filled rfl rfl
      ⟨hinner, ⟨_, rfl, by simpa using isKept_nameOf isName_ascii.2.2.1⟩, ⟨_, rfl⟩⟩)
  exact isKept_of_filled rfl rfl
    ⟨⟨_, rfl⟩, houter, ⟨_, rfl, by simpa using isKept_numberOf 2⟩⟩

theorem isKept_escapedLoop : escapedLoop.Throughout fun n => n.IsKept .ascii :=
  isKept_doWhile (isKept_nameOf isName_ascii.2.2.2) (isKept_nameOf isName_ascii.2.1)

/-- Where neighbours are not told apart, minifying changes the tokens: the point, the name, the
sign and the number after the hidden one are one token, and so are a word and the escape after
it. -/
theorem tokens_affected :
    (hiddenNumber.Throughout (fun n => n.IsKept .ascii) ∧
      toSource {} hiddenNumber = .ok "(1.e + 2)" ∧
      toSource { minify := .bool true } hiddenNumber = .ok "(1.e+2)" ∧
      tokens? .ascii "(1.e + 2)" = none ∧
      tokens? .ascii "(1.e+2)" = some (["(", "1.e+2", ")"].map Text.ofString)) ∧
    escapedLoop.Throughout (fun n => n.IsKept .ascii) ∧
      toSource {} escapedLoop = .ok "do\n    \\u0061;\nwhile (b);\n" ∧
      toSource { minify := .bool true } escapedLoop = .ok "do\\u0061;while(b);" ∧
      tokens? .ascii "do\n    \\u0061;\nwhile (b);\n" =
        some (["do", "\\u0061", ";", "while", "(", "b", ")", ";"].map Text.ofString) ∧
      tokens? .ascii "do\\u0061;while(b);" =
        some (["do\\u0061", ";", "while", "(", "b", ")", ";"].map Text.ofString) := by
  refine ⟨⟨isKept_hiddenNumber, ?_⟩, isKept_escapedLoop, ?_⟩
  · decide
  · decide

end Examples

end ScriptTree.Lexical
