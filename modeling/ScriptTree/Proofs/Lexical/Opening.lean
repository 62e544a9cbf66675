import ScriptTree.Proofs.Lexical.Literals
import ScriptTree.Proofs.Source.Failure

/-!
What the text of an expression opens with. An expression statement that opened with a brace or
with the word `function` would be read as a block or as a declaration. Whether the text of an
expression does is told in advance, along the operands that stand first; the statement is
enclosed then, and so is an if that prints as a conditional expression.
-/

namespace ScriptTree

open Source

/-- A node that is in place, with a valid name if it is an identifier: a word that is not
reserved for functions. -/
structure Node.IsNamed (α : Lexical.Alphabet) (n : Node Tree) : Prop where
  slots : n.HasSlots
  name : ∀ name, n = .identifier (.ofText name) →
    Lexical.IsName α name ∧ name ≠ Text.ofString "function"

namespace Lexical

open Script

/-- Whether a text begins with a brace or with the word `function`. -/
def isMisread (α : Alphabet) (t : Text) : Bool :=
  t.head?.any (·.is '\x7b') ||
    (t.startsWith "function" && !(t.drop 8).head?.any fun c => α.continues c || c.is '\\')

/-- Neither a brace nor the first letter of `function` stands at the start of what is written. -/
def isMark : Piece → Bool
  | .text t => t.head?.any fun c => !isOneOf ['\x7b', 'f'] c
  | _ => false

/-- How the instructions for an expression begin, by whether its text would be misread. After a
name, something is written that is not read as part of it. -/
inductive Begins (α : Alphabet) : Bool → List Piece → Prop
  | brace {t : Text} {rest : List Piece} (h : t.head?.any (·.is '\x7b') = true) :
      Begins α true (.text t :: rest)
  | function {t : Text} {rest : List Piece} (h : t.head?.any (isOneOf [' ', '(']) = true) :
      Begins α true (.text "function" :: .text t :: rest)
  | nothing : Begins α false []
  | mark {piece : Piece} {rest : List Piece} (h : isMark piece = true) :
      Begins α false (piece :: rest)
  | name {t : Text} {rest : List Piece} (h : IsName α t) (hfree : t ≠ Text.ofString "function")
      (hrest : rest.head?.all isMark = true) : Begins α false (.text t :: rest)

/-! ### Instructions -/

section Scripts

variable {α : Alphabet} {opens : Bool} {a b : Script}

def FollowsName (s : Script) : Prop := s.pieces.head?.all isMark = true

def Marked (s : Script) : Prop := ∃ piece, s.pieces.head? = some piece ∧ isMark piece = true

/-- What is written first does not depend on what follows. -/
theorem head?_append {piece : Piece} (h : a.pieces.head? = some piece) :
    (a ++ b).pieces.head? = some piece := by
  obtain ⟨pieces, failure⟩ := a
  cases pieces with
  | nil => cases h
  | cons first rest => cases failure <;> exact h

theorem head?_bracketed (m : Mode) (opening closing : Text) (inner : Script) :
    (bracketed m opening closing inner).pieces.head? = some (.text opening) := by
  have hopening : (if m.isMinified then write opening else line opening ++ deeper).pieces.head? =
      some (.text opening) := by cases m <;> rfl
  exact head?_append (head?_append (head?_append hopening))

theorem marked_write {t : Text} (h : isMark (.text t) = true) : Marked (write t) :=
  ⟨.text t, rfl, h⟩

theorem Marked.append (h : Marked a) : Marked (a ++ b) := by
  obtain ⟨piece, hhead, hmark⟩ := h
  exact ⟨piece, head?_append hhead, hmark⟩

theorem Marked.followsName (h : Marked a) : FollowsName a := by
  obtain ⟨piece, hhead, hmark⟩ := h
  rw [FollowsName, hhead]
  exact hmark

theorem Marked.begins (h : Marked a) : Begins α false a.pieces := by
  obtain ⟨piece, hhead, hmark⟩ := h
  obtain ⟨rest, hpieces⟩ := List.head?_eq_some_iff.mp hhead
  rw [hpieces]
  exact .mark hmark

theorem followsName_empty : FollowsName empty := rfl

theorem followsName_fail (e : TreeError) : FollowsName (fail e) := rfl

theorem FollowsName.append (ha : FollowsName a) (hb : FollowsName b) : FollowsName (a ++ b) := by
  obtain ⟨pieces, failure⟩ := a
  cases pieces with
  | nil =>
    cases failure with
    | none => exact hb
    | some e => rfl
  | cons piece rest => cases failure <;> exact ha

theorem marked_token (m : Mode) {minified pretty : Text}
    (hminified : isMark (.text minified) = true)
    (hpretty : isMark (.text pretty) = true) : Marked (m.token minified pretty) := by
  cases m with
  | pretty => exact marked_write hpretty
  | minified => exact marked_write hminified

theorem marked_finish (m : Mode) {t : Text} (h : isMark (.text t) = true) :
    Marked (m.finish t) := by
  cases m with
  | pretty => exact (marked_write h).append
  | minified => exact marked_write h

theorem Begins.append (ha : Begins α opens a.pieces) (hb : FollowsName b) :
    Begins α opens (a ++ b).pieces := by
  obtain ⟨pieces, failure⟩ := a
  cases failure with
  | some e => exact ha
  | none =>
    have hpieces : (Script.mk pieces none ++ b).pieces = pieces ++ b.pieces := rfl
    rw [hpieces]
    cases ha with
    | brace h => exact .brace h
    | function h => exact .function h
    | mark h => exact .mark h
    | nothing =>
      obtain ⟨more, failure⟩ := b
      cases more with
      | nil => exact .nothing
      | cons piece more => exact .mark hb
    | @name t rest h hfree hrest =>
      refine .name h hfree ?_
      cases rest with
      | nil => exact hb
      | cons piece rest => exact hrest

/-- What would be misread stays so, whatever follows. -/
theorem Begins.append_true (ha : Begins α true a.pieces) : Begins α true (a ++ b).pieces := by
  obtain ⟨pieces, failure⟩ := a
  cases failure with
  | some e => exact ha
  | none =>
    have hpieces : (Script.mk pieces none ++ b).pieces = pieces ++ b.pieces := rfl
    rw [hpieces]
    cases ha with
    | brace h => exact .brace h
    | function h => exact .function h

end Scripts

/-! ### Literals -/

section Literals

variable {α : Alphabet}

theorem isMark_digit {c : CodePoint} {t : Text} (h : c.isAsciiDigit = true) :
    isMark (.text (c :: t)) = true := by
  have hbrace : c.is '\x7b' = false :=
    is_eq_false (p := fun c => !c.isAsciiDigit) '\x7b' (by simp [h]) (by decide)
  have hletter : c.is 'f' = false :=
    is_eq_false (p := fun c => !c.isAsciiDigit) 'f' (by simp [h]) (by decide)
  simp [isMark, isOneOf, hbrace, hletter]

theorem isMark_numeral {t : Text} (h : IsNumeral t) : isMark (.text t) = true := by
  obtain ⟨negative, magnitude, rfl, hmagnitude⟩ := h
  cases negative with
  | true => rfl
  | false =>
    cases hmagnitude with
    | digits hwhole hfrac hpower =>
      obtain ⟨hall, c, more, rfl, -⟩ := hwhole
      exact isMark_digit (hall c List.mem_cons_self)
    | word hname => rcases hname with rfl | rfl <;> rfl

theorem isMark_regexLiteralOf {pattern flags : Tree} {t : Text}
    (h : regexLiteralOf pattern flags = .ok t) : isMark (.text t) = true := by
  have hslash (body : Text) : isMark (.text (Text.ofString "/" ++ body)) = true := rfl
  unfold regexLiteralOf at h
  split at h
  · obtain rfl := Except.ok.inj h
    exact hslash _
  · cases h
  · split at h
    · simp only [bind_eq_ok, pure_eq_ok] at h
      obtain ⟨_, -, letters, -, body, -, rfl⟩ := h
      exact hslash _
    · simp only [bind_eq_ok, pure_eq_ok] at h
      obtain ⟨letters, -, rfl⟩ := h
      exact hslash _

/-- Of the literals, only one starts like the word `function`. -/
theorem literal_begins {value : Tree} {t : Text} (h : literal value = .ok t) :
    Begins α false [.text t] := by
  cases value with
  | missing =>
    obtain rfl := Except.ok.inj h
    exact .mark rfl
  | regex pattern flags => exact .mark (isMark_regexLiteralOf h)
  | atom a =>
    cases a with
    | bool b =>
      cases b with
      | true =>
        obtain rfl := Except.ok.inj h
        exact .mark rfl
      | false =>
        obtain rfl := Except.ok.inj h
        exact .name rfl (by decide) rfl
    | text value =>
      obtain rfl := Except.ok.inj h
      exact .mark rfl
    | member m =>
      obtain rfl := Except.ok.inj h
      exact .mark rfl
    | _ =>
      simp only [literal] at h
      split at h
      · next number hnumber =>
        obtain rfl := Except.ok.inj h
        exact .mark (isMark_numeral (isNumeral_numberText hnumber))
      · cases h
  | _ => cases h

end Literals

/-! ### Expressions -/

section Expressions

variable {α : Alphabet} {P : Node Tree → Prop} {m : Mode} {t : Tree}

/-- Whether the text of the expression would be misread is told before it is printed. -/
def Foretold (α : Alphabet) (opens : Except TreeError Bool) (s : Script) : Prop :=
  ∃ b, opens = .ok b ∧ Begins α b s.pieces

theorem Foretold.append {opens : Except TreeError Bool} {a b : Script} (h : Foretold α opens a)
    (hb : FollowsName b) : Foretold α opens (a ++ b) := by
  obtain ⟨value, hvalue, hbegins⟩ := h
  exact ⟨value, hvalue, hbegins.append hb⟩

theorem Marked.foretold {s : Script} (h : Marked s) : Foretold α (.ok false) s :=
  ⟨false, rfl, h.begins⟩

/-- An access starts with a bracket or with a point. -/
theorem followsName_accesses (m : Mode) (computed first : Bool) (items : List Tree) :
    FollowsName (itemScripts m (if computed then .indices else .names) first items) := by
  induction items generalizing first with
  | nil => exact followsName_empty
  | cons t rest ih =>
    cases computed with
    | true =>
      have hitem : Marked (write "[" ++ scriptOr m (absent "MemberExpression" "indices") t ++
          write "]") := Marked.append (Marked.append (marked_write rfl))
      have hbetween : FollowsName (onlyIf (!first) (Listing.indices.between m)) := by
        cases first <;> rfl
      exact (hbetween.append hitem.followsName).append (ih false)
    | false =>
      have hitem : FollowsName (indexName t) := by
        unfold indexName
        split
        · exact (Marked.append (marked_write rfl)).followsName
        · exact followsName_fail _
      have hbetween : FollowsName (onlyIf (!first) (Listing.names.between m)) := by
        cases first <;> rfl
      exact (hbetween.append hitem).append (ih false)

section Slots

variable (hthere : ∀ n, P n → n.isExpression = true → ∀ m,
  Foretold α (opensLikeStatement (.node n)) (nodeScript m n))

include hthere

theorem foretold_slot (h : NodeSlot P .expression t) {missing : Script}
    (hmissing : missing.pieces = []) :
    Foretold α (opensLikeStatement t) (scriptOr m missing t) := by
  rcases h with rfl | ⟨n, rfl, hkind, hn⟩
  · refine ⟨false, rfl, ?_⟩
    rw [scriptOr, hmissing]
    exact .nothing
  · exact hthere n hn.here hkind m

/-- An expression in a place, enclosed if the place refuses it. -/
theorem foretold_placed (refused : Bool) (h : NodeSlot P .expression t) {missing : Script}
    (hmissing : missing.pieces = []) :
    Foretold α (if refused then .ok false else opensLikeStatement t)
      (enclosedIf refused (scriptOr m missing t)) := by
  cases refused with
  | true => exact Marked.foretold (Marked.append (Marked.append (marked_write rfl)))
  | false => exact foretold_slot hthere h hmissing

/-- The script of an expression begins as is told in advance if those of its parts do. -/
theorem foretold_node (hP : ∀ n, P n → n.HasSlots) {n : Node Tree} (hn : n.IsNamed α)
    (hkind : n.isExpression = true)
    (h : n.Filled P) : Foretold α (opensLikeStatement (.node n)) (nodeScript m n) := by
  cases n with
  | identifier name =>
    obtain ⟨text, rfl⟩ : ∃ text, name = .ofText text := h
    obtain ⟨hname, hfree⟩ := hn.name text rfl
    exact ⟨false, rfl, .name hname hfree rfl⟩
  | literal value =>
    cases hliteral : literal value with
    | error e => exact ⟨false, rfl, by rw [nodeScript, hliteral]; exact .nothing⟩
    | ok text => exact ⟨false, rfl, by rw [nodeScript, hliteral]; exact literal_begins hliteral⟩
  | thisExpression => exact Marked.foretold (marked_write rfl)
  | arrayExpression elements =>
    refine Marked.foretold ?_
    rw [nodeScript]
    split
    · exact marked_write rfl
    · exact ⟨_, head?_bracketed .., rfl⟩
  | objectExpression properties =>
    refine ⟨true, rfl, ?_⟩
    rw [nodeScript]
    split
    · exact .brace rfl
    · obtain ⟨rest, hrest⟩ := List.head?_eq_some_iff.mp
        (head?_bracketed m "\x7b" "\x7d" (listScript m .properties properties))
      rw [hrest]
      exact .brace rfl
  | functionExpression id params body =>
    obtain ⟨hid, -, -⟩ : NodeSlot P .identifier id ∧ ListSlot P .identifier params ∧
      ListSlot P .statement body := h
    have hhead : Begins α true (write "function" ++ optionalName id ++ write "(").pieces := by
      rcases hid.name hP with rfl | ⟨name, rfl⟩
      · exact .function rfl
      · exact .function rfl
    exact ⟨true, rfl, hhead.append_true.append_true.append_true⟩
  | unaryExpression operator argument =>
    obtain ⟨⟨op, rfl⟩, hargument⟩ : (∃ op, operator = .ofMember (.unaryOperator op)) ∧
      NodeSlot P .expression argument := h
    have hmissing : (absent "UnaryExpression" "argument").pieces = [] := rfl
    have hoperand := foretold_placed hthere (m := m) (Place.operand.refuses argument) hargument
      hmissing
    rw [nodeScript_unary]
    simp only [opensLikeStatement, Tree.ofMember, standsBefore, ok_bind]
    split
    · refine Marked.foretold (Marked.append (marked_write ?_))
      cases op <;> rfl
    · refine hoperand.append (Marked.followsName (marked_write ?_))
      cases op <;> rfl
  | binaryExpression left operator right =>
    obtain ⟨⟨op, rfl⟩, -, -⟩ : (∃ op, operator = .ofMember (.binaryOperator op)) ∧
      NodeSlot P .expression left ∧ ListSlot P .expression right := h
    exact Marked.foretold (Marked.append (Marked.append (Marked.append (marked_write rfl))))
  | memberExpression object indices computed =>
    obtain ⟨hobject, ⟨items, rfl, -⟩, -⟩ : NodeSlot P .expression object ∧
      ListSlot P .expression indices ∧ _ := h
    rw [opensLikeStatement, nodeScript]
    exact (foretold_placed hthere _ hobject rfl).append (followsName_accesses ..)
  | conditionalExpression test consequent alternate =>
    have htest : NodeSlot P .expression test := h.1
    rw [opensLikeStatement, nodeScript, append_assoc, append_assoc, append_assoc]
    exact (foretold_placed hthere _ htest rfl).append
      (Marked.append (marked_token m rfl rfl)).followsName
  | callExpression callee arguments =>
    have hcallee : NodeSlot P .expression callee := h.1
    rw [opensLikeStatement, nodeScript, append_assoc, append_assoc]
    exact (foretold_placed hthere _ hcallee rfl).append
      (Marked.append (marked_write rfl)).followsName
  | newExpression callee arguments =>
    exact Marked.foretold
      (Marked.append (Marked.append (Marked.append (Marked.append (marked_write rfl)))))
  | sequenceExpression expressions =>
    obtain ⟨items, rfl, hitems⟩ : ListSlot P .expression expressions := h
    cases items with
    | nil => exact ⟨false, rfl, .nothing⟩
    | cons first rest =>
      have hrest : FollowsName (itemScripts m .expressions false rest) := by
        cases rest with
        | nil => exact followsName_empty
        | cons t rest => exact (Marked.append (Marked.append (marked_token m rfl rfl))).followsName
      rw [opensLikeStatement]
      exact (foretold_slot hthere (hitems first List.mem_cons_self) rfl).append hrest
  | bare cls => exact ⟨false, rfl, .nothing⟩
  | _ => cases hkind

end Slots

/-- Whether the text of an expression would be misread is told in advance. -/
theorem foretold_throughout (h : t.Throughout (Node.IsNamed α)) :
    t.Throughout fun n => n.IsNamed α ∧ (n.isExpression = true → ∀ m,
      Foretold α (opensLikeStatement (.node n)) (nodeScript m n)) :=
  h.strengthen (fun _ hn => hn.slots) fun _ hn hfilled hkind _ =>
    foretold_node (fun _ hn => hn.2) (fun _ hn => hn.1.slots) hn hkind hfilled

/-- What would be misread is enclosed. -/
theorem Begins.enclosed {opens : Bool} {s : Script} (h : Begins α opens s.pieces) :
    Begins α false (enclosedIf opens s).pieces := by
  cases opens with
  | false => exact h
  | true => exact (Marked.append (Marked.append (marked_write rfl))).begins

theorem begins_expressionStatement {n : Node Tree}
    (h : Foretold α (opensLikeStatement (.node n)) (nodeScript m n)) :
    Begins α false (nodeScript m (.expressionStatement (.node n))).pieces := by
  obtain ⟨opens, hopens, hbegins⟩ := h
  rw [nodeScript, hopens]
  exact hbegins.enclosed.append (marked_finish m rfl).followsName

theorem begins_conditional {test consequent alternate : Tree}
    (h : (Tree.node (.ifStatement test consequent alternate)).Throughout (Node.IsNamed α))
    (hfolds : becomesConditional m test consequent alternate = .ok true) :
    Begins α false (nodeScript m (.ifStatement test consequent alternate)).pieces := by
  have hfilled := (foretold_throughout h).filled fun n hn => hn.1.slots
  have hmissing : empty.pieces = [] := rfl
  obtain ⟨opens, hopens, hbegins⟩ := foretold_placed (m := m) (fun n hn => hn.2)
    (Place.operand.refuses test) hfilled.1 hmissing
  rw [nodeScript, hfolds, given_ok, if_pos rfl, hopens, given_ok, append_assoc, append_assoc,
    append_assoc]
  have hmark : Marked (m.token "?" " ? ") := marked_token m rfl rfl
  exact (hbegins.append hmark.append.followsName).enclosed.append (marked_finish m rfl).followsName

end Expressions

/-! ### Texts -/

section Texts

variable {α : Alphabet} {s : PrintSettings} {p : Position}

/-- The code points at both ends of a text. -/
theorem exists_ends {t : Text} {p : CodePoint → Bool} (h : t.head?.any p = true) :
    ∃ first last, t.head? = some first ∧ p first = true ∧ t.getLast? = some last := by
  cases t with
  | nil => cases h
  | cons c t =>
    exact ⟨c, _, rfl, h, List.getLast?_eq_some_getLast (List.cons_ne_nil c t)⟩

/-- A text is written as it is, after the space that keeps it apart. -/
theorem rendered_text (hp : p.IsPlain) (hdepth : p.depth = 0) {t : Text}
    {first last : CodePoint} (hfirst : t.head? = some first) (hlast : t.getLast? = some last)
    (rest : List Piece) :
    rendered s (p.run (Piece.text t :: rest)).laid = rendered s (p.begun.gap first) ++ (t ++
      rendered s (Position.run { p.begun with last := some (.point last) } rest).laid) := by
  have hindentation : p.indentation = [] := by simp [Position.indentation, hdepth]
  have hindented : p.indented = p.begun := by simp [Position.indented, hdepth]
  have htext : s.render (.text t) = t := rfl
  rw [Position.run, Position.step, Position.write_plain hp hfirst hlast, hindentation, hindented]
  simp [rendered, htext]

/-- The text that is written first stands first. -/
theorem rendered_first {t : Text} {last : CodePoint} (hlast : t.getLast? = some last)
    (rest : List Piece) :
    rendered s (Position.run {} (Piece.text t :: rest)).laid = t ++ rendered s
      (Position.run { lineStart := false, last := some (.point last) } rest).laid := by
  cases t with
  | nil => cases hlast
  | cons first t => exact rendered_text Position.isPlain_start rfl rfl hlast rest

/-- What is written next starts with a space if it would join what stands before it. -/
theorem head?_rendered_next {t : Text} {before first last : CodePoint}
    (hfirst : t.head? = some first) (hlast : t.getLast? = some last) (rest : List Piece) :
    (rendered s (Position.run { lineStart := false, last := some (.point before) }
      (.text t :: rest)).laid).head? =
        some (if joins before first then CodePoint.ofChar ' ' else first) := by
  rw [rendered_text (Position.isPlain_point {lineStart := false} before) rfl hfirst hlast]
  by_cases hjoins : joins before first
  · have hgap : Position.gap { lineStart := false, last := some (.point before) } first =
        [⟨.space, { lineStart := false, last := some (.point before) }⟩] := if_pos hjoins
    rw [Position.begun, hgap, if_pos hjoins]
    rfl
  · have hgap : Position.gap { lineStart := false, last := some (.point before) } first = [] :=
      if_neg hjoins
    rw [Position.begun, hgap, if_neg hjoins]
    simp [rendered, hfirst]

theorem IsName.goes_on {t rest : Text} {c : CodePoint} (ht : IsName α t)
    (h : IsName α (t ++ c :: rest)) : (α.continues c || c.is '\\') = true := by
  by_contra hstops
  simp only [Bool.or_eq_true, not_or, Bool.not_eq_true] at hstops
  have hstep : State.step α ⟨[], t, .word⟩ c = ⟨[t], [c], first α c⟩ := by
    simp [State.step, next, hstops.1, hstops.2, State.endsBefore, State.taken, Phase.isComplete,
      Phase.isDropped, Phase.isNumber]
  have hlength : 1 < t.length + 1 := by
    obtain ⟨d, hd, -⟩ := ht.head
    cases t with
    | nil => cases hd
    | cons d t => simp
  have hscan : (scan α ⟨[t], [c], first α c⟩ rest).phase.isWord = false ∨
      (scan α ⟨[t], [c], first α c⟩ rest).pending.length < t.length + 1 + rest.length :=
    not_word_of_scan (Nat.succ_pos t.length) (.inr hlength)
  unfold IsName at ht h
  rw [scan_append, ht, scan_cons, hstep] at h
  rw [h] at hscan
  rcases hscan with hscan | hscan
  · cases hscan
  · simp at hscan
    omega

theorem IsName.getLast? {t : Text} (h : IsName α t) :
    ∃ last, t.getLast? = some last ∧ isWordPoint last = true := by
  have hmeets := h.meets
  rw [h] at hmeets
  cases hlast : t.getLast? with
  | none => simp [State.meets, State.endsOperand, State.endsInWord, hlast] at hmeets
  | some last =>
    refine ⟨last, rfl, ?_⟩
    simpa [State.meets, State.endsOperand, State.endsInWord, hlast, Phase.isWhole] using hmeets

theorem isMisread_iff {t : Text} :
    isMisread α t = true ↔ t.head?.any (·.is '\x7b') = true ∨ ∃ rest,
      t = "function" ++ rest ∧ rest.head?.any (fun c => α.continues c || c.is '\\') = false := by
  have hlength : (Text.ofString "function").length = 8 := rfl
  rw [isMisread, Bool.or_eq_true, Bool.and_eq_true, Bool.not_eq_true', Text.startsWith,
    List.isPrefixOf_iff_prefix]
  refine or_congr_right ?_
  constructor
  · rintro ⟨⟨rest, rfl⟩, hends⟩
    rw [List.drop_left' hlength] at hends
    exact ⟨rest, rfl, hends⟩
  · rintro ⟨rest, rfl, hends⟩
    rw [List.drop_left' hlength]
    exact ⟨List.prefix_append .., hends⟩

theorem isMisread_mark {t : Text} {first : CodePoint} (hfirst : t.head? = some first)
    (h : isOneOf ['\x7b', 'f'] first = false) : isMisread α t = false := by
  by_contra hmisread
  rw [Bool.not_eq_false, isMisread_iff] at hmisread
  rcases hmisread with hbrace | ⟨more, rfl, -⟩
  · rw [hfirst, Option.any_some] at hbrace
    obtain rfl := CodePoint.is_iff.mp hbrace
    cases h
  · obtain rfl := Option.some.inj hfirst
    cases h

/-- A name is not read together with what follows it. -/
theorem isMisread_name {t rest : Text} (h : IsName α t) (hfree : t ≠ Text.ofString "function")
    (hrest : rest.head?.any isWordPoint = false) : isMisread α (t ++ rest) = false := by
  by_contra hmisread
  rw [Bool.not_eq_false, isMisread_iff] at hmisread
  rcases hmisread with hbrace | ⟨more, heq, hends⟩
  · obtain ⟨c, hc, hstarts⟩ := h.head
    rw [List.head?_append_of_ne_nil _ (by rintro rfl; cases hc), hc, Option.any_some] at hbrace
    obtain rfl := CodePoint.is_iff.mp hbrace
    rcases hstarts with hstarts | hstarts <;> cases hstarts
  · have hfunction : IsName α "function" := rfl
    rcases List.append_eq_append_iff.mp heq with ⟨tail, hword, rfl⟩ | ⟨tail, rfl, rfl⟩
    · cases tail with
      | nil => exact hfree (hword.trans (List.append_nil t)).symm
      | cons c tail =>
        have hletters : ∀ d ∈ Text.ofString "function", isWordPoint d = true := by decide
        have hc := hletters c (by simp [hword])
        rw [List.cons_append, List.head?_cons, Option.any_some, hc] at hrest
        cases hrest
    · cases tail with
      | nil => exact hfree (List.append_nil _)
      | cons c tail =>
        have hgoes := hfunction.goes_on h
        rw [List.cons_append, List.head?_cons, Option.any_some, hgoes] at hends
        cases hends

/-- After a word, nothing is written that would be read as part of it. -/
theorem rendered_after_word {last : CodePoint} (hlast : isWordPoint last = true)
    {rest : List Piece} (h : rest.head?.all isMark = true) :
    (rendered s
      (Position.run { lineStart := false, last := some (.point last) } rest).laid).head?.any
      isWordPoint = false := by
  cases rest with
  | nil => rfl
  | cons piece rest =>
    cases piece with
    | text t =>
      obtain ⟨first, _, hfirst, -, hend⟩ := exists_ends h
      rw [head?_rendered_next hfirst hend]
      by_cases hword : isWordPoint first = true
      · rw [if_pos (by simp [joins, hlast, hword])]
        rfl
      · by_cases hjoins : joins last first
        · rw [if_pos hjoins]
          rfl
        · rw [if_neg hjoins]
          simpa using hword
    | _ => cases h

theorem isMisread_rendered {opens : Bool} {pieces : List Piece} (h : Begins α opens pieces) :
    isMisread α (rendered s (Position.run {} pieces).laid) = opens := by
  cases h with
  | nothing => rfl
  | @brace t rest h =>
    obtain ⟨first, last, hfirst, hbrace, hlast⟩ := exists_ends h
    rw [rendered_first hlast, isMisread_iff]
    refine .inl ?_
    rw [List.head?_append, hfirst]
    exact hbrace
  | @function t rest h =>
    obtain ⟨first, last, hfirst, hother, hlast⟩ := exists_ends h
    have hend : (Text.ofString "function").getLast? = some (CodePoint.ofChar 'n') := rfl
    rw [rendered_first hend, isMisread_iff]
    refine .inr ⟨_, rfl, ?_⟩
    rw [head?_rendered_next hfirst hlast]
    obtain ⟨x, hx, rfl⟩ := exists_of_isOneOf hother
    rw [List.mem_cons, List.mem_singleton] at hx
    rcases hx with rfl | rfl <;> rfl
  | @mark piece rest h =>
    cases piece with
    | text t =>
      obtain ⟨first, last, hfirst, hother, hlast⟩ := exists_ends h
      rw [rendered_first hlast]
      exact isMisread_mark (by rw [List.head?_append, hfirst, Option.some_or])
        (by simpa using hother)
    | _ => cases h
  | @name t rest h hfree hrest =>
    obtain ⟨last, hlast, hword⟩ := h.getLast?
    rw [rendered_first hlast]
    exact isMisread_name h hfree (rendered_after_word hword hrest)

end Texts

/-- An expression statement is enclosed exactly if its text would be misread otherwise: what is
told in advance is whether the text of the expression begins with a brace or with the word
`function`. So neither the text of an expression statement does, nor that of an if that prints as
a conditional expression. -/
theorem opensLikeStatement_iff_misread {α : Alphabet} {s : PrintSettings} (hs : s.HasTexts)
    {n : Node Tree} (hkind : n.isExpression = true)
    (h : (Tree.node n).Throughout (Node.IsNamed α)) {text : Text}
    (htext : toSource s (.node n) = .ok text) :
    (opensLikeStatement (.node n) = .ok true ↔ isMisread α text = true) ∧
      (∃ text', toSource s (.node (.expressionStatement (.node n))) = .ok text' ∧
        isMisread α text' = false) ∧
      ∀ test consequent alternate text',
        (Tree.node (.ifStatement test consequent alternate)).Throughout (Node.IsNamed α) →
        becomesConditional s.mode test consequent alternate = .ok true →
        toSource s (.node (.ifStatement test consequent alternate)) = .ok text' →
        isMisread α text' = false := by
  have hslots {t : Tree} (ht : t.Throughout (Node.IsNamed α)) : t.Throughout Node.HasSlots :=
    ht.mono fun n hn => hn.slots
  have hforetold := (foretold_throughout h).here.2 hkind s.mode
  obtain ⟨hfailure, htext⟩ := (toSource_eq_ok_iff hs (hslots h)).mp htext
  refine ⟨?_, ?_, ?_⟩
  · obtain ⟨opens, hopens, hbegins⟩ := hforetold
    have hmisread : isMisread α text = opens := htext ▸ isMisread_rendered hbegins
    rw [hopens, hmisread, Except.ok.injEq]
  · have hstatement : (Tree.node (.expressionStatement (.node n))).Throughout Node.HasSlots :=
      hasSlots_of_filled (NodeSlot.of_has hkind (hslots h))
    have hprints : (script s.mode (.node (.expressionStatement (.node n)))).failure = none := by
      obtain ⟨opens, hopens, -⟩ := hforetold
      rw [script, scriptOr, nodeScript, hopens, given_ok, append_failure, failure_enclosedIf]
      exact (congrArg (· <|> _) hfailure).trans (failure_finish _)
    refine ⟨_, (toSource_eq_ok_iff hs hstatement).mpr ⟨hprints, rfl⟩, ?_⟩
    exact isMisread_rendered (begins_expressionStatement hforetold)
  · intro test consequent alternate text' hthroughout hfolds htext'
    obtain ⟨-, rfl⟩ := (toSource_eq_ok_iff hs (hslots hthroughout)).mp htext'
    exact isMisread_rendered (begins_conditional hthroughout hfolds)

def accessedFunction : Node Tree :=
  .memberExpression (.node (.functionExpression .missing (.list []) (.list [])))
    (.list [.node (.identifier (.ofText "a"))]) (.atom (.bool false))

def accessedChoice : Tree :=
  .node (.ifStatement (.node accessedFunction)
    (.node (.expressionStatement (.node (.identifier (.ofText "a")))))
    (.node (.expressionStatement (.node (.identifier (.ofText "a"))))))

theorem isNamed_of_filled {α : Alphabet} {n : Node Tree} (hkind : n.kind? ≠ some .identifier)
    (h : n.Filled (Node.IsNamed α)) : (Tree.node n).Throughout (Node.IsNamed α) := by
  refine throughout_of_filled (fun _ hslots => ⟨hslots, by simp⟩) (fun hslots => ⟨hslots, ?_⟩) h
  rintro name rfl
  exact absurd rfl hkind

theorem isNamed_accessedFunction :
    (Tree.node accessedFunction).Throughout (Node.IsNamed .ascii) ∧
      accessedChoice.Throughout (Node.IsNamed .ascii) := by
  have hname : (Tree.node (.identifier (.ofText "a"))).Throughout (Node.IsNamed .ascii) := by
    refine throughout_of_filled (fun _ hslots => ⟨hslots, by simp⟩) (fun hslots => ⟨hslots, ?_⟩)
      ⟨_, rfl⟩
    intro name heq
    obtain rfl : Text.ofString "a" = name := by simpa [Tree.ofText] using heq
    exact ⟨rfl, by decide⟩
  have hfunction : (Tree.node (.functionExpression .missing (.list []) (.list []))).Throughout
      (Node.IsNamed .ascii) :=
    isNamed_of_filled (by decide) ⟨.inl rfl, ⟨_, rfl, by simp⟩, ⟨_, rfl, by simp⟩⟩
  have hslot : NodeSlot (Node.IsNamed .ascii) .expression (.node (.identifier (.ofText "a"))) :=
    .of_has rfl hname
  have haccess : (Tree.node accessedFunction).Throughout (Node.IsNamed .ascii) :=
    isNamed_of_filled (by decide)
      ⟨.of_has rfl hfunction, ⟨_, rfl, by simpa using hslot⟩, ⟨_, rfl⟩⟩
  have hbranch : NodeSlot (Node.IsNamed .ascii) .statement
      (.node (.expressionStatement (.node (.identifier (.ofText "a"))))) :=
    .of_has rfl (isNamed_of_filled (by decide) hslot)
  exact ⟨haccess, isNamed_of_filled (by decide) ⟨.of_has rfl haccess, hbranch, hbranch⟩⟩

theorem misread_accessedFunction :
    isMisread .ascii "function()\x7b\x7d.a" = true ∧
      isMisread .ascii "(function()\x7b\x7d.a?a:a);" = false ∧
      toSource { minify := .bool true } accessedChoice = .ok "(function()\x7b\x7d.a?a:a);" ∧
      ∃ text, toSource { minify := .bool true }
          (.node (.expressionStatement (.node accessedFunction))) = .ok text ∧
        isMisread .ascii text = false := by
  have htext : toSource { minify := .bool true } (.node accessedFunction) =
      .ok "function()\x7b\x7d.a" := by decide
  have hchoice : toSource { minify := .bool true } accessedChoice =
      .ok "(function()\x7b\x7d.a?a:a);" := by decide
  obtain ⟨hfunction, hthroughout⟩ := isNamed_accessedFunction
  obtain ⟨hopens, hstatement, hfolds⟩ :=
    opensLikeStatement_iff_misread (s := { minify := .bool true }) ⟨⟨_, rfl⟩, ⟨_, rfl⟩⟩ rfl
      hfunction htext
  exact ⟨hopens.mp rfl, hfolds _ _ _ _ hthroughout (by decide) hchoice, hchoice,
    hstatement⟩

end Lexical

end ScriptTree
