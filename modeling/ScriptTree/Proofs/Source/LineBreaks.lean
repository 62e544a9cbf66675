import ScriptTree.Proofs.Lexical.Opening
import ScriptTree.Proofs.Source.Occurrence

/-!
No line is broken where a reader would end the statement. Whatever lines are broken inside an
expression, it starts and ends in the middle of a line. So what follows the keyword of a jump
stands on its line, and so does an operator after its operand.
-/

namespace ScriptTree

open Exchange

/-- A node that is in place and is seen in source text: an identifier has a name, and a sequence
has expressions. -/
structure Node.IsVisible (n : Node Tree) : Prop where
  slots : n.HasSlots
  name : ∀ name, n = .identifier (.ofText name) → name ≠ []
  expressions : ∀ items, n = .sequenceExpression (.list items) → items ≠ []

/-- The texts that start a jump, and what stands after them on the same line. -/
def Node.jump? : Node Tree → Option (List Text × Tree)
  | .returnStatement argument => some (["return", " "], argument)
  | .throwStatement argument => some (["throw "], argument)
  | .breakStatement label => some (["break", " "], label)
  | .continueStatement label => some (["continue", " "], label)
  | _ => none

namespace Source

open Script

def Script.Opens (s : Script) : Prop :=
  s.failure = none → ∃ t rest, t ≠ [] ∧ s.pieces = .text t :: rest

def Script.Closes (s : Script) : Prop :=
  s.failure = none → ∃ before t, t ≠ [] ∧ s.pieces = before ++ [Piece.text t]

structure Script.InLine (s : Script) : Prop where
  opens : s.Opens
  closes : s.Closes

section Scripts

variable {m : Mode} {a b s : Script}

namespace Script.Opens

theorem write {t : Text} (ht : t ≠ []) : (write t).Opens := fun _ => ⟨t, [], ht, rfl⟩

theorem fail (e : TreeError) : (fail e).Opens := nofun

theorem append (ha : a.Opens) (b : Script) : (a ++ b).Opens := by
  intro h
  obtain ⟨t, rest, ht, hpieces⟩ := ha (failure_left h)
  exact ⟨t, rest ++ b.pieces, ht, by rw [append_pieces (failure_left h), hpieces]; rfl⟩

end Script.Opens

namespace Script.Closes

theorem write {t : Text} (ht : t ≠ []) : (write t).Closes := fun _ => ⟨[], t, ht, rfl⟩

theorem fail (e : TreeError) : (fail e).Closes := nofun

theorem after (a : Script) (hb : b.Closes) : (a ++ b).Closes := by
  intro h
  obtain ⟨before, t, ht, hpieces⟩ := hb (failure_right h)
  exact ⟨a.pieces ++ before, t, ht, by
    rw [append_pieces (failure_left h), hpieces, List.append_assoc]⟩

/-- The statements of a function expression, between braces. -/
theorem braces (isEmpty : Bool) (inner : Script) :
    (m.braces false false isEmpty inner).Closes := by
  cases isEmpty with
  | true => exact after _ (write (by decide))
  | false => exact after _ (after _ (write (by decide)))

end Script.Closes

namespace Script.InLine

theorem write {t : Text} (ht : t ≠ []) : (write t).InLine := ⟨.write ht, .write ht⟩

theorem fail (e : TreeError) : (fail e).InLine := ⟨.fail e, .fail e⟩

theorem given {α : Type} {result : Except TreeError α} {s : α → Script}
    (h : ∀ value, result = .ok value → (s value).InLine) : (given result s).InLine := by
  cases result with
  | ok value => exact h value rfl
  | error e => exact fail e

theorem enclosedIf (condition : Bool) (h : s.InLine) : (enclosedIf condition s).InLine := by
  cases condition with
  | false => exact h
  | true =>
    exact ⟨.append (.append (.write (by decide)) _) _, .after _ (.write (by decide))⟩

theorem bracketed {t u : Text} (ht : t ≠ []) (hu : u ≠ []) (inner : Script) :
    (Source.bracketed m t u inner).InLine := by
  have hopening : (if m.isMinified then Script.write t else line t ++ deeper).Opens := by
    cases m with
    | pretty => exact .append (.append (.write ht) _) _
    | minified => exact .write ht
  exact ⟨((hopening.append _).append _).append _, .after _ (.write hu)⟩

end Script.InLine

theorem literal_ne_nil {value : Tree} {t : Text} (h : literal value = .ok t) : t ≠ [] := by
  rintro rfl
  cases Lexical.literal_begins (α := ⟨fun _ => false, fun _ => false⟩) h with
  | mark h => cases h
  | name h => cases h

end Scripts

/-! ### Expressions -/

section Trees

variable {P : Node Tree → Prop} {m : Mode} {t : Tree} {l : Listing} {items : List Tree}

variable (hP : ∀ n, P n → n.HasSlots)
  (hinLine : ∀ n, P n → n.isExpression = true → (nodeScript m n).InLine)

include hinLine

theorem inLine_slot {missing : Script} (h : NodeSlot P .expression t) (hmissing : missing.InLine) :
    (scriptOr m missing t).InLine := by
  rcases h with rfl | ⟨n, rfl, hkind, hn⟩
  · exact hmissing
  · exact hinLine n hn.here hkind

/-- An expression in a place, enclosed if the place refuses it. -/
theorem inLine_placed (refused : Bool) (h : NodeSlot P .expression t) (owner field : String) :
    (enclosedIf refused (scriptOr m (absent owner field) t)).InLine :=
  .enclosedIf _ (inLine_slot hinLine h (.fail _))

/-- An access and an expression of a sequence. -/
theorem inLine_item (hl : l = .indices ∨ l = .names ∨ l = .expressions)
    (h : NodeSlot P .expression t) : (l.item m t).InLine := by
  have habsent : (l.absent m).InLine := by
    rcases hl with rfl | rfl | rfl <;> exact .fail _
  have hslot := inLine_slot hinLine h habsent
  unfold Listing.item
  split
  · exact .fail _
  · rcases hl with rfl | rfl | rfl
    · exact ⟨.append (.append (.write (by decide)) _) _, .after _ (.write (by decide))⟩
    · have hclosing : Listing.names.closing = empty := rfl
      rw [hclosing, append_empty]
      exact ⟨.append (.write (by decide)) _, .after _ hslot.closes⟩
    · have hclosing : Listing.expressions.closing = empty := rfl
      rw [hclosing, append_empty]
      exact hslot

include hP

/-- The last of the items comes last. -/
theorem closes_items (hl : l = .indices ∨ l = .names ∨ l = .expressions)
    (h : ∀ item ∈ items, NodeSlot P .expression item) (hne : items ≠ []) (first : Bool) :
    (itemScripts m l first items).Closes := by
  induction items generalizing first with
  | nil => exact absurd rfl hne
  | cons t rest ih =>
    have ht := h t List.mem_cons_self
    have hcategory : l.category = .expression := by rcases hl with rfl | rfl | rfl <;> rfl
    rw [itemScripts_cons hP first rest (hcategory ▸ ht)]
    cases rest with
    | nil =>
      rw [itemScripts, append_empty]
      exact .after _ (inLine_item hinLine hl ht).closes
    | cons u rest =>
      exact .after _ (ih (fun item hitem => h item (List.mem_cons_of_mem t hitem))
        (List.cons_ne_nil u rest) false)

/-- The script of an expression starts and ends in the middle of a line if those of its parts
do. -/
theorem inLine_node {n : Node Tree} (hn : n.IsVisible) (hkind : n.isExpression = true)
    (h : n.Filled P) : (nodeScript m n).InLine := by
  cases n with
  | bare cls => exact .fail _
  | identifier name =>
    obtain ⟨text, rfl⟩ : ∃ text, name = .ofText text := h
    exact .write (hn.name text rfl)
  | literal value => exact .given fun t ht => .write (literal_ne_nil ht)
  | thisExpression => exact .write (by decide)
  | arrayExpression elements =>
    rw [nodeScript]
    split
    · exact .write (by decide)
    · exact .bracketed (by decide) (by decide) _
  | objectExpression properties =>
    rw [nodeScript]
    split
    · exact .write (by decide)
    · exact .bracketed (by decide) (by decide) _
  | functionExpression id params body =>
    exact ⟨.append (.append (.append (.append (.append (.write (by decide)) _) _) _) _) _,
      .after _ (.braces _ _)⟩
  | unaryExpression operator argument =>
    obtain ⟨⟨op, rfl⟩, hargument⟩ : (∃ op, operator = .ofMember (.unaryOperator op)) ∧
      NodeSlot P .expression argument := h
    have hoperand := inLine_placed hinLine (Place.operand.refuses argument) hargument
      "UnaryExpression" "argument"
    rw [nodeScript_unary]
    split
    · refine ⟨.append (.write ?_) _, .after _ hoperand.closes⟩
      cases op <;> decide
    · refine ⟨.append hoperand.opens _, .after _ (.write ?_)⟩
      cases op <;> decide
  | binaryExpression left operator right =>
    rw [nodeScript]
    exact .given fun token _ =>
      ⟨.append (.append (.append (.write (by decide)) _) _) _, .after _ (.write (by decide))⟩
  | memberExpression object indices computed =>
    obtain ⟨hobject, ⟨items, rfl, hitems⟩, -⟩ : NodeSlot P .expression object ∧
      ListSlot P .expression indices ∧ _ := h
    have hfirst := inLine_placed hinLine ((Place.object computed.isTrue).refuses object) hobject
      "MemberExpression" "object"
    rw [nodeScript]
    refine ⟨.append hfirst.opens _, ?_⟩
    cases items with
    | nil =>
      have hnothing (l : Listing) : listScript m l (.list []) = empty := rfl
      rw [hnothing, append_empty]
      exact hfirst.closes
    | cons t rest =>
      refine .after _ ?_
      split
      · exact closes_items hP hinLine (.inl rfl) hitems (List.cons_ne_nil t rest) true
      · exact closes_items hP hinLine (.inr (.inl rfl)) hitems (List.cons_ne_nil t rest) true
  | conditionalExpression test consequent alternate =>
    obtain ⟨htest, -, halternate⟩ : NodeSlot P .expression test ∧
      NodeSlot P .expression consequent ∧ NodeSlot P .expression alternate := h
    have hfirst := inLine_placed hinLine (Place.operand.refuses test) htest
      "ConditionalExpression" "test"
    have hlast := inLine_placed hinLine (Place.item.refuses alternate) halternate
      "ConditionalExpression" "alternate"
    exact ⟨.append (.append (.append (.append hfirst.opens _) _) _) _, .after _ hlast.closes⟩
  | callExpression callee arguments =>
    have hcallee : NodeSlot P .expression callee := h.1
    have hfirst := inLine_placed hinLine (Place.callee.refuses callee) hcallee
      "CallExpression" "callee"
    exact ⟨.append (.append (.append hfirst.opens _) _) _, .after _ (.write (by decide))⟩
  | newExpression callee arguments =>
    exact ⟨.append (.append (.append (.append (.write (by decide)) _) _) _) _,
      .after _ (.write (by decide))⟩
  | sequenceExpression expressions =>
    obtain ⟨items, rfl, hitems⟩ : ListSlot P .expression expressions := h
    have hne := hn.expressions items rfl
    rw [nodeScript, listScript]
    refine ⟨?_, closes_items hP hinLine (.inr (.inr rfl)) hitems hne true⟩
    cases items with
    | nil => exact absurd rfl hne
    | cons t rest =>
      have hfirst := inLine_slot hinLine (hitems t List.mem_cons_self)
        (.fail (.required "SequenceExpression" "expressions"))
      rw [itemScripts]
      exact .append hfirst.opens _
  | _ => cases hkind

omit hP hinLine

/-- The expressions of a tree that is in place and visible start and end in the middle of a
line. -/
theorem inLine_throughout (h : t.Throughout Node.IsVisible) :
    t.Throughout fun n => n.IsVisible ∧ (n.isExpression = true → (nodeScript m n).InLine) :=
  h.strengthen (fun _ hn => hn.slots) fun _ hn hfilled hkind =>
    inLine_node (fun _ hn => hn.1.slots) (fun _ hn => hn.2) hn hkind hfilled

end Trees

/-! ### Layouts -/

def Layout.chunks (layout : Layout) : List Chunk := layout.laid.map Laid.chunk

structure Layout.IsInLine (layout : Layout) : Prop where
  first : ∃ chunk, layout.chunks.head? = some chunk ∧ chunk ≠ .lineEnd
  last : ∃ chunk, layout.chunks.getLast? = some chunk ∧ chunk ≠ .lineEnd
  position : layout.position.lineStart = false

def Position.layout (p : Position) (n : Node Tree) : Layout := p.run (nodeScript .pretty n).pieces

/-- What is laid out for a node from a position: an expression starts and ends in the middle of
a line, what follows the keyword of a jump directly follows it on its line, and no line ends
before an operator that stands after its operand. -/
structure Position.Unbroken (p : Position) (n : Node Tree) : Prop where
  expression : n.isExpression = true → (p.layout n).IsInLine
  operand : ∀ texts operand, n.jump? = some (texts, .node operand) →
    ∃ before after, ∃ q : Position, (p.layout n).chunks =
      before ++ texts.map .text ++ (q.layout operand).chunks ++ after ∧
        .lineEnd ∉ before ∧ (q.layout operand).IsInLine
  operator : ∀ op argument,
    n = .unaryExpression (.ofMember (.unaryOperator op)) argument → op.isBefore = false →
      ∃ before chunk, (p.layout n).chunks = before ++ [chunk, .text op.token] ∧ chunk ≠ .lineEnd

section Layouts

variable {p : Position} {a b c s : Script}

namespace Position

/-- No line ends in what the layout adds before a text. -/
theorem lineEnd_notMem_before (p : Position) (first : CodePoint) :
    .lineEnd ∉ (p.indentation ++ p.indented.gap first).map Laid.chunk := by
  rw [List.map_append, List.mem_append]
  rintro (h | h)
  · unfold indentation at h
    split at h <;> simp at h
  · unfold gap at h
    split at h
    · split at h <;> simp at h
    · simp at h

/-- A blank needs no space before it. -/
theorem gap_blank (p : Position) : p.gap (CodePoint.ofChar ' ') = [] := by
  have hword : isWordPoint (CodePoint.ofChar ' ') = false := by decide
  have hexclamation : (CodePoint.ofChar ' ').is '!' = false := by decide
  unfold gap
  split
  · next last _ =>
    have hsame : last = CodePoint.ofChar ' ' →
        (last.is '+' || last.is '-' || last.is '/') = false := by
      rintro rfl
      decide
    have hjoins : joins last (CodePoint.ofChar ' ') = false := by
      simp [joins, hword, hexclamation]
      simpa using hsame
    rw [hjoins, if_neg Bool.false_ne_true]
  · rfl

/-- How a text is laid out that is written last. -/
theorem run_last (hp : p.IsPlain) {before : List Piece} {t : Text} {first : CodePoint}
    (hfirst : t.head? = some first) (h : ∀ piece ∈ before, piece.isAllowed .pretty = true) :
    (p.run (before ++ [Piece.text t])).chunks =
        (p.run before).chunks ++ ((p.run before).position.indentation ++
          (p.run before).position.indented.gap first).map Laid.chunk ++ [Chunk.text t] ∧
      (p.run (before ++ [Piece.text t])).position.lineStart = false := by
  have hruns := run_isPlain hp h
  obtain ⟨last, hlast⟩ : ∃ last, t.getLast? = some last :=
    Option.ne_none_iff_exists'.mp fun hnone => by simp_all
  rw [run_append p before _ hruns.failure, run_text hruns.position hfirst hlast []]
  exact ⟨by simp [Layout.chunks, run], rfl⟩

/-- What is laid out for a script in the middle of two others. -/
theorem laid_between (hp : p.IsPlain) (h : (a ++ b ++ c).failure = none)
    (hallowed : ∀ piece ∈ (a ++ b ++ c).pieces, piece.isAllowed .pretty = true) :
    (p.run (a ++ b ++ c).pieces).laid =
      (p.run a.pieces).laid ++ ((p.run a.pieces).position.run b.pieces).laid ++
        (((p.run a.pieces).position.run b.pieces).position.run c.pieces).laid := by
  have hpieces : (a ++ b ++ c).pieces = a.pieces ++ (b.pieces ++ c.pieces) := by
    rw [append_pieces (failure_left h), append_pieces (failure_left (failure_left h)),
      List.append_assoc]
  rw [hpieces, List.forall_mem_append, List.forall_mem_append] at hallowed
  have hfirst := run_isPlain hp hallowed.1
  have hsecond := run_isPlain hfirst.position hallowed.2.1
  rw [hpieces, run_append p _ _ hfirst.failure, run_append _ _ _ hsecond.failure,
    List.append_assoc]

/-- What is written in the middle of a line is laid out there. -/
theorem run_isInLine (hp : p.IsPlain) (hs : s.InLine) (hfailure : s.failure = none)
    (hallowed : ∀ piece ∈ s.pieces, piece.isAllowed .pretty = true) :
    (p.run s.pieces).IsInLine := by
  obtain ⟨before, u, hu, hclosing⟩ := hs.closes hfailure
  obtain ⟨first, u, rfl⟩ := List.exists_cons_of_ne_nil hu
  have hhead : (first :: u).head? = some first := rfl
  have hinitial : ∀ piece ∈ before, piece.isAllowed .pretty = true := fun piece hpiece =>
    hallowed piece (hclosing ▸ List.mem_append_left _ hpiece)
  obtain ⟨hchunks, hline⟩ := run_last hp hhead hinitial
  refine ⟨?_, ⟨.text (first :: u), by rw [hclosing, hchunks]; simp, by simp⟩,
    by rw [hclosing, hline]⟩
  obtain ⟨t, rest, ht, hopening⟩ := hs.opens hfailure
  obtain ⟨first, t, rfl⟩ := List.exists_cons_of_ne_nil ht
  have hbefore := lineEnd_notMem_before p first
  rw [hopening, run_text hp rfl (List.getLast?_eq_some_getLast ht), Layout.chunks, List.map_append]
  cases hstart : (p.indentation ++ p.indented.gap first).map Laid.chunk with
  | nil => exact ⟨_, rfl, by simp⟩
  | cons chunk more =>
    rw [hstart] at hbefore
    exact ⟨chunk, rfl, fun h => hbefore (h ▸ List.mem_cons_self)⟩

/-- A text after what is laid out in the middle of a line does not follow a line end. -/
theorem run_following (hp : p.IsPlain) {before : List Piece} {t : Text} (ht : t ≠ [])
    (h : ∀ piece ∈ before, piece.isAllowed .pretty = true) (hbefore : (p.run before).IsInLine) :
    ∃ chunks chunk, (p.run (before ++ [Piece.text t])).chunks = chunks ++ [chunk, Chunk.text t] ∧
      chunk ≠ .lineEnd := by
  obtain ⟨first, t, rfl⟩ := List.exists_cons_of_ne_nil ht
  have hindentation : (p.run before).position.indentation = [] := by
    simp [indentation, hbefore.position]
  rw [(run_last hp rfl h).1, hindentation, List.nil_append]
  obtain ⟨chunk, hlast, hchunk⟩ := hbefore.last
  obtain ⟨chunks, hchunks⟩ := List.getLast?_eq_some_iff.mp hlast
  unfold gap
  split
  · split
    · exact ⟨(p.run before).chunks, .space, by simp, by simp⟩
    · exact ⟨chunks, chunk, by simp [hchunks], hchunk⟩
  · exact ⟨chunks, chunk, by simp [hchunks], hchunk⟩

/-- A word and a blank after it are laid out next to each other. -/
theorem run_word (hp : p.IsPlain) {word : Text} (hword : word ≠ []) {texts : List Text}
    (htexts : texts = [word] ∨ texts = [word, " "]) :
    ∃ before, (p.run (texts.map .text)).chunks = before ++ texts.map .text ∧
      .lineEnd ∉ before := by
  obtain ⟨first, word, rfl⟩ := List.exists_cons_of_ne_nil hword
  have hlast := List.getLast?_eq_some_getLast hword
  refine ⟨(p.indentation ++ p.indented.gap first).map Laid.chunk, ?_, lineEnd_notMem_before p first⟩
  rcases htexts with rfl | rfl
  · rw [List.map_cons, run_text hp rfl hlast]
    simp [Layout.chunks, run]
  · rw [List.map_cons, run_text hp rfl hlast, List.map_singleton]
    have hhead : (Text.ofString " ").head? = some (CodePoint.ofChar ' ') := rfl
    have hblank (c : CodePoint) := run_text (isPlain_ended p c) hhead rfl []
    have hindentation (c : CodePoint) : (p.ended c).indentation = [] := rfl
    rw [hblank, gap_blank, hindentation]
    simp [Layout.chunks, run]

end Position

end Layouts

/-! ### Jumps and operators -/

section Nodes

variable {p : Position} {n : Node Tree}

/-- A jump to a label. -/
theorem jumpTo_label (keyword : String) {operand : Node Tree}
    (h : NodeSlot Node.HasSlots .identifier (.node operand)) :
    jumpTo .pretty keyword (.node operand) = ofPieces ([Text.ofString keyword, " "].map .text) ++
      nodeScript .pretty operand ++ line ";" := by
  rcases h.name fun _ => id with h | ⟨name, h⟩
  · cases h
  · obtain rfl := Tree.node.inj h
    rfl

/-- How a jump is printed that has an operand. -/
theorem nodeScript_jump {texts : List Text} {operand : Node Tree}
    (hn : (Tree.node n).Throughout Node.HasSlots) (h : n.jump? = some (texts, .node operand)) :
    nodeScript .pretty n =
      ofPieces (texts.map .text) ++ nodeScript .pretty operand ++ line ";" := by
  have hfilled := hn.filled fun _ => id
  cases n with
  | returnStatement argument =>
    obtain ⟨rfl, rfl⟩ := Prod.mk.inj (Option.some.inj h)
    exact congrArg (· ++ line ";") (append_assoc (write "return") (write " ") _).symm
  | throwStatement argument =>
    obtain ⟨rfl, rfl⟩ := Prod.mk.inj (Option.some.inj h)
    rfl
  | breakStatement label =>
    obtain ⟨rfl, rfl⟩ := Prod.mk.inj (Option.some.inj h)
    exact jumpTo_label "break" hfilled
  | continueStatement label =>
    obtain ⟨rfl, rfl⟩ := Prod.mk.inj (Option.some.inj h)
    exact jumpTo_label "continue" hfilled
  | _ => cases h

theorem jump_word {texts : List Text} {operand : Tree} (h : n.jump? = some (texts, operand)) :
    ∃ word : Text, word ≠ [] ∧ (texts = [word] ∨ texts = [word, " "]) := by
  unfold Node.jump? at h
  split at h
  · cases h
    exact ⟨"return", by decide, .inr rfl⟩
  · cases h
    exact ⟨"throw ", by decide, .inl rfl⟩
  · cases h
    exact ⟨"break", by decide, .inr rfl⟩
  · cases h
    exact ⟨"continue", by decide, .inr rfl⟩
  · cases h

theorem allowed_node (hn : (Tree.node n).Throughout Node.HasSlots) :
    ∀ piece ∈ (nodeScript .pretty n).pieces, piece.isAllowed .pretty = true := by
  have hlevel := (level_script hn .pretty).allowed
  rwa [script, scriptOr] at hlevel

/-- What a jump takes along is an expression: a label is an identifier. -/
theorem jump_operand {P : Node Tree → Prop} (hP : ∀ n, P n → n.HasSlots) {texts : List Text}
    {operand : Node Tree} (hn : (Tree.node n).Throughout P)
    (h : n.jump? = some (texts, .node operand)) :
    operand.isExpression = true ∧ (Tree.node operand).Throughout P := by
  have hfilled := hn.filled hP
  have hexpression (h : NodeSlot P .expression (.node operand)) :
      operand.isExpression = true ∧ (Tree.node operand).Throughout P := by
    rcases h with h | ⟨_, h, hkind, hn⟩
    · cases h
    · obtain rfl := Tree.node.inj h
      exact ⟨hkind, hn⟩
  have hlabel (h : NodeSlot P .identifier (.node operand)) :
      operand.isExpression = true ∧ (Tree.node operand).Throughout P := by
    refine ⟨?_, (fits_of_nodeSlot h).2⟩
    rcases h.name hP with h | ⟨name, h⟩
    · cases h
    · obtain rfl := Tree.node.inj h
      rfl
  cases n with
  | returnStatement argument =>
    obtain ⟨rfl, rfl⟩ := Prod.mk.inj (Option.some.inj h)
    exact hexpression hfilled
  | throwStatement argument =>
    obtain ⟨rfl, rfl⟩ := Prod.mk.inj (Option.some.inj h)
    exact hexpression hfilled
  | breakStatement label =>
    obtain ⟨rfl, rfl⟩ := Prod.mk.inj (Option.some.inj h)
    exact hlabel hfilled
  | continueStatement label =>
    obtain ⟨rfl, rfl⟩ := Prod.mk.inj (Option.some.inj h)
    exact hlabel hfilled
  | _ => cases h

/-- An expression is laid out in the middle of a line. -/
theorem expression_isInLine (hp : p.IsPlain) (hn : (Tree.node n).Throughout Node.IsVisible)
    (hkind : n.isExpression = true) (hfailure : (nodeScript .pretty n).failure = none) :
    (p.layout n).IsInLine :=
  Position.run_isInLine hp ((inLine_throughout hn).here.2 hkind) hfailure
    (allowed_node (hn.mono fun _ h => h.slots))

/-- What a jump takes along follows its keyword on the same line. -/
theorem operand_isInLine (hp : p.IsPlain) (hn : (Tree.node n).Throughout Node.IsVisible)
    (hfailure : (nodeScript .pretty n).failure = none) {texts : List Text} {operand : Node Tree}
    (hjump : n.jump? = some (texts, .node operand)) :
    ∃ before after, ∃ q : Position, (p.layout n).chunks =
      before ++ texts.map .text ++ (q.layout operand).chunks ++ after ∧
        .lineEnd ∉ before ∧ (q.layout operand).IsInLine := by
  have hscript := nodeScript_jump (hn.mono fun _ h => h.slots) hjump
  obtain ⟨word, hword, htexts⟩ := jump_word hjump
  obtain ⟨before, hchunks, hbefore⟩ := Position.run_word hp hword htexts
  obtain ⟨hkind, hoperand⟩ := jump_operand (fun _ h => h.slots) hn hjump
  have hallowed : ∀ piece ∈ (nodeScript .pretty n).pieces, piece.isAllowed .pretty = true :=
    allowed_node (hn.mono fun _ h => h.slots)
  rw [hscript] at hfailure hallowed
  have hwords : ∀ piece ∈ texts.map Piece.text, piece.isAllowed .pretty = true := by
    simp [Piece.isAllowed]
  have hinner := failure_right (failure_left hfailure)
  have hlaid := Position.laid_between hp hfailure hallowed
  refine ⟨before, ((((p.run (texts.map .text)).position.layout operand).position.run
      (line ";").pieces).laid).map Laid.chunk, (p.run (texts.map .text)).position, ?_, hbefore,
    expression_isInLine (Position.run_isPlain hp hwords).position hoperand hkind hinner⟩
  rw [Layout.chunks] at hchunks
  rw [Layout.chunks, Position.layout, hscript, hlaid, ofPieces_pieces, List.map_append,
    List.map_append, hchunks]
  rfl

/-- No line ends before an operator that stands after its operand. -/
theorem operator_follows (hp : p.IsPlain) {op : UnaryOperator} {argument : Tree}
    (h : n = .unaryExpression (.ofMember (.unaryOperator op)) argument)
    (hn : (Tree.node n).Throughout Node.IsVisible)
    (hfailure : (nodeScript .pretty n).failure = none) (hop : op.isBefore = false) :
    ∃ before chunk, (p.layout n).chunks = before ++ [chunk, .text op.token] ∧
      chunk ≠ .lineEnd := by
  have hallowed : ∀ piece ∈ (nodeScript .pretty n).pieces, piece.isAllowed .pretty = true :=
    allowed_node (hn.mono fun _ h => h.slots)
  have hscript : nodeScript .pretty n =
      enclosedIf (Place.operand.refuses argument)
        (scriptOr .pretty (absent "UnaryExpression" "argument") argument) ++ write op.token := by
    rw [h, nodeScript_unary, if_neg (by rw [hop]; exact Bool.false_ne_true)]
  have hoperand : (enclosedIf (Place.operand.refuses argument)
      (scriptOr .pretty (absent "UnaryExpression" "argument") argument)).InLine := by
    have hfilled := (inLine_throughout (m := .pretty) hn).filled fun _ h => h.1.slots
    subst h
    exact inLine_placed (fun _ h => h.2) _ hfilled.2 _ _
  have htoken : Text.ofString op.token ≠ [] := by cases op <;> decide
  rw [hscript] at hfailure hallowed
  rw [append_pieces (failure_left hfailure)] at hallowed
  have hbefore := fun piece hpiece => hallowed piece (List.mem_append_left _ hpiece)
  rw [Position.layout, hscript, append_pieces (failure_left hfailure)]
  exact Position.run_following hp htoken hbefore
    (Position.run_isInLine hp hoperand (failure_left hfailure) hbefore)

theorem unbroken_node (hp : p.IsPlain) (hn : (Tree.node n).Throughout Node.IsVisible)
    (hfailure : (nodeScript .pretty n).failure = none) : p.Unbroken n where
  expression := fun hkind => expression_isInLine hp hn hkind hfailure
  operand := fun _ _ hjump => operand_isInLine hp hn hfailure hjump
  operator := fun _ _ h hop => operator_follows hp h hn hfailure hop

end Nodes

/-! ### Whole trees -/

section Trees

variable {n : Node Tree} {t : Tree}

/-- Pretty printing breaks no line where a reader would end the statement: wherever the script of
an expression or a jump stands in that of the tree, what is laid out for it is unbroken. -/
theorem lines_unbroken (ht : t.Throughout Node.IsVisible) {p : Position} (hp : p.IsPlain)
    (hprint : (p.print .pretty t).failure = none) (hn : n.isFixed = true)
    (hprinted : n.PrintedIn t) :
    (∃ before after, script .pretty t = before ++ nodeScript .pretty n ++ after) ∧
      ∀ before after, script .pretty t = before ++ nodeScript .pretty n ++ after →
        let q := (p.run before.pieces).position
        (p.print .pretty t).laid = (p.run before.pieces).laid ++ (q.layout n).laid ++
            ((q.layout n).position.run after.pieces).laid ∧
          q.Unbroken n := by
  have hslots := ht.mono fun _ h => h.slots
  have hn' := throughout_printedIn ht hprinted
  have hallowed := (level_script hslots .pretty).allowed
  have hruns := Position.run_isPlain hp hallowed
  have hfailure : (script .pretty t).failure = none := by
    simpa [Position.print, hruns.failure] using hprint
  refine ⟨includes_script hslots hn hprinted hfailure, fun before after hscript => ?_⟩
  rw [hscript] at hfailure hallowed
  have hbefore : ∀ piece ∈ before.pieces, piece.isAllowed .pretty = true := by
    intro piece hpiece
    refine hallowed piece ?_
    rw [append_pieces (failure_left hfailure), append_pieces (failure_left (failure_left hfailure))]
    exact List.mem_append_left _ (List.mem_append_left _ hpiece)
  have hlaid := Position.laid_between hp hfailure hallowed
  rw [← hscript] at hlaid
  exact ⟨hlaid, unbroken_node (Position.run_isPlain hp hbefore).position hn'
    (failure_right (failure_left hfailure))⟩

def advancedCounter : Tree :=
  .node (.unaryExpression (.ofMember (.unaryOperator .postIncrement))
    (.node (.identifier (.ofText (Text.ofString "i")))))

def returnedCounter : Node Tree :=
  .returnStatement (.node (.arrayExpression (.list [advancedCounter])))

theorem isVisible_returnedCounter :
    (Tree.node (.blockStatement (.list [.node returnedCounter]))).Throughout Node.IsVisible := by
  have hcounter : NodeSlot Node.HasSlots .expression advancedCounter :=
    .of_has rfl (hasSlots_of_filled ⟨⟨_, rfl⟩, .of_has rfl (hasSlots_of_filled ⟨_, rfl⟩)⟩)
  have hlist : NodeSlot Node.HasSlots .expression
      (.node (.arrayExpression (.list [advancedCounter]))) :=
    .of_has rfl (hasSlots_of_filled ⟨_, rfl, by simpa using hcounter⟩)
  have hjump : NodeSlot Node.HasSlots .statement (.node returnedCounter) :=
    .of_has rfl (hasSlots_of_filled hlist)
  have hslots : (Tree.node (.blockStatement (.list [.node returnedCounter]))).Throughout
      Node.HasSlots := hasSlots_of_filled ⟨_, rfl, by simpa using hjump⟩
  have hname : Text.ofString "i" ≠ [] := by decide
  have hseen : (Tree.node (.blockStatement (.list [.node returnedCounter]))).Throughout fun n =>
      (∀ name, n = .identifier (.ofText name) → name ≠ []) ∧
        ∀ items, n = .sequenceExpression (.list items) → items ≠ [] := by
    simp [returnedCounter, advancedCounter, throughout_node, Node.entries, Tree.ofText,
      Tree.ofMember, hname]
  exact (hslots.and hseen).mono fun n h => ⟨h.1, h.2.1, h.2.2⟩

theorem lines_unbroken_returnedCounter :
    let t : Tree := .node (.blockStatement (.list [.node returnedCounter]))
    toSource {} t = .ok "\x7b\n    return [\n        i++\n    ];\n\x7d\n" ∧
      ∃ before after, script .pretty t = before ++ nodeScript .pretty returnedCounter ++ after ∧
        (Position.run {} before.pieces).position.Unbroken returnedCounter := by
  intro t
  obtain ⟨⟨before, after, hscript⟩, hunbroken⟩ := lines_unbroken isVisible_returnedCounter
    Position.isPlain_start (by decide) (n := returnedCounter) rfl
    (.part (List.mem_singleton_self _) (.item (List.mem_singleton_self _) .here))
  exact ⟨by decide, before, after, hscript, (hunbroken before after hscript).2⟩

end Trees

end Source

end ScriptTree
