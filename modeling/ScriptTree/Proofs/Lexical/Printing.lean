import ScriptTree.Proofs.Lexical.Reading
import ScriptTree.Proofs.Lexical.Rewrites

/-!
The tokens of source text are the same in both modes. Each node is read from whatever may
stand before it to what it ends with, from the leaves up. Two neighbours are not kept apart: a
whole number and the point of an access by name, where an access by no index at all hides the
number, and the words `else` and `do` and a name that starts with an escape.
-/

namespace ScriptTree

open Source

/-- An expression that prints as a whole number without parentheses around it: such a number, or
an access to one that has no indices. -/
def isBareWhole : Tree → Bool
  | .node (.literal (.atom a)) => (numberText? a).any Lexical.isWholeText
  | .node (.memberExpression object (.list []) computed) =>
    !(Place.object computed.isTrue).refuses object && isBareWhole object
  | _ => false

def opensWithEscape : Tree → Bool
  | .node (.identifier (.atom (.text name))) => name.head?.any (·.is '\\')
  | .node (.memberExpression object _ computed) =>
    !(Place.object computed.isTrue).refuses object && opensWithEscape object
  | .node (.callExpression callee _) => !Place.callee.refuses callee && opensWithEscape callee
  | .node (.conditionalExpression test _ _) => !Place.operand.refuses test && opensWithEscape test
  | .node (.sequenceExpression (.list (first :: _))) => opensWithEscape first
  | .node (.unaryExpression (.atom (.member (.unaryOperator op))) argument) =>
    !op.isBefore && !Place.operand.refuses argument && opensWithEscape argument
  | .node (.expressionStatement expression) => opensWithEscape expression
  | .node (.labeledStatement label _) => opensWithEscape label
  | _ => false

namespace Node

/-- An access by name to what prints as a whole number: the point is read as part of it. -/
def accessesWhole : Node Tree → Bool
  | .memberExpression object (.list (_ :: _)) computed =>
    !computed.isTrue && !(Place.object false).refuses object && isBareWhole object
  | _ => false

/-- What follows `else` or `do` opens with an escape, which is read as part of the word. -/
def escapesAfterWord : Node Tree → Bool
  | .ifStatement _ _ alternate => opensWithEscape alternate
  | .doWhileStatement body _ => opensWithEscape body
  | _ => false

/-- A node that is in place, with a valid name if it is an identifier, that is no regular
expression and that minifying does not rewrite. -/
structure IsKept (α : Lexical.Alphabet) (n : Node Tree) : Prop where
  slots : n.HasSlots
  name : ∀ name, n = .identifier (.ofText name) → Lexical.IsName α name
  regex : ∀ pattern flags, n ≠ .literal (.regex pattern flags)
  kept : n.isRewritten = false

@[mk_iff]
structure StaysApart (n : Node Tree) : Prop where
  number : n.accessesWhole = false
  escape : n.escapesAfterWord = false

end Node

namespace Lexical

open Script

/-- What may stand before a tree. A part of a node that is no expression and no statement never
follows a word directly. -/
def entry : Tree → Class
  | .node (.program _) | .node (.variableDeclarator ..) | .node (.property ..) => .clear
  | t => if opensWithEscape t then .clear else .any

def exit (t : Tree) : Class :=
  if isBareWhole t then .operand
  else match t with
    | .node (.unaryExpression ..) => .operand
    | .node (.conditionalExpression ..) | .node (.sequenceExpression _)
    | .node (.variableDeclarator ..) | .node (.property ..) => .any
    | .node n => if n.isExpression then .object else .clear
    | _ => .object

section Classes

variable {n : Node Tree} {t : Tree}

theorem entry_cases (t : Tree) : entry t = .clear ∨ entry t = .any := by
  unfold entry
  split
  · exact .inl rfl
  · exact .inl rfl
  · exact .inl rfl
  · split
    · exact .inl rfl
    · exact .inr rfl

theorem entry_eq (h : (n.isExpression || n.isStatement) = true) :
    entry (.node n) = if opensWithEscape (.node n) then .clear else .any := by
  cases n <;> first | rfl | cases h

theorem clear_under_entry (t : Tree) : Class.clear.under (entry t) = true := by
  rcases entry_cases t with h | h <;> rw [h] <;> rfl

theorem entry_under_any (t : Tree) : (entry t).under .any = true := by
  rcases entry_cases t with h | h <;> rw [h] <;> rfl

/-- A node that opens with an expression can stand where that expression can. -/
theorem entry_through {parent : Tree} (refused : Bool)
    (hparent : entry parent = if !refused && opensWithEscape t then .clear else .any)
    (ht : t = .node n) (h : n.isExpression = true) (hrefused : refused = false) :
    (entry parent).under (entry t) = true := by
  have hentry : entry t = if opensWithEscape t then .clear else .any := by
    rw [ht]
    exact entry_eq (by simp [h])
  rw [hparent, hentry, hrefused]
  exact Class.under_self _

theorem exit_under_any (t : Tree) : (exit t).under .any = true := by
  unfold exit
  split
  · rfl
  · split
    · rfl
    · rfl
    · rfl
    · rfl
    · rfl
    · split <;> rfl
    · rfl

theorem exit_statement (h : n.isStatement = true) : exit (.node n) = .clear := by
  cases n with
  | bare cls =>
    cases cls with
    | statement => rfl
    | _ => cases h
  | _ => first | rfl | cases h

/-- An expression that can stand beside an operator ends an operand. -/
theorem exit_operand (h : n.isExpression = true)
    (hrefuses : Place.operand.refuses (.node n) = false) :
    (exit (.node n)).under .operand = true := by
  unfold exit
  split
  · rfl
  · cases n with
    | conditionalExpression test consequent alternate => cases hrefuses
    | sequenceExpression expressions => cases hrefuses
    | variableDeclarator id init => cases h
    | property key value kind => cases h
    | unaryExpression operator argument => rfl
    | _ =>
      dsimp only
      rw [if_pos h]
      rfl

/-- An expression that can be accessed is a number or ends something that is none. -/
theorem exit_object {computed : Bool} (h : n.isExpression = true)
    (hrefuses : (Place.object computed).refuses (.node n) = false) :
    exit (.node n) = if isBareWhole (.node n) then .operand else .object := by
  unfold exit
  split
  · rfl
  · cases n with
    | conditionalExpression test consequent alternate => cases hrefuses
    | sequenceExpression expressions => cases hrefuses
    | unaryExpression operator argument => cases hrefuses
    | variableDeclarator id init => cases h
    | property key value kind => cases h
    | _ =>
      dsimp only
      rw [if_pos h]

def ReadsNode (α : Alphabet) (n : Node Tree) : Prop :=
  Reads α (entry (.node n)) (fun m => nodeScript m n) (exit (.node n))

theorem entry_statement {P : Node Tree → Prop} (h : NodeSlot P .statement t)
    (hescape : opensWithEscape t = false) : entry t = .any := by
  rcases h with rfl | ⟨n, rfl, hstatement, -⟩
  · rfl
  · have hstatement : n.isStatement = true := hstatement
    rw [entry_eq (by simp [hstatement]), if_neg (by simp [hescape])]

end Classes

section Slots

variable {α : Alphabet} {P : Node Tree → Prop} {t : Tree} {i k : Class} {missing : Mode → Script}

theorem reads_slot (hreads : ∀ n, P n → ReadsNode α n) {c : Exchange.Category} (h : NodeSlot P c t)
    (hmissing : t = .missing → Reads α i missing k) (hi : i.under (entry t) = true)
    (hk : (exit t).under k = true) : Reads α i (fun m => scriptOr m (missing m) t) k := by
  rcases h with rfl | ⟨n, rfl, -, hn⟩
  · exact hmissing rfl
  · exact (hreads n hn.here).weaken hi hk

variable (hreads : ∀ n, P n → ReadsNode α n)

include hreads

/-- A slot that is not enclosed, between what every expression can stand between. -/
theorem reads_inner {c : Exchange.Category} (h : NodeSlot P c t)
    (hmissing : t = .missing → Reads α .clear missing .any) :
    Reads α .clear (fun m => scriptOr m (missing m) t) .any :=
  reads_slot hreads h hmissing (clear_under_entry t) (exit_under_any t)

/-- A slot for a statement, the empty one included. -/
theorem reads_statement (h : NodeSlot P .statement t) (hi : i.under (entry t) = true) :
    Reads α i (fun m => scriptOr m (m.finish ";") t) .clear := by
  have hfinish : Reads α .any (fun m => m.finish ";") .clear := .finish (by decide)
  have hi' : i.under .any = true := by
    rcases entry_cases t with hentry | hentry <;> rw [hentry] at hi
    · cases i <;> first | rfl | cases hi
    · exact hi
  rcases h with rfl | ⟨n, rfl, hstatement, hn⟩
  · exact hfinish.weaken hi' rfl
  · exact (hreads n hn.here).weaken hi (by rw [exit_statement hstatement]; rfl)

/-- A slot that is enclosed where its place refuses the expression. -/
theorem reads_placed {refused : Bool} (h : NodeSlot P .expression t)
    (hmissing : t = .missing → ∀ m, (missing m).failure ≠ none) (hi : i.under .any = true)
    (hk : Class.object.under k = true)
    (hplace : ∀ n, t = .node n → n.isExpression = true → refused = false →
      i.under (entry t) = true ∧ (exit t).under k = true) :
    Reads α i (fun m => enclosedIf refused (scriptOr m (missing m) t)) k := by
  rcases h with rfl | ⟨n, rfl, hexpression, hn⟩
  · refine .vacuous fun m => ?_
    have hfails := hmissing rfl m
    cases refused with
    | false => exact hfails
    | true =>
      intro hnone
      exact hfails (failure_right (failure_left hnone))
  · exact .enclosedIf refused (hreads n hn.here) (clear_under_entry _) (exit_under_any _) hi hk
      (hplace n rfl hexpression)

/-- An expression beside an operator. -/
theorem reads_operand (h : NodeSlot P .expression t) (hi : i.under .any = true)
    (hentry : ∀ n, t = .node n → n.isExpression = true → Place.operand.refuses t = false →
      i.under (entry t) = true)
    (hmissing : t = .missing → ∀ m, (missing m).failure ≠ none) :
    Reads α i
      (fun m => enclosedIf (Place.operand.refuses t) (scriptOr m (missing m) t)) .operand := by
  refine reads_placed hreads h hmissing hi rfl fun n hn hexpression hrefuses => ?_
  refine ⟨hentry n hn hexpression hrefuses, ?_⟩
  rw [hn] at hrefuses ⊢
  exact exit_operand hexpression hrefuses

end Slots

section Lists

variable {α : Alphabet} {P : Node Tree → Prop} {t : Tree} {i k : Class} {l : Mode → Listing}
  {c : Exchange.Category} {items : List Tree}

variable (hP : ∀ n, P n → n.HasSlots) (hcategory : ∀ m, (l m).category = c)

include hP hcategory

/-- Items after the first one. -/
theorem reads_rest (h : ∀ item ∈ items, NodeSlot P c item)
    (hitem : ∀ item ∈ items, Reads α i (fun m => (l m).item m item) k)
    (hbetween : Reads α k (fun m => (l m).between m) i) :
    Reads α k (fun m => itemScripts m (l m) false items) k := by
  induction items with
  | nil => exact .empty (Class.under_self k)
  | cons first rest ih =>
    have hrest := ih (fun item hrest => h item (List.mem_cons_of_mem first hrest))
      fun item hrest => hitem item (List.mem_cons_of_mem first hrest)
    refine ((hbetween.append (hitem first List.mem_cons_self)).append hrest).congr fun m => ?_
    exact itemScripts_cons hP false rest (by rw [hcategory m]; exact h first List.mem_cons_self)

/-- Items of which the first one may stand where the others may not. -/
theorem reads_items {first : Tree} {i' : Class} (h : ∀ item ∈ first :: items, NodeSlot P c item)
    (hfirst : Reads α i' (fun m => (l m).item m first) k)
    (hitem : ∀ item ∈ items, Reads α i (fun m => (l m).item m item) k)
    (hbetween : Reads α k (fun m => (l m).between m) i) :
    Reads α i' (fun m => itemScripts m (l m) true (first :: items)) k := by
  have hrest := reads_rest hP hcategory
      (fun item hrest => h item (List.mem_cons_of_mem first hrest))
    hitem hbetween
  refine (hfirst.append hrest).congr fun m => ?_
  exact itemScripts_cons hP true items (by rw [hcategory m]; exact h first List.mem_cons_self)

theorem reads_list (h : ListSlot P c t)
    (hitem : ∀ item, NodeSlot P c item → Reads α i (fun m => (l m).item m item) k)
    (hbetween : Reads α k (fun m => (l m).between m) i) (hik : i.under k = true) :
    Reads α i (fun m => listScript m (l m) t) k := by
  obtain ⟨items, rfl, hitems⟩ := h
  cases items with
  | nil => exact .empty hik
  | cons first rest =>
    exact reads_items hP hcategory hitems (hitem first (hitems first List.mem_cons_self))
      (fun item hrest => hitem item (hitems item (List.mem_cons_of_mem first hrest))) hbetween

end Lists

section Parts

variable {α : Alphabet} {P : Node Tree → Prop} {t : Tree} {i j k k' : Class}

theorem reads_item {l : Listing} (hl : l ≠ .names) (hopening : Reads α i (fun _ => l.opening) j)
    (hinner : Reads α j (fun m => enclosedIf (l.encloses t) (scriptOr m (l.absent m) t)) k)
    (hclosing : Reads α k (fun _ => l.closing) k') : Reads α i (fun m => l.item m t) k' :=
  ((hopening.append hinner).append hclosing).congr fun _ => Listing.item_of_ne hl

variable (hP : ∀ n, P n → n.IsKept α) (hreads : ∀ n, P n → ReadsNode α n)

include hreads

/-- An item between what every expression can stand between. -/
theorem reads_enclosed {refused : Bool} {missing : Mode → Script} {c : Exchange.Category}
    (h : NodeSlot P c t)
    (hmissing : t = .missing →
      Reads α .clear (fun m => enclosedIf refused (scriptOr m (missing m) t)) .any) :
    Reads α .clear (fun m => enclosedIf refused (scriptOr m (missing m) t)) .any := by
  rcases h with rfl | ⟨n, rfl, -, hn⟩
  · exact hmissing rfl
  · exact .enclosedIf refused (hreads n hn.here) (clear_under_entry _) (exit_under_any _) rfl rfl
      fun _ => ⟨clear_under_entry _, exit_under_any _⟩

include hP

theorem reads_statements (h : ListSlot P .statement t) :
    Reads α .clear (fun m => listScript m .statements t) .clear := by
  refine reads_list (l := fun _ => .statements) (fun n hn => (hP n hn).slots) (fun _ => rfl) h
    (fun item hitem => ?_) (.empty rfl) rfl
  exact reads_item nofun (.empty rfl) (reads_statement hreads hitem (clear_under_entry item))
    (.empty rfl)

/-- A list whose items are written with something between them and nothing around them. -/
theorem reads_separated {l : Listing} (hopening : l.opening = empty) (hclosing : l.closing = empty)
    (habsent : Reads α .clear (fun m => l.absent m) .any)
    (hbetween : Reads α .any (fun m => l.between m) .clear) (h : ListSlot P l.category t) :
    Reads α .clear (fun m => listScript m l t) .any := by
  have hl : l ≠ .names := by
    rintro rfl
    cases hopening
  refine reads_list (l := fun _ => l) (fun n hn => (hP n hn).slots) (fun _ => rfl) h
    (fun item hitem => ?_) hbetween rfl
  refine reads_item hl (by rw [hopening]; exact .empty rfl) (reads_enclosed hreads hitem ?_)
    (by rw [hclosing]; exact .empty rfl)
  rintro rfl
  have hfree : l.encloses .missing = false := by cases l <;> rfl
  rw [hfree]
  exact habsent

theorem reads_arguments (owner : String) (h : ListSlot P .expression t) :
    Reads α .clear (fun m => listScript m (.arguments owner) t) .any :=
  reads_separated hP hreads rfl rfl (.fail _) (.token (by decide)) h

theorem reads_params (owner : String) (h : ListSlot P .identifier t) :
    Reads α .clear (fun m => listScript m (.params owner) t) .any :=
  reads_separated hP hreads rfl rfl (.fail _) (.token (by decide)) h

theorem reads_declarators (inline : Bool) (h : ListSlot P .variableDeclarator t) :
    Reads α .clear (fun m => listScript m (.declarators inline) t) .any := by
  refine reads_separated hP hreads rfl rfl (.fail _) ?_ h
  cases inline with
  | true => exact .token (by decide)
  | false => exact .finish (by decide)

/-- The operands of a chain, each after the operator. -/
theorem reads_operands {token : Mode → Text}
    (htoken : Reads α .operand (fun m => write (token m)) .clear) (h : ListSlot P .expression t) :
    Reads α .operand (fun m => listScript m (.operands (token m)) t) .operand := by
  refine reads_list (l := fun m => .operands (token m)) (fun n hn => (hP n hn).slots)
    (fun _ => rfl) h (fun item hitem => ?_) (.empty rfl) rfl
  have hitem : Reads α .clear (fun m => enclosedIf (Place.operand.refuses item)
      (scriptOr m (absent "BinaryExpression" "right") item)) .operand :=
    reads_operand hreads hitem rfl (fun _ _ _ _ => clear_under_entry item)
      fun _ _ => Option.some_ne_none _
  refine ((htoken.append hitem).append (.empty rfl)).congr fun m => ?_
  exact Listing.item_of_ne nofun

omit hP in
/-- An access by index. -/
theorem reads_index (h : NodeSlot P .expression t) :
    Reads α .operand (fun m => Listing.indices.item m t) .object := by
  refine reads_item nofun (.spelled (k := .clear) (by decide)) ?_
    (.spelled (i := .any) (by decide))
  exact reads_inner hreads h fun _ => .fail _

omit hreads in
/-- An access by name. -/
theorem reads_name (h : NodeSlot P .expression t) :
    Reads α .object (fun m => Listing.names.item m t) .object := by
  by_cases hkind : t.kind? = some .identifier
  · rcases h with rfl | ⟨n, rfl, -, hn⟩
    · cases hkind
    · obtain ⟨name, rfl⟩ := hn.name (fun n hn => (hP n hn).slots) hkind
      have hpoint : Reads α .object (fun _ => write ".") .point := .spelled (by decide)
      have hname : Reads α .point (fun _ => write name) .object :=
        .write (((hP _ hn.here).name name rfl).lexes (.inr rfl))
      exact (hpoint.append hname).congr fun m => Listing.item_identifier _
  · refine (Reads.fail .indexNotIdentifier).congr fun m => ?_
    exact if_pos ⟨rfl, hkind⟩

theorem reads_cases (h : ListSlot P .switchCase t) :
    Reads α .clear (fun m => listScript m .cases t) .clear := by
  refine reads_list (l := fun _ => .cases) (fun n hn => (hP n hn).slots) (fun _ => rfl) h
    (fun item hitem => ?_) (.empty rfl) rfl
  refine reads_item (j := .clear) (k := .clear) nofun (.empty rfl) ?_ (.empty rfl)
  rcases hitem.of_kind rfl (by decide) with rfl | ⟨n, rfl, hkind, hn⟩
  · exact .fail _
  · refine (hreads n hn.here).weaken (clear_under_entry _) ?_
    cases n with
    | switchCase test body => rfl
    | _ => cases hkind

omit hreads in
theorem slot_throughout {c : Exchange.Category} (h : NodeSlot P c t) :
    t.Throughout fun n => n.HasSlots ∧ n.isRewritten = false := by
  rcases h with rfl | ⟨n, rfl, -, hn⟩
  · exact .missing
  · exact hn.mono fun n hn => ⟨(hP n hn).slots, (hP n hn).kept⟩

omit hreads in
theorem slot_name (h : NodeSlot P .identifier t) :
    t = .missing ∨ ∃ name, t = .node (.identifier (.ofText name)) ∧ IsName α name := by
  rcases h.name fun n hn => (hP n hn).slots with hmissing | ⟨name, rfl⟩
  · exact .inl hmissing
  · exact .inr ⟨name, rfl, (hP _ h.throughout.here).name name rfl⟩

omit hreads in
theorem reads_optionalName (h : NodeSlot P .identifier t) :
    Reads α .any (fun _ => optionalName t) .any := by
  rcases slot_name hP h with rfl | ⟨name, rfl, hname⟩
  · exact .empty rfl
  · have hblank : Reads α .any (fun _ => write " ") .clear := .spelled (by decide)
    have hword : Reads α .clear (fun _ => write name) .object := .write (hname.lexes (.inl rfl))
    exact (hblank.append hword).weaken rfl rfl

/-- A body or the first branch of an if. -/
theorem reads_body (newline beforeElse : Bool) (h : NodeSlot P .statement t)
    (hsole : isSoleBlock t = false) (hblanks : i.allowsBlanks = true)
    (hi : i.under (entry t) = true) :
    Reads α i (fun m => bodyScript m newline beforeElse t) .clear := by
  have hany : i.under .any = true := by
    cases i <;> first | rfl | cases hblanks
  rcases h with rfl | ⟨n, rfl, hstatement, hn⟩
  · exact .looseBody hblanks ((Reads.finish (i := .any) (by decide)).weaken hany rfl)
  · have hnode : Reads α i (fun m => nodeScript m n) .clear :=
      (hreads n hn.here).weaken hi (by rw [exit_statement hstatement]; rfl)
    by_cases hblock : ∃ body, n = .blockStatement body
    · obtain ⟨body, rfl⟩ := hblock
      have hbody : ListSlot P .statement body := hn.filled fun n hn => (hP n hn).slots
      have hdrops (m : Mode) := dropsBraces_false (m := m) beforeElse hbody hsole
      refine Reads.congr (fun m => ?_) ((Reads.braces true newline (!body.isTrue)
        (reads_statements hP hreads hbody) (.inl rfl)).weaken hany rfl)
      rw [bodyScript, hdrops m]
      rfl
    · have htakes (m : Mode) : (if beforeElse then takesElse m (.node n) else .ok false) =
          if beforeElse then takesElse .pretty (.node n) else .ok false := by
        rw [takesElse_alike (slot_throughout hP (.of_has hstatement hn)) hsole m]
      have hscript (m : Mode) : bodyScript m newline beforeElse (.node n) =
          given (if beforeElse then takesElse m (.node n) else .ok false) fun encloses =>
            if encloses then m.braces true newline false (nodeScript m n)
            else Source.looseBody m (nodeScript m n) := by
        rw [bodyScript]
        exact fun body heq => hblock ⟨body, heq⟩
      refine Reads.congr hscript (Reads.given htakes fun encloses _ => ?_)
      cases encloses with
      | false => exact .looseBody hblanks hnode
      | true =>
        have hinner : Reads α .clear (fun m => nodeScript m n) .clear :=
          (hreads n hn.here).weaken (clear_under_entry _) (by rw [exit_statement hstatement]; rfl)
        exact (Reads.braces true newline false hinner (.inl rfl)).weaken hany rfl

/-- What follows `else`. -/
theorem reads_else (h : NodeSlot P .statement t) (hsole : isSoleBlock t = false)
    (hescape : opensWithEscape t = false) : Reads α .any (fun m => elseScript m t) .clear := by
  rcases h with rfl | ⟨n, rfl, hstatement, hn⟩
  · exact .looseBody rfl (.finish (by decide))
  · have hentry : entry (.node n) = .any :=
      entry_statement (NodeSlot.of_has hstatement hn) hescape
    have hnode : Reads α .any (fun m => nodeScript m n) .clear :=
      (hreads n hn.here).weaken (by rw [hentry]; rfl) (by rw [exit_statement hstatement]; rfl)
    by_cases hblock : ∃ body, n = .blockStatement body
    · obtain ⟨body, rfl⟩ := hblock
      have hbody : ListSlot P .statement body := hn.filled fun n hn => (hP n hn).slots
      refine Reads.congr (fun m => ?_) (Reads.braces true true (!body.isTrue)
        (reads_statements hP hreads hbody) (.inl rfl))
      rw [elseScript, dropsBraces_false false hbody hsole]
      rfl
    · have hscript (m : Mode) : elseScript m (.node n) =
          if n.kind? = some .ifStatement then write " " ++ nodeScript m n
          else Source.looseBody m (nodeScript m n) := by
        rw [elseScript]
        exact fun body heq => hblock ⟨body, heq⟩
      refine Reads.congr hscript ?_
      split
      · exact (Reads.spelled (i := .any) (t := " ") (k := .any) (by decide)).append hnode
      · exact .looseBody rfl hnode

theorem reads_block (newline : Bool) (h : BlockSlot P t) :
    Reads α .any (fun m => blockPart m newline t) .clear := by
  rcases h with rfl | ⟨body, rfl, hbody⟩
  · exact .fail _
  · exact .braces true newline _ (reads_statements hP hreads hbody) (.inl rfl)

theorem reads_catchFrame {param body : Tree} (newline : Bool)
    (hparam : NodeSlot P .identifier param)
    (hbody : ListSlot P .statement body) :
    Reads α .any (fun m => catchFrame m newline (!body.isTrue)
      (scriptOr m (absent "CatchClause" "param") param)
      (listScript m .statements body)) .clear := by
  have hhead : Reads α .any (fun m => m.token "catch(" "catch (" ++
      scriptOr m (absent "CatchClause" "param") param ++ write ")") .any :=
    ((Reads.token (k := .clear) (by decide)).append
        (reads_inner hreads hparam fun _ => .fail _)).append
      (.spelled (by decide))
  exact hhead.append (.braces true newline _ (reads_statements hP hreads hbody) (.inl rfl))

theorem reads_handler (newline : Bool) (h : NodeSlot P .catchClause t) :
    Reads α .clear (fun m => handlerScript m newline t) .clear := by
  rcases h.of_kind rfl (by decide) with rfl | ⟨n, rfl, hkind, hn⟩
  · exact .empty rfl
  · cases n with
    | catchClause param body =>
      obtain ⟨hparam, hbody⟩ : NodeSlot P .identifier param ∧ ListSlot P .statement body :=
        hn.filled fun n hn => (hP n hn).slots
      have hblank : Reads α .clear (fun m => m.prettyOnly (write " ")) .any :=
        (Reads.prettyOnly (k := .clear) rfl (by decide)).weaken rfl rfl
      exact hblank.append (reads_catchFrame hP hreads newline hparam hbody)
    | _ => cases hkind

omit hP in
theorem reads_key (h : ChoiceSlot P .literal .identifier t) :
    Reads α .clear (fun m => keyScript m t) .any := by
  rcases h with rfl | ⟨n, rfl, -, hn⟩ | ⟨n, rfl, -, hn⟩
  · exact .fail _
  · exact (hreads n hn.here).weaken (clear_under_entry _) (exit_under_any _)
  · exact (hreads n hn.here).weaken (clear_under_entry _) (exit_under_any _)

/-- The parameters and the statements of a function, after its name. -/
theorem reads_function {params body : Tree} {head : Mode → Script} (owner : String) (newline : Bool)
    (hhead : Reads α i head .any) (hparams : ListSlot P .identifier params)
    (hbody : ListSlot P .statement body) (hk : k = .clear ∨ newline = false ∧ k = .object) :
    Reads α i (fun m => head m ++ write "(" ++ listScript m (.params owner) params ++
      m.token ")" ") " ++
      m.braces false newline (!body.isTrue) (listScript m .statements body)) k := by
  have hopening : Reads α .any (fun _ => write "(") .clear := .spelled (by decide)
  have hclosing : Reads α .any (fun m => m.token ")" ") ") .any := .token (by decide)
  exact (((hhead.append hopening).append (reads_params hP hreads owner hparams)).append
    hclosing).append (.braces false newline _ (reads_statements hP hreads hbody) hk)

theorem reads_accessor {key : Mode → Script} (word : Text) (hkey : Reads α .clear key .any)
    (hword : spells .clear (Text.join [word, " "]) .clear = true) (h : NodeSlot P .expression t) :
    Reads α .clear (fun m => accessorScript m word (key m) t) .any := by
  by_cases hfunction : ∃ id params body, t = .node (.functionExpression id params body)
  · obtain ⟨id, params, body, rfl⟩ := hfunction
    obtain ⟨-, hparams, hbody⟩ : NodeSlot P .identifier id ∧ ListSlot P .identifier params ∧
      ListSlot P .statement body := h.throughout.filled fun n hn => (hP n hn).slots
    have hhead : Reads α .clear (fun m => write (Text.join [word, " "]) ++ key m) .any :=
      (Reads.spelled hword).append hkey
    exact (reads_function hP hreads "Property" false hhead hparams hbody (.inl rfl)).weaken rfl rfl
  · refine (Reads.fail (.accessorNotFunction word)).congr fun m => ?_
    rw [accessorScript]
    exact fun id params body heq => hfunction ⟨id, params, body, heq⟩

/-- The declaration in the head of a loop. -/
theorem reads_declared {declarations kind : Tree}
    (hdeclarations : ListSlot P .variableDeclarator declarations)
    (hkind : ∃ k, kind = .ofMember (.variableKind k)) (inline : Bool) :
    Reads α .clear (fun m => given (kindWord kind) fun word =>
      write (Text.join [word, " "]) ++ listScript m (.declarators inline) declarations) .any := by
  obtain ⟨k, rfl⟩ := hkind
  have hword : Reads α .clear (fun _ => write (Text.join [Text.ofString "var", " "])) .clear :=
    .spelled (by decide)
  exact hword.append (reads_declarators hP hreads inline hdeclarations)

theorem reads_forInit (h : ChoiceSlot P .variableDeclaration .expression t) :
    Reads α .clear (fun m => forInit m t) .any := by
  rcases h with rfl | ⟨n, rfl, hkind, hn⟩ | ⟨n, rfl, -, hn⟩
  · exact .empty rfl
  · cases n with
    | variableDeclaration declarations kind =>
      obtain ⟨hdeclarations, hkind⟩ : ListSlot P .variableDeclarator declarations ∧
        ∃ k, kind = .ofMember (.variableKind k) := hn.filled fun n hn => (hP n hn).slots
      have hscript (m : Mode) :
          forInit m (.choice (.first (.node (.variableDeclaration declarations kind)))) =
        if !declarations.isTrue then Script.fail (.noInlineDeclarators "ForStatement")
        else given (kindWord kind) fun word =>
          write (Text.join [word, " "]) ++ listScript m (.declarators true) declarations := by
        rw [forInit, headDeclaration]
      refine Reads.congr hscript ?_
      split
      · exact .fail _
      · exact reads_declared hP hreads hdeclarations hkind true
    | _ => cases hkind
  · exact (hreads n hn.here).weaken (clear_under_entry _) (exit_under_any _)

theorem reads_forInLeft (h : ChoiceSlot P .variableDeclaration .identifier t) :
    Reads α .clear (fun m => forInLeft m t) .any := by
  rcases h with rfl | ⟨n, rfl, hkind, hn⟩ | ⟨n, rfl, -, hn⟩
  · exact .fail _
  · cases n with
    | variableDeclaration declarations kind =>
      obtain ⟨hdeclarations, hkind⟩ : ListSlot P .variableDeclarator declarations ∧
        ∃ k, kind = .ofMember (.variableKind k) := hn.filled fun n hn => (hP n hn).slots
      have hscript (m : Mode) :
          forInLeft m (.choice (.first (.node (.variableDeclaration declarations kind)))) =
            given (used declarations.size) fun count =>
              if count ≠ 1 then Script.fail .forInDeclarators
              else given (kindWord kind) fun word =>
                write (Text.join [word, " "]) ++ listScript m (.declarators true) declarations := by
        rw [forInLeft, forInDeclaration]
      refine Reads.congr hscript (Reads.given (fun _ => rfl) fun count _ => ?_)
      split
      · exact .fail _
      · exact reads_declared hP hreads hdeclarations hkind true
    | _ => cases hkind
  · exact (hreads n hn.here).weaken (clear_under_entry _) (exit_under_any _)

omit hP hreads in
/-- Items between brackets, or the brackets alone. -/
theorem reads_brackets (isEmpty : Bool) {f : Mode → Script} {opening closing both : Text}
    (hboth : spells .any both .object = true) (hopening : spells .any opening .clear = true)
    (hclosing : spells .any closing .object = true) (h : Reads α .clear f .any) :
    Reads α .any (fun m => if isEmpty then write both else bracketed m opening closing (f m))
      .object := by
  cases isEmpty with
  | true => exact .spelled hboth
  | false => exact .bracketed hopening hclosing h

omit hP hreads in
/-- A word and what stands between parentheses after it. -/
theorem reads_head {minified pretty : Text} {f : Mode → Script}
    (hword : spellAlike .any minified pretty .clear = true) (h : Reads α .clear f .any) :
    Reads α .any (fun m => m.token minified pretty ++ f m ++ write ")") .clear :=
  ((Reads.token hword).append h).append (.spelled (by decide))

/-- A clause of a switch. -/
theorem reads_clause {test body : Tree} (htest : NodeSlot P .expression test)
    (hbody : ListSlot P .statement body) :
    Reads α .any (fun m => clauseHead m test.isMissing (scriptOr m empty test) ++
      listScript m .statements body ++ m.prettyOnly shallower) .clear := by
  have hword : Reads α .any (fun m => if test.isMissing then write "default"
      else write "case " ++ scriptOr m empty test) .any := by
    have hcase : Reads α .any (fun _ => write "case ") .clear := .spelled (by decide)
    split
    · exact .spelled (by decide)
    · exact hcase.append (reads_inner hreads htest fun _ => .empty rfl)
  have hhead : Reads α .any (fun m => clauseHead m test.isMissing (scriptOr m empty test)) .clear :=
    (hword.append (.finish (by decide))).append (.prettyOnly rfl rfl)
  exact (hhead.append (reads_statements hP hreads hbody)).append (.prettyOnly rfl rfl)

end Parts

section Nodes

variable {α : Alphabet} {P : Node Tree → Prop} {n : Node Tree}

/-- A literal that is no regular expression is one token, after its sign if it has one. -/
theorem reads_literal {value : Tree} (hregex : ∀ pattern flags, value ≠ .regex pattern flags) :
    ReadsNode α (.literal value) := by
  cases value with
  | missing => exact .spelled (i := .any) (k := .object) (by decide)
  | atom a =>
    cases hnumber : numberText? a with
    | some t =>
      have hexit : exit (.node (.literal (.atom a))) =
          if isWholeText t then .operand else .object := by
        simp [exit, isBareWhole, hnumber, Node.isExpression, Node.kind?, Kind.isExpression]
      have hscript (m : Mode) : nodeScript m (.literal (.atom a)) = write t := by
        cases a <;> first | (simp only [nodeScript, literal, hnumber]; rfl) | cases hnumber
      unfold ReadsNode
      rw [hexit]
      exact Reads.congr hscript (.write (i := .any) (isNumeral_numberText hnumber).lexes)
    | none =>
      have hexit : exit (.node (.literal (.atom a))) = .object := by
        simp [exit, isBareWhole, hnumber, Node.isExpression, Node.kind?, Kind.isExpression]
      unfold ReadsNode
      rw [hexit]
      cases a with
      | bool b => cases b <;> exact .spelled (i := .any) (by decide)
      | text t => exact .write (i := .any) (lexes_stringLiteral t)
      | member m => exact .write (i := .any) (lexes_stringLiteral m.key)
      | int i =>
        have hscript (m : Mode) : nodeScript m (.literal (.atom (.int i))) =
            Script.fail .tooManyDigits := by
          simp only [nodeScript, literal, hnumber]
          rfl
        exact Reads.congr hscript (.fail _)
      | decimal d => cases d <;> cases hnumber
      | flags f => exact .fail _
      | object => exact .fail _
      | _ => cases hnumber
  | regex pattern flags => exact absurd rfl (hregex pattern flags)
  | _ => exact .fail _

theorem reads_identifier {name : Text} (h : IsName α name) :
    ReadsNode α (.identifier (.ofText name)) := by
  have hentry : entry (.node (.identifier (.ofText name))) =
      if name.head?.any (·.is '\\') then .clear else .any := rfl
  unfold ReadsNode
  rw [hentry]
  split
  · exact .write (h.lexes (.inl rfl))
  · next hescape => exact .write (h.lexes_any (by simpa using hescape))

variable (hP : ∀ n, P n → n.IsKept α) (hreads : ∀ n, P n → ReadsNode α n)

include hreads

theorem reads_unary {argument : Tree} (op : UnaryOperator) (h : NodeSlot P .expression argument) :
    ReadsNode α (.unaryExpression (.ofMember (.unaryOperator op)) argument) := by
  cases hbefore : op.isBefore with
  | true =>
    have hscript (m : Mode) :
        nodeScript m (.unaryExpression (.ofMember (.unaryOperator op)) argument) =
          write (if op.isKeyword then Text.join [op.token, " "] else op.token) ++
            enclosedIf (Place.operand.refuses argument)
              (scriptOr m (absent "UnaryExpression" "argument") argument) := by
      rw [nodeScript_unary, if_pos hbefore]
    have hentry :
        entry (.node (.unaryExpression (.ofMember (.unaryOperator op)) argument)) = .any := by
      simp [entry, opensWithEscape, Tree.ofMember, hbefore]
    have htoken : Reads α .any
        (fun _ => write (if op.isKeyword then Text.join [op.token, " "] else op.token)) .clear := by
      refine .spelled ?_
      cases op <;> decide
    unfold ReadsNode
    rw [hentry]
    exact Reads.congr hscript (htoken.append
      (reads_operand hreads h rfl (fun _ _ _ _ => clear_under_entry argument)
        fun _ _ => Option.some_ne_none _))
  | false =>
    have hscript (m : Mode) :
        nodeScript m (.unaryExpression (.ofMember (.unaryOperator op)) argument) =
          enclosedIf (Place.operand.refuses argument)
              (scriptOr m (absent "UnaryExpression" "argument") argument) ++ write op.token := by
      rw [nodeScript_unary, if_neg (by simp [hbefore])]
    have htoken : Reads α .operand (fun _ => write op.token) .operand := by
      refine .spelled ?_
      cases op <;> first | decide | cases hbefore
    have hentry : entry (.node (.unaryExpression (.ofMember (.unaryOperator op)) argument)) =
        if !Place.operand.refuses argument && opensWithEscape argument then .clear else .any := by
      simp [entry, opensWithEscape, Tree.ofMember, hbefore]
    exact Reads.congr hscript (Reads.append (reads_operand hreads h (entry_under_any _)
      (fun n => entry_through _ hentry) fun _ _ => Option.some_ne_none _) htoken)

include hP

theorem reads_binary {left right : Tree} (op : BinaryOperator) (hleft : NodeSlot P .expression left)
    (hright : ListSlot P .expression right) :
    ReadsNode α (.binaryExpression left (.ofMember (.binaryOperator op)) right) := by
  have htoken : Reads α .operand (fun m => write (if op.isKeyword || !m.isMinified
      then Text.join [" ", op.token, " "] else op.token)) .clear := by
    refine .alike (t := fun m => if op.isKeyword || !m.isMinified
      then Text.join [" ", op.token, " "] else op.token) ?_
    cases op <;> decide
  have hopening : Reads α .any (fun _ => write "(") .clear := .spelled (by decide)
  have hclosing : Reads α .operand (fun _ => write ")") .object := .spelled (by decide)
  have hoperand : Reads α .clear (fun m => enclosedIf (Place.operand.refuses left)
      (scriptOr m (absent "BinaryExpression" "left") left)) .operand :=
    reads_operand hreads hleft rfl (fun _ _ _ _ => clear_under_entry left)
      fun _ _ => Option.some_ne_none _
  exact ((hopening.append hoperand).append (reads_operands hP hreads htoken hright)).append hclosing

theorem reads_member {object indices computed : Tree} (hobject : NodeSlot P .expression object)
    (hindices : ListSlot P .expression indices)
    (hnumber : (Node.memberExpression object indices computed).accessesWhole = false) :
    ReadsNode α (.memberExpression object indices computed) := by
  obtain ⟨items, rfl, hitems⟩ := hindices
  have hplaced {k : Class} (hk : Class.object.under k = true)
      (hexit : (Place.object computed.isTrue).refuses object = false →
        (if isBareWhole object then Class.operand else .object).under k = true) :
      Reads α (entry (.node (.memberExpression object (.list items) computed)))
        (fun m => enclosedIf ((Place.object computed.isTrue).refuses object)
          (scriptOr m (absent "MemberExpression" "object") object)) k := by
    refine reads_placed hreads hobject (fun _ _ => Option.some_ne_none _) (entry_under_any _) hk
      fun n hn hexpression hrefuses => ⟨entry_through _ rfl hn hexpression hrefuses, ?_⟩
    have hk := hexit hrefuses
    rw [hn] at hrefuses hk ⊢
    rw [exit_object hexpression hrefuses]
    exact hk
  cases items with
  | nil =>
    have hbare : isBareWhole (.node (.memberExpression object (.list []) computed)) =
        (!(Place.object computed.isTrue).refuses object && isBareWhole object) := rfl
    have hexit : exit (.node (.memberExpression object (.list []) computed)) =
        if !(Place.object computed.isTrue).refuses object && isBareWhole object then .operand
        else .object := by
      unfold exit
      rw [hbare]
      rfl
    refine (hplaced ?_ fun hrefuses => ?_).append (.empty (Class.under_self _))
    · rw [hexit]
      split <;> rfl
    · rw [hexit, hrefuses]
      exact Class.under_self _
  | cons first rest =>
    have hfirst := hitems first List.mem_cons_self
    have hrest (item : Tree) (hitem : item ∈ rest) := hitems item (List.mem_cons_of_mem first hitem)
    have hslots (n : Node Tree) (hn : P n) : n.HasSlots := (hP n hn).slots
    cases hcomputed : computed.isTrue with
    | true =>
      have hlist : Reads α .operand
          (fun m => listScript m (if computed.isTrue then .indices else .names)
            (.list (first :: rest))) .object := by
        rw [hcomputed]
        exact reads_items (l := fun _ => .indices) hslots (fun _ => rfl) hitems
          (reads_index hreads hfirst) (fun item hitem => reads_index hreads (hrest item hitem))
          (.empty rfl)
      exact (hplaced rfl fun _ => by split <;> rfl).append hlist
    | false =>
      have hlist : Reads α .object
          (fun m => listScript m (if computed.isTrue then .indices else .names)
            (.list (first :: rest))) .object := by
        rw [hcomputed]
        exact reads_items (l := fun _ => .names) hslots (fun _ => rfl) hitems
          (reads_name hP hfirst) (fun item hitem => reads_name hP (hrest item hitem)) (.empty rfl)
      refine (hplaced rfl fun hrefuses => ?_).append hlist
      simp only [Node.accessesWhole, hcomputed] at hnumber hrefuses
      rw [hrefuses] at hnumber
      have hbare : isBareWhole object = false := hnumber
      rw [hbare]
      rfl

theorem reads_if {test consequent alternate : Tree} (htest : NodeSlot P .expression test)
    (hconsequent : NodeSlot P .statement consequent) (halternate : NodeSlot P .statement alternate)
    (hkept : (Node.ifStatement test consequent alternate).isRewritten = false)
    (hescape : opensWithEscape alternate = false) :
    ReadsNode α (.ifStatement test consequent alternate) := by
  have hfolds (m : Mode) : becomesConditional m test consequent alternate = .ok false :=
    becomesConditional_false (fun n hn => (hP n hn).slots) hconsequent halternate hkept
  obtain ⟨⟨hsole, hsole'⟩, -⟩ :
      (isSoleBlock consequent = false ∧ isSoleBlock alternate = false) ∧ _ := by
    simpa only [Node.isRewritten, Bool.or_eq_false_iff] using hkept
  have hhead : Reads α .any (fun m => m.token "if(" "if (" ++
      scriptOr m (absent "IfStatement" "test") test ++ write ")") .clear :=
    reads_head (by decide) (reads_inner hreads htest fun _ => .fail _)
  have hbody :=
    reads_body hP hreads alternate.isMissing (!alternate.isMissing) hconsequent hsole rfl
    (clear_under_entry consequent)
  have hblank : Reads α .clear (fun m => given (hasBraces m true consequent) fun braces =>
      m.prettyOnly (onlyIf braces (write " "))) .clear := by
    refine .silent rfl fun m piece hpiece => ?_
    cases hbraces : hasBraces m true consequent with
    | error e =>
      rw [hbraces] at hpiece
      cases hpiece
    | ok braces =>
      rw [hbraces] at hpiece
      cases braces <;> cases m <;> simp_all [Script.onlyIf, Mode.prettyOnly, Mode.isMinified]
      decide
  have helse : Reads α .clear (fun m => given (hasBraces m true consequent) (fun braces =>
      m.prettyOnly (onlyIf braces (write " "))) ++ write "else" ++ elseScript m alternate) .clear :=
    (hblank.append (.spelled (by decide))).append (reads_else hP hreads halternate hsole' hescape)
  refine Reads.given (i := .any) (k := .clear) hfolds fun folds hfalse => ?_
  obtain rfl := Except.ok.inj hfalse
  exact (hhead.append hbody).append (.onlyIf _ (fun _ => helse) fun _ => rfl)

theorem reads_doWhile {body test : Tree} (hbody : NodeSlot P .statement body)
    (htest : NodeSlot P .expression test) (hsole : isSoleBlock body = false)
    (hescape : opensWithEscape body = false) : ReadsNode α (.doWhileStatement body test) := by
  have hword : Reads α .any (fun _ => write "do") .any := .spelled (by decide)
  have hbodyScript : Reads α .any (fun m => bodyScript m false false body) .clear :=
    reads_body hP hreads false false hbody hsole rfl (by rw [entry_statement hbody hescape]; rfl)
  have hbraces (m : Mode) := hasBraces_alike (slot_throughout hP hbody) hsole false m
  have hwhile : Reads α .clear (fun m => given (hasBraces m false body) fun braces =>
      write (if m.isMinified then "while("
        else if braces then " while (" else "while (")) .clear := by
    refine Reads.given hbraces fun braces _ => ?_
    refine .alike (t := fun m =>
      if m.isMinified then "while(" else if braces then " while (" else "while (") ?_
    cases braces <;> decide
  exact (((hword.append hbodyScript).append hwhile).append
    (reads_inner hreads htest fun _ => .fail _)).append (.finish (by decide))

theorem reads_property {key value : Tree} (kind : PropertyKind)
    (hkey : ChoiceSlot P .literal .identifier key) (hvalue : NodeSlot P .expression value) :
    ReadsNode α (.property key value (.ofMember (.propertyKind kind))) := by
  by_cases hempty : key = .choice .empty
  · rw [hempty]
    exact .fail _
  · have hscript (m : Mode) : nodeScript m (.property key value (.ofMember (.propertyKind kind))) =
        if definesValue (.ofMember (.propertyKind kind)) then
          keyScript m key ++ m.token ":" ": " ++
            enclosedIf (Place.item.refuses value) (scriptOr m (absent "Property" "value") value)
        else given (kindWord (.ofMember (.propertyKind kind))) fun word =>
          accessorScript m word (keyScript m key) value := by
      rw [nodeScript]
      exact hempty
    refine Reads.congr hscript ?_
    have hkeyScript := reads_key hreads hkey
    cases kind with
    | init =>
      have hcolon : Reads α .any (fun m => m.token ":" ": ") .clear := .token (by decide)
      exact (hkeyScript.append hcolon).append
        (reads_enclosed hreads hvalue (by rintro rfl; exact .fail _))
    | get => exact reads_accessor hP hreads "get" hkeyScript (by decide) hvalue
    | set => exact reads_accessor hP hreads "set" hkeyScript (by decide) hvalue

/-- The arguments of a call or of `new`. -/
theorem reads_call {arguments : Tree} {called : Mode → Script} {i : Class} (owner : String)
    (hcalled : Reads α i called .any) (harguments : ListSlot P .expression arguments) :
    Reads α i (fun m => called m ++ write "(" ++ listScript m (.arguments owner) arguments ++
      write ")") .object := by
  have hopening : Reads α .any (fun _ => write "(") .clear := .spelled (by decide)
  have hclosing : Reads α .any (fun _ => write ")") .object := .spelled (by decide)
  exact ((hcalled.append hopening).append (reads_arguments hP hreads owner harguments)).append
    hclosing

/-- A sequence opens with its first expression, and without any it is nothing. -/
theorem reads_sequence {expressions : Tree} (h : ListSlot P .expression expressions) :
    ReadsNode α (.sequenceExpression expressions) := by
  obtain ⟨items, rfl, hitems⟩ := h
  cases items with
  | nil => exact .empty rfl
  | cons first rest =>
    have hbetween : Reads α .any (fun m => m.token "," ", ") .clear := .token (by decide)
    have hitem {t : Tree} {i : Class} (ht : NodeSlot P .expression t)
        (hi : i.under (entry t) = true ∨ t = .missing) :
        Reads α i (fun m => Listing.expressions.item m t) .any := by
      refine reads_item (k := .any) nofun (.empty (Class.under_self i)) ?_ (.empty rfl)
      rcases ht with rfl | ⟨n, rfl, -, hn⟩
      · exact .fail _
      · exact (hreads n hn.here).weaken (hi.resolve_right nofun) (exit_under_any _)
    refine reads_items (l := fun _ => .expressions) (fun n hn => (hP n hn).slots) (fun _ => rfl)
      hitems (hitem (hitems first List.mem_cons_self) ?_) (fun item hrest =>
        hitem (hitems item (List.mem_cons_of_mem first hrest)) (.inl (clear_under_entry item)))
      hbetween
    rcases hitems first List.mem_cons_self with hmissing | ⟨n, hn, hexpression, -⟩
    · exact .inr hmissing
    · exact .inl (entry_through false rfl hn hexpression rfl)

theorem reads_labeled {label body : Tree} (hlabel : NodeSlot P .identifier label)
    (hbody : NodeSlot P .statement body) : ReadsNode α (.labeledStatement label body) := by
  have hcolon : Reads α .any (fun m => m.finish ":") .clear := .finish (by decide)
  have hhead : Reads α (entry (.node (.labeledStatement label body)))
      (fun m => scriptOr m (absent "LabeledStatement" "label") label) .any := by
    refine reads_slot hreads hlabel (fun _ => .fail _) ?_ (exit_under_any label)
    rcases slot_name hP hlabel with rfl | ⟨name, rfl, -⟩
    · rfl
    · exact Class.under_self _
  exact (hhead.append hcolon).append (reads_statement hreads hbody (clear_under_entry body))

theorem reads_declaration {declarations : Tree} (kind : VariableKind)
    (h : ListSlot P .variableDeclarator declarations) :
    ReadsNode α (.variableDeclaration declarations (.ofMember (.variableKind kind))) := by
  have hword : Reads α .any (fun _ => write (Text.join [Text.ofString "var", " "])) .clear :=
    .spelled (by decide)
  have hscript (m : Mode) :
      nodeScript m (.variableDeclaration declarations (.ofMember (.variableKind kind))) =
        if !declarations.isTrue then Script.fail .noDeclarators
        else write (Text.join [Text.ofString "var", " "]) ++ m.prettyOnly deeper ++
          listScript m (.declarators false) declarations ++ m.prettyOnly shallower ++
          m.finish ";" := by
    rw [nodeScript]
    rfl
  refine Reads.congr hscript ?_
  split
  · exact .fail _
  · exact (((hword.append (.prettyOnly rfl rfl)).append
      (reads_declarators hP hreads false h)).append (.prettyOnly rfl rfl)).append
      (.finish (by decide))

theorem reads_declarator {id init : Tree} (hid : NodeSlot P .identifier id)
    (hinit : NodeSlot P .expression init) : ReadsNode α (.variableDeclarator id init) := by
  have hname : Reads α .clear
      (fun m => scriptOr m (absent "VariableDeclarator" "id") id) .operand := by
    refine reads_slot hreads hid (fun _ => .fail _) (clear_under_entry id) ?_
    rcases slot_name hP hid with rfl | ⟨name, rfl, -⟩ <;> rfl
  have hassign : Reads α .operand (fun m => m.token "=" " = ") .clear := .token (by decide)
  have hvalue : Reads α .clear (fun m => enclosedIf (Place.item.refuses init)
      (scriptOr m empty init)) .any :=
    reads_enclosed hreads hinit (by rintro rfl; exact .empty rfl)
  exact hname.append (.onlyIf (!init.isMissing) (fun _ => hassign.append hvalue) fun _ => rfl)

/-- A node is read if the nodes in it are. -/
theorem reads_node (hkept : n.IsKept α) (hapart : n.StaysApart) (h : n.Filled P) :
    ReadsNode α n := by
  cases n with
  | bare cls => exact .fail _
  | program body => exact reads_statements hP hreads h
  | identifier name =>
    obtain ⟨text, rfl⟩ : ∃ text, name = .ofText text := h
    exact reads_identifier (hkept.name text rfl)
  | literal value =>
    exact reads_literal fun pattern flags heq => hkept.regex pattern flags (by rw [heq])
  | thisExpression => exact .spelled (i := .any) (k := .object) (by decide)
  | arrayExpression elements =>
    have helements : Reads α .clear (fun m => listScript m .elements elements ++
        onlyIf (endsWithHole elements) (write ",")) .any :=
      (reads_separated hP hreads (l := .elements) rfl rfl (.empty rfl)
        (.finish (by decide)) h).append
        (.onlyIf _ (fun _ => .spelled (by decide)) fun _ => rfl)
    exact reads_brackets _ (by decide) (by decide) (by decide) helements
  | objectExpression properties =>
    have hproperties : Reads α .clear (fun m => listScript m .properties properties) .any :=
      reads_separated hP hreads rfl rfl (.fail _) (.finish (by decide)) h
    exact reads_brackets _ (by decide) (by decide) (by decide) hproperties
  | functionExpression id params body =>
    obtain ⟨hid, hparams, hbody⟩ : NodeSlot P .identifier id ∧ ListSlot P .identifier params ∧
      ListSlot P .statement body := h
    have hhead : Reads α .any (fun _ => write "function" ++ optionalName id) .any :=
      (Reads.spelled (by decide)).append (reads_optionalName hP hid)
    exact reads_function hP hreads "FunctionExpression" false hhead hparams hbody (.inr ⟨rfl, rfl⟩)
  | unaryExpression operator argument =>
    obtain ⟨⟨op, rfl⟩, hargument⟩ : (∃ op, operator = .ofMember (.unaryOperator op)) ∧
      NodeSlot P .expression argument := h
    exact reads_unary hreads op hargument
  | binaryExpression left operator right =>
    obtain ⟨⟨op, rfl⟩, hleft, hright⟩ : (∃ op, operator = .ofMember (.binaryOperator op)) ∧
      NodeSlot P .expression left ∧ ListSlot P .expression right := h
    exact reads_binary hP hreads op hleft hright
  | memberExpression object indices computed =>
    obtain ⟨hobject, hindices, -⟩ : NodeSlot P .expression object ∧ ListSlot P .expression indices ∧
      _ := h
    exact reads_member hP hreads hobject hindices hapart.number
  | conditionalExpression test consequent alternate =>
    obtain ⟨htest, hconsequent, halternate⟩ : NodeSlot P .expression test ∧
      NodeSlot P .expression consequent ∧ NodeSlot P .expression alternate := h
    have hcondition : Reads α (entry (.node (.conditionalExpression test consequent alternate)))
        (fun m => enclosedIf (Place.operand.refuses test)
          (scriptOr m (absent "ConditionalExpression" "test") test)) .operand :=
      reads_operand hreads htest (entry_under_any _) (fun n => entry_through _ rfl)
        fun _ _ => Option.some_ne_none _
    have hmark : Reads α .operand (fun m => m.token "?" " ? ") .clear := .token (by decide)
    have hcolon : Reads α .any (fun m => m.token ":" " : ") .clear := .token (by decide)
    have hbranch {t : Tree} {field : String} (h : NodeSlot P .expression t) :
        Reads α .clear (fun m => enclosedIf (Place.item.refuses t)
          (scriptOr m (absent "ConditionalExpression" field) t)) .any :=
      reads_enclosed hreads h (by rintro rfl; exact .fail _)
    exact (((hcondition.append hmark).append (hbranch hconsequent)).append hcolon).append
      (hbranch halternate)
  | callExpression callee arguments =>
    obtain ⟨hcallee, harguments⟩ : NodeSlot P .expression callee ∧
      ListSlot P .expression arguments := h
    have hcalled : Reads α (entry (.node (.callExpression callee arguments)))
        (fun m => enclosedIf (Place.callee.refuses callee)
          (scriptOr m (absent "CallExpression" "callee") callee)) .any :=
      reads_placed hreads hcallee (fun _ _ => Option.some_ne_none _) (entry_under_any _) rfl
        fun n hn hexpression hrefuses =>
          ⟨entry_through _ rfl hn hexpression hrefuses, exit_under_any callee⟩
    exact reads_call hP hreads "CallExpression" hcalled harguments
  | newExpression callee arguments =>
    obtain ⟨hcallee, harguments⟩ : NodeSlot P .expression callee ∧
      ListSlot P .expression arguments := h
    have hword : Reads α .any (fun _ => write "new ") .clear := .spelled (by decide)
    have hcalled : Reads α .clear (fun m => enclosedIf (refusedByNew callee)
        (scriptOr m (absent "NewExpression" "callee") callee)) .any :=
      reads_enclosed hreads hcallee (by rintro rfl; exact .fail _)
    exact reads_call hP hreads "NewExpression" (hword.append hcalled) harguments
  | sequenceExpression expressions => exact reads_sequence hP hreads h
  | blockStatement body =>
    exact .braces false true _ (reads_statements hP hreads h) (.inl rfl)
  | expressionStatement expression =>
    have hexpression : NodeSlot P .expression expression := h
    refine Reads.given (fun _ => rfl) fun encloses _ => ?_
    have hinner : Reads α (entry (.node (.expressionStatement expression)))
        (fun m => enclosedIf encloses
          (scriptOr m (absent "ExpressionStatement" "expression") expression)) .any :=
      reads_placed hreads hexpression (fun _ _ => Option.some_ne_none _) (entry_under_any _) rfl
        fun n hn hexpression _ =>
          ⟨entry_through false rfl hn hexpression rfl, exit_under_any expression⟩
    exact hinner.append (.finish (by decide))
  | debuggerStatement => exact .finish (i := .any) (by decide)
  | withStatement object body =>
    obtain ⟨hobject, hbody⟩ : NodeSlot P .expression object ∧ NodeSlot P .statement body := h
    have hhead : Reads α .any (fun m => m.token "with(" "with (" ++
        scriptOr m (absent "WithStatement" "object") object ++ write ")") .clear :=
      reads_head (by decide) (reads_inner hreads hobject fun _ => .fail _)
    exact hhead.append
      (reads_body hP hreads true false hbody hkept.kept rfl (clear_under_entry body))
  | returnStatement argument =>
    have hargument : NodeSlot P .expression argument := h
    have hword : Reads α .any (fun _ => write "return") .any := .spelled (by decide)
    have hblank : Reads α .any (fun _ => write " ") .clear := .spelled (by decide)
    have hvalue : Reads α .any (fun m => write " " ++ scriptOr m empty argument) .any :=
      hblank.append (reads_inner hreads hargument fun _ => .empty rfl)
    exact (hword.append (.onlyIf (!argument.isMissing) (fun _ => hvalue) fun _ => rfl)).append
      (.finish (by decide))
  | labeledStatement label body =>
    obtain ⟨hlabel, hbody⟩ : NodeSlot P .identifier label ∧ NodeSlot P .statement body := h
    exact reads_labeled hP hreads hlabel hbody
  | breakStatement label =>
    have hword : Reads α .any (fun _ => write "break") .any := .spelled (by decide)
    exact (hword.append (reads_optionalName hP h)).append (.finish (by decide))
  | continueStatement label =>
    have hword : Reads α .any (fun _ => write "continue") .any := .spelled (by decide)
    exact (hword.append (reads_optionalName hP h)).append (.finish (by decide))
  | ifStatement test consequent alternate =>
    obtain ⟨htest, hconsequent, halternate⟩ : NodeSlot P .expression test ∧
      NodeSlot P .statement consequent ∧ NodeSlot P .statement alternate := h
    exact reads_if hP hreads htest hconsequent halternate hkept.kept hapart.escape
  | switchStatement discriminant cases =>
    obtain ⟨hdiscriminant, hcases⟩ : NodeSlot P .expression discriminant ∧
      ListSlot P .switchCase cases := h
    have hword : Reads α .any (fun m => m.token "switch(" "switch (") .clear := .token (by decide)
    have hopening : Reads α .any (fun m => m.token ")\x7b" ") \x7b") .clear := .token (by decide)
    have hhead : Reads α .any (fun m => m.token "switch(" "switch (" ++
        scriptOr m (absent "SwitchStatement" "discriminant") discriminant ++
        m.token ")\x7b" ") \x7b" ++ m.prettyOnly (newline ++ deeper)) .clear :=
      ((hword.append (reads_inner hreads hdiscriminant fun _ => .fail _)).append hopening).append
        (.prettyOnly rfl rfl)
    exact ((hhead.append (reads_cases hP hreads hcases)).append (.prettyOnly rfl rfl)).append
      (.finish (by decide))
  | switchCase test body =>
    obtain ⟨htest, hbody⟩ : NodeSlot P .expression test ∧ ListSlot P .statement body := h
    exact reads_clause hP hreads htest hbody
  | throwStatement argument =>
    have hword : Reads α .any (fun _ => write "throw ") .clear := .spelled (by decide)
    exact (hword.append (reads_inner (c := .expression) hreads h fun _ => .fail _)).append
      (.finish (by decide))
  | tryStatement block handler finalizer =>
    obtain ⟨hblock, hhandler, hfinalizer⟩ : BlockSlot P block ∧ NodeSlot P .catchClause handler ∧
      BlockSlot P finalizer := h
    refine Reads.given (fun _ => rfl) fun _ _ => Reads.given (fun _ => rfl) fun final _ => ?_
    have hword : Reads α .any (fun _ => write "try") .any := .spelled (by decide)
    have hfinally : Reads α .clear (fun m => m.token "finally" " finally") .any :=
      .token (by decide)
    exact ((hword.append (reads_block hP hreads false hblock)).append
      (reads_handler hP hreads (!final) hhandler)).append (.onlyIf final
        (fun _ => hfinally.append (reads_block hP hreads true hfinalizer)) fun _ => rfl)
  | catchClause param body =>
    obtain ⟨hparam, hbody⟩ : NodeSlot P .identifier param ∧ ListSlot P .statement body := h
    exact reads_catchFrame hP hreads true hparam hbody
  | whileStatement test body =>
    obtain ⟨htest, hbody⟩ : NodeSlot P .expression test ∧ NodeSlot P .statement body := h
    have hhead : Reads α .any (fun m => m.token "while(" "while (" ++
        scriptOr m (absent "WhileStatement" "test") test ++ write ")") .clear :=
      reads_head (by decide) (reads_inner hreads htest fun _ => .fail _)
    exact hhead.append
      (reads_body hP hreads true false hbody hkept.kept rfl (clear_under_entry body))
  | doWhileStatement body test =>
    obtain ⟨hbody, htest⟩ : NodeSlot P .statement body ∧ NodeSlot P .expression test := h
    exact reads_doWhile hP hreads hbody htest hkept.kept hapart.escape
  | forStatement init test update body =>
    obtain ⟨hinit, htest, hupdate, hbody⟩ :
      ChoiceSlot P .variableDeclaration .expression init ∧ NodeSlot P .expression test ∧
      NodeSlot P .expression update ∧ NodeSlot P .statement body := h
    have hword : Reads α .any (fun m => m.token "for(" "for (") .clear := .token (by decide)
    have hsemicolon : Reads α .any (fun m => m.token ";" "; ") .clear := .token (by decide)
    have hclosing : Reads α .any (fun _ => write ")") .clear := .spelled (by decide)
    have hoptional {t : Tree} (h : NodeSlot P .expression t) :
        Reads α .clear (fun m => scriptOr m empty t) .any :=
          reads_inner hreads h fun _ => .empty rfl
    have hhead := (((((hword.append (reads_forInit hP hreads hinit)).append hsemicolon).append
      (hoptional htest)).append hsemicolon).append (hoptional hupdate)).append hclosing
    exact hhead.append
      (reads_body hP hreads true false hbody hkept.kept rfl (clear_under_entry body))
  | forInStatement left right body =>
    obtain ⟨hleft, hright, hbody⟩ : ChoiceSlot P .variableDeclaration .identifier left ∧
      NodeSlot P .expression right ∧ NodeSlot P .statement body := h
    have hword : Reads α .any (fun m => m.token "for(" "for (") .clear := .token (by decide)
    have hin : Reads α .any (fun _ => write " in ") .clear := .spelled (by decide)
    have hclosing : Reads α .any (fun _ => write ")") .clear := .spelled (by decide)
    have hright : Reads α .clear
        (fun m => scriptOr m (absent "ForInStatement" "right") right) .any :=
      reads_inner hreads hright fun _ => .fail _
    have hhead := (((hword.append (reads_forInLeft hP hreads hleft)).append hin).append
      hright).append hclosing
    exact hhead.append
      (reads_body hP hreads true false hbody hkept.kept rfl (clear_under_entry body))
  | functionDeclaration id params body =>
    obtain ⟨hid, hparams, hbody⟩ : NodeSlot P .identifier id ∧ ListSlot P .identifier params ∧
      ListSlot P .statement body := h
    have hword : Reads α .any (fun _ => write "function ") .clear := .spelled (by decide)
    have hhead : Reads α .any (fun m => write "function " ++
        scriptOr m (absent "FunctionDeclaration" "id") id) .any :=
      hword.append (reads_inner hreads hid fun _ => .fail _)
    exact reads_function hP hreads "FunctionDeclaration" true hhead hparams hbody (.inl rfl)
  | variableDeclaration declarations kind =>
    obtain ⟨hdeclarations, kind, rfl⟩ : ListSlot P .variableDeclarator declarations ∧
      ∃ k, kind = .ofMember (.variableKind k) := h
    exact reads_declaration hP hreads kind hdeclarations
  | variableDeclarator id init =>
    obtain ⟨hid, hinit⟩ : NodeSlot P .identifier id ∧ NodeSlot P .expression init := h
    exact reads_declarator hP hreads hid hinit
  | property key value kind =>
    obtain ⟨hkey, hvalue, kind, rfl⟩ : ChoiceSlot P .literal .identifier key ∧
      NodeSlot P .expression value ∧ ∃ k, kind = .ofMember (.propertyKind k) := h
    exact reads_property hP hreads kind hkey hvalue

end Nodes

end Lexical

end ScriptTree
