import ScriptTree.Proofs.Source.Rendering
import ScriptTree.Proofs.Structure.Printing

/-!
Where printing fails. The script of a node that is in place fails with the first fault of
its parts, and which one that is does not depend on the mode: a block that loses its braces
and an if that becomes a conditional expression visit the same parts in the same order.
-/

namespace ScriptTree.Source

open Exchange Script

section Failures

variable {m : Mode} {s : Script}

@[simp] theorem failure_fail (e : TreeError) : (fail e).failure = some e := rfl

@[simp] theorem failure_token (minified pretty : Text) :
    (m.token minified pretty).failure = none := rfl

@[simp] theorem failure_finish (t : Text) : (m.finish t).failure = none := by
  cases m <;> rfl

@[simp] theorem failure_writeValue (t : Tree) : (writeValue t).failure = none := by
  unfold writeValue
  split <;> rfl

@[simp] theorem failure_onlyIf (condition : Bool) :
    (onlyIf condition s).failure = if condition then s.failure else none := by
  cases condition <;> rfl

@[simp] theorem failure_enclosedIf (condition : Bool) :
    (enclosedIf condition s).failure = s.failure := by
  cases condition with
  | false => rfl
  | true => simp [enclosedIf, append_failure]

@[simp] theorem failure_prettyOnly :
    (m.prettyOnly s).failure = if m.isMinified then none else s.failure := by
  cases m <;> rfl

@[simp] theorem failure_braces (spacer newline isEmpty : Bool) :
    (m.braces spacer newline isEmpty s).failure = if isEmpty then none else s.failure := by
  cases m <;> cases spacer <;> cases newline <;> cases isEmpty <;>
    simp [Mode.braces, append_failure, Mode.isMinified]

@[simp] theorem failure_bracketed (opening closing : Text) :
    (bracketed m opening closing s).failure = s.failure := by
  cases m <;> simp [bracketed, append_failure, Mode.isMinified]

@[simp] theorem failure_looseBody : (looseBody m s).failure = s.failure := by
  simp [looseBody, append_failure]

@[simp] theorem failure_clauseHead (isDefault : Bool) :
    (clauseHead m isDefault s).failure = if isDefault then none else s.failure := by
  cases isDefault <;> simp [clauseHead, append_failure]

end Failures

/-- The first fault of a slot; `missing` is the one of an empty slot. -/
def slotFault (missing : Option TreeError) : Tree → Option TreeError
  | .missing => missing
  | .node n => (nodeScript .pretty n).failure
  | t => some (.unsupportedNode t.typeName)

def itemsFault (missing : Option TreeError) : Tree → Option TreeError
  | .list items => items.findSome? (slotFault missing)
  | _ => none

/-! ### Looking ahead

Whether a statement takes an else, loses its braces or opens like another statement can
always be told in a tree that is in place. -/

section Decisions

variable {P : Node Tree → Prop} {m : Mode} {t : Tree}

theorem used_sole?_list (items : List Tree) :
    ∃ sole, used (Tree.list items).sole? = .ok sole := by
  rw [Structure.sole?_list]
  exact ⟨_, rfl⟩

theorem soleExpression_ok (hP : ∀ n, P n → n.HasSlots) (h : NodeSlot P .statement t) :
    ∃ expression, soleExpression t = .ok expression := by
  rcases h with rfl | ⟨n, rfl, -, hn⟩
  · exact ⟨_, rfl⟩
  · cases n with
    | blockStatement body =>
      obtain ⟨items, rfl, -⟩ : ListSlot P .statement body := hn.filled hP
      obtain ⟨sole, hsole⟩ := used_sole?_list items
      exact ⟨_, by rw [soleExpression, hsole]; rfl⟩
    | _ => exact ⟨_, rfl⟩

theorem becomesConditional_ok (hP : ∀ n, P n → n.HasSlots) (test : Tree)
    {consequent alternate : Tree} (hconsequent : NodeSlot P .statement consequent)
    (halternate : NodeSlot P .statement alternate) :
    ∃ b, becomesConditional m test consequent alternate = .ok b := by
  obtain ⟨e, he⟩ := soleExpression_ok hP hconsequent
  obtain ⟨e', he'⟩ := soleExpression_ok hP halternate
  unfold becomesConditional
  split
  · exact ⟨_, by rw [he, he']; rfl⟩
  · exact ⟨_, rfl⟩

/-- What becomes a conditional expression has a test and a single expression in both
branches. -/
theorem becomesConditional_cases {test consequent alternate : Tree}
    (h : becomesConditional m test consequent alternate = .ok true) :
    test ≠ .missing ∧ ∃ e e', soleExpression consequent = .ok e ∧ e ≠ .missing ∧
      soleExpression alternate = .ok e' ∧ e' ≠ .missing := by
  have hmissing : ∀ t : Tree, t.isMissing = false → t ≠ .missing := by
    rintro t ht rfl
    cases ht
  unfold becomesConditional at h
  split at h
  · next hcondition =>
    simp only [Bool.and_eq_true, Bool.not_eq_true'] at hcondition
    simp only [bind_eq_ok, pure_eq_ok, Bool.and_eq_true, Bool.not_eq_true'] at h
    obtain ⟨e, he, e', he', hpresent, hpresent'⟩ := h
    exact ⟨hmissing test hcondition.1.2, e, e', he, hmissing e hpresent, he',
      hmissing e' hpresent'⟩
  · cases h

/-- A decision about the statement in a slot can be made if it can be for every node. -/
theorem takesElse_slot (hthere : ∀ n, P n → ∀ m, ∃ b, takesElse m (.node n) = .ok b)
    (h : NodeSlot P .statement t) : ∃ b, takesElse m t = .ok b := by
  rcases h with rfl | ⟨n, rfl, -, hn⟩
  · exact ⟨_, rfl⟩
  · exact hthere n hn.here m

theorem takesElse_node (hP : ∀ n, P n → n.HasSlots)
    (hthere : ∀ n, P n → ∀ m, ∃ b, takesElse m (.node n) = .ok b) {n : Node Tree}
    (h : n.Filled P) : ∃ b, takesElse m (.node n) = .ok b := by
  cases n with
  | ifStatement test consequent alternate =>
    obtain ⟨-, hconsequent, halternate⟩ : NodeSlot P .expression test ∧
      NodeSlot P .statement consequent ∧ NodeSlot P .statement alternate := h
    rw [takesElse]
    split
    · exact ⟨_, rfl⟩
    · obtain ⟨folds, hfolds⟩ := becomesConditional_ok (m := m) hP test hconsequent halternate
      rw [hfolds, ok_bind]
      cases folds with
      | true => exact ⟨_, rfl⟩
      | false => exact takesElse_slot hthere halternate
  | whileStatement test body =>
    rw [takesElse]
    exact takesElse_slot hthere h.2
  | withStatement object body =>
    rw [takesElse]
    exact takesElse_slot hthere h.2
  | forStatement init test update body =>
    rw [takesElse]
    exact takesElse_slot hthere h.2.2.2
  | forInStatement left right body =>
    rw [takesElse]
    exact takesElse_slot hthere h.2.2
  | labeledStatement label body =>
    rw [takesElse]
    exact takesElse_slot hthere h.2
  | blockStatement body =>
    obtain ⟨items, rfl, hitems⟩ : ListSlot P .statement body := h
    have hblock := Structure.takesElse_block (m := m) items
    rw [Structure.blockTree] at hblock
    rw [hblock]
    split
    · split
      · exact takesElse_slot hthere (hitems _ List.mem_cons_self)
      · exact ⟨_, rfl⟩
    · exact ⟨_, rfl⟩
  | _ => exact ⟨_, rfl⟩

theorem takesElse_ok (h : t.Throughout Node.HasSlots) (m : Mode) : ∃ b, takesElse m t = .ok b := by
  have hthroughout : t.Throughout fun n => n.HasSlots ∧ ∀ m, ∃ b, takesElse m (.node n) = .ok b :=
    h.strengthen (fun n hn => hn) fun n _ hn m =>
      takesElse_node (fun n hn => hn.1) (fun n hn => hn.2) hn
  cases t with
  | node n => exact hthroughout.here.2 m
  | _ => exact ⟨_, rfl⟩

theorem standsWithoutBraces_ok (h : t.Throughout Node.HasSlots) (beforeElse : Bool) :
    ∃ b, standsWithoutBraces m beforeElse t = .ok b := by
  obtain ⟨takes, htakes⟩ := takesElse_ok h m
  unfold standsWithoutBraces
  split
  · exact ⟨_, rfl⟩
  · split
    · exact ⟨_, by rw [htakes]; rfl⟩
    · exact ⟨_, rfl⟩

theorem dropsBraces_ok (hP : ∀ n, P n → n.HasSlots) (beforeElse : Bool) {body : Tree}
    (h : ListSlot P .statement body) : ∃ b, dropsBraces m beforeElse body = .ok b := by
  obtain ⟨items, rfl, hitems⟩ := h
  have hsole := Structure.sole?_list items
  cases m with
  | pretty => exact ⟨_, rfl⟩
  | minified =>
    cases items with
    | nil => exact ⟨_, rfl⟩
    | cons t rest =>
      cases rest with
      | nil =>
        have ht : t.Throughout Node.HasSlots := (hitems t List.mem_cons_self).hasSlots hP
        exact standsWithoutBraces_ok (m := .minified) ht beforeElse
      | cons t' rest => exact ⟨_, by rw [dropsBraces, hsole]; rfl⟩

theorem hasBraces_ok (hP : ∀ n, P n → n.HasSlots) (beforeElse : Bool)
    (h : NodeSlot P .statement t) : ∃ b, hasBraces m beforeElse t = .ok b := by
  obtain ⟨takes, htakes⟩ := takesElse_ok (h.hasSlots hP) m
  unfold hasBraces
  split
  · next body =>
    obtain ⟨drops, hdrops⟩ := dropsBraces_ok (m := m) hP beforeElse (h.throughout.filled hP)
    exact ⟨_, by rw [hdrops]; rfl⟩
  · split
    · exact ⟨_, htakes⟩
    · exact ⟨_, rfl⟩

theorem opensLikeStatement_slot (hthere : ∀ n, P n → ∃ b, opensLikeStatement (.node n) = .ok b)
    {c : Category} (h : NodeSlot P c t) : ∃ b, opensLikeStatement t = .ok b := by
  rcases h with rfl | ⟨n, rfl, -, hn⟩
  · exact ⟨_, rfl⟩
  · exact hthere n hn.here

theorem opensLikeStatement_node (hthere : ∀ n, P n → ∃ b, opensLikeStatement (.node n) = .ok b)
    {n : Node Tree} (h : n.Filled P) : ∃ b, opensLikeStatement (.node n) = .ok b := by
  cases n with
  | memberExpression object indices computed =>
    rw [opensLikeStatement]
    split
    · exact ⟨_, rfl⟩
    · exact opensLikeStatement_slot (c := .expression) hthere h.1
  | callExpression callee arguments =>
    rw [opensLikeStatement]
    split
    · exact ⟨_, rfl⟩
    · exact opensLikeStatement_slot (c := .expression) hthere h.1
  | conditionalExpression test consequent alternate =>
    rw [opensLikeStatement]
    split
    · exact ⟨_, rfl⟩
    · exact opensLikeStatement_slot (c := .expression) hthere h.1
  | sequenceExpression expressions =>
    obtain ⟨items, rfl, hitems⟩ : ListSlot P .expression expressions := h
    cases items with
    | nil => exact ⟨_, rfl⟩
    | cons first rest =>
      rw [opensLikeStatement]
      exact opensLikeStatement_slot hthere (hitems first List.mem_cons_self)
  | unaryExpression operator argument =>
    obtain ⟨⟨op, rfl⟩, hargument⟩ : (∃ op, operator = .ofMember (.unaryOperator op)) ∧
      NodeSlot P .expression argument := h
    obtain ⟨opens, hopens⟩ := opensLikeStatement_slot hthere hargument
    rw [opensLikeStatement, Tree.ofMember, standsBefore, ok_bind, hopens]
    split
    · exact ⟨_, rfl⟩
    · split
      · exact ⟨_, rfl⟩
      · exact ⟨_, rfl⟩
  | _ => exact ⟨_, rfl⟩

theorem opensLikeStatement_ok (h : t.Throughout Node.HasSlots) :
    ∃ b, opensLikeStatement t = .ok b := by
  have hthroughout : t.Throughout fun n => n.HasSlots ∧ ∃ b, opensLikeStatement (.node n) = .ok b :=
    h.strengthen (fun n hn => hn) fun n _ hn => opensLikeStatement_node (fun n hn => hn.2) hn
  cases t with
  | node n => exact hthroughout.here.2
  | _ => exact ⟨_, rfl⟩

end Decisions

/-! ### Faults of nodes -/

def absentFault (owner field : String) (c : Category) (holes : Bool) : Option TreeError :=
  if c = .statement ∨ holes = true then none
  else match c with
  | .identifier => some (.paramNotIdentifier owner)
  | .property => some .missingProperty
  | .switchCase => some .missingCase
  | .variableDeclarator => some .missingDeclarator
  | _ => some (.required owner field)

def blockFault : Tree → Option TreeError
  | .node (.blockStatement body) => itemsFault none body
  | _ => some (.misuse .noSuchPart)

def namesFault : Tree → Option TreeError
  | .list items => items.findSome? fun t =>
    if t.kind? = some .identifier then none else some .indexNotIdentifier
  | _ => none

def declarationFault (accepts : Nat → Bool) (wrong : TreeError) : Tree → Option TreeError
  | .node (.variableDeclaration (.list items) _) =>
    if accepts items.length then itemsFault (some .missingDeclarator) (.list items)
    else some wrong
  | _ => some (.misuse .noSuchPart)

def choiceFault (empty : Option TreeError) (first : Tree → Option TreeError) :
    Tree → Option TreeError
  | .choice .empty => empty
  | .choice (.first t) => first t
  | .choice (.second t) => slotFault none t
  | _ => some (.misuse .noSuchPart)

/-- The first fault of the first sort of a choice: a declaration in the head of a loop has
declarators, and one of keys has one. -/
def firstSortFault (owner : String) : Expectation → Tree → Option TreeError
  | .forInit => declarationFault (0 < ·) (.noInlineDeclarators owner)
  | .forInLeft => declarationFault (· = 1) .forInDeclarators
  | _ => slotFault none

def entryFault (owner : String) (entry : Exchange.Entry) : Option TreeError :=
  match entry.role with
  | .child c =>
    slotFault (if c = .statement then none else some (.required owner entry.name)) entry.tree
  | .optional _ => slotFault none entry.tree
  | .elements c holes => itemsFault (absentFault owner entry.name c holes) entry.tree
  | .sole _ => itemsFault (some (.required owner entry.name)) entry.tree
  | .statements => itemsFault none entry.tree
  | .choice e _ mayBeEmpty =>
    choiceFault (if mayBeEmpty then none else some (.required owner entry.name))
      (firstSortFault owner e) entry.tree
  | .literal => (ofExcept (literal entry.tree)).failure
  | _ => none

def faultAfter {α : Type} (result : Except TreeError α) (fault : α → Option TreeError) :
    Option TreeError :=
  match result with
  | .ok value => fault value
  | .error e => some e

def accessorFault (word : Text) (key : Option TreeError) : Tree → Option TreeError
  | .node (.functionExpression _ params body) =>
    key.or ((itemsFault (some (.paramNotIdentifier "Property")) params).or (itemsFault none body))
  | _ => some (.accessorNotFunction word)

/-- The first fault of a node. Most nodes are gone through entry by entry. -/
def nodeFault (n : Node Tree) : Option TreeError :=
  match n with
  | .bare cls => some (.unsupportedNode cls.typeName)
  | .memberExpression object indices computed =>
    (slotFault (some (.required "MemberExpression" "object")) object).or
      (if computed.isTrue then itemsFault (some (.required "MemberExpression" "indices")) indices
      else namesFault indices)
  | .tryStatement block handler finalizer =>
    faultAfter (Tree.checkTry handler finalizer) fun _ =>
      faultAfter finalizer.hasFinalizer fun final =>
        (blockFault block).or
          ((slotFault none handler).or (if final then blockFault finalizer else none))
  | .variableDeclaration declarations kind =>
    declarationFault (0 < ·) .noDeclarators (.node (.variableDeclaration declarations kind))
  | .property (.choice .empty) _ _ => some (.required "Property" "key")
  | .property key value kind =>
    let keyFault := choiceFault none (slotFault none) key
    if definesValue kind then keyFault.or (slotFault (some (.required "Property" "value")) value)
    else faultAfter (kindWord kind) fun word => accessorFault word keyFault value
  | n => n.entries.findSome? (entryFault n.typeName)

section Trees

variable {P : Node Tree → Prop} {m : Mode} {t : Tree} {missing : Script}

@[simp] theorem failure_given {α : Type} (result : Except TreeError α) (s : α → Script) :
    (given result s).failure = faultAfter result fun value => (s value).failure := by
  cases result <;> rfl

@[simp] theorem failure_absent (owner field : String) :
    (absent owner field).failure = some (.required owner field) := rfl

@[simp] theorem findSome?_cons_or {α : Type} (f : α → Option TreeError) (a : α) (rest : List α) :
    (a :: rest).findSome? f = (f a).or (rest.findSome? f) := by
  rw [List.findSome?_cons]
  cases f a <;> rfl

/-- Where there are no items there is no fault of any. -/
theorem itemsFault_of_empty (missing : Option TreeError) (h : t.isTrue = false) :
    itemsFault missing t = none := by
  cases t with
  | list items =>
    cases items with
    | nil => rfl
    | cons first rest => cases h
  | _ => rfl

@[simp] theorem ite_itemsFault (missing : Option TreeError) (t : Tree) :
    (if t.isTrue = false then none else itemsFault missing t) = itemsFault missing t := by
  split
  · next h => rw [itemsFault_of_empty missing h]
  · rfl

/-- What is printed only where a slot holds something has the faults of the slot. -/
@[simp] theorem ite_slotFault (missing : Option TreeError) (t : Tree) :
    (if t.isMissing = false then slotFault missing t else none) = slotFault none t := by
  cases t <;> rfl

@[simp] theorem ite_slotFault' (missing : Option TreeError) (t : Tree) :
    (if t.isMissing = true then none else slotFault missing t) = slotFault none t := by
  cases t <;> rfl

section Slots

variable (hP : ∀ n, P n → n.HasSlots)
  (hfault : ∀ n, P n → ∀ m, (nodeScript m n).failure = (nodeScript .pretty n).failure)

include hfault

theorem failure_slot {c : Category} (h : NodeSlot P c t) :
    (scriptOr m missing t).failure = slotFault missing.failure t := by
  rcases h with rfl | ⟨n, rfl, -, hn⟩
  · rfl
  · exact hfault n hn.here m

theorem failure_item {l : Listing} (hl : l ≠ .names) (h : NodeSlot P l.category t) :
    (l.item m t).failure = slotFault (l.absent m).failure t := by
  rw [Listing.item_of_ne hl]
  have hopening : l.opening.failure = none := by cases l <;> rfl
  have hclosing : l.closing.failure = none := by cases l <;> rfl
  simp [append_failure, hopening, hclosing, failure_slot hfault h]

include hP

theorem failure_list {l : Listing} (hl : l ≠ .names) (h : ListSlot P l.category t) :
    (listScript m l t).failure = itemsFault (l.absent m).failure t := by
  obtain ⟨items, rfl, hitems⟩ := h
  have hbetween : (l.between m).failure = none := by
    cases l with
    | declarators inline => cases inline <;> simp [Listing.between]
    | _ => simp [Listing.between]
  rw [listScript, itemsFault]
  generalize true = first
  induction items generalizing first with
  | nil => rfl
  | cons t rest ih =>
    have ht := hitems t List.mem_cons_self
    have hrest := ih (fun item hitem => hitems item (List.mem_cons_of_mem t hitem)) false
    rw [itemScripts_cons hP first rest ht, findSome?_cons_or, ← hrest]
    simp [append_failure, hbetween, failure_item hfault hl ht]

omit hfault in
theorem failure_names (h : ListSlot P .expression t) :
    (listScript m .names t).failure = namesFault t := by
  obtain ⟨items, rfl, hitems⟩ := h
  rw [listScript, namesFault]
  generalize true = first
  induction items generalizing first with
  | nil => rfl
  | cons t rest ih =>
    have ht := hitems t List.mem_cons_self
    have hrest := ih (fun item hitem => hitems item (List.mem_cons_of_mem t hitem)) false
    rw [itemScripts_cons hP (l := .names) first rest ht, findSome?_cons_or, ← hrest]
    by_cases hkind : t.kind? = some .identifier
    · obtain ⟨n, rfl, hn⟩ := node_of_kind? hkind
      cases n with
      | identifier name =>
        rw [Listing.item_identifier]
        simp [append_failure, Listing.between, hkind]
      | _ => cases hn
    · simp [Listing.item, append_failure, Listing.between, hkind]

theorem failure_statements (h : ListSlot P .statement t) :
    (listScript m .statements t).failure = itemsFault none t := by
  rw [failure_list (l := .statements) hP hfault (by simp) h]
  simp [Listing.absent]

theorem slotFault_block (h : ListSlot P .statement t) :
    slotFault none (.node (.blockStatement t)) = itemsFault none t := by
  simp [slotFault, nodeScript, failure_statements hP hfault h]

/-- A body fails as the statement in it does, with or without its braces. -/
theorem failure_body (newline beforeElse : Bool) (h : NodeSlot P .statement t) :
    (bodyScript m newline beforeElse t).failure = slotFault none t := by
  have htakes := takesElse_ok (h.hasSlots hP) m
  rcases h with rfl | ⟨n, rfl, -, hn⟩
  · simp [bodyScript, slotFault]
  · by_cases hblock : ∃ body, n = .blockStatement body
    · obtain ⟨body, rfl⟩ := hblock
      have hbody : ListSlot P .statement body := hn.filled hP
      obtain ⟨drops, hdrops⟩ := dropsBraces_ok (m := m) hP beforeElse hbody
      rw [bodyScript, hdrops, given_ok, slotFault_block hP hfault hbody]
      split
      · exact failure_statements hP hfault hbody
      · simp [failure_statements hP hfault hbody]
    · rw [bodyScript]
      · obtain ⟨takes, htakes⟩ := htakes
        cases beforeElse with
        | false => simp [slotFault, hfault n hn.here m]
        | true =>
          rw [if_pos rfl, htakes, given_ok]
          split <;> simp [slotFault, hfault n hn.here m]
      · exact fun body heq => hblock ⟨body, heq⟩

theorem failure_else (h : NodeSlot P .statement t) :
    (elseScript m t).failure = slotFault none t := by
  rcases h with rfl | ⟨n, rfl, -, hn⟩
  · simp [elseScript, slotFault]
  · by_cases hblock : ∃ body, n = .blockStatement body
    · obtain ⟨body, rfl⟩ := hblock
      have hbody : ListSlot P .statement body := hn.filled hP
      obtain ⟨drops, hdrops⟩ := dropsBraces_ok (m := m) hP false hbody
      rw [elseScript, hdrops, given_ok, slotFault_block hP hfault hbody]
      split
      · exact failure_statements hP hfault hbody
      · simp [failure_statements hP hfault hbody]
    · rw [elseScript]
      · split <;> simp [append_failure, slotFault, hfault n hn.here m]
      · exact fun body heq => hblock ⟨body, heq⟩

/-- The expression of an expression statement fails as the statement does. -/
theorem slotFault_expressionStatement {expression : Tree} (hmissing : expression ≠ .missing)
    (h : NodeSlot P .expression expression) (other : Option TreeError) :
    slotFault none (.node (.expressionStatement expression)) = slotFault other expression := by
  obtain ⟨opens, hopens⟩ := opensLikeStatement_ok (h.hasSlots hP)
  have hslot : ∀ missing, slotFault missing expression = slotFault other expression := by
    intro missing
    cases expression with
    | missing => exact absurd rfl hmissing
    | _ => rfl
  rw [slotFault, nodeScript, hopens, given_ok]
  simp [append_failure, failure_slot hfault h, hslot]

omit hfault in
/-- A branch with a single expression is an expression statement, alone or in a block. -/
theorem soleExpression_cases (h : NodeSlot P .statement t) {expression : Tree}
    (hsole : soleExpression t = .ok expression) (hmissing : expression ≠ .missing) :
    NodeSlot P .expression expression ∧
      (t = .node (.expressionStatement expression) ∨
        t = .node (.blockStatement (.list [.node (.expressionStatement expression)]))) := by
  have hof : ∀ s : Tree, expressionOf s ≠ .missing →
      s = .node (.expressionStatement (expressionOf s)) := by
    intro s hs
    unfold expressionOf at hs ⊢
    split at hs
    · rfl
    · exact absurd rfl hs
  rcases h with rfl | ⟨n, rfl, -, hn⟩
  · exact absurd (Except.ok.inj hsole).symm hmissing
  · cases n with
    | expressionStatement e =>
      obtain rfl : e = expression := Except.ok.inj hsole
      exact ⟨hn.filled hP, .inl rfl⟩
    | blockStatement body =>
      obtain ⟨items, rfl, hitems⟩ : ListSlot P .statement body := hn.filled hP
      rw [soleExpression, Structure.sole?_list] at hsole
      cases items with
      | nil => exact absurd (Except.ok.inj hsole).symm hmissing
      | cons s rest =>
        cases rest with
        | cons s' rest => exact absurd (Except.ok.inj hsole).symm hmissing
        | nil =>
          obtain rfl : expressionOf s = expression := Except.ok.inj hsole
          have hs := hitems s List.mem_cons_self
          rw [hof s hmissing] at hs ⊢
          exact ⟨hs.throughout.filled hP, .inr rfl⟩
    | _ => exact absurd (Except.ok.inj hsole).symm hmissing

/-- A branch that becomes an operand fails as the statement does. -/
theorem failure_foldedBranch (h : NodeSlot P .statement t) {expression : Tree}
    (hsole : soleExpression t = .ok expression) (hmissing : expression ≠ .missing) :
    (foldedBranch m t).failure = slotFault none t := by
  obtain ⟨hexpression, rfl | rfl⟩ := soleExpression_cases hP h hsole hmissing
  · rw [foldedBranch, slotFault_expressionStatement hP hfault hmissing hexpression none]
    simp [failure_slot hfault hexpression]
  · have hitems : ListSlot P .statement (.list [.node (.expressionStatement expression)]) :=
      h.throughout.filled hP
    rw [foldedBranch, slotFault_block hP hfault hitems, itemsFault, findSome?_cons_or,
      slotFault_expressionStatement hP hfault hmissing hexpression none]
    simp [failure_slot hfault hexpression]

theorem failure_block (newline : Bool) (h : BlockSlot P t) :
    (blockPart m newline t).failure = blockFault t := by
  rcases h with rfl | ⟨body, rfl, hbody⟩
  · rfl
  · simp [blockPart, blockFault, failure_statements hP hfault hbody]

theorem failure_handler (newline : Bool) (h : NodeSlot P .catchClause t) :
    (handlerScript m newline t).failure = slotFault none t := by
  rcases h.of_kind rfl (by decide) with rfl | ⟨n, rfl, hn, hthroughout⟩
  · rfl
  · cases n with
    | catchClause param body =>
      obtain ⟨hparam, hbody⟩ : NodeSlot P .identifier param ∧ ListSlot P .statement body :=
        hthroughout.filled hP
      simp [handlerScript, slotFault, nodeScript, catchFrame, append_failure,
        failure_statements hP hfault hbody, failure_slot hfault hparam]
    | _ => cases hn

theorem failure_params (owner : String) (h : ListSlot P .identifier t) :
    (listScript m (.params owner) t).failure = itemsFault (some (.paramNotIdentifier owner)) t :=
  failure_list (l := .params owner) hP hfault (by simp) h

theorem failure_arguments (owner : String) (h : ListSlot P .expression t) :
    (listScript m (.arguments owner) t).failure =
      itemsFault (some (.required owner "arguments")) t :=
  failure_list (l := .arguments owner) hP hfault (by simp) h

theorem failure_declarators (inline : Bool) (h : ListSlot P .variableDeclarator t) :
    (listScript m (.declarators inline) t).failure = itemsFault (some .missingDeclarator) t :=
  failure_list (l := .declarators inline) hP hfault (by simp) h

omit hfault in
theorem failure_optionalName (h : NodeSlot P .identifier t) :
    (optionalName t).failure = slotFault none t := by
  rcases h.name hP with rfl | ⟨name, rfl⟩
  · rfl
  · rfl

/-- An if fails as its parts do, whether it becomes a conditional expression or not. -/
theorem failure_if {test consequent alternate : Tree} (htest : NodeSlot P .expression test)
    (hconsequent : NodeSlot P .statement consequent)
    (halternate : NodeSlot P .statement alternate) :
    (nodeScript m (.ifStatement test consequent alternate)).failure =
      (slotFault (some (.required "IfStatement" "test")) test).or
        ((slotFault none consequent).or (slotFault none alternate)) := by
  obtain ⟨opens, hopens⟩ := opensLikeStatement_ok (htest.hasSlots hP)
  obtain ⟨braces, hbraces⟩ := hasBraces_ok (m := m) hP true hconsequent
  obtain ⟨folds, hfolds⟩ := becomesConditional_ok (m := m) hP test hconsequent halternate
  rw [nodeScript, hfolds, given_ok]
  cases folds with
  | false =>
    simp [append_failure, failure_slot hfault htest, failure_body hP hfault _ _ hconsequent,
      hbraces, failure_else hP hfault halternate, Option.or_assoc]
  | true =>
    obtain ⟨hpresent, e, e', he, hemissing, he', hemissing'⟩ := becomesConditional_cases hfolds
    obtain ⟨encloses, hencloses⟩ : ∃ encloses,
        (if Place.operand.refuses test then .ok false else opensLikeStatement test) =
          .ok encloses := by
      split
      · exact ⟨_, rfl⟩
      · exact ⟨_, hopens⟩
    have htestFault : slotFault none test =
        slotFault (some (.required "IfStatement" "test")) test := by
      cases test with
      | missing => exact absurd rfl hpresent
      | _ => rfl
    rw [if_pos rfl, hencloses, given_ok]
    simp [append_failure, failure_slot hfault htest, htestFault, Option.or_assoc,
      failure_foldedBranch hP hfault hconsequent he hemissing,
      failure_foldedBranch hP hfault halternate he' hemissing']

omit hfault hP in
theorem declaration_cases {n : Node Tree} (hkind : n.kind? = some .variableDeclaration)
    (h : n.Filled P) :
    ∃ items kind word, n = .variableDeclaration (.list items) kind ∧ kindWord kind = .ok word ∧
      ListSlot P .variableDeclarator (.list items) := by
  cases n with
  | variableDeclaration declarations kind =>
    obtain ⟨⟨items, rfl, hitems⟩, k, rfl⟩ : ListSlot P .variableDeclarator declarations ∧
      ∃ k, kind = .ofMember (.variableKind k) := h
    exact ⟨items, _, _, rfl, rfl, items, rfl, hitems⟩
  | _ => cases hkind

theorem failure_declaration {n : Node Tree} (hkind : n.kind? = some .variableDeclaration)
    (h : n.Filled P) :
    (nodeScript m n).failure = declarationFault (0 < ·) .noDeclarators (.node n) := by
  obtain ⟨items, kind, word, rfl, hword, hlist⟩ := declaration_cases hkind h
  have hdeclarators := failure_declarators hP hfault (m := m) false hlist
  cases items with
  | nil => rfl
  | cons first rest =>
    have htrue : (Tree.list (first :: rest)).isTrue = true := rfl
    simp [nodeScript, declarationFault, htrue, hword, append_failure, hdeclarators]

theorem failure_headDeclaration {n : Node Tree} (hkind : n.kind? = some .variableDeclaration)
    (h : n.Filled P) (owner : String) :
    (headDeclaration m owner (.node n)).failure =
      declarationFault (0 < ·) (.noInlineDeclarators owner) (.node n) := by
  obtain ⟨items, kind, word, rfl, hword, hlist⟩ := declaration_cases hkind h
  have hdeclarators := failure_declarators hP hfault (m := m) true hlist
  cases items with
  | nil => rfl
  | cons first rest =>
    have htrue : (Tree.list (first :: rest)).isTrue = true := rfl
    simp [headDeclaration, declarationFault, htrue, hword, append_failure, hdeclarators]

theorem failure_forInDeclaration {n : Node Tree} (hkind : n.kind? = some .variableDeclaration)
    (h : n.Filled P) :
    (forInDeclaration m (.node n)).failure =
      declarationFault (· = 1) .forInDeclarators (.node n) := by
  obtain ⟨items, kind, word, rfl, hword, hlist⟩ := declaration_cases hkind h
  have hdeclarators := failure_declarators hP hfault (m := m) true hlist
  have hsize : used (Tree.list items).size = .ok items.length := rfl
  rw [forInDeclaration, hsize, given_ok]
  by_cases hone : items.length = 1
  · simp [declarationFault, hone, hword, append_failure, hdeclarators]
  · simp [declarationFault, hone]

theorem failure_forInit (h : ChoiceSlot P .variableDeclaration .expression t) :
    (forInit m t).failure =
      choiceFault none (declarationFault (0 < ·) (.noInlineDeclarators "ForStatement")) t := by
  rcases h with rfl | ⟨n, rfl, hkind, hn⟩ | ⟨n, rfl, -, hn⟩
  · rfl
  · exact failure_headDeclaration hP hfault hkind (hn.filled hP) "ForStatement"
  · exact hfault n hn.here m

theorem failure_forInLeft (h : ChoiceSlot P .variableDeclaration .identifier t) :
    (forInLeft m t).failure =
      choiceFault (some (.required "ForInStatement" "left"))
        (declarationFault (· = 1) .forInDeclarators) t := by
  rcases h with rfl | ⟨n, rfl, hkind, hn⟩ | ⟨n, rfl, -, hn⟩
  · rfl
  · exact failure_forInDeclaration hP hfault hkind (hn.filled hP)
  · exact hfault n hn.here m

omit hP in
theorem failure_key (h : ChoiceSlot P .literal .identifier t) (hempty : t ≠ .choice .empty) :
    (keyScript m t).failure = choiceFault none (slotFault none) t := by
  rcases h with rfl | ⟨n, rfl, -, hn⟩ | ⟨n, rfl, -, hn⟩
  · exact absurd rfl hempty
  · exact hfault n hn.here m
  · exact hfault n hn.here m

theorem failure_accessor {key : Script} (word : Text) (h : NodeSlot P .expression t) :
    (accessorScript m word key t).failure = accessorFault word key.failure t := by
  unfold accessorScript accessorFault
  split
  · next id params body =>
    obtain ⟨-, hparams, hbody⟩ : NodeSlot P .identifier id ∧ ListSlot P .identifier params ∧
      ListSlot P .statement body := h.throughout.filled hP
    simp [append_failure, failure_params hP hfault _ hparams, failure_statements hP hfault hbody,
      Option.or_assoc]
  · simp_all

attribute [local simp] nodeScript nodeFault Node.entries entryFault absentFault append_failure
  Node.typeName Node.kind? Kind.typeName Option.or_assoc

/-- The script of a node fails with the first fault of the node, whatever the mode. -/
theorem failure_node {n : Node Tree} (h : n.Filled P) : (nodeScript m n).failure = nodeFault n := by
  cases n with
  | bare cls => rfl
  | program body =>
    have hbody : ListSlot P .statement body := h
    simp [failure_statements hP hfault hbody]
  | identifier name =>
    obtain ⟨text, rfl⟩ : ∃ text, name = .ofText text := h
    rfl
  | literal value => simp
  | thisExpression => rfl
  | arrayExpression elements =>
    have helements : (listScript m .elements elements).failure = itemsFault none elements :=
      failure_list (l := .elements) hP hfault (by simp) h
    cases htrue : elements.isTrue with
    | false => simp [htrue, itemsFault_of_empty _ htrue]
    | true => simp [htrue, helements]
  | objectExpression properties =>
    have hproperties : (listScript m .properties properties).failure =
        itemsFault (some .missingProperty) properties :=
      failure_list (l := .properties) hP hfault (by simp) h
    cases htrue : properties.isTrue with
    | false => simp [htrue, itemsFault_of_empty _ htrue]
    | true => simp [htrue, hproperties]
  | functionExpression id params body =>
    obtain ⟨hid, hparams, hbody⟩ : NodeSlot P .identifier id ∧ ListSlot P .identifier params ∧
      ListSlot P .statement body := h
    simp [failure_optionalName hP hid, failure_params hP hfault _ hparams,
      failure_statements hP hfault hbody]
  | unaryExpression operator argument =>
    obtain ⟨⟨op, rfl⟩, hargument⟩ : (∃ op, operator = .ofMember (.unaryOperator op)) ∧
      NodeSlot P .expression argument := h
    cases hop : op.isBefore <;>
      simp [Tree.ofMember, hop, failure_slot hfault hargument]
  | binaryExpression left operator right =>
    obtain ⟨⟨op, rfl⟩, hleft, hright⟩ : (∃ op, operator = .ofMember (.binaryOperator op)) ∧
      NodeSlot P .expression left ∧ ListSlot P .expression right := h
    obtain ⟨token, htoken⟩ : ∃ token, chainToken m (.ofMember (.binaryOperator op)) = .ok token :=
      ⟨_, rfl⟩
    have hlist : (listScript m (.operands token) right).failure =
        itemsFault (some (.required "BinaryExpression" "right")) right :=
      failure_list (l := .operands token) hP hfault (by simp) hright
    simp [htoken, failure_slot hfault hleft, hlist]
  | memberExpression object indices computed =>
    obtain ⟨hobject, hindices, -⟩ : NodeSlot P .expression object ∧ ListSlot P .expression indices ∧
      _ := h
    have hlist : (listScript m .indices indices).failure =
        itemsFault (some (.required "MemberExpression" "indices")) indices :=
      failure_list (l := .indices) hP hfault (by simp) hindices
    cases hcomputed : computed.isTrue <;>
      simp [hcomputed, hlist, failure_slot hfault hobject, failure_names hP hindices]
  | conditionalExpression test consequent alternate =>
    obtain ⟨htest, hconsequent, halternate⟩ : NodeSlot P .expression test ∧
      NodeSlot P .expression consequent ∧ NodeSlot P .expression alternate := h
    simp [failure_slot hfault htest, failure_slot hfault hconsequent,
      failure_slot hfault halternate]
  | callExpression callee arguments =>
    obtain ⟨hcallee, harguments⟩ : NodeSlot P .expression callee ∧
      ListSlot P .expression arguments := h
    simp [failure_slot hfault hcallee, failure_arguments hP hfault _ harguments]
  | newExpression callee arguments =>
    obtain ⟨hcallee, harguments⟩ : NodeSlot P .expression callee ∧
      ListSlot P .expression arguments := h
    simp [failure_slot hfault hcallee, failure_arguments hP hfault _ harguments]
  | sequenceExpression expressions =>
    have hexpressions : (listScript m .expressions expressions).failure =
        itemsFault (some (.required "SequenceExpression" "expressions")) expressions :=
      failure_list (l := .expressions) hP hfault (by simp) h
    simp [hexpressions]
  | blockStatement body =>
    have hbody : ListSlot P .statement body := h
    simp [failure_statements hP hfault hbody]
  | expressionStatement expression =>
    have hexpression : NodeSlot P .expression expression := h
    obtain ⟨opens, hopens⟩ := opensLikeStatement_ok (hexpression.hasSlots hP)
    simp [hopens, failure_slot hfault hexpression]
  | debuggerStatement => simp
  | withStatement object body =>
    obtain ⟨hobject, hbody⟩ : NodeSlot P .expression object ∧ NodeSlot P .statement body := h
    simp [failure_slot hfault hobject, failure_body hP hfault _ _ hbody]
  | returnStatement argument =>
    have hargument : NodeSlot P .expression argument := h
    simp [failure_slot hfault hargument]
  | labeledStatement label body =>
    obtain ⟨hlabel, hbody⟩ : NodeSlot P .identifier label ∧ NodeSlot P .statement body := h
    simp [failure_slot hfault hlabel, failure_slot hfault hbody]
  | breakStatement label =>
    have hlabel : NodeSlot P .identifier label := h
    simp [jumpTo, failure_optionalName hP hlabel]
  | continueStatement label =>
    have hlabel : NodeSlot P .identifier label := h
    simp [jumpTo, failure_optionalName hP hlabel]
  | ifStatement test consequent alternate =>
    obtain ⟨htest, hconsequent, halternate⟩ : NodeSlot P .expression test ∧
      NodeSlot P .statement consequent ∧ NodeSlot P .statement alternate := h
    rw [failure_if hP hfault htest hconsequent halternate]
    simp
  | switchStatement discriminant cases =>
    obtain ⟨hdiscriminant, hcases⟩ : NodeSlot P .expression discriminant ∧
      ListSlot P .switchCase cases := h
    have hlist : (listScript m .cases cases).failure = itemsFault (some .missingCase) cases :=
      failure_list (l := .cases) hP hfault (by simp) hcases
    simp [failure_slot hfault hdiscriminant, hlist]
  | switchCase test body =>
    obtain ⟨htest, hbody⟩ : NodeSlot P .expression test ∧ ListSlot P .statement body := h
    simp [failure_slot hfault htest, failure_statements hP hfault hbody]
  | throwStatement argument =>
    have hargument : NodeSlot P .expression argument := h
    simp [failure_slot hfault hargument]
  | tryStatement block handler finalizer =>
    obtain ⟨hblock, hhandler, hfinalizer⟩ : BlockSlot P block ∧ NodeSlot P .catchClause handler ∧
      BlockSlot P finalizer := h
    simp [failure_block hP hfault _ hblock, failure_handler hP hfault _ hhandler,
      failure_block hP hfault _ hfinalizer]
  | catchClause param body =>
    obtain ⟨hparam, hbody⟩ : NodeSlot P .identifier param ∧ ListSlot P .statement body := h
    simp [catchFrame, failure_statements hP hfault hbody, failure_slot hfault hparam]
  | whileStatement test body =>
    obtain ⟨htest, hbody⟩ : NodeSlot P .expression test ∧ NodeSlot P .statement body := h
    simp [failure_slot hfault htest, failure_body hP hfault _ _ hbody]
  | doWhileStatement body test =>
    obtain ⟨hbody, htest⟩ : NodeSlot P .statement body ∧ NodeSlot P .expression test := h
    obtain ⟨braces, hbraces⟩ := hasBraces_ok (m := m) hP false hbody
    simp [failure_slot hfault htest, failure_body hP hfault _ _ hbody, hbraces]
  | forStatement init test update body =>
    obtain ⟨hinit, htest, hupdate, hbody⟩ :
      ChoiceSlot P .variableDeclaration .expression init ∧ NodeSlot P .expression test ∧
      NodeSlot P .expression update ∧ NodeSlot P .statement body := h
    simp [firstSortFault, failure_forInit hP hfault hinit, failure_slot hfault htest,
      failure_slot hfault hupdate, failure_body hP hfault _ _ hbody]
  | forInStatement left right body =>
    obtain ⟨hleft, hright, hbody⟩ : ChoiceSlot P .variableDeclaration .identifier left ∧
      NodeSlot P .expression right ∧ NodeSlot P .statement body := h
    simp [firstSortFault, failure_forInLeft hP hfault hleft, failure_slot hfault hright,
      failure_body hP hfault _ _ hbody]
  | functionDeclaration id params body =>
    obtain ⟨hid, hparams, hbody⟩ : NodeSlot P .identifier id ∧ ListSlot P .identifier params ∧
      ListSlot P .statement body := h
    simp [failure_slot hfault hid, failure_params hP hfault _ hparams,
      failure_statements hP hfault hbody]
  | variableDeclaration declarations kind => exact failure_declaration hP hfault rfl h
  | variableDeclarator id init =>
    obtain ⟨hid, hinit⟩ : NodeSlot P .identifier id ∧ NodeSlot P .expression init := h
    simp [failure_slot hfault hid, failure_slot hfault hinit]
  | property key value kind =>
    obtain ⟨hkey, hvalue, kind, rfl⟩ : ChoiceSlot P .literal .identifier key ∧
      NodeSlot P .expression value ∧ ∃ k, kind = .ofMember (.propertyKind k) := h
    by_cases hempty : key = .choice .empty
    · rw [hempty]
      rfl
    · have hkeyFault := failure_key hfault (m := m) hkey hempty
      rw [nodeScript, nodeFault]
      · cases hdefines : definesValue (.ofMember (.propertyKind kind)) with
        | true => simp [hkeyFault, failure_slot hfault hvalue]
        | false => simp [failure_accessor hP hfault _ hvalue, hkeyFault]
      · exact hempty
      · exact hempty

end Slots

/-- The script of every node of a tree that is in place fails with the fault of the node,
whatever the mode. -/
theorem failure_throughout (hP : ∀ n, P n → n.HasSlots) (h : t.Throughout P) :
    t.Throughout fun n => P n ∧ ∀ m, (nodeScript m n).failure = nodeFault n :=
  h.strengthen hP fun n _ hn m => by
    refine failure_node (fun n hn => hP n hn.1) (fun n hn m => ?_) hn
    rw [hn.2 m, hn.2 .pretty]

theorem failure_script (h : t.Throughout Node.HasSlots) (m : Mode) :
    (script m t).failure = slotFault none t := by
  have hthroughout := failure_throughout (fun n hn => hn) h
  cases t with
  | missing => exact failure_finish _
  | node n => exact (hthroughout.here.2 m).trans (hthroughout.here.2 .pretty).symm
  | _ => rfl

end Trees

/-- Pretty and minified source, or source with other indentations and line ends, can be had of
the same trees, and where they cannot the error is the same. -/
theorem toSource_error_unaffected {s s' : PrintSettings} (hs : s.HasTexts) (hs' : s'.HasTexts)
    {t : Tree} (ht : t.Throughout Node.HasSlots) :
    ((∃ text, toSource s t = .ok text) ↔ ∃ text, toSource s' t = .ok text) ∧
      ∀ e, toSource s t = .error e ↔ toSource s' t = .error e := by
  constructor
  · simp only [toSource_eq_ok_iff hs ht, toSource_eq_ok_iff hs' ht, failure_script ht,
      exists_and_left, exists_eq', and_true]
  · intro e
    rw [toSource_eq_error_iff hs ht, toSource_eq_error_iff hs' ht, failure_script ht,
      failure_script ht]

/-- An if whose branches are single expressions, both of them faulty: a literal with a list
for a value, and a missing operand. -/
def faultyChoice : Tree :=
  .node (.ifStatement (.node (.identifier (.ofText "a")))
    (.node (.blockStatement (.list [.node (.expressionStatement
      (.node (.unaryExpression (.ofMember (.unaryOperator .logicalNot))
        (.node (.literal (.list []))))))])))
    (.node (.expressionStatement
      (.node (.unaryExpression (.ofMember (.unaryOperator .logicalNot)) .missing)))))

theorem hasSlots_faultyChoice : faultyChoice.Throughout Node.HasSlots := by
  have hname : NodeSlot Node.HasSlots .expression (.node (.identifier (.ofText "a"))) :=
    .of_has rfl (hasSlots_of_filled ⟨_, rfl⟩)
  have hunary {t : Tree} (h : NodeSlot Node.HasSlots .expression t) :
      NodeSlot Node.HasSlots .statement (.node (.expressionStatement
        (.node (.unaryExpression (.ofMember (.unaryOperator .logicalNot)) t)))) := by
    have hoperator : (Tree.node (.unaryExpression (.ofMember (.unaryOperator .logicalNot))
        t)).Throughout Node.HasSlots := hasSlots_of_filled ⟨⟨_, rfl⟩, h⟩
    exact .of_has rfl (hasSlots_of_filled (NodeSlot.of_has rfl hoperator))
  have hliteral : NodeSlot Node.HasSlots .expression (.node (.literal (.list []))) :=
    .of_has rfl (hasSlots_of_filled trivial)
  have hblock : NodeSlot Node.HasSlots .statement (.node (.blockStatement (.list [_]))) :=
    .of_has rfl (hasSlots_of_filled ⟨_, rfl, by simpa using hunary hliteral⟩)
  exact hasSlots_of_filled ⟨hname, hblock, hunary (.inl rfl)⟩

theorem toSource_error_faultyChoice :
    toSource {} faultyChoice = .error (.unsupportedLiteral "list") ∧
      toSource { minify := .bool true } faultyChoice = .error (.unsupportedLiteral "list") := by
  have hpretty : toSource {} faultyChoice = .error (.unsupportedLiteral "list") := by decide
  exact ⟨hpretty, (toSource_error_unaffected ⟨⟨_, rfl⟩, ⟨_, rfl⟩⟩ ⟨⟨_, rfl⟩, ⟨_, rfl⟩⟩
    hasSlots_faultyChoice).2 _ |>.mp hpretty⟩

end ScriptTree.Source
