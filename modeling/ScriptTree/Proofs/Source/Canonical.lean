import ScriptTree.Proofs.Source.Failure

/-!
Printing what was exchanged. A tree comes back from an exchange with its chains of accesses
folded into one node each. Printing asks what stands before an access, a call or an operator, what
`new` takes and what a statement opens with, and all of that looks at the shape of such chains.
A folded chain gives the same answers, so it is printed as the chain it came from.
-/

namespace ScriptTree

open Exchange

/-- A chain has accesses or operands, and its last operand is no chain of the same operator. -/
def Node.IsLinked : Node Tree → Prop
  | .memberExpression _ indices _ => indices ≠ .list []
  | .binaryExpression _ operator (.list right) => ∃ last, right.getLast? = some last ∧
    ∀ left right, last ≠ .node (.binaryExpression left operator right)
  | _ => True

namespace Source

open Script

/-! ### What printing sees -/

/-- Printing cannot tell one node from the other. -/
structure Alike (n n' : Node Tree) : Prop where
  kind : n'.kind? = n.kind?
  number : numberOf? (.node n') = numberOf? (.node n)
  byNew : refusedByNew (.node n') = refusedByNew (.node n)
  opens : opensLikeStatement (.node n') = opensLikeStatement (.node n)
  takes (m : Mode) : takesElse m (.node n') = takesElse m (.node n)
  script (m : Mode) : nodeScript m n' = nodeScript m n

inductive AlikeSlot : Tree → Tree → Prop
  | missing : AlikeSlot .missing .missing
  | node {n n' : Node Tree} (h : Alike n n') : AlikeSlot (.node n) (.node n')

namespace Alike

variable {n n' n'' : Node Tree}

theorem trans (h : Alike n n') (h' : Alike n' n'') : Alike n n'' where
  kind := h'.kind.trans h.kind
  number := h'.number.trans h.number
  byNew := h'.byNew.trans h.byNew
  opens := h'.opens.trans h.opens
  takes m := (h'.takes m).trans (h.takes m)
  script m := (h'.script m).trans (h.script m)

end Alike

namespace AlikeSlot

variable {t t' : Tree} {m : Mode}

theorem kind (h : AlikeSlot t t') : t'.kind? = t.kind? := by
  cases h with
  | missing => rfl
  | node h => exact h.kind

theorem isMissing (h : AlikeSlot t t') : t'.isMissing = t.isMissing := by
  cases h <;> rfl

theorem refuses (h : AlikeSlot t t') (place : Place) : place.refuses t' = place.refuses t := by
  cases h with
  | missing => rfl
  | @node n n' h =>
    have hkind : (Tree.node n').kind? = (Tree.node n).kind? := h.kind
    rw [Place.refuses, Place.refuses, hkind, h.number]

theorem byNew (h : AlikeSlot t t') : refusedByNew t' = refusedByNew t := by
  cases h with
  | missing => rfl
  | node h => exact h.byNew

theorem opens (h : AlikeSlot t t') : opensLikeStatement t' = opensLikeStatement t := by
  cases h with
  | missing => rfl
  | node h => exact h.opens

theorem takes (h : AlikeSlot t t') : takesElse m t' = takesElse m t := by
  cases h with
  | missing => rfl
  | node h => exact h.takes m

theorem script (h : AlikeSlot t t') (missing : Script) :
    scriptOr m missing t' = scriptOr m missing t := by
  cases h with
  | missing => rfl
  | node h => exact h.script m

end AlikeSlot

section Slots

variable {P : Node Tree → Prop} {m : Mode} {t : Tree} {c : Category}

def KeepsLook (P : Node Tree → Prop) : Prop :=
  ∀ n, P n → ∃ n', Tree.canonical (.node n) = .node n' ∧ Alike n n'

variable (hP : ∀ n, P n → n.HasSlots) (hlook : KeepsLook P)

include hlook

theorem alike_slot (h : NodeSlot P c t) : AlikeSlot t t.canonical := by
  rcases h with rfl | ⟨n, rfl, -, hn⟩
  · exact .missing
  · obtain ⟨n', hn', halike⟩ := hlook n hn.here
    exact hn' ▸ .node halike

omit hlook in
theorem canonical_identifier (name : Text) :
    Tree.canonical (.node (.identifier (.ofText name))) = .node (.identifier (.ofText name)) := rfl

omit hlook in
include hP in
theorem canonical_name (h : NodeSlot P .identifier t) : t.canonical = t := by
  rcases h.name hP with rfl | ⟨name, rfl⟩
  · rfl
  · exact canonical_identifier name

/-- A part that is printed only as a node of one kind. -/
theorem part_canonical {k : Kind} {part : Tree → Script} (h : NodeSlot P c t)
    (hc : c.test = .kind k) (hk : k ≠ .callExpression)
    (hpart : ∀ n : Node Tree, n.kind? = some k → part (.node n) = nodeScript m n) :
    part t.canonical = part t := by
  rcases h.of_kind hc hk with rfl | ⟨n, rfl, hkind, hn⟩
  · rfl
  · obtain ⟨n', hn', halike⟩ := hlook n hn.here
    rw [hn', hpart n hkind, hpart n' (halike.kind.trans hkind), halike.script]

include hP

theorem indexName_canonical (h : NodeSlot P .expression t) :
    indexName t.canonical = indexName t := by
  rcases h with rfl | ⟨n, rfl, -, hn⟩
  · rfl
  · by_cases hkind : n.kind? = some .identifier
    · obtain ⟨name, rfl⟩ := hn.name hP hkind
      rfl
    · obtain ⟨n', hn', halike⟩ := hlook n hn.here
      rw [hn', indexName_node hkind, indexName_node (halike.kind ▸ hkind)]

theorem items_canonical {l : Listing} {items : List Tree} (first : Bool)
    (h : ∀ item ∈ items, NodeSlot P l.category item) :
    itemScripts m l first (items.map Tree.canonical) = itemScripts m l first items := by
  induction items generalizing first with
  | nil => rfl
  | cons t rest ih =>
    obtain ⟨ht, hrest⟩ := List.forall_mem_cons.mp h
    have halike := alike_slot hlook ht
    rw [List.map_cons]
    cases l with
    | names => rw [itemScripts, itemScripts, ih false hrest, indexName_canonical hP hlook ht]
    | params owner => rw [itemScripts, itemScripts, ih false hrest, canonical_name hP ht]
    | properties =>
      have hpart := part_canonical hlook (m := m) ht rfl (by decide) fun _ => propertyPart_node
      rw [itemScripts, itemScripts, ih false hrest, hpart]
    | cases =>
      have hpart := part_canonical hlook (m := m) ht rfl (by decide) fun _ => casePart_node
      rw [itemScripts, itemScripts, ih false hrest, hpart]
    | declarators inline =>
      have hpart := part_canonical hlook (m := m) ht rfl (by decide) fun _ => declaratorPart_node
      rw [itemScripts, itemScripts, ih false hrest, hpart]
    | _ => simp only [itemScripts, ih false hrest, halike.refuses, halike.script]

theorem list_canonical {l : Listing} (h : ListSlot P l.category t) :
    listScript m l t.canonical = listScript m l t := by
  obtain ⟨items, rfl, hitems⟩ := h
  rw [Tree.canonical_list, listScript, listScript, items_canonical hP hlook true hitems]

omit hP hlook in
theorem isTrue_canonical (h : ListSlot P c t) : t.canonical.isTrue = t.isTrue := by
  obtain ⟨items, rfl, -⟩ := h
  cases items <;> simp [Tree.isTrue, Tree.view, View.isTrue]

end Slots

/-! ### Bodies and branches -/

section Bodies

variable {P : Node Tree → Prop} {m : Mode} {t : Tree} {n : Node Tree}

theorem canonical_kept {k : Kind} (h : n.kind? = some k) (hbinary : k ≠ .binaryExpression)
    (hmember : k ≠ .memberExpression) :
    Tree.canonical (.node n) = .node (n.map Tree.canonical) := by
  rw [Tree.canonical_node, Node.canonical_regular ((n.kind?_map _).trans h) hbinary hmember]

theorem canonical_statement (h : Category.statement.Has (.node n)) :
    Tree.canonical (.node n) = .node (n.map Tree.canonical) := by
  cases n with
  | binaryExpression | memberExpression => cases h
  | _ => exact Tree.canonical_node _

theorem bodyScript_node (newline beforeElse : Bool) (h : n.kind? ≠ some .blockStatement) :
    bodyScript m newline beforeElse (.node n) =
      given (if beforeElse then takesElse m (.node n) else .ok false) fun encloses =>
        if encloses then m.braces true newline false (nodeScript m n)
        else looseBody m (nodeScript m n) := by
  rw [bodyScript]
  rintro body rfl
  exact h rfl

theorem elseScript_node (h : n.kind? ≠ some .blockStatement) :
    elseScript m (.node n) =
      if n.kind? = some .ifStatement then write " " ++ nodeScript m n
      else looseBody m (nodeScript m n) := by
  rw [elseScript]
  rintro body rfl
  exact h rfl

theorem hasBraces_node (beforeElse : Bool) (h : n.kind? ≠ some .blockStatement) :
    hasBraces m beforeElse (.node n) = if beforeElse then takesElse m (.node n) else .ok false := by
  rw [hasBraces]
  rintro body heq
  cases heq
  exact h rfl

theorem standsWithoutBraces_eq (beforeElse : Bool) (t : Tree) :
    standsWithoutBraces m beforeElse t =
      if t.kind? = some .functionDeclaration then .ok false
      else if beforeElse then (takesElse m t).map (!·) else .ok true := by
  unfold standsWithoutBraces
  split
  · rfl
  · next hfunction =>
    have hkind : t.kind? ≠ some .functionDeclaration := by
      intro hkind
      obtain ⟨n, rfl, hn⟩ := node_of_kind? hkind
      cases n with
      | functionDeclaration id params body => exact hfunction id params body rfl
      | _ => cases hn
    rw [if_neg hkind]

theorem expressionOf_canonical (h : NodeSlot P .statement t) :
    expressionOf t.canonical = (expressionOf t).canonical := by
  rcases h with rfl | ⟨n, rfl, hhas, -⟩
  · rfl
  · rw [canonical_statement hhas]
    cases n <;> rfl

variable (hP : ∀ n, P n → n.HasSlots) (hlook : KeepsLook P)

include hP

omit hP in
theorem soleExpression_node (h : n.kind? ≠ some .blockStatement) :
    soleExpression (.node n) = .ok (expressionOf (.node n)) := by
  cases n with
  | blockStatement => exact absurd rfl h
  | _ => rfl

theorem block_of_kind (h : n.kind? = some .blockStatement) (hn : (Tree.node n).Throughout P) :
    ∃ items, n = .blockStatement (.list items) ∧ ListSlot P .statement (.list items) := by
  cases n with
  | blockStatement body =>
    obtain ⟨items, rfl, hitems⟩ : ListSlot P .statement body := hn.filled hP
    exact ⟨items, rfl, items, rfl, hitems⟩
  | _ => cases h

theorem soleExpression_canonical (h : NodeSlot P .statement t) :
    soleExpression t.canonical = (soleExpression t).map Tree.canonical := by
  have hexpression := expressionOf_canonical h
  rcases h with rfl | ⟨n, rfl, hhas, hn⟩
  · rfl
  · by_cases hblock : n.kind? = some .blockStatement
    · obtain ⟨items, rfl, _, heq, hitems⟩ := block_of_kind hP hblock hn
      cases heq
      rw [canonical_block, soleExpression, soleExpression, Structure.sole?_list,
        Structure.sole?_list]
      rcases items with _ | ⟨t, _ | ⟨t', rest⟩⟩
      · rfl
      · exact congrArg Except.ok (expressionOf_canonical (hitems t List.mem_cons_self))
      · rfl
    · rw [canonical_statement hhas] at hexpression ⊢
      have hblock' : (n.map Tree.canonical).kind? ≠ some .blockStatement := by rwa [n.kind?_map]
      rw [soleExpression_node hblock, soleExpression_node hblock', hexpression]
      rfl

include hlook

theorem isMissing_sole {expression : Tree} (h : NodeSlot P .statement t)
    (hsole : soleExpression t = .ok expression) :
    expression.canonical.isMissing = expression.isMissing := by
  by_cases hmissing : expression = .missing
  · rw [hmissing]
    rfl
  · exact (alike_slot hlook (soleExpression_cases hP h hsole hmissing).1).isMissing

theorem becomesConditional_canonical {test consequent alternate : Tree}
    (htest : NodeSlot P .expression test) (hconsequent : NodeSlot P .statement consequent)
    (halternate : NodeSlot P .statement alternate) :
    becomesConditional m test.canonical consequent.canonical alternate.canonical =
      becomesConditional m test consequent alternate := by
  obtain ⟨e, he⟩ := soleExpression_ok hP hconsequent
  obtain ⟨e', he'⟩ := soleExpression_ok hP halternate
  have hmissing := isMissing_sole hP hlook hconsequent he
  have hmissing' := isMissing_sole hP hlook halternate he'
  rw [becomesConditional, becomesConditional, soleExpression_canonical hP hconsequent,
    soleExpression_canonical hP halternate, he, he', (alike_slot hlook htest).isMissing,
    (alike_slot hlook halternate).isMissing]
  simp only [Except.map, ok_bind, hmissing, hmissing']

theorem foldedBranch_canonical {expression : Tree} (h : NodeSlot P .statement t)
    (hsole : soleExpression t = .ok expression) (hmissing : expression ≠ .missing) :
    foldedBranch m t.canonical = foldedBranch m t := by
  obtain ⟨hexpression, rfl | rfl⟩ := soleExpression_cases hP h hsole hmissing
  · have halike := alike_slot hlook hexpression
    have hcanonical : Tree.canonical (.node (.expressionStatement expression)) =
        .node (.expressionStatement expression.canonical) := rfl
    rw [hcanonical, foldedBranch, foldedBranch, halike.refuses, halike.script]
  · have halike := alike_slot hlook hexpression
    have hcanonical : Tree.canonical
          (.node (.blockStatement (.list [.node (.expressionStatement expression)]))) =
        .node (.blockStatement (.list [.node (.expressionStatement expression.canonical)])) := rfl
    rw [hcanonical, foldedBranch, foldedBranch, halike.refuses, halike.script]

omit hP in
theorem dropsBraces_canonical (beforeElse : Bool) (h : ListSlot P .statement t) :
    dropsBraces m beforeElse t.canonical = dropsBraces m beforeElse t := by
  obtain ⟨items, rfl, hitems⟩ := h
  rw [Tree.canonical_list, dropsBraces, dropsBraces, Structure.sole?_list, Structure.sole?_list]
  rcases items with _ | ⟨t, _ | ⟨t', rest⟩⟩
  · rfl
  · have halike := alike_slot hlook (hitems t List.mem_cons_self)
    have hstands : standsWithoutBraces m beforeElse t.canonical =
        standsWithoutBraces m beforeElse t := by
      rw [standsWithoutBraces_eq, standsWithoutBraces_eq, halike.kind, halike.takes]
    exact congrArg (fun stands => if m.isMinified then stands else .ok false) hstands
  · rfl

theorem statements_canonical (h : ListSlot P .statement t) :
    listScript m .statements t.canonical = listScript m .statements t :=
  list_canonical (l := .statements) hP hlook h

theorem body_canonical (newline beforeElse : Bool) (h : NodeSlot P .statement t) :
    bodyScript m newline beforeElse t.canonical = bodyScript m newline beforeElse t := by
  rcases h with rfl | ⟨n, rfl, -, hn⟩
  · rfl
  · by_cases hblock : n.kind? = some .blockStatement
    · obtain ⟨items, rfl, hlist⟩ := block_of_kind hP hblock hn
      have hstatements := statements_canonical hP hlook (m := m) hlist
      have hdrops := dropsBraces_canonical hlook (m := m) beforeElse hlist
      have htrue := isTrue_canonical hlist
      rw [Tree.canonical_list] at hstatements hdrops htrue
      rw [canonical_block, bodyScript, bodyScript, hdrops, hstatements, htrue]
    · obtain ⟨n', hn', halike⟩ := hlook n hn.here
      rw [hn', bodyScript_node _ _ hblock, bodyScript_node _ _ (halike.kind ▸ hblock), halike.takes,
        halike.script]

theorem else_canonical (h : NodeSlot P .statement t) :
    elseScript m t.canonical = elseScript m t := by
  rcases h with rfl | ⟨n, rfl, -, hn⟩
  · rfl
  · by_cases hblock : n.kind? = some .blockStatement
    · obtain ⟨items, rfl, hlist⟩ := block_of_kind hP hblock hn
      have hstatements := statements_canonical hP hlook (m := m) hlist
      have hdrops := dropsBraces_canonical hlook (m := m) false hlist
      have htrue := isTrue_canonical hlist
      rw [Tree.canonical_list] at hstatements hdrops htrue
      rw [canonical_block, elseScript, elseScript, hdrops, hstatements, htrue]
    · obtain ⟨n', hn', halike⟩ := hlook n hn.here
      rw [hn', elseScript_node hblock, elseScript_node (halike.kind ▸ hblock), halike.kind,
        halike.script]

theorem hasBraces_canonical (beforeElse : Bool) (h : NodeSlot P .statement t) :
    hasBraces m beforeElse t.canonical = hasBraces m beforeElse t := by
  rcases h with rfl | ⟨n, rfl, -, hn⟩
  · rfl
  · by_cases hblock : n.kind? = some .blockStatement
    · obtain ⟨items, rfl, hlist⟩ := block_of_kind hP hblock hn
      have hdrops := dropsBraces_canonical hlook (m := m) beforeElse hlist
      rw [Tree.canonical_list] at hdrops
      rw [canonical_block, hasBraces, hasBraces, hdrops]
    · obtain ⟨n', hn', halike⟩ := hlook n hn.here
      rw [hn', hasBraces_node _ hblock, hasBraces_node _ (halike.kind ▸ hblock), halike.takes]

theorem blockPart_canonical (newline : Bool) (h : BlockSlot P t) :
    blockPart m newline t.canonical = blockPart m newline t := by
  rcases h with rfl | ⟨body, rfl, hbody⟩
  · rfl
  · have hcanonical : Tree.canonical (.node (.blockStatement body)) =
        .node (.blockStatement body.canonical) := canonical_kept rfl (by decide) (by decide)
    rw [hcanonical, blockPart, blockPart, isTrue_canonical hbody,
      statements_canonical hP hlook hbody]

theorem handler_canonical (newline : Bool) (h : NodeSlot P .catchClause t) :
    handlerScript m newline t.canonical = handlerScript m newline t := by
  rcases h.of_kind rfl (by decide) with rfl | ⟨n, rfl, hkind, hn⟩
  · rfl
  · cases n with
    | catchClause param body =>
      obtain ⟨hparam, hbody⟩ : NodeSlot P .identifier param ∧ ListSlot P .statement body :=
        hn.filled hP
      have hcanonical : Tree.canonical (.node (.catchClause param body)) =
          .node (.catchClause param.canonical body.canonical) :=
        canonical_kept rfl (by decide) (by decide)
      rw [hcanonical, handlerScript, handlerScript, canonical_name hP hparam,
        isTrue_canonical hbody,
        statements_canonical hP hlook hbody]
    | _ => cases hkind

end Bodies

/-! ### Nodes -/

section Nodes

variable {P : Node Tree → Prop} {m : Mode} {t : Tree} {n : Node Tree}
  (hP : ∀ n, P n → n.HasSlots) (hlook : KeepsLook P)

theorem accessorScript_node {word : Text} {key : Script} (h : n.kind? ≠ some .functionExpression) :
    accessorScript m word key (.node n) = fail (.accessorNotFunction word) := by
  cases n with
  | functionExpression => exact absurd rfl h
  | _ => rfl

include hP hlook

omit hP in
theorem endsWithHole_canonical (h : ListSlot P .expression t) :
    endsWithHole t.canonical = endsWithHole t := by
  obtain ⟨items, rfl, hitems⟩ := h
  rw [Tree.canonical_list, endsWithHole, endsWithHole, List.getLast?_map]
  cases hlast : items.getLast? with
  | none => rfl
  | some last => exact (alike_slot hlook (hitems last (List.mem_of_getLast? hlast))).isMissing

theorem accessor_canonical {word : Text} {key : Script} (h : NodeSlot P .expression t) :
    accessorScript m word key t.canonical = accessorScript m word key t := by
  rcases h with rfl | ⟨n, rfl, -, hn⟩
  · rfl
  · by_cases hkind : n.kind? = some .functionExpression
    · have hcanonical := canonical_kept hkind (by decide) (by decide)
      cases n with
      | functionExpression id params body =>
        obtain ⟨-, hparams, hbody⟩ : NodeSlot P .identifier id ∧ ListSlot P .identifier params ∧
          ListSlot P .statement body := hn.filled hP
        have hlist := list_canonical (l := .params "Property") hP hlook (m := m) hparams
        rw [hcanonical, Node.map, Node.mapFields, accessorScript, accessorScript, hlist,
          isTrue_canonical hbody, statements_canonical hP hlook hbody]
      | _ => cases hkind
    · obtain ⟨n', hn', halike⟩ := hlook n hn.here
      rw [hn', accessorScript_node hkind, accessorScript_node (halike.kind ▸ hkind)]

theorem declarators_canonical (inline : Bool) (h : ListSlot P .variableDeclarator t) :
    listScript m (.declarators inline) t.canonical = listScript m (.declarators inline) t :=
  list_canonical (l := .declarators inline) hP hlook h

theorem declaration_canonical (hkind : n.kind? = some .variableDeclaration) (hn : n.Filled P) :
    ∃ items kind, n = .variableDeclaration (.list items) kind ∧
      Tree.canonical (.node n) =
        .node (.variableDeclaration (.list (items.map Tree.canonical)) kind) ∧
      ∀ inline, listScript m (.declarators inline) (.list (items.map Tree.canonical)) =
        listScript m (.declarators inline) (.list items) := by
  cases n with
  | variableDeclaration declarations kind =>
    obtain ⟨⟨items, rfl, hitems⟩, k, rfl⟩ : ListSlot P .variableDeclarator declarations ∧
      ∃ k, kind = .ofMember (.variableKind k) := hn
    refine ⟨items, _, rfl, ?_, fun inline => ?_⟩
    · rw [canonical_kept rfl (by decide) (by decide), Node.map, Node.mapFields,
        Tree.canonical_list]
      rfl
    · rw [← Tree.canonical_list]
      exact declarators_canonical hP hlook inline ⟨items, rfl, hitems⟩
  | _ => cases hkind

theorem forInit_canonical (h : ChoiceSlot P .variableDeclaration .expression t) :
    forInit m t.canonical = forInit m t := by
  rcases h with rfl | ⟨n, rfl, hkind, hn⟩ | ⟨n, rfl, hhas, hn⟩
  · rfl
  · obtain ⟨items, kind, rfl, hcanonical, hlist⟩ :=
      declaration_canonical hP hlook (m := m) hkind (hn.filled hP)
    have htrue : (Tree.list (items.map Tree.canonical)).isTrue = (Tree.list items).isTrue := by
      cases items <;> rfl
    rw [Tree.canonical_choice, Choice.map, hcanonical, forInit, forInit, headDeclaration,
      headDeclaration, hlist true, htrue]
  · exact (alike_slot hlook (.of_has hhas hn)).script _

theorem forInLeft_canonical (h : ChoiceSlot P .variableDeclaration .identifier t) :
    forInLeft m t.canonical = forInLeft m t := by
  rcases h with rfl | ⟨n, rfl, hkind, hn⟩ | ⟨n, rfl, hhas, hn⟩
  · rfl
  · obtain ⟨items, kind, rfl, hcanonical, hlist⟩ :=
      declaration_canonical hP hlook (m := m) hkind (hn.filled hP)
    have hsize : (Tree.list (items.map Tree.canonical)).size = (Tree.list items).size := by
      simp [Tree.size, Tree.view, View.size]
    rw [Tree.canonical_choice, Choice.map, hcanonical, forInLeft, forInLeft, forInDeclaration,
      forInDeclaration, hlist true, hsize]
  · exact (alike_slot hlook (.of_has hhas hn)).script _

omit hP in
theorem key_canonical (h : ChoiceSlot P .literal .identifier t) :
    keyScript m t.canonical = keyScript m t := by
  rcases h with rfl | ⟨n, rfl, hkind, hn⟩ | ⟨n, rfl, hhas, hn⟩
  · rfl
  · obtain ⟨n', hn', halike⟩ := hlook n hn.here
    rw [Tree.canonical_choice, Choice.map, hn', keyScript, keyScript, scriptOr, scriptOr,
      halike.script]
  · exact (alike_slot hlook (.of_has hhas hn)).script _

omit hP in
theorem byNew_canonical (h : n.Filled P)
    (hnumber : numberOf? (.node (n.map Tree.canonical)) = numberOf? (.node n)) :
    refusedByNew (.node (n.map Tree.canonical)) = refusedByNew (.node n) := by
  have hrefuses : Place.callee.refuses (.node (n.map Tree.canonical)) =
      Place.callee.refuses (.node n) := by
    have hkind : (Tree.node (n.map Tree.canonical)).kind? = (Tree.node n).kind? := n.kind?_map _
    rw [Place.refuses, Place.refuses, hkind, hnumber]
  cases n with
  | callExpression => rfl
  | memberExpression object indices computed =>
    obtain ⟨hobject, -, c, rfl⟩ : NodeSlot P .expression object ∧ ListSlot P .expression indices ∧
      ∃ c, computed = .atom (.bool c) := h
    have halike := alike_slot hlook hobject
    rw [Node.map, Node.mapFields, refusedByNew, refusedByNew, Tree.canonical_atom, halike.refuses,
      halike.byNew]
  | _ => exact hrefuses

omit hP in
theorem opens_canonical (h : n.Filled P) :
    opensLikeStatement (.node (n.map Tree.canonical)) = opensLikeStatement (.node n) := by
  cases n with
  | memberExpression object indices computed =>
    obtain ⟨hobject, -, c, rfl⟩ : NodeSlot P .expression object ∧ ListSlot P .expression indices ∧
      ∃ c, computed = .atom (.bool c) := h
    have halike := alike_slot hlook hobject
    rw [Node.map, Node.mapFields, opensLikeStatement, opensLikeStatement, Tree.canonical_atom,
      halike.refuses, halike.opens]
  | callExpression callee arguments =>
    have halike := alike_slot hlook (c := .expression) h.1
    rw [Node.map, Node.mapFields, opensLikeStatement, opensLikeStatement, halike.refuses,
      halike.opens]
  | conditionalExpression test consequent alternate =>
    have halike := alike_slot hlook (c := .expression) h.1
    rw [Node.map, Node.mapFields, opensLikeStatement, opensLikeStatement, halike.refuses,
      halike.opens]
  | sequenceExpression expressions =>
    obtain ⟨items, rfl, hitems⟩ : ListSlot P .expression expressions := h
    cases items with
    | nil => rfl
    | cons first rest =>
      rw [Node.map, Node.mapFields, Tree.canonical_list, List.map_cons, opensLikeStatement,
        opensLikeStatement, (alike_slot hlook (hitems first List.mem_cons_self)).opens]
  | unaryExpression operator argument =>
    obtain ⟨⟨op, rfl⟩, hargument⟩ : (∃ op, operator = .ofMember (.unaryOperator op)) ∧
      NodeSlot P .expression argument := h
    have halike := alike_slot hlook hargument
    rw [Node.map, Node.mapFields, opensLikeStatement, opensLikeStatement, Tree.ofMember,
      Tree.canonical_atom, halike.refuses, halike.opens]
  | _ => rfl

theorem takes_canonical (h : n.Filled P) :
    takesElse m (.node (n.map Tree.canonical)) = takesElse m (.node n) := by
  cases n with
  | ifStatement test consequent alternate =>
    obtain ⟨htest, hconsequent, halternate⟩ : NodeSlot P .expression test ∧
      NodeSlot P .statement consequent ∧ NodeSlot P .statement alternate := h
    have halike := alike_slot hlook halternate
    rw [Node.map, Node.mapFields, takesElse, takesElse, halike.isMissing, halike.takes,
      becomesConditional_canonical hP hlook htest hconsequent halternate]
  | whileStatement test body => exact (alike_slot hlook (c := .statement) h.2).takes
  | withStatement object body => exact (alike_slot hlook (c := .statement) h.2).takes
  | forStatement init test update body => exact (alike_slot hlook (c := .statement) h.2.2.2).takes
  | forInStatement left right body => exact (alike_slot hlook (c := .statement) h.2.2).takes
  | labeledStatement label body => exact (alike_slot hlook (c := .statement) h.2).takes
  | blockStatement body =>
    obtain ⟨items, rfl, hitems⟩ : ListSlot P .statement body := h
    have hblock (items : List Tree) := Structure.takesElse_block (m := m) items
    simp only [Structure.blockTree] at hblock
    rw [Node.map, Node.mapFields, Tree.canonical_list, hblock, hblock]
    rcases items with _ | ⟨t, _ | ⟨t', rest⟩⟩
    · rfl
    · have halike := alike_slot hlook (hitems t List.mem_cons_self)
      simp only [List.map_cons, List.map_nil, halike.takes]
    · rfl
  | _ => rfl

/-- An if is printed alike, whether it becomes a conditional expression or not. -/
theorem if_canonical {test consequent alternate : Tree} (htest : NodeSlot P .expression test)
    (hconsequent : NodeSlot P .statement consequent)
    (halternate : NodeSlot P .statement alternate) :
    nodeScript m (.ifStatement test.canonical consequent.canonical alternate.canonical) =
      nodeScript m (.ifStatement test consequent alternate) := by
  have hfolds := becomesConditional_canonical hP hlook (m := m) htest hconsequent halternate
  have halike := alike_slot hlook htest
  obtain ⟨folds, hdecided⟩ := becomesConditional_ok (m := m) hP test hconsequent halternate
  rw [nodeScript, nodeScript, hfolds, hdecided, given_ok, given_ok]
  cases folds with
  | false =>
    simp only [Bool.false_eq_true, if_false, halike.script, (alike_slot hlook halternate).isMissing,
      body_canonical hP hlook _ _ hconsequent, hasBraces_canonical hP hlook _ hconsequent,
      else_canonical hP hlook halternate]
  | true =>
    obtain ⟨-, e, e', he, hmissing, he', hmissing'⟩ := becomesConditional_cases hdecided
    simp only [if_true, halike.refuses, halike.opens, halike.script,
      foldedBranch_canonical hP hlook hconsequent he hmissing,
      foldedBranch_canonical hP hlook halternate he' hmissing']

theorem try_canonical {block handler finalizer : Tree} (hblock : BlockSlot P block)
    (hhandler : NodeSlot P .catchClause handler) (hfinalizer : BlockSlot P finalizer) :
    nodeScript m (.tryStatement block.canonical handler.canonical finalizer.canonical) =
      nodeScript m (.tryStatement block handler finalizer) := by
  have hfinal : finalizer.canonical.hasFinalizer = finalizer.hasFinalizer := by
    rcases hfinalizer with rfl | ⟨body, rfl, hbody⟩
    · rfl
    · have hcanonical : Tree.canonical (.node (.blockStatement body)) =
          .node (.blockStatement body.canonical) := canonical_kept rfl (by decide) (by decide)
      have hbodyOf (body : Tree) : (Tree.node (.blockStatement body)).hasFinalizer =
          .ok body.isTrue := rfl
      rw [hcanonical, hbodyOf, hbodyOf, isTrue_canonical hbody]
  have hcheck : Tree.checkTry handler.canonical finalizer.canonical =
      Tree.checkTry handler finalizer := by
    rw [Tree.checkTry, Tree.checkTry, hfinal, (alike_slot hlook hhandler).isMissing]
  rw [nodeScript, nodeScript, hcheck, hfinal]
  simp only [blockPart_canonical hP hlook _ hblock, handler_canonical hP hlook _ hhandler,
    blockPart_canonical hP hlook _ hfinalizer]

theorem property_canonical {key value kind : Tree} (hkey : ChoiceSlot P .literal .identifier key)
    (hvalue : NodeSlot P .expression value) :
    nodeScript m (.property key.canonical value.canonical kind) =
      nodeScript m (.property key value kind) := by
  have halike := alike_slot hlook hvalue
  have hkeyScript := key_canonical hlook (m := m) hkey
  by_cases hempty : key = .choice .empty
  · rw [hempty]
    rfl
  · have hempty' : key.canonical ≠ .choice .empty := by
      rcases hkey with rfl | ⟨n, rfl, -⟩ | ⟨n, rfl, -⟩
      · exact absurd rfl hempty
      · simp [Choice.map]
      · simp [Choice.map]
    rw [nodeScript, nodeScript]
    · simp only [hkeyScript, halike.refuses, halike.script, accessor_canonical hP hlook hvalue]
    · exact hempty
    · exact hempty'

/-- A node is printed as the one with the canonical forms of its parts. -/
theorem script_canonical (h : n.Filled P)
    (hliteral : ∀ value, n = .literal value → value.canonical = value) :
    nodeScript m (n.map Tree.canonical) = nodeScript m n := by
  cases n with
  | bare cls => rfl
  | thisExpression => rfl
  | debuggerStatement => rfl
  | program body => exact statements_canonical hP hlook h
  | identifier name =>
    obtain ⟨text, rfl⟩ : ∃ text, name = .ofText text := h
    rfl
  | literal value => rw [Node.map, Node.mapFields, hliteral value rfl]
  | arrayExpression elements =>
    have hlist := list_canonical (l := .elements) hP hlook (m := m) h
    have hhole := endsWithHole_canonical hlook h
    rw [Node.map, Node.mapFields, nodeScript, nodeScript, isTrue_canonical (c := .expression) h,
      hlist, hhole]
  | objectExpression properties =>
    have hlist := list_canonical (l := .properties) hP hlook (m := m) h
    rw [Node.map, Node.mapFields, nodeScript, nodeScript,
      isTrue_canonical (c := .property) h, hlist]
  | functionExpression id params body =>
    obtain ⟨hid, hparams, hbody⟩ : NodeSlot P .identifier id ∧ ListSlot P .identifier params ∧
      ListSlot P .statement body := h
    have hlist := list_canonical (l := .params "FunctionExpression") hP hlook (m := m) hparams
    rw [Node.map, Node.mapFields, nodeScript, nodeScript, canonical_name hP hid, hlist,
      isTrue_canonical hbody, statements_canonical hP hlook hbody]
  | unaryExpression operator argument =>
    obtain ⟨⟨op, rfl⟩, hargument⟩ : (∃ op, operator = .ofMember (.unaryOperator op)) ∧
      NodeSlot P .expression argument := h
    have halike := alike_slot hlook hargument
    have hop : (Tree.ofMember (.unaryOperator op)).canonical = .ofMember (.unaryOperator op) := rfl
    rw [Node.map, Node.mapFields, hop]
    simp only [nodeScript, halike.refuses, halike.script]
  | binaryExpression left operator right =>
    obtain ⟨⟨op, rfl⟩, hleft, hright⟩ : (∃ op, operator = .ofMember (.binaryOperator op)) ∧
      NodeSlot P .expression left ∧ ListSlot P .expression right := h
    have halike := alike_slot hlook hleft
    have hlist (token : Text) := list_canonical (l := .operands token) hP hlook (m := m) hright
    rw [Node.map, Node.mapFields, nodeScript, nodeScript, Tree.ofMember, Tree.canonical_atom]
    simp only [halike.refuses, halike.script, hlist]
  | memberExpression object indices computed =>
    obtain ⟨hobject, hindices, c, rfl⟩ : NodeSlot P .expression object ∧
      ListSlot P .expression indices ∧ ∃ c, computed = .atom (.bool c) := h
    have halike := alike_slot hlook hobject
    have hlist : listScript m .indices indices.canonical = listScript m .indices indices :=
      list_canonical (l := .indices) hP hlook hindices
    have hlist' : listScript m .names indices.canonical = listScript m .names indices :=
      list_canonical (l := .names) hP hlook hindices
    rw [Node.map, Node.mapFields, nodeScript, nodeScript, Tree.canonical_atom, halike.refuses,
      halike.script]
    split
    · rw [hlist]
    · rw [hlist']
  | conditionalExpression test consequent alternate =>
    obtain ⟨htest, hconsequent, halternate⟩ : NodeSlot P .expression test ∧
      NodeSlot P .expression consequent ∧ NodeSlot P .expression alternate := h
    have htest := alike_slot hlook htest
    have hconsequent := alike_slot hlook hconsequent
    have halternate := alike_slot hlook halternate
    simp only [Node.map, Node.mapFields, nodeScript, htest.refuses, htest.script,
      hconsequent.refuses, hconsequent.script, halternate.refuses, halternate.script]
  | callExpression callee arguments =>
    obtain ⟨hcallee, harguments⟩ : NodeSlot P .expression callee ∧
      ListSlot P .expression arguments := h
    have halike := alike_slot hlook hcallee
    have hlist := list_canonical (l := .arguments "CallExpression") hP hlook (m := m) harguments
    rw [Node.map, Node.mapFields, nodeScript, nodeScript, halike.refuses, halike.script, hlist]
  | newExpression callee arguments =>
    obtain ⟨hcallee, harguments⟩ : NodeSlot P .expression callee ∧
      ListSlot P .expression arguments := h
    have halike := alike_slot hlook hcallee
    have hlist := list_canonical (l := .arguments "NewExpression") hP hlook (m := m) harguments
    rw [Node.map, Node.mapFields, nodeScript, nodeScript, halike.byNew, halike.script, hlist]
  | sequenceExpression expressions => exact list_canonical (l := .expressions) hP hlook h
  | blockStatement body =>
    rw [Node.map, Node.mapFields, nodeScript, nodeScript, isTrue_canonical (c := .statement) h,
      statements_canonical hP hlook h]
  | expressionStatement expression =>
    have halike := alike_slot hlook (c := .expression) h
    simp only [Node.map, Node.mapFields, nodeScript, halike.opens, halike.script]
  | withStatement object body =>
    have halike := alike_slot hlook (c := .expression) h.1
    rw [Node.map, Node.mapFields, nodeScript, nodeScript, halike.script,
      body_canonical hP hlook _ _ h.2]
  | returnStatement argument =>
    have halike := alike_slot hlook (c := .expression) h
    rw [Node.map, Node.mapFields, nodeScript, nodeScript, halike.isMissing, halike.script]
  | labeledStatement label body =>
    have halike := alike_slot hlook (c := .statement) h.2
    rw [Node.map, Node.mapFields, nodeScript, nodeScript, canonical_name hP h.1, halike.script]
  | breakStatement label => rw [Node.map, Node.mapFields, canonical_name hP h]
  | continueStatement label => rw [Node.map, Node.mapFields, canonical_name hP h]
  | ifStatement test consequent alternate => exact if_canonical hP hlook h.1 h.2.1 h.2.2
  | switchStatement discriminant cases =>
    have halike := alike_slot hlook (c := .expression) h.1
    have hlist := list_canonical (l := .cases) hP hlook (m := m) h.2
    rw [Node.map, Node.mapFields, nodeScript, nodeScript, halike.script, hlist]
  | switchCase test body =>
    have halike := alike_slot hlook (c := .expression) h.1
    rw [Node.map, Node.mapFields, nodeScript, nodeScript, halike.isMissing, halike.script,
      statements_canonical hP hlook h.2]
  | throwStatement argument =>
    have halike := alike_slot hlook (c := .expression) h
    rw [Node.map, Node.mapFields, nodeScript, nodeScript, halike.script]
  | tryStatement block handler finalizer => exact try_canonical hP hlook h.1 h.2.1 h.2.2
  | catchClause param body =>
    rw [Node.map, Node.mapFields, nodeScript, nodeScript, canonical_name hP h.1,
      isTrue_canonical (c := .statement) h.2, statements_canonical hP hlook h.2]
  | whileStatement test body =>
    have halike := alike_slot hlook (c := .expression) h.1
    rw [Node.map, Node.mapFields, nodeScript, nodeScript, halike.script,
      body_canonical hP hlook _ _ h.2]
  | doWhileStatement body test =>
    have halike := alike_slot hlook (c := .expression) h.2
    rw [Node.map, Node.mapFields, nodeScript, nodeScript, halike.script,
      body_canonical hP hlook _ _ h.1, hasBraces_canonical hP hlook _ h.1]
  | forStatement init test update body =>
    have htest := alike_slot hlook (c := .expression) h.2.1
    have hupdate := alike_slot hlook (c := .expression) h.2.2.1
    rw [Node.map, Node.mapFields, nodeScript, nodeScript, forInit_canonical hP hlook h.1,
      htest.script, hupdate.script, body_canonical hP hlook _ _ h.2.2.2]
  | forInStatement left right body =>
    have halike := alike_slot hlook (c := .expression) h.2.1
    rw [Node.map, Node.mapFields, nodeScript, nodeScript, forInLeft_canonical hP hlook h.1,
      halike.script, body_canonical hP hlook _ _ h.2.2]
  | functionDeclaration id params body =>
    obtain ⟨hid, hparams, hbody⟩ : NodeSlot P .identifier id ∧ ListSlot P .identifier params ∧
      ListSlot P .statement body := h
    have hlist := list_canonical (l := .params "FunctionDeclaration") hP hlook (m := m) hparams
    rw [Node.map, Node.mapFields, nodeScript, nodeScript, canonical_name hP hid, hlist,
      isTrue_canonical hbody, statements_canonical hP hlook hbody]
  | variableDeclaration declarations kind =>
    obtain ⟨hdeclarations, k, rfl⟩ : ListSlot P .variableDeclarator declarations ∧
      ∃ k, kind = .ofMember (.variableKind k) := h
    have hkind : (Tree.ofMember (.variableKind k)).canonical = .ofMember (.variableKind k) := rfl
    rw [Node.map, Node.mapFields, nodeScript, nodeScript, isTrue_canonical hdeclarations, hkind]
    simp only [declarators_canonical hP hlook _ hdeclarations]
  | variableDeclarator id init =>
    have halike := alike_slot hlook (c := .expression) h.2
    rw [Node.map, Node.mapFields, nodeScript, nodeScript, canonical_name hP h.1, halike.isMissing,
      halike.refuses, halike.script]
  | property key value kind =>
    obtain ⟨hkey, hvalue, k, rfl⟩ : ChoiceSlot P .literal .identifier key ∧
      NodeSlot P .expression value ∧ ∃ k, kind = .ofMember (.propertyKind k) := h
    exact property_canonical hP hlook hkey hvalue

/-- Printing cannot tell a node from the one with the canonical forms of its parts. -/
theorem alike_map (h : n.Filled P)
    (hliteral : ∀ value, n = .literal value → value.canonical = value) :
    Alike n (n.map Tree.canonical) := by
  have hnumber : numberOf? (.node (n.map Tree.canonical)) = numberOf? (.node n) := by
    cases n with
    | literal value => rw [Node.map, Node.mapFields, hliteral value rfl]
    | _ => rfl
  exact {
    kind := n.kind?_map _
    number := hnumber
    byNew := byNew_canonical hlook h hnumber
    opens := opens_canonical hlook h
    takes := fun _ => takes_canonical hP hlook h
    script := fun _ => script_canonical hP hlook h hliteral }

end Nodes

/-! ### Chains -/

section Chains

variable {m : Mode} {n : Node Tree}

/-- Nothing stands between accesses. -/
theorem items_append {l : Listing} (hl : l = .indices ∨ l = .names) (first : Bool)
    (before items : List Tree) :
    itemScripts m l first (before ++ items) =
      itemScripts m l first before ++ itemScripts m l true items := by
  have hnothing (first : Bool) : onlyIf first empty = empty := by cases first <;> rfl
  have hfirst : itemScripts m l false items = itemScripts m l true items := by
    rcases hl with rfl | rfl <;> cases items <;> rfl
  induction before generalizing first with
  | nil =>
    cases first with
    | true => rfl
    | false => exact hfirst
  | cons t rest ih =>
    rcases hl with rfl | rfl <;>
      simp only [List.cons_append, itemScripts, ih, Listing.between, hnothing, append_assoc]

/-- An access after an access is printed as the chain of both. -/
theorem alike_fold (object : Tree) (before indices : List Tree) (c : Bool) :
    Alike (.memberExpression (.node (.memberExpression object (.list before) (.atom (.bool c))))
        (.list indices) (.atom (.bool c)))
      (.memberExpression object (.list (before ++ indices)) (.atom (.bool c))) := by
  have hrefuses : (Place.object c).refuses
      (.node (.memberExpression object (.list before) (.atom (.bool c)))) = false := by
    cases c <;> rfl
  have hcomputed : (Tree.atom (.bool c)).isTrue = c := rfl
  refine ⟨rfl, rfl, ?_, ?_, fun _ => rfl, fun m => ?_⟩
  · rw [refusedByNew, refusedByNew, refusedByNew, hcomputed, hrefuses, Bool.false_or]
  · rw [opensLikeStatement, opensLikeStatement, opensLikeStatement, hcomputed, hrefuses]
    rfl
  · rw [nodeScript, nodeScript, scriptOr, nodeScript, hcomputed, hrefuses, enclosedIf_false,
      append_assoc, listScript, listScript, listScript]
    congr 1
    refine items_append ?_ true before indices
    cases c
    · exact .inr rfl
    · exact .inl rfl

theorem mergedOperands_apart {op : Atom} {right : List Tree} {last : Tree}
    (hlast : right.getLast? = some last)
    (h : ∀ l r, last ≠ .node (.binaryExpression l (.atom op) (.list r))) :
    mergedOperands op right = right := by
  induction right with
  | nil => rfl
  | cons t rest ih =>
    cases rest with
    | nil =>
      obtain rfl : t = last := by simpa using hlast
      unfold mergedOperands
      split
      · next heq => cases heq
      · next l o r heq =>
        obtain rfl := List.head_eq_of_cons_eq heq
        rw [if_neg]
        rintro rfl
        exact h l r rfl
      · next heq =>
        obtain ⟨rfl, rfl⟩ := List.cons.inj heq
        rfl
    | cons t' rest =>
      rw [List.getLast?_cons_cons] at hlast
      rw [mergedOperands_cons, ih hlast]

theorem canonical_operands (left : Tree) (op : Atom) {right : List Tree} (h : right ≠ []) :
    Node.canonical (.binaryExpression left (.atom op) (.list right)) =
      .node (.binaryExpression left (.atom op) (.list (mergedOperands op right))) := by
  cases right with
  | nil => exact absurd rfl h
  | cons t rest => simp [Node.canonical]

end Chains

section Trees

variable {P : Node Tree → Prop} {n : Node Tree} (hP : ∀ n, P n → n.HasSlots) (hlook : KeepsLook P)

include hP hlook

/-- An operand becomes a chain only if it is one of the same operator. -/
theorem operand_apart (hlinks : ∀ n, P n → n.IsLinked) {t l : Tree} {r : List Tree} {op : Atom}
    (h : NodeSlot P .expression t)
    (heq : t.canonical = .node (.binaryExpression l (.atom op) (.list r)))
    (hapart : ∀ left right, t ≠ .node (.binaryExpression left (.atom op) right)) : False := by
  have hkind := (alike_slot hlook h).kind
  rcases h with rfl | ⟨n, rfl, -, hn⟩
  · cases heq
  · rw [heq] at hkind
    cases n with
    | binaryExpression left operator right =>
      obtain ⟨⟨op', rfl⟩, -, items, rfl, -⟩ : (∃ op, operator = .ofMember (.binaryOperator op)) ∧
        NodeSlot P .expression left ∧ ListSlot P .expression right := hn.filled hP
      obtain ⟨last, hlast, -⟩ := hlinks _ hn.here
      have hne : items.map Tree.canonical ≠ [] := by
        rintro hnil
        rw [List.map_eq_nil_iff.mp hnil] at hlast
        cases hlast
      rw [Tree.canonical_node, Node.map, Node.mapFields, Tree.canonical_list, Tree.ofMember,
        Tree.canonical_atom, canonical_operands _ _ hne] at heq
      cases heq
      exact hapart _ _ rfl
    | _ => cases hkind

/-- The canonical form of a linked node is a node that printing cannot tell from it. -/
theorem alike_canonical (hlinks : ∀ n, P n → n.IsLinked) (h : n.Filled P) (hlinked : n.IsLinked)
    (hliteral : ∀ value, n = .literal value → value.canonical = value) :
    ∃ n', Tree.canonical (.node n) = .node n' ∧ Alike n n' := by
  have hmap := alike_map hP hlook h hliteral
  rw [Tree.canonical_node]
  cases n with
  | binaryExpression left operator right =>
    obtain ⟨⟨op, rfl⟩, -, items, rfl, hitems⟩ : (∃ op, operator = .ofMember (.binaryOperator op)) ∧
      NodeSlot P .expression left ∧ ListSlot P .expression right := h
    obtain ⟨last, hlast, hapart⟩ := hlinked
    have hslot := hitems last (List.mem_of_getLast? hlast)
    have hlast' : (items.map Tree.canonical).getLast? = some last.canonical := by
      rw [List.getLast?_map, hlast]
      rfl
    have hne : items.map Tree.canonical ≠ [] := by
      intro hnil
      rw [hnil] at hlast'
      cases hlast'
    have hmerged : mergedOperands (.member (.binaryOperator op)) (items.map Tree.canonical) =
        items.map Tree.canonical :=
      mergedOperands_apart hlast' fun l r heq => operand_apart hP hlook hlinks hslot heq hapart
    rw [Node.map, Node.mapFields, Tree.canonical_list, Tree.ofMember, Tree.canonical_atom] at hmap ⊢
    exact ⟨_, by rw [canonical_operands _ _ hne, hmerged], hmap⟩
  | memberExpression object indices computed =>
    obtain ⟨-, ⟨items, rfl, -⟩, c, rfl⟩ : NodeSlot P .expression object ∧
      ListSlot P .expression indices ∧ ∃ c, computed = .atom (.bool c) := h
    rw [Node.map, Node.mapFields, Tree.canonical_list, Tree.canonical_atom] at hmap ⊢
    cases items with
    | nil => exact absurd rfl hlinked
    | cons first rest =>
      by_cases hchain : ∃ o i c, object.canonical = .node (.memberExpression o (.list i) (.atom c))
      · obtain ⟨o, i, style, hchain⟩ := hchain
        rw [hchain] at hmap ⊢
        by_cases hstyle : style = .bool c
        · subst hstyle
          exact ⟨_, by simp [Node.canonical], hmap.trans (alike_fold o i _ c)⟩
        · exact ⟨_, by simp [Node.canonical, hstyle], hmap⟩
      · exact ⟨_, canonical_access_apart fun o i c h => hchain ⟨o, i, c, h⟩, hmap⟩
  | _ => exact ⟨_, rfl, hmap⟩

end Trees

section Exchange

variable {t : Tree} {j : Json}

/-- Throughout a tree that is in place and linked, printing cannot tell a node from its canonical
form. -/
theorem keepsLook_throughout (h : t.Throughout fun n => n.Fits true ∧ n.IsLinked) :
    t.Throughout fun n => (n.Fits true ∧ n.IsLinked) ∧
      ∃ n', Tree.canonical (.node n) = .node n' ∧ Alike n n' := by
  refine h.strengthen (fun n hn entry hentry _ => hn.1 entry hentry) fun n hn hfilled => ?_
  refine alike_canonical (fun n hn entry hentry _ => hn.1.1 entry hentry) (fun n hn => hn.2)
    (fun n hn => hn.1.2) hfilled hn.2 ?_
  rintro value rfl
  exact canonical_literalValue (hn.1 _ List.mem_cons_self)

theorem script_of_canonical (h : t.InPlace) (hlinked : ∀ n, Within (.node n) t → n.IsLinked)
    (m : Mode) : script m t.canonical = script m t := by
  have hthroughout : t.Throughout fun n => n.Fits true ∧ n.IsLinked :=
    (throughout_iff_within h).mpr fun n hn => ⟨h.2 n hn, hlinked n hn⟩
  obtain ⟨rfl | ⟨n, rfl⟩, -⟩ := h
  · rfl
  · obtain ⟨n', hn', halike⟩ := (keepsLook_throughout hthroughout).here.2
    rw [hn']
    exact halike.script m

/-- Trees of one script have the same source under all settings. -/
theorem toSource_of_script {t t' : Tree} {s : PrintSettings}
    (h : script s.mode t' = script s.mode t) : toSource s t' = toSource s t := by
  unfold toSource Position.deliver Position.print
  rw [h]

/-- What an exchange makes of a linked tree has the source of the tree, under all settings. -/
theorem toSource_of_exchange (s : PrintSettings) (h : t.InPlace)
    (hdecimal : ∀ d, ¬Within (.node (.literal (.atom (.decimal d)))) t)
    (hlinked : ∀ n, Within (.node n) t → n.IsLinked) (hwrite : Exchange.write t = .ok j) :
    ∃ t', read j = .ok t' ∧ toSource s t' = toSource s t := by
  have hsource := toSource_of_script (script_of_canonical h hlinked s.mode)
  obtain ⟨draft, hdraft, rfl⟩ := bind_eq_ok.mp hwrite
  obtain ⟨rfl | ⟨n, rfl⟩, hfits⟩ := h
  · obtain rfl := Except.ok.inj (Except.ok.inj hdraft)
    exact ⟨.missing, readAs_eq_ok.mpr (.inl ⟨rfl, rfl, rfl⟩), rfl⟩
  · obtain ⟨m, hm⟩ := writesBack_of_inPlace hfits hdecimal n .refl j hdraft
    rw [hm.canonical] at hsource
    exact ⟨.node m, (read_eq_readAs j).trans (hm.reads .anything rfl), hsource⟩

def nestedAccess : Tree :=
  .node (.memberExpression
    (.node (.memberExpression (.node .thisExpression)
      (.list [.node (.identifier (.ofText "a"))]) (.atom (.bool false))))
    (.list [.node (.identifier (.ofText "b"))]) (.atom (.bool false)))

theorem within_nestedAccess {n : Node Tree} (hn : Within (.node n) nestedAccess) :
    n.Fits true ∧ n.IsLinked ∧ ∀ value, n ≠ .literal value := by
  have hname (name : Text) : (Node.identifier (.ofText name)).Fits true := by
    simp [Node.Fits, Node.entries, Role.Holds]
  have hchain (object : Node Tree) (name : Text) (h : object.isExpression = true) :
      (Node.memberExpression (.node object) (.list [.node (.identifier (.ofText name))])
        (.atom (.bool false))).Fits true := by
    simp only [Node.Fits, Node.entries, List.forall_mem_cons]
    exact ⟨.inl h, ⟨_, rfl, by simpa using .inl rfl⟩, ⟨false, rfl⟩, by simp⟩
  simp only [nestedAccess, Within.node_iff, Node.fields, List.mem_cons, Prod.mk.injEq, or_and_right,
    exists_or, and_assoc, exists_and_left, exists_eq_left, List.not_mem_nil, false_and,
    exists_false,
    Within.list_iff, Within.not_atom, Tree.ofText, or_false] at hn
  rcases hn with rfl | (rfl | rfl | rfl) | rfl
  · exact ⟨hchain _ "b" rfl, by simp [Node.IsLinked], by simp⟩
  · exact ⟨hchain _ "a" rfl, by simp [Node.IsLinked], by simp⟩
  · exact ⟨by simp [Node.Fits, Node.entries], trivial, by simp⟩
  · exact ⟨hname "a", trivial, by simp⟩
  · exact ⟨hname "b", trivial, by simp⟩

theorem toSource_of_exchange_nestedAccess :
    ∃ j t', Exchange.write nestedAccess = .ok j ∧ read j = .ok t' ∧
      toSource {} nestedAccess = .ok "this.a.b" ∧ toSource {} t' = .ok "this.a.b" := by
  have hwrite : Exchange.write nestedAccess = .ok _ := rfl
  have hplace : nestedAccess.InPlace := ⟨.inr ⟨_, rfl⟩, fun n hn => (within_nestedAccess hn).1⟩
  have hprint : toSource {} nestedAccess = .ok "this.a.b" := by decide
  obtain ⟨t', hread, hsource⟩ := toSource_of_exchange {} hplace
    (fun d hd => (within_nestedAccess hd).2.2 _ rfl)
    (fun n hn => (within_nestedAccess hn).2.1) hwrite
  exact ⟨_, t', hwrite, hread, hprint, hsource.trans hprint⟩

end Exchange

end Source

end ScriptTree
