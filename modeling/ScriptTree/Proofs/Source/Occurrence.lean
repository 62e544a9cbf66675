import ScriptTree.Proofs.Source.Failure
import ScriptTree.Proofs.Source.Printed

/-!
Where the parts of a tree are printed. The script of an expression that stands in a tree is a
part of the script of the tree, and so are those of a jump and of a property. Only the function
of an accessor is no expression in source text. Blocks, clauses and declarations are left out:
what they print as depends on where they stand.
-/

namespace ScriptTree

open Exchange

/-- Whether the node is printed alike wherever it stands: it is an expression, a jump or a
property. -/
def Node.isFixed (n : Node Tree) : Bool :=
  n.isExpression || n.kind? matches
    some .returnStatement | some .throwStatement | some .breakStatement
    | some .continueStatement | some .property

namespace Source

open Script

def Script.Includes (a c : Script) : Prop :=
  a.failure = none → ∃ before after, a = before ++ c ++ after

namespace Script.Includes

variable {m : Mode} {a b c s : Script}

theorem refl (c : Script) : c.Includes c :=
  fun _ => ⟨Script.empty, Script.empty, (append_empty _).symm⟩

theorem left (h : a.Includes c) (b : Script) : (a ++ b).Includes c := by
  intro hab
  obtain ⟨before, after, ha⟩ := h (failure_left hab)
  exact ⟨before, after ++ b, by rw [ha, append_assoc]⟩

theorem right (a : Script) (h : b.Includes c) : (a ++ b).Includes c := by
  intro hab
  obtain ⟨before, after, hb⟩ := h (failure_right hab)
  exact ⟨a ++ before, after, by rw [hb, append_assoc, append_assoc, append_assoc]⟩

theorem fail (e : TreeError) : (Script.fail e).Includes c := nofun

theorem given {α : Type} {result : Except TreeError α} {s : α → Script}
    (h : ∀ value, (s value).Includes c) : (given result s).Includes c := by
  cases result with
  | ok value => exact h value
  | error e => exact fail e

theorem enclosedIf (condition : Bool) (h : s.Includes c) : (enclosedIf condition s).Includes c := by
  cases condition with
  | false => exact h
  | true => exact (right _ h).left _

theorem braces (spacer newline : Bool) (h : s.Includes c) :
    (m.braces spacer newline false s).Includes c :=
  right _ (((right _ h).left _).left _)

theorem bracketed (t u : Text) (h : s.Includes c) :
    (Source.bracketed m t u s).Includes c := ((right _ h).left _).left _

theorem looseBody (h : s.Includes c) : (Source.looseBody m s).Includes c := (right _ h).left _

end Script.Includes

def Script.Covers (s : Script) (m : Mode) (n : Node Tree) (parts : List Tree) : Prop :=
  ∀ t ∈ parts, n.PrintedIn t → s.Includes (nodeScript m n)

namespace Script.Covers

variable {m : Mode} {n : Node Tree} {a b s : Script} {parts more : List Tree} {t : Tree}

theorem part (h : n.PrintedIn t → s.Includes (nodeScript m n)) : s.Covers m n [t] :=
  List.forall_mem_singleton.mpr h

theorem includes (h : s.Covers m n [t]) (hprinted : n.PrintedIn t) : s.Includes (nodeScript m n) :=
  h t List.mem_cons_self hprinted

/-- What the node is not printed in need not be covered. -/
theorem mono (h : s.Covers m n parts) (hparts : ∀ t ∈ more, n.PrintedIn t → t ∈ parts) :
    s.Covers m n more := fun t ht hprinted => h t (hparts t ht hprinted) hprinted

theorem left (h : a.Covers m n parts) (b : Script) : (a ++ b).Covers m n parts :=
  fun t ht hprinted => .left (h t ht hprinted) b

theorem right (a : Script) (h : b.Covers m n parts) : (a ++ b).Covers m n parts :=
  fun t ht hprinted => .right a (h t ht hprinted)

theorem append (ha : a.Covers m n parts) (hb : b.Covers m n more) :
    (a ++ b).Covers m n (parts ++ more) := by
  intro t ht hprinted
  rcases List.mem_append.mp ht with ht | ht
  · exact ha.left b t ht hprinted
  · exact hb.right a t ht hprinted

theorem fail (e : TreeError) : (fail e).Covers m n parts := fun _ _ _ => .fail e

theorem given {α : Type} {result : Except TreeError α} {s : α → Script}
    (h : ∀ value, result = .ok value → (s value).Covers m n parts) :
    (given result s).Covers m n parts := by
  cases result with
  | ok value => exact h value rfl
  | error e => exact fail e

theorem enclosedIf (condition : Bool) (h : s.Covers m n parts) :
    (enclosedIf condition s).Covers m n parts :=
  fun t ht hprinted => .enclosedIf condition (h t ht hprinted)

/-- What is written only if the part is there. -/
theorem ifPresent (h : s.Covers m n [t]) : (onlyIf (!t.isMissing) s).Covers m n [t] := by
  cases t with
  | missing => exact .part fun hprinted => absurd hprinted not_printedIn_missing
  | _ => exact h

end Script.Covers

section Trees

variable {P : Node Tree → Prop} {m : Mode} {n : Node Tree} {t : Tree}

variable (hP : ∀ k, P k → k.HasSlots) (hn : n.isFixed = true)
  (hthere : ∀ k, P k → n.PrintedIn (.node k) →
    (nodeScript m k).Includes (nodeScript m n))

include hthere

theorem covers_slot {c : Category} {missing : Script} (h : NodeSlot P c t) :
    (scriptOr m missing t).Covers m n [t] := by
  refine .part fun hprinted => ?_
  rcases h with rfl | ⟨k, rfl, -, hk⟩
  · exact absurd hprinted not_printedIn_missing
  · exact hthere k hk.here hprinted

theorem covers_item {l : Listing} (h : NodeSlot P l.category t) : (l.item m t).Covers m n [t] := by
  unfold Listing.item
  split
  · exact .fail _
  · exact .left (.right _ (.enclosedIf _ (covers_slot hthere h))) _

include hP

theorem covers_items {l : Listing} {items : List Tree}
    (h : ∀ item ∈ items, NodeSlot P l.category item) (first : Bool) :
    (itemScripts m l first items).Covers m n items := by
  induction items generalizing first with
  | nil => exact fun _ hitem => absurd hitem List.not_mem_nil
  | cons t rest ih =>
    obtain ⟨ht, hrest⟩ := List.forall_mem_cons.mp h
    rw [itemScripts_cons hP first rest ht]
    exact .append (.right _ (covers_item hthere ht)) (ih hrest false)

theorem covers_list {l : Listing} (h : ListSlot P l.category t) :
    (listScript m l t).Covers m n [t] := by
  obtain ⟨items, rfl, hitems⟩ := h
  refine .part fun hprinted => ?_
  obtain ⟨item, hitem, hprinted⟩ := printedIn_list.mp hprinted
  exact covers_items hP hthere hitems true item hitem hprinted

omit hP hthere in
/-- Where nothing else is written for an empty list, a list is what it is. -/
theorem covers_unlessEmpty {c : Category} {s : Bool → Script} (h : ListSlot P c t)
    (hs : (s false).Covers m n [t]) : (s (!t.isTrue)).Covers m n [t] := by
  obtain ⟨items, rfl, -⟩ := h
  cases items with
  | nil => exact .part fun hprinted => by simp at hprinted
  | cons t rest => exact hs

/-- Statements between braces. -/
theorem covers_braces (spacer newline : Bool) (h : ListSlot P .statement t) :
    (m.braces spacer newline (!t.isTrue) (listScript m .statements t)).Covers m n [t] := by
  refine covers_unlessEmpty (s := fun empty => m.braces spacer newline empty _) h ?_
  exact .part fun hprinted =>
    .braces _ _ ((covers_list (l := .statements) hP hthere h).includes hprinted)

include hn

omit hP hthere in
/-- What is printed in a node of another kind is printed in a part of it. -/
theorem printedIn_part {k : Node Tree} (hk : k.isFixed = false) (hprinted : n.PrintedIn (.node k)) :
    ∃ t ∈ k.printedParts, n.PrintedIn t := by
  refine (printedIn_node.mp hprinted).resolve_left ?_
  rintro rfl
  rw [hn] at hk
  cases hk

omit hP hthere in
theorem printedIn_block {body : Tree} (hprinted : n.PrintedIn (.node (.blockStatement body))) :
    n.PrintedIn body := by
  simpa [Node.printedParts, Node.fields] using printedIn_part hn rfl hprinted

theorem covers_body (newline beforeElse : Bool) (h : NodeSlot P .statement t) :
    (bodyScript m newline beforeElse t).Covers m n [t] := by
  refine .part fun hprinted => ?_
  rcases h with rfl | ⟨k, rfl, -, hk⟩
  · exact absurd hprinted not_printedIn_missing
  · by_cases hblock : ∃ body, k = .blockStatement body
    · obtain ⟨body, rfl⟩ := hblock
      have hbody := printedIn_block hn hprinted
      rw [bodyScript]
      refine .given fun drops => ?_
      split
      · exact (covers_list (l := .statements) hP hthere (hk.filled hP)).includes hbody
      · exact (covers_braces hP hthere _ _ (hk.filled hP)).includes hbody
    · have hnode := hthere k hk.here hprinted
      rw [bodyScript]
      · refine .given fun encloses => ?_
        split
        · exact .braces _ _ hnode
        · exact .looseBody hnode
      · exact fun body heq => hblock ⟨body, heq⟩

theorem covers_else (h : NodeSlot P .statement t) : (elseScript m t).Covers m n [t] := by
  refine .part fun hprinted => ?_
  rcases h with rfl | ⟨k, rfl, -, hk⟩
  · exact absurd hprinted not_printedIn_missing
  · by_cases hblock : ∃ body, k = .blockStatement body
    · obtain ⟨body, rfl⟩ := hblock
      have hbody := printedIn_block hn hprinted
      rw [elseScript]
      refine .given fun drops => ?_
      split
      · exact (covers_list (l := .statements) hP hthere (hk.filled hP)).includes hbody
      · exact (covers_braces hP hthere _ _ (hk.filled hP)).includes hbody
    · have hnode := hthere k hk.here hprinted
      rw [elseScript]
      · split
        · exact .right _ hnode
        · exact .looseBody hnode
      · exact fun body heq => hblock ⟨body, heq⟩

/-- A branch that prints as an expression. -/
theorem covers_foldedBranch {expression : Tree} (h : NodeSlot P .statement t)
    (hsole : soleExpression t = .ok expression) (hmissing : expression ≠ .missing) :
    (foldedBranch m t).Covers m n [t] := by
  refine .part fun hprinted => ?_
  have hstatement (h : n.PrintedIn (.node (.expressionStatement expression))) :
      n.PrintedIn expression := by
    simpa [Node.printedParts, Node.fields] using printedIn_part hn rfl h
  obtain ⟨hexpression, rfl | rfl⟩ := soleExpression_cases hP h hsole hmissing
  · exact .enclosedIf _ ((covers_slot hthere hexpression).includes (hstatement hprinted))
  · have hblock : n.PrintedIn (.node (.expressionStatement expression)) := by
      simpa using printedIn_block hn hprinted
    exact .enclosedIf _ ((covers_slot hthere hexpression).includes (hstatement hblock))

theorem covers_block (newline : Bool) (h : BlockSlot P t) :
    (blockPart m newline t).Covers m n [t] := by
  rcases h with rfl | ⟨body, rfl, hbody⟩
  · exact .fail _
  · exact .part fun hprinted =>
      (covers_braces hP hthere _ _ hbody).includes (printedIn_block hn hprinted)

omit hn in
theorem covers_catchFrame {param body : Tree} (newline : Bool)
    (hparam : NodeSlot P .identifier param) (hbody : ListSlot P .statement body) :
    (catchFrame m newline (!body.isTrue)
      (scriptOr m (absent "CatchClause" "param") param)
      (listScript m .statements body)).Covers m n [param, body] :=
  .append (.left (.right _ (covers_slot hthere hparam)) _) (covers_braces hP hthere _ _ hbody)

theorem covers_handler (newline : Bool) (h : NodeSlot P .catchClause t) :
    (handlerScript m newline t).Covers m n [t] := by
  refine .part fun hprinted => ?_
  rcases h.of_kind rfl (by decide) with rfl | ⟨k, rfl, hkind, hk⟩
  · exact absurd hprinted not_printedIn_missing
  · cases k with
    | catchClause param body =>
      obtain ⟨hparam, hbody⟩ : NodeSlot P .identifier param ∧ ListSlot P .statement body :=
        hk.filled hP
      obtain ⟨part, hpart, hprinted⟩ := printedIn_part hn rfl hprinted
      refine .right _ (covers_catchFrame hP hthere newline hparam hbody part ?_ hprinted)
      simpa [Node.printedParts, Node.fields, or_comm] using hpart
    | _ => cases hkind

omit hP hn in
theorem covers_key (h : ChoiceSlot P .literal .identifier t) : (keyScript m t).Covers m n [t] := by
  rcases h with rfl | ⟨k, rfl, -, hk⟩ | ⟨k, rfl, -, hk⟩
  · exact .fail _
  · exact .part fun hprinted => hthere k hk.here (by simpa [Choice.value?] using hprinted)
  · exact .part fun hprinted => hthere k hk.here (by simpa [Choice.value?] using hprinted)

omit hn in
/-- The parameters and the statements of a function, after its head. -/
theorem covers_function {params body : Tree} {owner : String} {head : Script} {parts : List Tree}
    (newline : Bool) (hhead : head.Covers m n parts) (hparams : ListSlot P .identifier params)
    (hbody : ListSlot P .statement body) :
    (head ++ write "(" ++ listScript m (.params owner) params ++ m.token ")" ") " ++
      m.braces false newline (!body.isTrue)
        (listScript m .statements body)).Covers m n (parts ++ [params] ++ [body]) :=
  .append (.left (.append (hhead.left _) (covers_list (l := .params owner) hP hthere hparams)) _)
    (covers_braces hP hthere _ _ hbody)

omit hn in
theorem covers_accessor (word : Text) {key : Script} {parts : List Tree}
    (hkey : key.Covers m n parts) (h : NodeSlot P .expression t) :
    (accessorScript m word key t).Covers m n (parts ++ t.accessorParts) := by
  unfold accessorScript
  split
  · next id params body =>
    obtain ⟨-, hparams, hbody⟩ : NodeSlot P .identifier id ∧ ListSlot P .identifier params ∧
      ListSlot P .statement body := h.throughout.filled hP
    rw [Tree.accessorParts, List.append_cons]
    exact covers_function hP hthere false (.right _ hkey) hparams hbody
  · exact .fail _

theorem covers_headDeclaration (owner : String) {k : Node Tree}
    (hkind : k.kind? = some .variableDeclaration) (hk : (Tree.node k).Throughout P) :
    (headDeclaration m owner (.node k)).Covers m n [.node k] ∧
      (forInDeclaration m (.node k)).Covers m n [.node k] := by
  cases k with
  | variableDeclaration declarations kind =>
    obtain ⟨hdeclarations, ⟨word, rfl⟩⟩ : ListSlot P .variableDeclarator declarations ∧
      ∃ kind', kind = .ofMember (.variableKind kind') := hk.filled hP
    have hlist (hprinted : n.PrintedIn (.node (.variableDeclaration declarations
        (.ofMember (.variableKind word))))) :
        (listScript m (.declarators true) declarations).Includes (nodeScript m n) := by
      refine (covers_list (l := .declarators true) hP hthere hdeclarations).includes ?_
      simpa [Node.printedParts, Node.fields, Tree.ofMember] using printedIn_part hn rfl hprinted
    rw [headDeclaration, forInDeclaration]
    constructor
    · split
      · exact .fail _
      · exact .given fun word _ => .right _ (.part hlist)
    · refine .given fun count _ => ?_
      split
      · exact .fail _
      · exact .given fun word _ => .right _ (.part hlist)
  | _ => cases hkind

theorem covers_forInit (h : ChoiceSlot P .variableDeclaration .expression t) :
    (forInit m t).Covers m n [t] := by
  rcases h with rfl | ⟨k, rfl, hkind, hk⟩ | ⟨k, rfl, -, hk⟩
  · exact .part fun hprinted => by simp [Choice.value?] at hprinted
  · exact .part fun hprinted => (covers_headDeclaration hP hn hthere _ hkind hk).1.includes
      (by simpa [Choice.value?] using hprinted)
  · exact .part fun hprinted => hthere k hk.here (by simpa [Choice.value?] using hprinted)

theorem covers_forInLeft (h : ChoiceSlot P .variableDeclaration .identifier t) :
    (forInLeft m t).Covers m n [t] := by
  rcases h with rfl | ⟨k, rfl, hkind, hk⟩ | ⟨k, rfl, -, hk⟩
  · exact .fail _
  · exact .part fun hprinted =>
      (covers_headDeclaration hP hn hthere "ForInStatement" hkind hk).2.includes
        (by simpa [Choice.value?] using hprinted)
  · exact .part fun hprinted => hthere k hk.here (by simpa [Choice.value?] using hprinted)

omit hn in
theorem covers_optionalName (h : NodeSlot P .identifier t) : (optionalName t).Covers m n [t] := by
  refine .part fun hprinted => ?_
  rcases h.name hP with rfl | ⟨name, rfl⟩
  · exact absurd hprinted not_printedIn_missing
  · obtain rfl : n = .identifier (.ofText name) := by
      simpa [printedIn_node, Node.printedParts, Node.fields, Tree.ofText] using hprinted
    exact .right _ (.refl _)

omit hP hthere in
theorem hasFinalizer_of_printedIn (h : BlockSlot P t) (hprinted : n.PrintedIn t) :
    t.hasFinalizer = .ok true := by
  rcases h with rfl | ⟨body, rfl, items, rfl, -⟩
  · exact absurd hprinted not_printedIn_missing
  · have hbody := printedIn_block hn hprinted
    cases items with
    | nil => simp at hbody
    | cons t rest => rfl

/-- The finalizer, which is written only if it has statements. -/
theorem covers_finalizer {final : Bool} (h : BlockSlot P t) (hfinal : t.hasFinalizer = .ok final) :
    (onlyIf final (m.token "finally" " finally" ++ blockPart m true t)).Covers m n [t] := by
  refine .part fun hprinted => ?_
  obtain rfl : final = true :=
    Except.ok.inj (hfinal.symm.trans (hasFinalizer_of_printedIn hn h hprinted))
  exact .right _ ((covers_block hP hn hthere _ h).includes hprinted)

theorem covers_if {test consequent alternate : Tree} (htest : NodeSlot P .expression test)
    (hconsequent : NodeSlot P .statement consequent)
    (halternate : NodeSlot P .statement alternate) :
    (nodeScript m (.ifStatement test consequent alternate)).Covers m n
      [test, consequent, alternate] := by
  rw [nodeScript]
  refine .given fun folds hfolds => ?_
  cases folds with
  | true =>
    obtain ⟨-, e, e', he, hmissing, he', hmissing'⟩ := becomesConditional_cases hfolds
    refine .given fun encloses _ => .left (.enclosedIf _ ?_) _
    exact .append (.left (.append (.left (.enclosedIf _ (covers_slot hthere htest)) _)
      (covers_foldedBranch hP hn hthere hconsequent he hmissing)) _)
      (covers_foldedBranch hP hn hthere halternate he' hmissing')
  | false =>
    exact .append (.append (.left (.right _ (covers_slot hthere htest)) _)
      (covers_body hP hn hthere _ _ hconsequent))
      (.ifPresent (.right _ (covers_else hP hn hthere halternate)))

omit hn in
theorem covers_property {key value kind : Tree} (hkey : ChoiceSlot P .literal .identifier key)
    (hvalue : NodeSlot P .expression value) :
    (nodeScript m (.property key value kind)).Covers m n
      (Node.property key value kind).printedParts := by
  rw [Node.printedParts]
  unfold nodeScript
  split
  · exact .fail _
  · split
    · exact .append (.left (covers_key hthere hkey) _) (.enclosedIf _ (covers_slot hthere hvalue))
    · exact .given fun word _ => covers_accessor hP hthere word (covers_key hthere hkey) hvalue

/-- The script of a node includes what is printed in a part of it if those of the nodes in it
do. -/
theorem covers_node {k : Node Tree} (h : k.Filled P) :
    (nodeScript m k).Covers m n k.printedParts := by
  cases k with
  | bare cls => exact .fail _
  | program body => exact covers_list (l := .statements) hP hthere h
  | identifier name =>
    obtain ⟨text, rfl⟩ : ∃ text, name = .ofText text := h
    exact .part fun hprinted => absurd hprinted not_printedIn_atom
  | literal value => exact fun _ hpart => absurd hpart List.not_mem_nil
  | thisExpression => exact fun _ hpart => absurd hpart List.not_mem_nil
  | arrayExpression elements =>
    refine covers_unlessEmpty (s := fun empty => if empty then write "[]" else _) h ?_
    exact .part fun hprinted => .bracketed _ _
      (.left ((covers_list (l := .elements) hP hthere h).includes hprinted) _)
  | objectExpression properties =>
    refine covers_unlessEmpty (s := fun empty => if empty then write "\x7b\x7d" else _) h ?_
    exact .part fun hprinted => .bracketed _ _
      ((covers_list (l := .properties) hP hthere h).includes hprinted)
  | functionExpression id params body =>
    obtain ⟨hid, hparams, hbody⟩ : NodeSlot P .identifier id ∧ ListSlot P .identifier params ∧
      ListSlot P .statement body := h
    exact .mono (covers_function hP hthere false (.right _ (covers_optionalName hP hthere hid))
      hparams hbody) (by simp [Node.printedParts, Node.fields])
  | unaryExpression operator argument =>
    obtain ⟨⟨op, rfl⟩, hargument⟩ : (∃ op, operator = .ofMember (.unaryOperator op)) ∧
      NodeSlot P .expression argument := h
    have hoperand : (enclosedIf (Place.operand.refuses argument)
        (scriptOr m (absent "UnaryExpression" "argument") argument)).Covers m n [argument] :=
      .enclosedIf _ (covers_slot hthere hargument)
    rw [nodeScript_unary]
    split
    · exact .mono (hoperand.right _) (by simp [Node.printedParts, Node.fields, Tree.ofMember])
    · exact .mono (hoperand.left _) (by simp [Node.printedParts, Node.fields, Tree.ofMember])
  | binaryExpression left operator right =>
    obtain ⟨⟨op, rfl⟩, hleft, hright⟩ : (∃ op, operator = .ofMember (.binaryOperator op)) ∧
      NodeSlot P .expression left ∧ ListSlot P .expression right := h
    refine .given fun token _ => ?_
    exact .mono (.left (.append (.right _ (.enclosedIf _ (covers_slot hthere hleft)))
      (covers_list (l := .operands token) hP hthere hright)) _)
      (by simp [Node.printedParts, Node.fields, Tree.ofMember])
  | memberExpression object indices computed =>
    obtain ⟨hobject, hindices, ⟨flag, rfl⟩⟩ : NodeSlot P .expression object ∧
      ListSlot P .expression indices ∧ ∃ flag, computed = .atom (.bool flag) := h
    have hlist :
        (listScript m (if flag then .indices else .names) indices).Covers m n [indices] := by
      cases flag with
      | true => exact covers_list (l := .indices) hP hthere hindices
      | false => exact covers_list (l := .names) hP hthere hindices
    exact .mono (.append (.enclosedIf _ (covers_slot hthere hobject)) hlist)
      (by simp [Node.printedParts, Node.fields])
  | conditionalExpression test consequent alternate =>
    obtain ⟨htest, hconsequent, halternate⟩ : NodeSlot P .expression test ∧
      NodeSlot P .expression consequent ∧ NodeSlot P .expression alternate := h
    exact .mono (.append (.left (.append (.left (.enclosedIf _ (covers_slot hthere htest)) _)
      (.enclosedIf _ (covers_slot hthere hconsequent))) _)
      (.enclosedIf _ (covers_slot hthere halternate))) (by simp [Node.printedParts, Node.fields])
  | callExpression callee arguments =>
    obtain ⟨hcallee, harguments⟩ : NodeSlot P .expression callee ∧
      ListSlot P .expression arguments := h
    exact .mono (.left (.append (.left (.enclosedIf _ (covers_slot hthere hcallee)) _)
      (covers_list (l := .arguments "CallExpression") hP hthere harguments)) _)
      (by simp [Node.printedParts, Node.fields])
  | newExpression callee arguments =>
    obtain ⟨hcallee, harguments⟩ : NodeSlot P .expression callee ∧
      ListSlot P .expression arguments := h
    exact .mono (.left (.append (.left (.right _ (.enclosedIf _ (covers_slot hthere hcallee))) _)
      (covers_list (l := .arguments "NewExpression") hP hthere harguments)) _)
      (by simp [Node.printedParts, Node.fields])
  | sequenceExpression expressions => exact covers_list (l := .expressions) hP hthere h
  | blockStatement body => exact covers_braces hP hthere _ _ h
  | expressionStatement expression =>
    have hexpression : NodeSlot P .expression expression := h
    exact .given fun encloses _ => .left (.enclosedIf _ (covers_slot hthere hexpression)) _
  | debuggerStatement => exact fun _ hpart => absurd hpart List.not_mem_nil
  | withStatement object body =>
    obtain ⟨hobject, hbody⟩ : NodeSlot P .expression object ∧ NodeSlot P .statement body := h
    exact .mono (.append (.left (.right _ (covers_slot hthere hobject)) _)
      (covers_body hP hn hthere _ _ hbody)) (by simp [Node.printedParts, Node.fields])
  | returnStatement argument =>
    have hargument : NodeSlot P .expression argument := h
    exact .left (.right _ (.ifPresent (.right _ (covers_slot hthere hargument)))) _
  | labeledStatement label body =>
    obtain ⟨hlabel, hbody⟩ : NodeSlot P .identifier label ∧ NodeSlot P .statement body := h
    exact .mono (.append (.left (covers_slot hthere hlabel) _) (covers_slot hthere hbody))
      (by simp [Node.printedParts, Node.fields])
  | breakStatement label => exact .left (.right _ (covers_optionalName hP hthere h)) _
  | continueStatement label => exact .left (.right _ (covers_optionalName hP hthere h)) _
  | ifStatement test consequent alternate =>
    obtain ⟨htest, hconsequent, halternate⟩ : NodeSlot P .expression test ∧
      NodeSlot P .statement consequent ∧ NodeSlot P .statement alternate := h
    exact covers_if hP hn hthere htest hconsequent halternate
  | switchStatement discriminant cases =>
    obtain ⟨hdiscriminant, hcases⟩ : NodeSlot P .expression discriminant ∧
      ListSlot P .switchCase cases := h
    exact .mono (.left (.left (.append (.left (.left (.right _
      (covers_slot hthere hdiscriminant)) _) _) (covers_list (l := .cases) hP hthere hcases)) _) _)
      (by simp [Node.printedParts, Node.fields])
  | switchCase test body =>
    obtain ⟨htest, hbody⟩ : NodeSlot P .expression test ∧ ListSlot P .statement body := h
    have hhead : (clauseHead m test.isMissing (scriptOr m empty test)).Covers m n [test] := by
      cases test with
      | missing => exact .part fun hprinted => absurd hprinted not_printedIn_missing
      | _ => exact .left (.left (.right _ (covers_slot hthere htest)) _) _
    exact .mono (.left (.append hhead (covers_list (l := .statements) hP hthere hbody)) _)
      (by simp [Node.printedParts, Node.fields])
  | throwStatement argument =>
    have hargument : NodeSlot P .expression argument := h
    exact .left (.right _ (covers_slot hthere hargument)) _
  | tryStatement block handler finalizer =>
    obtain ⟨hblock, hhandler, hfinalizer⟩ : BlockSlot P block ∧ NodeSlot P .catchClause handler ∧
      BlockSlot P finalizer := h
    refine .given fun _ _ => .given fun final hfinal => ?_
    exact .mono (.append (.append (.right _ (covers_block hP hn hthere _ hblock))
      (covers_handler hP hn hthere _ hhandler)) (covers_finalizer hP hn hthere hfinalizer hfinal))
      (by simp [Node.printedParts, Node.fields])
  | catchClause param body =>
    obtain ⟨hparam, hbody⟩ : NodeSlot P .identifier param ∧ ListSlot P .statement body := h
    exact .mono (covers_catchFrame hP hthere true hparam hbody)
      (by simp [Node.printedParts, Node.fields])
  | whileStatement test body =>
    obtain ⟨htest, hbody⟩ : NodeSlot P .expression test ∧ NodeSlot P .statement body := h
    exact .mono (.append (.left (.right _ (covers_slot hthere htest)) _)
      (covers_body hP hn hthere _ _ hbody)) (by simp [Node.printedParts, Node.fields])
  | doWhileStatement body test =>
    obtain ⟨hbody, htest⟩ : NodeSlot P .statement body ∧ NodeSlot P .expression test := h
    exact .mono (.left (.append (.left (.right _ (covers_body hP hn hthere _ _ hbody)) _)
      (covers_slot hthere htest)) _) (by simp [Node.printedParts, Node.fields])
  | forStatement init test update body =>
    obtain ⟨hinit, htest, hupdate, hbody⟩ :
      ChoiceSlot P .variableDeclaration .expression init ∧ NodeSlot P .expression test ∧
      NodeSlot P .expression update ∧ NodeSlot P .statement body := h
    exact .mono (.append (.left (.append (.left (.append (.left (.right _
      (covers_forInit hP hn hthere hinit)) _) (covers_slot hthere htest)) _)
      (covers_slot hthere hupdate)) _) (covers_body hP hn hthere _ _ hbody))
      (by simp [Node.printedParts, Node.fields])
  | forInStatement left right body =>
    obtain ⟨hleft, hright, hbody⟩ : ChoiceSlot P .variableDeclaration .identifier left ∧
      NodeSlot P .expression right ∧ NodeSlot P .statement body := h
    exact .mono (.append (.left (.append (.left (.right _
      (covers_forInLeft hP hn hthere hleft)) _) (covers_slot hthere hright)) _)
      (covers_body hP hn hthere _ _ hbody)) (by simp [Node.printedParts, Node.fields])
  | functionDeclaration id params body =>
    obtain ⟨hid, hparams, hbody⟩ : NodeSlot P .identifier id ∧ ListSlot P .identifier params ∧
      ListSlot P .statement body := h
    exact .mono (covers_function hP hthere true (.right _ (covers_slot hthere hid)) hparams hbody)
      (by simp [Node.printedParts, Node.fields])
  | variableDeclaration declarations kind =>
    obtain ⟨hdeclarations, ⟨_, rfl⟩⟩ : ListSlot P .variableDeclarator declarations ∧
      ∃ kind', kind = .ofMember (.variableKind kind') := h
    rw [nodeScript]
    split
    · exact .fail _
    · exact .given fun word _ => .mono (.left (.left (.right _
        (covers_list (l := .declarators false) hP hthere hdeclarations)) _) _)
        (by simp [Node.printedParts, Node.fields, Tree.ofMember])
  | variableDeclarator id init =>
    obtain ⟨hid, hinit⟩ : NodeSlot P .identifier id ∧ NodeSlot P .expression init := h
    exact .mono (.append (covers_slot hthere hid)
      (.ifPresent (.right _ (.enclosedIf _ (covers_slot hthere hinit)))))
      (by simp [Node.printedParts, Node.fields])
  | property key value kind =>
    obtain ⟨hkey, hvalue, -⟩ : ChoiceSlot P .literal .identifier key ∧
      NodeSlot P .expression value ∧ ∃ kind', kind = .ofMember (.propertyKind kind') := h
    exact covers_property hP hthere hkey hvalue

end Trees

/-- An expression, a jump or a property that is printed in a tree that is in place has its script
in the script of the tree, if that does not fail. -/
theorem includes_script {m : Mode} {t : Tree} (ht : t.Throughout Node.HasSlots) {n : Node Tree}
    (hn : n.isFixed = true) (hprinted : n.PrintedIn t) :
    (script m t).Includes (nodeScript m n) := by
  have hthroughout : t.Throughout fun k => k.HasSlots ∧
      (n.PrintedIn (.node k) → (nodeScript m k).Includes (nodeScript m n)) :=
    ht.strengthen (fun k hk => hk) fun k _ hfilled =>
      fun hprinted => (printedIn_node.mp hprinted).elim (fun heq => heq ▸ .refl _)
        fun ⟨t, hpart, hprinted⟩ =>
          covers_node (fun k hk => hk.1) hn (fun k hk => hk.2) hfilled t hpart hprinted
  cases t with
  | node k => exact hthroughout.here.2 hprinted
  | missing => exact absurd hprinted not_printedIn_missing
  | _ => exact .fail _

end Source

end ScriptTree
