import ScriptTree.Store.Editing
import ScriptTree.Proofs.Exchange.Recognition
import ScriptTree.Proofs.Fields

/-!
The shape of a layer. Whatever object a layer is taken from, each of its branches is of the
form of what a node that is made holds in the field: elements where it holds a list, a
choice where it holds one, the statements of a block where it holds a block. The chains
have one more operand or index, and the kind of a declaration is the one that there is.
-/

namespace ScriptTree.Exchange

inductive Form where
  | one
  | many
  | either
  | block
deriving DecidableEq

def Branch.form {α : Type} : Branch α → Form
  | .one _ => .one
  | .many _ => .many
  | .either _ => .either
  | .block _ => .block

end Exchange

open Exchange

def Default.form : Default → Form
  | .emptyList => .many
  | .emptyBlock => .block
  | .emptyChoice => .either
  | _ => .one

namespace Exchange

def HasForms {α : Type} (k : Kind) (shape : Node (Branch α)) : Prop :=
  shape.map Branch.form = k.node fun g => (k.default g).form

structure Shaped {bound : Nat} (k : Kind) (shape : Node (Branch (Slot bound))) : Prop where
  forms : HasForms k shape
  operator : ∀ o a, shape = .unaryExpression o a → ∃ op, o = .member (.unaryOperator op)
  operands : ∀ l o r, shape = .binaryExpression l o r →
    ∃ left op right, l = .one left ∧ o = .member (.binaryOperator op) ∧ r = .many [right]
  accesses : ∀ o i c, shape = .memberExpression o i c →
    ∃ object index computed, o = .one object ∧ i = .many [index] ∧ c = .atom (.bool computed)
  declaration : ∀ d c, shape = .variableDeclaration d c → c = .member (.variableKind .var)

variable {j : Json} {owner field : String} {k : Kind} {shape : Layer j}
  {branch : Branch (Slot (sizeOf j))}

section Branches

def Gives (branch : Except ReadError (Branch (Slot (sizeOf j)))) (form : Form) : Prop :=
  ∀ b, branch = .ok b → b.form = form

theorem gives_requireChild {category : Category} :
    Gives (requireChild j owner field category) .one := by
  intro b h
  obtain ⟨part, -, h⟩ := bind_eq_ok.mp h
  rw [← pure_eq_ok.mp h]
  rfl

theorem gives_optionalChild {category : Category} :
    Gives (optionalChild j owner field category) .one := by
  intro b h
  obtain ⟨part, -, h⟩ := bind_eq_ok.mp h
  rw [← pure_eq_ok.mp h]
  rfl

theorem gives_requireElements {category : Category} {holes : Bool} :
    Gives (requireElements j owner field category holes) .many := by
  intro b h
  obtain ⟨part, -, h⟩ := bind_eq_ok.mp h
  rw [← pure_eq_ok.mp h]
  rfl

variable {a b c : Except ReadError (Branch (Slot (sizeOf j)))} {x y z : Form}

/-- A layer with one field. -/
theorem forms_one (make : (α : Type) → α → Node α) (ha : Gives a x)
    (hmake : ∀ u : Branch (Slot (sizeOf j)), HasForms k (make _ u) ↔ make _ u.form = make _ x)
    (h : (do return make _ (← a)) = .ok shape) : HasForms k shape := by
  obtain ⟨u, hu, h⟩ := bind_eq_ok.mp h
  rw [← pure_eq_ok.mp h, hmake, ha u hu]

/-- A layer with two fields. -/
theorem forms_two (make : (α : Type) → α → α → Node α) (ha : Gives a x) (hb : Gives b y)
    (hmake : ∀ u v : Branch (Slot (sizeOf j)),
      HasForms k (make _ u v) ↔ make _ u.form v.form = make _ x y)
    (h : (do let u ← a; return make _ u (← b)) = .ok shape) : HasForms k shape := by
  obtain ⟨u, hu, h⟩ := bind_eq_ok.mp h
  obtain ⟨v, hv, h⟩ := bind_eq_ok.mp h
  rw [← pure_eq_ok.mp h, hmake, ha u hu, hb v hv]

/-- A layer with three fields. -/
theorem forms_three (make : (α : Type) → α → α → α → Node α) (ha : Gives a x) (hb : Gives b y)
    (hc : Gives c z)
    (hmake : ∀ u v w : Branch (Slot (sizeOf j)),
      HasForms k (make _ u v w) ↔ make _ u.form v.form w.form = make _ x y z)
    (h : (do let u ← a; let v ← b; return make _ u v (← c)) = .ok shape) : HasForms k shape := by
  obtain ⟨u, hu, h⟩ := bind_eq_ok.mp h
  obtain ⟨v, hv, h⟩ := bind_eq_ok.mp h
  obtain ⟨w, hw, h⟩ := bind_eq_ok.mp h
  rw [← pure_eq_ok.mp h, hmake, ha u hu, hb v hv, hc w hw]

end Branches

section Kinds

theorem HasForms.kind? (h : HasForms k shape) : shape.kind? = some k := by
  have hkind : (shape.map Branch.form).kind? = shape.kind? := Node.kind?_mapFields _ _
  rw [← hkind, h]
  cases k <;> rfl

/-- The branches of most kinds have no more to them than their forms. -/
theorem HasForms.shaped (h : HasForms k shape) (hunary : k ≠ .unaryExpression)
    (hbinary : k ≠ .binaryExpression) (hmember : k ≠ .memberExpression)
    (hdeclaration : k ≠ .variableDeclaration) : Shaped k shape := by
  have hkind := h.kind?
  refine ⟨h, ?_, ?_, ?_, ?_⟩
  · rintro o a rfl
    exact absurd (Option.some.inj hkind).symm hunary
  · rintro l o r rfl
    exact absurd (Option.some.inj hkind).symm hbinary
  · rintro o i c rfl
    exact absurd (Option.some.inj hkind).symm hmember
  · rintro d c rfl
    exact absurd (Option.some.inj hkind).symm hdeclaration

theorem shaped_chainLayer {nodeType : String} (h : chainLayer j nodeType = .ok shape) :
    Shaped .binaryExpression shape := by
  obtain ⟨left, hleft, h⟩ := bind_eq_ok.mp h
  obtain ⟨token, -, h⟩ := bind_eq_ok.mp h
  obtain ⟨right, -, h⟩ := bind_eq_ok.mp h
  split at h
  · next op _ =>
    obtain rfl := pure_eq_ok.mp h
    obtain ⟨part, -, hpart⟩ := bind_eq_ok.mp hleft
    obtain rfl := pure_eq_ok.mp hpart
    refine ⟨rfl, by simp, ?_, by simp, by simp⟩
    intro l o r heq
    obtain ⟨rfl, rfl, rfl⟩ := Node.binaryExpression.inj heq
    exact ⟨_, op, _, rfl, rfl, rfl⟩
  · cases h

theorem shaped_memberLayer (h : kindLayer j .memberExpression = .ok shape) :
    Shaped .memberExpression shape := by
  obtain ⟨computed, -, h⟩ := bind_eq_ok.mp h
  obtain ⟨object, hobject, h⟩ := bind_eq_ok.mp h
  obtain ⟨index, -, h⟩ := bind_eq_ok.mp h
  obtain rfl := pure_eq_ok.mp h
  obtain ⟨part, -, hpart⟩ := bind_eq_ok.mp hobject
  obtain rfl := pure_eq_ok.mp hpart
  refine ⟨rfl, by simp, by simp, ?_, by simp⟩
  intro o i c heq
  obtain ⟨rfl, rfl, rfl⟩ := Node.memberExpression.inj heq
  exact ⟨_, _, computed, rfl, rfl, rfl⟩

theorem shaped_declarationLayer (h : declarationLayer j = .ok shape) :
    Shaped .variableDeclaration shape := by
  obtain ⟨kind, -, h⟩ := bind_eq_ok.mp h
  obtain ⟨declarations, hdeclarations, h⟩ := bind_eq_ok.mp h
  split at h
  · next kind _ =>
    obtain rfl := pure_eq_ok.mp h
    refine ⟨congrArg₂ Node.variableDeclaration (gives_requireElements _ hdeclarations) rfl, by simp,
      by simp, by simp, ?_⟩
    intro d c heq
    obtain ⟨-, rfl⟩ := Node.variableDeclaration.inj heq
    cases kind
    rfl
  · cases h

theorem shaped_unaryLayer {nodeType : String} (h : unaryLayer j nodeType = .ok shape) :
    Shaped .unaryExpression shape := by
  obtain ⟨token, -, h⟩ := bind_eq_ok.mp h
  obtain ⟨before, -, h⟩ := bind_eq_ok.mp h
  obtain ⟨argument, hargument, h⟩ := bind_eq_ok.mp h
  split at h
  · next op _ =>
    obtain rfl := pure_eq_ok.mp h
    refine ⟨congrArg (Node.unaryExpression Form.one) (gives_requireChild _ hargument), ?_, by simp,
      by simp, by simp⟩
    intro o a heq
    obtain ⟨rfl, -⟩ := Node.unaryExpression.inj heq
    exact ⟨op, rfl⟩
  · cases h

theorem forms_literalLayer (h : literalLayer j = .ok shape) : HasForms .literal shape := by
  unfold literalLayer at h
  split at h
  · obtain ⟨regex, -, h⟩ := bind_eq_ok.mp h
    obtain ⟨pattern, -, h⟩ := bind_eq_ok.mp h
    obtain ⟨flags, -, h⟩ := bind_eq_ok.mp h
    split at h
    · rw [← pure_eq_ok.mp h]
      rfl
    · cases h
  · obtain ⟨value, -, h⟩ := bind_eq_ok.mp h
    rw [← pure_eq_ok.mp h]
    rfl

theorem forms_propertyLayer (h : propertyLayer j = .ok shape) : HasForms .property shape := by
  obtain ⟨kind, -, h⟩ := bind_eq_ok.mp h
  obtain ⟨key, -, h⟩ := bind_eq_ok.mp h
  obtain ⟨value, hvalue, h⟩ := bind_eq_ok.mp h
  split at h
  · rw [← pure_eq_ok.mp h]
    exact congrArg (Node.property Form.either · Form.one) (gives_requireChild _ hvalue)
  · cases h

theorem forms_forLayer (h : forLayer j = .ok shape) : HasForms .forStatement shape := by
  obtain ⟨init, -, h⟩ := bind_eq_ok.mp h
  obtain ⟨test, htest, h⟩ := bind_eq_ok.mp h
  obtain ⟨update, hupdate, h⟩ := bind_eq_ok.mp h
  obtain ⟨body, hbody, h⟩ := bind_eq_ok.mp h
  rw [← pure_eq_ok.mp h]
  have hparts : Node.forStatement Form.either test.form update.form body.form =
      .forStatement .either .one .one .one := by
    rw [gives_optionalChild _ htest, gives_optionalChild _ hupdate, gives_requireChild _ hbody]
  exact hparts

theorem forms_forInLayer (h : forInLayer j = .ok shape) : HasForms .forInStatement shape := by
  obtain ⟨left, -, h⟩ := bind_eq_ok.mp h
  obtain ⟨right, hright, h⟩ := bind_eq_ok.mp h
  obtain ⟨body, hbody, h⟩ := bind_eq_ok.mp h
  rw [← pure_eq_ok.mp h]
  exact congrArg₂ (Node.forInStatement Form.either) (gives_requireChild _ hright)
    (gives_requireChild _ hbody)

theorem forms_tryLayer (h : tryLayer j = .ok shape) : HasForms .tryStatement shape := by
  rw [tryLayer_eq] at h
  obtain ⟨block, -, h⟩ := bind_eq_ok.mp h
  obtain ⟨handler, -, h⟩ := bind_eq_ok.mp h
  obtain ⟨finalizer, -, h⟩ := bind_eq_ok.mp h
  obtain ⟨statements, -, h⟩ := bind_eq_ok.mp h
  split at h
  · cases h
  · rw [← pure_eq_ok.mp h]
    rfl

theorem forms_functionExpression (h : kindLayer j .functionExpression = .ok shape) :
    HasForms .functionExpression shape := by
  obtain ⟨id, hid, h⟩ := bind_eq_ok.mp h
  obtain ⟨params, hparams, h⟩ := bind_eq_ok.mp h
  obtain ⟨body, -, h⟩ := bind_eq_ok.mp h
  rw [← pure_eq_ok.mp h]
  exact congrArg₂ (Node.functionExpression · · Form.many) (gives_optionalChild _ hid)
    (gives_requireElements _ hparams)

theorem forms_functionDeclaration (h : kindLayer j .functionDeclaration = .ok shape) :
    HasForms .functionDeclaration shape := by
  obtain ⟨id, hid, h⟩ := bind_eq_ok.mp h
  obtain ⟨params, hparams, h⟩ := bind_eq_ok.mp h
  obtain ⟨body, -, h⟩ := bind_eq_ok.mp h
  rw [← pure_eq_ok.mp h]
  exact congrArg₂ (Node.functionDeclaration · · Form.many) (gives_requireChild _ hid)
    (gives_requireElements _ hparams)

theorem forms_catchClause (h : kindLayer j .catchClause = .ok shape) :
    HasForms .catchClause shape := by
  obtain ⟨param, hparam, h⟩ := bind_eq_ok.mp h
  obtain ⟨body, -, h⟩ := bind_eq_ok.mp h
  rw [← pure_eq_ok.mp h]
  exact congrArg (Node.catchClause · Form.many) (gives_requireChild _ hparam)

theorem forms_identifier (h : kindLayer j .identifier = .ok shape) :
    HasForms .identifier shape := by
  obtain ⟨name, -, h⟩ := bind_eq_ok.mp h
  rw [← pure_eq_ok.mp h]
  rfl

theorem forms_kindLayer (h : kindLayer j k = .ok shape) : HasForms k shape := by
  cases k with
  | program => exact forms_one (fun _ => .program) gives_requireElements (fun _ => .rfl) h
  | identifier => exact forms_identifier h
  | literal => exact forms_literalLayer h
  | thisExpression =>
    rw [← pure_eq_ok.mp h]
    rfl
  | arrayExpression =>
    exact forms_one (fun _ => .arrayExpression) gives_requireElements (fun _ => .rfl) h
  | objectExpression =>
    exact forms_one (fun _ => .objectExpression) gives_requireElements (fun _ => .rfl) h
  | functionExpression => exact forms_functionExpression h
  | unaryExpression => exact (shaped_unaryLayer h).forms
  | binaryExpression => exact (shaped_chainLayer h).forms
  | memberExpression => exact (shaped_memberLayer h).forms
  | conditionalExpression =>
    exact forms_three (fun _ => .conditionalExpression) gives_requireChild gives_requireChild
      gives_requireChild (fun _ _ _ => .rfl) h
  | callExpression =>
    exact forms_two (fun _ => .callExpression) gives_requireChild gives_requireElements
      (fun _ _ => .rfl) h
  | newExpression =>
    exact forms_two (fun _ => .newExpression) gives_requireChild gives_requireElements
      (fun _ _ => .rfl) h
  | sequenceExpression =>
    exact forms_one (fun _ => .sequenceExpression) gives_requireElements (fun _ => .rfl) h
  | blockStatement =>
    exact forms_one (fun _ => .blockStatement) gives_requireElements (fun _ => .rfl) h
  | expressionStatement =>
    exact forms_one (fun _ => .expressionStatement) gives_requireChild (fun _ => .rfl) h
  | debuggerStatement =>
    rw [← pure_eq_ok.mp h]
    rfl
  | withStatement =>
    exact forms_two (fun _ => .withStatement) gives_requireChild gives_requireChild
      (fun _ _ => .rfl) h
  | returnStatement =>
    exact forms_one (fun _ => .returnStatement) gives_optionalChild (fun _ => .rfl) h
  | labeledStatement =>
    exact forms_two (fun _ => .labeledStatement) gives_requireChild gives_requireChild
      (fun _ _ => .rfl) h
  | breakStatement =>
    exact forms_one (fun _ => .breakStatement) gives_optionalChild (fun _ => .rfl) h
  | continueStatement =>
    exact forms_one (fun _ => .continueStatement) gives_optionalChild (fun _ => .rfl) h
  | ifStatement =>
    exact forms_three (fun _ => .ifStatement) gives_requireChild gives_requireChild
      gives_optionalChild (fun _ _ _ => .rfl) h
  | switchStatement =>
    exact forms_two (fun _ => .switchStatement) gives_requireChild gives_requireElements
      (fun _ _ => .rfl) h
  | switchCase =>
    exact forms_two (fun _ => .switchCase) gives_optionalChild gives_requireElements
      (fun _ _ => .rfl) h
  | throwStatement =>
    exact forms_one (fun _ => .throwStatement) gives_requireChild (fun _ => .rfl) h
  | tryStatement => exact forms_tryLayer h
  | catchClause => exact forms_catchClause h
  | whileStatement =>
    exact forms_two (fun _ => .whileStatement) gives_requireChild gives_requireChild
      (fun _ _ => .rfl) h
  | doWhileStatement =>
    exact forms_two (fun _ => .doWhileStatement) gives_requireChild gives_requireChild
      (fun _ _ => .rfl) h
  | forStatement => exact forms_forLayer h
  | forInStatement => exact forms_forInLayer h
  | functionDeclaration => exact forms_functionDeclaration h
  | variableDeclaration => exact (shaped_declarationLayer h).forms
  | variableDeclarator =>
    exact forms_two (fun _ => .variableDeclarator) gives_requireChild gives_optionalChild
      (fun _ _ => .rfl) h
  | property => exact forms_propertyLayer h

/-- The layer of an object of a kind is of the shape of the kind. -/
theorem shaped_kindLayer (h : kindLayer j k = .ok shape) : Shaped k shape := by
  by_cases hunary : k = .unaryExpression
  · subst hunary
    exact shaped_unaryLayer h
  · by_cases hbinary : k = .binaryExpression
    · subst hbinary
      exact shaped_chainLayer h
    · by_cases hmember : k = .memberExpression
      · subst hmember
        exact shaped_memberLayer h
      · by_cases hdeclaration : k = .variableDeclaration
        · subst hdeclaration
          exact shaped_declarationLayer h
        · exact (forms_kindLayer h).shaped hunary hbinary hmember hdeclaration

theorem HasForms.form_eq {g : Field} (h : HasForms k shape) (hbranch : (g, branch) ∈ shape.fields) :
    branch.form = (k.default g).form := by
  have hmem : (g, branch.form) ∈ (shape.map Branch.form).fields := by
    rw [Node.map, Node.fields_mapFields]
    exact List.mem_map.mpr ⟨_, hbranch, rfl⟩
  have hnode : k.node (fun g => (k.default g).form) =
      (k.node id).mapFields fun g _ => (k.default g).form := by
    rw [Node.mapFields_node]
  rw [show shape.map Branch.form = _ from h, hnode, Node.fields_mapFields] at hmem
  obtain ⟨entry, -, heq⟩ := List.mem_map.mp hmem
  rw [← (Prod.mk.inj heq).1, ← (Prod.mk.inj heq).2]

theorem Shaped.declarationKind (h : Shaped k shape)
    (hbranch : (Field.declarationKind, branch) ∈ shape.fields) :
    branch = .member (.variableKind .var) := by
  cases shape with
  | variableDeclaration d c =>
    obtain rfl : branch = c := by simpa [Node.fields] using hbranch
    exact h.declaration d branch rfl
  | _ => simp [Node.fields] at hbranch

/-- Every layer is of the shape of a kind. -/
theorem shaped_layer (h : layer j = .ok (some shape)) : ∃ k, Shaped k shape := by
  obtain ⟨nodeType, hlayer⟩ : ∃ nodeType, typeLayer j nodeType = .ok (some shape) := by
    unfold layer at h
    split at h
    · cases h
    · split at h
      · split at h
        · next nodeType _ => exact ⟨nodeType, h⟩
        · cases h
      · cases h
    · cases h
  cases nodeType with
  | kind k =>
    obtain ⟨shape', hshape, heq⟩ := bind_eq_ok.mp hlayer
    obtain rfl := Option.some.inj (pure_eq_ok.mp heq)
    exact ⟨k, shaped_kindLayer hshape⟩
  | assignmentExpression | logicalExpression =>
    obtain ⟨shape', hshape, heq⟩ := bind_eq_ok.mp hlayer
    obtain rfl := Option.some.inj (pure_eq_ok.mp heq)
    exact ⟨_, shaped_chainLayer hshape⟩
  | updateExpression =>
    obtain ⟨shape', hshape, heq⟩ := bind_eq_ok.mp hlayer
    obtain rfl := Option.some.inj (pure_eq_ok.mp heq)
    exact ⟨_, shaped_unaryLayer hshape⟩
  | emptyStatement => cases pure_eq_ok.mp hlayer

end Kinds

end Exchange

end ScriptTree
