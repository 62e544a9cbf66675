import ScriptTree.Proofs.Arithmetic.Formula
import ScriptTree.Proofs.Exchange.Reading
import ScriptTree.Proofs.Source.Layout

/-!
Formulas as interchange values, as trees and as text. Reading puts the operands of a run
that is nested to the right into one list, which gives a chain; a chain is printed between
parentheses with its signs between the operands, and nothing is added in laying it out.
-/

namespace ScriptTree

/-- Interchange values that are formulas. Fields stand in any order, and there may be others. -/
inductive Encodes : Json → Formula → Prop where
  | name {j : Json} {x : Text} (htype : j.field? "type" = some (.text "Identifier"))
      (hname : j.field? "name" = some (.text x)) : Encodes j (.name x)
  | apply {j left right : Json} {op : Operation} {f g : Formula}
      (htype : j.field? "type" = some (.text "BinaryExpression"))
      (hoperator : j.field? "operator" = some (.text op.operator.token))
      (hleft : j.field? "left" = some left) (hright : j.field? "right" = some right)
      (hf : Encodes left f) (hg : Encodes right g) : Encodes j (.apply op f g)

theorem Encodes.kind {j : Json} {f : Formula} (h : Encodes j f) : j.kind = .object := by
  cases h with
  | name htype => exact Exchange.kind_of_field? htype
  | apply htype => exact Exchange.kind_of_field? htype

/-- A formula in which the operands of a run stand in one list. -/
inductive Chain where
  | name (x : Text)
  | run (op : Operation) (first : Chain) (rest : List Chain)

namespace Formula

mutual

/-- The chain that a formula reads as: what is nested to the right is one run. -/
def chain : Formula → Chain
  | .name x => .name x
  | .apply op left right => .run op left.chain (right.operands op)

/-- The operands a formula adds to a run of an operation that it stands at the end of. -/
def operands (op : Operation) : Formula → List Chain
  | .name x => [.name x]
  | .apply op' left right =>
    if op' = op then left.chain :: right.operands op
    else [.run op' left.chain (right.operands op')]

end

theorem operands_of_not_isRun {op : Operation} {f : Formula} (h : f.isRun op = false) :
    f.operands op = [f.chain] := by
  cases f with
  | name x => rfl
  | apply op' left right =>
    have hop : op' ≠ op := by simpa [isRun] using h
    simp [operands, chain, hop]

end Formula

namespace Chain

mutual

def value (ρ : Text → Int) : Chain → Int
  | .name x => ρ x
  | .run op first rest => valueFrom ρ op (first.value ρ) rest

def valueFrom (ρ : Text → Int) (op : Operation) (acc : Int) : List Chain → Int
  | [] => acc
  | next :: rest => valueFrom ρ op (op.apply acc (next.value ρ)) rest

end

mutual

def tree : Chain → Tree
  | .name x => .node (.identifier (.ofText x))
  | .run op first rest =>
    .node (.binaryExpression first.tree (.ofMember (.binaryOperator op.operator))
      (.list (trees rest)))

def trees : List Chain → List Tree
  | [] => []
  | next :: rest => next.tree :: trees rest

end

inductive Named : Chain → Prop where
  | name {x : Text} (hne : x ≠ []) (hword : ∀ c ∈ x, Source.isWordPoint c = true) : Named (.name x)
  | run {op : Operation} {first : Chain} {rest : List Chain} (hfirst : Named first)
      (hrest : ∀ next ∈ rest, Named next) : Named (.run op first rest)

end Chain

section Values

open Formula Chain

def Formula.operandValue (ρ : Text → Int) (op : Operation) (f : Formula) : Int :=
  match op with
  | .subtract => f.takenValue ρ
  | _ => f.leftValue ρ

theorem leftValue_apply (ρ : Text → Int) (op : Operation) (left right : Formula) :
    (Formula.apply op left right).leftValue ρ
      = op.apply (left.leftValue ρ) (right.operandValue ρ op) := by
  cases op <;> rfl

/-- The value of the chain of a formula is the formula's own, grouped from the left. -/
theorem value_chain (ρ : Text → Int) (f : Formula) :
    f.chain.value ρ = f.leftValue ρ ∧
      ∀ op acc, valueFrom ρ op acc (f.operands op) = op.apply acc (f.operandValue ρ op) := by
  induction f with
  | name x =>
    refine ⟨rfl, ?_⟩
    intro op acc
    cases op <;> rfl
  | apply op left right ihleft ihright =>
    have hvalue : (Formula.apply op left right).chain.value ρ
        = (Formula.apply op left right).leftValue ρ := by
      rw [Formula.chain, Chain.value, ihleft.1, ihright.2 op, leftValue_apply]
    refine ⟨hvalue, ?_⟩
    intro op' acc
    by_cases hsame : op = op'
    · subst hsame
      rw [operands, if_pos rfl, valueFrom, ihright.2 op, ihleft.1]
      cases op with
      | add => exact Int.add_assoc _ _ _
      | multiply => exact Int.mul_assoc _ _ _
      | subtract => exact Int.sub_sub _ _ _
    · have hrun : (Formula.apply op left right).isRun op' = false := by simp [isRun, hsame]
      rw [operands_of_not_isRun hrun, valueFrom, hvalue, valueFrom]
      cases op' with
      | subtract => rw [operandValue, takenValue_of_not_isRun ρ hrun]
      | _ => rfl

end Values

/-- The chain of a formula has the names of the formula. -/
theorem named_chain (f : Formula) (h : f.Named) :
    f.chain.Named ∧ ∀ op, ∀ c ∈ f.operands op, c.Named := by
  induction f with
  | name x =>
    have hname : Chain.Named (.name x) := .name h.1 h.2
    exact ⟨hname, fun op => by simpa [Formula.operands] using hname⟩
  | apply op left right ihleft ihright =>
    have hleft := (ihleft h.1).1
    have hright := (ihright h.2).2
    refine ⟨.run hleft (hright op), ?_⟩
    intro op' c hc
    by_cases hop : op = op'
    · subst hop
      rcases (by simpa [Formula.operands] using hc) with rfl | hc
      · exact hleft
      · exact hright op c hc
    · obtain rfl : c = .run op left.chain (right.operands op) := by
        simpa [Formula.operands, hop] using hc
      exact .run hleft (hright op)

section Read

open Exchange Formula Chain

/-- Putting an application together splices the run that its right operand is. -/
theorem spliced_chain (op : Operation) (left right : Formula) :
    Tree.node (Node.binaryExpression left.chain.tree (.ofMember (.binaryOperator op.operator))
      (.list [right.chain.tree])).spliced = (Formula.apply op left right).chain.tree := by
  cases right with
  | name x => rfl
  | apply op' f g =>
    by_cases hop : op' = op
    · subst hop
      simp [Formula.chain, operands, tree, trees, Tree.ofMember, Node.spliced]
    · have hoperator : op'.operator ≠ op.operator := fun h => hop (Operation.operator_injective h)
      simp [Formula.chain, operands, tree, trees, Tree.ofMember, Node.spliced, hop, hoperator]

/-- A formula reads as its chain wherever an expression is expected. -/
theorem readAs_formula {j : Json} {f : Formula} (h : Encodes j f) (e : Expectation)
    (he : ∀ k : Kind, k.isExpression → e.check j (some k) = .ok ()) :
    readAs e j = .ok f.chain.tree := by
  induction h generalizing e with
  | @name j x htype hname =>
    have hlayer : layer j = .ok (some (.identifier (.atom (.text x)))) := by
      rw [layer_eq htype (ofName?_typeName .identifier)]
      simp [typeLayer, kindLayer, requireText_eq hname, bind, Except.bind, pure, Except.pure]
    have hread : (Node.traverse (fun branch => branch.read fun slot => readSlot slot)
        (.identifier (.atom (.text x)) : Layer j)) = .ok (.identifier (.ofText x)) := by
      simp [Node.traverse, Branch.atom, Branch.read, readSlot, scalarTree, Tree.ofText, bind,
        Except.bind, pure, Except.pure]
    exact readAs_eq hlayer hread (he _ rfl)
  | @apply j left right op f g htype hoperator hleft hright hf hg ihf ihg =>
    have hexpects (field : String) (part : Json) (k : Kind) (hk : k.isExpression) :
        (Expectation.child "BinaryExpression" field .expression).check part (some k) = .ok () := by
      simp [Expectation.check, Expectation.checkCategory, Category.includes, hk]
    have hlayer : layer j = .ok (some (.binaryExpression
        (.one (.json left (.child "BinaryExpression" "left" .expression)
          (Json.sizeOf_field?_lt hleft)))
        (.member (.binaryOperator op.operator))
        (.many [.json right (.child "BinaryExpression" "right" .expression)
          (Json.sizeOf_field?_lt hright)]))) := by
      have hop : BinaryOperator.ofExchange? "BinaryExpression" op.operator.token
          = some op.operator := by
        rw [← op.nodeType_operator]
        exact ofExchange?_token op.operator
      have hpart : require j "BinaryExpression" "right" [.object] = .ok ⟨right, _⟩ :=
        require_eq hright (List.mem_singleton.mpr hg.kind)
      rw [layer_eq htype (ofName?_typeName .binaryExpression)]
      simp [typeLayer, kindLayer, chainLayer, requireChild_eq hleft hf.kind,
        requireText_eq hoperator, hpart, hop, bind, Except.bind, pure, Except.pure]
    have hread : (Node.traverse (fun branch => branch.read fun slot => readSlot slot)
        (.binaryExpression
          (.one (.json left (.child "BinaryExpression" "left" .expression)
            (Json.sizeOf_field?_lt hleft)))
          (.member (.binaryOperator op.operator))
          (.many [.json right (.child "BinaryExpression" "right" .expression)
            (Json.sizeOf_field?_lt hright)]) : Layer j))
        = .ok (.binaryExpression f.chain.tree (.ofMember (.binaryOperator op.operator))
            (.list [g.chain.tree])) := by
      simp [Node.traverse, Branch.read, Branch.member, Branch.atom, readSlot_json,
        ihf _ (hexpects "left" left), ihg _ (hexpects "right" right), readSlot, scalarTree,
        Tree.ofMember, bind, Except.bind, pure, Except.pure]
    rw [← spliced_chain]
    exact readAs_eq hlayer hread (he _ rfl)

end Read

namespace Source

def signText (m : Mode) (op : Operation) : Text :=
  if m.isMinified then [op.sign] else [' ', op.sign, ' ']

mutual

def chainTexts (m : Mode) : Chain → List Text
  | .name x => [x]
  | .run op first rest =>
    [Text.ofString "("] ++ chainTexts m first ++ restTexts m op rest ++ [Text.ofString ")"]

def restTexts (m : Mode) (op : Operation) : List Chain → List Text
  | [] => []
  | next :: rest => [signText m op] ++ chainTexts m next ++ restTexts m op rest

end

theorem chainToken_operator (m : Mode) (op : Operation) :
    chainToken m (.ofMember (.binaryOperator op.operator)) = .ok (signText m op) := by
  have hkeyword : op.operator.isKeyword = false := by cases op <;> rfl
  simp only [chainToken, Tree.ofMember, Member.token?, Member.isKeyword, hkeyword, signText,
    op.ofString_token]
  cases m <;> rfl

theorem operand_takes_chain (c : Chain) : Place.operand.refuses c.tree = false := by
  cases c <;> rfl

mutual

theorem scriptOr_chain (m : Mode) (missing : Script) :
    (c : Chain) → scriptOr m missing c.tree = .ofPieces ((chainTexts m c).map .text)
  | .name x => rfl
  | .run op first rest => by
    have hfirst := scriptOr_chain m (absent "BinaryExpression" "left") first
    have hrest := itemScripts_chains m op true rest
    simp [Chain.tree, scriptOr, nodeScript, chainToken_operator, operand_takes_chain, listScript,
      Script.enclosedIf, hfirst, hrest, chainTexts]

theorem itemScripts_chains (m : Mode) (op : Operation) (isFirst : Bool) :
    (rest : List Chain) → itemScripts m (.operands (signText m op)) isFirst (Chain.trees rest)
      = .ofPieces ((restTexts m op rest).map .text)
  | [] => rfl
  | next :: rest => by
    have hnext := scriptOr_chain m (absent "BinaryExpression" "right") next
    have hrest := itemScripts_chains m op false rest
    simp [Chain.trees, itemScripts, Listing.between, operand_takes_chain, Script.enclosedIf,
      Script.onlyIf, hnext, hrest, restTexts]

end

open Position

def opens (c : CodePoint) : Bool := isWordPoint c || c = CodePoint.ofChar '('

def closes (c : CodePoint) : Bool := isWordPoint c || c = CodePoint.ofChar ')'

theorem joins_eq_false {last first : CodePoint}
    (hword : isWordPoint last = false ∨ isWordPoint first = false)
    (hsame : last = first → (last.is '+' || last.is '-' || last.is '/') = false)
    (hless : last.is '<' = false) : joins last first = false := by
  have hboth : (isWordPoint last && isWordPoint first) = false := by
    rcases hword with h | h <;> simp [h]
  simp only [joins, hboth, hless, Bool.false_and, Bool.or_false, Bool.false_or]
  by_cases heq : last = first
  · rw [hsame heq, Bool.and_false]
  · simp [heq]

theorem ne_of_isWordPoint {c other : CodePoint} (hc : isWordPoint c = true)
    (hother : isWordPoint other = false) : other ≠ c := by
  rintro rfl
  rw [hc] at hother
  cases hother

/-- What the text of a formula opens with can follow a blank, a sign or a parenthesis. -/
theorem admits_of_opens {last first : CodePoint} (hlast : isWordPoint last = false)
    (hless : last.is '<' = false) (hfirst : opens first = true) :
    (after last).admits first = true := by
  rw [admits_after]
  refine joins_eq_false (.inl hlast) ?_ hless
  rintro rfl
  rcases Bool.or_eq_true_iff.mp hfirst with hword | hparen
  · rw [hlast] at hword
    cases hword
  · rw [of_decide_eq_true hparen]
    rfl

/-- A blank, a sign or a parenthesis can follow what the text of a formula ends with. -/
theorem admits_of_closes {last first : CodePoint} (hlast : closes last = true)
    (hfirst : isWordPoint first = false) : (after last).admits first = true := by
  rw [admits_after]
  rcases Bool.or_eq_true_iff.mp hlast with hword | hparen
  · refine joins_eq_false (.inr hfirst) ?_ ?_
    · intro heq
      exact absurd heq (ne_of_isWordPoint hword hfirst).symm
    · exact not_is_of_isWordPoint hword rfl
  · rw [of_decide_eq_true hparen]
    refine joins_eq_false (.inl rfl) ?_ rfl
    intro _
    rfl

/-- A sign is laid out as it is after an operand, and another operand can follow. -/
theorem lays_sign (m : Mode) (op : Operation) (last : CodePoint) (hlast : closes last = true) :
    ∃ c, Lays (after last) [signText m op] (after c) ∧
      ∀ first, opens first = true → (after c).admits first = true := by
  have hsign : isWordPoint op.sign = false := by cases op <;> rfl
  have hless : op.sign.is '<' = false := by cases op <;> rfl
  cases m with
  | pretty =>
    refine ⟨' ', Lays.single rfl rfl rfl ?_, ?_⟩
    · exact admits_of_closes hlast rfl
    · intro first hfirst
      exact admits_of_opens rfl rfl hfirst
  | minified =>
    refine ⟨op.sign, Lays.single rfl rfl rfl ?_, ?_⟩
    · exact admits_of_closes hlast hsign
    · intro first hfirst
      exact admits_of_opens hsign hless hfirst

mutual

/-- The texts of a chain are laid out as they are wherever a formula can begin. -/
theorem lays_chain (m : Mode) (p : Position) (hdepth : p.depth = 0)
    (hadmits : ∀ c, opens c = true → p.admits c = true) :
    (c : Chain) → c.Named → ∃ last, closes last = true ∧ Lays p (chainTexts m c) (after last)
  | .name x, .name hne hword => by
    obtain ⟨first, tail, rfl⟩ := List.exists_cons_of_ne_nil hne
    have hlast := List.getLast?_eq_some_getLast hne
    refine ⟨_, ?_, Lays.single hdepth rfl hlast (hadmits first ?_)⟩
    · simp [closes, hword _ (List.getLast_mem hne)]
    · simp [opens, hword first List.mem_cons_self]
  | .run op first rest, .run hfirst hrest => by
    have hparen : Lays p [Text.ofString "("] (after '(') :=
      Lays.single hdepth rfl rfl (hadmits _ rfl)
    obtain ⟨last, hlast, hlays⟩ := lays_chain m (after '(') rfl
      (fun _ hc => admits_of_opens rfl rfl hc) first hfirst
    obtain ⟨last', hlast', hlays'⟩ := lays_rest m op last hlast rest hrest
    have hclosing : Lays (after last') [Text.ofString ")"] (after ')') :=
      Lays.single rfl rfl rfl (admits_of_closes hlast' rfl)
    exact ⟨')', rfl, ((hparen.append hlays).append hlays').append hclosing⟩

theorem lays_rest (m : Mode) (op : Operation) (last : CodePoint) (hlast : closes last = true) :
    (rest : List Chain) → (∀ next ∈ rest, next.Named) →
      ∃ last', closes last' = true ∧ Lays (after last) (restTexts m op rest) (after last')
  | [], _ => ⟨last, hlast, Lays.nil _⟩
  | next :: rest, h => by
    obtain ⟨c, hsign, hc⟩ := lays_sign m op last hlast
    obtain ⟨last', hlast', hlays⟩ := lays_chain m (after c) rfl hc next (h next (by simp))
    obtain ⟨last'', hlast'', hlays'⟩ := lays_rest m op last' hlast' rest
      (fun other hother => h other (by simp [hother]))
    exact ⟨last'', hlast'', (hsign.append hlays).append hlays'⟩

end

end Source

end ScriptTree
