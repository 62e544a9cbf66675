import ScriptTree.Proofs.Source.Failure

/-!
Trees that minifying only prints closer. It rewrites a block of one statement that is the body
or a branch of another statement, which may lose its braces, and an if with an expression
statement in both branches, which becomes a conditional expression. Where neither occurs, what
stands between braces is the same in both modes.
-/

namespace ScriptTree

open Source

def isSoleBlock : Tree → Bool
  | .node (.blockStatement (.list [_])) => true
  | _ => false

def isExpressionStatement : Tree → Bool
  | .node (.expressionStatement _) => true
  | _ => false

/-- A statement whose body or branch is a block of one statement, or both of whose branches are
expression statements. -/
def Node.isRewritten : Node Tree → Bool
  | .ifStatement _ consequent alternate =>
    isSoleBlock consequent || isSoleBlock alternate ||
      (isExpressionStatement consequent && isExpressionStatement alternate)
  | .withStatement _ body | .labeledStatement _ body | .whileStatement _ body
  | .doWhileStatement body _ | .forStatement _ _ _ body | .forInStatement _ _ body =>
    isSoleBlock body
  | _ => false

namespace Lexical

variable {P : Node Tree → Prop} {m : Mode} {t : Tree}

/-- A block that does not hold exactly one statement has no single expression in it. -/
theorem sole?_of_not_soleBlock {items : List Tree}
    (h : isSoleBlock (.node (.blockStatement (.list items))) = false) :
    used (Tree.list items).sole? = .ok none := by
  rw [Structure.sole?_list]
  cases items with
  | nil => rfl
  | cons first rest =>
    cases rest with
    | nil => cases h
    | cons second rest => rfl

theorem takesElse_block_false {items : List Tree}
    (h : isSoleBlock (.node (.blockStatement (.list items))) = false) :
    takesElse m (.node (.blockStatement (.list items))) = .ok false := by
  have hblock := Structure.takesElse_block (m := m) items
  rw [Structure.blockTree] at hblock
  rw [hblock]
  cases items with
  | nil => rfl
  | cons first rest =>
    cases rest with
    | nil => cases h
    | cons second rest => rfl

theorem dropsBraces_false (beforeElse : Bool) {body : Tree} (h : ListSlot P .statement body)
    (hsole : isSoleBlock (.node (.blockStatement body)) = false) :
    dropsBraces m beforeElse body = .ok false := by
  obtain ⟨items, rfl, -⟩ := h
  cases m with
  | pretty => rfl
  | minified =>
    rw [dropsBraces, sole?_of_not_soleBlock hsole]
    rfl

section Decisions

variable (hP : ∀ n, P n → n.HasSlots)

include hP

theorem soleExpression_missing (h : NodeSlot P .statement t) (hsole : isSoleBlock t = false)
    (hexpression : isExpressionStatement t = false) : soleExpression t = .ok .missing := by
  rcases h with rfl | ⟨n, rfl, -, hn⟩
  · rfl
  · cases n with
    | blockStatement body =>
      obtain ⟨items, rfl, -⟩ : ListSlot P .statement body := hn.filled hP
      rw [soleExpression, sole?_of_not_soleBlock hsole]
      rfl
    | expressionStatement expression => cases hexpression
    | _ => rfl

/-- An if that is not rewritten does not become a conditional expression. -/
theorem becomesConditional_false {test consequent alternate : Tree}
    (hconsequent : NodeSlot P .statement consequent) (halternate : NodeSlot P .statement alternate)
    (hkept : (Node.ifStatement test consequent alternate).isRewritten = false) :
    becomesConditional m test consequent alternate = .ok false := by
  obtain ⟨b, hb⟩ := becomesConditional_ok (m := m) hP test hconsequent halternate
  cases b with
  | false => exact hb
  | true =>
    obtain ⟨-, e, e', he, hmissing, he', hmissing'⟩ := becomesConditional_cases hb
    simp only [Node.isRewritten, Bool.or_eq_false_iff, Bool.and_eq_false_iff] at hkept
    obtain ⟨⟨hsole, hsole'⟩, hexpression | hexpression⟩ := hkept
    · rw [soleExpression_missing hP hconsequent hsole hexpression] at he
      exact absurd (Except.ok.inj he).symm hmissing
    · rw [soleExpression_missing hP halternate hsole' hexpression] at he'
      exact absurd (Except.ok.inj he').symm hmissing'

end Decisions

/-- Whether a statement takes an else is the same in both modes. -/
def DecidesAlike (n : Node Tree) : Prop :=
  isSoleBlock (.node n) = false → ∀ m, takesElse m (.node n) = takesElse .pretty (.node n)

theorem takesElse_alike_slot (hthere : ∀ n, P n → DecidesAlike n) (h : NodeSlot P .statement t)
    (hsole : isSoleBlock t = false) : takesElse m t = takesElse .pretty t := by
  rcases h with rfl | ⟨n, rfl, -, hn⟩
  · rfl
  · exact hthere n hn.here hsole m

theorem takesElse_alike_node (hP : ∀ n, P n → n.HasSlots) (hthere : ∀ n, P n → DecidesAlike n)
    {n : Node Tree} (hkept : n.isRewritten = false) (h : n.Filled P) : DecidesAlike n := by
  intro hsole m
  cases n with
  | ifStatement test consequent alternate =>
    obtain ⟨-, hconsequent, halternate⟩ : NodeSlot P .expression test ∧
      NodeSlot P .statement consequent ∧ NodeSlot P .statement alternate := h
    have hfolds (m : Mode) := becomesConditional_false (m := m) hP hconsequent halternate hkept
    simp only [Node.isRewritten, Bool.or_eq_false_iff] at hkept
    rw [takesElse, takesElse, hfolds m, hfolds .pretty,
      takesElse_alike_slot hthere halternate hkept.1.2]
  | whileStatement test body =>
    rw [takesElse, takesElse]
    exact takesElse_alike_slot hthere h.2 hkept
  | withStatement object body =>
    rw [takesElse, takesElse]
    exact takesElse_alike_slot hthere h.2 hkept
  | forStatement init test update body =>
    rw [takesElse, takesElse]
    exact takesElse_alike_slot hthere h.2.2.2 hkept
  | forInStatement left right body =>
    rw [takesElse, takesElse]
    exact takesElse_alike_slot hthere h.2.2 hkept
  | labeledStatement label body =>
    rw [takesElse, takesElse]
    exact takesElse_alike_slot hthere h.2 hkept
  | blockStatement body =>
    obtain ⟨items, rfl, -⟩ : ListSlot P .statement body := h
    have hfalse (m : Mode) : takesElse m (.node (.blockStatement (.list items))) = .ok false :=
      takesElse_block_false hsole
    rw [hfalse, hfalse]
  | _ => rfl

theorem takesElse_alike (h : t.Throughout fun n => n.HasSlots ∧ n.isRewritten = false)
    (hsole : isSoleBlock t = false) (m : Mode) : takesElse m t = takesElse .pretty t := by
  have hthroughout : t.Throughout
      fun n => (n.HasSlots ∧ n.isRewritten = false) ∧ DecidesAlike n :=
    h.strengthen (fun n hn => hn.1) fun n hkept hn =>
      takesElse_alike_node (fun n hn => hn.1.1) (fun n hn => hn.2) hkept.2 hn
  cases t with
  | node n => exact hthroughout.here.2 hsole m
  | _ => rfl

/-- Whether a body or branch stands between braces is the same in both modes. -/
theorem hasBraces_alike (h : t.Throughout fun n => n.HasSlots ∧ n.isRewritten = false)
    (hsole : isSoleBlock t = false) (beforeElse : Bool) (m : Mode) :
    hasBraces m beforeElse t = hasBraces .pretty beforeElse t := by
  have htakes := takesElse_alike h hsole m
  unfold hasBraces
  split
  · next body =>
    have hbody : ListSlot (fun n => n.HasSlots ∧ n.isRewritten = false) .statement body :=
      h.filled fun n hn => hn.1
    rw [dropsBraces_false beforeElse hbody hsole, dropsBraces_false beforeElse hbody hsole]
  · rw [htakes]

end Lexical

end ScriptTree
