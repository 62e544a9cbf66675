import ScriptTree.Proofs.Grammar.Expression

/-!
Places and goals. Every place that an expression stands in asks for a goal of the grammar,
and an expression is enclosed in parentheses wherever its own text satisfies too weak a goal.
-/

namespace ScriptTree.Grammar

open Source Exchange Lexical

/-- The goal that the text of an expression satisfies without parentheses around it. A
chain of accesses follows a call as another call does. -/
def goalOf : Tree → Goal
  | .node (.functionExpression ..) | .node (.newExpression ..) => .member
  | .node (.callExpression ..) => .call
  | .node (.memberExpression object _ computed) =>
    if (Place.object computed.isTrue).refuses object then .member
    else if goalOf object = .call then .call else .member
  | .node (.unaryExpression (.atom (.member (.unaryOperator op))) _) =>
    if op.isBefore then .unary else .update
  | .node (.conditionalExpression ..) => .conditional
  | .node (.sequenceExpression _) => .expression
  | _ => .primary

/-- The goals by kind of expression. -/
theorem goalOf_cases (t : Tree) :
    (goalOf t = .primary ∨ goalOf t = .member ∨ goalOf t = .call) ∨
      ((goalOf t = .unary ∨ goalOf t = .update) ∧ t.kind? = some .unaryExpression) ∨
      (goalOf t = .conditional ∧ t.kind? = some .conditionalExpression) ∨
      (goalOf t = .expression ∧ t.kind? = some .sequenceExpression) := by
  unfold goalOf
  split
  · simp
  · simp
  · simp
  · split
    · simp
    · split <;> simp
  · refine .inr (.inl ⟨?_, rfl⟩)
    split <;> simp
  · exact .inr (.inr (.inl ⟨rfl, rfl⟩))
  · exact .inr (.inr (.inr ⟨rfl, rfl⟩))
  · simp

theorem refuses_of_kind {place : Place} {t : Tree} {k : Kind} (hkind : t.kind? = some k)
    (hk : k ∈ place.refusedKinds) : place.refuses t = true := by
  simp [Place.refuses, hkind, hk]

def Reads (α : Alphabet) (m : Mode) (s : Script) (goal : Goal) (x : Expr) : Prop :=
  ∃ ts : List Token, s.Spells α (ts.flatMap (Token.segments m)) ∧ Derives α goal ts x

namespace Reads

variable {α : Alphabet} {m : Mode} {s : Script} {x : Expr} {t : Tree}

theorem mono {a b : Goal} (h : Reads α m s b x) (hab : ∀ ts, Derives α b ts x → Derives α a ts x) :
    Reads α m s a x := by
  obtain ⟨ts, hspells, hderives⟩ := h
  exact ⟨ts, hspells, hab ts hderives⟩

theorem parentheses (h : Reads α m s .expression x) : Reads α m (s.enclosedIf true) .primary x := by
  obtain ⟨ts, hspells, hderives⟩ := h
  refine ⟨Token.text "(" :: ts ++ [Token.text ")"], (hspells.enclosedIf true).cast ?_,
    .parentheses hderives⟩
  simp [Token.segments]

end Reads

section

variable {α : Alphabet} {m : Mode} {s : Script} {x : Expr} {t : Tree}

/-- Every goal that an expression satisfies makes it an expression. -/
theorem Reads.toExpression (h : Reads α m s (goalOf t) x) : Reads α m s .expression x := by
  refine h.mono fun ts hts => ?_
  rcases goalOf_cases t with hgoal | ⟨hgoal, -⟩ | ⟨hgoal, -⟩ | ⟨hgoal, -⟩
  · exact .unit .expression (hts.toUnary (.inl hgoal)).toAssignment
  · exact .unit .expression (hts.toUnary (.inr hgoal)).toAssignment
  · rw [hgoal] at hts
    exact .unit .expression (.unit .assignment hts)
  · rw [hgoal] at hts
    exact hts

/-- Beside an operator stands a unary expression. -/
theorem Reads.operand (h : Reads α m s (goalOf t) x) :
    Reads α m (s.enclosedIf (Place.operand.refuses t)) .unary x := by
  cases hrefuses : Place.operand.refuses t with
  | true => exact h.toExpression.parentheses.mono fun ts hts => hts.toUnary (.inl (.inl rfl))
  | false =>
    refine h.mono fun ts hts => ?_
    rcases goalOf_cases t with hgoal | ⟨hgoal, -⟩ | ⟨-, hkind⟩ | ⟨-, hkind⟩
    · exact hts.toUnary (.inl hgoal)
    · exact hts.toUnary (.inr hgoal)
    · rw [refuses_of_kind hkind (by decide)] at hrefuses
      cases hrefuses
    · rw [refuses_of_kind hkind (by decide)] at hrefuses
      cases hrefuses

/-- Between commas stands an assignment expression. -/
theorem Reads.item (h : Reads α m s (goalOf t) x) :
    Reads α m (s.enclosedIf (Place.item.refuses t)) .assignment x := by
  cases hrefuses : Place.item.refuses t with
  | true =>
    exact h.toExpression.parentheses.mono fun ts hts =>
      (hts.toUnary (.inl (.inl rfl))).toAssignment
  | false =>
    refine h.mono fun ts hts => ?_
    rcases goalOf_cases t with hgoal | ⟨hgoal, -⟩ | ⟨hgoal, -⟩ | ⟨-, hkind⟩
    · exact (hts.toUnary (.inl hgoal)).toAssignment
    · exact (hts.toUnary (.inr hgoal)).toAssignment
    · rw [hgoal] at hts
      exact .unit .assignment hts
    · rw [refuses_of_kind hkind (by decide)] at hrefuses
      cases hrefuses

def rootGoal (place : Place) (t : Tree) : Goal :=
  if place.refuses t then .member else if goalOf t = .call then .call else .member

theorem rootGoal_cases (place : Place) (t : Tree) :
    rootGoal place t = .member ∨ rootGoal place t = .call := by
  unfold rootGoal
  split
  · exact .inl rfl
  · split
    · exact .inr rfl
    · exact .inl rfl

/-- Where operators on one operand are refused, a call or an access can follow. -/
theorem Reads.root {place : Place} (h : Reads α m s (goalOf t) x)
    (hunary : .unaryExpression ∈ place.refusedKinds)
    (hconditional : .conditionalExpression ∈ place.refusedKinds)
    (hsequence : .sequenceExpression ∈ place.refusedKinds) :
    Reads α m (s.enclosedIf (place.refuses t)) (rootGoal place t) x := by
  unfold rootGoal
  cases hrefuses : place.refuses t with
  | true => exact h.toExpression.parentheses.mono fun ts hts => .unit .member hts
  | false =>
    rcases goalOf_cases t with hgoal | ⟨-, hkind⟩ | ⟨-, hkind⟩ | ⟨-, hkind⟩
    · rcases hgoal with hgoal | hgoal | hgoal
      · rw [hgoal] at h ⊢
        exact h.mono fun ts hts => .unit .member hts
      · rw [hgoal] at h ⊢
        exact h
      · rw [hgoal] at h ⊢
        exact h
    · rw [refuses_of_kind hkind hunary] at hrefuses
      cases hrefuses
    · rw [refuses_of_kind hkind hconditional] at hrefuses
      cases hrefuses
    · rw [refuses_of_kind hkind hsequence] at hrefuses
      cases hrefuses

theorem Reads.callee (h : Reads α m s (goalOf t) x) :
    Reads α m (s.enclosedIf (Place.callee.refuses t)) (rootGoal .callee t) x :=
  h.root (by decide) (by decide) (by decide)

theorem Reads.object (computed : Bool) (h : Reads α m s (goalOf t) x) :
    Reads α m (s.enclosedIf ((Place.object computed).refuses t)) (rootGoal (.object computed) t)
      x :=
  h.root (by simp [Place.refusedKinds]) (by simp [Place.refusedKinds])
    (by simp [Place.refusedKinds])

end

/-- What `new` takes as it is has no call at its root. -/
theorem goalOf_ne_call_of_new : (t : Tree) → refusedByNew t = false → goalOf t ≠ .call := by
  intro t
  fun_induction refusedByNew t with
  | case1 => simp
  | case2 object indices computed ih =>
    intro h
    obtain ⟨hobject, hnew⟩ := Bool.or_eq_false_iff.mp h
    simp [goalOf, hobject, ih hnew]
  | case3 t hcall hmember =>
    intro _ hgoal
    unfold goalOf at hgoal
    split at hgoal
    · cases hgoal
    · cases hgoal
    · exact hcall _ _ rfl
    · exact hmember _ _ _ rfl
    · split at hgoal <;> cases hgoal
    · cases hgoal
    · cases hgoal
    · cases hgoal

theorem refusedByNew_of_kind {t : Tree} {k : Kind} (hkind : t.kind? = some k)
    (hk : k ∈ Place.callee.refusedKinds) : refusedByNew t = true := by
  unfold refusedByNew
  split
  · rfl
  · obtain rfl : Kind.memberExpression = k := Option.some.inj hkind
    exact absurd hk (by decide)
  · exact refuses_of_kind hkind hk

/-- After `new` and before its arguments stands a member expression. -/
theorem Reads.newCallee {α : Alphabet} {m : Mode} {s : Script} {x : Expr} {t : Tree}
    (h : Reads α m s (goalOf t) x) : Reads α m (s.enclosedIf (refusedByNew t)) .member x := by
  cases hrefused : refusedByNew t with
  | true => exact h.toExpression.parentheses.mono fun ts hts => .unit .member hts
  | false =>
    rcases goalOf_cases t with hgoal | ⟨-, hkind⟩ | ⟨-, hkind⟩ | ⟨-, hkind⟩
    · rcases hgoal with hgoal | hgoal | hgoal
      · rw [hgoal] at h
        exact h.mono fun ts hts => .unit .member hts
      · rw [hgoal] at h
        exact h
      · exact absurd hgoal (goalOf_ne_call_of_new t hrefused)
    · rw [refusedByNew_of_kind hkind (by decide)] at hrefused
      cases hrefused
    · rw [refusedByNew_of_kind hkind (by decide)] at hrefused
      cases hrefused
    · rw [refusedByNew_of_kind hkind (by decide)] at hrefused
      cases hrefused

end ScriptTree.Grammar
