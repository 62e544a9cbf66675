import ScriptTree.Proofs.Structure.Reading

/-!
Parsing the tokens of a statement. What comes back is the statement up to its normal form:
braces around the only statement of a body or branch do not matter, and minified an if whose
branches are expressions is the conditional expression.
-/

namespace ScriptTree.Structure

open Source

section NormalForm

namespace Statement

def bare : Statement → Statement
  | .block [s] => s.bare
  | s => s

def folded (m : Mode) (test : Expression) : Statement → Statement → Statement
  | .expression x, .expression y =>
    if m.isMinified then .expression (.conditional test x y)
    else .ifElse test (.expression x) (.expression y)
  | consequent, alternate => .ifElse test consequent alternate

end Statement

mutual

/-- A statement up to braces around the only statement of a body or branch and, minified, up
to conditional expressions. -/
def Statement.normal (m : Mode) : Statement → Statement
  | .block body => .block (normalAll m body)
  | .ifOnly test consequent => .ifOnly test (consequent.normal m).bare
  | .ifElse test consequent alternate =>
    Statement.folded m test (consequent.normal m).bare (alternate.normal m).bare
  | .whileLoop test body => .whileLoop test (body.normal m).bare
  | .doLoop body test => .doLoop (body.normal m).bare test
  | .forLoop head test update body => .forLoop head test update (body.normal m).bare
  | .forIn binding right body => .forIn binding right (body.normal m).bare
  | .within object body => .within object (body.normal m).bare
  | .labeled label body => .labeled label (body.normal m)
  | .switch discriminant clauses => .switch discriminant (normalClauses m clauses)
  | .tryCatch block param handler => .tryCatch (normalAll m block) param (normalAll m handler)
  | .tryFinally block finalizer => .tryFinally (normalAll m block) (normalAll m finalizer)
  | .tryCatchFinally block param handler finalizer =>
    .tryCatchFinally (normalAll m block) param (normalAll m handler) (normalAll m finalizer)
  | .function id params body => .function id params (normalAll m body)
  | .empty => .empty
  | .expression e => .expression e
  | .declaration first others => .declaration first others
  | .breakTo label => .breakTo label
  | .continueTo label => .continueTo label
  | .returning argument => .returning argument
  | .throwing argument => .throwing argument
  | .debugger => .debugger

def normalAll (m : Mode) : List Statement → List Statement
  | [] => []
  | s :: rest => s.normal m :: normalAll m rest

def normalClauses (m : Mode) : List Clause → List Clause
  | [] => []
  | .mk test body :: rest => .mk test (normalAll m body) :: normalClauses m rest

end

section Equations

-- Its equations are derived here, once for all the proofs.
attribute [local simp] Statement.normal

end Equations

end NormalForm

section Normal

variable {m : Mode} {s consequent alternate : Statement}

theorem normal_of_soleExpression {e : Expression} (h : s.soleExpression? = some e) :
    (s.normal m).bare = .expression e := by
  unfold Statement.soleExpression? at h
  split at h
  · exact congrArg Statement.expression (Option.some.inj h)
  · exact congrArg Statement.expression (Option.some.inj h)
  · cases h

theorem normal_of_conditional {test e : Expression}
    (h : Statement.conditional? m test consequent alternate = some e) :
    (Statement.ifElse test consequent alternate).normal m = .expression e := by
  unfold Statement.conditional? at h
  split at h
  · next x y hx hy =>
    rw [Statement.normal, normal_of_soleExpression hx, normal_of_soleExpression hy]
    exact congrArg Statement.expression (Option.some.inj h)
  · cases h

structure Statement.IsKept (m : Mode) (s : Statement) : Prop where
  alone : (s.printed m .alone).normal m = s.normal m
  body : ∀ beforeElse, ((s.printed m (.body beforeElse)).normal m).bare = (s.normal m).bare

/-- For a statement that is not a block it is enough how it is printed alone. -/
theorem Statement.IsKept.of_alone (hblock : ∀ body, s ≠ .block body)
    (h : (s.printed m .alone).normal m = s.normal m) : s.IsKept m := by
  refine ⟨h, fun beforeElse => ?_⟩
  rw [printed_body beforeElse s hblock]
  split
  · rw [Statement.normal, normalAll, normalAll, Statement.bare, h]
  · rw [h]

theorem Statement.IsKept.block {body : List Statement}
    (h : normalAll m (printedAll m body) = normalAll m body) : (Statement.block body).IsKept m := by
  refine ⟨?_, fun beforeElse => ?_⟩
  · simp [Statement.printed, Standing.dropsBraces, Statement.normal, h]
  · rw [Statement.printed]
    split
    · next hdrops =>
      rcases body with _ | ⟨s, _ | ⟨_, _⟩⟩
      · cases hdrops
      · rw [Statement.normal, ← h]
        rfl
      · cases hdrops
    · rw [Statement.normal, Statement.normal, h]

theorem Statement.IsKept.ifElse (test : Expression) (hconsequent : consequent.IsKept m)
    (halternate : alternate.IsKept m) : (Statement.ifElse test consequent alternate).IsKept m := by
  refine .of_alone (by simp) ?_
  rw [Statement.printed]
  split
  · next e he => rw [normal_of_conditional he, Statement.normal]
  · simp [Statement.enclosedIn, Standing.encloses, Statement.normal, hconsequent.body,
      halternate.body]

mutual

theorem isKept (m : Mode) : (s : Statement) → s.IsKept m
  | .empty | .expression _ | .declaration .. | .breakTo _ | .continueTo _ | .returning _
  | .throwing _ | .debugger => .of_alone (by simp) rfl
  | .block body => .block (normal_printedAll m body)
  | .ifElse test consequent alternate => .ifElse test (isKept m consequent) (isKept m alternate)
  | .ifOnly test body =>
    .of_alone (by simp) (congrArg (Statement.ifOnly test) ((isKept m body).body false))
  | .whileLoop test body =>
    .of_alone (by simp) (congrArg (Statement.whileLoop test) ((isKept m body).body false))
  | .doLoop body test =>
    .of_alone (by simp) (congrArg (Statement.doLoop · test) ((isKept m body).body false))
  | .forLoop head test update body =>
    .of_alone (by simp) (congrArg (Statement.forLoop head test update) ((isKept m body).body false))
  | .forIn binding right body =>
    .of_alone (by simp) (congrArg (Statement.forIn binding right) ((isKept m body).body false))
  | .within object body =>
    .of_alone (by simp) (congrArg (Statement.within object) ((isKept m body).body false))
  | .labeled label body =>
    .of_alone (by simp) (congrArg (Statement.labeled label) (isKept m body).alone)
  | .switch discriminant clauses =>
    .of_alone (by simp) (congrArg (Statement.switch discriminant) (normal_printedClauses m clauses))
  | .tryCatch block param handler => .of_alone (by simp) (by
    simp only [Statement.printed, Statement.normal, normal_printedAll m block,
      normal_printedAll m handler])
  | .tryFinally block finalizer => .of_alone (by simp) (by
    simp only [Statement.printed, Statement.normal, normal_printedAll m block,
      normal_printedAll m finalizer])
  | .tryCatchFinally block param handler finalizer => .of_alone (by simp) (by
    simp only [Statement.printed, Statement.normal, normal_printedAll m block,
      normal_printedAll m handler, normal_printedAll m finalizer])
  | .function id params body =>
    .of_alone (by simp) (congrArg (Statement.function id params) (normal_printedAll m body))

theorem normal_printedAll (m : Mode) : (body : List Statement) →
    normalAll m (printedAll m body) = normalAll m body
  | [] => rfl
  | s :: body => by
    rw [printedAll, normalAll, normalAll, (isKept m s).alone, normal_printedAll m body]

theorem normal_printedClauses (m : Mode) : (clauses : List Clause) →
    normalClauses m (printedClauses m clauses) = normalClauses m clauses
  | [] => rfl
  | .mk test body :: clauses => by
    rw [printedClauses, normalClauses, normalClauses, normal_printedAll m body,
      normal_printedClauses m clauses]

end

/-- Parsing the tokens of a statement takes all of them and gives the statement back, up to
its normal form. -/
theorem parse_tokens (m : Mode) (s : Statement) (h : s.hasOneDefault = true) :
    ∃ s', parse (s.tokens m .alone) = some s' ∧ s'.normal m = s.normal m :=
  ⟨s.printed m .alone, by rw [parse_eq, if_pos h], (isKept m s).alone⟩

end Normal

end ScriptTree.Structure
