import ScriptTree.Proofs.Structure.Parser
import Mathlib.Data.List.Basic

/-!
What the tokens of a statement are parsed to. The statement comes back with exactly the braces
that are printed, and with the conditional expressions. An else that follows a statement is never
taken by an if inside it: where it could be, the statement is put between braces. A switch with
two default clauses is no statement of the grammar.
-/

namespace ScriptTree.Structure

open Source

section Defaults

mutual

def Statement.hasOneDefault : Statement → Bool
  | .block body | .function _ _ body => allHaveOneDefault body
  | .ifOnly _ body | .whileLoop _ body | .doLoop body _ | .forLoop _ _ _ body | .forIn _ _ body
  | .within _ body | .labeled _ body => body.hasOneDefault
  | .ifElse _ consequent alternate => consequent.hasOneDefault && alternate.hasOneDefault
  | .switch _ clauses => clausesHaveOneDefault false clauses
  | .tryCatch block _ handler => allHaveOneDefault block && allHaveOneDefault handler
  | .tryFinally block finalizer => allHaveOneDefault block && allHaveOneDefault finalizer
  | .tryCatchFinally block _ handler finalizer =>
    allHaveOneDefault block && allHaveOneDefault handler && allHaveOneDefault finalizer
  | .empty | .expression _ | .declaration .. | .breakTo _ | .continueTo _ | .returning _
  | .throwing _ | .debugger => true

def allHaveOneDefault : List Statement → Bool
  | [] => true
  | s :: rest => s.hasOneDefault && allHaveOneDefault rest

def clausesHaveOneDefault (seen : Bool) : List Clause → Bool
  | [] => true
  | .mk test body :: rest =>
    !(seen && test.isNone) && allHaveOneDefault body &&
      clausesHaveOneDefault (seen || test.isNone) rest

end

end Defaults

section Printed

def unbraced : List Statement → Statement
  | [s] => s
  | body => .block body

def Statement.enclosedIn (m : Mode) (standing : Standing) (s printed : Statement) : Statement :=
  if standing.encloses m s then .block [printed] else printed

mutual

/-- A statement with the braces that are printed where it stands, and with the conditional
expressions. -/
def Statement.printed (m : Mode) (standing : Standing) : Statement → Statement
  | .block body =>
    if standing.dropsBraces m body then unbraced (printedAll m body)
    else .block (printedAll m body)
  | .ifOnly test consequent =>
    (Statement.ifOnly test consequent).enclosedIn m standing
      (.ifOnly test (consequent.printed m (.body false)))
  | .ifElse test consequent alternate =>
    match Statement.conditional? m test consequent alternate with
    | some e => .expression e
    | none =>
      (Statement.ifElse test consequent alternate).enclosedIn m standing
        (.ifElse test (consequent.printed m (.body true)) (alternate.printed m (.body false)))
  | .whileLoop test body =>
    (Statement.whileLoop test body).enclosedIn m standing
      (.whileLoop test (body.printed m (.body false)))
  | .doLoop body test => .doLoop (body.printed m (.body false)) test
  | .forLoop head test update body =>
    (Statement.forLoop head test update body).enclosedIn m standing
      (.forLoop head test update (body.printed m (.body false)))
  | .forIn binding right body =>
    (Statement.forIn binding right body).enclosedIn m standing
      (.forIn binding right (body.printed m (.body false)))
  | .within object body =>
    (Statement.within object body).enclosedIn m standing
      (.within object (body.printed m (.body false)))
  | .labeled label body =>
    (Statement.labeled label body).enclosedIn m standing (.labeled label (body.printed m .alone))
  | .switch discriminant clauses => .switch discriminant (printedClauses m clauses)
  | .tryCatch block param handler => .tryCatch (printedAll m block) param (printedAll m handler)
  | .tryFinally block finalizer => .tryFinally (printedAll m block) (printedAll m finalizer)
  | .tryCatchFinally block param handler finalizer =>
    .tryCatchFinally (printedAll m block) param (printedAll m handler) (printedAll m finalizer)
  | .function id params body => .function id params (printedAll m body)
  | .empty => .empty
  | .expression e => .expression e
  | .declaration first others => .declaration first others
  | .breakTo label => .breakTo label
  | .continueTo label => .continueTo label
  | .returning argument => .returning argument
  | .throwing argument => .throwing argument
  | .debugger => .debugger

def printedAll (m : Mode) : List Statement → List Statement
  | [] => []
  | s :: rest => s.printed m .alone :: printedAll m rest

def printedClauses (m : Mode) : List Clause → List Clause
  | [] => []
  | .mk test body :: rest => .mk test (printedAll m body) :: printedClauses m rest

end

end Printed

section Equations

-- Their equations are derived here, once for all the proofs.
attribute [local simp] Statement.tokens Statement.printed Statement.hasOneDefault parseStatement

end Equations

section Readers

variable {α : Type} {p q : Mark} {k : Keyword} {ts rest : List Token}

@[simp] theorem expect_cons : expect p (.mark p :: rest) = some rest := by simp [expect]

@[simp] theorem expectWord_cons : expectWord k (.keyword k :: rest) = some rest := by
  simp [expectWord]

@[simp] theorem startsWithWord_cons {l : Keyword} :
    startsWithWord k (.keyword l :: rest) = decide (l = k) := rfl

@[simp] theorem anExpression_cons {position : Position} {e : Expression} :
    anExpression (.expression position e :: rest) = some (e, rest) := rfl

@[simp] theorem aName_cons {id : Name} : aName (nameTokens id ++ rest) = some (id, rest) := by
  simp [aName, nameTokens, wholeTokens]

theorem enclosed_cons {inner : Reader α} {a : α} (h : inner ts = some (a, .mark q :: rest)) :
    enclosed p q inner (.mark p :: ts) = some (a, rest) := by
  simp [enclosed, h]

def accepted (holds : Bool) (a : α) (rest : List Token) : Option (α × List Token) :=
  if holds then some (a, rest) else none

@[simp] theorem accepted_true (a : α) (rest : List Token) :
    accepted true a rest = some (a, rest) := rfl

@[simp] theorem accepted_false (a : α) (rest : List Token) :
    accepted false a rest = none := rfl

theorem enclosed_accepted {inner : Reader α} {holds : Bool} {a : α}
    (h : inner ts = accepted holds a (.mark q :: rest)) :
    enclosed p q inner (.mark p :: ts) = accepted holds a rest := by
  cases holds with
  | true => exact enclosed_cons h
  | false => simp [enclosed, h]

theorem ended_eq {inner : Reader α} {a : α} (h : inner ts = some (a, .mark p :: rest)) :
    ended p inner ts = some (a, rest) := by
  simp [ended, h]

/-- The head of a statement is an expression between parentheses. -/
@[simp] theorem enclosed_head {e : Expression} :
    enclosed .openParen .closeParen anExpression
      (.mark .openParen :: .expression .whole e :: .mark .closeParen :: rest) = some (e, rest) :=
  enclosed_cons rfl

theorem enclosed_name {id : Name} :
    enclosed .openParen .closeParen aName
      (.mark .openParen :: .expression .whole id.expression :: .mark .closeParen :: rest) =
      some (id, rest) :=
  enclosed_cons aName_cons

theorem anOptional_whole (e : Option Expression) :
    anOptional anExpression (optionalTokens wholeTokens e ++ Token.mark p :: rest) =
      some (e, .mark p :: rest) := by
  cases e with
  | none => rfl
  | some e => rfl

theorem anOptional_name (id : Option Name) :
    anOptional aName (optionalTokens nameTokens id ++ Token.mark p :: rest) =
      some (id, .mark p :: rest) := by
  cases id with
  | none => rfl
  | some id => simp [optionalTokens, nameTokens, wholeTokens, anOptional, aName]

theorem aDeclarator_tokens (d : Declarator) (h : startsWith .equals rest = false) :
    aDeclarator (declaratorTokens d ++ rest) = some (d, rest) := by
  obtain ⟨id, _ | init⟩ := d
  · unfold aDeclarator
    rw [declaratorTokens, aName_cons]
    dsimp only [bind, Option.bind]
    split
    · simp [startsWith] at h
    · rfl
  · unfold aDeclarator
    rw [declaratorTokens, List.append_assoc, aName_cons]
    rfl

def continuesList (ts : List Token) : Bool := startsWith .comma ts || startsWith .equals ts

theorem following_tokens {item : Reader α} {tokens : α → List Token}
    (hitem : ∀ a ts, startsWith .equals ts = false → item (tokens a ++ ts) = some (a, ts))
    (items : List α) (fuel : Nat) (hfuel : items.length < fuel) (h : continuesList rest = false) :
    following item fuel (followingTokens tokens items ++ rest) = some (items, rest) := by
  obtain ⟨hcomma, hequals⟩ := Bool.or_eq_false_iff.mp h
  induction items generalizing fuel with
  | nil =>
    obtain ⟨fuel, rfl⟩ : ∃ f, fuel = f + 1 := ⟨fuel - 1, by simp at hfuel; omega⟩
    simp only [followingTokens, List.flatMap_nil, List.nil_append, following]
    split
    · simp [startsWith] at hcomma
    · rfl
  | cons a others ih =>
    obtain ⟨fuel, rfl⟩ : ∃ f, fuel = f + 1 := ⟨fuel - 1, by simp at hfuel; omega⟩
    have hnext : startsWith .equals (followingTokens tokens others ++ rest) = false := by
      cases others with
      | nil => exact hequals
      | cons b others => rfl
    have hothers := ih fuel (by simpa using hfuel)
    simp only [followingTokens, List.flatMap_cons, List.cons_append, List.append_assoc, following]
    rw [← followingTokens, hitem a _ hnext]
    simp [hothers]

theorem length_le_followingTokens (tokens : α → List Token) (items : List α) :
    items.length ≤ (followingTokens tokens items).length := by
  induction items with
  | nil => simp
  | cons a others ih => simp [followingTokens] at ih ⊢; omega

theorem aDeclaration_tokens (first : Declarator) (others : List Declarator)
    (h : continuesList rest = false) :
    aDeclaration (declarationTokens first others ++ rest) = some ((first, others), rest) := by
  have hnext : startsWith .equals (followingTokens declaratorTokens others ++ rest) = false := by
    cases others with
    | nil => exact (Bool.or_eq_false_iff.mp h).2
    | cons d others => rfl
  have hlength := length_le_followingTokens declaratorTokens others
  have hothers := following_tokens (fun d ts => aDeclarator_tokens d) others
    ((followingTokens declaratorTokens others ++ rest).length + 1)
    (by rw [List.length_append]; omega) h
  simp only [aDeclaration, declarationTokens, List.cons_append, List.append_assoc,
    expectWord_cons, Option.bind_eq_bind, Option.bind_some, aDeclarator_tokens first hnext, hothers]
  rfl

theorem someParams_tokens (params : List Name) :
    someParams (paramTokens params ++ Token.mark .closeParen :: rest) =
      some (params, .mark .closeParen :: rest) := by
  cases params with
  | nil => rfl
  | cons first others =>
    have hlength := length_le_followingTokens nameTokens others
    have hnext : continuesList (.mark .closeParen :: rest) = false := rfl
    have hothers := following_tokens (fun id ts _ => aName_cons) others
      ((followingTokens nameTokens others ++ Token.mark .closeParen :: rest).length + 1)
      (by rw [List.length_append]; omega) hnext
    have hfirst : startsWith .closeParen
        (paramTokens (first :: others) ++ Token.mark .closeParen :: rest) = false := rfl
    rw [someParams, hfirst, if_neg Bool.false_ne_true]
    simp only [paramTokens, List.append_assoc, aName_cons, Option.bind_eq_bind, Option.bind_some,
      hothers]
    rfl

theorem countedHead_tokens (head : Head) (test update : Option Expression) :
    countedHead head (Token.mark .semicolon :: (optionalTokens wholeTokens test ++
      Token.mark .semicolon ::
        (optionalTokens wholeTokens update ++ Token.mark .closeParen :: rest))) =
      some (.counted head test update, .mark .closeParen :: rest) := by
  simp [countedHead, ended_eq (anOptional_whole test), anOptional_whole]

theorem keyedHead_tokens (binding : Binding) (right : Expression) :
    keyedHead binding (.keyword .in_ :: .expression .whole right :: rest) =
      some (.keyed binding right, rest) := by
  simp [keyedHead]

theorem aLoopHead_declaration (first : Declarator) (others : List Declarator)
    (h : continuesList rest = false) :
    aLoopHead (declarationTokens first others ++ rest) = declaredHead (first, others) rest := by
  have hfirst : aLoopHead (declarationTokens first others ++ rest) =
      (aDeclaration (declarationTokens first others ++ rest)).bind fun result =>
        declaredHead result.1 result.2 := rfl
  rw [hfirst, aDeclaration_tokens first others h]
  rfl

theorem aLoopHead_counted (head : Head) (test update : Option Expression) :
    aLoopHead (head.tokens ++ Token.mark .semicolon :: (optionalTokens wholeTokens test ++
      Token.mark .semicolon ::
        (optionalTokens wholeTokens update ++ Token.mark .closeParen :: rest))) =
      some (.counted head test update, .mark .closeParen :: rest) := by
  cases head with
  | nothing => exact countedHead_tokens .nothing test update
  | expression e => exact countedHead_tokens (.expression e) test update
  | declaration first others =>
    rw [Head.tokens, aLoopHead_declaration first others rfl]
    cases others with
    | nil => exact countedHead_tokens (.declaration first []) test update
    | cons second others =>
      exact countedHead_tokens (.declaration first (second :: others)) test update

theorem aLoopHead_keyed (binding : Binding) (right : Expression) :
    aLoopHead (binding.tokens ++ Token.keyword .in_ :: Token.expression .whole right :: rest) =
      some (.keyed binding right, rest) := by
  cases binding with
  | declaration declarator =>
    rw [Binding.tokens, aLoopHead_declaration declarator [] rfl]
    exact keyedHead_tokens (.declaration declarator) right
  | name id =>
    have hname : aLoopHead ((Binding.name id).tokens ++ Token.keyword .in_ ::
        .expression .whole right :: rest) =
        (Name.of? id.expression).bind fun id => keyedHead (.name id) (.keyword .in_ ::
          .expression .whole right :: rest) := rfl
    rw [hname, Name.of?_expression]
    exact keyedHead_tokens (.name id) right

end Readers

section Standing

variable {m : Mode}

@[simp] theorem stood_alone (s : Statement) (tokens : List Token) :
    stood m .alone s tokens = tokens := rfl

theorem length_braced (tokens : List Token) : (braced tokens).length = tokens.length + 2 := by
  simp [braced]

/-- Whether tokens can follow a statement that takes an else, or one that does not. -/
def canFollow (takes : Bool) (rest : List Token) : Bool :=
  !startsWithWord .finally_ rest && !(takes && startsWithWord .else_ rest)

theorem canFollow_mono {takes takes' : Bool} {rest : List Token} (h : canFollow takes rest = true)
    (himp : takes' = true → takes = true) : canFollow takes' rest = true := by
  cases takes' with
  | false =>
    simp only [canFollow, Bool.and_eq_true] at h
    simp [canFollow, h.1]
  | true => rwa [himp rfl] at h

theorem endsStatements_tokens (m : Mode) (s : Statement) (rest : List Token) :
    endsStatements (s.tokens m .alone ++ rest) = false := by
  cases s with
  | ifElse test consequent alternate =>
    rw [Statement.tokens]
    split <;> rfl
  | _ => rfl

theorem canFollow_tokens (m : Mode) (takes : Bool) (s : Statement) (rest : List Token) :
    canFollow takes (s.tokens m .alone ++ rest) = true := by
  have htrue : canFollow true (s.tokens m .alone ++ rest) = true := by
    cases s with
    | ifElse test consequent alternate =>
      rw [Statement.tokens]
      split <;> rfl
    | _ => rfl
  exact canFollow_mono htrue fun _ => rfl

theorem length_tokens_pos (m : Mode) (s : Statement) : 0 < (s.tokens m .alone).length := by
  have h := endsStatements_tokens m s []
  rw [List.append_nil] at h
  refine List.length_pos_iff.mpr fun hnil => ?_
  rw [hnil] at h
  cases h

theorem canFollow_of_endsStatements {ts : List Token} (takes : Bool)
    (h : endsStatements ts = true) : canFollow takes ts = true := by
  have htrue : canFollow true ts = true := by
    unfold endsStatements at h
    split at h <;> first | rfl | cases h
  exact canFollow_mono htrue fun _ => rfl

/-- A body that is not a block is put between braces where it would take the next else. -/
theorem tokens_body (beforeElse : Bool) (s : Statement) (h : ∀ body, s ≠ .block body) :
    s.tokens m (.body beforeElse) =
      if beforeElse && s.takesElse m then braced (s.tokens m .alone) else s.tokens m .alone := by
  cases s with
  | block body => exact absurd rfl (h body)
  | ifElse test consequent alternate =>
    rw [Statement.tokens, Statement.tokens]
    split
    · next e he => simp [Statement.takesElse, he]
    · rfl
  | _ => simp [Statement.tokens, stood, Standing.encloses, Statement.takesElse]

end Standing

section Parsing

variable {m : Mode}

/-- The tokens of a statement are parsed to the statement as it is printed if no switch has two
default clauses, and to none otherwise, whatever follows them, unless this is an else that the
statement would take. -/
def ReadsAlone (m : Mode) (s : Statement) : Prop :=
  ∀ fuel rest, 2 * (s.tokens m .alone).length ≤ fuel →
    canFollow (s.takesElse m) rest = true →
    parseStatement fuel (s.tokens m .alone ++ rest) =
      accepted s.hasOneDefault (s.printed m .alone) rest

structure Reads (m : Mode) (s : Statement) : Prop where
  alone : ReadsAlone m s
  body : ∀ beforeElse fuel rest, 2 * (s.tokens m (.body beforeElse)).length ≤ fuel →
    canFollow (!beforeElse && s.takesElse m) rest = true →
    parseStatement fuel (s.tokens m (.body beforeElse) ++ rest) =
      accepted s.hasOneDefault (s.printed m (.body beforeElse)) rest

def ReadsAll (m : Mode) (body : List Statement) : Prop :=
  ∀ fuel rest, 2 * (tokensAll m body).length < fuel → endsStatements rest = true →
    parseStatements fuel (tokensAll m body ++ rest) =
      accepted (allHaveOneDefault body) (printedAll m body) rest

theorem ReadsAll.nil : ReadsAll m [] := by
  intro fuel rest hfuel hrest
  obtain ⟨fuel, rfl⟩ : ∃ f, fuel = f + 1 := ⟨fuel - 1, by omega⟩
  simp [tokensAll, parseStatements, hrest, allHaveOneDefault, printedAll]

theorem ReadsAll.cons {s : Statement} {body : List Statement} (hs : ReadsAlone m s)
    (hbody : ReadsAll m body) : ReadsAll m (s :: body) := by
  intro fuel rest hfuel hrest
  obtain ⟨fuel, rfl⟩ : ∃ f, fuel = f + 1 := ⟨fuel - 1, by omega⟩
  have hpos := length_tokens_pos m s
  simp only [tokensAll, List.append_assoc, List.length_append] at hfuel ⊢
  have hnext : canFollow (s.takesElse m) (tokensAll m body ++ rest) = true := by
    cases body with
    | nil => exact canFollow_of_endsStatements _ hrest
    | cons next body =>
      rw [tokensAll, List.append_assoc]
      exact canFollow_tokens m _ next _
  have hfirst := hs fuel (tokensAll m body ++ rest) (by omega) hnext
  have hothers := hbody fuel rest (by omega) hrest
  rw [parseStatements, endsStatements_tokens, if_neg Bool.false_ne_true, hfirst]
  rw [allHaveOneDefault, printedAll]
  cases s.hasOneDefault with
  | false => rfl
  | true =>
    simp only [accepted_true, Option.bind_eq_bind, Option.bind_some, hothers]
    cases allHaveOneDefault body <;> rfl

/-- Statements between braces are read as a block. -/
theorem ReadsAll.braced {body : List Statement} (h : ReadsAll m body) (fuel : Nat)
    (rest : List Token) (hfuel : 2 * (tokensAll m body).length < fuel) :
    enclosed .openBrace .closeBrace (fun ts => parseStatements fuel ts)
        (braced (tokensAll m body) ++ rest) =
      accepted (allHaveOneDefault body) (printedAll m body) rest := by
  have hbraced : Structure.braced (tokensAll m body) ++ rest =
      Token.mark .openBrace :: (tokensAll m body ++ Token.mark .closeBrace :: rest) := by
    simp [Structure.braced]
  rw [hbraced]
  exact enclosed_accepted (h fuel (.mark .closeBrace :: rest) hfuel rfl)

theorem ReadsAll.block {body : List Statement} (h : ReadsAll m body) (fuel : Nat)
    (rest : List Token) (hfuel : 2 * (Structure.braced (tokensAll m body)).length ≤ fuel) :
    parseStatement fuel (Structure.braced (tokensAll m body) ++ rest) =
      accepted (allHaveOneDefault body) (.block (printedAll m body)) rest := by
  rw [length_braced] at hfuel
  obtain ⟨fuel, rfl⟩ : ∃ f, fuel = f + 1 := ⟨fuel - 1, by omega⟩
  have hparse := h.braced fuel rest (by omega)
  simp only [Structure.braced, List.cons_append] at hparse ⊢
  simp only [parseStatement, hparse]
  cases allHaveOneDefault body <;> rfl

theorem ReadsAll.toBlock {body : List Statement} (h : ReadsAll m body)
    (hall : ∀ s ∈ body, ReadsAlone m s) : Reads m (.block body) := by
  constructor
  · intro fuel rest hfuel _
    exact h.block fuel rest hfuel
  · intro beforeElse fuel rest hfuel hrest
    by_cases hdrops : (Standing.body beforeElse).dropsBraces m body = true
    · -- Without its braces the block is the one statement in it.
      obtain ⟨s, rfl⟩ : ∃ s, body = [s] := by
        match body with
        | [s] => exact ⟨s, rfl⟩
        | [] | _ :: _ :: _ => cases hdrops
      simp only [Statement.tokens, Statement.printed, hdrops, if_true, tokensAll,
        List.append_nil] at hfuel ⊢
      have hdrops' : m.isMinified && !s.isFunction && !(beforeElse && s.takesElse m) := hdrops
      have hs := hall s List.mem_cons_self fuel rest hfuel (by
        refine canFollow_mono hrest fun htakes => ?_
        simp only [htakes, Bool.and_true, Bool.and_eq_true, Bool.not_eq_true'] at hdrops'
        simp [Statement.takesElse, hdrops'.1.1, hdrops'.2, htakes])
      rw [hs, Statement.hasOneDefault, allHaveOneDefault, allHaveOneDefault, Bool.and_true]
      rfl
    · simp only [Statement.tokens, Statement.printed, hdrops, Bool.false_eq_true,
        if_false] at hfuel ⊢
      exact h.block fuel rest hfuel

theorem printed_body (beforeElse : Bool) (s : Statement) (h : ∀ body, s ≠ .block body) :
    s.printed m (.body beforeElse) =
      if beforeElse && s.takesElse m then .block [s.printed m .alone] else s.printed m .alone := by
  cases s with
  | block body => exact absurd rfl (h body)
  | ifElse test consequent alternate =>
    rw [Statement.printed, Statement.printed]
    split
    · next e he => simp [Statement.takesElse, he]
    · rfl
  | _ =>
    simp [Statement.printed, Statement.enclosedIn, Standing.encloses, Statement.takesElse]

/-- For a statement that is not a block it is enough how it is read alone. -/
theorem Reads.of_alone {s : Statement} (hblock : ∀ body, s ≠ .block body)
    (h : ∀ fuel rest, 2 * (s.tokens m .alone).length ≤ fuel + 1 →
      canFollow (s.takesElse m) rest = true →
      parseStatement (fuel + 1) (s.tokens m .alone ++ rest) =
        accepted s.hasOneDefault (s.printed m .alone) rest) : Reads m s := by
  have halone : ReadsAlone m s := by
    intro fuel rest hfuel hrest
    have hpos := length_tokens_pos m s
    obtain ⟨fuel, rfl⟩ : ∃ f, fuel = f + 1 := ⟨fuel - 1, by omega⟩
    exact h fuel rest hfuel hrest
  refine ⟨halone, ?_⟩
  intro beforeElse fuel rest hfuel hrest
  rw [tokens_body beforeElse s hblock] at hfuel ⊢
  rw [printed_body beforeElse s hblock]
  by_cases hencloses : (beforeElse && s.takesElse m) = true
  · have hall : ReadsAll m [s] := ReadsAll.cons halone ReadsAll.nil
    have htokens : tokensAll m [s] = s.tokens m .alone := List.append_nil _
    simp only [hencloses, if_true, ← htokens] at hfuel ⊢
    rw [hall.block fuel rest hfuel, allHaveOneDefault, allHaveOneDefault, Bool.and_true]
    rfl
  · simp only [hencloses, Bool.false_eq_true, if_false] at hfuel ⊢
    refine halone fuel rest hfuel (canFollow_mono hrest fun htakes => ?_)
    rw [htakes, Bool.and_true] at hencloses ⊢
    simpa using hencloses

variable {s consequent alternate : Statement} {block handler finalizer : List Statement}

theorem Reads.empty : Reads m .empty := .of_alone (by simp) fun _ _ _ _ => rfl

theorem Reads.expression (e : Expression) : Reads m (.expression e) :=
  .of_alone (by simp) fun _ _ _ _ => rfl

theorem Reads.debugger : Reads m .debugger := .of_alone (by simp) fun _ _ _ _ => rfl

theorem Reads.throwing (argument : Expression) : Reads m (.throwing argument) :=
  .of_alone (by simp) fun _ _ _ _ => rfl

theorem Reads.declaration (first : Declarator) (others : List Declarator) :
    Reads m (.declaration first others) := by
  refine .of_alone (by simp) fun fuel rest _ _ => ?_
  have hrest : continuesList (.mark .semicolon :: rest) = false := rfl
  have hparse := ended_eq (aDeclaration_tokens first others hrest)
  simp only [Statement.tokens, List.append_assoc, List.singleton_append]
  simp only [declarationTokens, List.cons_append] at hparse ⊢
  simp only [parseStatement, hparse]
  rfl

theorem Reads.breakTo (label : Option Name) : Reads m (.breakTo label) := by
  refine .of_alone (by simp) fun fuel rest _ _ => ?_
  simp [Statement.tokens, parseStatement, ended_eq (anOptional_name label),
    Statement.hasOneDefault, Statement.printed]

theorem Reads.continueTo (label : Option Name) : Reads m (.continueTo label) := by
  refine .of_alone (by simp) fun fuel rest _ _ => ?_
  simp [Statement.tokens, parseStatement, ended_eq (anOptional_name label),
    Statement.hasOneDefault, Statement.printed]

theorem Reads.returning (argument : Option Expression) : Reads m (.returning argument) := by
  refine .of_alone (by simp) fun fuel rest _ _ => ?_
  simp [Statement.tokens, parseStatement, ended_eq (anOptional_whole argument),
    Statement.hasOneDefault, Statement.printed]

theorem Reads.ifOnly (test : Expression) (hs : Reads m s) : Reads m (.ifOnly test s) := by
  refine .of_alone (by simp) fun fuel rest hfuel hrest => ?_
  simp only [Statement.tokens, stood_alone, headTokens, List.cons_append, List.nil_append,
    List.length_cons] at hfuel ⊢
  have helse : startsWithWord .else_ rest = false := by
    have h : canFollow true rest = true := hrest
    simp only [canFollow, Bool.true_and, Bool.and_eq_true, Bool.not_eq_true'] at h
    exact h.2
  have hparse := hs.body false fuel rest (by omega) (canFollow_mono hrest fun _ => rfl)
  simp only [parseStatement, hparse, enclosed_head, Option.bind_eq_bind, Option.bind_some]
  rw [Statement.hasOneDefault, Statement.printed]
  cases s.hasOneDefault with
  | false => rfl
  | true => simp [helse, Statement.enclosedIn, Standing.encloses]

/-- What becomes a conditional expression has no switch in it. -/
theorem hasOneDefault_of_soleExpression {e : Expression} (h : s.soleExpression? = some e) :
    s.hasOneDefault = true := by
  unfold Statement.soleExpression? at h
  split at h
  · rfl
  · rfl
  · cases h

theorem hasOneDefault_of_conditional {test e : Expression}
    (h : Statement.conditional? m test consequent alternate = some e) :
    (Statement.ifElse test consequent alternate).hasOneDefault = true := by
  unfold Statement.conditional? at h
  split at h
  · next x y hx hy =>
    rw [Statement.hasOneDefault, hasOneDefault_of_soleExpression hx,
      hasOneDefault_of_soleExpression hy, Bool.and_true]
  · cases h

theorem Reads.ifElse (test : Expression) (hconsequent : Reads m consequent)
    (halternate : Reads m alternate) : Reads m (.ifElse test consequent alternate) := by
  refine .of_alone (by simp) fun fuel rest hfuel hrest => ?_
  cases hfolds : Statement.conditional? m test consequent alternate with
  | some e =>
    rw [hasOneDefault_of_conditional hfolds]
    simp only [Statement.tokens, Statement.printed, hfolds]
    rfl
  | none =>
    simp only [Statement.tokens, hfolds, stood_alone, headTokens, List.cons_append,
      List.nil_append, List.append_assoc, List.length_cons, List.length_append] at hfuel ⊢
    have hparse := hconsequent.body true fuel
      (Token.keyword .else_ :: (alternate.tokens m (.body false) ++ rest)) (by omega) rfl
    have hparse' := halternate.body false fuel rest (by omega)
      (canFollow_mono hrest fun htakes => by simpa [Statement.takesElse, hfolds] using htakes)
    simp only [parseStatement, hparse, enclosed_head, Option.bind_eq_bind, Option.bind_some]
    rw [Statement.hasOneDefault]
    cases consequent.hasOneDefault with
    | false => rfl
    | true =>
      simp only [accepted_true, Option.bind_some, startsWithWord_cons, decide_true, if_true,
        expectWord_cons, hparse', Bool.true_and]
      simp only [Statement.printed, hfolds]
      cases alternate.hasOneDefault <;> rfl

/-- A statement that is a head and a body, and takes an else where its body does. -/
theorem Reads.headed {f : Statement → Statement} {first : Token} {head : List Token}
    (hblock : ∀ body, f s ≠ .block body)
    (htokens : (f s).tokens m .alone = first :: head ++ s.tokens m (.body false))
    (htakes : (f s).takesElse m = s.takesElse m)
    (hdefault : (f s).hasOneDefault = s.hasOneDefault)
    (hprinted : (f s).printed m .alone = f (s.printed m (.body false)))
    (hparse : ∀ fuel ts, parseStatement (fuel + 1) (first :: head ++ ts) =
      (parseStatement fuel ts).map fun read => (f read.1, read.2))
    (hs : Reads m s) : Reads m (f s) := by
  refine .of_alone hblock fun fuel rest hfuel hrest => ?_
  rw [htokens] at hfuel ⊢
  rw [htakes] at hrest
  simp only [List.length_append, List.length_cons] at hfuel
  rw [List.append_assoc, hparse, hs.body false fuel rest (by omega) hrest, hdefault, hprinted]
  cases s.hasOneDefault <;> rfl

theorem Reads.whileLoop (test : Expression) (hs : Reads m s) : Reads m (.whileLoop test s) := by
  refine .headed (f := .whileLoop test) (by simp) rfl rfl rfl rfl (fun fuel ts => ?_) hs
  cases hparse : parseStatement fuel ts <;> simp [parseStatement, hparse]

theorem Reads.within (object : Expression) (hs : Reads m s) : Reads m (.within object s) := by
  refine .headed (f := .within object) (by simp) rfl rfl rfl rfl (fun fuel ts => ?_) hs
  cases hparse : parseStatement fuel ts <;> simp [parseStatement, hparse]

theorem Reads.forLoop (head : Head) (test update : Option Expression) (hs : Reads m s) :
    Reads m (.forLoop head test update s) := by
  refine .headed (f := .forLoop head test update) (by simp) rfl rfl rfl rfl (fun fuel ts => ?_) hs
  cases hparse : parseStatement fuel ts <;>
    simp [parseStatement, enclosed_cons (aLoopHead_counted head test update), hparse,
      LoopHead.statement]

theorem Reads.forIn (binding : Binding) (right : Expression) (hs : Reads m s) :
    Reads m (.forIn binding right s) := by
  refine .headed (f := .forIn binding right) (by simp) rfl rfl rfl rfl (fun fuel ts => ?_) hs
  cases hparse : parseStatement fuel ts <;>
    simp [parseStatement, enclosed_cons (aLoopHead_keyed binding right), hparse, LoopHead.statement]

theorem Reads.doLoop (test : Expression) (hs : Reads m s) : Reads m (.doLoop s test) := by
  refine .of_alone (by simp) fun fuel rest hfuel _ => ?_
  simp only [Statement.tokens, headTokens, List.cons_append, List.nil_append, List.append_assoc,
    List.length_cons, List.length_append] at hfuel ⊢
  have hparse := hs.body false fuel (.keyword .while_ :: .mark .openParen ::
    .expression .whole test :: .mark .closeParen :: .mark .semicolon :: rest) (by omega)
    (canFollow_mono (rfl : canFollow true _ = true) fun _ => rfl)
  simp only [parseStatement, hparse]
  rw [Statement.hasOneDefault, Statement.printed]
  cases s.hasOneDefault with
  | false => rfl
  | true => simp [ended]

theorem Reads.labeled (label : Name) (hs : Reads m s) : Reads m (.labeled label s) := by
  refine .of_alone (by simp) fun fuel rest hfuel hrest => ?_
  simp only [Statement.tokens, stood_alone, nameTokens, wholeTokens, List.cons_append,
    List.nil_append, List.length_cons] at hfuel ⊢
  have hparse := hs.alone fuel rest (by omega) hrest
  rw [Statement.hasOneDefault, Statement.printed]
  cases hdefault : s.hasOneDefault <;>
    simp [parseStatement, startsWith, hparse, hdefault, Statement.enclosedIn, Standing.encloses]

def ReadsClauses (m : Mode) (seen : Bool) (clauses : List Clause) : Prop :=
  ∀ fuel rest, 2 * (clauseTokens m clauses).length < fuel →
    parseClauses fuel seen (clauseTokens m clauses ++ Token.mark .closeBrace :: rest) =
      accepted (clausesHaveOneDefault seen clauses) (printedClauses m clauses)
        (.mark .closeBrace :: rest)

theorem endsStatements_clauseTokens (m : Mode) (clauses : List Clause) (rest : List Token) :
    endsStatements (clauseTokens m clauses ++ Token.mark .closeBrace :: rest) = true := by
  match clauses with
  | [] | .mk none _ :: _ | .mk (some _) _ :: _ => rfl

theorem aClauseHead_tokens (test : Option Expression) (rest : List Token) :
    aClauseHead (clauseHeadTokens test ++ rest) = some (test, rest) := by
  cases test with
  | none => rfl
  | some e => rfl

theorem ReadsClauses.nil (seen : Bool) : ReadsClauses m seen [] := by
  intro fuel rest hfuel
  obtain ⟨fuel, rfl⟩ : ∃ f, fuel = f + 1 := ⟨fuel - 1, by omega⟩
  rfl

theorem ReadsClauses.cons {seen : Bool} {test : Option Expression} {clauses : List Clause}
    (hblock : ReadsAll m block) (hclauses : ReadsClauses m (seen || test.isNone) clauses) :
    ReadsClauses m seen (.mk test block :: clauses) := by
  intro fuel rest hfuel
  obtain ⟨fuel, rfl⟩ : ∃ f, fuel = f + 1 := ⟨fuel - 1, by omega⟩
  have hhead : startsWith .closeBrace (clauseTokens m (.mk test block :: clauses) ++
      Token.mark .closeBrace :: rest) = false := by cases test <;> rfl
  have hlength : 0 < (clauseHeadTokens test).length := by cases test <;> simp [clauseHeadTokens]
  simp only [clauseTokens, List.append_assoc, List.length_append] at hfuel hhead ⊢
  have hparse := hblock fuel (clauseTokens m clauses ++ Token.mark .closeBrace :: rest) (by omega)
    (endsStatements_clauseTokens m clauses rest)
  have hparse' := hclauses fuel rest (by omega)
  rw [clausesHaveOneDefault, printedClauses]
  simp only [parseClauses, hhead, aClauseHead_tokens, Bool.false_eq_true, if_false,
    Option.bind_eq_bind, Option.bind_some, hparse]
  cases seen && test.isNone with
  | true => rfl
  | false =>
    cases allHaveOneDefault block with
    | false => rfl
    | true =>
      simp only [accepted_true, Bool.false_eq_true, if_false, Option.bind_some, hparse']
      cases clausesHaveOneDefault (seen || test.isNone) clauses <;> rfl

theorem Reads.switch (discriminant : Expression) {clauses : List Clause}
    (hclauses : ReadsClauses m false clauses) : Reads m (.switch discriminant clauses) := by
  refine .of_alone (by simp) fun fuel rest hfuel _ => ?_
  simp only [Statement.tokens, headTokens, braced, List.cons_append, List.nil_append,
    List.append_assoc, List.length_cons, List.length_append] at hfuel ⊢
  have hparse := hclauses fuel rest (by omega)
  simp only [parseStatement, enclosed_head, Option.bind_eq_bind, Option.bind_some,
    enclosed_accepted hparse]
  rw [Statement.hasOneDefault, Statement.printed]
  cases clausesHaveOneDefault false clauses <;> rfl

theorem Reads.function (id : Name) (params : List Name) (hblock : ReadsAll m block) :
    Reads m (.function id params block) := by
  refine .of_alone (by simp) fun fuel rest hfuel _ => ?_
  simp only [Statement.tokens, List.cons_append, List.nil_append, List.append_assoc,
    List.length_cons, List.length_append, length_braced] at hfuel ⊢
  have hparse := hblock.braced fuel rest (by omega)
  simp only [parseStatement, aName_cons, Option.bind_eq_bind, Option.bind_some,
    enclosed_cons (someParams_tokens params), hparse]
  rw [Statement.hasOneDefault, Statement.printed]
  cases allHaveOneDefault block <;> rfl

theorem Reads.tryCatch (param : Name) (hblock : ReadsAll m block) (hhandler : ReadsAll m handler) :
    Reads m (.tryCatch block param handler) := by
  refine .of_alone (by simp) fun fuel rest hfuel hrest => ?_
  simp only [Statement.tokens, headTokens, List.cons_append, List.nil_append, List.append_assoc,
    List.length_cons, List.length_append, length_braced] at hfuel ⊢
  have hfinally : startsWithWord .finally_ rest = false := by
    have h : (!startsWithWord .finally_ rest && true) = true := hrest
    simpa using h
  have hparse := hblock.braced fuel
    (.keyword .catch_ :: .mark .openParen :: .expression .whole param.expression ::
      Token.mark .closeParen :: (braced (tokensAll m handler) ++ rest)) (by omega)
  have hparse' := hhandler.braced fuel rest (by omega)
  simp only [parseStatement, hparse]
  rw [Statement.hasOneDefault, Statement.printed]
  cases allHaveOneDefault block with
  | false => rfl
  | true =>
    simp only [accepted_true, Option.bind_eq_bind, Option.bind_some, startsWithWord_cons,
      decide_true, if_true, expectWord_cons, enclosed_name, hparse', Bool.true_and]
    cases allHaveOneDefault handler <;> simp [hfinally]

theorem Reads.tryFinally (hblock : ReadsAll m block) (hfinalizer : ReadsAll m finalizer) :
    Reads m (.tryFinally block finalizer) := by
  refine .of_alone (by simp) fun fuel rest hfuel _ => ?_
  simp only [Statement.tokens, List.cons_append, List.append_assoc, List.length_cons,
    List.length_append, length_braced] at hfuel ⊢
  have hparse := hblock.braced fuel
    (Token.keyword .finally_ :: (braced (tokensAll m finalizer) ++ rest)) (by omega)
  have hparse' := hfinalizer.braced fuel rest (by omega)
  simp only [parseStatement, hparse]
  rw [Statement.hasOneDefault, Statement.printed]
  cases allHaveOneDefault block with
  | false => rfl
  | true =>
    simp only [accepted_true, Option.bind_eq_bind, Option.bind_some, startsWithWord_cons,
      expectWord_cons, hparse', Bool.true_and]
    cases allHaveOneDefault finalizer <;> rfl

theorem Reads.tryCatchFinally (param : Name) (hblock : ReadsAll m block)
    (hhandler : ReadsAll m handler) (hfinalizer : ReadsAll m finalizer) :
    Reads m (.tryCatchFinally block param handler finalizer) := by
  refine .of_alone (by simp) fun fuel rest hfuel _ => ?_
  simp only [Statement.tokens, headTokens, List.cons_append, List.nil_append, List.append_assoc,
    List.length_cons, List.length_append, length_braced] at hfuel ⊢
  have hparse := hblock.braced fuel
    (.keyword .catch_ :: .mark .openParen :: .expression .whole param.expression ::
      Token.mark .closeParen :: (braced (tokensAll m handler) ++
        Token.keyword .finally_ :: (braced (tokensAll m finalizer) ++ rest))) (by omega)
  have hparse' := hhandler.braced fuel
    (Token.keyword .finally_ :: (braced (tokensAll m finalizer) ++ rest)) (by omega)
  have hparse'' := hfinalizer.braced fuel rest (by omega)
  simp only [parseStatement, hparse]
  rw [Statement.hasOneDefault, Statement.printed]
  cases allHaveOneDefault block with
  | false => rfl
  | true =>
    simp only [accepted_true, Option.bind_eq_bind, Option.bind_some, startsWithWord_cons,
      decide_true, if_true, expectWord_cons, enclosed_name, hparse', Bool.true_and]
    cases allHaveOneDefault handler with
    | false => rfl
    | true =>
      simp only [accepted_true, Option.bind_some, startsWithWord_cons, decide_true, if_true,
        expectWord_cons, hparse'', Bool.true_and]
      cases allHaveOneDefault finalizer <;> rfl

mutual

theorem reads (m : Mode) : (s : Statement) → Reads m s
  | .empty => .empty
  | .expression e => .expression e
  | .block body => (readsAll m body).1.toBlock (readsAll m body).2
  | .declaration first others => .declaration first others
  | .ifOnly test consequent => .ifOnly test (reads m consequent)
  | .ifElse test consequent alternate => .ifElse test (reads m consequent) (reads m alternate)
  | .whileLoop test body => .whileLoop test (reads m body)
  | .doLoop body test => .doLoop test (reads m body)
  | .forLoop head test update body => .forLoop head test update (reads m body)
  | .forIn binding right body => .forIn binding right (reads m body)
  | .breakTo label => .breakTo label
  | .continueTo label => .continueTo label
  | .returning argument => .returning argument
  | .throwing argument => .throwing argument
  | .within object body => .within object (reads m body)
  | .labeled label body => .labeled label (reads m body)
  | .switch discriminant clauses => .switch discriminant (readsClauses m false clauses)
  | .tryCatch block param handler => .tryCatch param (readsAll m block).1 (readsAll m handler).1
  | .tryFinally block finalizer => .tryFinally (readsAll m block).1 (readsAll m finalizer).1
  | .tryCatchFinally block param handler finalizer =>
    .tryCatchFinally param (readsAll m block).1 (readsAll m handler).1 (readsAll m finalizer).1
  | .debugger => .debugger
  | .function id params body => .function id params (readsAll m body).1

theorem readsAll (m : Mode) : (body : List Statement) →
    ReadsAll m body ∧ ∀ s ∈ body, ReadsAlone m s
  | [] => ⟨.nil, by simp⟩
  | s :: body => by
    have hfirst := (reads m s).alone
    obtain ⟨hall, hmem⟩ := readsAll m body
    refine ⟨.cons hfirst hall, ?_⟩
    intro t ht
    rcases List.mem_cons.mp ht with rfl | ht
    · exact hfirst
    · exact hmem t ht

theorem readsClauses (m : Mode) (seen : Bool) : (clauses : List Clause) →
    ReadsClauses m seen clauses
  | [] => .nil seen
  | .mk test body :: clauses =>
    .cons (readsAll m body).1 (readsClauses m (seen || test.isNone) clauses)

end

/-- The tokens of a statement are those of just one: the statement as it is printed. -/
theorem parse_eq (m : Mode) (s : Statement) :
    parse (s.tokens m .alone) =
      if s.hasOneDefault then some (s.printed m .alone) else none := by
  have hparse := (reads m s).alone _ [] (Nat.le_refl _) (canFollow_of_endsStatements _ rfl)
  rw [List.append_nil] at hparse
  rw [parse, hparse]
  cases s.hasOneDefault <;> rfl

def parseAll (ts : List Token) : Option (List Statement) :=
  match parseStatements (2 * ts.length + 1) ts with
  | some (ss, []) => some ss
  | _ => none

theorem parseAll_eq (m : Mode) (ss : List Statement) :
    parseAll (tokensAll m ss) = if allHaveOneDefault ss then some (printedAll m ss) else none := by
  have hparse := (readsAll m ss).1 (2 * (tokensAll m ss).length + 1) [] (by omega) rfl
  rw [List.append_nil] at hparse
  rw [parseAll, hparse]
  cases allHaveOneDefault ss <;> rfl

end Parsing

end ScriptTree.Structure
