import ScriptTree.Proofs.Structure.RoundTrip

/-!
Statement trees and what they print. A tree whose slots hold nodes of their classes stands
for a statement, and its script writes the tokens of the statement: the printer puts braces
where the statement needs them and leaves them out where it does not.
-/

namespace ScriptTree.Structure

open Source
open Lexical (Alphabet Segment Cut)

section Trees

def optionalTree {α : Type} (tree : α → Tree) : Option α → Tree
  | none => .missing
  | some a => tree a

def Declarator.tree (d : Declarator) : Tree :=
  .node (.variableDeclarator d.1.tree (optionalTree Expression.tree d.2))

def declarationTree (first : Declarator) (others : List Declarator) : Tree :=
  .node (.variableDeclaration (.list (first.tree :: others.map Declarator.tree))
    (.atom (.member (.variableKind .var))))

def Head.tree : Head → Tree
  | .nothing => .choice .empty
  | .declaration first others => .choice (.first (declarationTree first others))
  | .expression e => .choice (.second e.tree)

def Binding.tree : Binding → Tree
  | .declaration d => .choice (.first (declarationTree d []))
  | .name id => .choice (.second id.tree)

def blockTree (body : List Tree) : Tree := .node (.blockStatement (.list body))

mutual

/-- The statement that a tree stands for. Its slots hold nodes of their classes; an empty
slot for a statement is the empty statement. -/
inductive Represents : Tree → Statement → Prop
  | empty : Represents .missing .empty
  | expression (e : Expression) :
    Represents (.node (.expressionStatement e.tree)) (.expression e)
  | block {body : List Tree} {ss : List Statement} :
    RepresentsAll body ss → Represents (blockTree body) (.block ss)
  | declaration (first : Declarator) (others : List Declarator) :
    Represents (declarationTree first others) (.declaration first others)
  | ifOnly (test : Expression) {t : Tree} {s : Statement} :
    Represents t s → Represents (.node (.ifStatement test.tree t .missing)) (.ifOnly test s)
  | ifElse (test : Expression) {t : Tree} {n : Node Tree} {s s' : Statement} :
    Represents t s → Represents (.node n) s' →
    Represents (.node (.ifStatement test.tree t (.node n))) (.ifElse test s s')
  | whileLoop (test : Expression) {t : Tree} {s : Statement} :
    Represents t s → Represents (.node (.whileStatement test.tree t)) (.whileLoop test s)
  | doLoop (test : Expression) {t : Tree} {s : Statement} :
    Represents t s → Represents (.node (.doWhileStatement t test.tree)) (.doLoop s test)
  | forLoop (head : Head) (test update : Option Expression) {t : Tree} {s : Statement} :
    Represents t s →
    Represents (.node (.forStatement head.tree (optionalTree Expression.tree test)
      (optionalTree Expression.tree update) t)) (.forLoop head test update s)
  | forIn (binding : Binding) (right : Expression) {t : Tree} {s : Statement} :
    Represents t s →
    Represents (.node (.forInStatement binding.tree right.tree t)) (.forIn binding right s)
  | breakTo (label : Option Name) :
    Represents (.node (.breakStatement (optionalTree Name.tree label))) (.breakTo label)
  | continueTo (label : Option Name) :
    Represents (.node (.continueStatement (optionalTree Name.tree label))) (.continueTo label)
  | returning (argument : Option Expression) :
    Represents (.node (.returnStatement (optionalTree Expression.tree argument)))
      (.returning argument)
  | throwing (argument : Expression) :
    Represents (.node (.throwStatement argument.tree)) (.throwing argument)
  | within (object : Expression) {t : Tree} {s : Statement} :
    Represents t s → Represents (.node (.withStatement object.tree t)) (.within object s)
  | labeled (label : Name) {t : Tree} {s : Statement} :
    Represents t s → Represents (.node (.labeledStatement label.tree t)) (.labeled label s)
  | switch (discriminant : Expression) {cases : List Tree} {clauses : List Clause} :
    RepresentsClauses cases clauses →
    Represents (.node (.switchStatement discriminant.tree (.list cases)))
      (.switch discriminant clauses)
  | tryCatch (param : Name) {block handler : List Tree} {ss ss' : List Statement} :
    RepresentsAll block ss → RepresentsAll handler ss' →
    Represents (.node (.tryStatement (blockTree block)
      (.node (.catchClause param.tree (.list handler))) (blockTree []))) (.tryCatch ss param ss')
  | tryFinally {block finalizer : List Tree} {ss ss' : List Statement} (hne : finalizer ≠ []) :
    RepresentsAll block ss → RepresentsAll finalizer ss' →
    Represents (.node (.tryStatement (blockTree block) .missing (blockTree finalizer)))
      (.tryFinally ss ss')
  | tryCatchFinally (param : Name) {block handler finalizer : List Tree}
    {ss ss' ss'' : List Statement} (hne : finalizer ≠ []) :
    RepresentsAll block ss → RepresentsAll handler ss' → RepresentsAll finalizer ss'' →
    Represents (.node (.tryStatement (blockTree block)
      (.node (.catchClause param.tree (.list handler))) (blockTree finalizer)))
      (.tryCatchFinally ss param ss' ss'')
  | debugger : Represents (.node .debuggerStatement) .debugger
  | function (id : Name) (params : List Name) {body : List Tree} {ss : List Statement} :
    RepresentsAll body ss →
    Represents (.node (.functionDeclaration id.tree (.list (params.map Name.tree)) (.list body)))
      (.function id params ss)

inductive RepresentsAll : List Tree → List Statement → Prop
  | nil : RepresentsAll [] []
  | cons {t : Tree} {s : Statement} {ts : List Tree} {ss : List Statement} :
    Represents t s → RepresentsAll ts ss → RepresentsAll (t :: ts) (s :: ss)

inductive RepresentsClauses : List Tree → List Clause → Prop
  | nil : RepresentsClauses [] []
  | cons (test : Option Expression) {body cases : List Tree} {ss : List Statement}
    {clauses : List Clause} :
    RepresentsAll body ss → RepresentsClauses cases clauses →
    RepresentsClauses
      (.node (.switchCase (optionalTree Expression.tree test) (.list body)) :: cases)
      (.mk test ss :: clauses)

end

end Trees

section Braces

variable {m : Mode} {t : Tree} {s : Statement}

/-- The only item of a list, if it has but one. -/
theorem sole?_list (items : List Tree) :
    (Tree.list items).sole? = .ok (match items with
      | [t] => some t
      | _ => none) := by
  match items with
  | [] | [_] => rfl
  | _ :: _ :: _ =>
    simp [Tree.sole?, View.sole?, Tree.view, View.size, bind, Except.bind, pure, Except.pure]

theorem soleExpression_represents (h : Represents t s) :
    soleExpression t = .ok (optionalTree Expression.tree s.soleExpression?) := by
  cases h with
  | block hall =>
    have hsole : ∀ ts, soleExpression (blockTree ts) = .ok (((match ts with
        | [t] => some t
        | _ => none).map expressionOf).getD .missing) := by
      intro ts
      simp only [soleExpression, blockTree, sole?_list]
      rfl
    rw [hsole]
    cases hall with
    | nil => rfl
    | cons ht hts =>
      cases hts with
      | nil => cases ht <;> rfl
      | cons ht' hts' => cases ht <;> rfl
  | _ => rfl

/-- The tree becomes a conditional expression where the statement does. -/
theorem becomesConditional_represents (test : Expression) {n : Node Tree} {s' : Statement}
    (h : Represents t s) (h' : Represents (.node n) s') :
    becomesConditional m test.tree t (.node n) =
      .ok (Statement.conditional? m test s s').isSome := by
  unfold becomesConditional Statement.conditional?
  rw [soleExpression_represents h, soleExpression_represents h']
  cases m with
  | pretty => rfl
  | minified =>
    cases s.soleExpression? with
    | none => rfl
    | some x =>
      cases s'.soleExpression? with
      | none => rfl
      | some y => rfl

theorem takesElse_block (ts : List Tree) :
    takesElse m (blockTree ts) = match ts with
      | [t] => if m.isMinified then takesElse m t else .ok false
      | _ => .ok false := by
  match ts with
  | [t] => rfl
  | [] => cases m <;> rfl
  | t :: t' :: ts =>
    have hsole := sole?_list (t :: t' :: ts)
    cases m with
    | pretty => rfl
    | minified =>
      simp only [blockTree, takesElse, hsole]
      rfl

/-- The prediction of the printer is about the statement that the tree stands for. -/
theorem takesElse_represents (h : Represents t s) : takesElse m t = .ok (s.takesElse m) := by
  induction hsize : sizeOf s using Nat.strongRecOn generalizing t s with
  | ind size ih =>
    subst hsize
    cases h with
    | empty | expression | declaration | ifOnly | doLoop | breakTo | continueTo | returning
    | throwing | switch | tryCatch | tryFinally | tryCatchFinally | debugger | function => rfl
    | block hall =>
      cases hall with
      | nil => cases m <;> rfl
      | cons h hall =>
        cases hall with
        | cons h' hall' => rw [takesElse_block]; rfl
        | nil =>
          have hs := ih _ (by simp [Statement.block.sizeOf_spec]; omega) h rfl
          cases m with
          | pretty => rfl
          | minified => exact hs
    | ifElse test h h' =>
      have halternate := ih _ (by rw [Statement.ifElse.sizeOf_spec]; omega) h' rfl
      rw [takesElse, becomesConditional_represents test h h', Statement.takesElse]
      cases Statement.conditional? m test _ _ with
      | some e => rfl
      | none => exact halternate
    | whileLoop test h | forLoop head test update h | forIn binding right h | within object h
    | labeled label h =>
      have hbody := ih _ (by
        simp only [Statement.whileLoop.sizeOf_spec, Statement.forLoop.sizeOf_spec,
          Statement.forIn.sizeOf_spec, Statement.within.sizeOf_spec, Statement.labeled.sizeOf_spec]
        omega) h rfl
      exact hbody

theorem dropsBraces_represents {ts : List Tree} {ss : List Statement} (beforeElse : Bool)
    (h : RepresentsAll ts ss) :
    dropsBraces m beforeElse (.list ts) = .ok ((Standing.body beforeElse).dropsBraces m ss) := by
  cases m with
  | pretty => cases h with
    | nil => rfl
    | cons ht hts => cases hts <;> rfl
  | minified =>
    unfold dropsBraces
    rw [sole?_list]
    cases h with
    | nil => rfl
    | cons ht hts =>
      cases hts with
      | cons ht' hts' => rfl
      | nil =>
        have htakes := takesElse_represents (m := .minified) ht
        have hstands : ∀ (t : Tree) (s : Statement),
            takesElse .minified t = .ok (s.takesElse .minified) →
            (if beforeElse then (takesElse .minified t).map (!·) else .ok true) =
              .ok (!(beforeElse && s.takesElse .minified)) := by
          intro t s h
          rw [h]
          cases beforeElse <;> rfl
        cases ht <;> first | rfl | exact hstands _ _ htakes

end Braces

section Printing

variable {α : Alphabet} {m : Mode} {t : Tree} {s : Statement}

def spelling (m : Mode) (tokens : List Token) : List Segment := tokens.map (Token.segment m)

@[simp] theorem spelling_nil : spelling m [] = [] := rfl

@[simp] theorem spelling_cons (token : Token) (tokens : List Token) :
    spelling m (token :: tokens) = token.segment m :: spelling m tokens := rfl

@[simp] theorem spelling_append (first others : List Token) :
    spelling m (first ++ others) = spelling m first ++ spelling m others := List.map_append

@[simp] theorem segment_keyword (k : Keyword) :
    (Token.keyword k).segment m = .token k.text := rfl

@[simp] theorem segment_mark (p : Mark) : (Token.mark p).segment m = .token p.text := rfl

theorem writes_blank : (Script.write " ").Writes α [] := .of_spells (.write (by decide))

theorem writes_closing : (Script.write ")").Writes α [.token ")"] :=
  .of_spells (.write (by decide))

theorem writes_semicolon : (m.finish ";").Writes α (spelling m [.mark .semicolon]) :=
  .of_spells (.finish m (by decide : Segment.ofAscii? ";" = some [.token ";"]))

theorem writes_whole (missing : Script) (e : Expression) :
    (scriptOr m missing e.tree).Writes α [(Token.expression .whole e).segment m] :=
  .part (nodeScript m e.node)

theorem writes_name (missing : Script) (id : Name) :
    (scriptOr m missing id.tree).Writes α (spelling m (nameTokens id)) :=
  (writes_whole missing id.expression).cast (List.append_nil _).symm

/-- An expression in parentheses after a reserved word. -/
theorem writes_head (k : Keyword) {minified pretty : Text} (missing : Script) (e : Expression)
    (hminified : Segment.ofAscii? minified = some [.token k.text, .token "("])
    (hpretty : Segment.ofAscii? pretty = some [.token k.text, .token "("]) :
    (m.token minified pretty ++ scriptOr m missing e.tree ++ Script.write ")").Writes α
      (spelling m (headTokens k e)) := by
  have hopening := Script.Writes.of_spells (α := α) (.token m hminified hpretty)
  refine ((hopening.append (writes_whole missing e)).append writes_closing).cast ?_
  simp [headTokens, Mark.text]

theorem writes_braces (m : Mode) (spacer newline : Bool) {body : Tree} {inner : Script}
    {tokens : List Token} (hempty : body.isTrue = false → tokens = [])
    (h : inner.Writes α (spelling m tokens)) :
    (m.braces spacer newline (!body.isTrue) inner).Writes α (spelling m (braced tokens)) := by
  refine (Script.Writes.braces m spacer newline _ ?_ h).cast ?_
  · intro hbody
    rw [hempty (by simpa using hbody)]
    rfl
  · simp [braced, Mark.text]

/-- The script of a tree writes the tokens of a statement, alone or as a body or a branch. -/
structure Prints (α : Alphabet) (m : Mode) (t : Tree) (s : Statement) : Prop where
  alone : (script m t).Writes α (spelling m (s.tokens m .alone))
  body : ∀ newline beforeElse, (bodyScript m newline beforeElse t).Writes α
    (spelling m (s.tokens m (.body beforeElse)))
  branch : (elseScript m t).Writes α (spelling m (s.tokens m (.body false)))

theorem looseBody_writes {inner : Script} {segments : List Segment} (h : inner.Writes α segments) :
    (looseBody m inner).Writes α segments := by
  have hdeeper : (Script.newline ++ Script.deeper).Spells α [] :=
    .silent (by simp [Piece.texts])
  have hshallower : Script.shallower.Spells α [] := .silent (by simp [Piece.texts])
  refine (((Script.Writes.of_spells (.prettyOnly m hdeeper)).append h).append
    (.of_spells (.prettyOnly m hshallower))).cast ?_
  simp

/-- For a node that is not a block it is enough what it prints alone. -/
theorem Prints.of_node {n : Node Tree} (h : Represents (.node n) s)
    (hblock : ∀ body, n ≠ .blockStatement body) (hs : ∀ body, s ≠ .block body)
    (halone : (nodeScript m n).Writes α (spelling m (s.tokens m .alone))) :
    Prints α m (.node n) s := by
  constructor
  · exact halone
  · intro newline beforeElse
    rw [tokens_body beforeElse s hs, bodyScript]
    · refine .given fun encloses hencloses => ?_
      have hvalue : encloses = (beforeElse && s.takesElse m) := by
        rw [takesElse_represents h] at hencloses
        cases beforeElse <;> exact (Except.ok.inj hencloses).symm
      rw [hvalue]
      split
      · refine (Script.Writes.braces m true newline false nofun halone).cast ?_
        simp [braced, Mark.text]
      · exact looseBody_writes halone
    · exact hblock
  · rw [tokens_body false s hs, elseScript]
    · split
      · exact writes_blank.append halone
      · exact looseBody_writes halone
    · exact hblock

def PrintsAll (α : Alphabet) (m : Mode) (ts : List Tree) (ss : List Statement) : Prop :=
  ∀ first, (itemScripts m .statements first ts).Writes α (spelling m (tokensAll m ss))

theorem PrintsAll.cons {ts : List Tree} {ss : List Statement} (h : Prints α m t s)
    (hall : PrintsAll α m ts ss) : PrintsAll α m (t :: ts) (s :: ss) := by
  intro first
  have hbetween : (Script.onlyIf (!first) (Listing.between m .statements)).Spells α [] := by
    cases first <;> exact .empty
  rw [itemScripts]
  refine (((Script.Writes.of_spells hbetween).append h.alone).append (hall false)).cast ?_
  simp [tokensAll]

theorem PrintsAll.braces {ts : List Tree} {ss : List Statement} (spacer newline : Bool)
    (h : RepresentsAll ts ss) (hall : PrintsAll α m ts ss) :
    (m.braces spacer newline (!(Tree.list ts).isTrue)
      (listScript m .statements (.list ts))).Writes α (spelling m (braced (tokensAll m ss))) := by
  refine writes_braces m spacer newline ?_ (hall true)
  intro hempty
  cases h with
  | nil => rfl
  | cons ht hts => cases hempty

theorem Prints.block {ts : List Tree} {ss : List Statement} (h : RepresentsAll ts ss)
    (hall : PrintsAll α m ts ss) : Prints α m (blockTree ts) (.block ss) := by
  have hdropped : ∀ beforeElse drops newline,
      dropsBraces m beforeElse (.list ts) = .ok drops →
      (if drops then listScript m .statements (.list ts)
        else m.braces true newline (!(Tree.list ts).isTrue)
          (listScript m .statements (.list ts))).Writes α
        (spelling m ((Statement.block ss).tokens m (.body beforeElse))) := by
    intro beforeElse drops newline hdrops
    rw [dropsBraces_represents beforeElse h] at hdrops
    rw [← Except.ok.inj hdrops, Statement.tokens]
    split
    · exact hall true
    · exact hall.braces true newline h
  constructor
  · exact hall.braces false true h
  · intro newline beforeElse
    rw [blockTree, bodyScript]
    exact .given fun drops hdrops => hdropped beforeElse drops newline hdrops
  · rw [blockTree, elseScript]
    exact .given fun drops hdrops => hdropped false drops true hdrops

theorem Prints.empty : Prints α m .missing .empty := by
  have hempty : (m.finish ";").Writes α (spelling m (Statement.empty.tokens m .alone)) :=
    writes_semicolon
  exact ⟨hempty, fun _ _ => looseBody_writes hempty, looseBody_writes hempty⟩

theorem Prints.expression (e : Expression) :
    Prints α m (.node (.expressionStatement e.tree)) (.expression e) := by
  refine .of_node (.expression e) (by simp) (by simp) ?_
  rw [nodeScript]
  refine .given fun encloses hencloses => ?_
  have hscript : expressionScript m e .opening =
      Script.enclosedIf encloses (nodeScript m e.node) := by
    rw [expressionScript, hencloses]
    rfl
  refine ((Script.Writes.part (Script.enclosedIf encloses (nodeScript m e.node))).append
    writes_semicolon).cast ?_
  rw [← hscript]
  rfl

theorem Prints.debugger : Prints α m (.node .debuggerStatement) .debugger := by
  refine .of_node .debugger (by simp) (by simp) ?_
  have htext : Segment.ofAscii? "debugger;" = some [.token "debugger", .token ";"] := by decide
  exact .of_spells (.finish m htext)

theorem Prints.throwing (argument : Expression) :
    Prints α m (.node (.throwStatement argument.tree)) (.throwing argument) := by
  refine .of_node (.throwing argument) (by simp) (by simp) ?_
  have hthrow : (Script.write "throw ").Writes α [.token "throw"] := .of_spells (.write (by decide))
  exact (hthrow.append (writes_whole _ argument)).append writes_semicolon

theorem Prints.returning (argument : Option Expression) :
    Prints α m (.node (.returnStatement (optionalTree Expression.tree argument)))
      (.returning argument) := by
  refine .of_node (.returning argument) (by simp) (by simp) ?_
  have hreturn : (Script.write "return").Writes α [.token "return"] :=
    .of_spells (.write (by decide))
  cases argument with
  | none => exact (hreturn.append (.of_spells .empty)).append writes_semicolon
  | some e =>
    exact (hreturn.append (writes_blank.append (writes_whole _ e))).append writes_semicolon

theorem jumpTo_writes {keyword : String} {k : Keyword} (label : Option Name)
    (hkeyword : Segment.ofAscii? keyword = some [.token k.text]) :
    (jumpTo m keyword (optionalTree Name.tree label)).Writes α
      (spelling m
        (Token.keyword k :: optionalTokens nameTokens label ++ [Token.mark .semicolon])) := by
  have hword : (Script.write keyword).Writes α [.token k.text] := .of_spells (.write hkeyword)
  cases label with
  | none => exact (hword.append (.of_spells .empty)).append writes_semicolon
  | some id =>
    have hname : (Script.write " " ++ scriptOr m .empty id.tree).Writes α
        (spelling m (nameTokens id)) := writes_blank.append (writes_name .empty id)
    refine ((hword.append hname).append writes_semicolon).cast ?_
    simp [optionalTokens]

theorem Prints.breakTo (label : Option Name) :
    Prints α m (.node (.breakStatement (optionalTree Name.tree label))) (.breakTo label) :=
  .of_node (.breakTo label) (by simp) (by simp) (jumpTo_writes label (by decide))

theorem Prints.continueTo (label : Option Name) :
    Prints α m (.node (.continueStatement (optionalTree Name.tree label))) (.continueTo label) :=
  .of_node (.continueTo label) (by simp) (by simp) (jumpTo_writes label (by decide))

theorem Prints.whileLoop (test : Expression) (h : Represents t s) (hs : Prints α m t s) :
    Prints α m (.node (.whileStatement test.tree t)) (.whileLoop test s) := by
  refine .of_node (.whileLoop test h) (by simp) (by simp) ?_
  refine ((writes_head .while_ _ test (by decide) (by decide)).append (hs.body true false)).cast ?_
  rw [← spelling_append]
  rfl

theorem Prints.within (object : Expression) (h : Represents t s) (hs : Prints α m t s) :
    Prints α m (.node (.withStatement object.tree t)) (.within object s) := by
  refine .of_node (.within object h) (by simp) (by simp) ?_
  refine ((writes_head .with_ _ object (by decide) (by decide)).append (hs.body true false)).cast ?_
  rw [← spelling_append]
  rfl

theorem Prints.labeled (label : Name) (h : Represents t s) (hs : Prints α m t s) :
    Prints α m (.node (.labeledStatement label.tree t)) (.labeled label s) := by
  refine .of_node (.labeled label h) (by simp) (by simp) ?_
  have hcolon : (m.finish ":").Writes α [.token ":"] := .of_spells (.finish m (by decide))
  refine (((writes_name _ label).append hcolon).append hs.alone).cast ?_
  simp [Statement.tokens, Mark.text]

theorem Prints.doLoop (test : Expression) (h : Represents t s) (hs : Prints α m t s) :
    Prints α m (.node (.doWhileStatement t test.tree)) (.doLoop s test) := by
  refine .of_node (.doLoop test h) (by simp) (by simp) ?_
  have hdo : (Script.write "do").Writes α [.token "do"] := .of_spells (.write (by decide))
  have hwhile : (Script.given (hasBraces m false t) fun braces =>
      Script.write (if m.isMinified then "while("
        else if braces then " while (" else "while (")).Writes α
      [.token "while", .token "("] := by
    refine .given fun braces _ => .of_spells (.write ?_)
    cases m <;> cases braces <;> decide
  have hclosing : (m.finish ");").Writes α [.token ")", .token ";"] :=
    .of_spells (.finish m (by decide))
  rw [nodeScript]
  refine ((((hdo.append (hs.body false false)).append hwhile).append
    (writes_whole _ test)).append hclosing).cast ?_
  simp [Statement.tokens, headTokens, Mark.text, Keyword.text]

/-- Items that follow another one, each after a comma. -/
theorem writes_following {β : Type} {l : Listing} {tree : β → Tree} {tokens : β → List Token}
    {item : β → Script} (hbetween : (l.between m).Spells α [.token ","])
    (hscript : ∀ first a ts, itemScripts m l first (tree a :: ts) =
      Script.onlyIf (!first) (l.between m) ++ item a ++ itemScripts m l false ts)
    (hitem : ∀ a, (item a).Writes α (spelling m (tokens a))) (items : List β) :
    (itemScripts m l false (items.map tree)).Writes α
    (spelling m (followingTokens tokens items)) := by
  induction items with
  | nil => exact .of_spells .empty
  | cons a others ih =>
    rw [List.map_cons, hscript]
    refine (((Script.Writes.of_spells hbetween).append (hitem a)).append ih).cast ?_
    simp [followingTokens, Mark.text]

theorem declarator_writes (d : Declarator) :
    (declaratorPart m d.tree).Writes α (spelling m (declaratorTokens d)) := by
  obtain ⟨id, _ | init⟩ := d
  · exact ((writes_name _ id).append (.of_spells .empty)).cast (List.append_nil _)
  · have hequals : (m.token "=" " = ").Writes α [.token "="] :=
      .of_spells (.token m (by decide) (by decide))
    have hinit : (Script.enclosedIf (Place.item.refuses init.tree)
        (scriptOr m .empty init.tree)).Writes α [(Token.expression .item init).segment m] :=
      .part _
    refine ((writes_name _ id).append (hequals.append hinit)).cast ?_
    simp [declaratorTokens, Mark.text]

theorem declarators_writes (isInline : Bool) (first : Declarator) (others : List Declarator) :
    (itemScripts m (.declarators isInline) true
      (first.tree :: others.map Declarator.tree)).Writes α
      (spelling m (declaratorTokens first ++ followingTokens declaratorTokens others)) := by
  have hbetween : ((Listing.declarators isInline).between m).Spells α [.token ","] := by
    cases isInline with
    | true => exact .token m (by decide) (by decide)
    | false => exact .finish m (by decide)
  have hothers := writes_following hbetween (fun _ _ _ => rfl) (declarator_writes (m := m)) others
  refine (((Script.Writes.of_spells .empty).append
    (declarator_writes first)).append hothers).cast ?_
  simp

theorem Prints.declaration (first : Declarator) (others : List Declarator) :
    Prints α m (declarationTree first others) (.declaration first others) := by
  refine .of_node (.declaration first others) (by simp) (by simp) ?_
  have hvar : (Script.write (Text.join [Text.ofString "var", Text.ofString " "])).Writes α
      [.token "var"] :=
    .of_spells (.write (by decide))
  have hdeeper : Script.deeper.Spells α [] := .silent (by simp [Piece.texts])
  have hshallower : Script.shallower.Spells α [] := .silent (by simp [Piece.texts])
  refine ((((hvar.append (.of_spells (.prettyOnly m hdeeper))).append
    (declarators_writes false first others)).append
    (.of_spells (.prettyOnly m hshallower))).append writes_semicolon).cast ?_
  simp [Statement.tokens, declarationTokens, Keyword.text]

theorem headDeclaration_writes (owner : String) (first : Declarator) (others : List Declarator) :
    (headDeclaration m owner (declarationTree first others)).Writes α
      (spelling m (declarationTokens first others)) := by
  have hvar : (Script.write (Text.join [Text.ofString "var", Text.ofString " "])).Writes α
      [.token "var"] :=
    .of_spells (.write (by decide))
  exact hvar.append (declarators_writes true first others)

theorem forInit_writes (head : Head) :
    (forInit m head.tree).Writes α (spelling m head.tokens) := by
  cases head with
  | nothing => exact .of_spells .empty
  | declaration first others => exact headDeclaration_writes "ForStatement" first others
  | expression e =>
    exact (writes_whole (absent "ForStatement" "init") e).cast (List.append_nil _).symm

theorem forInLeft_writes (binding : Binding) :
    (forInLeft m binding.tree).Writes α (spelling m binding.tokens) := by
  cases binding with
  | declaration d => exact headDeclaration_writes "ForInStatement" d []
  | name id => exact writes_name (absent "ForInStatement" "left") id

theorem optional_writes (e : Option Expression) :
    (scriptOr m .empty (optionalTree Expression.tree e)).Writes α
      (spelling m (optionalTokens wholeTokens e)) := by
  cases e with
  | none => exact .of_spells .empty
  | some e => exact (writes_whole _ e).cast (List.append_nil _).symm

theorem writes_for : (m.token "for(" "for (").Writes α [.token "for", .token "("] :=
  .of_spells (.token m (by decide) (by decide))

theorem Prints.forLoop (head : Head) (test update : Option Expression) (h : Represents t s)
    (hs : Prints α m t s) :
    Prints α m (.node (.forStatement head.tree (optionalTree Expression.tree test)
      (optionalTree Expression.tree update) t)) (.forLoop head test update s) := by
  refine .of_node (.forLoop head test update h) (by simp) (by simp) ?_
  have hsemicolon : (m.token ";" "; ").Writes α [.token ";"] :=
    .of_spells (.token m (by decide) (by decide))
  refine (((((((writes_for.append (forInit_writes head)).append hsemicolon).append
    (optional_writes test)).append hsemicolon).append (optional_writes update)).append
    writes_closing).append (hs.body true false)).cast ?_
  simp [Statement.tokens, Mark.text, Keyword.text]

theorem Prints.forIn (binding : Binding) (right : Expression) (h : Represents t s)
    (hs : Prints α m t s) :
    Prints α m (.node (.forInStatement binding.tree right.tree t)) (.forIn binding right s) := by
  refine .of_node (.forIn binding right h) (by simp) (by simp) ?_
  have hin : (Script.write " in ").Writes α [.token "in"] := .of_spells (.write (by decide))
  refine (((((writes_for.append (forInLeft_writes binding)).append hin).append
    (writes_whole _ right)).append writes_closing).append (hs.body true false)).cast ?_
  simp [Statement.tokens, Mark.text, Keyword.text]

theorem Prints.ifOnly (test : Expression) (h : Represents t s) (hs : Prints α m t s) :
    Prints α m (.node (.ifStatement test.tree t .missing)) (.ifOnly test s) := by
  refine .of_node (.ifOnly test h) (by simp) (by simp) ?_
  have hfolds : becomesConditional m test.tree t .missing = .ok false := by cases m <;> rfl
  rw [nodeScript, hfolds]
  refine (((writes_head .if_ _ test (by decide) (by decide)).append (hs.body true false)).append
    (.of_spells .empty)).cast ?_
  simp [Statement.tokens]

theorem foldedBranch_represents {x : Expression} (h : Represents t s)
    (hx : s.soleExpression? = some x) :
    foldedBranch m t = Script.enclosedIf (Place.item.refuses x.tree) (nodeScript m x.node) := by
  unfold Statement.soleExpression? at hx
  split at hx
  · obtain rfl := Option.some.inj hx
    cases h
    rfl
  · obtain rfl := Option.some.inj hx
    cases h with
    | block hall =>
      cases hall with
      | cons ht hts =>
        cases hts
        cases ht
        rfl
  · cases hx

/-- A folded if is printed as the conditional expression is. -/
theorem nodeScript_folded {test e : Expression} {n : Node Tree} {s' : Statement}
    (h : Represents t s) (h' : Represents (.node n) s')
    (he : Statement.conditional? m test s s' = some e) :
    nodeScript m (.ifStatement test.tree t (.node n)) =
      nodeScript m (.expressionStatement e.tree) := by
  have hfolds := becomesConditional_represents (m := m) test h h'
  rw [he] at hfolds
  unfold Statement.conditional? at he
  split at he
  · next x y hx hy =>
    obtain rfl := Option.some.inj he
    conv_lhs => rw [nodeScript, hfolds, foldedBranch_represents h hx, foldedBranch_represents h' hy]
    rfl
  · cases he

theorem Prints.ifElse (test : Expression) {n : Node Tree} {s' : Statement} (h : Represents t s)
    (h' : Represents (.node n) s') (hs : Prints α m t s) (hs' : Prints α m (.node n) s') :
    Prints α m (.node (.ifStatement test.tree t (.node n))) (.ifElse test s s') := by
  refine .of_node (.ifElse test h h') (by simp) (by simp) ?_
  cases he : Statement.conditional? m test s s' with
  | some e =>
    have htokens : (Statement.ifElse test s s').tokens m .alone =
        (Statement.expression e).tokens m .alone := by
      simp only [Statement.tokens, he]
    rw [nodeScript_folded h h' he, htokens]
    exact (Prints.expression e).alone
  | none =>
    have hfolds := becomesConditional_represents (m := m) test h h'
    rw [he] at hfolds
    have hblank : (Script.given (hasBraces m true t) fun braces =>
        m.prettyOnly (Script.onlyIf braces (Script.write " "))).Writes α [] := by
      refine .given fun braces _ => .of_spells (.prettyOnly m ?_)
      cases braces with
      | false => exact .empty
      | true => exact .write (by decide)
    have helse : (Script.write "else").Writes α [.token "else"] := .of_spells (.write (by decide))
    rw [nodeScript, hfolds]
    refine (((writes_head .if_ _ test (by decide) (by decide)).append (hs.body false true)).append
      ((hblank.append helse).append hs'.branch)).cast ?_
    simp [Statement.tokens, he, Keyword.text]

def PrintsClauses (α : Alphabet) (m : Mode) (cases : List Tree) (clauses : List Clause) : Prop :=
  ∀ first, (itemScripts m .cases first cases).Writes α (spelling m (clauseTokens m clauses))

theorem clauseHead_writes (test : Option Expression) :
    (clauseHead m (optionalTree Expression.tree test).isMissing
      (scriptOr m .empty (optionalTree Expression.tree test))).Writes α
      (spelling m (clauseHeadTokens test)) := by
  have hcolon : (m.finish ":").Writes α [.token ":"] := .of_spells (.finish m (by decide))
  have hdeeper : Script.deeper.Spells α [] := .silent (by simp [Piece.texts])
  cases test with
  | none =>
    have hdefault : (Script.write "default").Writes α [.token "default"] :=
      .of_spells (.write (by decide))
    exact (hdefault.append hcolon).append (.of_spells (.prettyOnly m hdeeper))
  | some e =>
    have hcase : (Script.write "case ").Writes α [.token "case"] := .of_spells (.write (by decide))
    refine (((hcase.append (writes_whole .empty e)).append hcolon).append
      (.of_spells (.prettyOnly m hdeeper))).cast ?_
    simp [clauseHeadTokens, Mark.text, Keyword.text]

theorem PrintsClauses.cons (test : Option Expression) {body cases : List Tree}
    {ss : List Statement} {clauses : List Clause} (hbody : PrintsAll α m body ss)
    (hcases : PrintsClauses α m cases clauses) :
    PrintsClauses α m
      (.node (.switchCase (optionalTree Expression.tree test) (.list body)) :: cases)
      (.mk test ss :: clauses) := by
  intro first
  have hbetween : (Script.onlyIf (!first) (Listing.between m .cases)).Spells α [] := by
    cases first <;> exact .empty
  have hshallower : Script.shallower.Spells α [] := .silent (by simp [Piece.texts])
  rw [itemScripts]
  refine (((Script.Writes.of_spells hbetween).append (((clauseHead_writes test).append
    (hbody true)).append (.of_spells (.prettyOnly m hshallower)))).append (hcases false)).cast ?_
  simp [clauseTokens]

theorem Prints.switch (discriminant : Expression) {cases : List Tree} {clauses : List Clause}
    (h : RepresentsClauses cases clauses) (hclauses : PrintsClauses α m cases clauses) :
    Prints α m (.node (.switchStatement discriminant.tree (.list cases)))
      (.switch discriminant clauses) := by
  refine .of_node (.switch discriminant h) (by simp) (by simp) ?_
  have hopening : (m.token "switch(" "switch (").Writes α [.token "switch", .token "("] :=
    .of_spells (.token m (by decide) (by decide))
  have hbrace : (m.token ")\x7b" ") \x7b").Writes α [.token ")", .token "\x7b"] :=
    .of_spells (.token m (by decide) (by decide))
  have hdeeper : (Script.newline ++ Script.deeper).Spells α [] :=
    .silent (by simp [Piece.texts])
  have hshallower : Script.shallower.Spells α [] := .silent (by simp [Piece.texts])
  have hclosing : (m.finish "\x7d").Writes α [.token "\x7d"] :=
    .of_spells (.finish m (by decide))
  refine ((((((hopening.append (writes_whole _ discriminant)).append hbrace).append
    (.of_spells (.prettyOnly m hdeeper))).append (hclauses true)).append
    (.of_spells (.prettyOnly m hshallower))).append hclosing).cast ?_
  simp [Statement.tokens, headTokens, braced, Mark.text, Keyword.text]

theorem params_writes (params : List Name) :
    (listScript m (.params "FunctionDeclaration") (.list (params.map Name.tree))).Writes α
      (spelling m (paramTokens params)) := by
  have hbetween : ((Listing.params "FunctionDeclaration").between m).Spells α [.token ","] :=
    .token m (by decide) (by decide)
  have hitem : ∀ id : Name, (paramName "FunctionDeclaration" id.tree).Writes α
      (spelling m (nameTokens id)) := fun id => writes_name .empty id
  cases params with
  | nil => exact .of_spells .empty
  | cons first others =>
    have hothers := writes_following hbetween (fun _ _ _ => rfl) hitem others
    refine (((Script.Writes.of_spells .empty).append (hitem first)).append hothers).cast ?_
    simp [paramTokens]

theorem Prints.function (id : Name) (params : List Name) {body : List Tree}
    {ss : List Statement} (h : RepresentsAll body ss) (hall : PrintsAll α m body ss) :
    Prints α m (.node (.functionDeclaration id.tree (.list (params.map Name.tree)) (.list body)))
      (.function id params ss) := by
  refine .of_node (.function id params h) (by simp) (by simp) ?_
  have hfunction : (Script.write "function ").Writes α [.token "function"] :=
    .of_spells (.write (by decide))
  have hopening : (Script.write "(").Writes α [.token "("] := .of_spells (.write (by decide))
  have hclosing : (m.token ")" ") ").Writes α [.token ")"] :=
    .of_spells (.token m (by decide) (by decide))
  refine (((((hfunction.append (writes_name _ id)).append hopening).append
    (params_writes params)).append hclosing).append (hall.braces false true h)).cast ?_
  simp [Statement.tokens, Mark.text, Keyword.text]

theorem blockPart_writes {ts : List Tree} {ss : List Statement} (newline : Bool)
    (h : RepresentsAll ts ss) (hall : PrintsAll α m ts ss) :
    (blockPart m newline (blockTree ts)).Writes α (spelling m (braced (tokensAll m ss))) :=
  hall.braces true newline h

theorem handler_writes (param : Name) {ts : List Tree} {ss : List Statement} (newline : Bool)
    (h : RepresentsAll ts ss) (hall : PrintsAll α m ts ss) :
    (handlerScript m newline (.node (.catchClause param.tree (.list ts)))).Writes α
      (spelling m (headTokens .catch_ param.expression ++ braced (tokensAll m ss))) := by
  have hblank : (m.prettyOnly (Script.write " ")).Spells α [] := .prettyOnly m (.write (by decide))
  have hhead : (m.token "catch(" "catch (" ++ scriptOr m (absent "CatchClause" "param")
      param.tree ++ Script.write ")").Writes α (spelling m (headTokens .catch_ param.expression)) :=
    writes_head .catch_ _ param.expression (by decide) (by decide)
  refine ((Script.Writes.of_spells hblank).append
    (hhead.append (hall.braces true newline h))).cast ?_
  simp

theorem finalizer_writes {ts : List Tree} {ss : List Statement} (h : RepresentsAll ts ss)
    (hall : PrintsAll α m ts ss) :
    (m.token "finally" " finally" ++ blockPart m true (blockTree ts)).Writes α
      (spelling m (.keyword .finally_ :: braced (tokensAll m ss))) := by
  have hfinally : (m.token "finally" " finally").Writes α [.token "finally"] :=
    .of_spells (.token m (by decide) (by decide))
  exact hfinally.append (blockPart_writes true h hall)

theorem Prints.tryCatch (param : Name) {block handler : List Tree} {ss ss' : List Statement}
    (h : RepresentsAll block ss) (h' : RepresentsAll handler ss') (hall : PrintsAll α m block ss)
    (hall' : PrintsAll α m handler ss') :
    Prints α m (.node (.tryStatement (blockTree block)
      (.node (.catchClause param.tree (.list handler))) (blockTree [])))
      (.tryCatch ss param ss') := by
  refine .of_node (.tryCatch param h h') (by simp) (by simp) ?_
  have htry : (Script.write "try").Writes α [.token "try"] := .of_spells (.write (by decide))
  refine (((htry.append (blockPart_writes false h hall)).append
    (handler_writes param true h' hall')).append (.of_spells .empty)).cast ?_
  simp [Statement.tokens, Keyword.text]

theorem Prints.tryFinally {block finalizer : List Tree} {ss ss' : List Statement}
    (hne : finalizer ≠ []) (h : RepresentsAll block ss) (h' : RepresentsAll finalizer ss')
    (hall : PrintsAll α m block ss) (hall' : PrintsAll α m finalizer ss') :
    Prints α m (.node (.tryStatement (blockTree block) .missing (blockTree finalizer)))
      (.tryFinally ss ss') := by
  refine .of_node (.tryFinally hne h h') (by simp) (by simp) ?_
  obtain ⟨first, rest, rfl⟩ := List.exists_cons_of_ne_nil hne
  have htry : (Script.write "try").Writes α [.token "try"] := .of_spells (.write (by decide))
  refine (((htry.append (blockPart_writes false h hall)).append (.of_spells .empty)).append
    (finalizer_writes h' hall')).cast ?_
  simp [Statement.tokens, Keyword.text]

theorem Prints.tryCatchFinally (param : Name) {block handler finalizer : List Tree}
    {ss ss' ss'' : List Statement} (hne : finalizer ≠ []) (h : RepresentsAll block ss)
    (h' : RepresentsAll handler ss') (h'' : RepresentsAll finalizer ss'')
    (hall : PrintsAll α m block ss) (hall' : PrintsAll α m handler ss')
    (hall'' : PrintsAll α m finalizer ss'') :
    Prints α m (.node (.tryStatement (blockTree block)
      (.node (.catchClause param.tree (.list handler))) (blockTree finalizer)))
      (.tryCatchFinally ss param ss' ss'') := by
  refine .of_node (.tryCatchFinally param hne h h' h'') (by simp) (by simp) ?_
  obtain ⟨first, rest, rfl⟩ := List.exists_cons_of_ne_nil hne
  have htry : (Script.write "try").Writes α [.token "try"] := .of_spells (.write (by decide))
  refine (((htry.append (blockPart_writes false h hall)).append
    (handler_writes param false h' hall')).append (finalizer_writes h'' hall'')).cast ?_
  simp [Statement.tokens, Keyword.text]

mutual

theorem prints (m : Mode) : ∀ {t : Tree} {s : Statement}, Represents t s → Prints α m t s
  | _, _, .empty => .empty
  | _, _, .expression e => .expression e
  | _, _, .block h => .block h (printsAll m h)
  | _, _, .declaration first others => .declaration first others
  | _, _, .ifOnly test h => .ifOnly test h (prints m h)
  | _, _, .ifElse test h h' => .ifElse test h h' (prints m h) (prints m h')
  | _, _, .whileLoop test h => .whileLoop test h (prints m h)
  | _, _, .doLoop test h => .doLoop test h (prints m h)
  | _, _, .forLoop head test update h => .forLoop head test update h (prints m h)
  | _, _, .forIn binding right h => .forIn binding right h (prints m h)
  | _, _, .breakTo label => .breakTo label
  | _, _, .continueTo label => .continueTo label
  | _, _, .returning argument => .returning argument
  | _, _, .throwing argument => .throwing argument
  | _, _, .within object h => .within object h (prints m h)
  | _, _, .labeled label h => .labeled label h (prints m h)
  | _, _, .switch discriminant h => .switch discriminant h (printsClauses m h)
  | _, _, .tryCatch param h h' => .tryCatch param h h' (printsAll m h) (printsAll m h')
  | _, _, .tryFinally hne h h' => .tryFinally hne h h' (printsAll m h) (printsAll m h')
  | _, _, .tryCatchFinally param hne h h' h'' =>
    .tryCatchFinally param hne h h' h'' (printsAll m h) (printsAll m h') (printsAll m h'')
  | _, _, .debugger => .debugger
  | _, _, .function id params h => .function id params h (printsAll m h)

theorem printsAll (m : Mode) : ∀ {ts : List Tree} {ss : List Statement}, RepresentsAll ts ss →
    PrintsAll α m ts ss
  | _, _, .nil => fun _ => .of_spells .empty
  | _, _, .cons h hall => .cons (prints m h) (printsAll m hall)

theorem printsClauses (m : Mode) : ∀ {cases : List Tree} {clauses : List Clause},
    RepresentsClauses cases clauses → PrintsClauses α m cases clauses
  | _, _, .nil => fun _ => .of_spells .empty
  | _, _, .cons test h hclauses => .cons test (printsAll m h) (printsClauses m hclauses)

end

end Printing

section Structure

/-- The texts that the source of a statement is made of are cut into its tokens. -/
theorem cut_source {ps : PrintSettings} {t : Tree} {s : Statement} {text : Text}
    (h : Represents t s) (hprints : toSource ps t = .ok text) :
    text = rendered ps (Source.Position.print {} ps.mode t).laid ∧
      Cut α (Source.Position.print {} ps.mode t).texts
        (spelling ps.mode (s.tokens ps.mode .alone)) := by
  obtain ⟨htext, hfailure, htexts⟩ := texts_of_toSource hprints
  rw [htexts]
  exact ⟨htext, ((prints ps.mode h).alone hfailure).cut⟩

/-- What a statement tree prints is parsed back to its statement. The texts that its source is
made of are cut into the tokens of the statement, and parsing these takes all of them and gives
the same statement up to its normal form, if no switch has two default clauses. -/
theorem parse_source (α : Alphabet) {ps : PrintSettings} {t : Tree} {s : Statement} {text : Text}
    (h : Represents t s) (hdefault : s.hasOneDefault = true) (hprints : toSource ps t = .ok text) :
    text = rendered ps (Source.Position.print {} ps.mode t).laid ∧
      Cut α (Source.Position.print {} ps.mode t).texts
        (spelling ps.mode (s.tokens ps.mode .alone)) ∧
      ∃ s', parse (s.tokens ps.mode .alone) = some s' ∧ s'.normal ps.mode = s.normal ps.mode := by
  obtain ⟨htext, hcut⟩ := cut_source (α := α) h hprints
  exact ⟨htext, hcut, parse_tokens ps.mode s hdefault⟩

def namedExpression (name : String) : Expression := Name.expression ⟨.ofText name⟩

/-- The statement `if (a) { while (b) if (c) d; } else e;`, in which the else must not be
taken by the inner if. -/
def innerIf : Statement :=
  .ifElse (namedExpression "a")
    (.block [.whileLoop (namedExpression "b")
      (.ifOnly (namedExpression "c") (.expression (namedExpression "d")))])
    (.expression (namedExpression "e"))

def innerIfTree : Tree :=
  .node (.ifStatement (namedExpression "a").tree
    (blockTree [.node (.whileStatement (namedExpression "b").tree
      (.node (.ifStatement (namedExpression "c").tree
        (.node (.expressionStatement (namedExpression "d").tree)) .missing)))])
    (.node (.expressionStatement (namedExpression "e").tree)))

theorem parse_source_innerIf :
    toSource { minify := .bool true } innerIfTree = .ok "if(a)\x7bwhile(b)if(c)d;\x7delse e;" ∧
      Cut .ascii (Source.Position.print {} .minified innerIfTree).texts
        (spelling .minified (innerIf.tokens .minified .alone)) ∧
      ∃ s', parse (innerIf.tokens .minified .alone) = some s' ∧
        s'.normal .minified = innerIf.normal .minified := by
  have hsource : toSource { minify := .bool true } innerIfTree =
      .ok "if(a)\x7bwhile(b)if(c)d;\x7delse e;" := by decide
  have hrepresents : Represents innerIfTree innerIf :=
    .ifElse _ (.block (.cons (.whileLoop _ (.ifOnly _ (.expression _))) .nil)) (.expression _)
  exact ⟨hsource, (parse_source .ascii hrepresents rfl hsource).2⟩

/-- The statement `switch (a) { default: default: }`. -/
def twoDefaults : Statement := .switch (namedExpression "a") [.mk none [], .mk none []]

def twoDefaultsTree : Tree :=
  .node (.switchStatement (namedExpression "a").tree
    (.list [.node (.switchCase .missing (.list [])), .node (.switchCase .missing (.list []))]))

/-- A switch with two default clauses is printed, but it is no statement of the grammar. -/
theorem not_parse_twoDefaults :
    Represents twoDefaultsTree twoDefaults ∧
      toSource { minify := .bool true } twoDefaultsTree =
        .ok "switch(a)\x7bdefault:default:\x7d" ∧
      Cut .ascii (Source.Position.print {} .minified twoDefaultsTree).texts
        (spelling .minified (twoDefaults.tokens .minified .alone)) ∧
      parse (twoDefaults.tokens .minified .alone) = none := by
  have hsource : toSource { minify := .bool true } twoDefaultsTree =
      .ok "switch(a)\x7bdefault:default:\x7d" := by decide
  have hrepresents : Represents twoDefaultsTree twoDefaults :=
    .switch _ (.cons none .nil (.cons none .nil .nil))
  exact ⟨hrepresents, hsource, (cut_source hrepresents hsource).2, rfl⟩

end Structure

end ScriptTree.Structure
