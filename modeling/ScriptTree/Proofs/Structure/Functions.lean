import ScriptTree.Proofs.Source.Occurrence
import ScriptTree.Proofs.Structure.Representation

/-!
Function declarations as bodies and branches. A block of just one function declaration keeps its
braces when minified, but one of a function declaration under labels loses them. Everything else
that the printer does with braces leaves no function declaration without them.
-/

namespace ScriptTree.Structure

open Exchange Source Source.Script

namespace Statement

/-- Whether the statement is a function declaration, directly or under labels. -/
def reachesFunction : Statement → Bool
  | .function .. => true
  | .labeled _ body => body.reachesFunction
  | _ => false

/-- Whether the statement is a block of just one function declaration, which is under labels. -/
def coversFunction : Statement → Bool
  | .block [.labeled _ body] => body.reachesFunction
  | _ => false

end Statement

mutual

/-- The bodies and branches in a statement, at any depth. What a label is on is none. -/
def Statement.bodies : Statement → List Statement
  | .ifOnly _ body | .whileLoop _ body | .doLoop body _ | .forLoop _ _ _ body | .forIn _ _ body
  | .within _ body => body :: body.bodies
  | .ifElse _ consequent alternate =>
    consequent :: consequent.bodies ++ alternate :: alternate.bodies
  | .labeled _ body => body.bodies
  | .block body | .function _ _ body => bodiesAll body
  | .switch _ clauses => bodiesClauses clauses
  | .tryCatch block _ handler => bodiesAll block ++ bodiesAll handler
  | .tryFinally block finalizer => bodiesAll block ++ bodiesAll finalizer
  | .tryCatchFinally block _ handler finalizer =>
    bodiesAll block ++ bodiesAll handler ++ bodiesAll finalizer
  | .empty | .expression _ | .declaration .. | .breakTo _ | .continueTo _ | .returning _
  | .throwing _ | .debugger => []

def bodiesAll : List Statement → List Statement
  | [] => []
  | s :: rest => s.bodies ++ bodiesAll rest

def bodiesClauses : List Clause → List Statement
  | [] => []
  | .mk _ body :: rest => bodiesAll body ++ bodiesClauses rest

end

section Bodies

variable {m : Mode} {s consequent alternate : Statement}

theorem bodies_unbraced (body : List Statement) : (unbraced body).bodies = bodiesAll body := by
  match body with
  | [s] => exact (List.append_nil _).symm
  | [] | _ :: _ :: _ => rfl

theorem bodies_enclosedIn (standing : Standing) (s printed : Statement) :
    (s.enclosedIn m standing printed).bodies = printed.bodies := by
  unfold Statement.enclosedIn
  split
  · exact List.append_nil _
  · rfl

/-- A function declaration has no place for an else, and neither has a label on one. -/
theorem takesElse_of_reachesFunction (m : Mode) : (s : Statement) → s.reachesFunction = true →
    s.takesElse m = false
  | .labeled _ body, h => takesElse_of_reachesFunction m body h
  | .function .., _ => rfl
  | .block _, h | .empty, h | .expression _, h | .declaration .., h | .ifOnly .., h
  | .ifElse .., h | .whileLoop .., h | .doLoop .., h | .forLoop .., h | .forIn .., h
  | .breakTo _, h | .continueTo _, h | .returning _, h | .throwing _, h | .within .., h
  | .switch .., h | .tryCatch .., h | .tryFinally .., h | .tryCatchFinally .., h
  | .debugger, h => Bool.noConfusion h

theorem reachesFunction_printed_alone (m : Mode) : (s : Statement) →
    (s.printed m .alone).reachesFunction = s.reachesFunction
  | .labeled _ body => reachesFunction_printed_alone m body
  | .ifElse test consequent alternate => by
    rw [Statement.printed]
    split <;> rfl
  | .block _ | .empty | .expression _ | .declaration .. | .ifOnly .. | .whileLoop .. | .doLoop ..
  | .forLoop .. | .forIn .. | .breakTo _ | .continueTo _ | .returning _ | .throwing _
  | .within .. | .switch .. | .tryCatch .. | .tryFinally .. | .tryCatchFinally .. | .debugger
  | .function .. => rfl

/-- Of a block of one statement, a body keeps what the statement reaches if it is no function
declaration itself: then the braces are dropped. -/
theorem reachesFunction_printed_block (beforeElse : Bool) (s : Statement) :
    ((Statement.block [s]).printed .minified (.body beforeElse)).reachesFunction =
      (Statement.block [s]).coversFunction := by
  have hdrops : (Standing.body beforeElse).dropsBraces .minified [s] =
      (!s.isFunction && !(beforeElse && s.takesElse .minified)) := rfl
  rw [Statement.printed, hdrops, printedAll, printedAll, unbraced]
  by_cases hlabeled : ∃ label body, s = .labeled label body
  · obtain ⟨label, body, rfl⟩ := hlabeled
    have hprinted := reachesFunction_printed_alone .minified (.labeled label body)
    cases hreaches : body.reachesFunction with
    | true =>
      have htakes : (Statement.labeled label body).takesElse .minified = false :=
        takesElse_of_reachesFunction .minified (.labeled label body) hreaches
      have hdropped : (!(Statement.labeled label body).isFunction && !false) = true := rfl
      rw [htakes, Bool.and_false, if_pos hdropped, hprinted]
      rfl
    | false =>
      rw [Statement.coversFunction, hreaches]
      split
      · rw [hprinted, Statement.reachesFunction, hreaches]
      · rfl
  · have hcovers : (Statement.block [s]).coversFunction = false := by
      cases s with
      | labeled label body => exact absurd ⟨label, body, rfl⟩ hlabeled
      | _ => rfl
    rw [hcovers]
    cases hfunction : s.isFunction with
    | true => rfl
    | false =>
      have hreaches : s.reachesFunction = false := by
        cases s with
        | labeled label body => exact absurd ⟨label, body, rfl⟩ hlabeled
        | function id params body => cases hfunction
        | _ => rfl
      split
      · rw [reachesFunction_printed_alone, hreaches]
      · rfl

/-- A body is printed as a function declaration, directly or under labels, exactly if it is one
or covers one. -/
theorem reachesFunction_printed_body (beforeElse : Bool) (s : Statement) :
    (s.printed .minified (.body beforeElse)).reachesFunction =
      (s.reachesFunction || s.coversFunction) := by
  by_cases hblock : ∃ body, s = .block body
  · obtain ⟨body, rfl⟩ := hblock
    match body with
    | [s] => exact reachesFunction_printed_block beforeElse s
    | [] => rfl
    | first :: second :: others =>
      have hdrops : (Standing.body beforeElse).dropsBraces .minified (first :: second :: others) =
        false := rfl
      rw [Statement.printed, hdrops, if_neg Bool.false_ne_true]
      simp [Statement.reachesFunction, Statement.coversFunction]
  · have hne : ∀ body, s ≠ .block body := fun body h => hblock ⟨body, h⟩
    have hcovers : s.coversFunction = false := by
      cases s with
      | block body => exact absurd rfl (hne body)
      | _ => rfl
    rw [printed_body beforeElse s hne, hcovers, Bool.or_false]
    cases hreaches : s.reachesFunction with
    | true =>
      rw [takesElse_of_reachesFunction .minified s hreaches, Bool.and_false,
        if_neg Bool.false_ne_true, reachesFunction_printed_alone, hreaches]
    | false =>
      split
      · rfl
      · rw [reachesFunction_printed_alone, hreaches]

/-- Whether a body of the statement is printed as a function declaration. -/
def exposes (body : Statement) : Bool := body.reachesFunction || body.coversFunction

theorem bodies_of_soleExpression {e : Expression} (h : s.soleExpression? = some e) :
    exposes s = false ∧ s.bodies = [] := by
  unfold Statement.soleExpression? at h
  split at h
  · exact ⟨rfl, rfl⟩
  · exact ⟨rfl, rfl⟩
  · cases h

theorem bodies_of_conditional {test e : Expression}
    (h : Statement.conditional? m test consequent alternate = some e) :
    (Statement.ifElse test consequent alternate).bodies.any exposes = false := by
  unfold Statement.conditional? at h
  split at h
  · next x y hx hy =>
    obtain ⟨hconsequent, hbodies⟩ := bodies_of_soleExpression hx
    obtain ⟨halternate, hbodies'⟩ := bodies_of_soleExpression hy
    simp [Statement.bodies, hconsequent, hbodies, halternate, hbodies']
  · cases h

mutual

/-- The printed statement has a function declaration for a body where the statement has one, or
a block that covers one. -/
theorem any_bodies_printed (standing : Standing) : (s : Statement) →
    (s.printed .minified standing).bodies.any Statement.reachesFunction = s.bodies.any exposes
  | .block body => by
    have hall := any_bodies_printedAll body
    rw [Statement.printed]
    split
    · rw [bodies_unbraced]
      exact hall
    · exact hall
  | .ifElse test consequent alternate => by
    rw [Statement.printed]
    split
    · next e he => rw [bodies_of_conditional he]; rfl
    · simp [bodies_enclosedIn, Statement.bodies, reachesFunction_printed_body, exposes,
        any_bodies_printed _ consequent, any_bodies_printed _ alternate]
  | .ifOnly test body | .whileLoop test body | .doLoop body test | .forLoop _ test _ body
  | .forIn _ test body | .within test body => by
    simp [Statement.printed, bodies_enclosedIn, Statement.bodies, reachesFunction_printed_body,
      exposes, any_bodies_printed _ body]
  | .labeled label body => by
    simp [Statement.printed, bodies_enclosedIn, Statement.bodies, any_bodies_printed _ body]
  | .switch _ clauses => any_bodies_printedClauses clauses
  | .function _ _ body => any_bodies_printedAll body
  | .tryCatch block _ handler => by
    simp [Statement.printed, Statement.bodies, any_bodies_printedAll block,
      any_bodies_printedAll handler]
  | .tryFinally block finalizer => by
    simp [Statement.printed, Statement.bodies, any_bodies_printedAll block,
      any_bodies_printedAll finalizer]
  | .tryCatchFinally block _ handler finalizer => by
    simp [Statement.printed, Statement.bodies, any_bodies_printedAll block,
      any_bodies_printedAll handler, any_bodies_printedAll finalizer]
  | .empty | .expression _ | .declaration .. | .breakTo _ | .continueTo _ | .returning _
  | .throwing _ | .debugger => rfl

theorem any_bodies_printedAll : (body : List Statement) →
    (bodiesAll (printedAll .minified body)).any Statement.reachesFunction =
      (bodiesAll body).any exposes
  | [] => rfl
  | s :: rest => by
    simp [printedAll, bodiesAll, any_bodies_printed _ s, any_bodies_printedAll rest]

theorem any_bodies_printedClauses : (clauses : List Clause) →
    (bodiesClauses (printedClauses .minified clauses)).any Statement.reachesFunction =
      (bodiesClauses clauses).any exposes
  | [] => rfl
  | .mk _ body :: rest => by
    simp [printedClauses, bodiesClauses, any_bodies_printedAll body,
      any_bodies_printedClauses rest]

end

end Bodies

/-! ### Statements in a tree -/

/-- The statements are printed one after the other in the tree, and not as a part of another
statement: they are the tree, or what a program, a clause or a function expression in it holds. -/
inductive Sequence (t : Tree) : List Tree → Prop
  | whole (h : NodeSlot Node.HasSlots .statement t) : Sequence t [t]
  | program {items : List Tree} (h : t = .node (.program (.list items))) : Sequence t items
  | clause {test : Tree} {items : List Tree} (h : t = .node (.switchCase test (.list items))) :
    Sequence t items
  | handler {param : Tree} {items : List Tree}
    (h : t = .node (.catchClause param (.list items))) : Sequence t items
  | function {id params : Tree} {items : List Tree}
    (h : Node.PrintedIn (.functionExpression id params (.list items)) t) : Sequence t items
  | accessor {key id params kind : Tree} {items : List Tree}
    (h : Node.PrintedIn
      (.property key (.node (.functionExpression id params (.list items))) kind) t) :
    Sequence t items

section Sequences

variable {m : Mode} {t : Tree} {items : List Tree} {a b c : Script}

theorem includes_trans (h : a.Includes b) (h' : b.Includes c) : a.Includes c := by
  intro ha
  obtain ⟨before, after, rfl⟩ := h ha
  obtain ⟨before', after', rfl⟩ := h' (failure_right (failure_left ha))
  exact ⟨before ++ before', after' ++ after, by simp only [append_assoc]⟩

theorem includes_empty (a : Script) : a.Includes empty :=
  fun _ => ⟨empty, a, rfl⟩

theorem includes_statements (spacer newline : Bool) (items : List Tree) :
    (m.braces spacer newline (!(Tree.list items).isTrue)
      (listScript m .statements (.list items))).Includes
        (listScript m .statements (.list items)) := by
  cases items with
  | nil => exact includes_empty _
  | cons first rest => exact .braces _ _ (.refl _)

theorem includes_functionBody (id params : Tree) (items : List Tree) :
    (nodeScript m (.functionExpression id params (.list items))).Includes
      (listScript m .statements (.list items)) := .right _ (includes_statements _ _ items)

theorem includes_accessorBody (key id params kind : Tree) (items : List Tree) :
    (nodeScript m (.property key (.node (.functionExpression id params (.list items)))
      kind)).Includes (listScript m .statements (.list items)) := by
  by_cases hempty : key = .choice .empty
  · rw [hempty]
    exact .fail _
  · rw [nodeScript]
    · split
      · exact .right _ (.enclosedIf _ (includes_functionBody id params items))
      · exact .given fun word => .right _ (includes_statements _ _ items)
    · exact hempty

/-- What is printed one after the other is in place, and its script is a part of the one of the
tree. -/
theorem includes_sequence (ht : t.Throughout Node.HasSlots) (h : Sequence t items) :
    ListSlot Node.HasSlots .statement (.list items) ∧
      (script m t).Includes (listScript m .statements (.list items)) := by
  have hslots {n : Node Tree} (hn : (Tree.node n).Throughout Node.HasSlots) :
      n.Filled Node.HasSlots := hn.filled fun _ => id
  cases h with
  | whole h =>
    refine ⟨⟨[t], rfl, by simpa using h⟩, ?_⟩
    have hscript : listScript m .statements (.list [t]) = script m t := by
      rw [listScript, itemScripts, itemScripts, append_empty]
      exact empty_append _
    rw [hscript]
    exact .refl _
  | program h =>
    subst h
    exact ⟨hslots ht, .refl _⟩
  | clause h =>
    subst h
    exact ⟨(hslots ht).2, .left (.right _ (.refl _)) _⟩
  | handler h =>
    subst h
    exact ⟨(hslots ht).2, .right _ (includes_statements _ _ items)⟩
  | function h =>
    exact ⟨(hslots (throughout_printedIn ht h)).2.2,
      includes_trans (includes_script ht rfl h) (includes_functionBody _ _ items)⟩
  | accessor h =>
    have hvalue : NodeSlot Node.HasSlots .expression _ := (hslots (throughout_printedIn ht h)).2.1
    exact ⟨(hslots hvalue.throughout).2.2,
      includes_trans (includes_script ht rfl h) (includes_accessorBody _ _ _ _ items)⟩

/-- In the structure that minified source has, a body or branch is a function declaration, directly
or under labels, exactly if one in the tree is, or is a block of just one function declaration
under labels: no other braces around a function declaration are left out. The structure is read
off the texts that the source is made of, for every list of statements in the tree. -/
theorem functions_keep_braces (α : Lexical.Alphabet) {ps : PrintSettings} {text : Text}
    (hmode : ps.mode = .minified) (ht : t.Throughout Node.HasSlots)
    (hprints : toSource ps t = .ok text) (hitems : Sequence t items) :
    text = rendered ps (Source.Position.print {} .minified t).laid ∧
      (∃ before after, (Source.Position.print {} .minified t).texts =
        before ++ (listScript .minified .statements (.list items)).texts ++ after) ∧
      (∃ ss, RepresentsAll items ss) ∧ ∀ ss, RepresentsAll items ss →
        Lexical.Cut α (listScript .minified .statements (.list items)).texts
            (spelling .minified (tokensAll .minified ss)) ∧
          ((∃ ss', parseAll (tokensAll .minified ss) = some ss') ↔ allHaveOneDefault ss = true) ∧
          ∀ ss', parseAll (tokensAll .minified ss) = some ss' →
            ((∃ body ∈ bodiesAll ss', body.reachesFunction = true) ↔
              ∃ body ∈ bodiesAll ss, body.reachesFunction = true ∨ body.coversFunction = true) := by
  obtain ⟨htext, hfailure, htexts⟩ := texts_of_toSource hprints
  rw [hmode] at htext hfailure htexts
  obtain ⟨hslots, hincludes⟩ := includes_sequence (m := .minified) ht hitems
  obtain ⟨before, after, hscript⟩ := hincludes hfailure
  have hlist : (listScript .minified .statements (.list items)).failure = none := by
    rw [hscript] at hfailure
    exact failure_right (failure_left hfailure)
  have hpart : ∃ before after, (Source.Position.print {} .minified t).texts =
      before ++ (listScript .minified .statements (.list items)).texts ++ after := by
    refine ⟨before.texts, after.texts, ?_⟩
    rw [hscript] at hfailure
    rw [htexts, hscript, texts_append (failure_left hfailure),
      texts_append (failure_left (failure_left hfailure))]
  refine ⟨htext, hpart, exists_representsAll hslots hlist, fun ss hss => ?_⟩
  refine ⟨(printsAll .minified hss true hlist).cut, ?_, fun ss' hparse => ?_⟩
  · rw [parseAll_eq]
    cases allHaveOneDefault ss <;> simp
  · rw [parseAll_eq] at hparse
    split at hparse
    · obtain rfl := Option.some.inj hparse
      simpa [exposes] using Bool.eq_iff_iff.mp (any_bodies_printedAll ss)
    · cases hparse

def labeledFunction : Statement :=
  .labeled ⟨.ofText (Text.ofString "l")⟩ (.function ⟨.ofText (Text.ofString "f")⟩ [] [])

def labeledFunctionTree : Tree :=
  .node (.labeledStatement (namedExpression "l").tree
    (.node (.functionDeclaration (namedExpression "f").tree (.list []) (.list []))))

def loopOver (body : Statement) : Statement := .whileLoop (namedExpression "a") body

def loopTree (body : Tree) : Tree := .node (.whileStatement (namedExpression "a").tree body)

theorem represents_labeledFunction : Represents labeledFunctionTree labeledFunction :=
  .labeled _ (.function _ [] .nil)

theorem hasSlots_labeledFunction : NodeSlot Node.HasSlots .statement labeledFunctionTree := by
  have hname (name : String) : NodeSlot Node.HasSlots .identifier (namedExpression name).tree :=
    .of_has rfl (hasSlots_of_filled ⟨_, rfl⟩)
  have hfunction : NodeSlot Node.HasSlots .statement (.node (.functionDeclaration _ _ _)) :=
    .of_has rfl (hasSlots_of_filled ⟨hname "f", ⟨[], rfl, by simp⟩, ⟨[], rfl, by simp⟩⟩)
  exact .of_has rfl (hasSlots_of_filled ⟨hname "l", hfunction⟩)

theorem hasSlots_block (h : NodeSlot Node.HasSlots .statement t) :
    NodeSlot Node.HasSlots .statement (blockTree [t]) :=
  .of_has rfl (hasSlots_of_filled ⟨_, rfl, by simpa using h⟩)

theorem hasSlots_loop (h : NodeSlot Node.HasSlots .statement t) :
    NodeSlot Node.HasSlots .statement (loopTree t) := by
  have htest : NodeSlot Node.HasSlots .expression (namedExpression "a").tree :=
    .of_has rfl (hasSlots_of_filled ⟨_, rfl⟩)
  exact .of_has rfl (hasSlots_of_filled ⟨htest, h⟩)

/-- A loop whose body is a block in a block: the inner one keeps its braces. -/
theorem functions_keep_braces_nested :
    toSource { minify := .bool true } (loopTree (blockTree [blockTree [labeledFunctionTree]])) =
        .ok "while(a)\x7bl:function f()\x7b\x7d\x7d" ∧
      ∃ ss', parseAll (tokensAll .minified [loopOver (.block [.block [labeledFunction]])]) =
          some ss' ∧ ¬∃ body ∈ bodiesAll ss', body.reachesFunction = true := by
  have hloop := hasSlots_loop (hasSlots_block (hasSlots_block hasSlots_labeledFunction))
  have hrepresents := Represents.whileLoop (namedExpression "a")
    (.block (.cons (.block (.cons represents_labeledFunction .nil)) .nil))
  have hsource : toSource { minify := .bool true }
      (loopTree (blockTree [blockTree [labeledFunctionTree]])) =
        .ok "while(a)\x7bl:function f()\x7b\x7d\x7d" := by decide
  obtain ⟨-, -, -, hall⟩ :=
    functions_keep_braces .ascii rfl hloop.throughout hsource (.whole hloop)
  obtain ⟨-, hparses, hbodies⟩ := hall _ (.cons hrepresents .nil)
  obtain ⟨ss', hparse⟩ := hparses.mpr rfl
  exact ⟨hsource, ss', hparse, fun h => absurd ((hbodies ss' hparse).mp h) (by decide)⟩

/-- The block of a labeled function declaration loses its braces: no body of the tree is a
function declaration, but the body of the loop that its minified text has is one. -/
theorem functions_lose_braces :
    (loopTree (blockTree [labeledFunctionTree])).Throughout Node.HasSlots ∧
      Represents (loopTree (blockTree [labeledFunctionTree]))
        (loopOver (.block [labeledFunction])) ∧
      toSource { minify := .bool true } (loopTree (blockTree [labeledFunctionTree])) =
        .ok "while(a)l:function f()\x7b\x7d" ∧
      (∀ body ∈ (loopOver (.block [labeledFunction])).bodies, body.reachesFunction = false) ∧
      ∃ s', parse ((loopOver (.block [labeledFunction])).tokens .minified .alone) = some s' ∧
        ∃ body ∈ s'.bodies, body.reachesFunction = true := by
  exact ⟨(hasSlots_loop (hasSlots_block hasSlots_labeledFunction)).throughout,
    .whileLoop _ (.block (.cons represents_labeledFunction .nil)), by decide, by decide,
    loopOver labeledFunction, rfl, labeledFunction, List.mem_cons_self, rfl⟩

end Sequences

end ScriptTree.Structure
