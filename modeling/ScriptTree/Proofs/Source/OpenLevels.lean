import ScriptTree.Proofs.Source.Failure
import ScriptTree.Source.Stream

/-!
The depth after a failure. A tree that is printed leaves the depth as it found it. One that
fails leaves the levels open that stand around its first fault: nothing leads back from them, and
what is printed next to the same sink is indented by as many levels more. How many these are can
be told from the tree. Minified, there are none.
-/

namespace ScriptTree.Source

open Exchange Script

/-! ### Levels of faults -/

def nested (level : Option Nat) : Option Nat := level.map (· + 1)

/-- The first fault of accesses by name: one that is no name. -/
def namesLevel : Tree → Option Nat
  | .list items => if items.all (·.kind? = some .identifier) then none else some 0
  | _ => some 0

mutual

/-- How deep the first fault of a slot is; `missing` tells it of an empty one. -/
def slotLevel (missing : Option Nat) : Tree → Option Nat
  | .missing => missing
  | .node n => nodeLevel n
  | _ => some 0

def listLevel (missing : Option Nat) : Tree → Option Nat
  | .list items => itemsLevel missing items
  | _ => some 0

def itemsLevel (missing : Option Nat) : List Tree → Option Nat
  | [] => none
  | t :: rest => (slotLevel missing t).or (itemsLevel missing rest)

def bodyLevel : Tree → Option Nat
  | .missing => none
  | .node (.blockStatement body) => nested (listLevel none body)
  | .node n => nested (nodeLevel n)
  | _ => some 1

def elseLevel : Tree → Option Nat
  | .missing => none
  | .node (.blockStatement body) => nested (listLevel none body)
  | .node n => if n.kind? = some .ifStatement then nodeLevel n else nested (nodeLevel n)
  | _ => some 1

def blockLevel : Tree → Option Nat
  | .node (.blockStatement body) => nested (listLevel none body)
  | _ => some 0

def keyLevel : Tree → Option Nat
  | .choice (.first t) => slotLevel none t
  | .choice (.second t) => slotLevel none t
  | _ => some 0

def accessorLevel (key : Option Nat) : Tree → Option Nat
  | .node (.functionExpression _ params body) =>
    key.or ((listLevel (some 0) params).or (nested (listLevel none body)))
  | _ => some 0

def headLevel (accepts : Nat → Bool) : Tree → Option Nat
  | .node (.variableDeclaration (.list items) _) =>
    if accepts items.length then itemsLevel (some 0) items else some 0
  | _ => some 0

def choiceLevel (empty : Option Nat) (accepts : Nat → Bool) : Tree → Option Nat
  | .choice .empty => empty
  | .choice (.first t) => headLevel accepts t
  | .choice (.second t) => slotLevel (some 0) t
  | _ => some 0

def nodeLevel : Node Tree → Option Nat
  | .bare _ => some 0
  | .identifier _ | .thisExpression | .debuggerStatement | .breakStatement _
  | .continueStatement _ => none
  | .literal value => (ofExcept (literal value)).failure.map fun _ => 0
  | .program body => listLevel none body
  | .arrayExpression elements => nested (listLevel none elements)
  | .objectExpression properties => nested (listLevel (some 0) properties)
  | .functionExpression _ params body =>
    (listLevel (some 0) params).or (nested (listLevel none body))
  | .unaryExpression _ argument => slotLevel (some 0) argument
  | .binaryExpression left _ right => (slotLevel (some 0) left).or (listLevel (some 0) right)
  | .memberExpression object indices computed =>
    (slotLevel (some 0) object).or
      (if computed.isTrue then listLevel (some 0) indices else namesLevel indices)
  | .conditionalExpression test consequent alternate =>
    ((slotLevel (some 0) test).or (slotLevel (some 0) consequent)).or (slotLevel (some 0) alternate)
  | .callExpression callee arguments | .newExpression callee arguments =>
    (slotLevel (some 0) callee).or (listLevel (some 0) arguments)
  | .sequenceExpression expressions => listLevel (some 0) expressions
  | .blockStatement body => nested (listLevel none body)
  | .expressionStatement expression => slotLevel (some 0) expression
  | .withStatement object body => (slotLevel (some 0) object).or (bodyLevel body)
  | .returnStatement argument => slotLevel none argument
  | .labeledStatement label body => (slotLevel (some 0) label).or (slotLevel none body)
  | .ifStatement test consequent alternate =>
    ((slotLevel (some 0) test).or (bodyLevel consequent)).or (elseLevel alternate)
  | .switchStatement discriminant cases =>
    (slotLevel (some 0) discriminant).or (nested (listLevel (some 0) cases))
  | .switchCase test body => (slotLevel none test).or (nested (listLevel none body))
  | .throwStatement argument => slotLevel (some 0) argument
  | .tryStatement block handler finalizer =>
    match Tree.checkTry handler finalizer, finalizer.hasFinalizer with
    | .ok _, .ok final =>
      ((blockLevel block).or (slotLevel none handler)).or
        (if final then blockLevel finalizer else none)
    | _, _ => some 0
  | .catchClause param body => (slotLevel (some 0) param).or (nested (listLevel none body))
  | .whileStatement test body => (slotLevel (some 0) test).or (bodyLevel body)
  | .doWhileStatement body test => (bodyLevel body).or (slotLevel (some 0) test)
  | .forStatement init test update body =>
    (((choiceLevel none (0 < ·) init).or (slotLevel none test)).or (slotLevel none update)).or
      (bodyLevel body)
  | .forInStatement left right body =>
    ((choiceLevel (some 0) (· = 1) left).or (slotLevel (some 0) right)).or (bodyLevel body)
  | .functionDeclaration id params body =>
    ((slotLevel (some 0) id).or (listLevel (some 0) params)).or (nested (listLevel none body))
  | .variableDeclaration declarations _ =>
    if declarations.isTrue then nested (listLevel (some 0) declarations) else some 0
  | .variableDeclarator id init => (slotLevel (some 0) id).or (slotLevel none init)
  | .property key value kind =>
    if definesValue kind then (keyLevel key).or (slotLevel (some 0) value)
    else accessorLevel (keyLevel key) value

end

section Equations

-- The equations for the kinds of nodes are derived here, once for all the proofs.
attribute [local simp] nodeLevel

end Equations

/-- How deep the first fault of a tree is, if it has one: the number of levels that stand around
it. -/
def faultLevel (t : Tree) : Option Nat := slotLevel none t

/-! ### Scripts and their levels -/

/-- The script leads from one depth to another, or it fails and leaves off at the level, all
given relative to a common ground. -/
structure Script.Leads (before after : Nat) (level : Option Nat) (s : Script) : Prop where
  failure : s.failure.isSome = level.isSome
  depth : ∀ d, depthAfter (d + before) s.pieces = d + level.getD after

abbrev Script.StopsAt (level : Option Nat) (s : Script) : Prop := s.Leads 0 0 level

namespace Script.Leads

variable {a b s : Script} {i j k : Nat} {level level' : Option Nat}

theorem append (ha : a.Leads i j level) (hb : b.Leads j k level') :
    (a ++ b).Leads i k (level.or level') := by
  obtain ⟨pieces, failure⟩ := a
  cases failure with
  | none =>
    obtain rfl : level = none := by simpa using ha.failure
    refine ⟨hb.failure, fun d => ?_⟩
    have hpieces : (Script.mk pieces none ++ b).pieces = pieces ++ b.pieces := rfl
    rw [hpieces, depthAfter_append, ha.depth]
    exact hb.depth d
  | some e =>
    obtain ⟨inner, rfl⟩ : ∃ inner, level = some inner := Option.isSome_iff_exists.mp ha.failure.symm
    exact ⟨rfl, ha.depth⟩

/-- What does not fail, before what may. -/
theorem before (ha : a.Leads i j none) (hb : b.Leads j k level) : (a ++ b).Leads i k level :=
  ha.append hb

theorem after (ha : a.Leads i j level) (hb : b.Leads j k none) : (a ++ b).Leads i k level := by
  have happend := ha.append hb
  rwa [Option.or_none] at happend

/-- Instructions that do not fail. -/
theorem ofPieces {pieces : List Piece} (h : ∀ d, depthAfter (d + i) pieces = d + j) :
    (ofPieces pieces).Leads i j none := ⟨rfl, h⟩

theorem empty : Script.empty.Leads k k none := ofPieces fun _ => rfl

theorem write (t : Text) : (write t).Leads k k none := ofPieces fun _ => rfl

theorem line (t : Text) : (line t).Leads k k none := ofPieces fun _ => rfl

theorem deeper : Script.deeper.Leads 0 1 none := ofPieces fun _ => rfl

theorem shallower : Script.shallower.Leads 1 0 none := ofPieces fun _ => rfl

theorem fail (e : TreeError) : (fail e).Leads k j (some k) := ⟨rfl, fun _ => rfl⟩

theorem ofExcept (result : Except TreeError Text) :
    (ofExcept result).StopsAt ((Script.ofExcept result).failure.map fun _ => 0) := by
  cases result with
  | ok t => exact write t
  | error e => exact fail e

theorem onlyIf (condition : Bool) (h : condition = true → s.StopsAt level)
    (hlevel : condition = false → level = none) : (onlyIf condition s).StopsAt level := by
  cases condition with
  | true => exact h rfl
  | false =>
    rw [hlevel rfl]
    exact empty

theorem enclosedIf (condition : Bool) (h : s.StopsAt level) :
    (enclosedIf condition s).StopsAt level := by
  cases condition with
  | false => exact h
  | true => exact ((write _).before h).after (write _)

/-- What stands deeper, between what leads there and back. -/
theorem nested (ha : a.Leads 0 1 level) (hs : s.StopsAt level') (hb : b.Leads 1 0 none) :
    (a ++ s ++ b).StopsAt (level.or (nested level')) := by
  have hlift : s.Leads 1 1 (Source.nested level') := by
    refine ⟨?_, fun d => ?_⟩
    · rw [hs.failure, Source.nested, Option.isSome_map]
    · rw [hs.depth (d + 1)]
      cases level' with
      | none => rfl
      | some inner =>
        simp only [Source.nested, Option.map_some, Option.getD_some]
        omega
  exact (ha.append hlift).after hb

theorem ending (newline : Bool) (t : Text) :
    (if newline && !Mode.pretty.isMinified then Script.line t
      else Script.write t).StopsAt none := by
  cases newline with
  | true => exact line t
  | false => exact write t

theorem braces (spacer newline isEmpty : Bool) (h : s.StopsAt level)
    (hempty : isEmpty = true → level = none) :
    (Mode.pretty.braces spacer newline isEmpty s).StopsAt (Source.nested level) := by
  have hspacer :
      (Script.onlyIf (spacer && !Mode.pretty.isMinified) (Script.write " ")).StopsAt none :=
    onlyIf _ (fun _ => write _) fun _ => rfl
  cases isEmpty with
  | true =>
    rw [hempty rfl]
    exact hspacer.before (ending newline _)
  | false =>
    have hopening : (Script.line "\x7b" ++ Script.deeper).Leads 0 1 none := (line _).before deeper
    exact hspacer.before ((hopening.nested h shallower).after (ending newline _))

theorem bracketed (t u : Text) (h : s.StopsAt level) :
    (bracketed .pretty t u s).StopsAt (Source.nested level) := by
  have hopening : (Script.line t ++ Script.deeper).Leads 0 1 none := (line _).before deeper
  have hclosing : (Script.shallower ++ Script.newline).Leads 1 0 none := ofPieces fun _ => rfl
  exact (hopening.nested h hclosing).after (write u)

theorem looseBody (h : s.StopsAt level) :
    (looseBody .pretty s).StopsAt (Source.nested level) := by
  have hopening : (Script.newline ++ Script.deeper).Leads 0 1 none := ofPieces fun _ => rfl
  exact hopening.nested h shallower

end Script.Leads

/-! ### Trees and their levels -/

section Trees

variable {P : Node Tree → Prop} {t : Tree} {missing : Script} {level : Option Nat}

variable (hP : ∀ n, P n → n.HasSlots)
  (hstops : ∀ n, P n → (nodeScript .pretty n).StopsAt (nodeLevel n))

include hstops

theorem stops_slot {c : Category} (h : NodeSlot P c t) (hmissing : missing.StopsAt level) :
    (scriptOr .pretty missing t).StopsAt (slotLevel level t) := by
  rcases h with rfl | ⟨n, rfl, -, hn⟩
  · exact hmissing
  · exact hstops n hn.here

theorem stops_item {l : Listing} (hl : l ≠ .names) (h : NodeSlot P l.category t)
    (habsent : (l.absent .pretty).StopsAt level) :
    (l.item .pretty t).StopsAt (slotLevel level t) := by
  have hopening : l.opening.StopsAt none := by
    cases l with
    | operands token => exact .write token
    | indices => exact .write _
    | names => exact .write _
    | _ => exact .empty
  have hclosing : l.closing.StopsAt none := by
    cases l with
    | indices => exact .write _
    | _ => exact .empty
  rw [Listing.item_of_ne hl]
  exact (hopening.before (.enclosedIf _ (stops_slot hstops h habsent))).after hclosing

include hP

theorem stops_items {l : Listing} (hl : l ≠ .names) (habsent : (l.absent .pretty).StopsAt level)
    {items : List Tree} (h : ∀ item ∈ items, NodeSlot P l.category item) (first : Bool) :
    (itemScripts .pretty l first items).StopsAt (itemsLevel level items) := by
  have hbetween : (l.between .pretty).StopsAt none := by
    cases l with
    | arguments owner => exact .write _
    | expressions => exact .write _
    | params owner => exact .write _
    | elements => exact .line _
    | properties => exact .line _
    | declarators inline => cases inline <;> exact .ofPieces fun _ => rfl
    | _ => exact .empty
  induction items generalizing first with
  | nil => exact .empty
  | cons t rest ih =>
    rw [itemScripts_cons hP first rest (h t List.mem_cons_self), itemsLevel]
    have hitem := stops_item hstops hl (h t List.mem_cons_self) habsent
    have hrest := ih (fun item hitem => h item (List.mem_cons_of_mem t hitem)) false
    have hfirst : (onlyIf (!first) (l.between .pretty)).StopsAt none :=
      .onlyIf _ (fun _ => hbetween) fun _ => rfl
    exact (hfirst.before hitem).append hrest

theorem stops_list {l : Listing} (hl : l ≠ .names) (habsent : (l.absent .pretty).StopsAt level)
    (h : ListSlot P l.category t) : (listScript .pretty l t).StopsAt (listLevel level t) := by
  obtain ⟨items, rfl, hitems⟩ := h
  exact stops_items hP hstops hl habsent hitems true

theorem stops_statements (h : ListSlot P .statement t) :
    (listScript .pretty .statements t).StopsAt (listLevel none t) :=
  stops_list hP hstops (l := .statements) (by simp) (.line _) h

omit hP hstops in
theorem stops_writeValue (t : Tree) : (writeValue t).StopsAt none := by
  unfold writeValue
  split
  · exact .write _
  · split <;> exact .ofPieces fun _ => rfl

omit hP hstops in
theorem stops_indexName (h : NodeSlot P .expression t) :
    (indexName t).StopsAt (if t.kind? = some .identifier then none else some 0) := by
  rcases h with rfl | ⟨n, rfl, -, -⟩
  · exact .fail _
  · by_cases hkind : (Tree.node n).kind? = some .identifier
    · rw [if_pos hkind]
      cases n with
      | identifier name => exact .before (.write _) (stops_writeValue name)
      | _ => cases hkind
    · rw [if_neg hkind, indexName_node hkind]
      exact .fail _

omit hP hstops in
theorem stops_names {items : List Tree} (h : ∀ item ∈ items, NodeSlot P .expression item)
    (first : Bool) :
    (itemScripts .pretty .names first items).StopsAt (namesLevel (.list items)) := by
  induction items generalizing first with
  | nil => exact .empty
  | cons t rest ih =>
    have hbetween : (onlyIf (!first) (Listing.names.between .pretty)).StopsAt none :=
      .onlyIf _ (fun _ => .empty) fun _ => rfl
    have hname := stops_indexName (h t List.mem_cons_self)
    have hrest := ih (fun item hitem => h item (List.mem_cons_of_mem t hitem)) false
    have hlevel : namesLevel (.list (t :: rest)) =
        (if t.kind? = some .identifier then none else some 0).or (namesLevel (.list rest)) := by
      by_cases hkind : t.kind? = some .identifier <;> simp [namesLevel, hkind]
    rw [hlevel]
    exact (hbetween.before hname).append hrest

omit hP hstops in
theorem listLevel_of_empty {c : Category} (h : ListSlot P c t) (hempty : (!t.isTrue) = true) :
    listLevel level t = none := by
  obtain ⟨items, rfl, -⟩ := h
  cases items with
  | nil => rfl
  | cons first rest => cases hempty

omit hP hstops in
theorem slotLevel_of_missing (h : (!t.isMissing) = false) : slotLevel level t = level := by
  cases t with
  | missing => rfl
  | _ => cases h

/-- Statements between braces. -/
theorem stops_braces (spacer newline : Bool) (h : ListSlot P .statement t) :
    (Mode.pretty.braces spacer newline (!t.isTrue) (listScript .pretty .statements t)).StopsAt
      (nested (listLevel none t)) :=
  .braces _ _ _ (stops_statements hP hstops h) (listLevel_of_empty h)

theorem stops_body (newline beforeElse : Bool) (h : NodeSlot P .statement t) :
    (bodyScript .pretty newline beforeElse t).StopsAt (bodyLevel t) := by
  obtain ⟨takes, htakes⟩ := takesElse_ok (h.hasSlots hP) .pretty
  rcases h with rfl | ⟨n, rfl, -, hn⟩
  · exact .looseBody (.line _)
  · have hnode := hstops n hn.here
    by_cases hblock : ∃ body, n = .blockStatement body
    · obtain ⟨body, rfl⟩ := hblock
      exact stops_braces hP hstops true newline (hn.filled hP)
    · have hlevel : bodyLevel (.node n) = nested (nodeLevel n) := by
        rw [bodyLevel]
        exact fun body heq => hblock ⟨body, heq⟩
      rw [hlevel, bodyScript]
      · obtain ⟨encloses, hencloses⟩ :
            ∃ b, (if beforeElse then takesElse .pretty (.node n) else .ok false) = .ok b := by
          split
          · exact ⟨takes, htakes⟩
          · exact ⟨false, rfl⟩
        rw [hencloses, given_ok]
        split
        · exact .braces _ _ _ hnode fun hempty => absurd hempty Bool.false_ne_true
        · exact .looseBody hnode
      · exact fun body heq => hblock ⟨body, heq⟩

theorem stops_else (h : NodeSlot P .statement t) :
    (elseScript .pretty t).StopsAt (elseLevel t) := by
  rcases h with rfl | ⟨n, rfl, -, hn⟩
  · exact .looseBody (.line _)
  · have hnode := hstops n hn.here
    by_cases hblock : ∃ body, n = .blockStatement body
    · obtain ⟨body, rfl⟩ := hblock
      exact stops_braces hP hstops true true (hn.filled hP)
    · rw [elseScript, elseLevel]
      · split
        · exact .before (.write _) hnode
        · exact .looseBody hnode
      · exact fun body heq => hblock ⟨body, heq⟩
      · exact fun body heq => hblock ⟨body, heq⟩

theorem stops_block (newline : Bool) (h : BlockSlot P t) :
    (blockPart .pretty newline t).StopsAt (blockLevel t) := by
  rcases h with rfl | ⟨body, rfl, hbody⟩
  · exact .fail _
  · exact stops_braces hP hstops true newline hbody

theorem stops_catchFrame {param body : Tree} (newline : Bool)
    (hparam : NodeSlot P .identifier param) (hbody : ListSlot P .statement body) :
    (catchFrame .pretty newline (!body.isTrue)
      (scriptOr .pretty (absent "CatchClause" "param") param)
      (listScript .pretty .statements body)).StopsAt
        ((slotLevel (some 0) param).or (nested (listLevel none body))) :=
  .append (.after (.before (.write _) (stops_slot hstops hparam (.fail _))) (.write _))
    (stops_braces hP hstops true newline hbody)

theorem stops_handler (newline : Bool) (h : NodeSlot P .catchClause t) :
    (handlerScript .pretty newline t).StopsAt (slotLevel none t) := by
  rcases h.of_kind rfl (by decide) with rfl | ⟨n, rfl, hn, hthroughout⟩
  · exact .empty
  · cases n with
    | catchClause param body =>
      obtain ⟨hparam, hbody⟩ : NodeSlot P .identifier param ∧ ListSlot P .statement body :=
        hthroughout.filled hP
      exact .before (.write _) (stops_catchFrame hP hstops newline hparam hbody)
    | _ => cases hn

omit hP in
theorem stops_key (h : ChoiceSlot P .literal .identifier t) :
    (keyScript .pretty t).StopsAt (keyLevel t) := by
  rcases h with rfl | ⟨n, rfl, -, hn⟩ | ⟨n, rfl, -, hn⟩
  · exact .fail _
  · exact hstops n hn.here
  · exact hstops n hn.here

theorem stops_params (owner : String) (h : ListSlot P .identifier t) :
    (listScript .pretty (.params owner) t).StopsAt (listLevel (some 0) t) :=
  stops_list hP hstops (l := .params owner) (by simp) (.fail _) h

/-- The parameters and the statements of a function, after its head. -/
theorem stops_function {params body : Tree} {owner : String} {head : Script} (newline : Bool)
    (hhead : head.StopsAt level) (hparams : ListSlot P .identifier params)
    (hbody : ListSlot P .statement body) :
    (head ++ write "(" ++ listScript .pretty (.params owner) params ++ Mode.pretty.token ")" ") " ++
      Mode.pretty.braces false newline (!body.isTrue) (listScript .pretty .statements body)).StopsAt
        ((level.or (listLevel (some 0) params)).or (nested (listLevel none body))) :=
  .append (.after (.append (.after hhead (.write _)) (stops_params hP hstops owner hparams))
    (.write _)) (stops_braces hP hstops false newline hbody)

omit hP hstops in
theorem accessorLevel_zero (t : Tree) : accessorLevel (some 0) t = some 0 := by
  unfold accessorLevel
  split <;> rfl

theorem stops_accessor {key : Script} (word : Text) (hkey : key.StopsAt level)
    (h : NodeSlot P .expression t) :
    (accessorScript .pretty word key t).StopsAt (accessorLevel level t) := by
  rcases h with rfl | ⟨n, rfl, -, hn⟩
  · exact .fail _
  · cases n with
    | functionExpression id params body =>
      obtain ⟨-, hparams, hbody⟩ : NodeSlot P .identifier id ∧ ListSlot P .identifier params ∧
        ListSlot P .statement body := hn.filled hP
      rw [accessorLevel, ← Option.or_assoc]
      exact stops_function hP hstops false (.before (.write _) hkey) hparams hbody
    | _ => exact .fail _

theorem stops_declarators (inline : Bool) (h : ListSlot P .variableDeclarator t) :
    (listScript .pretty (.declarators inline) t).StopsAt (listLevel (some 0) t) :=
  stops_list hP hstops (l := .declarators inline) (by simp) (.fail _) h

theorem stops_headDeclaration {n : Node Tree} (hkind : n.kind? = some .variableDeclaration)
    (h : n.Filled P) (owner : String) :
    (headDeclaration .pretty owner (.node n)).StopsAt (headLevel (0 < ·) (.node n)) := by
  obtain ⟨items, kind, word, rfl, hword, hlist⟩ := declaration_cases hkind h
  cases items with
  | nil => exact .fail _
  | cons first rest =>
    have htrue : (Tree.list (first :: rest)).isTrue = true := rfl
    rw [headDeclaration, headLevel, hword, given_ok]
    exact .before (.write _) (stops_declarators hP hstops true hlist)

theorem stops_forInDeclaration {n : Node Tree} (hkind : n.kind? = some .variableDeclaration)
    (h : n.Filled P) :
    (forInDeclaration .pretty (.node n)).StopsAt (headLevel (· = 1) (.node n)) := by
  obtain ⟨items, kind, word, rfl, hword, hlist⟩ := declaration_cases hkind h
  have hsize : used (Tree.list items).size = .ok items.length := rfl
  rw [forInDeclaration, headLevel, hsize, given_ok]
  by_cases hone : items.length = 1
  · rw [if_neg (not_not.mpr hone), if_pos (decide_eq_true hone), hword, given_ok]
    exact .before (.write _) (stops_declarators hP hstops true hlist)
  · rw [if_pos hone, if_neg (by simpa using hone)]
    exact .fail _

theorem stops_forInit (h : ChoiceSlot P .variableDeclaration .expression t) :
    (forInit .pretty t).StopsAt (choiceLevel none (0 < ·) t) := by
  rcases h with rfl | ⟨n, rfl, hkind, hn⟩ | ⟨n, rfl, -, hn⟩
  · exact .empty
  · exact stops_headDeclaration hP hstops hkind (hn.filled hP) _
  · exact hstops n hn.here

theorem stops_forInLeft (h : ChoiceSlot P .variableDeclaration .identifier t) :
    (forInLeft .pretty t).StopsAt (choiceLevel (some 0) (· = 1) t) := by
  rcases h with rfl | ⟨n, rfl, hkind, hn⟩ | ⟨n, rfl, -, hn⟩
  · exact .fail _
  · exact stops_forInDeclaration hP hstops hkind (hn.filled hP)
  · exact hstops n hn.here

omit hP in
/-- An expression in a place, enclosed if the place refuses it. -/
theorem stops_placed (refused : Bool) (h : NodeSlot P .expression t) (owner field : String) :
    (enclosedIf refused (scriptOr .pretty (absent owner field) t)).StopsAt (slotLevel (some 0) t) :=
  .enclosedIf _ (stops_slot hstops h (.fail _))

omit hstops in
theorem stops_optionalName (h : NodeSlot P .identifier t) : (optionalName t).StopsAt none := by
  rcases h.name hP with rfl | ⟨name, rfl⟩
  · exact .empty
  · exact .before (.write _) (.write name)

theorem stops_arguments {arguments : Tree} {owner : String} {callee : Script}
    (hcallee : callee.StopsAt level) (harguments : ListSlot P .expression arguments) :
    (callee ++ write "(" ++ listScript .pretty (.arguments owner) arguments ++ write ")").StopsAt
      (level.or (listLevel (some 0) arguments)) :=
  .after (.append (.after hcallee (.write _))
    (stops_list hP hstops (l := .arguments owner) (by simp) (.fail _) harguments)) (.write _)

theorem stops_if {test consequent alternate : Tree} (htest : NodeSlot P .expression test)
    (hconsequent : NodeSlot P .statement consequent)
    (halternate : NodeSlot P .statement alternate) :
    (nodeScript .pretty (.ifStatement test consequent alternate)).StopsAt
      (nodeLevel (.ifStatement test consequent alternate)) := by
  obtain ⟨braces, hbraces⟩ := hasBraces_ok (m := .pretty) hP true hconsequent
  have hspacer : (Mode.pretty.prettyOnly (onlyIf braces (write " "))).StopsAt none :=
    .onlyIf _ (fun _ => .onlyIf _ (fun _ => .write _) fun _ => rfl) fun _ => rfl
  have helse := Leads.before (hspacer.before (.write "else")) (stops_else hP hstops halternate)
  have hpresent : (!alternate.isMissing) = false → elseLevel alternate = none := by
    intro hmissing
    rcases halternate with rfl | ⟨n, rfl, -, -⟩
    · rfl
    · cases hmissing
  have hunfolded : becomesConditional .pretty test consequent alternate = .ok false := rfl
  rw [nodeScript, hunfolded, given_ok, if_neg (by simp), hbraces, given_ok]
  exact .append (.append (.after (.before (.write _) (stops_slot hstops htest (.fail _)))
    (.write _)) (stops_body hP hstops _ _ hconsequent)) (.onlyIf _ (fun _ => helse) hpresent)

theorem stops_try {block handler finalizer : Tree} (hblock : BlockSlot P block)
    (hhandler : NodeSlot P .catchClause handler) (hfinalizer : BlockSlot P finalizer) :
    (nodeScript .pretty (.tryStatement block handler finalizer)).StopsAt
      (nodeLevel (.tryStatement block handler finalizer)) := by
  rw [nodeScript, nodeLevel]
  cases hguard : Tree.checkTry handler finalizer with
  | error e => exact .fail e
  | ok _ =>
    cases hfinal : finalizer.hasFinalizer with
    | error e => exact .fail e
    | ok final =>
      have hparts := Leads.append (.before (.write "try") (stops_block hP hstops false hblock))
        (stops_handler hP hstops (!final) hhandler)
      have hlast := Leads.before (.write " finally") (stops_block hP hstops true hfinalizer)
      cases final with
      | true => exact hparts.append hlast
      | false => exact hparts.append .empty

theorem stops_property {key value : Tree} (kind : PropertyKind)
    (hkey : ChoiceSlot P .literal .identifier key) (hvalue : NodeSlot P .expression value) :
    (nodeScript .pretty (.property key value (.ofMember (.propertyKind kind)))).StopsAt
      (nodeLevel (.property key value (.ofMember (.propertyKind kind)))) := by
  have hkeyScript := stops_key hstops hkey
  obtain ⟨word, hword⟩ : ∃ word, kindWord (.ofMember (.propertyKind kind)) = .ok word := ⟨_, rfl⟩
  by_cases hempty : key = .choice .empty
  · have hlevel : nodeLevel (.property key value (.ofMember (.propertyKind kind))) = some 0 := by
      rw [hempty, nodeLevel, keyLevel, accessorLevel_zero, Option.some_or, ite_self]
      all_goals simp
    rw [hlevel, hempty]
    exact .fail _
  · rw [nodeScript, nodeLevel]
    · split
      · exact .append (.after hkeyScript (.write _)) (stops_placed hstops _ hvalue _ _)
      · rw [hword, given_ok]
        exact stops_accessor hP hstops word hkeyScript hvalue
    · exact hempty

/-- The script of a node stops at the level of its first fault if those of its parts do. -/
theorem stops_node {n : Node Tree} (h : n.Filled P) :
    (nodeScript .pretty n).StopsAt (nodeLevel n) := by
  cases n with
  | bare cls => exact .fail _
  | program body => exact stops_statements hP hstops h
  | identifier name => exact stops_writeValue name
  | literal value => exact .ofExcept _
  | thisExpression => exact .write _
  | arrayExpression elements =>
    have helements : ListSlot P .expression elements := h
    have hlist := stops_list hP hstops (l := .elements) (by simp) .empty helements
    rw [nodeScript, nodeLevel]
    split
    · next hempty =>
      rw [listLevel_of_empty helements hempty]
      exact .write _
    · exact .bracketed _ _ (hlist.after (.onlyIf _ (fun _ => .write _) fun _ => rfl))
  | objectExpression properties =>
    have hproperties : ListSlot P .property properties := h
    rw [nodeScript, nodeLevel]
    split
    · next hempty =>
      rw [listLevel_of_empty hproperties hempty]
      exact .write _
    · exact .bracketed _ _ (stops_list hP hstops (l := .properties) (by simp) (.fail _) hproperties)
  | functionExpression id params body =>
    obtain ⟨hid, hparams, hbody⟩ : NodeSlot P .identifier id ∧ ListSlot P .identifier params ∧
      ListSlot P .statement body := h
    exact stops_function hP hstops false (.before (.write _) (stops_optionalName hP hid)) hparams
      hbody
  | unaryExpression operator argument =>
    obtain ⟨⟨op, rfl⟩, hargument⟩ : (∃ op, operator = .ofMember (.unaryOperator op)) ∧
      NodeSlot P .expression argument := h
    have hoperand := stops_placed hstops (Place.operand.refuses argument) hargument
      "UnaryExpression" "argument"
    rw [nodeScript_unary]
    split
    · exact .before (.write _) hoperand
    · exact .after hoperand (.write _)
  | binaryExpression left operator right =>
    obtain ⟨⟨op, rfl⟩, hleft, hright⟩ : (∃ op, operator = .ofMember (.binaryOperator op)) ∧
      NodeSlot P .expression left ∧ ListSlot P .expression right := h
    obtain ⟨token, htoken⟩ :
        ∃ token, chainToken .pretty (.ofMember (.binaryOperator op)) = .ok token :=
      ⟨_, rfl⟩
    have hlist := stops_list hP hstops (l := .operands token) (by simp) (.fail _) hright
    rw [nodeScript, htoken, given_ok]
    exact .after (.append (.before (.write _) (stops_placed hstops _ hleft _ _)) hlist) (.write _)
  | memberExpression object indices computed =>
    obtain ⟨hobject, ⟨items, rfl, hitems⟩, -⟩ : NodeSlot P .expression object ∧
      ListSlot P .expression indices ∧ _ := h
    have hlist : (listScript .pretty (if computed.isTrue then .indices else .names)
        (.list items)).StopsAt
          (if computed.isTrue then listLevel (some 0) (.list items)
            else namesLevel (.list items)) := by
      split
      · exact stops_items hP hstops (l := .indices) (by simp) (.fail _) hitems true
      · exact stops_names hitems true
    exact .append (stops_placed hstops _ hobject _ _) hlist
  | conditionalExpression test consequent alternate =>
    obtain ⟨htest, hconsequent, halternate⟩ : NodeSlot P .expression test ∧
      NodeSlot P .expression consequent ∧ NodeSlot P .expression alternate := h
    exact .append (.after (.append (.after (stops_placed hstops _ htest _ _) (.write _))
      (stops_placed hstops _ hconsequent _ _)) (.write _)) (stops_placed hstops _ halternate _ _)
  | callExpression callee arguments =>
    obtain ⟨hcallee, harguments⟩ : NodeSlot P .expression callee ∧
      ListSlot P .expression arguments := h
    exact stops_arguments hP hstops (stops_placed hstops _ hcallee _ _) harguments
  | newExpression callee arguments =>
    obtain ⟨hcallee, harguments⟩ : NodeSlot P .expression callee ∧
      ListSlot P .expression arguments := h
    exact stops_arguments hP hstops (.before (.write _) (stops_placed hstops _ hcallee _ _))
      harguments
  | sequenceExpression expressions =>
    exact stops_list hP hstops (l := .expressions) (by simp) (.fail _) h
  | blockStatement body => exact stops_braces hP hstops false true h
  | expressionStatement expression =>
    have hexpression : NodeSlot P .expression expression := h
    obtain ⟨opens, hopens⟩ := opensLikeStatement_ok (hexpression.hasSlots hP)
    rw [nodeScript, hopens, given_ok]
    exact .after (stops_placed hstops _ hexpression _ _) (.line _)
  | debuggerStatement => exact .line _
  | withStatement object body =>
    obtain ⟨hobject, hbody⟩ : NodeSlot P .expression object ∧ NodeSlot P .statement body := h
    exact .append (.after (.before (.write _) (stops_slot hstops hobject (.fail _))) (.write _))
      (stops_body hP hstops _ _ hbody)
  | returnStatement argument =>
    have hargument : NodeSlot P .expression argument := h
    have hvalue := Leads.before (.write " ") (stops_slot hstops hargument .empty)
    exact .after (.before (.write _) (.onlyIf _ (fun _ => hvalue) slotLevel_of_missing)) (.line _)
  | labeledStatement label body =>
    obtain ⟨hlabel, hbody⟩ : NodeSlot P .identifier label ∧ NodeSlot P .statement body := h
    exact .append (.after (stops_slot hstops hlabel (.fail _)) (.line _))
      (stops_slot hstops hbody (.line _))
  | breakStatement label =>
    exact .after (.before (.write _) (stops_optionalName hP h)) (.line _)
  | continueStatement label =>
    exact .after (.before (.write _) (stops_optionalName hP h)) (.line _)
  | ifStatement test consequent alternate =>
    obtain ⟨htest, hconsequent, halternate⟩ : NodeSlot P .expression test ∧
      NodeSlot P .statement consequent ∧ NodeSlot P .statement alternate := h
    exact stops_if hP hstops htest hconsequent halternate
  | switchStatement discriminant cases =>
    obtain ⟨hdiscriminant, hcases⟩ : NodeSlot P .expression discriminant ∧
      ListSlot P .switchCase cases := h
    have hlist := stops_list hP hstops (l := .cases) (by simp) (.fail _) hcases
    have hopening : (newline ++ deeper).Leads 0 1 none := .ofPieces fun _ => rfl
    exact .after (.nested (.after (.after (.before (.write _)
      (stops_slot hstops hdiscriminant (.fail _))) (.write _)) hopening) hlist .shallower) (.line _)
  | switchCase test body =>
    obtain ⟨htest, hbody⟩ : NodeSlot P .expression test ∧ ListSlot P .statement body := h
    have hword : (if test.isMissing then write "default"
        else write "case " ++ scriptOr .pretty empty test).StopsAt (slotLevel none test) := by
      rcases htest with rfl | ⟨n, rfl, hkind, hn⟩
      · exact .write _
      · exact .before (.write _) (hstops n hn.here)
    exact .nested (.after (hword.after (.line _)) .deeper) (stops_statements hP hstops hbody)
      .shallower
  | throwStatement argument =>
    have hargument : NodeSlot P .expression argument := h
    exact .after (.before (.write _) (stops_slot hstops hargument (.fail _))) (.line _)
  | tryStatement block handler finalizer =>
    obtain ⟨hblock, hhandler, hfinalizer⟩ : BlockSlot P block ∧ NodeSlot P .catchClause handler ∧
      BlockSlot P finalizer := h
    exact stops_try hP hstops hblock hhandler hfinalizer
  | catchClause param body =>
    obtain ⟨hparam, hbody⟩ : NodeSlot P .identifier param ∧ ListSlot P .statement body := h
    exact stops_catchFrame hP hstops true hparam hbody
  | whileStatement test body =>
    obtain ⟨htest, hbody⟩ : NodeSlot P .expression test ∧ NodeSlot P .statement body := h
    exact .append (.after (.before (.write _) (stops_slot hstops htest (.fail _))) (.write _))
      (stops_body hP hstops _ _ hbody)
  | doWhileStatement body test =>
    obtain ⟨hbody, htest⟩ : NodeSlot P .statement body ∧ NodeSlot P .expression test := h
    obtain ⟨braces, hbraces⟩ := hasBraces_ok (m := .pretty) hP false hbody
    rw [nodeScript, hbraces, given_ok]
    exact .after (.append (.after (.before (.write _) (stops_body hP hstops _ _ hbody)) (.write _))
      (stops_slot hstops htest (.fail _))) (.line _)
  | forStatement init test update body =>
    obtain ⟨hinit, htest, hupdate, hbody⟩ :
      ChoiceSlot P .variableDeclaration .expression init ∧ NodeSlot P .expression test ∧
      NodeSlot P .expression update ∧ NodeSlot P .statement body := h
    exact .append (.after (.append (.after (.append (.after (.before (.write _)
      (stops_forInit hP hstops hinit)) (.write _)) (stops_slot hstops htest .empty)) (.write _))
      (stops_slot hstops hupdate .empty)) (.write _)) (stops_body hP hstops _ _ hbody)
  | forInStatement left right body =>
    obtain ⟨hleft, hright, hbody⟩ : ChoiceSlot P .variableDeclaration .identifier left ∧
      NodeSlot P .expression right ∧ NodeSlot P .statement body := h
    exact .append (.after (.append (.after (.before (.write _)
      (stops_forInLeft hP hstops hleft)) (.write _)) (stops_slot hstops hright (.fail _)))
      (.write _)) (stops_body hP hstops _ _ hbody)
  | functionDeclaration id params body =>
    obtain ⟨hid, hparams, hbody⟩ : NodeSlot P .identifier id ∧ ListSlot P .identifier params ∧
      ListSlot P .statement body := h
    exact stops_function hP hstops true (.before (.write _) (stops_slot hstops hid (.fail _)))
      hparams hbody
  | variableDeclaration declarations kind =>
    obtain ⟨items, kind, word, heq, hword, hlist⟩ := declaration_cases rfl h
    obtain ⟨rfl, rfl⟩ := Node.variableDeclaration.inj heq
    cases items with
    | nil => exact .fail _
    | cons first rest =>
      have htrue : (Tree.list (first :: rest)).isTrue = true := rfl
      rw [nodeScript, nodeLevel, if_pos htrue, htrue, hword, given_ok]
      exact .after (.nested (.before (.write _) .deeper) (stops_declarators hP hstops false hlist)
        .shallower) (.line _)
  | variableDeclarator id init =>
    obtain ⟨hid, hinit⟩ : NodeSlot P .identifier id ∧ NodeSlot P .expression init := h
    have hvalue := Leads.before (.write " = ")
      (.enclosedIf (Place.item.refuses init) (stops_slot hstops hinit .empty))
    exact .append (stops_slot hstops hid (.fail _))
      (.onlyIf _ (fun _ => hvalue) slotLevel_of_missing)
  | property key value kind =>
    obtain ⟨hkey, hvalue, kind, rfl⟩ : ChoiceSlot P .literal .identifier key ∧
      NodeSlot P .expression value ∧ ∃ k, kind = .ofMember (.propertyKind k) := h
    exact stops_property hP hstops kind hkey hvalue

omit hP hstops in
/-- The script of a tree that is in place stops at the level of its first fault. -/
theorem stops_script (h : t.Throughout Node.HasSlots) :
    (script .pretty t).StopsAt (faultLevel t) := by
  have hthroughout : t.Throughout fun n =>
      n.HasSlots ∧ (nodeScript .pretty n).StopsAt (nodeLevel n) :=
    h.strengthen (fun _ hn => hn) fun _ _ hn => stops_node (fun _ hn => hn.1) (fun _ hn => hn.2) hn
  cases t with
  | missing => exact .line _
  | node n => exact hthroughout.here.2
  | _ => exact .fail _

end Trees

/-! ### Positions that are reached -/

section Positions

variable {s : PrintSettings} {p q : Position}

/-- Wherever it may be left off before a value is met, nothing has been written or a text was
written last, and so at the end if no value is met. -/
inductive PlainUpTo (q : Position) : List Laid → Prop
  | nil (h : q.IsPlain) : PlainUpTo q []
  | cons {l : Laid} {rest : List Laid} (h : l.position.IsPlain) (hrest : PlainUpTo q rest) :
      PlainUpTo q (l :: rest)
  | value {l : Laid} {rest : List Laid} {v : Foreign} (h : l.position.IsPlain)
      (hvalue : l.chunk = .value v) : PlainUpTo q (l :: rest)

theorem PlainUpTo.append {a b : List Laid} (ha : ∀ l ∈ a, l.position.IsPlain)
    (hb : PlainUpTo q b) : PlainUpTo q (a ++ b) := by
  induction a with
  | nil => exact hb
  | cons l rest ih =>
    exact .cons (ha l List.mem_cons_self) (ih fun l' hl => ha l' (List.mem_cons_of_mem l hl))

/-- What follows a value does not matter. -/
theorem PlainUpTo.of_value {a : List Laid} (ha : ∀ l ∈ a, l.position.IsPlain) {v : Foreign}
    {position : Position} (hv : ⟨.value v, position⟩ ∈ a) (b : List Laid) :
    PlainUpTo q (a ++ b) := by
  induction a with
  | nil => cases hv
  | cons l rest ih =>
    have hl := ha l List.mem_cons_self
    rcases List.mem_cons.mp hv with rfl | hv
    · exact .value hl rfl
    · exact .cons hl (ih (fun l' hl' => ha l' (List.mem_cons_of_mem l hl')) hv)

theorem PlainUpTo.deliver {layout : Layout} {laid : List Laid}
    (h : PlainUpTo layout.position laid) : (deliver s layout laid).position.IsPlain := by
  induction h with
  | nil h => exact h
  | @cons l rest h _ ih =>
    rw [Source.deliver]
    split
    · exact h
    · exact h
    · exact ih
  | @value l rest v h hvalue =>
    rw [Source.deliver, hvalue]
    exact h

namespace Position

theorem isPlain_spacing (hp : p.IsPlain) {first : Except Misuse Edge} {space : List Laid}
    (h : p.spacing first = .ok space) : ∀ l ∈ space, l.position.IsPlain := by
  unfold spacing at h
  split at h
  · obtain rfl := Except.ok.inj h
    simp
  · simp only [bind_eq_ok] at h
    obtain ⟨edge, -, joins, -, h⟩ := h
    split at h
    · obtain rfl := Except.ok.inj h
      simpa using hp
    · obtain rfl := Except.ok.inj h
      simp

theorem isPlain_put (hp : p.IsPlain) (chunk : Chunk) (first : Except Misuse Edge)
    (last : Except Misuse (Option Edge)) :
    ∀ l ∈ (p.put chunk first last).laid, l.position.IsPlain := by
  have hindented := isPlain_indented hp
  have hindentation : ∀ l ∈ p.indentation, l.position.IsPlain := by
    have hbegun : p.begun.IsPlain := hp
    unfold indentation
    split
    · simpa using hbegun
    · simp
  cases hspace : p.indented.spacing first with
  | error e => simpa [put, hspace] using hindentation
  | ok space =>
    have hlaid : ∀ l ∈ p.indentation ++ space ++ [⟨chunk, p.indented⟩], l.position.IsPlain := by
      intro l hl
      simp only [List.mem_append, List.mem_singleton] at hl
      rcases hl with (hl | hl) | rfl
      · exact hindentation l hl
      · exact isPlain_spacing hindented hspace l hl
      · exact hindented
    cases last <;> simpa [put, hspace] using hlaid

/-- A value is laid out, or the position stays as it was. -/
theorem put_value (hp : p.IsPlain) (v : Foreign) (first : Except Misuse Edge)
    (last : Except Misuse (Option Edge)) :
    (p.put (.value v) first last).position.IsPlain ∨
      ⟨.value v, p.indented⟩ ∈ (p.put (.value v) first last).laid := by
  cases hspace : p.indented.spacing first with
  | error e =>
    refine .inl ?_
    simpa [put, hspace] using isPlain_indented hp
  | ok space => cases last <;> exact .inr (by simp [put, hspace])

/-- One instruction is left off at plain positions only, and leads to another one unless it lays
out a value. -/
theorem step_positions (hp : p.IsPlain) (piece : Piece) :
    (∀ l ∈ (p.step piece).laid, l.position.IsPlain) ∧
      ((p.step piece).position.IsPlain ∨
        ∃ v position, ⟨.value v, position⟩ ∈ (p.step piece).laid) := by
  cases piece with
  | text t =>
    refine ⟨?_, .inl (write_isPlain hp t).position⟩
    rw [step, write]
    split
    · exact isPlain_put hp _ _ _
    · simp
  | value v =>
    rw [step, writeValue]
    split
    · exact ⟨isPlain_put hp _ _ _, (put_value hp _ _ _).imp_right fun h => ⟨_, _, h⟩⟩
    · exact ⟨isPlain_put hp _ _ _, (put_value hp _ _ _).imp_right fun h => ⟨_, _, h⟩⟩
  | lineBreak =>
    exact ⟨by simpa [step] using hp, .inl (isPlain_point { p with lineStart := true } _)⟩
  | deeper => exact ⟨by simp [step], .inl hp⟩
  | shallower => exact ⟨by simp [step], .inl hp⟩

theorem plainUpTo_run (hp : p.IsPlain) (pieces : List Piece) :
    PlainUpTo (p.run pieces).position (p.run pieces).laid := by
  induction pieces generalizing p with
  | nil => exact .nil hp
  | cons piece rest ih =>
    obtain ⟨hlaid, hposition⟩ := step_positions hp piece
    cases hfailure : (p.step piece).failure with
    | some e =>
      have hrun : p.run (piece :: rest) = p.step piece := by simp [run, hfailure]
      rw [hrun, ← List.append_nil (p.step piece).laid]
      rcases hposition with hposition | ⟨v, position, hv⟩
      · exact .append hlaid (.nil hposition)
      · exact .of_value hlaid hv []
    | none =>
      have hrun : p.run (piece :: rest) = { (p.step piece).position.run rest with
          laid := (p.step piece).laid ++ ((p.step piece).position.run rest).laid } := by
        simp [run, hfailure]
      rw [hrun]
      rcases hposition with hposition | ⟨v, position, hv⟩
      · exact .append hlaid (ih hposition)
      · exact .of_value hlaid hv _

/-- Whatever is printed, the position stays plain. -/
theorem isPlain_deliver (hp : p.IsPlain) (s : PrintSettings) (t : Tree) :
    (p.deliver s t).position.IsPlain :=
  have hrun : PlainUpTo (p.print s.mode t).position (p.print s.mode t).laid := plainUpTo_run hp _
  hrun.deliver

end Position

def positionAfter (s : PrintSettings) (p : Position) (ts : List Tree) : Position :=
  ts.foldl (fun p t => (p.deliver s t).position) p

theorem isPlain_positionAfter (hp : p.IsPlain) (ts : List Tree) :
    (positionAfter s p ts).IsPlain := by
  induction ts generalizing p with
  | nil => exact hp
  | cons t ts ih => exact ih (Position.isPlain_deliver hp s t)

/-- What is printed next is printed from the position after what was printed before. -/
theorem printAll_append (ts us : List Tree) :
    printAll s p (ts ++ us) = printAll s p ts ++ printAll s (positionAfter s p ts) us := by
  induction ts generalizing p with
  | nil => rfl
  | cons t ts ih => rw [List.cons_append, printAll, ih, printAll]; rfl

/-- Minified, nothing leads to another depth. -/
theorem depthAfter_minified {pieces : List Piece}
    (h : ∀ piece ∈ pieces, piece.isAllowed .minified = true) (d : Nat) :
    depthAfter d pieces = d := by
  induction pieces with
  | nil => rfl
  | cons piece rest ih =>
    have hrest := ih fun piece' hpiece => h piece' (List.mem_cons_of_mem piece hpiece)
    cases piece with
    | text t => exact hrest
    | _ => cases h _ List.mem_cons_self

theorem depthAfter_script {m : Mode} {t : Tree} (ht : t.Throughout Node.HasSlots) (d : Nat) :
    depthAfter d (script m t).pieces =
      d + (if m.isMinified then 0 else (faultLevel t).getD 0) := by
  cases m with
  | pretty => exact (stops_script ht).depth d
  | minified => exact depthAfter_minified (level_script ht .minified).allowed d

theorem isSome_failure_script {m : Mode} {t : Tree} (ht : t.Throughout Node.HasSlots) :
    (script m t).failure.isSome = (faultLevel t).isSome := by
  rw [failure_script ht m, ← failure_script ht .pretty]
  exact (stops_script ht).failure

/-- One tree that is in place leads to the depth at which its first fault stands. -/
theorem depth_deliver (hs : s.HasTexts) (hp : p.IsPlain) {t : Tree}
    (ht : t.Throughout Node.HasSlots) :
    (p.deliver s t).position.depth =
      p.depth + (if s.mode.isMinified then 0 else (faultLevel t).getD 0) := by
  rw [Position.deliver_placed hs hp ht]
  exact (Position.run_isPlain hp (level_script ht s.mode).allowed).depth.trans
    (depthAfter_script ht p.depth)

/-- The levels add up over trees that are in place. -/
theorem depth_positionAfter (hs : s.HasTexts) (hp : p.IsPlain) {ts : List Tree}
    (hts : ∀ t ∈ ts, t.Throughout Node.HasSlots) :
    (positionAfter s p ts).depth =
      p.depth + (if s.mode.isMinified then 0 else (ts.map fun t => (faultLevel t).getD 0).sum) := by
  induction ts generalizing p with
  | nil => simp [positionAfter]
  | cons t ts ih =>
    have hrest := ih (Position.isPlain_deliver hp s t)
      fun t' ht => hts t' (List.mem_cons_of_mem t ht)
    have hfirst := depth_deliver hs hp (hts t List.mem_cons_self)
    have hcons : positionAfter s p (t :: ts) = positionAfter s (p.deliver s t).position ts := rfl
    rw [hcons, hrest, hfirst, List.map_cons, List.sum_cons]
    split <;> omega

end Positions

/-- Whatever was printed before, a tree that is in place leads to the depth at which its first
fault stands, and what is printed next starts there. So the depth is kept exactly if the tree is
printed, if the source is minified, or if no level is open where it fails. -/
theorem depth_kept_iff {s : PrintSettings} (hs : s.HasTexts) (ts : List Tree) {t : Tree}
    (ht : t.Throughout Node.HasSlots) :
    ∃ delivery, (∀ us, printAll s {} (ts ++ t :: us) =
        printAll s {} ts ++ delivery :: printAll s delivery.position us) ∧
      delivery.position.depth = (positionAfter s {} ts).depth +
        (if s.mode.isMinified then 0 else (faultLevel t).getD 0) ∧
      (delivery.position.depth = (positionAfter s {} ts).depth ↔
        delivery.failure = none ∨ s.mode = .minified ∨ faultLevel t = some 0) := by
  have hp : (positionAfter s {} ts).IsPlain := isPlain_positionAfter Position.isPlain_start ts
  have hdepth := depth_deliver hs hp ht
  have hfailure : ((positionAfter s {} ts).deliver s t).failure.isSome = (faultLevel t).isSome := by
    rw [Position.deliver_placed hs hp ht]
    exact isSome_failure_script ht
  refine ⟨(positionAfter s {} ts).deliver s t, fun us => printAll_append ts (t :: us), hdepth, ?_⟩
  rw [hdepth]
  cases hmode : s.mode with
  | minified => simp [Mode.isMinified]
  | pretty =>
    cases hlevel : faultLevel t with
    | none =>
      have hnone : ((positionAfter s {} ts).deliver s t).failure = none := by
        simpa [hlevel] using hfailure
      simp [hnone]
    | some level =>
      have hsome : ((positionAfter s {} ts).deliver s t).failure ≠ none := by
        intro hnone
        simp [hlevel, hnone] at hfailure
      simp [hsome, Mode.isMinified]

def openBlock : Tree :=
  .node (.blockStatement (.list [.node (.expressionStatement .missing)]))

theorem hasSlots_openBlock : openBlock.Throughout Node.HasSlots := by
  have hstatement : NodeSlot Node.HasSlots .statement (.node (.expressionStatement .missing)) :=
    .of_has rfl (hasSlots_of_filled (.inl rfl))
  exact hasSlots_of_filled ⟨_, rfl, by simpa using hstatement⟩

theorem depth_openBlock :
    (positionAfter {} {} [openBlock]).depth = 1 ∧ faultLevel openBlock = some 1 ∧
      ∃ delivery, printAll {} {} [openBlock, openBlock] = printAll {} {} [openBlock] ++ [delivery] ∧
        delivery.position.depth = 2 := by
  have hbefore : (positionAfter {} {} [openBlock]).depth = 1 := by decide
  have hlevel : faultLevel openBlock = some 1 := by decide
  obtain ⟨delivery, hprinted, hdepth, -⟩ :=
    depth_kept_iff (s := {}) ⟨⟨_, rfl⟩, ⟨_, rfl⟩⟩ [openBlock] hasSlots_openBlock
  rw [hbefore, hlevel] at hdepth
  exact ⟨hbefore, hlevel, delivery, hprinted [], hdepth⟩

/-- The level that a failed block leaves open indents what is printed after it. -/
theorem depth_not_kept :
    (printAll {} {} [openBlock, .node (.debuggerStatement)]).map
        (fun d => (d.text, d.position.depth)) =
        [(Text.ofString "\x7b\n", 1), (Text.ofString "    debugger;\n", 1)] ∧
      (printAll {} {} [.node (.debuggerStatement)]).map (fun d => (d.text, d.position.depth)) =
        [(Text.ofString "debugger;\n", 0)] := by
  decide

end ScriptTree.Source
