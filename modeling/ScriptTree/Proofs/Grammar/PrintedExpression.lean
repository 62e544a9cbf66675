import ScriptTree.Proofs.Exchange.Reading
import ScriptTree.Proofs.Grammar.Parenthesization
import Mathlib.Data.List.Forall2

/-!
Printed expressions are read back as they were meant. The tokens of a well-formed
expression derive the expression itself: operators keep their operands, accesses and calls
their objects, and what is derived is what the expression is written as.
-/

namespace ScriptTree.Grammar

open Source Exchange Lexical

def nameTree (x : Text) : Tree := .node (.identifier (.ofText x))

def functionTree (id : Option Text) (params : List Text) (body : List Tree) : Tree :=
  .node (.functionExpression (id.elim .missing nameTree) (.list (params.map nameTree)) (.list body))

structure Prints (m : Mode) (body : List Tree) : Prop where
  slots : ListSlot Node.HasSlots .statement (.list body)
  failure : (listScript m .statements (.list body)).failure = none

/-- The values of literals: nothing, truth values, texts, natural numbers that can be shown and
regular expressions of which the pattern can be one. -/
inductive IsScalar : Tree → Prop where
  | missing : IsScalar .missing
  | bool (b : Bool) : IsScalar (.atom (.bool b))
  | text (t : Text) : IsScalar (.atom (.text t))
  | number {n : Nat} (hn : n < 10 ^ Text.digitLimit) : IsScalar (.atom (.int n))
  | regex {pattern : Text} (flags : RegexFlags) (hpattern : IsPattern pattern) :
      IsScalar (.regex (.ofText pattern) (.atom (.flags flags)))

inductive IsKey (α : Alphabet) : Tree → Prop where
  | name {x : Text} (hx : IsIdentifier α x) : IsKey α (.choice (.second (nameTree x)))
  | text (t : Text) : IsKey α (.choice (.first (.node (.literal (.atom (.text t))))))
  | number {n : Nat} (hn : n < 10 ^ Text.digitLimit) :
      IsKey α (.choice (.first (.node (.literal (.atom (.int n))))))

def IsTarget (t : Tree) : Prop :=
  t.kind? = some .identifier ∨ t.kind? = some .memberExpression

inductive Part where
  | expression
  | property

def Part.category : Part → Category
  | .expression => .expression
  | .property => .property

/-- Expressions and properties with a node of the right sort in every slot. -/
inductive WellFormed (α : Alphabet) (m : Mode) : Part → Tree → Prop where
  | name {x : Text} (hx : IsIdentifier α x) : WellFormed α m .expression (nameTree x)
  | literal {value : Tree} (h : IsScalar value) :
      WellFormed α m .expression (.node (.literal value))
  | this : WellFormed α m .expression (.node .thisExpression)
  | array {items : List Tree} (h : ∀ t ∈ items, WellFormed α m .expression t) :
      WellFormed α m .expression (.node (.arrayExpression (.list items)))
  | object {items : List Tree} (h : ∀ t ∈ items, WellFormed α m .property t) :
      WellFormed α m .expression (.node (.objectExpression (.list items)))
  | function {id : Option Text} {params : List Text} {body : List Tree}
      (hid : ∀ x ∈ id, IsIdentifier α x) (hparams : ∀ x ∈ params, IsIdentifier α x)
      (hbody : Prints m body) :
      WellFormed α m .expression (functionTree id params body)
  | unary {op : UnaryOperator} {t : Tree} (htarget : op.isUpdate = true → IsTarget t)
      (h : WellFormed α m .expression t) :
      WellFormed α m .expression (.node (.unaryExpression (.ofMember (.unaryOperator op)) t))
  | binary {op : BinaryOperator} {left right : Tree} (hop : op.isAssignment = false)
      (hleft : WellFormed α m .expression left) (hright : WellFormed α m .expression right) :
      WellFormed α m .expression
        (.node (.binaryExpression left (.ofMember (.binaryOperator op)) (.list [right])))
  | assignment {op : BinaryOperator} {left : Tree} {rest : List Tree}
      (hop : op.isAssignment = true) (htargets : ∀ t ∈ (left :: rest).dropLast, IsTarget t)
      (hleft : WellFormed α m .expression left) (hrest : ∀ t ∈ rest, WellFormed α m .expression t) :
      WellFormed α m .expression
        (.node (.binaryExpression left (.ofMember (.binaryOperator op)) (.list rest)))
  | names {object : Tree} {names : List Text} (hne : names ≠ [])
      (hnames : ∀ x ∈ names, IsIdentifier α x)
      (h : WellFormed α m .expression object) :
      WellFormed α m .expression
        (.node (.memberExpression object (.list (names.map nameTree)) (.atom (.bool false))))
  | indices {object : Tree} {items : List Tree} (hne : items ≠ [])
      (h : WellFormed α m .expression object) (hitems : ∀ t ∈ items, WellFormed α m .expression t) :
      WellFormed α m .expression
        (.node (.memberExpression object (.list items) (.atom (.bool true))))
  | conditional {test consequent alternate : Tree} (htest : WellFormed α m .expression test)
      (hconsequent : WellFormed α m .expression consequent)
      (halternate : WellFormed α m .expression alternate) :
      WellFormed α m .expression (.node (.conditionalExpression test consequent alternate))
  | call {callee : Tree} {arguments : List Tree} (h : WellFormed α m .expression callee)
      (harguments : ∀ t ∈ arguments, WellFormed α m .expression t) :
      WellFormed α m .expression (.node (.callExpression callee (.list arguments)))
  | new {callee : Tree} {arguments : List Tree} (h : WellFormed α m .expression callee)
      (harguments : ∀ t ∈ arguments, WellFormed α m .expression t) :
      WellFormed α m .expression (.node (.newExpression callee (.list arguments)))
  | sequence {items : List Tree} (hlength : 2 ≤ items.length)
      (hkind : ∀ t ∈ items, t.kind? ≠ some .sequenceExpression)
      (h : ∀ t ∈ items, WellFormed α m .expression t) :
      WellFormed α m .expression (.node (.sequenceExpression (.list items)))
  | value {key value : Tree} (hkey : IsKey α key) (h : WellFormed α m .expression value) :
      WellFormed α m .property (.node (.property key value (.ofMember (.propertyKind .init))))
  | get {key : Tree} {body : List Tree} (hkey : IsKey α key) (hbody : Prints m body) :
      WellFormed α m .property
        (.node (.property key (functionTree none [] body) (.ofMember (.propertyKind .get))))
  | set {key : Tree} {x : Text} {body : List Tree} (hkey : IsKey α key) (hx : IsIdentifier α x)
      (hbody : Prints m body) :
      WellFormed α m .property
        (.node (.property key (functionTree none [x] body) (.ofMember (.propertyKind .set))))

structure Represents (α : Alphabet) (m : Mode) (t : Tree) (x : Expr) : Prop where
  reads : ∀ missing, Reads α m (scriptOr m missing t) (goalOf t) x
  written : ∀ absent, writeOr absent t = x.written

structure RepresentsProperty (α : Alphabet) (m : Mode) (t : Tree) (p : Property Expr) : Prop where
  reads : ∃ ts : List Token, (propertyPart m t).Spells α (ts.flatMap (Token.segments m)) ∧
    DerivesProperty α (Derives α .assignment) ts p
  written : ∀ absent, writeOr absent t = writtenProperty p

section Lists

variable {α : Alphabet} {m : Mode}

theorem exists_forall₂ {α β : Type} {R : α → β → Prop} {as : List α} (h : ∀ a ∈ as, ∃ b, R a b) :
    ∃ bs, List.Forall₂ R as bs := by
  induction as with
  | nil => exact ⟨[], .nil⟩
  | cons a as ih =>
    obtain ⟨b, hb⟩ := h a List.mem_cons_self
    obtain ⟨bs, hbs⟩ := ih fun a' ha' => h a' (List.mem_cons_of_mem a ha')
    exact ⟨b :: bs, .cons hb hbs⟩

/-- Items that are printed with commas between them are derived with commas between them.
The lists of the printer differ in what they print of an item, `S`. -/
theorem spells_separated {β : Type} {P : List Token → β → Prop} {l : Listing} {S : Tree → Script}
    (hstep : ∀ first t rest, itemScripts m l first (t :: rest)
      = Script.onlyIf (!first) (l.between m) ++ S t ++ itemScripts m l false rest)
    (hbetween : (l.between m).Spells α [.token ","]) {items : List Tree} {xs : List β}
    (h : List.Forall₂ (fun t x => ∃ ts : List Token,
      (S t).Spells α (ts.flatMap (Token.segments m)) ∧ P ts x) items xs) (first : Bool)
    (hne : items ≠ []) :
    ∃ ts : List Token, (itemScripts m l first items).Spells α
      ((if first then [] else [.token ","]) ++ ts.flatMap (Token.segments m)) ∧
      Separated P ts xs := by
  induction h generalizing first with
  | nil => exact absurd rfl hne
  | @cons t x rest xs hx hrest ih =>
    obtain ⟨ts, hspells, hts⟩ := hx
    have hcomma : (Script.onlyIf (!first) (l.between m)).Spells α
        (if first then [] else [.token ","]) :=
      (hbetween.onlyIf (!first)).cast (by cases first <;> rfl)
    cases hrest with
    | nil =>
      refine ⟨ts, ?_, .single hts⟩
      rw [hstep]
      exact ((hcomma.append hspells).append .empty).cast (List.append_nil _)
    | @cons t' y rest' ys hy hrest' =>
      obtain ⟨us, hspells', hus⟩ := ih false (by simp)
      refine ⟨ts ++ Token.text "," :: us, ?_, .cons hts hus⟩
      rw [hstep]
      refine ((hcomma.append hspells).append hspells').cast ?_
      simp [Token.segments]

/-- The whole list of an owner, which may be empty. -/
theorem spells_list {β : Type} {P : List Token → β → Prop} {l : Listing} {S : Tree → Script}
    (hstep : ∀ first t rest, itemScripts m l first (t :: rest)
      = Script.onlyIf (!first) (l.between m) ++ S t ++ itemScripts m l false rest)
    (hbetween : (l.between m).Spells α [.token ","]) {items : List Tree} {xs : List β}
    (h : List.Forall₂ (fun t x => ∃ ts : List Token,
      (S t).Spells α (ts.flatMap (Token.segments m)) ∧ P ts x) items xs) :
    ∃ ts : List Token, (listScript m l (.list items)).Spells α (ts.flatMap (Token.segments m)) ∧
      Separated P ts xs := by
  cases h with
  | nil => exact ⟨[], .empty, .nil⟩
  | cons hx hrest =>
    obtain ⟨ts, hspells, hts⟩ := spells_separated hstep hbetween (.cons hx hrest) true (by simp)
    exact ⟨ts, hspells, hts⟩

theorem writeAll_eq {items : List Tree} {xs : List Expr}
    (h : List.Forall₂ (Represents α m) items xs) (absent : Exchange.Written) :
    writeAll absent items = writtenAll xs := by
  induction h with
  | nil => rfl
  | cons hx _ ih => rw [writeAll, writtenAll, hx.written, ih]

theorem writeAll_properties {items : List Tree} {ps : List (Property Expr)}
    (h : List.Forall₂ (RepresentsProperty α m) items ps) (absent : Exchange.Written) :
    writeAll absent items = writtenProperties ps := by
  induction h with
  | nil => rfl
  | cons hp _ ih => rw [writeAll, writtenProperties, hp.written, ih]

/-- Arguments and elements stand between commas. -/
theorem spells_items {l : Listing} {missing : Script} {items : List Tree} {xs : List Expr}
    (hstep : ∀ first t rest, itemScripts m l first (t :: rest)
      = Script.onlyIf (!first) (l.between m) ++
        Script.enclosedIf (Place.item.refuses t) (scriptOr m missing t) ++
        itemScripts m l false rest)
    (hbetween : (l.between m).Spells α [.token ","])
    (h : List.Forall₂ (Represents α m) items xs) :
    ∃ ts : List Token, (listScript m l (.list items)).Spells α (ts.flatMap (Token.segments m)) ∧
      Separated (Derives α .assignment) ts xs :=
  spells_list hstep hbetween (h.imp fun _ _ hx => (hx.reads missing).item)

end Lists

section Leaves

variable {α : Alphabet} {m : Mode}

theorem spells_name {x : Text} (hx : IsIdentifier α x) : (Script.write x).Spells α [.token x] :=
  have hname : IsName α x := hx.isIdentifierName.isName
  .scanned hname.tokens hname.ne_nil

theorem literal_number {n : Nat} (hn : n < 10 ^ Text.digitLimit) :
    literal (.atom (.int n)) = .ok (Text.ofNat n) := by
  have htext : Text.ofInt? n = some (Text.ofNat n) :=
    Text.ofInt?_eq_some_iff.mpr ⟨by rwa [Int.natAbs_natCast], Text.ofInt_natCast n⟩
  simp [literal, numberText?, htext]

theorem literal_natural (n : Nat) : Literal α (Text.ofNat n) (.atom (.int n)) := by
  have htoken := tokens?_number α (Json.isWhole_ofNat n) (.inl rfl) (.inl rfl)
  simp only [List.append_nil] at htoken
  exact .number htoken (decimalValue?_ofNat n)

theorem literal_text (t : Text) : Literal α (stringLiteral t) (.atom (.text t)) := by
  refine .string ?_ (unitsUntilQuote?_escapedText t)
  rw [tokens?, scan_stringLiteral]
  rfl

/-- A literal is printed as one token with its value. -/
theorem exists_literal {value : Tree} (h : IsScalar value) :
    ∃ t, literal value = .ok t ∧ Literal α t value := by
  cases h with
  | missing => exact ⟨_, rfl, .null⟩
  | bool b =>
    cases b with
    | false => exact ⟨_, rfl, .false⟩
    | true => exact ⟨_, rfl, .true⟩
  | text t => exact ⟨_, rfl, literal_text t⟩
  | number hn => exact ⟨_, literal_number hn, literal_natural _⟩
  | regex flags hpattern => exact ⟨_, rfl, .regex (isRegexToken_regexLiteral_iff.mpr hpattern)⟩

theorem represents_name {x : Text} (hx : IsIdentifier α x) :
    Represents α m (nameTree x) (.name x) := by
  constructor
  · intro missing
    exact ⟨[.text x], spells_name hx, .name hx⟩
  · intro absent
    rfl

theorem represents_this : Represents α m (.node .thisExpression) .this := by
  constructor
  · intro missing
    have hthis : Segment.ofAscii? "this" = some [.token "this"] := by decide
    exact ⟨[.text "this"], .write hthis, .this⟩
  · intro absent
    rfl

theorem represents_literal {value : Tree} (h : IsScalar value) :
    Represents α m (.node (.literal value)) (.literal value) := by
  obtain ⟨t, hprinted, hliteral⟩ := exists_literal (α := α) h
  constructor
  · intro missing
    refine ⟨[.text t], ?_, .literal hliteral⟩
    rw [scriptOr, nodeScript, Script.ofExcept, hprinted]
    exact .of_cut hliteral.cut hliteral.ne_nil
  · intro absent
    rfl

end Leaves

section Functions

variable {α : Alphabet} {m : Mode}

theorem spells_comma (m : Mode) : (m.token "," ", ").Spells α [.token ","] :=
  .token m (by decide) (by decide)

theorem spells_params (owner : String) {params : List Text} (h : ∀ x ∈ params, IsIdentifier α x) :
    ∃ ts : List Token, (listScript m (.params owner) (.list (params.map nameTree))).Spells α
      (ts.flatMap (Token.segments m)) ∧ Separated (DerivesName α) ts params := by
  refine spells_list (l := .params owner) (fun _ _ _ => rfl) (spells_comma m) ?_
  rw [List.forall₂_map_left_iff, List.forall₂_same]
  intro x hx
  exact ⟨[.text x], spells_name (h x hx), rfl, h x hx⟩

/-- Parameters between parentheses and statements between braces are those of a function,
whatever is printed before them. -/
theorem spells_function (owner : String) {params : List Text} {body : List Tree} {a : Script}
    {as : List Segment} (ha : a.Spells α as) (hparams : ∀ x ∈ params, IsIdentifier α x)
    (hbody : Prints m body) :
    ∃ ts : List Token, (a ++ Script.write "(" ++
        listScript m (.params owner) (.list (params.map nameTree)) ++ m.token ")" ") " ++
        m.braces false false (!(Tree.list body).isTrue)
          (listScript m .statements (.list body))).Spells α (as ++ ts.flatMap (Token.segments m)) ∧
      DerivesFunction α ts params body := by
  obtain ⟨ts, hspells, hts⟩ := spells_params (m := m) owner hparams
  have hopening : (Script.write "(").Spells α [.token "("] := .write (by decide)
  have hclosing : (m.token ")" ") ").Spells α [.token ")"] := .token m (by decide) (by decide)
  have hstatements : (listScript m .statements (.list body)).Spells α
      ((Token.body body).segments m) := by
    cases body with
    | nil => exact .empty
    | cons t rest => exact .part hbody.failure
  have hbraces := hstatements.braces m false false (!(Tree.list body).isTrue) (by
    intro hempty
    obtain rfl : body = [] := by simpa [Tree.isTrue, Tree.view, View.isTrue] using hempty
    rfl)
  refine ⟨_, ((((ha.append hopening).append hspells).append hclosing).append hbraces).cast ?_,
    .intro body hts⟩
  simp [Token.segments]

theorem writeAll_names (absent : Exchange.Written) (names : List Text) :
    writeAll absent (names.map nameTree) = .ok (names.map nameDraft) := by
  induction names with
  | nil => rfl
  | cons x rest ih =>
    simp only [List.map_cons, writeAll, ih]
    rfl

theorem represents_function {id : Option Text} {params : List Text} {body : List Tree}
    (hid : ∀ x ∈ id, IsIdentifier α x) (hparams : ∀ x ∈ params, IsIdentifier α x)
    (hbody : Prints m body) :
    Represents α m (functionTree id params body) (.function id params body) := by
  have hword : (Script.write "function").Spells α [.token "function"] := .write (by decide)
  constructor
  · intro missing
    cases id with
    | none =>
      obtain ⟨ts, hspells, hts⟩ :=
        spells_function "FunctionExpression" (hword.append .empty) hparams hbody
      exact ⟨.text "function" :: ts, hspells, .function hts⟩
    | some x =>
      have hx : IsIdentifier α x := hid x rfl
      have hblank : (Script.write " ").Spells α [] := .write (by decide)
      have hname := hblank.append (spells_name hx)
      obtain ⟨ts, hspells, hts⟩ :=
        spells_function "FunctionExpression" (hword.append hname) hparams hbody
      exact ⟨.text "function" :: .text x :: ts, hspells, .namedFunction hx hts⟩
  · intro absent
    simp only [functionTree, writeOr, writeNode, writeArray, writeAll_names]
    cases id <;> rfl

end Functions

section Operators

variable {α : Alphabet} {m : Mode}

/-- An operator on one operand is printed as one token. -/
theorem cut_unaryOperator (op : UnaryOperator) :
    Segment.ofAscii? (if op.isKeyword then Text.join [op.token, " "] else op.token)
      = some [.token op.token] := by
  cases op <;> decide

/-- What can be assigned to is never enclosed beside an operator. -/
theorem Reads.target {s : Script} {t : Tree} {x : Expr} (h : Reads α m s (goalOf t) x)
    (ht : IsTarget t) : Reads α m (s.enclosedIf (Place.operand.refuses t)) .leftHandSide x := by
  have hrefuses : Place.operand.refuses t = false := by
    rcases ht with hkind | hkind <;>
      simp [Place.refuses, hkind, Place.refusedKinds, Place.refusesNumber]
  rw [hrefuses]
  refine h.mono fun ts hts => ?_
  rcases goalOf_cases t with hgoal | ⟨-, hkind⟩ | ⟨-, hkind⟩ | ⟨-, hkind⟩
  · exact hts.toLeftHandSide hgoal
  all_goals
    rw [IsTarget, hkind] at ht
    rcases ht with ht | ht <;> cases ht

theorem represents_unary {op : UnaryOperator} {t : Tree} {x : Expr}
    (htarget : op.isUpdate = true → IsTarget t) (h : Represents α m t x) :
    Represents α m (.node (.unaryExpression (.ofMember (.unaryOperator op)) t)) (.unary op x) := by
  constructor
  · intro missing
    rw [scriptOr, nodeScript_unary]
    simp only [Tree.ofMember, goalOf]
    cases hbefore : op.isBefore with
    | true =>
      obtain ⟨ts, hspells, hts⟩ := (h.reads (absent "UnaryExpression" "argument")).operand
      rw [if_pos rfl, if_pos rfl]
      exact ⟨.text op.token :: ts,
        (Script.Spells.write (cut_unaryOperator op)).append hspells, .unary hbefore hts⟩
    | false =>
      have hupdate : op.isUpdate = true := by revert hbefore; cases op <;> decide
      have hmark : Segment.ofAscii? op.token = some [.token op.token] := by
        revert hbefore; cases op <;> decide
      obtain ⟨ts, hspells, hts⟩ :=
        (h.reads (absent "UnaryExpression" "argument")).target (htarget hupdate)
      rw [if_neg Bool.false_ne_true, if_neg Bool.false_ne_true]
      refine ⟨ts ++ [Token.text op.token], (hspells.append (.write hmark)).cast ?_,
        .update hbefore hts⟩
      simp [Token.segments]
  · intro absent
    simp only [writeOr, writeNode, Tree.unaryOperator, Tree.ofMember, Tree.text?, Tree.view,
      View.text?, Atom.text?, Member.key, Option.bind_some, op.ofKey?_key, h.written]
    rfl

theorem represents_conditional {test consequent alternate : Tree} {x y z : Expr}
    (hx : Represents α m test x) (hy : Represents α m consequent y)
    (hz : Represents α m alternate z) :
    Represents α m (.node (.conditionalExpression test consequent alternate))
      (.conditional x y z) := by
  constructor
  · intro missing
    obtain ⟨ts, hspells, hts⟩ := (hx.reads (absent "ConditionalExpression" "test")).operand
    obtain ⟨us, hspells', hus⟩ := (hy.reads (absent "ConditionalExpression" "consequent")).item
    obtain ⟨vs, hspells'', hvs⟩ := (hz.reads (absent "ConditionalExpression" "alternate")).item
    have hquestion : (m.token "?" " ? ").Spells α [.token "?"] :=
      .token m (by decide) (by decide)
    have hcolon : (m.token ":" " : ").Spells α [.token ":"] := .token m (by decide) (by decide)
    refine ⟨_, ((((hspells.append hquestion).append hspells').append hcolon).append
      hspells'').cast ?_, .conditional (hts.toBinary 10) hus hvs⟩
    simp [Token.segments]
  · intro absent
    simp only [writeOr, writeNode, hx.written, hy.written, hz.written, Expr.written]

/-- The operator of a chain, spaced or not, is one token. -/
theorem exists_chainToken (m : Mode) (op : BinaryOperator) :
    ∃ t, chainToken m (.ofMember (.binaryOperator op)) = .ok t ∧
      Segment.ofAscii? t = some [.token op.token] := by
  refine ⟨_, rfl, ?_⟩
  cases m <;> cases op <;> decide

theorem level_pos {op : BinaryOperator} (hop : op.isAssignment = false) :
    ∃ level, levelOf op = level + 1 ∧ level < 10 := by
  revert hop
  cases op <;> first | exact fun _ => ⟨_, rfl, by decide⟩ | (intro h; cases h)

def chainExpr (op : BinaryOperator) (x : Expr) : List Expr → Expr
  | [] => x
  | y :: rest => .binary op x (chainExpr op y rest)

theorem written_chainExpr (op : BinaryOperator) (x : Expr) (ys : List Expr) :
    (chainExpr op x ys).written = (do
      let left ← x.written
      let rest ← writtenAll ys
      return chain op left rest) := by
  induction ys generalizing x with
  | nil =>
    cases hx : x.written <;> simp [chainExpr, writtenAll, chain, hx, bind, Except.bind, pure,
      Except.pure]
  | cons y rest ih =>
    rw [chainExpr, Expr.written, ih, writtenAll]
    cases x.written <;> cases y.written <;> cases writtenAll rest <;> rfl

/-- A chain is written as what its operands are, nested to the right. -/
theorem writeOr_chain {op : BinaryOperator} {left : Tree} {rest : List Tree} {x : Expr}
    {ys : List Expr} (hx : Represents α m left x) (hys : List.Forall₂ (Represents α m) rest ys)
    (absent : Exchange.Written) :
    writeOr absent (.node (.binaryExpression left (.ofMember (.binaryOperator op)) (.list rest)))
      = (chainExpr op x ys).written := by
  have hoperator : used (Tree.ofMember (.binaryOperator op)).binaryOperator = .ok op := by
    simp [Tree.binaryOperator, Tree.ofMember, Tree.text?, Tree.view, View.text?, Atom.text?,
      Member.key, op.ofToken?_token, used, Except.mapError]
  rw [written_chainExpr, writeOr, writeNode, hx.written, hoperator]
  cases hys with
  | nil => rfl
  | cons hy hrest =>
    rw [← writeAll_eq (.cons hy hrest) (required "BinaryExpression" "right")]
    rfl

/-- Operands that can be assigned to, up to the last one, are assigned to from the right. -/
theorem reads_assignments {op : BinaryOperator} {token : Text} (hop : op.isAssignment = true)
    (htoken : Segment.ofAscii? token = some [.token op.token]) {rest : List Tree} {ys : List Expr}
    (hys : List.Forall₂ (Represents α m) rest ys) {left : Tree} {x : Expr}
    (hx : Represents α m left x) (htargets : ∀ t ∈ (left :: rest).dropLast, IsTarget t)
    (missing : Script) (first : Bool) :
    Reads α m (Script.enclosedIf (Place.operand.refuses left) (scriptOr m missing left) ++
      itemScripts m (.operands token) first rest) .assignment (chainExpr op x ys) := by
  induction hys generalizing left x missing first with
  | nil =>
    obtain ⟨ts, hspells, hts⟩ := (hx.reads missing).operand
    exact ⟨ts, (hspells.append .empty).cast (List.append_nil _), hts.toAssignment⟩
  | @cons t y rest ys hy hrest ih =>
    obtain ⟨ts, hspells, hts⟩ := (hx.reads missing).target (htargets left (by simp))
    obtain ⟨us, hspells', hus⟩ := ih hy (fun t' ht' => htargets t' (by simp [ht']))
      (absent "BinaryExpression" "right") false
    refine ⟨ts ++ Token.text op.token :: us, ?_, .assignment hop hts hus⟩
    have hstep : itemScripts m (.operands token) first (t :: rest)
        = Script.write token ++ (Script.enclosedIf (Place.operand.refuses t)
          (scriptOr m (absent "BinaryExpression" "right") t) ++
          itemScripts m (.operands token) false rest) := by
      have hbetween : Script.onlyIf (!first) (Listing.between m (.operands token)) = .empty := by
        cases first <;> rfl
      rw [itemScripts, hbetween, Script.empty_append, Script.append_assoc]
    rw [hstep]
    refine (hspells.append ((Script.Spells.write htoken).append hspells')).cast ?_
    simp [Token.segments]

/-- A chain is printed between parentheses. -/
theorem reads_parenthesized {a b : Script} {x : Expr} (h : Reads α m (a ++ b) .assignment x) :
    Reads α m (Script.write "(" ++ a ++ b ++ Script.write ")") .primary x := by
  have hexpression := (h.mono fun ts hts => .unit .expression hts).parentheses
  rwa [Script.enclosedIf, if_pos rfl, ← Script.append_assoc] at hexpression

theorem represents_assignment {op : BinaryOperator} {left : Tree} {rest : List Tree} {x : Expr}
    {ys : List Expr} (hop : op.isAssignment = true)
    (htargets : ∀ t ∈ (left :: rest).dropLast, IsTarget t) (hx : Represents α m left x)
    (hys : List.Forall₂ (Represents α m) rest ys) :
    Represents α m (.node (.binaryExpression left (.ofMember (.binaryOperator op)) (.list rest)))
      (chainExpr op x ys) := by
  refine ⟨?_, writeOr_chain hx hys⟩
  intro missing
  obtain ⟨token, htoken, hcut⟩ := exists_chainToken m op
  rw [scriptOr, nodeScript, htoken, Script.given_ok, listScript]
  exact reads_parenthesized (reads_assignments hop hcut hys hx htargets _ true)

theorem represents_binary {op : BinaryOperator} {left right : Tree} {x y : Expr}
    (hop : op.isAssignment = false) (hx : Represents α m left x) (hy : Represents α m right y) :
    Represents α m (.node (.binaryExpression left (.ofMember (.binaryOperator op)) (.list [right])))
      (.binary op x y) := by
  refine ⟨?_, writeOr_chain hx (.cons hy .nil)⟩
  intro missing
  obtain ⟨token, htoken, hcut⟩ := exists_chainToken m op
  obtain ⟨level, hlevel, hle⟩ := level_pos hop
  obtain ⟨ts, hspells, hts⟩ := (hx.reads (absent "BinaryExpression" "left")).operand
  obtain ⟨us, hspells', hus⟩ := (hy.reads (absent "BinaryExpression" "right")).operand
  rw [scriptOr, nodeScript, htoken, Script.given_ok, listScript]
  have hderives := Derives.binary hlevel (hts.toBinary (level + 1)) (hus.toBinary level)
  refine reads_parenthesized ⟨_, (hspells.append
    ((Script.Spells.empty.append ((Script.Spells.write hcut).append hspells')).append
      .empty)).cast ?_, .unit .assignment (.unit .conditional (hderives.raise hle))⟩
  simp [Token.segments]

end Operators

section Accesses

variable {α : Alphabet} {m : Mode}

def accessExpr (x : Expr) (names : List Text) : Expr := names.foldl .access x

def indexExpr (x : Expr) (indices : List Expr) : Expr := indices.foldl .index x

/-- Accesses by name after what has the goal of a member or call have that goal. -/
theorem reads_names {goal : Goal} (hgoal : goal = .member ∨ goal = .call) {names : List Text}
    (hnames : ∀ x ∈ names, IsIdentifier α x) {s : Script} {x : Expr} (h : Reads α m s goal x)
    (first : Bool) :
    Reads α m (s ++ itemScripts m .names first (names.map nameTree)) goal (accessExpr x names) := by
  induction names generalizing s x first with
  | nil =>
    obtain ⟨ts, hspells, hts⟩ := h
    exact ⟨ts, (hspells.append .empty).cast (List.append_nil _), hts⟩
  | cons name rest ih =>
    obtain ⟨ts, hspells, hts⟩ := h
    have hdot : (Script.write ".").Spells α [.token "."] := .write (by decide)
    have hname := hnames name List.mem_cons_self
    have haccess : Reads α m (s ++ (Script.write "." ++ Script.write name)) goal (.access x name) :=
      ⟨_, (hspells.append (hdot.append (spells_name hname))).cast (by simp [Token.segments]),
        .access hgoal hts hname.isIdentifierName⟩
    have hrest := ih (fun y hy => hnames y (List.mem_cons_of_mem name hy)) haccess false
    have hstep : s ++ itemScripts m .names first ((name :: rest).map nameTree)
        = s ++ (Script.write "." ++ Script.write name) ++
          itemScripts m .names false (rest.map nameTree) := by
      rw [Script.append_assoc]
      cases first <;> rfl
    rw [hstep]
    exact hrest

/-- Accesses by index after what has the goal of a member or call have that goal. -/
theorem reads_indices {goal : Goal} (hgoal : goal = .member ∨ goal = .call) {items : List Tree}
    {ys : List Expr} (hys : List.Forall₂ (Represents α m) items ys) {s : Script} {x : Expr}
    (h : Reads α m s goal x) (first : Bool) :
    Reads α m (s ++ itemScripts m .indices first items) goal (indexExpr x ys) := by
  induction hys generalizing s x first with
  | nil =>
    obtain ⟨ts, hspells, hts⟩ := h
    exact ⟨ts, (hspells.append .empty).cast (List.append_nil _), hts⟩
  | @cons t y rest ys hy hrest ih =>
    obtain ⟨ts, hspells, hts⟩ := h
    obtain ⟨us, hspells', hus⟩ := (hy.reads (absent "MemberExpression" "indices")).toExpression
    have hopening : (Script.write "[").Spells α [.token "["] := .write (by decide)
    have hclosing : (Script.write "]").Spells α [.token "]"] := .write (by decide)
    have hindex : Reads α m (s ++ (Script.write "[" ++
        scriptOr m (absent "MemberExpression" "indices") t ++ Script.write "]")) goal
        (.index x y) :=
      ⟨_, (hspells.append ((hopening.append hspells').append hclosing)).cast
        (by simp [Token.segments]), .index hgoal hts hus⟩
    have hstep : s ++ itemScripts m .indices first (t :: rest)
        = s ++ (Script.write "[" ++ scriptOr m (absent "MemberExpression" "indices") t ++
          Script.write "]") ++ itemScripts m .indices false rest := by
      rw [Script.append_assoc]
      cases first <;> rw [itemScripts] <;> rfl
    rw [hstep]
    exact ih hindex false

theorem written_accessExpr (x : Expr) (names : List Text) :
    (accessExpr x names).written = (do
      let object ← x.written
      return accesses (.ok (.bool false)) object (names.map nameDraft)) := by
  induction names generalizing x with
  | nil => cases hx : x.written <;> simp [accessExpr, hx, accesses, bind, Except.bind, pure,
      Except.pure]
  | cons name rest ih =>
    have hfold : accessExpr x (name :: rest) = accessExpr (.access x name) rest := rfl
    rw [hfold, ih, Expr.written]
    cases x.written <;> rfl

theorem written_indexExpr (x : Expr) (ys : List Expr) :
    (indexExpr x ys).written = (do
      let object ← x.written
      return accesses (.ok (.bool true)) object (← writtenAll ys)) := by
  induction ys generalizing x with
  | nil => cases hx : x.written <;> simp [indexExpr, hx, accesses, writtenAll, bind, Except.bind,
      pure, Except.pure]
  | cons y rest ih =>
    have hfold : indexExpr x (y :: rest) = indexExpr (.index x y) rest := rfl
    rw [hfold, ih, Expr.written, writtenAll]
    cases x.written <;> cases y.written <;> cases writtenAll rest <;> rfl

theorem represents_names {object : Tree} {x : Expr} {names : List Text}
    (hnames : ∀ x ∈ names, IsIdentifier α x) (hx : Represents α m object x) :
    Represents α m
      (.node (.memberExpression object (.list (names.map nameTree)) (.atom (.bool false))))
      (accessExpr x names) := by
  constructor
  · intro missing
    exact reads_names (rootGoal_cases (.object false) object) hnames
      ((hx.reads (absent "MemberExpression" "object")).object false) true
  · intro absent
    rw [written_accessExpr, writeOr, writeNode, hx.written, writeItems, writeAll_names]
    rfl

theorem represents_indices {object : Tree} {items : List Tree} {x : Expr} {ys : List Expr}
    (hx : Represents α m object x) (hys : List.Forall₂ (Represents α m) items ys) :
    Represents α m (.node (.memberExpression object (.list items) (.atom (.bool true))))
      (indexExpr x ys) := by
  constructor
  · intro missing
    exact reads_indices (rootGoal_cases (.object true) object) hys
      ((hx.reads (absent "MemberExpression" "object")).object true) true
  · intro absent
    rw [written_indexExpr, writeOr, writeNode, hx.written, writeItems, writeAll_eq hys]
    rfl

end Accesses

section Composites

variable {α : Alphabet} {m : Mode}

theorem item_takes {t : Tree} (h : t.kind? ≠ some .sequenceExpression) :
    Place.item.refuses t = false := by
  cases hkind : t.kind? with
  | none => simp [Place.refuses, hkind, Place.refusesNumber]
  | some k =>
    have hk : k ≠ .sequenceExpression := fun heq => h (by rw [hkind, heq])
    simp [Place.refuses, hkind, Place.refusedKinds, Place.refusesNumber, hk]

theorem represents_call {callee : Tree} {arguments : List Tree} {x : Expr} {ys : List Expr}
    (hx : Represents α m callee x) (hys : List.Forall₂ (Represents α m) arguments ys) :
    Represents α m (.node (.callExpression callee (.list arguments))) (.call x ys) := by
  constructor
  · intro missing
    obtain ⟨ts, hspells, hts⟩ := (hx.reads (absent "CallExpression" "callee")).callee
    obtain ⟨us, hspells', hus⟩ :=
      spells_items (l := .arguments "CallExpression") (fun _ _ _ => rfl) (spells_comma m) hys
    have hopening : (Script.write "(").Spells α [.token "("] := .write (by decide)
    have hclosing : (Script.write ")").Spells α [.token ")"] := .write (by decide)
    refine ⟨_, (((hspells.append hopening).append hspells').append hclosing).cast ?_,
      .call (rootGoal_cases _ _) hts hus⟩
    simp [Token.segments]
  · intro absent
    rw [writeOr, writeNode, hx.written, writeArray, writeAll_eq hys, Expr.written]
    simp only [bind_assoc, pure_bind]

theorem represents_new {callee : Tree} {arguments : List Tree} {x : Expr} {ys : List Expr}
    (hx : Represents α m callee x) (hys : List.Forall₂ (Represents α m) arguments ys) :
    Represents α m (.node (.newExpression callee (.list arguments))) (.new x ys) := by
  constructor
  · intro missing
    obtain ⟨ts, hspells, hts⟩ := (hx.reads (absent "NewExpression" "callee")).newCallee
    obtain ⟨us, hspells', hus⟩ :=
      spells_items (l := .arguments "NewExpression") (fun _ _ _ => rfl) (spells_comma m) hys
    have hword : (Script.write "new ").Spells α [.token "new"] := .write (by decide)
    have hopening : (Script.write "(").Spells α [.token "("] := .write (by decide)
    have hclosing : (Script.write ")").Spells α [.token ")"] := .write (by decide)
    refine ⟨_, ((((hword.append hspells).append hopening).append hspells').append hclosing).cast ?_,
      .newWith hts hus⟩
    simp [Token.segments]
  · intro absent
    rw [writeOr, writeNode, hx.written, writeArray, writeAll_eq hys, Expr.written]
    simp only [bind_assoc, pure_bind]

theorem represents_sequence {items : List Tree} {xs : List Expr} (hlength : 2 ≤ items.length)
    (hkind : ∀ t ∈ items, t.kind? ≠ some .sequenceExpression)
    (hxs : List.Forall₂ (Represents α m) items xs) :
    Represents α m (.node (.sequenceExpression (.list items))) (.sequence xs) := by
  constructor
  · intro missing
    have hitems : List.Forall₂ (fun t x => ∃ ts : List Token,
        (scriptOr m (absent "SequenceExpression" "expressions") t).Spells α
          (ts.flatMap (Token.segments m)) ∧ Derives α .assignment ts x) items xs := by
      rw [List.forall₂_iff_zip] at hxs ⊢
      refine ⟨hxs.1, fun hzip => ?_⟩
      have hrefuses := item_takes (hkind _ (List.of_mem_zip hzip).1)
      have hreads := ((hxs.2 hzip).reads (absent "SequenceExpression" "expressions")).item
      rwa [hrefuses] at hreads
    obtain ⟨ts, hspells, hts⟩ :=
      spells_list (l := .expressions) (fun _ _ _ => rfl) (spells_comma m) hitems
    exact ⟨ts, hspells, .sequence hts (hxs.length_eq ▸ hlength)⟩
  · intro absent
    rw [writeOr, writeNode, writeArray, writeAll_eq hxs, Expr.written]
    simp only [bind_assoc, pure_bind]

theorem represents_array {items : List Tree} {xs : List Expr}
    (hpresent : ∀ t ∈ items, t.isMissing = false) (hxs : List.Forall₂ (Represents α m) items xs) :
    Represents α m (.node (.arrayExpression (.list items))) (.array xs) := by
  constructor
  · intro missing
    have hopening : Segment.ofAscii? "[" = some [.token "["] := by decide
    have hclosing : Segment.ofAscii? "]" = some [.token "]"] := by decide
    have hboth : Segment.ofAscii? "[]" = some [.token "[", .token "]"] := by decide
    cases hxs with
    | nil => exact ⟨[.text "[", .text "]"], .write hboth, .array .nil⟩
    | @cons t x rest xs hx hrest =>
      have hcomma : (m.finish ",").Spells α [.token ","] := .finish m (by decide)
      obtain ⟨ts, hspells, hts⟩ :=
        spells_items (l := .elements) (fun _ _ _ => rfl) hcomma (.cons hx hrest)
      have hhole : endsWithHole (.list (t :: rest)) = false := by
        have hlast := List.getLast?_eq_some_getLast (List.cons_ne_nil t rest)
        have hmem := List.getLast_mem (List.cons_ne_nil t rest)
        rw [endsWithHole, hlast, Option.any_some]
        exact hpresent _ hmem
      refine ⟨_, ?_, .array hts⟩
      rw [scriptOr, nodeScript, if_neg (by simp [Tree.isTrue, Tree.view, View.isTrue]), hhole]
      refine ((hspells.append .empty).bracketed m hopening hclosing).cast ?_
      simp [Token.segments]
  · intro absent
    rw [writeOr, writeNode, writeArray, writeAll_eq hxs, Expr.written]
    simp only [bind_assoc, pure_bind]

theorem represents_object {items : List Tree} {ps : List (Property Expr)}
    (hps : List.Forall₂ (RepresentsProperty α m) items ps) :
    Represents α m (.node (.objectExpression (.list items))) (.object ps) := by
  constructor
  · intro missing
    have hopening : Segment.ofAscii? "\x7b" = some [.token "\x7b"] := by decide
    have hclosing : Segment.ofAscii? "\x7d" = some [.token "\x7d"] := by decide
    have hboth : Segment.ofAscii? "\x7b\x7d" = some [.token "\x7b", .token "\x7d"] := by decide
    cases hps with
    | nil => exact ⟨[.text "\x7b", .text "\x7d"], .write hboth, .object .nil⟩
    | @cons t p rest ps hp hrest =>
      have hcomma : (m.finish ",").Spells α [.token ","] := .finish m (by decide)
      obtain ⟨ts, hspells, hts⟩ := spells_list (l := .properties) (fun _ _ _ => rfl) hcomma
        ((List.Forall₂.cons hp hrest).imp fun _ _ hp => hp.reads)
      refine ⟨_, ?_, .object hts⟩
      rw [scriptOr, nodeScript, if_neg (by simp [Tree.isTrue, Tree.view, View.isTrue])]
      refine (hspells.bracketed m hopening hclosing).cast ?_
      simp [Token.segments]
  · intro absent
    rw [writeOr, writeNode, writeArray, writeAll_properties hps, Expr.written]
    simp only [bind_assoc, pure_bind]

end Composites

section Properties

variable {α : Alphabet} {m : Mode}

/-- A key is printed as one token and derives what it is written as. -/
theorem exists_key {key : Tree} (h : IsKey α key) :
    ∃ k t, (keyScript m key).Spells α [.token t] ∧ DerivesKey α [.text t] k ∧
      writeChoice key = keyDraft k := by
  cases h with
  | name hx => exact ⟨.name _, _, spells_name hx, .name hx.isIdentifierName, rfl⟩
  | text t =>
    have hliteral : Literal α (stringLiteral t) _ := literal_text t
    exact ⟨.literal _, _, .of_cut hliteral.cut hliteral.ne_nil, .string hliteral, rfl⟩
  | @number n hn =>
    have hliteral : Literal α (Text.ofNat n) _ := literal_natural n
    refine ⟨.literal _, _, ?_, .number hliteral, rfl⟩
    rw [keyScript, scriptOr, nodeScript, Script.ofExcept, literal_number hn]
    exact .of_cut hliteral.cut hliteral.ne_nil

theorem IsKey.ne_empty {key : Tree} (h : IsKey α key) : key ≠ .choice .empty := by
  cases h <;> simp

theorem writeOr_property {key value : Tree} {kind : PropertyKind} {k : Key}
    {draft : Exchange.Written}
    (hkey : IsKey α key) (hk : writeChoice key = keyDraft k)
    (hvalue : ∀ absent, writeOr absent value = draft) (absent : Exchange.Written) :
    writeOr absent (.node (.property key value (.ofMember (.propertyKind kind)))) = (do
      return propertyDraft kind (← keyDraft k) (← draft)) := by
  rw [← hk, ← hvalue (required "Property" "value")]
  rw [writeOr, writeNode]
  · rfl
  · exact hkey.ne_empty

theorem exists_representsProperty_value {key value : Tree} {x : Expr} (hkey : IsKey α key)
    (hx : Represents α m value x) :
    ∃ p, RepresentsProperty α m
      (.node (.property key value (.ofMember (.propertyKind .init)))) p := by
  obtain ⟨k, l, hspells, hk, hwritten⟩ := exists_key (m := m) hkey
  obtain ⟨ts, hspells', hts⟩ := (hx.reads (absent "Property" "value")).item
  refine ⟨.value k x, ⟨_, ?_, .value hk hts⟩, writeOr_property hkey hwritten hx.written⟩
  have hcolon : (m.token ":" ": ").Spells α [.token ":"] := .token m (by decide) (by decide)
  have hscript : propertyPart m (.node (.property key value (.ofMember (.propertyKind .init))))
      = keyScript m key ++ m.token ":" ": " ++ Script.enclosedIf (Place.item.refuses value)
        (scriptOr m (absent "Property" "value") value) := by
    rw [propertyPart, nodeScript]
    · rfl
    · exact hkey.ne_empty
  rw [hscript]
  refine ((hspells.append hcolon).append hspells').cast ?_
  simp [Token.segments]

/-- An accessor is printed as its word, its key and a function without a name. -/
theorem propertyPart_accessor {key : Tree} {kind : PropertyKind} {params : List Text}
    {body : List Tree} (hkey : IsKey α key) (hkind : kind ≠ .init) :
    propertyPart m
      (.node (.property key (functionTree none params body) (.ofMember (.propertyKind kind))))
      = Script.write (Text.join [kind.key, " "]) ++ keyScript m key ++ Script.write "(" ++
        listScript m (.params "Property") (.list (params.map nameTree)) ++ m.token ")" ") " ++
        m.braces false false (!(Tree.list body).isTrue)
        (listScript m .statements (.list body)) := by
  rw [propertyPart, nodeScript]
  · cases kind with
    | init => exact absurd rfl hkind
    | get => rfl
    | set => rfl
  · exact hkey.ne_empty

theorem exists_representsProperty_get {key : Tree} {body : List Tree} (hkey : IsKey α key)
    (hbody : Prints m body) :
    ∃ p, RepresentsProperty α m
      (.node (.property key (functionTree none [] body) (.ofMember (.propertyKind .get)))) p := by
  obtain ⟨k, l, hspells, hk, hwritten⟩ := exists_key (m := m) hkey
  have hword : (Script.write (Text.join ["get", " "])).Spells α [.token "get"] := .write (by decide)
  have hparams : ∀ y ∈ ([] : List Text), IsIdentifier α y := by simp
  obtain ⟨ts, hspells', hts⟩ := spells_function "Property" (hword.append hspells) hparams hbody
  have hfunction : Represents α m (functionTree none [] body) (.function none [] body) :=
    represents_function (by simp) hparams hbody
  refine ⟨.get k body, ⟨_, ?_, .get hk hts⟩, writeOr_property hkey hwritten hfunction.written⟩
  rw [propertyPart_accessor hkey (by decide)]
  exact hspells'

theorem exists_representsProperty_set {key : Tree} {x : Text} {body : List Tree}
    (hkey : IsKey α key) (hx : IsIdentifier α x) (hbody : Prints m body) :
    ∃ p, RepresentsProperty α m
      (.node (.property key (functionTree none [x] body) (.ofMember (.propertyKind .set)))) p := by
  obtain ⟨k, l, hspells, hk, hwritten⟩ := exists_key (m := m) hkey
  have hword : (Script.write (Text.join ["set", " "])).Spells α [.token "set"] := .write (by decide)
  have hparams : ∀ y ∈ [x], IsIdentifier α y := by simpa using hx
  obtain ⟨ts, hspells', hts⟩ := spells_function "Property" (hword.append hspells) hparams hbody
  have hfunction : Represents α m (functionTree none [x] body) (.function none [x] body) :=
    represents_function (by simp) hparams hbody
  refine ⟨.set k x body, ⟨_, ?_, .set hk hts⟩, writeOr_property hkey hwritten hfunction.written⟩
  rw [propertyPart_accessor hkey (by decide)]
  exact hspells'

end Properties

def IsRepresented (α : Alphabet) (m : Mode) (t : Tree) : Part → Prop
  | .expression => t.isMissing = false ∧ ∃ x, Represents α m t x
  | .property => ∃ p, RepresentsProperty α m t p

theorem isRepresented {α : Alphabet} {m : Mode} {part : Part} {t : Tree}
    (h : WellFormed α m part t) : IsRepresented α m t part := by
  have hlist {items : List Tree} (h : ∀ t ∈ items, IsRepresented α m t .expression) :
      ∃ xs, List.Forall₂ (Represents α m) items xs := exists_forall₂ fun t ht => (h t ht).2
  induction h with
  | name hx => exact ⟨rfl, _, represents_name hx⟩
  | literal h => exact ⟨rfl, _, represents_literal h⟩
  | this => exact ⟨rfl, _, represents_this⟩
  | array _ ih =>
    obtain ⟨xs, hxs⟩ := hlist ih
    exact ⟨rfl, _, represents_array (fun t ht => (ih t ht).1) hxs⟩
  | object _ ih =>
    obtain ⟨ps, hps⟩ := exists_forall₂ ih
    exact ⟨rfl, _, represents_object hps⟩
  | function hid hparams hbody => exact ⟨rfl, _, represents_function hid hparams hbody⟩
  | unary htarget _ ih =>
    obtain ⟨-, x, hx⟩ := ih
    exact ⟨rfl, _, represents_unary htarget hx⟩
  | binary hop _ _ ihleft ihright =>
    obtain ⟨-, x, hx⟩ := ihleft
    obtain ⟨-, y, hy⟩ := ihright
    exact ⟨rfl, _, represents_binary hop hx hy⟩
  | assignment hop htargets _ _ ihleft ihrest =>
    obtain ⟨-, x, hx⟩ := ihleft
    obtain ⟨ys, hys⟩ := hlist ihrest
    exact ⟨rfl, _, represents_assignment hop htargets hx hys⟩
  | names _ hnames _ ih =>
    obtain ⟨-, x, hx⟩ := ih
    exact ⟨rfl, _, represents_names hnames hx⟩
  | indices _ _ _ ih ihitems =>
    obtain ⟨-, x, hx⟩ := ih
    obtain ⟨ys, hys⟩ := hlist ihitems
    exact ⟨rfl, _, represents_indices hx hys⟩
  | conditional _ _ _ ihtest ihconsequent ihalternate =>
    obtain ⟨-, x, hx⟩ := ihtest
    obtain ⟨-, y, hy⟩ := ihconsequent
    obtain ⟨-, z, hz⟩ := ihalternate
    exact ⟨rfl, _, represents_conditional hx hy hz⟩
  | call _ _ ih iharguments =>
    obtain ⟨-, x, hx⟩ := ih
    obtain ⟨ys, hys⟩ := hlist iharguments
    exact ⟨rfl, _, represents_call hx hys⟩
  | new _ _ ih iharguments =>
    obtain ⟨-, x, hx⟩ := ih
    obtain ⟨ys, hys⟩ := hlist iharguments
    exact ⟨rfl, _, represents_new hx hys⟩
  | sequence hlength hkind _ ih =>
    obtain ⟨xs, hxs⟩ := hlist ih
    exact ⟨rfl, _, represents_sequence hlength hkind hxs⟩
  | value hkey _ ih =>
    obtain ⟨-, x, hx⟩ := ih
    exact exists_representsProperty_value hkey hx
  | get hkey hbody => exact exists_representsProperty_get hkey hbody
  | set hkey hx hbody => exact exists_representsProperty_set hkey hx hbody

section Slots

variable {α : Alphabet} {m : Mode}

theorem hasSlots_name (x : Text) : NodeSlot Node.HasSlots .identifier (nameTree x) :=
  .of_has rfl (hasSlots_of_filled ⟨x, rfl⟩)

theorem hasSlots_names (names : List Text) :
    ListSlot Node.HasSlots .identifier (.list (names.map nameTree)) := by
  refine ⟨_, rfl, fun item hitem => ?_⟩
  obtain ⟨x, -, rfl⟩ := List.mem_map.mp hitem
  exact hasSlots_name x

theorem hasSlots_function (id : Option Text) (params : List Text) {body : List Tree}
    (hbody : Prints m body) :
    NodeSlot Node.HasSlots .expression (functionTree id params body) := by
  have hid : NodeSlot Node.HasSlots .identifier (id.elim .missing nameTree) := by
    cases id with
    | none => exact .inl rfl
    | some x => exact hasSlots_name x
  exact .of_has rfl (hasSlots_of_filled ⟨hid, hasSlots_names params, hbody.slots⟩)

theorem hasSlots_key {key : Tree} (h : IsKey α key) :
    ChoiceSlot Node.HasSlots .literal .identifier key := by
  cases h with
  | name hx => exact .inr (.inr ⟨_, rfl, rfl, (hasSlots_name _).throughout⟩)
  | text t => exact .inr (.inl ⟨_, rfl, rfl, hasSlots_of_filled trivial⟩)
  | number hn => exact .inr (.inl ⟨_, rfl, rfl, hasSlots_of_filled trivial⟩)

theorem WellFormed.hasSlots {part : Part} {t : Tree} (h : WellFormed α m part t) :
    NodeSlot Node.HasSlots part.category t := by
  induction h with
  | name hx => exact .of_has rfl (hasSlots_of_filled ⟨_, rfl⟩)
  | literal _ => exact .of_has rfl (hasSlots_of_filled trivial)
  | this => exact .of_has rfl (hasSlots_of_filled trivial)
  | array _ ih => exact .of_has rfl (hasSlots_of_filled ⟨_, rfl, ih⟩)
  | object _ ih => exact .of_has rfl (hasSlots_of_filled ⟨_, rfl, ih⟩)
  | function _ _ hbody => exact hasSlots_function _ _ hbody
  | unary _ _ ih => exact .of_has rfl (hasSlots_of_filled ⟨⟨_, rfl⟩, ih⟩)
  | binary _ _ _ ihleft ihright =>
    exact .of_has rfl (hasSlots_of_filled
      ⟨⟨_, rfl⟩, ihleft, _, rfl, fun item hitem => List.mem_singleton.mp hitem ▸ ihright⟩)
  | assignment _ _ _ _ ihleft ihrest =>
    exact .of_has rfl (hasSlots_of_filled ⟨⟨_, rfl⟩, ihleft, _, rfl, ihrest⟩)
  | names _ _ _ ih =>
    refine .of_has rfl (hasSlots_of_filled ⟨ih, ⟨_, rfl, fun item hitem => ?_⟩, _, rfl⟩)
    obtain ⟨x, -, rfl⟩ := List.mem_map.mp hitem
    exact .of_has rfl (hasSlots_name x).throughout
  | indices _ _ _ ih ihitems =>
    exact .of_has rfl (hasSlots_of_filled ⟨ih, ⟨_, rfl, ihitems⟩, _, rfl⟩)
  | conditional _ _ _ ihtest ihconsequent ihalternate =>
    exact .of_has rfl (hasSlots_of_filled ⟨ihtest, ihconsequent, ihalternate⟩)
  | call _ _ ih iharguments => exact .of_has rfl (hasSlots_of_filled ⟨ih, _, rfl, iharguments⟩)
  | new _ _ ih iharguments => exact .of_has rfl (hasSlots_of_filled ⟨ih, _, rfl, iharguments⟩)
  | sequence _ _ _ ih => exact .of_has rfl (hasSlots_of_filled ⟨_, rfl, ih⟩)
  | value hkey _ ih => exact .of_has rfl (hasSlots_of_filled ⟨hasSlots_key hkey, ih, _, rfl⟩)
  | get hkey hbody =>
    exact .of_has rfl
      (hasSlots_of_filled ⟨hasSlots_key hkey, hasSlots_function none [] hbody, _, rfl⟩)
  | set hkey _ hbody =>
    exact .of_has rfl
      (hasSlots_of_filled ⟨hasSlots_key hkey, hasSlots_function none [_] hbody, _, rfl⟩)

end Slots

/-- A well-formed expression is printed, the texts that its source is made of are cut into tokens
that derive an expression of the grammar, and what they derive is what the tree is written as. -/
theorem source_derives (α : Alphabet) {ps : PrintSettings} (hs : ps.HasTexts) (t : Tree)
    (h : WellFormed α ps.mode .expression t) :
    ∃ ts x, toSource ps t = .ok (rendered ps (Position.print {} ps.mode t).laid) ∧
      Cut α (Position.print {} ps.mode t).texts (ts.flatMap (Token.segments ps.mode)) ∧
      Derives α .expression ts x ∧ write t = x.estree := by
  obtain ⟨-, x, hx⟩ := isRepresented h
  obtain ⟨ts, hspells, hts⟩ := (hx.reads (ps.mode.finish ";")).toExpression
  obtain ⟨text, hprints⟩ : ∃ text, toSource ps t = .ok text := by
    have hslots : t.Throughout Node.HasSlots := h.hasSlots.hasSlots fun _ => id
    exact ⟨_, (toSource_eq_ok_iff hs hslots).mpr ⟨hspells.failure, rfl⟩⟩
  obtain ⟨rfl, -, htexts⟩ := texts_of_toSource hprints
  refine ⟨ts, x, hprints, ?_, hts, ?_⟩
  · rw [htexts]
    exact hspells.cut
  · rw [Exchange.write, hx.written, Expr.estree]

/-- The expression `new (f().g)((x, y), -\u007a)`, whose callee hides a call at its root. -/
def hiddenCall : Tree :=
  .node (.newExpression
    (.node (.memberExpression (.node (.callExpression (nameTree "f") (.list [])))
      (.list [nameTree "g"]) (.atom (.bool false))))
    (.list [.node (.sequenceExpression (.list [nameTree "x", nameTree "y"])),
      .node (.unaryExpression (.ofMember (.unaryOperator .negative)) (nameTree "\\u007a"))]))

theorem isIdentifier_escaped : IsIdentifier .ascii "\\u007a" := by
  have hmeans : Means (Text.ofString "\\u" ++ Text.ofString "007a" ++ []) "z" :=
    .escape (by decide) (by decide) (by decide) .nil
  exact ⟨_, hmeans, ⟨by decide, by decide⟩, by decide⟩

theorem source_derives_hiddenCall :
    toSource { minify := .bool true } hiddenCall = .ok "new (f().g)((x,y),-\\u007a)" ∧
      ∃ ts x, Cut .ascii (Position.print {} .minified hiddenCall).texts
          (ts.flatMap (Token.segments .minified)) ∧
        Derives .ascii .expression ts x ∧ write hiddenCall = x.estree := by
  have hplain (name : Text) (h : isPlainIdentifier name = true) :
      WellFormed .ascii .minified .expression (nameTree name) := .name (isIdentifier_of_plain h)
  have hg : ∀ x ∈ [Text.ofString "g"], IsIdentifier .ascii x := by
    simpa using isIdentifier_of_plain (by decide)
  have hcall : WellFormed .ascii .minified .expression
      (.node (.callExpression (nameTree "f") (.list []))) :=
    .call (hplain "f" (by decide)) (by simp)
  have hwell : WellFormed .ascii .minified .expression hiddenCall := by
    refine .new (.names (List.cons_ne_nil _ _) hg hcall) ?_
    simp only [List.forall_mem_cons, List.not_mem_nil, false_imp_iff, implies_true, and_true]
    refine ⟨.sequence (by decide) (by decide) ?_,
      .unary (by rintro ⟨⟩) (.name isIdentifier_escaped)⟩
    simp only [List.forall_mem_cons, List.not_mem_nil, false_imp_iff, implies_true, and_true]
    exact ⟨hplain "x" (by decide), hplain "y" (by decide)⟩
  have hs : PrintSettings.HasTexts { minify := .bool true } := ⟨⟨_, rfl⟩, ⟨_, rfl⟩⟩
  obtain ⟨ts, x, -, hcut, hderives, hwritten⟩ := source_derives .ascii hs hiddenCall hwell
  exact ⟨by decide, ts, x, hcut, hderives, hwritten⟩

def starLiteral : Tree := .node (.literal (.regex (.ofText "*") (.atom (.flags .none))))

/-- The literal is printed as the beginning of a comment, which derives no expression. -/
theorem not_derives_star :
    starLiteral.InPlace ∧ toSource {} starLiteral = .ok "/*/" ∧
      ∀ α : Alphabet, ¬∃ ts x, Cut α (Position.print {} .pretty starLiteral).texts
        (ts.flatMap (Token.segments .pretty)) ∧ Derives α .expression ts x := by
  refine ⟨⟨.inr ⟨_, rfl⟩, fun n hn => ?_⟩, by decide, ?_⟩
  · obtain rfl : n = .literal (.regex (.ofText "*") (.atom (.flags .none))) := by
      simpa [starLiteral, Within.node_iff, Node.fields, Tree.ofText] using hn
    simpa [Node.Fits, Node.entries, Role.Holds] using LiteralValue.regex _ _
  · rintro α ⟨ts, x, hcut, hderives⟩
    have htexts : (Position.print {} .pretty starLiteral).texts = [Text.ofString "/*/"] := by decide
    obtain ⟨t, ht⟩ := hderives.exists_text
    have htoken : Segment.token t ∈ ts.flatMap (Token.segments .pretty) :=
      List.mem_flatMap.mpr ⟨_, ht, List.mem_singleton_self _⟩
    rw [htexts] at hcut
    refine hcut.parts ?_ ?_ t htoken
    · rw [List.forall_mem_singleton, tokens?_ascii (by decide)]
      decide
    · rw [List.forall_mem_singleton]
      intro body flags h
      obtain ⟨c, rest, rfl⟩ := List.exists_cons_of_ne_nil h.ne_nil
      have hstar : CodePoint.ofChar '*' = c := (List.cons.inj (List.cons.inj h.text).2).1
      have hstart := h.start
      rw [← hstar] at hstart
      cases hstart

end ScriptTree.Grammar
