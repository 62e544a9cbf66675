import ScriptTree.Proofs.Exchange.Rounding

/-!
Directives in JSON. A statement that is a string literal is written with the string in a field
of its own. A chain without operands or indices is written as the expression it starts with, so
a statement of such a chain may be written as one of a string literal, without that field. In no
other way does a statement gain or lose its directive when it is written and read.
-/

namespace ScriptTree

/-- The expression that is written for a tree: a chain without operands or indices leaves what
it starts with. -/
def Tree.unchained : Tree → Tree
  | .node (.binaryExpression left _ (.list [])) => left.unchained
  | .node (.memberExpression object (.list []) _) => object.unchained
  | t => t

def Tree.string? : Tree → Option Text
  | .node (.literal value) => value.text?
  | _ => none

structure Tree.Linked (t : Tree) : Prop where
  operands : ∀ left op, t ≠ .node (.binaryExpression left op (.list []))
  indices : ∀ object computed, t ≠ .node (.memberExpression object (.list []) computed)

def Tree.HidesString (t : Tree) : Prop := t.string? = none ∧ t.unchained.string?.isSome

def Json.IsStringLiteral (j : Json) : Prop :=
  j.field? "type" = some (.text "Literal") ∧ ∃ text, j.field? "value" = some (.text text)

namespace Exchange

/-- The object that a statement is written as names its directive exactly if it holds a string
literal, and is read as a statement with the directive of the first. -/
def KeepsDirective (s : Tree) (j : Json) : Prop :=
  ((j.field? "directive").isSome ↔
      ∃ expression, j.field? "expression" = some expression ∧ expression.IsStringLiteral) ∧
    ∃ r, read j = .ok r ∧ r.directive? = s.directive?

variable {t e : Tree} {a j : Json}

section Chains

theorem directive?_statement (e : Tree) :
    Tree.directive? (.node (.expressionStatement e)) = e.string? := by
  rcases e with _ | _ | _ | _ | _ | n
  case node => cases n <;> rfl
  all_goals rfl

theorem unchained_linked (h : t.Linked) : t.unchained = t :=
  Tree.unchained.eq_3 t h.operands h.indices

theorem unchained_of_string? {text : Text} (h : t.string? = some text) : t.unchained = t := by
  unfold Tree.string? at h
  split at h
  · rfl
  · cases h

/-- A chain without links is written as what is left of it. -/
theorem write_unchained {owner field : String}
    (h : writeOr (required owner field) t = .ok (.ok a)) :
    ∃ owner field, writeOr (required owner field) t.unchained = .ok (.ok a) := by
  induction t using Tree.unchained.induct generalizing owner field with
  | case1 left op ih =>
    have hfalse : (Tree.list []).isTrue = false := rfl
    exact ih (by simpa [writeOr, writeNode, hfalse, bind_eq_ok, pure_eq_ok] using h)
  | case2 object computed ih =>
    exact ih (by simpa [writeOr, writeNode, writeItems, writeAll, accesses, bind_eq_ok, pure_eq_ok]
      using h)
  | case3 t hbinary hmember =>
    rw [unchained_linked ⟨hbinary, hmember⟩]
    exact ⟨owner, field, h⟩

theorem canonical_unchained (t : Tree) : t.rounded.canonical = t.unchained.rounded.canonical := by
  induction t using Tree.unchained.induct with
  | case1 left op ih =>
    rw [Tree.unchained, ← ih]
    simp [Tree.rounded_node, Tree.canonical_node, Node.map, Node.mapFields, Node.rounded,
      Node.canonical]
  | case2 object computed ih =>
    rw [Tree.unchained, ← ih]
    simp [Tree.rounded_node, Tree.canonical_node, Node.map, Node.mapFields, Node.rounded,
      Node.canonical]
  | case3 t hbinary hmember => rw [unchained_linked ⟨hbinary, hmember⟩]

theorem within_unchained (t : Tree) : Within t.unchained t := by
  induction t using Tree.unchained.induct with
  | case1 left op ih => exact .trans ih (.field (f := .left) (by simp [Node.fields]) .refl)
  | case2 object computed ih =>
    exact .trans ih (.field (f := .object) (by simp [Node.fields]) .refl)
  | case3 t hbinary hmember =>
    rw [unchained_linked ⟨hbinary, hmember⟩]
    exact .refl

theorem linked_unchained (t : Tree) : t.unchained.Linked := by
  induction t using Tree.unchained.induct with
  | case1 left op ih => exact ih
  | case2 object computed ih => exact ih
  | case3 t hbinary hmember =>
    rw [unchained_linked ⟨hbinary, hmember⟩]
    exact ⟨hbinary, hmember⟩

theorem kind?_canonical_access (object first : Tree) (rest : List Tree) (computed : Atom) :
    (Node.canonical (.memberExpression object (.list (first :: rest)) (.atom computed))).kind? =
      some .memberExpression := by
  by_cases hchain : ∃ o i c, object = .node (.memberExpression o (.list i) (.atom c))
  · obtain ⟨o, i, c, rfl⟩ := hchain
    by_cases hc : c = computed <;> simp [Node.canonical, hc, Tree.kind?, Tree.view, View.kind?,
      Node.kind?]
  · rw [canonical_access_apart fun o i c h => hchain ⟨o, i, c, h⟩]
    rfl

/-- A node with links keeps its kind. -/
theorem kind?_canonical {n : Node Tree} (hfits : n.Fits true) (hlinked : (Tree.node n).Linked) :
    (Tree.node n).rounded.canonical.kind? = n.kind? := by
  rw [Tree.rounded_node, Tree.canonical_node]
  cases n with
  | binaryExpression left operator right =>
    simp only [Node.Fits, Node.entries, List.forall_mem_cons] at hfits
    obtain ⟨⟨op, rfl⟩, -, ⟨items, rfl, -⟩, -⟩ := hfits
    cases items with
    | nil => exact absurd rfl (hlinked.operands left _)
    | cons first rest => rfl
  | memberExpression object indices computed =>
    simp only [Node.Fits, Node.entries, List.forall_mem_cons] at hfits
    obtain ⟨-, ⟨items, rfl, -⟩, ⟨c, rfl⟩, -⟩ := hfits
    cases items with
    | nil => exact absurd rfl (hlinked.indices object _)
    | cons first rest => exact kind?_canonical_access _ _ _ _
  | _ => rfl

end Chains

section Literals

variable {n : Node Tree} {value : Tree}

theorem doubleDraft_eq_ok {d : Double} (h : doubleDraft d = .ok a) : a = .double d := by
  unfold doubleDraft at h
  split at h
  · exact (Except.ok.inj h).symm
  · cases h

/-- Only a string is written as one. -/
theorem isText_scalarDraft (h : LiteralValue value) (hwrite : scalarDraft value = .ok (.ok a)) :
    (∃ text, a = .text text) ↔ value.text?.isSome := by
  cases h with
  | text text =>
    obtain rfl := Except.ok.inj (Except.ok.inj hwrite)
    simp [Tree.text?, Tree.view, View.text?, Atom.text?]
  | double d =>
    rw [scalarDraft] at hwrite
    split at hwrite
    · obtain rfl := Except.ok.inj (Except.ok.inj hwrite)
      simp [Tree.text?, Tree.view, View.text?, Atom.text?]
    · cases hwrite
  | decimal d =>
    rw [scalarDraft] at hwrite
    split at hwrite
    · obtain rfl := doubleDraft_eq_ok (Except.ok.inj hwrite)
      simp [Tree.text?, Tree.view, View.text?, Atom.text?]
    · cases hwrite
  | regex pattern flags => cases hwrite
  | _ =>
    obtain rfl := Except.ok.inj (Except.ok.inj hwrite)
    simp [Tree.text?, Tree.view, View.text?, Atom.text?]

theorem isStringLiteral_literal (h : LiteralValue value)
    (hwrite : writeNode (.literal value) = .ok (.ok a)) :
    a.IsStringLiteral ↔ value.text?.isSome := by
  rw [writeNode] at hwrite
  by_cases hregex : ∃ pattern flags, value = .regex pattern flags
  · obtain ⟨pattern, flags, rfl⟩ := hregex
    cases h
    obtain rfl := Except.ok.inj (Except.ok.inj hwrite)
    simp [Json.IsStringLiteral, Json.field?, Json.lookup?, Tree.text?, Tree.view, View.text?]
  · rw [literalDraft.eq_2 _ fun pattern flags heq => hregex ⟨pattern, flags, heq⟩] at hwrite
    simp only [typed, bind_eq_ok, pure_eq_ok] at hwrite
    obtain ⟨_, hvalue, _, hfields, rfl⟩ := hwrite
    obtain ⟨b, rfl, rfl⟩ := draftFields_single.mp hfields
    rw [← isText_scalarDraft h hvalue]
    simp [Json.IsStringLiteral, Json.field?, Json.lookup?]

theorem string?_canonical_literal (h : LiteralValue value) :
    (Tree.node (.literal value)).rounded.canonical.string? = value.text? := by
  cases h with
  | decimal d =>
    cases hwritable : d.isWritable
    all_goals
      simp [Tree.rounded_node, Tree.canonical_node, Node.map, Node.mapFields, Node.rounded,
        Node.canonical, Tree.writtenValue, hwritable, Tree.string?, Tree.text?, Tree.view,
        View.text?, Atom.text?]
  | _ => rfl

theorem string?_eq_none (h : t.kind? ≠ some .literal) : t.string? = none := by
  unfold Tree.string?
  split
  · exact absurd rfl h
  · rfl

theorem string?_canonical (hplace : t.InPlace) :
    t.rounded.canonical.string? = t.unchained.string? := by
  rw [canonical_unchained]
  have hfits : ∀ n, t.unchained = .node n → n.Fits true :=
    fun n hn => hplace.2 n (hn ▸ within_unchained t)
  have hlinked := linked_unchained t
  generalize t.unchained = left at hfits hlinked
  cases left with
  | node n =>
    have hkind := kind?_canonical (hfits n rfl) hlinked
    by_cases hliteral : n.kind? = some .literal
    · cases n with
      | literal value =>
        exact string?_canonical_literal (fits_literal_iff.mp (hfits _ rfl))
      | _ => cases hliteral
    · rw [string?_eq_none (hkind ▸ hliteral), string?_eq_none (t := .node n) hliteral]
  | list items =>
    rw [Tree.rounded_list, Tree.canonical_list]
    rfl
  | choice c =>
    rw [Tree.rounded_choice, Tree.canonical_choice]
    rfl
  | _ => rfl

/-- Only a literal is written as an object of that type. -/
theorem hasType_written {k : Kind} (hplace : Tree.InPlace (.node n)) (hn : n.kind? = some k)
    (hlinked : (Tree.node n).Linked) (hwrite : writeNode n = .ok (.ok a)) :
    hasType a "Literal" = true ↔ k = .literal := by
  have hread := read_of_written hplace (bind_eq_ok.mpr ⟨_, hwrite, rfl⟩)
  have hkind := kind?_canonical (hplace.2 n .refl) hlinked
  obtain ⟨m, hm, hmk⟩ := node_of_kind? (hkind.trans hn)
  rw [hm, read_eq_readAs] at hread
  have htype := hasType_iff (k := .literal) hread (by decide) (by decide)
  rw [hmk, Option.some.injEq] at htype
  exact htype

/-- What is written for an expression is a string literal if a string is left of it. -/
theorem isStringLiteral_iff {owner field : String} (hplace : t.InPlace)
    (h : writeOr (required owner field) t = .ok (.ok a)) :
    a.IsStringLiteral ↔ t.unchained.string?.isSome := by
  obtain ⟨owner, field, hwrite⟩ := write_unchained h
  have hfits : ∀ n, Within (.node n) t.unchained → n.Fits true :=
    fun n hn => hplace.2 n (hn.trans (within_unchained t))
  have hlinked := linked_unchained t
  generalize t.unchained = left at hwrite hfits hlinked
  cases left with
  | node n =>
    cases hk : n.kind? with
    | none =>
      cases n with
      | bare cls => cases hwrite
      | _ => cases hk
    | some k =>
      have htype := hasType_written ⟨.inr ⟨n, rfl⟩, hfits⟩ hk hlinked hwrite
      -- The fields of other nodes do not matter, since their type tells them apart.
      by_cases hliteral : k = .literal
      · subst hliteral
        cases n with
        | literal value =>
          exact isStringLiteral_literal (fits_literal_iff.mp (hfits _ .refl)) hwrite
        | _ => cases hk
      · rw [string?_eq_none (t := .node n) (by simpa [Tree.kind?, Tree.view, View.kind?, hk])]
        have hother : ¬a.IsStringLiteral := by
          rintro ⟨hfield, -⟩
          exact hliteral (htype.mp (by simp [hasType, hfield]))
        simpa using hother
  | _ => simp [writeOr, required] at hwrite

end Literals

section Statements

theorem statement_eq_ok (hwrite : write (.node (.expressionStatement e)) = .ok j) :
    ∃ a, writeOr (required "ExpressionStatement" "expression") e = .ok (.ok a) ∧
      j.field? "expression" = some a ∧ j.field? "directive" = e.string?.map .text := by
  rw [write, writeOr, writeNode, directive?_statement] at hwrite
  simp only [bind_eq_ok] at hwrite
  obtain ⟨_, ⟨written, hwritten, hrest⟩, rfl⟩ := hwrite
  cases hstring : e.string? with
  | none =>
    rw [hstring] at hrest
    have htyped := Except.ok.inj hrest
    simp only [typed, bind_eq_ok, pure_eq_ok, draftFields_single] at htyped
    obtain ⟨_, ⟨a, rfl, rfl⟩, rfl⟩ := htyped
    exact ⟨a, hwritten, by simp [Json.field?, Json.lookup?], by simp [Json.field?, Json.lookup?]⟩
  | some text =>
    rw [hstring] at hrest
    have htyped := Except.ok.inj hrest
    simp only [typed, bind_eq_ok, pure_eq_ok] at htyped
    obtain ⟨_, hfields, rfl⟩ := htyped
    rw [← List.singleton_append] at hfields
    obtain ⟨as, bs, has, hbs, rfl⟩ := draftFields_append_eq_ok hfields
    obtain ⟨a, rfl, rfl⟩ := draftFields_single.mp has
    obtain ⟨b, hb, rfl⟩ := draftFields_single.mp hbs
    obtain rfl := Except.ok.inj hb
    exact ⟨a, hwritten, by simp [Json.field?, Json.lookup?], by simp [Json.field?, Json.lookup?]⟩

/-- Writing a statement and reading it again keeps its directive unless its expression is written
as a string literal without being one. -/
theorem keepsDirective_iff (hplace : Tree.InPlace (.node (.expressionStatement e)))
    (hwrite : write (.node (.expressionStatement e)) = .ok j) :
    KeepsDirective (.node (.expressionStatement e)) j ↔ ¬e.HidesString := by
  obtain ⟨a, ha, hexpression, hdirective⟩ := statement_eq_ok hwrite
  have hinner : e.InPlace := by
    refine ⟨?_, fun n hn => hplace.2 n (.field (f := .expression) (by simp [Node.fields]) hn)⟩
    cases e with
    | missing => exact .inl rfl
    | node n => exact .inr ⟨n, rfl⟩
    | _ => simp [writeOr] at ha
  have hread : read j = .ok (.node (.expressionStatement e.rounded.canonical)) :=
    read_of_written hplace hwrite
  have hnamed : (j.field? "directive").isSome = e.string?.isSome := by
    rw [hdirective, Option.isSome_map]
  have hwritten := isStringLiteral_iff hinner ha
  have hback := string?_canonical hinner
  simp only [KeepsDirective, hnamed, hexpression, Option.some.injEq, exists_eq_left', hwritten,
    hread, Except.ok.injEq, directive?_statement, hback, Tree.HidesString]
  cases hstring : e.string? with
  | none => simp
  | some text => simp [unchained_of_string? hstring, hstring]

def emptyAccess (value : Atom) : Tree :=
  .node (.memberExpression (.node (.literal (.atom value))) (.list []) (.atom (.bool false)))

theorem inPlace_emptyAccess {value : Atom} (h : LiteralValue (.atom value)) :
    Tree.InPlace (.node (.expressionStatement (emptyAccess value))) := by
  refine ⟨.inr ⟨_, rfl⟩, fun n hn => ?_⟩
  simp only [emptyAccess, Within.node_iff, Node.fields, List.mem_cons, Prod.mk.injEq, or_and_right,
    exists_or, and_assoc, exists_and_left, exists_eq_left, List.not_mem_nil, false_and,
    exists_false, Within.list_iff, Within.not_atom, or_false] at hn
  have hexpression {n : Node Tree} (hn : n.isExpression = true) :
      Category.expression.Fits true (.node n) := .inl hn
  rcases hn with rfl | rfl | rfl
  · intro entry hentry
    obtain rfl := List.mem_singleton.mp hentry
    exact hexpression rfl
  · simp only [Node.Fits, Node.entries, List.forall_mem_cons]
    exact ⟨hexpression rfl, ⟨_, rfl, by simp⟩, ⟨false, rfl⟩, by simp⟩
  · exact fits_literal_iff.mpr h

theorem keepsDirective_number :
    ∃ j, write (.node (.expressionStatement (emptyAccess (.int 1)))) = .ok j ∧
      KeepsDirective (.node (.expressionStatement (emptyAccess (.int 1)))) j := by
  have hwrite : write (.node (.expressionStatement (emptyAccess (.int 1)))) = .ok _ := rfl
  refine ⟨_, hwrite, (keepsDirective_iff (inPlace_emptyAccess (.int 1)) hwrite).mpr ?_⟩
  rintro ⟨-, hstring⟩
  cases hstring

/-- A statement that hides a string is written as a directive without the field. -/
theorem not_keepsDirective_string :
    Tree.InPlace (.node (.expressionStatement (emptyAccess (.text "use strict")))) ∧
      ∃ j, write (.node (.expressionStatement (emptyAccess (.text "use strict")))) = .ok j ∧
        ¬KeepsDirective (.node (.expressionStatement (emptyAccess (.text "use strict")))) j := by
  have hwrite : write (.node (.expressionStatement (emptyAccess (.text "use strict")))) =
      .ok (.object [("type", .text "ExpressionStatement"),
        ("expression", .object [("type", .text "Literal"), ("value", .text "use strict")])]) := rfl
  refine ⟨inPlace_emptyAccess (.text _), _, hwrite, ?_⟩
  rintro ⟨hnamed, -⟩
  have hliteral : Json.IsStringLiteral
      (.object [("type", .text "Literal"), ("value", .text "use strict")]) := by
    simp [Json.IsStringLiteral, Json.field?, Json.lookup?]
  have hfield := hnamed.mpr ⟨_, by simp [Json.field?, Json.lookup?], hliteral⟩
  simp [Json.field?, Json.lookup?] at hfield

end Statements

end Exchange

end ScriptTree
