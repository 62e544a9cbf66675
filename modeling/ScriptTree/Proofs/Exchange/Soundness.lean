import ScriptTree.Proofs.Exchange.Slots
import ScriptTree.Proofs.Exchange.RoundTrip

/-!
What is read is sound. Every node of a tree that was read holds in each field what is in
place there, a try statement guards against something, and no chain has an operand that it
could have taken in: neither the last operand of an operator chain nor the object of a chain
of accesses.
-/

namespace ScriptTree

/-- The invariants of a node that was read. -/
structure Node.Sound (n : Node Tree) : Prop where
  /-- The node is of some kind. -/
  kind : n.kind? ≠ none
  /-- Every field holds what is in place there, and no slot that asks for a node is empty. -/
  fits : n.Fits false
  /-- A literal is no decimal. -/
  literal : ∀ d, n ≠ .literal (.atom (.decimal d))
  /-- A try statement has a handler or a finalizer with statements. -/
  guarded : ∀ block handler body, n = .tryStatement block handler (.node (.blockStatement body)) →
    handler ≠ .missing ∨ body ≠ .list []
  /-- An operator chain has operands on its right, the last of which is no chain of the same
  operator. -/
  operands : ∀ left op right, n = .binaryExpression left op right →
    ∃ before last, right = .list (before ++ [last]) ∧
      ∀ innerLeft innerRight, last ≠ .node (.binaryExpression innerLeft op innerRight)
  /-- A chain of accesses has indices, and its object is no chain of the same style. -/
  accesses : ∀ object indices computed, n = .memberExpression object indices computed →
    indices ≠ .list [] ∧
      ∀ inner before, object ≠ .node (.memberExpression inner before computed)

def Tree.Sound (t : Tree) : Prop := ∀ n, Within (.node n) t → n.Sound

namespace Exchange

variable {j part : Json} {owner name : String} {t : Tree} {n : Node Tree} {e : Expectation}

section Slots

theorem includes_of_checkCategory {c : Category} {k : Kind}
    (h : Expectation.checkCategory owner name c j (some k) = .ok ()) : c.includes k = true := by
  by_contra hnot
  simp [Expectation.checkCategory, hnot] at h

/-- A value that is read under a category is a node of it, or it is empty and may be. -/
theorem has_of_readAs {c : Category}
    (hcheck : ∀ k?, e.check j k? = .ok () →
      Expectation.checkCategory owner name c j k? = .ok ())
    (h : readAs e j = .ok t) : c.Has t ∨ t = .missing ∧ (j = .null ∨ c = .statement) := by
  rcases readAs_eq_ok.mp h with ⟨-, hnone, rfl⟩ | ⟨-, n, -, -, -, rfl⟩
  · refine .inr ⟨rfl, ?_⟩
    have hempty := hcheck none hnone
    by_contra hnot
    obtain ⟨hnull, hstatement⟩ := not_or.mp hnot
    have hkind : j.kind ≠ .null := fun hkind => hnull (kind_eq_null hkind)
    simp [Expectation.checkCategory, hkind, hstatement] at hempty
  · obtain ⟨-, m, -, ⟨k, -, hm⟩, -, hkind, heq⟩ := readAs_eq_node.mp h
    rw [hm] at hkind
    rw [heq, Category.has_node_iff ((kind?_spliced m).trans hm)]
    exact .inl (includes_of_checkCategory (hcheck (some k) hkind))

theorem fits_child {c : Category} (hobject : part.kind = .object)
    (h : readAs (.child owner name c) part = .ok t) : c.Fits false t := by
  rcases has_of_readAs (fun _ => id) h with hhas | ⟨rfl, rfl | rfl⟩
  · exact .inl hhas
  · simp [Json.kind] at hobject
  · exact .inr ⟨rfl, .inr rfl⟩

theorem fits_optional {c : Category} (h : readAs (.child owner name c) part = .ok t) :
    c.Fits true t := by
  rcases has_of_readAs (fun _ => id) h with hhas | ⟨rfl, -⟩
  · exact .inl hhas
  · exact .inr ⟨rfl, .inl rfl⟩

theorem fits_element {c : Category} {holes : Bool}
    (h : readAs (.element owner name c holes) part = .ok t) : c.Fits holes t := by
  have hcheck (k? : Option Kind)
      (hk : Expectation.check (.element owner name c holes) part k? = .ok ()) :
      Expectation.checkCategory owner name c part k? = .ok () := by
    obtain ⟨-, -, hcategory⟩ := bind_eq_ok.mp hk
    exact hcategory
  rcases has_of_readAs hcheck h with hhas | ⟨rfl, -⟩
  · exact .inl hhas
  · refine .inr ⟨rfl, ?_⟩
    rcases readAs_element_missing h with hstatement | ⟨-, hholes⟩
    · exact .inr hstatement
    · exact .inl hholes

theorem fits_elements {c : Category} {holes : Bool} {items : List Json} {trees : List Tree}
    (h : ReadsAll owner name c holes items trees) : ∀ t ∈ trees, c.Fits holes t := by
  intro t ht
  obtain ⟨item, -, hread⟩ := exists_of_mem_right h ht
  exact fits_element hread

theorem fits_statements {trees : List Tree} (h : ReadsBlock owner j name trees) :
    ∀ t ∈ trees, Category.statement.Fits false t := by
  obtain ⟨_, _, -, -, -, hread⟩ := h
  exact fits_elements hread

end Slots

section Choices

/-- What is expected of a choice decides between its sorts: what is not of the first kind is
of the category of the second. -/
def Role.Decides : Role → Prop
  | .choice e first _ => ∀ part k, e.check part (some k) = .ok () → k ≠ first →
    e.second.includes k = true
  | _ => True

theorem decides_of_mem {entry : Entry} (h : entry ∈ n.entries) : entry.role.Decides := by
  have hkey : Role.Decides (.choice .propertyKey .literal false) := by
    intro part k hcheck hne
    obtain ⟨-, -, hkind⟩ := bind_eq_ok.mp hcheck
    simp only [Option.some.injEq, hne, decide_false, Bool.false_or] at hkind
    by_contra hnot
    simp_all [Expectation.second, Category.includes]
  have hinit : Role.Decides (.choice .forInit .variableDeclaration true) := by
    intro part k hcheck hne
    by_contra hnot
    simp_all [Expectation.check, Expectation.second, Category.includes]
  have hleft : Role.Decides (.choice .forInLeft .variableDeclaration false) := by
    intro part k hcheck hne
    by_contra hnot
    simp_all [Expectation.check, Expectation.second, Category.includes]
  revert entry
  cases n <;> simp [Node.entries, hkey, hinit, hleft] <;> simp [Role.Decides]

/-- A choice by the type of an object is of the first sort if the node is of the first kind,
and otherwise a node of the category of the second. -/
theorem holds_choice {first : Kind} {mayBeEmpty : Bool}
    (hstrict : Role.IsStrict (.choice e first mayBeEmpty))
    (hdecides : Role.Decides (.choice e first mayBeEmpty)) (hobject : part.kind = .object)
    (h : readAs e part = .ok t) :
    Role.Holds false (.choice e first mayBeEmpty)
      (.choice (chooseByType part first.typeName t)) := by
  obtain ⟨hnone, hunary, hbinary⟩ := hstrict
  rcases readAs_eq_ok.mp h with ⟨-, hmissing, -⟩ | ⟨-, n, -, -, -, rfl⟩
  · exact absurd hmissing (hnone part hobject)
  · obtain ⟨-, m, -, ⟨k, -, hm⟩, -, hcheck, heq⟩ := readAs_eq_node.mp h
    have hkind : n.spliced.kind? = some k := by rw [heq, kind?_spliced, hm]
    have htype := hasType_iff h hunary hbinary
    by_cases hfirst : k = first
    · have hhas : hasType part first.typeName = true := htype.mpr (by rw [hkind, hfirst])
      refine .inr (.inl ⟨_, by rw [chooseByType, if_pos hhas], ?_⟩)
      rw [← hfirst]
      exact hkind
    · have hhas : ¬hasType part first.typeName = true := fun hhas => by
        have hk := htype.mp hhas
        rw [hkind] at hk
        exact hfirst (Option.some.inj hk)
      refine .inr (.inr ⟨_, by rw [chooseByType, if_neg hhas], ?_⟩)
      rw [hm] at hcheck
      rw [Category.has_node_iff hkind]
      exact hdecides part k hcheck hfirst

end Choices

section Entries

theorem holds_literal {value : Json} : LiteralValue (scalarTree (scalarOf value)) := by
  cases value <;> constructor

/-- The field that an entry is read from holds what is in place there. -/
theorem Entry.holds {entry : Entry} (hstrict : entry.role.IsStrict)
    (hdecides : entry.role.Decides) (h : entry.Reads owner j) :
    entry.role.Holds false entry.tree := by
  obtain ⟨name, role, t⟩ := entry
  cases role with
  | child c =>
    obtain ⟨part, -, hkind, hread⟩ := h
    exact fits_child (List.mem_singleton.mp hkind) hread
  | optional c =>
    obtain ⟨part, -, -, hread⟩ := h
    exact fits_optional hread
  | elements c holes =>
    obtain ⟨items, trees, -, hread, htree⟩ := h
    exact ⟨trees, htree, by simpa using fits_elements hread⟩
  | sole c =>
    obtain ⟨only, ⟨part, -, hkind, hread⟩, htree⟩ := h
    refine ⟨[only], htree, ?_⟩
    rw [List.forall_mem_singleton]
    exact fits_child (List.mem_singleton.mp hkind) hread
  | statements =>
    obtain ⟨trees, hblock, htree⟩ := h
    exact ⟨trees, htree, fits_statements hblock⟩
  | block =>
    obtain ⟨trees, -, htree⟩ := h
    exact .inl ⟨_, htree⟩
  | finalizer =>
    rcases h with ⟨-, htree⟩ | ⟨trees, -, htree⟩
    · exact .inl ⟨_, htree⟩
    · exact .inl ⟨_, htree⟩
  | choice e first mayBeEmpty =>
    rcases h with ⟨hempty, -, htree⟩ | ⟨part, chosen, -, hobject, hread, htree⟩
    · exact .inl ⟨htree, .inr hempty⟩
    · obtain rfl : t = _ := htree
      exact holds_choice hstrict hdecides hobject hread
  | name =>
    obtain ⟨text, -, htree⟩ := h
    exact ⟨text, htree⟩
  | flag =>
    obtain ⟨b, -, htree⟩ := h
    exact ⟨b, htree⟩
  | propertyKind =>
    obtain ⟨-, kind, -, -, htree⟩ := h
    exact ⟨kind, htree⟩
  | variableKind =>
    obtain ⟨-, kind, -, -, htree⟩ := h
    exact ⟨kind, htree⟩
  | unaryOperator =>
    obtain ⟨-, -, op, -, -, -, htree⟩ := h
    exact ⟨op, htree⟩
  | binaryOperator =>
    obtain ⟨-, op, -, -, htree⟩ := h
    exact ⟨op, htree⟩
  | literal =>
    rcases h with ⟨pattern, flags, -, htree⟩ | ⟨-, value, -, -, htree⟩
    · obtain rfl : t = _ := htree
      exact .regex pattern flags
    · obtain rfl : t = _ := htree
      exact holds_literal

def SoundParts (j : Json) : Prop :=
  ∀ part, sizeOf part < sizeOf j → ∀ e t, readAs e part = .ok t → t.Sound

theorem sound_missing : Tree.Sound .missing := fun _ h => absurd h Within.not_missing

theorem sound_atom (a : Atom) : Tree.Sound (.atom a) := fun _ h => absurd h Within.not_atom

theorem sound_list {items : List Tree} (h : ∀ t ∈ items, t.Sound) : Tree.Sound (.list items) := by
  intro n hn
  obtain ⟨t, ht, hn⟩ := Within.list_iff.mp hn
  exact h t ht n hn

theorem sound_choice {c : Choice Tree} (h : ∀ t, c.value? = some t → t.Sound) :
    Tree.Sound (.choice c) := by
  intro n hn
  obtain ⟨t, ht, hn⟩ := Within.choice_iff.mp hn
  exact h t ht n hn

theorem sound_elements {c : Category} {holes : Bool} {items : List Json} {trees : List Tree}
    (ih : SoundParts j) (hlt : ∀ item ∈ items, sizeOf item < sizeOf j)
    (h : ReadsAll owner name c holes items trees) : ∀ t ∈ trees, t.Sound := by
  intro t ht
  obtain ⟨item, hitem, hread⟩ := exists_of_mem_right h ht
  exact ih item (hlt item hitem) _ t hread

theorem sound_statements {trees : List Tree} (ih : SoundParts j)
    (h : ReadsBlock owner j name trees) : ∀ t ∈ trees, t.Sound := by
  obtain ⟨block, items, hblock, -, hbody, hread⟩ := h
  refine sound_elements ih (fun item hitem => ?_) hread
  have hfield := Json.sizeOf_field?_lt hblock
  have hfield' := Json.sizeOf_field?_lt hbody
  have hmember := List.sizeOf_lt_of_mem hitem
  simp at hfield'
  omega

/-- The block of statements that belongs to a node is sound. -/
theorem sound_block {trees : List Tree} (hfits : ∀ t ∈ trees, Category.statement.Fits false t)
    (h : ∀ t ∈ trees, t.Sound) : Tree.Sound (.node (.blockStatement (.list trees))) := by
  intro n hn
  rcases Within.node_iff.mp hn with rfl | ⟨f, t, hfield, hn⟩
  · refine ⟨by simp [Node.kind?], ?_, by simp, by simp, by simp, by simp⟩
    simp only [Node.Fits, Node.entries, List.forall_mem_singleton]
    exact ⟨trees, rfl, by simpa using hfits⟩
  · simp only [Node.fields, List.mem_singleton, Prod.mk.injEq] at hfield
    obtain ⟨-, rfl⟩ := hfield
    exact sound_list h n hn

/-- The tree that an entry is read as is sound if what is read from the parts is. -/
theorem Entry.sound {entry : Entry} (ih : SoundParts j) (h : entry.Reads owner j) :
    entry.tree.Sound := by
  obtain ⟨name, role, t⟩ := entry
  cases role with
  | child c =>
    obtain ⟨part, hpart, -, hread⟩ := h
    exact ih part (Json.sizeOf_field?_lt hpart) _ t hread
  | optional c =>
    obtain ⟨part, hpart, -, hread⟩ := h
    exact ih part (Json.sizeOf_field?_lt hpart) _ t hread
  | elements c holes =>
    obtain ⟨items, trees, hitems, hread, htree⟩ := h
    obtain rfl : t = _ := htree
    refine sound_list (sound_elements ih (fun item hitem => ?_) hread)
    have hfield := Json.sizeOf_field?_lt hitems
    have hmember := List.sizeOf_lt_of_mem hitem
    simp at hfield
    omega
  | sole c =>
    obtain ⟨only, ⟨part, hpart, -, hread⟩, htree⟩ := h
    obtain rfl : t = _ := htree
    refine sound_list fun t ht => ?_
    obtain rfl := List.mem_singleton.mp ht
    exact ih part (Json.sizeOf_field?_lt hpart) _ t hread
  | statements =>
    obtain ⟨trees, hblock, htree⟩ := h
    obtain rfl : t = _ := htree
    exact sound_list (sound_statements ih hblock)
  | block =>
    obtain ⟨trees, hblock, htree⟩ := h
    obtain rfl : t = _ := htree
    exact sound_block (fits_statements hblock) (sound_statements ih hblock)
  | finalizer =>
    rcases h with ⟨-, htree⟩ | ⟨trees, hblock, htree⟩
    · obtain rfl : t = _ := htree
      exact sound_block (by simp) (by simp)
    · obtain rfl : t = _ := htree
      exact sound_block (fits_statements hblock) (sound_statements ih hblock)
  | choice e first mayBeEmpty =>
    rcases h with ⟨-, -, htree⟩ | ⟨part, chosen, hpart, -, hread, htree⟩
    · obtain rfl : t = _ := htree
      exact sound_choice (by simp [Choice.value?])
    · obtain rfl : t = _ := htree
      refine sound_choice fun t ht => ?_
      rw [value?_chooseByType, Option.some.injEq] at ht
      exact ht ▸ ih part (Json.sizeOf_field?_lt hpart) _ chosen hread
  | name =>
    obtain ⟨text, -, htree⟩ := h
    obtain rfl : t = _ := htree
    exact sound_atom _
  | flag =>
    obtain ⟨b, -, htree⟩ := h
    obtain rfl : t = _ := htree
    exact sound_atom _
  | propertyKind =>
    obtain ⟨-, kind, -, -, htree⟩ := h
    obtain rfl : t = _ := htree
    exact sound_atom _
  | variableKind =>
    obtain ⟨-, kind, -, -, htree⟩ := h
    obtain rfl : t = _ := htree
    exact sound_atom _
  | unaryOperator =>
    obtain ⟨-, -, op, -, -, -, htree⟩ := h
    obtain rfl : t = _ := htree
    exact sound_atom _
  | binaryOperator =>
    obtain ⟨-, op, -, -, htree⟩ := h
    obtain rfl : t = _ := htree
    exact sound_atom _
  | literal =>
    rcases h with ⟨pattern, flags, -, htree⟩ | ⟨-, value, -, -, htree⟩
    · obtain rfl : t = _ := htree
      intro n hn
      simp [Tree.ofText] at hn
    · obtain rfl : t = _ := htree
      cases value <;> simp [scalarOf, scalarTree, sound_missing, sound_atom]

end Entries

section Chains

variable {left object only : Tree} {items : List Tree}

/-- A node is sound if what it holds is and it meets the invariants itself. -/
theorem sound_node (h : n.Sound) (hfields : ∀ entry ∈ n.entries, entry.tree.Sound) :
    Tree.Sound (.node n) := by
  intro m hm
  rcases Within.node_iff.mp hm with rfl | hm
  · exact h
  · obtain ⟨entry, hentry, hm⟩ := exists_entry_iff.mpr hm
    exact hfields entry hentry m hm

theorem sound_operands {op : BinaryOperator} (before : List Tree) {last : Tree}
    (hleft : Category.expression.Fits false left) (hsound : left.Sound)
    (hitems : ∀ t ∈ before ++ [last], Category.expression.Fits false t ∧ t.Sound)
    (hlast : ∀ innerLeft innerRight,
      last ≠ .node (.binaryExpression innerLeft (.ofMember (.binaryOperator op)) innerRight)) :
    Tree.Sound (.node (.binaryExpression left (.ofMember (.binaryOperator op))
      (.list (before ++ [last])))) := by
  refine sound_node ⟨by simp [Node.kind?], ?_, by simp, by simp, ?_, by simp⟩ ?_
  · simp only [Node.Fits, Node.entries, List.forall_mem_cons, List.not_mem_nil, false_implies,
      implies_true, and_true]
    exact ⟨⟨op, rfl⟩, hleft, _, rfl, fun t ht => (hitems t ht).1⟩
  · intro l o r h
    obtain ⟨-, rfl, rfl⟩ := Node.binaryExpression.inj h
    exact ⟨before, last, rfl, hlast⟩
  · simp only [Node.entries, List.forall_mem_cons, List.not_mem_nil, false_implies,
      implies_true, and_true]
    exact ⟨sound_atom _, hsound, sound_list fun t ht => (hitems t ht).2⟩

theorem sound_accesses {computed : Bool}
    (hobject : Category.expression.Fits false object) (hsound : object.Sound)
    (hitems : ∀ t ∈ items, Category.expression.Fits false t ∧ t.Sound) (hne : items ≠ [])
    (hstyle : ∀ inner before,
      object ≠ .node (.memberExpression inner before (.atom (.bool computed)))) :
    Tree.Sound (.node (.memberExpression object (.list items) (.atom (.bool computed)))) := by
  refine sound_node ⟨by simp [Node.kind?], ?_, by simp, by simp, by simp, ?_⟩ ?_
  · simp only [Node.Fits, Node.entries, List.forall_mem_cons, List.not_mem_nil, false_implies,
      implies_true, and_true]
    exact ⟨hobject, ⟨items, rfl, fun t ht => (hitems t ht).1⟩, computed, rfl⟩
  · intro o i c h
    obtain ⟨rfl, rfl, rfl⟩ := Node.memberExpression.inj h
    exact ⟨by simpa using hne, hstyle⟩
  · simp only [Node.entries, List.forall_mem_cons, List.not_mem_nil, false_implies,
      implies_true, and_true]
    exact ⟨hsound, sound_list fun t ht => (hitems t ht).2, sound_atom _⟩

/-- What an operator chain that was read holds. -/
theorem Sound.operator_chain {l o r : Tree} (h : Tree.Sound (.node (.binaryExpression l o r))) :
    ∃ op before last, o = .ofMember (.binaryOperator op) ∧ r = .list (before ++ [last]) ∧
      (Category.expression.Fits false l ∧ l.Sound) ∧
      (∀ t ∈ before ++ [last], Category.expression.Fits false t ∧ t.Sound) ∧
      ∀ innerLeft innerRight, last ≠ .node (.binaryExpression innerLeft o innerRight) := by
  have hn := h _ .refl
  obtain ⟨before, last, rfl, hlast⟩ := hn.operands l o r rfl
  have hfits := hn.fits
  simp only [Node.Fits, Node.entries, List.forall_mem_cons, List.not_mem_nil, false_implies,
    implies_true, and_true] at hfits
  obtain ⟨⟨op, ho⟩, hl, items, hitems, hfit⟩ := hfits
  obtain rfl := Tree.list.inj hitems
  have hsound (t : Tree) (f : Field) (ht : (f, t) ∈ (Node.binaryExpression l o
      (.list (before ++ [last]))).fields) : t.Sound := fun m hm => h m (.field ht hm)
  have hright := hsound (.list (before ++ [last])) .right (by simp [Node.fields])
  exact ⟨op, before, last, ho, rfl, ⟨hl, hsound l .left (by simp [Node.fields])⟩,
    fun t ht => ⟨hfit t ht, fun m hm => hright m (.item ht hm)⟩, hlast⟩

/-- What a chain of accesses that was read holds. -/
theorem Sound.access_chain {o i c : Tree} (h : Tree.Sound (.node (.memberExpression o i c))) :
    ∃ first rest computed, i = .list (first :: rest) ∧ c = .atom (.bool computed) ∧
      (Category.expression.Fits false o ∧ o.Sound) ∧
      (∀ t ∈ first :: rest, Category.expression.Fits false t ∧ t.Sound) ∧
      ∀ inner before, o ≠ .node (.memberExpression inner before c) := by
  have hn := h _ .refl
  obtain ⟨hne, hstyle⟩ := hn.accesses o i c rfl
  have hfits := hn.fits
  simp only [Node.Fits, Node.entries, List.forall_mem_cons, List.not_mem_nil, false_implies,
    implies_true, and_true] at hfits
  obtain ⟨ho, ⟨items, hitems, hfit⟩, computed, hc⟩ := hfits
  obtain rfl : i = .list items := hitems
  cases items with
  | nil => exact absurd rfl hne
  | cons first rest =>
    have hsound (t : Tree) (f : Field) (ht : (f, t) ∈ (Node.memberExpression o
        (.list (first :: rest)) c).fields) : t.Sound := fun m hm => h m (.field ht hm)
    have hindices := hsound (.list (first :: rest)) .indices (by simp [Node.fields])
    exact ⟨first, rest, computed, rfl, hc, ⟨ho, hsound o .object (by simp [Node.fields])⟩,
      fun t ht => ⟨hfit t ht, fun m hm => hindices m (.item ht hm)⟩, hstyle⟩

theorem spliced_operand {op : Atom}
    (h : ∀ l o r, only ≠ .node (.binaryExpression l (.atom o) (.list r))) :
    Node.spliced (.binaryExpression left (.atom op) (.list [only])) =
      .binaryExpression left (.atom op) (.list [only]) := by
  unfold Node.spliced
  split
  · next heq =>
    obtain ⟨-, -, heq⟩ := Node.binaryExpression.inj heq
    exact absurd (List.head_eq_of_cons_eq (Tree.list.inj heq)) (h _ _ _)
  · next heq => cases heq
  · rfl

theorem spliced_object {index : Tree} {computed : Atom}
    (h : ∀ o i c, object ≠ .node (.memberExpression o (.list i) (.atom c))) :
    Node.spliced (.memberExpression object (.list [index]) (.atom computed)) =
      .memberExpression object (.list [index]) (.atom computed) := by
  unfold Node.spliced
  split
  · next heq => cases heq
  · next heq =>
    obtain ⟨heq, -, -⟩ := Node.memberExpression.inj heq
    exact absurd heq (h _ _ _)
  · rfl

/-- Taking in the operand of an application keeps it sound. -/
theorem sound_spliced_operand {op : BinaryOperator}
    (hleft : Category.expression.Fits false left) (hsound : left.Sound)
    (honly : Category.expression.Fits false only) (honlySound : only.Sound) :
    Tree.Sound (.node (Node.spliced (.binaryExpression left (.ofMember (.binaryOperator op))
      (.list [only])))) := by
  by_cases hchain : ∃ l o r, only = .node (.binaryExpression l o r)
  · obtain ⟨l, o, r, rfl⟩ := hchain
    obtain ⟨innerOp, before, last, rfl, rfl, hl, hitems, hlast⟩ :=
      Sound.operator_chain honlySound
    by_cases hop : innerOp = op
    · subst hop
      have hspliced : Node.spliced (.binaryExpression left (.ofMember (.binaryOperator innerOp))
          (.list [.node (.binaryExpression l (.ofMember (.binaryOperator innerOp))
            (.list (before ++ [last])))])) =
          .binaryExpression left (.ofMember (.binaryOperator innerOp))
            (.list ((l :: before) ++ [last])) := by
        simp [Node.spliced, Tree.ofMember]
      rw [hspliced]
      refine sound_operands (l :: before) hleft hsound ?_ hlast
      rw [List.cons_append, List.forall_mem_cons]
      exact ⟨hl, hitems⟩
    · have hspliced : Node.spliced (.binaryExpression left (.ofMember (.binaryOperator op))
          (.list [.node (.binaryExpression l (.ofMember (.binaryOperator innerOp))
            (.list (before ++ [last])))])) =
          .binaryExpression left (.ofMember (.binaryOperator op))
            (.list [.node (.binaryExpression l (.ofMember (.binaryOperator innerOp))
              (.list (before ++ [last])))]) := by
        simp [Node.spliced, Tree.ofMember, hop]
      rw [hspliced]
      refine sound_operands [] hleft hsound ?_ ?_
      · simpa using ⟨honly, honlySound⟩
      · intro innerLeft innerRight heq
        simp [Tree.ofMember, hop] at heq
  · rw [Tree.ofMember, spliced_operand fun l o r h => hchain ⟨l, _, _, h⟩]
    refine sound_operands [] hleft hsound ?_ ?_
    · simpa using ⟨honly, honlySound⟩
    · exact fun l r h => hchain ⟨l, _, r, h⟩

/-- Taking in the object of an access keeps it sound. -/
theorem sound_spliced_object {index : Tree} {computed : Bool}
    (hobject : Category.expression.Fits false object) (hsound : object.Sound)
    (hindex : Category.expression.Fits false index) (hindexSound : index.Sound) :
    Tree.Sound (.node (Node.spliced (.memberExpression object (.list [index])
      (.atom (.bool computed))))) := by
  by_cases hchain : ∃ o i c, object = .node (.memberExpression o i c)
  · obtain ⟨o, i, c, rfl⟩ := hchain
    obtain ⟨first, rest, style, rfl, rfl, ho, hitems, hstyle⟩ := Sound.access_chain hsound
    by_cases hcomputed : style = computed
    · subst hcomputed
      have hspliced : Node.spliced (.memberExpression (.node (.memberExpression o
          (.list (first :: rest)) (.atom (.bool style)))) (.list [index]) (.atom (.bool style))) =
          .memberExpression o (.list (first :: rest ++ [index])) (.atom (.bool style)) := by
        simp [Node.spliced]
      rw [hspliced]
      refine sound_accesses ho.1 ho.2 ?_ (by simp) hstyle
      intro t ht
      rcases List.mem_append.mp ht with ht | ht
      · exact hitems t ht
      · rw [List.mem_singleton.mp ht]
        exact ⟨hindex, hindexSound⟩
    · have hspliced : Node.spliced (.memberExpression (.node (.memberExpression o
          (.list (first :: rest)) (.atom (.bool style)))) (.list [index])
            (.atom (.bool computed))) =
          .memberExpression (.node (.memberExpression o (.list (first :: rest))
            (.atom (.bool style)))) (.list [index]) (.atom (.bool computed)) := by
        simp [Node.spliced, hcomputed]
      rw [hspliced]
      refine sound_accesses hobject hsound ?_ (by simp) ?_
      · simpa using ⟨hindex, hindexSound⟩
      · intro inner before heq
        simp [hcomputed] at heq
  · rw [spliced_object fun o i c h => hchain ⟨o, _, _, h⟩]
    refine sound_accesses hobject hsound ?_ (by simp) ?_
    · simpa using ⟨hindex, hindexSound⟩
    · exact fun o i h => hchain ⟨o, i, _, h⟩

theorem spliced_regular {k : Kind} (h : n.kind? = some k) (hbinary : k ≠ .binaryExpression)
    (hmember : k ≠ .memberExpression) : n.spliced = n := by
  cases n <;> simp_all [Node.kind?, Node.spliced]

end Chains

section Nodes

/-- A node that stands in an object is sound once its chains are spliced. -/
theorem sound_of_standsIn {k : Kind} (ih : SoundParts j) (hn : n.kind? = some k)
    (h : StandsIn owner j n) : Tree.Sound (.node n.spliced) := by
  have hholds (entry : Entry) (hentry : entry ∈ n.entries) :
      entry.role.Holds false entry.tree ∧ entry.tree.Sound :=
    ⟨Entry.holds (isStrict_of_mem hentry) (decides_of_mem hentry) (h.reads entry hentry),
      Entry.sound ih (h.reads entry hentry)⟩
  by_cases hbinary : k = .binaryExpression
  · subst hbinary
    obtain ⟨value, rfl⟩ := exists_of_kind? hn
    obtain ⟨only, honly, -⟩ := only_of_sole (by decide)
      (h.reads ⟨"right", .sole .expression, value .right⟩ (by simp [Kind.node, Node.entries]))
    simp only [Kind.node, Node.entries, List.forall_mem_cons, List.not_mem_nil, false_implies,
      implies_true, and_true, honly] at hholds ⊢
    obtain ⟨⟨⟨op, hop⟩, -⟩, ⟨hleft, hleftSound⟩, ⟨items, hitems, hfits⟩, hsound⟩ := hholds
    obtain rfl := Tree.list.inj hitems
    rw [hop]
    exact sound_spliced_operand hleft hleftSound (hfits only (by simp))
      fun m hm => hsound m (.item (by simp) hm)
  · by_cases hmember : k = .memberExpression
    · subst hmember
      obtain ⟨value, rfl⟩ := exists_of_kind? hn
      obtain ⟨index, hindex, -⟩ := only_of_sole (by decide)
        (h.reads ⟨"property", .sole .expression, value .indices⟩
          (by simp [Kind.node, Node.entries]))
      simp only [Kind.node, Node.entries, List.forall_mem_cons, List.not_mem_nil, false_implies,
        implies_true, and_true, hindex] at hholds ⊢
      obtain ⟨⟨hobject, hobjectSound⟩, ⟨⟨items, hitems, hfits⟩, hsound⟩,
          ⟨computed, hcomputed⟩, -⟩ :=
        hholds
      obtain rfl := Tree.list.inj hitems
      rw [hcomputed]
      exact sound_spliced_object hobject hobjectSound (hfits index (by simp))
        fun m hm => hsound m (.item (by simp) hm)
    · rw [spliced_regular hn hbinary hmember]
      refine sound_node ⟨by simp [hn], fun entry hentry => (hholds entry hentry).1, ?_, ?_, ?_, ?_⟩
        fun entry hentry => (hholds entry hentry).2
      · rintro d rfl
        have hvalue := h.reads ⟨"value", .literal, .atom (.decimal d)⟩ (by simp [Node.entries])
        rcases hvalue with ⟨_, _, -, htree⟩ | ⟨-, value, -, -, htree⟩
        · cases htree
        · cases value <;> cases htree
      · rintro block handler body rfl
        by_contra hnot
        simp only [not_or, not_not] at hnot
        obtain ⟨rfl, rfl⟩ := hnot
        exact h.guarded block rfl
      · rintro left op right rfl
        exact absurd (Option.some.inj hn).symm hbinary
      · rintro object indices computed rfl
        exact absurd (Option.some.inj hn).symm hmember

/-- Whatever is expected of a value, what it is read as is sound. -/
theorem sound_of_readAs (h : readAs e j = .ok t) : t.Sound := by
  -- The parts of an object are smaller than it, so what is read from them is sound already.
  induction hsize : sizeOf j using Nat.strong_induction_on generalizing j e t with
  | h size ih =>
    have hparts : SoundParts j := fun part hlt e t hread =>
      ih (sizeOf part) (hsize ▸ hlt) hread rfl
    rcases readAs_eq_ok.mp h with ⟨-, -, rfl⟩ | ⟨-, n, -, -, -, rfl⟩
    · exact sound_missing
    · obtain ⟨nodeType, m, -, ⟨k, -, hm⟩, hstands, -, heq⟩ := readAs_eq_node.mp h
      rw [heq]
      exact sound_of_standsIn hparts hm hstands

/-- Every node of every tree that is read meets the invariants of nodes. -/
theorem sound_of_read (h : read j = .ok t) (hn : Within (.node n) t) : n.Sound :=
  sound_of_readAs h n hn

def thisObject : Json := .object [("type", .text "ThisExpression")]

def accessObject (object index : Json) : Json :=
  .object [("type", .text "MemberExpression"), ("object", object), ("property", index),
    ("computed", .bool true)]

theorem readAs_thisObject (hcheck : e.check thisObject (some .thisExpression) = .ok ()) :
    readAs e thisObject = .ok (.node .thisExpression) :=
  readAs_eq_node.mpr ⟨.kind .thisExpression, .thisExpression, field?_single _ _,
    ⟨_, rfl, rfl⟩, ⟨by simp [Node.entries], by simp⟩, hcheck, rfl⟩

theorem readAs_accessObject {object index : Json} {o i : Tree}
    (hobject : readAs (.child "MemberExpression" "object" .expression) object = .ok o)
    (hindex : readAs (.child "MemberExpression" "property" .expression) index = .ok i)
    (hobjectKind : object.kind = .object) (hindexKind : index.kind = .object)
    (hcheck : e.check (accessObject object index) (some .memberExpression) = .ok ()) :
    readAs e (accessObject object index) =
      .ok (.node (Node.spliced (.memberExpression o (.list [i]) (.atom (.bool true))))) := by
  refine readAs_eq_node.mpr ⟨.kind .memberExpression, .memberExpression o (.list [i])
    (.atom (.bool true)), rfl, ⟨_, rfl, rfl⟩, ⟨?_, by simp⟩, hcheck, rfl⟩
  simp only [Node.entries, List.forall_mem_cons, List.not_mem_nil, false_implies, implies_true,
    and_true]
  refine ⟨⟨object, ?_, by simp [hobjectKind], hobject⟩, ⟨i, ⟨index, ?_, by simp [hindexKind],
    hindex⟩, rfl⟩, true, ?_, rfl⟩
  · simp [accessObject, Json.field?, Json.lookup?]
  · simp [accessObject, Json.field?, Json.lookup?]
  · simp [accessObject, Json.field?, Json.lookup?]

theorem sound_of_read_accesses :
    ∃ t n, read (accessObject (accessObject thisObject thisObject) thisObject) = .ok t ∧
      t = .node n ∧ n.Sound := by
  have hinner := readAs_accessObject
    (e := .child "MemberExpression" "object" .expression) (readAs_thisObject rfl)
    (readAs_thisObject rfl) rfl rfl rfl
  have hread : read (accessObject (accessObject thisObject thisObject) thisObject) = .ok _ :=
    readAs_accessObject hinner (readAs_thisObject rfl) rfl rfl rfl
  exact ⟨_, _, hread, rfl, sound_of_read hread .refl⟩

end Nodes

end Exchange

end ScriptTree
