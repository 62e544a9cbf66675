import ScriptTree.Proofs.Exchange.Normalization
import ScriptTree.Proofs.Source.Script
import ScriptTree.Source.Printer

/-!
Trees whose slots hold nothing or nodes of the classes that are declared for them. What the
value of a literal holds is left open: no node is looked for in it. A property of all nodes
of such a tree is proved from the leaves up, and then holds throughout the parts of a node
at any depth, as far as printing looks ahead.
-/

namespace ScriptTree

open Exchange

/-- The property holds of every node of the tree, apart from what the values of literals
hold; a regular expression is such a value. -/
inductive Tree.Throughout (P : Node Tree → Prop) : Tree → Prop
  | missing : Throughout P .missing
  | atom (a : Atom) : Throughout P (.atom a)
  | list {items : List Tree} (h : ∀ t ∈ items, Throughout P t) : Throughout P (.list items)
  | choice {c : Choice Tree} (h : ∀ t, c.value? = some t → Throughout P t) :
    Throughout P (.choice c)
  | node {n : Node Tree} (here : P n)
    (parts : ∀ entry ∈ n.entries, entry.role ≠ .literal → Throughout P entry.tree) :
    Throughout P (.node n)

/-- Every slot of the node is empty or holds what is declared for it; the value of a literal
is anything. -/
def Node.HasSlots (n : Node Tree) : Prop :=
  ∀ entry ∈ n.entries, entry.role ≠ .literal → entry.role.Holds true entry.tree

section Filled

variable (P : Node Tree → Prop)

def NodeSlot (c : Category) (t : Tree) : Prop :=
  t = .missing ∨ ∃ n, t = .node n ∧ c.Has (.node n) ∧ (Tree.node n).Throughout P

def ListSlot (c : Category) (t : Tree) : Prop :=
  ∃ items, t = .list items ∧ ∀ item ∈ items, NodeSlot P c item

def BlockSlot (t : Tree) : Prop :=
  t = .missing ∨ ∃ body, t = .node (.blockStatement body) ∧ ListSlot P .statement body

def ChoiceSlot (first : Kind) (second : Category) (t : Tree) : Prop :=
  t = .choice .empty ∨
    (∃ n, t = .choice (.first (.node n)) ∧ n.kind? = some first ∧ (Tree.node n).Throughout P) ∨
    ∃ n, t = .choice (.second (.node n)) ∧ second.Has (.node n) ∧ (Tree.node n).Throughout P

def Exchange.Role.Filled (role : Role) (t : Tree) : Prop :=
  match role with
  | .child c | .optional c => NodeSlot P c t
  | .elements c _ | .sole c => ListSlot P c t
  | .statements => ListSlot P .statement t
  | .block | .finalizer => BlockSlot P t
  | .choice e first _ => ChoiceSlot P first e.second t
  | .literal => True
  | role => role.Holds true t

def Node.Filled (n : Node Tree) : Prop :=
  n.entries.Forall fun entry => entry.role.Filled P entry.tree

end Filled

section Throughout

variable {P Q : Node Tree → Prop} {n : Node Tree} {t : Tree} {items : List Tree}

@[simp] theorem throughout_missing : Tree.missing.Throughout P := .missing

@[simp] theorem throughout_atom (a : Atom) : (Tree.atom a).Throughout P := .atom a

@[simp] theorem throughout_list : (Tree.list items).Throughout P ↔ ∀ t ∈ items, t.Throughout P := by
  constructor
  · intro h
    cases h with
    | list h => exact h
  · intro h
    exact .list h

@[simp] theorem throughout_choice {c : Choice Tree} :
    (Tree.choice c).Throughout P ↔ ∀ t, c.value? = some t → t.Throughout P := by
  constructor
  · intro h
    cases h with
    | choice h => exact h
  · intro h
    exact .choice h

theorem throughout_node :
    (Tree.node n).Throughout P ↔
      P n ∧ ∀ entry ∈ n.entries, entry.role ≠ .literal → entry.tree.Throughout P := by
  constructor
  · intro h
    cases h with
    | node here parts => exact ⟨here, parts⟩
  · intro h
    exact .node h.1 h.2

theorem Tree.Throughout.here (h : (Tree.node n).Throughout P) : P n := (throughout_node.mp h).1

theorem Tree.Throughout.mono (h : t.Throughout P) (hPQ : ∀ n, P n → Q n) : t.Throughout Q := by
  induction h with
  | missing => exact .missing
  | atom a => exact .atom a
  | list _ ih => exact .list ih
  | choice _ ih => exact .choice ih
  | node here _ ih => exact .node (hPQ _ here) ih

theorem Tree.Throughout.and (h : t.Throughout P) (h' : t.Throughout Q) :
    t.Throughout fun n => P n ∧ Q n := by
  induction h with
  | missing => exact .missing
  | atom a => exact .atom a
  | list _ ih => exact .list fun t ht => ih t ht (throughout_list.mp h' t ht)
  | choice _ ih => exact .choice fun t ht => ih t ht (throughout_choice.mp h' t ht)
  | node here _ ih =>
    obtain ⟨here', parts'⟩ := throughout_node.mp h'
    exact .node ⟨here, here'⟩ fun entry hentry hrole =>
      ih entry hentry hrole (parts' entry hentry hrole)

theorem nodeSlot_of_fits {c : Category} (hfits : c.Fits true t) (h : t.Throughout P) :
    NodeSlot P c t := by
  rcases hfits with hhas | ⟨rfl, -⟩
  · obtain ⟨n, rfl⟩ := node_of_has hhas
    exact .inr ⟨n, rfl, hhas, h⟩
  · exact .inl rfl

theorem listSlot_of_fits {c : Category} (hfits : ∀ item ∈ items, c.Fits true item)
    (h : (Tree.list items).Throughout P) : ListSlot P c (.list items) :=
  ⟨items, rfl, fun item hitem =>
    nodeSlot_of_fits (hfits item hitem) (throughout_list.mp h item hitem)⟩

theorem blockSlot_of_holds (hP : ∀ n, P n → n.HasSlots)
    (hholds : (∃ body, t = .node (.blockStatement body)) ∨ true = true ∧ t = .missing)
    (h : t.Throughout P) : BlockSlot P t := by
  rcases hholds with ⟨body, rfl⟩ | ⟨-, rfl⟩
  · obtain ⟨here, parts⟩ := throughout_node.mp h
    have hslots := hP _ here
    simp only [Node.HasSlots, Node.entries, List.forall_mem_singleton] at hslots parts
    obtain ⟨items, hitems, hfits⟩ := hslots (by simp)
    obtain rfl : body = .list items := hitems
    exact .inr ⟨_, rfl, listSlot_of_fits hfits (parts (by simp))⟩
  · exact .inl rfl

theorem choiceSlot_of_holds {e : Expectation} {first : Kind} {mayBeEmpty : Bool}
    (hholds : Role.Holds true (.choice e first mayBeEmpty) t) (h : t.Throughout P) :
    ChoiceSlot P first e.second t := by
  rcases hholds with ⟨rfl, -⟩ | ⟨s, rfl, hs⟩ | ⟨s, rfl, hs⟩
  · exact .inl rfl
  · obtain ⟨n, rfl, hn⟩ := node_of_kind? hs
    exact .inr (.inl ⟨n, rfl, hn, throughout_choice.mp h _ rfl⟩)
  · obtain ⟨n, rfl⟩ := node_of_has hs
    exact .inr (.inr ⟨n, rfl, hs, throughout_choice.mp h _ rfl⟩)

theorem filled_of_holds (hP : ∀ n, P n → n.HasSlots) {role : Role} (hrole : role ≠ .literal)
    (hholds : role.Holds true t) (h : t.Throughout P) : role.Filled P t := by
  cases role with
  | child c => exact nodeSlot_of_fits hholds h
  | optional c => exact nodeSlot_of_fits hholds h
  | elements c holes =>
    obtain ⟨items, rfl, hfits⟩ := hholds
    exact listSlot_of_fits hfits h
  | sole c =>
    obtain ⟨items, rfl, hfits⟩ := hholds
    exact listSlot_of_fits hfits h
  | statements =>
    obtain ⟨items, rfl, hfits⟩ := hholds
    exact listSlot_of_fits hfits h
  | block => exact blockSlot_of_holds hP hholds h
  | finalizer => exact blockSlot_of_holds hP hholds h
  | choice e first mayBeEmpty => exact choiceSlot_of_holds hholds h
  | literal => exact absurd rfl hrole
  | _ => exact hholds

theorem filled_of_parts (hP : ∀ n, P n → n.HasSlots) (hslots : n.HasSlots)
    (hparts : ∀ entry ∈ n.entries, entry.role ≠ .literal → entry.tree.Throughout P) :
    n.Filled P := by
  refine List.forall_iff_forall_mem.mpr fun entry hentry => ?_
  by_cases hrole : entry.role = .literal
  · rw [hrole]
    trivial
  · exact filled_of_holds hP hrole (hslots entry hentry hrole) (hparts entry hentry hrole)

/-- What holds throughout a node holds throughout its parts, each of which is in place. -/
theorem Tree.Throughout.filled (hP : ∀ n, P n → n.HasSlots) (h : (Tree.node n).Throughout P) :
    n.Filled P := by
  obtain ⟨here, parts⟩ := throughout_node.mp h
  exact filled_of_parts hP (hP n here) parts

/-- A property holds throughout a tree if it holds of every node throughout whose parts it
holds. -/
theorem Tree.Throughout.strengthen (hP : ∀ n, P n → n.HasSlots)
    (step : ∀ n, P n → n.Filled (fun m => P m ∧ Q m) → Q n) (h : t.Throughout P) :
    t.Throughout fun m => P m ∧ Q m := by
  induction h with
  | missing => exact .missing
  | atom a => exact .atom a
  | list _ ih => exact .list ih
  | choice _ ih => exact .choice ih
  | node here _ ih =>
    have hfilled := filled_of_parts (fun m hm => hP m hm.1) (hP _ here) ih
    exact .node ⟨here, step _ here hfilled⟩ ih

theorem throughout_of_fits {c : Category} (hfits : c.Fits true t)
    (h : ∀ n, Within (.node n) t → (Tree.node n).Throughout P) : t.Throughout P := by
  rcases hfits with hhas | ⟨rfl, -⟩
  · obtain ⟨n, rfl⟩ := node_of_has hhas
    exact h n .refl
  · exact .missing

theorem throughout_of_holds {role : Role} (hrole : role ≠ .literal) (hholds : role.Holds true t)
    (h : ∀ n, Within (.node n) t → (Tree.node n).Throughout P) : t.Throughout P := by
  have hlist {c : Category} {items : List Tree} (hfits : ∀ item ∈ items, c.Fits true item)
      (h : ∀ n, Within (.node n) (.list items) → (Tree.node n).Throughout P) :
      (Tree.list items).Throughout P :=
    .list fun item hitem => throughout_of_fits (hfits item hitem)
      fun n hn => h n (Within.list_iff.mpr ⟨item, hitem, hn⟩)
  have hblock : ((∃ body, t = .node (.blockStatement body)) ∨ true = true ∧ t = .missing) →
      t.Throughout P := by
    rintro (⟨body, rfl⟩ | ⟨-, rfl⟩)
    · exact h _ .refl
    · exact .missing
  cases role with
  | child c => exact throughout_of_fits hholds h
  | optional c => exact throughout_of_fits hholds h
  | elements c holes =>
    obtain ⟨items, rfl, hfits⟩ := hholds
    exact hlist hfits h
  | sole c =>
    obtain ⟨items, rfl, hfits⟩ := hholds
    exact hlist hfits h
  | statements =>
    obtain ⟨items, rfl, hfits⟩ := hholds
    exact hlist hfits h
  | block => exact hblock hholds
  | finalizer => exact hblock hholds
  | choice e first mayBeEmpty =>
    have hchosen {c : Choice Tree} (n : Node Tree) (hc : c.value? = some (.node n))
        (h : ∀ n, Within (.node n) (.choice c) → (Tree.node n).Throughout P) :
        (Tree.choice c).Throughout P := by
      refine .choice fun s hs => ?_
      rw [hc, Option.some.injEq] at hs
      exact hs ▸ h n (Within.choice_iff.mpr ⟨_, hc, .refl⟩)
    rcases hholds with ⟨rfl, -⟩ | ⟨s, rfl, hs⟩ | ⟨s, rfl, hs⟩
    · exact .choice fun _ h => by cases h
    · obtain ⟨n, rfl, -⟩ := node_of_kind? hs
      exact hchosen n rfl h
    · obtain ⟨n, rfl⟩ := node_of_has hs
      exact hchosen n rfl h
  | literal => exact absurd rfl hrole
  | _ =>
    obtain ⟨value, rfl⟩ := hholds
    exact .atom _

theorem not_within_literal (h : LiteralValue t) : ¬Within (.node n) t := by
  cases h <;> simp [Tree.ofText]

theorem Tree.Throughout.within (h : t.Throughout P)
    (hfits : ∀ n, Within (.node n) t → n.Fits true) (hn : Within (.node n) t) : P n := by
  induction h with
  | missing => exact absurd hn Within.not_missing
  | atom a => exact absurd hn Within.not_atom
  | list _ ih =>
    obtain ⟨item, hitem, hn⟩ := Within.list_iff.mp hn
    exact ih item hitem (fun m hm => hfits m (.item hitem hm)) hn
  | choice _ ih =>
    obtain ⟨value, hvalue, hn⟩ := Within.choice_iff.mp hn
    exact ih value hvalue (fun m hm => hfits m (.choice hvalue hm)) hn
  | node here _ ih =>
    rcases Within.node_iff.mp hn with rfl | hn
    · exact here
    · obtain ⟨entry, hentry, hn⟩ := exists_entry_iff.mpr hn
      by_cases hrole : entry.role = .literal
      · have hvalue := hfits _ .refl entry hentry
        rw [hrole] at hvalue
        exact absurd hn (not_within_literal hvalue)
      · refine ih entry hentry hrole (fun m hm => hfits m ?_) hn
        exact Within.node_iff.mpr (.inr (exists_entry_iff.mp ⟨entry, hentry, hm⟩))

/-- In a tree that is in place a property holds throughout if it holds of every node. -/
theorem throughout_iff_within (h : t.InPlace) :
    t.Throughout P ↔ ∀ n, Within (.node n) t → P n := by
  obtain ⟨hroot, hfits⟩ := h
  constructor
  · intro hthroughout n hn
    exact hthroughout.within hfits hn
  · intro hall
    have hnodes : ∀ n, Within (.node n) t → (Tree.node n).Throughout P := by
      refine forall_within_entries fun n hn ih => .node (hall n hn) fun entry hentry hrole => ?_
      exact throughout_of_holds hrole (hfits n hn entry hentry) fun m hm =>
        (ih entry hentry m hm).2
    rcases hroot with rfl | ⟨n, rfl⟩
    · exact .missing
    · exact hnodes n .refl

theorem Node.Fits.hasSlots (h : n.Fits true) : n.HasSlots := fun entry hentry _ => h entry hentry

theorem hasSlots_of_inPlace (h : t.InPlace) : t.Throughout Node.HasSlots :=
  (throughout_iff_within h).mpr fun n hn => (h.2 n hn).hasSlots

end Throughout

section Building

variable {P : Node Tree → Prop} {n : Node Tree} {t : Tree}

theorem NodeSlot.of_has {c : Category} (hhas : c.Has (.node n)) (h : (Tree.node n).Throughout P) :
    NodeSlot P c (.node n) := .inr ⟨n, rfl, hhas, h⟩

theorem fits_of_nodeSlot {c : Category} (h : NodeSlot P c t) : c.Fits true t ∧ t.Throughout P := by
  rcases h with rfl | ⟨n, rfl, hhas, hn⟩
  · exact ⟨.inr ⟨rfl, .inl rfl⟩, .missing⟩
  · exact ⟨.inl hhas, hn⟩

theorem fits_of_listSlot {c : Category} (h : ListSlot P c t) :
    (∃ items, t = .list items ∧ ∀ item ∈ items, c.Fits true item) ∧ t.Throughout P := by
  obtain ⟨items, rfl, hitems⟩ := h
  exact ⟨⟨items, rfl, fun item hitem => (fits_of_nodeSlot (hitems item hitem)).1⟩,
    .list fun item hitem => (fits_of_nodeSlot (hitems item hitem)).2⟩

/-- Of a block in a slot only the statements are known, so it has to be told that the property
holds of the block. -/
theorem holds_of_filled
    (hblocks : ∀ body, (Node.blockStatement body).HasSlots → P (.blockStatement body))
    {role : Role} (hrole : role ≠ .literal) (h : role.Filled P t) :
    role.Holds true t ∧ t.Throughout P := by
  have hblock : BlockSlot P t →
      ((∃ body, t = .node (.blockStatement body)) ∨ true = true ∧ t = .missing) ∧
        t.Throughout P := by
    rintro (rfl | ⟨body, rfl, hbody⟩)
    · exact ⟨.inr ⟨rfl, rfl⟩, .missing⟩
    · obtain ⟨hfits, hthroughout⟩ := fits_of_listSlot hbody
      have hslots : (Node.blockStatement body).HasSlots := by
        simpa [Node.HasSlots, Node.entries, Role.Holds] using hfits
      exact ⟨.inl ⟨body, rfl⟩, .node (hblocks body hslots)
        (by simpa [Node.entries] using hthroughout)⟩
  cases role with
  | child c => exact fits_of_nodeSlot h
  | optional c => exact fits_of_nodeSlot h
  | elements c holes => exact fits_of_listSlot h
  | sole c => exact fits_of_listSlot h
  | statements => exact fits_of_listSlot h
  | block => exact hblock h
  | finalizer => exact hblock h
  | choice e first mayBeEmpty =>
    rcases h with rfl | ⟨n, rfl, hn, hthroughout⟩ | ⟨n, rfl, hn, hthroughout⟩
    · exact ⟨.inl ⟨rfl, .inl rfl⟩, .choice fun _ h => by cases h⟩
    · exact ⟨.inr (.inl ⟨_, rfl, hn⟩), .choice fun t ht => Option.some.inj ht ▸ hthroughout⟩
    · exact ⟨.inr (.inr ⟨_, rfl, hn⟩), .choice fun t ht => Option.some.inj ht ▸ hthroughout⟩
  | literal => exact absurd rfl hrole
  | _ =>
    obtain ⟨value, rfl⟩ := h
    exact ⟨⟨value, rfl⟩, .atom _⟩

/-- A property holds throughout a node if it holds of the node and the fields are filled so. -/
theorem throughout_of_filled
    (hblocks : ∀ body, (Node.blockStatement body).HasSlots → P (.blockStatement body))
    (here : n.HasSlots → P n) (h : n.Filled P) : (Tree.node n).Throughout P := by
  have hentries := List.forall_iff_forall_mem.mp h
  have hslots : n.HasSlots := fun entry hentry hrole =>
    (holds_of_filled hblocks hrole (hentries entry hentry)).1
  exact .node (here hslots) fun entry hentry hrole =>
    (holds_of_filled hblocks hrole (hentries entry hentry)).2

theorem hasSlots_of_filled (h : n.Filled Node.HasSlots) :
    (Tree.node n).Throughout Node.HasSlots := throughout_of_filled (fun _ h => h) id h

end Building

section Nodes

variable {P : Node Tree → Prop} {t : Tree}

theorem NodeSlot.throughout {c : Category} {n : Node Tree} (h : NodeSlot P c (.node n)) :
    (Tree.node n).Throughout P := by
  rcases h with h | ⟨m, h, -, hm⟩
  · cases h
  · exact h ▸ hm

theorem NodeSlot.hasSlots (hP : ∀ n, P n → n.HasSlots) {c : Category} (h : NodeSlot P c t) :
    t.Throughout Node.HasSlots := by
  rcases h with rfl | ⟨n, rfl, -, hn⟩
  · exact .missing
  · exact hn.mono hP

theorem NodeSlot.of_kind {c : Category} {k : Kind} (hc : c.test = .kind k)
    (hk : k ≠ .callExpression) (h : NodeSlot P c t) :
    t = .missing ∨ ∃ n, t = .node n ∧ n.kind? = some k ∧ (Tree.node n).Throughout P := by
  rcases h with rfl | ⟨n, rfl, hhas, hn⟩
  · exact .inl rfl
  · refine .inr ⟨n, rfl, ?_, hn⟩
    rw [Category.Has, hc] at hhas
    have hkind : (Tree.node n).view.kind? = some k := by simpa [TypeTest.accepts, hk] using hhas
    exact hkind

/-- An identifier that is in place has a name. -/
theorem Tree.Throughout.name (hP : ∀ n, P n → n.HasSlots) {n : Node Tree}
    (h : (Tree.node n).Throughout P) (hn : n.kind? = some .identifier) :
    ∃ name, n = .identifier (.ofText name) := by
  cases n with
  | identifier name =>
    obtain ⟨text, rfl⟩ : ∃ text, name = .ofText text := h.filled hP
    exact ⟨text, rfl⟩
  | _ => cases hn

theorem NodeSlot.name (hP : ∀ n, P n → n.HasSlots) (h : NodeSlot P .identifier t) :
    t = .missing ∨ ∃ name, t = .node (.identifier (.ofText name)) := by
  rcases h.of_kind rfl (by decide) with rfl | ⟨n, rfl, hn, hthroughout⟩
  · exact .inl rfl
  · obtain ⟨name, rfl⟩ := hthroughout.name hP hn
    exact .inr ⟨name, rfl⟩

end Nodes

namespace Source

open Script

namespace Listing

def category : Listing → Category
  | .statements => .statement
  | .arguments _ | .elements | .expressions | .operands _ | .indices | .names => .expression
  | .params _ => .identifier
  | .properties => .property
  | .cases => .switchCase
  | .declarators _ => .variableDeclarator

def absent (m : Mode) : Listing → Script
  | .statements => m.finish ";"
  | .arguments owner => Source.absent owner "arguments"
  | .elements => empty
  | .expressions => Source.absent "SequenceExpression" "expressions"
  | .operands _ => Source.absent "BinaryExpression" "right"
  | .indices => Source.absent "MemberExpression" "indices"
  | .names => fail .indexNotIdentifier
  | .params owner => fail (.paramNotIdentifier owner)
  | .properties => fail .missingProperty
  | .cases => fail .missingCase
  | .declarators _ => fail .missingDeclarator

def opening : Listing → Script
  | .operands token => write token
  | .indices => write "["
  | .names => write "."
  | _ => empty

def closing : Listing → Script
  | .indices => write "]"
  | _ => empty

def encloses (t : Tree) : Listing → Bool
  | .arguments _ | .elements => Place.item.refuses t
  | .operands _ => Place.operand.refuses t
  | _ => false

/-- The script of an item that is in place. Only an access by name takes no expression other
than an identifier. -/
def item (m : Mode) (l : Listing) (t : Tree) : Script :=
  if l = .names ∧ t.kind? ≠ some .identifier then fail .indexNotIdentifier
  else l.opening ++ enclosedIf (l.encloses t) (scriptOr m (l.absent m) t) ++ l.closing

end Listing

section Items

variable {P : Node Tree → Prop} {m : Mode} {l : Listing} {t : Tree}

theorem Listing.item_of_ne (h : l ≠ .names) :
    l.item m t = l.opening ++ enclosedIf (l.encloses t) (scriptOr m (l.absent m) t) ++ l.closing :=
  if_neg fun hl => h hl.1

theorem Listing.item_identifier (name : Tree) :
    Listing.names.item m (.node (.identifier name)) = write "." ++ writeValue name := by
  have hkind : (Tree.node (.identifier name)).kind? = some .identifier := rfl
  rw [Listing.item, if_neg (by simp [hkind])]
  simp only [opening, encloses, closing, enclosedIf_false, scriptOr, nodeScript, append_empty]

theorem casePart_node {n : Node Tree} (h : n.kind? = some .switchCase) :
    casePart m (.node n) = nodeScript m n := by
  cases n with
  | switchCase test body => simp only [casePart, nodeScript]
  | _ => cases h

theorem propertyPart_node {n : Node Tree} (h : n.kind? = some .property) :
    propertyPart m (.node n) = nodeScript m n := by
  cases n with
  | property key value kind => rw [propertyPart]
  | _ => cases h

theorem declaratorPart_node {n : Node Tree} (h : n.kind? = some .variableDeclarator) :
    declaratorPart m (.node n) = nodeScript m n := by
  cases n with
  | variableDeclarator id init => rw [declaratorPart]
  | _ => cases h

theorem indexName_node {n : Node Tree} (h : n.kind? ≠ some .identifier) :
    indexName (.node n) = fail .indexNotIdentifier := by
  cases n with
  | identifier name => exact absurd rfl h
  | _ => rfl

/-- An item that is in place is printed by its node, between what its list adds to it. -/
theorem itemScripts_cons (hP : ∀ n, P n → n.HasSlots) (first : Bool) (rest : List Tree)
    (h : NodeSlot P l.category t) :
    itemScripts m l first (t :: rest) =
      onlyIf (!first) (l.between m) ++ l.item m t ++ itemScripts m l false rest := by
  cases l with
  | names =>
    rw [itemScripts]
    rcases h with rfl | ⟨n, rfl, -, -⟩
    · rfl
    · by_cases hn : n.kind? = some .identifier
      · cases n with
        | identifier name => rw [Listing.item_identifier]; rfl
        | _ => cases hn
      · rw [indexName_node hn, Listing.item, if_pos ⟨rfl, hn⟩]
  | params owner =>
    rw [itemScripts, Listing.item_of_ne (by simp)]
    rcases h.name hP with rfl | ⟨name, rfl⟩ <;>
      simp only [Listing.opening, Listing.closing, Listing.encloses, Listing.absent,
        enclosedIf_false, paramName, scriptOr, nodeScript, empty_append, append_empty]
  | properties =>
    rw [itemScripts, Listing.item_of_ne (by simp)]
    rcases h.of_kind rfl (by decide) with rfl | ⟨n, rfl, hn, -⟩
    · rfl
    · rw [propertyPart_node hn]
      simp only [Listing.opening, Listing.closing, Listing.encloses, enclosedIf_false, scriptOr,
        empty_append, append_empty]
  | cases =>
    rw [itemScripts, Listing.item_of_ne (by simp)]
    rcases h.of_kind rfl (by decide) with rfl | ⟨n, rfl, hn, -⟩
    · rfl
    · rw [casePart_node hn]
      simp only [Listing.opening, Listing.closing, Listing.encloses, enclosedIf_false, scriptOr,
        empty_append, append_empty]
  | declarators inline =>
    rw [itemScripts, Listing.item_of_ne (by simp)]
    rcases h.of_kind rfl (by decide) with rfl | ⟨n, rfl, hn, -⟩
    · rfl
    · rw [declaratorPart_node hn]
      simp only [Listing.opening, Listing.closing, Listing.encloses, enclosedIf_false, scriptOr,
        empty_append, append_empty]
  | _ =>
    rw [itemScripts, Listing.item_of_ne (by simp)]
    simp only [Listing.opening, Listing.closing, Listing.encloses, Listing.absent,
      enclosedIf_false, empty_append, append_empty]

end Items

end Source

end ScriptTree
