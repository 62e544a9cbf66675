import ScriptTree.Proofs.Exchange.Soundness

/-!
Canonical trees. A tree that is built by hand may hold chains that are empty, or that could
take in an operand or an object. Written and read again, it comes back with every such chain
resolved, from the leaves up, and with nothing else changed.
-/

namespace ScriptTree

/-- The operands on the right of a chain, the last of which is taken in if it is a chain of
the same operator. -/
def mergedOperands (op : Atom) : List Tree → List Tree
  | [] => []
  | [.node (.binaryExpression left (.atom innerOp) (.list right))] =>
    if innerOp = op then left :: right
    else [.node (.binaryExpression left (.atom innerOp) (.list right))]
  | t :: rest => t :: mergedOperands op rest

/-- The tree that a node with canonical parts comes to. A chain without operands on its right
is its left operand, and a chain without indices is its object. -/
def Node.canonical : Node Tree → Tree
  | .binaryExpression left _ (.list []) => left
  | .binaryExpression left (.atom op) (.list right) =>
    .node (.binaryExpression left (.atom op) (.list (mergedOperands op right)))
  | .memberExpression object (.list []) _ => object
  | .memberExpression (.node (.memberExpression object (.list before) (.atom style)))
      (.list indices) (.atom computed) =>
    if style = computed then
      .node (.memberExpression object (.list (before ++ indices)) (.atom computed))
    else
      .node (.memberExpression (.node (.memberExpression object (.list before) (.atom style)))
        (.list indices) (.atom computed))
  | n => .node n

section Equations

-- Its equations are derived here, once for all the proofs.
attribute [local simp] Node.canonical

end Equations

def View.canonical : View Tree → Tree
  | .missing => .missing
  | .atom a => .atom a
  | .regex pattern flags => .regex pattern flags
  | .list items => .list items
  | .choice c => .choice c
  | .node n => n.canonical

def Tree.canonical (t : Tree) : Tree := t.fold View.canonical

/-- Every node of the tree holds in its fields what is in place there; any slot that asks for
a node may be empty. -/
def Tree.InPlace (t : Tree) : Prop :=
  (t = .missing ∨ ∃ n, t = .node n) ∧ ∀ n, Within (.node n) t → n.Fits true

namespace Tree

theorem foldList_eq_map {β : Type} (f : View β → β) (items : List Tree) :
    foldList f items = items.map (fold f) := by
  induction items with
  | nil => rfl
  | cons t items ih => rw [foldList, ih, List.map_cons]

theorem foldNode_eq_map {β : Type} (f : View β → β) (n : Node Tree) :
    foldNode f n = n.map (fold f) := by
  cases n <;> rfl

@[simp] theorem canonical_missing : Tree.canonical .missing = .missing := rfl

@[simp] theorem canonical_atom (a : Atom) : Tree.canonical (.atom a) = .atom a := rfl

@[simp] theorem canonical_list (items : List Tree) :
    Tree.canonical (.list items) = .list (items.map Tree.canonical) := by
  rw [Tree.canonical, fold, foldList_eq_map]
  rfl

@[simp] theorem canonical_choice (c : Choice Tree) :
    Tree.canonical (.choice c) = .choice (c.map Tree.canonical) := by
  cases c <;> rfl

theorem canonical_node (n : Node Tree) :
    Tree.canonical (.node n) = (n.map Tree.canonical).canonical := by
  rw [Tree.canonical, fold, foldNode_eq_map]
  rfl

end Tree

theorem Node.kind?_map {α β : Type} (f : α → β) (n : Node α) : (n.map f).kind? = n.kind? := by
  cases n <;> rfl

theorem Node.canonical_regular {n : Node Tree} {k : Kind} (h : n.kind? = some k)
    (hbinary : k ≠ .binaryExpression) (hmember : k ≠ .memberExpression) :
    n.canonical = .node n := by
  cases n <;> simp_all [Node.kind?, Node.canonical]

def Exchange.Entry.canonical (entry : Exchange.Entry) : Exchange.Entry :=
  { entry with tree := entry.tree.canonical }

theorem Node.entries_canonical (n : Node Tree) :
    (n.map Tree.canonical).entries = n.entries.map Exchange.Entry.canonical := by
  cases n <;> rfl

section Sizes

theorem sizeOf_entry_lt {n : Node Tree} {entry : Exchange.Entry} (h : entry ∈ n.entries) :
    sizeOf entry.tree < sizeOf n := by
  revert entry
  cases n <;> simp [Node.entries] <;> omega

theorem sizeOf_field_lt {n : Node Tree} {f : Field} {t : Tree} (h : (f, t) ∈ n.fields) :
    sizeOf t < sizeOf n := by
  obtain ⟨entry, hentry, rfl⟩ :=
    (Exchange.exists_entry_iff (P := (· = t))).mpr ⟨f, t, h, rfl⟩
  exact sizeOf_entry_lt hentry

theorem Within.sizeOf_le {s t : Tree} (h : Within s t) : sizeOf s ≤ sizeOf t := by
  induction h with
  | refl => exact Nat.le_refl _
  | field hfield _ ih =>
    have hlt := sizeOf_field_lt hfield
    simp
    omega
  | item hitem _ ih =>
    have hlt := List.sizeOf_lt_of_mem hitem
    simp
    omega
  | @choice c _ hvalue _ ih =>
    cases c <;> simp_all [Choice.value?]
    all_goals omega
  | pattern _ ih =>
    simp
    omega
  | flags _ ih =>
    simp
    omega

end Sizes

section Induction

variable {P : Node Tree → Prop} {t : Tree}

/-- What holds of a node as soon as it holds of the nodes in its fields holds of every node in a
tree. -/
theorem forall_within (h : ∀ n, Within (.node n) t → (∀ f s, (f, s) ∈ n.fields →
    ∀ m, Within (.node m) s → Within (.node m) t ∧ P m) → P n) :
    ∀ n, Within (.node n) t → P n := by
  intro n hn
  -- What stands in the fields of a node is smaller than it.
  induction hsize : sizeOf n using Nat.strong_induction_on generalizing n with
  | h size ih =>
    refine h n hn fun f s hs m hm => ?_
    have hlt := sizeOf_field_lt hs
    have hle := hm.sizeOf_le
    rw [Tree.node.sizeOf_spec] at hle
    have hwithin := Within.trans (.field hs hm) hn
    exact ⟨hwithin, ih (sizeOf m) (by omega) m hwithin rfl⟩

theorem forall_within_entries (h : ∀ n, Within (.node n) t → (∀ entry ∈ n.entries,
    ∀ m, Within (.node m) entry.tree → Within (.node m) t ∧ P m) → P n) :
    ∀ n, Within (.node n) t → P n := by
  refine forall_within fun n hn ih => h n hn fun entry hentry m hm => ?_
  obtain ⟨f, s, hs, hm⟩ := Exchange.exists_entry_iff.mp ⟨entry, hentry, hm⟩
  exact ih f s hs m hm

end Induction

end ScriptTree
