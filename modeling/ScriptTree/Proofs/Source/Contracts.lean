import ScriptTree.Proofs.Exchange.Soundness
import ScriptTree.Proofs.Source.Failure

/-!
Printing and writing ask for the same parts. A tree whose slots hold nothing or what is
declared for them, and whose numbers are finite, can be printed exactly if it can be written
and no node in it is one of four that only the printer refuses.
-/

namespace ScriptTree

open Exchange

/-- Nodes that can be written and are refused by the printer. -/
inductive Node.Unprintable : Node Tree → Prop
  /-- A declaration without declarators. -/
  | declaration (kind : Tree) : Unprintable (.variableDeclaration (.list []) kind)
  /-- A loop over keys that declares no variable or several. -/
  | keys {declarators : List Tree} (kind right body : Tree) (h : declarators.length ≠ 1) :
    Unprintable (.forInStatement
      (.choice (.first (.node (.variableDeclaration (.list declarators) kind)))) right body)
  /-- An accessor that is not a function. -/
  | accessor (key : Tree) {value : Tree} {kind : PropertyKind} (hkind : kind ≠ .init)
    (h : value.kind? ≠ some .functionExpression) :
    Unprintable (.property key value (.ofMember (.propertyKind kind)))
  /-- An access by name with an index that is no name. -/
  | access (object : Tree) {indices : List Tree} {index : Tree} (hindex : index ∈ indices)
    (h : index.kind? ≠ some .identifier) :
    Unprintable (.memberExpression object (.list indices) (.atom (.bool false)))
  /-- An integer with too many digits. -/
  | number {i : Int} (h : 10 ^ Text.digitLimit ≤ i.natAbs) : Unprintable (.literal (.atom (.int i)))

def Node.isFinite : Node Tree → Bool
  | .literal (.atom (.double d)) => d.isFinite
  | .literal (.atom (.decimal d)) => d.isFinite
  | _ => true

section Succeeding

variable {α β : Type}

def Succeeds (result : Except TreeError α) : Prop := ∃ value, result = .ok value

@[simp] theorem succeeds_ok (a : α) : Succeeds (.ok a) := ⟨a, rfl⟩

@[simp] theorem succeeds_pure (a : α) : Succeeds (pure a) := ⟨a, rfl⟩

@[simp] theorem not_succeeds_error (e : TreeError) : ¬Succeeds (.error e : Except TreeError α) := by
  rintro ⟨a, h⟩
  cases h

@[simp] theorem succeeds_map {result : Except TreeError α} (f : α → β) :
    Succeeds (f <$> result) ↔ Succeeds result := by
  cases result with
  | error e => exact iff_of_false (not_succeeds_error e) (not_succeeds_error e)
  | ok a => exact iff_of_true (succeeds_ok (f a)) (succeeds_ok a)

theorem succeeds_bind {result : Except TreeError α} {f : α → Except TreeError β} {p : Prop}
    (h : ∀ a, result = .ok a → (Succeeds (f a) ↔ p)) :
    Succeeds (result >>= f) ↔ Succeeds result ∧ p := by
  cases result with
  | error e => simp
  | ok a => simpa using h a rfl

theorem succeeds_mapM {f : α → Except TreeError β} {xs : List α} :
    Succeeds (xs.mapM f) ↔ ∀ x ∈ xs, Succeeds (f x) := by
  induction xs with
  | nil => simp
  | cons x xs ih =>
    rw [List.mapM_cons, List.forall_mem_cons, ← ih]
    exact succeeds_bind fun y _ => by simp

end Succeeding

namespace Source

def IsPrintable (n : Node Tree) : Prop := ¬n.Unprintable

def Agrees (n : Node Tree) : Prop :=
  (nodeScript .pretty n).failure = none ↔
    Succeeds (writeNode n) ∧ (Tree.node n).Throughout IsPrintable

variable {P : Node Tree → Prop} {t : Tree} {n : Node Tree} {missing : Option TreeError}
  {absent : Exchange.Written}

theorem succeeds_writeArray : Succeeds (writeArray absent t) ↔ Succeeds (writeItems absent t) := by
  cases t <;> simp [writeArray, writeItems]

theorem succeeds_drafted :
    Succeeds n.drafted ↔ ∀ entry ∈ n.entries, Succeeds (entry.draft n.typeName) := by
  rw [Node.drafted]
  simp [succeeds_mapM]

/-- An empty slot is at fault where something has to stand in it. -/
theorem required_iff (owner field : String) (e : TreeError) :
    some e = none ↔ Succeeds (required owner field) := by
  simp [required]

theorem optional_iff : (none : Option TreeError) = none ↔ Succeeds Exchange.optional := by
  simp [Exchange.optional]

theorem statement_iff : (none : Option TreeError) = none ↔ Succeeds statement := by
  simp [statement]

section Slots

variable (hagrees : ∀ n, P n → Agrees n)

include hagrees

theorem slotFault_eq_none {c : Category} (h : NodeSlot P c t)
    (hmissing : missing = none ↔ Succeeds absent) :
    slotFault missing t = none ↔ Succeeds (writeOr absent t) ∧ t.Throughout IsPrintable := by
  rcases h with rfl | ⟨n, rfl, -, hn⟩
  · simpa [slotFault, writeOr] using hmissing
  · exact hagrees n hn.here

theorem itemsFault_eq_none {c : Category} (h : ListSlot P c t)
    (hmissing : missing = none ↔ Succeeds absent) :
    itemsFault missing t = none ↔
      Succeeds (writeItems absent t) ∧ t.Throughout IsPrintable := by
  obtain ⟨items, rfl, hitems⟩ := h
  have hslots : ∀ item ∈ items, (slotFault missing item = none ↔
      Succeeds (writeOr absent item) ∧ item.Throughout IsPrintable) :=
    fun item hitem => slotFault_eq_none hagrees (hitems item hitem) hmissing
  rw [itemsFault, writeItems, writeAll_eq_mapM, List.findSome?_eq_none_iff, succeeds_mapM,
    throughout_list, ← forall₂_and]
  exact forall₂_congr hslots

theorem blockFault_eq_none (h : BlockSlot P t) :
    blockFault t = none ↔ Succeeds (writeBlock t) ∧ t.Throughout IsPrintable := by
  rcases h with rfl | ⟨body, rfl, hbody⟩
  · simp [blockFault, writeBlock]
  · have hprintable : IsPrintable (.blockStatement body) := by rintro ⟨⟩
    have hitems := itemsFault_eq_none hagrees hbody statement_iff
    simp [blockFault, writeBlock, succeeds_writeArray, hitems, throughout_node, hprintable,
      Node.entries]

omit hagrees in
theorem declarationFault_eq_none {accepts : Nat → Bool} {wrong : TreeError} {items : List Tree}
    {kind : Tree} :
    declarationFault accepts wrong (.node (.variableDeclaration (.list items) kind)) = none ↔
      accepts items.length = true ∧ itemsFault (some .missingDeclarator) (.list items) = none := by
  rw [declarationFault]
  cases accepts items.length <;> simp

omit hagrees in
theorem printable_declaration {items : List Tree} {kind : Tree} :
    IsPrintable (.variableDeclaration (.list items) kind) ↔ 0 < items.length := by
  constructor
  · intro h
    cases items with
    | nil => exact absurd (.declaration kind) h
    | cons first rest => simp
  · intro h hunprintable
    cases hunprintable with
    | declaration => cases h

/-- A declaration with declarators is printed, also in the head of a loop, exactly if it is
written. -/
theorem agrees_declaration (hkind : n.kind? = some .variableDeclaration) (h : n.Filled P)
    (wrong : TreeError) :
    declarationFault (0 < ·) wrong (.node n) = none ↔
      Succeeds (writeNode n) ∧ (Tree.node n).Throughout IsPrintable := by
  cases n with
  | variableDeclaration declarations kind =>
    obtain ⟨hlist, k, rfl⟩ : ListSlot P .variableDeclarator declarations ∧
      ∃ k, kind = .ofMember (.variableKind k) := h
    have hatom : (Tree.ofMember (.variableKind k)).Throughout IsPrintable := .atom _
    have hitems := itemsFault_eq_none hagrees hlist
      (required_iff "VariableDeclaration" "declarations" .missingDeclarator)
    obtain ⟨items, rfl, -⟩ := hlist
    have hwrite : Succeeds (writeNode (.variableDeclaration (.list items)
        (.ofMember (.variableKind k)))) ↔
        Succeeds (writeItems (required "VariableDeclaration" "declarations") (.list items)) := by
      rw [writeNode, ← succeeds_writeArray, ← and_true (Succeeds (writeArray _ _))]
      exact succeeds_bind fun _ _ => iff_of_true ⟨_, rfl⟩ trivial
    have hnode : (Tree.node (.variableDeclaration (.list items)
        (.ofMember (.variableKind k)))).Throughout IsPrintable ↔
        0 < items.length ∧ (Tree.list items).Throughout IsPrintable := by
      simp [throughout_node, printable_declaration, Node.entries, hatom]
    rw [declarationFault_eq_none, hitems, hwrite, hnode, decide_eq_true_iff]
    exact and_left_comm
  | _ => cases hkind

theorem choiceFault_eq_none {second : Category} {k : Kind} {first : Tree → Option TreeError}
    (h : ChoiceSlot P k second t) (empty : Option TreeError)
    (hempty : t = .choice .empty → empty = none)
    (hfirst : ∀ n, n.kind? = some k → (Tree.node n).Throughout P → (first (.node n) = none ↔
      Succeeds (writeNode n) ∧ (Tree.node n).Throughout IsPrintable)) :
    choiceFault empty first t = none ↔ Succeeds (writeChoice t) ∧ t.Throughout IsPrintable := by
  rcases h with rfl | ⟨n, rfl, hkind, hn⟩ | ⟨n, rfl, -, hn⟩
  · simp [choiceFault, writeChoice, Exchange.optional, hempty, Choice.value?]
  · simpa [choiceFault, writeChoice, writeOr, Choice.value?] using hfirst n hkind hn
  · simpa [choiceFault, writeChoice, writeOr, Choice.value?, slotFault, Agrees] using
      hagrees n hn.here

def IsRegular : Role → Prop
  | .choice e first mayBeNull => e = .forInit ∧ first = .variableDeclaration ∧ mayBeNull = true
  | .block | .finalizer | .sole _ | .literal => False
  | _ => True

/-- What an entry holds is printed exactly if it is written and printable throughout. -/
theorem entryFault_eq_none (hP : ∀ n, P n → n.HasSlots) (owner : String) (entry : Exchange.Entry)
    (hrole : IsRegular entry.role)
    (h : entry.role.Filled P entry.tree) :
    entryFault owner entry = none ↔
      Succeeds (entry.draft owner) ∧ entry.tree.Throughout IsPrintable := by
  obtain ⟨name, role, tree⟩ := entry
  cases role with
  | child c =>
    have hmissing : (if c = .statement then none else some (TreeError.required owner name)) = none ↔
        Succeeds (if c = .statement then statement else required owner name) := by
      split
      · exact statement_iff
      · exact required_iff owner name _
    simpa [entryFault, Exchange.Entry.draft] using slotFault_eq_none hagrees h hmissing
  | optional c =>
    simpa [entryFault, Exchange.Entry.draft] using slotFault_eq_none hagrees h optional_iff
  | elements c holes =>
    have hmissing : absentFault owner name c holes = none ↔
        Succeeds (absentElement owner name c holes) := by
      cases c <;> cases holes <;>
        simp [absentFault, absentElement, statement, required, Exchange.optional]
    simpa [entryFault, Exchange.Entry.draft, succeeds_writeArray]
      using itemsFault_eq_none hagrees h hmissing
  | statements =>
    simpa [entryFault, Exchange.Entry.draft, succeeds_writeArray] using
      itemsFault_eq_none hagrees h statement_iff
  | unaryOperator =>
    obtain ⟨op, rfl⟩ := h
    have hatom : (Tree.ofMember (.unaryOperator op)).Throughout IsPrintable := .atom _
    simp [entryFault, Exchange.Entry.draft, unaryOperator_ofMember, hatom]
  | binaryOperator =>
    obtain ⟨op, rfl⟩ := h
    have hatom : (Tree.ofMember (.binaryOperator op)).Throughout IsPrintable := .atom _
    simp [entryFault, Exchange.Entry.draft, binaryOperator_ofMember, hatom]
  | name =>
    obtain ⟨text, rfl⟩ := h
    simp [entryFault, Exchange.Entry.draft, Tree.ofText]
  | flag =>
    obtain ⟨b, rfl⟩ := h
    simp [entryFault, Exchange.Entry.draft]
  | propertyKind =>
    obtain ⟨kind, rfl⟩ := h
    simp [entryFault, Exchange.Entry.draft, kindDraft, Tree.ofMember, Tree.value, used,
      Except.mapError]
  | variableKind =>
    obtain ⟨kind, rfl⟩ := h
    simp [entryFault, Exchange.Entry.draft, kindDraft, Tree.ofMember, Tree.value, used,
      Except.mapError]
  | choice e first mayBeNull =>
    obtain ⟨rfl, rfl, rfl⟩ := hrole
    have hinit := choiceFault_eq_none hagrees h none (fun _ => rfl)
      fun n hkind hn => agrees_declaration hagrees hkind (hn.filled hP) (.noInlineDeclarators owner)
    simpa [entryFault, firstSortFault, Exchange.Entry.draft] using hinit
  | _ => cases hrole

omit hagrees in
/-- A node that is gone through entry by entry is printed as it is written if all its entries
are. -/
theorem agrees_entries (hfault : nodeFault n = n.entries.findSome? (entryFault n.typeName))
    (hwrite : writeNode n = n.drafted) (hliteral : ∀ entry ∈ n.entries, entry.role ≠ .literal)
    (hentries : (∀ entry ∈ n.entries, entryFault n.typeName entry = none) ↔
      IsPrintable n ∧ ∀ entry ∈ n.entries,
        Succeeds (entry.draft n.typeName) ∧ entry.tree.Throughout IsPrintable) :
    nodeFault n = none ↔ Succeeds (writeNode n) ∧ (Tree.node n).Throughout IsPrintable := by
  rw [hfault, hwrite, List.findSome?_eq_none_iff, succeeds_drafted, throughout_node, hentries]
  constructor
  · rintro ⟨hprintable, hboth⟩
    exact ⟨fun entry hentry => (hboth entry hentry).1, hprintable,
      fun entry hentry _ => (hboth entry hentry).2⟩
  · rintro ⟨hwrites, hprintable, hparts⟩
    exact ⟨hprintable, fun entry hentry =>
      ⟨hwrites entry hentry, hparts entry hentry (hliteral entry hentry)⟩⟩

omit hagrees in
theorem not_literal_of_regular {entry : Exchange.Entry} (h : IsRegular entry.role) :
    entry.role ≠ .literal := by
  intro hrole
  rw [hrole] at h
  cases h

theorem agrees_regular (hP : ∀ n, P n → n.HasSlots)
    (hfault : nodeFault n = n.entries.findSome? (entryFault n.typeName))
    (hwrite : writeNode n = n.drafted) (hprintable : IsPrintable n)
    (hroles : ∀ entry ∈ n.entries, IsRegular entry.role) (h : n.Filled P) :
    nodeFault n = none ↔ Succeeds (writeNode n) ∧ (Tree.node n).Throughout IsPrintable := by
  have hfilled := List.forall_iff_forall_mem.mp h
  refine agrees_entries hfault hwrite
    (fun entry hentry => not_literal_of_regular (hroles entry hentry)) ?_
  rw [and_iff_right hprintable]
  exact forall₂_congr fun entry hentry => entryFault_eq_none hagrees hP n.typeName entry
    (hroles entry hentry) (hfilled entry hentry)

omit hagrees in
theorem nodeFault_int_eq_none {i : Int} :
    nodeFault (.literal (.atom (.int i))) = none ↔ IsPrintable (.literal (.atom (.int i))) := by
  have hfault : nodeFault (.literal (.atom (.int i))) =
      (Script.ofExcept (literal (.atom (.int i)))).failure := by
    simp only [nodeFault, Node.entries, List.findSome?_cons, entryFault]
    cases (Script.ofExcept (literal (.atom (.int i)))).failure <;> rfl
  rw [hfault]
  cases htext : Text.ofInt? i with
  | some t =>
    have hlt : i.natAbs < 10 ^ Text.digitLimit := (Text.ofInt?_eq_some_iff.mp htext).1
    refine iff_of_true ?_ ?_
    · simp [literal, numberText?, htext, Script.ofExcept, Script.given, Script.write]
    · rintro ⟨⟩
      omega
  | none =>
    have hle : 10 ^ Text.digitLimit ≤ i.natAbs := not_lt.mp (Text.ofInt?_eq_none_iff.mp htext)
    refine iff_of_false ?_ fun h => h (.number hle)
    simp [literal, numberText?, htext, Script.ofExcept, Script.given, Script.fail]

omit hagrees in
theorem agrees_literal {value : Tree} (hvalue : LiteralValue value)
    (hfinite : (Node.literal value).isFinite = true) :
    nodeFault (.literal value) = none ↔
      Succeeds (writeNode (.literal value)) ∧
      (Tree.node (.literal value)).Throughout IsPrintable := by
  have hwrite : Succeeds (writeNode (.literal value)) := by
    cases hvalue with
    | double d =>
      have hd : d.isFinite = true := hfinite
      simp [writeNode, literalDraft, scalarDraft, hd]
    | decimal d =>
      have hd : d.isFinite = true := hfinite
      simp [writeNode, literalDraft, scalarDraft, hd]
    | regex pattern flags => simp [writeNode, literalDraft, Tree.flagText, used, Except.mapError]
    | _ => exact ⟨_, rfl⟩
  have hthroughout : (Tree.node (.literal value)).Throughout IsPrintable ↔
      IsPrintable (.literal value) :=
    ⟨fun h => h.here, fun h => .node h (by simp [Node.entries])⟩
  rw [and_iff_right hwrite, hthroughout]
  cases hvalue with
  | int i => exact nodeFault_int_eq_none
  | decimal d => exact iff_of_true (by cases d <;> rfl) (by rintro ⟨⟩)
  | bool b => exact iff_of_true (by cases b <;> rfl) (by rintro ⟨⟩)
  | _ => exact iff_of_true rfl (by rintro ⟨⟩)

theorem agrees_binary {left right : Tree} (op : BinaryOperator)
    (hleft : NodeSlot P .expression left) (hright : ListSlot P .expression right) :
    nodeFault (.binaryExpression left (.ofMember (.binaryOperator op)) right) = none ↔
      Succeeds (writeNode (.binaryExpression left (.ofMember (.binaryOperator op)) right)) ∧
        (Tree.node (.binaryExpression left (.ofMember (.binaryOperator op)) right)).Throughout
          IsPrintable := by
  have hprintable : IsPrintable (.binaryExpression left (.ofMember (.binaryOperator op)) right) :=
    nofun
  have hatom : (Tree.ofMember (.binaryOperator op)).Throughout IsPrintable := .atom _
  have hwrite :
      Succeeds (writeNode (.binaryExpression left (.ofMember (.binaryOperator op)) right)) ↔
      Succeeds (writeOr (required "BinaryExpression" "left") left) ∧
        Succeeds (writeItems (required "BinaryExpression" "right") right) := by
    rw [writeNode]
    refine succeeds_bind fun left' _ => ?_
    obtain ⟨items, rfl, -⟩ := hright
    cases items with
    | nil => simp [Tree.isTrue, Tree.view, View.isTrue, writeItems, writeAll]
    | cons first rest =>
      simp [Tree.isTrue, Tree.view, View.isTrue, binaryOperator_ofMember]
  have hnode :
      (Tree.node (.binaryExpression left (.ofMember (.binaryOperator op)) right)).Throughout
      IsPrintable ↔ left.Throughout IsPrintable ∧ right.Throughout IsPrintable := by
    simp [throughout_node, hprintable, hatom, Node.entries]
  have hfault : nodeFault (.binaryExpression left (.ofMember (.binaryOperator op)) right) =
      (slotFault (some (.required "BinaryExpression" "left")) left).or
        (itemsFault (some (.required "BinaryExpression" "right")) right) := by
    simp [nodeFault, Node.entries, entryFault, Node.typeName, Node.kind?, Kind.typeName]
  rw [hfault, Option.or_eq_none_iff, hwrite, hnode,
    slotFault_eq_none hagrees hleft (required_iff "BinaryExpression" "left" _),
    itemsFault_eq_none hagrees hright (required_iff "BinaryExpression" "right" _)]
  exact and_and_and_comm

/-- Names are written and printable. -/
theorem writes_names {indices : List Tree} (h : ∀ t ∈ indices, NodeSlot P .expression t)
    (hnames : ∀ index ∈ indices, index.kind? = some .identifier) :
    Succeeds (writeItems (required "MemberExpression" "indices") (.list indices)) ∧
      (Tree.list indices).Throughout IsPrintable := by
  refine (itemsFault_eq_none hagrees ⟨indices, rfl, h⟩ (required_iff _ _ .bareTry)).mp ?_
  refine List.findSome?_eq_none_iff.mpr fun index hindex => ?_
  obtain ⟨n, rfl, hn⟩ := node_of_kind? (hnames index hindex)
  cases n with
  | identifier name => simp [slotFault, nodeScript]
  | _ => cases hn

omit hagrees in
theorem printable_access {object : Tree} {indices : List Tree} {computed : Bool} :
    IsPrintable (.memberExpression object (.list indices) (.atom (.bool computed))) ↔
      (computed = false → ∀ index ∈ indices, index.kind? = some .identifier) := by
  constructor
  · rintro h rfl index hindex
    by_contra hkind
    exact h (.access object hindex hkind)
  · intro h hunprintable
    cases hunprintable with
    | access _ hindex hkind => exact hkind (h rfl _ hindex)

theorem agrees_member {object : Tree} {indices : List Tree} (computed : Bool)
    (hobject : NodeSlot P .expression object) (hindices : ∀ t ∈ indices, NodeSlot P .expression t) :
    nodeFault (.memberExpression object (.list indices) (.atom (.bool computed))) = none ↔
      Succeeds (writeNode (.memberExpression object (.list indices) (.atom (.bool computed)))) ∧
        (Tree.node (.memberExpression object (.list indices) (.atom (.bool computed)))).Throughout
          IsPrintable := by
  have hwrite : Succeeds (writeNode (.memberExpression object (.list indices)
      (.atom (.bool computed)))) ↔
      Succeeds (writeOr (required "MemberExpression" "object") object) ∧
        Succeeds (writeItems (required "MemberExpression" "indices") (.list indices)) := by
    rw [writeNode]
    exact succeeds_bind fun object' _ => by simp
  have hnode : (Tree.node (.memberExpression object (.list indices)
      (.atom (.bool computed)))).Throughout IsPrintable ↔
      (computed = false → ∀ index ∈ indices, index.kind? = some .identifier) ∧
        object.Throughout IsPrintable ∧ (Tree.list indices).Throughout IsPrintable := by
    rw [throughout_node, printable_access]
    simp [Node.entries]
  have hslot := slotFault_eq_none hagrees hobject (required_iff "MemberExpression" "object"
    (.required "MemberExpression" "object"))
  have hitems := itemsFault_eq_none hagrees ⟨indices, rfl, hindices⟩
    (required_iff "MemberExpression" "indices" (.required "MemberExpression" "indices"))
  rw [hwrite, hnode]
  cases computed with
  | true =>
    have hfault : nodeFault (.memberExpression object (.list indices) (.atom (.bool true))) =
        (slotFault (some (.required "MemberExpression" "object")) object).or
          (itemsFault (some (.required "MemberExpression" "indices")) (.list indices)) := rfl
    rw [hfault, Option.or_eq_none_iff, hslot, hitems]
    constructor
    · rintro ⟨⟨hobject, hobject'⟩, hindices, hindices'⟩
      exact ⟨⟨hobject, hindices⟩, by rintro ⟨⟩, hobject', hindices'⟩
    · rintro ⟨⟨hobject, hindices⟩, -, hobject', hindices'⟩
      exact ⟨⟨hobject, hobject'⟩, hindices, hindices'⟩
  | false =>
    have hfault : nodeFault (.memberExpression object (.list indices) (.atom (.bool false))) =
        (slotFault (some (.required "MemberExpression" "object")) object).or
          (namesFault (.list indices)) := rfl
    have hnames : namesFault (.list indices) = none ↔
        ∀ index ∈ indices, index.kind? = some .identifier := by
      simp [namesFault]
    rw [hfault, Option.or_eq_none_iff, hslot, hnames]
    constructor
    · rintro ⟨⟨hobject, hobject'⟩, hall⟩
      obtain ⟨hwrites, hprintable⟩ := writes_names hagrees hindices hall
      exact ⟨⟨hobject, hwrites⟩, fun _ => hall, hobject', hprintable⟩
    · rintro ⟨⟨hobject, -⟩, hall, hobject', -⟩
      exact ⟨⟨hobject, hobject'⟩, hall rfl⟩

omit hagrees in
theorem printable_keys {declarators : List Tree} {kind right body : Tree} :
    IsPrintable (.forInStatement
      (.choice (.first (.node (.variableDeclaration (.list declarators) kind)))) right body) ↔
      declarators.length = 1 := by
  constructor
  · intro h
    by_contra hlength
    exact h (.keys kind right body hlength)
  · intro h hunprintable
    cases hunprintable with
    | keys _ _ _ hlength => exact hlength h

/-- What a loop over keys assigns to is printed exactly if it is written and the loop declares
no more than one variable. -/
theorem keysFault_eq_none (hP : ∀ n, P n → n.HasSlots) {left : Tree} (right body : Tree)
    (h : ChoiceSlot P .variableDeclaration .identifier left) :
    entryFault "ForInStatement"
        ⟨"left", .choice .forInLeft .variableDeclaration false, left⟩ = none ↔
      IsPrintable (.forInStatement left right body) ∧
      Succeeds (Exchange.Entry.draft "ForInStatement"
        ⟨"left", .choice .forInLeft .variableDeclaration false, left⟩) ∧
      left.Throughout IsPrintable := by
  rcases h with rfl | ⟨n, rfl, hkind, hn⟩ | ⟨n, rfl, hhas, hn⟩
  · simp [entryFault, choiceFault, Exchange.Entry.draft]
  · cases n with
    | variableDeclaration declarations kind =>
      have hdeclaration := agrees_declaration hagrees rfl (hn.filled hP) .forInDeclarators
      obtain ⟨⟨items, rfl, -⟩, -⟩ : ListSlot P .variableDeclarator declarations ∧ _ := hn.filled hP
      rw [declarationFault_eq_none, decide_eq_true_iff] at hdeclaration
      simp only [entryFault, choiceFault, firstSortFault, declarationFault_eq_none, printable_keys,
        Exchange.Entry.draft, writeChoice, writeOr, bind_pure_comp, succeeds_map, throughout_choice,
        Choice.value?, Option.some.injEq, forall_eq', decide_eq_true_iff, ← hdeclaration]
      constructor
      · rintro ⟨hlength, hitems⟩
        exact ⟨hlength, by omega, hitems⟩
      · rintro ⟨hlength, -, hitems⟩
        exact ⟨hlength, hitems⟩
    | _ => cases hkind
  · have hprintable :
        IsPrintable (.forInStatement (.choice (.second (.node n))) right body) := by rintro ⟨⟩
    simpa [entryFault, choiceFault, slotFault, Exchange.Entry.draft, writeChoice, writeOr,
      Choice.value?,
      hprintable, Agrees] using hagrees n hn.here

theorem agrees_forIn (hP : ∀ n, P n → n.HasSlots) {left right body : Tree}
    (h : (Node.forInStatement left right body).Filled P) :
    nodeFault (.forInStatement left right body) = none ↔
      Succeeds (writeNode (.forInStatement left right body)) ∧
        (Tree.node (.forInStatement left right body)).Throughout IsPrintable := by
  obtain ⟨hleft, hright, hbody⟩ : ChoiceSlot P .variableDeclaration .identifier left ∧
    NodeSlot P .expression right ∧ NodeSlot P .statement body := h
  have hkeys := keysFault_eq_none hagrees hP right body hleft
  have hright := entryFault_eq_none hagrees hP "ForInStatement"
    ⟨"right", .child .expression, right⟩ trivial hright
  have hbody := entryFault_eq_none hagrees hP "ForInStatement"
    ⟨"body", .child .statement, body⟩ trivial hbody
  refine agrees_entries rfl (writeNode_regular rfl (by decide)) (by simp [Node.entries]) ?_
  have htype : (Node.forInStatement left right body).typeName = "ForInStatement" := rfl
  simp only [htype, Node.entries, List.forall_mem_cons, hkeys, hright, hbody, List.not_mem_nil,
    false_implies, implies_true, and_true, and_assoc]

/-- A finalizer is printed, or left out where it is empty, exactly if it is written. -/
theorem finalizerFault_eq_none (h : BlockSlot P t) :
    faultAfter t.hasFinalizer (fun final => if final then blockFault t else none) = none ↔
      Succeeds (t.hasFinalizer >>= fun final =>
        if final then writeBlock t else Exchange.optional) ∧ t.Throughout IsPrintable := by
  have hblock := blockFault_eq_none hagrees h
  rcases h with rfl | ⟨body, rfl, items, rfl, -⟩
  · have hmissing : Tree.missing.hasFinalizer = .error (.misuse .noSuchPart) := rfl
    simp [hmissing, faultAfter]
  · rw [hasFinalizer_list]
    cases items with
    | nil =>
      have hprintable : IsPrintable (.blockStatement (.list [])) := by rintro ⟨⟩
      simp [faultAfter, Exchange.optional, throughout_node, Node.entries, hprintable]
    | cons first rest => simpa [faultAfter] using hblock

theorem agrees_try {block handler finalizer : Tree} (hblock : BlockSlot P block)
    (hhandler : NodeSlot P .catchClause handler) (hfinalizer : BlockSlot P finalizer) :
    nodeFault (.tryStatement block handler finalizer) = none ↔
      Succeeds (writeNode (.tryStatement block handler finalizer)) ∧
        (Tree.node (.tryStatement block handler finalizer)).Throughout IsPrintable := by
  have hprintable : IsPrintable (.tryStatement block handler finalizer) := by rintro ⟨⟩
  have hnode : (Tree.node (.tryStatement block handler finalizer)).Throughout IsPrintable ↔
      block.Throughout IsPrintable ∧ handler.Throughout IsPrintable ∧
        finalizer.Throughout IsPrintable := by
    simp [throughout_node, hprintable, Node.entries]
  cases hguarded : Tree.checkTry handler finalizer with
  | error e => simp [nodeFault, writeNode, hguarded, faultAfter]
  | ok _ =>
    have hwrite : Succeeds (writeNode (.tryStatement block handler finalizer)) ↔
        Succeeds (writeBlock block) ∧ Succeeds (writeOr Exchange.optional handler) ∧
        Succeeds (finalizer.hasFinalizer >>= fun final =>
          if final then writeBlock finalizer else Exchange.optional) := by
      rw [writeNode, hguarded, ok_bind]
      refine succeeds_bind fun _ _ => succeeds_bind fun _ _ => ?_
      rcases finalizer.hasFinalizer with e | (_ | _) <;> simp
    have hfault : nodeFault (.tryStatement block handler finalizer) = none ↔
        blockFault block = none ∧ slotFault none handler = none ∧
        faultAfter finalizer.hasFinalizer
          (fun final => if final then blockFault finalizer else none) = none := by
      rw [nodeFault, hguarded]
      cases finalizer.hasFinalizer <;> simp [faultAfter]
    rw [hfault, hwrite, hnode, blockFault_eq_none hagrees hblock,
      slotFault_eq_none hagrees hhandler optional_iff, finalizerFault_eq_none hagrees hfinalizer]
    constructor
    · rintro ⟨⟨hblock, hblock'⟩, ⟨hhandler, hhandler'⟩, hfinal, hfinal'⟩
      exact ⟨⟨hblock, hhandler, hfinal⟩, hblock', hhandler', hfinal'⟩
    · rintro ⟨⟨hblock, hhandler, hfinal⟩, hblock', hhandler', hfinal'⟩
      exact ⟨⟨hblock, hblock'⟩, ⟨hhandler, hhandler'⟩, hfinal, hfinal'⟩

omit hagrees in
theorem printable_accessor {key value : Tree} {kind : PropertyKind} (hkind : kind ≠ .init) :
    IsPrintable (.property key value (.ofMember (.propertyKind kind))) ↔
      value.kind? = some .functionExpression := by
  constructor
  · intro h
    by_contra hvalue
    exact h (.accessor key hkind hvalue)
  · intro h hunprintable
    cases hunprintable with
    | accessor _ _ hvalue => exact hvalue h

omit hagrees in
/-- Which fault an empty slot of a list has does not matter for whether there is one. -/
theorem itemsFault_some_eq_none (e e' : TreeError) :
    itemsFault (some e) t = none ↔ itemsFault (some e') t = none := by
  have hslot (t : Tree) : slotFault (some e) t = none ↔ slotFault (some e') t = none := by
    cases t <;> simp [slotFault]
  cases t with
  | list items => simp [itemsFault, hslot]
  | _ => exact Iff.rfl

/-- An accessor is printed exactly if its key is and it is a function that is written. -/
theorem accessorFault_eq_none (hP : ∀ n, P n → n.HasSlots) (word : Text) (key : Option TreeError)
    {value : Tree} (h : NodeSlot P .expression value) :
    accessorFault word key value = none ↔
      key = none ∧ value.kind? = some .functionExpression ∧
        Succeeds (writeOr (required "Property" "value") value) ∧ value.Throughout IsPrintable := by
  rcases h with rfl | ⟨n, rfl, -, hn⟩
  · have hkind : Tree.missing.kind? ≠ some .functionExpression := by decide
    simp [accessorFault, hkind]
  · by_cases hkind : n.kind? = some .functionExpression
    · have hkind' : (Tree.node n).kind? = some .functionExpression := hkind
      cases n with
      | functionExpression id params body =>
        have hfilled := hn.filled hP
        have hid : slotFault none id = none := by
          rcases NodeSlot.name hP hfilled.1 with rfl | ⟨name, rfl⟩
          · rfl
          · simp [slotFault, nodeScript]
        have hprintable : IsPrintable (.functionExpression id params body) := by rintro ⟨⟩
        have hagrees := agrees_regular hagrees hP rfl (writeNode_regular rfl (by decide)) hprintable
          (by simp [Node.entries, IsRegular]) hfilled
        have hfault : nodeFault (.functionExpression id params body) = none ↔
            itemsFault (some (.paramNotIdentifier "Property")) params = none ∧
              itemsFault none body = none := by
          rw [itemsFault_some_eq_none _ (.paramNotIdentifier "FunctionExpression")]
          simp [nodeFault, Node.entries, entryFault, hid, absentFault, Node.typeName, Node.kind?,
            Kind.typeName]
        rw [writeOr, ← hagrees, hfault, accessorFault]
        simp [hkind']
      | _ => cases hkind
    · have hfault : accessorFault word key (.node n) = some (.accessorNotFunction word) := by
        cases n with
        | functionExpression id params body => exact absurd rfl hkind
        | _ => rfl
      have hkind' : (Tree.node n).kind? ≠ some .functionExpression := hkind
      simp [hfault, hkind']

theorem agrees_property (hP : ∀ n, P n → n.HasSlots) {key value : Tree} (kind : PropertyKind)
    (hkey : ChoiceSlot P .literal .identifier key) (hvalue : NodeSlot P .expression value) :
    nodeFault (.property key value (.ofMember (.propertyKind kind))) = none ↔
      Succeeds (writeNode (.property key value (.ofMember (.propertyKind kind)))) ∧
        (Tree.node (.property key value (.ofMember (.propertyKind kind)))).Throughout
          IsPrintable := by
  have hatom : (Tree.ofMember (.propertyKind kind)).Throughout IsPrintable := .atom _
  have hnode : (Tree.node (.property key value (.ofMember (.propertyKind kind)))).Throughout
      IsPrintable ↔ IsPrintable (.property key value (.ofMember (.propertyKind kind))) ∧
        key.Throughout IsPrintable ∧ value.Throughout IsPrintable := by
    simp [throughout_node, Node.entries, hatom]
  by_cases hempty : key = .choice .empty
  · subst hempty
    simp [nodeFault, writeNode]
  · have hwrite : Succeeds (writeNode (.property key value (.ofMember (.propertyKind kind)))) ↔
        Succeeds (writeChoice key) ∧ Succeeds (writeOr (required "Property" "value") value) := by
      rw [writeNode_regular rfl (by decide), succeeds_drafted]
      simp [Node.entries, Exchange.Entry.draft, hempty, kindDraft, Tree.ofMember, Tree.value, used,
        Except.mapError, Node.typeName, Node.kind?, Kind.typeName]
    have hkeyFault : choiceFault none (slotFault none) key = none ↔
        Succeeds (writeChoice key) ∧ key.Throughout IsPrintable :=
      choiceFault_eq_none hagrees hkey none (fun _ => rfl) fun n _ hn => hagrees n hn.here
    have hfault : nodeFault (.property key value (.ofMember (.propertyKind kind))) =
        if definesValue (.ofMember (.propertyKind kind)) then
          (choiceFault none (slotFault none) key).or
            (slotFault (some (.required "Property" "value")) value)
        else faultAfter (kindWord (.ofMember (.propertyKind kind))) fun word =>
          accessorFault word (choiceFault none (slotFault none) key) value := by
      rw [nodeFault]
      exact hempty
    rw [hfault, hwrite, hnode]
    by_cases hkind : kind = .init
    · subst hkind
      have hprintable : IsPrintable (.property key value (.ofMember (.propertyKind .init))) := by
        rintro ⟨⟩
        contradiction
      have hdefines : definesValue (.ofMember (.propertyKind .init)) = true := rfl
      rw [if_pos hdefines, Option.or_eq_none_iff, hkeyFault,
        slotFault_eq_none hagrees hvalue (required_iff "Property" "value" _),
        and_iff_right hprintable]
      exact and_and_and_comm
    · have hdefines : definesValue (.ofMember (.propertyKind kind)) = false := by
        cases kind with
        | init => exact absurd rfl hkind
        | _ => rfl
      obtain ⟨word, hword⟩ : ∃ word, kindWord (.ofMember (.propertyKind kind)) = .ok word :=
        ⟨_, rfl⟩
      rw [if_neg (by simp [hdefines]), hword, faultAfter,
        accessorFault_eq_none hagrees hP _ _ hvalue,
        hkeyFault, printable_accessor hkind]
      constructor
      · rintro ⟨⟨hkey, hkey'⟩, hfunction, hvalue, hvalue'⟩
        exact ⟨⟨hkey, hvalue⟩, hfunction, hkey', hvalue'⟩
      · rintro ⟨⟨hkey, hvalue⟩, hfunction, hkey', hvalue'⟩
        exact ⟨⟨hkey, hkey'⟩, hfunction, hvalue, hvalue'⟩

theorem agrees_node (hP : ∀ n, P n → n.HasSlots) (hfits : n.Fits true) (hfinite : n.isFinite = true)
    (h : n.Filled P) :
    nodeFault n = none ↔ Succeeds (writeNode n) ∧ (Tree.node n).Throughout IsPrintable := by
  cases n with
  | bare cls => simp [nodeFault, writeNode]
  | literal value => exact agrees_literal (hfits _ List.mem_cons_self) hfinite
  | unaryExpression operator argument =>
    obtain ⟨op, rfl⟩ : ∃ op, operator = .ofMember (.unaryOperator op) := h.1
    exact agrees_regular hagrees hP rfl (writeNode_unary op argument) (by rintro ⟨⟩)
      (by simp [Node.entries, IsRegular]) h
  | binaryExpression left operator right =>
    obtain ⟨⟨op, rfl⟩, hleft, hright⟩ : (∃ op, operator = .ofMember (.binaryOperator op)) ∧
      NodeSlot P .expression left ∧ ListSlot P .expression right := h
    exact agrees_binary hagrees op hleft hright
  | memberExpression object indices computed =>
    obtain ⟨hobject, ⟨items, rfl, hitems⟩, c, rfl⟩ : NodeSlot P .expression object ∧
      ListSlot P .expression indices ∧ ∃ b, computed = .atom (.bool b) := h
    exact agrees_member hagrees c hobject hitems
  | tryStatement block handler finalizer => exact agrees_try hagrees h.1 h.2.1 h.2.2
  | forInStatement left right body => exact agrees_forIn hagrees hP h
  | variableDeclaration declarations kind => exact agrees_declaration hagrees rfl h .noDeclarators
  | property key value kind =>
    obtain ⟨hkey, hvalue, k, rfl⟩ : ChoiceSlot P .literal .identifier key ∧
      NodeSlot P .expression value ∧ ∃ k, kind = .ofMember (.propertyKind k) := h
    exact agrees_property hagrees hP k hkey hvalue
  | _ =>
    exact agrees_regular hagrees hP rfl (writeNode_regular rfl (by decide)) (by rintro ⟨⟩)
      (by simp [Node.entries, IsRegular]) h

end Slots

/-- Every node of a tree that is in place and has finite numbers is printed exactly if it is
written and printable throughout. -/
theorem agrees_throughout (h : t.Throughout fun n => n.Fits true ∧ n.isFinite = true) :
    t.Throughout Agrees := by
  have hslots (n : Node Tree) (hn : n.Fits true) : n.HasSlots := hn.hasSlots
  have hfaults := failure_throughout (fun n hn => hslots n hn.1) h
  refine (hfaults.strengthen (Q := Agrees) (fun n hn => hslots n hn.1.1) ?_).mono fun n hn => hn.2
  intro n hn hfilled
  rw [Agrees, hn.2]
  exact agrees_node (fun n hn => hn.2) (fun n hn => hslots n hn.1.1.1) hn.1.1 hn.1.2 hfilled

section Trees

variable {s : PrintSettings} {j : Json}

theorem prints_iff_writes (hs : s.HasTexts) (h : t.InPlace)
    (hfinite : ∀ n, Within (.node n) t → n.isFinite = true) :
    (∃ text, toSource s t = .ok text) ↔
      Succeeds (writeOr Exchange.optional t) ∧ ∀ n, Within (.node n) t → IsPrintable n := by
  have hslots := hasSlots_of_inPlace h
  have hagrees := agrees_throughout
      ((throughout_iff_within h).mpr fun n hn => ⟨h.2 n hn, hfinite n hn⟩)
  have hprints : (∃ text, toSource s t = .ok text) ↔ slotFault none t = none := by
    simp only [toSource_eq_ok_iff hs hslots, failure_script hslots, exists_and_left, exists_eq',
      and_true]
  rw [hprints, ← throughout_iff_within h]
  rcases h.1 with rfl | ⟨n, rfl⟩
  · simp [slotFault, writeOr, Exchange.optional]
  · exact hagrees.here

theorem fits_loose {c : Category} {loose : Bool} (h : c.Fits loose t) : c.Fits true t := by
  rcases h with hhas | ⟨rfl, -⟩
  · exact .inl hhas
  · exact .inr ⟨rfl, .inl rfl⟩

theorem holds_loose {role : Role} (h : role.Holds false t) : role.Holds true t := by
  have hitems {c : Category} {loose : Bool}
      (h : ∃ items, t = .list items ∧ ∀ item ∈ items, c.Fits loose item) :
      ∃ items, t = .list items ∧ ∀ item ∈ items, c.Fits true item := by
    obtain ⟨items, rfl, hfits⟩ := h
    exact ⟨items, rfl, fun item hitem => fits_loose (hfits item hitem)⟩
  cases role with
  | child c => exact fits_loose h
  | elements c holes => exact hitems h
  | sole c => exact hitems h
  | statements => exact hitems h
  | block => exact .inl (h.resolve_right nofun)
  | finalizer => exact .inl (h.resolve_right nofun)
  | choice e first mayBeEmpty => exact h.imp_left fun hempty => ⟨hempty.1, .inl rfl⟩
  | _ => exact h

theorem inPlace_of_read (h : read j = .ok t) : t.InPlace := by
  constructor
  · rcases readAs_eq_ok.mp h with ⟨-, -, rfl⟩ | ⟨-, n, -, -, -, rfl⟩
    · exact .inl rfl
    · exact .inr ⟨_, rfl⟩
  · intro n hn entry hentry
    exact holds_loose ((sound_of_readAs h n hn).fits entry hentry)

/-- A tree that was read can be written if its numbers are finite. -/
theorem writes_of_read (h : read j = .ok t)
    (hfinite : ∀ n, Within (.node n) t → n.isFinite = true) :
    Succeeds (writeOr Exchange.optional t) := by
  rcases settles_writeText h none with ⟨d, ⟨hd, hwithin⟩, -⟩ | ⟨-, output, hwrite, -⟩
  · have hd' : d.isFinite = true := hfinite _ hwithin
    simp [hd] at hd'
  · simp only [writeText, write, bind_eq_ok] at hwrite
    obtain ⟨-, ⟨draft, hdraft, -⟩, -⟩ := hwrite
    exact ⟨draft, hdraft⟩

/-- Trees that are in place, with numbers that are finite, can be printed exactly if they can be
written and hold no node that only the printer refuses. So those that were read can be printed
exactly if they hold no such node. -/
theorem toSource_iff_writes (hs : s.HasTexts) :
    (∀ t : Tree, t.InPlace → (∀ n, Within (.node n) t → n.isFinite = true) →
      ((∃ text, toSource s t = .ok text) ↔
        (∃ draft, writeOr Exchange.optional t = .ok draft) ∧
          ∀ n, Within (.node n) t → ¬n.Unprintable)) ∧
    ∀ j t, read j = .ok t → (∀ n, Within (.node n) t → n.isFinite = true) →
      ((∃ text, toSource s t = .ok text) ↔ ∀ n, Within (.node n) t → ¬n.Unprintable) := by
  refine ⟨fun t h hfinite => prints_iff_writes hs h hfinite, fun j t hread hfinite => ?_⟩
  rw [prints_iff_writes hs (inPlace_of_read hread) hfinite,
    and_iff_right (writes_of_read hread hfinite)]
  exact Iff.rfl

theorem toSource_iff_writes_nestedSum :
    (∃ text, toSource { minify := .bool true } nestedSum = .ok text) ∧
      read thisObject = .ok (.node .thisExpression) ∧
      ∃ text, toSource {} (.node .thisExpression) = .ok text := by
  have hread : read thisObject = .ok (.node .thisExpression) := readAs_thisObject rfl
  have hthis {n : Node Tree} (hn : Within (.node n) (.node .thisExpression)) :
      n = .thisExpression := by
    simpa [Within.node_iff, Node.fields] using hn
  refine ⟨((toSource_iff_writes ⟨⟨_, rfl⟩, ⟨_, rfl⟩⟩).1 nestedSum inPlace_nestedSum
      fun n hn => ?_).mpr ⟨⟨_, rfl⟩, fun n hn => ?_⟩, hread,
    ((toSource_iff_writes ⟨⟨_, rfl⟩, ⟨_, rfl⟩⟩).2 thisObject _ hread
      fun n hn => ?_).mpr fun n hn => ?_⟩
  · simp [nestedSum, Within.node_iff, Node.fields, Tree.ofMember, or_and_right, exists_or] at hn
    rcases hn with rfl | (rfl | rfl) | rfl | rfl | rfl <;> rfl
  · simp [nestedSum, Within.node_iff, Node.fields, Tree.ofMember, or_and_right, exists_or] at hn
    rcases hn with rfl | (rfl | rfl) | rfl | rfl | rfl <;> rintro ⟨⟩
  · rw [hthis hn]
    rfl
  · rw [hthis hn]
    rintro ⟨⟩

def intLiteral (i : Int) : Tree := .node (.literal (.atom (.int i)))

/-- The literal of an integer with too many digits can be written, and it is the only node, but it
cannot be printed. -/
theorem writes_intLiteral {i : Int} (h : 10 ^ Text.digitLimit ≤ i.natAbs) :
    (intLiteral i).InPlace ∧ (∃ draft, writeOr Exchange.optional (intLiteral i) = .ok draft) ∧
      (∀ n, Within (.node n) (intLiteral i) → n.isFinite = true ∧ n.kind? = some .literal) ∧
      ∀ minify, toSource { minify } (intLiteral i) = .error .tooManyDigits := by
  have hwithin {n : Node Tree} (hn : Within (.node n) (intLiteral i)) :
      n = .literal (.atom (.int i)) := by
    simpa [intLiteral, Within.node_iff, Node.fields] using hn
  have hplace : (intLiteral i).InPlace := by
    refine ⟨.inr ⟨_, rfl⟩, fun n hn => ?_⟩
    rw [hwithin hn]
    simpa [Node.Fits, Node.entries, Role.Holds] using LiteralValue.int i
  have hliteral : literal (.atom (.int i)) = .error .tooManyDigits := by
    have htext : Text.ofInt? i = none := Text.ofInt?_eq_none_iff.mpr (Nat.not_lt.mpr h)
    simp [literal, numberText?, htext, noNumberText]
  refine ⟨hplace, ⟨_, rfl⟩, fun n hn => ?_, fun minify => ?_⟩
  · rw [hwithin hn]
    exact ⟨rfl, rfl⟩
  · rw [toSource_eq_error_iff ⟨⟨_, rfl⟩, ⟨_, rfl⟩⟩ (hasSlots_of_inPlace hplace)]
    rw [script, intLiteral, scriptOr, nodeScript, hliteral]
    rfl

def longLiteral : Tree := intLiteral (10 ^ Text.digitLimit : Nat)

theorem writes_longLiteral :
    longLiteral.InPlace ∧ (∃ draft, writeOr Exchange.optional longLiteral = .ok draft) ∧
      (∀ n, Within (.node n) longLiteral → n.isFinite = true ∧ n.kind? = some .literal) ∧
      ∀ minify, toSource { minify } longLiteral = .error .tooManyDigits :=
  writes_intLiteral (Int.natAbs_natCast _).ge

end Trees

end Source

end ScriptTree
