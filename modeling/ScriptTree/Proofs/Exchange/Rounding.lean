import ScriptTree.Proofs.Exchange.Normalization

/-!
Decimals in JSON. A decimal is written as the double nearest to it, if that is finite, and
cannot be written otherwise. So a tree is written like the one that has those doubles in the
place of its decimals, which comes back canonical.
-/

namespace ScriptTree

/-- Whether a decimal can be written: it is finite, and so is the double nearest to it. -/
def Decimal.isWritable (d : Decimal) : Bool := d.isFinite && d.toDouble.isFinite

/-- The value of a literal, a decimal replaced by the double that it is written as. -/
def Tree.writtenValue : Tree → Tree
  | .atom (.decimal d) => .atom (if d.isWritable then .double d.toDouble else .decimal d)
  | t => t

def Node.rounded : Node Tree → Node Tree
  | .literal value => .literal value.writtenValue
  | n => n

def View.rounded : View Tree → Tree
  | .missing => .missing
  | .atom a => .atom a
  | .regex pattern flags => .regex pattern flags
  | .list items => .list items
  | .choice c => .choice c
  | .node n => .node n.rounded

/-- The tree with a double in the place of every decimal that can be written. -/
def Tree.rounded (t : Tree) : Tree := t.fold View.rounded

namespace Tree

@[simp] theorem rounded_missing : Tree.rounded .missing = .missing := rfl

@[simp] theorem rounded_atom (a : Atom) : Tree.rounded (.atom a) = .atom a := rfl

@[simp] theorem rounded_list (items : List Tree) :
    Tree.rounded (.list items) = .list (items.map Tree.rounded) := by
  rw [Tree.rounded, fold, foldList_eq_map]
  rfl

@[simp] theorem rounded_choice (c : Choice Tree) :
    Tree.rounded (.choice c) = .choice (c.map Tree.rounded) := by
  cases c <;> rfl

theorem rounded_node (n : Node Tree) :
    Tree.rounded (.node n) = .node (n.map Tree.rounded).rounded := by
  rw [Tree.rounded, fold, foldNode_eq_map]
  rfl

end Tree

theorem Node.rounded_regular {n : Node Tree} (h : ∀ value, n ≠ .literal value) :
    n.rounded = n := by
  cases n with
  | literal value => exact absurd rfl (h value)
  | _ => rfl

theorem Node.kind?_rounded (n : Node Tree) :
    (n.map Tree.rounded).rounded.kind? = n.kind? := by
  cases n <;> rfl

namespace Exchange

variable {c : Category} {t : Tree} {n : Node Tree} {entry : Entry} {owner : String}

def Entry.rounded (entry : Entry) : Entry := { entry with tree := entry.tree.rounded }

theorem entries_rounded (n : Node Tree) :
    (n.map Tree.rounded).entries = n.entries.map Entry.rounded := by
  cases n <;> rfl

theorem has_rounded : c.Has (Tree.rounded (.node n)) ↔ c.Has (.node n) := by
  rw [Tree.rounded_node]
  cases hk : n.kind? with
  | none =>
    cases n with
    | bare cls => rfl
    | _ => cases hk
  | some k =>
    rw [Category.has_node_iff hk, Category.has_node_iff ((Node.kind?_rounded n).trans hk)]

section Slots

structure RoundsSlot (c : Category) (t : Tree) : Prop where
  fits : c.Fits true t.rounded
  prepared : Prepared t.rounded
  written : ∀ absent, writeOr absent t.rounded = writeOr absent t

structure Rounds (n : Node Tree) : Prop where
  prepared : Prepared (Tree.rounded (.node n))
  written : writeNode (n.map Tree.rounded).rounded = writeNode n

theorem prepared_missing : Prepared .missing := ⟨by simp, by simp [PartsWriteBack]⟩

theorem prepared_atom (a : Atom) : Prepared (.atom a) := ⟨by simp, by simp [PartsWriteBack]⟩

theorem prepared_choice {value : Choice Tree} (h : ∀ t, value.value? = some t → Prepared t) :
    Prepared (.choice value) := by
  constructor
  · intro n hn
    obtain ⟨t, ht, hn⟩ := Within.choice_iff.mp hn
    exact (h t ht).fits n hn
  · intro n hn
    obtain ⟨t, ht, hn⟩ := Within.choice_iff.mp hn
    exact (h t ht).back n hn

theorem roundsSlot (hfits : c.Fits true t) (ih : ∀ n, Within (.node n) t → Rounds n) :
    RoundsSlot c t := by
  rcases hfits with hhas | ⟨rfl, -⟩
  · obtain ⟨n, rfl⟩ := node_of_has hhas
    have hrounds := ih n .refl
    refine ⟨.inl (has_rounded.mpr hhas), hrounds.prepared, fun absent => ?_⟩
    rw [Tree.rounded_node, writeOr, writeOr, hrounds.written]
  · exact ⟨.inr ⟨rfl, .inl rfl⟩, prepared_missing, fun absent => rfl⟩

structure RoundsItems (c : Category) (items : List Tree) : Prop where
  fits : ∀ item ∈ items.map Tree.rounded, c.Fits true item
  prepared : Prepared (.list (items.map Tree.rounded))
  written : ∀ absent, writeAll absent (items.map Tree.rounded) = writeAll absent items

theorem roundsItems {items : List Tree} (hfits : ∀ item ∈ items, c.Fits true item)
    (ih : ∀ n, Within (.node n) (.list items) → Rounds n) : RoundsItems c items := by
  have hslots : ∀ item ∈ items, RoundsSlot c item := fun item hitem =>
    roundsSlot (hfits item hitem) fun n hn => ih n (.item hitem hn)
  refine ⟨?_, .list ?_, fun absent => ?_⟩
  · simpa using fun item hitem => (hslots item hitem).fits
  · simpa using fun item hitem => (hslots item hitem).prepared
  · clear hfits ih
    induction items with
    | nil => rfl
    | cons item items ihItems =>
      obtain ⟨hitem, hitems⟩ := List.forall_mem_cons.mp hslots
      rw [List.map_cons, writeAll, writeAll, hitem.written, ihItems hitems]

end Slots

section Entries

structure RoundsEntry (owner : String) (entry : Entry) : Prop where
  holds : entry.role.Holds true entry.tree.rounded
  prepared : Prepared entry.tree.rounded
  draft : entry.rounded.draft owner = entry.draft owner

/-- What holds an atom is not changed. -/
theorem roundsEntry_atom {a : Atom} (htree : entry.tree = .atom a)
    (hholds : entry.role.Holds true entry.tree) : RoundsEntry owner entry := by
  obtain ⟨name, role, t⟩ := entry
  obtain rfl : t = .atom a := htree
  exact ⟨hholds, prepared_atom a, rfl⟩

theorem rounded_block (items : List Tree) :
    Tree.rounded (.node (.blockStatement (.list items))) =
      .node (.blockStatement (.list (items.map Tree.rounded))) := by
  rw [Tree.rounded_node]
  simp [Node.map, Node.mapFields, Node.rounded]

theorem roundsBlock {items : List Tree}
    (ih : ∀ n, Within (.node n) (.node (.blockStatement (.list items))) → Rounds n)
    (hfits : ∀ item ∈ items, Category.statement.Fits true item) : RoundsItems .statement items :=
  roundsItems hfits fun n hn => ih n (.field (f := .body) (by simp [Node.fields]) hn)

theorem roundsEntry (hholds : entry.role.Holds true entry.tree) (hliteral : entry.role ≠ .literal)
    (hinner : ∀ n, Within (.node n) entry.tree → n.Fits true)
    (ih : ∀ n, Within (.node n) entry.tree → Rounds n) : RoundsEntry owner entry := by
  obtain ⟨name, role, t⟩ := entry
  cases role with
  | child c =>
    obtain ⟨hfits, hprepared, hwritten⟩ := roundsSlot hholds ih
    exact ⟨hfits, hprepared, by simp only [Entry.draft, Entry.rounded, hwritten]⟩
  | optional c =>
    obtain ⟨hfits, hprepared, hwritten⟩ := roundsSlot hholds ih
    exact ⟨hfits, hprepared, by simp only [Entry.draft, Entry.rounded, hwritten]⟩
  | elements c holes =>
    obtain ⟨items, rfl, hfits⟩ : ∃ items, t = .list items ∧ ∀ t ∈ items, c.Fits true t := hholds
    obtain ⟨hitems, hprepared, hwritten⟩ := roundsItems hfits ih
    refine ⟨⟨_, Tree.rounded_list items, hitems⟩, by simpa using hprepared, ?_⟩
    simp only [Entry.draft, Entry.rounded, Tree.rounded_list, writeArray, hwritten]
  | sole c =>
    obtain ⟨items, rfl, hfits⟩ : ∃ items, t = .list items ∧ ∀ t ∈ items, c.Fits true t := hholds
    obtain ⟨hitems, hprepared, -⟩ := roundsItems hfits ih
    refine ⟨⟨_, Tree.rounded_list items, hitems⟩, by simpa using hprepared, ?_⟩
    rcases items with _ | ⟨only, _ | ⟨second, rest⟩⟩
    · rfl
    · have honly := roundsSlot (hfits only (by simp)) fun n hn => ih n (.item (by simp) hn)
      simp only [Entry.draft, Entry.rounded, Tree.rounded_list, List.map_cons, List.map_nil,
        honly.written]
    · simp [Entry.draft, Entry.rounded]
  | statements =>
    obtain ⟨items, rfl, hfits⟩ :
      ∃ items, t = .list items ∧ ∀ t ∈ items, Category.statement.Fits true t := hholds
    obtain ⟨hitems, hprepared, hwritten⟩ := roundsItems hfits ih
    refine ⟨⟨_, Tree.rounded_list items, hitems⟩, by simpa using hprepared, ?_⟩
    simp only [Entry.draft, Entry.rounded, Tree.rounded_list, writeArray, hwritten]
  | block =>
    rcases eq_or_ne t .missing with rfl | hthere
    · exact ⟨hholds, prepared_missing, rfl⟩
    · obtain ⟨items, rfl, hfits⟩ := statements_of_block hholds hinner hthere
      refine ⟨.inl ⟨_, rounded_block items⟩, (ih _ .refl).prepared, ?_⟩
      simp only [Entry.draft, Entry.rounded, rounded_block, writeBlock, writeArray,
        (roundsBlock ih hfits).written]
  | finalizer =>
    rcases eq_or_ne t .missing with rfl | hthere
    · exact ⟨hholds, prepared_missing, rfl⟩
    · obtain ⟨items, rfl, hfits⟩ := statements_of_block hholds hinner hthere
      refine ⟨.inl ⟨_, rounded_block items⟩, (ih _ .refl).prepared, ?_⟩
      simp only [Entry.draft, Entry.rounded, rounded_block, hasFinalizer_list, writeBlock,
        writeArray, (roundsBlock ih hfits).written, List.isEmpty_map]
  | choice e first mayBeEmpty =>
    rcases hholds with ⟨rfl, hempty⟩ | ⟨s, rfl, hs⟩ | ⟨s, rfl, hs⟩
    · exact ⟨.inl ⟨rfl, hempty⟩, prepared_choice (fun t ht => by cases ht), rfl⟩
    · obtain ⟨n, rfl, hn⟩ := node_of_kind? hs
      have hrounds := ih n (.choice rfl .refl)
      refine ⟨.inr (.inl ⟨_, Tree.rounded_choice _, ?_⟩), prepared_choice ?_, ?_⟩
      · rw [Tree.rounded_node]
        exact (Node.kind?_rounded n).trans hn
      · rintro t ⟨⟩
        exact hrounds.prepared
      · have hdraft (t : Tree) : Entry.draft owner ⟨name, .choice e first mayBeEmpty,
            .choice (.first t)⟩ = do return [(name, ← writeOr Exchange.optional t)] := by
          cases mayBeEmpty <;> rfl
        rw [Entry.rounded, Tree.rounded_choice, Choice.map, hdraft, hdraft, Tree.rounded_node,
          writeOr, writeOr, hrounds.written]
    · obtain ⟨n, rfl⟩ := node_of_has hs
      have hrounds := ih n (.choice rfl .refl)
      refine ⟨.inr (.inr ⟨_, Tree.rounded_choice _, has_rounded.mpr hs⟩), prepared_choice ?_, ?_⟩
      · rintro t ⟨⟩
        exact hrounds.prepared
      · have hdraft (t : Tree) : Entry.draft owner ⟨name, .choice e first mayBeEmpty,
            .choice (.second t)⟩ = do return [(name, ← writeOr Exchange.optional t)] := by
          cases mayBeEmpty <;> rfl
        rw [Entry.rounded, Tree.rounded_choice, Choice.map, hdraft, hdraft, Tree.rounded_node,
          writeOr, writeOr, hrounds.written]
  | name =>
    obtain ⟨text, rfl⟩ : ∃ text, t = .ofText text := hholds
    exact roundsEntry_atom rfl ⟨text, rfl⟩
  | flag =>
    obtain ⟨b, rfl⟩ : ∃ b, t = .atom (.bool b) := hholds
    exact roundsEntry_atom rfl ⟨b, rfl⟩
  | propertyKind =>
    obtain ⟨kind, rfl⟩ : ∃ kind, t = .ofMember (.propertyKind kind) := hholds
    exact roundsEntry_atom rfl ⟨kind, rfl⟩
  | variableKind =>
    obtain ⟨kind, rfl⟩ : ∃ kind, t = .ofMember (.variableKind kind) := hholds
    exact roundsEntry_atom rfl ⟨kind, rfl⟩
  | unaryOperator =>
    obtain ⟨op, rfl⟩ : ∃ op, t = .ofMember (.unaryOperator op) := hholds
    exact roundsEntry_atom rfl ⟨op, rfl⟩
  | binaryOperator =>
    obtain ⟨op, rfl⟩ : ∃ op, t = .ofMember (.binaryOperator op) := hholds
    exact roundsEntry_atom rfl ⟨op, rfl⟩
  | literal => exact absurd rfl hliteral

end Entries

section Nodes

variable {value : Tree}

theorem fits_literal_iff : (Node.literal value).Fits true ↔ LiteralValue value := by
  constructor
  · intro h
    exact h ⟨"value", .literal, value⟩ (by simp [Node.entries])
  · intro h entry hentry
    obtain rfl := List.mem_singleton.mp hentry
    exact h

theorem prepared_entries_literal (h : LiteralValue value) :
    ∀ entry ∈ (Node.literal value).entries, Prepared entry.tree := by
  simp only [Node.entries, List.forall_mem_singleton]
  cases h with
  | null => exact prepared_missing
  | regex pattern flags => exact ⟨by simp [Tree.ofText], by simp [PartsWriteBack, Tree.ofText]⟩
  | _ => exact prepared_atom _

theorem prepared_literal (h : LiteralValue value) (hdecimal : ∀ d, value ≠ .atom (.decimal d)) :
    Prepared (.node (.literal value)) := by
  have hfits := fits_literal_iff.mpr h
  have hentries := prepared_entries_literal h
  exact .node hfits (writesBack_of_parts hfits (by simpa using hdecimal) hentries) hentries

/-- A decimal that cannot be written comes back as anything. -/
theorem prepared_unwritable {d : Decimal} (h : d.isWritable = false) :
    Prepared (.node (.literal (.atom (.decimal d)))) := by
  refine .node (fits_literal_iff.mpr (.decimal d)) ?_ (prepared_entries_literal (.decimal d))
  intro a ha
  simp only [Decimal.isWritable, Bool.and_eq_false_iff] at h
  simp only [writeNode, literalDraft, scalarDraft, doubleDraft] at ha
  rcases h with hinfinite | hlarge
  · simp [hinfinite] at ha
  · cases hfinite : d.isFinite <;> simp [hlarge, hfinite, typed, draftFields] at ha

/-- A decimal that can be written is written as a double. -/
theorem writeNode_decimal {d : Decimal} (h : d.isWritable = true) :
    writeNode (.literal (.atom (.double d.toDouble))) =
      writeNode (.literal (.atom (.decimal d))) := by
  obtain ⟨hfinite, hdouble⟩ := (Bool.and_eq_true _ _).mp h
  simp [writeNode, literalDraft, scalarDraft, doubleDraft, hfinite, hdouble]

theorem rounds_literal (h : LiteralValue value) : Rounds (.literal value) := by
  have hmap : ((Node.literal value).map Tree.rounded).rounded = .literal value.writtenValue := by
    cases h <;> rfl
  refine ⟨Tree.rounded_node _ ▸ hmap ▸ ?_, hmap ▸ ?_⟩
  · cases h with
    | decimal d =>
      cases hwritable : d.isWritable with
      | true =>
        simpa [Tree.writtenValue, hwritable] using prepared_literal (.double d.toDouble) (by simp)
      | false => simpa [Tree.writtenValue, hwritable] using prepared_unwritable hwritable
    | _ => exact prepared_literal (by constructor) (by simp [Tree.writtenValue])
  · cases h with
    | decimal d =>
      cases hwritable : d.isWritable with
      | true => simpa [Tree.writtenValue, hwritable] using writeNode_decimal hwritable
      | false => simp [Tree.writtenValue, hwritable]
    | _ => rfl

theorem text?_rounded (value : Tree) : value.rounded.writtenValue.text? = value.text? := by
  cases value with
  | atom a =>
    cases a with
    | decimal d =>
      rw [Tree.rounded_atom, Tree.writtenValue]
      split <;> rfl
    | _ => rfl
  | node m =>
    rw [Tree.rounded_node]
    rfl
  | choice c =>
    rw [Tree.rounded_choice]
    rfl
  | list items =>
    rw [Tree.rounded_list]
    rfl
  | _ => rfl

theorem directive?_rounded (n : Node Tree) :
    Tree.directive? (.node (n.map Tree.rounded)) = Tree.directive? (.node n) := by
  cases n with
  | expressionStatement expression =>
    cases expression with
    | node m =>
      simp only [Node.map, Node.mapFields, Tree.rounded_node]
      cases m with
      | literal value => exact text?_rounded value
      | _ => rfl
    | choice c => simp [Node.map, Node.mapFields, Tree.directive?]
    | list items => simp [Node.map, Node.mapFields, Tree.directive?]
    | _ => rfl
  | _ => rfl

/-- The type that a node is written with is told by its operator. -/
theorem exchangeType_rounded (hfits : n.Fits true) :
    (n.map Tree.rounded).exchangeType = n.exchangeType := by
  cases n with
  | unaryExpression operator argument =>
    obtain ⟨op, rfl⟩ : ∃ op, operator = .ofMember (.unaryOperator op) :=
      hfits ⟨"operator", .unaryOperator, operator⟩ (by simp [Node.entries])
    rfl
  | binaryExpression left operator right =>
    obtain ⟨op, rfl⟩ : ∃ op, operator = .ofMember (.binaryOperator op) :=
      hfits ⟨"operator", .binaryOperator, operator⟩ (by simp [Node.entries])
    rfl
  | _ => rfl

theorem drafted_rounded (hfits : n.Fits true)
    (h : ∀ entry ∈ n.entries, RoundsEntry n.typeName entry) :
    (n.map Tree.rounded).drafted = n.drafted := by
  have htype : (n.map Tree.rounded).typeName = n.typeName := by
    cases n <;> rfl
  have hfields : (n.map Tree.rounded).entries.mapM (Entry.draft n.typeName) =
      n.entries.mapM (Entry.draft n.typeName) := by
    refine mapM_congr ?_
    rw [entries_rounded, List.forall₂_map_left_iff, List.forall₂_same]
    exact fun entry hentry => (h entry hentry).draft
  rw [Node.drafted, Node.drafted, Node.extras, Node.extras, htype, hfields,
    exchangeType_rounded hfits, directive?_rounded]

theorem checkTry_rounded {block handler finalizer : Tree}
    (hfits : (Node.tryStatement block handler finalizer).Fits true)
    (hinner : ∀ m, Within (.node m) finalizer → m.Fits true) :
    Tree.checkTry handler.rounded finalizer.rounded = Tree.checkTry handler finalizer := by
  simp only [Node.Fits, Node.entries, List.forall_mem_cons] at hfits
  obtain ⟨-, hhandler, hfinalizer, -⟩ := hfits
  have hmissing : handler.rounded.isMissing = handler.isMissing := by
    rcases hhandler with hhas | ⟨rfl, -⟩
    · obtain ⟨m, rfl⟩ := node_of_has hhas
      rw [Tree.rounded_node]
      rfl
    · rfl
  have hfinal : finalizer.rounded.hasFinalizer = finalizer.hasFinalizer := by
    rcases eq_or_ne finalizer .missing with rfl | hthere
    · rfl
    · obtain ⟨items, rfl, -⟩ := statements_of_block hfinalizer hinner hthere
      rw [rounded_block, hasFinalizer_list, hasFinalizer_list, List.isEmpty_map]
  rw [Tree.checkTry, Tree.checkTry, hmissing, hfinal]

/-- The rounded form of a node comes back canonical and is written alike if those of its parts
do. -/
theorem rounds_of_parts (hfits : n.Fits true)
    (hinner : ∀ entry ∈ n.entries, ∀ m, Within (.node m) entry.tree → m.Fits true)
    (ih : ∀ entry ∈ n.entries, ∀ m, Within (.node m) entry.tree → Rounds m) : Rounds n := by
  by_cases hliteral : ∃ value, n = .literal value
  · obtain ⟨value, rfl⟩ := hliteral
    exact rounds_literal (fits_literal_iff.mp hfits)
  have hentries : ∀ entry ∈ n.entries, RoundsEntry n.typeName entry := by
    intro entry hentry
    refine roundsEntry (hfits entry hentry) ?_ (hinner entry hentry) (ih entry hentry)
    exact fun hrole => hliteral ⟨_, exists_literal_iff.mp ⟨entry, hentry, hrole, rfl⟩⟩
  have hmap : ∀ value, n.map Tree.rounded ≠ .literal value := by
    intro value heq
    cases n with
    | literal value' => exact hliteral ⟨value', rfl⟩
    | _ => cases heq
  have hfits' : (n.map Tree.rounded).Fits true := by
    rw [Node.Fits, entries_rounded, List.forall_mem_map]
    exact fun entry hentry => (hentries entry hentry).holds
  have hparts : ∀ entry ∈ (n.map Tree.rounded).entries, Prepared entry.tree := by
    rw [entries_rounded, List.forall_mem_map]
    exact fun entry hentry => (hentries entry hentry).prepared
  refine ⟨?_, ?_⟩
  · rw [Tree.rounded_node, Node.rounded_regular hmap]
    exact .node hfits' (writesBack_of_parts hfits' (fun d => hmap _) hparts) hparts
  rw [Node.rounded_regular hmap]
  have hdrafted := drafted_rounded hfits hentries
  cases n with
  | bare cls => rfl
  | unaryExpression operator argument =>
    obtain ⟨op, rfl⟩ : ∃ op, operator = .ofMember (.unaryOperator op) :=
      hfits ⟨"operator", .unaryOperator, operator⟩ (by simp [Node.entries])
    rw [writeNode_unary, ← hdrafted]
    exact writeNode_unary op argument.rounded
  | binaryExpression left operator right =>
    simp only [Node.Fits, Node.entries, List.forall_mem_cons] at hfits ih
    obtain ⟨⟨op, rfl⟩, hleft, ⟨items, rfl, hitems⟩, -⟩ := hfits
    have htrue : (Tree.list (items.map Tree.rounded)).isTrue = (Tree.list items).isTrue := by
      simp [Tree.isTrue, Tree.view, View.isTrue]
    simp only [Node.map, Node.mapFields, Tree.ofMember, Tree.rounded_atom, Tree.rounded_list,
      writeNode, writeItems, htrue, (roundsSlot hleft ih.2.1).written,
      (roundsItems hitems ih.2.2.1).written]
  | memberExpression object indices computed =>
    simp only [Node.Fits, Node.entries, List.forall_mem_cons] at hfits ih
    obtain ⟨hobject, ⟨items, rfl, hitems⟩, ⟨computed, rfl⟩, -⟩ := hfits
    simp only [Node.map, Node.mapFields, Tree.rounded_atom, Tree.rounded_list, writeNode,
      writeItems, (roundsSlot hobject ih.1).written, (roundsItems hitems ih.2.1).written]
  | tryStatement block handler finalizer =>
    have hcheck := checkTry_rounded hfits
      (hinner ⟨"finalizer", .finalizer, finalizer⟩ (by simp [Node.entries]))
    cases hguarded : Tree.checkTry handler finalizer with
    | ok _ =>
      rw [writeNode_try hguarded, ← hdrafted]
      exact writeNode_try (hcheck.trans hguarded)
    | error e =>
      simp [Node.map, Node.mapFields, writeNode, hcheck, hguarded]
  | _ => rw [writeNode_regular rfl (by decide), writeNode_regular rfl (by decide), hdrafted]

theorem rounds_of_inPlace (hfits : ∀ n, Within (.node n) t → n.Fits true) :
    ∀ n, Within (.node n) t → Rounds n := by
  refine forall_within_entries fun n hn ih => rounds_of_parts (hfits n hn) ?_ ?_
  · exact fun entry hentry m hm => hfits m (ih entry hentry m hm).1
  · exact fun entry hentry m hm => (ih entry hentry m hm).2

/-- A tree that is in place comes back as the canonical form of the rounded one, whenever it
can be written. -/
theorem read_of_written {j : Json} (h : t.InPlace) (hwrite : write t = .ok j) :
    read j = .ok t.rounded.canonical := by
  obtain ⟨draft, hdraft, rfl⟩ := bind_eq_ok.mp hwrite
  obtain ⟨rfl | ⟨n, rfl⟩, hfits⟩ := h
  · obtain rfl := Except.ok.inj (Except.ok.inj hdraft)
    exact readAs_eq_ok.mpr (.inl ⟨rfl, rfl, rfl⟩)
  · obtain ⟨hprepared, hwritten⟩ := rounds_of_inPlace hfits n .refl
    have hdraft : writeNode n = .ok (.ok j) := hdraft
    rw [← hwritten] at hdraft
    rw [Tree.rounded_node] at hprepared ⊢
    obtain ⟨m, hm⟩ := hprepared.back _ .refl j hdraft
    rw [hm.canonical, read_eq_readAs]
    exact hm.reads .anything rfl

end Nodes

end Exchange

end ScriptTree
