import ScriptTree.Proofs.Exchange.Canonical

/-!
Writing a tree that was built by hand and reading it again. Entry by entry, what is written
for a field is read as the canonical form of the field; chains are written as applications
and accesses nested in each other, which reading splices again.
-/

namespace ScriptTree.Exchange

section Slots

/-- The node is written as an object that is read as a node, the canonical form of the first.
Only chains may change their kind, and what they come to is an expression. -/
structure Returns (n : Node Tree) (a : Json) (m : Node Tree) : Prop where
  canonical : Tree.canonical (.node n) = .node m
  reads : ∀ e : Expectation, e.check a m.kind? = .ok () → readAs e a = .ok (.node m)
  renderable : a.Renderable
  object : a.kind = .object
  kind : (∃ k, n.kind? = some k ∧ m.kind? = some k) ∨
    (n.kind? = some .binaryExpression ∨ n.kind? = some .memberExpression) ∧
      ∃ k, m.kind? = some k ∧ k.isExpression = true

def WritesBack (n : Node Tree) : Prop :=
  ∀ a, writeNode n = .ok (.ok a) → ∃ m, Returns n a m

def PartsWriteBack (t : Tree) : Prop := ∀ n, Within (.node n) t → WritesBack n

variable {n m : Node Tree} {a : Json} {t : Tree} {c : Category} {absent : Written}
  {owner name : String}

/-- A chain is an expression, and so is what it comes to. -/
theorem Returns.includes (h : Returns n a m) (hc : c.Has (.node n)) :
    ∃ k, m.kind? = some k ∧ c.includes k = true := by
  rcases h.kind with ⟨k, hn, hm⟩ | ⟨hn, k, hm, hk⟩
  · exact ⟨k, hm, (Category.has_node_iff hn).mp hc⟩
  · refine ⟨k, hm, ?_⟩
    rcases hn with hn | hn
    · rw [Category.has_node_iff hn] at hc
      cases c <;> simp_all [Category.includes, Kind.isExpression, Kind.isStatement]
    · rw [Category.has_node_iff hn] at hc
      cases c <;> simp_all [Category.includes, Kind.isExpression, Kind.isStatement]

/-- A slot is written as what stands for an empty one, or as an object that is read as the
canonical form of its node. -/
theorem slot_cases (hfits : c.Fits true t) (ih : PartsWriteBack t)
    (h : writeOr absent t = .ok (.ok a)) :
    (t = .missing ∧ absent = .ok (.ok a)) ∨
      ∃ n m, t = .node n ∧ c.Has (.node n) ∧ Returns n a m := by
  rcases hfits with hhas | ⟨rfl, -⟩
  · cases t with
    | missing => exact absurd hhas (Category.not_has_missing c)
    | node n =>
      obtain ⟨m, hm⟩ := ih n .refl a h
      exact .inr ⟨n, m, rfl, hhas, hm⟩
    | _ => simp [writeOr] at h
  · exact .inl ⟨rfl, h⟩

theorem Returns.readsChild (h : Returns n a m) (hc : c.Has (.node n)) :
    readAs (.child owner name c) a = .ok (.node m) := by
  obtain ⟨k, hm, hk⟩ := h.includes hc
  refine h.reads _ ?_
  simp [Expectation.check, Expectation.checkCategory, hm, hk]

theorem Returns.readsElement {holes : Bool} (h : Returns n a m) (hc : c.Has (.node n)) :
    readAs (.element owner name c holes) a = .ok (.node m) := by
  obtain ⟨k, hm, hk⟩ := h.includes hc
  refine h.reads _ ?_
  simp [Expectation.check, Expectation.checkNull, Expectation.checkCategory, hm, hk, h.object]

end Slots

section Drafts

theorem draftFields_single {name : String} {draft : Draft} {own : List (Text × Json)} :
    draftFields [(name, draft)] = .ok own ↔
      ∃ a, draft = .ok a ∧ own = [(Text.ofString name, a)] := by
  simp only [draftFields, List.mapM_cons, List.mapM_nil, bind_eq_ok, pure_eq_ok]
  constructor
  · rintro ⟨_, ⟨a, ha, rfl⟩, _, rfl, rfl⟩
    exact ⟨a, ha, rfl⟩
  · rintro ⟨a, ha, rfl⟩
    exact ⟨_, ⟨a, ha, rfl⟩, _, rfl, rfl⟩

theorem mapM_id_eq_ok {items : List Draft} {values : List Json} :
    items.mapM id = .ok values ↔ items = values.map .ok := by
  rw [mapM_eq_ok]
  constructor
  · intro h
    induction h with
    | nil => rfl
    | cons hitem _ ih => rw [List.map_cons, ih, ← hitem, id]
  · rintro rfl
    induction values with
    | nil => exact .nil
    | cons a values ih => exact .cons rfl ih

theorem drafts_eq_ok {items : List Draft} {a : Json} :
    drafts items = .ok a ↔ ∃ values, items = values.map .ok ∧ a = .array values := by
  simp only [drafts, bind_eq_ok, pure_eq_ok, mapM_id_eq_ok]
  constructor
  · rintro ⟨values, h, rfl⟩
    exact ⟨values, h, rfl⟩
  · rintro ⟨values, h, rfl⟩
    exact ⟨values, h, rfl⟩

/-- Items that are all written are written one by one. -/
theorem writeArray_eq_ok {absent : Written} {items : List Tree} {a : Json} :
    writeArray absent (.list items) = .ok (.ok a) ↔
      ∃ values, a = .array values ∧
        List.Forall₂ (fun t value => writeOr absent t = .ok (.ok value)) items values := by
  simp only [writeArray, writeAll_eq_mapM, bind_eq_ok, pure_eq_ok, mapM_eq_ok, drafts_eq_ok]
  constructor
  · rintro ⟨_, h, values, rfl, rfl⟩
    exact ⟨values, rfl, by simpa only [List.forall₂_map_right_iff] using h⟩
  · rintro ⟨values, rfl, h⟩
    exact ⟨_, by simpa only [List.forall₂_map_right_iff] using h, values, rfl, rfl⟩

theorem block_eq_ok {body : Draft} {a : Json} :
    block body = .ok a ↔ ∃ value, body = .ok value ∧
      a = .object [("type", .text "BlockStatement"), ("body", value)] := by
  simp only [block, typed, bind_eq_ok, pure_eq_ok, draftFields_single]
  constructor
  · rintro ⟨_, ⟨value, h, rfl⟩, rfl⟩
    exact ⟨value, h, rfl⟩
  · rintro ⟨value, h, rfl⟩
    exact ⟨_, ⟨value, h, rfl⟩, rfl⟩

end Drafts

section Entries

variable {a : Json} {t : Tree} {c : Category} {owner owner' name : String}
  {fields : List (String × Draft)} {own : List (Text × Json)}

/-- An entry that is held in one field is kept if the value of the field is read. -/
theorem kept_single {entry : Entry} {w : Written} (hnames : entry.names = [entry.name])
    (hdraft : entry.draft owner' = do return [(entry.name, ← w)])
    (hfields : entry.draft owner' = .ok fields) (hown : draftFields fields = .ok own)
    (h : ∀ a, w = .ok (.ok a) →
      a.Renderable ∧ entry.canonical.Reads owner (.object [(entry.name, a)])) :
    entry.canonical.Kept owner own := by
  rw [hdraft] at hfields
  simp only [bind_eq_ok, pure_eq_ok] at hfields
  obtain ⟨draft, hw, rfl⟩ := hfields
  obtain ⟨a, rfl, rfl⟩ := draftFields_single.mp hown
  obtain ⟨hrender, hreads⟩ := h a hw
  have hcanonical : entry.canonical.names = [entry.name] := hnames
  exact ⟨by simp [hcanonical], by simpa using hrender, hreads⟩

theorem kept_child (hholds : c.Fits true t) (ih : PartsWriteBack t)
    (hfields : Entry.draft owner' ⟨name, .child c, t⟩ = .ok fields)
    (hown : draftFields fields = .ok own) :
    Entry.Kept owner (Entry.canonical ⟨name, .child c, t⟩) own := by
  refine kept_single rfl rfl hfields hown fun a ha => ?_
  rcases slot_cases hholds ih ha with ⟨rfl, habsent⟩ | ⟨n, m, rfl, hhas, hreturns⟩
  · by_cases hstatement : c = .statement
    · rw [if_pos hstatement, statement_eq] at habsent
      obtain rfl := Except.ok.inj (Except.ok.inj habsent)
      refine ⟨renderable_emptyStatement, _, field?_single name _,
        by simp [emptyStatementJson, Json.kind], readAs_emptyStatement ?_⟩
      simp [Expectation.check, Expectation.checkCategory, hstatement]
    · rw [if_neg hstatement] at habsent
      exact absurd habsent (by simp [required])
  · refine ⟨hreturns.renderable, a, field?_single name a, by simp [hreturns.object], ?_⟩
    rw [hreturns.readsChild hhas, ← hreturns.canonical]
    rfl

theorem kept_optional (hholds : c.Fits true t) (ih : PartsWriteBack t)
    (hfields : Entry.draft owner' ⟨name, .optional c, t⟩ = .ok fields)
    (hown : draftFields fields = .ok own) :
    Entry.Kept owner (Entry.canonical ⟨name, .optional c, t⟩) own := by
  refine kept_single rfl rfl hfields hown fun a ha => ?_
  rcases slot_cases hholds ih ha with ⟨rfl, habsent⟩ | ⟨n, m, rfl, hhas, hreturns⟩
  · obtain rfl := Except.ok.inj (Except.ok.inj habsent)
    exact ⟨.null, _, field?_single name _, by simp [Json.kind], readAs_child_null.mpr rfl⟩
  · refine ⟨hreturns.renderable, a, field?_single name a, by simp [hreturns.object], ?_⟩
    rw [hreturns.readsChild hhas, ← hreturns.canonical]
    rfl

/-- The items of a list are written as an array that is read as their canonical forms. -/
theorem readsAll_of_written (owner owner' name : String) {holes : Bool} {items : List Tree}
    {values : List Json}
    (hfits : ∀ t ∈ items, c.Fits true t) (ih : PartsWriteBack (.list items))
    (h : List.Forall₂
      (fun t value => writeOr (absentElement owner' name c holes) t = .ok (.ok value))
      items values) :
    ReadsAll owner name c holes values (items.map Tree.canonical) ∧
      ∀ value ∈ values, value.Renderable := by
  induction h with
  | nil => exact ⟨.nil, by simp⟩
  | @cons t value items values hvalue _ ih' =>
    obtain ⟨hrest, hrender⟩ := ih' (fun t ht => hfits t (List.mem_cons_of_mem _ ht))
      fun n hn => ih n (by
        obtain ⟨t, ht, hn⟩ := Within.list_iff.mp hn
        exact .item (List.mem_cons_of_mem _ ht) hn)
    have hslot := slot_cases (hfits t (by simp)) (fun n hn => ih n (.item (by simp) hn)) hvalue
    suffices hhead : readAs (.element owner name c holes) value = .ok t.canonical ∧
        value.Renderable by
      exact ⟨.cons hhead.1 hrest, List.forall_mem_cons.mpr ⟨hhead.2, hrender⟩⟩
    rcases hslot with ⟨rfl, habsent⟩ | ⟨n, m, rfl, hhas, hreturns⟩
    · unfold absentElement at habsent
      split at habsent
      · next hstatement =>
        rw [statement_eq] at habsent
        obtain rfl := Except.ok.inj (Except.ok.inj habsent)
        refine ⟨readAs_emptyStatement ?_, renderable_emptyStatement⟩
        simp [Expectation.check, Expectation.checkNull, Expectation.checkCategory, hstatement,
          Json.kind, emptyStatementJson]
      · split at habsent
        · next hholes =>
          obtain rfl := Except.ok.inj (Except.ok.inj habsent)
          rw [hholes]
          exact ⟨readAs_element_null, .null⟩
        · exact absurd habsent (by simp [required])
    · refine ⟨?_, hreturns.renderable⟩
      rw [hreturns.readsElement hhas, hreturns.canonical]

theorem kept_elements {holes : Bool} {items : List Tree}
    (hfits : ∀ t ∈ items, c.Fits true t) (ih : PartsWriteBack (.list items))
    (hfields : Entry.draft owner' ⟨name, .elements c holes, .list items⟩ = .ok fields)
    (hown : draftFields fields = .ok own) :
    Entry.Kept owner (Entry.canonical ⟨name, .elements c holes, .list items⟩) own := by
  refine kept_single rfl rfl hfields hown fun a ha => ?_
  obtain ⟨values, rfl, hvalues⟩ := writeArray_eq_ok.mp ha
  obtain ⟨hreads, hrender⟩ := readsAll_of_written owner owner' name hfits ih hvalues
  exact ⟨.array hrender, values, _, field?_single name _, hreads, Tree.canonical_list items⟩

/-- The statements of a list are written as a block that is read as their canonical forms. -/
theorem readsBlock_of_written {items : List Tree}
    (hfits : ∀ t ∈ items, Category.statement.Fits true t) (ih : PartsWriteBack (.list items))
    (h : (do return block (← writeArray statement (.list items))) = .ok (.ok a)) :
    a.Renderable ∧
      ReadsBlock owner (.object [(name, a)]) name (items.map Tree.canonical) := by
  simp only [bind_eq_ok, pure_eq_ok, block_eq_ok] at h
  obtain ⟨_, hbody, value, rfl, rfl⟩ := h
  obtain ⟨values, rfl, hvalues⟩ := writeArray_eq_ok.mp hbody
  obtain ⟨hreads, hrender⟩ :=
    readsAll_of_written owner owner name (c := .statement) hfits ih hvalues
  refine ⟨.object (by simp) ?_, _, values, field?_single name _, ?_, ?_, hreads⟩
  · simp only [List.forall_mem_cons, List.not_mem_nil, false_implies, implies_true, and_true]
    exact ⟨.text _, .array hrender⟩
  · simp [Json.field?, Json.lookup?]
  · simp [Json.field?, Json.lookup?]

theorem kept_sole {only : Tree} (hfits : c.Fits true only) (ih : PartsWriteBack only)
    (hfields : Entry.draft owner' ⟨name, .sole c, .list [only]⟩ = .ok fields)
    (hown : draftFields fields = .ok own) :
    Entry.Kept owner (Entry.canonical ⟨name, .sole c, .list [only]⟩) own := by
  refine kept_single rfl rfl hfields hown fun a ha => ?_
  rcases slot_cases hfits ih ha with ⟨-, habsent⟩ | ⟨n, m, rfl, hhas, hreturns⟩
  · exact absurd habsent (by simp [required])
  · refine ⟨hreturns.renderable, _, ⟨a, field?_single name a, by simp [hreturns.object],
      hreturns.readsChild hhas⟩, ?_⟩
    simp [Entry.canonical, hreturns.canonical]

theorem kept_statements {items : List Tree}
    (hfits : ∀ t ∈ items, Category.statement.Fits true t) (ih : PartsWriteBack (.list items))
    (hfields : Entry.draft owner' ⟨name, .statements, .list items⟩ = .ok fields)
    (hown : draftFields fields = .ok own) :
    Entry.Kept owner (Entry.canonical ⟨name, .statements, .list items⟩) own := by
  have hdraft : Entry.draft owner' ⟨name, .statements, .list items⟩ =
      do return [(name, ← (do return block (← writeArray statement (.list items))))] := by
    simp [Entry.draft]
  refine kept_single rfl hdraft hfields hown fun a ha => ?_
  obtain ⟨hrender, hreads⟩ := readsBlock_of_written hfits ih ha
  exact ⟨hrender, _, hreads, Tree.canonical_list items⟩

theorem canonical_block (items : List Tree) :
    Tree.canonical (.node (.blockStatement (.list items))) =
      .node (.blockStatement (.list (items.map Tree.canonical))) := by
  simp [Tree.canonical_node, Node.map, Node.mapFields, Node.canonical]

theorem kept_block {items : List Tree}
    (hfits : ∀ t ∈ items, Category.statement.Fits true t) (ih : PartsWriteBack (.list items))
    (hfields : Entry.draft owner' ⟨name, .block, .node (.blockStatement (.list items))⟩ =
      .ok fields) (hown : draftFields fields = .ok own) :
    Entry.Kept owner (Entry.canonical ⟨name, .block, .node (.blockStatement (.list items))⟩)
      own := by
  have hdraft : Entry.draft owner' ⟨name, .block, .node (.blockStatement (.list items))⟩ =
      do return [(name, ← (do return block (← writeArray statement (.list items))))] := by
    simp [Entry.draft, writeBlock]
  refine kept_single rfl hdraft hfields hown fun a ha => ?_
  obtain ⟨hrender, hreads⟩ := readsBlock_of_written hfits ih ha
  exact ⟨hrender, _, hreads, canonical_block items⟩

theorem kept_finalizer {items : List Tree}
    (hfits : ∀ t ∈ items, Category.statement.Fits true t) (ih : PartsWriteBack (.list items))
    (hfields : Entry.draft owner' ⟨name, .finalizer, .node (.blockStatement (.list items))⟩ =
      .ok fields) (hown : draftFields fields = .ok own) :
    Entry.Kept owner (Entry.canonical ⟨name, .finalizer, .node (.blockStatement (.list items))⟩)
      own := by
  cases items with
  | nil =>
    have hdraft : Entry.draft owner' ⟨name, .finalizer, .node (.blockStatement (.list []))⟩ =
        do return [(name, ← Exchange.optional)] := rfl
    refine kept_single rfl hdraft hfields hown fun a ha => ?_
    obtain rfl := Except.ok.inj (Except.ok.inj ha)
    exact ⟨.null, .inl ⟨field?_single name _, canonical_block []⟩⟩
  | cons t items =>
    have hdraft : Entry.draft owner'
        ⟨name, .finalizer, .node (.blockStatement (.list (t :: items)))⟩ =
        do return [(name, ← (do return block (← writeArray statement (.list (t :: items)))))] := by
      simp [Entry.draft, writeBlock, hasFinalizer_list]
    refine kept_single rfl hdraft hfields hown fun a ha => ?_
    obtain ⟨hrender, hreads⟩ := readsBlock_of_written hfits ih ha
    exact ⟨hrender, .inr ⟨_, hreads, canonical_block _⟩⟩

/-- What is expected of a choice is met by nodes of its two sorts, which differ in kind. -/
def Role.Accepts : Role → Prop
  | .choice e first _ => first ≠ .memberExpression ∧
    (∀ part, e.check part (some first) = .ok ()) ∧
    ∀ part k, e.second.includes k = true → e.check part (some k) = .ok () ∧ k ≠ first
  | _ => True

theorem accepts_of_mem {n : Node Tree} {entry : Entry} (h : entry ∈ n.entries) :
    entry.role.Accepts := by
  have hkey : Role.Accepts (.choice .propertyKey .literal false) := by
    refine ⟨by decide, fun part => rfl, fun part k hk => ?_⟩
    obtain rfl : k = .identifier := by simpa [Expectation.second, Category.includes] using hk
    exact ⟨rfl, by decide⟩
  have hinit : Role.Accepts (.choice .forInit .variableDeclaration true) := by
    refine ⟨by decide, fun part => rfl, fun part k hk => ?_⟩
    have hexpression : k.isExpression = true := hk
    refine ⟨by simp [Expectation.check, hexpression], ?_⟩
    rintro rfl
    exact absurd hexpression (by decide)
  have hleft : Role.Accepts (.choice .forInLeft .variableDeclaration false) := by
    refine ⟨by decide, fun part => rfl, fun part k hk => ?_⟩
    obtain rfl : k = .identifier := by simpa [Expectation.second, Category.includes] using hk
    exact ⟨rfl, by decide⟩
  revert entry
  cases n <;> simp [Node.entries, hkey, hinit, hleft] <;> simp [Role.Accepts]

theorem node_of_kind? {t : Tree} {k : Kind} (h : t.kind? = some k) :
    ∃ n, t = .node n ∧ n.kind? = some k := by
  cases t with
  | node n => exact ⟨n, rfl, h⟩
  | _ => simp [Tree.kind?, Tree.view, View.kind?] at h

theorem node_of_has {t : Tree} (h : c.Has t) : ∃ n, t = .node n := by
  cases t with
  | node n => exact ⟨n, rfl⟩
  | _ =>
    cases c <;> simp [Category.Has, Category.test, TypeTest.accepts, Tree.view, View.isExpression,
      View.isStatement, View.kind?] at h

theorem kept_choice {e : Expectation} {first : Kind} {mayBeEmpty : Bool}
    (hstrict : Role.IsStrict (.choice e first mayBeEmpty))
    (haccepts : Role.Accepts (.choice e first mayBeEmpty))
    (hholds : Role.Holds true (.choice e first mayBeEmpty) t) (ih : PartsWriteBack t)
    (hfields : Entry.draft owner' ⟨name, .choice e first mayBeEmpty, t⟩ = .ok fields)
    (hown : draftFields fields = .ok own) :
    Entry.Kept owner (Entry.canonical ⟨name, .choice e first mayBeEmpty, t⟩) own := by
  obtain ⟨-, hunary, hbinary⟩ := hstrict
  obtain ⟨hmember, hfirst, hsecond⟩ := haccepts
  rcases hholds with ⟨rfl, -⟩ | ⟨s, rfl, hs⟩ | ⟨s, rfl, hs⟩
  · cases mayBeEmpty with
    | false => exact absurd hfields (by simp [Entry.draft])
    | true =>
      have hdraft : Entry.draft owner' ⟨name, .choice e first true, .choice .empty⟩ =
          do return [(name, ← Exchange.optional)] := rfl
      refine kept_single rfl hdraft hfields hown fun a ha => ?_
      obtain rfl := Except.ok.inj (Except.ok.inj ha)
      exact ⟨.null, .inl ⟨rfl, field?_single name _, rfl⟩⟩
  · obtain ⟨n, rfl, hn⟩ := node_of_kind? hs
    have hdraft : Entry.draft owner'
        ⟨name, .choice e first mayBeEmpty, .choice (.first (.node n))⟩ =
        do return [(name, ← writeOr Exchange.optional (.node n))] := by
      cases mayBeEmpty <;> rfl
    refine kept_single rfl hdraft hfields hown fun a ha => ?_
    obtain ⟨m, hreturns⟩ := ih n (.choice rfl .refl) a ha
    have hm : m.kind? = some first := by
      rcases hreturns.kind with ⟨k, hk, hm⟩ | ⟨hk | hk, -⟩
      · rw [hm, ← hk, hn]
      · exact absurd (Option.some.inj (hn.symm.trans hk)) hbinary
      · exact absurd (Option.some.inj (hn.symm.trans hk)) hmember
    have hread : readAs e a = .ok (.node m) := hreturns.reads e (by rw [hm, hfirst])
    refine ⟨hreturns.renderable, .inr ⟨a, _, field?_single name a, hreturns.object, hread, ?_⟩⟩
    have htype := (hasType_iff hread hunary hbinary).mpr hm
    simp [Entry.canonical, Choice.map, hreturns.canonical, chooseByType, htype]
  · obtain ⟨n, rfl⟩ := node_of_has hs
    have hdraft : Entry.draft owner'
        ⟨name, .choice e first mayBeEmpty, .choice (.second (.node n))⟩ =
        do return [(name, ← writeOr Exchange.optional (.node n))] := by
      cases mayBeEmpty <;> rfl
    refine kept_single rfl hdraft hfields hown fun a ha => ?_
    obtain ⟨m, hreturns⟩ := ih n (.choice rfl .refl) a ha
    obtain ⟨k, hm, hk⟩ := hreturns.includes hs
    obtain ⟨hcheck, hne⟩ := hsecond a k hk
    have hread : readAs e a = .ok (.node m) := hreturns.reads e (by rw [hm, hcheck])
    refine ⟨hreturns.renderable, .inr ⟨a, _, field?_single name a, hreturns.object, hread, ?_⟩⟩
    have htype : hasType a first.typeName = false := by
      rw [Bool.eq_false_iff, ne_eq, hasType_iff hread hunary hbinary, hm]
      simpa using hne
    simp [Entry.canonical, Choice.map, hreturns.canonical, chooseByType, htype]

end Entries

section Scalars

variable {t : Tree} {owner owner' : String} {fields : List (String × Draft)}
  {own : List (Text × Json)}

/-- An entry that settles is kept when it is written. -/
theorem kept_of_settled {entry : Entry} (h : entry.Settled owner owner')
    (hcanonical : entry.tree.canonical = entry.tree)
    (hfields : entry.draft owner' = .ok fields) (hown : draftFields fields = .ok own) :
    entry.canonical.Kept owner own := by
  rw [Entry.canonical, hcanonical]
  rcases h with ⟨d, -, herror⟩ | ⟨-, fields', own', hfields', hown', hkept⟩
  · rw [hfields] at herror
    cases herror
  · obtain rfl := Except.ok.inj (hfields.symm.trans hfields')
    obtain rfl := Except.ok.inj (hown.symm.trans hown')
    exact hkept

theorem settled_value {name : String} (value : Json) (h : scalarTree (scalarOf value) = t)
    (hkind : value.kind ∈ [.null, .string, .boolean, .number]) :
    Entry.Settled owner owner' ⟨name, .literal, t⟩ :=
  settled_literal (j := .object [("value", value)])
    (.inr ⟨by simp [Json.field?, Json.lookup?], value, field?_single _ _, hkind, h.symm⟩)

theorem settled_literalValue {name : String} (h : LiteralValue t)
    (hdecimal : ∀ d, t ≠ .atom (.decimal d)) :
    Entry.Settled owner owner' ⟨name, .literal, t⟩ := by
  cases h with
  | null => exact settled_value .null rfl (by simp [Json.kind])
  | bool b => exact settled_value (.bool b) rfl (by simp [Json.kind])
  | text text => exact settled_value (.text text) rfl (by simp [Json.kind])
  | int i => exact settled_value (.int i) rfl (by simp [Json.kind])
  | double d => exact settled_value (.double d) rfl (by simp [Json.kind])
  | decimal d => exact absurd rfl (hdecimal d)
  | regex pattern flags => exact settled_regex pattern flags

theorem canonical_literalValue (h : LiteralValue t) : t.canonical = t := by
  cases h <;> rfl

end Scalars

section Nodes

def Entry.OfType (owner : String) (entry : Entry) : Prop :=
  (∀ op, entry.role = .unaryOperator → entry.tree = .ofMember (.unaryOperator op) →
    op.nodeType = owner) ∧
  ∀ op, entry.role = .binaryOperator → entry.tree = .ofMember (.binaryOperator op) →
    op.nodeType = owner

theorem ofType_of_mem {n : Node Tree} {entry : Entry} (h : entry ∈ n.entries) :
    entry.OfType n.exchangeType := by
  revert entry
  cases n <;> simp [Node.entries, Entry.OfType]
  all_goals
    rintro op rfl
    rfl

variable {owner owner' : String} {fields : List (String × Draft)} {own : List (Text × Json)}

/-- The block of a node is written only if there is one, and it holds statements. -/
theorem statements_of_block {t : Tree}
    (hholds : (∃ body, t = .node (.blockStatement body)) ∨ true = true ∧ t = .missing)
    (hinner : ∀ n, Within (.node n) t → n.Fits true) (hblock : t ≠ .missing) :
    ∃ items, t = .node (.blockStatement (.list items)) ∧
      ∀ item ∈ items, Category.statement.Fits true item := by
  obtain ⟨body, rfl⟩ := hholds.resolve_right fun h => hblock h.2
  have hfits := hinner _ .refl
  simp only [Node.Fits, Node.entries, List.forall_mem_singleton] at hfits
  obtain ⟨items, hitems, hfits⟩ := hfits
  exact ⟨items, by rw [show body = .list items from hitems], hfits⟩

theorem PartsWriteBack.statements {items : List Tree}
    (ih : PartsWriteBack (.node (.blockStatement (.list items)))) :
    PartsWriteBack (.list items) :=
  fun n hn => ih n (.field (f := .body) (by simp [Node.fields]) hn)

/-- An entry that is in place and is written is found, in its canonical form, in the fields
that it is written as. -/
theorem Entry.kept {entry : Entry} (hstrict : entry.role.IsStrict)
    (haccepts : entry.role.Accepts) (htype : entry.OfType owner)
    (hholds : entry.role.Holds true entry.tree)
    (hinner : ∀ n, Within (.node n) entry.tree → n.Fits true)
    (hdecimal : entry.role = .literal → ∀ d, entry.tree ≠ .atom (.decimal d))
    (ih : PartsWriteBack entry.tree) (hfields : entry.draft owner' = .ok fields)
    (hown : draftFields fields = .ok own) : entry.canonical.Kept owner own := by
  obtain ⟨name, role, t⟩ := entry
  cases role with
  | child c => exact kept_child hholds ih hfields hown
  | optional c => exact kept_optional hholds ih hfields hown
  | elements c holes =>
    obtain ⟨items, rfl, hfits⟩ : ∃ items, t = .list items ∧ ∀ t ∈ items, c.Fits true t := hholds
    exact kept_elements hfits ih hfields hown
  | sole c =>
    obtain ⟨items, rfl, hfits⟩ : ∃ items, t = .list items ∧ ∀ t ∈ items, c.Fits true t := hholds
    match items with
    | [] => cases hfields
    | [only] =>
      exact kept_sole (hfits only (by simp)) (fun n hn => ih n (.item (by simp) hn)) hfields hown
    | _ :: _ :: _ => cases hfields
  | statements =>
    obtain ⟨items, rfl, hfits⟩ :
      ∃ items, t = .list items ∧ ∀ t ∈ items, Category.statement.Fits true t := hholds
    exact kept_statements hfits ih hfields hown
  | block =>
    obtain ⟨items, rfl, hfits⟩ := statements_of_block hholds hinner (by rintro rfl; cases hfields)
    exact kept_block hfits ih.statements hfields hown
  | finalizer =>
    obtain ⟨items, rfl, hfits⟩ := statements_of_block hholds hinner (by rintro rfl; cases hfields)
    exact kept_finalizer hfits ih.statements hfields hown
  | choice e first mayBeEmpty => exact kept_choice hstrict haccepts hholds ih hfields hown
  | name =>
    obtain ⟨text, rfl⟩ : ∃ text, t = .ofText text := hholds
    exact kept_of_settled (settled_name (j := .object [(name, .text text)])
      ⟨text, field?_single name _, rfl⟩) rfl hfields hown
  | flag =>
    obtain ⟨b, rfl⟩ : ∃ b, t = .atom (.bool b) := hholds
    exact kept_of_settled (settled_flag (j := .object [(name, .bool b)])
      ⟨b, field?_single name _, rfl⟩) rfl hfields hown
  | propertyKind =>
    obtain ⟨kind, rfl⟩ : ∃ kind, t = .ofMember (.propertyKind kind) := hholds
    exact kept_of_settled (settled_propertyKind (j := .object [(name, .text kind.key)])
      ⟨kind.key, kind, field?_single name _, by cases kind <;> decide, rfl⟩) rfl hfields hown
  | variableKind =>
    obtain ⟨kind, rfl⟩ : ∃ kind, t = .ofMember (.variableKind kind) := hholds
    exact kept_of_settled (settled_variableKind (j := .object [(name, .text kind.key)])
      ⟨kind.key, kind, field?_single name _, by cases kind; decide, rfl⟩) rfl hfields hown
  | unaryOperator =>
    obtain ⟨op, rfl⟩ : ∃ op, t = .ofMember (.unaryOperator op) := hholds
    obtain rfl := htype.1 op rfl rfl
    have hop : UnaryOperator.ofExchange? op.nodeType op.token op.isBefore = some op := by
      cases op <;> decide
    exact kept_of_settled (settled_unaryOperator
      (j := .object [("operator", .text op.token), ("prefix", .bool op.isBefore)])
      ⟨op.token, op.isBefore, op, by simp [Json.field?, Json.lookup?],
        by simp [Json.field?, Json.lookup?], hop, rfl⟩) rfl hfields hown
  | binaryOperator =>
    obtain ⟨op, rfl⟩ : ∃ op, t = .ofMember (.binaryOperator op) := hholds
    obtain rfl := htype.2 op rfl rfl
    exact kept_of_settled (settled_binaryOperator (j := .object [("operator", .text op.token)])
      ⟨op.token, op, field?_single _ _, ofExchange?_token op, rfl⟩) rfl hfields hown
  | literal =>
    exact kept_of_settled (settled_literalValue hholds (hdecimal rfl))
      (canonical_literalValue hholds) hfields hown

theorem draftFields_append_eq_ok {a b : List (String × Draft)} {all : List (Text × Json)}
    (h : draftFields (a ++ b) = .ok all) :
    ∃ as bs, draftFields a = .ok as ∧ draftFields b = .ok bs ∧ all = as ++ bs := by
  simp only [draftFields, List.mapM_append, bind_eq_ok, pure_eq_ok] at h
  obtain ⟨as, ha, bs, hb, rfl⟩ := h
  exact ⟨as, bs, ha, hb, rfl⟩

theorem draftFields_flatten_eq_ok {fields : List (List (String × Draft))}
    {all : List (Text × Json)} (h : draftFields fields.flatten = .ok all) :
    ∃ owns, List.Forall₂ (fun fields own => draftFields fields = .ok own) fields owns ∧
      all = owns.flatten := by
  induction fields generalizing all with
  | nil =>
    obtain rfl := Except.ok.inj h
    exact ⟨[], .nil, rfl⟩
  | cons fields rest ih =>
    obtain ⟨own, all, hown, hall, rfl⟩ := draftFields_append_eq_ok h
    obtain ⟨owns, howns, rfl⟩ := ih hall
    exact ⟨own :: owns, .cons hown howns, rfl⟩

theorem forall₂_comp {α β γ : Type} {r : α → β → Prop} {s : β → γ → Prop} {xs : List α}
    {ys : List β} {zs : List γ} (h : List.Forall₂ r xs ys) (h' : List.Forall₂ s ys zs) :
    List.Forall₂ (fun x z => ∃ y, r x y ∧ s y z) xs zs := by
  induction h generalizing zs with
  | nil =>
    cases h'
    exact .nil
  | cons hxy _ ih =>
    cases h' with
    | cons hyz h' => exact .cons ⟨_, hxy, hyz⟩ (ih h')

/-- A node that is drafted becomes an object with the fields of its entries. -/
theorem drafted_eq_ok {n : Node Tree} {a : Json} (h : n.drafted = .ok (.ok a)) :
    ∃ owns extras, List.Forall₂ (fun entry own => ∃ fields,
        entry.draft n.typeName = .ok fields ∧ draftFields fields = .ok own) n.entries owns ∧
      draftFields n.extras = .ok extras ∧
      a = .object (("type", .text n.exchangeType) :: (owns.flatten ++ extras)) := by
  simp only [Node.drafted, typed, bind_eq_ok, pure_eq_ok] at h
  obtain ⟨fields, hfields, all, hall, rfl⟩ := h
  obtain ⟨_, extras, hflat, hextras, rfl⟩ := draftFields_append_eq_ok hall
  obtain ⟨owns, howns, rfl⟩ := draftFields_flatten_eq_ok hflat
  exact ⟨owns, extras, forall₂_comp (mapM_eq_ok.mp hfields) howns, hextras, rfl⟩

/-- Every node is written with a type that nodes of its kind are read from. -/
theorem exists_nodeType {n : Node Tree} {k : Kind} (h : n.kind? = some k) :
    ∃ nodeType : NodeType, nodeType.kind? = some k ∧ nodeType.name = n.exchangeType := by
  have hunary (op : UnaryOperator) : ∃ nodeType : NodeType,
      nodeType.kind? = some .unaryExpression ∧ nodeType.name = op.nodeType := by
    cases op <;>
      first
      | exact ⟨.kind .unaryExpression, rfl, rfl⟩
      | exact ⟨.updateExpression, rfl, rfl⟩
  have hbinary (op : BinaryOperator) : ∃ nodeType : NodeType,
      nodeType.kind? = some .binaryExpression ∧ nodeType.name = op.nodeType := by
    cases op <;>
      first
      | exact ⟨.kind .binaryExpression, rfl, rfl⟩
      | exact ⟨.assignmentExpression, rfl, rfl⟩
      | exact ⟨.logicalExpression, rfl, rfl⟩
  have hname : n.typeName = k.typeName := by
    cases n <;> simp_all [Node.typeName, Node.kind?]
  unfold Node.exchangeType
  split
  · obtain rfl := Option.some.inj h
    exact hunary _
  · obtain rfl := Option.some.inj h
    exact hbinary _
  · exact ⟨.kind k, rfl, hname.symm⟩

/-- The nodes in a tree are in place and come back canonical. -/
structure Prepared (t : Tree) : Prop where
  fits : ∀ n, Within (.node n) t → n.Fits true
  back : PartsWriteBack t

theorem Prepared.item {items : List Tree} {t : Tree} (h : Prepared (.list items))
    (ht : t ∈ items) : Prepared t :=
  ⟨fun n hn => h.fits n (.item ht hn), fun n hn => h.back n (.item ht hn)⟩

theorem Prepared.list {items : List Tree} (h : ∀ t ∈ items, Prepared t) :
    Prepared (.list items) := by
  constructor
  · intro n hn
    obtain ⟨t, ht, hn⟩ := Within.list_iff.mp hn
    exact (h t ht).fits n hn
  · intro n hn
    obtain ⟨t, ht, hn⟩ := Within.list_iff.mp hn
    exact (h t ht).back n hn

theorem Prepared.node {n : Node Tree} (hfits : n.Fits true) (hback : WritesBack n)
    (h : ∀ entry ∈ n.entries, Prepared entry.tree) : Prepared (.node n) := by
  constructor
  · intro m hm
    rcases Within.node_iff.mp hm with rfl | hm
    · exact hfits
    · obtain ⟨entry, hentry, hm⟩ := exists_entry_iff.mpr hm
      exact (h entry hentry).fits m hm
  · intro m hm
    rcases Within.node_iff.mp hm with rfl | hm
    · exact hback
    · obtain ⟨entry, hentry, hm⟩ := exists_entry_iff.mpr hm
      exact (h entry hentry).back m hm

/-- What is drafted for a node from its entries is read as the node of their canonical
forms, with the chains in it spliced. -/
theorem reads_drafted {n : Node Tree} {k : Kind} {a : Json} (hn : n.kind? = some k)
    (hfits : n.Fits true) (hdecimal : ∀ d, n ≠ .literal (.atom (.decimal d)))
    (hparts : ∀ entry ∈ n.entries, Prepared entry.tree)
    (hguarded : ∀ block, n.map Tree.canonical ≠
      .tryStatement block .missing (.node (.blockStatement (.list []))))
    (h : n.drafted = .ok (.ok a)) :
    (∀ e : Expectation, e.check a (some k) = .ok () →
        readAs e a = .ok (.node (n.map Tree.canonical).spliced)) ∧
      a.Renderable ∧ a.kind = .object := by
  obtain ⟨owns, extras, hentries, hextras, rfl⟩ := drafted_eq_ok h
  obtain ⟨nodeType, hkind, hname⟩ := exists_nodeType hn
  have hkept : List.Forall₂ (Entry.Kept nodeType.name) (n.map Tree.canonical).entries owns := by
    rw [Node.entries_canonical, List.forall₂_map_left_iff]
    refine ((List.forall₂_and_left _ _).mpr ⟨fun _ => id, hentries⟩).imp ?_
    rintro entry own ⟨hentry, fields, hfields, hown⟩
    refine Entry.kept (isStrict_of_mem hentry) (accepts_of_mem hentry)
      (hname ▸ ofType_of_mem hentry) (hfits entry hentry) (hparts entry hentry).fits ?_
      (hparts entry hentry).back hfields hown
    intro hliteral d hd
    exact hdecimal d (exists_literal_iff.mp ⟨entry, hentry, hliteral, hd⟩)
  obtain ⟨extras', hextras', hnames, hrender⟩ := draftFields_extras n
  obtain rfl := Except.ok.inj (hextras.symm.trans hextras')
  have hmap : (n.map Tree.canonical).kind? = some k := (Node.kind?_map _ n).trans hn
  refine ⟨fun e hcheck => ?_, renderable_of_kept hkept hnames hrender n.exchangeType, rfl⟩
  rw [← hname] at hcheck ⊢
  refine readAs_eq_node.mpr ⟨nodeType, n.map Tree.canonical, ?_, ⟨k, hkind, hmap⟩, ?_, ?_, rfl⟩
  · simp [Json.field?, Json.lookup?]
  · exact standsIn_of_kept hkept hnames hguarded nodeType.name
  · rw [hmap]
    exact hcheck

end Nodes

section Applications

/-- A chain of one application is canonical once it is spliced. -/
theorem canonical_application (left : Tree) (op : Atom) (x : Tree) :
    Node.canonical (.binaryExpression left (.atom op) (.list [x])) =
      .node (Node.spliced (.binaryExpression left (.atom op) (.list [x]))) := by
  by_cases hchain : ∃ l o r, x = .node (.binaryExpression l (.atom o) (.list r))
  · obtain ⟨l, o, r, rfl⟩ := hchain
    by_cases hop : o = op
    · simp [Node.canonical, mergedOperands, Node.spliced, hop]
    · simp [Node.canonical, mergedOperands, Node.spliced, hop]
  · rw [spliced_operand fun l o r h => hchain ⟨l, o, r, h⟩]
    have hmerged : mergedOperands op [x] = [x] := by
      unfold mergedOperands
      split
      · next heq => cases heq
      · next heq => exact absurd ⟨_, _, _, List.head_eq_of_cons_eq heq⟩ hchain
      · next heq =>
        obtain ⟨rfl, rfl⟩ := List.cons.inj heq
        rfl
    simp [Node.canonical, hmerged]

theorem mergedOperands_cons (op : Atom) (x y : Tree) (rest : List Tree) :
    mergedOperands op (x :: y :: rest) = x :: mergedOperands op (y :: rest) := by
  rw [mergedOperands]
  simp

/-- A chain of several applications comes to what it does when all but the first make up its
operand. -/
theorem canonical_chain (left : Tree) (op : Atom) (x y : Tree) (rest : List Tree) :
    Tree.canonical (.node (.binaryExpression left (.atom op) (.list (x :: y :: rest)))) =
      Tree.canonical (.node (.binaryExpression left (.atom op)
        (.list [.node (.binaryExpression x (.atom op) (.list (y :: rest)))]))) := by
  simp [Tree.canonical_node, Node.map, Node.mapFields, Node.canonical, mergedOperands_cons,
    mergedOperands]

theorem canonical_access_apart {object first : Tree} {rest : List Tree} {computed : Atom}
    (h : ∀ o i c, object ≠ .node (.memberExpression o (.list i) (.atom c))) :
    Node.canonical (.memberExpression object (.list (first :: rest)) (.atom computed)) =
      .node (.memberExpression object (.list (first :: rest)) (.atom computed)) := by
  unfold Node.canonical
  split
  · next heq => cases heq
  · next heq => cases heq
  · next heq => cases heq
  · next heq =>
    obtain ⟨heq, -, -⟩ := Node.memberExpression.inj heq
    exact absurd heq (h _ _ _)
  · rfl

/-- A chain of one access is canonical once it is spliced, if its object has indices. -/
theorem canonical_access {object x : Tree} {computed : Atom}
    (h : ∀ inner c, object ≠ .node (.memberExpression inner (.list []) c)) :
    Node.canonical (.memberExpression object (.list [x]) (.atom computed)) =
      .node (Node.spliced (.memberExpression object (.list [x]) (.atom computed))) := by
  by_cases hchain : ∃ o i c, object = .node (.memberExpression o (.list i) (.atom c))
  · obtain ⟨o, i, c, rfl⟩ := hchain
    cases i with
    | nil => exact absurd rfl (h o _)
    | cons first rest =>
      by_cases hc : c = computed
      · simp [Node.canonical, Node.spliced, hc]
      · simp [Node.canonical, Node.spliced, hc]
  · rw [spliced_object fun o i c h => hchain ⟨o, i, c, h⟩,
      canonical_access_apart fun o i c h => hchain ⟨o, i, c, h⟩]

end Applications

section Chains

variable {n : Node Tree} {k : Kind} {a : Json} {l o : Tree}

theorem returns_drafted (hn : n.kind? = some k) (hbinary : k ≠ .binaryExpression)
    (hmember : k ≠ .memberExpression) (hfits : n.Fits true)
    (hdecimal : ∀ d, n ≠ .literal (.atom (.decimal d)))
    (hparts : ∀ entry ∈ n.entries, Prepared entry.tree)
    (hguarded : ∀ block, n.map Tree.canonical ≠
      .tryStatement block .missing (.node (.blockStatement (.list []))))
    (h : n.drafted = .ok (.ok a)) : Returns n a (n.map Tree.canonical) := by
  have hmap : (n.map Tree.canonical).kind? = some k := (Node.kind?_map _ n).trans hn
  obtain ⟨hreads, hrender, hobject⟩ := reads_drafted hn hfits hdecimal hparts hguarded h
  rw [spliced_regular hmap hbinary hmember] at hreads
  refine ⟨?_, fun e hcheck => hreads e (hmap ▸ hcheck), hrender, hobject, .inl ⟨k, hn, hmap⟩⟩
  rw [Tree.canonical_node, Node.canonical_regular hmap hbinary hmember]

/-- A chain of one application comes back with its operand taken in if it is a chain of the
same operator. -/
theorem returns_application {op : BinaryOperator} {x : Tree}
    (hl : Category.expression.Fits true l ∧ Prepared l)
    (hx : Category.expression.Fits true x ∧ Prepared x)
    (h : writeNode (.binaryExpression l (.ofMember (.binaryOperator op)) (.list [x])) =
      .ok (.ok a)) :
    ∃ m, Returns (.binaryExpression l (.ofMember (.binaryOperator op)) (.list [x])) a m := by
  have hprepared : ∀ entry ∈ (Node.binaryExpression l (.ofMember (.binaryOperator op))
      (.list [x])).entries, Prepared entry.tree := by
    simp only [Node.entries, List.forall_mem_cons, List.not_mem_nil, false_implies, implies_true,
      and_true]
    exact ⟨⟨by simp [Tree.ofMember], by simp [PartsWriteBack, Tree.ofMember]⟩, hl.2,
      .list (by simpa using hx.2)⟩
  have hfits :
      (Node.binaryExpression l (.ofMember (.binaryOperator op)) (.list [x])).Fits true := by
    simp only [Node.Fits, Node.entries, List.forall_mem_cons, List.not_mem_nil, false_implies,
      implies_true, and_true]
    exact ⟨⟨op, rfl⟩, hl.1, [x], rfl, by simpa using hx.1⟩
  rw [writeNode_binary] at h
  obtain ⟨hreads, hrender, hobject⟩ := reads_drafted rfl hfits (by simp) hprepared
    (by simp [Node.map, Node.mapFields]) h
  refine ⟨_, ?_, fun e hcheck => hreads e ?_, hrender, hobject, .inl ⟨_, rfl, kind?_spliced _⟩⟩
  · rw [Tree.canonical_node]
    exact canonical_application l.canonical _ x.canonical
  · rwa [kind?_spliced] at hcheck

/-- A node that is written alone for a chain comes back in its place. -/
theorem returns_alone (owner name : String)
    (hn : n.kind? = some .binaryExpression ∨ n.kind? = some .memberExpression)
    (hcanonical : Tree.canonical (.node n) = l.canonical)
    (hl : Category.expression.Fits true l ∧ Prepared l)
    (h : writeOr (required owner name) l = .ok (.ok a)) : ∃ m, Returns n a m := by
  rcases slot_cases hl.1 hl.2.back h with ⟨-, habsent⟩ | ⟨inner, m, rfl, hhas, hreturns⟩
  · exact absurd habsent (by simp [required])
  · obtain ⟨k, hm, hk⟩ := hreturns.includes hhas
    exact ⟨m, hcanonical.trans hreturns.canonical, hreturns.reads, hreturns.renderable,
      hreturns.object, .inr ⟨hn, k, hm, hk⟩⟩

/-- An operand on the right of a chain that is written is there. -/
theorem operand_of_written {op : BinaryOperator} {x : Tree} {rest : List Tree}
    (h : writeNode (.binaryExpression l (.ofMember (.binaryOperator op)) (.list (x :: rest))) =
      .ok (.ok a)) : x ≠ .missing := by
  rintro rfl
  have htrue : (Tree.list (.missing :: rest)).isTrue = true := rfl
  simp [writeNode, htrue, writeItems, writeAll, writeOr, required, binaryOperator_ofMember,
    bind_eq_ok] at h

/-- Operator chains come back canonical. -/
theorem writesBack_chain (op : BinaryOperator) (right : List Tree)
    (hl : Category.expression.Fits true l ∧ Prepared l)
    (hright : ∀ t ∈ right, Category.expression.Fits true t ∧ Prepared t) :
    WritesBack (.binaryExpression l (.ofMember (.binaryOperator op)) (.list right)) := by
  -- What stands right of the first operand is a chain of its own, which is shorter.
  induction right generalizing l with
  | nil =>
    intro a h
    refine returns_alone "BinaryExpression" "left" (.inl rfl) ?_ hl ?_
    · simp [Tree.canonical_node, Node.map, Node.mapFields, Node.canonical]
    · have hfalse : (Tree.list []).isTrue = false := rfl
      simpa [writeNode, hfalse, bind_eq_ok, pure_eq_ok] using h
  | cons x rest ih =>
    intro a h
    have hx := hright x (by simp)
    cases rest with
    | nil => exact returns_application hl hx h
    | cons y rest =>
      have hrest : ∀ t ∈ y :: rest, Category.expression.Fits true t ∧ Prepared t :=
        fun t ht => hright t (List.mem_cons_of_mem x ht)
      have hfits : (Node.binaryExpression x (.ofMember (.binaryOperator op))
          (.list (y :: rest))).Fits true := by
        simp only [Node.Fits, Node.entries, List.forall_mem_cons, List.not_mem_nil, false_implies,
          implies_true, and_true]
        exact ⟨⟨op, rfl⟩, hx.1, y :: rest, rfl, fun t ht => (hrest t ht).1⟩
      have hinner : Prepared (.node (.binaryExpression x (.ofMember (.binaryOperator op))
          (.list (y :: rest)))) := by
        refine .node hfits (ih hx hrest) ?_
        simp only [Node.entries, List.forall_mem_cons, List.not_mem_nil, false_implies,
          implies_true, and_true]
        exact ⟨⟨by simp [Tree.ofMember], by simp [PartsWriteBack, Tree.ofMember]⟩, hx.2,
          .list fun t ht => (hrest t ht).2⟩
      have hexpression : Category.expression.Has (.node (.binaryExpression x
          (.ofMember (.binaryOperator op)) (.list (y :: rest)))) :=
        (Category.has_node_iff rfl).mpr rfl
      rw [writeNode_splicedChain op l x (y :: rest) (operand_of_written h)] at h
      obtain ⟨m, hm⟩ := returns_application hl ⟨.inl hexpression, hinner⟩ h
      exact ⟨m, (canonical_chain l _ x y rest).trans hm.canonical, hm.reads, hm.renderable,
        hm.object, hm.kind⟩

/-- An index of a chain of accesses that is written is there. -/
theorem index_of_written {computed x : Tree} (before : List Tree)
    (h : writeNode (.memberExpression o (.list (before ++ [x])) computed) = .ok (.ok a)) :
    x ≠ .missing := by
  rintro rfl
  simp [writeNode, writeItems, writeAll_eq_mapM, writeOr, required, bind_eq_ok] at h

/-- A chain of one access comes back taken into its object if that is a chain of the same
style. -/
theorem reads_access {computed : Bool} {x : Tree}
    (ho : Category.expression.Fits true o ∧ Prepared o)
    (hx : Category.expression.Fits true x ∧ Prepared x)
    (h : writeNode (.memberExpression o (.list [x]) (.atom (.bool computed))) = .ok (.ok a)) :
    (∀ e : Expectation, e.check a (some .memberExpression) = .ok () →
        readAs e a = .ok (.node (Node.spliced (.memberExpression o.canonical (.list [x.canonical])
          (.atom (.bool computed)))))) ∧
      a.Renderable ∧ a.kind = .object := by
  have hprepared : ∀ entry ∈ (Node.memberExpression o (.list [x])
      (.atom (.bool computed))).entries, Prepared entry.tree := by
    simp only [Node.entries, List.forall_mem_cons, List.not_mem_nil, false_implies, implies_true,
      and_true]
    exact ⟨ho.2, .list (by simpa using hx.2), ⟨by simp, by simp [PartsWriteBack]⟩⟩
  have hfits : (Node.memberExpression o (.list [x]) (.atom (.bool computed))).Fits true := by
    simp only [Node.Fits, Node.entries, List.forall_mem_cons, List.not_mem_nil, false_implies,
      implies_true, and_true]
    exact ⟨ho.1, ⟨[x], rfl, by simpa using hx.1⟩, computed, rfl⟩
  rw [writeNode_member o x _ (index_of_written [] h)] at h
  have hreads := reads_drafted rfl hfits (by simp) hprepared (by simp [Node.map, Node.mapFields]) h
  simpa [Node.map, Node.mapFields] using hreads

/-- A chain of several accesses comes to what it does when all but the last make up its
object. -/
theorem canonical_accesses (object x : Tree) (before : List Tree) (computed : Atom) :
    Tree.canonical (.node (.memberExpression object (.list (before ++ [x])) (.atom computed))) =
      Node.canonical (.memberExpression
        (Tree.canonical (.node (.memberExpression object (.list before) (.atom computed))))
        (.list [x.canonical]) (.atom computed)) := by
  simp only [Tree.canonical_node, Node.map, Node.mapFields, Tree.canonical_list, List.map_append,
    List.map_cons, List.map_nil, Tree.canonical_atom]
  generalize object.canonical = object, x.canonical = x, before.map Tree.canonical = before
  cases before with
  | nil => rfl
  | cons first before =>
    by_cases hchain : ∃ o i c, object = .node (.memberExpression o (.list i) (.atom c))
    · obtain ⟨o, i, c, rfl⟩ := hchain
      by_cases hc : c = computed
      · simp [Node.canonical, hc]
      · simp [Node.canonical, hc]
    · rw [List.cons_append, canonical_access_apart (fun o i c h => hchain ⟨o, i, c, h⟩),
        canonical_access_apart (fun o i c h => hchain ⟨o, i, c, h⟩)]
      simp [Node.canonical]

/-- The object of an access that was read is no chain without indices. -/
theorem indices_of_read {e : Expectation} {object x computed : Tree}
    (h : readAs e a = .ok (.node (Node.spliced (.memberExpression object (.list [x]) computed)))) :
    ∀ inner c, object ≠ .node (.memberExpression inner (.list []) c) := by
  rintro inner c rfl
  have hspliced : Node.spliced (.memberExpression (.node (.memberExpression inner (.list []) c))
      (.list [x]) computed) =
      .memberExpression (.node (.memberExpression inner (.list []) c)) (.list [x]) computed := by
    simp [Node.spliced]
  rw [hspliced] at h
  have hsound := sound_of_readAs h (.memberExpression inner (.list []) c)
    (.field (f := .object) (by simp [Node.fields]) .refl)
  exact (hsound.accesses inner (.list []) c rfl).1 rfl

/-- Chains of accesses come back canonical. -/
theorem writesBack_accesses (computed : Bool) (indices : List Tree)
    (ho : Category.expression.Fits true o ∧ Prepared o)
    (hindices : ∀ t ∈ indices, Category.expression.Fits true t ∧ Prepared t) :
    WritesBack (.memberExpression o (.list indices) (.atom (.bool computed))) := by
  -- What stands before the last index is a chain of its own, which is shorter.
  induction indices using List.reverseRecOn with
  | nil =>
    intro a h
    refine returns_alone "MemberExpression" "object" (.inr rfl) ?_ ho ?_
    · simp [Tree.canonical_node, Node.map, Node.mapFields, Node.canonical]
    · simpa [writeNode, writeItems, writeAll, accesses, bind_eq_ok, pure_eq_ok] using h
  | append_singleton before x ih =>
    intro a h
    have hx := hindices x (by simp)
    have hbefore : ∀ t ∈ before, Category.expression.Fits true t ∧ Prepared t :=
      fun t ht => hindices t (List.mem_append_left _ ht)
    have hfits : (Node.memberExpression o (.list before) (.atom (.bool computed))).Fits true := by
      simp only [Node.Fits, Node.entries, List.forall_mem_cons, List.not_mem_nil, false_implies,
        implies_true, and_true]
      exact ⟨ho.1, ⟨before, rfl, fun t ht => (hbefore t ht).1⟩, computed, rfl⟩
    have hinner : Prepared
        (.node (.memberExpression o (.list before) (.atom (.bool computed)))) := by
      refine .node hfits (ih hbefore) ?_
      simp only [Node.entries, List.forall_mem_cons, List.not_mem_nil, false_implies,
        implies_true, and_true]
      exact ⟨ho.2, .list fun t ht => (hbefore t ht).2, ⟨by simp, by simp [PartsWriteBack]⟩⟩
    have hexpression : Category.expression.Has
        (.node (.memberExpression o (.list before) (.atom (.bool computed)))) :=
      (Category.has_node_iff rfl).mpr rfl
    rw [writeNode_splicedAccess] at h
    obtain ⟨hreads, hrender, hobject⟩ := reads_access ⟨.inl hexpression, hinner⟩ hx h
    refine ⟨_, ?_, fun e hcheck => hreads e ?_, hrender, hobject, .inl ⟨_, rfl, kind?_spliced _⟩⟩
    · rw [canonical_accesses, canonical_access (indices_of_read (hreads .anything rfl))]
    · rwa [kind?_spliced] at hcheck

end Chains

section Trees

variable {n : Node Tree} {t : Tree} {j : Json}

/-- A try statement that is written guards against something, also in its canonical form. -/
theorem guarded_canonical {block handler finalizer : Tree}
    (hfits : (Node.tryStatement block handler finalizer).Fits true)
    (hfinalizer : ∀ n, Within (.node n) finalizer → n.Fits true)
    (h : Tree.checkTry handler finalizer = .ok ()) :
    ∀ block', (Node.tryStatement block handler finalizer).map Tree.canonical ≠
      .tryStatement block' .missing (.node (.blockStatement (.list []))) := by
  intro block' heq
  simp only [Node.map, Node.mapFields, Node.tryStatement.injEq] at heq
  obtain ⟨-, hhandler, hempty⟩ := heq
  simp only [Node.Fits, Node.entries, List.forall_mem_cons, List.not_mem_nil, false_implies,
    implies_true, and_true] at hfits
  obtain ⟨-, hclause, hholds⟩ := hfits
  obtain rfl : handler = .missing := by
    rcases hclause with hhas | ⟨hmissing, -⟩
    · obtain ⟨n, rfl, hn⟩ := node_of_kind? (k := .catchClause) (by
        simpa [Category.Has, Category.test, TypeTest.accepts, Tree.kind?] using hhas)
      have hmap : (n.map Tree.canonical).kind? = some .catchClause := (Node.kind?_map _ n).trans hn
      rw [Tree.canonical_node, Node.canonical_regular hmap (by decide) (by decide)] at hhandler
      cases hhandler
    · exact hmissing
  obtain ⟨items, rfl, -⟩ := statements_of_block hholds hfinalizer (by rintro rfl; cases hempty)
  rw [canonical_block] at hempty
  obtain rfl : items = [] := by simpa using hempty
  cases h

theorem writesBack_regular {k : Kind} (hn : n.kind? = some k)
    (hregular : k ∉ [.unaryExpression, .binaryExpression, .memberExpression, .tryStatement])
    (hfits : n.Fits true) (hdecimal : ∀ d, n ≠ .literal (.atom (.decimal d)))
    (hparts : ∀ entry ∈ n.entries, Prepared entry.tree) : WritesBack n := by
  intro a h
  rw [writeNode_regular hn hregular] at h
  simp only [List.mem_cons, List.not_mem_nil, or_false, not_or] at hregular
  obtain ⟨-, hbinary, hmember, htry⟩ := hregular
  refine ⟨_, returns_drafted hn hbinary hmember hfits hdecimal hparts ?_ h⟩
  intro block heq
  have hkind := (Node.kind?_map Tree.canonical n).trans hn
  rw [heq] at hkind
  exact htry (Option.some.inj hkind).symm

/-- A node comes back canonical if the nodes in it do. -/
theorem writesBack_of_parts (hfits : n.Fits true)
    (hdecimal : ∀ d, n ≠ .literal (.atom (.decimal d)))
    (hparts : ∀ entry ∈ n.entries, Prepared entry.tree) : WritesBack n := by
  have hentries := fun entry hentry => And.intro (hfits entry hentry) (hparts entry hentry)
  cases n with
  | bare cls =>
    intro a h
    cases h
  | unaryExpression operator argument =>
    simp only [Node.entries, List.forall_mem_cons] at hentries
    obtain ⟨⟨⟨op, rfl⟩, -⟩, -⟩ := hentries
    intro a h
    rw [writeNode_unary] at h
    exact ⟨_, returns_drafted rfl (by decide) (by decide) hfits hdecimal hparts
      (by simp [Node.map, Node.mapFields]) h⟩
  | binaryExpression left operator right =>
    simp only [Node.entries, List.forall_mem_cons] at hentries
    obtain ⟨⟨⟨op, rfl⟩, -⟩, hleft, ⟨⟨items, rfl, hitems⟩, hprepared⟩, -⟩ := hentries
    exact writesBack_chain op items hleft fun t ht => ⟨hitems t ht, hprepared.item ht⟩
  | memberExpression object indices computed =>
    simp only [Node.entries, List.forall_mem_cons] at hentries
    obtain ⟨hobject, ⟨⟨items, rfl, hitems⟩, hprepared⟩, ⟨⟨c, rfl⟩, -⟩, -⟩ := hentries
    exact writesBack_accesses c items hobject fun t ht => ⟨hitems t ht, hprepared.item ht⟩
  | tryStatement block handler finalizer =>
    intro a h
    have hcheck : Tree.checkTry handler finalizer = .ok () := by
      rw [writeNode] at h
      obtain ⟨⟨⟩, hcheck, -⟩ := bind_eq_ok.mp h
      exact hcheck
    have hfinalizer := hparts ⟨"finalizer", .finalizer, finalizer⟩ (by simp [Node.entries])
    rw [writeNode_try hcheck] at h
    exact ⟨_, returns_drafted rfl (by decide) (by decide) hfits hdecimal hparts
      (guarded_canonical hfits hfinalizer.fits hcheck) h⟩
  | _ => exact writesBack_regular rfl (by decide) hfits hdecimal hparts

/-- Every node of a tree that is in place, and holds no decimals, comes back canonical. -/
theorem writesBack_of_inPlace (hfits : ∀ n, Within (.node n) t → n.Fits true)
    (hdecimal : ∀ d, ¬Within (.node (.literal (.atom (.decimal d)))) t) : PartsWriteBack t := by
  refine forall_within_entries fun n hn ih =>
    writesBack_of_parts (hfits n hn) ?_ fun entry hentry => ?_
  · rintro d rfl
    exact hdecimal d hn
  · exact ⟨fun m hm => hfits m (ih entry hentry m hm).1, fun m hm => (ih entry hentry m hm).2⟩

/-- A tree that is in place and holds no decimals comes back canonical, with nothing else
changed, whenever it can be written. -/
theorem read_of_write (h : t.InPlace)
    (hdecimal : ∀ d, ¬Within (.node (.literal (.atom (.decimal d)))) t)
    (hwrite : write t = .ok j) : read j = .ok t.canonical := by
  obtain ⟨draft, hdraft, rfl⟩ := bind_eq_ok.mp hwrite
  obtain ⟨rfl | ⟨n, rfl⟩, hfits⟩ := h
  · obtain rfl := Except.ok.inj (Except.ok.inj hdraft)
    exact readAs_eq_ok.mpr (.inl ⟨rfl, rfl, rfl⟩)
  · obtain ⟨m, hm⟩ := writesBack_of_inPlace hfits hdecimal n .refl j hdraft
    rw [hm.canonical, read_eq_readAs]
    exact hm.reads .anything rfl

/-- A sum built by hand: its left operand is a chain without indices, its right one a sum. -/
def nestedSum : Tree :=
  .node (.binaryExpression
    (.node (.memberExpression (.node .thisExpression) (.list []) (.atom (.bool true))))
    (.ofMember (.binaryOperator .add))
    (.list [.node (.binaryExpression (.node .thisExpression) (.ofMember (.binaryOperator .add))
      (.list [.node .thisExpression]))]))

theorem inPlace_nestedSum : nestedSum.InPlace := by
  refine ⟨.inr ⟨_, rfl⟩, fun n hn => ?_⟩
  have hexpression {n : Node Tree} (hn : n.isExpression = true) :
      Category.expression.Fits true (.node n) := .inl hn
  simp only [nestedSum, Within.node_iff, Node.fields, List.mem_cons, Prod.mk.injEq, or_and_right,
    exists_or, and_assoc, exists_and_left, exists_eq_left, List.not_mem_nil, false_and,
    exists_false,
    Within.list_iff, Within.not_atom, Tree.ofMember, or_false, false_or] at hn
  rcases hn with rfl | (rfl | rfl) | rfl | rfl | rfl
  · simp only [Node.Fits, Node.entries, List.forall_mem_cons]
    exact ⟨⟨.add, rfl⟩, hexpression rfl, ⟨_, rfl, by simpa using hexpression rfl⟩, by simp⟩
  · simp only [Node.Fits, Node.entries, List.forall_mem_cons]
    exact ⟨hexpression rfl, ⟨_, rfl, by simp⟩, ⟨true, rfl⟩, by simp⟩
  · simp [Node.Fits, Node.entries]
  · simp only [Node.Fits, Node.entries, List.forall_mem_cons]
    exact ⟨⟨.add, rfl⟩, hexpression rfl, ⟨_, rfl, by simpa using hexpression rfl⟩, by simp⟩
  · simp [Node.Fits, Node.entries]
  · simp [Node.Fits, Node.entries]

theorem read_of_write_nestedSum :
    ∃ j, write nestedSum = .ok j ∧
      read j = .ok (.node (.binaryExpression (.node .thisExpression)
        (.ofMember (.binaryOperator .add))
        (.list [.node .thisExpression, .node .thisExpression]))) := by
  have hwrite : write nestedSum = .ok _ := rfl
  refine ⟨_, hwrite, ?_⟩
  rw [read_of_write inPlace_nestedSum ?_ hwrite]
  · rfl
  · intro d hd
    simp [nestedSum, Within.node_iff, Node.fields, Tree.ofMember, or_and_right, exists_or] at hd

end Trees

end ScriptTree.Exchange
