import ScriptTree.Proofs.Source.Failure
import Mathlib.Data.Set.List

/-!
Which trees stand for statements. A statement that is in place and is printed without a failure
has everything that it needs, so it is one of the statements that the grammar knows.
-/

namespace ScriptTree.Structure

open Exchange Source

section Slots

variable {P : Node Tree → Prop} {t : Tree} {e : TreeError}

/-- Where every item of a list is the tree of something, the list is the one of their trees. -/
theorem exists_list {α : Type} {tree : α → Tree} {items : List Tree} {missing : Option TreeError}
    (hitem : ∀ item ∈ items, slotFault missing item = none → ∃ a, item = tree a)
    (hfault : itemsFault missing (.list items) = none) : ∃ as : List α, items = as.map tree := by
  rw [itemsFault, List.findSome?_eq_none_iff] at hfault
  have hrange : items ∈ Set.range (List.map tree) := by
    rw [Set.range_list_map]
    intro item hmem
    obtain ⟨a, rfl⟩ := hitem item hmem (hfault item hmem)
    exact ⟨a, rfl⟩
  obtain ⟨as, rfl⟩ := hrange
  exact ⟨as, rfl⟩

theorem exists_expression (h : NodeSlot P .expression t) (hfault : slotFault (some e) t = none) :
    ∃ expression : Expression, t = expression.tree := by
  rcases h with rfl | ⟨n, rfl, hkind, -⟩
  · cases hfault
  · exact ⟨⟨n, hkind⟩, rfl⟩

theorem exists_optional (h : NodeSlot P .expression t) :
    ∃ expression : Option Expression, t = optionalTree Expression.tree expression := by
  rcases h with rfl | ⟨n, rfl, hkind, -⟩
  · exact ⟨none, rfl⟩
  · exact ⟨some ⟨n, hkind⟩, rfl⟩

variable (hP : ∀ n, P n → n.HasSlots)

include hP

theorem exists_name (h : NodeSlot P .identifier t) (hfault : slotFault (some e) t = none) :
    ∃ id : Name, t = id.tree := by
  rcases h.name hP with rfl | ⟨name, rfl⟩
  · cases hfault
  · exact ⟨⟨.ofText name⟩, rfl⟩

theorem exists_label (h : NodeSlot P .identifier t) :
    ∃ id : Option Name, t = optionalTree Name.tree id := by
  rcases h.name hP with rfl | ⟨name, rfl⟩
  · exact ⟨none, rfl⟩
  · exact ⟨some ⟨.ofText name⟩, rfl⟩

theorem exists_params (h : ListSlot P .identifier t) (hfault : itemsFault (some e) t = none) :
    ∃ ids : List Name, t = .list (ids.map Name.tree) := by
  obtain ⟨items, rfl, hitems⟩ := h
  obtain ⟨ids, rfl⟩ := exists_list (fun item hitem => exists_name hP (hitems item hitem)) hfault
  exact ⟨ids, rfl⟩

variable (hnode : ∀ n, P n → (nodeScript .pretty n).failure = nodeFault n)

include hnode

theorem exists_declarator (h : NodeSlot P .variableDeclarator t)
    (hfault : slotFault (some e) t = none) : ∃ d : Declarator, t = d.tree := by
  rcases h.of_kind rfl (by decide) with rfl | ⟨n, rfl, hkind, hn⟩
  · cases hfault
  · rw [slotFault, hnode n hn.here] at hfault
    cases n with
    | variableDeclarator id init =>
      obtain ⟨hid, hinit⟩ : NodeSlot P .identifier id ∧ NodeSlot P .expression init :=
        hn.filled hP
      simp only [nodeFault, Node.entries, entryFault, findSome?_cons_or, Option.or_eq_none_iff]
        at hfault
      obtain ⟨id, rfl⟩ := exists_name hP hid hfault.1
      obtain ⟨init, rfl⟩ := exists_optional hinit
      exact ⟨(id, init), rfl⟩
    | _ => cases hkind

/-- A declaration that is printed has a declarator. -/
theorem exists_declaration {n : Node Tree} (hkind : n.kind? = some .variableDeclaration)
    (hn : n.Filled P) {accepts : Nat → Bool} (haccepts : accepts 0 = false)
    (hfault : declarationFault accepts e (.node n) = none) :
    ∃ first others, .node n = declarationTree first others ∧
      accepts (others.length + 1) = true := by
  cases n with
  | variableDeclaration declarations kind =>
    obtain ⟨⟨items, rfl, hitems⟩, ⟨kind, rfl⟩⟩ : ListSlot P .variableDeclarator declarations ∧
      ∃ k, kind = .ofMember (.variableKind k) := hn
    obtain rfl : kind = .var := by cases kind; rfl
    rw [declarationFault] at hfault
    split at hfault
    · next hlength =>
      obtain ⟨ds, rfl⟩ :=
        exists_list (fun item hitem => exists_declarator hP hnode (hitems item hitem)) hfault
      cases ds with
      | nil => rw [List.map_nil, List.length_nil, haccepts] at hlength; cases hlength
      | cons first others => exact ⟨first, others, rfl, by simpa using hlength⟩
    · cases hfault
  | _ => cases hkind

theorem exists_head (h : ChoiceSlot P .variableDeclaration .expression t) {owner : String}
    (hfault : choiceFault none (firstSortFault owner .forInit) t = none) :
    ∃ head : Head, t = head.tree := by
  rcases h with rfl | ⟨n, rfl, hkind, hn⟩ | ⟨n, rfl, hkind, -⟩
  · exact ⟨.nothing, rfl⟩
  · have hfault : declarationFault (0 < ·) (.noInlineDeclarators owner) (.node n) = none := hfault
    obtain ⟨first, others, hdeclaration, -⟩ :=
      exists_declaration hP hnode hkind (hn.filled hP) rfl hfault
    exact ⟨.declaration first others, by rw [hdeclaration]; rfl⟩
  · exact ⟨.expression ⟨n, hkind⟩, rfl⟩

theorem exists_binding (h : ChoiceSlot P .variableDeclaration .identifier t) {owner : String}
    (hfault : choiceFault (some e) (firstSortFault owner .forInLeft) t = none) :
    ∃ binding : Binding, t = binding.tree := by
  rcases h with rfl | ⟨n, rfl, hkind, hn⟩ | ⟨n, rfl, hhas, hn⟩
  · cases hfault
  · have hfault : declarationFault (· = 1) .forInDeclarators (.node n) = none := hfault
    obtain ⟨first, others, hdeclaration, hlength⟩ :=
      exists_declaration hP hnode hkind (hn.filled hP) rfl hfault
    obtain rfl : others = [] := by simpa using hlength
    exact ⟨.declaration first, by rw [hdeclaration]; rfl⟩
  · rcases (NodeSlot.of_has hhas hn).name hP with h | ⟨name, h⟩
    · cases h
    · exact ⟨.name ⟨.ofText name⟩, by rw [h]; rfl⟩

end Slots

section Statements

variable {P : Node Tree → Prop} {t : Tree}

variable (hP : ∀ n, P n → n.HasSlots)
  (hnode : ∀ n, P n → (nodeScript .pretty n).failure = nodeFault n)
  (hstands : ∀ n, P n → n.isStatement = true → nodeFault n = none →
    ∃ s, Represents (.node n) s)

include hnode hstands

theorem exists_statement (h : NodeSlot P .statement t) (hfault : slotFault none t = none) :
    ∃ s, Represents t s := by
  rcases h with rfl | ⟨n, rfl, hkind, hn⟩
  · exact ⟨.empty, .empty⟩
  · exact hstands n hn.here hkind ((hnode n hn.here).symm.trans hfault)

theorem exists_statements (h : ListSlot P .statement t) (hfault : itemsFault none t = none) :
    ∃ items ss, t = .list items ∧ RepresentsAll items ss := by
  obtain ⟨items, rfl, hitems⟩ := h
  rw [itemsFault, List.findSome?_eq_none_iff] at hfault
  suffices hall : ∃ ss, RepresentsAll items ss from ⟨items, hall.choose, rfl, hall.choose_spec⟩
  induction items with
  | nil => exact ⟨[], .nil⟩
  | cons first rest ih =>
    obtain ⟨s, hs⟩ := exists_statement hnode hstands (hitems first List.mem_cons_self)
      (hfault first List.mem_cons_self)
    obtain ⟨ss, hss⟩ := ih (fun item hitem => hitems item (List.mem_cons_of_mem _ hitem))
      fun item hitem => hfault item (List.mem_cons_of_mem _ hitem)
    exact ⟨s :: ss, .cons hs hss⟩

theorem exists_block (h : BlockSlot P t) (hfault : blockFault t = none) :
    ∃ items ss, t = blockTree items ∧ RepresentsAll items ss := by
  rcases h with rfl | ⟨body, rfl, hbody⟩
  · cases hfault
  · obtain ⟨items, ss, rfl, hss⟩ := exists_statements hnode hstands hbody hfault
    exact ⟨items, ss, rfl, hss⟩

include hP

theorem exists_clauses (h : ListSlot P .switchCase t) {missing : TreeError}
    (hfault : itemsFault (some missing) t = none) :
    ∃ items clauses, t = .list items ∧ RepresentsClauses items clauses := by
  obtain ⟨items, rfl, hitems⟩ := h
  rw [itemsFault, List.findSome?_eq_none_iff] at hfault
  suffices hall : ∃ clauses, RepresentsClauses items clauses from
    ⟨items, hall.choose, rfl, hall.choose_spec⟩
  induction items with
  | nil => exact ⟨[], .nil⟩
  | cons first rest ih =>
    obtain ⟨clauses, hclauses⟩ := ih (fun item hitem => hitems item (List.mem_cons_of_mem _ hitem))
      fun item hitem => hfault item (List.mem_cons_of_mem _ hitem)
    have hfirst := hfault first List.mem_cons_self
    rcases (hitems first List.mem_cons_self).of_kind rfl (by decide) with
      rfl | ⟨n, rfl, hkind, hn⟩
    · cases hfirst
    · rw [slotFault, hnode n hn.here] at hfirst
      cases n with
      | switchCase test body =>
        obtain ⟨htest, hbody⟩ : NodeSlot P .expression test ∧ ListSlot P .statement body :=
          hn.filled hP
        simp [nodeFault, Node.entries, entryFault, absentFault] at hfirst
        obtain ⟨test, rfl⟩ := exists_optional htest
        obtain ⟨body, ss, rfl, hss⟩ := exists_statements hnode hstands hbody hfirst.2
        exact ⟨.mk test ss :: clauses, .cons test hss hclauses⟩
      | _ => cases hkind

theorem exists_handler (h : NodeSlot P .catchClause t) (hfault : slotFault none t = none) :
    t = .missing ∨ ∃ param : Name, ∃ items ss, t = .node (.catchClause param.tree (.list items)) ∧
      RepresentsAll items ss := by
  rcases h.of_kind rfl (by decide) with rfl | ⟨n, rfl, hkind, hn⟩
  · exact .inl rfl
  · rw [slotFault, hnode n hn.here] at hfault
    cases n with
    | catchClause param body =>
      obtain ⟨hparam, hbody⟩ : NodeSlot P .identifier param ∧ ListSlot P .statement body :=
        hn.filled hP
      simp [nodeFault, Node.entries, entryFault] at hfault
      obtain ⟨param, rfl⟩ := exists_name hP hparam hfault.1
      obtain ⟨items, ss, rfl, hss⟩ := exists_statements hnode hstands hbody hfault.2
      exact .inr ⟨param, items, ss, rfl, hss⟩
    | _ => cases hkind

/-- A try statement has a handler, or statements in its finalizer, or both. -/
theorem exists_try {block handler finalizer : Tree} (hblock : BlockSlot P block)
    (hhandler : NodeSlot P .catchClause handler) (hfinalizer : BlockSlot P finalizer)
    (hfault : nodeFault (.tryStatement block handler finalizer) = none) :
    ∃ s, Represents (.node (.tryStatement block handler finalizer)) s := by
  rw [nodeFault] at hfault
  cases hcheck : Tree.checkTry handler finalizer with
  | error e => rw [hcheck] at hfault; cases hfault
  | ok checked =>
    rw [hcheck, faultAfter] at hfault
    rcases hfinalizer with rfl | ⟨body, rfl, items, rfl, hitems⟩
    · cases hfault
    · have hfinal : (Tree.node (.blockStatement (.list items))).hasFinalizer =
        .ok (!items.isEmpty) := by cases items <;> rfl
      rw [hfinal, faultAfter, Option.or_eq_none_iff, Option.or_eq_none_iff] at hfault
      obtain ⟨statements, ss, rfl, hss⟩ := exists_block hnode hstands hblock hfault.1
      have hhandled := exists_handler hP hnode hstands hhandler hfault.2.1
      cases items with
      | nil =>
        rcases hhandled with rfl | ⟨param, items', ss', rfl, hss'⟩
        · cases hcheck
        · exact ⟨_, .tryCatch param hss hss'⟩
      | cons first rest =>
        obtain ⟨items'', ss'', hitems'', hss''⟩ :=
          exists_block hnode hstands (.inr ⟨_, rfl, _, rfl, hitems⟩) hfault.2.2
        have hne : items'' ≠ [] := by
          rintro rfl
          cases hitems''
        rw [hitems'']
        rcases hhandled with rfl | ⟨param, items', ss', rfl, hss'⟩
        · exact ⟨_, .tryFinally hne hss hss''⟩
        · exact ⟨_, .tryCatchFinally param hne hss hss' hss''⟩

/-- A statement stands for one of the grammar if the statements in it do. -/
theorem exists_node {n : Node Tree} (h : n.Filled P) (hkind : n.isStatement = true)
    (hfault : nodeFault n = none) : ∃ s, Represents (.node n) s := by
  cases n with
  | bare cls => cases hfault
  | blockStatement body =>
    simp [nodeFault, Node.entries, entryFault, absentFault] at hfault
    obtain ⟨items, ss, rfl, hss⟩ := exists_statements hnode hstands h hfault
    exact ⟨.block ss, .block hss⟩
  | expressionStatement expression =>
    simp [nodeFault, Node.entries, entryFault] at hfault
    obtain ⟨e, rfl⟩ := exists_expression h hfault
    exact ⟨.expression e, .expression e⟩
  | debuggerStatement => exact ⟨.debugger, .debugger⟩
  | withStatement object body =>
    obtain ⟨hobject, hbody⟩ : NodeSlot P .expression object ∧ NodeSlot P .statement body := h
    simp [nodeFault, Node.entries, entryFault] at hfault
    obtain ⟨object, rfl⟩ := exists_expression hobject hfault.1
    obtain ⟨s, hs⟩ := exists_statement hnode hstands hbody hfault.2
    exact ⟨_, .within object hs⟩
  | returnStatement argument =>
    obtain ⟨argument, rfl⟩ := exists_optional h
    exact ⟨_, .returning argument⟩
  | labeledStatement label body =>
    obtain ⟨hlabel, hbody⟩ : NodeSlot P .identifier label ∧ NodeSlot P .statement body := h
    simp [nodeFault, Node.entries, entryFault] at hfault
    obtain ⟨label, rfl⟩ := exists_name hP hlabel hfault.1
    obtain ⟨s, hs⟩ := exists_statement hnode hstands hbody hfault.2
    exact ⟨_, .labeled label hs⟩
  | breakStatement label =>
    obtain ⟨label, rfl⟩ := exists_label hP h
    exact ⟨_, .breakTo label⟩
  | continueStatement label =>
    obtain ⟨label, rfl⟩ := exists_label hP h
    exact ⟨_, .continueTo label⟩
  | ifStatement test consequent alternate =>
    obtain ⟨htest, hconsequent, halternate⟩ : NodeSlot P .expression test ∧
      NodeSlot P .statement consequent ∧ NodeSlot P .statement alternate := h
    simp [nodeFault, Node.entries, entryFault] at hfault
    obtain ⟨test, rfl⟩ := exists_expression htest hfault.1
    obtain ⟨s, hs⟩ := exists_statement hnode hstands hconsequent hfault.2.1
    obtain ⟨s', hs'⟩ := exists_statement hnode hstands halternate hfault.2.2
    rcases halternate with rfl | ⟨n, rfl, -⟩
    · exact ⟨_, .ifOnly test hs⟩
    · exact ⟨_, .ifElse test hs hs'⟩
  | switchStatement discriminant cases =>
    obtain ⟨hdiscriminant, hcases⟩ : NodeSlot P .expression discriminant ∧
      ListSlot P .switchCase cases := h
    simp [nodeFault, Node.entries, entryFault, absentFault] at hfault
    obtain ⟨discriminant, rfl⟩ := exists_expression hdiscriminant hfault.1
    obtain ⟨items, clauses, rfl, hclauses⟩ := exists_clauses hP hnode hstands hcases hfault.2
    exact ⟨_, .switch discriminant hclauses⟩
  | throwStatement argument =>
    simp [nodeFault, Node.entries, entryFault] at hfault
    obtain ⟨argument, rfl⟩ := exists_expression h hfault
    exact ⟨_, .throwing argument⟩
  | tryStatement block handler finalizer =>
    exact exists_try hP hnode hstands h.1 h.2.1 h.2.2 hfault
  | whileStatement test body =>
    obtain ⟨htest, hbody⟩ : NodeSlot P .expression test ∧ NodeSlot P .statement body := h
    simp [nodeFault, Node.entries, entryFault] at hfault
    obtain ⟨test, rfl⟩ := exists_expression htest hfault.1
    obtain ⟨s, hs⟩ := exists_statement hnode hstands hbody hfault.2
    exact ⟨_, .whileLoop test hs⟩
  | doWhileStatement body test =>
    obtain ⟨hbody, htest⟩ : NodeSlot P .statement body ∧ NodeSlot P .expression test := h
    simp [nodeFault, Node.entries, entryFault] at hfault
    obtain ⟨s, hs⟩ := exists_statement hnode hstands hbody hfault.1
    obtain ⟨test, rfl⟩ := exists_expression htest hfault.2
    exact ⟨_, .doLoop test hs⟩
  | forStatement init test update body =>
    obtain ⟨hinit, htest, hupdate, hbody⟩ :
      ChoiceSlot P .variableDeclaration .expression init ∧ NodeSlot P .expression test ∧
      NodeSlot P .expression update ∧ NodeSlot P .statement body := h
    simp [nodeFault, Node.entries, entryFault] at hfault
    obtain ⟨head, rfl⟩ := exists_head hP hnode hinit hfault.1
    obtain ⟨test, rfl⟩ := exists_optional htest
    obtain ⟨update, rfl⟩ := exists_optional hupdate
    obtain ⟨s, hs⟩ := exists_statement hnode hstands hbody hfault.2.2.2
    exact ⟨_, .forLoop head test update hs⟩
  | forInStatement left right body =>
    obtain ⟨hleft, hright, hbody⟩ : ChoiceSlot P .variableDeclaration .identifier left ∧
      NodeSlot P .expression right ∧ NodeSlot P .statement body := h
    simp [nodeFault, Node.entries, entryFault] at hfault
    obtain ⟨binding, rfl⟩ := exists_binding hP hnode hleft hfault.1
    obtain ⟨right, rfl⟩ := exists_expression hright hfault.2.1
    obtain ⟨s, hs⟩ := exists_statement hnode hstands hbody hfault.2.2
    exact ⟨_, .forIn binding right hs⟩
  | functionDeclaration id params body =>
    obtain ⟨hid, hparams, hbody⟩ : NodeSlot P .identifier id ∧ ListSlot P .identifier params ∧
      ListSlot P .statement body := h
    simp [nodeFault, Node.entries, entryFault, absentFault] at hfault
    obtain ⟨id, rfl⟩ := exists_name hP hid hfault.1
    obtain ⟨params, rfl⟩ := exists_params hP hparams hfault.2.1
    obtain ⟨items, ss, rfl, hss⟩ := exists_statements hnode hstands hbody hfault.2.2
    exact ⟨_, .function id params hss⟩
  | variableDeclaration declarations kind =>
    have hfault : declarationFault (0 < ·) .noDeclarators
      (.node (.variableDeclaration declarations kind)) = none := hfault
    obtain ⟨first, others, hdeclaration, -⟩ := exists_declaration hP hnode rfl h rfl hfault
    exact ⟨_, hdeclaration ▸ Represents.declaration first others⟩
  | _ => cases hkind

end Statements

/-- The script of the node fails with its fault, and if it is a statement without a fault, it is
one of the grammar. -/
structure Node.Stands (n : Node Tree) : Prop where
  slots : n.HasSlots
  failure : ∀ m, (nodeScript m n).failure = nodeFault n
  represents : n.isStatement = true → nodeFault n = none → ∃ s, Represents (.node n) s

theorem stands_throughout {t : Tree} (h : t.Throughout Node.HasSlots) :
    t.Throughout Node.Stands := by
  have hfailure := failure_throughout (fun _ hn => hn) h
  refine (hfailure.strengthen (fun _ hn => hn.1) fun n hn hfilled hkind hfault =>
    exists_node (fun _ hn => hn.1.1) (fun _ hn => hn.1.2 .pretty) (fun _ hn => hn.2) hfilled hkind
      hfault).mono fun n hn => ⟨hn.1.1, hn.1.2, hn.2⟩

/-- Statements that are in place and are printed are statements of the grammar. -/
theorem exists_representsAll {m : Mode} {items : List Tree}
    (h : ListSlot Node.HasSlots .statement (.list items))
    (hprints : (listScript m .statements (.list items)).failure = none) :
    ∃ ss, RepresentsAll items ss := by
  have hstands : ListSlot Node.Stands .statement (.list items) := by
    obtain ⟨items, hitems, hall⟩ := h
    refine ⟨items, hitems, fun item hitem => ?_⟩
    rcases hall item hitem with rfl | ⟨n, rfl, hkind, hn⟩
    · exact .inl rfl
    · exact .of_has hkind (stands_throughout hn)
  have hfailure (n : Node Tree) (hn : Node.Stands n) (m : Mode) :
      (nodeScript m n).failure = (nodeScript .pretty n).failure := by
    rw [hn.failure, hn.failure]
  rw [failure_statements (fun _ hn => hn.slots) hfailure hstands] at hprints
  obtain ⟨items', ss, hitems, hss⟩ := exists_statements (fun n hn => hn.failure .pretty)
    (fun n hn => hn.represents) hstands hprints
  exact ⟨ss, Tree.list.inj hitems ▸ hss⟩

end ScriptTree.Structure
