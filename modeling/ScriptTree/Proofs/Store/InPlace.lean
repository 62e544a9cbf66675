import ScriptTree.Proofs.Store.Reading

/-!
Reading in place. A value that is read into a node gives the tree that is read from it
without one, if what the node reaches is owned by it: neither a node nor a list in it is
reached twice. Nothing outside of what the node reaches is changed, and a read that fails
changes nothing at all, for that it is enough that nothing is a part of itself. That lists
must not be shared either is shown by a function whose parameters and statements are one
list: it is refilled twice.
-/

namespace ScriptTree.Store

open Exchange Relation

variable {st st' st₀ st₀' : Store} {j : Json} {t : Tree} {a : Nat} {item fresh : Item}

section Outcome

/-- A value that stands for a tree is read, whatever it is read into. -/
theorem fills_readInto (h : Exchange.read j = .ok t) (st : Store) (old : Item)
    (hs : st.Sane old.refs) :
    ∃ item st', Runs (readInto j old) st item st' ∧ Filled st old t item st' :=
  (reads_readSlot (.whole j)).fills t h st old hs

/-- A value that stands for no tree is refused with the same error, whatever it is read
into. -/
theorem breaks_readInto {e : ReadError} (h : Exchange.read j = .error e) (st : Store) (old : Item)
    (hs : st.Sane old.refs) : Breaks (readInto j old) st e :=
  (reads_readSlot (.whole j)).fails e h st old hs

/-- A value that is read into nothing is read as the tree that it stands for. -/
theorem read_of_fresh (h : Runs (read j .missing) st₀ fresh st₀') :
    Exchange.read j = .ok (st₀'.tree fresh) := by
  cases hread : Exchange.read j with
  | error e =>
    obtain ⟨st₁, hbreaks⟩ := breaks_readInto hread st₀ .missing sane_nil
    cases h.symm.trans hbreaks
  | ok t =>
    obtain ⟨item, st₁, hrun, hfilled⟩ := fills_readInto hread st₀ .missing sane_nil
    obtain ⟨rfl, rfl⟩ := h.unique hrun
    rw [(hfilled.shows owned_nil).tree_eq]

theorem read_ref : read j (.ref a) = (do
    let _ ← Exchange.read j
    readInto j (.ref a) : Refill Item) := rfl

/-- Reading in place is reading once more what could be read. -/
theorem runs_read (h : Exchange.read j = .ok t) (hrun : Runs (readInto j (.ref a)) st item st') :
    Runs (read j (.ref a)) st item st' := by
  rw [read_ref, h]
  exact (runs_ok t).bind hrun

end Outcome

section Functions

def debuggerObject : Json := .object [("type", .text "DebuggerStatement")]

def functionObject (statements : List Json) : Json :=
  .object [("type", .text "FunctionExpression"), ("id", .null),
    ("params", .array [.object [("type", .text "Identifier"), ("name", .text "x")]]),
    ("body", .object [("type", .text "BlockStatement"), ("body", .array statements)])]

theorem readAs_param : readAs (.element "FunctionExpression" "params" .identifier false)
    (.object [("type", .text "Identifier"), ("name", .text "x")]) =
    .ok (.node (.identifier (.ofText "x"))) := by
  refine readAs_eq_node.mpr ⟨.kind .identifier, .identifier (.ofText "x"), rfl, ⟨_, rfl, rfl⟩,
    ⟨?_, by simp⟩, rfl, rfl⟩
  simp only [Node.entries, List.forall_mem_singleton]
  exact ⟨"x", rfl, rfl⟩

theorem readAs_noName :
    readAs (.child "FunctionExpression" "id" .identifier) .null = .ok .missing :=
  readAs_eq_ok.mpr (.inl ⟨rfl, rfl, rfl⟩)

theorem readAs_debugger : readAs (.element "FunctionExpression" "body" .statement false)
    debuggerObject = .ok (.node .debuggerStatement) :=
  readAs_eq_node.mpr ⟨.kind .debuggerStatement, .debuggerStatement, rfl, ⟨_, rfl, rfl⟩,
    ⟨by simp [Node.entries], by simp⟩, rfl, rfl⟩

theorem read_functionObject : Exchange.read (functionObject [debuggerObject, debuggerObject]) =
    .ok (.node (.functionExpression .missing (.list [.node (.identifier (.ofText "x"))])
      (.list [.node .debuggerStatement, .node .debuggerStatement]))) := by
  refine readAs_eq_node.mpr ⟨.kind .functionExpression, .functionExpression .missing
    (.list [.node (.identifier (.ofText "x"))])
    (.list [.node .debuggerStatement, .node .debuggerStatement]), rfl, ⟨_, rfl, rfl⟩,
    ⟨?_, by simp⟩, rfl, rfl⟩
  simp only [Node.entries, List.forall_mem_cons, List.not_mem_nil, false_implies, implies_true,
    and_true]
  have hstatements : ReadsAll "FunctionExpression" "body" .statement false
      [debuggerObject, debuggerObject] [.node .debuggerStatement, .node .debuggerStatement] :=
    .cons readAs_debugger (.cons readAs_debugger .nil)
  exact ⟨⟨.null, rfl, by simp [Json.kind], readAs_noName⟩,
    ⟨_, _, rfl, .cons readAs_param .nil, rfl⟩, ⟨_, ⟨_, _, rfl, rfl, rfl, hstatements⟩, rfl⟩⟩

/-- The last statement is none: everything before it could be read. -/
theorem read_brokenFunction :
    Exchange.read (functionObject [debuggerObject, .bool true]) = .error .notAnObject := by
  have hbroken : readAs (.element "FunctionExpression" "body" .statement false) (.bool true) =
      .error .notAnObject := by
    rw [readAs, Exchange.readSlot]
    rfl
  have hlayer : layer (functionObject [debuggerObject, .bool true]) =
      .ok (some (.functionExpression
        (.one (.json .null (.child "FunctionExpression" "id" .identifier) (by decide)))
        (.many [.json (.object [("type", .text "Identifier"), ("name", .text "x")])
          (.element "FunctionExpression" "params" .identifier false) (by decide)])
        (.many [
          .json debuggerObject (.element "FunctionExpression" "body" .statement false) (by decide),
          .json (.bool true) (.element "FunctionExpression" "body" .statement false)
            (by decide)]))) := rfl
  rw [Exchange.read, Slot.whole, Exchange.readSlot, hlayer]
  simp [bind, Except.bind, pure, Except.pure, Node.traverse, Branch.read, readSlot_json,
    readAs_param, readAs_noName, readAs_debugger, hbroken]

/-- A store with a function. Its parameters and its statements are lists of the store: one holds
two names, one holds a statement, and one is empty. -/
def functionStore (params body : Nat) : Store :=
  ⟨#[.node (.identifier (.ofText "p")), .node (.identifier (.ofText "q")),
    .node (.returnStatement .missing), .list [.ref 0, .ref 1], .list [.ref 2], .list [],
    .node (.functionExpression .missing (.ref params) (.ref body))]⟩

def reachedBelow (a : Nat) : List Nat :=
  if a = 3 then [3, 0, 1] else if a = 4 then [4, 2] else [a]

variable {params body x : Nat}

theorem refs_function : (functionStore params body).refs 6 = [body, params] := by
  simp [refs, functionStore, Cell.refs, Node.fields, Item.refs]

theorem refs_below (hx : x < 6) :
    (functionStore params body).refs x = if x = 3 then [0, 1] else if x = 4 then [2] else [] := by
  interval_cases x <;> rfl

theorem leads_below (hx : x < 6) {y : Nat} :
    (functionStore params body).Leads x y ↔ y ∈ reachedBelow x := by
  have hleaf {a : Nat} (hrefs : (functionStore params body).refs a = []) :
      (functionStore params body).Leads a y ↔ y = a := by
    rw [leads_iff, hrefs]
    simp [Meets, eq_comm]
  rw [leads_iff, refs_below hx, reachedBelow]
  split_ifs with h3 h4
  · simp [Meets, hleaf (a := 0) rfl, hleaf (a := 1) rfl, h3, eq_comm]
  · simp [Meets, hleaf (a := 2) rfl, h4, eq_comm]
  · simp [eq_comm]

theorem leads_function (hparams : params < 6) (hbody : body < 6) :
    (functionStore params body).Leads 6 x ↔
      x = 6 ∨ x ∈ reachedBelow body ∨ x ∈ reachedBelow params := by
  rw [leads_iff, refs_function]
  simp [Meets, leads_below hparams, leads_below hbody, eq_comm]

theorem fits_node {n : Node Item} {k : Kind} (hk : n.kind? = some k)
    (h : ∀ f item, (f, item) ∈ n.fields → st.Takes (k.default f) item) : st.Fits (.node n) := by
  rintro n' k' ⟨rfl⟩ hk'
  obtain rfl := Option.some.inj (hk.symm.trans hk')
  exact h

theorem fits_below (hx : x < 6) {cell : Cell}
    (hcell : (functionStore params body).cells[x]? = some cell) :
    (functionStore params body).Fits cell := by
  have hname (name : Text) : (functionStore params body).Fits
      (.node (.identifier (.ofText name))) := by
    refine fits_node rfl fun f item hitem => ?_
    obtain ⟨rfl, -⟩ : f = .name ∧ item = .ofText name := by simpa [Node.fields] using hitem
    trivial
  have hreturn : (functionStore params body).Fits (.node (.returnStatement .missing)) := by
    refine fits_node rfl fun f item hitem => ?_
    obtain ⟨rfl, -⟩ : f = .argument ∧ item = .missing := by simpa [Node.fields] using hitem
    trivial
  interval_cases x <;> obtain rfl := Option.some.inj hcell
  · exact hname "p"
  · exact hname "q"
  · exact hreturn
  all_goals exact fits_list _ _

theorem sane_below (hx : x < 6) :
    x < (functionStore params body).cells.size ∧ (functionStore params body).Formed x ∧
      ¬TransGen (functionStore params body).Refers x x := by
  have hsize : (functionStore params body).cells.size = 7 := rfl
  refine ⟨by omega, ⟨fun b hb => ?_, fun cell hcell => fits_below hx hcell⟩, ?_⟩
  · rw [Refers, refs_below hx] at hb
    split_ifs at hb <;> simp at hb <;> omega
  · rw [strict_iff, refs_below hx]
    split_ifs <;> simp [Meets, leads_below, reachedBelow] <;> omega

/-- Three cells of a function store are lists. -/
theorem sortAt_list (hx : x ∈ [3, 4, 5]) :
    (functionStore params body).sortAt x = some .list := by
  simp only [List.mem_cons, List.not_mem_nil, or_false] at hx
  rcases hx with rfl | rfl | rfl <;> rfl

theorem lt_of_list (hx : x ∈ [3, 4, 5]) : x < 6 := by
  simp only [List.mem_cons, List.not_mem_nil, or_false] at hx
  omega

theorem le_of_reachedBelow {y : Nat} (h : x ∈ reachedBelow y) : x ≤ y := by
  unfold reachedBelow at h
  split_ifs at h <;> simp at h <;> omega

theorem sane_functionStore (hparams : params ∈ [3, 4, 5]) (hbody : body ∈ [3, 4, 5]) :
    (functionStore params body).Sane [6] := by
  have hsize : (functionStore params body).cells.size = 7 := rfl
  have hp := lt_of_list hparams
  have hb := lt_of_list hbody
  intro x hx
  rcases (leads_function hp hb).mp (meets_singleton.mp hx) with rfl | h | h
  · refine ⟨by omega, ⟨fun b hrefers => ?_, fun cell hcell => ?_⟩, ?_⟩
    · rw [Refers, refs_function] at hrefers
      simp at hrefers
      omega
    · obtain rfl := Option.some.inj hcell
      refine fits_node rfl fun f item hitem => ?_
      obtain ⟨rfl, rfl⟩ | ⟨rfl, rfl⟩ | ⟨rfl, rfl⟩ : (f = .body ∧ item = .ref body) ∨
          (f = .id ∧ item = .missing) ∨ (f = .params ∧ item = .ref params) := by
        simpa [Node.fields] using hitem
      · exact ⟨body, rfl, sortAt_list hbody⟩
      · trivial
      · exact ⟨params, rfl, sortAt_list hparams⟩
    · rw [strict_iff, refs_function]
      rintro ⟨y, hy, hlead⟩
      rcases (by simpa using hy : y = body ∨ y = params) with rfl | rfl
      · exact absurd (le_of_reachedBelow ((leads_below hb).mp hlead)) (by omega)
      · exact absurd (le_of_reachedBelow ((leads_below hp).mp hlead)) (by omega)
  · exact sane_below ((le_of_reachedBelow h).trans_lt hb)
  · exact sane_below ((le_of_reachedBelow h).trans_lt hp)

/-- Nothing is reached twice if the parameters and the statements are two lists. -/
theorem owned_functionStore : (functionStore 3 4).Owned [6] := by
  refine ⟨List.pairwise_singleton _ _, fun x hx => ?_⟩
  rcases (leads_function (by decide) (by decide)).mp (meets_singleton.mp hx) with rfl | h | h
  · rw [refs_function]
    simp [Apart, leads_below, reachedBelow]
  · rw [refs_below ((le_of_reachedBelow h).trans_lt (by decide))]
    split_ifs <;> simp [Apart, leads_below, reachedBelow]
  · rw [refs_below ((le_of_reachedBelow h).trans_lt (by decide))]
    split_ifs <;> simp [Apart, leads_below, reachedBelow]

/-- A function that holds one list twice is the one node that it reaches. -/
theorem eq_of_leads_sharedList (x : Nat) (n : Node Item) (hx : (functionStore 5 5).Leads 6 x)
    (hcell : (functionStore 5 5).cells[x]? = some (.node n)) : x = 6 := by
  rcases (leads_function (by decide) (by decide)).mp hx with rfl | h | h
  · rfl
  all_goals
    obtain rfl : x = 5 := by simpa [reachedBelow] using h
    cases hcell

end Functions

section Ownership

/-- Reading in place gives the tree that is read without a node to read into. What the result
reaches is owned again, and nothing that the node did not reach is changed. -/
theorem read_inPlace (hfresh : Runs (read j .missing) st₀ fresh st₀') (hs : st.Sane [a])
    (ho : st.Owned [a]) :
    ∃ item st', Runs (read j (.ref a)) st item st' ∧ st'.tree item = st₀'.tree fresh ∧
      st'.Sane item.refs ∧ st'.Owned item.refs ∧
      ∀ b, b < st.cells.size → ¬st.Leads a b → st'.cells[b]? = st.cells[b]? := by
  have hread := read_of_fresh hfresh
  obtain ⟨item, st', hrun, hfilled⟩ := fills_readInto hread st (.ref a) hs
  refine ⟨item, st', runs_read hread hrun, (hfilled.shows ho).tree_eq, hfilled.refills.sane hs,
    hfilled.refills.owned ho, fun b hb hnot => hfilled.refills.kept b hb ?_⟩
  exact fun hmeets => hnot (meets_singleton.mp hmeets)

theorem read_inPlace_separateLists :
    ∃ fresh st₀' item st',
      Runs (read (functionObject [debuggerObject, debuggerObject]) .missing) {} fresh st₀' ∧
      Runs (read (functionObject [debuggerObject, debuggerObject]) (.ref 6)) (functionStore 3 4)
        item st' ∧
      st'.tree item = st₀'.tree fresh := by
  obtain ⟨fresh, st₀', hfresh, -⟩ := fills_readInto read_functionObject {} .missing sane_nil
  have hs : (functionStore 3 4).Sane [6] := sane_functionStore (by decide) (by decide)
  obtain ⟨item, st', hrun, htree, -⟩ := read_inPlace hfresh hs owned_functionStore
  exact ⟨fresh, st₀', item, st', hfresh, hrun, htree⟩

end Ownership

section Sharing

variable {i p b : Tree} {id list : Item}

/-- A node that is read into keeps its lists. -/
theorem read_keepsLists {m : Node Tree} {n : Node Item} {k : Kind}
    (h : Exchange.read j = .ok (.node m)) (hm : m.kind? = some k) (hbinary : k ≠ .binaryExpression)
    (hmember : k ≠ .memberExpression) (hs : st.Sane [a]) (hcell : st.cells[a]? = some (.node n))
    (hk : n.kind? = some k) :
    ∃ n' st', Runs (read j (.ref a)) st (.ref a) st' ∧ st'.cells[a]? = some (.node n') ∧
      n'.kind? = some k ∧ KeepsLists k n n' := by
  obtain ⟨⟨-, -, h'⟩⟩ | ⟨shape, m', hlayer, hread, hcheck, h'⟩ := readAs_eq_ok.mp h
  · cases h'
  · obtain rfl := Tree.node.inj h'
    rw [kind?_spliced] at hm
    obtain ⟨k', hshape⟩ := shaped_layer hlayer
    have hkind := hshape.forms.kind?
    have hsame : m'.kind? = shape.kind? := (Node.traverse_eq_ok hread).1
    obtain rfl : k' = k := Option.some.inj (hkind.symm.trans (hsame.symm.trans hm))
    obtain ⟨n', st', hrun, -, hcell', hk', hkeeps⟩ :=
      runs_layer_regular reads_readSlot hshape hbinary hmember hread hs hcell hk
    refine ⟨n', st', runs_read h ?_, hcell', hk', hkeeps⟩
    rw [readInto, Slot.whole, readSlot_eq hlayer hkind, ← hm, hcheck]
    exact (runs_refilled_self hcell hk).lift.bind (hrun.bind ((runs_ok ()).bind (runs_pure _)))

/-- The parameters and the statements of a function come to be the same if one list holds
both: it is refilled twice. -/
theorem read_sharedList (h : Exchange.read j = .ok (.node (.functionExpression i p b)))
    (hs : st.Sane [a])
    (hcell : st.cells[a]? = some (.node (.functionExpression id list list))) :
    ∃ st' i' t, Runs (read j (.ref a)) st (.ref a) st' ∧
      st'.tree (.ref a) = .node (.functionExpression i' t t) := by
  obtain ⟨n', st', hrun, hcell', hk', hkeeps⟩ :=
    read_keepsLists h rfl (by decide) (by decide) hs hcell rfl
  have hparams := hkeeps .params list rfl (by simp [Node.fields])
  have hbody := hkeeps .body list rfl (by simp [Node.fields])
  cases n' with
  | functionExpression id' params body =>
    obtain rfl : list = params := by simpa [Node.fields] using hparams
    obtain rfl : list = body := by simpa [Node.fields] using hbody
    let resolve := Item.resolve (st'.treeAt st'.cells.size)
    refine ⟨st', resolve id', resolve list, hrun, ?_⟩
    rw [tree, Item.resolve, treeAt, hcell']
    rfl
  | _ => cases hk'

/-- That nodes are not reached twice is not enough: one list for the parameters and for the
statements of a function is lost to the statements. -/
theorem read_inPlace_sharedList :
    ∃ fresh st₀' st',
      Runs (read (functionObject [debuggerObject, debuggerObject]) .missing) {} fresh st₀' ∧
      (functionStore 5 5).Sane [6] ∧
      (∀ x n, (functionStore 5 5).Leads 6 x →
        (functionStore 5 5).cells[x]? = some (.node n) → x = 6) ∧
      Runs (read (functionObject [debuggerObject, debuggerObject]) (.ref 6)) (functionStore 5 5)
        (.ref 6) st' ∧
      st'.tree (.ref 6) ≠ st₀'.tree fresh := by
  have hs : (functionStore 5 5).Sane [6] := sane_functionStore (by decide) (by decide)
  obtain ⟨fresh, st₀', hfresh, -⟩ := fills_readInto read_functionObject {} .missing sane_nil
  obtain ⟨st', i, t, hrun, htree⟩ := read_sharedList read_functionObject hs rfl
  refine ⟨fresh, st₀', st', hfresh, hs, eq_of_leads_sharedList, hrun, fun heq => ?_⟩
  have hread := (read_of_fresh hfresh).symm.trans read_functionObject
  rw [← heq, htree] at hread
  simp only [Except.ok.injEq, Tree.node.injEq, Node.functionExpression.injEq] at hread
  exact absurd (hread.2.1.symm.trans hread.2.2) (by simp)

end Sharing

section Failure

/-- A read in place that fails has changed nothing, and it fails as the read does that has no
node to read into. Once that succeeds, refilling the node does. -/
theorem read_atomic (hs : st.Sane [a]) :
    (∀ e st', (read j (.ref a)).run.run st = (.error e, st') →
      st' = st ∧ ∀ st₀, ∃ st₀', (read j .missing).run.run st₀ = (.error e, st₀')) ∧
    ∀ st₀ fresh st₀', Runs (read j .missing) st₀ fresh st₀' →
      ∃ item st', Runs (readInto j (.ref a)) st item st' := by
  constructor
  · intro e st' h
    cases hread : Exchange.read j with
    | error cause =>
      rw [read_ref, hread] at h
      obtain ⟨rfl, rfl⟩ : e = .read cause ∧ st' = st := by
        cases h
        exact ⟨rfl, rfl⟩
      exact ⟨rfl, fun st₀ => breaks_readInto hread st₀ .missing sane_nil⟩
    | ok t =>
      obtain ⟨item, st₁, hrun, -⟩ := fills_readInto hread st (.ref a) hs
      cases (runs_read hread hrun).symm.trans h
  · intro st₀ fresh st₀' hfresh
    obtain ⟨item, st', hrun, -⟩ := fills_readInto (read_of_fresh hfresh) st (.ref a) hs
    exact ⟨item, st', hrun⟩

theorem read_atomic_notAnObject :
    ∃ e st', (read (functionObject [debuggerObject, .bool true]) (.ref 6)).run.run
        (functionStore 3 4) = (.error e, st') ∧
      st' = functionStore 3 4 ∧
      ∃ st₀', (read (functionObject [debuggerObject, .bool true]) .missing).run.run {} =
        (.error e, st₀') := by
  have hs : (functionStore 3 4).Sane [6] := sane_functionStore (by decide) (by decide)
  have hfails : (read (functionObject [debuggerObject, .bool true]) (.ref 6)).run.run
      (functionStore 3 4) = (.error (.read .notAnObject), functionStore 3 4) := by
    rw [read_ref, read_brokenFunction]
    rfl
  obtain ⟨hunchanged, hsame⟩ := (read_atomic hs).1 _ _ hfails
  exact ⟨_, _, hfails, hunchanged, hsame {}⟩

end Failure

end ScriptTree.Store
