import ScriptTree.Proofs.Store.InPlace
import ScriptTree.Proofs.Store.Keeping

/-!
Which nodes are the same after reading in place. A node that is read into is the result if it is
of the kind that is read, and nothing is changed otherwise. In every node of the result that was
there before, what stands in a slot is what stood there if that is of the kind that is read there,
and new otherwise. The lists come to the lengths that are read, which again takes that they are not
shared.
-/

namespace ScriptTree.Store

open Exchange

variable {st st' : Store} {a : Nat} {k : Kind} {n : Node Item}

section Slots

variable {bound : Nat} {j : Json} {m : Node Tree} {shape : Layer j}

/-- A node is refilled with what its layer is read as, and what it reaches is kept. -/
theorem keeps_layer {f : Slot (sizeOf j) → Item → Refill Item} (hf : ∀ slot, Reads f slot)
    (hkeeps : ∀ slot, Preserves f slot) (hshape : Shaped k shape)
    (hread : (shape.traverse fun branch => branch.read Exchange.readSlot) = .ok m)
    (hs : st.Sane [a]) (ho : st.Owned [a]) (hcell : st.cells[a]? = some (.node n))
    (hk : n.kind? = some k) (hrun : Runs (refillNode Slot.admits f (.ref a) shape) st () st') :
    KeepsWithin st st' [a] := by
  by_cases hbinary : k = .binaryExpression
  · subst hbinary
    obtain ⟨st₁, hrun₁, hfilled, slot, op, hkept⟩ :=
      runs_layer_operands hf hshape hread hs hcell hk
    obtain ⟨-, rfl⟩ := hrun.unique hrun₁
    exact keeps_operands hkeeps hkept hfilled.refills.evolves hs ho hcell
  · by_cases hmember : k = .memberExpression
    · subst hmember
      obtain ⟨st₁, hrun₁, hfilled, slot, computed, hkept⟩ :=
        runs_layer_accesses hf hshape hread hs hcell hk
      obtain ⟨-, rfl⟩ := hrun.unique hrun₁
      exact keeps_accesses hkeeps hkept hfilled.refills.evolves hfilled.indices hs ho hcell
    · obtain ⟨st₁, hrun₁, hkept⟩ := keeps_refillNode hkeeps hshape.forms.kind? hbinary hmember
        (fillsBranch_of_traverse hf hshape hread) hs ho hcell hk
      obtain ⟨-, rfl⟩ := hrun.unique hrun₁
      exact hkept

/-- What is read without parts of a store is kept in no way. -/
theorem preserves_pure {slot : Slot bound}
    (h : ∀ old, ∃ value, readSlot slot old = pure value ∧ value.refs = []) :
    Preserves readSlot slot := by
  intro st old item st' hs _ hrun
  obtain ⟨value, hvalue, hrefs⟩ := h old
  rw [hvalue] at hrun
  obtain ⟨rfl, rfl⟩ := hrun.unique (runs_pure value)
  have hrefills : Refills st' [] item.refs st' := by
    rw [hrefs]
    exact .drop st' []
  exact ⟨kept_fresh hrefills hs (not_sameKind_scalar hrefs), fun _ => hrefills⟩

theorem preserves_scalar (value : Option Atom) :
    Preserves readSlot (.scalar value : Slot bound) := by
  refine preserves_pure fun old => ?_
  cases value with
  | none => exact ⟨.missing, by rw [readSlot], rfl⟩
  | some a => exact ⟨.atom a, by rw [readSlot], rfl⟩

theorem preserves_regex (pattern : Text) (flags : RegexFlags) :
    Preserves readSlot (.regex pattern flags : Slot bound) :=
  preserves_pure fun _ => ⟨_, by rw [readSlot], rfl⟩

theorem kind?_view_of_sortAt {kind? : Option Kind} (h : st.sortAt a = some (.node kind?)) :
    (st.view (.ref a)).kind? = kind? := by
  obtain ⟨cell, hcell, hsort⟩ := Option.map_eq_some_iff.mp h
  cases cell with
  | node n =>
    rw [view_of_node hcell]
    exact CellSort.node.inj hsort
  | _ => cases hsort

variable {expects : Expectation} {hlt : sizeOf j < bound}

/-- An object is read into a node of its kind, or into a new one. -/
theorem preserves_json (ih : ∀ slot : Slot (sizeOf j), Preserves readSlot slot) :
    Preserves readSlot (.json j expects hlt) := by
  intro st old item st' hs ho hrun
  cases hread : readAs expects j with
  | error e =>
    obtain ⟨st₁, hbreaks⟩ := fails_json (fun slot => reads_readSlot slot) hread st old hs
    cases hrun.symm.trans hbreaks
  | ok t =>
    rcases readAs_eq_ok.mp hread with ⟨hlayer, hcheck, rfl⟩ | ⟨shape, m, hlayer, hm, hcheck, rfl⟩
    · have hmissing : readSlot (.json j expects hlt) old = pure .missing := by
        rw [readSlot, hlayer, liftM_ok_bind]
        simp only [hcheck]
        rfl
      rw [hmissing] at hrun
      obtain ⟨rfl, rfl⟩ := hrun.unique (runs_pure Item.missing)
      exact ⟨kept_fresh (.drop st' []) hs (not_sameKind_scalar rfl), fun _ => .drop st' []⟩
    · obtain ⟨k, hshape⟩ := shaped_layer hlayer
      have hkind := hshape.forms.kind?
      have hm' : m.kind? = some k := (Node.traverse_eq_ok hm).1.trans hkind
      rw [readSlot_eq hlayer hkind, ← hm', hcheck] at hrun
      have hparts := fun slot : Slot (sizeOf j) => reads_readSlot slot
      by_cases hold : (st.view old).kind? = some k
      · obtain ⟨a, n, rfl, hcell, hk⟩ := exists_of_view hold
        obtain ⟨st₁, hrun₁, hfilled⟩ := runs_layer hparts hshape hm hs hcell hk
        obtain ⟨rfl, rfl⟩ := hrun.unique ((runs_refilled_self hcell hk).lift.bind
          (hrun₁.bind ((runs_ok ()).bind (runs_pure _))))
        exact ⟨kept_self hcell hfilled.refills
          (keeps_layer hparts ih hshape hm hs ho hcell hk hrun₁), fun hne => absurd rfl hne⟩
      · obtain ⟨a, n, st₁, hrun₁, hmade, hcell, hk⟩ := runs_make st k
        have hrefilled : Runs (refilled k old) st (.ref a) st₁ := by
          refine runs_view.bind ?_
          rw [if_neg hold]
          exact hrun₁
        obtain ⟨st₂, hrun₂, hfilled⟩ :=
          runs_layer hparts hshape hm (hmade.sane sane_nil) hcell hk
        obtain ⟨rfl, rfl⟩ := hrun.unique (hrefilled.lift.bind
          (hrun₂.bind ((runs_ok ()).bind (runs_pure _))))
        have hrefills : Refills st [] [a] st' := hmade.trans hfilled.refills
        refine ⟨kept_fresh hrefills hs ?_, fun _ => hrefills⟩
        rintro ⟨k', hk', hkind'⟩
        have hsort := hfilled.refills.evolves.sorts a _ (sortAt_eq hcell)
        rw [kind?_view_of_sortAt hsort, hk] at hkind'
        exact hold (hk'.trans hkind'.symm)

/-- Reading a slot keeps what it may of what stood there. -/
theorem preserves_readSlot (slot : Slot bound) : Preserves readSlot slot := by
  -- The parts of an object are slots of a smaller bound: its own size.
  induction bound using Nat.strong_induction_on with
  | h bound ih =>
    cases slot with
    | scalar value => exact preserves_scalar value
    | regex pattern flags => exact preserves_regex pattern flags
    | json j expects hlt => exact preserves_json fun slot => ih (sizeOf j) hlt slot

end Slots

section InPlace

variable {st₀ st₀' : Store} {fresh : Item} {j : Json}

/-- A tree is of the kind of what stands for it. -/
theorem kind?_tree (st : Store) (item : Item) : (st.tree item).kind? = (st.view item).kind? := by
  cases item with
  | ref a =>
    rw [tree, Item.resolve, treeAt, view]
    split
    · exact Node.kind?_mapFields _ _
    all_goals rfl
  | choice c => rfl
  | _ => rfl

/-- Reading in place gives the node that is read into if and only if it is of the kind that is
read, and changes nothing that was there before otherwise. Every node of the result that was there
before is kept: what stood in a slot of it stands there still if and only if it is of the kind of
what stands there now, as it is read, and everything else is new. -/
theorem read_keepsNodes (hfresh : Runs (read j .missing) st₀ fresh st₀') (hs : st.Sane [a])
    (ho : st.Owned [a]) :
    ∃ item st', Runs (read j (.ref a)) st item st' ∧ st'.tree item = st₀'.tree fresh ∧
      (item = .ref a ↔ SameKind st (.ref a) st₀' fresh) ∧
      (item ≠ .ref a → ∀ b, b < st.cells.size → st'.cells[b]? = st.cells[b]?) ∧
      KeepsWithin st st' item.refs := by
  have hread := read_of_fresh hfresh
  obtain ⟨item, st', hrun, hfilled⟩ := fills_readInto hread st (.ref a) hs
  obtain ⟨hkept, hnew⟩ := preserves_readSlot (.whole j) st (.ref a) item st' hs ho hrun
  have htree := (hfilled.shows ho).tree_eq
  have hsame : item = .ref a ↔ SameKind st (.ref a) st' item := hkept.part.same_iff a rfl
  refine ⟨item, st', runs_read hread hrun, htree, ?_, fun hne b hb => ?_, hkept.within⟩
  · rw [hsame, SameKind, SameKind, ← kind?_tree st', htree, kind?_tree]
  · exact (hnew hne).cells_grown hb

theorem read_keepsNodes_separateLists :
    ∃ fresh st₀' item st',
      Runs (read (functionObject [debuggerObject, debuggerObject]) .missing) {} fresh st₀' ∧
      Runs (read (functionObject [debuggerObject, debuggerObject]) (.ref 6)) (functionStore 3 4)
        item st' ∧
      st'.tree item = st₀'.tree fresh ∧ item = .ref 6 ∧
      KeepsWithin (functionStore 3 4) st' item.refs := by
  obtain ⟨fresh, st₀', hfresh, hfilled⟩ := fills_readInto read_functionObject {} .missing sane_nil
  have hs : (functionStore 3 4).Sane [6] := sane_functionStore (by decide) (by decide)
  have hkind : SameKind (functionStore 3 4) (.ref 6) st₀' fresh := by
    refine ⟨.functionExpression, rfl, ?_⟩
    rw [← kind?_tree, (hfilled.shows owned_nil).tree_eq]
    rfl
  obtain ⟨item, st', hrun, htree, hsame, -, hkept⟩ :=
    read_keepsNodes hfresh hs owned_functionStore
  exact ⟨fresh, st₀', item, st', hfresh, hrun, htree, hsame.mpr hkind, hkept⟩

/-- That nodes are not reached twice is not enough for the lists to come to the lengths that are
read: one list for the parameters and for the statements of a function has one length. -/
theorem read_keepsNodes_sharedList :
    ∃ st' i params body, (functionStore 5 5).Sane [6] ∧
      (∀ x n, (functionStore 5 5).Leads 6 x →
        (functionStore 5 5).cells[x]? = some (.node n) → x = 6) ∧
      Exchange.read (functionObject [debuggerObject, debuggerObject]) =
        .ok (.node (.functionExpression i (.list params) (.list body))) ∧
      Runs (read (functionObject [debuggerObject, debuggerObject]) (.ref 6)) (functionStore 5 5)
        (.ref 6) st' ∧
      ¬∃ i' params' body', st'.tree (.ref 6) =
        .node (.functionExpression i' (.list params') (.list body')) ∧
        params'.length = params.length ∧ body'.length = body.length := by
  have hs : (functionStore 5 5).Sane [6] := sane_functionStore (by decide) (by decide)
  obtain ⟨st', i, t, hrun, htree⟩ := read_sharedList read_functionObject hs rfl
  refine ⟨st', _, _, _, hs, eq_of_leads_sharedList, read_functionObject, hrun, ?_⟩
  rintro ⟨i', params', body', htree', hparams, hbody⟩
  rw [htree] at htree'
  simp only [Tree.node.injEq, Node.functionExpression.injEq] at htree'
  obtain ⟨-, rfl, hlists⟩ := htree'
  obtain rfl := Tree.list.inj hlists
  rw [hparams] at hbody
  simp at hbody

end InPlace

end ScriptTree.Store
