import ScriptTree.Store.Reading
import ScriptTree.Proofs.Outcome

/-!
Runs of changes that succeed. A change that reads or writes a cell succeeds if the cell is
of the right sort, and each has one lemma that says what it gives and leaves behind.
-/

namespace ScriptTree.Store

variable {ε α β : Type} {st st₁ st₂ : Store}

def Runs (change : ExceptT ε (StateM Store) α) (st : Store) (result : α) (st' : Store) : Prop :=
  change.run.run st = (.ok result, st')

section Sequences

theorem runs_pure (a : α) : Runs (pure a : ExceptT ε (StateM Store) α) st a st := rfl

/-- A change has one outcome. -/
theorem Runs.unique {change : ExceptT ε (StateM Store) α} {x y : α} (h : Runs change st x st₁)
    (h' : Runs change st y st₂) : x = y ∧ st₁ = st₂ := by
  have heq := h.symm.trans h'
  exact ⟨Except.ok.inj (Prod.mk.inj heq).1, (Prod.mk.inj heq).2⟩

theorem Runs.bind {change : ExceptT ε (StateM Store) α} {next : α → ExceptT ε (StateM Store) β}
    {a : α} {b : β} (h : Runs change st a st₁) (hnext : Runs (next a) st₁ b st₂) :
    Runs (change >>= next) st b st₂ := by
  unfold Runs at *
  rw [ExceptT.run_bind, StateT.run_bind, h]
  exact hnext

/-- A change of a store is part of refilling. -/
theorem Runs.lift {change : Edit α} {a : α} (h : Runs change st a st₁) :
    Runs (liftM change : Refill α) st a st₁ := by
  unfold Runs at *
  have hmap : (liftM change : Refill α).run.run st =
      ((change.run.run st).1.mapError RefillError.misuse, (change.run.run st).2) := rfl
  rw [hmap, h]
  rfl

theorem runs_ok (a : α) :
    Runs (liftM (Except.ok a : Except Exchange.ReadError α) : Refill α) st a st := rfl

end Sequences

section Cells

variable {a : Nat} {n : Node Item} {items : List Item} {item value : Item} {field : Field}

theorem runs_store : Runs Edit.store st st st := rfl

theorem runs_view : Runs (Edit.view item) st (st.view item) st := rfl

theorem view_of_node (h : st.cells[a]? = some (.node n)) : st.view (.ref a) = .node n := by
  simp [view, h]

theorem view_of_list (h : st.cells[a]? = some (.list items)) :
    st.view (.ref a) = .list items := by
  simp [view, h]

theorem node?_eq (h : st.cells[a]? = some (.node n)) : st.node? (.ref a) = some n := by
  simp [node?, h]

theorem exists_of_node? (h : st.node? item = some n) :
    ∃ a, item = .ref a ∧ st.cells[a]? = some (.node n) := by
  cases item with
  | ref a =>
    refine ⟨a, rfl, ?_⟩
    simp only [node?] at h
    split at h
    · next hcell => rw [hcell, Option.some.inj h]
    · cases h
  | _ => cases h

theorem list?_eq (h : st.cells[a]? = some (.list items)) : st.list? (.ref a) = some items := by
  simp [list?, h]

theorem runs_part (h : st.cells[a]? = some (.node n)) (hvalue : n.get? field = some value) :
    Runs (Edit.part field (.ref a)) st value st := by
  refine runs_view.bind ?_
  rw [view_of_node h, View.part, hvalue]
  rfl

theorem runs_size (h : st.cells[a]? = some (.list items)) :
    Runs (Edit.size (.ref a)) st items.length st := by
  refine runs_view.bind ?_
  rw [view_of_list h]
  rfl

theorem runs_numbered (h : st.cells[a]? = some (.list items)) :
    Runs (Edit.numbered (.ref a)) st items st := by
  refine runs_view.bind ?_
  rw [view_of_list h]
  rfl

theorem runs_items (h : st.cells[a]? = some (.list items)) :
    Runs (Edit.items (.ref a)) st items st := by
  refine runs_view.bind ?_
  rw [view_of_list h]
  rfl

theorem runs_setPart (h : st.cells[a]? = some (.node n)) :
    Runs (Edit.setPart field (.ref a) value) st () (st.set a (.node (n.set field value))) := by
  refine runs_store.bind ?_
  rw [node?_eq h]
  rfl

theorem runs_modifyList {misuse : String → Misuse} {change : List Item → List Item}
    (h : st.cells[a]? = some (.list items)) :
    Runs (Edit.modifyList misuse (.ref a) change) st () (st.set a (.list (change items))) := by
  refine runs_store.bind ?_
  rw [list?_eq h]
  rfl

theorem runs_setItem {i : Nat} (h : st.cells[a]? = some (.list items)) (hi : i < items.length) :
    Runs (Edit.setItem (.ref a) i item) st () (st.set a (.list (items.set i item))) := by
  refine runs_store.bind ?_
  rw [list?_eq h]
  simp only [Nat.not_le.mpr hi, ↓reduceIte]
  exact runs_modifyList h

theorem runs_append (h : st.cells[a]? = some (.list items)) :
    Runs (Edit.append (.ref a) item) st () (st.set a (.list (items ++ [item]))) :=
  runs_modifyList h

theorem runs_extend {b : Nat} {added : List Item} (h : st.cells[a]? = some (.list items))
    (hadded : st.cells[b]? = some (.list added)) :
    Runs (Edit.extend (.ref a) (.ref b)) st () (st.set a (.list (items ++ added))) := by
  refine runs_store.bind ?_
  rw [list?_eq h]
  exact (runs_items hadded).bind (runs_modifyList h)

theorem runs_equal {other : Item} :
    Runs (Edit.equal item other) st
      (item.isSame other || (st.tree item).equal (st.tree other)) st := rfl

theorem runs_alloc {cell : Cell} :
    Runs (Edit.alloc cell) st (.ref st.cells.size) ⟨st.cells.push cell⟩ := rfl

end Cells

end ScriptTree.Store
