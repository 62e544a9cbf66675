import ScriptTree.Proofs.Store.Filling

/-!
Making nodes. What stands in a slot is refilled if it is of the kind that is read there;
otherwise a node of the kind is made, whose lists and blocks are new.
-/

namespace ScriptTree.Store

variable {st st' : Store} {roots : List Nat}

/-- A list is gone through, and every step keeps an invariant of what was made. -/
theorem runs_mapM {ε α β : Type} {f : α → ExceptT ε (StateM Store) β} {r : α → β → Prop}
    {P : List β → Store → Prop} {xs : List α}
    (hstep : ∀ x ∈ xs, ∀ made st, P made st →
      ∃ y st', Runs (f x) st y st' ∧ r x y ∧ P (made ++ [y]) st')
    (made : List β) (h : P made st) :
    ∃ ys st', Runs (xs.mapM f) st ys st' ∧ List.Forall₂ r xs ys ∧ P (made ++ ys) st' := by
  induction xs generalizing st made with
  | nil => exact ⟨[], st, runs_pure _, .nil, by simpa using h⟩
  | cons x xs ih =>
    obtain ⟨y, st₁, hrun, hr, hy⟩ := hstep x List.mem_cons_self made st h
    obtain ⟨ys, st₂, hruns, hrs, hys⟩ :=
      ih (fun z hz => hstep z (List.mem_cons_of_mem _ hz)) (made ++ [y]) hy
    refine ⟨y :: ys, st₂, ?_, .cons hr hrs, by simpa using hys⟩
    rw [List.mapM_cons]
    exact hrun.bind (hruns.bind (runs_pure _))

theorem takes_atom (a : Atom) : st.Takes (.atom a) (.atom a) := by
  unfold Takes
  split <;> simp_all [Item.ofMember]

theorem fits_block {a : Nat} (h : st.sortAt a = some .list) :
    st.Fits (.node (.blockStatement (.ref a))) := by
  intro n k hn hk f item hitem
  obtain rfl := Cell.node.inj hn
  obtain rfl := Option.some.inj hk
  obtain ⟨rfl, rfl⟩ : f = .body ∧ item = .ref a := by simpa [Node.fields] using hitem
  exact ⟨a, rfl, h⟩

theorem refills_list (st : Store) :
    Refills st [] [st.cells.size] ⟨st.cells.push (.list [])⟩ := by
  have h : Refills st [] ([] ++ []) st := .drop st []
  exact h.alloc rfl (fits_list _ _)

theorem refills_block (st : Store) :
    Refills st [] [st.cells.size + 1]
      ⟨(st.cells.push (.list [])).push (.node (.blockStatement (.ref st.cells.size)))⟩ := by
  have h : Refills st [] ([st.cells.size] ++ []) _ := refills_list st
  have hblock := h.alloc (by simp [Cell.refs, Node.fields, Item.refs])
    (fits_block (sortAt_eq cells_push_self))
  rwa [size_push] at hblock

/-- A default is made beside what was made before. -/
theorem runs_makeDefault {st₀ : Store} (d : Default) (h : Refills st₀ [] roots st) :
    ∃ item st', Runs (Edit.makeDefault d) st item st' ∧ Evolves st st' ∧
      Refills st₀ [] (roots ++ item.refs) st' ∧ st'.Takes d item := by
  cases d with
  | missing => exact ⟨_, st, runs_pure _, .refl st, by simpa [Item.refs] using h, trivial⟩
  | atom a => exact ⟨_, st, runs_pure _, .refl st, by simpa [Item.refs] using h, takes_atom a⟩
  | emptyChoice =>
    exact ⟨_, st, runs_pure _, .refl st, by simpa [Item.refs, Item.choiceRefs] using h, _, rfl⟩
  | emptyList =>
    have hlist := refills_list st
    exact ⟨_, _, runs_alloc, hlist.evolves, h.grown sane_nil hlist, _, rfl,
      sortAt_eq cells_push_self⟩
  | emptyBlock =>
    have hblock := refills_block st
    have hsize : (st.cells.push (.list [])).size = st.cells.size + 1 := Array.size_push _
    refine ⟨_, _, runs_alloc.bind runs_alloc, hblock.evolves, ?_, _, rfl,
      sortAt_eq cells_push_self⟩
    rw [Item.refs, hsize]
    exact h.grown sane_nil hblock

structure Made (st : Store) (k : Kind) (made : List (Field × Item)) (st' : Store) : Prop where
  refills : Refills st [] (made.flatMap fun value => value.2.refs) st'
  takes : ∀ value ∈ made, st'.Takes (k.default value.1) value.2

theorem Made.step {st₁ : Store} {k : Kind} {made : List (Field × Item)} (h : Made st k made st₁)
    (f : Field) : ∃ item st₂, Runs (Edit.makeDefault (k.default f)) st₁ item st₂ ∧
      Made st k (made ++ [(f, item)]) st₂ := by
  obtain ⟨item, st₂, hrun, hevolves, hrefills, htakes⟩ := runs_makeDefault (k.default f) h.refills
  refine ⟨item, st₂, hrun, by simpa using hrefills, fun value hvalue => ?_⟩
  rcases List.mem_append.mp hvalue with hvalue | hvalue
  · exact (h.takes value hvalue).mono hevolves.sorts
  · rw [List.mem_singleton.mp hvalue]
    exact htakes

theorem kind?_node {α : Type} (k : Kind) (value : Field → α) : (k.node value).kind? = some k := by
  cases k <;> rfl

theorem eq_of_mem_ordered {k : Kind} {entry : Field × Field} (h : entry ∈ (k.node id).ordered) :
    entry.2 = entry.1 := by
  have hnode : k.node id = (k.node id).mapFields fun f _ => f := by
    rw [Node.mapFields_node]
    rfl
  rw [(Node.perm_ordered _).mem_iff, hnode, Node.fields_mapFields] at h
  obtain ⟨entry', -, rfl⟩ := List.mem_map.mp h
  rfl

/-- A node of a kind is made. -/
theorem runs_make (st : Store) (k : Kind) :
    ∃ a n st', Runs (Edit.make k fun _ => none) st (.ref a) st' ∧
      Refills st [] [a] st' ∧ st'.cells[a]? = some (.node n) ∧ n.kind? = some k := by
  have hstep (entry : Field × Field) (hentry : entry ∈ (k.node id).ordered)
      (made : List (Field × Item)) (st₁ : Store) (hmade : Made st k made st₁) :
      ∃ value st₂,
        Runs (do return (entry.1, ← Edit.makeDefault (k.default entry.2))) st₁ value st₂ ∧
        value.1 = entry.1 ∧ Made st k (made ++ [value]) st₂ := by
    rw [eq_of_mem_ordered hentry]
    obtain ⟨item, st₂, hrun, hmade₂⟩ := hmade.step entry.1
    exact ⟨_, st₂, hrun.bind (runs_pure _), rfl, hmade₂⟩
  obtain ⟨values, st', hrun, hforall, hmade⟩ :=
    runs_mapM hstep [] ⟨.drop st [], by simp⟩
  rw [List.nil_append] at hmade
  have hkeys : values.map Prod.fst = (k.node id).ordered.map Prod.fst := by
    rw [← List.forall₂_eq_eq_eq, List.forall₂_map_left_iff, List.forall₂_map_right_iff]
    exact hforall.flip
  have hfields := Node.fields_lookup hkeys
  let made : Node Item := (k.node id).mapFields fun g _ => Node.lookup values g
  have hkind : made.kind? = some k := (Node.kind?_mapFields _ _).trans (kind?_node k id)
  have hrefs : (Cell.node made).refs.Perm (values.flatMap fun value => value.2.refs) :=
    hfields.flatMap_right _
  have hfits : st'.Fits (.node made) := by
    intro n k' hn hk' f item hitem
    obtain rfl := Cell.node.inj hn
    obtain rfl : k = k' := Option.some.inj (hkind.symm.trans hk')
    exact hmade.takes _ (hfields.mem_iff.mp hitem)
  have halloc : Refills st [] ((Cell.node made).refs ++ []) st' := by
    simpa using hmade.refills.perm hrefs
  refine ⟨_, made, _, ?_, halloc.alloc rfl hfits, cells_push_self, hkind⟩
  have hmake : Edit.make k (fun _ => none) = ((k.node id).traverse fun field =>
      Edit.makeDefault (k.default field)) >>= Edit.node := rfl
  rw [hmake, Node.traverse_eq]
  exact (hrun.bind (runs_pure made)).bind runs_alloc

theorem exists_of_view {k : Kind} {old : Item} (h : (st.view old).kind? = some k) :
    ∃ a n, old = .ref a ∧ st.cells[a]? = some (.node n) ∧ n.kind? = some k := by
  cases old with
  | ref a =>
    rw [view] at h
    split at h
    · next n hcell => exact ⟨a, n, rfl, hcell, h⟩
    all_goals cases h
  | _ => cases h

/-- A node of the kind is refilled itself. -/
theorem runs_refilled_self {k : Kind} {a : Nat} {n : Node Item}
    (hcell : st.cells[a]? = some (.node n)) (hk : n.kind? = some k) :
    Runs (refilled k (.ref a)) st (.ref a) st := by
  have hkind : (st.view (.ref a)).kind? = some k := by rwa [view_of_node hcell]
  refine runs_view.bind ?_
  rw [if_pos hkind]
  exact runs_pure _

/-- The node that is refilled is there: it stood in the slot or is made. -/
theorem runs_refilled (k : Kind) {old : Item} (hs : st.Sane old.refs) :
    ∃ a n st', Runs (refilled k old) st (.ref a) st' ∧ Refills st old.refs [a] st' ∧
      st'.cells[a]? = some (.node n) ∧ n.kind? = some k := by
  by_cases hkind : (st.view old).kind? = some k
  · obtain ⟨a, n, rfl, hcell, hk⟩ := exists_of_view hkind
    exact ⟨a, n, st, runs_refilled_self hcell hk, .refl hs, hcell, hk⟩
  · obtain ⟨a, n, st', hrun, hrefills, hcell, hk⟩ := runs_make st k
    refine ⟨a, n, st', runs_view.bind ?_, hrefills.of_subperm (List.nil_subperm), hcell, hk⟩
    rw [if_neg hkind]
    exact hrun

end ScriptTree.Store
