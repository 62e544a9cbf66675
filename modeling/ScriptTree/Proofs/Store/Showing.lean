import ScriptTree.Proofs.Store.Regions
import ScriptTree.Proofs.Exchange.Canonical
import ScriptTree.Proofs.Fields

/-!
The tree that an item stands for, as a relation. It is followed through the store cell by
cell, so it stays as long as the cells that the item reaches do, and it is the tree that is
read off by following addresses to a depth: on a way through the store the trees get
smaller, so no address is passed twice.
-/

namespace ScriptTree

namespace Store

variable {st st' : Store} {item : Item} {t : Tree} {a : Nat} {roots olds news : List Nat}

inductive Shows (st : Store) : Item → Tree → Prop
  | missing : Shows st .missing .missing
  | atom (a : Atom) : Shows st (.atom a) (.atom a)
  | regex {pattern flags : Item} {s t : Tree} (hpattern : Shows st pattern s)
    (hflags : Shows st flags t) : Shows st (.regex pattern flags) (.regex s t)
  | empty : Shows st (.choice .empty) (.choice .empty)
  | first {item : Item} {t : Tree} (h : Shows st item t) :
    Shows st (.choice (.first item)) (.choice (.first t))
  | second {item : Item} {t : Tree} (h : Shows st item t) :
    Shows st (.choice (.second item)) (.choice (.second t))
  | list {a : Nat} {items : List Item} {trees : List Tree}
    (hcell : st.cells[a]? = some (.list items)) (hlength : items.length = trees.length)
    (h : ∀ item t, (item, t) ∈ items.zip trees → Shows st item t) : Shows st (.ref a) (.list trees)
  | node {a : Nat} {n : Node Item} (trees : Field → Tree) (hcell : st.cells[a]? = some (.node n))
    (h : ∀ f item, (f, item) ∈ n.fields → Shows st item (trees f)) :
    Shows st (.ref a) (.node (n.mapFields fun f _ => trees f))

namespace Shows

theorem unique {s : Tree} (h : Shows st item t) (h' : Shows st item s) : t = s := by
  induction h generalizing s with
  | missing =>
    cases h'
    rfl
  | atom a =>
    cases h'
    rfl
  | regex _ _ ihp ihf =>
    cases h' with
    | regex hp hf => rw [ihp hp, ihf hf]
  | empty =>
    cases h'
    rfl
  | first _ ih =>
    cases h' with
    | first h' => rw [ih h']
  | second _ ih =>
    cases h' with
    | second h' => rw [ih h']
  | @list a items trees hcell hlength h ih =>
    cases h' with
    | @list _ items' trees' hcell' hlength' h' =>
      obtain rfl : items = items' := by simpa using hcell.symm.trans hcell'
      congr 1
      refine List.ext_getElem (hlength.symm.trans hlength') fun i hi hi' => ?_
      have hi'' : i < items.length := by omega
      refine ih (items[i]) (trees[i]) ?_ (h' (items[i]) (trees'[i]) ?_)
      · exact List.mem_of_getElem? (i := i) (by simp [hi, hi''])
      · exact List.mem_of_getElem? (i := i) (by simp [hi', hi''])
    | node _ hcell' _ => simp [hcell] at hcell'
  | @node a n trees hcell h ih =>
    cases h' with
    | list hcell' _ _ => simp [hcell] at hcell'
    | @node _ n' trees' hcell' h' =>
      obtain rfl : n = n' := by simpa using hcell.symm.trans hcell'
      congr 1
      exact Node.mapFields_congr fun f x hx => ih f x hx (h' f x hx)

theorem meets_item {cell : Cell} {roots : List Nat} {x : Nat} (hcell : st.cells[a]? = some cell)
    (hsub : roots ⊆ cell.refs) (hx : st.Meets roots x) : st.Meets [a] x := by
  rw [meets_singleton, leads_iff, refs_eq hcell]
  exact .inr (hx.mono hsub)

theorem refs_item {items : List Item} (h : item ∈ items) : item.refs ⊆ Cell.refs (.list items) :=
  fun _ hx => List.mem_flatMap.mpr ⟨item, h, hx⟩

theorem refs_field {n : Node Item} {f : Field} (h : (f, item) ∈ n.fields) :
    item.refs ⊆ Cell.refs (.node n) :=
  fun _ hx => List.mem_flatMap.mpr ⟨(f, item), h, hx⟩

/-- The tree stays as long as the cells that the item reaches do. -/
theorem congr (h : Shows st item t)
    (hcells : ∀ x, st.Meets item.refs x → st'.cells[x]? = st.cells[x]?) : Shows st' item t := by
  induction h with
  | missing => exact .missing
  | atom a => exact .atom a
  | regex _ _ ihp ihf =>
    refine .regex (ihp fun x hx => hcells x ?_) (ihf fun x hx => hcells x ?_)
    · exact hx.mono (List.subset_append_left _ _)
    · exact hx.mono (List.subset_append_right _ _)
  | empty => exact .empty
  | first _ ih => exact .first (ih hcells)
  | second _ ih => exact .second (ih hcells)
  | @list a items trees hcell hlength _ ih =>
    have hsame : st'.cells[a]? = some (.list items) := by
      rw [hcells a (meets_of_mem (by simp [Item.refs])), hcell]
    refine .list hsame hlength fun item t hmem => ih item t hmem fun x hx => ?_
    exact hcells x (meets_item hcell (refs_item (List.of_mem_zip hmem).1) hx)
  | @node a n trees hcell _ ih =>
    refine .node trees ?_ fun f item hmem => ih f item hmem fun x hx => ?_
    · rw [hcells a (meets_of_mem (by simp [Item.refs])), hcell]
    · exact hcells x (meets_item hcell (refs_field hmem) hx)

theorem set (h : Shows st item t) (hnot : ¬st.Meets item.refs a) (cell : Cell) :
    Shows (st.set a cell) item t :=
  h.congr fun _ hx => cells_set_ne fun hxa => hnot (hxa ▸ hx)

end Shows

/-- Addresses that were passed on the way to a tree: each stands for a larger tree. -/
structure Passed (st : Store) (passed : List Nat) (t : Tree) : Prop where
  nodup : passed.Nodup
  lt : ∀ a ∈ passed, a < st.cells.size
  larger : ∀ a ∈ passed, ∀ s, Shows st (.ref a) s → sizeOf t < sizeOf s

namespace Passed

variable {passed : List Nat} {s : Tree}

theorem smaller (h : Passed st passed t) (hle : sizeOf s ≤ sizeOf t) : Passed st passed s :=
  ⟨h.nodup, h.lt, fun a ha u hu => Nat.lt_of_le_of_lt hle (h.larger a ha u hu)⟩

/-- The next address is a new one. -/
theorem cons (h : Passed st passed t) (hshows : Shows st (.ref a) t) (ha : a < st.cells.size)
    (hlt : sizeOf s < sizeOf t) : Passed st (a :: passed) s := by
  refine ⟨List.nodup_cons.mpr ⟨fun hmem => ?_, h.nodup⟩, List.forall_mem_cons.mpr ⟨ha, h.lt⟩, ?_⟩
  · exact Nat.lt_irrefl _ (h.larger a hmem t hshows)
  · rw [List.forall_mem_cons]
    refine ⟨fun u hu => ?_, (h.smaller (Nat.le_of_lt hlt)).larger⟩
    rwa [← hshows.unique hu]

theorem length_le (h : Passed st passed t) : passed.length ≤ st.cells.size := by
  have hle := (h.nodup.subperm fun a ha => List.mem_range.mpr (h.lt a ha)).length_le
  rwa [List.length_range] at hle

end Passed

namespace Shows

theorem lt_of_cell {cell : Cell} (h : st.cells[a]? = some cell) : a < st.cells.size := by
  by_contra hnot
  rw [Array.getElem?_eq_none (Nat.not_lt.mp hnot)] at h
  cases h

/-- Following addresses to a depth that the store is not larger than gives the tree. -/
theorem resolve {passed : List Nat} {depth : Nat} (h : Shows st item t)
    (hpassed : Passed st passed t) (hdepth : st.cells.size < depth + passed.length) :
    item.resolve (st.treeAt depth) = t := by
  induction h generalizing passed depth with
  | missing => rfl
  | atom a => rfl
  | @regex _ _ s t _ _ ihp ihf =>
    rw [Item.resolve, ihp (hpassed.smaller (by simp; omega)) hdepth,
      ihf (hpassed.smaller (by simp)) hdepth]
  | empty => rfl
  | first _ ih =>
    rw [Item.resolve, Item.resolveChoice, ih (hpassed.smaller (by simp; omega)) hdepth]
  | second _ ih =>
    rw [Item.resolve, Item.resolveChoice, ih (hpassed.smaller (by simp; omega)) hdepth]
  | @list a items trees hcell hlength hitems ih =>
    have hle := hpassed.length_le
    obtain ⟨d, rfl⟩ : ∃ d, depth = d + 1 := ⟨depth - 1, by omega⟩
    rw [Item.resolve, treeAt, hcell]
    simp only [Tree.list.injEq]
    refine List.ext_getElem (by simpa using hlength) fun i hi hi' => ?_
    rw [List.getElem_map]
    have hi'' : i < items.length := by omega
    have hmem : (items[i], trees[i]) ∈ items.zip trees :=
      List.mem_of_getElem? (i := i) (by simp [hi', hi''])
    have hlt := List.sizeOf_lt_of_mem (List.of_mem_zip hmem).2
    refine ih _ _ hmem (hpassed.cons (.list hcell hlength hitems) (lt_of_cell hcell) ?_) ?_
    · simp
      omega
    · simp
      omega
  | @node a n trees hcell hfields ih =>
    have hle := hpassed.length_le
    obtain ⟨d, rfl⟩ : ∃ d, depth = d + 1 := ⟨depth - 1, by omega⟩
    rw [Item.resolve, treeAt, hcell]
    simp only [Node.map, Tree.node.injEq]
    refine Node.mapFields_congr fun f x hx => ?_
    have hmem : (f, trees f) ∈ (n.mapFields fun f _ => trees f).fields := by
      rw [Node.fields_mapFields]
      exact List.mem_map.mpr ⟨(f, x), hx, rfl⟩
    have hlt := sizeOf_field_lt hmem
    refine ih f x hx (hpassed.cons (.node trees hcell hfields) (lt_of_cell hcell) ?_) ?_
    · simp
      omega
    · simp
      omega

/-- The relation gives the tree that an item stands for. -/
theorem tree_eq (h : Shows st item t) : st.tree item = t :=
  h.resolve (⟨.nil, by simp, by simp⟩ : Passed st [] t) (by simp)

/-- The tree of an item stays if what is refilled is apart from it. -/
theorem refills {roots : List Nat} (h : Shows st item t) (hrefills : Refills st olds news st')
    (hs : st.Sane roots) (hapart : ∀ x, st.Meets roots x → ¬st.Meets olds x)
    (hsub : item.refs ⊆ roots) : Shows st' item t :=
  h.congr fun _ hx => hrefills.cells_eq hs hapart (hx.mono hsub)

theorem of_forall₂ {items : List Item} {trees : List Tree}
    (hcell : st.cells[a]? = some (.list items)) (h : List.Forall₂ (Shows st) items trees) :
    Shows st (.ref a) (.list trees) := by
  obtain ⟨hlength, hzip⟩ := List.forall₂_iff_zip.mp h
  exact .list hcell hlength fun item t hmem => hzip hmem

theorem eq_atom {a : Atom} (h : Shows st item (.atom a)) : item = .atom a := by
  cases h
  rfl

theorem exists_list {trees : List Tree} (h : Shows st item (.list trees)) :
    ∃ a items, item = .ref a ∧ st.cells[a]? = some (.list items) ∧
      List.Forall₂ (Shows st) items trees := by
  cases h with
  | list hcell hlength h =>
    exact ⟨_, _, rfl, hcell, List.forall₂_iff_zip.mpr ⟨hlength, fun hmem => h _ _ hmem⟩⟩

theorem exists_node {m : Node Tree} (h : Shows st item (.node m)) :
    ∃ a n, item = .ref a ∧ st.cells[a]? = some (.node n) ∧ n.kind? = m.kind? := by
  cases h with
  | node trees hcell h => exact ⟨_, _, rfl, hcell, (Node.kind?_mapFields _ _).symm⟩

/-- A node stands for a node, and its fields stand for the fields of that. -/
theorem of_node {n : Node Item} (h : Shows st (.ref a) t) (hcell : st.cells[a]? = some (.node n)) :
    ∃ trees : Field → Tree, t = .node (n.mapFields fun f _ => trees f) ∧
      ∀ f x, (f, x) ∈ n.fields → Shows st x (trees f) := by
  cases h with
  | list hcell' _ _ => simp [hcell] at hcell'
  | @node _ n' trees hcell' h =>
    obtain rfl : n = n' := by simpa using hcell.symm.trans hcell'
    exact ⟨trees, rfl, h⟩

/-- The tree of an item stays while cells are added. -/
theorem grown (h : Shows st item t) (hs : st.Sane item.refs) (hgrown : Refills st [] news st') :
    Shows st' item t :=
  h.refills hgrown hs (fun _ _ => meets_nil) (List.Subset.refl _)

end Shows

end Store

end ScriptTree
