import ScriptTree.Proofs.Store.Chains
import ScriptTree.Proofs.Store.Making

/-!
What stays when a node is refilled. What stands in a slot of it, in a field, in the value of a
choice or in an element of a list, stays if it is of the kind of what comes to stand there, and is
new otherwise. Lists stay, and so do the blocks of a try statement. Only chains differ: what is
added to a chain is new, and the object of a chain of accesses is what they come to be made on.
An action that fills slots and keeps what it may is given; then refilling the list, the field or
the node that the slots belong to does so too, provided that what is refilled is owned.
-/

namespace ScriptTree

open Exchange Relation

/-- The fields of chains in which more or less may stand than was read for them. -/
def Kind.folds : Kind → Field → Bool
  | .binaryExpression, .right => true
  | .memberExpression, .object => true
  | .memberExpression, .indices => true
  | _, _ => false

namespace Store

variable {st st₁ st₂ st' : Store} {a : Nat} {d : Default} {k : Kind} {n n' : Node Item}
  {old item : Item} {roots others : List Nat}

section Statements

/-- Both items refer to nodes of one kind, the first in one store and the second in another. -/
def SameKind (st : Store) (old : Item) (st' : Store) (item : Item) : Prop :=
  ∃ k, (st.view old).kind? = some k ∧ (st'.view item).kind? = some k

/-- A slot holds the node that it held if that is of the kind of what it holds now; otherwise
what it holds is new. -/
structure KeepsSlot (st : Store) (old : Item) (st' : Store) (item : Item) : Prop where
  same_iff : ∀ b, old = .ref b → (item = .ref b ↔ SameKind st old st' item)
  fresh : item ≠ old → ∀ b ∈ item.refs, st.cells.size ≤ b

/-- What stays of a field with a default. A list and a block stay, and the slots are the elements
of the list and the value of a choice. -/
def KeepsPart (st : Store) (d : Default) (old : Item) (st' : Store) (item : Item) : Prop :=
  match d with
  | .emptyList => ∃ b olds items, old = .ref b ∧ item = .ref b ∧
    st.cells[b]? = some (.list olds) ∧ st'.cells[b]? = some (.list items) ∧
    ∀ i x, items[i]? = some x → KeepsSlot st (olds.getD i .missing) st' x
  | .emptyBlock => item = old
  | .emptyChoice => ∃ c c', old = .choice c ∧ item = .choice c' ∧
    KeepsSlot st (c.value?.getD .missing) st' (c'.value?.getD .missing)
  | _ => KeepsSlot st old st' item

/-- What stays of a node of a kind: the parts that are read in place, and the lists of chains,
though all that stands in these is new. -/
structure KeepsNode (st : Store) (k : Kind) (n : Node Item) (st' : Store) (n' : Node Item) :
    Prop where
  kind : n'.kind? = some k
  parts : ∀ g old item, k.folds g = false → (g, old) ∈ n.fields → (g, item) ∈ n'.fields →
    KeepsPart st (k.default g) old st' item
  chains : ∀ g old, k.folds g = true → k.default g = .emptyList → (g, old) ∈ n.fields →
    ∃ b, old = .ref b ∧ (g, old) ∈ n'.fields ∧ ∀ x ∈ st'.refs b, st.cells.size ≤ x

/-- Every node that is reached from the roots and was there before is kept. -/
def KeepsWithin (st st' : Store) (roots : List Nat) : Prop :=
  ∀ x n, st.cells[x]? = some (.node n) → st'.Meets roots x →
    ∃ k n', n.kind? = some k ∧ st'.cells[x]? = some (.node n') ∧ KeepsNode st k n st' n'

/-- An item stands where another stood, in a field with a default: the item and all that it
reaches is kept as far as it may be, and none of it was elsewhere. -/
structure Kept (st : Store) (d : Default) (old : Item) (st' : Store) (item : Item) : Prop where
  part : KeepsPart st d old st' item
  within : KeepsWithin st st' item.refs
  source : ∀ x, x < st.cells.size → st'.Meets item.refs x → st.Meets old.refs x

end Statements

section Locality

theorem view_congr (h : ∀ b ∈ item.refs, st'.cells[b]? = st.cells[b]?) :
    st'.view item = st.view item := by
  cases item with
  | ref b => rw [view, view, h b (by simp [Item.refs])]
  | _ => rfl

theorem KeepsSlot.after (h : KeepsSlot st old st₁ item)
    (hsame : ∀ b ∈ item.refs, st₂.cells[b]? = st₁.cells[b]?) : KeepsSlot st old st₂ item := by
  refine ⟨fun b hb => ?_, h.fresh⟩
  rw [h.same_iff b hb, SameKind, SameKind, view_congr hsame]

theorem KeepsSlot.before (h : KeepsSlot st₁ old st' item)
    (hsame : ∀ b ∈ old.refs, st₁.cells[b]? = st.cells[b]?)
    (hle : st.cells.size ≤ st₁.cells.size) : KeepsSlot st old st' item := by
  refine ⟨fun b hb => ?_, fun hne b hb => Nat.le_trans hle (h.fresh hne b hb)⟩
  rw [h.same_iff b hb, SameKind, SameKind, view_congr hsame]

theorem meets_element {items : List Item} {x : Nat} (hcell : st.cells[a]? = some (.list items))
    (hitem : item ∈ items) (hx : x ∈ item.refs) : st.Meets [a] x :=
  Shows.meets_item hcell (Shows.refs_item hitem) (meets_of_mem hx)

theorem refs_getD_subset (items : List Item) (i : Nat) :
    (items.getD i .missing).refs ⊆ Cell.refs (.list items) :=
  fun _ hx => (perm_refs_getD items i).symm.subset (List.mem_append_right _ hx)

/-- What stays of a part depends on what the part reaches now. -/
theorem KeepsPart.after (h : KeepsPart st d old st₁ item)
    (hsame : ∀ x, st₁.Meets item.refs x → st₂.cells[x]? = st₁.cells[x]?) :
    KeepsPart st d old st₂ item := by
  cases d with
  | emptyList =>
    obtain ⟨b, olds, items, rfl, rfl, hcell, hcell₁, hslots⟩ := h
    refine ⟨b, olds, items, rfl, rfl, hcell, ?_, fun i x hx => (hslots i x hx).after fun c hc => ?_⟩
    · rw [hsame b (meets_of_mem (by simp [Item.refs])), hcell₁]
    · exact hsame c (meets_element hcell₁ (List.mem_of_getElem? hx) hc)
  | emptyBlock => exact h
  | emptyChoice =>
    obtain ⟨c, c', rfl, rfl, hslot⟩ := h
    refine ⟨c, c', rfl, rfl, hslot.after fun b hb => hsame b (meets_of_mem ?_)⟩
    rwa [refs_choice]
  | missing => exact KeepsSlot.after h fun b hb => hsame b (meets_of_mem hb)
  | atom => exact KeepsSlot.after h fun b hb => hsame b (meets_of_mem hb)

/-- What stays of a part depends on what stood there and what that reached. -/
theorem KeepsPart.before (h : KeepsPart st₁ d old st' item)
    (hsame : ∀ x, st.Meets old.refs x → st₁.cells[x]? = st.cells[x]?)
    (hle : st.cells.size ≤ st₁.cells.size) : KeepsPart st d old st' item := by
  cases d with
  | emptyList =>
    obtain ⟨b, olds, items, rfl, rfl, hcell₁, hcell', hslots⟩ := h
    have hcell : st.cells[b]? = some (.list olds) := by
      rw [← hsame b (meets_of_mem (by simp [Item.refs])), hcell₁]
    refine ⟨b, olds, items, rfl, rfl, hcell, hcell', fun i x hx =>
      (hslots i x hx).before (fun c hc => hsame c ?_) hle⟩
    exact Shows.meets_item hcell (refs_getD_subset olds i) (meets_of_mem hc)
  | emptyBlock => exact h
  | emptyChoice =>
    obtain ⟨c, c', rfl, rfl, hslot⟩ := h
    refine ⟨c, c', rfl, rfl, hslot.before (fun b hb => hsame b (meets_of_mem ?_)) hle⟩
    rwa [refs_choice]
  | missing => exact KeepsSlot.before h (fun b hb => hsame b (meets_of_mem hb)) hle
  | atom => exact KeepsSlot.before h (fun b hb => hsame b (meets_of_mem hb)) hle

theorem KeepsNode.after (h : KeepsNode st k n st₁ n')
    (hsame : ∀ x, st₁.Meets (Cell.node n').refs x → st₂.cells[x]? = st₁.cells[x]?) :
    KeepsNode st k n st₂ n' where
  kind := h.kind
  parts g old item hg hold hitem := (h.parts g old item hg hold hitem).after fun x hx =>
    hsame x (hx.mono (Shows.refs_field hitem))
  chains g old hg hlist hold := by
    obtain ⟨b, rfl, hkept, hfresh⟩ := h.chains g old hg hlist hold
    refine ⟨b, rfl, hkept, ?_⟩
    rwa [refs_congr (hsame b (meets_of_mem (Shows.refs_field hkept (by simp [Item.refs]))))]

theorem KeepsNode.before (h : KeepsNode st₁ k n st' n')
    (hsame : ∀ x, st.Meets (Cell.node n).refs x → st₁.cells[x]? = st.cells[x]?)
    (hle : st.cells.size ≤ st₁.cells.size) : KeepsNode st k n st' n' where
  kind := h.kind
  parts g old item hg hold hitem := (h.parts g old item hg hold hitem).before
    (fun x hx => hsame x (hx.mono (Shows.refs_field hold))) hle
  chains g old hg hlist hold := by
    obtain ⟨b, rfl, hkept, hfresh⟩ := h.chains g old hg hlist hold
    exact ⟨b, rfl, hkept, fun x hx => Nat.le_trans hle (hfresh x hx)⟩

theorem Meets.of_refs {cell : Cell} {x y : Nat} (h : st.Meets roots x)
    (hcell : st.cells[x]? = some cell) (hy : st.Meets cell.refs y) : st.Meets roots y := by
  refine h.trans (leads_iff.mpr (.inr ?_))
  rwa [refs_eq hcell]

theorem meets_kept {x : Nat} (hsame : ∀ x, st.Meets roots x → st'.cells[x]? = st.cells[x]?) :
    st'.Meets roots x ↔ st.Meets roots x :=
  meets_congr fun y hy => refs_congr (hsame y hy)

theorem Kept.after (h : Kept st d old st₁ item)
    (hsame : ∀ x, st₁.Meets item.refs x → st₂.cells[x]? = st₁.cells[x]?) :
    Kept st d old st₂ item where
  part := h.part.after hsame
  within x n hcell hx := by
    rw [meets_kept hsame] at hx
    obtain ⟨k, n', hk, hcell₁, hnode⟩ := h.within x n hcell hx
    refine ⟨k, n', hk, (hsame x hx).trans hcell₁, hnode.after fun y hy => hsame y ?_⟩
    exact hx.of_refs hcell₁ hy
  source x hlt hx := h.source x hlt ((meets_kept hsame).mp hx)

theorem Kept.before (h : Kept st₁ d old st' item)
    (hsame : ∀ x, st.Meets old.refs x → st₁.cells[x]? = st.cells[x]?)
    (hle : st.cells.size ≤ st₁.cells.size) : Kept st d old st' item where
  part := h.part.before hsame hle
  within x n hcell hx := by
    have hlt := Nat.lt_of_lt_of_le (Shows.lt_of_cell hcell) hle
    have hmeets := (meets_kept hsame).mp (h.source x hlt hx)
    obtain ⟨k, n', hk, hcell', hnode⟩ := h.within x n ((hsame x hmeets).trans hcell) hx
    refine ⟨k, n', hk, hcell', hnode.before (fun y hy => hsame y ?_) hle⟩
    exact hmeets.of_refs hcell hy
  source x hlt hx := (meets_kept hsame).mp (h.source x (Nat.lt_of_lt_of_le hlt hle) hx)

end Locality

section Wholes

/-- An item without references is no node. -/
theorem not_sameKind_scalar (hrefs : item.refs = []) : ¬SameKind st old st' item := by
  rintro ⟨k, -, hk⟩
  obtain ⟨b, n, rfl, -⟩ := exists_of_view hk
  cases hrefs

/-- What is new keeps nothing. -/
theorem kept_fresh (h : Refills st [] item.refs st') (hs : st.Sane old.refs)
    (hkind : ¬SameKind st old st' item) : Kept st .missing old st' item where
  part := by
    have hfresh (b : Nat) (hb : b ∈ item.refs) : st.cells.size ≤ b :=
      h.size_le_of_meets (meets_of_mem hb)
    refine ⟨?_, fun _ => hfresh⟩
    rintro b rfl
    refine ⟨?_, fun hsame => absurd hsame hkind⟩
    rintro rfl
    have hlt := hs.lt (by simp [Item.refs] : b ∈ Item.refs (.ref b))
    exact absurd (hfresh b (by simp [Item.refs])) (Nat.not_le.mpr hlt)
  within x n hcell hx := absurd (h.meets hx (Shows.lt_of_cell hcell)) meets_nil
  source x hlt hx := absurd (h.meets hx hlt) meets_nil

theorem keepsWithin_list {olds items : List Item} (hcell : st.cells[a]? = some (.list olds))
    (hcell' : st'.cells[a]? = some (.list items))
    (h : ∀ x ∈ items, KeepsWithin st st' x.refs) : KeepsWithin st st' [a] := by
  intro x n hx hmeets
  rcases leads_iff.mp (meets_singleton.mp hmeets) with rfl | ⟨c, hc, hlead⟩
  · simp [hcell] at hx
  · rw [refs_eq hcell'] at hc
    obtain ⟨item, hitem, hc⟩ := List.mem_flatMap.mp hc
    exact h item hitem x n hx ⟨c, hc, hlead⟩

/-- What a node reaches is kept if the node is and what its fields reach. -/
theorem keepsWithin_node (hcell : st.cells[a]? = some (.node n)) (hk : n.kind? = some k)
    (hcell' : st'.cells[a]? = some (.node n')) (hnode : KeepsNode st k n st' n')
    (h : ∀ g item, (g, item) ∈ n'.fields → KeepsWithin st st' item.refs) :
    KeepsWithin st st' [a] := by
  intro x m hx hmeets
  rcases leads_iff.mp (meets_singleton.mp hmeets) with rfl | ⟨c, hc, hlead⟩
  · obtain rfl : n = m := by simpa using hcell.symm.trans hx
    exact ⟨k, n', hk, hcell', hnode⟩
  · rw [refs_eq hcell'] at hc
    obtain ⟨⟨g, item⟩, hitem, hc⟩ := List.mem_flatMap.mp hc
    exact h g item hitem x m hx ⟨c, hc, hlead⟩

/-- A node of the kind stays. -/
theorem kept_self (hcell : st.cells[a]? = some (.node n))
    (hrefills : Refills st [a] [a] st') (hwithin : KeepsWithin st st' [a]) :
    Kept st .missing (.ref a) st' (.ref a) where
  part := by
    refine ⟨fun b hb => ⟨fun _ => ?_, fun _ => hb⟩, fun hne => absurd rfl hne⟩
    obtain ⟨k', n', hk', hcell', hnode⟩ := hwithin a n hcell (meets_of_mem (by simp))
    refine ⟨k', ?_, ?_⟩
    · rwa [view_of_node hcell]
    · rw [view_of_node hcell']
      exact hnode.kind
  within := hwithin
  source x hlt hx := hrefills.meets hx hlt

end Wholes

/-- The action keeps what it may of what stood in a slot; if that does not stay, only new cells
come of it. -/
def Preserves {α : Type} (f : α → Item → Refill Item) (slot : α) : Prop :=
  ∀ st old item st', st.Sane old.refs → st.Owned old.refs → Runs (f slot old) st item st' →
    Kept st .missing old st' item ∧ (item ≠ old → Refills st [] item.refs st')

section Lists

variable {α : Type} {admits : α → Except ReadError Unit} {f : α → Item → Refill Item} {slot : α}
  {t : Tree} {items olds : List Item} {trees : List Tree} {i p : Nat}

theorem refs_erased (h : p ≠ i) :
    (items.getD p .missing).refs ⊆ (items.eraseIdx i).flatMap Item.refs := by
  by_cases hp : p < items.length
  · rw [List.getD_eq_getElem _ _ hp]
    exact Shows.refs_item (List.mem_eraseIdx_iff_getElem.mpr ⟨p, hp, h, rfl⟩)
  · rw [List.getD_eq_default _ _ (Nat.not_lt.mp hp)]
    exact List.nil_subset _

/-- An element of a list is refilled: it is kept, and what the others reach is not touched. -/
theorem keeps_refillAt (hadmits : admits slot = .ok ()) (hf : Fills f slot t)
    (hkeeps : Preserves f slot) (hcell : st.cells[a]? = some (.list items)) (hs : st.Sane [a])
    (ho : st.Owned [a]) (hi : i ≤ items.length) :
    ∃ item st', Runs (refillAt admits f (.ref a) i slot) st () st' ∧ Refills st [a] [a] st' ∧
      st'.cells[a]? = some (.list (items.take i ++ item :: items.drop (i + 1))) ∧
      Kept st .missing (items.getD i .missing) st' item ∧
      ∀ p, p ≠ i → ∀ x, st.Meets (items.getD p .missing).refs x → st'.cells[x]? = st.cells[x]? := by
  have hold := perm_refs_getD items i
  have hsub : ((items.eraseIdx i).flatMap Item.refs ++ (items.getD i .missing).refs).Subperm
      (st.refs a) := by
    rw [refs_eq hcell]
    exact hold.symm.subperm
  have hsane : st.Sane (items.getD i .missing).refs :=
    hs.refs.mono fun _ hx => hsub.subset (List.mem_append_right _ hx)
  obtain ⟨item, st₁, hrun, hfilled⟩ := hf st _ hsane
  obtain ⟨hrefills, hcell₁, -⟩ := hfilled.replace _ _ hs hcell hold
    (perm_refs_replaced items i item) rfl (fits_list _ _)
  obtain ⟨hitem, hothers⟩ := hfilled.refills.frame
    (.list (items.take i ++ item :: items.drop (i + 1))) hs ho hsub
  have hkept := (hkeeps st _ item st₁ hsane (ho.refs.subperm hsub).right hrun).1
  exact ⟨item, _, runs_refillAt_of_fill hadmits hcell hi hrun hcell₁, hrefills,
    cells_set_self (Shows.lt_of_cell hcell₁), hkept.after hitem,
    fun p hp x hx => hothers x (hx.mono (refs_erased hp))⟩

theorem getD_replaced_self (hi : i ≤ items.length) :
    (items.take i ++ item :: items.drop (i + 1)).getD i .missing = item := by
  simp [List.getD_eq_getElem?_getD, hi]

theorem getD_replaced_ne (hi : i ≤ items.length) (hp : p ≠ i) :
    (items.take i ++ item :: items.drop (i + 1)).getD p .missing = items.getD p .missing := by
  simp only [List.getD_eq_getElem?_getD]
  congr 1
  by_cases hlt : p < i
  · rw [List.getElem?_append_left (by simp; omega), List.getElem?_take_of_lt hlt]
  · rw [List.getElem?_append_right (by simp; omega), List.length_take, Nat.min_eq_left hi]
    obtain ⟨q, rfl⟩ : ∃ q, p = i + 1 + q := ⟨p - (i + 1), by omega⟩
    rw [show i + 1 + q - i = q + 1 by omega, List.getElem?_cons_succ, List.getElem?_drop]

/-- The elements of a list from an index on are refilled: they are kept, and what those before
them reach is not touched. -/
theorem keeps_refillFrom {slots : List α} (hkeeps : ∀ slot, Preserves f slot)
    (hslots : List.Forall₂ (fun slot t => admits slot = .ok () ∧ Fills f slot t) slots trees)
    (hcell : st.cells[a]? = some (.list items)) (hs : st.Sane [a]) (ho : st.Owned [a])
    (hi : i ≤ items.length) :
    ∃ items' st', Runs (refillFrom admits f (.ref a) i slots) st () st' ∧ Refills st [a] [a] st' ∧
      st'.cells[a]? = some (.list items') ∧
      (∀ p, p < i → items'.getD p .missing = items.getD p .missing ∧
        ∀ x, st.Meets (items.getD p .missing).refs x → st'.cells[x]? = st.cells[x]?) ∧
      ∀ p, i ≤ p → p < i + slots.length →
        Kept st .missing (items.getD p .missing) st' (items'.getD p .missing) := by
  induction hslots generalizing st i items with
  | nil =>
    refine ⟨items, st, runs_pure (), .refl hs, hcell, fun _ _ => ⟨rfl, fun _ _ => rfl⟩, ?_⟩
    intro p hp hlt
    simp at hlt
    omega
  | @cons slot t slots trees hslot _ ih =>
    obtain ⟨item, st₁, hrun, hrefills, hcell₁, hkept, hframe⟩ :=
      keeps_refillAt hslot.1 hslot.2 (hkeeps slot) hcell hs ho hi
    have hi₁ : i + 1 ≤ (items.take i ++ item :: items.drop (i + 1)).length := by
      simp
      omega
    obtain ⟨items', st', hrun', hrefills', hcell', hbefore, hafter⟩ :=
      ih hcell₁ (hrefills.sane hs) (hrefills.owned ho) hi₁
    refine ⟨items', st', hrun.bind hrun', hrefills.trans hrefills', hcell', fun p hp => ?_,
      fun p hp hlt => ?_⟩
    · obtain ⟨hsame, hcells⟩ := hbefore p (by omega)
      rw [getD_replaced_ne hi (by omega)] at hsame hcells
      refine ⟨hsame, fun x hx => ?_⟩
      have hfirst := hframe p (by omega)
      rw [hcells x ((meets_kept hfirst).mpr hx), hfirst x hx]
    · rcases Nat.eq_or_lt_of_le hp with rfl | hp
      · obtain ⟨hsame, hcells⟩ := hbefore i (by omega)
        rw [getD_replaced_self hi] at hsame hcells
        rw [hsame]
        exact hkept.after hcells
      · have hrest := hafter p hp (by rw [List.length_cons] at hlt; omega)
        rw [getD_replaced_ne hi (by omega)] at hrest
        exact hrest.before (hframe p (by omega)) hrefills.evolves.size_le

/-- A list is refilled and cut: the list stays, and its elements are kept. -/
theorem keeps_refillList {slots : List α} (hkeeps : ∀ slot, Preserves f slot)
    (hslots : List.Forall₂ (fun slot t => admits slot = .ok () ∧ Fills f slot t) slots trees)
    (hcell : st.cells[a]? = some (.list items)) (hs : st.Sane [a]) (ho : st.Owned [a]) :
    ∃ st', Runs (refillList admits f (.ref a) slots) st () st' ∧
      Filled st (.ref a) (.list trees) (.ref a) st' ∧ Kept st .emptyList (.ref a) st' (.ref a) := by
  obtain ⟨st', hrun, hfilled⟩ := runs_refillList hslots hcell hs
  obtain ⟨items₁, st₁, hrun₁, hrefills, hcell₁, -, hkept⟩ :=
    keeps_refillFrom hkeeps hslots hcell hs ho (Nat.zero_le _)
  obtain ⟨-, rfl⟩ := hrun.unique (hrun₁.bind (runs_modifyList hcell₁).lift)
  have hcell' : (st₁.set a (.list (items₁.take slots.length))).cells[a]? =
      some (.list (items₁.take slots.length)) := cells_set_self (Shows.lt_of_cell hcell₁)
  have hslot (i : Nat) (x : Item) (hx : (items₁.take slots.length)[i]? = some x) :
      Kept st .missing (items.getD i .missing)
        (st₁.set a (.list (items₁.take slots.length))) x := by
    have hlt : i < slots.length := by
      have hlen := (List.getElem?_eq_some_iff.mp hx).1
      simp at hlen
      omega
    rw [List.getElem?_take_of_lt hlt] at hx
    have hitem := hkept i (Nat.zero_le _) (by omega)
    have hvalue : items₁.getD i .missing = x := by
      rw [List.getD_eq_getElem?_getD, hx, Option.getD_some]
    rw [hvalue] at hitem
    refine hitem.after fun y hy => cells_set_ne ?_
    rintro rfl
    refine (hrefills.sane hs).not_meets_refs ?_
    rw [refs_eq hcell₁]
    exact hy.mono (Shows.refs_item (List.mem_of_getElem? hx))
  refine ⟨_, hrun, hfilled, ⟨a, items, _, rfl, rfl, hcell, hcell', fun i x hx =>
    (hslot i x hx).part⟩, keepsWithin_list hcell hcell' fun x hx => ?_,
    fun x hlt hx => hfilled.refills.meets hx hlt⟩
  obtain ⟨i, hi⟩ := List.getElem?_of_mem hx
  exact (hslot i x hi).within

end Lists

section Fields

variable {α : Type} {admits : α → Except ReadError Unit} {f : α → Item → Refill Item} {t : Tree}
  {field : Field} {branch : Branch α} {trees : Field → Tree}

/-- The value of a choice is refilled. -/
theorem keeps_refillChoice {choice : Choice α} {c : Choice Item}
    (hkeeps : ∀ slot, Preserves f slot) (h : FillsChoice f choice t)
    (hs : st.Sane (Item.choice c).refs) (ho : st.Owned (Item.choice c).refs) :
    ∃ c' st', Runs (refillChoice f (.choice c) choice) st (.choice c') st' ∧
      Filled st (.choice c) t (.choice c') st' ∧
      Kept st .emptyChoice (.choice c) st' (.choice c') := by
  obtain ⟨c', st', hrun, hfilled⟩ := runs_refillChoice h hs
  refine ⟨c', st', hrun, hfilled, ?_⟩
  rw [refs_choice] at hs ho
  have hvalue : Kept st .missing (c.value?.getD .missing) st' (c'.value?.getD .missing) := by
    cases choice with
    | empty =>
      obtain ⟨heq, rfl⟩ := hrun.unique (runs_pure (Item.choice .empty))
      cases heq
      exact kept_fresh (.drop _ []) hs (not_sameKind_scalar rfl)
    | first slot =>
      obtain ⟨u, rfl, hf⟩ := h
      obtain ⟨item, st₁, hrun₁, -⟩ := hf st _ hs
      obtain ⟨heq, rfl⟩ := hrun.unique (hrun₁.bind (runs_pure (Item.choice (.first item))))
      cases heq
      exact (hkeeps slot st _ _ _ hs ho hrun₁).1
    | second slot =>
      obtain ⟨u, rfl, hf⟩ := h
      obtain ⟨item, st₁, hrun₁, -⟩ := hf st _ hs
      obtain ⟨heq, rfl⟩ := hrun.unique (hrun₁.bind (runs_pure (Item.choice (.second item))))
      cases heq
      exact (hkeeps slot st _ _ _ hs ho hrun₁).1
  refine ⟨⟨c, c', rfl, rfl, hvalue.part⟩, ?_, ?_⟩
  · rw [refs_choice]
    exact hvalue.within
  · rw [refs_choice, refs_choice]
    exact hvalue.source

/-- A block stays if its list does. -/
theorem kept_block {b c : Nat} (hblock : st.cells[b]? = some (.node (.blockStatement (.ref c))))
    (hblock' : st'.cells[b]? = some (.node (.blockStatement (.ref c))))
    (hrefills : Refills st [b] [b] st') (h : Kept st .emptyList (.ref c) st' (.ref c)) :
    Kept st .emptyBlock (.ref b) st' (.ref b) := by
  refine ⟨rfl, keepsWithin_node hblock rfl hblock' ⟨rfl, ?_, ?_⟩ ?_,
    fun x hlt hx => hrefills.meets hx hlt⟩
  · intro g old item _ hold hitem
    simp only [Node.fields, List.mem_singleton, Prod.mk.injEq] at hold hitem
    obtain ⟨rfl, rfl⟩ := hold
    obtain ⟨-, rfl⟩ := hitem
    exact h.part
  · intro g old hfolds
    cases hfolds
  · intro g item hitem
    simp only [Node.fields, List.mem_singleton, Prod.mk.injEq] at hitem
    obtain ⟨-, rfl⟩ := hitem
    exact h.within

/-- In a field that takes every item, a slot is all that there is. -/
theorem Kept.of_takes (h : Kept st .missing old st' item)
    (htakes : ∀ (st : Store) item, st.Takes d item) : Kept st d old st' item := by
  cases d with
  | missing => exact h
  | atom => exact ⟨h.part, h.within, h.source⟩
  | emptyList =>
    obtain ⟨b, hb, -⟩ := htakes {} .missing
    cases hb
  | emptyBlock =>
    obtain ⟨b, hb, -⟩ := htakes {} .missing
    cases hb
  | emptyChoice =>
    obtain ⟨c, hc⟩ := htakes {} .missing
    cases hc

theorem Owned.of_field (ho : st.Owned [a]) (hcell : st.cells[a]? = some (.node n))
    (hfield : (field, old) ∈ n.fields) : st.Owned old.refs := by
  obtain ⟨beside, hperm, -⟩ := refs_split hfield
  rw [← refs_eq hcell] at hperm
  exact (ho.refs.subperm hperm.symm.subperm).right

theorem Filled.cells_owner (h : Filled st old t item st') (hs : st.Sane [a])
    (hcell : st.cells[a]? = some (.node n)) (hfield : (field, old) ∈ n.fields) :
    st'.cells[a]? = some (.node n) := by
  rw [h.refills.kept a (hs.lt (by simp)) fun hmeets => hs.not_meets_refs (hmeets.mono ?_), hcell]
  rw [refs_eq hcell]
  exact Shows.refs_field hfield

/-- What stands in a field is refilled, and the node takes it in. -/
theorem keeps_branch (hkeeps : ∀ slot, Preserves f slot)
    (hbranch : FillsBranch admits f (k.default field) branch t) (hs : st.Sane [a])
    (ho : st.Owned [a]) (hcell : st.cells[a]? = some (.node n)) (hk : n.kind? = some k)
    (hfield : (field, old) ∈ n.fields) :
    ∃ item st₁, Runs (refillField admits f (.ref a) field branch) st ()
        (st₁.set a (.node (n.set field item))) ∧
      Filled st old t item st₁ ∧ st₁.Takes (k.default field) item ∧
      Kept st (k.default field) old st₁ item := by
  have hold := hs.of_field hcell hfield
  have howned := ho.of_field hcell hfield
  have htakes := hs.takes hcell hk hfield
  have hpart := (runs_part hcell (Node.get?_eq_some.mpr hfield)).lift
  -- A list and a block stay where they are, so the node is the same without being set.
  have hunset {t : Tree} {st₁ : Store} (h : Filled st old t old st₁) :
      st₁.set a (.node (n.set field old)) = st₁ := by
    rw [Node.set_of_mem hfield, set_self (h.cells_owner hs hcell hfield)]
  cases branch with
  | one slot =>
    obtain ⟨hany, hf⟩ := hbranch
    obtain ⟨item, st₁, hrun, hfilled⟩ := hf st old hold
    have hcell₁ := hfilled.cells_owner hs hcell hfield
    exact ⟨item, st₁, hpart.bind (hrun.bind (runs_setPart hcell₁).lift), hfilled, hany st₁ item,
      (hkeeps slot st old item st₁ hold howned hrun).1.of_takes hany⟩
  | many slots =>
    obtain ⟨hdefault, trees, rfl, hslots⟩ := hbranch
    rw [hdefault] at htakes ⊢
    obtain ⟨b, rfl, hb⟩ := htakes
    obtain ⟨items, hitems⟩ := list_of_sortAt hb
    obtain ⟨st₁, hrun, hfilled, hkept⟩ := keeps_refillList hkeeps hslots hitems hold howned
    refine ⟨.ref b, st₁, ?_, hfilled, ⟨b, rfl, hfilled.refills.evolves.sorts b _ hb⟩, hkept⟩
    rw [hunset hfilled]
    exact hpart.bind hrun
  | either choice =>
    obtain ⟨hdefault, hchoice⟩ := hbranch
    rw [hdefault] at htakes ⊢
    obtain ⟨c, rfl⟩ := htakes
    obtain ⟨c', st₁, hrun, hfilled, hkept⟩ := keeps_refillChoice hkeeps hchoice hold howned
    have hcell₁ := hfilled.cells_owner hs hcell hfield
    exact ⟨.choice c', st₁,
      hpart.bind (runs_view.lift.bind (hrun.bind (runs_setPart hcell₁).lift)), hfilled, ⟨c', rfl⟩,
      hkept⟩
  | block slots =>
    obtain ⟨hdefault, trees, rfl, hslots⟩ := hbranch
    rw [hdefault] at htakes ⊢
    obtain ⟨b, rfl, hb⟩ := htakes
    obtain ⟨c, items, hblock, hitems⟩ := hold.block hb
    have hbody : (Field.body, Item.ref c) ∈ (Node.blockStatement (Item.ref c)).fields := by
      simp [Node.fields]
    obtain ⟨st₁, hrun, hfilled, hkept⟩ := keeps_refillList hkeeps hslots hitems
      (hold.of_field hblock hbody) (howned.of_field hblock hbody)
    obtain ⟨hfilled', hblock'⟩ := hfilled.block hold hblock
    refine ⟨.ref b, st₁, ?_, hfilled', ⟨b, rfl, hfilled'.refills.evolves.sorts b _ hb⟩,
      kept_block hblock hblock' hfilled'.refills hkept⟩
    rw [hunset hfilled']
    exact hpart.bind ((runs_part hblock (Node.get?_eq_some.mpr hbody)).lift.bind hrun)

/-- A field of a node is refilled: it is kept, and what the others reach is not touched. -/
theorem keeps_refillField (hkeeps : ∀ slot, Preserves f slot)
    (hbranch : FillsBranch admits f (k.default field) branch t) (hs : st.Sane [a])
    (ho : st.Owned [a]) (hcell : st.cells[a]? = some (.node n)) (hk : n.kind? = some k)
    (hfield : (field, old) ∈ n.fields) :
    ∃ item st', Runs (refillField admits f (.ref a) field branch) st () st' ∧
      Refills st [a] [a] st' ∧ st'.cells[a]? = some (.node (n.set field item)) ∧
      Kept st (k.default field) old st' item ∧
      ∀ g x, (g, x) ∈ n.fields → g ≠ field →
        ∀ y, st.Meets x.refs y → st'.cells[y]? = st.cells[y]? := by
  obtain ⟨item, st₁, hrun, hfilled, htakes, hkept⟩ :=
    keeps_branch hkeeps hbranch hs ho hcell hk hfield
  obtain ⟨hrefills, hcell₁, -⟩ := hfilled.setField hs hcell hk hfield htakes
  obtain ⟨beside, hperm, -, hothers⟩ := refs_split hfield
  rw [← refs_eq hcell] at hperm
  obtain ⟨hitem, hbeside⟩ := hfilled.refills.frame (.node (n.set field item)) hs ho
    hperm.symm.subperm
  exact ⟨item, _, hrun, hrefills, cells_set_self (Shows.lt_of_cell hcell₁), hkept.after hitem,
    fun g x hx hg y hy => hbeside y (hy.mono (hothers g x hx hg))⟩

/-- Fields of a node are refilled one after another: they are kept, and the others are not
touched. -/
theorem keeps_refillFields {branches : List (Field × Branch α)} (hkeeps : ∀ slot, Preserves f slot)
    (hbranches : ∀ g b, (g, b) ∈ branches →
      FillsBranch admits f (k.default g) b (trees g) ∧ ∃ x, (g, x) ∈ n.fields)
    (hnodup : (branches.map Prod.fst).Nodup) (hs : st.Sane [a]) (ho : st.Owned [a])
    (hcell : st.cells[a]? = some (.node n)) (hk : n.kind? = some k) :
    ∃ n' st', Runs (branches.forM fun (field, branch) => refillField admits f (.ref a) field branch)
        st () st' ∧
      st'.cells[a]? = some (.node n') ∧ n'.kind? = some k ∧
      ∀ g old item, (g, old) ∈ n.fields → (g, item) ∈ n'.fields →
        (g ∉ branches.map Prod.fst →
          item = old ∧ ∀ x, st.Meets old.refs x → st'.cells[x]? = st.cells[x]?) ∧
        (g ∈ branches.map Prod.fst → Kept st (k.default g) old st' item) := by
  induction branches generalizing st n with
  | nil =>
    refine ⟨n, st, runs_pure (), hcell, hk, fun g old item hold hitem => ⟨fun _ => ?_, by simp⟩⟩
    exact ⟨Node.eq_of_mem_fields hitem hold, fun _ _ => rfl⟩
  | cons entry branches ih =>
    obtain ⟨g, branch⟩ := entry
    obtain ⟨hbranch, old₁, hfield⟩ := hbranches g branch (by simp)
    obtain ⟨item₁, st₁, hrun, hrefills, hcell₁, hkept, hframe⟩ :=
      keeps_refillField hkeeps hbranch hs ho hcell hk hfield
    have hk₁ : (n.set g item₁).kind? = some k := by rwa [Node.kind?_set]
    have hrest (h : Field) (b : Branch α) (hb : (h, b) ∈ branches) :
        FillsBranch admits f (k.default h) b (trees h) ∧ ∃ x, (h, x) ∈ (n.set g item₁).fields := by
      obtain ⟨hfills, x, hx⟩ := hbranches h b (List.mem_cons_of_mem _ hb)
      exact ⟨hfills, Node.exists_field hk₁ hk item₁ hx⟩
    rw [List.map_cons, List.nodup_cons] at hnodup
    obtain ⟨n', st', hrun', hcell', hk', hfields⟩ :=
      ih hrest hnodup.2 (hrefills.sane hs) (hrefills.owned ho) hcell₁ hk₁
    refine ⟨n', st', hrun.bind hrun', hcell', hk', fun h old item hold hitem => ?_⟩
    have hset : (h, if h = g then item₁ else old) ∈ (n.set g item₁).fields := by
      rw [Node.fields_set]
      exact List.mem_map.mpr ⟨(h, old), hold, rfl⟩
    obtain ⟨hsame, hlater⟩ := hfields h _ item hset hitem
    rw [List.map_cons, List.mem_cons, not_or]
    by_cases hg : h = g
    · -- The field was refilled first, and nothing that was refilled later touches it.
      subst hg
      rw [if_pos rfl] at hsame
      obtain ⟨rfl, hcells⟩ := hsame hnodup.1
      rw [Node.eq_of_mem_fields hold hfield]
      exact ⟨fun hnot => absurd rfl hnot.1, fun _ => hkept.after hcells⟩
    · rw [if_neg hg] at hsame hlater
      have hfirst := hframe h old hold hg
      refine ⟨fun hnot => ?_, fun hmem => ?_⟩
      · obtain ⟨rfl, hcells⟩ := hsame hnot.2
        refine ⟨rfl, fun x hx => ?_⟩
        rw [hcells x ((meets_kept hfirst).mpr hx), hfirst x hx]
      · exact (hlater (hmem.resolve_left hg)).before hfirst hrefills.evolves.size_le

theorem chain_of_folds {g : Field} (h : k.folds g = true) :
    k = .binaryExpression ∨ k = .memberExpression := by
  cases k <;> simp [Kind.folds] at h ⊢

theorem keepsSlot_scalar (hrefs : item.refs = []) : KeepsSlot st old st' item := by
  refine ⟨?_, by simp [hrefs]⟩
  rintro b rfl
  refine ⟨?_, fun hsame => absurd hsame (not_sameKind_scalar hrefs)⟩
  rintro rfl
  cases hrefs

theorem keepsWithin_nil : KeepsWithin st st' [] := fun _ _ _ hx => absurd hx meets_nil

/-- A node that is no chain is refilled. -/
theorem keeps_refillNode {shape : Node (Branch α)} (hkeeps : ∀ slot, Preserves f slot)
    (hshape : shape.kind? = some k) (hbinary : k ≠ .binaryExpression)
    (hmember : k ≠ .memberExpression)
    (hbranches : ∀ g b, (g, b) ∈ shape.readFields →
      FillsBranch admits f (k.default g) b (trees g))
    (hs : st.Sane [a]) (ho : st.Owned [a]) (hcell : st.cells[a]? = some (.node n))
    (hk : n.kind? = some k) :
    ∃ st', Runs (refillNode admits f (.ref a) shape) st () st' ∧ KeepsWithin st st' [a] := by
  obtain ⟨n', st', hrun, hcell', hk', hfields⟩ := keeps_refillFields hkeeps (n := n)
    (fun g b hb => ⟨hbranches g b hb,
      Node.exists_field hk hshape .missing (Node.mem_fields_of_readFields hb)⟩)
    shape.nodup_readFields hs ho hcell hk
  have hkept (g : Field) (old item : Item) (hold : (g, old) ∈ n.fields)
      (hitem : (g, item) ∈ n'.fields) : Kept st (k.default g) old st' item := by
    obtain ⟨hunread, hread⟩ := hfields g old item hold hitem
    by_cases hg : g ∈ shape.readFields.map Prod.fst
    · exact hread hg
    · obtain ⟨branch, hbranch⟩ := Node.exists_field hshape hk (.many []) hold
      obtain rfl : g = .declarationKind := (Node.mem_readFields hbranch).resolve_left
        fun hmem => hg (List.mem_map.mpr ⟨_, hmem, rfl⟩)
      obtain ⟨rfl, -⟩ := hunread hg
      obtain rfl : item = .ofMember (.variableKind .var) := hs.takes hcell hk hold
      exact ⟨keepsSlot_scalar rfl, keepsWithin_nil, fun _ _ hx => absurd hx meets_nil⟩
  refine ⟨st', ?_, keepsWithin_node hcell hk hcell' ⟨hk', fun g old item _ hold hitem =>
    (hkept g old item hold hitem).part, fun g _ hfolds => ?_⟩ fun g item hitem => ?_⟩
  · rw [refillNode_eq hshape hbinary hmember]
    exact hrun
  · rcases chain_of_folds hfolds with rfl | rfl
    · exact absurd rfl hbinary
    · exact absurd rfl hmember
  · obtain ⟨old, hold⟩ := Node.exists_field hk hk' .missing hitem
    exact (hkept g old item hold hitem).within

end Fields

section Chains

variable {α : Type} {f : α → Item → Refill Item} {slot : α}

/-- A list that holds what is new keeps nothing. -/
theorem keepsWithin_freshList (hevolves : Evolves st st') (hsort : st.sortAt a = some .list)
    (hfresh : ∀ x ∈ st'.refs a, st.cells.size ≤ x) : KeepsWithin st st' [a] := by
  intro x n hx hmeets
  rcases leads_iff.mp (meets_singleton.mp hmeets) with rfl | ⟨c, hc, hlead⟩
  · rw [sortAt_eq hx] at hsort
    cases hsort
  · have hle := hevolves.size_le_of_leads hlead (hfresh c hc)
    exact absurd (Shows.lt_of_cell hx) (Nat.not_lt.mpr hle)

/-- A chain of operands is refilled: its left operand is kept, and the others are new. -/
theorem keeps_operands {op : BinaryOperator} (hkeeps : ∀ slot, Preserves f slot)
    (h : KeepsOperand f slot st a n op st') (hevolves : Evolves st st') (hs : st.Sane [a])
    (ho : st.Owned [a]) (hcell : st.cells[a]? = some (.node n)) : KeepsWithin st st' [a] := by
  obtain ⟨left, operator, b, item, st₁, rfl, hrun, hcell', hfresh, hframe⟩ := h
  have hleft : (Field.left, left) ∈ (Node.binaryExpression left operator (.ref b)).fields := by
    simp [Node.fields]
  have hkept := (hkeeps slot st left item st₁ (hs.of_field hcell hleft) (ho.of_field hcell hleft)
    hrun).1.after (hframe ho)
  obtain ⟨c, hc, hsort⟩ : st.Takes .emptyList (.ref b) :=
    hs.takes hcell rfl (by simp [Node.fields] : (Field.right, Item.ref b) ∈ _)
  cases hc
  refine keepsWithin_node hcell rfl hcell' ⟨rfl, ?_, ?_⟩ ?_
  · intro g old x hfolds hold hx
    simp only [Node.fields, List.mem_cons, Prod.mk.injEq, List.not_mem_nil, or_false] at hold hx
    rcases hold with ⟨rfl, rfl⟩ | ⟨rfl, rfl⟩ | ⟨rfl, rfl⟩
    · obtain rfl : x = item := by simpa using hx
      exact hkept.part
    · obtain rfl : x = .ofMember (.binaryOperator op) := by simpa using hx
      exact keepsSlot_scalar rfl
    · cases hfolds
  · intro g old hfolds _ hold
    simp only [Node.fields, List.mem_cons, Prod.mk.injEq, List.not_mem_nil, or_false] at hold
    rcases hold with ⟨rfl, rfl⟩ | ⟨rfl, rfl⟩ | ⟨rfl, rfl⟩
    · cases hfolds
    · cases hfolds
    · exact ⟨b, rfl, by simp [Node.fields], hfresh⟩
  · intro g x hx
    simp only [Node.fields, List.mem_cons, Prod.mk.injEq, List.not_mem_nil, or_false] at hx
    rcases hx with ⟨rfl, rfl⟩ | ⟨rfl, rfl⟩ | ⟨rfl, rfl⟩
    · exact hkept.within
    · exact keepsWithin_nil
    · exact keepsWithin_freshList hevolves hsort hfresh

/-- A chain of accesses is refilled: its indices are new, and what its object reaches is kept. -/
theorem keeps_accesses {computed : Bool} (hkeeps : ∀ slot, Preserves f slot)
    (h : KeepsObject f slot st a n computed st') (hevolves : Evolves st st')
    (hindices : FreshIndices st st' (.ref a)) (hs : st.Sane [a]) (ho : st.Owned [a])
    (hcell : st.cells[a]? = some (.node n)) : KeepsWithin st st' [a] := by
  obtain ⟨object, b, style, item, inner, st₁, rfl, hrun, hcell', hinner, hframe⟩ := h
  have hobject : (Field.object, object) ∈ (Node.memberExpression object (.ref b) style).fields := by
    simp [Node.fields]
  have hkept := (hkeeps slot st object item st₁ (hs.of_field hcell hobject)
    (ho.of_field hcell hobject) hrun).1.after (hframe ho)
  have hfresh := hindices a inner b _ rfl hcell'
  obtain ⟨c, hc, hsort⟩ : st.Takes .emptyList (.ref b) :=
    hs.takes hcell rfl (by simp [Node.fields] : (Field.indices, Item.ref b) ∈ _)
  cases hc
  refine keepsWithin_node hcell rfl hcell' ⟨rfl, ?_, ?_⟩ ?_
  · intro g old x hfolds hold hx
    simp only [Node.fields, List.mem_cons, Prod.mk.injEq, List.not_mem_nil, or_false] at hold hx
    rcases hold with ⟨rfl, rfl⟩ | ⟨rfl, rfl⟩ | ⟨rfl, rfl⟩
    · cases hfolds
    · cases hfolds
    · obtain rfl : x = .atom (.bool computed) := by simpa using hx
      exact keepsSlot_scalar rfl
  · intro g old hfolds hlist hold
    simp only [Node.fields, List.mem_cons, Prod.mk.injEq, List.not_mem_nil, or_false] at hold
    rcases hold with ⟨rfl, rfl⟩ | ⟨rfl, rfl⟩ | ⟨rfl, rfl⟩
    · cases hlist
    · exact ⟨b, rfl, by simp [Node.fields], hfresh⟩
    · cases hfolds
  · intro g x hx
    simp only [Node.fields, List.mem_cons, Prod.mk.injEq, List.not_mem_nil, or_false] at hx
    rcases hx with ⟨rfl, rfl⟩ | ⟨rfl, rfl⟩ | ⟨rfl, rfl⟩
    · intro y m hy hmeets
      refine hkept.within y m hy ((meets_kept (hframe ho)).mpr (hinner y ?_))
      exact (meets_kept fun z hz => hframe ho z (hinner z hz)).mp hmeets
    · exact keepsWithin_freshList hevolves hsort hfresh
    · exact keepsWithin_nil

end Chains

end Store

end ScriptTree
