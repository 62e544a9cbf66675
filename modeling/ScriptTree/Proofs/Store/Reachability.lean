import ScriptTree.Store.Editing
import Mathlib.Logic.Relation
import Mathlib.Data.List.Perm.Subperm

/-!
What can be reached in a store. A cell refers to the addresses in its items, and an address
leads to all that can be reached through such references. What two addresses lead to may
be apart, and a region of a store is owned if that holds for the references of each of its
cells: nothing in it is reached twice.
-/

namespace ScriptTree

open Relation

mutual

def Item.refs : Item → List Nat
  | .missing => []
  | .atom _ => []
  | .regex pattern flags => pattern.refs ++ flags.refs
  | .choice c => Item.choiceRefs c
  | .ref address => [address]

def Item.choiceRefs : Choice Item → List Nat
  | .empty => []
  | .first item => item.refs
  | .second item => item.refs

end

def Cell.refs : Cell → List Nat
  | .node n => n.fields.flatMap fun field => field.2.refs
  | .list items => items.flatMap Item.refs
  | .object => []

namespace Store

variable {st st' : Store} {a b c x : Nat} {roots others : List Nat}

def refs (st : Store) (a : Nat) : List Nat :=
  match st.cells[a]? with
  | some cell => cell.refs
  | none => []

theorem refs_eq {cell : Cell} (h : st.cells[a]? = some cell) : st.refs a = cell.refs := by
  rw [refs, h]

theorem refs_congr (h : st'.cells[a]? = st.cells[a]?) : st'.refs a = st.refs a := by
  rw [refs, refs, h]

def Refers (st : Store) (a b : Nat) : Prop := b ∈ st.refs a

/-- The second address is reached from the first. -/
def Leads (st : Store) : Nat → Nat → Prop := ReflTransGen st.Refers

/-- The address is reached from one of the roots. -/
def Meets (st : Store) (roots : List Nat) (x : Nat) : Prop := ∃ a ∈ roots, st.Leads a x

theorem Refers.lt (h : st.Refers a b) : a < st.cells.size := by
  by_contra hnot
  have hcell : st.cells[a]? = none := by simpa using hnot
  simp [Refers, refs, hcell] at h

/-- Nothing but itself is reached from an address outside of the store. -/
theorem Leads.eq_of_size_le (h : st.Leads a b) (ha : st.cells.size ≤ a) : b = a := by
  rcases ReflTransGen.cases_head h with rfl | ⟨c, hc, -⟩
  · rfl
  · exact absurd hc.lt (Nat.not_lt.mpr ha)

theorem Meets.mono (h : st.Meets roots x) (hsub : roots ⊆ others) : st.Meets others x := by
  obtain ⟨a, ha, hx⟩ := h
  exact ⟨a, hsub ha, hx⟩

theorem Meets.trans (h : st.Meets roots a) (hx : st.Leads a x) : st.Meets roots x := by
  obtain ⟨r, hr, ha⟩ := h
  exact ⟨r, hr, ReflTransGen.trans ha hx⟩

theorem meets_of_mem (h : a ∈ roots) : st.Meets roots a := ⟨a, h, .refl⟩

@[simp] theorem meets_append :
    st.Meets (roots ++ others) x ↔ st.Meets roots x ∨ st.Meets others x := by
  simp [Meets, or_and_right, exists_or]

@[simp] theorem meets_nil : ¬st.Meets [] x := by simp [Meets]

theorem meets_singleton : st.Meets [a] x ↔ st.Leads a x := by simp [Meets]

theorem strict_iff : TransGen st.Refers a x ↔ st.Meets (st.refs a) x := by
  rw [TransGen.head'_iff]
  rfl

/-- An address leads to itself and to what its references lead to. -/
theorem leads_iff : st.Leads a x ↔ a = x ∨ st.Meets (st.refs a) x := by
  rw [Leads, ReflTransGen.cases_head_iff]
  rfl

section Congruence

/-- What is reached depends on the references of what is reached only. -/
theorem leads_congr (h : ∀ x, st.Leads a x → st'.refs x = st.refs x) :
    st'.Leads a x ↔ st.Leads a x := by
  constructor
  · intro hx
    induction hx with
    | refl => exact .refl
    | @tail y z _ hyz ih =>
      have hrefs := h y ih
      exact ReflTransGen.tail ih (by rwa [Refers, hrefs] at hyz)
  · intro hx
    induction hx with
    | refl => exact .refl
    | @tail y z hy hyz ih =>
      have hrefs := h y hy
      exact ReflTransGen.tail ih (by rwa [Refers, hrefs])

theorem meets_congr (h : ∀ x, st.Meets roots x → st'.refs x = st.refs x) :
    st'.Meets roots x ↔ st.Meets roots x := by
  constructor
  · rintro ⟨a, ha, hx⟩
    exact ⟨a, ha, (leads_congr fun y hy => h y ⟨a, ha, hy⟩).mp hx⟩
  · rintro ⟨a, ha, hx⟩
    exact ⟨a, ha, (leads_congr fun y hy => h y ⟨a, ha, hy⟩).mpr hx⟩

end Congruence

section Ownership

/-- Nothing is reached from two of the roots. -/
def Apart (st : Store) (roots : List Nat) : Prop :=
  roots.Pairwise fun a b => ∀ x, st.Leads a x → ¬st.Leads b x

/-- Nothing is reached twice from the roots: neither from two of them nor through two
references of one cell. -/
structure Owned (st : Store) (roots : List Nat) : Prop where
  apart : st.Apart roots
  within : ∀ x, st.Meets roots x → st.Apart (st.refs x)

theorem Apart.congr (h : ∀ x, st.Meets roots x → st'.refs x = st.refs x) (ha : st.Apart roots) :
    st'.Apart roots := by
  refine List.Pairwise.imp_of_mem (fun {a b} ha' hb' hab x hx hx' => ?_) ha
  rw [leads_congr fun y hy => h y ⟨a, ha', hy⟩] at hx
  rw [leads_congr fun y hy => h y ⟨b, hb', hy⟩] at hx'
  exact hab x hx hx'

theorem Owned.congr (h : ∀ x, st.Meets roots x → st'.refs x = st.refs x) (ho : st.Owned roots) :
    st'.Owned roots := by
  refine ⟨ho.apart.congr h, fun x hx => ?_⟩
  rw [meets_congr h] at hx
  rw [h x hx]
  refine (ho.within x hx).congr fun y hy => h y ?_
  obtain ⟨z, hz, hy⟩ := hy
  exact hx.trans (ReflTransGen.head hz hy)

theorem Apart.subperm (h : st.Apart roots) (hsub : others.Subperm roots) : st.Apart others := by
  obtain ⟨l, hperm, hsublist⟩ := hsub
  have hsymm {a b : Nat} (hab : ∀ x, st.Leads a x → ¬st.Leads b x) :
      ∀ x, st.Leads b x → ¬st.Leads a x := fun x hb ha => hab x ha hb
  exact (hperm.pairwise_iff hsymm).mp (List.Pairwise.sublist hsublist h)

theorem Owned.subperm (h : st.Owned roots) (hsub : others.Subperm roots) : st.Owned others :=
  ⟨h.apart.subperm hsub, fun x hx => h.within x (hx.mono hsub.subset)⟩

/-- What two parts of the roots reach is apart. -/
theorem Owned.not_meets (h : st.Owned (roots ++ others)) (hx : st.Meets roots x) :
    ¬st.Meets others x := by
  obtain ⟨a, ha, hx⟩ := hx
  rintro ⟨b, hb, hx'⟩
  exact (List.pairwise_append.mp h.apart).2.2 a ha b hb x hx hx'

theorem owned_nil : st.Owned [] := ⟨.nil, fun _ hx => absurd hx meets_nil⟩

/-- What is owned is owned through the references of a root. -/
theorem Owned.refs (h : st.Owned [a]) : st.Owned (st.refs a) := by
  refine ⟨h.within a (meets_of_mem (by simp)), fun x hx => h.within x ?_⟩
  exact meets_singleton.mpr (leads_iff.mpr (.inr hx))

theorem Owned.left (h : st.Owned (roots ++ others)) : st.Owned roots :=
  h.subperm (List.sublist_append_left _ _).subperm

theorem Owned.right (h : st.Owned (roots ++ others)) : st.Owned others :=
  h.subperm (List.sublist_append_right _ _).subperm

/-- An address that refers to roots owns them, if it is not reached from them. -/
theorem Owned.cons (h : st.Owned (roots ++ others)) (hrefs : st.refs a = roots)
    (hnot : ¬st.Meets (roots ++ others) a) : st.Owned (a :: others) := by
  refine ⟨List.pairwise_cons.mpr ⟨fun b hb x hax hbx => ?_, h.right.apart⟩, fun x hx => ?_⟩
  · rcases leads_iff.mp hax with rfl | hax
    · exact hnot ⟨b, List.mem_append_right _ hb, hbx⟩
    · exact h.not_meets (hrefs ▸ hax) ⟨b, hb, hbx⟩
  · obtain ⟨b, hb, hbx⟩ := hx
    rcases List.mem_cons.mp hb with rfl | hb
    · rcases leads_iff.mp hbx with rfl | hbx
      · rw [hrefs]
        exact h.left.apart
      · exact h.within x (meets_append.mpr (.inl (hrefs ▸ hbx)))
    · exact h.within x (meets_append.mpr (.inr ⟨b, hb, hbx⟩))

end Ownership

section Changes

@[simp] theorem size_set (st : Store) (a : Nat) (cell : Cell) :
    (st.set a cell).cells.size = st.cells.size := by
  simp [set]

theorem cells_set_self {cell : Cell} (h : a < st.cells.size) :
    (st.set a cell).cells[a]? = some cell := by
  simp [set, h]

theorem cells_set_ne {cell : Cell} (h : x ≠ a) : (st.set a cell).cells[x]? = st.cells[x]? := by
  simp [set, h.symm]

theorem set_self {cell : Cell} (h : st.cells[a]? = some cell) : st.set a cell = st := by
  obtain ⟨cells⟩ := st
  simp only [set, Store.mk.injEq]
  refine Array.ext_getElem? fun i => ?_
  rw [Array.getElem?_setIfInBounds]
  split
  · next hi =>
    subst hi
    simp only at h
    split
    · exact h.symm
    · next hlt =>
      rw [Array.getElem?_eq_none (Nat.not_lt.mp hlt)] at h
      cases h
  · rfl

theorem set_set {cell other : Cell} : (st.set a cell).set a other = st.set a other := by
  simp only [set, Store.mk.injEq]
  refine Array.ext_getElem? fun i => ?_
  simp only [Array.getElem?_setIfInBounds, Array.size_setIfInBounds]
  grind

theorem set_comm {cell other : Cell} (h : a ≠ b) :
    (st.set a cell).set b other = (st.set b other).set a cell := by
  simp only [set, Store.mk.injEq]
  refine Array.ext_getElem? fun i => ?_
  simp only [Array.getElem?_setIfInBounds, Array.size_setIfInBounds]
  grind

theorem refs_set_self {cell : Cell} (h : a < st.cells.size) : (st.set a cell).refs a = cell.refs :=
  refs_eq (cells_set_self h)

theorem refs_set_ne {cell : Cell} (h : x ≠ a) : (st.set a cell).refs x = st.refs x :=
  refs_congr (cells_set_ne h)

/-- A change elsewhere does not matter to what is reached. -/
theorem meets_set {cell : Cell} (h : ¬st.Meets roots a) :
    (st.set a cell).Meets roots x ↔ st.Meets roots x :=
  meets_congr fun _ hy => refs_set_ne fun hya => h (hya ▸ hy)

theorem Owned.set (ho : st.Owned roots) (h : ¬st.Meets roots a) (cell : Cell) :
    (st.set a cell).Owned roots :=
  ho.congr fun _ hy => refs_set_ne fun hya => h (hya ▸ hy)

end Changes

end Store

end ScriptTree
