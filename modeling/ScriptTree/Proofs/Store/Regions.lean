import ScriptTree.Proofs.Store.Reachability

/-!
How a store develops while something in it is refilled. What a field holds may be changed,
lists grow and shrink and new cells are added, but no cell changes its sort, and nothing
comes to be reached from a cell that was not reached from it before, save new cells. Such
changes are put together like the changes of a region that is described by its roots: they
can be made beside other roots, roots can be opened into what they refer to and closed
again, and new cells can take in roots.
-/

namespace ScriptTree

open Relation

/-- What sort of thing a cell is; no cell changes it. -/
inductive CellSort where
  | node (kind? : Option Kind)
  | list
  | object
deriving DecidableEq

def Cell.sort : Cell → CellSort
  | .node n => .node n.kind?
  | .list _ => .list
  | .object => .object

namespace Store

variable {st st₁ st₂ st' : Store} {a b c x : Nat} {roots others olds news kept : List Nat}
  {cell : Cell}

def sortAt (st : Store) (a : Nat) : Option CellSort := st.cells[a]?.map Cell.sort

theorem sortAt_eq (h : st.cells[a]? = some cell) : st.sortAt a = some cell.sort := by
  rw [sortAt, h]
  rfl

theorem lt_of_sortAt {s : CellSort} (h : st.sortAt a = some s) : a < st.cells.size := by
  by_contra hnot
  have hcell : st.cells[a]? = none := by simpa using hnot
  simp [sortAt, hcell] at h

/-- The item is of the form of a default: a list, a block or a choice where one is made
without being given, and the one kind of declarations where that is. -/
def Takes (st : Store) (d : Default) (item : Item) : Prop :=
  match d with
  | .emptyList => ∃ a, item = .ref a ∧ st.sortAt a = some .list
  | .emptyBlock => ∃ a, item = .ref a ∧ st.sortAt a = some (.node (some .blockStatement))
  | .emptyChoice => ∃ c, item = .choice c
  | .atom (.member (.variableKind kind)) => item = .ofMember (.variableKind kind)
  | _ => True

def Fits (st : Store) (cell : Cell) : Prop :=
  ∀ n k, cell = .node n → n.kind? = some k →
    ∀ f item, (f, item) ∈ n.fields → st.Takes (k.default f) item

/-- The cell at an address refers to cells of the store, and its fields are of the form of
their defaults. -/
structure Formed (st : Store) (a : Nat) : Prop where
  bounded : ∀ b, st.Refers a b → b < st.cells.size
  fits : ∀ cell, st.cells[a]? = some cell → st.Fits cell

/-- Everything that is reached from the roots is in the store and formed, and nothing of it
is a part of itself. -/
def Sane (st : Store) (roots : List Nat) : Prop :=
  ∀ x, st.Meets roots x → x < st.cells.size ∧ st.Formed x ∧ ¬TransGen st.Refers x x

theorem Takes.mono {d : Default} {item : Item}
    (hsorts : ∀ a s, st.sortAt a = some s → st'.sortAt a = some s) (h : st.Takes d item) :
    st'.Takes d item := by
  unfold Takes at *
  split at h
  · obtain ⟨a, rfl, ha⟩ := h
    exact ⟨a, rfl, hsorts a _ ha⟩
  · obtain ⟨a, rfl, ha⟩ := h
    exact ⟨a, rfl, hsorts a _ ha⟩
  · exact h
  · exact h
  · trivial

theorem Fits.mono (hsorts : ∀ a s, st.sortAt a = some s → st'.sortAt a = some s)
    (h : st.Fits cell) : st'.Fits cell :=
  fun n k hcell hk f item hitem => (h n k hcell hk f item hitem).mono hsorts

theorem Sane.mono (h : st.Sane roots) (hsub : others ⊆ roots) : st.Sane others :=
  fun x hx => h x (hx.mono hsub)

theorem Sane.lt (h : st.Sane roots) (ha : a ∈ roots) : a < st.cells.size :=
  (h a (meets_of_mem ha)).1

theorem Sane.refs (h : st.Sane [a]) : st.Sane (st.refs a) :=
  fun x hx => h x (meets_singleton.mpr (leads_iff.mpr (.inr hx)))

theorem sane_nil : st.Sane [] := fun _ hx => absurd hx meets_nil

section Evolution

structure Evolves (st st' : Store) : Prop where
  size_le : st.cells.size ≤ st'.cells.size
  sorts : ∀ a s, st.sortAt a = some s → st'.sortAt a = some s
  /-- A cell refers to new cells and to what was reached from it before. -/
  refers : ∀ a b, st'.Refers a b → b < st.cells.size → TransGen st.Refers a b
  formed : ∀ a, a < st.cells.size → st.Formed a → st'.Formed a
  fresh : ∀ a, st.cells.size ≤ a → a < st'.cells.size →
    st'.Formed a ∧ ¬TransGen st'.Refers a a

namespace Evolves

theorem leads (h : Evolves st st') (hab : st'.Leads a b) (hb : b < st.cells.size) :
    st.Leads a b := by
  induction hab using ReflTransGen.head_induction_on with
  | refl => exact .refl
  | @head a c hac _ ih =>
    by_cases hc : c < st.cells.size
    · exact ReflTransGen.trans (h.refers a c hac hc).to_reflTransGen ih
    · exact absurd (ih.eq_of_size_le (Nat.not_lt.mp hc) ▸ hb) hc

theorem strict (h : Evolves st st') (hab : TransGen st'.Refers a b) (hb : b < st.cells.size) :
    TransGen st.Refers a b := by
  obtain ⟨c, hac, hcb⟩ := TransGen.head'_iff.mp hab
  have hlead := h.leads hcb hb
  by_cases hc : c < st.cells.size
  · exact TransGen.trans_left (h.refers a c hac hc) hlead
  · exact absurd (hlead.eq_of_size_le (Nat.not_lt.mp hc) ▸ hb) hc

/-- New cells do not lead to old ones. -/
theorem size_le_of_leads (h : Evolves st st') (hab : st'.Leads a b) (ha : st.cells.size ≤ a) :
    st.cells.size ≤ b := by
  by_contra hb
  have hb := Nat.not_le.mp hb
  rw [(h.leads hab hb).eq_of_size_le ha] at hb
  omega

/-- What new cells lead to is in the store. -/
theorem lt_of_leads (h : Evolves st st') (hab : st'.Leads a b) (ha : st.cells.size ≤ a)
    (ha' : a < st'.cells.size) : b < st'.cells.size := by
  induction hab with
  | refl => exact ha'
  | @tail c d hac hcd ih =>
    exact (h.fresh c (h.size_le_of_leads hac ha) ih).1.bounded d hcd

theorem refl (st : Store) : Evolves st st where
  size_le := Nat.le_refl _
  sorts _ _ h := h
  refers _ _ h _ := .single h
  formed _ _ h := h
  fresh a ha ha' := by omega

theorem trans (h : Evolves st st₁) (h' : Evolves st₁ st₂) : Evolves st st₂ where
  size_le := Nat.le_trans h.size_le h'.size_le
  sorts a s hs := h'.sorts a s (h.sorts a s hs)
  refers a b hab hb := h.strict (h'.refers a b hab (Nat.lt_of_lt_of_le hb h.size_le)) hb
  formed a ha hf := h'.formed a (Nat.lt_of_lt_of_le ha h.size_le) (h.formed a ha hf)
  fresh a ha ha' := by
    by_cases hlt : a < st₁.cells.size
    · obtain ⟨hformed, hacyclic⟩ := h.fresh a ha hlt
      exact ⟨h'.formed a hlt hformed, fun hcycle => hacyclic (h'.strict hcycle hlt)⟩
    · exact h'.fresh a (Nat.not_lt.mp hlt) ha'

end Evolves

end Evolution

section Regions

/-- What stood under old roots is refilled and stands under new ones: cells that the old
roots do not reach are kept, the new roots are new cells or reached by the old ones, and
what was owned stays so. -/
structure Refills (st : Store) (olds news : List Nat) (st' : Store) : Prop where
  evolves : Evolves st st'
  kept : ∀ a, a < st.cells.size → ¬st.Meets olds a → st'.cells[a]? = st.cells[a]?
  source : ∀ b ∈ news, b < st'.cells.size ∧ (b < st.cells.size → st.Meets olds b)
  owned : st.Owned olds → st'.Owned news

namespace Refills

theorem meets (h : Refills st olds news st') (hx : st'.Meets news x) (hlt : x < st.cells.size) :
    st.Meets olds x := by
  obtain ⟨b, hb, hbx⟩ := hx
  have hlead := h.evolves.leads hbx hlt
  by_cases hlt' : b < st.cells.size
  · exact ((h.source b hb).2 hlt').trans hlead
  · exact absurd (hlead.eq_of_size_le (Nat.not_lt.mp hlt') ▸ hlt) hlt'

theorem sane (h : Refills st olds news st') (hs : st.Sane olds) : st'.Sane news := by
  have hformed (x : Nat) (hx : st'.Meets news x) (hlt : x < st'.cells.size) :
      st'.Formed x ∧ ¬TransGen st'.Refers x x := by
    by_cases hold : x < st.cells.size
    · obtain ⟨-, hf, hacyclic⟩ := hs x (h.meets hx hold)
      exact ⟨h.evolves.formed x hold hf, fun hcycle => hacyclic (h.evolves.strict hcycle hold)⟩
    · exact h.evolves.fresh x (Nat.not_lt.mp hold) hlt
  have hbounded (x : Nat) (hx : st'.Meets news x) : x < st'.cells.size := by
    obtain ⟨b, hb, hbx⟩ := hx
    induction hbx with
    | refl => exact (h.source b hb).1
    | @tail y z hy hyz ih => exact (hformed y ⟨b, hb, hy⟩ ih).1.bounded z hyz
  exact fun x hx => ⟨hbounded x hx, hformed x hx (hbounded x hx)⟩

/-- Roots that are left alone. -/
theorem refl (hs : st.Sane olds) : Refills st olds olds st where
  evolves := .refl st
  kept _ _ _ := rfl
  source _ hb := ⟨hs.lt hb, fun _ => meets_of_mem hb⟩
  owned := id

theorem trans (h : Refills st olds kept st₁) (h' : Refills st₁ kept news st₂) :
    Refills st olds news st₂ where
  evolves := h.evolves.trans h'.evolves
  kept a ha hnot := by
    have hlt := Nat.lt_of_lt_of_le ha h.evolves.size_le
    rw [h'.kept a hlt fun hmeets => hnot (h.meets hmeets ha), h.kept a ha hnot]
  source b hb := by
    obtain ⟨hlt, hmeets⟩ := h'.source b hb
    exact ⟨hlt, fun hold => h.meets (hmeets (Nat.lt_of_lt_of_le hold h.evolves.size_le)) hold⟩
  owned := h'.owned ∘ h.owned

/-- Some of the new roots may be forgotten, and they may be taken in any order. -/
theorem subperm (h : Refills st olds news st') (hsub : others.Subperm news) :
    Refills st olds others st' where
  evolves := h.evolves
  kept := h.kept
  source b hb := h.source b (hsub.subset hb)
  owned ho := (h.owned ho).subperm hsub

theorem perm (h : Refills st olds news st') (hperm : others.Perm news) :
    Refills st olds others st' := h.subperm hperm.subperm

/-- The old roots may be taken in any order, and there may be more of them. -/
theorem of_subperm (h : Refills st olds news st') (hsub : olds.Subperm others) :
    Refills st others news st' where
  evolves := h.evolves
  kept a ha hnot := h.kept a ha fun hmeets => hnot (hmeets.mono hsub.subset)
  source b hb := ⟨(h.source b hb).1, fun hlt => ((h.source b hb).2 hlt).mono hsub.subset⟩
  owned ho := h.owned (ho.subperm hsub)

/-- Nothing is refilled, and nothing is asked for. -/
theorem drop (st : Store) (olds : List Nat) : Refills st olds [] st where
  evolves := .refl st
  kept _ _ _ := rfl
  source b hb := by simp at hb
  owned _ := owned_nil

/-- What is reached from other roots is kept if it is apart from what is refilled. -/
theorem cells_eq (h : Refills st olds news st') (hs : st.Sane others)
    (hapart : ∀ x, st.Meets others x → ¬st.Meets olds x) (hx : st.Meets others x) :
    st'.cells[x]? = st.cells[x]? :=
  h.kept x (hs x hx).1 (hapart x hx)

/-- Refilling goes on beside other roots. -/
theorem beside (h : Refills st olds news st') (hs : st.Sane others) :
    Refills st (others ++ olds) (others ++ news) st' where
  evolves := h.evolves
  kept a ha hnot := h.kept a ha fun hmeets => hnot (meets_append.mpr (.inr hmeets))
  source b hb := by
    rcases List.mem_append.mp hb with hb | hb
    · exact ⟨Nat.lt_of_lt_of_le (hs.lt hb) h.evolves.size_le,
        fun _ => meets_append.mpr (.inl (meets_of_mem hb))⟩
    · obtain ⟨hlt, hmeets⟩ := h.source b hb
      exact ⟨hlt, fun hold => meets_append.mpr (.inr (hmeets hold))⟩
  owned ho := by
    have hkept (x : Nat) (hx : st.Meets others x) : st'.refs x = st.refs x :=
      refs_congr (h.cells_eq hs (fun _ => ho.not_meets) hx)
    have hothers : st'.Owned others := ho.left.congr hkept
    have hnews : st'.Owned news := h.owned ho.right
    refine ⟨List.pairwise_append.mpr ⟨hothers.apart, hnews.apart, ?_⟩, fun x hx => ?_⟩
    · intro a ha b hb x hax hbx
      have hmeets : st.Meets others x := (meets_congr hkept).mp ⟨a, ha, hax⟩
      exact ho.not_meets hmeets (h.meets ⟨b, hb, hbx⟩ (hs x hmeets).1)
    · rcases meets_append.mp hx with hx | hx
      · exact hothers.within x hx
      · exact hnews.within x hx

/-- New cells are added, and all others are kept. -/
theorem cells_grown (h : Refills st [] news st') (hx : x < st.cells.size) :
    st'.cells[x]? = st.cells[x]? :=
  h.kept x hx meets_nil

/-- New cells are added after roots have been refilled. -/
theorem grown (h : Refills st olds news st₁) (hs : st.Sane olds) (h' : Refills st₁ [] others st₂) :
    Refills st olds (news ++ others) st₂ := by
  have hbeside := h'.beside (h.sane hs)
  rw [List.append_nil] at hbeside
  exact h.trans hbeside

/-- What is added leads to new cells only. -/
theorem size_le_of_meets (h : Refills st [] news st') (hx : st'.Meets news x) :
    st.cells.size ≤ x :=
  Nat.not_lt.mp fun hlt => meets_nil (h.meets hx hlt)

end Refills

end Regions

section Cells

/-- The references of a cell are asked for instead of the cell. -/
theorem refills_refs (hs : st.Sane [a]) : Refills st [a] (st.refs a) st where
  evolves := .refl st
  kept _ _ _ := rfl
  source _ hb :=
    ⟨hs.refs.lt hb, fun _ => meets_singleton.mpr (leads_iff.mpr (.inr (meets_of_mem hb)))⟩
  owned ho := ho.refs

theorem sortAt_set (h : st.sortAt a = some cell.sort) (x : Nat) :
    (st.set a cell).sortAt x = st.sortAt x := by
  by_cases hx : x = a
  · subst hx
    rw [h]
    exact sortAt_eq (cells_set_self (lt_of_sortAt h))
  · rw [sortAt, sortAt, cells_set_ne hx]

/-- A cell that takes in new references stays formed, and so do all others. -/
theorem Formed.set (h : st.Formed x) (hsort : st.sortAt a = some cell.sort)
    (hne : x ≠ a) : (st.set a cell).Formed x := by
  constructor
  · intro b hb
    rw [size_set]
    exact h.bounded b (by rwa [Refers, refs_set_ne hne] at hb)
  · intro other hother
    rw [cells_set_ne hne] at hother
    exact (h.fits other hother).mono fun y s hs => by rwa [sortAt_set hsort]

theorem formed_set_self (hsort : st.sortAt a = some cell.sort) (hfits : st.Fits cell)
    (hbounded : ∀ b ∈ cell.refs, b < st.cells.size) : (st.set a cell).Formed a := by
  have ha := lt_of_sortAt hsort
  constructor
  · intro b hb
    rw [size_set]
    exact hbounded b (by rwa [Refers, refs_set_self ha] at hb)
  · intro other hother
    rw [cells_set_self ha, Option.some.injEq] at hother
    exact hother ▸ hfits.mono fun y s hs => by rwa [sortAt_set hsort]

theorem strict_set (h : ¬st.Leads x a) :
    TransGen (st.set a cell).Refers x x ↔ TransGen st.Refers x x := by
  have hne : x ≠ a := fun hxa => h (hxa ▸ .refl)
  have hrefs : ¬st.Meets (st.refs x) a := fun hmeets => h (leads_iff.mpr (.inr hmeets))
  rw [strict_iff, strict_iff, refs_set_ne hne, meets_set hrefs]

/-- A cell takes in some of the new roots, which neither reach it nor are reached from
another root that does. -/
theorem Refills.close (h : Refills st olds (news ++ kept) st') (ha : st.Meets olds a)
    (hedges : ∀ b ∈ news, b < st.cells.size → TransGen st.Refers a b)
    (hapart : st.Owned olds → ¬st'.Meets (news ++ kept) a) (hrefs : cell.refs = news)
    (hsort : st.sortAt a = some cell.sort) (hfits : st'.Fits cell) :
    Refills st olds (a :: kept) (st'.set a cell) where
  evolves := by
    have hlt := lt_of_sortAt hsort
    have hsort' := h.evolves.sorts a _ hsort
    have hlt' := lt_of_sortAt hsort'
    have hself : (st'.set a cell).Formed a := by
      refine formed_set_self hsort' hfits fun b hb => ?_
      exact (h.source b (List.mem_append_left _ (hrefs ▸ hb))).1
    refine ⟨by simpa using h.evolves.size_le, ?_, ?_, ?_, ?_⟩
    · intro x s hs
      rw [sortAt_set hsort']
      exact h.evolves.sorts x s hs
    · intro x b hxb hb
      by_cases hx : x = a
      · subst hx
        rw [Refers, refs_set_self hlt', hrefs] at hxb
        exact hedges b hxb hb
      · rw [Refers, refs_set_ne hx] at hxb
        exact h.evolves.refers x b hxb hb
    · intro x hx hf
      by_cases hxa : x = a
      · exact hxa ▸ hself
      · exact (h.evolves.formed x hx hf).set hsort' hxa
    · intro x hx hx'
      have hxa : x ≠ a := by omega
      rw [size_set] at hx'
      obtain ⟨hf, hacyclic⟩ := h.evolves.fresh x hx hx'
      refine ⟨hf.set hsort' hxa, ?_⟩
      rwa [strict_set fun hlead => absurd (h.evolves.size_le_of_leads hlead hx) (by omega)]
  kept x hx hnot := by
    have hxa : x ≠ a := by
      rintro rfl
      exact hnot ha
    rw [cells_set_ne hxa, h.kept x hx hnot]
  source b hb := by
    rw [size_set]
    rcases List.mem_cons.mp hb with rfl | hb
    · exact ⟨lt_of_sortAt (h.evolves.sorts _ _ hsort), fun _ => ha⟩
    · exact h.source b (List.mem_append_right _ hb)
  owned ho := by
    have hlt' := lt_of_sortAt (h.evolves.sorts a _ hsort)
    have hnot := hapart ho
    exact ((h.owned ho).set hnot cell).cons ((refs_set_self hlt').trans hrefs)
      fun hmeets => hnot ((meets_set hnot).mp hmeets)

/-- A cell takes in what its references were refilled as. -/
theorem Refills.closed (h : Refills st (st.refs a) news st') (hs : st.Sane [a])
    (hrefs : cell.refs = news) (hsort : st.sortAt a = some cell.sort) (hfits : st'.Fits cell) :
    Refills st [a] [a] (st'.set a cell) := by
  obtain ⟨hlt, -, hacyclic⟩ := hs a (meets_of_mem (by simp))
  have hopen : Refills st [a] (news ++ []) st' := by
    simpa using (refills_refs hs).trans h
  refine hopen.close (meets_of_mem (by simp)) ?_ ?_ hrefs hsort hfits
  · exact fun b hb hold => strict_iff.mpr ((h.source b hb).2 hold)
  · intro _ hmeets
    rw [List.append_nil] at hmeets
    exact hacyclic (strict_iff.mpr (h.meets hmeets hlt))

end Cells

section Allocation

@[simp] theorem size_push (st : Store) (cell : Cell) :
    (Store.mk (st.cells.push cell)).cells.size = st.cells.size + 1 := by
  simp

theorem cells_push_lt (h : x < st.cells.size) :
    (Store.mk (st.cells.push cell)).cells[x]? = st.cells[x]? := by
  simp [Array.getElem?_push, Nat.ne_of_lt h]

theorem cells_push_self : (Store.mk (st.cells.push cell)).cells[st.cells.size]? = some cell := by
  simp

theorem sortAt_push {s : CellSort} (h : st.sortAt a = some s) :
    (Store.mk (st.cells.push cell)).sortAt a = some s := by
  rw [← h, sortAt, sortAt, cells_push_lt (lt_of_sortAt h)]

theorem refs_push_lt (h : x < st.cells.size) :
    (Store.mk (st.cells.push cell)).refs x = st.refs x := refs_congr (cells_push_lt h)

theorem Formed.push (h : st.Formed x) (hx : x < st.cells.size) :
    (Store.mk (st.cells.push cell)).Formed x := by
  constructor
  · intro b hb
    rw [Refers, refs_push_lt hx] at hb
    have hlt := h.bounded b hb
    rw [size_push]
    omega
  · intro other hother
    rw [cells_push_lt hx] at hother
    exact (h.fits other hother).mono fun _ _ => sortAt_push

/-- A new cell takes in some of the new roots. -/
theorem Refills.alloc (h : Refills st [] (news ++ kept) st') (hrefs : cell.refs = news)
    (hfits : st'.Fits cell) :
    Refills st [] (st'.cells.size :: kept) ⟨st'.cells.push cell⟩ := by
  have hle := h.evolves.size_le
  -- Nothing that is reached from the new roots is out of the store, so none of it changes.
  have hbounded {x : Nat} (hx : st'.Meets (news ++ kept) x) : x < st'.cells.size :=
    (h.sane sane_nil x hx).1
  have hself : (Store.mk (st'.cells.push cell)).refs st'.cells.size = news :=
    (refs_eq cells_push_self).trans hrefs
  have hmeets {x : Nat} {roots : List Nat} (hsub : roots ⊆ news ++ kept) :
      (Store.mk (st'.cells.push cell)).Meets roots x ↔ st'.Meets roots x :=
    meets_congr fun _ hy => refs_push_lt (hbounded (hy.mono hsub))
  have hsource {b : Nat} (hb : b ∈ news ++ kept) : st.cells.size ≤ b ∧ b < st'.cells.size := by
    obtain ⟨hlt, hold⟩ := h.source b hb
    exact ⟨Nat.not_lt.mp fun hlt => meets_nil (hold hlt), hlt⟩
  refine ⟨⟨?_, fun x s hs => sortAt_push (h.evolves.sorts x s hs), ?_, ?_, ?_⟩, ?_, ?_, ?_⟩
  · rw [size_push]
    omega
  · intro x b hxb hb
    have hx := hxb.lt
    rw [size_push] at hx
    by_cases hlt : x < st'.cells.size
    · rw [Refers, refs_push_lt hlt] at hxb
      exact h.evolves.refers x b hxb hb
    · obtain rfl : x = st'.cells.size := by omega
      rw [Refers, hself] at hxb
      have hb' := (hsource (List.mem_append_left _ hxb)).1
      omega
  · intro x hx hf
    exact (h.evolves.formed x hx hf).push (by omega)
  · intro x hx hx'
    rw [size_push] at hx'
    by_cases hlt : x < st'.cells.size
    · obtain ⟨hf, hacyclic⟩ := h.evolves.fresh x hx hlt
      refine ⟨hf.push hlt, fun hcycle => hacyclic ?_⟩
      rw [strict_iff, refs_push_lt hlt] at hcycle
      refine strict_iff.mpr ((meets_congr fun y hy => refs_push_lt ?_).mp hcycle)
      exact h.evolves.lt_of_leads (leads_iff.mpr (.inr hy)) hx hlt
    · obtain rfl : x = st'.cells.size := by omega
      refine ⟨⟨fun b hb => ?_, fun other hother => ?_⟩, fun hcycle => ?_⟩
      · rw [Refers, hself] at hb
        have hb' := (hsource (List.mem_append_left _ hb)).2
        rw [size_push]
        omega
      · rw [cells_push_self, Option.some.injEq] at hother
        exact hother ▸ hfits.mono fun _ _ => sortAt_push
      · rw [strict_iff, hself, hmeets (List.subset_append_left _ _)] at hcycle
        exact Nat.lt_irrefl _ (hbounded (meets_append.mpr (.inl hcycle)))
  · intro x hx hnot
    rw [cells_push_lt (Nat.lt_of_lt_of_le hx hle), h.kept x hx hnot]
  · intro b hb
    rw [size_push]
    rcases List.mem_cons.mp hb with rfl | hb
    · exact ⟨by omega, fun hlt => by omega⟩
    · have hb' := hsource (List.mem_append_right _ hb)
      exact ⟨by omega, fun hlt => by omega⟩
  · intro ho
    have hall : (Store.mk (st'.cells.push cell)).Owned (news ++ kept) :=
      (h.owned ho).congr fun _ hy => refs_push_lt (hbounded hy)
    refine hall.cons hself fun hx => ?_
    rw [hmeets (List.Subset.refl _)] at hx
    exact Nat.lt_irrefl _ (hbounded hx)

end Allocation

end Store

end ScriptTree
