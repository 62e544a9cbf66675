import ScriptTree.Proofs.Store.Running
import ScriptTree.Proofs.Store.Showing
import Mathlib.Data.List.Flatten
import Mathlib.Data.List.GetD

/-!
Refilling a node. An action that fills slots is given; if it does so for the slots of a
list, of a field or of a node, then they are refilled: the refilling succeeds, keeps to the
region of the node, and leaves the trees that the slots stand for, provided that the region
is owned. Whether it is makes no difference to the success.
-/

namespace ScriptTree

open Exchange Relation

namespace Store

variable {st st₁ st' : Store} {a : Nat} {old item : Item} {t : Tree} {cell : Cell}

/-- The indices of an item that is a chain of accesses are new. -/
def FreshIndices (st st' : Store) (item : Item) : Prop :=
  ∀ a object indices computed, item = .ref a →
    st'.cells[a]? = some (.node (.memberExpression object (.ref indices) computed)) →
    ∀ b ∈ st'.refs indices, st.cells.size ≤ b

/-- What stood in a slot is refilled by an item. It stands for the tree if what stood in the
slot was owned. -/
structure Filled (st : Store) (old : Item) (t : Tree) (item : Item) (st' : Store) : Prop where
  refills : Refills st old.refs item.refs st'
  indices : FreshIndices st st' item
  shows : st.Owned old.refs → Shows st' item t

def Fills {α : Type} (f : α → Item → Refill Item) (slot : α) (t : Tree) : Prop :=
  ∀ st old, st.Sane old.refs → ∃ item st', Runs (f slot old) st item st' ∧ Filled st old t item st'

section Replacement

theorem Sane.not_meets_refs (hs : st.Sane [a]) : ¬st.Meets (st.refs a) a :=
  fun hmeets => (hs a (meets_of_mem (by simp))).2.2 (strict_iff.mpr hmeets)

/-- A cell is set after parts of it were refilled: what they reach now is kept, and so is what
the parts beside them reach. -/
theorem Refills.frame {olds news beside : List Nat} (h : Refills st olds news st') (other : Cell)
    (hs : st.Sane [a]) (ho : st.Owned [a]) (hsub : (beside ++ olds).Subperm (st.refs a)) :
    (∀ x, st'.Meets news x → (st'.set a other).cells[x]? = st'.cells[x]?) ∧
      ∀ x, st.Meets beside x → (st'.set a other).cells[x]? = st.cells[x]? := by
  have hbeside : beside ⊆ st.refs a := fun _ hx => hsub.subset (List.mem_append_left _ hx)
  have holds : olds ⊆ st.refs a := fun _ hx => hsub.subset (List.mem_append_right _ hx)
  constructor
  · intro x hx
    refine cells_set_ne ?_
    rintro rfl
    exact hs.not_meets_refs ((h.meets hx (hs.lt (by simp))).mono holds)
  · intro x hx
    have hxa : x ≠ a := by
      rintro rfl
      exact hs.not_meets_refs (hx.mono hbeside)
    rw [cells_set_ne hxa]
    exact h.kept x (hs.refs x (hx.mono hbeside)).1 ((ho.refs.subperm hsub).not_meets hx)

/-- A part of a cell is refilled and put back. The other parts stand for what they did. -/
theorem Filled.replace (h : Filled st old t item st') (other : Cell) (beside : List Nat)
    (hs : st.Sane [a])
    (hcell : st.cells[a]? = some cell) (hold : cell.refs.Perm (beside ++ old.refs))
    (hnew : other.refs.Perm (beside ++ item.refs)) (hsort : other.sort = cell.sort)
    (hfits : st'.Fits other) :
    Refills st [a] [a] (st'.set a other) ∧ st'.cells[a]? = some cell ∧
      (st.Owned [a] → Shows (st'.set a other) item t ∧
        ∀ x u, x.refs ⊆ beside → Shows st x u → Shows (st'.set a other) x u) := by
  have hrefs := refs_eq hcell
  have hlt := hs.lt (by simp : a ∈ [a])
  have hperm : (beside ++ old.refs).Perm (st.refs a) := hrefs ▸ hold.symm
  have hparts : st.Sane (beside ++ old.refs) := hs.refs.mono hperm.subset
  have hbeside : st.Sane beside := hparts.mono (List.subset_append_left _ _)
  have hall := h.refills.beside hbeside
  refine ⟨?_, ?_, fun ho => ?_⟩
  · refine ((hall.of_subperm hperm.subperm).perm hnew).closed hs rfl ?_ hfits
    rw [sortAt_eq hcell, hsort]
  · rw [h.refills.kept a hlt fun hmeets => ?_, hcell]
    exact hs.not_meets_refs
      (hmeets.mono (List.Subset.trans (List.subset_append_right _ _) hperm.subset))
  · obtain ⟨hitem, hothers⟩ := h.refills.frame other hs ho hperm.subperm
    refine ⟨(h.shows (ho.refs.subperm hperm.subperm).right).congr hitem, fun x u hx hshows => ?_⟩
    exact hshows.congr fun y hy => hothers y (hy.mono hx)

/-- Parts of a cell are given up. The others stand for what they did. -/
theorem refills_shrunk (other : Cell) (hs : st.Sane [a]) (hcell : st.cells[a]? = some cell)
    (hsub : other.refs.Subperm cell.refs) (hsort : other.sort = cell.sort)
    (hfits : st.Fits other) :
    Refills st [a] [a] (st.set a other) ∧
      ∀ x u, x.refs ⊆ other.refs → Shows st x u → Shows (st.set a other) x u := by
  have hrefs := refs_eq hcell
  constructor
  · refine ((Refills.refl hs.refs).subperm (hrefs ▸ hsub)).closed hs rfl ?_ hfits
    rw [sortAt_eq hcell, hsort]
  · intro x u hx hshows
    refine hshows.set (fun hmeets => hs.not_meets_refs ?_) other
    rw [hrefs]
    exact hmeets.mono (List.Subset.trans hx hsub.subset)

theorem fits_list (st : Store) (items : List Item) : st.Fits (.list items) := by
  intro n k h
  cases h

end Replacement

section Lists

variable {α : Type} {admits : α → Except ReadError Unit} {f : α → Item → Refill Item} {slot : α}
  {items : List Item} {trees : List Tree} {i : Nat}

theorem forall₂_shows {part : List Item} (h : List.Forall₂ (Shows st) part trees)
    (hkept : ∀ x ∈ part, ∀ u, Shows st x u → Shows st' x u) :
    List.Forall₂ (Shows st') part trees :=
  ((List.forall₂_and_left _ _).mpr ⟨hkept, h⟩).imp fun _ u hx => hx.1 u hx.2

/-- What a list refers to, divided at an index: the other items, and the item if there is one. -/
theorem perm_refs_getD (items : List Item) (i : Nat) :
    (Cell.refs (.list items)).Perm
      ((items.eraseIdx i).flatMap Item.refs ++ (items.getD i .missing).refs) := by
  by_cases hi : i < items.length
  · have hperm := (List.getElem_cons_eraseIdx_perm hi).symm.flatMap_right Item.refs
    rw [List.flatMap_cons] at hperm
    rw [List.getD_eq_getElem _ _ hi]
    exact hperm.trans List.perm_append_comm
  · rw [List.eraseIdx_of_length_le (Nat.not_lt.mp hi), List.getD_eq_default _ _ (Nat.not_lt.mp hi)]
    simp [Cell.refs, Item.refs]

theorem perm_refs_replaced (items : List Item) (i : Nat) (item : Item) :
    (Cell.refs (.list (items.take i ++ item :: items.drop (i + 1)))).Perm
      ((items.eraseIdx i).flatMap Item.refs ++ item.refs) := by
  simp only [Cell.refs, List.eraseIdx_eq_take_drop_succ, List.flatMap_append, List.flatMap_cons,
    List.append_assoc]
  exact (List.perm_append_comm).append_left _

/-- The item of a list with an index, or one behind the last, is refilled once it can be filled. -/
theorem runs_refillAt_of_fill (hadmits : admits slot = .ok ())
    (hcell : st.cells[a]? = some (.list items)) (hi : i ≤ items.length)
    (hrun : Runs (f slot (items.getD i .missing)) st item st₁)
    (hcell₁ : st₁.cells[a]? = some (.list items)) :
    Runs (refillAt admits f (.ref a) i slot) st ()
      (st₁.set a (.list (items.take i ++ item :: items.drop (i + 1)))) := by
  unfold refillAt
  rw [hadmits]
  refine (runs_ok ()).bind ((runs_size hcell).lift.bind ?_)
  by_cases hlt : i < items.length
  · have hset : items.set i item = items.take i ++ item :: items.drop (i + 1) := by
      rw [List.set_eq_take_append_cons_drop, if_pos hlt]
    rw [if_pos hlt, ← hset]
    exact (runs_numbered hcell).lift.bind (hrun.bind (runs_setItem hcell₁ hlt).lift)
  · obtain rfl : i = items.length := by omega
    have hadded : items ++ [item] =
        items.take items.length ++ item :: items.drop (items.length + 1) := by simp
    rw [List.getD_eq_default _ _ (Nat.le_refl _)] at hrun
    rw [if_neg hlt, ← hadded]
    refine (runs_modifyList hcell).lift.bind ?_
    rw [id, set_self hcell]
    exact hrun.bind (runs_append hcell₁).lift

/-- The first items of a list are refilled up to an index, and so is the next. -/
theorem runs_refillAt (hadmits : admits slot = .ok ()) (hf : Fills f slot t)
    (hcell : st.cells[a]? = some (.list items)) (hs : st.Sane [a]) (hi : i ≤ items.length) :
    ∃ items' st', Runs (refillAt admits f (.ref a) i slot) st () st' ∧ Refills st [a] [a] st' ∧
      st'.cells[a]? = some (.list items') ∧ i < items'.length ∧
      ∀ trees, st.Owned [a] → List.Forall₂ (Shows st) (items.take i) trees →
        List.Forall₂ (Shows st') (items'.take (i + 1)) (trees ++ [t]) := by
  have hold := perm_refs_getD items i
  have hsane : st.Sane (items.getD i .missing).refs := by
    refine hs.refs.mono ?_
    rw [refs_eq hcell]
    exact fun _ hx => hold.symm.subset (List.mem_append_right _ hx)
  obtain ⟨item, st₁, hrun, hfilled⟩ := hf st _ hsane
  obtain ⟨hrefills, hcell₁, hshows⟩ := hfilled.replace _ _ hs hcell hold
    (perm_refs_replaced items i item) rfl (fits_list _ _)
  refine ⟨_, _, runs_refillAt_of_fill hadmits hcell hi hrun hcell₁, hrefills,
    cells_set_self (Shows.lt_of_cell hcell₁), by simp; omega, fun trees ho htrees => ?_⟩
  obtain ⟨hitem, hothers⟩ := hshows ho
  have htake : (items.take i ++ item :: items.drop (i + 1)).take (i + 1) =
      items.take i ++ [item] := by
    simp [List.take_append, hi]
  rw [htake]
  refine List.rel_append (forall₂_shows htrees fun x hx u => hothers x u ?_) (.cons hitem .nil)
  refine Shows.refs_item ?_
  rw [List.eraseIdx_eq_take_drop_succ]
  exact List.mem_append_left _ hx

/-- The items of a list from an index on are refilled. -/
theorem runs_refillFrom {slots : List α} {news : List Tree}
    (hslots : List.Forall₂ (fun slot t => admits slot = .ok () ∧ Fills f slot t) slots news)
    (hcell : st.cells[a]? = some (.list items)) (hs : st.Sane [a]) (hi : i ≤ items.length) :
    ∃ items' st', Runs (refillFrom admits f (.ref a) i slots) st () st' ∧ Refills st [a] [a] st' ∧
      st'.cells[a]? = some (.list items') ∧ i + slots.length ≤ items'.length ∧
      ∀ trees, st.Owned [a] → List.Forall₂ (Shows st) (items.take i) trees →
        List.Forall₂ (Shows st') (items'.take (i + slots.length)) (trees ++ news) := by
  induction hslots generalizing st i items with
  | nil => exact ⟨items, st, runs_pure (), .refl hs, hcell, by simpa using hi, by simp⟩
  | @cons slot t slots news hslot _ ih =>
    obtain ⟨items₁, st₁, hrun, hrefills, hcell₁, hi₁, hshows⟩ :=
      runs_refillAt hslot.1 hslot.2 hcell hs hi
    obtain ⟨items₂, st₂, hrun₂, hrefills₂, hcell₂, hi₂, hshows₂⟩ :=
      ih hcell₁ (hrefills.sane hs) hi₁
    have hcount : i + 1 + slots.length = i + (slot :: slots).length := by
      rw [List.length_cons]
      omega
    refine ⟨items₂, st₂, hrun.bind hrun₂, hrefills.trans hrefills₂, hcell₂, hcount ▸ hi₂,
      fun trees ho htrees => ?_⟩
    have hall := hshows₂ (trees ++ [t]) (hrefills.owned ho) (hshows trees ho htrees)
    rwa [hcount, List.append_assoc] at hall

/-- A list is refilled. -/
theorem runs_refillList {slots : List α}
    (hslots : List.Forall₂ (fun slot t => admits slot = .ok () ∧ Fills f slot t) slots trees)
    (hcell : st.cells[a]? = some (.list items)) (hs : st.Sane [a]) :
    ∃ st', Runs (refillList admits f (.ref a) slots) st () st' ∧
      Filled st (.ref a) (.list trees) (.ref a) st' := by
  obtain ⟨items₁, st₁, hrun, hrefills, hcell₁, hlength, hshows⟩ :=
    runs_refillFrom hslots hcell hs (Nat.zero_le _)
  have hsub : (Cell.refs (.list (items₁.take slots.length))).Subperm (Cell.refs (.list items₁)) :=
    ((List.take_sublist _ _).flatMap _).subperm
  obtain ⟨hshrunk, hkept⟩ := refills_shrunk (.list (items₁.take slots.length)) (hrefills.sane hs)
    hcell₁ hsub rfl (fits_list _ _)
  have hcell₂ : (st₁.set a (.list (items₁.take slots.length))).cells[a]? =
      some (.list (items₁.take slots.length)) := cells_set_self (Shows.lt_of_cell hcell₁)
  refine ⟨_, hrun.bind (runs_modifyList hcell₁).lift, hrefills.trans hshrunk, ?_, fun ho => ?_⟩
  · intro b object indices computed hb hmember
    cases hb
    simp [hcell₂] at hmember
  · refine .of_forall₂ hcell₂ ?_
    have hall := hshows [] ho (by simp)
    rw [Nat.zero_add, List.nil_append] at hall
    exact forall₂_shows hall fun x hx u => hkept x u (Shows.refs_item hx)

end Lists

section Fields

variable {α : Type} {admits : α → Except ReadError Unit} {f : α → Item → Refill Item}
  {n : Node Item} {k : Kind} {field : Field} {choice : Choice α} {c : Choice Item}

/-- The fields of a node that is met are of the form of their defaults. -/
theorem Sane.takes (hs : st.Sane [a]) (hcell : st.cells[a]? = some (.node n))
    (hk : n.kind? = some k) (hfield : (field, item) ∈ n.fields) :
    st.Takes (k.default field) item :=
  (hs a (meets_of_mem (by simp))).2.1.fits _ hcell n k rfl hk field item hfield

theorem Sane.of_field (hs : st.Sane [a]) (hcell : st.cells[a]? = some (.node n))
    (hfield : (field, item) ∈ n.fields) : st.Sane item.refs :=
  hs.refs.mono (refs_eq hcell ▸ Shows.refs_field hfield)

/-- What a node refers to, divided at a field: what the others refer to, and what it does. -/
theorem refs_split (hfield : (field, old) ∈ n.fields) :
    ∃ beside, (Cell.node n).refs.Perm (beside ++ old.refs) ∧
      (∀ item, (Cell.node (n.set field item)).refs.Perm (beside ++ item.refs)) ∧
      ∀ g x, (g, x) ∈ n.fields → g ≠ field → x.refs ⊆ beside := by
  obtain ⟨before, after, hsplit, -, hset⟩ := Node.fields_split hfield
  have hperm (x : Item) : ((before ++ (field, x) :: after).flatMap fun entry => entry.2.refs).Perm
      (((before ++ after).flatMap fun entry => entry.2.refs) ++ x.refs) := by
    simp only [List.flatMap_append, List.flatMap_cons, List.append_assoc]
    exact (List.perm_append_comm).append_left _
  refine ⟨(before ++ after).flatMap fun entry => entry.2.refs, ?_, fun item => ?_,
    fun g x hx hg b hb => ?_⟩
  · rw [Cell.refs, hsplit]
    exact hperm old
  · rw [Cell.refs, hset]
    exact hperm item
  · refine List.mem_flatMap.mpr ⟨(g, x), ?_, hb⟩
    rw [hsplit] at hx
    rcases List.mem_append.mp hx with hx | hx
    · exact List.mem_append_left _ hx
    · rcases List.mem_cons.mp hx with hx | hx
      · exact absurd (Prod.mk.inj hx).1 hg
      · exact List.mem_append_right _ hx

/-- A field of a node is refilled and set. The other fields stand for what they did. -/
theorem Filled.setField (h : Filled st old t item st') (hs : st.Sane [a])
    (hcell : st.cells[a]? = some (.node n)) (hk : n.kind? = some k)
    (hfield : (field, old) ∈ n.fields) (htakes : st'.Takes (k.default field) item) :
    Refills st [a] [a] (st'.set a (.node (n.set field item))) ∧ st'.cells[a]? = some (.node n) ∧
      (st.Owned [a] → Shows (st'.set a (.node (n.set field item))) item t ∧
        ∀ g x u, (g, x) ∈ n.fields → g ≠ field → Shows st x u →
          Shows (st'.set a (.node (n.set field item))) x u) := by
  obtain ⟨beside, hold, hnew, hothers⟩ := refs_split hfield
  have hfits : st'.Fits (.node (n.set field item)) := by
    intro m k' hm hk' g x hx
    obtain rfl := Cell.node.inj hm
    obtain rfl : k = k' := by simpa [hk] using hk'
    rw [Node.fields_set] at hx
    obtain ⟨⟨g', y⟩, hy, heq⟩ := List.mem_map.mp hx
    obtain ⟨rfl, rfl⟩ := Prod.mk.inj heq
    by_cases hg : g' = field
    · rw [if_pos hg, hg]
      exact htakes
    · rw [if_neg hg]
      exact (hs.takes hcell hk hy).mono h.refills.evolves.sorts
  obtain ⟨hrefills, hcell', hshows⟩ := h.replace (.node (n.set field item)) beside hs hcell hold
    (hnew item) (by simp [Cell.sort]) hfits
  exact ⟨hrefills, hcell', fun ho =>
    ⟨(hshows ho).1, fun g x u hx hg => (hshows ho).2 x u (hothers g x hx hg)⟩⟩

/-- A field whose item stays the same is refilled. -/
theorem Filled.keepField (h : Filled st old t old st') (hs : st.Sane [a])
    (hcell : st.cells[a]? = some (.node n)) (hk : n.kind? = some k)
    (hfield : (field, old) ∈ n.fields) :
    Refills st [a] [a] st' ∧ st'.cells[a]? = some (.node n) ∧
      (st.Owned [a] → Shows st' old t ∧
        ∀ g x u, (g, x) ∈ n.fields → g ≠ field → Shows st x u → Shows st' x u) := by
  have htakes := (hs.takes hcell hk hfield).mono h.refills.evolves.sorts
  obtain ⟨hrefills, hcell', hshows⟩ := h.setField hs hcell hk hfield htakes
  rw [Node.set_of_mem hfield, set_self hcell'] at hrefills hshows
  exact ⟨hrefills, hcell', hshows⟩

theorem list_of_sortAt {b : Nat} (h : st.sortAt b = some .list) :
    ∃ items, st.cells[b]? = some (.list items) := by
  obtain ⟨cell, hcell, hsort⟩ := Option.map_eq_some_iff.mp h
  cases cell with
  | list items => exact ⟨items, hcell⟩
  | _ => cases hsort

theorem block_of_sortAt {b : Nat} (h : st.sortAt b = some (.node (some .blockStatement))) :
    ∃ body, st.cells[b]? = some (.node (.blockStatement body)) := by
  obtain ⟨cell, hcell, hsort⟩ := Option.map_eq_some_iff.mp h
  cases cell with
  | node n =>
    have hkind : n.kind? = some .blockStatement := CellSort.node.inj hsort
    cases n with
    | blockStatement body => exact ⟨body, hcell⟩
    | _ => cases hkind
  | _ => cases hsort

/-- The list in a field of a node is refilled. -/
theorem runs_refillMany {slots : List α} {trees : List Tree}
    (hslots : List.Forall₂ (fun slot t => admits slot = .ok () ∧ Fills f slot t) slots trees)
    (hs : st.Sane [a]) (hcell : st.cells[a]? = some (.node n)) (hk : n.kind? = some k)
    (hfield : (field, old) ∈ n.fields) (hdefault : k.default field = .emptyList) :
    ∃ st', Runs (refillList admits f old slots) st () st' ∧ Refills st [a] [a] st' ∧
      st'.cells[a]? = some (.node n) ∧ (st.Owned [a] → Shows st' old (.list trees) ∧
        ∀ g x u, (g, x) ∈ n.fields → g ≠ field → Shows st x u → Shows st' x u) := by
  have htakes := hs.takes hcell hk hfield
  rw [hdefault] at htakes
  obtain ⟨b, rfl, hb⟩ := htakes
  obtain ⟨items, hitems⟩ := list_of_sortAt hb
  obtain ⟨st', hrun, hfilled⟩ := runs_refillList hslots hitems (hs.of_field hcell hfield)
  exact ⟨st', hrun, hfilled.keepField hs hcell hk hfield⟩

/-- A block is refilled if its list is. -/
theorem Filled.block {b c : Nat} (h : Filled st (.ref c) t (.ref c) st') (hs : st.Sane [b])
    (hblock : st.cells[b]? = some (.node (.blockStatement (.ref c)))) :
    Filled st (.ref b) (.node (.blockStatement t)) (.ref b) st' ∧
      st'.cells[b]? = some (.node (.blockStatement (.ref c))) := by
  obtain ⟨hrefills, hblock', hshows⟩ :=
    h.keepField hs hblock rfl (by simp [Node.fields] : (Field.body, Item.ref c) ∈ _)
  refine ⟨⟨hrefills, ?_, fun ho => ?_⟩, hblock'⟩
  · intro d object indices computed hd hmember
    cases hd
    simp [hblock'] at hmember
  · refine .node (fun _ => t) hblock' fun g x hx => ?_
    obtain ⟨-, rfl⟩ : g = .body ∧ x = .ref c := by simpa [Node.fields] using hx
    exact (hshows ho).1

/-- A block holds a list. -/
theorem Sane.block {b : Nat} (hs : st.Sane [b])
    (hb : st.sortAt b = some (.node (some .blockStatement))) :
    ∃ c items, st.cells[b]? = some (.node (.blockStatement (.ref c))) ∧
      st.cells[c]? = some (.list items) := by
  obtain ⟨body, hblock⟩ := block_of_sortAt hb
  obtain ⟨c, rfl, hc⟩ : st.Takes .emptyList body :=
    hs.takes hblock rfl (by simp [Node.fields] : (Field.body, body) ∈ _)
  obtain ⟨items, hitems⟩ := list_of_sortAt hc
  exact ⟨c, items, hblock, hitems⟩

/-- The block in a field of a node is refilled. -/
theorem runs_refillBlock {slots : List α} {trees : List Tree}
    (hslots : List.Forall₂ (fun slot t => admits slot = .ok () ∧ Fills f slot t) slots trees)
    (hs : st.Sane [a]) (hcell : st.cells[a]? = some (.node n)) (hk : n.kind? = some k)
    (hfield : (field, old) ∈ n.fields) (hdefault : k.default field = .emptyBlock) :
    ∃ body st', Runs (Edit.part .body old) st body st ∧
      Runs (refillList admits f body slots) st () st' ∧ Refills st [a] [a] st' ∧
      st'.cells[a]? = some (.node n) ∧
      (st.Owned [a] → Shows st' old (.node (.blockStatement (.list trees))) ∧
        ∀ g x u, (g, x) ∈ n.fields → g ≠ field → Shows st x u → Shows st' x u) := by
  have htakes := hs.takes hcell hk hfield
  rw [hdefault] at htakes
  obtain ⟨b, rfl, hb⟩ := htakes
  have hold := hs.of_field hcell hfield
  obtain ⟨c, items, hblock, hitems⟩ := hold.block hb
  have hbody : (Field.body, Item.ref c) ∈ (Node.blockStatement (Item.ref c)).fields := by
    simp [Node.fields]
  obtain ⟨st', hrun, hfilled⟩ := runs_refillList hslots hitems (hold.of_field hblock hbody)
  exact ⟨.ref c, st', runs_part hblock (Node.get?_eq_some.mpr hbody), hrun,
    (hfilled.block hold hblock).1.keepField hs hcell hk hfield⟩

def FillsChoice (f : α → Item → Refill Item) (choice : Choice α) (t : Tree) : Prop :=
  match choice with
  | .empty => t = .choice .empty
  | .first slot => ∃ u, t = .choice (.first u) ∧ Fills f slot u
  | .second slot => ∃ u, t = .choice (.second u) ∧ Fills f slot u

theorem refs_choice (c : Choice Item) : (Item.choice c).refs = (c.value?.getD .missing).refs := by
  cases c <;> rfl

theorem runs_refillChoice (h : FillsChoice f choice t) (hs : st.Sane (Item.choice c).refs) :
    ∃ c' st', Runs (refillChoice f (.choice c) choice) st (.choice c') st' ∧
      Filled st (.choice c) t (.choice c') st' := by
  have hindices (st' : Store) (c' : Choice Item) : FreshIndices st st' (.choice c') := by
    intro b object indices computed hb
    cases hb
  rw [refs_choice] at hs
  cases choice with
  | empty =>
    obtain rfl : t = _ := h
    exact ⟨.empty, st, runs_pure _, .drop st _, hindices _ _, fun _ => .empty⟩
  | first slot =>
    obtain ⟨u, rfl, hf⟩ := h
    obtain ⟨item, st', hrun, hfilled⟩ := hf st _ hs
    refine ⟨.first item, st', hrun.bind (runs_pure _), ?_, hindices _ _, fun ho => ?_⟩
    · rw [refs_choice]
      exact hfilled.refills
    · rw [refs_choice] at ho
      exact .first (hfilled.shows ho)
  | second slot =>
    obtain ⟨u, rfl, hf⟩ := h
    obtain ⟨item, st', hrun, hfilled⟩ := hf st _ hs
    refine ⟨.second item, st', hrun.bind (runs_pure _), ?_, hindices _ _, fun ho => ?_⟩
    · rw [refs_choice]
      exact hfilled.refills
    · rw [refs_choice] at ho
      exact .second (hfilled.shows ho)

def FillsBranch (admits : α → Except ReadError Unit) (f : α → Item → Refill Item) (d : Default)
    (branch : Branch α) (t : Tree) : Prop :=
  match branch with
  | .one slot => (∀ (st : Store) item, st.Takes d item) ∧ Fills f slot t
  | .many slots => d = .emptyList ∧ ∃ trees, t = .list trees ∧
    List.Forall₂ (fun slot t => admits slot = .ok () ∧ Fills f slot t) slots trees
  | .either choice => d = .emptyChoice ∧ FillsChoice f choice t
  | .block slots => d = .emptyBlock ∧ ∃ trees, t = .node (.blockStatement (.list trees)) ∧
    List.Forall₂ (fun slot t => admits slot = .ok () ∧ Fills f slot t) slots trees

/-- A field of a node is refilled. -/
theorem runs_refillField {branch : Branch α}
    (hbranch : FillsBranch admits f (k.default field) branch t) (hs : st.Sane [a])
    (hcell : st.cells[a]? = some (.node n)) (hk : n.kind? = some k)
    (hfield : (field, old) ∈ n.fields) :
    ∃ item st', Runs (refillField admits f (.ref a) field branch) st () st' ∧
      Refills st [a] [a] st' ∧ st'.cells[a]? = some (.node (n.set field item)) ∧
      (k.default field = .emptyList → item = old) ∧
      (st.Owned [a] → Shows st' item t ∧
        ∀ g x u, (g, x) ∈ n.fields → g ≠ field → Shows st x u → Shows st' x u) := by
  have hpart := (runs_part hcell (Node.get?_eq_some.mpr hfield)).lift
  cases branch with
  | one slot =>
    obtain ⟨htakes, hf⟩ := hbranch
    obtain ⟨item, st', hrun, hfilled⟩ := hf st old (hs.of_field hcell hfield)
    obtain ⟨hrefills, hcell', hshows⟩ := hfilled.setField hs hcell hk hfield (htakes st' item)
    refine ⟨item, _, hpart.bind (hrun.bind (runs_setPart hcell').lift), hrefills,
      cells_set_self (Shows.lt_of_cell hcell'), fun hlist => ?_, hshows⟩
    obtain ⟨b, hb, -⟩ : st.Takes .emptyList .missing := hlist ▸ htakes st .missing
    cases hb
  | many slots =>
    obtain ⟨hdefault, trees, rfl, hslots⟩ := hbranch
    obtain ⟨st', hrun, hrefills, hcell', hshows⟩ :=
      runs_refillMany hslots hs hcell hk hfield hdefault
    refine ⟨old, st', hpart.bind hrun, hrefills, ?_, fun _ => rfl, hshows⟩
    rw [Node.set_of_mem hfield, hcell']
  | either choice =>
    obtain ⟨hdefault, hchoice⟩ := hbranch
    have htakes := hs.takes hcell hk hfield
    rw [hdefault] at htakes
    obtain ⟨c, rfl⟩ := htakes
    obtain ⟨c', st', hrun, hfilled⟩ := runs_refillChoice hchoice (hs.of_field hcell hfield)
    obtain ⟨hrefills, hcell', hshows⟩ := hfilled.setField hs hcell hk hfield (hdefault ▸ ⟨c', rfl⟩)
    exact ⟨.choice c', _,
      hpart.bind (runs_view.lift.bind (hrun.bind (runs_setPart hcell').lift)), hrefills,
      cells_set_self (Shows.lt_of_cell hcell'), by simp [hdefault], hshows⟩
  | block slots =>
    obtain ⟨hdefault, trees, rfl, hslots⟩ := hbranch
    obtain ⟨body, st', hbody, hrun, hrefills, hcell', hshows⟩ :=
      runs_refillBlock hslots hs hcell hk hfield hdefault
    refine ⟨old, st', hpart.bind (hbody.lift.bind hrun), hrefills, ?_, fun _ => rfl, hshows⟩
    rw [Node.set_of_mem hfield, hcell']

def Shown (st : Store) (n : Node Item) (trees : Field → Tree) (fields : List Field) : Prop :=
  ∀ g x, (g, x) ∈ n.fields → g ∈ fields → Shows st x (trees g)

def KeepsLists (k : Kind) (n n' : Node Item) : Prop :=
  ∀ g x, k.default g = .emptyList → (g, x) ∈ n.fields → (g, x) ∈ n'.fields

/-- Fields of a node are refilled one after another. Those that stood for their trees before
still do. -/
theorem runs_refillFields {branches : List (Field × Branch α)} {trees : Field → Tree}
    (hbranches : ∀ g b, (g, b) ∈ branches →
      FillsBranch admits f (k.default g) b (trees g) ∧ ∃ x, (g, x) ∈ n.fields)
    (hs : st.Sane [a]) (hcell : st.cells[a]? = some (.node n)) (hk : n.kind? = some k) :
    ∃ n' st', Runs (branches.forM fun (field, branch) => refillField admits f (.ref a) field branch)
        st () st' ∧
      Refills st [a] [a] st' ∧ st'.cells[a]? = some (.node n') ∧ n'.kind? = some k ∧
      KeepsLists k n n' ∧ ∀ shown, st.Owned [a] → Shown st n trees shown →
        Shown st' n' trees (shown ++ branches.map Prod.fst) := by
  induction branches generalizing st n with
  | nil => exact ⟨n, st, runs_pure (), .refl hs, hcell, hk, fun _ _ _ hx => hx, by simp⟩
  | cons entry branches ih =>
    obtain ⟨g, branch⟩ := entry
    obtain ⟨hbranch, old, hfield⟩ := hbranches g branch (by simp)
    obtain ⟨item, st₁, hrun, hrefills, hcell₁, hlist, hshows⟩ :=
      runs_refillField hbranch hs hcell hk hfield
    have hkeeps : KeepsLists k n (n.set g item) := by
      intro h x hdefault hx
      rw [Node.fields_set]
      refine List.mem_map.mpr ⟨(h, x), hx, ?_⟩
      by_cases hg : h = g
      · subst hg
        rw [if_pos rfl, hlist hdefault, Node.eq_of_mem_fields hx hfield]
      · rw [if_neg hg]
    have hk₁ : (n.set g item).kind? = some k := by rwa [Node.kind?_set]
    have hrest (h : Field) (b : Branch α) (hb : (h, b) ∈ branches) :
        FillsBranch admits f (k.default h) b (trees h) ∧ ∃ x, (h, x) ∈ (n.set g item).fields := by
      obtain ⟨hfills, x, hx⟩ := hbranches h b (List.mem_cons_of_mem _ hb)
      exact ⟨hfills, Node.exists_field hk₁ hk item hx⟩
    obtain ⟨n', st', hrun', hrefills', hcell', hk', hkeeps', hshown'⟩ :=
      ih hrest (hrefills.sane hs) hcell₁ hk₁
    refine ⟨n', st', hrun.bind hrun', hrefills.trans hrefills', hcell', hk',
      fun h x hdefault hx => hkeeps' h x hdefault (hkeeps h x hdefault hx),
      fun shown ho hshown => ?_⟩
    obtain ⟨hitem, hothers⟩ := hshows ho
    have hshown₁ : Shown st₁ (n.set g item) trees (shown ++ [g]) := by
      intro h x hx hmem
      rw [Node.fields_set] at hx
      obtain ⟨⟨h', y⟩, hy, heq⟩ := List.mem_map.mp hx
      obtain ⟨rfl, rfl⟩ := Prod.mk.inj heq
      by_cases hg : h' = g
      · rw [if_pos hg, hg]
        exact hitem
      · rw [if_neg hg]
        exact hothers h' y _ hy hg (hshown h' y hy (by simpa [hg] using hmem))
    have hall := hshown' (shown ++ [g]) (hrefills.owned ho) hshown₁
    rwa [List.append_assoc] at hall

/-- A node that is no chain is refilled field by field. -/
theorem refillNode_eq {shape : Node (Branch α)} {target : Item} (hshape : shape.kind? = some k)
    (hbinary : k ≠ .binaryExpression) (hmember : k ≠ .memberExpression) :
    refillNode admits f target shape = shape.readFields.forM fun (field, branch) =>
      refillField admits f target field branch := by
  cases shape with
  | binaryExpression => exact absurd (Option.some.inj hshape).symm hbinary
  | memberExpression => exact absurd (Option.some.inj hshape).symm hmember
  | _ => rfl

/-- A node that is no chain is refilled. -/
theorem runs_refillNode {shape : Node (Branch α)} {m : Node Tree} (hshape : shape.kind? = some k)
    (hm : m.kind? = some k) (hbinary : k ≠ .binaryExpression) (hmember : k ≠ .memberExpression)
    (hbranches : ∀ g b, (g, b) ∈ shape.readFields →
      FillsBranch admits f (k.default g) b ((m.get? g).getD .missing))
    (hkind : ∀ kind, (Field.declarationKind, kind) ∈ m.fields →
      kind = .ofMember (.variableKind .var))
    (hs : st.Sane [a]) (hcell : st.cells[a]? = some (.node n)) (hk : n.kind? = some k) :
    ∃ n' st', Runs (refillNode admits f (.ref a) shape) st () st' ∧
      Filled st (.ref a) (.node m) (.ref a) st' ∧ st'.cells[a]? = some (.node n') ∧
      n'.kind? = some k ∧ KeepsLists k n n' := by
  obtain ⟨n', st', hrun, hrefills, hcell', hk', hkeeps, hshown⟩ :=
    runs_refillFields (k := k) (n := n) (fun g b hb => ⟨hbranches g b hb,
      Node.exists_field hk hshape .missing (Node.mem_fields_of_readFields hb)⟩) hs hcell hk
  refine ⟨n', st', ?_, ⟨hrefills, ?_, fun ho => ?_⟩, hcell', hk', hkeeps⟩
  · rw [refillNode_eq hshape hbinary hmember]
    exact hrun
  · intro b object indices computed hb hcell''
    cases hb
    rw [hcell', Option.some.injEq, Cell.node.injEq] at hcell''
    rw [hcell''] at hk'
    exact absurd (Option.some.inj hk').symm hmember
  · rw [← Node.mapFields_get? hk' hm .missing .missing]
    refine .node _ hcell' fun g x hx => hshown [.declarationKind] ho ?_ g x hx ?_
    · intro h y hy hmem
      obtain rfl : h = .declarationKind := by simpa using hmem
      obtain ⟨kind, hfield⟩ := Node.exists_field hm hk Tree.missing hy
      have hvalue : m.get? .declarationKind = some kind := Node.get?_eq_some.mpr hfield
      simp only [hvalue, Option.getD_some, hkind kind hfield]
      rw [show y = .ofMember (.variableKind .var) from hs.takes hcell hk hy]
      exact .atom _
    · obtain ⟨branch, hbranch⟩ := Node.exists_field hshape hk' (.many []) hx
      rcases Node.mem_readFields hbranch with hread | rfl
      · exact List.mem_cons_of_mem _ (List.mem_map.mpr ⟨_, hread, rfl⟩)
      · exact List.mem_cons_self

end Fields

end Store

end ScriptTree
