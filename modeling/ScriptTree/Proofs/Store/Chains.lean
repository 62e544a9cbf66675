import ScriptTree.Proofs.Store.Filling
import ScriptTree.Proofs.Exchange.Soundness

/-!
Refilling chains. Of a chain of operands only the left one is read in place, and of a chain
of accesses only the object. What the list of the chain takes in is new: the other operand
and the index are, and so are the indices of an object that is continued, since it was
refilled in the same way.
-/

namespace ScriptTree

open Exchange Relation

theorem equal_operator (op op' : BinaryOperator) :
    Tree.equal (.ofMember (.binaryOperator op)) (.ofMember (.binaryOperator op')) = true ↔
      op = op' := by
  have hmarks (op : BinaryOperator) :
      Tree.marks (.ofMember (.binaryOperator op)) = [.text op.token] := rfl
  rw [Tree.equal, hmarks, hmarks]
  constructor
  · intro h
    have htoken : Text.ofString op.token = op'.token := by simpa using h
    have hop := op.ofToken?_token
    rw [htoken, op'.ofToken?_token] at hop
    exact (Option.some.inj hop).symm
  · rintro rfl
    simp

theorem equal_style (b c : Bool) : Tree.equal (.atom (.bool b)) (.atom (.bool c)) = (b == c) := by
  cases b <;> cases c <;> decide +kernel

namespace Store

variable {st st' : Store} {a b : Nat} {items : List Item} {n : Node Item} {kept : List Nat}

section Links

def link (st : Store) (a : Nat) (n : Node Item) (b : Nat) (items : List Item) : Store :=
  (st.set b (.list items)).set a (.node n)

theorem cells_link_node (h : a < st.cells.size) :
    (st.link a n b items).cells[a]? = some (.node n) :=
  cells_set_self (by rwa [size_set])

theorem cells_link_list (h : b < st.cells.size) (hne : b ≠ a) :
    (st.link a n b items).cells[b]? = some (.list items) := by
  rw [link, cells_set_ne hne, cells_set_self h]

theorem runs_setPart_set {field : Field} {value : Item} (h : a < st.cells.size) :
    Runs (Edit.setPart field (.ref a) value) (st.set a (.node n)) ()
      (st.set a (.node (n.set field value))) := by
  have hrun : Runs (Edit.setPart field (.ref a) value) (st.set a (.node n)) () _ :=
    runs_setPart (cells_set_self h)
  rwa [set_set] at hrun

theorem Shows.link {item : Item} {t : Tree} (h : Shows st item t) (ha : ¬st.Meets item.refs a)
    (hb : ¬st.Meets item.refs b) : Shows (st.link a n b items) item t := by
  refine h.congr fun x hx => ?_
  have hxa : x ≠ a := fun hxa => ha (hxa ▸ hx)
  have hxb : x ≠ b := fun hxb => hb (hxb ▸ hx)
  rw [Store.link, cells_set_ne hxa, cells_set_ne hxb]

/-- A node takes in one part of what its references were refilled as, and one of its lists
takes in the other, which is new. -/
theorem Refills.linked
    (h : Refills st (st.refs a) (b :: (items.flatMap Item.refs ++ kept)) st') (hs : st.Sane [a])
    (hlist : b ∈ st.refs a) (hsort : st.sortAt b = some .list)
    (hfresh : ∀ c ∈ items.flatMap Item.refs, st.cells.size ≤ c)
    (hnode : (Cell.node n).refs.Perm (b :: kept)) (hkind : st.sortAt a = some (.node n.kind?))
    (hfits : st'.Fits (.node n)) :
    Refills st [a] [a] (st'.link a n b items) ∧
      (∀ x u, x.refs ⊆ items.flatMap Item.refs → Shows st' x u →
        Shows (st'.link a n b items) x u) ∧
      (st.Owned [a] → ∀ x u, x.refs ⊆ kept → Shows st' x u →
        Shows (st'.link a n b items) x u) := by
  have hopen : Refills st (st.refs a) (items.flatMap Item.refs ++ kept) st' :=
    h.subperm (List.sublist_cons_self _ _).subperm
  have hnode' : ¬st'.Meets (items.flatMap Item.refs ++ kept) a := fun hmeets =>
    hs.not_meets_refs (hopen.meets hmeets (hs.lt (by simp)))
  have hlist' (ho : st.Owned (st.refs a)) : ¬st'.Meets (items.flatMap Item.refs ++ kept) b := by
    have hall : st'.Owned ([b] ++ (items.flatMap Item.refs ++ kept)) := h.owned ho
    exact hall.not_meets (meets_of_mem (by simp))
  refine ⟨?_, fun x u hx hshows => hshows.link ?_ ?_, fun ho x u hx hshows => hshows.link ?_ ?_⟩
  · have hclosed : Refills st (st.refs a) (b :: kept) (st'.set b (.list items)) :=
      hopen.close (meets_of_mem hlist) (fun c hc hlt => absurd (hfresh c hc) (Nat.not_le.mpr hlt))
        hlist' rfl hsort (fits_list _ _)
    refine (hclosed.perm hnode).closed hs rfl hkind (hfits.mono fun x s hx => ?_)
    have hlist : st'.sortAt b = some (Cell.sort (.list items)) := h.evolves.sorts b _ hsort
    exact (sortAt_set hlist x).trans hx
  · exact fun hmeets => hnode' (hmeets.mono (List.Subset.trans hx (List.subset_append_left _ _)))
  · rintro ⟨c, hc, hlead⟩
    have hle := h.evolves.size_le_of_leads hlead (hfresh c (hx hc))
    exact absurd (lt_of_sortAt hsort) (Nat.not_lt.mpr hle)
  · exact fun hmeets => hnode' (hmeets.mono (List.Subset.trans hx (List.subset_append_right _ _)))
  · exact fun hmeets =>
      hlist' ho.refs (hmeets.mono (List.Subset.trans hx (List.subset_append_right _ _)))

/-- A node and its list stand for a tree if what they take in stands for its parts. -/
theorem Refills.filled {t : Tree}
    (h : Refills st (st.refs a) (b :: (items.flatMap Item.refs ++ kept)) st') (hs : st.Sane [a])
    (hlist : b ∈ st.refs a) (hsort : st.sortAt b = some .list)
    (hfresh : ∀ c ∈ items.flatMap Item.refs, st.cells.size ≤ c)
    (hnode : (Cell.node n).refs.Perm (b :: kept)) (hkind : st.sortAt a = some (.node n.kind?))
    (hfits : st'.Fits (.node n))
    (hindices : ∀ object c computed, n = .memberExpression object (.ref c) computed → c = b)
    (hshows : st.Owned [a] → ∃ (trees : List Tree) (tree : Field → Tree),
      t = .node (n.mapFields fun f _ => tree f) ∧ List.Forall₂ (Shows st') items trees ∧
      ∀ f x, (f, x) ∈ n.fields →
        x = .ref b ∧ tree f = .list trees ∨ x.refs ⊆ kept ∧ Shows st' x (tree f)) :
    Filled st (.ref a) t (.ref a) (st'.link a n b items) := by
  obtain ⟨hrefills, hnews, hkept⟩ := h.linked hs hlist hsort hfresh hnode hkind hfits
  have hlt : a < st'.cells.size :=
    Nat.lt_of_lt_of_le (hs.lt (by simp)) h.evolves.size_le
  have hba : b ≠ a := by
    rintro rfl
    rw [hkind] at hsort
    cases hsort
  have hcell : (st'.link a n b items).cells[b]? = some (.list items) :=
    cells_link_list (lt_of_sortAt (h.evolves.sorts b _ hsort)) hba
  refine ⟨hrefills, ?_, fun ho => ?_⟩
  · intro a' object c computed ha' hmember
    cases ha'
    rw [cells_link_node hlt, Option.some.injEq, Cell.node.injEq] at hmember
    rw [hindices object c computed hmember, refs_eq hcell]
    exact hfresh
  · obtain ⟨trees, tree, rfl, hitems, hfields⟩ := hshows ho
    refine .node tree (cells_link_node hlt) fun f x hx => ?_
    rcases hfields f x hx with ⟨rfl, htree⟩ | ⟨hsub, hx⟩
    · rw [htree]
      exact .of_forall₂ hcell (forall₂_shows hitems fun x hx u => hnews x u (Shows.refs_item hx))
    · exact hkept ho x _ hsub hx

/-- Part of a node is refilled in place, and then cells are added. The node and its list are
still there. -/
theorem Refills.chain {st₁ st₂ : Store} {olds news more : List Nat}
    (h : Refills st olds news st₁) (hmore : Refills st₁ [] more st₂) (hs : st.Sane [a])
    (hsub : (b :: olds).Subperm (st.refs a)) (hsort : st.sortAt b = some .list) :
    Refills st (st.refs a) (b :: (news ++ more)) st₂ ∧ st₂.cells[a]? = st.cells[a]? ∧
      ∃ items, st₂.cells[b]? = some (.list items) := by
  have hlt := hs.lt (by simp : a ∈ [a])
  have hparts : st.Sane ([b] ++ olds) := hs.refs.mono hsub.subset
  have hgrown := h.grown (hparts.mono (List.subset_append_right _ _)) hmore
  refine ⟨(hgrown.beside (hparts.mono (List.subset_append_left _ _))).of_subperm hsub, ?_, ?_⟩
  · refine hgrown.kept a hlt fun hmeets => hs.not_meets_refs (hmeets.mono ?_)
    exact List.Subset.trans (List.subset_cons_self _ _) hsub.subset
  · exact list_of_sortAt (hgrown.evolves.sorts b _ hsort)

/-- What a part of a node that was refilled in place reaches is kept when cells are added and the
node and its list are set. -/
theorem Refills.cells_link {st₁ st₂ : Store} {olds news more : List Nat} {x : Nat}
    (h : Refills st olds news st₁) (hmore : Refills st₁ [] more st₂) (hs : st.Sane [a])
    (ho : st.Owned [a]) (hsub : (b :: olds).Subperm (st.refs a)) (hx : st₁.Meets news x) :
    (st₂.link a n b items).cells[x]? = st₁.cells[x]? := by
  have hparts : st.Owned ([b] ++ olds) := ho.refs.subperm hsub
  have holds : olds ⊆ st.refs a := fun _ hy => hsub.subset (List.mem_cons_of_mem _ hy)
  have hxa : x ≠ a := by
    rintro rfl
    exact hs.not_meets_refs ((h.meets hx (hs.lt (by simp))).mono holds)
  have hxb : x ≠ b := by
    rintro rfl
    have hlt := hs.refs.lt (hsub.subset List.mem_cons_self)
    exact hparts.not_meets (meets_of_mem (by simp)) (h.meets hx hlt)
  rw [link, cells_set_ne hxa, cells_set_ne hxb]
  exact hmore.cells_grown (h.sane (hs.refs.mono holds) x hx).1

end Links

section Operands

variable {s : Store} {operand : Item} {t : Tree} {op : BinaryOperator}

/-- The items of a list are asked for instead of the list. -/
theorem refills_items {roots : List Nat} (hs : st.Sane (roots ++ [b]))
    (hcell : st.cells[b]? = some (.list items)) :
    Refills st (roots ++ [b]) (roots ++ items.flatMap Item.refs) st := by
  have hitems := refills_refs (hs.mono (List.subset_append_right _ _))
  rw [refs_eq hcell] at hitems
  exact hitems.beside (hs.mono (List.subset_append_left _ _))

theorem runs_equal_operator (op op' : BinaryOperator) :
    Runs (Edit.equal (.ofMember (.binaryOperator op)) (.ofMember (.binaryOperator op'))) st
      (decide (op = op')) st := by
  have hequal : Tree.equal (.ofMember (.binaryOperator op)) (.ofMember (.binaryOperator op')) =
      decide (op = op') := by
    rw [Bool.eq_iff_iff, decide_eq_true_iff, equal_operator]
  rw [← hequal]
  exact runs_equal

/-- An operand is added to a chain without operands on its right. What the chain takes in is
the operand, or what that chains. -/
theorem runs_addOperand {left : Item} (hshows : Shows st operand t) (hs : st.Sane operand.refs)
    (hsound : t.Sound) (hsame : ∀ x, st.Meets operand.refs x → s.cells[x]? = st.cells[x]?)
    (hnode : s.cells[a]? =
      some (.node (.binaryExpression left (.ofMember (.binaryOperator op)) (.ref b))))
    (hlist : s.cells[b]? = some (.list [])) (hnot : ¬st.Meets operand.refs b) :
    ∃ items trees, Runs (Edit.addOperand (.ref a) operand) s () (s.set b (.list items)) ∧
      Refills st operand.refs (items.flatMap Item.refs) st ∧ List.Forall₂ (Shows st) items trees ∧
      ∀ l, Node.spliced (.binaryExpression l (.ofMember (.binaryOperator op)) (.list [t])) =
        .binaryExpression l (.ofMember (.binaryOperator op)) (.list trees) := by
  have hright : Runs (Edit.part .right (.ref a)) s (.ref b) s := runs_part hnode rfl
  have hab : a ≠ b := by
    rintro rfl
    simp [hnode] at hlist
  by_cases hchain : ∃ c l o r, operand = .ref c ∧
      st.cells[c]? = some (.node (.binaryExpression l o r))
  · obtain ⟨c, l, o, r, rfl, hcell⟩ := hchain
    have hcell' : s.cells[c]? = some (.node (.binaryExpression l o r)) := by
      rw [hsame c (meets_of_mem (by simp [Item.refs])), hcell]
    obtain ⟨trees, ht, hfields⟩ := hshows.of_node hcell
    obtain rfl : t = .node (.binaryExpression (trees .left) (trees .operator) (trees .right)) := ht
    obtain ⟨innerOp, before, last, hop, hright', -⟩ := Sound.operator_chain hsound
    have hl := hfields .left l (by simp [Node.fields])
    have ho := hfields .operator o (by simp [Node.fields])
    have hr := hfields .right r (by simp [Node.fields])
    rw [hop] at ho
    rw [hright'] at hr
    obtain rfl := ho.eq_atom
    obtain ⟨d, inner, rfl, hinner, hitems⟩ := hr.exists_list
    have hd : st.Meets [c] d := by
      rw [meets_singleton, leads_iff, refs_eq hcell]
      exact .inr (meets_of_mem (by simp [Cell.refs, Node.fields, Item.refs]))
    have hcb : c ≠ b := fun hcb => hnot (hcb ▸ meets_of_mem (by simp [Item.refs]))
    have hdb : d ≠ b := fun hdb => hnot (hdb ▸ hd)
    have hinner' : s.cells[d]? = some (.list inner) := by rw [hsame d hd, hinner]
    by_cases hops : innerOp = op
    · subst hops
      refine ⟨l :: inner, trees .left :: (before ++ [last]), ?_, ?_, .cons hl hitems,
        fun left => ?_⟩
      · refine runs_store.bind ?_
        rw [node?_eq hcell']
        refine (runs_part hnode rfl).bind ((runs_equal_operator _ _).bind ?_)
        rw [if_pos (decide_eq_true rfl)]
        refine hright.bind ((runs_append hlist).bind ?_)
        refine (runs_part ((cells_set_ne hab).trans hnode) rfl).bind ?_
        refine (runs_part ((cells_set_ne hcb).trans hcell') rfl).bind ?_
        have hadded : (s.set b (.list [l])).cells[b]? = some (.list [l]) :=
          cells_set_self (Shows.lt_of_cell hlist)
        have hextend := runs_extend hadded ((cells_set_ne hdb).trans hinner')
        rwa [set_set] at hextend
      · have hopen := refills_refs hs
        have hrefs : st.refs c = l.refs ++ [d] := by
          rw [refs_eq hcell]
          simp [Cell.refs, Node.fields, Item.refs]
        rw [hrefs] at hopen
        exact hopen.trans (refills_items (hopen.sane hs) hinner)
      · rw [hop, hright']
        simp [Node.spliced, Tree.ofMember]
    · refine ⟨[.ref c], _, ?_, by simpa using .refl hs, .cons hshows .nil, fun left => ?_⟩
      · refine runs_store.bind ?_
        rw [node?_eq hcell']
        refine (runs_part hnode rfl).bind ((runs_equal_operator _ _).bind ?_)
        rw [if_neg (by simpa using hops)]
        exact hright.bind (runs_append hlist)
      · rw [hop, hright']
        simp [Node.spliced, Tree.ofMember, hops]
  · have happend : Runs (Edit.addOperand (.ref a) operand) s () (s.set b (.list [operand])) := by
      refine runs_store.bind ?_
      split
      · next l o r hoperand =>
        obtain ⟨c, rfl, hcell⟩ := exists_of_node? hoperand
        rw [hsame c (meets_of_mem (by simp [Item.refs]))] at hcell
        exact absurd ⟨c, l, o, r, rfl, hcell⟩ hchain
      · exact hright.bind (runs_append hlist)
    refine ⟨[operand], [t], happend, by simpa using .refl hs, .cons hshows .nil, fun l => ?_⟩
    refine spliced_operand fun l o r heq => hchain ?_
    subst heq
    obtain ⟨c, m, rfl, hcell, hkind⟩ := hshows.exists_node
    rw [Node.eq_node_of_kind? hkind .missing] at hcell
    exact ⟨c, _, _, _, rfl, hcell⟩

theorem fits_operands {l o : Item} (h : st.sortAt b = some .list) :
    st.Fits (.node (.binaryExpression l o (.ref b))) := by
  intro m k hm hk f x hx
  obtain rfl := Cell.node.inj hm
  obtain rfl := Option.some.inj hk
  simp only [Node.fields, List.mem_cons, Prod.mk.injEq, List.not_mem_nil, or_false] at hx
  rcases hx with ⟨rfl, rfl⟩ | ⟨rfl, rfl⟩ | ⟨rfl, rfl⟩
  · trivial
  · trivial
  · exact ⟨b, rfl, h⟩

def operandFields (left : Tree) (op : BinaryOperator) (right : List Tree) : Field → Tree
  | .left => left
  | .operator => .ofMember (.binaryOperator op)
  | _ => .list right

/-- What comes of the fields of a chain of operands: the left operand is filled in place, and the
others, which stand in the same list as before, are new. -/
def KeepsOperand {α : Type} (f : α → Item → Refill Item) (left : α) (st : Store) (a : Nat)
    (n : Node Item) (op : BinaryOperator) (st' : Store) : Prop :=
  ∃ left₀ operator₀ b item st₁, n = .binaryExpression left₀ operator₀ (.ref b) ∧
    Runs (f left left₀) st item st₁ ∧
    st'.cells[a]? =
        some (.node (.binaryExpression item (.ofMember (.binaryOperator op)) (.ref b))) ∧
    (∀ x ∈ st'.refs b, st.cells.size ≤ x) ∧
    (st.Owned [a] → ∀ x, st₁.Meets item.refs x → st'.cells[x]? = st₁.cells[x]?)

/-- A chain of operands is refilled. -/
theorem runs_refillChain {α : Type} {f : α → Item → Refill Item} {left operator right : α}
    {l r : Tree} (hleft : Fills f left l)
    (hoperator : Fills f operator (.ofMember (.binaryOperator op))) (hright : Fills f right r)
    (hsound : r.Sound) (hs : st.Sane [a]) (hcell : st.cells[a]? = some (.node n))
    (hk : n.kind? = some .binaryExpression) :
    ∃ st', Runs (refillChain f (.ref a) left operator right) st () st' ∧
      Filled st (.ref a) (.node (Node.spliced (.binaryExpression l
        (.ofMember (.binaryOperator op)) (.list [r])))) (.ref a) st' ∧
      KeepsOperand f left st a n op st' := by
  cases n with
  | binaryExpression left₀ operator₀ right₀ =>
    obtain ⟨b, rfl, hsort⟩ : st.Takes .emptyList right₀ :=
      hs.takes hcell rfl (by simp [Node.fields] : (Field.right, right₀) ∈ _)
    have hsub : (b :: left₀.refs).Subperm (st.refs a) := by
      have hrefs : st.refs a = left₀.refs ++ operator₀.refs ++ [b] := by
        rw [refs_eq hcell]
        simp [Cell.refs, Node.fields, Item.refs]
      rw [hrefs]
      refine List.Subperm.trans ?_ List.perm_append_comm.subperm
      exact ((List.sublist_append_left _ _).cons_cons b).subperm
    have hleft₀ : left₀.refs.Subperm (st.refs a) :=
      (List.sublist_cons_self _ _).subperm.trans hsub
    have hlt := hs.lt (by simp : a ∈ [a])
    have hltb := lt_of_sortAt hsort
    have hba : b ≠ a := by
      rintro rfl
      rw [sortAt_eq hcell] at hsort
      cases hsort
    -- The left operand is read in place, and what is read after it is new.
    obtain ⟨leftItem, st₁, hrun₁, hfilled₁⟩ := hleft st left₀ (hs.refs.mono hleft₀.subset)
    obtain ⟨rightItem, st₂, hrun₂, hfilled₂⟩ := hright st₁ .missing sane_nil
    obtain ⟨operatorItem, st₃, hrun₃, hfilled₃⟩ := hoperator st₂ .missing sane_nil
    obtain rfl := (hfilled₃.shows owned_nil).eq_atom
    have hle₁ := hfilled₁.refills.evolves.size_le
    have hle₂ := hfilled₂.refills.evolves.size_le
    have hle₃ := hfilled₃.refills.evolves.size_le
    have hsane₂ := hfilled₂.refills.sane sane_nil
    have hnew {x : Nat} (hx : st₂.Meets rightItem.refs x) : x ≠ a ∧ x ≠ b := by
      have hle := hfilled₂.refills.size_le_of_meets hx
      omega
    let chain : Node Item := .binaryExpression leftItem (.ofMember (.binaryOperator op)) (.ref b)
    have hset : (st₃.set a (.node chain)).cells[a]? = some (.node chain) :=
      cells_set_self (by omega)
    have hclear : ((st₃.set a (.node chain)).set b (.list [])).cells[b]? = some (.list []) :=
      cells_set_self (by simp; omega)
    obtain ⟨items, trees, hadd, hopen, hitems, hspliced⟩ := runs_addOperand
      (hfilled₂.shows owned_nil) hsane₂ hsound (fun x hx => by
        rw [cells_set_ne (hnew hx).2, cells_set_ne (hnew hx).1]
        exact hfilled₃.refills.cells_grown (hsane₂ x hx).1)
      ((cells_set_ne hba.symm).trans hset) hclear (fun hmeets => (hnew hmeets).2 rfl)
    have hmore : Refills st₁ [] (items.flatMap Item.refs) st₃ := by
      simpa [Item.refs] using (hfilled₂.refills.trans hopen).grown sane_nil hfilled₃.refills
    obtain ⟨hall, hcell₃, items₀, hlist₃⟩ := hfilled₁.refills.chain hmore hs hsub hsort
    rw [hcell] at hcell₃
    have hfresh (c : Nat) (hc : c ∈ items.flatMap Item.refs) : st.cells.size ≤ c :=
      Nat.le_trans hle₁ (hmore.size_le_of_meets (meets_of_mem hc))
    refine ⟨st₃.link a chain b items, ?_, (hall.perm (List.perm_append_comm.cons b)).filled hs
      (hsub.subset (by simp)) hsort hfresh ?_ (sortAt_eq hcell)
      (fits_operands (hall.evolves.sorts b _ hsort)) (by simp [chain]) fun ho => ?_,
      left₀, operator₀, b, leftItem, st₁, rfl, hrun₁, cells_link_node (by omega), ?_,
      fun ho x hx => hfilled₁.refills.cells_link hmore hs ho hsub hx⟩
    · have hsetLeft : Runs (Edit.setPart .left (.ref a) leftItem) (st₃.set a (.node
          (.binaryExpression left₀ (.ofMember (.binaryOperator op)) (.ref b)))) ()
          (st₃.set a (.node chain)) := runs_setPart_set (by omega)
      have hlink : ((st₃.set a (.node chain)).set b (.list [])).set b (.list items) =
          st₃.link a chain b items := by
        rw [set_set, set_comm hba.symm, link]
      rw [hlink] at hadd
      exact (runs_part hcell rfl).lift.bind (hrun₁.bind (hrun₂.bind (hrun₃.bind
        ((runs_setPart hcell₃).lift.bind (hsetLeft.lift.bind ((runs_part hset rfl).lift.bind
          ((runs_modifyList ((cells_set_ne hba).trans hlist₃)).lift.bind hadd.lift)))))))
    · simp [chain, Cell.refs, Node.fields, Item.refs, Item.ofMember]
    · have hleftShows : Shows st₃ leftItem l :=
        (hfilled₁.shows (ho.refs.subperm hleft₀)).grown
          (hfilled₁.refills.sane (hs.refs.mono hleft₀.subset)) hmore
      have hitemsShow : List.Forall₂ (Shows st₃) items trees :=
        forall₂_shows hitems fun x hx u hshows =>
          hshows.grown ((hopen.sane hsane₂).mono (Shows.refs_item hx)) hfilled₃.refills
      refine ⟨trees, operandFields l op trees, congrArg Tree.node (hspliced l), hitemsShow, ?_⟩
      simp only [chain, Node.fields, List.mem_cons, Prod.mk.injEq, List.not_mem_nil, or_false]
      rintro f x (⟨rfl, rfl⟩ | ⟨rfl, rfl⟩ | ⟨rfl, rfl⟩)
      · exact .inr ⟨List.Subset.refl _, hleftShows⟩
      · exact .inr ⟨List.nil_subset _, .atom _⟩
      · exact .inl ⟨rfl, rfl⟩
    · rwa [refs_eq (cells_link_list (by omega) hba)]
  | _ => cases hk

end Operands

section Accesses

variable {s : Store} {object : Item} {computed : Bool}

/-- What the object of a chain of accesses comes to once an index is added: itself, or what
it is the object and the indices of. -/
structure Continued (st : Store) (object : Item) (computed : Bool) (inner : Item)
    (indices : List Item) : Prop where
  refills : Refills st object.refs (inner.refs ++ indices.flatMap Item.refs) st
  fresh : ∀ st₀, FreshIndices st₀ st object → ∀ c ∈ indices.flatMap Item.refs, st₀.cells.size ≤ c
  shows : ∀ t, Shows st object t → t.Sound → ∃ u trees, Shows st inner u ∧
    List.Forall₂ (Shows st) indices trees ∧
    ∀ i, Node.spliced (.memberExpression t (.list [i]) (.atom (.bool computed))) =
      .memberExpression u (.list (trees ++ [i])) (.atom (.bool computed))

/-- The parts of a chain of accesses stand for those of a sound tree. -/
theorem Shows.accesses {t : Tree} {c : Nat} {o i style : Item} (h : Shows st (.ref c) t)
    (hsound : t.Sound) (hcell : st.cells[c]? = some (.node (.memberExpression o i style))) :
    ∃ d indices b u first rest, i = .ref d ∧ st.cells[d]? = some (.list indices) ∧
      style = .atom (.bool b) ∧
      t = .node (.memberExpression u (.list (first :: rest)) (.atom (.bool b))) ∧
      Shows st o u ∧ List.Forall₂ (Shows st) indices (first :: rest) := by
  obtain ⟨trees, hnode, hfields⟩ := h.of_node hcell
  obtain rfl : t = .node (.memberExpression (trees .object) (trees .indices) (trees .computed)) :=
    hnode
  obtain ⟨first, rest, b, hindices, hcomputed, -⟩ := Sound.access_chain hsound
  have ho := hfields .object o (by simp [Node.fields])
  have hi := hfields .indices i (by simp [Node.fields])
  have hstyle := hfields .computed style (by simp [Node.fields])
  rw [hindices] at hi
  rw [hcomputed] at hstyle
  obtain ⟨d, indices, rfl, hlist, hitems⟩ := hi.exists_list
  rw [hindices, hcomputed]
  exact ⟨d, indices, b, _, first, rest, rfl, hlist, hstyle.eq_atom, rfl, ho, hitems⟩

/-- The object stays what it is if it is no chain of the style with indices. -/
theorem continued_self (hs : st.Sane object.refs)
    (h : ∀ c o i, object = .ref c →
      st.cells[c]? = some (.node (.memberExpression o i (.atom (.bool computed)))) →
      (st.view i).isTrue = false) : Continued st object computed object [] where
  refills := by simpa using .refl hs
  fresh := by simp
  shows t ht hsound := by
    refine ⟨t, [], ht, .nil, fun index => ?_⟩
    by_cases hchain : ∃ c o i style, object = .ref c ∧
        st.cells[c]? = some (.node (.memberExpression o i style))
    · obtain ⟨c, o, i, style, rfl, hcell⟩ := hchain
      obtain ⟨d, indices, b, u, first, rest, rfl, hlist, rfl, rfl, -, hitems⟩ :=
        ht.accesses hsound hcell
      have hne : b ≠ computed := by
        rintro rfl
        have hempty := h c o _ rfl hcell
        rw [view_of_list hlist] at hempty
        cases hitems
        simp [View.isTrue] at hempty
      simp [Node.spliced, hne]
    · refine spliced_object fun o j c heq => hchain ?_
      subst heq
      obtain ⟨c, m, rfl, hcell, hkind⟩ := ht.exists_node
      rw [Node.eq_node_of_kind? hkind .missing] at hcell
      exact ⟨c, _, _, _, rfl, hcell⟩

/-- The object of a chain of the style is continued. -/
theorem continued_inner {c d : Nat} {inner style : Item} (hs : st.Sane [c])
    (hcell : st.cells[c]? = some (.node (.memberExpression inner (.ref d) style)))
    (hlist : st.cells[d]? = some (.list items))
    (hstyle : ∀ b, style = .atom (.bool b) → b = computed) :
    Continued st (.ref c) computed inner items where
  refills := by
    have hparts : (inner.refs ++ [d]).Subperm (st.refs c) := by
      have hrefs : st.refs c = inner.refs ++ [d] ++ style.refs := by
        rw [refs_eq hcell]
        simp [Cell.refs, Node.fields, Item.refs]
      rw [hrefs]
      exact (List.sublist_append_left _ _).subperm
    have hopen := (refills_refs hs).subperm hparts
    exact hopen.trans (refills_items (hopen.sane hs) hlist)
  fresh st₀ h := by
    have hfresh := h c inner d style rfl hcell
    rwa [refs_eq hlist] at hfresh
  shows t ht hsound := by
    obtain ⟨d', indices, b, u, first, rest, hd', hlist', hb, rfl, ho, hitems⟩ :=
      ht.accesses hsound hcell
    cases hd'
    obtain rfl : items = indices := by simpa using hlist.symm.trans hlist'
    obtain rfl := hstyle b hb
    exact ⟨u, first :: rest, ho, hitems, fun i => by simp [Node.spliced]⟩

/-- An index is added to an object, which is continued or not. -/
theorem runs_continueAccesses {object₀ : Item} {items₀ : List Item} (index : Item)
    (hs : st.Sane object.refs)
    (hsame : ∀ x, st.Meets object.refs x → s.cells[x]? = st.cells[x]?)
    (hnode : s.cells[a]? =
      some (.node (.memberExpression object₀ (.ref b) (.atom (.bool computed)))))
    (hlist : s.cells[b]? = some (.list items₀)) :
    ∃ inner indices, Runs (continueAccesses (.ref a) object (.atom (.bool computed)) index) s ()
        ((s.set a (.node (.memberExpression inner (.ref b) (.atom (.bool computed))))).set b
          (.list (indices ++ [index]))) ∧
      Continued st object computed inner indices := by
  have hba : b ≠ a := by
    rintro rfl
    simp [hnode] at hlist
  have hlt := Shows.lt_of_cell hnode
  have hset (inner : Item) (indices : List Item) :
      Runs (do
        Edit.setPart .object (.ref a) inner
        Edit.modifyList .notAssignable (← Edit.part .indices (.ref a)) fun _ => indices ++ [index])
      s () ((s.set a (.node (.memberExpression inner (.ref b) (.atom (.bool computed))))).set b
          (.list (indices ++ [index]))) :=
    (runs_setPart hnode).bind ((runs_part (cells_set_self hlt) rfl).bind
      (runs_modifyList ((cells_set_ne hba).trans hlist)))
  by_cases hchain : ∃ c o i style, object = .ref c ∧
      st.cells[c]? = some (.node (.memberExpression o i style))
  · obtain ⟨c, o, i, style, rfl, hcell⟩ := hchain
    obtain ⟨d, rfl, hsort⟩ : st.Takes .emptyList i :=
      hs.takes hcell rfl (by simp [Node.fields] : (Field.indices, i) ∈ _)
    obtain ⟨items, hitems⟩ := list_of_sortAt hsort
    have hd : st.Meets [c] d := by
      rw [meets_singleton, leads_iff, refs_eq hcell]
      exact .inr (meets_of_mem (by simp [Cell.refs, Node.fields, Item.refs]))
    have hcell' := (hsame c (meets_of_mem (by simp [Item.refs]))).trans hcell
    have hitems' := (hsame d hd).trans hitems
    have hequal (b : Bool) : ((Item.atom (.bool b)).isSame (.atom (.bool computed)) ||
        (s.tree (.atom (.bool b))).equal (s.tree (.atom (.bool computed)))) = (b == computed) :=
      equal_style b computed
    by_cases hstyle : (style.isSame (.atom (.bool computed)) ||
        (s.tree style).equal (s.tree (.atom (.bool computed)))) && (s.view (.ref d)).isTrue
    · refine ⟨o, items, ?_, continued_inner hs hcell hitems ?_⟩
      · refine Runs.bind (a := (o, items)) ?_ (hset o items)
        refine runs_store.bind ?_
        rw [node?_eq hcell']
        refine runs_equal.bind (runs_view.bind ?_)
        rw [if_pos hstyle]
        exact (runs_items hitems').bind (runs_pure _)
      · rintro b rfl
        rw [hequal, Bool.and_eq_true, beq_iff_eq] at hstyle
        exact hstyle.1
    · refine ⟨.ref c, [], ?_, continued_self hs ?_⟩
      · refine Runs.bind (a := (Item.ref c, ([] : List Item))) ?_ (hset _ _)
        refine runs_store.bind ?_
        rw [node?_eq hcell']
        refine runs_equal.bind (runs_view.bind ?_)
        rw [if_neg hstyle]
        exact runs_pure _
      · intro c' o' i' hc' hmember
        cases hc'
        rw [hcell, Option.some.injEq, Cell.node.injEq] at hmember
        obtain ⟨-, rfl, rfl⟩ := Node.memberExpression.inj hmember
        rw [hequal, beq_self_eq_true, Bool.true_and, view_of_list hitems',
          Bool.not_eq_true] at hstyle
        rwa [view_of_list hitems]
  · refine ⟨object, [], ?_, continued_self hs fun c o i hc hcell => ?_⟩
    · refine Runs.bind (a := (object, [])) ?_ (hset object [])
      refine runs_store.bind ?_
      split
      · next o i style hobject =>
        obtain ⟨c, rfl, hcell⟩ := exists_of_node? hobject
        rw [hsame c (meets_of_mem (by simp [Item.refs]))] at hcell
        exact absurd ⟨c, o, i, style, rfl, hcell⟩ hchain
      · exact runs_pure _
    · exact absurd ⟨c, o, i, _, hc, hcell⟩ hchain

theorem fits_accesses {o c : Item} (h : st.sortAt b = some .list) :
    st.Fits (.node (.memberExpression o (.ref b) c)) := by
  intro m k hm hk f x hx
  obtain rfl := Cell.node.inj hm
  obtain rfl := Option.some.inj hk
  simp only [Node.fields, List.mem_cons, Prod.mk.injEq, List.not_mem_nil, or_false] at hx
  rcases hx with ⟨rfl, rfl⟩ | ⟨rfl, rfl⟩ | ⟨rfl, rfl⟩
  · trivial
  · exact ⟨b, rfl, h⟩
  · trivial

def accessFields (object : Tree) (computed : Bool) (indices : List Tree) : Field → Tree
  | .object => object
  | .computed => .atom (.bool computed)
  | _ => .list indices

/-- What comes of the fields of a chain of accesses: the object is filled in place, and what stands
there then is that or a part of it. The indices stand in the same list as before. -/
def KeepsObject {α : Type} (f : α → Item → Refill Item) (object : α) (st : Store) (a : Nat)
    (n : Node Item) (computed : Bool) (st' : Store) : Prop :=
  ∃ object₀ b style₀ item inner st₁, n = .memberExpression object₀ (.ref b) style₀ ∧
    Runs (f object object₀) st item st₁ ∧
    st'.cells[a]? = some (.node (.memberExpression inner (.ref b) (.atom (.bool computed)))) ∧
    (∀ x, st₁.Meets inner.refs x → st₁.Meets item.refs x) ∧
    (st.Owned [a] → ∀ x, st₁.Meets item.refs x → st'.cells[x]? = st₁.cells[x]?)

/-- A chain of accesses is refilled. -/
theorem runs_refillAccesses {α : Type} {f : α → Item → Refill Item} {object index style : α}
    {o i : Tree} (hobject : Fills f object o) (hindex : Fills f index i)
    (hstyle : Fills f style (.atom (.bool computed))) (hsound : o.Sound) (hs : st.Sane [a])
    (hcell : st.cells[a]? = some (.node n)) (hk : n.kind? = some .memberExpression) :
    ∃ st', Runs (refillAccesses f (.ref a) object index style) st () st' ∧
      Filled st (.ref a) (.node (Node.spliced (.memberExpression o (.list [i])
        (.atom (.bool computed))))) (.ref a) st' ∧
      KeepsObject f object st a n computed st' := by
  cases n with
  | memberExpression object₀ indices₀ style₀ =>
    obtain ⟨b, rfl, hsort⟩ : st.Takes .emptyList indices₀ :=
      hs.takes hcell rfl (by simp [Node.fields] : (Field.indices, indices₀) ∈ _)
    have hsub : (b :: object₀.refs).Subperm (st.refs a) := by
      have hrefs : st.refs a = object₀.refs ++ [b] ++ style₀.refs := by
        rw [refs_eq hcell]
        simp [Cell.refs, Node.fields, Item.refs]
      rw [hrefs]
      exact (List.perm_append_singleton b _).symm.subperm.trans
        (List.sublist_append_left _ _).subperm
    have hobject₀ : object₀.refs.Subperm (st.refs a) :=
      (List.sublist_cons_self _ _).subperm.trans hsub
    have hlt := hs.lt (by simp : a ∈ [a])
    have hltb := lt_of_sortAt hsort
    have hba : b ≠ a := by
      rintro rfl
      rw [sortAt_eq hcell] at hsort
      cases hsort
    -- The object is read in place, and what is read after it is new.
    obtain ⟨objectItem, st₁, hrun₁, hfilled₁⟩ := hobject st object₀ (hs.refs.mono hobject₀.subset)
    obtain ⟨indexItem, st₂, hrun₂, hfilled₂⟩ := hindex st₁ .missing sane_nil
    obtain ⟨styleItem, st₃, hrun₃, hfilled₃⟩ := hstyle st₂ .missing sane_nil
    obtain rfl := (hfilled₃.shows owned_nil).eq_atom
    have hle₁ := hfilled₁.refills.evolves.size_le
    have hle₂ := hfilled₂.refills.evolves.size_le
    have hle₃ := hfilled₃.refills.evolves.size_le
    have hsane₁ := hfilled₁.refills.sane (hs.refs.mono hobject₀.subset)
    have hmore : Refills st₁ [] indexItem.refs st₃ := by
      simpa [Item.refs] using hfilled₂.refills.grown sane_nil hfilled₃.refills
    obtain ⟨-, hcell₃, items₀, hlist₃⟩ := hfilled₁.refills.chain hmore hs hsub hsort
    rw [hcell] at hcell₃
    have hsame (x : Nat) (hx : st₁.Meets objectItem.refs x) : (st₃.set a (.node (.memberExpression
        object₀ (.ref b) (.atom (.bool computed))))).cells[x]? = st₁.cells[x]? := by
      have hxa : x ≠ a := by
        rintro rfl
        exact hs.not_meets_refs ((hfilled₁.refills.meets hx hlt).mono hobject₀.subset)
      rw [cells_set_ne hxa, hmore.cells_grown (hsane₁ x hx).1]
    obtain ⟨inner, indices, hrun, hcontinued⟩ := runs_continueAccesses indexItem hsane₁ hsame
      (cells_set_self (by omega)) ((cells_set_ne hba).trans hlist₃)
    rw [set_set, set_comm hba.symm] at hrun
    obtain ⟨hall, -⟩ := (hfilled₁.refills.trans hcontinued.refills).chain hmore hs hsub hsort
    have hitems : ((indices ++ [indexItem]).flatMap Item.refs ++ inner.refs).Perm
        (inner.refs ++ indices.flatMap Item.refs ++ indexItem.refs) := by
      rw [List.flatMap_append, List.flatMap_singleton, List.append_assoc inner.refs]
      exact List.perm_append_comm
    refine ⟨st₃.link a (.memberExpression inner (.ref b) (.atom (.bool computed))) b
      (indices ++ [indexItem]), ?_, (hall.perm (hitems.cons b)).filled hs (hsub.subset (by simp))
      hsort (fun c hc => ?_) ?_ (sortAt_eq hcell) (fits_accesses (hall.evolves.sorts b _ hsort))
      (by simp) fun ho => ?_, object₀, b, style₀, objectItem, inner, st₁, rfl, hrun₁,
      cells_link_node (by omega), fun x hx => ?_,
      fun ho x hx => hfilled₁.refills.cells_link hmore hs ho hsub hx⟩
    · exact (runs_part hcell rfl).lift.bind (hrun₁.bind (hrun₂.bind (hrun₃.bind
        ((runs_setPart hcell₃).lift.bind hrun.lift))))
    · rw [List.flatMap_append, List.flatMap_singleton] at hc
      rcases List.mem_append.mp hc with hc | hc
      · exact hcontinued.fresh st hfilled₁.indices c hc
      · exact Nat.le_trans hle₁ (hmore.size_le_of_meets (meets_of_mem hc))
    · simp [Cell.refs, Node.fields, Item.refs]
    · obtain ⟨u, trees, hinner, hindices, hspliced⟩ :=
        hcontinued.shows o (hfilled₁.shows (ho.refs.subperm hobject₀)) hsound
      have hsane := hcontinued.refills.sane hsane₁
      have hindexShows : Shows st₃ indexItem i :=
        (hfilled₂.shows owned_nil).grown (hfilled₂.refills.sane sane_nil) hfilled₃.refills
      have hindicesShow : List.Forall₂ (Shows st₃) indices trees :=
        forall₂_shows hindices fun x hx u hshows => hshows.grown
          (hsane.mono (List.Subset.trans (Shows.refs_item hx) (List.subset_append_right _ _))) hmore
      refine ⟨trees ++ [i], accessFields u computed (trees ++ [i]), congrArg Tree.node (hspliced i),
        List.rel_append hindicesShow (.cons hindexShows .nil), ?_⟩
      simp only [Node.fields, List.mem_cons, Prod.mk.injEq, List.not_mem_nil, or_false]
      rintro f x (⟨rfl, rfl⟩ | ⟨rfl, rfl⟩ | ⟨rfl, rfl⟩)
      · exact .inr ⟨List.Subset.refl _,
          hinner.grown (hsane.mono (List.subset_append_left _ _)) hmore⟩
      · exact .inl ⟨rfl, rfl⟩
      · exact .inr ⟨List.nil_subset _, .atom _⟩
    · have hall : st₁.Meets (inner.refs ++ indices.flatMap Item.refs) x :=
        meets_append.mpr (.inl hx)
      exact hcontinued.refills.meets hall (hcontinued.refills.sane hsane₁ x hall).1
  | _ => cases hk

end Accesses

end Store

end ScriptTree
