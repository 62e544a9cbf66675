import ScriptTree.Proofs.Store.Chains
import ScriptTree.Proofs.Store.Failing
import ScriptTree.Proofs.Store.Making
import ScriptTree.Proofs.Store.Shapes

/-!
Reading a slot into a store has the outcome of reading it into a fresh tree, whatever stood
in the slot: it fills the slot with the tree, or it fails with the error. Both go layer by
layer, so the layers of the text are followed here and the parts of each layer are filled by
induction on the size of the text.
-/

namespace ScriptTree

open Exchange

namespace Exchange

variable {bound : Nat} {slot : Slot bound} {t : Tree} {e : ReadError}

/-- Whether a slot can be an element: some must not be null. -/
def Slot.admits {bound : Nat} : Slot bound → Except ReadError Unit
  | .json element expects _ => expects.checkNull element
  | _ => .ok ()

theorem admits_of_readSlot (h : readSlot slot = .ok t) : slot.admits = .ok () := by
  cases slot with
  | json j expects hlt =>
    rw [readSlot_json] at h
    have hcheck : ∃ kind?, expects.check j kind? = .ok () := by
      rcases readAs_eq_ok.mp h with ⟨-, hcheck, -⟩ | ⟨-, n, -, -, hcheck, -⟩
      · exact ⟨_, hcheck⟩
      · exact ⟨_, hcheck⟩
    obtain ⟨kind?, hcheck⟩ := hcheck
    cases expects with
    | element owner field category holes =>
      obtain ⟨_, hnull, -⟩ := bind_eq_ok.mp hcheck
      exact hnull
    | _ => rfl
  | _ => rfl

/-- What must not be null and is null is refused with the same error by reading it. -/
theorem readSlot_of_admits (h : slot.admits = .error e) : readSlot slot = .error e := by
  cases slot with
  | json j expects hlt =>
    cases expects with
    | element owner field category holes =>
      have hnull : Expectation.checkNull (.element owner field category holes) j = .error e := h
      have hj : j = .null := by
        by_contra hj
        have hkind : j.kind ≠ .null := fun hkind => hj (kind_eq_null hkind)
        simp [Expectation.checkNull, hkind] at hnull
      subst hj
      rw [readSlot_json, readAs, readSlot]
      simp [layer, Expectation.check, hnull]
    | _ => cases h
  | _ => cases h

/-- How reading a value fails: its layer is not found, its parts cannot be read, or it is not
what is expected. -/
theorem readAs_eq_error {expects : Expectation} {j : Json} (h : readAs expects j = .error e) :
    layer j = .error e ∨ (layer j = .ok none ∧ expects.check j none = .error e) ∨
      ∃ shape, layer j = .ok (some shape) ∧
        ((shape.traverse fun branch => branch.read fun slot => readSlot slot) = .error e ∨
          ∃ n, (shape.traverse fun branch => branch.read fun slot => readSlot slot) = .ok n ∧
            expects.check j n.kind? = .error e) := by
  rw [readAs, readSlot] at h
  rcases bind_eq_error.mp h with h | ⟨_ | shape, hlayer, h⟩
  · exact .inl h
  · rcases bind_eq_error.mp h with h | ⟨_, -, h⟩
    · exact .inr (.inl ⟨hlayer, h⟩)
    · cases h
  · refine .inr (.inr ⟨shape, hlayer, ?_⟩)
    rcases bind_eq_error.mp h with h | ⟨n, hn, h⟩
    · exact .inl h
    · rcases bind_eq_error.mp h with h | ⟨_, -, h⟩
      · exact .inr ⟨n, hn, h⟩
      · cases h

theorem sound_of_readSlot (h : readSlot slot = .ok t) : t.Sound := by
  cases slot with
  | json j expects hlt =>
    rw [readSlot_json] at h
    exact sound_of_readAs h
  | scalar value =>
    rw [readSlot] at h
    obtain rfl := Except.ok.inj h
    cases value with
    | none => exact sound_missing
    | some a => exact sound_atom a
  | regex pattern flags =>
    rw [readSlot] at h
    obtain rfl := Except.ok.inj h
    intro n hn
    simp [Tree.ofText] at hn

end Exchange

namespace Store

variable {bound : Nat} {f : Slot bound → Item → Refill Item} {d : Default}
  {branch : Branch (Slot bound)} {t : Tree} {e : ReadError}

structure Reads (f : Slot bound → Item → Refill Item) (slot : Slot bound) : Prop where
  fills : ∀ t, Exchange.readSlot slot = .ok t → Fills f slot t
  fails : ∀ e, Exchange.readSlot slot = .error e → Fails f slot e

section Branches

theorem fillsElements_of_read (hf : ∀ slot, Reads f slot) {slots : List (Slot bound)}
    {trees : List Tree} (h : slots.mapM Exchange.readSlot = .ok trees) :
    List.Forall₂ (fun slot t => slot.admits = .ok () ∧ Fills f slot t) slots trees :=
  (mapM_eq_ok.mp h).imp fun slot t hread => ⟨admits_of_readSlot hread, (hf slot).fills t hread⟩

theorem failsList_of_read (hf : ∀ slot, Reads f slot) {slots : List (Slot bound)}
    (h : slots.mapM Exchange.readSlot = .error e) : FailsList Slot.admits f slots e := by
  obtain ⟨before, slot, after, hsplit, ⟨trees, hbefore⟩, hslot⟩ := mapM_eq_error h
  refine ⟨before, slot, after, trees, hsplit, fillsElements_of_read hf hbefore, ?_⟩
  cases hadmits : slot.admits with
  | error e' =>
    rw [readSlot_of_admits hadmits] at hslot
    exact .inl (hadmits.trans (by rw [Except.error.inj hslot]))
  | ok _ => exact .inr ⟨hadmits, (hf slot).fails e hslot⟩

/-- The value of a field is filled with what is read. -/
theorem fillsBranch_of_read (hf : ∀ slot, Reads f slot) (hform : branch.form = d.form)
    (htakes : branch.form = .one → ∀ (st : Store) item, st.Takes d item)
    (h : branch.read Exchange.readSlot = .ok t) : FillsBranch Slot.admits f d branch t := by
  cases branch with
  | one slot => exact ⟨htakes rfl, (hf slot).fills t h⟩
  | many slots =>
    obtain ⟨trees, htrees, h⟩ := bind_eq_ok.mp h
    obtain rfl := pure_eq_ok.mp h
    cases d with
    | emptyList => exact ⟨rfl, trees, rfl, fillsElements_of_read hf htrees⟩
    | _ => cases hform
  | either choice =>
    cases d with
    | emptyChoice =>
      refine ⟨rfl, ?_⟩
      obtain ⟨c, hc, h⟩ := bind_eq_ok.mp h
      obtain rfl := pure_eq_ok.mp h
      cases choice with
      | empty =>
        obtain rfl := pure_eq_ok.mp hc
        rfl
      | first slot =>
        obtain ⟨u, hu, hc⟩ := bind_eq_ok.mp hc
        obtain rfl := pure_eq_ok.mp hc
        exact ⟨u, rfl, (hf slot).fills u hu⟩
      | second slot =>
        obtain ⟨u, hu, hc⟩ := bind_eq_ok.mp hc
        obtain rfl := pure_eq_ok.mp hc
        exact ⟨u, rfl, (hf slot).fills u hu⟩
    | _ => cases hform
  | block slots =>
    obtain ⟨trees, htrees, h⟩ := bind_eq_ok.mp h
    obtain rfl := pure_eq_ok.mp h
    cases d with
    | emptyBlock => exact ⟨rfl, trees, rfl, fillsElements_of_read hf htrees⟩
    | _ => cases hform

/-- Refilling a field fails as reading its value does. -/
theorem failsBranch_of_read (hf : ∀ slot, Reads f slot) (hform : branch.form = d.form)
    (h : branch.read Exchange.readSlot = .error e) : FailsBranch Slot.admits f d branch e := by
  cases branch with
  | one slot => exact (hf slot).fails e h
  | many slots =>
    rcases bind_eq_error.mp h with h | ⟨_, -, h⟩
    · cases d with
      | emptyList => exact ⟨rfl, failsList_of_read hf h⟩
      | _ => cases hform
    · cases h
  | either choice =>
    cases d with
    | emptyChoice =>
      refine ⟨rfl, ?_⟩
      rcases bind_eq_error.mp h with h | ⟨_, -, h⟩
      · cases choice with
        | empty => cases h
        | first slot =>
          rcases bind_eq_error.mp h with h | ⟨_, -, h⟩
          · exact ⟨slot, rfl, (hf slot).fails e h⟩
          · cases h
        | second slot =>
          rcases bind_eq_error.mp h with h | ⟨_, -, h⟩
          · exact ⟨slot, rfl, (hf slot).fails e h⟩
          · cases h
      · cases h
    | _ => cases hform
  | block slots =>
    rcases bind_eq_error.mp h with h | ⟨_, -, h⟩
    · cases d with
      | emptyBlock => exact ⟨rfl, failsList_of_read hf h⟩
      | _ => cases hform
    · cases h

end Branches

section Layers

variable {j : Json} {shape : Layer j} {k : Kind} {m : Node Tree} {st : Store} {a : Nat}
  {n : Node Item} {f : Slot (sizeOf j) → Item → Refill Item}

/-- What any item can stand in, save the one kind of declarations. -/
theorem takes_any {g : Field} (hform : (k.default g).form = .one) (hg : g ≠ .declarationKind)
    (st : Store) (item : Item) : st.Takes (k.default g) item := by
  have hfixed (kind : VariableKind) : k.default g ≠ .atom (.member (.variableKind kind)) := by
    cases g <;> grind [Kind.default]
  unfold Takes
  split
  · next heq =>
    rw [heq] at hform
    cases hform
  · next heq =>
    rw [heq] at hform
    cases hform
  · next heq =>
    rw [heq] at hform
    cases hform
  · next kind heq => exact absurd heq (hfixed kind)
  · trivial

theorem ne_declarationKind {α : Type} {x : α} {g : Field} {n : Node α}
    (h : (g, x) ∈ n.readFields) : g ≠ .declarationKind := by
  rintro rfl
  cases n <;> simp [Node.readFields, Node.fields] at h

/-- Reading the branches of a layer fails at the first that does, in the order in which fields
are refilled too: only values without parts stand in another place there. -/
theorem readFields_split (hshape : Shaped k shape)
    (hread : (shape.traverse fun branch => branch.read Exchange.readSlot) = .error e) :
    ∃ before g branch after, shape.readFields = before ++ (g, branch) :: after ∧
      (∀ entry ∈ before, ∃ t, entry.2.read Exchange.readSlot = .ok t) ∧
      branch.read Exchange.readSlot = .error e := by
  cases shape with
  | unaryExpression o argument =>
    obtain ⟨op, rfl⟩ := hshape.operator o argument rfl
    rcases bind_eq_error.mp hread with h | ⟨_, -, h⟩
    · cases (read_member _).symm.trans h
    · rcases bind_eq_error.mp h with h | ⟨_, -, h⟩
      · exact ⟨[], .argument, argument, _, rfl, by simp, h⟩
      · cases h
  | variableDeclaration d c =>
    obtain rfl := hshape.declaration d c rfl
    rcases bind_eq_error.mp hread with h | ⟨_, -, h⟩
    · exact ⟨[], .declarations, d, [], rfl, by simp, h⟩
    · rcases bind_eq_error.mp h with h | ⟨_, -, h⟩
      · cases (read_member _).symm.trans h
      · cases h
  | _ => exact Node.traverse_eq_error hread

/-- The branches of a layer are filled with what is read from them. -/
theorem fillsBranch_of_shaped (hf : ∀ slot, Reads f slot) (hshape : Shaped k shape)
    {g : Field} {branch : Branch (Slot (sizeOf j))} (hbranch : (g, branch) ∈ shape.readFields)
    {t : Tree} (h : branch.read Exchange.readSlot = .ok t) :
    FillsBranch Slot.admits f (k.default g) branch t := by
  have hform := hshape.forms.form_eq (Node.mem_fields_of_readFields hbranch)
  exact fillsBranch_of_read hf hform (fun hone => takes_any (hform.symm.trans hone)
    (ne_declarationKind hbranch)) h

/-- The fields of a layer are filled with those of the node that is read from it. -/
theorem fillsBranch_of_traverse (hf : ∀ slot, Reads f slot) (hshape : Shaped k shape)
    (hread : (shape.traverse fun branch => branch.read Exchange.readSlot) = .ok m)
    (g : Field) (branch : Branch (Slot (sizeOf j))) (hbranch : (g, branch) ∈ shape.readFields) :
    FillsBranch Slot.admits f (k.default g) branch ((m.get? g).getD .missing) := by
  obtain ⟨t, ht, hmem⟩ :=
    (Node.traverse_eq_ok hread).2 g branch (Node.mem_fields_of_readFields hbranch)
  rw [Node.get?_eq_some.mpr hmem]
  exact fillsBranch_of_shaped hf hshape hbranch ht

theorem runs_layer_regular (hf : ∀ slot, Reads f slot) (hshape : Shaped k shape)
    (hbinary : k ≠ .binaryExpression) (hmember : k ≠ .memberExpression)
    (hread : (shape.traverse fun branch => branch.read Exchange.readSlot) = .ok m)
    (hs : st.Sane [a]) (hcell : st.cells[a]? = some (.node n)) (hk : n.kind? = some k) :
    ∃ n' st', Runs (refillNode Slot.admits f (.ref a) shape) st () st' ∧
      Filled st (.ref a) (.node m) (.ref a) st' ∧ st'.cells[a]? = some (.node n') ∧
      n'.kind? = some k ∧ KeepsLists k n n' := by
  have hkind := hshape.forms.kind?
  obtain ⟨hm, hfields⟩ := Node.traverse_eq_ok hread
  refine runs_refillNode hkind (hm.trans hkind) hbinary hmember
    (fillsBranch_of_traverse hf hshape hread) (fun kind hdeclared => ?_) hs hcell hk
  obtain ⟨branch, hbranch⟩ := Node.exists_field hkind (hm.trans hkind) (.many []) hdeclared
  obtain ⟨t, ht, hmem⟩ := hfields _ branch hbranch
  rw [hshape.declarationKind hbranch, read_member] at ht
  rw [Node.eq_of_mem_fields hdeclared hmem, ← Except.ok.inj ht]

theorem read_single {slot : Slot bound} {t : Tree}
    (h : (Branch.many [slot]).read Exchange.readSlot = .ok t) :
    ∃ only, Exchange.readSlot slot = .ok only ∧ t = .list [only] := by
  obtain ⟨trees, htrees, h⟩ := bind_eq_ok.mp h
  obtain rfl := pure_eq_ok.mp h
  cases mapM_eq_ok.mp htrees with
  | cons honly hrest =>
    cases hrest
    exact ⟨_, honly, rfl⟩

theorem fails_single {slot : Slot bound} {e : ReadError}
    (h : (Branch.many [slot]).read Exchange.readSlot = .error e) :
    Exchange.readSlot slot = .error e := by
  rcases bind_eq_error.mp h with h | ⟨_, -, h⟩
  · rw [List.mapM_cons] at h
    rcases bind_eq_error.mp h with h | ⟨_, -, h⟩
    · exact h
    · cases h
  · cases h

theorem runs_layer_operands (hf : ∀ slot, Reads f slot) (hshape : Shaped .binaryExpression shape)
    (hread : (shape.traverse fun branch => branch.read Exchange.readSlot) = .ok m)
    (hs : st.Sane [a]) (hcell : st.cells[a]? = some (.node n))
    (hk : n.kind? = some .binaryExpression) :
    ∃ st', Runs (refillNode Slot.admits f (.ref a) shape) st () st' ∧
      Filled st (.ref a) (.node m.spliced) (.ref a) st' ∧
      ∃ left op, KeepsOperand f left st a n op st' := by
  have hkind := hshape.forms.kind?
  cases shape with
  | binaryExpression l o r =>
    obtain ⟨left, op, right, rfl, rfl, rfl⟩ := hshape.operands l o r rfl
    obtain ⟨leftTree, hleft, h⟩ := bind_eq_ok.mp hread
    obtain ⟨operatorTree, hoperator, h⟩ := bind_eq_ok.mp h
    obtain ⟨rightTree, hright, h⟩ := bind_eq_ok.mp h
    obtain rfl := pure_eq_ok.mp h
    obtain rfl := Except.ok.inj ((read_member _).symm.trans hoperator)
    obtain ⟨only, honly, rfl⟩ := read_single hright
    have hscalar : Fills f (.scalar (some (.member (.binaryOperator op)))) _ :=
      (hf _).fills (.ofMember (.binaryOperator op)) (by rw [Exchange.readSlot]; rfl)
    obtain ⟨st', hrun, hfilled, hkeeps⟩ := runs_refillChain ((hf left).fills _ hleft) hscalar
      ((hf right).fills _ honly) (sound_of_readSlot honly) hs hcell hk
    exact ⟨st', hrun, hfilled, left, op, hkeeps⟩
  | _ => cases hkind

theorem runs_layer_accesses (hf : ∀ slot, Reads f slot) (hshape : Shaped .memberExpression shape)
    (hread : (shape.traverse fun branch => branch.read Exchange.readSlot) = .ok m)
    (hs : st.Sane [a]) (hcell : st.cells[a]? = some (.node n))
    (hk : n.kind? = some .memberExpression) :
    ∃ st', Runs (refillNode Slot.admits f (.ref a) shape) st () st' ∧
      Filled st (.ref a) (.node m.spliced) (.ref a) st' ∧
      ∃ object computed, KeepsObject f object st a n computed st' := by
  have hkind := hshape.forms.kind?
  cases shape with
  | memberExpression o i c =>
    obtain ⟨object, index, computed, rfl, rfl, rfl⟩ := hshape.accesses o i c rfl
    obtain ⟨objectTree, hobject, h⟩ := bind_eq_ok.mp hread
    obtain ⟨indexTree, hindex, h⟩ := bind_eq_ok.mp h
    obtain ⟨computedTree, hcomputed, h⟩ := bind_eq_ok.mp h
    obtain rfl := pure_eq_ok.mp h
    obtain rfl := Except.ok.inj ((read_atom _).symm.trans hcomputed)
    obtain ⟨only, honly, rfl⟩ := read_single hindex
    have hscalar : Fills f (.scalar (some (.bool computed))) _ :=
      (hf _).fills (.atom (.bool computed)) (by rw [Exchange.readSlot]; rfl)
    obtain ⟨st', hrun, hfilled, hkeeps⟩ := runs_refillAccesses ((hf object).fills _ hobject)
      ((hf index).fills _ honly) hscalar (sound_of_readSlot hobject) hs hcell hk
    exact ⟨st', hrun, hfilled, object, computed, hkeeps⟩
  | _ => cases hkind

/-- A node is refilled with what its layer is read as. -/
theorem runs_layer (hf : ∀ slot, Reads f slot) (hshape : Shaped k shape)
    (hread : (shape.traverse fun branch => branch.read Exchange.readSlot) = .ok m)
    (hs : st.Sane [a]) (hcell : st.cells[a]? = some (.node n)) (hk : n.kind? = some k) :
    ∃ st', Runs (refillNode Slot.admits f (.ref a) shape) st () st' ∧
      Filled st (.ref a) (.node m.spliced) (.ref a) st' := by
  by_cases hbinary : k = .binaryExpression
  · subst hbinary
    obtain ⟨st', hrun, hfilled, -⟩ := runs_layer_operands hf hshape hread hs hcell hk
    exact ⟨st', hrun, hfilled⟩
  · by_cases hmember : k = .memberExpression
    · subst hmember
      obtain ⟨st', hrun, hfilled, -⟩ := runs_layer_accesses hf hshape hread hs hcell hk
      exact ⟨st', hrun, hfilled⟩
    · have hm : m.kind? = some k := (Node.traverse_eq_ok hread).1.trans hshape.forms.kind?
      obtain ⟨_, st', hrun, hfilled, -⟩ :=
        runs_layer_regular hf hshape hbinary hmember hread hs hcell hk
      rw [spliced_regular hm hbinary hmember]
      exact ⟨st', hrun, hfilled⟩

theorem breaks_layer_regular (hf : ∀ slot, Reads f slot) (hshape : Shaped k shape)
    (hbinary : k ≠ .binaryExpression) (hmember : k ≠ .memberExpression)
    (hread : (shape.traverse fun branch => branch.read Exchange.readSlot) = .error e)
    (hs : st.Sane [a]) (hcell : st.cells[a]? = some (.node n)) (hk : n.kind? = some k) :
    Breaks (refillNode Slot.admits f (.ref a) shape) st e := by
  have hkind := hshape.forms.kind?
  obtain ⟨before, g, branch, after, hsplit, hbefore, hbranch⟩ := readFields_split hshape hread
  have hmem (entry : Field × Branch (Slot (sizeOf j))) (h : entry ∈ before ++ [(g, branch)]) :
      entry ∈ shape.readFields := mem_of_split hsplit h
  refine breaks_refillNode hkind hbinary hmember hsplit (fun h b hb => ?_) ?_ hs hcell hk
  · obtain ⟨t, ht⟩ := hbefore (h, b) hb
    exact ⟨t, fillsBranch_of_shaped hf hshape (hmem _ (List.mem_append_left _ hb)) ht⟩
  · refine failsBranch_of_read hf (hshape.forms.form_eq ?_) hbranch
    exact Node.mem_fields_of_readFields (hmem _ (by simp))

theorem breaks_layer_operands (hf : ∀ slot, Reads f slot) (hshape : Shaped .binaryExpression shape)
    (hread : (shape.traverse fun branch => branch.read Exchange.readSlot) = .error e)
    (hs : st.Sane [a]) (hcell : st.cells[a]? = some (.node n))
    (hk : n.kind? = some .binaryExpression) :
    Breaks (refillNode Slot.admits f (.ref a) shape) st e := by
  have hkind := hshape.forms.kind?
  cases shape with
  | binaryExpression l o r =>
    obtain ⟨left, op, right, rfl, rfl, rfl⟩ := hshape.operands l o r rfl
    rcases bind_eq_error.mp hread with h | ⟨leftTree, hleft, h⟩
    · exact breaks_refillChain (t := .missing) (.inl ((hf left).fails e h)) hs hcell hk
    · rcases bind_eq_error.mp h with h | ⟨_, -, h⟩
      · cases (read_member _).symm.trans h
      · rcases bind_eq_error.mp h with h | ⟨_, -, h⟩
        · exact breaks_refillChain
            (.inr ⟨(hf left).fills _ hleft, (hf right).fails e (fails_single h)⟩) hs hcell hk
        · cases h
  | _ => cases hkind

theorem breaks_layer_accesses (hf : ∀ slot, Reads f slot) (hshape : Shaped .memberExpression shape)
    (hread : (shape.traverse fun branch => branch.read Exchange.readSlot) = .error e)
    (hs : st.Sane [a]) (hcell : st.cells[a]? = some (.node n))
    (hk : n.kind? = some .memberExpression) :
    Breaks (refillNode Slot.admits f (.ref a) shape) st e := by
  have hkind := hshape.forms.kind?
  cases shape with
  | memberExpression o i c =>
    obtain ⟨object, index, computed, rfl, rfl, rfl⟩ := hshape.accesses o i c rfl
    rcases bind_eq_error.mp hread with h | ⟨objectTree, hobject, h⟩
    · exact breaks_refillAccesses (t := .missing) (.inl ((hf object).fails e h)) hs hcell hk
    · rcases bind_eq_error.mp h with h | ⟨_, -, h⟩
      · exact breaks_refillAccesses
          (.inr ⟨(hf object).fills _ hobject, (hf index).fails e (fails_single h)⟩) hs hcell hk
      · rcases bind_eq_error.mp h with h | ⟨_, -, h⟩
        · cases (read_atom _).symm.trans h
        · cases h
  | _ => cases hkind

/-- Refilling a node fails as reading its layer does. -/
theorem breaks_layer (hf : ∀ slot, Reads f slot) (hshape : Shaped k shape)
    (hread : (shape.traverse fun branch => branch.read Exchange.readSlot) = .error e)
    (hs : st.Sane [a]) (hcell : st.cells[a]? = some (.node n)) (hk : n.kind? = some k) :
    Breaks (refillNode Slot.admits f (.ref a) shape) st e := by
  by_cases hbinary : k = .binaryExpression
  · subst hbinary
    exact breaks_layer_operands hf hshape hread hs hcell hk
  · by_cases hmember : k = .memberExpression
    · subst hmember
      exact breaks_layer_accesses hf hshape hread hs hcell hk
    · exact breaks_layer_regular hf hshape hbinary hmember hread hs hcell hk

end Layers

section Slots

variable {st st₁ st₂ : Store} {old item : Item}

/-- What stood in a slot is given up for a value without parts. -/
theorem filled_scalar (hrefs : item.refs = []) (h : Shows st item t) :
    Filled st old t item st := by
  refine ⟨?_, ?_, fun _ => h⟩
  · rw [hrefs]
    exact .drop st _
  · rintro b object indices computed rfl
    cases hrefs

/-- A node that stood in a slot or was made for it is refilled. -/
theorem Filled.after {a : Nat} (h : Filled st₁ (.ref a) t item st₂)
    (hrefills : Refills st old.refs [a] st₁) : Filled st old t item st₂ where
  refills := hrefills.trans h.refills
  indices b object indices computed hb hmember c hc :=
    Nat.le_trans hrefills.evolves.size_le (h.indices b object indices computed hb hmember c hc)
  shows ho := h.shows (hrefills.owned ho)

theorem reads_scalar (value : Option Atom) : Reads readSlot (.scalar value : Slot bound) := by
  constructor
  · intro t h st old hs
    rw [Exchange.readSlot] at h
    obtain rfl := Except.ok.inj h
    cases value with
    | none =>
      refine ⟨.missing, st, ?_, filled_scalar rfl .missing⟩
      rw [readSlot]
      exact runs_pure _
    | some a =>
      refine ⟨.atom a, st, ?_, filled_scalar rfl (.atom a)⟩
      rw [readSlot]
      exact runs_pure _
  · intro e h
    rw [Exchange.readSlot] at h
    cases h

theorem reads_regex (pattern : Text) (flags : RegexFlags) :
    Reads readSlot (.regex pattern flags : Slot bound) := by
  constructor
  · intro t h st old hs
    rw [Exchange.readSlot] at h
    obtain rfl := Except.ok.inj h
    refine ⟨_, st, ?_, filled_scalar rfl (.regex (.atom _) (.atom _))⟩
    rw [readSlot]
    exact runs_pure _
  · intro e h
    rw [Exchange.readSlot] at h
    cases h

variable {j : Json} {expects : Expectation} {hlt : sizeOf j < bound}

theorem liftM_ok_bind {α β : Type} (a : α) (next : α → Refill β) :
    ((liftM (Except.ok a : Except ReadError α) : Refill α) >>= next) = next a := rfl

/-- A slot with a layer is read by refilling a node with the layer. -/
theorem readSlot_eq {shape : Layer j} {k : Kind} (hlayer : layer j = .ok (some shape))
    (hkind : shape.kind? = some k) :
    readSlot (.json j expects hlt) old = (do
      let target ← refilled k old
      refillNode Slot.admits readSlot target shape
      expects.check j k
      return target : Refill Item) := by
  rw [readSlot, hlayer, liftM_ok_bind]
  simp only [hkind]
  congr 1
  funext target
  congr 2
  funext slot
  cases slot <;> rfl

theorem fills_json (ih : ∀ slot : Slot (sizeOf j), Reads readSlot slot)
    (h : readAs expects j = .ok t) : Fills readSlot (.json j expects hlt) t := by
  intro st old hs
  rcases readAs_eq_ok.mp h with ⟨hlayer, hcheck, rfl⟩ | ⟨shape, m, hlayer, hread, hcheck, rfl⟩
  · refine ⟨.missing, st, ?_, filled_scalar rfl .missing⟩
    rw [readSlot, hlayer]
    refine (runs_ok _).bind ?_
    rw [hcheck]
    exact (runs_ok ()).bind (runs_pure _)
  · obtain ⟨k, hshape⟩ := shaped_layer hlayer
    have hkind := hshape.forms.kind?
    have hm : m.kind? = some k := (Node.traverse_eq_ok hread).1.trans hkind
    obtain ⟨a, n, st₁, hrun₁, hrefills, hcell, hk⟩ := runs_refilled k hs
    obtain ⟨st₂, hrun₂, hfilled⟩ := runs_layer ih hshape hread (hrefills.sane hs) hcell hk
    refine ⟨.ref a, st₂, ?_, hfilled.after hrefills⟩
    rw [readSlot_eq hlayer hkind, ← hm, hcheck]
    exact hrun₁.lift.bind (hrun₂.bind ((runs_ok ()).bind (runs_pure _)))

theorem fails_json (ih : ∀ slot : Slot (sizeOf j), Reads readSlot slot)
    (h : readAs expects j = .error e) : Fails readSlot (.json j expects hlt) e := by
  intro st old hs
  rcases readAs_eq_error h with hlayer | ⟨hlayer, hcheck⟩ | ⟨shape, hlayer, h⟩
  · rw [readSlot, hlayer]
    exact breaks_error.bind
  · rw [readSlot, hlayer]
    refine (runs_ok _).breaks ?_
    rw [hcheck]
    exact breaks_error.bind
  · obtain ⟨k, hshape⟩ := shaped_layer hlayer
    have hkind := hshape.forms.kind?
    obtain ⟨a, n, st₁, hrun₁, hrefills, hcell, hk⟩ := runs_refilled k hs
    rw [readSlot_eq hlayer hkind]
    refine hrun₁.lift.breaks ?_
    rcases h with hread | ⟨m, hread, hcheck⟩
    · exact (breaks_layer ih hshape hread (hrefills.sane hs) hcell hk).bind
    · obtain ⟨st₂, hrun₂, -⟩ := runs_layer ih hshape hread (hrefills.sane hs) hcell hk
      have hm : m.kind? = some k := (Node.traverse_eq_ok hread).1.trans hkind
      rw [← hm, hcheck]
      exact hrun₂.breaks breaks_error.bind

/-- Reading a slot into a store has the outcome of reading it into a fresh tree. -/
theorem reads_readSlot (slot : Slot bound) : Reads readSlot slot := by
  -- The parts of an object are slots of a smaller bound: its own size.
  induction bound using Nat.strong_induction_on with
  | h bound ih =>
    cases slot with
    | scalar value => exact reads_scalar value
    | regex pattern flags => exact reads_regex pattern flags
    | json j expects hlt =>
      have hparts := fun slot => ih (sizeOf j) hlt slot
      constructor
      · intro t h
        rw [readSlot_json] at h
        exact fills_json hparts h
      · intro e h
        rw [readSlot_json] at h
        exact fails_json hparts h

end Slots

end Store

end ScriptTree
