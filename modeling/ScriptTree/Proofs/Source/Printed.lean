import ScriptTree.Proofs.Source.Placed

/-!
The nodes that are printed in a tree. Not all that stands in a tree is: the value of a literal is
written as a whole, and of the function of an accessor only the parts are. What is proved of a
node from the nodes printed in its parts holds of every node that is printed.
-/

namespace ScriptTree

/-- The parts of the function of an accessor that are printed: its name is not. -/
def Tree.accessorParts : Tree → List Tree
  | .node (.functionExpression _ params body) => [params, body]
  | _ => []

/-- The parts of a node that are printed as they stand: all fields but the value of a literal
and the function of an accessor, of which the parts are printed. -/
def Node.printedParts : Node Tree → List Tree
  | .literal _ => []
  | .property key value kind =>
    if Source.definesValue kind then [key, value] else key :: value.accessorParts
  | n => n.fields.map Prod.snd

section Equations

-- Its equations are derived here, once for all the proofs.
attribute [local simp] Node.printedParts

end Equations

/-- The node is printed in the tree: it is the tree or stands in a part that is printed. -/
inductive Node.PrintedIn (n : Node Tree) : Tree → Prop
  | here : PrintedIn n (.node n)
  | item {items : List Tree} {t : Tree} (hitem : t ∈ items) (h : PrintedIn n t) :
    PrintedIn n (.list items)
  | choice {c : Choice Tree} {t : Tree} (hvalue : c.value? = some t) (h : PrintedIn n t) :
    PrintedIn n (.choice c)
  | part {k : Node Tree} {t : Tree} (hpart : t ∈ k.printedParts) (h : PrintedIn n t) :
    PrintedIn n (.node k)

section Induction

variable {P : Node Tree → Prop} {n k : Node Tree} {s t : Tree}

/-- The parts that are printed stand in the fields. -/
theorem within_printedParts (h : s ∈ k.printedParts) : ∃ f t, (f, t) ∈ k.fields ∧ Within s t := by
  have hfield (h : s ∈ k.fields.map Prod.snd) : ∃ f t, (f, t) ∈ k.fields ∧ Within s t := by
    obtain ⟨⟨f, t⟩, hentry, rfl⟩ := List.mem_map.mp h
    exact ⟨f, t, hentry, .refl⟩
  cases k with
  | literal value => cases h
  | property key value kind =>
    have hkey (h : s = key) : ∃ f t, (f, t) ∈ (Node.property key value kind).fields ∧ Within s t :=
      ⟨.key, key, by simp [Node.fields], h ▸ .refl⟩
    have hvalue (h : Within s value) :
        ∃ f t, (f, t) ∈ (Node.property key value kind).fields ∧ Within s t :=
      ⟨.value, value, by simp [Node.fields], h⟩
    simp only [Node.printedParts] at h
    split at h
    · rcases List.mem_pair.mp h with h | rfl
      · exact hkey h
      · exact hvalue .refl
    · rcases List.mem_cons.mp h with h | h
      · exact hkey h
      · unfold Tree.accessorParts at h
        split at h
        · refine hvalue ?_
          rcases List.mem_pair.mp h with rfl | rfl
          · exact .field (f := .params) (by simp [Node.fields]) .refl
          · exact .field (f := .body) (by simp [Node.fields]) .refl
        · cases h
  | _ => exact hfield h

theorem Node.PrintedIn.within (h : n.PrintedIn t) : Within (.node n) t := by
  induction h with
  | here => exact .refl
  | item hitem _ ih => exact .item hitem ih
  | choice hvalue _ ih => exact .choice hvalue ih
  | part hpart _ ih =>
    obtain ⟨f, s, hs, hwithin⟩ := within_printedParts hpart
    exact .field hs (ih.trans hwithin)

/-- What is printed in a part of a node that is printed is printed. -/
theorem Node.PrintedIn.of_part (h : k.PrintedIn s) (hs : s ∈ n.printedParts) (hn : n.PrintedIn t) :
    k.PrintedIn t := by
  induction hn with
  | here => exact .part hs h
  | item hitem _ ih => exact .item hitem ih
  | choice hvalue _ ih => exact .choice hvalue ih
  | part hpart _ ih => exact .part hpart ih

/-- A property of the nodes that are printed is proved from the leaves up. -/
theorem forall_printedIn (h : ∀ n : Node Tree, n.PrintedIn t →
    (∀ s ∈ n.printedParts, ∀ k : Node Tree, k.PrintedIn s → P k) → P n) :
    ∀ n : Node Tree, n.PrintedIn t → P n := by
  intro n hn
  refine forall_within (P := fun n => n.PrintedIn t → P n) (fun n _ ih hn => ?_) n hn.within hn
  refine h n hn fun s hs k hk => ?_
  obtain ⟨f, u, hu, hsu⟩ := within_printedParts hs
  exact (ih f u hu k (hk.within.trans hsu)).2 (hk.of_part hs hn)

end Induction

namespace Source

theorem printedIn_node {n k : Node Tree} :
    n.PrintedIn (.node k) ↔ n = k ∨ ∃ t ∈ k.printedParts, n.PrintedIn t := by
  constructor
  · intro h
    cases h with
    | here => exact .inl rfl
    | part hpart h => exact .inr ⟨_, hpart, h⟩
  · rintro (rfl | ⟨t, hpart, h⟩)
    · exact .here
    · exact .part hpart h

@[simp] theorem not_printedIn_missing {n : Node Tree} : ¬n.PrintedIn .missing := nofun

@[simp] theorem not_printedIn_atom {n : Node Tree} {a : Atom} : ¬n.PrintedIn (.atom a) := nofun

@[simp] theorem printedIn_list {n : Node Tree} {items : List Tree} :
    n.PrintedIn (.list items) ↔ ∃ t ∈ items, n.PrintedIn t := by
  constructor
  · intro h
    cases h with
    | item hitem h => exact ⟨_, hitem, h⟩
  · rintro ⟨t, hitem, h⟩
    exact .item hitem h

@[simp] theorem printedIn_choice {n : Node Tree} {c : Choice Tree} :
    n.PrintedIn (.choice c) ↔ ∃ t, c.value? = some t ∧ n.PrintedIn t := by
  constructor
  · intro h
    cases h with
    | choice hvalue h => exact ⟨_, hvalue, h⟩
  · rintro ⟨t, hvalue, h⟩
    exact .choice hvalue h

section Parts

variable {P : Node Tree → Prop} {n k : Node Tree} {t : Tree}

/-- What holds throughout a node holds throughout what is printed of it. -/
theorem throughout_printedParts (h : (Tree.node k).Throughout P) (ht : t ∈ k.printedParts) :
    t.Throughout P := by
  have hparts := (throughout_node.mp h).2
  cases k with
  | literal value => simp [Node.printedParts] at ht
  | property key value kind =>
    have hkey : key.Throughout P := hparts _ (List.mem_cons_self) (by simp)
    have hvalue : value.Throughout P :=
      hparts _ (List.mem_cons_of_mem _ List.mem_cons_self) (by simp)
    simp only [Node.printedParts] at ht
    split at ht
    · rcases List.mem_pair.mp ht with rfl | rfl
      · exact hkey
      · exact hvalue
    · rcases List.mem_cons.mp ht with rfl | ht
      · exact hkey
      · unfold Tree.accessorParts at ht
        split at ht
        · have hfunction := (throughout_node.mp hvalue).2
          simp only [Node.entries, List.forall_mem_cons] at hfunction
          rcases List.mem_pair.mp ht with rfl | rfl
          · exact hfunction.2.1 (by simp)
          · exact hfunction.2.2.1 (by simp)
        · cases ht
  | _ => simp [Node.printedParts, Node.fields, Node.entries] at ht hparts <;> grind

/-- What holds throughout a tree holds throughout what is printed in it. -/
theorem throughout_printedIn (h : t.Throughout P) (hprinted : n.PrintedIn t) :
    (Tree.node n).Throughout P := by
  induction hprinted with
  | here => exact h
  | item hitem _ ih => exact ih (throughout_list.mp h _ hitem)
  | choice hvalue _ ih => exact ih (throughout_choice.mp h _ hvalue)
  | part hpart _ ih => exact ih (throughout_printedParts h hpart)

end Parts

end Source

end ScriptTree
