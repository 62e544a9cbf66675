import ScriptTree.Proofs.Store.Filling

/-!
Refilling that fails. An action that fills slots may fail at one of them. Then refilling the
list, the field or the node that the slot belongs to fails with the same error, whatever was
refilled before it. What stood in the slots makes no difference.
-/

namespace ScriptTree.Store

open Exchange

variable {α β : Type} {st st₁ : Store} {a : Nat} {e : ReadError}
  {admits : α → Except ReadError Unit} {f : α → Item → Refill Item} {slot : α}

section Sequences

/-- Refilling fails since the text stands for no tree. -/
def Breaks (change : Refill α) (st : Store) (e : ReadError) : Prop :=
  ∃ st', change.run.run st = (.error (.read e), st')

theorem breaks_error : Breaks (liftM (Except.error e : Except ReadError α) : Refill α) st e :=
  ⟨st, rfl⟩

theorem Breaks.bind {change : Refill α} {next : α → Refill β} (h : Breaks change st e) :
    Breaks (change >>= next) st e := by
  obtain ⟨st', h⟩ := h
  refine ⟨st', ?_⟩
  rw [ExceptT.run_bind, StateT.run_bind, h]
  rfl

/-- What runs before a failure makes no difference to it. -/
theorem Runs.breaks {change : Refill α} {next : α → Refill β} {result : α}
    (h : Runs change st result st₁) (hnext : Breaks (next result) st₁ e) :
    Breaks (change >>= next) st e := by
  obtain ⟨st', hnext⟩ := hnext
  refine ⟨st', ?_⟩
  unfold Runs at h
  rw [ExceptT.run_bind, StateT.run_bind, h]
  exact hnext

end Sequences

def Fails (f : α → Item → Refill Item) (slot : α) (e : ReadError) : Prop :=
  ∀ st old, st.Sane old.refs → Breaks (f slot old) st e

section Lists

variable {items : List Item} {i : Nat}

def FailsElement (admits : α → Except ReadError Unit) (f : α → Item → Refill Item) (slot : α)
    (e : ReadError) : Prop :=
  admits slot = .error e ∨ admits slot = .ok () ∧ Fails f slot e

def FailsList (admits : α → Except ReadError Unit) (f : α → Item → Refill Item) (slots : List α)
    (e : ReadError) : Prop :=
  ∃ before slot after trees, slots = before ++ slot :: after ∧
    List.Forall₂ (fun slot t => admits slot = .ok () ∧ Fills f slot t) before trees ∧
    FailsElement admits f slot e

theorem breaks_refillAt (h : FailsElement admits f slot e)
    (hcell : st.cells[a]? = some (.list items)) (hs : st.Sane [a]) :
    Breaks (refillAt admits f (.ref a) i slot) st e := by
  unfold refillAt
  rcases h with h | ⟨h, hf⟩
  · rw [h]
    exact breaks_error.bind
  · rw [h]
    refine (runs_ok ()).breaks ((runs_size hcell).lift.breaks ?_)
    split
    · next hlt =>
      refine (runs_numbered hcell).lift.breaks (Breaks.bind (hf st _ ?_))
      rw [show items.getD i .missing = items[i] by simp [hlt]]
      exact hs.refs.mono (refs_eq hcell ▸ Shows.refs_item (List.getElem_mem hlt))
    · exact (runs_modifyList hcell).lift.breaks (Breaks.bind (hf _ _ sane_nil))

theorem breaks_refillList {slots : List α} (h : FailsList admits f slots e)
    (hcell : st.cells[a]? = some (.list items)) (hs : st.Sane [a]) :
    Breaks (refillList admits f (.ref a) slots) st e := by
  obtain ⟨before, slot, after, trees, rfl, hbefore, hslot⟩ := h
  have hfrom (i : Nat) (hi : i ≤ items.length) :
      Breaks (refillFrom admits f (.ref a) i (before ++ slot :: after)) st e := by
    induction hbefore generalizing st items i with
    | nil => exact (breaks_refillAt hslot hcell hs).bind
    | cons hfirst _ ih =>
      obtain ⟨items₁, st₁, hrun, hrefills, hcell₁, hi₁, -⟩ :=
        runs_refillAt hfirst.1 hfirst.2 hcell hs hi
      exact hrun.breaks (ih hcell₁ (hrefills.sane hs) (i + 1) hi₁)
  exact (hfrom 0 (Nat.zero_le _)).bind

end Lists

section Fields

variable {n : Node Item} {k : Kind} {field : Field} {old : Item}

def FailsChoice (f : α → Item → Refill Item) (choice : Choice α) (e : ReadError) : Prop :=
  ∃ slot, choice.value? = some slot ∧ Fails f slot e

def FailsBranch (admits : α → Except ReadError Unit) (f : α → Item → Refill Item) (d : Default)
    (branch : Branch α) (e : ReadError) : Prop :=
  match branch with
  | .one slot => Fails f slot e
  | .many slots => d = .emptyList ∧ FailsList admits f slots e
  | .either choice => d = .emptyChoice ∧ FailsChoice f choice e
  | .block slots => d = .emptyBlock ∧ FailsList admits f slots e

theorem breaks_refillChoice {choice : Choice α} {c : Choice Item} (h : FailsChoice f choice e)
    (hs : st.Sane (Item.choice c).refs) :
    Breaks (refillChoice f (.choice c) choice) st e := by
  obtain ⟨slot, hvalue, hf⟩ := h
  rw [refs_choice] at hs
  cases choice with
  | empty => cases hvalue
  | first =>
    obtain rfl := Option.some.inj hvalue
    exact (hf st _ hs).bind
  | second =>
    obtain rfl := Option.some.inj hvalue
    exact (hf st _ hs).bind

theorem breaks_refillField {branch : Branch α}
    (h : FailsBranch admits f (k.default field) branch e) (hs : st.Sane [a])
    (hcell : st.cells[a]? = some (.node n)) (hk : n.kind? = some k)
    (hfield : (field, old) ∈ n.fields) :
    Breaks (refillField admits f (.ref a) field branch) st e := by
  have htakes := hs.takes hcell hk hfield
  have hold := hs.of_field hcell hfield
  refine (runs_part hcell (Node.get?_eq_some.mpr hfield)).lift.breaks ?_
  cases branch with
  | one slot => exact (h st old hold).bind
  | many slots =>
    obtain ⟨hdefault, hslots⟩ := h
    rw [hdefault] at htakes
    obtain ⟨b, rfl, hb⟩ := htakes
    obtain ⟨items, hitems⟩ := list_of_sortAt hb
    exact breaks_refillList hslots hitems hold
  | either choice =>
    obtain ⟨hdefault, hchoice⟩ := h
    rw [hdefault] at htakes
    obtain ⟨c, rfl⟩ := htakes
    exact runs_view.lift.breaks (breaks_refillChoice hchoice hold).bind
  | block slots =>
    obtain ⟨hdefault, hslots⟩ := h
    rw [hdefault] at htakes
    obtain ⟨b, rfl, hb⟩ := htakes
    obtain ⟨body, hblock⟩ := block_of_sortAt hb
    have hbody : (Field.body, body) ∈ (Node.blockStatement body).fields := by simp [Node.fields]
    obtain ⟨c, rfl, hc⟩ : st.Takes .emptyList body := hold.takes hblock rfl hbody
    obtain ⟨items, hitems⟩ := list_of_sortAt hc
    exact (runs_part hblock rfl).lift.breaks
      (breaks_refillList hslots hitems (hold.of_field hblock hbody))

/-- What stands before the failure and what fails are all of it. -/
theorem mem_of_split {entries before after : List β} {x y : β} (h : entries = before ++ x :: after)
    (hy : y ∈ before ++ [x]) : y ∈ entries := by
  rw [h, List.append_cons]
  exact List.mem_append_left _ hy

/-- A node is refilled field by field up to one that fails. -/
theorem breaks_refillFields {before after : List (Field × Branch α)} {branch : Branch α}
    (hbefore : ∀ g b, (g, b) ∈ before → ∃ t, FillsBranch admits f (k.default g) b t)
    (h : FailsBranch admits f (k.default field) branch e)
    (hfields : ∀ g b, (g, b) ∈ before ++ [(field, branch)] → ∃ x, (g, x) ∈ n.fields)
    (hs : st.Sane [a]) (hcell : st.cells[a]? = some (.node n)) (hk : n.kind? = some k) :
    Breaks ((before ++ (field, branch) :: after).forM fun (field, branch) =>
      refillField admits f (.ref a) field branch) st e := by
  induction before generalizing st n with
  | nil =>
    obtain ⟨old, hold⟩ := hfields field branch (by simp)
    exact (breaks_refillField h hs hcell hk hold).bind
  | cons entry before ih =>
    obtain ⟨g, b⟩ := entry
    obtain ⟨old, hold⟩ := hfields g b (by simp)
    obtain ⟨t, hfills⟩ := hbefore g b (by simp)
    obtain ⟨item, st₁, hrun, hrefills, hcell₁, -⟩ := runs_refillField hfills hs hcell hk hold
    have hk₁ : (n.set g item).kind? = some k := by rwa [Node.kind?_set]
    refine hrun.breaks (ih (fun g b hb => hbefore g b (List.mem_cons_of_mem _ hb)) ?_
      (hrefills.sane hs) hcell₁ hk₁)
    intro h b hb
    obtain ⟨x, hx⟩ := hfields h b (List.mem_cons_of_mem _ hb)
    exact Node.exists_field hk₁ hk item hx

/-- Refilling a node fails at the first of its fields that does. -/
theorem breaks_refillNode {shape : Node (Branch α)} {before after : List (Field × Branch α)}
    {branch : Branch α} (hshape : shape.kind? = some k)
    (hbinary : k ≠ .binaryExpression) (hmember : k ≠ .memberExpression)
    (hsplit : shape.readFields = before ++ (field, branch) :: after)
    (hbefore : ∀ g b, (g, b) ∈ before → ∃ t, FillsBranch admits f (k.default g) b t)
    (h : FailsBranch admits f (k.default field) branch e) (hs : st.Sane [a])
    (hcell : st.cells[a]? = some (.node n)) (hk : n.kind? = some k) :
    Breaks (refillNode admits f (.ref a) shape) st e := by
  rw [refillNode_eq hshape hbinary hmember, hsplit]
  refine breaks_refillFields hbefore h (fun g b hb => ?_) hs hcell hk
  exact Node.exists_field hk hshape .missing
    (Node.mem_fields_of_readFields (mem_of_split hsplit hb))

end Fields

section Chains

variable {n : Node Item} {left operator right : α} {t : Tree}

/-- Refilling a chain of operands fails if its first operand does or, after it, its second. -/
theorem breaks_refillChain (h : Fails f left e ∨ Fills f left t ∧ Fails f right e)
    (hs : st.Sane [a]) (hcell : st.cells[a]? = some (.node n))
    (hk : n.kind? = some .binaryExpression) :
    Breaks (refillChain f (.ref a) left operator right) st e := by
  cases n with
  | binaryExpression l o r =>
    have hl : (Field.left, l) ∈ (Node.binaryExpression l o r).fields := by simp [Node.fields]
    refine (runs_part hcell rfl).lift.breaks ?_
    rcases h with h | ⟨hleft, hright⟩
    · exact (h st l (hs.of_field hcell hl)).bind
    · obtain ⟨item, st₁, hrun, -⟩ := hleft st l (hs.of_field hcell hl)
      exact hrun.breaks (hright st₁ .missing sane_nil).bind
  | _ => cases hk

/-- Refilling a chain of accesses fails if its object does or, after it, its index. -/
theorem breaks_refillAccesses {object index computed : α}
    (h : Fails f object e ∨ Fills f object t ∧ Fails f index e)
    (hs : st.Sane [a]) (hcell : st.cells[a]? = some (.node n))
    (hk : n.kind? = some .memberExpression) :
    Breaks (refillAccesses f (.ref a) object index computed) st e := by
  cases n with
  | memberExpression o i c =>
    have ho : (Field.object, o) ∈ (Node.memberExpression o i c).fields := by simp [Node.fields]
    refine (runs_part hcell rfl).lift.breaks ?_
    rcases h with h | ⟨hobject, hindex⟩
    · exact (h st o (hs.of_field hcell ho)).bind
    · obtain ⟨item, st₁, hrun, -⟩ := hobject st o (hs.of_field hcell ho)
      exact hrun.breaks (hindex st₁ .missing sane_nil).bind
  | _ => cases hk

end Chains

end ScriptTree.Store
