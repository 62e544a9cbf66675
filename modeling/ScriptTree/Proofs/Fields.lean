import ScriptTree.Node
import ScriptTree.Proofs.Outcome
import Mathlib.Data.List.Perm.Basic
import Mathlib.Data.List.Nodup

/-!
The fields of nodes. A node is given by its kind and by what its fields hold, no field
stands in it twice, and going through it is going through a list of its fields.
-/

namespace ScriptTree.Node

variable {α β : Type} {n : Node α} {f : Field} {x : α}

section Equations

-- `simp` unfolds these functions by their equations. The equations are derived here, once: a
-- proof that does not find them derives its own.
attribute [local simp] fields mapFields readFields kind? traverse

end Equations

section Values

theorem fields_mapFields (g : Field → α → β) (n : Node α) :
    (n.mapFields g).fields = n.fields.map fun field => (field.1, g field.1 field.2) := by
  cases n <;> rfl

@[simp] theorem kind?_mapFields (g : Field → α → β) (n : Node α) :
    (n.mapFields g).kind? = n.kind? := by
  cases n <;> rfl

theorem mapFields_congr {g h : Field → α → β} (heq : ∀ f x, (f, x) ∈ n.fields → g f x = h f x) :
    n.mapFields g = n.mapFields h := by
  cases n <;> simp_all [Node.fields, Node.mapFields]

theorem nodup_fields (n : Node α) : (n.fields.map Prod.fst).Nodup := by
  cases n <;> simp [Node.fields]

theorem fields_set (n : Node α) (f : Field) (v : α) :
    (n.set f v).fields = n.fields.map fun field => (field.1, if field.1 = f then v else field.2) :=
  n.fields_mapFields _

/-- A field stands among others, and changing it changes no other. -/
theorem fields_split (h : (f, x) ∈ n.fields) :
    ∃ before after, n.fields = before ++ (f, x) :: after ∧
      (∀ g y, (g, y) ∈ before ++ after → g ≠ f) ∧
      ∀ v, (n.set f v).fields = before ++ (f, v) :: after := by
  obtain ⟨before, after, hsplit⟩ := List.append_of_mem h
  have hnodup := n.nodup_fields
  have hother (g : Field) (y : α) (hmem : (g, y) ∈ before ++ after) : g ≠ f := by
    rintro rfl
    rw [hsplit, List.map_append, List.map_cons, List.nodup_middle, List.nodup_cons,
      ← List.map_append] at hnodup
    exact hnodup.1 (List.mem_map.mpr ⟨_, hmem, rfl⟩)
  refine ⟨before, after, hsplit, hother, fun v => ?_⟩
  have hsame (part : List (Field × α)) (hsub : part ⊆ before ++ after) :
      (part.map fun field => (field.1, if field.1 = f then v else field.2)) = part := by
    refine (List.map_congr_left fun field hfield => ?_).trans (List.map_id part)
    rw [if_neg (hother field.1 field.2 (hsub hfield)), id]
  rw [fields_set, hsplit, List.map_append, List.map_cons, if_pos rfl,
    hsame before (List.subset_append_left _ _), hsame after (List.subset_append_right _ _)]

theorem get?_eq_some : n.get? f = some x ↔ (f, x) ∈ n.fields := by
  constructor
  · intro h
    obtain ⟨⟨g, y⟩, hfind, rfl⟩ := Option.map_eq_some_iff.mp h
    obtain rfl : g = f := by simpa using List.find?_some hfind
    exact List.mem_of_find?_eq_some hfind
  · intro h
    obtain ⟨before, after, hsplit, hother, -⟩ := fields_split h
    have hnone : ∀ entry ∈ before, entry.1 ≠ f :=
      fun entry hmem => hother entry.1 entry.2 (List.mem_append_left _ hmem)
    rw [get?, hsplit, List.find?_append, List.find?_eq_none.mpr (by simpa using hnone)]
    simp

/-- A field holds one value. -/
theorem eq_of_mem_fields {y : α} (hx : (f, x) ∈ n.fields) (hy : (f, y) ∈ n.fields) : x = y :=
  Option.some.inj ((get?_eq_some.mpr hx).symm.trans (get?_eq_some.mpr hy))

@[simp] theorem kind?_set (n : Node α) (f : Field) (v : α) : (n.set f v).kind? = n.kind? :=
  n.kind?_mapFields _

theorem set_of_mem (h : (f, x) ∈ n.fields) : n.set f x = n := by
  have hid : n.mapFields (fun _ y => y) = n := by cases n <;> rfl
  refine Eq.trans (mapFields_congr fun g y hy => ?_) hid
  split
  · next hg =>
    subst hg
    exact eq_of_mem_fields h hy
  · rfl

theorem eq_node_of_kind? {k : Kind} (h : n.kind? = some k) (x : α) :
    n = k.node fun f => (n.get? f).getD x := by
  cases n <;> simp only [Node.kind?, Option.some.injEq, reduceCtorEq] at h <;> subst h <;> rfl

theorem mapFields_node (g : Field → α → β) (value : Field → α) (k : Kind) :
    (k.node value).mapFields g = k.node fun f => g f (value f) := by
  cases k <;> rfl

/-- A node is given by its kind and the values of its fields. -/
theorem mapFields_get? {m : Node β} {k : Kind} (hn : n.kind? = some k)
    (hm : m.kind? = some k) (x : α) (y : β) :
    (n.mapFields fun f _ => (m.get? f).getD y) = m := by
  rw [eq_node_of_kind? hn x, mapFields_node]
  exact (eq_node_of_kind? hm y).symm

/-- Nodes of one kind have the same fields. -/
theorem exists_field {m : Node β} {k : Kind} {y : β} (hn : n.kind? = some k)
    (hm : m.kind? = some k) (x : α) (hy : (f, y) ∈ m.fields) : ∃ x, (f, x) ∈ n.fields := by
  rw [← mapFields_get? hm hn y x, fields_mapFields]
  exact ⟨_, List.mem_map.mpr ⟨(f, y), hy, rfl⟩⟩

theorem mem_fields_of_readFields (h : (f, x) ∈ n.readFields) : (f, x) ∈ n.fields := by
  cases n <;> simp only [readFields, fields, List.mem_cons] at h ⊢ <;> grind

theorem nodup_readFields (n : Node α) : (n.readFields.map Prod.fst).Nodup := by
  cases n <;> simp [readFields, Node.fields]

/-- Every field is read, save the kind of a declaration. -/
theorem mem_readFields (h : (f, x) ∈ n.fields) :
    (f, x) ∈ n.readFields ∨ f = .declarationKind := by
  cases n <;> simp only [readFields, fields, List.mem_cons] at h ⊢ <;> grind

end Values

section Traversal

def ordered : Node α → List (Field × α)
  | .unaryExpression operator argument => [(.operator, operator), (.argument, argument)]
  | .variableDeclaration declarations kind =>
    [(.declarations, declarations), (.declarationKind, kind)]
  | n => n.readFields

theorem perm_ordered (n : Node α) : n.ordered.Perm n.fields := by
  cases n <;> simp only [ordered, readFields, fields] <;> first
    | exact .refl _
    | exact List.perm_append_singleton _ [_, _]
    | exact .swap _ _ _

def lookup [Inhabited β] (values : List (Field × β)) (f : Field) : β :=
  ((values.find? fun entry => entry.1 = f).map Prod.snd).getD default

/-- A node is gone through field by field, and the values are put in their places. -/
theorem traverse_eq [Inhabited β] {m : Type → Type} [Monad m] [LawfulMonad m] (f : α → m β)
    (n : Node α) : n.traverse f = (do
      let values ← n.ordered.mapM fun entry => do return (entry.1, ← f entry.2)
      return n.mapFields fun g _ => lookup values g) := by
  cases n <;> simp [Node.traverse, ordered, readFields, fields, mapFields, lookup]

theorem lookup_of_mem [Inhabited β] {values : List (Field × β)} {y : β}
    (hnodup : (values.map Prod.fst).Nodup) (h : (f, y) ∈ values) : lookup values f = y := by
  induction values with
  | nil => cases h
  | cons entry values ih =>
    rw [List.map_cons, List.nodup_cons] at hnodup
    rcases List.mem_cons.mp h with rfl | h
    · simp [lookup]
    · have hne : entry.1 ≠ f := by
        rintro rfl
        exact hnodup.1 (List.mem_map.mpr ⟨_, h, rfl⟩)
      rw [← ih hnodup.2 h]
      simp [lookup, hne]

/-- The fields of a node whose values are put in their places are these values. -/
theorem fields_lookup [Inhabited β] {values : List (Field × β)}
    (h : values.map Prod.fst = n.ordered.map Prod.fst) :
    (n.mapFields fun g _ => lookup values g).fields.Perm values := by
  have hnodup : (values.map Prod.fst).Nodup := by
    rw [h]
    exact (n.perm_ordered.map _).nodup_iff.mpr n.nodup_fields
  have hvalues : (values.map Prod.fst).map (fun g => (g, lookup values g)) = values := by
    rw [List.map_map]
    refine (List.map_congr_left fun entry hentry => ?_).trans (List.map_id values)
    rw [Function.comp_apply, lookup_of_mem hnodup (y := entry.2) hentry, id]
  rw [fields_mapFields]
  conv_rhs => rw [← hvalues, h, List.map_map]
  exact (n.perm_ordered.map _).symm

theorem traverse_eq_ok {ε : Type} [Inhabited β] {f : α → Except ε β} {m : Node β}
    (h : n.traverse f = .ok m) :
    m.kind? = n.kind? ∧ ∀ g x, (g, x) ∈ n.fields → ∃ y, f x = .ok y ∧ (g, y) ∈ m.fields := by
  rw [traverse_eq, bind_eq_ok] at h
  obtain ⟨values, hvalues, h⟩ := h
  obtain rfl := pure_eq_ok.mp h
  have hforall : List.Forall₂ (fun entry value => f entry.2 = .ok value.2 ∧ value.1 = entry.1)
      n.ordered values := by
    refine (mapM_eq_ok.mp hvalues).imp fun entry value hvalue => ?_
    obtain ⟨y, hy, heq⟩ := bind_eq_ok.mp hvalue
    rw [← pure_eq_ok.mp heq]
    exact ⟨hy, rfl⟩
  have hkeys : values.map Prod.fst = n.ordered.map Prod.fst := by
    rw [← List.forall₂_eq_eq_eq, List.forall₂_map_left_iff, List.forall₂_map_right_iff]
    exact hforall.flip.imp fun _ _ hvalue => hvalue.2
  refine ⟨by simp, fun g x hx => ?_⟩
  obtain ⟨⟨g', y⟩, hmem, hy, rfl⟩ := exists_of_mem_left hforall (n.perm_ordered.mem_iff.mpr hx)
  exact ⟨y, hy, (fields_lookup hkeys).mem_iff.mpr hmem⟩

/-- Going through a node fails at the first field where the step does. -/
theorem traverse_eq_error {ε : Type} [Inhabited β] {f : α → Except ε β} {e : ε}
    (h : n.traverse f = .error e) :
    ∃ before g x after, n.ordered = before ++ (g, x) :: after ∧
      (∀ entry ∈ before, ∃ y, f entry.2 = .ok y) ∧ f x = .error e := by
  rw [traverse_eq] at h
  cases hvalues : n.ordered.mapM fun entry => (do return (entry.1, ← f entry.2) : Except ε _) with
  | ok values =>
    rw [hvalues] at h
    cases h
  | error e' =>
    rw [hvalues, error_bind] at h
    obtain rfl := Except.error.inj h
    obtain ⟨before, ⟨g, x⟩, after, hsplit, ⟨values, hbefore⟩, hx⟩ := mapM_eq_error hvalues
    refine ⟨before, g, x, after, hsplit, fun entry hentry => ?_, ?_⟩
    · obtain ⟨value, -, hvalue⟩ := exists_of_mem_left (mapM_eq_ok.mp hbefore) hentry
      obtain ⟨y, hy, -⟩ := bind_eq_ok.mp hvalue
      exact ⟨y, hy⟩
    · cases hfx : f x with
      | ok y => simp [hfx, pure, Except.pure] at hx
      | error e'' =>
        simp only [hfx, error_bind, Except.error.injEq] at hx
        rw [hx]

end Traversal

end ScriptTree.Node
