import ScriptTree.Tree

/-!
What a tree contains: itself and what the parts of it contain, through the fields of nodes,
the items of lists, the values of choices and the parts of regular expressions.
-/

namespace ScriptTree

inductive Within (s : Tree) : Tree → Prop
  | refl : Within s s
  | field {n : Node Tree} {f : Field} {t : Tree} (hfield : (f, t) ∈ n.fields) (h : Within s t) :
    Within s (.node n)
  | item {items : List Tree} {t : Tree} (hitem : t ∈ items) (h : Within s t) :
    Within s (.list items)
  | choice {c : Choice Tree} {t : Tree} (hvalue : c.value? = some t) (h : Within s t) :
    Within s (.choice c)
  | pattern {pattern flags : Tree} (h : Within s pattern) : Within s (.regex pattern flags)
  | flags {pattern flags : Tree} (h : Within s flags) : Within s (.regex pattern flags)

namespace Within

variable {m : Node Tree}

theorem trans {r s t : Tree} (h : Within r s) (h' : Within s t) : Within r t := by
  induction h' with
  | refl => exact h
  | field hfield _ ih => exact .field hfield ih
  | item hitem _ ih => exact .item hitem ih
  | choice hvalue _ ih => exact .choice hvalue ih
  | pattern _ ih => exact .pattern ih
  | flags _ ih => exact .flags ih

@[simp] theorem not_missing : ¬Within (.node m) .missing := by
  rintro ⟨⟩

@[simp] theorem not_atom {a : Atom} : ¬Within (.node m) (.atom a) := by
  rintro ⟨⟩

@[simp] theorem regex_iff {pattern flags : Tree} :
    Within (.node m) (.regex pattern flags) ↔
      Within (.node m) pattern ∨ Within (.node m) flags := by
  constructor
  · intro h
    cases h with
    | pattern h => exact .inl h
    | flags h => exact .inr h
  · rintro (h | h)
    · exact .pattern h
    · exact .flags h

@[simp] theorem list_iff {items : List Tree} :
    Within (.node m) (.list items) ↔ ∃ t ∈ items, Within (.node m) t := by
  constructor
  · intro h
    cases h with
    | item hitem h => exact ⟨_, hitem, h⟩
  · rintro ⟨t, hitem, h⟩
    exact .item hitem h

@[simp] theorem choice_iff {c : Choice Tree} :
    Within (.node m) (.choice c) ↔ ∃ t, c.value? = some t ∧ Within (.node m) t := by
  constructor
  · intro h
    cases h with
    | choice hvalue h => exact ⟨_, hvalue, h⟩
  · rintro ⟨t, hvalue, h⟩
    exact .choice hvalue h

theorem node_iff {n : Node Tree} :
    Within (.node m) (.node n) ↔ m = n ∨ ∃ f t, (f, t) ∈ n.fields ∧ Within (.node m) t := by
  constructor
  · intro h
    cases h with
    | refl => exact .inl rfl
    | field hfield h => exact .inr ⟨_, _, hfield, h⟩
  · rintro (rfl | ⟨f, t, hfield, h⟩)
    · exact .refl
    · exact .field hfield h

end Within

end ScriptTree
