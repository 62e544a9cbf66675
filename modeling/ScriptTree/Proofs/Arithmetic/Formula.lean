import ScriptTree.Operator
import ScriptTree.Source.Layout
import Mathlib.Data.List.Nodup

/-!
Formulas of sums, differences and products over exact integers. A formula has a value by
its own nesting. It has another one if what is nested to the right by one operation is
written as one run and grouped from the left: there a difference after a minus sign is
taken away whole. The two values are the same function of the names as long as no
difference stands to the right of a minus sign, and, names being distinct, only then.
-/

namespace ScriptTree

inductive Operation where
  | add
  | subtract
  | multiply
deriving DecidableEq, Repr

namespace Operation

def operator : Operation → BinaryOperator
  | .add => .add
  | .subtract => .subtract
  | .multiply => .multiply

def apply : Operation → Int → Int → Int
  | .add, a, b => a + b
  | .subtract, a, b => a - b
  | .multiply, a, b => a * b

def sign : Operation → CodePoint
  | .add => '+'
  | .subtract => '-'
  | .multiply => '*'

theorem operator_injective : Function.Injective operator := by
  intro a b h
  cases a <;> cases b <;> first | rfl | cases h

theorem nodeType_operator (op : Operation) : op.operator.nodeType = "BinaryExpression" := by
  cases op <;> rfl

theorem ofString_token (op : Operation) : Text.ofString op.operator.token = [op.sign] := by
  cases op <;> rfl

end Operation

inductive Formula where
  | name (x : Text)
  | apply (op : Operation) (left right : Formula)
deriving DecidableEq

namespace Formula

def value (ρ : Text → Int) : Formula → Int
  | .name x => ρ x
  | .apply op left right => op.apply (left.value ρ) (right.value ρ)

def names : Formula → List Text
  | .name x => [x]
  | .apply _ left right => left.names ++ right.names

/-- All names are words: they are not empty, and all their code points continue a word. -/
def Named : Formula → Prop
  | .name x => x ≠ [] ∧ ∀ c ∈ x, Source.isWordPoint c = true
  | .apply _ left right => left.Named ∧ right.Named

def isRun (op : Operation) : Formula → Bool
  | .name _ => false
  | .apply op' _ _ => op' = op

/-- No difference stands to the right of a minus sign. -/
def Unambiguous : Formula → Prop
  | .name _ => True
  | .apply op left right =>
    left.Unambiguous ∧ right.Unambiguous ∧ ¬(op = .subtract ∧ right.isRun .subtract)

instance decidableNamed : (f : Formula) → Decidable f.Named
  | .name _ => inferInstanceAs (Decidable (_ ∧ _))
  | .apply _ left right =>
    have := decidableNamed left
    have := decidableNamed right
    inferInstanceAs (Decidable (_ ∧ _))

instance decidableUnambiguous : (f : Formula) → Decidable f.Unambiguous
  | .name _ => .isTrue trivial
  | .apply _ left right =>
    have := decidableUnambiguous left
    have := decidableUnambiguous right
    inferInstanceAs (Decidable (_ ∧ _ ∧ ¬(_ ∧ _)))

mutual

/-- The value of a formula whose runs are grouped from the left. -/
def leftValue (ρ : Text → Int) : Formula → Int
  | .name x => ρ x
  | .apply .add left right => left.leftValue ρ + right.leftValue ρ
  | .apply .multiply left right => left.leftValue ρ * right.leftValue ρ
  | .apply .subtract left right => left.leftValue ρ - right.takenValue ρ

/-- What a formula after a minus sign takes away: all operands of the run it continues. -/
def takenValue (ρ : Text → Int) : Formula → Int
  | .name x => ρ x
  | .apply .add left right => left.leftValue ρ + right.leftValue ρ
  | .apply .multiply left right => left.leftValue ρ * right.leftValue ρ
  | .apply .subtract left right => left.leftValue ρ + right.takenValue ρ

end

theorem takenValue_of_not_isRun (ρ : Text → Int) {f : Formula} (h : f.isRun .subtract = false) :
    f.takenValue ρ = f.leftValue ρ := by
  cases f with
  | name x => rfl
  | apply op left right =>
    cases op with
    | add => rfl
    | multiply => rfl
    | subtract => cases h

/-- Grouping from the left keeps the value where no difference is taken away. -/
theorem leftValue_eq_value (ρ : Text → Int) (f : Formula) (h : f.Unambiguous) :
    f.leftValue ρ = f.value ρ := by
  induction f with
  | name x => rfl
  | apply op left right ihleft ihright =>
    obtain ⟨hleft, hright, hop⟩ := h
    cases op with
    | add => simp only [leftValue, value, ihleft hleft, ihright hright, Operation.apply]
    | multiply => simp only [leftValue, value, ihleft hleft, ihright hright, Operation.apply]
    | subtract =>
      have hrun : right.isRun .subtract = false := by simpa using hop
      simp only [leftValue, value, takenValue_of_not_isRun ρ hrun, ihleft hleft, ihright hright,
        Operation.apply]

section Distinct

/-- The values of a formula depend on its names only. -/
theorem values_congr {ρ σ : Text → Int} (f : Formula) (h : ∀ x ∈ f.names, ρ x = σ x) :
    f.value ρ = f.value σ ∧ f.leftValue ρ = f.leftValue σ ∧ f.takenValue ρ = f.takenValue σ := by
  induction f with
  | name x =>
    have hx : ρ x = σ x := h x (by simp [names])
    exact ⟨hx, hx, hx⟩
  | apply op left right ihleft ihright =>
    obtain ⟨hvalue, hleft, -⟩ := ihleft (fun x hx => h x (by simp [names, hx]))
    obtain ⟨hvalue', hleft', htaken'⟩ := ihright (fun x hx => h x (by simp [names, hx]))
    cases op <;> simp [value, leftValue, takenValue, hvalue, hvalue', hleft, hleft', htaken']

/-- Where all names stand for zero, so does the formula. -/
theorem values_zero (f : Formula) :
    f.value (fun _ => 0) = 0 ∧ f.leftValue (fun _ => 0) = 0 ∧ f.takenValue (fun _ => 0) = 0 := by
  induction f with
  | name x => exact ⟨rfl, rfl, rfl⟩
  | apply op left right ihleft ihright =>
    obtain ⟨hvalue, hleft, -⟩ := ihleft
    obtain ⟨hvalue', hleft', htaken'⟩ := ihright
    cases op <;>
      simp [value, leftValue, takenValue, Operation.apply, hvalue, hvalue', hleft, hleft', htaken']

def merged (left : Formula) (ρ σ : Text → Int) : Text → Int :=
  fun x => if x ∈ left.names then ρ x else σ x

theorem values_merged_left (left : Formula) (ρ σ : Text → Int) :
    left.value (left.merged ρ σ) = left.value ρ ∧
      left.leftValue (left.merged ρ σ) = left.leftValue ρ ∧
      left.takenValue (left.merged ρ σ) = left.takenValue ρ :=
  values_congr left (fun x hx => by simp [merged, hx])

theorem values_merged_right {left right : Formula} (ρ σ : Text → Int)
    (h : left.names.Disjoint right.names) :
    right.value (left.merged ρ σ) = right.value σ ∧
      right.leftValue (left.merged ρ σ) = right.leftValue σ ∧
      right.takenValue (left.merged ρ σ) = right.takenValue σ :=
  values_congr right (fun x hx => by
    have hx' : x ∉ left.names := fun hleft => h hleft hx
    simp [merged, hx'])

/-- A formula with distinct names can stand for one, however it is grouped. -/
theorem exists_values_one (f : Formula) (h : f.names.Nodup) :
    ∃ ρ, f.value ρ = 1 ∧ f.leftValue ρ = 1 ∧ f.takenValue ρ = 1 := by
  induction f with
  | name x => exact ⟨fun _ => 1, rfl, rfl, rfl⟩
  | apply op left right ihleft ihright =>
    obtain ⟨hl, hr, hdisjoint⟩ := List.nodup_append'.mp h
    obtain ⟨ρ, hvalue, hleft, -⟩ := ihleft hl
    obtain ⟨σ, hvalue', hleft', -⟩ := ihright hr
    have hzero := values_zero right
    have hl := values_merged_left left ρ
    have hr (σ) := values_merged_right ρ σ hdisjoint
    -- A product needs both sides to be one; in a sum or a difference the right side vanishes.
    cases op with
    | multiply =>
      refine ⟨left.merged ρ σ, ?_⟩
      simp [value, leftValue, takenValue, Operation.apply, *]
    | _ =>
      refine ⟨left.merged ρ (fun _ => 0), ?_⟩
      simp [value, leftValue, takenValue, Operation.apply, *]

/-- A difference with distinct names can stand for the opposite of what it takes away. -/
theorem exists_taken_opposite (f : Formula) (h : f.names.Nodup) (hf : f.isRun .subtract = true) :
    ∃ ρ, f.value ρ = -1 ∧ f.takenValue ρ = 1 := by
  cases f with
  | name x => cases hf
  | apply op left right =>
    obtain rfl : op = .subtract := of_decide_eq_true hf
    obtain ⟨-, hnodup, hdisjoint⟩ := List.nodup_append'.mp h
    obtain ⟨σ, hvalue, -, htaken⟩ := exists_values_one right hnodup
    have hzero := values_zero left
    have hl := values_merged_left left (fun _ => 0) σ
    have hr := values_merged_right (fun _ => 0) σ hdisjoint
    refine ⟨left.merged (fun _ => 0) σ, ?_⟩
    simp [value, takenValue, Operation.apply, *]

/-- A formula with distinct names and a difference after a minus sign: grouped from the
left, it can stand for the opposite of its value. -/
theorem exists_values_opposite (f : Formula) (h : f.names.Nodup) (hf : ¬f.Unambiguous) :
    ∃ ρ, f.leftValue ρ = -f.value ρ ∧ f.value ρ ≠ 0 := by
  induction f with
  | name x => exact absurd trivial hf
  | apply op left right ihleft ihright =>
    obtain ⟨hnodup, hnodup', hdisjoint⟩ := List.nodup_append'.mp h
    have hl := values_merged_left left
    have hr (ρ σ) := values_merged_right ρ σ hdisjoint
    have hzero := values_zero left
    have hzero' := values_zero right
    by_cases hop : op = .subtract ∧ right.isRun .subtract = true
    · obtain ⟨rfl, hrun⟩ := hop
      obtain ⟨σ, hvalue, htaken⟩ := exists_taken_opposite right hnodup' hrun
      refine ⟨left.merged (fun _ => 0) σ, ?_⟩
      simp [value, leftValue, Operation.apply, *]
    · by_cases hleft : left.Unambiguous
      · have hright : ¬right.Unambiguous := fun hright => hf ⟨hleft, hright, hop⟩
        obtain ⟨σ, hopposite, hne⟩ := ihright hnodup' hright
        cases op with
        | multiply =>
          obtain ⟨ρ, hone⟩ := exists_values_one left hnodup
          refine ⟨left.merged ρ σ, ?_⟩
          simp [value, leftValue, Operation.apply, *]
        | add =>
          refine ⟨left.merged (fun _ => 0) σ, ?_⟩
          simp [value, leftValue, Operation.apply, *]
        | subtract =>
          have hrun : right.isRun .subtract = false := by simpa using hop
          have htaken (ρ) := takenValue_of_not_isRun ρ hrun
          refine ⟨left.merged (fun _ => 0) σ, ?_⟩
          simp [value, leftValue, Operation.apply, *]
      · obtain ⟨ρ, hopposite, hne⟩ := ihleft hnodup hleft
        cases op with
        | multiply =>
          obtain ⟨σ, hone⟩ := exists_values_one right hnodup'
          refine ⟨left.merged ρ σ, ?_⟩
          simp [value, leftValue, Operation.apply, *]
        | _ =>
          refine ⟨left.merged ρ (fun _ => 0), ?_⟩
          simp [value, leftValue, Operation.apply, *]

/-- With distinct names, grouping from the left keeps the value only where no difference is
taken away. -/
theorem leftValue_eq_value_iff (f : Formula) (h : f.names.Nodup) :
    (∀ ρ, f.leftValue ρ = f.value ρ) ↔ f.Unambiguous := by
  constructor
  · intro heq
    by_contra hf
    obtain ⟨ρ, hopposite, hne⟩ := exists_values_opposite f h hf
    rw [heq ρ] at hopposite
    omega
  · intro hf ρ
    exact leftValue_eq_value ρ f hf

end Distinct

end Formula

end ScriptTree
