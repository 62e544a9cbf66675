import ScriptTree.Store.Editing
import ScriptTree.Exchange.Reader

/-!
Reading interchange text into a store, in place where that is possible. A node that
stands in the slot to be read and is of the kind that is read there is refilled;
otherwise a new node is made. Lists are refilled slot by slot, lengthened or cut. A
read that fails has refilled what came before the failure. The guarded read makes sure
first that the text can be read; what is refilled may still be of a wrong form.
-/

namespace ScriptTree.Store

open Exchange

/-- Why something could not be refilled: the text stands for no tree, or what is
refilled holds a value that cannot be used as its place asks. -/
inductive RefillError where
  | read (e : ReadError)
  | misuse (e : Misuse)

/-- Refilling changes a store and may fail; what was changed before a failure stays. -/
abbrev Refill := ExceptT RefillError (StateM Store)

instance : MonadLift Edit Refill := ⟨fun e => e.adapt .misuse⟩

instance : MonadLift (Except ReadError) Refill :=
  ⟨fun
    | .ok a => pure a
    | .error e => throw (.read e)⟩

section

variable {α : Type} (admits : α → Except ReadError Unit) (f : α → Item → Refill Item)

/-- Refills the element of a list with an index; a list that is too short grows. What
cannot be an element is refused before the list is looked at. -/
def refillAt (target : Item) (index : Nat) (slot : α) : Refill Unit := do
  admits slot
  if index < (← Edit.size target) then
    let olds ← Edit.numbered target
    let item ← f slot (olds.getD index .missing)
    Edit.setItem target index item
  else
    Edit.modifyList (fun _ => .noSuchPart) target id
    let item ← f slot .missing
    Edit.append target item

def refillFrom (target : Item) : Nat → List α → Refill Unit
  | _, [] => pure ()
  | index, slot :: rest => do
    refillAt admits f target index slot
    refillFrom target (index + 1) rest

def refillList (target : Item) (slots : List α) : Refill Unit := do
  refillFrom admits f target 0 slots
  Edit.modifyList .notDeletable target (·.take slots.length)

def refillChoice (old : View Item) (choice : Choice α) : Refill Item := do
  let before := match old with
    | .choice c => c.value?.getD .missing
    | _ => .missing
  match choice with
  | .empty => return .choice .empty
  | .first slot => return .choice (.first (← f slot before))
  | .second slot => return .choice (.second (← f slot before))

def refillField (target : Item) (field : Field) (branch : Branch α) : Refill Unit := do
  let old ← Edit.part field target
  match branch with
  | .one slot => Edit.setPart field target (← f slot old)
  | .many slots => refillList admits f old slots
  | .either choice => Edit.setPart field target (← refillChoice f (← Edit.view old) choice)
  | .block slots => refillList admits f (← Edit.part .body old) slots

/-- Refills a chain of operands. Only the first operand is refilled in place, and the
chain is changed once both have been read. -/
def refillChain (target : Item) (left operator right : α) : Refill Unit := do
  let left ← f left (← Edit.part .left target)
  let right ← f right .missing
  Edit.setPart .operator target (← f operator .missing)
  Edit.setPart .left target left
  Edit.modifyList (fun _ => .noSuchPart) (← Edit.part .right target) fun _ => []
  Edit.addOperand target right

/-- Sets the object and the indices of a chain of accesses. An object that is itself a
chain of the same style is continued by the index; otherwise the index stands alone. -/
def continueAccesses (target object computed index : Item) : Edit Unit := do
  let (object, indices) ← (do
    match (← Edit.store).node? object with
    | some (.memberExpression inner indices style) =>
      if (← Edit.equal style computed) && (← Edit.view indices).isTrue then
        return (inner, ← Edit.items indices)
      else return (object, [])
    | _ => return (object, []))
  Edit.setPart .object target object
  Edit.modifyList .notAssignable (← Edit.part .indices target) fun _ => indices ++ [index]

/-- Refills a chain of accesses. Only the object is refilled in place, and the chain is
changed once its object and its index have been read. -/
def refillAccesses (target : Item) (object index computed : α) : Refill Unit := do
  let object ← f object (← Edit.part .object target)
  let index ← f index .missing
  let computed ← f computed .missing
  Edit.setPart .computed target computed
  continueAccesses target object computed index

def refillNode (target : Item) : Node (Branch α) → Refill Unit
  | .binaryExpression (.one left) (.one operator) (.many [right]) =>
    refillChain f target left operator right
  | .memberExpression (.one object) (.many [index]) (.one computed) =>
    refillAccesses f target object index computed
  | n => n.readFields.forM fun (field, branch) => refillField admits f target field branch

end

/-- The node that is refilled: what stood in the slot if it is of the kind, otherwise a
new node. -/
def refilled (kind : Kind) (old : Item) : Edit Item := do
  if (← Edit.view old).kind? = some kind then return old else Edit.make kind fun _ => none

def readSlot {bound : Nat} : Slot bound → Item → Refill Item
  | .scalar (some a), _ => return .atom a
  | .scalar none, _ => return .missing
  | .regex pattern flags, _ => return .regex (.ofText pattern) (.atom (.flags flags))
  | .json j expects _, old => do
    match ← layer j with
    | none =>
      expects.check j none
      return .missing
    | some shape =>
      match shape.kind? with
      | none => return .missing
      | some kind =>
        let target ← refilled kind old
        let admits : Slot (sizeOf j) → Except ReadError Unit
          | .json element expects _ => expects.checkNull element
          | _ => .ok ()
        refillNode admits (fun slot old => readSlot slot old) target shape
        expects.check j kind
        return target
termination_by bound
decreasing_by assumption

def readInto (j : Json) (old : Item) : Refill Item := readSlot (.whole j) old

/-- Reads a value into what stood in a slot; if it stands for no tree nothing is
changed. -/
def read (j : Json) (old : Item) : Refill Item := do
  if old.isMissing then readInto j old
  else
    let _ ← Exchange.read j
    readInto j old

end ScriptTree.Store
