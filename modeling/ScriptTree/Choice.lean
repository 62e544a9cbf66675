import ScriptTree.Text

/-!
A value that is of a first sort, of a second sort, or absent. Fields that may hold
one of two unrelated kinds of nodes hold a choice.
-/

namespace ScriptTree

inductive Choice (α : Type) where
  | empty
  | first (value : α)
  | second (value : α)
deriving DecidableEq, Repr

namespace Choice

variable {α β : Type}

inductive Case where
  | empty
  | first
  | second
deriving DecidableEq, Repr

def Case.name : Case → String
  | .empty => "empty"
  | .first => "first"
  | .second => "second"

def case : Choice α → Case
  | .empty => .empty
  | .first _ => .first
  | .second _ => .second

def isEmpty : Choice α → Bool
  | .empty => true
  | _ => false

def value? : Choice α → Option α
  | .empty => none
  | .first value => some value
  | .second value => some value

def toList (c : Choice α) : List α := c.value?.toList

def map (f : α → β) : Choice α → Choice β
  | .empty => .empty
  | .first value => .first (f value)
  | .second value => .second (f value)

def traverse {m : Type → Type} [Monad m] (f : α → m β) : Choice α → m (Choice β)
  | .empty => pure .empty
  | .first value => return .first (← f value)
  | .second value => return .second (← f value)

inductive Error where
  | payloadOfEmpty
  | noPayload (case : Case)
  | holds (actual wanted : Case)
deriving DecidableEq, Repr

def Error.message : Error → String
  | .payloadOfEmpty => "An empty Discriminated value cannot carry a payload"
  | .noPayload case => "A " ++ case.name ++ " Discriminated value requires a payload"
  | .holds actual wanted => "Discriminated value holds " ++ actual.name ++ ", not " ++ wanted.name

/-- Makes a choice from its case and its value; only the empty case has none. -/
def make : Case → Option α → Except Error (Choice α)
  | .empty, none => .ok .empty
  | .empty, some _ => .error .payloadOfEmpty
  | .first, some value => .ok (.first value)
  | .second, some value => .ok (.second value)
  | case, none => .error (.noPayload case)

def firstValue (c : Choice α) : Except Error α :=
  match c with
  | .first value => .ok value
  | c => .error (.holds c.case .first)

def secondValue (c : Choice α) : Except Error α :=
  match c with
  | .second value => .ok value
  | c => .error (.holds c.case .second)

end Choice

end ScriptTree
