import ScriptTree.Number.Double

/-!
JSON values. Integers and doubles are told apart, as in the text they are read
from; an object keeps its fields in order, each name once.
-/

namespace ScriptTree

inductive Json where
  | null
  | bool (b : Bool)
  | int (i : Int)
  | double (d : Double)
  | text (t : Text)
  | array (items : List Json)
  | object (fields : List (Text × Json))

namespace Json

instance : Inhabited Json := ⟨.null⟩

mutual

def equal : Json → Json → Bool
  | .null, .null => true
  | .bool a, .bool b => a = b
  | .int a, .int b => a = b
  | .double a, .double b => a = b
  | .text a, .text b => a = b
  | .array as, .array bs => equalItems as bs
  | .object as, .object bs => equalFields as bs
  | _, _ => false

def equalItems : List Json → List Json → Bool
  | [], [] => true
  | a :: as, b :: bs => equal a b && equalItems as bs
  | _, _ => false

def equalFields : List (Text × Json) → List (Text × Json) → Bool
  | [], [] => true
  | (name, a) :: as, (name', b) :: bs => name = name' && equal a b && equalFields as bs
  | _, _ => false

end

mutual

theorem equal_iff : (a b : Json) → (equal a b = true ↔ a = b)
  | .null, b => by cases b <;> simp [equal]
  | .bool _, b => by cases b <;> simp [equal]
  | .int _, b => by cases b <;> simp [equal]
  | .double _, b => by cases b <;> simp [equal]
  | .text _, b => by cases b <;> simp [equal]
  | .array as, b => by
    cases b with
    | array bs => simp [equal, equalItems_iff as bs]
    | _ => simp [equal]
  | .object as, b => by
    cases b with
    | object bs => simp [equal, equalFields_iff as bs]
    | _ => simp [equal]

theorem equalItems_iff : (as bs : List Json) → (equalItems as bs = true ↔ as = bs)
  | [], bs => by cases bs <;> simp [equalItems]
  | a :: as, bs => by
    cases bs with
    | nil => simp [equalItems]
    | cons b bs => simp [equalItems, equal_iff a b, equalItems_iff as bs]

theorem equalFields_iff : (as bs : List (Text × Json)) → (equalFields as bs = true ↔ as = bs)
  | [], bs => by cases bs <;> simp [equalFields]
  | (name, a) :: as, bs => by
    cases bs with
    | nil => simp [equalFields]
    | cons field bs =>
      obtain ⟨name', b⟩ := field
      simp [equalFields, equal_iff a b, equalFields_iff as bs]

end

instance : DecidableEq Json := fun a b => decidable_of_iff _ (equal_iff a b)

instance : Coe String Json := ⟨fun s => .text s⟩

def lookup? (fields : List (Text × Json)) (name : Text) : Option Json :=
  match fields with
  | [] => none
  | (key, value) :: rest => if key = name then some value else lookup? rest name

/-- Sets a field: a name already present keeps its place and takes the new value. -/
def insert (fields : List (Text × Json)) (name : Text) (value : Json) : List (Text × Json) :=
  match fields with
  | [] => [(name, value)]
  | (key, old) :: rest =>
    if key = name then (key, value) :: rest else (key, old) :: insert rest name value

def field? (j : Json) (name : Text) : Option Json :=
  match j with
  | .object fields => lookup? fields name
  | _ => none

theorem sizeOf_lookup?_lt {fields : List (Text × Json)} {name : Text} {v : Json}
    (h : lookup? fields name = some v) : sizeOf v < sizeOf fields := by
  induction fields with
  | nil => simp [lookup?] at h
  | cons field rest ih =>
    obtain ⟨key, value⟩ := field
    simp only [lookup?] at h
    split at h
    · obtain rfl := Option.some.inj h
      simp
      omega
    · have := ih h
      simp
      omega

theorem sizeOf_field?_lt {j v : Json} {name : Text} (h : j.field? name = some v) :
    sizeOf v < sizeOf j := by
  cases j with
  | object fields =>
    have := sizeOf_lookup?_lt (show lookup? fields name = some v from h)
    simp
    omega
  | _ => simp [field?] at h

def text? : Json → Option Text
  | .text t => some t
  | _ => none

inductive Kind where
  | object
  | array
  | string
  | boolean
  | number
  | null
deriving DecidableEq, Repr

def Kind.name : Kind → String
  | .object => "object"
  | .array => "array"
  | .string => "string"
  | .boolean => "boolean"
  | .number => "number"
  | .null => "null"

def kind : Json → Kind
  | .null => .null
  | .bool _ => .boolean
  | .int _ => .number
  | .double _ => .number
  | .text _ => .string
  | .array _ => .array
  | .object _ => .object

end Json

end ScriptTree
