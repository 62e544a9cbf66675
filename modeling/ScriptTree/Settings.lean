import ScriptTree.Json.Writer

/-!
Settings of a run, as they are given: a JSON object with two groups and two values of
its own. Nothing checks the values, so each setting holds any JSON value, and a group
that is not an object is kept as it is. Only the output mode is looked up, and a print
setting nobody knows is refused. Four names are not settings and yet not ignored: one
replaces all settings, two are refused, and one keeps the settings from being written out.
-/

namespace ScriptTree

structure LookupError where
  key : Json
  enumeration : String
deriving DecidableEq

def LookupError.message (e : LookupError) : Text :=
  Text.join [e.key.description, " is not a valid ", e.enumeration]

def lookUp {α : Type} (enumeration : String) (find : Text → Option α) (key : Json) :
    Except LookupError α :=
  match key.text?.bind find with
  | some member => .ok member
  | none => .error ⟨key, enumeration⟩

namespace Json

/-- Whether a value counts as yes: null, false, zero and whatever is empty do not. -/
def isYes : Json → Bool
  | .null => false
  | .bool b => b
  | .int i => i != 0
  | .double d => !d.isZero
  | .text t => !t.isEmpty
  | .array items => !items.isEmpty
  | .object fields => !fields.isEmpty

def typeName : Json → String
  | .null => "NoneType"
  | .bool _ => "bool"
  | .int _ => "int"
  | .double _ => "float"
  | .text _ => "str"
  | .array _ => "list"
  | .object _ => "dict"

end Json

inductive OutputMode where
  | refuse
  | overwrite
deriving DecidableEq, Repr

namespace OutputMode

def all : List OutputMode := [.refuse, .overwrite]

def key : OutputMode → String
  | .refuse => "error"
  | .overwrite => "force"

def name : OutputMode → String
  | .refuse => "ERROR_IF_EXISTS"
  | .overwrite => "FORCE"

def ofKey? (key : Text) : Option OutputMode := all.find? fun mode => Text.ofString mode.key == key

end OutputMode

inductive SettingsError where
  /-- The settings are not an object. -/
  | notAnObject
  | unknownPrintSetting (name : Text)
  | unknownMode (e : LookupError)
  /-- Something else stands where a group or a mode is needed. -/
  | noSuchSetting
  /-- A value stands in the way of writing the settings out. -/
  | obstructed (typeName : String)
  /-- A value is given for what settings are, which cannot be changed. -/
  | notAClass (typeName : String)
  /-- Something that is not an object is given for all settings. -/
  | notADictionary (typeName : String)
deriving DecidableEq

def SettingsError.message : SettingsError → Text
  | .notAnObject => "The settings are not an object."
  | .unknownPrintSetting name =>
    Text.join ["PrinterConfig.__init__() got an unexpected keyword argument '", name, "'"]
  | .unknownMode e => e.message
  | .noSuchSetting => "There is no such setting."
  | .obstructed typeName => Text.join ["'", typeName, "' object is not callable"]
  | .notAClass typeName =>
    Text.join ["__class__ must be set to a class, not '", typeName, "' object"]
  | .notADictionary typeName =>
    Text.join ["__dict__ must be set to a dictionary, not a '", typeName, "'"]

structure PrintSettings where
  minify : Json := .bool false
  indent : Json := .text "    "
  newline : Json := .text "\n"
deriving DecidableEq

namespace PrintSettings

def set (s : PrintSettings) (name : Text) (value : Json) : Except SettingsError PrintSettings :=
  if name = Text.ofString "minify" then .ok { s with minify := value }
  else if name = Text.ofString "indent" then .ok { s with indent := value }
  else if name = Text.ofString "newline" then .ok { s with newline := value }
  else .error (.unknownPrintSetting name)

def ofFields (fields : List (Text × Json)) : Except SettingsError PrintSettings :=
  fields.foldlM (fun s (name, value) => s.set name value) {}

def toJson (s : PrintSettings) : Json :=
  .object [("minify", s.minify), ("indent", s.indent), ("newline", s.newline)]

end PrintSettings

/-- The mode of output: one that is known, or a value that is no text. -/
inductive ModeSetting where
  | known (mode : OutputMode)
  | other (value : Json)
deriving DecidableEq

structure OutputSettings where
  mode : ModeSetting := .known .refuse
  validate : Json := .bool false
  atomic : Json := .bool true
deriving DecidableEq

namespace OutputSettings

def modeOf : Option Json → Except SettingsError ModeSetting
  | none => .ok (.known .refuse)
  | some (.text key) =>
    match lookUp "OutputMode" OutputMode.ofKey? (.text key) with
    | .ok mode => .ok (.known mode)
    | .error e => .error (.unknownMode e)
  | some value => .ok (.other value)

/-- Reads the settings of the group; those nobody knows are ignored. -/
def ofFields (fields : List (Text × Json)) : Except SettingsError OutputSettings := do
  return {
    mode := ← modeOf (Json.lookup? fields "mode")
    validate := (Json.lookup? fields "validate_before_write").getD (.bool false)
    atomic := (Json.lookup? fields "atomic_write").getD (.bool true) }

def toJson (s : OutputSettings) : Except SettingsError Json :=
  match s.mode with
  | .known mode =>
    .ok (.object [("mode", .text mode.key), ("validate_before_write", s.validate),
      ("atomic_write", s.atomic)])
  | .other _ => .error .noSuchSetting

end OutputSettings

/-- A group of settings, a value that stands in its place, or nothing at all. -/
inductive Group (α : Type) where
  | given (settings : α)
  | other (value : Json)
  | absent
deriving DecidableEq

namespace Group

variable {α : Type}

def get : Group α → Except SettingsError α
  | .given settings => .ok settings
  | .other _ | .absent => .error .noSuchSetting

def modify (f : α → α) (g : Group α) : Except SettingsError (Group α) := do
  return .given (f (← g.get))

/-- Puts a value that is not an object in the place of the group, if it has one. -/
def replace (value : Json) : Group α → Group α
  | .absent => .absent
  | _ => .other value

def ofField (value : Option Json) : Group α := value.elim .absent .other

end Group

structure Settings where
  printer : Group PrintSettings := .given {}
  output : Group OutputSettings := .given {}
  /-- Whether the source starts with a comment that says how it was made. -/
  addComment : Json := .bool true
  /-- Whether it does so even in minified source. -/
  commentWhenMinified : Json := .bool false
  /-- A value given under the name of the operation that writes settings out, which it
  replaces. -/
  obstacle : Option Json := none
deriving DecidableEq

namespace Settings

/-- The settings as the fields of an object have them. Only the two values outside the
groups have defaults. -/
def ofReplacement (fields : List (Text × Json)) : Settings where
  printer := .ofField (Json.lookup? fields "printer")
  output := .ofField (Json.lookup? fields "output")
  addComment := (Json.lookup? fields "add_generation_comment").getD (.bool true)
  commentWhenMinified := (Json.lookup? fields "header_in_minify").getD (.bool false)
  obstacle := Json.lookup? fields "to_dict"

def set (s : Settings) (name : Text) (value : Json) : Except SettingsError Settings :=
  if name = Text.ofString "printer" then
    match value with
    | .object fields => do return { s with printer := .given (← PrintSettings.ofFields fields) }
    | value => .ok { s with printer := s.printer.replace value }
  else if name = Text.ofString "output" then
    match value with
    | .object fields => do return { s with output := .given (← OutputSettings.ofFields fields) }
    | value => .ok { s with output := s.output.replace value }
  else if name = Text.ofString "add_generation_comment" then .ok { s with addComment := value }
  else if name = Text.ofString "header_in_minify" then .ok { s with commentWhenMinified := value }
  else if name = Text.ofString "to_dict" then .ok { s with obstacle := some value }
  else if name = Text.ofString "__dict__" then
    match value with
    | .object fields => .ok (ofReplacement fields)
    | value => .error (.notADictionary value.typeName)
  else if name = Text.ofString "__class__" then .error (.notAClass value.typeName)
  else if name = Text.ofString "__weakref__" then .error .noSuchSetting
  else .ok s

def ofJson : Json → Except SettingsError Settings
  | .object fields => fields.foldlM (fun s (name, value) => s.set name value) {}
  | _ => .error .notAnObject

def modifyPrinter (f : PrintSettings → PrintSettings) (s : Settings) :
    Except SettingsError Settings := do
  return { s with printer := ← s.printer.modify f }

def modifyOutput (f : OutputSettings → OutputSettings) (s : Settings) :
    Except SettingsError Settings := do
  return { s with output := ← s.output.modify f }

def toJson (s : Settings) : Except SettingsError Json := do
  match s.obstacle with
  | some value => .error (.obstructed value.typeName)
  | none =>
    return .object [("printer", (← s.printer.get).toJson), ("output", ← (← s.output.get).toJson),
      ("add_generation_comment", s.addComment), ("header_in_minify", s.commentWhenMinified)]

/-- Whether the settings are what is read from them written out. -/
def isStable (s : Settings) : Bool :=
  match s.toJson.bind ofJson with
  | .ok again => again = s
  | .error _ => false

end Settings

end ScriptTree
