import ScriptTree.Command.Parameter
import ScriptTree.Files
import ScriptTree.Generation
import ScriptTree.Json.Writer
import ScriptTree.Text.Class

/-!
The command line that a run is described by. It names the arguments first, then every
option that differs from its default. A value that names something that exists is
shortened to its last name, so the description does not tell where files are kept.
-/

namespace ScriptTree.Command

abbrev Values := List (Text × Json)

section

variable (fs : Files) (here : Path)

def shown : Json → Except NameError Text
  | .text t => do
    return if ← fs.names here t then (Path.names t).getLast?.getD [] else t
  | value => .ok value.description

/-- Whether a value says that the parameter was not given. -/
def isAbsent : Json → Bool
  | .null => true
  | .bool b => !b
  | _ => false

/-- Whether an option has its default: no number is a value of an option that takes
none, and zero is as good as false. -/
def isDefault (option : Switch) : Json → Bool
  | .int i => !option.takesValue && i == 0
  | .double d => !option.takesValue && d.isZero
  | _ => false

def argumentWords (values : Values) (key : String) : Except NameError (List Text) :=
  match Json.lookup? values key with
  | some value => if isAbsent value then .ok [] else return [← shown fs here value]
  | none => .ok []

/-- The words for an option. A value of nothing but blanks is quoted. -/
def optionWords (values : Values) (option : Switch) : Except NameError (List Text) :=
  match Json.lookup? values option.key with
  | some value =>
    if isAbsent value || isDefault option value then .ok []
    else do
      let word ← shown fs here value
      if option.takesValue then
        return [Text.ofString option.long, if word.isBlank then word.quoted else word]
      else return [Text.ofString option.long]
  | none => .ok []

/-- The command line with the given values. It cannot be told if a value is longer than
the name of any file. -/
def line (values : Values) : Except NameError Text := do
  let arguments ← argumentKeys.mapM (argumentWords fs here values)
  let options ← keptSwitches.mapM (optionWords fs here values)
  return Text.joinWith " " (commandName :: arguments.flatten ++ options.flatten)

end

end ScriptTree.Command
