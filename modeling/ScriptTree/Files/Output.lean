import ScriptTree.Files
import ScriptTree.Text.Printable
import ScriptTree.Tree.Misuse

/-!
What is written to a file, and how. The atomic way writes a temporary file beside the target and
then puts it in the target's place, so the target changes at once or not at all; the
plain way opens the target itself. Both make the directories that are missing and both
refuse a target that exists unless they are told to overwrite it.
-/

namespace ScriptTree

/-- What is to be written: a text, or a value that is none, with the name of its type in
full and in short. -/
inductive Content where
  | text (t : Text)
  | other (fullTypeName typeName : String)
deriving DecidableEq

instance : Coe Text Content := ⟨.text⟩

def Tree.content (t : Tree) : Content :=
  match t.text? with
  | some text => .text text
  | none =>
    .other (if t.view.isMissing then "None" else t.view.fullTypeName) t.view.typeName

inductive CheckError where
  | unavailable
  | invalid
deriving DecidableEq, Repr

def CheckError.message : CheckError → String
  | .unavailable =>
    "tree-sitter and tree-sitter-javascript are required for validation. " ++
      "Install with: pip install tree-sitter tree-sitter-javascript"
  | .invalid => "Generated JavaScript is not valid"

abbrev Check := Text → Except CheckError Unit

namespace Check

/-- The check when there is no parser to do it. -/
def unavailable : Check := fun _ => .error .unavailable

def none : Check := fun _ => .ok ()

end Check

inductive WriteError where
  | exists (target : Path)
  /-- A regular file stands where a directory is needed. -/
  | inTheWay (path : Path)
  /-- A regular file stands above a directory that is needed. -/
  | notADirectory
  /-- The target is a directory. -/
  | isADirectory
  | unencodable
  /-- No file can have the path. -/
  | unnameable (e : NameError)
  /-- What should go into an open file is not a text. -/
  | notText (typeName : String)
  /-- What should become a file is not a text. -/
  | notTextData (typeName : String)
  | rejected (e : CheckError)
deriving DecidableEq

namespace WriteError

def message : WriteError → Text
  | .exists target =>
    Text.join ["Output file already exists: ", target.text, ". Use --force to overwrite."]
  | .inTheWay path => Text.join ["[Errno 17] File exists: ", path.text.quoted]
  | .notADirectory => "Not a directory"
  | .isADirectory => "Is a directory"
  | .unencodable => "The text cannot be encoded."
  | .unnameable e => e.message
  | .notText typeName => Text.join ["write() argument must be str, not ", typeName]
  | .notTextData typeName => Text.join ["data must be str, not ", typeName]
  | .rejected e => e.message

end WriteError

abbrev Written := Except WriteError Unit × Files

namespace Files

/-- Makes a directory and what is missing above it, up to a name that no directory can
have. -/
def makeDirectory (fs : Files) (p : Path) : Written :=
  match p.check with
  | .error e => (.error (.unnameable e), fs)
  | .ok () =>
    match fs.find p with
    | .entry .directory => (.ok (), fs)
    | .entry (.file _) => (.error (.inTheWay p), fs)
    | .blocked => (.error .notADirectory, fs)
    | .nothing | .tooLong =>
      if p.all Text.fitsName then (.ok (), fs.addDirectories p)
      else (.error (.unnameable .tooLong), fs.addDirectories (p.takeWhile Text.fitsName))

def nameLength (p : Path) : Nat := (p.map List.length).foldl max 0

/-- A name that no entry has, since it is longer than all of them. -/
def temporaryName (fs : Files) (target : Path) : Text :=
  let longest := (fs.entries.map fun (path, _) => nameLength path).foldl max 0
  Text.join [".", target.name, ".", Text.repeated "x" (longest + 1), ".tmp"]

def temporaryPath (fs : Files) (target : Path) : Path :=
  target.parent.child (fs.temporaryName target)

def replace (fs : Files) (source target : Path) (bytes : Bytes) : Written :=
  match fs.entry? target with
  | some .directory => (.error .isADirectory, fs)
  | _ => (.ok (), (fs.erase source).set target (.file bytes))

/-- The bytes that a temporary name adds to the target's: three dots, eight letters of
chance and an ending of three. -/
def temporarySize : Nat := 14

def checkTemporary (target : Path) : Except NameError Unit := do
  target.check
  if longestName < target.name.nameSize + temporarySize ∨
      longestPath < target.text.nameSize + temporarySize then
    .error .tooLong

/-- Writes through a temporary file, which is removed again if anything fails. -/
def writeThrough (fs : Files) (temporary target : Path) (content : Text) (check : Check) :
    Written :=
  match content.toUtf8? with
  | none => (.error .unencodable, (fs.set temporary (.file [])).erase temporary)
  | some bytes =>
    let written := fs.set temporary (.file bytes)
    match check content with
    | .error e => (.error (.rejected e), written.erase temporary)
    | .ok () =>
      match written.replace temporary target bytes with
      | (.error e, fs) => (.error e, fs.erase temporary)
      | (.ok (), fs) => (.ok (), fs)

/-- Writes a file as a whole or not at all. -/
def write (fs : Files) (target : Path) (content : Content) (check : Check) : Written :=
  match fs.makeDirectory target.parent with
  | (.error e, fs) => (.error e, fs)
  | (.ok (), fs) =>
    match checkTemporary target, content with
    | .error e, _ => (.error (.unnameable e), fs)
    | .ok (), .other typeName _ => (.error (.notText typeName), fs)
    | .ok (), .text t => fs.writeThrough (fs.temporaryPath target) target t check

def writeNew (fs : Files) (target : Path) (content : Content) (check : Check) : Written :=
  match fs.isThere target with
  | .error e => (.error (.unnameable e), fs)
  | .ok true => (.error (.exists target), fs)
  | .ok false => fs.write target content check

/-- Opens the target, which empties it, and writes the text. -/
def overwrite (fs : Files) (target : Path) (content : Text) : Written :=
  match fs.entry? target with
  | some .directory => (.error .isADirectory, fs)
  | _ =>
    match content.toUtf8? with
    | none => (.error .unencodable, fs.set target (.file []))
    | some bytes => (.ok (), fs.set target (.file bytes))

def checkTarget (target : Path) : Except NameError Unit := do
  target.check
  if !target.name.fitsName then .error .tooLong

def overwriteWith (fs : Files) (target : Path) : Content → Written
  | .other _ typeName => (.error (.notTextData typeName), fs)
  | .text t =>
    match checkTarget target with
    | .error e => (.error (.unnameable e), fs)
    | .ok () => fs.overwrite target t

/-- The check of what is to be written; what is no text is only refused by a check that
refuses everything. -/
def checkContent (check : Check) : Content → Except CheckError Unit
  | .text t => check t
  | .other .. => check []

def writePlain (fs : Files) (target : Path) (content : Content) (force : Bool) (check : Check) :
    Written :=
  match fs.isThere target with
  | .error e => (.error (.unnameable e), fs)
  | .ok there =>
    if there && !force then (.error (.exists target), fs)
    else
      match checkContent check content with
      | .error e => (.error (.rejected e), fs)
      | .ok () =>
        match fs.makeDirectory target.parent with
        | (.error e, fs) => (.error e, fs)
        | (.ok (), fs) => fs.overwriteWith target content

structure OutputPlan where
  force : Bool := false
  atomic : Bool := true
  check : Check := .none

def output (fs : Files) (plan : OutputPlan) (target : Path) (content : Content) : Written :=
  if !plan.atomic then fs.writePlain target content plan.force plan.check
  else if plan.force then fs.write target content plan.check
  else fs.writeNew target content plan.check

end Files

end ScriptTree
