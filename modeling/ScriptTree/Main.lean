import ScriptTree.Command

/-!
The command as a program. The files that the words of the command line name are loaded,
the command is run on them, and what it changed is written back.
-/

namespace ScriptTree.Main

open Command

def passed (here : Path) (t : Text) : List Path :=
  ((Path.names t).foldl (fun (paths, p) name => (paths ++ [p.enter name], p.enter name))
    ([Path.start here t], Path.start here t)).1

def namesOf (o : Options) : List Text :=
  o.arguments ++ o.config.toList ++ o.indent.toList

def looksAt (here : Path) (words : List Text) : List Path :=
  match Options.read words with
  | .ok o => ((namesOf o).flatMap (passed here)).flatMap Files.ancestry
  | .error _ => []

def nameOf (p : Path) : String := p.text.toString?.getD ""

/-- What stands at a path now: what exists and cannot be read as a file is a directory. -/
def loadEntry (p : Path) : IO (Option Entry) := do
  try return some (.file (← IO.FS.readBinFile (nameOf p)).toList)
  catch _ =>
    try
      let _ ← IO.FS.realPath (nameOf p)
      return some .directory
    catch _ => return none

def load (paths : List Path) : IO Files :=
  paths.foldlM (fun fs p => return match ← loadEntry p with
    | some e => fs.set p e
    | none => fs) {}

def storeEntry (p : Path) : Entry → IO Unit
  | .directory => IO.FS.createDirAll (nameOf p)
  | .file bytes => do
    let temporary := nameOf p ++ ".tmp"
    IO.FS.createDirAll (nameOf p.parent)
    IO.FS.writeBinFile temporary ⟨bytes.toArray⟩
    IO.FS.rename temporary (nameOf p)

def store (before after : Files) : IO Unit :=
  after.entries.forM fun (p, e) => do
    if before.entry? p ≠ some e then storeEntry p e

def complaint : Failure → Text
  | .usage e => e.message
  | .unnameable e => e.message
  | .settings e => e.message
  | .notJson message => message
  | .undecodable => "A file is not encoded as UTF-8."
  | .isADirectory => "Is a directory"
  | .generation (.read e) => e.message
  | .generation (.tree e) => e.message
  | .generation (.settings e) => e.message
  | .write e => e.message
  | .unencodableReport => "The report of a failure cannot be encoded."

def visible (t : Text) : String := t.withoutSurrogates.toString?.getD ""

def run (args : List String) : IO UInt32 := do
  let here := Path.names (Text.ofString (toString (← IO.currentDir)))
  let words := args.map Text.ofString
  let files ← load (looksAt here words)
  let result := Command.run files here words
  store files result.files
  if result.exitCode = 0 then IO.print (visible result.shown) else IO.eprint (visible result.shown)
  match result.failure with
  | some failure =>
    if failure.report?.isNone then IO.eprintln ("Error: " ++ visible (complaint failure))
  | none => pure ()
  return result.exitCode.toUInt32

end ScriptTree.Main

def main (args : List String) : IO UInt32 := ScriptTree.Main.run args
