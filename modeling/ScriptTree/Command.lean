import ScriptTree.Command.Line
import ScriptTree.Command.Options
import ScriptTree.Files.Output
import ScriptTree.Text.Terminal

/-!
The command: reads a file of interchange text and writes the source generated from it.
Options override what a file of settings says. A run ends with an exit code, the lines
it logged and the files as they are then; what is wrong with the command line, the input
or the output is reported, and any other failure is handed on. So is a report that cannot
be encoded.
-/

namespace ScriptTree.Command

inductive Failure where
  | usage (e : UsageError)
  /-- No file can have a name that is given. -/
  | unnameable (e : NameError)
  | settings (e : SettingsError)
  /-- The file of settings is not JSON. -/
  | notJson (message : Text)
  /-- A file that is read is not UTF-8. -/
  | undecodable
  /-- A file that is read is a directory. -/
  | isADirectory
  | generation (e : GenerationError)
  | write (e : WriteError)
  /-- What should be reported cannot be encoded. -/
  | unencodableReport
deriving DecidableEq

/-- What a failure is reported as. A failure that is none of the command line's, the
input's or the output's own is not reported. -/
def Failure.report? : Failure → Option Text
  | .usage e => some e.message
  | .generation (.read e) => some e.message
  | .generation (.tree (.misuse _)) => none
  | .generation (.tree e) => some e.message
  | .write (.exists target) => some (WriteError.exists target).message
  | .write (.inTheWay path) => some (WriteError.inTheWay path).message
  | .write (.rejected e) => some e.message
  | _ => none

/-- A run that can be carried out: the options and the files they name. -/
structure Request where
  options : Options
  config : Option Path
  path : Path
  output : Path

namespace Request

def existing (fs : Files) (here : Path) (key : String) (word : Text) : Except Failure Path := do
  let p ← (Path.resolve? here word).mapError .unnameable
  if (fs.find p).isEntry then return p else .error (.usage (.noSuchFile key word))

def argument (key : String) (word : Option Text) : Except Failure Text :=
  match word with
  | some word => .ok word
  | none => .error (.usage (.missingArgument key))

/-- The request that options make. The file of settings is looked for first, then the
arguments in their order. -/
def ofOptions (fs : Files) (here : Path) (o : Options) : Except Failure Request := do
  let config ← match o.config with
    | some word => (existing fs here "config" word).map some
    | none => .ok none
  let path ← existing fs here "path" (← argument "path" o.arguments[0]?)
  let output ← argument "output" o.arguments[1]?
  let output ← (Path.resolve? here output).mapError .unnameable
  match o.arguments.drop 2 with
  | [] => return ⟨o, config, path, output⟩
  | words => .error (.usage (.extraArguments words))

def values (r : Request) : Values :=
  [("config", match r.config with
      | some p => .text p.text
      | none => .null),
    ("minify", .bool r.options.minify),
    ("indent", match r.options.indent with
      | some unit => .text unit
      | none => .null),
    ("force", .bool r.options.force), ("no_header", .bool r.options.noHeader),
    ("validate", .bool r.options.validate), ("verbose", .bool r.options.verbose),
    ("path", .text r.path.text), ("output", .text r.output.text)]

end Request

/-- The text of a file, every line ended by a line feed. -/
def readFile (fs : Files) (p : Path) : Except Failure Text :=
  match fs.entry? p with
  | some (.file bytes) =>
    match Text.ofUtf8? false bytes with
    | some t => .ok t.withLineFeeds
    | none => .error .undecodable
  | _ => .error .isADirectory

def readSettings (fs : Files) : Option Path → Except Failure Settings
  | none => .ok {}
  | some p => do
    let text ← readFile fs p
    match Json.parse text with
    | .error failure => .error (.notJson (failure.message text))
    | .ok j => (Settings.ofJson j).mapError .settings

def changedIf (condition : Bool) (change : Settings → Except SettingsError Settings)
    (s : Settings) : Except SettingsError Settings :=
  if condition then change s else .ok s

def override (o : Options) (s : Settings) : Except SettingsError Settings := do
  let s ← changedIf o.minify (Settings.modifyPrinter fun p => { p with minify := .bool true }) s
  let s ← o.indent.elim (.ok s) fun unit =>
    s.modifyPrinter fun p => { p with indent := .text unit }
  let s ← changedIf o.force
    (Settings.modifyOutput fun out => { out with mode := .known .overwrite }) s
  let s ← changedIf o.noHeader (fun s => .ok { s with addComment := .bool false }) s
  changedIf o.validate (Settings.modifyOutput fun out => { out with validate := .bool true }) s

/-- How the output is written under given settings; `parser` is the check that they may ask
for. -/
def planOf (parser : Check) (s : OutputSettings) : Files.OutputPlan where
  force := s.mode = .known .overwrite
  atomic := s.atomic.isYes
  check := if s.validate.isYes then parser else Check.none

structure Job where
  tree : Tree
  generator : Generator

namespace Job

def ofRequest (fs : Files) (here : Path) (r : Request) : Except Failure Job := do
  let settings ← readSettings fs r.config
  let settings ← (override r.options settings).mapError .settings
  let text ← readFile fs r.path
  let commandLine ← (line fs here r.values).mapError .unnameable
  let tree ← (Exchange.readText text).mapError fun e => .generation (.read e)
  return ⟨tree, settings, commandLine⟩

def product (parser : Check) (job : Job) : Except Failure (Text × Files.OutputPlan) := do
  let source ← (job.generator.generate job.tree).mapError .generation
  let output ← job.generator.settings.output.get.mapError .settings
  return (source, planOf parser output)

def readLine (job : Job) : Text :=
  let what : Text := match job.tree.kind? with
    | some kind => kind.typeName
    | none => "empty statement"
  Text.join ["INFO estree_to_code.generator: Decoded ", what, " from JSON\n"]

end Job

def writtenLine (source : Text) (output : Path) : Text :=
  Text.join ["INFO estree_to_code.estree_to_code: Wrote ", Text.ofNat source.length,
    " characters to ", output.text, "\n"]

structure Outcome where
  failure : Option Failure
  /-- The lines that are logged if the run is verbose. -/
  log : List Text
  files : Files

def Request.run (parser : Check) (fs : Files) (here : Path) (r : Request) : Outcome :=
  match Job.ofRequest fs here r with
  | .error e => ⟨some e, [], fs⟩
  | .ok job =>
    match job.product parser with
    | .error e => ⟨some e, [job.readLine], fs⟩
    | .ok (source, plan) =>
      match fs.output plan r.output source with
      | (.error e, fs) => ⟨some (.write e), [job.readLine], fs⟩
      | (.ok (), fs) => ⟨none, [job.readLine, writtenLine source r.output], fs⟩

def usageLine : Text := "Usage: estree-to-code [OPTIONS] PATH OUTPUT\n"

def helpText : Text := Text.join [
  usageLine, "\n",
  "  Generate JavaScript source from the ESTree JSON file PATH into OUTPUT.\n\n",
  "Options:\n",
  "  -c, --config PATH\n",
  "  -m, --minify       Print without optional whitespace\n",
  "  -i, --indent TEXT  Indentation unit for pretty output\n",
  "  -f, --force        Overwrite the output file if it exists\n",
  "  --no-header        Omit the generation comment\n",
  "  --validate         Check the generated source with tree-sitter before\n",
  "                     writing\n",
  "  -v, --verbose      Log progress\n",
  "  --help             Show this message and exit.\n"]

structure Result where
  exitCode : Nat
  /-- The text shown, log lines and the report of a failure included. -/
  shown : Text
  failure : Option Failure
  files : Files

def exitCode : Option Failure → Nat
  | none => 0
  | some (.usage _) => 2
  | some _ => 1

/-- What is shown before a failure is reported: where to learn more about a command line
that cannot be understood. -/
def adviceText : Option Failure → Text
  | some (.usage _) => Text.join [usageLine, "Try 'estree-to-code --help' for help.\n\n"]
  | _ => ""

/-- The line that reports a failure. It may quote the input, so it is shown without
control sequences. -/
def reportText (failure : Option Failure) : Text :=
  match failure.bind Failure.report? with
  | some message => Text.withoutControls (Text.join ["Error: ", message, "\n"])
  | none => ""

/-- The result of an outcome. A report that cannot be encoded is not shown, and the run
fails for that reason instead. -/
def Outcome.result (verbose : Bool) (outcome : Outcome) : Result :=
  let log := if verbose then Text.withoutSurrogates outcome.log.flatten else []
  let report := reportText outcome.failure
  let failure := if report.isEncodable then outcome.failure else some .unencodableReport
  let shown := log ++ adviceText outcome.failure ++ if report.isEncodable then report else []
  ⟨exitCode failure, shown.withoutPairedReturns, failure, outcome.files⟩

def refused (fs : Files) (failure : Failure) : Result := Outcome.result false ⟨some failure, [], fs⟩

/-- Runs the command with the words of a command line, in a directory, where a parser may be
there to check source. -/
def runWith (parser : Check) (fs : Files) (here : Path) (words : List Text) : Result :=
  match Options.read words with
  | .error e => refused fs (.usage e)
  | .ok options =>
    if options.help then ⟨0, helpText, none, fs⟩
    else
      match Request.ofOptions fs here options with
      | .error e => refused fs e
      | .ok request => (request.run parser fs here).result options.verbose

def run (fs : Files) (here : Path) (words : List Text) : Result :=
  runWith Check.unavailable fs here words

end ScriptTree.Command
