import ScriptTree.Command.Parameter
import ScriptTree.Text.Printable

/-!
Taking the words of a command line apart. Options may stand anywhere among the
arguments and a later one wins; short ones may be joined, and the value of an option
is the rest of its word or the next word. After two dashes every word is an argument.
-/

namespace ScriptTree.Command

inductive UsageError where
  | unknownOption (name : Text)
  | missingValue (option : Switch)
  | unwantedValue (option : Switch)
  | missingArgument (key : String)
  | extraArguments (words : List Text)
  | noSuchFile (key : String) (word : Text)
deriving DecidableEq

def UsageError.message : UsageError → Text
  | .unknownOption name => Text.join ["No such option: ", name]
  | .missingValue option => Text.join ["Option '", option.long, "' requires an argument."]
  | .unwantedValue option => Text.join ["Option '", option.long, "' does not take a value."]
  | .missingArgument key => Text.join ["Missing argument '", key, "'."]
  | .extraArguments words =>
    Text.join ["Got unexpected extra argument", if words.length = 1 then " (" else "s (",
      Text.joinWith " " words, ")"]
  | .noSuchFile key word =>
    Text.join ["Invalid value for '", key, "': Path ", word.quoted, " does not exist."]

structure Options where
  config : Option Text := none
  minify : Bool := false
  indent : Option Text := none
  force : Bool := false
  noHeader : Bool := false
  validate : Bool := false
  verbose : Bool := false
  help : Bool := false
  arguments : List Text := []
deriving DecidableEq

namespace Options

def turnOn (o : Options) : Switch → Options
  | .minify => { o with minify := true }
  | .force => { o with force := true }
  | .noHeader => { o with noHeader := true }
  | .validate => { o with validate := true }
  | .verbose => { o with verbose := true }
  | .help => { o with help := true }
  | .config | .indent => o

def setValue (o : Options) (value : Text) : Switch → Options
  | .config => { o with config := some value }
  | .indent => { o with indent := some value }
  | _ => o

/-- The options after a word, and the option that still waits for its value. -/
abbrev AfterWord := Options × Option Switch

/-- Reads the letters of joined short options. -/
def readShort (o : Options) : Text → Except UsageError AfterWord
  | [] => .ok (o, none)
  | letter :: rest =>
    match Switch.ofShort? letter with
    | none => .error (.unknownOption ['-', letter])
    | some option =>
      if !option.takesValue then (o.turnOn option).readShort rest
      else if rest.isEmpty then .ok (o, some option)
      else .ok (o.setValue rest option, none)

/-- The name of a long option and the value joined to it by an equals sign. -/
def splitLong (word : Text) : Text × Option Text :=
  match word.dropWhile fun c => !c.is '=' with
  | [] => (word, none)
  | _ :: value => (word.takeWhile fun c => !c.is '=', some value)

def readOption (o : Options) (word : Text) : Except UsageError AfterWord :=
  let (name, value?) := splitLong word
  match Switch.ofLong? name, value? with
  | some option, none =>
    if option.takesValue then .ok (o, some option) else .ok (o.turnOn option, none)
  | some option, some value =>
    if option.takesValue then .ok (o.setValue value option, none)
    else .error (.unwantedValue option)
  | none, _ =>
    if word.startsWith "--" then .error (.unknownOption name) else o.readShort (word.drop 1)

/-- Whether a word is an option: a dash alone is an argument. -/
def isOption (word : Text) : Bool := word.startsWith "-" && 1 < word.length

def readFrom (o : Options) : List Text → Except UsageError Options
  | [] => .ok o
  | word :: rest =>
    if word = Text.ofString "--" then .ok { o with arguments := o.arguments ++ rest }
    else if isOption word then
      match o.readOption word with
      | .error e => .error e
      | .ok (o, none) => o.readFrom rest
      | .ok (o, some option) =>
        match rest with
        | [] => .error (.missingValue option)
        | value :: rest => (o.setValue value option).readFrom rest
    else { o with arguments := o.arguments ++ [word] }.readFrom rest

def read (words : List Text) : Except UsageError Options := ({} : Options).readFrom words

end Options

end ScriptTree.Command
