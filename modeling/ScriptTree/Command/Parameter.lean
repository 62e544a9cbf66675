import ScriptTree.Text

/-!
The parameters of the command: its options, with the names they are given by, and its
two arguments.
-/

namespace ScriptTree.Command

inductive Switch where
  | config
  | minify
  | indent
  | force
  | noHeader
  | validate
  | verbose
  | help
deriving DecidableEq, Repr

namespace Switch

def all : List Switch :=
  [.config, .minify, .indent, .force, .noHeader, .validate, .verbose, .help]

def long : Switch → String
  | .config => "--config"
  | .minify => "--minify"
  | .indent => "--indent"
  | .force => "--force"
  | .noHeader => "--no-header"
  | .validate => "--validate"
  | .verbose => "--verbose"
  | .help => "--help"

def short? : Switch → Option Char
  | .config => some 'c'
  | .minify => some 'm'
  | .indent => some 'i'
  | .force => some 'f'
  | .verbose => some 'v'
  | _ => none

def takesValue : Switch → Bool
  | .config | .indent => true
  | _ => false

def key : Switch → String
  | .config => "config"
  | .minify => "minify"
  | .indent => "indent"
  | .force => "force"
  | .noHeader => "no_header"
  | .validate => "validate"
  | .verbose => "verbose"
  | .help => "help"

def ofLong? (name : Text) : Option Switch := all.find? fun s => Text.ofString s.long == name

def ofShort? (letter : CodePoint) : Option Switch := all.find? fun s => s.short?.any letter.is

end Switch

/-- The options whose values are kept, in the order in which they are declared. -/
def keptSwitches : List Switch :=
  [.config, .minify, .indent, .force, .noHeader, .validate, .verbose]

def argumentKeys : List String := ["path", "output"]

end ScriptTree.Command
