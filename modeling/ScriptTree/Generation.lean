import ScriptTree.Exchange.Reader
import ScriptTree.Settings
import ScriptTree.Source.Layout

/-!
Generated source: a tree printed as the settings ask, after a comment that says how it
was made.
-/

namespace ScriptTree

inductive GenerationError where
  | read (e : Exchange.ReadError)
  | tree (e : TreeError)
  | settings (e : SettingsError)
deriving DecidableEq

def commandName : Text := "estree_to_code"

def version : Text := "1.0.0"

structure Generator where
  settings : Settings := {}
  commandLine : Text := commandName

namespace Generator

def comment (g : Generator) : Except SettingsError (Option Text) := do
  if !g.settings.addComment.isYes then return none
  let printer ← g.settings.printer.get
  if printer.minify.isYes && !g.settings.commentWhenMinified.isYes then return none
  return some (Text.join ["// Generated by ", commandName, " v", version, " : ", g.commandLine])

/-- The settings for printing. A value in their place that counts as no stands for the
defaults. -/
def printSettings (g : Generator) : Except SettingsError PrintSettings :=
  match g.settings.printer with
  | .given s => .ok s
  | .other value => if value.isYes then .error .noSuchSetting else .ok {}
  | .absent => .error .noSuchSetting

def header : Option Text → Text
  | some comment => comment ++ "\n"
  | none => ""

def generate (g : Generator) (t : Tree) : Except GenerationError Text := do
  let printSettings ← g.printSettings.mapError .settings
  let source ← (Source.toSource printSettings t).mapError .tree
  let comment ← g.comment.mapError .settings
  return header comment ++ source

def generateText (g : Generator) (text : Text) : Except GenerationError Text := do
  let t ← (Exchange.readText text).mapError .read
  g.generate t

end Generator

end ScriptTree
