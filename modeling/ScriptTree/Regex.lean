import ScriptTree.Text

/-!
The flags of regular expression literals.
-/

namespace ScriptTree

inductive RegexFlag where
  | global
  | ignoreCase
  | multiline
  | unicode
  | sticky
deriving DecidableEq, Repr

namespace RegexFlag

def all : List RegexFlag := [.global, .ignoreCase, .multiline, .unicode, .sticky]

def letter : RegexFlag → Char
  | .global => 'g'
  | .ignoreCase => 'i'
  | .multiline => 'm'
  | .unicode => 'u'
  | .sticky => 'y'

def name : RegexFlag → String
  | .global => "GLOBAL"
  | .ignoreCase => "IGNORE_CASE"
  | .multiline => "MULTILINE"
  | .unicode => "UNICODE"
  | .sticky => "STICKY"

def bit : RegexFlag → Nat
  | .global => 1
  | .ignoreCase => 2
  | .multiline => 4
  | .unicode => 8
  | .sticky => 16

def ofLetter? (c : CodePoint) : Option RegexFlag := all.find? fun flag => c.is flag.letter

end RegexFlag

structure RegexFlags where
  global : Bool
  ignoreCase : Bool
  multiline : Bool
  unicode : Bool
  sticky : Bool
deriving DecidableEq, Repr

namespace RegexFlags

def none : RegexFlags := ⟨false, false, false, false, false⟩

def contains (flags : RegexFlags) : RegexFlag → Bool
  | .global => flags.global
  | .ignoreCase => flags.ignoreCase
  | .multiline => flags.multiline
  | .unicode => flags.unicode
  | .sticky => flags.sticky

def insert (flags : RegexFlags) : RegexFlag → RegexFlags
  | .global => { flags with global := true }
  | .ignoreCase => { flags with ignoreCase := true }
  | .multiline => { flags with multiline := true }
  | .unicode => { flags with unicode := true }
  | .sticky => { flags with sticky := true }

def toList (flags : RegexFlags) : List RegexFlag := RegexFlag.all.filter flags.contains

def text (flags : RegexFlags) : Text := flags.toList.map fun flag => flag.letter

def single (flag : RegexFlag) : RegexFlags := none.insert flag

def isEmpty (flags : RegexFlags) : Bool := flags.toList.isEmpty

def name (flags : RegexFlags) : String :=
  if flags.isEmpty then "NONE" else "|".intercalate (flags.toList.map RegexFlag.name)

def bits (flags : RegexFlags) : Nat := flags.toList.foldr (fun flag n => flag.bit + n) 0

/-- Reads letters in any order and number; the first that is no flag is returned. -/
def ofText : Text → Except CodePoint RegexFlags
  | [] => .ok none
  | c :: rest =>
    match RegexFlag.ofLetter? c with
    | some flag => (ofText rest).map (·.insert flag)
    | Option.none => .error c

end RegexFlags

end ScriptTree
