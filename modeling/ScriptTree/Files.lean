import ScriptTree.Text.Encoding

/-!
Files and directories. A path is the list of names that lead from the root to it, and
the root is always a directory. What stands at a path is found by walking there name
by name, because a regular file on the way is another failure than nothing at all. Not
every text can be a name: files are named by bytes, none of them is zero, and there are
not too many. Links and permissions are left out.
-/

namespace ScriptTree

inductive NameError where
  | unencodable
  | nullByte
  | tooLong
deriving DecidableEq, Repr

def NameError.message : NameError → String
  | .unencodable => "The name cannot be encoded."
  | .nullByte => "embedded null byte"
  | .tooLong => "File name too long"

/-- Whether a code point stands for a byte of a name that is not UTF-8. -/
def CodePoint.isStrayByte (c : CodePoint) : Bool := c.within 0xDC80 0xDCFF

/-- Fails for a text that cannot name a file. Whether it can be encoded is found out
first. -/
def Text.checkName (t : Text) : Except NameError Unit :=
  if t.any fun c => c.isSurrogate && !c.isStrayByte then .error .unencodable
  else if t.any fun c => c.val = 0 then .error .nullByte
  else .ok ()

def Text.nameSize (t : Text) : Nat :=
  t.foldr (fun c size => size + if c.isStrayByte then 1 else (Text.utf8Bytes c).length) 0

def longestName : Nat := 255

/-- The most bytes that a path has when it is written out. -/
def longestPath : Nat := 4095

def Text.fitsName (t : Text) : Bool := t.nameSize ≤ longestName

/-- The names on the way from the root. -/
abbrev Path := List Text

namespace Path

def text (p : Path) : Text := Text.join ["/", Text.joinWith "/" p]

/-- The last name; the root has none. -/
def name (p : Path) : Text := p.getLast?.getD []

def parent (p : Path) : Path := p.dropLast

/-- The names between the slashes of a text. Empty ones and single dots lead nowhere. -/
def names (t : Text) : List Text :=
  (Text.splitAt '/' t).filter fun name => !name.isEmpty && name != Text.ofString "."

/-- The path one name further; two dots lead back. -/
def enter (p : Path) (name : Text) : Path :=
  if name = Text.ofString ".." then p.parent else p ++ [name]

def child (p : Path) (name : Text) : Path := p ++ [name]

def start (here : Path) (t : Text) : Path :=
  if t.head? = some (CodePoint.ofChar '/') then [] else here

def resolve (here : Path) (t : Text) : Path := (names t).foldl enter (start here t)

/-- The path that a text names, if there can be files of all the names on the way. -/
def resolve? (here : Path) (t : Text) : Except NameError Path := do
  (names t).forM Text.checkName
  return resolve here t

/-- Fails for the text of a path that no file can have. The names on the way are as long
as they like. -/
def checkText (t : Text) : Except NameError Unit := do
  t.checkName
  if longestPath < t.nameSize then .error .tooLong

def check (p : Path) : Except NameError Unit := checkText p.text

end Path

/-- What can stand at a path. A regular file stands at one path only, nothing is a link, and
permissions keep nothing from being read or written. -/
inductive Entry where
  | file (bytes : Bytes)
  | directory
deriving DecidableEq

inductive Found where
  | entry (e : Entry)
  | nothing
  /-- A regular file stands on the way. -/
  | blocked
  /-- A name on the way is longer than any file's. -/
  | tooLong
deriving DecidableEq

namespace Found

def isEntry : Found → Bool
  | .entry _ => true
  | _ => false

/-- Whether there is something at the end of the way. Only a name that is too long keeps
that from being known. -/
def isThere : Found → Except NameError Bool
  | .entry _ => .ok true
  | .nothing | .blocked => .ok false
  | .tooLong => .error .tooLong

end Found

structure Files where
  entries : List (Path × Entry) := []
deriving DecidableEq

namespace Files

def lookup? : List (Path × Entry) → Path → Option Entry
  | [], _ => none
  | (path, entry) :: rest, p => if path = p then some entry else lookup? rest p

/-- The entry at a path; the root is a directory. -/
def entry? (fs : Files) (p : Path) : Option Entry :=
  if p = [] then some .directory else lookup? fs.entries p

def erase (fs : Files) (p : Path) : Files := ⟨fs.entries.filter fun (path, _) => path ≠ p⟩

def set (fs : Files) (p : Path) (e : Entry) : Files := ⟨(p, e) :: (fs.erase p).entries⟩

/-- Walks from one path to another; `step` tells where a name leads. -/
def walk (fs : Files) (step : Path → Text → Path) (here : Path) : List Text → Found
  | [] =>
    match fs.entry? here with
    | some e => .entry e
    | none => .nothing
  | name :: rest =>
    match fs.entry? here with
    | some .directory =>
      if name.fitsName then fs.walk step (step here name) rest else .tooLong
    | some (.file _) => .blocked
    | none => .nothing

def find (fs : Files) (p : Path) : Found := fs.walk Path.child [] p

/-- What is found by the text of a path. By a text that is no path's nothing is found. -/
def findBy (t : Text) (found : Found) : Found :=
  match Path.checkText t with
  | .ok () => found
  | .error .tooLong => .tooLong
  | .error _ => .nothing

def isThere (fs : Files) (p : Path) : Except NameError Bool :=
  (findBy p.text (fs.find p)).isThere

/-- Whether a text, seen from a directory, names something that exists. -/
def names (fs : Files) (here : Path) (t : Text) : Except NameError Bool :=
  let names := Path.names t
  (findBy (Text.joinWith "/" names) (fs.walk Path.enter (Path.start here t) names)).isThere

def ancestry (p : Path) : List Path := (List.range p.length).map fun n => p.take (n + 1)

def addDirectories (fs : Files) (p : Path) : Files :=
  (ancestry p).foldl (fun fs p => if (fs.entry? p).isNone then fs.set p .directory else fs) fs

end Files

end ScriptTree
