import RomAsm.Path
import RomAsm.Table

/-!
# Trees of files

The files that an assembler can see, each at a place that is given by the names which lead to it,
from the working directory or from the root. Reading and writing follow a path step by step, and say
why they fail where a name on the way is missing or is no directory.

The root, the working directory and those above it exist in every tree, and so do a few places that
every system has. One of them is the null device, which stays empty whatever is written to it.
-/

namespace RomAsm

/-- A file with its bytes, or a directory. -/
inductive Node where
  | file (bytes : List UInt8)
  | directory
  deriving DecidableEq, Repr

/-- Where a path starts. -/
inductive Base where
  /-- So many directories up from the working directory. -/
  | working (ups : Nat)
  | root
  deriving DecidableEq, Repr

/-- A place: where to start, and the names to follow down from there. -/
structure Place where
  base : Base
  names : List String
  deriving DecidableEq, Repr

/-- The files and directories at known places. -/
structure FileTree where
  nodes : List (Place × Node)
  deriving DecidableEq, Repr

/-- The base above a base; nothing is above the root. -/
def Base.up : Base → Base
  | .working ups => .working (ups + 1)
  | .root => .root

/-- The path of a base, to be followed by a name. -/
def Base.text : Base → String
  | .working ups => Text.join "" (List.replicate ups "../")
  | .root => "/"

namespace Place

/-- The place at which a path starts. -/
def start (path : String) : Place := ⟨if Path.root path = "" then .working 0 else .root, []⟩

/-- The place that one name leads to from another place. -/
def step (p : Place) (name : String) : Place :=
  if name = "" ∨ name = "." then p
  else if name = ".." then if p.names.isEmpty then ⟨p.base.up, []⟩ else ⟨p.base, p.names.dropLast⟩
  else ⟨p.base, p.names ++ [name]⟩

/-- The places that names lead through from a place, the last one included. -/
def through (p : Place) : List String → List Place
  | [] => [p]
  | name :: rest => p :: (p.step name).through rest

/-- The names of a path, step by step; a slash at its end is followed by an empty name. -/
def steps (path : String) : List String := (Path.pieces path.toList).map String.ofList

/-- The places that a path leads through, the last one included. -/
def along (path : String) : List Place := (start path).through (steps path)

/-- The path of a place. -/
def text (p : Place) : String := p.base.text ++ Text.join "/" p.names

/-- The directories below the root that every system has. -/
def systemDirectories : List Place := [⟨.root, ["dev"]⟩, ⟨.root, ["tmp"]⟩]

/-- The file that is always empty. -/
def nullDevice : Place := ⟨.root, ["dev", "null"]⟩

end Place

namespace FileTree

/-- A tree without files. -/
def empty : FileTree := ⟨[]⟩

/-- What is at a place. The bases of places are directories. -/
def node? (t : FileTree) (p : Place) : Option Node :=
  if p.names.isEmpty || Place.systemDirectories.contains p then some .directory
  else if p = Place.nullDevice then some (.file [])
  else t.nodes.lookup p

/-- The tree with something put at a place. -/
def put (t : FileTree) (p : Place) (n : Node) : FileTree :=
  ⟨t.nodes.filter (·.1 ≠ p) ++ [(p, n)]⟩

/-- The largest number of bytes of a name. -/
def nameLimit : Nat := 255

/-- The number of bytes that no path has. -/
def pathLimit : Nat := 4096

/-- The place that names lead to, from a place; each but the last must lead to a directory. -/
def walk (t : FileTree) : Place → List String → Except FileCause Place
  | p, [] => .ok p
  | p, name :: rest =>
    match t.node? p with
    | some .directory =>
      if nameLimit < name.utf8ByteSize then .error .nameTooLong else t.walk (p.step name) rest
    | some (.file _) => .error .notDirectory
    | none => .error .notFound

/-- Fails on a path that leads nowhere whatever files there are. -/
def checkPath (path : String) : Except FileCause Unit :=
  if pathLimit ≤ path.utf8ByteSize then .error .nameTooLong
  else if path = "" then .error .notFound
  else .ok ()

/-- The node that a path leads to. -/
def nodeAt (t : FileTree) (path : String) : Except FileCause Node := do
  checkPath path
  match t.node? (← t.walk (.start path) (Place.steps path)) with
  | some n => return n
  | none => throw .notFound

/-- What a path leads to. -/
def find (t : FileTree) (path : String) : Except Failure Node := do
  checkNoNull path
  (t.nodeAt path).mapError (.file · path)

/-- Whether a path leads to a directory. -/
def isDirectory (t : FileTree) (path : String) : Bool :=
  match t.find path with
  | .ok n => n == .directory
  | .error _ => false

/-- Whether a path leads to anything. -/
def has (t : FileTree) (path : String) : Bool :=
  match t.find path with
  | .ok _ => true
  | .error _ => false

/-- The bytes of a file. -/
def read (t : FileTree) (path : String) : Except Failure (List UInt8) :=
  match t.find path with
  | .ok (.file bytes) => .ok bytes
  | .ok .directory => .error (.file .isDirectory path)
  | .error failure => .error failure

/-- The text of a file: its bytes as UTF-8, with every line end made a line feed. -/
def readText (t : FileTree) (path : String) : Except Failure (List Char) := do
  let bytes ← t.read path
  let text ← (Text.Utf8.decode bytes).mapError .encoding
  return Text.unifyLineEnds text

/-- The place of a file to be written: its directory exists, and it is no directory itself. A slash
at the end of a path asks for a directory. -/
def target (t : FileTree) (path : String) : Except FileCause Place := do
  checkPath path
  let pieces := Place.steps path
  let names := (pieces.reverse.dropWhile (· = "")).reverse
  let parent ← t.walk (.start path) names.dropLast
  match t.node? parent with
  | none => throw .notFound
  | some (.file _) => throw .notDirectory
  | some .directory =>
    let name := names.getLast?.getD ""
    if names.length < pieces.length then throw .isDirectory
    if nameLimit < name.utf8ByteSize then throw .nameTooLong
    if t.node? (parent.step name) = some .directory then throw .isDirectory
    return parent.step name

/-- Writes a file; what was there before is gone. -/
def write (t : FileTree) (path : String) (bytes : List UInt8) : Except Failure FileTree := do
  checkNoNull path
  let place ← (t.target path).mapError (.file · path)
  return t.put place (.file bytes)

/-- Writes a text to a file. The file is there before the text is, so a text that cannot be made
leaves an empty file. -/
def writeText (t : FileTree) (path : String) (text : Except Failure String) :
    FileTree × Except Failure Unit :=
  match t.write path [] with
  | .error failure => (t, .error failure)
  | .ok opened =>
    match text with
    | .error failure => (opened, .error failure)
    | .ok text =>
      match t.write path (Text.Utf8.encode text) with
      | .ok written => (written, .ok ())
      | .error failure => (opened, .error failure)

/-- Puts something at a path and makes the directories on the way. -/
def install (t : FileTree) (path : String) (n : Node) : FileTree :=
  let places := Place.along path
  let t := places.dropLast.foldl
    (fun t p => if (t.node? p).isSome then t else t.put p .directory) t
  match places.getLast? with
  | some place => t.put place n
  | none => t

/-- The tree of the given files and directories. -/
def ofFiles (files : List (String × Node)) : FileTree :=
  files.foldl (fun t (path, n) => t.install path n) .empty

/-- The files that are new or have other bytes than in an earlier tree. -/
def changed (before after : FileTree) : List (Place × List UInt8) :=
  after.nodes.filterMap fun (p, n) =>
    match n with
    | .file bytes => if before.node? p ≠ some n then some (p, bytes) else none
    | .directory => none

/-- Whether one list of names comes before another or equals it, name by name. -/
def namesLe : List String → List String → Bool
  | [], _ => true
  | _ :: _, [] => false
  | a :: as, b :: bs => if a = b then namesLe as bs else decide (a < b)

/-- Those of the changed files that are in the working directory, in the order of their names. -/
def changes (before after : FileTree) : List (String × List UInt8) :=
  let inside := (changed before after).filter (·.1.base = .working 0)
  let ordered := inside.mergeSort fun a b => namesLe a.1.names b.1.names
  ordered.map fun (p, bytes) => (p.text, bytes)

end FileTree

end RomAsm
