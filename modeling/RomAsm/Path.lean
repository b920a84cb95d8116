import RomAsm.Failure

/-!
# Paths

A path is a text in which slashes divide names. Its normal form has no empty and no `.` names; `..`
stays, since the name before it may be a link. A path that begins with a slash starts at the root,
and one that begins with exactly two is kept apart from it.
-/

namespace RomAsm.Path

/-- The pieces of a text between its slashes. -/
def pieces : List Char → List (List Char)
  | [] => [[]]
  | c :: rest =>
    if c = '/' then [] :: pieces rest
    else match pieces rest with
      | piece :: more => (c :: piece) :: more
      | [] => [[c]]

/-- The names of a path, without empty and `.` ones. -/
def names (path : String) : List String :=
  ((pieces path.toList).map String.ofList).filter fun name => name != "" && name != "."

/-- The slashes at which a path starts. -/
def root (path : String) : String :=
  match path.toList with
  | '/' :: '/' :: '/' :: _ => "/"
  | '/' :: '/' :: _ => "//"
  | '/' :: _ => "/"
  | _ => ""

/-- The path with the given root and names. -/
def build (root : String) (names : List String) : String :=
  if root = "" ∧ names.isEmpty then "." else root ++ Text.join "/" names

/-- The normal form of a path. -/
def normalize (path : String) : String := build (root path) (names path)

/-- A name without its suffix. The suffix begins at the last dot, unless that is the first or the
last character of the name. -/
def stem (name : List Char) : List Char :=
  let behind := name.reverse.takeWhile (· ≠ '.')
  let before := (name.reverse.dropWhile (· ≠ '.')).drop 1
  if behind.isEmpty || before.isEmpty then name else before.reverse

/-- Whether a text may be the suffix of a name: empty, or a dot and something more, and no slash. -/
def isSuffix (suffix : List Char) : Bool :=
  !suffix.contains '/' &&
    match suffix with
    | [] => true
    | ['.'] => false
    | c :: _ => c = '.'

/-- The path with the suffix of its last name replaced. -/
def withSuffix (path suffix : String) : Except Failure String :=
  if !isSuffix suffix.toList then .error (.invalidSuffix suffix)
  else
    match (names path).getLast? with
    | none => .error (.namelessPath (normalize path))
    | some name =>
      .ok (build (root path)
        ((names path).dropLast ++ [String.ofList (stem name.toList ++ suffix.toList)]))

end RomAsm.Path
