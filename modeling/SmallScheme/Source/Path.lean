import SmallScheme.Fault
/-!
# Paths

A path is an optional root and the names below it. Reading a path drops empty names and single dots
and keeps double dots; exactly two slashes at its front are a root of their own.
-/

namespace SmallScheme

inductive Path.Root where
  | none
  | slash
  | doubleSlash
  deriving DecidableEq, Repr

def Path.Root.text : Path.Root → String
  | none => ""
  | slash => "/"
  | doubleSlash => "//"

structure Path where
  root : Path.Root
  parts : List String
  deriving DecidableEq, Repr

namespace Path

def pieces (separator : Char) : List Char → List (List Char)
  | [] => [[]]
  | char :: rest =>
    if char = separator then [] :: pieces separator rest
    else
      match pieces separator rest with
      | [] => [[char]]
      | piece :: more => (char :: piece) :: more

def names (text : List Char) : List String :=
  ((pieces '/' text).filter fun piece => !piece.isEmpty && piece != ['.']).map String.ofList

def rootOf (text : List Char) : Root :=
  match text with
  | '/' :: '/' :: '/' :: _ => .slash
  | '/' :: '/' :: _ => .doubleSlash
  | '/' :: _ => .slash
  | _ => .none

def ofText (text : String) : Path :=
  { root := rootOf text.toList, parts := names text.toList }

/-- The text of a path; the path of no names in the current directory is a single dot. -/
def text (path : Path) : String :=
  if path.root = .none ∧ path.parts = [] then "."
  else path.root.text ++ "/".intercalate path.parts

def isAbsolute (path : Path) : Bool := path.root != .none

def name (path : Path) : String := path.parts.getLastD ""

/-- The part of a name from its last dot on. A dot at its front or end begins no suffix. -/
def suffixOf (name : List Char) : List Char :=
  let afterDot := (name.reverse.takeWhile (· ≠ '.')).reverse
  let beforeDot := (name.reverse.dropWhile (· ≠ '.')).reverse.dropLast
  if afterDot.isEmpty || beforeDot.isEmpty then [] else '.' :: afterDot

def suffix (path : Path) : String := String.ofList (suffixOf path.name.toList)

def isFileName (name : String) : Bool :=
  name.toList.getLast? != some '/' && rootOf name.toList == .none
    && (names name.toList).length == 1

def withName (path : Path) (name : String) : Except Breakdown Path :=
  if path.name.isEmpty then .error (.emptyName path.text)
  else if !isFileName name then .error (.invalidName name)
  else .ok { path with parts := path.parts.dropLast ++ [name] }

def join (directory path : Path) : Path :=
  { directory with parts := directory.parts ++ path.parts.flatMap fun part => names part.toList }

/-- The path, with the extension added to its last name unless that is its suffix already. -/
def withExtension (extension : String) (path : Path) : Except Breakdown Path :=
  if path.suffix = extension then .ok path else path.withName (path.name ++ extension)

end Path

end SmallScheme
