import SmallScheme.Source.Path
import SmallScheme.Source.Refusal
import SmallScheme.Source.Utf8
/-!
# File systems

All that loading asks of a file system is whether a path is a regular file and what text it holds.
Both questions can be refused. That a path is missing, or leads through a file that is no directory,
is an answer to the first of them.

One kind of file system is a catalogue of texts by the exact spelling of their paths, through which
no search finds anything; another is a tree of files and directories. The last one is a disk that is
too large to know as a whole: it knows what was found at the paths looked at so far, and ends a
loading that needs any other path, which can then be looked at before the loading is started again.
-/

namespace SmallScheme

inductive ReadFailure where
  | refused (refusal : Refusal)
  | undecodable (defect : Utf8.Defect)
  | zeroInName
  deriving DecidableEq, Repr

structure FileSystem where
  isFile : Path → Except Refusal Bool
  read : Path → Except ReadFailure String

namespace FileSystem

inductive Node where
  | file (bytes : List UInt8)
  | directory
  deriving DecidableEq

/-- A tree of files and directories below the current directory, by the names on the way to each.
The directories on the way to an entry need no entry of their own. -/
abbrev Tree := List (List String × Node)

def Tree.node? (tree : Tree) (place : List String) : Option Node :=
  match tree.lookup place with
  | some node => some node
  | none =>
    if tree.any fun (names, _) => place.isPrefixOf names then some .directory else none

/-- The greatest number of bytes in one name of a path. -/
def nameLimit : Nat := 255

/-- The least number of bytes that are too many for the text of a path. -/
def pathLimit : Nat := 4096

/-- Follow names from a directory; the empty name and a single dot stay in it. Nothing is known
above the current directory. -/
def Tree.walk (tree : Tree) : List String → List String → Except Refusal Node
  | _, [] => .ok .directory
  | place, name :: rest =>
    if name = "" ∨ name = "." then tree.walk place rest
    else if name = ".." then
      if place.isEmpty then .error .missing else tree.walk place.dropLast rest
    else if nameLimit < name.utf8ByteSize then .error .nameTooLong
    else
      match tree.node? (place ++ [name]) with
      | none => .error .missing
      | some .directory => tree.walk (place ++ [name]) rest
      | some (.file bytes) => if rest.isEmpty then .ok (.file bytes) else .error .notDirectory

/-- What a tree holds at a path, whose text is followed from slash to slash; nothing is known at
absolute ones. -/
def Tree.find (tree : Tree) (path : Path) : Except Refusal Node :=
  let known : Tree := if path.isAbsolute then [] else tree
  if pathLimit ≤ path.text.utf8ByteSize then .error .nameTooLong
  else known.walk [] ((Path.pieces '/' path.text.toList).map String.ofList)

/-- A path that no file can have is no regular file; one that is too long has no answer. -/
def Tree.isFile (tree : Tree) (path : Path) : Except Refusal Bool :=
  if path.text.contains '\x00' then .ok false
  else
    match tree.find path with
    | .ok (.file _) => .ok true
    | .error .nameTooLong => .error .nameTooLong
    | _ => .ok false

/-- A file system that knows texts by the exact spelling of their paths, and no files to search. -/
def catalogue (texts : List (String × Except Refusal String)) : FileSystem where
  isFile := Tree.isFile []
  read path :=
    match texts.lookup path.text with
    | some (.ok text) => .ok text
    | some (.error refusal) => .error (.refused refusal)
    | none => .error (.refused .missing)

/-- The text of a file: decoded, with every line ending as a single line feed. -/
def textOfBytes (bytes : List UInt8) : Except ReadFailure String :=
  match Utf8.decode bytes with
  | .ok chars => .ok (String.ofList (unifyLineEnds chars))
  | .error defect => .error (.undecodable defect)

def ofTree (tree : Tree) : FileSystem where
  isFile := tree.isFile
  read path :=
    if path.text.contains '\x00' then .error .zeroInName
    else
      match tree.find path with
      | .ok (.file bytes) => textOfBytes bytes
      | .ok .directory => .error (.refused .isDirectory)
      | .error refusal => .error (.refused refusal)

/-- The first of some paths that is a regular file. The search ends where it is refused. -/
def search? (files : FileSystem) : List Path → Except Breakdown (Option Path)
  | [] => .ok none
  | path :: rest =>
    match files.isFile path with
    | .ok true => .ok (some path)
    | .ok false => files.search? rest
    | .error refusal => .error (.searchRefused refusal path.text)

/-- A search has no answer only where it is refused. -/
theorem exists_of_search? {files : FileSystem} {paths : List Path} {breakdown : Breakdown}
    (hsearch : files.search? paths = .error breakdown) :
    ∃ path ∈ paths, ∃ refusal, files.isFile path = .error refusal ∧
      breakdown = .searchRefused refusal path.text := by
  induction paths with
  | nil => cases hsearch
  | cons path rest ih =>
    rw [search?] at hsearch
    split at hsearch
    · cases hsearch
    · obtain ⟨other, hmem, hother⟩ := ih hsearch
      exact ⟨other, List.mem_cons_of_mem path hmem, hother⟩
    · next refusal hrefused =>
      cases hsearch
      exact ⟨path, List.mem_cons_self, refusal, hrefused, rfl⟩

abbrev Finding := Path × Except Refusal (List UInt8)

/-- The file system of what was found so far. A path that was not looked at is answered like one
that no file can have. -/
def ofFindings (findings : List Finding) : FileSystem where
  isFile path :=
    match findings.lookup path with
    | some (.ok _) | some (.error .permission) => .ok true
    | some (.error .nameTooLong) => .error .nameTooLong
    | _ => .ok false
  read path :=
    match findings.lookup path with
    | some (.ok bytes) => textOfBytes bytes
    | some (.error refusal) => .error (.refused refusal)
    | none => .error .zeroInName

end FileSystem

end SmallScheme
