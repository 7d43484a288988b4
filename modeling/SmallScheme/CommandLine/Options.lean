import SmallScheme.Text.DecimalDigit
import SmallScheme.Text.Quoted
/-!
# Command line options

The arguments of a command line are files and three flags. Short flags may be written together
behind one dash, long ones cut short as long as only one flag is meant; after a double dash every
argument is a file. Files are taken from the first unbroken run of them, and whatever is left over
is an error.
-/

namespace SmallScheme

namespace CommandLine

inductive Flag where
  | help | interactive | version
  deriving DecidableEq, Repr

def Flag.spellings : Flag → List String
  | help => ["-h", "--help"]
  | interactive => ["-i", "--interactive"]
  | version => ["--version"]

def Flag.title (flag : Flag) : String := "/".intercalate flag.spellings

def spellings : List (String × Flag) :=
  [Flag.help, .interactive, .version].flatMap fun flag =>
    flag.spellings.map fun spelling => (spelling, flag)

structure Options where
  files : List String
  interactive : Bool
  deriving DecidableEq, Repr

inductive Request where
  | run (options : Options)
  | help
  | version
  | refused (reason : String)
  deriving DecidableEq, Repr

inductive Argument where
  | file
  | flag (flag : Flag) (spelling : String) (attached : Option String)
  | unknown
  deriving DecidableEq, Repr

def splitAtEquals (text : List Char) : List Char × Option (List Char) :=
  match text.dropWhile (· ≠ '=') with
  | [] => (text, none)
  | _ :: value => (text.takeWhile (· ≠ '='), some value)

def withoutLineFeed (text : List Char) : List Char :=
  if text.getLast? = some '\n' then text.dropLast else text

/-- The text is a negative number without an exponent, which a line feed may end. -/
def isNegativeNumber (text : List Char) : Bool :=
  match withoutLineFeed text with
  | '-' :: number =>
    match number.dropWhile isDecimalDigit with
    | [] => !number.isEmpty
    | '.' :: fraction => !fraction.isEmpty && fraction.all isDecimalDigit
    | _ => false
  | _ => false

/-- The flags that an argument can mean, where it is no spelling of one: a long one cut short, with
a value after an equals sign, or a short one with more behind it. -/
def abbreviations (text : List Char) : List Argument :=
  match text with
  | '-' :: '-' :: _ =>
    let (start, value) := splitAtEquals text
    (spellings.filter fun (spelling, _) => start.isPrefixOf spelling.toList).map
      fun (spelling, flag) => .flag flag spelling (value.map String.ofList)
  | _ =>
    (spellings.filter fun (spelling, _) => spelling.toList == text.take 2).map
      fun (spelling, flag) => .flag flag spelling (some (String.ofList (text.drop 2)))

def classify (argument : String) : Except String Argument :=
  let text := argument.toList
  if text.head? ≠ some '-' then .ok .file
  else
    match spellings.lookup argument with
    | some flag => .ok (.flag flag argument none)
    | none =>
      let (start, value) := splitAtEquals text
      match spellings.lookup (String.ofList start), value with
      | some flag, some value => .ok (.flag flag (String.ofList start) (some (String.ofList value)))
      | _, _ =>
        if text.length = 1 then .ok .file
        else
          match abbreviations text with
          | [only] => .ok only
          | [] =>
            if isNegativeNumber text || text.contains ' ' then .ok .file else .ok .unknown
          | several =>
            let meant := several.filterMap fun
              | .flag _ spelling _ => some spelling
              | _ => none
            .error ("ambiguous option: " ++ argument ++ " could match " ++ ", ".intercalate meant)

/-- What every argument is; after a double dash, and for the dash itself, that is a file. -/
def classifyAll : List String → Except String (List (String × Argument))
  | [] => .ok []
  | "--" :: rest => .ok (("--", .file) :: rest.map fun argument => (argument, .file))
  | argument :: rest => do
    let kind ← classify argument
    let kinds ← classifyAll rest
    return (argument, kind) :: kinds

/-- The flags that are written together: one and the short ones attached to it. -/
def expandFlag (flag : Flag) (isShort : Bool) : List Char → Except String (List Flag)
  | [] => .error (refusal [])
  | letter :: more =>
    if !isShort then .error (refusal (letter :: more))
    else
      match spellings.lookup (String.ofList ['-', letter]) with
      | none => .error (refusal (letter :: more))
      | some next =>
        if more.isEmpty then .ok [flag, next]
        else (expandFlag next true more).map (flag :: ·)
where
  refusal (attached : List Char) : String :=
    "argument " ++ flag.title ++ ": ignored explicit argument "
      ++ quotedText (String.ofList attached)

def flagsOf (flag : Flag) (spelling : String) : Option String → Except String (List Flag)
  | none => .ok [flag]
  | some attached => expandFlag flag (spelling.toList.take 2 != ['-', '-']) attached.toList

structure Progress where
  files : Option (List String)
  interactive : Bool
  extras : List String

/-- Take a run of files that stand together: the first run is the files to load, without a double
dash, and any other is left over. -/
def Progress.takeFiles (progress : Progress) (run : List String) : Progress :=
  match progress.files with
  | none => { progress with files := some (run.erase "--") }
  | some _ => { progress with extras := progress.extras ++ run }

def Progress.closeRun (progress : Progress) (run : List String) : Progress :=
  if run.isEmpty then progress else progress.takeFiles run

/-- What becomes of flags in order: a question for help or the version is answered at once. -/
def Progress.takeFlags (progress : Progress) : List Flag → Except Request Progress
  | [] => .ok progress
  | .help :: _ => .error .help
  | .version :: _ => .error .version
  | .interactive :: rest => { progress with interactive := true }.takeFlags rest

/-- Read classified arguments, after a run of files that is still open. -/
def Progress.read (progress : Progress) (run : List String) :
    List (String × Argument) → Except Request Progress
  | [] => .ok (progress.takeFiles run)
  | (argument, .file) :: rest => progress.read (run ++ [argument]) rest
  | (argument, .unknown) :: rest =>
    let progress := progress.closeRun run
    { progress with extras := progress.extras ++ [argument] }.read [] rest
  | (_, .flag flag spelling attached) :: rest =>
    match flagsOf flag spelling attached with
    | .error reason => .error (.refused reason)
    | .ok flags =>
      match (progress.closeRun run).takeFlags flags with
      | .error request => .error request
      | .ok progress => progress.read [] rest

def parse (arguments : List String) : Request :=
  match classifyAll arguments with
  | .error reason => .refused reason
  | .ok classified =>
    let start : Progress := { files := none, interactive := false, extras := [] }
    match start.read [] classified with
    | .error request => request
    | .ok progress =>
      if progress.extras.isEmpty then
        .run { files := progress.files.getD [], interactive := progress.interactive }
      else .refused ("unrecognized arguments: " ++ " ".intercalate progress.extras)

def usage : String := "usage: sable [-h] [-i] [--version] [files ...]\n"

def helpText : String :=
  usage ++ "\nSable Scheme interpreter\n\npositional arguments:\n"
    ++ "  files              source files to load, in order\n\noptions:\n"
    ++ "  -h, --help         show this help message and exit\n"
    ++ "  -i, --interactive  start a REPL after loading files\n"
    ++ "  --version          show program's version number and exit\n"

def versionText : String := "sable 0.1.0\n"

def refusalText (reason : String) : String := usage ++ "sable: error: " ++ reason ++ "\n"

end CommandLine

end SmallScheme
