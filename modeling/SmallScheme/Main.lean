import SmallScheme.CommandLine.Session
/-!
# The program

The program hands its arguments, its environment, the disk and the lines of its input to a session,
and writes what the session has to say as soon as a file is loaded or a line answered.
-/

namespace SmallScheme

namespace Program

open CommandLine

/-- A code of an error of the disk, which may come with either sign, is that of the refusal. -/
def isCodeOf (refusal : Refusal) (code : UInt32) : Bool :=
  code = refusal.code.toUInt32 || -code = refusal.code.toUInt32

def refusalOf : IO.Error → Refusal
  | .noFileOrDirectory .. => .missing
  | .permissionDenied .. => .permission
  | .inappropriateType _ code _ => if isCodeOf .isDirectory code then .isDirectory
    else .notDirectory
  | .invalidArgument _ code _ => if isCodeOf .nameTooLong code then .nameTooLong
    else .inputOutput
  | _ => .inputOutput

def look (path : Path) : IO FileSystem.Finding := do
  try
    let bytes ← IO.FS.readBinFile path.text
    return (path, .ok bytes.toList)
  catch error => return (path, .error (refusalOf error))

/-- All paths that decide what is loaded for a path. -/
def alternatives (settings : Settings) (path : Path) : List Path :=
  if path.isAbsolute then [path]
  else path :: settings.loadPath.map fun directory => directory.join path

def unseen? (findings : List FileSystem.Finding) (result : Except Interrupt Unit)
    (session : Session) : Option Path :=
  match result, session.store.opened.back? with
  | .error (.breakdown .zeroInName), some text =>
    let path := Path.ofText text
    if text.contains '\x00' || (findings.lookup path).isSome then none else some path
  | _, _ => none

/-- Take a step of a session; when it ends at a path that was not looked at, look and start it
again. -/
partial def take (settings : Settings) (findings : List FileSystem.Finding)
    (step : Host → Except Interrupt Unit × Session) : IO (Except Interrupt Unit × Session) := do
  let (result, session) := step { settings, files := .ofFindings findings }
  match unseen? findings result session with
  | none => return (result, session)
  | some path =>
    let found ← (alternatives settings path).mapM look
    take settings (found ++ findings) step

def put (stream : IO.FS.Stream) (text : String) : IO Unit := do
  stream.putStr text
  stream.flush

def report (session : Session) : IO Session := do
  put (← IO.getStdout) session.output
  put (← IO.getStderr) session.errors
  return { session with output := "", errors := "" }

def advance (settings : Settings) (step : Host → Except Interrupt Unit × Session) :
    IO (Except Interrupt Unit × Session) := do
  let (result, session) ← take settings [] step
  return (result, ← report session)

def loadFiles (settings : Settings) :
    Session → List String → IO (Except Interrupt Unit × Session)
  | session, [] => return (.ok (), session)
  | session, name :: rest => do
    match ← advance settings fun host => session.loadFile host name with
    | (.ok (), session) => loadFiles settings session rest
    | interrupted => return interrupted

partial def answerLines (settings : Settings) (session : Session) :
    IO (Except Interrupt Unit × Session) := do
  put (← IO.getStdout) prompt
  let line ← (← IO.getStdin).getLine
  if line.isEmpty then
    put (← IO.getStdout) "\n"
    return (.ok (), session)
  let text := String.join (linesOf line)
  match ← advance settings fun host => session.perform (Session.answer host text) with
  | (.ok (), session) => answerLines settings session
  | interrupted => return interrupted

def environment : IO Settings := do
  return .ofVariables
    { loadPath := ← IO.getEnv "SABLE_LOAD_PATH"
      extension := ← IO.getEnv "SABLE_SOURCE_EXTENSION"
      logLevel := ← IO.getEnv "SABLE_LOG_LEVEL" }

/-- The status of a session that has come to its end; an interrupt is reported first. -/
def conclude : Except Interrupt Unit × Session → IO UInt32
  | (.ok (), session) => return if session.failed then 1 else 0
  | (.error interrupt, _) => do
    put (← IO.getStderr) (interrupt.report ++ "\n")
    return 1

def work (settings : Settings) (options : Options) (threshold : Nat) : IO UInt32 := do
  match ← loadFiles settings (.start threshold) options.files with
  | (.ok (), session) =>
    if options.interactive || options.files.isEmpty then
      conclude (← answerLines settings session)
    else conclude (.ok (), session)
  | interrupted => conclude interrupted

def run (arguments : List String) : IO UInt32 := do
  let settings ← environment
  match parse arguments, threshold settings with
  | .run options, .ok threshold => work settings options threshold
  | .run _, .error breakdown => conclude (.error (.breakdown breakdown), .start 0)
  | _, _ =>
    let outcome := CommandLine.run { settings, files := .ofFindings [] } arguments ""
    put (← IO.getStdout) outcome.output
    put (← IO.getStderr) outcome.errors
    return match outcome.ending with
      | .finished status | .answered status => status.toUInt32
      | .interrupted _ => 1

end Program

end SmallScheme

def main (arguments : List String) : IO UInt32 := SmallScheme.Program.run arguments
