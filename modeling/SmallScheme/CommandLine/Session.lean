import SmallScheme.CommandLine.Options
import SmallScheme.Interpreter
/-!
# Command line sessions

A session loads the files of a command line in order into one interpreter and then, if it is
interactive or there are no files, answers lines of input one by one. What it writes goes to two
texts: the output, and the errors with the log records that the settings let through.
-/

namespace SmallScheme

namespace CommandLine

def prompt : String := "sable> "

def levelRanks : List (String × Nat) :=
  [("CRITICAL", 50), ("FATAL", 50), ("ERROR", 40), ("WARN", 30), ("WARNING", 30), ("INFO", 20),
    ("DEBUG", 10), ("NOTSET", 0)]

def threshold (settings : Settings) : Except Breakdown Nat :=
  match levelRanks.lookup settings.logLevel with
  | some rank => .ok rank
  | none => .error (.unknownLevel settings.logLevel)

structure Session where
  store : Store
  threshold : Nat
  output : String
  errors : String
  failed : Bool

namespace Session

def start (threshold : Nat) : Session :=
  { store := Interpreter.initialStore, threshold, output := "", errors := "", failed := false }

def logText (threshold : Nat) (log : Array LogRecord) : String :=
  let shown := log.toList.filter fun record => threshold ≤ record.level.rank
  String.join (shown.map fun record => record.text ++ "\n")

/-- Run a computation in a session; the traces it leaves, which stay in the store until the next
one, are written out. -/
def perform {α : Type} (session : Session) (computation : Machine α) :
    Except Interrupt α × Session :=
  let finish (store : Store) : Session :=
    { session with
      store
      output := session.output ++ store.output
      errors := session.errors ++ logText session.threshold store.log }
  match computation.run session.store.withoutTraces with
  | .ok value store => (.ok value, finish store)
  | .error interrupt store => (.error interrupt, finish store)

/-- Load the file of a name; a fault is written out and remembered. -/
def loadFile (host : Host) (session : Session) (name : String) : Except Interrupt Unit × Session :=
  match session.perform (Interpreter.load host name) with
  | (.ok _, session) => (.ok (), session)
  | (.error (.fault fault), session) =>
    (.ok (), { session with errors := session.errors ++ fault.report ++ "\n", failed := true })
  | (.error interrupt, session) => (.error interrupt, session)

def loadFiles (host : Host) : Session → List String → Except Interrupt Unit × Session
  | session, [] => (.ok (), session)
  | session, name :: rest =>
    match session.loadFile host name with
    | (.ok (), session) => session.loadFiles host rest
    | (.error interrupt, session) => (.error interrupt, session)

/-- The answer to a line of input: nothing for a blank one, the fault that ends its evaluation, or
the text of its value if that is worth showing. -/
def answer (host : Host) (line : String) : Machine Unit := do
  if line.toList.all isBlank then return
  let value ←
    tryCatch (some <$> Interpreter.eval host line) fun
      | .fault fault => do
        Machine.write (fault.report ++ "\n")
        return none
      | interrupt => throw interrupt
  match value with
  | none | some .unspecified => return
  | some value =>
    Machine.checkPrintable Interpreter.depthLimit value
    Machine.write (value.source ++ "\n")

/-- Answer lines of input, each after a prompt; the last prompt finds the end of the input. -/
def answerLines (host : Host) : Session → List String → Except Interrupt Unit × Session
  | session, [] => session.perform (Machine.write (prompt ++ "\n"))
  | session, line :: rest =>
    match session.perform (do Machine.write prompt; answer host line) with
    | (.ok (), session) => session.answerLines host rest
    | (.error interrupt, session) => (.error interrupt, session)

end Session

def linesOf (text : String) : List String :=
  let pieces := Path.pieces '\n' text.toList
  let lines := if pieces.getLast? = some [] then pieces.dropLast else pieces
  lines.map String.ofList

inductive Ending where
  | finished (status : Nat)
  | answered (status : Nat)
  | interrupted (interrupt : Interrupt)

structure Outcome where
  output : String
  errors : String
  ending : Ending

/-- The files of a command line, then the lines of input if they are asked for. -/
def Session.work (host : Host) (options : Options) (input : String) (session : Session) :
    Except Interrupt Unit × Session :=
  match session.loadFiles host options.files with
  | (.error interrupt, session) => (.error interrupt, session)
  | (.ok (), session) =>
    if options.interactive || options.files.isEmpty then session.answerLines host (linesOf input)
    else (.ok (), session)

def runSession (host : Host) (options : Options) (input : String) (threshold : Nat) : Outcome :=
  let (result, session) := (Session.start threshold).work host options input
  let ending : Ending :=
    match result with
    | .ok () => .finished (if session.failed then 1 else 0)
    | .error interrupt => .interrupted interrupt
  { output := session.output, errors := session.errors, ending }

def run (host : Host) (arguments : List String) (input : String) : Outcome :=
  match parse arguments with
  | .help => { output := helpText, errors := "", ending := .answered 0 }
  | .version => { output := versionText, errors := "", ending := .answered 0 }
  | .refused reason => { output := "", errors := refusalText reason, ending := .answered 2 }
  | .run options =>
    match threshold host.settings with
    | .error breakdown =>
      { output := "", errors := "", ending := .interrupted (.breakdown breakdown) }
    | .ok threshold => runSession host options input threshold

end CommandLine

end SmallScheme
