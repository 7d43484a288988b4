import SmallScheme.Evaluator.Sequence
/-!
# Loading files

A name is completed by the extension of source files and, if it is relative, searched in the
directories of the load path. The file is read as a whole before any of its forms is evaluated, in
the frame that asked for it.
-/

namespace SmallScheme

/-- The path that a name is loaded from: the first regular file of that name in the load path, or
the name itself if there is none or it is absolute. A search that is refused ends without a path. -/
def Host.resolve (host : Host) (name : String) : Except Breakdown Path := do
  let path ← (Path.ofText name).withExtension host.settings.extension
  if path.isAbsolute then return path
  let candidates := host.settings.loadPath.map fun directory => directory.join path
  return (← host.files.search? candidates).getD path

namespace Machine

def readFileText (host : Host) (path : Path) : Machine String := do
  noteOpened path.text
  match host.files.read path with
  | .ok text => return text
  | .error (.refused refusal) => fail (.unavailable path.text (refusal.message path.text))
  | .error (.undecodable defect) =>
    fail (.unavailable path.text ("not valid text (" ++ defect.message ++ ")"))
  | .error .zeroInName => breakDown .zeroInName

def loadFile (context : Context) (frame : FrameId) (name : String) : Machine Datum := do
  match context.host.resolve name with
  | .error breakdown => breakDown breakdown
  | .ok path =>
    let text ← readFileText context.host path
    record .debug .sourceLoader ("loading " ++ path.text)
    let forms ← ofExcept (readSource context.limit text)
    runForms context frame forms

/-- Load the file of a name; one that cannot be opened or decoded is only reported. -/
def loadLeniently (context : Context) (frame : FrameId) (name : String) : Machine Unit :=
  tryCatch (discard (loadFile context frame name)) fun
    | .fault (.unavailable path reason) =>
      record .error .loadForm (Fault.unavailable path reason).message
    | interrupt => throw interrupt

/-- Load every file that a value names: a string or quoted symbol, or a list of such values, nested
no deeper than the limit. -/
def loadTarget (context : Context) (frame : FrameId) : Nat → Datum → Machine Unit
  | 0, _ => throw .tooDeep
  | limit + 1, datum =>
    match datum with
    | .str name | .quoted name => loadLeniently context frame name
    | .empty => return
    | _ =>
      if datum.isPair && datum.isList then datum.items.forM (loadTarget context frame limit)
      else failPrinting limit datum (.notLoadable datum)

end Machine

end SmallScheme
