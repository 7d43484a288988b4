import SmallScheme.Evaluator.Context
import SmallScheme.Reader.TokenStream
/-!
# Sequences of forms

Two ways to evaluate the forms of a source. A strict sequence ends at the first interrupt. A
resilient one reports a fault in the log and goes on with the next form, and its value is that of
the last form that had one. Both treat nesting beyond the limit as a fault of the form.
-/

namespace SmallScheme

namespace Machine

/-- An evaluation in which nesting beyond the limit is a fault. -/
def guarded (evaluation : Machine Datum) : Machine Datum :=
  tryCatch evaluation fun
    | .tooDeep => fail .tooDeep
    | interrupt => throw interrupt

/-- Evaluate a form; if that ends with a fault, report it and keep the previous value. -/
def attempt (context : Context) (frame : FrameId) (previous form : Datum) : Machine Datum :=
  tryCatch (guarded (context.evaluate form frame)) fun
    | .fault fault => do
      record .error .sequence fault.report
      return previous
    | interrupt => throw interrupt

def runForms (context : Context) (frame : FrameId) (forms : List Datum) : Machine Datum :=
  forms.foldlM (attempt context frame) .unspecified

/-- Evaluate the forms on a stream resiliently, each as soon as it is read, after a previous value.
A fault of reading is reported and ends the sequence. -/
def runStream (context : Context) (frame : FrameId) (previous : Datum) (stream : TokenStream) :
    Machine Datum :=
  match _ : stream.readForm context.limit with
  | (.ok none, _) => return previous
  | (.ok (some form), rest) => do
    let value ← attempt context frame previous form
    runStream context frame value rest
  | (.error (.fault fault), _) => do
    record .error .sequence fault.report
    return previous
  | (.error interrupt, _) => throw interrupt
termination_by stream.size
decreasing_by exact TokenStream.size_lt_of_readForm ‹_›

/-- Evaluate the forms on a stream strictly, each as soon as it is read, after a previous value. -/
def evaluateStream (context : Context) (frame : FrameId) (previous : Datum)
    (stream : TokenStream) : Machine Datum :=
  match _ : stream.readForm context.limit with
  | (.ok none, _) => return previous
  | (.ok (some form), rest) => do
    let value ← guarded (context.evaluate form frame)
    evaluateStream context frame value rest
  | (.error interrupt, _) => throw interrupt
termination_by stream.size
decreasing_by exact TokenStream.size_lt_of_readForm ‹_›

end Machine

end SmallScheme
