import SmallScheme.Evaluator.Conditional
import SmallScheme.Evaluator.Loading
import SmallScheme.Evaluator.Quotation
/-!
# Special forms

The evaluation rule of each special form, given its unevaluated operands. A rule whose value is that
of one of its expressions proceeds with it instead of evaluating it.
-/

namespace SmallScheme

def Datum.operandsOf? (form : SpecialForm) : Datum → Option (List Datum)
  | .form _ (.symbol name :: operands) => if name = form.name then some operands else none
  | _ => none

namespace Machine

def symbolName (limit : Nat) (form : SpecialForm) : Datum → Machine String
  | .symbol name => return name
  | datum => failDiagnosing limit datum (.notSymbol form datum)

def readFormals (limit : Nat) : Datum → Machine Formals
  | .form _ parameters => do
    return .fixed (← parameters.mapM (symbolName limit .lambda))
  | parameter => do
    return .rest (← symbolName limit .lambda parameter)

def makeClosure (context : Context) (frame : FrameId) (name : Option String)
    (operands : List Datum) : Machine Datum :=
  match operands with
  | [] => fail (.operandCount .lambda)
  | parameters :: body => do
    closure name (← readFormals context.limit parameters) body frame

def defineAs (frame : FrameId) (name : String) (computation : Machine Datum) : Machine Datum := do
  let value ← computation
  define frame name value
  return .unspecified

def defineProcedure (context : Context) (frame : FrameId) (target : Datum)
    (parameters body : List Datum) : Machine Datum := do
  let name ← symbolName context.limit .define target
  let names ← parameters.mapM (symbolName context.limit .define)
  defineAs frame name (closure (some name) (.fixed names) body frame)

/-- The value of an expression that is bound to a name: a closure that is the whole expression is
given the name. -/
def evaluateNamed (context : Context) (frame : FrameId) (name : String) (expression : Datum) :
    Machine Datum :=
  match expression.operandsOf? .lambda with
  | some operands => makeClosure context frame (some name) operands
  | none => context.evaluate expression frame

def defineVariable (context : Context) (frame : FrameId) (target : Datum)
    (expressions : List Datum) : Machine Datum := do
  let name ← symbolName context.limit .define target
  match expressions with
  | [expression] => defineAs frame name (evaluateNamed context frame name expression)
  | _ => fail (.defineExpressions name)

/-- Bind a name in the frame. A list in place of the name is a procedure's name and parameters. -/
def evaluateDefine (context : Context) (frame : FrameId) (operands : List Datum) : Machine Datum :=
  match operands with
  | [] => fail (.operandCount .define)
  | .form _ [] :: _ => fail .missingProcedureName
  | .form _ (target :: parameters) :: body => defineProcedure context frame target parameters body
  | target :: expressions => defineVariable context frame target expressions

def evaluateBranch (context : Context) (frame : FrameId) (operands : List Datum) : Machine Step :=
  match operands with
  | [test, consequent] => do
    let value ← context.evaluate test frame
    return if value.isTrue then .proceed consequent frame else .done .unspecified
  | [test, consequent, alternative] => do
    let value ← context.evaluate test frame
    return .proceed (if value.isTrue then consequent else alternative) frame
  | _ => fail (.operandCount .branch)

def evaluateBegin (context : Context) (frame : FrameId) : List Datum → Machine Step
  | [] => return .done .unspecified
  | [last] => return .proceed last frame
  | expression :: rest => do
    discard (context.evaluate expression frame)
    evaluateBegin context frame rest

/-- Whether every expression has a true value, evaluated up to the first that has not. -/
def allTrue (context : Context) (frame : FrameId) : List Datum → Machine Bool
  | [] => return true
  | expression :: rest => do
    let value ← context.evaluate expression frame
    if value.isTrue then allTrue context frame rest else return false

/-- Whether some expression has a true value, evaluated up to the first that has. -/
def anyTrue (context : Context) (frame : FrameId) : List Datum → Machine Bool
  | [] => return false
  | expression :: rest => do
    let value ← context.evaluate expression frame
    if value.isTrue then return true else anyTrue context frame rest

/-- Apply a procedure to the elements of a list, as an application of these very values. -/
def evaluateApply (context : Context) (frame : FrameId) (operands : List Datum) : Machine Datum :=
  match operands with
  | [procedureExpression, listExpression] => do
    let procedure ← context.evaluate procedureExpression frame
    let list ← context.evaluate listExpression frame
    if list.isList then context.evaluate (.form none (procedure :: list.items)) frame
    else failPrinting context.limit list (.notArgumentList list)
  | _ => fail (.operandCount .apply)

def evaluateForms (context : Context) (frame : FrameId) (forms : List Datum) : Machine Datum :=
  forms.foldlM (fun _ form => context.evaluate form frame) .unspecified

/-- Evaluate the text of a value. A fault in that is reported in the log and leaves no value; a
value whose lists are not all proper has no text to evaluate. -/
def evaluateWritten (context : Context) (frame : FrameId) (value : Datum) : Machine Datum :=
  match value.wellFormed? context.limit with
  | none => throw .tooDeep
  | some false => failPrinting context.limit value (.malformedList value)
  | some true => do
    checkPrintable context.limit value
    let forms ← ofExcept (readSource context.limit value.source)
    tryCatch (evaluateForms context frame forms) fun
      | .fault fault => do
        record .error .evalForm ("eval of " ++ value.source ++ " failed: " ++ fault.message)
        return .unspecified
      | interrupt => throw interrupt

def evaluateEval (context : Context) (frame : FrameId) (operands : List Datum) : Machine Datum :=
  match operands with
  | [operand] => do
    evaluateWritten context frame (← context.evaluate operand frame)
  | _ => fail (.operandCount .eval)

def evaluateLoad (context : Context) (frame : FrameId) (operands : List Datum) : Machine Datum :=
  match operands with
  | [operand] => do
    let target ← context.evaluate operand frame
    loadTarget context frame context.limit target
    return .unspecified
  | _ => fail (.operandCount .load)

def evaluateDelay (frame : FrameId) (operands : List Datum) : Machine Datum :=
  match operands with
  | [expression] => newPromise expression frame
  | _ => fail (.operandCount .delay)

def evaluateAnd (context : Context) (frame : FrameId) (operands : List Datum) : Machine Datum :=
  if operands.isEmpty then fail (.operandCount .and)
  else do
    return .bool (← allTrue context frame operands)

def evaluateOr (context : Context) (frame : FrameId) (operands : List Datum) : Machine Datum :=
  if operands.isEmpty then fail (.operandCount .or)
  else do
    return .bool (← anyTrue context frame operands)

def evaluateQuote (context : Context) (operands : List Datum) : Machine Datum :=
  match operands with
  | [datum] => quoteDatum context.limit datum
  | _ => fail (.operandCount .quote)

def evaluateSpecial (context : Context) (frame : FrameId) (operands : List Datum) :
    SpecialForm → Machine Step
  | .define => .done <$> evaluateDefine context frame operands
  | .eval => .done <$> evaluateEval context frame operands
  | .apply => .done <$> evaluateApply context frame operands
  | .branch => evaluateBranch context frame operands
  | .cond => do
    return .proceed (← ofExcept (expandConditional context.limit operands)) frame
  | .begin => evaluateBegin context frame operands
  | .lambda => .done <$> makeClosure context frame none operands
  | .load => .done <$> evaluateLoad context frame operands
  | .delay => .done <$> evaluateDelay frame operands
  | .and => .done <$> evaluateAnd context frame operands
  | .or => .done <$> evaluateOr context frame operands
  | .quote => .done <$> evaluateQuote context operands

end Machine

end SmallScheme
