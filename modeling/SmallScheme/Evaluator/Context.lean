import SmallScheme.Machine
import SmallScheme.Settings
import SmallScheme.Source.FileSystem
/-!
# The surroundings of an evaluation step

One step of an evaluation may look at the settings and the files of its host, may nest only so deep,
and evaluates the expressions inside its own through a function that it is given. It ends with a
value or with the expression whose value is its value too, and which therefore needs no nesting.
-/

namespace SmallScheme

structure Host where
  settings : Settings
  files : FileSystem

structure Context where
  host : Host
  /-- How many levels deep an expression inside the step's own may nest. -/
  limit : Nat
  /-- The evaluation of an expression inside the step's own. -/
  evaluate : Datum → FrameId → Machine Datum

inductive Step where
  | done (value : Datum)
  /-- The value is that of another expression, in its frame. -/
  | proceed (expression : Datum) (frame : FrameId)

end SmallScheme
