import SmallScheme.Source.Path
import SmallScheme.Text.Blank
import SmallScheme.Text.Uppercase
/-!
# Settings

What the environment of the process decides: where sources are searched, the extension they have,
and which log records are shown. An unset and an empty variable both leave the default.
-/

namespace SmallScheme

structure Variables where
  loadPath : Option String
  extension : Option String
  logLevel : Option String

structure Settings where
  loadPath : List Path
  extension : String
  logLevel : String

namespace Settings

def value? (setting : Option String) : Option String := setting.filter fun text => !text.isEmpty

/-- The directories listed in a text between colons, blanks around them and empty ones dropped. -/
def directories (text : String) : List Path :=
  let listed := (Path.pieces ':' text.toList).map trimBlank
  (listed.filter fun piece => !piece.isEmpty).map fun piece => Path.ofText (String.ofList piece)

/-- An extension with its dot, which may be left out. -/
def dotted (extension : String) : String :=
  if extension.toList.head? = some '.' then extension else "." ++ extension

def ofVariables (given : Variables) : Settings where
  loadPath :=
    match value? given.loadPath with
    | some text => directories text
    | none => [Path.ofText "."]
  extension := dotted ((value? given.extension).getD ".scm")
  logLevel := upperCase ((value? given.logLevel).getD "WARNING")

end Settings

end SmallScheme
