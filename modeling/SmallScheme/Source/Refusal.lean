import SmallScheme.Text.Quoted
/-!
# Refusals

The reasons for which a file system refuses to look at a path, with the numbers and words that it
has for them.
-/

namespace SmallScheme

inductive Refusal where
  | missing | inputOutput | permission | notDirectory | isDirectory | nameTooLong
  deriving DecidableEq, Repr

namespace Refusal

def code : Refusal → Nat
  | missing => 2
  | inputOutput => 5
  | permission => 13
  | notDirectory => 20
  | isDirectory => 21
  | nameTooLong => 36

def reason : Refusal → String
  | missing => "No such file or directory"
  | inputOutput => "Input/output error"
  | permission => "Permission denied"
  | notDirectory => "Not a directory"
  | isDirectory => "Is a directory"
  | nameTooLong => "File name too long"

def message (refusal : Refusal) (path : String) : String :=
  "[Errno " ++ toString refusal.code ++ "] " ++ refusal.reason ++ ": " ++ quotedText path

end Refusal

end SmallScheme
