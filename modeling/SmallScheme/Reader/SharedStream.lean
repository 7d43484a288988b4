import SmallScheme.Reader.TokenStream
/-!
# A token stream in use

A caller may look at the tokens of a stream, take them one by one, and take forms off it in two
ways: one at a time, or as the next one of all the forms on the stream, which a generator gives. All
four share the one stream, in any order. The generator looks for another form before it takes it.
Once it has found none, or has failed, it gives nothing more.
-/

namespace SmallScheme

inductive StreamOperation where
  | peek
  | advance
  /-- Take a form. -/
  | form
  /-- Ask the generator for its next form. -/
  | next
  deriving DecidableEq, Repr

inductive StreamAnswer where
  /-- The token, if there is one. -/
  | token (token : Option Token)
  /-- The form, if there is one. -/
  | form (form : Option Datum)
  /-- The generator has come to an end. -/
  | ended
  | failed (interrupt : Interrupt)

def StreamAnswer.ofToken : Except Fault (Option Token) → StreamAnswer
  | .ok found => token found
  | .error fault => failed (.fault fault)

def StreamAnswer.ofForm : Except Interrupt (Option Datum) → StreamAnswer
  | .ok found => form found
  | .error interrupt => failed interrupt

/-- A stream, and whether the generator of its forms has come to an end. -/
structure SharedStream where
  stream : TokenStream
  isOver : Bool

namespace SharedStream

def ofStream (stream : TokenStream) : SharedStream := { stream, isOver := false }

/-- The next form of a generator that has not come to an end yet. -/
def nextForm (limit : Nat) (stream : TokenStream) : StreamAnswer × SharedStream :=
  match stream.peek with
  | (.error fault, stream) => (.failed (.fault fault), { stream, isOver := true })
  | (.ok none, stream) => (.ended, { stream, isOver := true })
  | (.ok (some _), stream) =>
    match stream.readForm limit with
    | (.ok found, stream) => (.form found, { stream, isOver := false })
    | (.error interrupt, stream) => (.failed interrupt, { stream, isOver := true })

def perform (limit : Nat) (shared : SharedStream) :
    StreamOperation → StreamAnswer × SharedStream
  | .peek => (.ofToken shared.stream.peek.1, { shared with stream := shared.stream.peek.2 })
  | .advance =>
    (.ofToken shared.stream.advance.1, { shared with stream := shared.stream.advance.2 })
  | .form =>
    (.ofForm (shared.stream.readForm limit).1,
      { shared with stream := (shared.stream.readForm limit).2 })
  | .next => if shared.isOver then (.ended, shared) else nextForm limit shared.stream

/-- The answers to operations one after the other. -/
def run (limit : Nat) (shared : SharedStream) :
    List StreamOperation → List StreamAnswer × SharedStream
  | [] => ([], shared)
  | operation :: rest =>
    let (answer, shared) := shared.perform limit operation
    let (answers, shared) := shared.run limit rest
    (answer :: answers, shared)

end SharedStream

end SmallScheme
