import SmallScheme.Fault
import SmallScheme.Reader.Atom
import SmallScheme.Reader.Token
/-!
# Token streams and the forms on them

A token stream is the part of a source that has not been read: tokens waiting in a list, or text
that is scanned only as far as it is asked for, behind the tokens that were looked at in advance. A
form is read off its front by a machine that keeps the lists and quotes it is inside of on a stack.
When a form is faulty, the stream has lost exactly the tokens up to the fault; when it nests too
deep, the scan of its text is given up.

How deep a form may nest is limited by a number of levels, one for each list or quote that is open.
It stands for the stack of a host, of which a list, a quote or an atom may take more than one frame.
-/

namespace SmallScheme

inductive Feed where
  | queue (tokens : List Token)
  | source (text : List Char) (position : Nat)

namespace Feed

def finished : Feed := .queue []

/-- A bound on the number of tokens that a feed can give. -/
def size : Feed → Nat
  | .queue tokens => tokens.length
  | .source text _ => text.length

/-- What is left when the scan of a text is given up; tokens in a list stay. -/
def abandon : Feed → Feed
  | .source .. => finished
  | feed => feed

/-- Take the next token. At the end of a feed there is none, and after a failure to scan there is
none ever again. -/
def pull : Feed → Except Fault (Option Token) × Feed
  | .queue [] => (.ok none, finished)
  | .queue (token :: rest) => (.ok (some token), .queue rest)
  | .source text position =>
    match Scan.first text position with
    | .finished => (.ok none, finished)
    | .stuck failure char => (.error (.unexpectedChar failure char), finished)
    | .token token rest next => (.ok (some token), .source rest next)

theorem size_pull_lt {feed rest : Feed} {token : Token}
    (pulled : feed.pull = (.ok (some token), rest)) : rest.size < feed.size := by
  unfold pull at pulled
  split at pulled
  · simp at pulled
  · simp only [Prod.mk.injEq] at pulled
    simp [← pulled.2, size]
  · split at pulled
    · simp at pulled
    · simp at pulled
    · next scanned =>
      simp only [Prod.mk.injEq] at pulled
      simpa [← pulled.2, size] using Scan.length_lt_of_first scanned

end Feed

/-- The unread part of a source: the tokens that were looked at in advance, and what feeds it. -/
structure TokenStream where
  feed : Feed
  buffer : List Token

namespace TokenStream

def ofText (text : String) : TokenStream := { feed := .source text.toList 0, buffer := [] }

def ofTokens (tokens : List Token) : TokenStream := { feed := .queue tokens, buffer := [] }

def size (stream : TokenStream) : Nat := stream.feed.size + stream.buffer.length

/-- Look at the first token without taking it; there is none at the end. Only when none was looked
at in advance is another one put into the buffer. -/
def peek (stream : TokenStream) : Except Fault (Option Token) × TokenStream :=
  match stream.buffer with
  | token :: _ => (.ok (some token), stream)
  | [] =>
    match stream.feed.pull with
    | (.ok (some token), feed) => (.ok (some token), { feed, buffer := stream.buffer ++ [token] })
    | (found, feed) => (found, { stream with feed })

def advance (stream : TokenStream) : Except Fault (Option Token) × TokenStream :=
  match stream.buffer with
  | token :: rest => (.ok (some token), { stream with buffer := rest })
  | [] =>
    let (token, feed) := stream.feed.pull
    (token, { stream with feed })

/-- What is left of the stream after a failure. The scan of a text is given up when a form nests too
deep, though a host need not always do so: it depends on where its stack ends. -/
def afterFailure (stream : TokenStream) : Interrupt → TokenStream
  | .tooDeep => { stream with feed := stream.feed.abandon }
  | _ => stream

theorem size_advance_lt {stream rest : TokenStream} {token : Token}
    (advanced : stream.advance = (.ok (some token), rest)) : rest.size < stream.size := by
  unfold advance at advanced
  split at advanced
  · next found =>
    simp only [Prod.mk.injEq] at advanced
    simp [← advanced.2, size, found]
  · next found =>
    simp only [Prod.mk.injEq] at advanced
    have smaller := Feed.size_pull_lt (Prod.ext advanced.1 rfl)
    simpa [← advanced.2, size, found] using smaller

end TokenStream

inductive Enclosure where
  | list (reversed : List Datum)
  | quote

inductive Placement where
  | complete (datum : Datum)
  | inside (reversed : List Datum) (outer : List Enclosure)

namespace Enclosure

/-- Put a complete datum into its enclosures: a quote mark before it makes a quoted form, which is
complete in turn. -/
def place (datum : Datum) : List Enclosure → Placement
  | [] => .complete datum
  | .quote :: outer => place (.form none [.keyword .quote, datum]) outer
  | .list reversed :: outer => .inside (datum :: reversed) outer

def faultAtEnd? : List Enclosure → Option Fault
  | [] => none
  | .quote :: _ => some .endAfterQuote
  | .list _ :: _ => some .unclosedList

end Enclosure

inductive ReadStep where
  | complete (datum : Datum)
  | proceed (enclosures : List Enclosure)
  | failed (interrupt : Interrupt)

namespace ReadStep

def afterDatum (datum : Datum) (enclosures : List Enclosure) : ReadStep :=
  match Enclosure.place datum enclosures with
  | .complete datum => .complete datum
  | .inside reversed outer => .proceed (.list reversed :: outer)

/-- Go on inside one more enclosure, unless that is nested deeper than the limit. -/
def enter (limit : Nat) (enclosure : Enclosure) (enclosures : List Enclosure) : ReadStep :=
  if limit ≤ enclosures.length then .failed .tooDeep else .proceed (enclosure :: enclosures)

/-- What a token does inside of enclosures. The limit counts these alone: a symbol or a string takes
no level, though a host may make calls to read one. -/
def ofToken (limit : Nat) (enclosures : List Enclosure) (token : Token) : ReadStep :=
  match token.kind with
  | .symbol => afterDatum (.ofAtom token.text) enclosures
  | .string =>
    afterDatum (.str (String.ofList (Literal.decode token.text.toList))) enclosures
  | .quote => enter limit .quote enclosures
  | .openList => enter limit (.list []) enclosures
  | .closeList =>
    match enclosures with
    | .list reversed :: outer => afterDatum (.form none reversed.reverse) outer
    | _ => .failed (.fault .unexpectedClose)
  | .other name => .failed (.fault (.unknownToken name token.text))

end ReadStep

namespace TokenStream

/-- Read the rest of a form whose enclosures are given, nested no deeper than the limit. There is no
form at the end of the stream. -/
def readInside (limit : Nat) (enclosures : List Enclosure) (stream : TokenStream) :
    Except Interrupt (Option Datum) × TokenStream :=
  match _ : stream.advance with
  | (.error fault, rest) => (.error (.fault fault), rest)
  | (.ok none, rest) =>
    match Enclosure.faultAtEnd? enclosures with
    | none => (.ok none, rest)
    | some fault => (.error (.fault fault), rest)
  | (.ok (some token), rest) =>
    match ReadStep.ofToken limit enclosures token with
    | .complete datum => (.ok (some datum), rest)
    | .failed interrupt => (.error interrupt, rest.afterFailure interrupt)
    | .proceed enclosures => readInside limit enclosures rest
termination_by stream.size
decreasing_by exact size_advance_lt ‹_›

def readForm (limit : Nat) (stream : TokenStream) :
    Except Interrupt (Option Datum) × TokenStream :=
  stream.readInside limit []

theorem size_lt_of_readInside {limit : Nat} {enclosures : List Enclosure}
    {stream rest : TokenStream} {datum : Datum}
    (read : stream.readInside limit enclosures = (.ok (some datum), rest)) :
    rest.size < stream.size := by
  fun_induction readInside limit enclosures stream <;> grind [→ size_advance_lt]

/-- Reading a form uses up some of the stream. -/
theorem size_lt_of_readForm {limit : Nat} {stream rest : TokenStream} {datum : Datum}
    (read : stream.readForm limit = (.ok (some datum), rest)) : rest.size < stream.size :=
  size_lt_of_readInside read

/-- All forms on the stream, up to the first failure, and that failure. -/
def readAll (limit : Nat) (stream : TokenStream) : List Datum × Option Interrupt :=
  match _ : stream.readForm limit with
  | (.ok none, _) => ([], none)
  | (.error interrupt, _) => ([], some interrupt)
  | (.ok (some datum), rest) =>
    let (data, failure) := rest.readAll limit
    (datum :: data, failure)
termination_by stream.size
decreasing_by exact size_lt_of_readForm ‹_›

end TokenStream

def readSource (limit : Nat) (text : String) : Except Interrupt (List Datum) :=
  match (TokenStream.ofText text).readAll limit with
  | (data, none) => .ok data
  | (_, some interrupt) => .error interrupt

end SmallScheme
