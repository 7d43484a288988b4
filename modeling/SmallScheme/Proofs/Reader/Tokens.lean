import SmallScheme.Proofs.Reader.Reading
/-!
# Reading what a feed gives

Pulled again and again, a feed gives tokens and then ends, with a fault or without. The forms that
are read from it depend on these tokens and that end alone, one token after the other, whether the
feed is a list of tokens or a text that is scanned on demand.
-/

namespace SmallScheme

namespace Feed

/-- The feed gives the tokens one after the other, and then there is no more or a fault. -/
inductive Gives : Feed → List Token → Option Fault → Prop where
  | finished {feed rest : Feed} (hpull : feed.pull = (.ok none, rest)) : Gives feed [] none
  | failed {feed rest : Feed} {fault : Fault} (hpull : feed.pull = (.error fault, rest)) :
    Gives feed [] (some fault)
  | token {feed rest : Feed} {token : Token} {tokens : List Token} {ending : Option Fault}
    (hpull : feed.pull = (.ok (some token), rest)) (hrest : Gives rest tokens ending) :
    Gives feed (token :: tokens) ending

theorem gives_queue (tokens : List Token) : Gives (.queue tokens) tokens none := by
  induction tokens with
  | nil => exact .finished rfl
  | cons token rest ih => exact .token rfl ih

/-- Scanned on demand, a text gives the tokens of which it consists. -/
theorem gives_source (text : List Char) (position : Nat) :
    Gives (.source text position) (tokenize text position).1
      ((tokenize text position).2.map fun (place, char) => .unexpectedChar place char) := by
  fun_induction tokenize text position with
  | case1 text position hfirst => exact .finished (by rw [pull, hfirst])
  | case2 text position place char hfirst => exact .failed (by rw [pull, hfirst])
  | case3 text position token rest next hfirst tokens failure hrest ih =>
    rw [hrest] at ih
    exact .token (by rw [pull, hfirst]) ih

end Feed

/-! ### One token after the other -/

/-- The form that a step of reading completes, before whatever is read after it. -/
def ReadStep.before (readOn : List Enclosure → List Datum × Option Interrupt) :
    ReadStep → List Datum × Option Interrupt
  | .complete datum => (datum :: (readOn []).1, (readOn []).2)
  | .failed interrupt => ([], some interrupt)
  | .proceed enclosures => readOn enclosures

/-- Read the rest of a form inside the given enclosures and all forms after it. When the tokens are
used up there may be a fault; otherwise the form must not be open any more. -/
def readTokens (limit : Nat) (ending : Option Fault) :
    List Token → List Enclosure → List Datum × Option Interrupt
  | [], enclosures => ([], (ending.or (Enclosure.faultAtEnd? enclosures)).map .fault)
  | token :: rest, enclosures =>
    (ReadStep.ofToken limit enclosures token).before (readTokens limit ending rest)

namespace TokenStream

variable {limit : Nat}

/-- What is read from a stream after a form of which only the end is still to be read. -/
def readAllInside (limit : Nat) (enclosures : List Enclosure) (stream : TokenStream) :
    List Datum × Option Interrupt :=
  match stream.readInside limit enclosures with
  | (.ok none, _) => ([], none)
  | (.error interrupt, _) => ([], some interrupt)
  | (.ok (some datum), rest) => (datum :: (rest.readAll limit).1, (rest.readAll limit).2)

theorem readAllInside_nil (stream : TokenStream) :
    stream.readAllInside limit [] = stream.readAll limit := by
  unfold readAllInside
  split
  · next hread => exact (readAll_of_end hread).symm
  · next hread => exact (readAll_of_failure hread).symm
  · next hread => exact (readAll_of_readForm hread).symm

theorem readAllInside_of_gives {feed : Feed} {tokens : List Token} {ending : Option Fault}
    (hgives : feed.Gives tokens ending) (enclosures : List Enclosure) :
    readAllInside limit enclosures { feed, buffer := [] } =
      readTokens limit ending tokens enclosures := by
  induction hgives generalizing enclosures with
  | @finished feed rest hpull =>
    have hadvance : advance { feed, buffer := [] } =
        (.ok none, { feed := rest, buffer := [] }) := by
      rw [advance, hpull]
    rw [readAllInside, readInside, hadvance, readTokens, Option.none_or]
    cases Enclosure.faultAtEnd? enclosures <;> rfl
  | @failed feed rest fault hpull =>
    have hadvance : advance { feed, buffer := [] } =
        (.error fault, { feed := rest, buffer := [] }) := by
      rw [advance, hpull]
    rw [readAllInside, readInside, hadvance]
    rfl
  | @token feed rest token tokens ending hpull _ ih =>
    have hadvance : advance { feed, buffer := [] } =
        (.ok (some token), { feed := rest, buffer := [] }) := by
      rw [advance, hpull]
    rw [readAllInside, readInside_of_advance hadvance, readTokens]
    cases ReadStep.ofToken limit enclosures token with
    | complete datum =>
      rw [ReadStep.resume, ReadStep.before, ← ih [], readAllInside_nil]
    | failed interrupt => rfl
    | proceed enclosures => exact ih enclosures

/-- What is read from a stream is what is read from the tokens that its feed gives. -/
theorem readAll_of_gives {feed : Feed} {tokens : List Token} {ending : Option Fault}
    (hgives : feed.Gives tokens ending) :
    TokenStream.readAll limit { feed, buffer := [] } = readTokens limit ending tokens [] := by
  rw [← readAllInside_nil, readAllInside_of_gives hgives]

theorem readAll_ofTokens (tokens : List Token) :
    (ofTokens tokens).readAll limit = readTokens limit none tokens [] :=
  readAll_of_gives (Feed.gives_queue tokens)

theorem readAll_ofText (text : String) :
    (ofText text).readAll limit =
      readTokens limit
        ((tokenize text.toList 0).2.map fun (place, char) => .unexpectedChar place char)
        (tokenize text.toList 0).1 [] :=
  readAll_of_gives (Feed.gives_source text.toList 0)

end TokenStream

end SmallScheme
