import SmallScheme.Proofs.Reader.OpenForms
/-!
# Token streams are queues

A token stream is the queue of the tokens that have not been taken, whatever has been scanned of
them already. To look at a token takes none, to take one takes the first, and to read a form takes
the fewest tokens that settle whether there is one, or all of them if they do not. A form that nests
too deep may be given up, and the rest of a text that is scanned on demand with it.
-/

namespace SmallScheme

/-! ### Queues -/

/-- The tokens that have not been taken, and the fault that scanning meets behind them, if any. -/
structure TokenQueue where
  tokens : List Token
  ending : Option Fault
  /-- The tokens come from a text that is scanned only as far as it is asked for. -/
  isLazy : Bool

namespace TokenQueue

def ofText (text : String) : TokenQueue where
  tokens := (tokenize text.toList 0).1
  ending := (tokenize text.toList 0).2.map fun (place, char) => .unexpectedChar place char
  isLazy := true

def ofTokens (tokens : List Token) : TokenQueue := { tokens, ending := none, isLazy := false }

/-- Nothing is left, and no fault either. -/
def exhausted (queue : TokenQueue) : TokenQueue := { queue with tokens := [], ending := none }

/-- What one finds who looks at the first token, or takes it. -/
def first (queue : TokenQueue) : Except Fault (Option Token) :=
  match queue.tokens, queue.ending with
  | token :: _, _ => .ok (some token)
  | [], none => .ok none
  | [], some fault => .error fault

/-- A fault behind the last token is met once. -/
def afterLook (queue : TokenQueue) : TokenQueue :=
  if queue.tokens = [] then queue.exhausted else queue

def afterTaking (queue : TokenQueue) : TokenQueue :=
  { queue.afterLook with tokens := queue.tokens.tail }

/-- The fault of a form that is not complete at the end of the queue. -/
inductive FailsAtEnd (queue : TokenQueue) : Fault → Prop where
  | unscannable (fault : Fault) (hending : queue.ending = some fault) : FailsAtEnd queue fault
  | afterQuote (hending : queue.ending = none) (hquote : EndsWithQuote queue.tokens) :
    FailsAtEnd queue .endAfterQuote
  | unclosed (hending : queue.ending = none) (htokens : queue.tokens ≠ [])
    (hquote : ¬ EndsWithQuote queue.tokens) : FailsAtEnd queue .unclosedList

/-- To read a form from the queue has the outcome, takes the tokens and leaves a queue behind. It is
open where reading is given up: after the beginning of a form and one more token at most, and the
rest of a text may be taken too, with the fault behind it. -/
inductive TakesForm (queue : TokenQueue) :
    Except Interrupt (Option Datum) → List Token → TokenQueue → Prop where
  | settled (removed rest : List Token) (outcome : Except Interrupt Datum)
    (htokens : queue.tokens = removed ++ rest) (hsettles : Settles removed)
    (hverdict : Verdict removed outcome) :
    TakesForm queue (outcome.map some) removed { queue with tokens := rest }
  | finished (htokens : queue.tokens = []) (hending : queue.ending = none) :
    TakesForm queue (.ok none) [] queue.exhausted
  | unfinished (fault : Fault) (hopen : IsOpen queue.tokens) (hfault : queue.FailsAtEnd fault) :
    TakesForm queue (.error (.fault fault)) queue.tokens queue.exhausted
  | tooDeep (removed rest : List Token) (htokens : queue.tokens = removed ++ rest)
    (hne : removed ≠ []) (hopen : IsOpen removed.dropLast) :
    TakesForm queue (.error .tooDeep) removed { queue with tokens := rest }
  | abandoned (hlazy : queue.isLazy = true) (hne : queue.tokens ≠ []) :
    TakesForm queue (.error .tooDeep) queue.tokens queue.exhausted

end TokenQueue

/-! ### The queue of a stream -/

/-- The stream holds the tokens of the queue, with one of them looked at in advance or none. -/
structure TokenStream.Shows (stream : TokenStream) (queue : TokenQueue) : Prop where
  tokens : ∃ waiting, stream.feed.Gives waiting queue.ending ∧
    queue.tokens = stream.buffer ++ waiting
  length_buffer : stream.buffer.length ≤ 1
  abandon : stream.feed.abandon = if queue.isLazy then .finished else stream.feed

namespace Feed

variable {feed rest : Feed} {queue : TokenQueue} {isLazy : Bool}

theorem gives_finished : finished.Gives [] none := .finished rfl

theorem eq_finished_of_pull_none (hpull : feed.pull = (.ok none, rest)) : rest = finished := by
  unfold pull at hpull
  split at hpull
  · cases hpull
    rfl
  · cases hpull
  · split at hpull <;> cases hpull
    rfl

theorem eq_finished_of_pull_error {fault : Fault} (hpull : feed.pull = (.error fault, rest)) :
    rest = finished := by
  unfold pull at hpull
  split at hpull
  · cases hpull
  · cases hpull
  · split at hpull <;> cases hpull
    rfl

/-- A feed is pulled as its queue is taken from. -/
theorem Gives.pull (hgives : feed.Gives queue.tokens queue.ending) :
    feed.pull.1 = queue.first ∧
      feed.pull.2.Gives queue.afterTaking.tokens queue.afterTaking.ending := by
  obtain ⟨tokens, ending, isLazy⟩ := queue
  cases hgives with
  | finished hpull =>
    rw [hpull, eq_finished_of_pull_none hpull]
    exact ⟨rfl, gives_finished⟩
  | failed hpull =>
    rw [hpull, eq_finished_of_pull_error hpull]
    exact ⟨rfl, gives_finished⟩
  | token hpull hrest =>
    rw [hpull]
    exact ⟨rfl, hrest⟩

/-- What is given up does not change. -/
theorem abandon_pull (habandon : feed.abandon = if isLazy then finished else feed) :
    feed.pull.2.abandon = if isLazy then finished else feed.pull.2 := by
  cases isLazy with
  | false =>
    cases feed with
    | queue tokens => cases tokens <;> rfl
    | source text position => cases habandon
  | true =>
    cases feed with
    | queue tokens =>
      cases tokens with
      | nil => rfl
      | cons token rest => cases habandon
    | source text position =>
      rw [Feed.pull]
      split <;> rfl

end Feed

namespace TokenQueue

variable {queue : TokenQueue}

theorem afterLook_of_cons {token : Token} {rest : List Token}
    (htokens : queue.tokens = token :: rest) : queue.afterLook = queue :=
  if_neg (htokens ▸ List.cons_ne_nil token rest)

theorem afterLook_of_nil (htokens : queue.tokens = []) : queue.afterLook = queue.exhausted :=
  if_pos htokens

theorem first_of_cons {token : Token} {rest : List Token}
    (htokens : queue.tokens = token :: rest) : queue.first = .ok (some token) := by
  rw [first, htokens]

theorem afterTaking_of_cons {token : Token} {rest : List Token}
    (htokens : queue.tokens = token :: rest) :
    queue.afterTaking = { queue with tokens := rest } := by
  rw [afterTaking, afterLook_of_cons htokens, htokens, List.tail_cons]

theorem afterTaking_of_nil (htokens : queue.tokens = []) : queue.afterTaking = queue.exhausted := by
  rw [afterTaking, afterLook, if_pos htokens, htokens]
  rfl

@[simp]
theorem isLazy_afterTaking : queue.afterTaking.isLazy = queue.isLazy := by
  rw [afterTaking, afterLook]
  split <;> rfl

end TokenQueue

namespace TokenStream

variable {limit : Nat} {stream : TokenStream} {queue : TokenQueue}

theorem shows_ofText (text : String) : (ofText text).Shows (.ofText text) :=
  ⟨⟨_, Feed.gives_source text.toList 0, rfl⟩, Nat.zero_le 1, rfl⟩

theorem shows_ofTokens (tokens : List Token) : (ofTokens tokens).Shows (.ofTokens tokens) :=
  ⟨⟨_, Feed.gives_queue tokens, rfl⟩, Nat.zero_le 1, rfl⟩

/-- The queue of a stream in which no token was looked at in advance. -/
theorem shows_of_gives {feed : Feed} (hgives : feed.Gives queue.tokens queue.ending)
    (habandon : feed.abandon = if queue.isLazy then .finished else feed) :
    Shows { feed, buffer := [] } queue :=
  ⟨⟨queue.tokens, hgives, rfl⟩, Nat.zero_le 1, habandon⟩

/-- Nothing is in the buffer behind the one token that was looked at in advance. -/
theorem tail_eq_nil {token : Token} {rest : List Token} (hbuffer : stream.buffer = token :: rest)
    (hlength : stream.buffer.length ≤ 1) : rest = [] := by
  rw [hbuffer, List.length_cons] at hlength
  exact List.length_eq_zero_iff.1 (Nat.le_zero.1 (Nat.le_of_succ_le_succ hlength))

/-- To take a token leaves none in the buffer. -/
theorem buffer_advance (hlength : stream.buffer.length ≤ 1) : stream.advance.2.buffer = [] := by
  unfold TokenStream.advance
  split
  · next hbuffer => exact tail_eq_nil hbuffer hlength
  · next hbuffer => exact hbuffer

/-- To look at a token puts one into the buffer if there is none. -/
theorem length_buffer_peek (hlength : stream.buffer.length ≤ 1) :
    stream.peek.2.buffer.length ≤ 1 := by
  unfold TokenStream.peek
  split
  · exact hlength
  · next hbuffer =>
    split
    · rw [hbuffer, List.nil_append, List.length_singleton]
    · exact hlength

theorem Shows.advance (hshows : stream.Shows queue) :
    stream.advance.1 = queue.first ∧ stream.advance.2.Shows queue.afterTaking := by
  obtain ⟨⟨waiting, hgives, htokens⟩, hlength, habandon⟩ := hshows
  have hafter : stream.advance.2.buffer.length ≤ 1 :=
    (congrArg List.length (buffer_advance hlength)).trans_le (Nat.zero_le 1)
  cases hbuffer : stream.buffer with
  | cons token rest =>
    rw [hbuffer, List.cons_append] at htokens
    rw [TokenStream.advance, hbuffer] at hafter
    rw [TokenStream.advance, hbuffer, TokenQueue.first_of_cons htokens,
      TokenQueue.afterTaking_of_cons htokens]
    exact ⟨rfl, ⟨waiting, hgives, rfl⟩, hafter, habandon⟩
  | nil =>
    rw [hbuffer, List.nil_append] at htokens
    rw [← htokens] at hgives
    rw [TokenStream.advance, hbuffer]
    refine ⟨hgives.pull.1, shows_of_gives hgives.pull.2 ?_⟩
    rw [TokenQueue.isLazy_afterTaking]
    exact Feed.abandon_pull habandon

theorem Shows.peek (hshows : stream.Shows queue) :
    stream.peek.1 = queue.first ∧ stream.peek.2.Shows queue.afterLook := by
  have hafter := length_buffer_peek hshows.length_buffer
  obtain ⟨⟨waiting, hgives, hwaiting⟩, hlength, habandon⟩ := hshows
  cases hbuffer : stream.buffer with
  | cons token rest =>
    have htokens : queue.tokens = token :: (rest ++ waiting) := by rw [hwaiting, hbuffer]; rfl
    rw [TokenStream.peek, hbuffer, TokenQueue.first_of_cons htokens,
      TokenQueue.afterLook_of_cons htokens]
    exact ⟨rfl, ⟨waiting, hgives, hwaiting⟩, hlength, habandon⟩
  | nil =>
    rw [hbuffer, List.nil_append] at hwaiting
    rw [← hwaiting] at hgives
    obtain ⟨hfirst, hrest⟩ := hgives.pull
    have hpulled := Feed.abandon_pull habandon
    rw [TokenStream.peek, hbuffer] at hafter ⊢
    rw [show stream.feed.pull = (queue.first, stream.feed.pull.2) from Prod.ext hfirst rfl]
      at hafter ⊢
    cases htokens : queue.tokens with
    | cons token rest =>
      rw [TokenQueue.first_of_cons htokens] at hafter
      rw [TokenQueue.afterTaking_of_cons htokens] at hrest
      rw [TokenQueue.first_of_cons htokens, TokenQueue.afterLook_of_cons htokens]
      exact ⟨rfl, ⟨rest, hrest, htokens⟩, hafter, hpulled⟩
    | nil =>
      rw [TokenQueue.afterTaking_of_nil htokens] at hrest
      rw [TokenQueue.afterLook_of_nil htokens, TokenQueue.first, htokens]
      cases queue.ending with
      | none => exact ⟨rfl, shows_of_gives hrest hpulled⟩
      | some fault => exact ⟨rfl, shows_of_gives hrest hpulled⟩

/-- What reading comes to and the stream that it leaves are as the queue has them, and it is given
up only if the tokens nest too deep. -/
def Reads (limit : Nat) (queue : TokenQueue)
    (read : Except Interrupt (Option Datum) × TokenStream) : Prop :=
  ∃ removed after, queue.TakesForm read.1 removed after ∧ read.2.Shows after ∧
    (read.1 = .error .tooDeep → NestsTooDeep limit queue.tokens)

theorem Reads.ok {found : Option Datum} {removed : List Token} {after : TokenQueue}
    (htakes : queue.TakesForm (.ok found) removed after) (hshows : stream.Shows after) :
    Reads limit queue (.ok found, stream) :=
  ⟨removed, after, htakes, hshows, by rintro ⟨⟩⟩

theorem Reads.fault {fault : Fault} {removed : List Token} {after : TokenQueue}
    (htakes : queue.TakesForm (.error (.fault fault)) removed after) (hshows : stream.Shows after) :
    Reads limit queue (.error (.fault fault), stream) :=
  ⟨removed, after, htakes, hshows, by rintro ⟨⟩⟩

/-- A form is given up where a list or a quote starts inside of as many beginnings as the limit. -/
theorem Reads.tooDeep {opened : List Beginning} {token : Token} {rest : List Token}
    (hshows : stream.Shows { queue with tokens := rest }) (hbuffer : stream.buffer = [])
    (htokens : queue.tokens = (Beginning.tokensOfAll opened ++ [token]) ++ rest)
    (hstart : token.kind = .quote ∨ token.kind = .openList) (hdeep : limit ≤ opened.length) :
    Reads limit queue (.error .tooDeep, stream.afterFailure .tooDeep) := by
  have hnests : NestsTooDeep limit queue.tokens :=
    ⟨[], opened, token, rest, htokens.trans (List.append_assoc ..), hstart, hdeep⟩
  have hne : Beginning.tokensOfAll opened ++ [token] ≠ [] :=
    List.append_ne_nil_of_right_ne_nil _ (List.cons_ne_nil token [])
  have habandon := hshows.abandon
  rw [TokenStream.afterFailure, habandon]
  by_cases hlazy : queue.isLazy
  · rw [if_pos hlazy]
    refine ⟨_, _, .abandoned hlazy ?_, ⟨⟨[], Feed.gives_finished, congrArg (· ++ []) hbuffer.symm⟩,
      hshows.length_buffer, (if_pos hlazy).symm⟩, fun _ => hnests⟩
    exact htokens ▸ List.append_ne_nil_of_left_ne_nil hne rest
  · rw [if_neg hlazy]
    refine ⟨_, _, .tooDeep _ rest htokens hne ?_, hshows, fun _ => hnests⟩
    rw [List.dropLast_concat]
    exact isOpen_tokensOfAll opened

theorem readInside_of_error {rest : TokenStream} {fault : Fault}
    (hadvance : stream.advance = (.error fault, rest)) (enclosures : List Enclosure) :
    stream.readInside limit enclosures = (.error (.fault fault), rest) := by
  rw [readInside, hadvance]

theorem readInside_of_none {rest : TokenStream} (hadvance : stream.advance = (.ok none, rest))
    (enclosures : List Enclosure) :
    stream.readInside limit enclosures =
      (match Enclosure.faultAtEnd? enclosures with
        | none => .ok none
        | some fault => .error (.fault fault), rest) := by
  rw [readInside, hadvance]
  cases Enclosure.faultAtEnd? enclosures <;> rfl

/-- At the end of the queue, a form is complete or it never will be. -/
theorem Shows.reads_of_nil {opened : List Beginning}
    (hshows : stream.Shows { queue with tokens := [] })
    (htokens : queue.tokens = Beginning.tokensOfAll opened) :
    Reads limit queue (stream.readInside limit (opened.map Beginning.enclosure)) := by
  have hopen : IsOpen queue.tokens := htokens ▸ isOpen_tokensOfAll opened
  obtain ⟨hfirst, hafter⟩ := hshows.advance
  replace hafter : stream.advance.2.Shows queue.exhausted := hafter
  cases hending : queue.ending with
  | some fault =>
    rw [TokenQueue.first, hending] at hfirst
    rw [readInside_of_error (Prod.ext hfirst rfl)]
    exact .fault (.unfinished fault hopen (.unscannable fault hending)) hafter
  | none =>
    rw [TokenQueue.first, hending] at hfirst
    rw [readInside_of_none (Prod.ext hfirst rfl)]
    match opened with
    | [] => exact .ok (.finished htokens hending) hafter
    | .quote mark :: outer =>
      have hquote : EndsWithQuote queue.tokens :=
        htokens ▸ Beginning.endsWithQuote_tokensOfAll [] mark outer
      exact .fault (.unfinished .endAfterQuote hopen (.afterQuote hending hquote)) hafter
    | .list opening forms :: outer =>
      have hne : queue.tokens ≠ [] := by
        rw [htokens]
        exact List.append_ne_nil_of_right_ne_nil _ (List.cons_ne_nil _ _)
      have hquote : ¬ EndsWithQuote queue.tokens :=
        htokens ▸ Beginning.not_endsWithQuote_list opening forms outer
      exact .fault (.unfinished .unclosedList hopen (.unclosed hending hne hquote)) hafter

/-- To read a form from a stream is to read it from the queue, also from inside of beginnings that
were taken already. -/
theorem Shows.reads {rest : List Token} {opened : List Beginning}
    (hshows : stream.Shows { queue with tokens := rest })
    (htokens : queue.tokens = Beginning.tokensOfAll opened ++ rest) :
    Reads limit queue (stream.readInside limit (opened.map Beginning.enclosure)) := by
  induction rest generalizing stream opened with
  | nil => exact hshows.reads_of_nil (htokens.trans (List.append_nil _))
  | cons token rest ih =>
    obtain ⟨hfirst, hafter⟩ := hshows.advance
    rw [TokenQueue.first_of_cons rfl] at hfirst
    rw [TokenQueue.afterTaking_of_cons rfl] at hafter
    rw [readInside_of_advance (Prod.ext hfirst rfl)]
    have hsplit : queue.tokens = (Beginning.tokensOfAll opened ++ [token]) ++ rest := by
      rw [htokens, List.append_assoc, List.singleton_append]
    have hmeets := Beginning.meets limit opened token
    generalize ReadStep.ofToken limit (opened.map Beginning.enclosure) token = step at hmeets
    cases hmeets with
    | goesOn still hstill => exact ih hafter (hstill ▸ hsplit)
    | complete datum hsettles hverdict =>
      exact .ok (.settled _ rest (.ok datum) hsplit hsettles hverdict) hafter
    | refused fault hsettles hverdict =>
      exact .fault (.settled _ rest (.error (.fault fault)) hsplit hsettles hverdict) hafter
    | tooDeep hstart hdeep =>
      exact .tooDeep hafter (buffer_advance hshows.length_buffer) hsplit hstart hdeep

theorem Shows.readForm (hshows : stream.Shows queue) (limit : Nat) :
    Reads limit queue (stream.readForm limit) := by
  have hnone : queue.tokens = Beginning.tokensOfAll [] ++ queue.tokens := rfl
  exact hshows.reads hnone

end TokenStream

/-! ### What is taken -/

namespace TokenQueue

variable {queue after : TokenQueue} {removed : List Token}
  {outcome : Except Interrupt (Option Datum)}

theorem FailsAtEnd.unique {fault other : Fault} (hfault : queue.FailsAtEnd fault)
    (hother : queue.FailsAtEnd other) : fault = other := by
  cases hfault with
  | unscannable _ hending =>
    cases hother with
    | unscannable _ hother => exact Option.some_inj.1 (hending.symm.trans hother)
    | afterQuote hother => cases hending.symm.trans hother
    | unclosed hother => cases hending.symm.trans hother
  | afterQuote hending hquote =>
    cases hother with
    | unscannable _ hother => cases hending.symm.trans hother
    | afterQuote => rfl
    | unclosed _ _ hother => exact absurd hquote hother
  | unclosed hending htokens hquote =>
    cases hother with
    | unscannable _ hother => cases hending.symm.trans hother
    | afterQuote _ hother => exact absurd hother hquote
    | unclosed => rfl

theorem not_failsAtEnd_of_finished {fault : Fault} (htokens : queue.tokens = [])
    (hending : queue.ending = none) : ¬ queue.FailsAtEnd fault := by
  intro hfault
  cases hfault with
  | unscannable _ hother => cases hending.symm.trans hother
  | afterQuote _ hquote =>
    obtain ⟨front, mark, hother⟩ := hquote
    exact List.append_ne_nil_of_right_ne_nil front (List.cons_ne_nil _ _)
      (hother.symm.trans htokens)
  | unclosed _ hother => exact hother htokens

/-- No form is read only if there are no tokens. -/
theorem TakesForm.tokens_eq_nil (htakes : queue.TakesForm (.ok none) removed after) :
    queue.tokens = [] := by
  generalize hnone : Except.ok none = outcome at htakes
  cases htakes with
  | settled removed rest outcome => cases outcome <;> cases hnone
  | finished htokens => exact htokens
  | _ => cases hnone

/-- There is one thing that reading a form can come to, unless it is given up. -/
theorem TakesForm.unique {other : Except Interrupt (Option Datum)} {others : List Token}
    {remainder : TokenQueue} (htakes : queue.TakesForm outcome removed after)
    (hother : queue.TakesForm other others remainder) :
    outcome = .error .tooDeep ∨ other = .error .tooDeep ∨
      outcome = other ∧ removed = others ∧ after = remainder := by
  have hends : ∀ {front rest}, queue.tokens = front ++ rest → Settles front →
      queue.tokens ≠ [] ∧ ¬ IsOpen queue.tokens := by
    rintro front rest htokens hsettles
    rw [htokens]
    exact ⟨List.append_ne_nil_of_left_ne_nil hsettles.ne_nil rest, hsettles.not_isOpen rest⟩
  cases htakes with
  | settled _ rest verdict htokens hsettles hverdict =>
    obtain ⟨hne, hstops⟩ := hends htokens hsettles
    cases hother with
    | settled _ rest' verdict' htokens' hsettles' hverdict' =>
      obtain ⟨rfl, rfl⟩ := hsettles.eq_of_append hsettles' (htokens.symm.trans htokens')
      cases hverdict.unique hverdict'
      exact .inr (.inr ⟨rfl, rfl, rfl⟩)
    | finished hnil => exact absurd hnil hne
    | unfinished _ hopen => exact absurd hopen hstops
    | tooDeep | abandoned => exact .inr (.inl rfl)
  | finished hnil hending =>
    cases hother with
    | settled _ _ _ htokens hsettles => exact absurd hnil (hends htokens hsettles).1
    | finished => exact .inr (.inr ⟨rfl, rfl, rfl⟩)
    | unfinished _ _ hfault => exact absurd hfault (not_failsAtEnd_of_finished hnil hending)
    | tooDeep | abandoned => exact .inr (.inl rfl)
  | unfinished fault hopen hfault =>
    cases hother with
    | settled _ _ _ htokens hsettles => exact absurd hopen (hends htokens hsettles).2
    | finished hnil hending => exact absurd hfault (not_failsAtEnd_of_finished hnil hending)
    | unfinished _ _ hfault' =>
      cases hfault.unique hfault'
      exact .inr (.inr ⟨rfl, rfl, rfl⟩)
    | tooDeep | abandoned => exact .inr (.inl rfl)
  | tooDeep | abandoned => exact .inl rfl

/-- Only one form is at the front of the queue, and it is what is read. -/
theorem takesForm_some_iff {datum : Datum} :
    queue.TakesForm (.ok (some datum)) removed after ↔
      ∃ (form : Derivation) (rest : List Token), queue.tokens = form.tokens ++ rest ∧
        datum = form.datum ∧ removed = form.tokens ∧ after = { queue with tokens := rest } := by
  constructor
  · intro htakes
    generalize hsome : Except.ok (some datum) = outcome at htakes
    cases htakes with
    | settled _ rest outcome htokens hsettles hverdict =>
      cases hverdict with
      | form form hform =>
        cases hsome
        exact ⟨form, rest, hform ▸ htokens, rfl, hform.symm, rfl⟩
      | refused => cases hsome
    | _ => cases hsome
  · rintro ⟨form, rest, htokens, rfl, rfl, rfl⟩
    exact .settled form.tokens rest (.ok form.datum) htokens form.settles (.form form rfl)

/-- Nothing is left, as after a failure to scan. -/
def IsExhausted (queue : TokenQueue) : Prop := queue.tokens = [] ∧ queue.ending = none

theorem isExhausted_exhausted (queue : TokenQueue) : queue.exhausted.IsExhausted := ⟨rfl, rfl⟩

theorem first_of_isExhausted (hexhausted : queue.IsExhausted) : queue.first = .ok none := by
  rw [first, hexhausted.1, hexhausted.2]

/-- All tokens are accounted for. -/
theorem TakesForm.tokens_eq (htakes : queue.TakesForm outcome removed after) :
    queue.tokens = removed ++ after.tokens := by
  cases htakes with
  | settled _ rest _ htokens => exact htokens
  | finished htokens => exact htokens
  | unfinished | abandoned => exact (List.append_nil _).symm
  | tooDeep _ rest htokens => exact htokens

theorem TakesForm.of_isExhausted (htakes : queue.TakesForm outcome removed after)
    (hexhausted : queue.IsExhausted) : outcome = .ok none ∧ after.IsExhausted := by
  have hnone : ∀ {front rest : List Token}, queue.tokens = front ++ rest → front = [] :=
    fun htokens => (List.append_eq_nil_iff.1 (htokens.symm.trans hexhausted.1)).1
  cases htakes with
  | settled _ _ _ htokens hsettles => exact absurd (hnone htokens) hsettles.ne_nil
  | finished => exact ⟨rfl, isExhausted_exhausted queue⟩
  | unfinished _ _ hfault =>
    exact absurd hfault (not_failsAtEnd_of_finished hexhausted.1 hexhausted.2)
  | tooDeep _ _ htokens hne => exact absurd (hnone htokens) hne
  | abandoned _ hne => exact absurd hexhausted.1 hne

/-- After a failure to scan, nothing is left of the tokens. -/
theorem TakesForm.isExhausted {place : Nat} {char : Char}
    (htakes : queue.TakesForm (.error (.fault (.unexpectedChar place char))) removed after) :
    after.IsExhausted := by
  generalize herror : Except.error (Interrupt.fault (.unexpectedChar place char)) = outcome
    at htakes
  cases htakes with
  | settled _ rest verdict htokens hsettles hverdict =>
    cases hverdict with
    | form => cases herror
    | refused front last fault _ hfault =>
      cases herror
      cases hfault
  | unfinished => exact isExhausted_exhausted queue
  | _ => cases herror

end TokenQueue

end SmallScheme
