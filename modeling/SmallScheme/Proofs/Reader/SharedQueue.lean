import SmallScheme.Proofs.Reader.Queue
import SmallScheme.Reader.SharedStream
/-!
# Token streams in use

Whatever is asked of a token stream, and in whatever order, is answered as by the queue of its
tokens. So every token is taken once and in its place. What a form takes that is given up, because
it nests too deep for the limit, is left open: it may be the rest of a text. After a failure to
scan, there are no tokens any more, and after its end or a failure, the generator gives no more
forms.
-/

namespace SmallScheme

/-! ### Queues in use -/

/-- A queue that is used as a stream is. -/
structure SharedQueue where
  queue : TokenQueue
  isOver : Bool

namespace SharedQueue

/-- What the generator gives for the next form. -/
def ofNext : Except Interrupt (Option Datum) → StreamAnswer
  | .ok (some datum) => .form (some datum)
  | .ok none => .ended
  | .error interrupt => .failed interrupt

/-- The generator comes to an end when it finds no form or fails. -/
def isLast : Except Interrupt (Option Datum) → Bool
  | .ok (some _) => false
  | _ => true

/-- An operation is answered, takes the tokens and leaves a queue behind. -/
inductive Step (shared : SharedQueue) :
    StreamOperation → StreamAnswer → List Token → SharedQueue → Prop where
  | peek : Step shared .peek (.ofToken shared.queue.first) []
      { shared with queue := shared.queue.afterLook }
  | advance : Step shared .advance (.ofToken shared.queue.first)
      shared.queue.tokens.head?.toList { shared with queue := shared.queue.afterTaking }
  | form (outcome : Except Interrupt (Option Datum)) (removed : List Token) (after : TokenQueue)
    (htakes : shared.queue.TakesForm outcome removed after) :
    Step shared .form (.ofForm outcome) removed { shared with queue := after }
  | next (outcome : Except Interrupt (Option Datum)) (removed : List Token) (after : TokenQueue)
    (hover : shared.isOver = false) (htakes : shared.queue.TakesForm outcome removed after) :
    Step shared .next (ofNext outcome) removed { queue := after, isOver := isLast outcome }
  | afterEnd (hover : shared.isOver = true) : Step shared .next .ended [] shared

/-- Operations one after the other, and all tokens that they take. -/
inductive Runs : SharedQueue → List StreamOperation → List StreamAnswer →
    List Token → SharedQueue → Prop where
  | nil (shared : SharedQueue) : Runs shared [] [] [] shared
  | cons {shared between final : SharedQueue} {operation : StreamOperation}
    {operations : List StreamOperation} {answer : StreamAnswer} {answers : List StreamAnswer}
    {removed others : List Token} (hstep : Step shared operation answer removed between)
    (hruns : Runs between operations answers others final) :
    Runs shared (operation :: operations) (answer :: answers) (removed ++ others) final

variable {shared after final : SharedQueue} {operation : StreamOperation}
  {operations : List StreamOperation} {answer : StreamAnswer} {answers : List StreamAnswer}
  {removed : List Token}

/-- There is one thing that an operation can come to, unless it is given up. -/
theorem Step.unique {other : StreamAnswer} {others : List Token} {remainder : SharedQueue}
    (hstep : Step shared operation answer removed after)
    (hother : Step shared operation other others remainder) :
    answer = .failed .tooDeep ∨ other = .failed .tooDeep ∨
      answer = other ∧ removed = others ∧ after = remainder := by
  cases hstep with
  | peek => cases hother; exact .inr (.inr ⟨rfl, rfl, rfl⟩)
  | advance => cases hother; exact .inr (.inr ⟨rfl, rfl, rfl⟩)
  | form _ _ _ htakes =>
    cases hother with
    | form _ _ _ htakes' =>
      obtain rfl | rfl | ⟨rfl, rfl, rfl⟩ := htakes.unique htakes'
      · exact .inl rfl
      · exact .inr (.inl rfl)
      · exact .inr (.inr ⟨rfl, rfl, rfl⟩)
  | next _ _ _ hover htakes =>
    cases hother with
    | next _ _ _ _ htakes' =>
      obtain rfl | rfl | ⟨rfl, rfl, rfl⟩ := htakes.unique htakes'
      · exact .inl rfl
      · exact .inr (.inl rfl)
      · exact .inr (.inr ⟨rfl, rfl, rfl⟩)
    | afterEnd hover' => cases hover.symm.trans hover'
  | afterEnd hover =>
    cases hother with
    | next _ _ _ hover' => cases hover.symm.trans hover'
    | afterEnd => exact .inr (.inr ⟨rfl, rfl, rfl⟩)

/-! ### Nothing is lost -/

theorem Step.tokens_eq (hstep : Step shared operation answer removed after) :
    shared.queue.tokens = removed ++ after.queue.tokens := by
  cases hstep with
  | peek =>
    rw [TokenQueue.afterLook]
    split
    · next htokens => exact htokens
    · rfl
  | advance =>
    rw [TokenQueue.afterTaking]
    cases shared.queue.tokens <;> rfl
  | form _ _ _ htakes => exact htakes.tokens_eq
  | next _ _ _ _ htakes => exact htakes.tokens_eq
  | afterEnd => rfl

/-- The tokens that are taken and then those that are left are all tokens in their order. -/
theorem Runs.tokens_eq (hruns : Runs shared operations answers removed final) :
    shared.queue.tokens = removed ++ final.queue.tokens := by
  induction hruns with
  | nil => rfl
  | cons hstep _ ih => rw [hstep.tokens_eq, ih, List.append_assoc]

/-! ### After the end -/

/-- The answer says that there is nothing more. -/
inductive IsEnd : StreamAnswer → Prop where
  | token : IsEnd (.token none)
  | form : IsEnd (.form none)
  | ended : IsEnd .ended

theorem Step.of_isExhausted (hstep : Step shared operation answer removed after)
    (hexhausted : shared.queue.IsExhausted) : IsEnd answer ∧ after.queue.IsExhausted := by
  cases hstep with
  | peek =>
    rw [TokenQueue.first_of_isExhausted hexhausted, TokenQueue.afterLook_of_nil hexhausted.1]
    exact ⟨.token, TokenQueue.isExhausted_exhausted _⟩
  | advance =>
    rw [TokenQueue.first_of_isExhausted hexhausted, TokenQueue.afterTaking_of_nil hexhausted.1]
    exact ⟨.token, TokenQueue.isExhausted_exhausted _⟩
  | form _ _ _ htakes =>
    obtain ⟨rfl, hafter⟩ := htakes.of_isExhausted hexhausted
    exact ⟨.form, hafter⟩
  | next _ _ _ _ htakes =>
    obtain ⟨rfl, hafter⟩ := htakes.of_isExhausted hexhausted
    exact ⟨.ended, hafter⟩
  | afterEnd => exact ⟨.ended, hexhausted⟩

theorem Runs.isEnd_of_isExhausted (hruns : Runs shared operations answers removed final)
    (hexhausted : shared.queue.IsExhausted) : ∀ answer ∈ answers, IsEnd answer := by
  induction hruns with
  | nil => exact fun _ hmem => absurd hmem List.not_mem_nil
  | cons hstep _ ih =>
    obtain ⟨hend, hbetween⟩ := hstep.of_isExhausted hexhausted
    exact List.forall_mem_cons.2 ⟨hend, ih hbetween⟩

theorem Step.isExhausted {place : Nat} {char : Char}
    (hstep : Step shared operation (.failed (.fault (.unexpectedChar place char))) removed after) :
    after.queue.IsExhausted := by
  have hlook : ∀ {queue : TokenQueue},
      .failed (.fault (.unexpectedChar place char)) = StreamAnswer.ofToken queue.first →
        queue.tokens = [] := by
    intro queue hanswer
    cases htokens : queue.tokens with
    | nil => rfl
    | cons token rest =>
      rw [TokenQueue.first_of_cons htokens] at hanswer
      cases hanswer
  generalize hanswer : StreamAnswer.failed (.fault (.unexpectedChar place char)) = answer at hstep
  cases hstep with
  | peek =>
    rw [TokenQueue.afterLook_of_nil (hlook hanswer)]
    exact TokenQueue.isExhausted_exhausted _
  | advance =>
    rw [TokenQueue.afterTaking_of_nil (hlook hanswer)]
    exact TokenQueue.isExhausted_exhausted _
  | form outcome _ _ htakes =>
    cases outcome with
    | ok found => cases hanswer
    | error =>
      cases hanswer
      exact htakes.isExhausted
  | next outcome _ _ _ htakes =>
    cases outcome with
    | ok found => cases found <;> cases hanswer
    | error =>
      cases hanswer
      exact htakes.isExhausted
  | afterEnd => cases hanswer

/-- After a failure to scan, there is nothing more. -/
theorem Runs.pairwise_isEnd (hruns : Runs shared operations answers removed final) :
    answers.Pairwise fun earlier later =>
      (∃ place char, earlier = .failed (.fault (.unexpectedChar place char))) → IsEnd later := by
  induction hruns with
  | nil => exact .nil
  | cons hstep hruns ih =>
    refine List.pairwise_cons.2 ⟨fun later hmem ⟨place, char, hfailed⟩ => ?_, ih⟩
    subst hfailed
    exact hruns.isEnd_of_isExhausted hstep.isExhausted later hmem

theorem Step.of_isOver (hstep : Step shared operation answer removed after)
    (hover : shared.isOver = true) :
    (operation = .next → answer = .ended) ∧ after.isOver = true := by
  cases hstep with
  | next _ _ _ hother => cases hover.symm.trans hother
  | afterEnd => exact ⟨fun _ => rfl, hover⟩
  | peek => exact ⟨StreamOperation.noConfusion, hover⟩
  | advance => exact ⟨StreamOperation.noConfusion, hover⟩
  | form => exact ⟨StreamOperation.noConfusion, hover⟩

theorem Runs.ended_of_isOver (hruns : Runs shared operations answers removed final)
    (hover : shared.isOver = true) :
    ∀ step ∈ operations.zip answers, step.1 = .next → step.2 = .ended := by
  induction hruns with
  | nil => exact fun _ hmem => absurd hmem List.not_mem_nil
  | cons hstep _ ih =>
    obtain ⟨hended, hbetween⟩ := hstep.of_isOver hover
    exact List.forall_mem_cons.2 ⟨hended, ih hbetween⟩

theorem Step.isOver (hstep : Step shared .next answer removed after)
    (hlast : answer = .ended ∨ ∃ interrupt, answer = .failed interrupt) :
    after.isOver = true := by
  cases hstep with
  | next outcome =>
    rcases outcome with interrupt | ⟨_ | datum⟩
    · rfl
    · rfl
    · rcases hlast with hended | ⟨interrupt, hfailed⟩
      · cases hended
      · cases hfailed
  | afterEnd hover => exact hover

/-- The generator gives nothing more once it has come to an end or failed. -/
theorem Runs.pairwise_next (hruns : Runs shared operations answers removed final) :
    (operations.zip answers).Pairwise fun earlier later =>
      earlier.1 = .next → (earlier.2 = .ended ∨ ∃ interrupt, earlier.2 = .failed interrupt) →
        later.1 = .next → later.2 = .ended := by
  induction hruns with
  | nil => exact .nil
  | cons hstep hruns ih =>
    refine List.pairwise_cons.2 ⟨fun later hmem hnext hlast => ?_, ih⟩
    dsimp only at hnext
    subst hnext
    exact hruns.ended_of_isOver (hstep.isOver hlast) later hmem

end SharedQueue

/-- The stream and its generator are as the queue says. -/
structure SharedStream.Shows (shared : SharedStream) (queue : SharedQueue) : Prop where
  stream : shared.stream.Shows queue.queue
  isOver : shared.isOver = queue.isOver

namespace SharedStream

variable {shared : SharedStream} {queue : SharedQueue}

/-- What an operation comes to and the stream that it leaves are as the queue has them, and it is
given up only if the tokens nest too deep. -/
def Performs (limit : Nat) (queue : SharedQueue) (operation : StreamOperation)
    (performed : StreamAnswer × SharedStream) : Prop :=
  ∃ removed after, queue.Step operation performed.1 removed after ∧ performed.2.Shows after ∧
    (performed.1 = .failed .tooDeep → NestsTooDeep limit queue.queue.tokens)

/-- To ask for the next form is to read it, also when there is none. -/
theorem performs_nextForm {stream : TokenStream} {queue : TokenQueue}
    (hshows : stream.Shows queue) (limit : Nat) :
    Performs limit { queue, isOver := false } .next (nextForm limit stream) := by
  obtain ⟨hfirst, hafter⟩ := hshows.peek
  cases htokens : queue.tokens with
  | cons token rest =>
    rw [TokenQueue.first_of_cons htokens] at hfirst
    rw [TokenQueue.afterLook_of_cons htokens] at hafter
    obtain ⟨removed, after, htakes, hafter, hdeep⟩ := hafter.readForm limit
    rw [SharedStream.nextForm, show stream.peek = (_, stream.peek.2) from Prod.ext hfirst rfl]
    dsimp only
    generalize stream.peek.2.readForm limit = read at htakes hafter hdeep
    obtain ⟨outcome, remaining⟩ := read
    cases outcome with
    | error interrupt =>
      refine ⟨_, _, .next (.error interrupt) removed after rfl htakes, ⟨hafter, rfl⟩, ?_⟩
      rintro ⟨⟩
      exact hdeep rfl
    | ok found =>
      cases found with
      | some datum =>
        exact ⟨_, _, .next (.ok (some datum)) removed after rfl htakes, ⟨hafter, rfl⟩,
          StreamAnswer.noConfusion⟩
      | none => cases htakes.tokens_eq_nil.symm.trans htokens
  | nil =>
    rw [TokenQueue.afterLook_of_nil htokens] at hafter
    cases hending : queue.ending with
    | none =>
      rw [TokenQueue.first, htokens, hending] at hfirst
      rw [SharedStream.nextForm, show stream.peek = (_, stream.peek.2) from Prod.ext hfirst rfl]
      exact ⟨_, _, .next _ _ _ rfl (.finished htokens hending), ⟨hafter, rfl⟩,
        StreamAnswer.noConfusion⟩
    | some fault =>
      have hopen : IsOpen queue.tokens := htokens ▸ isOpen_tokensOfAll []
      rw [TokenQueue.first, htokens, hending] at hfirst
      rw [SharedStream.nextForm, show stream.peek = (_, stream.peek.2) from Prod.ext hfirst rfl]
      exact ⟨_, _, .next _ _ _ rfl (.unfinished fault hopen (.unscannable fault hending)),
        ⟨hafter, rfl⟩, by rintro ⟨⟩⟩

theorem ofToken_ne_tooDeep (found : Except Fault (Option Token)) :
    StreamAnswer.ofToken found ≠ .failed .tooDeep := by
  cases found <;> rintro ⟨⟩

/-- An operation on a stream is one on its queue. -/
theorem Shows.perform (hshows : shared.Shows queue) (limit : Nat) (operation : StreamOperation) :
    Performs limit queue operation (shared.perform limit operation) := by
  obtain ⟨hstream, hover⟩ := hshows
  cases operation with
  | peek =>
    obtain ⟨hanswer, hafter⟩ := hstream.peek
    rw [SharedStream.perform, hanswer]
    exact ⟨_, _, .peek, ⟨hafter, hover⟩, fun hdeep => absurd hdeep (ofToken_ne_tooDeep _)⟩
  | advance =>
    obtain ⟨hanswer, hafter⟩ := hstream.advance
    rw [SharedStream.perform, hanswer]
    exact ⟨_, _, .advance, ⟨hafter, hover⟩, fun hdeep => absurd hdeep (ofToken_ne_tooDeep _)⟩
  | form =>
    obtain ⟨removed, after, htakes, hafter, hdeep⟩ := hstream.readForm limit
    refine ⟨_, _, .form _ removed after htakes, ⟨hafter, hover⟩, fun hanswer => hdeep ?_⟩
    rw [SharedStream.perform] at hanswer
    cases houtcome : (shared.stream.readForm limit).1 with
    | ok found =>
      rw [houtcome] at hanswer
      cases hanswer
    | error interrupt =>
      rw [houtcome] at hanswer
      cases hanswer
      rfl
  | next =>
    obtain ⟨queue, isOver⟩ := queue
    cases isOver with
    | true =>
      rw [SharedStream.perform, if_pos hover]
      exact ⟨_, _, .afterEnd rfl, ⟨hstream, hover⟩, StreamAnswer.noConfusion⟩
    | false =>
      rw [SharedStream.perform, if_neg (Bool.not_eq_true _ ▸ hover)]
      exact performs_nextForm hstream limit

/-- Operations on a stream are those on its queue. One is given up only if the tokens that are left
when it comes nest too deep. -/
theorem Shows.run (hshows : shared.Shows queue) (limit : Nat) (operations : List StreamOperation) :
    ∃ removed final, queue.Runs operations (shared.run limit operations).1 removed final ∧
      (shared.run limit operations).2.Shows final ∧
      (.failed .tooDeep ∈ (shared.run limit operations).1 →
        ∃ rest, rest <:+ queue.queue.tokens ∧ NestsTooDeep limit rest) := by
  induction operations generalizing shared queue with
  | nil => exact ⟨[], queue, .nil queue, hshows, fun hmem => absurd hmem List.not_mem_nil⟩
  | cons operation operations ih =>
    obtain ⟨removed, between, hstep, hbetween, hdeep⟩ := hshows.perform limit operation
    obtain ⟨others, final, hruns, hfinal, hdeeper⟩ := ih hbetween
    refine ⟨removed ++ others, final, .cons hstep hruns, hfinal, fun hmem => ?_⟩
    rcases List.mem_cons.1 hmem with hanswer | hmem
    · exact ⟨_, List.suffix_refl _, hdeep hanswer.symm⟩
    · obtain ⟨rest, hrest, hnests⟩ := hdeeper hmem
      exact ⟨rest, hrest.trans ⟨removed, hstep.tokens_eq.symm⟩, hnests⟩

end SharedStream

/-- What a token stream is made of. -/
inductive TokenSource where
  | text (content : String)
  | tokens (list : List Token)

namespace TokenSource

def stream : TokenSource → TokenStream
  | text content => .ofText content
  | tokens list => .ofTokens list

def queue : TokenSource → TokenQueue
  | text content => .ofText content
  | tokens list => .ofTokens list

theorem shows_queue (source : TokenSource) : source.stream.Shows source.queue := by
  cases source with
  | text content => exact TokenStream.shows_ofText content
  | tokens list => exact TokenStream.shows_ofTokens list

end TokenSource

namespace SharedStream

/-- Whatever is asked of a stream, and in whatever order, is answered as by the queue of its tokens,
and all tokens are among the ones that are taken and then those that are left, each in its place. No
more than one is ever looked at in advance. An operation on a queue has one answer, takes one list
of tokens and leaves one queue, unless a form is given up; and that a form is read means that it is
the only one that begins the queue and that it takes its tokens. After a failure to scan every
answer is that there is nothing more, and the generator gives nothing more once it has come to an
end or has failed. For every depth some number of levels is enough that no form is given up in a
source that nowhere nests deeper. -/
theorem run_ofSource :
    (∀ {shared after remainder : SharedQueue} {operation : StreamOperation}
      {answer other : StreamAnswer} {removed others : List Token},
      shared.Step operation answer removed after →
        shared.Step operation other others remainder →
          answer = .failed .tooDeep ∨ other = .failed .tooDeep ∨
            answer = other ∧ removed = others ∧ after = remainder) ∧
    (∀ (queue : TokenQueue) (datum : Datum) (taken : List Token) (after : TokenQueue),
      queue.TakesForm (.ok (some datum)) taken after ↔
        ∃ (form : Derivation) (rest : List Token), queue.tokens = form.tokens ++ rest ∧
          (∀ (other : Derivation) (remainder : List Token),
            queue.tokens = other.tokens ++ remainder → other = form) ∧
          datum = form.datum ∧ taken = form.tokens ∧ after = { queue with tokens := rest }) ∧
    ∃ levels : Nat → Nat,
      ∀ (source : TokenSource) (limit : Nat) (operations : List StreamOperation),
        let outcome := (ofStream source.stream).run limit operations
        (∃ removed final,
          SharedQueue.Runs { queue := source.queue, isOver := false } operations outcome.1 removed
            final ∧
          outcome.2.Shows final ∧ source.queue.tokens = removed ++ final.queue.tokens) ∧
        outcome.2.stream.buffer.length ≤ 1 ∧
        (outcome.1.Pairwise fun earlier later =>
          (∃ place char, earlier = .failed (.fault (.unexpectedChar place char))) →
            SharedQueue.IsEnd later) ∧
        ((operations.zip outcome.1).Pairwise fun earlier later =>
          earlier.1 = .next → (earlier.2 = .ended ∨ ∃ interrupt, earlier.2 = .failed interrupt) →
            later.1 = .next → later.2 = .ended) ∧
        ∀ depth, (∀ rest, rest <:+ source.queue.tokens → ¬ NestsTooDeep depth rest) →
          levels depth ≤ limit → .failed .tooDeep ∉ outcome.1 := by
  refine ⟨SharedQueue.Step.unique, fun queue datum taken after => ?_, id,
    fun source limit operations => ?_⟩
  · rw [TokenQueue.takesForm_some_iff]
    refine exists_congr fun form => exists_congr fun rest => and_congr_right fun htokens => ?_
    refine (and_iff_right fun other remainder hother => ?_).symm
    exact (Derivation.tokens_append_inj other form (hother.symm.trans htokens)).1
  · have hshows : (ofStream source.stream).Shows { queue := source.queue, isOver := false } :=
      ⟨source.shows_queue, rfl⟩
    obtain ⟨removed, final, hruns, hfinal, hdeep⟩ := hshows.run limit operations
    refine ⟨⟨removed, final, hruns, hfinal, hruns.tokens_eq⟩, hfinal.stream.length_buffer,
      hruns.pairwise_isEnd, hruns.pairwise_next, fun depth hshallow henough hmem => ?_⟩
    obtain ⟨rest, hrest, hnests⟩ := hdeep hmem
    exact hshallow rest hrest (hnests.mono henough)

/-! ### What may be lost -/

theorem tokenize_replicate {char : Char} {token : Token}
    (hfirst : ∀ rest position,
      Scan.first (char :: rest) position = .token token rest (position + 1))
    (count : Nat) (rest : List Char) (position : Nat) :
    tokenize (List.replicate count char ++ rest) position =
      (List.replicate count token ++ (tokenize rest (position + count)).1,
        (tokenize rest (position + count)).2) := by
  induction count generalizing position with
  | zero => rfl
  | succ count ih =>
    rw [List.replicate_succ, List.cons_append, tokenize_of_first (hfirst _ position), ih,
      List.replicate_succ, List.cons_append, Nat.add_right_comm, Nat.add_assoc]

/-- Lists one inside the other, and the innermost one is empty. -/
def nestedLists : Nat → Derivation
  | 0 => .list "(" ")" []
  | count + 1 => .list "(" ")" [nestedLists count]

theorem tokens_nestedLists (count : Nat) :
    (nestedLists count).tokens =
      List.replicate (count + 1) ⟨.openList, "("⟩ ++
        List.replicate (count + 1) ⟨.closeList, ")"⟩ := by
  induction count with
  | zero => rfl
  | succ count ih =>
    rw [nestedLists, Derivation.tokens_list, List.flatMap_singleton, ih, List.append_assoc,
      ← List.replicate_succ', ← List.cons_append, ← List.replicate_succ]

/-- A text of lists one inside the other and a symbol behind them. -/
def nestedText (count : Nat) : String :=
  String.ofList (List.replicate (count + 1) '(' ++
    (List.replicate (count + 1) ')' ++ [' ', 'a']))

theorem tokens_nestedText (count : Nat) :
    (TokenQueue.ofText (nestedText count)).tokens =
      (nestedLists count).tokens ++ [⟨.symbol, "a"⟩] := by
  have hsymbol : ∀ position, (tokenize [' ', 'a'] position).1 = [⟨.symbol, "a"⟩] := by
    intro position
    have hfirst : Scan.first [' ', 'a'] position =
        .token ⟨.symbol, "a"⟩ [] (position + 2) := rfl
    rw [tokenize_of_first hfirst, tokenize_nil]
  rw [TokenQueue.ofText, nestedText, String.toList_ofList]
  dsimp only
  rw [tokenize_replicate Scan.first_openList, tokenize_replicate Scan.first_closeList, hsymbol,
    tokens_nestedLists, List.append_assoc]

/-- Where more lists start than the limit has levels left, the scan of a text is given up. -/
theorem readInside_of_openings {limit count : Nat} {enclosures : List Enclosure}
    (hdeep : limit ≤ enclosures.length + count) (rest : List Char) (position : Nat) :
    (TokenStream.ofRest (List.replicate (count + 1) '(' ++ rest) position).readInside limit
        enclosures = (.error .tooDeep, { feed := .finished, buffer := [] }) := by
  induction count generalizing enclosures position with
  | zero =>
    rw [List.replicate_one, List.singleton_append,
      TokenStream.readInside_of_advance (TokenStream.advance_ofRest (Scan.first_openList ..))]
    have hstep : ReadStep.ofToken limit enclosures ⟨.openList, "("⟩ = .failed .tooDeep :=
      if_pos hdeep
    rw [hstep]
    rfl
  | succ count ih =>
    rw [List.replicate_succ, List.cons_append,
      TokenStream.readInside_of_advance (TokenStream.advance_ofRest (Scan.first_openList ..))]
    by_cases hfull : limit ≤ enclosures.length
    · have hstep : ReadStep.ofToken limit enclosures ⟨.openList, "("⟩ = .failed .tooDeep :=
        if_pos hfull
      rw [hstep]
      rfl
    · have hstep : ReadStep.ofToken limit enclosures ⟨.openList, "("⟩ =
          .proceed (.list [] :: enclosures) := if_neg hfull
      rw [hstep]
      refine ih ?_ _
      rw [List.length_cons]
      omega

/-- Tokens may be lost: from a text that has a symbol behind a form, the form is not read, because
it nests too deep, and then there is no symbol to look at. -/
theorem run_of_deep_lists :
    (∃ form : Derivation, (TokenQueue.ofText (nestedText 19999)).tokens =
      form.tokens ++ [⟨.symbol, "a"⟩]) ∧
    ((ofStream (.ofText (nestedText 19999))).run Interpreter.depthLimit [.form, .peek]).1 =
      [.failed .tooDeep, .token none] := by
  refine ⟨⟨nestedLists 19999, tokens_nestedText 19999⟩, ?_⟩
  have hread : (TokenStream.ofText (nestedText 19999)).readForm Interpreter.depthLimit =
      (.error .tooDeep, { feed := .finished, buffer := [] }) := by
    rw [TokenStream.ofText, nestedText, String.toList_ofList]
    exact readInside_of_openings (by decide) _ 0
  rw [run, perform, ofStream, hread]
  rfl

end SharedStream

end SmallScheme
