import SmallScheme.Proofs.Reader.Scanning
import SmallScheme.Reader.TokenStream
/-!
# What a reader makes of a text

Every form that is read from a text is made of booleans, numbers, strings and symbols whose names
are single tokens, and of forms of such.
-/

namespace SmallScheme

/-- The text is a token that means the symbol of its name. -/
def IsIdentifier (name : String) : Prop := IsSymbolToken name ∧ Datum.ofAtom name = .symbol name

/-- The datum is a piece of syntax as it stands in a text. -/
inductive Datum.IsSyntax : Datum → Prop where
  | bool (value : Bool) : IsSyntax (.bool value)
  | num {value : Double} (hnumber : value ≠ .nan) : IsSyntax (.num value)
  | str (text : String) : IsSyntax (.str text)
  | symbol {name : String} (hname : IsIdentifier name) : IsSyntax (.symbol name)
  | form {items : List Datum} (hitems : ∀ item ∈ items, IsSyntax item) : IsSyntax (.form none items)

@[simp] theorem Datum.isSyntax_form {items : List Datum} :
    (form none items).IsSyntax ↔ ∀ item ∈ items, item.IsSyntax :=
  ⟨fun hwritten => by cases hwritten; assumption, .form⟩

theorem Datum.isSyntax_symbol {name : String} (hname : name.toList ≠ [])
    (hchars : name.toList.all Scan.isSymbolChar) (hatom : ofAtom name = .symbol name) :
    (symbol name).IsSyntax :=
  .symbol ⟨isSymbolToken_iff.2 ⟨hname, List.all_eq_true.1 hchars⟩, hatom⟩

theorem isIdentifier_keyword (form : SpecialForm) : IsIdentifier form.name := by
  refine ⟨isSymbolToken_iff.2 ?_, ?_⟩
  · cases form <;> exact ⟨by decide, List.all_eq_true.1 (by decide)⟩
  · cases form <;> rfl

theorem Decimal.toDouble_ne_nan (decimal : Decimal) : decimal.toDouble ≠ .nan := by
  have hratio : ∀ negative numerator denominator,
      Double.ofRatio negative numerator denominator ≠ .nan := by
    intro negative numerator denominator
    rw [Double.ofRatio]
    split <;> rintro ⟨⟩
  unfold Decimal.toDouble
  split
  · rintro ⟨⟩
  · split
    · rintro ⟨⟩
    · split
      · rintro ⟨⟩
      · split <;> exact hratio _ _ _

theorem Datum.isSyntax_ofAtom {text : String} (htoken : IsSymbolToken text) :
    (Datum.ofAtom text).IsSyntax := by
  have hsymbol : Datum.ofAtom text = .symbol text → (Datum.ofAtom text).IsSyntax := by
    intro heq
    rw [heq]
    exact .symbol ⟨htoken, heq⟩
  unfold Datum.ofAtom at hsymbol ⊢
  split
  · exact .bool _
  · next hboolean =>
    simp only [hboolean] at hsymbol
    split
    · exact .num (Decimal.toDouble_ne_nan _)
    · next hnumber =>
      simp only [hnumber] at hsymbol
      exact hsymbol trivial

/-! ### Forms under construction -/

/-- Everything read so far inside an enclosure is syntax. -/
def Enclosure.IsSyntax : Enclosure → Prop
  | .list reversed => ∀ datum ∈ reversed, datum.IsSyntax
  | .quote => True

/-- Everything that a step of reading keeps is syntax. -/
def ReadStep.IsSyntax : ReadStep → Prop
  | .complete datum => datum.IsSyntax
  | .proceed enclosures => ∀ enclosure ∈ enclosures, enclosure.IsSyntax
  | .failed _ => True

theorem ReadStep.isSyntax_afterDatum {datum : Datum} {enclosures : List Enclosure}
    (hdatum : datum.IsSyntax) (henclosures : ∀ enclosure ∈ enclosures, enclosure.IsSyntax) :
    (ReadStep.afterDatum datum enclosures).IsSyntax := by
  induction enclosures generalizing datum with
  | nil => exact hdatum
  | cons enclosure outer ih =>
    rw [List.forall_mem_cons] at henclosures
    cases enclosure with
    | quote =>
      refine ih (.form (List.forall_mem_cons.2 ⟨.symbol (isIdentifier_keyword .quote), ?_⟩))
        henclosures.2
      exact List.forall_mem_singleton.2 hdatum
    | list reversed =>
      exact List.forall_mem_cons.2 ⟨List.forall_mem_cons.2 ⟨hdatum, henclosures.1⟩, henclosures.2⟩

theorem ReadStep.isSyntax_enter {limit : Nat} {enclosure : Enclosure}
    {enclosures : List Enclosure} (henclosure : enclosure.IsSyntax)
    (henclosures : ∀ enclosure ∈ enclosures, enclosure.IsSyntax) :
    (ReadStep.enter limit enclosure enclosures).IsSyntax := by
  rw [ReadStep.enter]
  split
  · trivial
  · exact List.forall_mem_cons.2 ⟨henclosure, henclosures⟩

theorem ReadStep.isSyntax_ofToken {text rest : List Char} {position next : Nat} {token : Token}
    (hfirst : Scan.first text position = .token token rest next) (limit : Nat)
    {enclosures : List Enclosure} (henclosures : ∀ enclosure ∈ enclosures, enclosure.IsSyntax) :
    (ReadStep.ofToken limit enclosures token).IsSyntax := by
  obtain ⟨kind, name⟩ := token
  cases kind with
  | symbol =>
    exact isSyntax_afterDatum
      (Datum.isSyntax_ofAtom (isSymbolToken_iff.2 (Scan.isSymbolChar_of_first hfirst))) henclosures
  | string => exact isSyntax_afterDatum (.str _) henclosures
  | quote => exact isSyntax_enter trivial henclosures
  | openList => exact isSyntax_enter (fun _ hmem => absurd hmem List.not_mem_nil) henclosures
  | closeList =>
    simp only [ofToken]
    split
    · rw [List.forall_mem_cons] at henclosures
      refine isSyntax_afterDatum (.form fun item hmem => ?_) henclosures.2
      exact henclosures.1 item (List.mem_reverse.1 hmem)
    · trivial
  | other => trivial

/-! ### Streams of a text -/

namespace TokenStream

/-- The stream of the rest of a text, which starts at a position, with nothing looked at yet. -/
def ofRest (text : List Char) (position : Nat) : TokenStream :=
  { feed := .source text position, buffer := [] }

/-- The stream is what is left of a text. -/
inductive OfText : TokenStream → Prop where
  | rest (text : List Char) (position : Nat) : OfText (ofRest text position)
  | finished : OfText { feed := .finished, buffer := [] }

theorem ofText_of_advance {stream rest : TokenStream} {result : Except Fault (Option Token)}
    (hstream : stream.OfText) (hadvance : stream.advance = (result, rest)) : rest.OfText := by
  cases hstream with
  | rest text position =>
    simp only [advance, ofRest, Feed.pull] at hadvance
    split at hadvance <;> cases hadvance
    · exact .finished
    · exact .finished
    · exact .rest _ _
  | finished =>
    cases hadvance
    exact .finished

theorem first_of_advance {stream rest : TokenStream} {token : Token} (hstream : stream.OfText)
    (hadvance : stream.advance = (.ok (some token), rest)) :
    ∃ text position tail next, Scan.first text position = .token token tail next := by
  cases hstream with
  | rest text position =>
    simp only [advance, ofRest, Feed.pull] at hadvance
    split at hadvance <;> cases hadvance
    next hfirst => exact ⟨text, position, _, _, hfirst⟩
  | finished => cases hadvance

/-- A form read from a text is syntax, and what remains of the text is its rest. -/
theorem isSyntax_of_readInside {limit : Nat} {enclosures : List Enclosure}
    {stream rest : TokenStream} {datum : Datum} (hstream : stream.OfText)
    (henclosures : ∀ enclosure ∈ enclosures, enclosure.IsSyntax)
    (hread : stream.readInside limit enclosures = (.ok (some datum), rest)) :
    datum.IsSyntax ∧ rest.OfText := by
  fun_induction readInside limit enclosures stream with
  | case1 => cases hread
  | case2 => cases hread
  | case3 => cases hread
  | case4 enclosures stream token after hadvance complete hstep =>
    cases hread
    obtain ⟨text, position, tail, next, hfirst⟩ := first_of_advance hstream hadvance
    have hwritten := ReadStep.isSyntax_ofToken hfirst limit henclosures
    rw [hstep] at hwritten
    exact ⟨hwritten, ofText_of_advance hstream hadvance⟩
  | case5 => cases hread
  | case6 enclosures stream token after hadvance inner hstep ih =>
    obtain ⟨text, position, tail, next, hfirst⟩ := first_of_advance hstream hadvance
    have hwritten := ReadStep.isSyntax_ofToken hfirst limit henclosures
    rw [hstep] at hwritten
    exact ih (ofText_of_advance hstream hadvance) hwritten hread

theorem isSyntax_of_readForm {limit : Nat} {stream rest : TokenStream} {datum : Datum}
    (hstream : stream.OfText) (hread : stream.readForm limit = (.ok (some datum), rest)) :
    datum.IsSyntax ∧ rest.OfText :=
  isSyntax_of_readInside hstream (fun _ hmem => absurd hmem List.not_mem_nil) hread

theorem isSyntax_of_mem_readAll {limit : Nat} {stream : TokenStream} (hstream : stream.OfText) :
    ∀ datum ∈ (stream.readAll limit).1, datum.IsSyntax := by
  fun_induction readAll limit stream with
  | case1 => simp
  | case2 => simp
  | case3 stream datum rest hread data failure hrest ih =>
    obtain ⟨hdatum, hstream⟩ := isSyntax_of_readForm hstream hread
    rw [hrest] at ih
    exact List.forall_mem_cons.2 ⟨hdatum, ih hstream⟩

end TokenStream

theorem readAll_eq_of_readSource {limit : Nat} {text : String} {data : List Datum}
    (hread : readSource limit text = .ok data) :
    (TokenStream.ofText text).readAll limit = (data, none) := by
  rw [readSource] at hread
  split at hread <;> cases hread
  next hall => exact hall

theorem readAll_of_readSource {limit : Nat} {text : String} {data : List Datum}
    (hread : readSource limit text = .ok data) :
    ((TokenStream.ofText text).readAll limit).1 = data :=
  congrArg Prod.fst (readAll_eq_of_readSource hread)

/-- Every form of a source text is syntax. -/
theorem isSyntax_of_readSource {limit : Nat} {text : String} {data : List Datum}
    (hread : readSource limit text = .ok data) : ∀ datum ∈ data, datum.IsSyntax := by
  have hstream : (TokenStream.ofText text).OfText := .rest text.toList 0
  rw [← readAll_of_readSource hread]
  exact TokenStream.isSyntax_of_mem_readAll hstream

/-! ### Failures of reading -/

/-- The fault is one of a text and has no datum for its cause. -/
def Fault.IsOfText : Fault → Prop
  | .unexpectedChar .. | .endAfterQuote | .unclosedList | .unexpectedClose
  | .unknownToken .. => True
  | _ => False

/-- The interrupt tells that a text is faulty or nests too deep. -/
def Interrupt.IsOfText : Interrupt → Prop
  | .fault cause => cause.IsOfText
  | .tooDeep => True
  | _ => False

namespace ReadStep

variable {limit : Nat} {interrupt : Interrupt}

theorem afterDatum_ne_failed (datum : Datum) (enclosures : List Enclosure) :
    afterDatum datum enclosures ≠ .failed interrupt := by
  rw [afterDatum]
  split <;> rintro ⟨⟩

theorem eq_tooDeep_of_enter {enclosure : Enclosure} {enclosures : List Enclosure}
    (hfailed : enter limit enclosure enclosures = .failed interrupt) : interrupt = .tooDeep := by
  rw [enter] at hfailed
  split at hfailed <;> cases hfailed
  rfl

/-- A token is refused for its depth, as a parenthesis that closes no list, or for its kind. -/
theorem cases_of_failed {enclosures : List Enclosure} {token : Token}
    (hfailed : ofToken limit enclosures token = .failed interrupt) :
    interrupt = .tooDeep ∨ interrupt = .fault .unexpectedClose ∨
      ∃ name, interrupt = .fault (.unknownToken name token.text) := by
  obtain ⟨kind, text⟩ := token
  cases kind with
  | symbol => exact absurd hfailed (afterDatum_ne_failed _ _)
  | string => exact absurd hfailed (afterDatum_ne_failed _ _)
  | quote => exact .inl (eq_tooDeep_of_enter hfailed)
  | openList => exact .inl (eq_tooDeep_of_enter hfailed)
  | closeList =>
    match enclosures with
    | [] =>
      cases hfailed
      exact .inr (.inl rfl)
    | .quote :: _ =>
      cases hfailed
      exact .inr (.inl rfl)
    | .list _ :: _ => exact absurd hfailed (afterDatum_ne_failed _ _)
  | other name =>
    cases hfailed
    exact .inr (.inr ⟨name, rfl⟩)

theorem isOfText_of_failed {enclosures : List Enclosure} {token : Token}
    (hfailed : ofToken limit enclosures token = .failed interrupt) : interrupt.IsOfText := by
  rcases cases_of_failed hfailed with rfl | rfl | ⟨name, rfl⟩ <;> trivial

end ReadStep

namespace TokenStream

theorem isOfText_of_advance {stream rest : TokenStream} {fault : Fault}
    (hadvance : stream.advance = (.error fault, rest)) : fault.IsOfText := by
  unfold advance at hadvance
  split at hadvance
  · cases hadvance
  · have hpull : stream.feed.pull.1 = .error fault := congrArg Prod.fst hadvance
    unfold Feed.pull at hpull
    split at hpull
    · cases hpull
    · cases hpull
    · split at hpull <;> cases hpull
      trivial

theorem isOfText_of_readInside {limit : Nat} {enclosures : List Enclosure}
    {stream rest : TokenStream} {interrupt : Interrupt}
    (hread : stream.readInside limit enclosures = (.error interrupt, rest)) :
    interrupt.IsOfText := by
  fun_induction readInside limit enclosures stream with
  | case1 _ _ _ _ hadvance =>
    cases hread
    exact isOfText_of_advance hadvance
  | case2 => cases hread
  | case3 enclosures _ _ _ _ hend =>
    cases hread
    cases enclosures with
    | nil => cases hend
    | cons enclosure _ =>
      cases enclosure <;> cases hend <;> trivial
  | case4 => cases hread
  | case5 _ _ _ _ _ _ hfailed =>
    cases hread
    exact ReadStep.isOfText_of_failed hfailed
  | case6 _ _ _ _ _ _ _ ih => exact ih hread

theorem isOfText_of_mem_readAll {limit : Nat} {stream : TokenStream} {interrupt : Interrupt}
    (hread : (stream.readAll limit).2 = some interrupt) : interrupt.IsOfText := by
  fun_induction readAll limit stream with
  | case1 => cases hread
  | case2 _ _ _ hform =>
    cases hread
    exact isOfText_of_readInside hform
  | case3 _ _ _ _ _ _ hrest ih =>
    rw [hrest] at ih
    exact ih hread

end TokenStream

theorem isOfText_of_readSource {limit : Nat} {text : String} {interrupt : Interrupt}
    (hread : readSource limit text = .error interrupt) : interrupt.IsOfText := by
  rw [readSource] at hread
  split at hread
  · cases hread
  · next hfailure =>
    cases hread
    exact TokenStream.isOfText_of_mem_readAll (congrArg Prod.snd hfailure)

end SmallScheme
