import Mathlib.Data.List.Forall2
import SmallScheme.Datum.Diagnostic
import SmallScheme.Proofs.Reader.Syntax
/-!
# Reading a written form

A text reads as a datum if, wherever it stands in a source and inside whatever lists, reading goes
through the text and goes on as after that datum. Symbols, literals and lists of such texts with
spaces between them read as what they show, so a source that is one such text has one form.
-/

namespace SmallScheme

namespace TokenStream

theorem advance_ofRest {text rest : List Char} {position next : Nat} {token : Token}
    (hfirst : Scan.first text position = .token token rest next) :
    (ofRest text position).advance = (.ok (some token), ofRest rest next) := by
  simp only [advance, ofRest, Feed.pull, hfirst]

theorem advance_ofRest_nil (position : Nat) :
    (ofRest [] position).advance = (.ok none, { feed := .finished, buffer := [] }) := rfl

end TokenStream

/-- Go on reading after a step. -/
def ReadStep.resume (limit : Nat) (stream : TokenStream) :
    ReadStep → Except Interrupt (Option Datum) × TokenStream
  | .complete datum => (.ok (some datum), stream)
  | .failed interrupt => (.error interrupt, stream.afterFailure interrupt)
  | .proceed enclosures => stream.readInside limit enclosures

namespace TokenStream

theorem readInside_of_advance {limit : Nat} {enclosures : List Enclosure}
    {stream rest : TokenStream} {token : Token}
    (hadvance : stream.advance = (.ok (some token), rest)) :
    stream.readInside limit enclosures =
      (ReadStep.ofToken limit enclosures token).resume limit rest := by
  rw [readInside]
  split
  · next hother => cases hother.symm.trans hadvance
  · next hother => cases hother.symm.trans hadvance
  · next hother =>
    cases hother.symm.trans hadvance
    split <;> next hstep => simp only [hstep, ReadStep.resume]

theorem readInside_ofRest {text rest : List Char} {position next : Nat} {token : Token}
    (hfirst : Scan.first text position = .token token rest next) (limit : Nat)
    (enclosures : List Enclosure) :
    (ofRest text position).readInside limit enclosures =
      (ReadStep.ofToken limit enclosures token).resume limit (ofRest rest next) :=
  readInside_of_advance (advance_ofRest hfirst)

theorem readInside_blank {char : Char} (hblank : isBlank char) (limit : Nat)
    (enclosures : List Enclosure) (rest : List Char) (position : Nat) :
    (ofRest (char :: rest) position).readInside limit enclosures =
      (ofRest rest (position + 1)).readInside limit enclosures := by
  have hadvance : (ofRest (char :: rest) position).advance =
      (ofRest rest (position + 1)).advance := by
    simp only [advance, ofRest, Feed.pull, Scan.first_blank hblank]
  rw [readInside, readInside, hadvance]

end TokenStream

open TokenStream

/-- Wherever the text stands, as long as what is written there may nest by `depth` levels more, it
is read as the datum. -/
def ReadsAs (limit depth : Nat) (text : List Char) (datum : Datum) : Prop :=
  ∀ (enclosures : List Enclosure) (rest : List Char) (position : Nat),
    enclosures.length + depth ≤ limit → Delimited rest →
      (ofRest (text ++ rest) position).readInside limit enclosures =
        (ReadStep.afterDatum datum enclosures).resume limit (ofRest rest (position + text.length))

section

variable {limit depth : Nat}

theorem ReadsAs.mono {deeper : Nat} {text : List Char} {datum : Datum}
    (hreads : ReadsAs limit depth text datum) (hle : depth ≤ deeper) :
    ReadsAs limit deeper text datum := by
  intro enclosures rest position hdeep hrest
  exact hreads enclosures rest position (by omega) hrest

theorem readsAs_symbol {name : List Char} (hne : name ≠ [])
    (hname : ∀ char ∈ name, Scan.isSymbolChar char) :
    ReadsAs limit depth name (.ofAtom (String.ofList name)) := by
  intro enclosures rest position _ hrest
  rw [readInside_ofRest (Scan.first_symbol hne hname hrest position)]
  rfl

theorem readsAs_identifier {name : String} (hname : IsIdentifier name) :
    ReadsAs limit depth name.toList (.symbol name) := by
  obtain ⟨hne, hchars⟩ := isSymbolToken_iff.1 hname.1
  have hreads : ReadsAs limit depth name.toList (.ofAtom (String.ofList name.toList)) :=
    readsAs_symbol hne hchars
  rwa [String.ofList_toList, hname.2] at hreads

theorem readsAs_string (text : List Char) :
    ReadsAs limit depth (Literal.encode text) (.str (String.ofList text)) := by
  intro enclosures rest position _ _
  rw [readInside_ofRest (Scan.first_string text rest position)]
  simp only [ReadStep.ofToken, String.toList_ofList, Literal.decode_encode]

/-- The elements of a list and its closing parenthesis, after some of its elements. -/
theorem readInside_elements {texts : List (List Char)} {data : List Datum}
    (hreads : List.Forall₂ (ReadsAs limit depth) texts data) (outer : List Enclosure)
    (hdeep : outer.length + 1 + depth ≤ limit) (reversed : List Datum) (rest : List Char)
    (position : Nat) :
    (ofRest (texts.flatMap (' ' :: ·) ++ ')' :: rest) position).readInside limit
        (.list reversed :: outer) =
      (ReadStep.afterDatum (.form none (reversed.reverse ++ data)) outer).resume limit
        (ofRest rest (position + (texts.flatMap (' ' :: ·)).length + 1)) := by
  induction hreads generalizing reversed position with
  | nil =>
    rw [List.flatMap_nil, List.nil_append, readInside_ofRest (Scan.first_closeList rest position),
      List.append_nil]
    rfl
  | @cons text datum texts data hfirst _ ih =>
    have hdelimited : Delimited (texts.flatMap (' ' :: ·) ++ ')' :: rest) := by
      cases texts with
      | nil => exact delimited_cons (by decide) _
      | cons => exact delimited_cons (by decide) _
    rw [List.flatMap_cons, List.cons_append, List.cons_append, List.append_assoc,
      readInside_blank (by decide), hfirst _ _ _ (by simpa using hdeep) hdelimited]
    simp only [ReadStep.afterDatum, Enclosure.place, ReadStep.resume]
    rw [ih, List.reverse_cons, List.append_assoc, List.singleton_append]
    simp only [ReadStep.afterDatum, List.length_append, List.length_cons]
    congr 2
    omega

/-- Texts that read as data, in parentheses and with spaces between them, read as a form. -/
theorem readsAs_form {texts : List (List Char)} {data : List Datum}
    (hreads : List.Forall₂ (ReadsAs limit depth) texts data) :
    ReadsAs limit (depth + 1) ('(' :: (joinChars [' '] texts ++ [')'])) (.form none data) := by
  intro enclosures rest position hdeep hrest
  have henter : ReadStep.ofToken limit enclosures ⟨.openList, "("⟩ =
      .proceed (.list [] :: enclosures) := by
    simp only [ReadStep.ofToken, ReadStep.enter]
    rw [if_neg (by omega)]
  rw [List.cons_append, readInside_ofRest (Scan.first_openList _ position), henter]
  simp only [ReadStep.resume]
  cases hreads with
  | nil =>
    simp only [joinChars, List.nil_append, List.singleton_append]
    rw [readInside_ofRest (Scan.first_closeList rest _)]
    rfl
  | @cons text datum texts data hfirst htail =>
    have hdelimited : Delimited (texts.flatMap (' ' :: ·) ++ ')' :: rest) := by
      cases texts with
      | nil => exact delimited_cons (by decide) _
      | cons => exact delimited_cons (by decide) _
    have helements := readInside_elements htail enclosures (by omega) [datum] rest
    simp only [joinChars_cons, List.singleton_append, List.append_assoc]
    rw [hfirst _ _ _ (by simp; omega) hdelimited]
    simp only [ReadStep.afterDatum, Enclosure.place, ReadStep.resume]
    rw [helements]
    simp only [ReadStep.afterDatum, List.length_append, List.length_cons, List.reverse_singleton,
      List.singleton_append, List.length_nil]
    congr 2
    omega

theorem readAll_of_readForm {stream rest : TokenStream} {datum : Datum}
    (hread : stream.readForm limit = (.ok (some datum), rest)) :
    stream.readAll limit = (datum :: (rest.readAll limit).1, (rest.readAll limit).2) := by
  rw [readAll]
  split
  · next hother => cases hother.symm.trans hread
  · next hother => cases hother.symm.trans hread
  · next hother =>
    cases hother.symm.trans hread
    rfl

theorem readAll_of_end {stream rest : TokenStream}
    (hread : stream.readForm limit = (.ok none, rest)) : stream.readAll limit = ([], none) := by
  rw [readAll]
  split
  · rfl
  · next hother => cases hother.symm.trans hread
  · next hother => cases hother.symm.trans hread

theorem readAll_of_failure {stream rest : TokenStream} {interrupt : Interrupt}
    (hread : stream.readForm limit = (.error interrupt, rest)) :
    stream.readAll limit = ([], some interrupt) := by
  rw [readAll]
  split
  · next hother => cases hother.symm.trans hread
  · next hother =>
    cases hother.symm.trans hread
    rfl
  · next hother => cases hother.symm.trans hread

theorem readForm_ofRest_nil (position : Nat) :
    (ofRest [] position).readForm limit = (.ok none, { feed := .finished, buffer := [] }) := by
  rw [readForm, readInside]
  split
  · next hother => cases hother.symm.trans (advance_ofRest_nil position)
  · next hother =>
    cases hother.symm.trans (advance_ofRest_nil position)
    rfl
  · next hother => cases hother.symm.trans (advance_ofRest_nil position)

/-- A source that reads as a datum has that one form. -/
theorem readSource_of_readsAs {text : List Char} {datum : Datum}
    (hreads : ReadsAs limit depth text datum) (hdeep : depth ≤ limit) :
    readSource limit (String.ofList text) = .ok [datum] := by
  have hread : (ofText (String.ofList text)).readForm limit =
      (.ok (some datum), ofRest [] (0 + text.length)) := by
    have hwhole := hreads [] [] 0 (by simpa using hdeep) delimited_nil
    rw [List.append_nil] at hwhole
    rw [readForm, ofText, String.toList_ofList]
    exact hwhole
  have hall : (ofText (String.ofList text)).readAll limit = ([datum], none) := by
    rw [readAll_of_readForm hread, readAll_of_end (readForm_ofRest_nil _)]
  rw [readSource, hall]

end

end SmallScheme
