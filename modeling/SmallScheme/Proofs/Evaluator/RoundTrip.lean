import SmallScheme.Proofs.Evaluator.Denotation
/-!
# Printing, reading and quoting

Quoting plain syntax gives the well-formed data that the syntax shows. So data that is printed, read
and quoted comes back as it was, provided that its lists are proper; and since quoting makes proper
lists only, data with any other list does not come back.
-/

namespace SmallScheme

open Datum Machine

theorem Datum.wellFormed_chain {heads : List Datum} (hheads : ∀ head ∈ heads, head.WellFormed)
    (label : Label) : (chain label heads .empty).WellFormed := by
  induction heads generalizing label with
  | nil => exact .atom rfl
  | cons head heads ih =>
    rw [List.forall_mem_cons] at hheads
    exact .pair hheads.1 (ih hheads.2 _) (isList_chain _ _ _)

/-! ### What quoting makes -/

mutual

/-- Whatever is quoted, the lists that quoting makes are proper. -/
theorem wellFormed_of_quoteDatum {limit : Nat} {datum quoted : Datum} {store after : Store}
    (hquote : quoteDatum limit datum store = .ok quoted after) : quoted.WellFormed := by
  cases datum with
  | form label items =>
    rw [quoteDatum] at hquote
    split at hquote
    · cases hquote
    · obtain ⟨quotedItems, between, hitems, hlist⟩ := bind_eq_ok.1 hquote
      rw [listOf_eq] at hlist
      cases hlist
      exact wellFormed_chain (wellFormed_of_quoteItems hitems) _
  | int value =>
    rw [quoteDatum] at hquote
    obtain ⟨number, between, -, hpure⟩ := bind_eq_ok.1 hquote
    cases hpure
    exact .atom rfl
  | num | bool | str | symbol | quoted | empty =>
    rw [quoteDatum] at hquote
    cases hquote
    exact .atom rfl
  | absent | unspecified | pair | builtin | closure | promise | foreign =>
    rw [quoteDatum] at hquote <;> exact absurd hquote failDiagnosing_ne_ok

theorem wellFormed_of_quoteItems {limit : Nat} {items quoted : List Datum} {store after : Store}
    (hquote : quoteItems limit items store = .ok quoted after) :
    ∀ datum ∈ quoted, datum.WellFormed := by
  cases items with
  | nil =>
    cases hquote
    exact fun _ hmem => absurd hmem List.not_mem_nil
  | cons item rest =>
    rw [quoteItems] at hquote
    obtain ⟨first, between, hfirst, hnext⟩ := bind_eq_ok.1 hquote
    obtain ⟨others, final, hothers, hpure⟩ := bind_eq_ok.1 hnext
    cases hpure
    exact List.forall_mem_cons.2 ⟨wellFormed_of_quoteDatum hfirst, wellFormed_of_quoteItems hothers⟩

end

/-- What syntax denotes is data, if its numbers are finite. -/
theorem Datum.Denotes.isData {form value : Datum} (hvalue : form.Denotes value)
    (hwritten : form.IsSyntax) (hfinite : ∀ number ∈ form.literals, number.IsFinite) :
    value.IsData := by
  induction hvalue with
  | bool value => exact .bool value
  | num number => exact .num (hfinite number List.mem_cons_self)
  | str text => exact .str text
  | symbol name =>
    cases hwritten with
    | symbol hname => exact .quoted hname
  | nil => exact .empty
  | cons _ _ ihhead ihtail =>
    rw [isSyntax_form, List.forall_mem_cons] at hwritten
    rw [literals, literalsOfAll, List.forall_mem_append] at hfinite
    exact .pair (ihhead hwritten.1 hfinite.1) (ihtail (.form hwritten.2) hfinite.2)

/-- What plain syntax denotes shows it again. -/
theorem Datum.Denotes.syntaxOf_eq {form value : Datum} (hvalue : form.Denotes value)
    (hplain : form.IsPlain) : value.syntaxOf = form := by
  induction hvalue with
  | num number =>
    cases hplain with
    | num _ hsign => rw [syntaxOf, withoutZeroSign_eq_self hsign]
  | cons _ _ ihhead ihtail =>
    cases hplain with
    | form hitems =>
      rw [List.forall_mem_cons] at hitems
      rw [syntaxOf, ihhead hitems.1, ihtail (.form hitems.2), elements]
  | _ => rfl

/-- Quoting the datum makes well-formed data that show it and print like it, and takes nothing but
new labels. -/
def QuotesTo (limit : Nat) (datum : Datum) : Prop :=
  ∀ store, ∃ quoted count,
    quoteDatum limit datum store = .ok quoted { store with nextLabel := store.nextLabel + count } ∧
      quoted.IsData ∧ quoted.WellFormed ∧ quoted.syntaxOf = datum ∧
        quoted.chars .literal = datum.chars .literal

/-- Plain syntax that nests no deeper than the limit can be quoted. -/
theorem quotesTo_of_isPlain {limit : Nat} {datum : Datum} (hplain : datum.IsPlain)
    (hdeep : datum.nesting ≤ limit) : QuotesTo limit datum := by
  intro store
  obtain ⟨hwritten, hliterals⟩ := isPlain_iff.1 hplain
  obtain ⟨quoted, count, hquote, hdenotes⟩ := exists_quoteDatum_eq_ok hwritten hdeep store
  exact ⟨quoted, count, hquote,
    hdenotes.isData hwritten fun number hmem => (hliterals number hmem).1,
    hdenotes.wellFormed, hdenotes.syntaxOf_eq hplain, (hdenotes.chars_eq .literal).1⟩

/-! ### There and back -/

/-- The value is printed, its text is read as exactly one form, and quoting the form gives a value
that agrees with the first one. -/
def Datum.RoundTrips (limit : Nat) (datum : Datum) : Prop :=
  datum.printObstacle? limit = none ∧
    ∃ form, readSource limit datum.source = .ok [form] ∧
      ∀ store, ∃ quoted after,
        quoteDatum limit form store = .ok quoted after ∧ quoted.Agrees datum

theorem Datum.roundTrips_of_wellFormed? {limit : Nat} {datum : Datum} (hdata : datum.IsData)
    (hanswer : datum.wellFormed? limit = some true) : datum.RoundTrips limit := by
  have hwell : datum.WellFormed := (wellFormed_iff_of_wellFormed? hanswer).2 rfl
  have hdeep : datum.syntaxOf.nesting ≤ limit := by
    rw [nesting_syntaxOf hwell]
    exact hdata.nesting_le hanswer
  refine ⟨hdata.printObstacle?_eq_none hanswer, datum.syntaxOf,
    readSource_of_readsAs (readsAs_chars hdata hanswer) (Nat.le_refl limit), fun store => ?_⟩
  obtain ⟨quoted, count, hquote, hquotedData, hquotedWell, hwritten, -⟩ :=
    quotesTo_of_isPlain (hdata.isPlain_syntaxOf hwell) hdeep store
  exact ⟨quoted, _, hquote, agrees_of_syntaxOf_eq hquotedData hdata hquotedWell hwell hwritten⟩

theorem Datum.wellFormed_of_roundTrips {limit : Nat} {datum : Datum}
    (htrip : datum.RoundTrips limit) : datum.WellFormed := by
  obtain ⟨-, form, -, hquotes⟩ := htrip
  obtain ⟨quoted, after, hquote, hagrees⟩ := hquotes .empty
  exact hagrees.wellFormed (wellFormed_of_quoteDatum hquote)

/-- Data comes back from its text exactly if the search for improper lists finds none. The search
has an answer for all data that nests less deep than the limit. -/
theorem roundTrips_iff_wellFormed? {datum : Datum} (hdata : datum.IsData) (limit : Nat) :
    (datum.nesting < limit → (datum.wellFormed? limit).isSome) ∧
      ∀ answer, datum.wellFormed? limit = some answer →
        (datum.RoundTrips limit ↔ answer = true) := by
  refine ⟨fun hdeep => Option.isSome_iff_ne_none.2 (wellFormed?_ne_none hdeep), ?_⟩
  intro answer hanswer
  constructor
  · intro htrip
    exact (wellFormed_iff_of_wellFormed? hanswer).1 (wellFormed_of_roundTrips htrip)
  · rintro rfl
    exact roundTrips_of_wellFormed? hdata hanswer

/-- A list of a negative zero, a string of delimiters and a keyword comes back; the chain of the
first two without an end does not. -/
theorem roundTrips_list_not_chain :
    (Datum.pair 0 (.num (.zero true))
        (.pair 1 (.str "\"(;'\\") (.pair 2 (.quoted "quote") .empty))).RoundTrips 3 ∧
      ¬ (Datum.pair 0 (.num (.zero true)) (.str "\"(;'\\")).RoundTrips 3 := by
  have hzero : (Double.zero true).IsFinite := trivial
  have hkeyword : IsIdentifier "quote" := isIdentifier_keyword .quote
  constructor
  · refine ((roundTrips_iff_wellFormed? ?_ 3).2 true rfl).2 rfl
    exact .pair (.num hzero) (.pair (.str _) (.pair (.quoted hkeyword) .empty))
  · refine fun htrip => Bool.false_ne_true (((roundTrips_iff_wellFormed? ?_ 3).2 false rfl).1 htrip)
    exact .pair (.num hzero) (.str _)

end SmallScheme
