import SmallScheme.Proofs.Reader.Pieces
/-!
# Reading one text after another

A text that is read without a failure can be continued on the next line: reading goes on there as if
the second text stood alone, and a character that is found unexpected has moved by the length of
what stands before it.
-/

namespace SmallScheme

/-- The fault of a text, if this stands behind so many characters. -/
def Fault.movedBy (offset : Nat) : Fault → Fault
  | .unexpectedChar position char => .unexpectedChar (offset + position) char
  | fault => fault

def Interrupt.movedBy (offset : Nat) : Interrupt → Interrupt
  | .fault cause => .fault (cause.movedBy offset)
  | interrupt => interrupt

/-! ### Tokens -/

/-- A whole text and another one on the next line have the tokens of both. -/
theorem tokenize_append_newline {first : List Char} (hfirst : (tokenize first 0).2 = none)
    (second : List Char) :
    tokenize (first ++ '\n' :: second) 0 =
      ((tokenize first 0).1 ++ (tokenize second 0).1,
        (tokenize second 0).2.map fun (place, char) => (first.length + 1 + place, char)) := by
  obtain ⟨pieces, rest, hpartition⟩ := Partition.exists_of_text first
  obtain ⟨others, remainder, hother⟩ := Partition.exists_of_text second
  have hrest : rest = [] := by
    rw [tokenize_of_partition hpartition, Option.map_eq_none_iff] at hfirst
    exact List.head?_eq_none_iff.1 hfirst
  subst hrest
  have hlength : (pieces.flatMap Piece.chars).length = first.length := by
    rw [← hpartition.append_eq, List.append_nil]
  rw [tokenize_of_partition hpartition, tokenize_of_partition hother,
    tokenize_of_partition (hpartition.append_newline hother)]
  simp only [List.filterMap_append, List.filterMap_cons, Piece.token?, List.flatMap_append,
    List.flatMap_cons, List.length_append, hlength, Option.map_map, Nat.zero_add, Nat.add_assoc]
  rfl

/-! ### Forms -/

section

variable {limit : Nat}

/-- Where the tokens end with a fault, reading fails. -/
theorem readTokens_ne_none (fault : Fault) (tokens : List Token) (enclosures : List Enclosure) :
    (readTokens limit (some fault) tokens enclosures).2 ≠ none := by
  induction tokens generalizing enclosures with
  | nil => rintro ⟨⟩
  | cons token rest ih =>
    rw [readTokens]
    cases ReadStep.ofToken limit enclosures token with
    | complete datum => exact ih []
    | failed interrupt => rintro ⟨⟩
    | proceed enclosures => exact ih enclosures

/-- After tokens that are read without a failure, reading goes on afresh. -/
theorem readTokens_append {tokens : List Token} {enclosures : List Enclosure}
    (hread : (readTokens limit none tokens enclosures).2 = none) (ending : Option Fault)
    (others : List Token) :
    readTokens limit ending (tokens ++ others) enclosures =
      ((readTokens limit none tokens enclosures).1 ++ (readTokens limit ending others []).1,
        (readTokens limit ending others []).2) := by
  induction tokens generalizing enclosures with
  | nil =>
    match enclosures with
    | [] => rfl
    | .quote :: _ => cases hread
    | .list _ :: _ => cases hread
  | cons token rest ih =>
    rw [List.cons_append, readTokens, readTokens]
    rw [readTokens] at hread
    cases hstep : ReadStep.ofToken limit enclosures token with
    | complete datum =>
      rw [hstep] at hread
      rw [ReadStep.before, ih hread]
      rfl
    | failed interrupt =>
      rw [hstep] at hread
      cases hread
    | proceed enclosures =>
      rw [hstep] at hread
      exact ih hread

theorem movedBy_of_failed {enclosures : List Enclosure} {token : Token} {interrupt : Interrupt}
    (hfailed : ReadStep.ofToken limit enclosures token = .failed interrupt) (offset : Nat) :
    interrupt.movedBy offset = interrupt := by
  rcases ReadStep.cases_of_failed hfailed with rfl | rfl | ⟨name, rfl⟩ <;> rfl

/-- Only the fault with which the tokens end is a matter of where they stand. -/
theorem readTokens_movedBy (offset : Nat) (ending : Option Fault) (tokens : List Token)
    (enclosures : List Enclosure) :
    readTokens limit (ending.map (Fault.movedBy offset)) tokens enclosures =
      ((readTokens limit ending tokens enclosures).1,
        (readTokens limit ending tokens enclosures).2.map (Interrupt.movedBy offset)) := by
  induction tokens generalizing enclosures with
  | nil =>
    match ending, enclosures with
    | some fault, _ => rfl
    | none, [] => rfl
    | none, .quote :: _ => rfl
    | none, .list _ :: _ => rfl
  | cons token rest ih =>
    rw [readTokens, readTokens]
    cases hstep : ReadStep.ofToken limit enclosures token with
    | complete datum => rw [ReadStep.before, ReadStep.before, ih]
    | failed interrupt =>
      rw [ReadStep.before, ReadStep.before, Option.map_some, movedBy_of_failed hstep]
    | proceed enclosures => exact ih enclosures

end

namespace TokenStream

variable {limit : Nat}

/-- What is read of a text and another one on the next line. -/
theorem readAll_append_newline {first : String} {forms : List Datum}
    (hfirst : readSource limit first = .ok forms) (second : String) :
    (ofText (first ++ "\n" ++ second)).readAll limit =
      (forms ++ ((ofText second).readAll limit).1,
        ((ofText second).readAll limit).2.map (Interrupt.movedBy (first.length + 1))) := by
  have hread := readAll_eq_of_readSource hfirst
  rw [readAll_ofText] at hread
  have hends : (tokenize first.toList 0).2 = none := by
    cases hfailure : (tokenize first.toList 0).2 with
    | none => rfl
    | some failure =>
      rw [hfailure] at hread
      exact absurd (congrArg Prod.snd hread) (readTokens_ne_none _ _ _)
  rw [hends, Option.map_none] at hread
  have hjoined : (first ++ "\n" ++ second).toList = first.toList ++ '\n' :: second.toList := by
    rw [String.toList_append, String.toList_append, List.append_assoc]
    rfl
  have hending : ((tokenize (first.toList ++ '\n' :: second.toList) 0).2.map
      fun (place, char) => Fault.unexpectedChar place char) =
        ((tokenize second.toList 0).2.map fun (place, char) => .unexpectedChar place char).map
          (Fault.movedBy (first.length + 1)) := by
    rw [tokenize_append_newline hends, Option.map_map, Option.map_map, String.length_toList]
    rfl
  rw [readAll_ofText, readAll_ofText, hjoined, hending, tokenize_append_newline hends,
    readTokens_append (congrArg Prod.snd hread), hread, readTokens_movedBy]

end TokenStream

theorem readSource_append_newline {limit : Nat} {first : String} {forms : List Datum}
    (hfirst : readSource limit first = .ok forms) (second : String) :
    readSource limit (first ++ "\n" ++ second) =
      match readSource limit second with
      | .ok others => .ok (forms ++ others)
      | .error interrupt => .error (interrupt.movedBy (first.length + 1)) := by
  rw [readSource, TokenStream.readAll_append_newline hfirst, readSource]
  rcases (TokenStream.ofText second).readAll limit with ⟨others, _ | interrupt⟩ <;> rfl

end SmallScheme
