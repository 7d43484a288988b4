import SmallScheme.Proofs.Datum.WellFormed
import SmallScheme.Proofs.Reader.Grammar
/-!
# How deep the forms of a text nest

The limit of reading is one of the forms that are read: every form that is read nests within it, and
tokens of forms that nest within it are read as these forms.
-/

namespace SmallScheme

/-! ### What is read within a limit -/

/-- Everything read so far inside of the enclosures nests within the limit where it stands. -/
def Enclosure.NestWithin (limit : Nat) : List Enclosure → Prop
  | [] => True
  | .quote :: outer => outer.length < limit ∧ NestWithin limit outer
  | .list reversed :: outer =>
    outer.length < limit ∧ (∀ datum ∈ reversed, datum.nesting + outer.length < limit) ∧
      NestWithin limit outer

theorem Enclosure.NestWithin.length_le {limit : Nat} {enclosures : List Enclosure}
    (henclosures : NestWithin limit enclosures) : enclosures.length ≤ limit := by
  match enclosures with
  | [] => exact Nat.zero_le limit
  | .quote :: _ => exact henclosures.1
  | .list _ :: _ => exact henclosures.1

theorem Datum.nesting_ofAtom (text : String) : (ofAtom text).nesting = 0 := by
  rw [ofAtom]
  split
  · rfl
  · split <;> rfl

namespace ReadStep

open Enclosure

/-- Everything that a step of reading keeps nests within the limit. -/
def NestsWithin (limit : Nat) : ReadStep → Prop
  | .complete datum => datum.nesting ≤ limit
  | .proceed enclosures => NestWithin limit enclosures
  | .failed _ => True

variable {limit : Nat} {enclosures : List Enclosure}

theorem nestsWithin_afterDatum {datum : Datum} (hdatum : datum.nesting + enclosures.length ≤ limit)
    (henclosures : NestWithin limit enclosures) :
    (afterDatum datum enclosures).NestsWithin limit := by
  induction enclosures generalizing datum with
  | nil => exact hdatum
  | cons enclosure outer ih =>
    rw [List.length_cons] at hdatum
    cases enclosure with
    | quote =>
      have hquoted : (Datum.form none [.keyword .quote, datum]).nesting = datum.nesting + 1 := by
        simp [Datum.nesting, Datum.nestingOfAll, Datum.keyword]
      refine ih ?_ henclosures.2
      omega
    | list reversed =>
      obtain ⟨hroom, hreversed, houter⟩ := henclosures
      refine ⟨hroom, List.forall_mem_cons.2 ⟨?_, hreversed⟩, houter⟩
      omega

theorem nestsWithin_enter {enclosure : Enclosure} (henclosures : NestWithin limit enclosures)
    (hempty : enclosure = .quote ∨ enclosure = .list []) :
    (enter limit enclosure enclosures).NestsWithin limit := by
  rw [enter]
  split
  · trivial
  · next hroom =>
    rw [Nat.not_le] at hroom
    rcases hempty with rfl | rfl
    · exact ⟨hroom, henclosures⟩
    · exact ⟨hroom, fun _ hmem => absurd hmem List.not_mem_nil, henclosures⟩

theorem nestsWithin_ofToken (henclosures : NestWithin limit enclosures) (token : Token) :
    (ofToken limit enclosures token).NestsWithin limit := by
  obtain ⟨kind, text⟩ := token
  cases kind with
  | symbol =>
    refine nestsWithin_afterDatum ?_ henclosures
    rw [Datum.nesting_ofAtom, Nat.zero_add]
    exact henclosures.length_le
  | string =>
    refine nestsWithin_afterDatum ?_ henclosures
    exact (Nat.zero_add _).trans_le henclosures.length_le
  | quote => exact nestsWithin_enter henclosures (.inl rfl)
  | openList => exact nestsWithin_enter henclosures (.inr rfl)
  | closeList =>
    match enclosures with
    | [] => trivial
    | .quote :: _ => trivial
    | .list reversed :: outer =>
      obtain ⟨hroom, hreversed, houter⟩ := henclosures
      refine nestsWithin_afterDatum ?_ houter
      have hitems : Datum.nestingOfAll reversed.reverse ≤ limit - outer.length - 1 := by
        rw [Datum.nestingOfAll_le_iff]
        intro datum hmem
        have := hreversed datum (List.mem_reverse.1 hmem)
        omega
      rw [Datum.nesting]
      omega
  | other name => trivial

end ReadStep

namespace TokenStream

variable {limit : Nat}

theorem nesting_le_of_readInside {enclosures : List Enclosure} {stream rest : TokenStream}
    {datum : Datum} (henclosures : Enclosure.NestWithin limit enclosures)
    (hread : stream.readInside limit enclosures = (.ok (some datum), rest)) :
    datum.nesting ≤ limit := by
  fun_induction readInside limit enclosures stream with
  | case1 => cases hread
  | case2 => cases hread
  | case3 => cases hread
  | case4 enclosures stream token after hadvance complete hstep =>
    cases hread
    have hnests := ReadStep.nestsWithin_ofToken henclosures token
    rw [hstep] at hnests
    exact hnests
  | case5 => cases hread
  | case6 enclosures stream token after hadvance inner hstep ih =>
    have hnests := ReadStep.nestsWithin_ofToken henclosures token
    rw [hstep] at hnests
    exact ih hnests hread

/-- What is read within a limit nests within it. -/
theorem nesting_le_of_mem_readAll {stream : TokenStream} :
    ∀ datum ∈ (stream.readAll limit).1, datum.nesting ≤ limit := by
  fun_induction readAll limit stream with
  | case1 => simp
  | case2 => simp
  | case3 stream datum rest hread data failure hrest ih =>
    have hnone : Enclosure.NestWithin limit [] := trivial
    rw [hrest] at ih
    exact List.forall_mem_cons.2 ⟨nesting_le_of_readInside hnone hread, ih⟩

end TokenStream

theorem nesting_le_of_readSource {limit : Nat} {text : String} {data : List Datum}
    (hread : readSource limit text = .ok data) : ∀ datum ∈ data, datum.nesting ≤ limit := by
  rw [← readAll_of_readSource hread]
  exact TokenStream.nesting_le_of_mem_readAll

/-! ### What a limit lets through -/

namespace Derivation

variable {limit : Nat} {ending : Option Fault}

mutual

/-- Reading goes through the tokens of a form that nests within the limit where it stands. -/
theorem readTokens_tokens_of_nesting (form : Derivation) (enclosures : List Enclosure)
    (rest : List Token) (hroom : form.datum.nesting + enclosures.length ≤ limit) :
    readTokens limit ending (form.tokens ++ rest) enclosures =
      (ReadStep.afterDatum form.datum enclosures).before (readTokens limit ending rest) := by
  cases form with
  | symbol text => rfl
  | string text => rfl
  | quoted mark form =>
    have hquoted : (quoted mark form).datum.nesting = form.datum.nesting + 1 := by
      simp [datum, Datum.nesting, Datum.nestingOfAll, Datum.keyword]
    have hinside := readTokens_tokens_of_nesting form (.quote :: enclosures) rest
      (by rw [List.length_cons]; omega)
    rw [tokens, List.cons_append, readTokens_quote, if_neg (by omega), hinside, datum]
    rfl
  | list opening closing forms =>
    rw [datum, Datum.nesting] at hroom
    have hinside := readTokens_tokensOfAll_of_nesting forms [] enclosures
      (⟨.closeList, closing⟩ :: rest) (by omega)
    rw [readTokens_closeList, List.append_nil, List.reverse_reverse] at hinside
    rw [tokens, List.cons_append, List.append_assoc, readTokens_openList, if_neg (by omega), datum]
    exact hinside

theorem readTokens_tokensOfAll_of_nesting (forms : List Derivation) (reversed : List Datum)
    (outer : List Enclosure) (rest : List Token)
    (hroom : Datum.nestingOfAll (dataOfAll forms) + outer.length < limit) :
    readTokens limit ending (tokensOfAll forms ++ rest) (.list reversed :: outer) =
      readTokens limit ending rest (.list ((dataOfAll forms).reverse ++ reversed) :: outer) := by
  cases forms with
  | nil => rfl
  | cons form forms =>
    rw [dataOfAll, Datum.nestingOfAll] at hroom
    have hfirst := readTokens_tokens_of_nesting form (.list reversed :: outer)
      (tokensOfAll forms ++ rest) (by rw [List.length_cons]; omega)
    have hothers := readTokens_tokensOfAll_of_nesting forms (form.datum :: reversed) outer rest
      (by omega)
    rw [tokensOfAll, List.append_assoc, dataOfAll, List.reverse_cons, List.append_assoc, hfirst]
    exact hothers

end

/-- Forms that nest within the limit are read from their tokens. -/
theorem readTokens_of_nesting {forms : List Derivation}
    (hnesting : ∀ form ∈ forms, form.datum.nesting ≤ limit) :
    readTokens limit none (forms.flatMap tokens) [] = (forms.map datum, none) := by
  induction forms with
  | nil => rfl
  | cons form forms ih =>
    rw [List.forall_mem_cons] at hnesting
    rw [List.flatMap_cons, readTokens_tokens_of_nesting form [] _ hnesting.1, List.map_cons]
    exact congrArg (fun read => (form.datum :: read.1, read.2)) (ih hnesting.2)

end Derivation

end SmallScheme
