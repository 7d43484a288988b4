import SmallScheme.Evaluator.Conditional
import SmallScheme.Proofs.Depth.Datum
import SmallScheme.Proofs.Reader.Tokens
/-!
# Reading and expansion at different depth limits

A source that is read to its end, or up to a fault, is read in the same way with every larger
limit; so are the conditionals with clauses.
-/

namespace SmallScheme

theorem ReadStep.stable_ofToken (enclosures : List Enclosure) (token : Token) :
    StableUnless (· = .failed .tooDeep) fun limit => ofToken limit enclosures token := by
  have henter : ∀ enclosure : Enclosure,
      StableUnless (· = .failed .tooDeep) fun limit => enter limit enclosure enclosures := by
    intro enclosure limit more hle huncut
    simp only [enter] at huncut ⊢
    by_cases hfull : limit ≤ enclosures.length
    · rw [if_pos hfull] at huncut
      exact absurd rfl huncut
    · rw [if_neg hfull, if_neg fun hmore => hfull (Nat.le_trans hle hmore)]
  unfold ofToken
  cases token.kind with
  | quote => exact henter .quote
  | openList => exact henter (.list [])
  | _ => exact .const _

namespace TokenStream

theorem readInside_of_le {limit more : Nat} (hle : limit ≤ more) {enclosures : List Enclosure}
    {stream : TokenStream} (huncut : (stream.readInside limit enclosures).1 ≠ .error .tooDeep) :
    stream.readInside more enclosures = stream.readInside limit enclosures := by
  fun_induction readInside limit enclosures stream with
  | case1 enclosures stream fault rest hadvance => rw [readInside, hadvance]
  | case2 enclosures stream rest hadvance hend => rw [readInside, hadvance, hend]
  | case3 enclosures stream rest hadvance fault hend => rw [readInside, hadvance, hend]
  | case4 enclosures stream token rest hadvance datum hstep =>
    have hmore := ReadStep.stable_ofToken enclosures token hle
    simp only [hstep] at hmore
    rw [readInside_of_advance hadvance, hmore (by rintro ⟨⟩), ReadStep.resume]
  | case5 enclosures stream token rest hadvance interrupt hstep =>
    have hmore := ReadStep.stable_ofToken enclosures token hle
    simp only [hstep] at hmore
    rw [readInside_of_advance hadvance, hmore ?_, ReadStep.resume]
    rintro ⟨⟩
    exact huncut rfl
  | case6 enclosures stream token rest hadvance inside hstep ih =>
    have hmore := ReadStep.stable_ofToken enclosures token hle
    simp only [hstep] at hmore
    rw [readInside_of_advance hadvance, hmore (by rintro ⟨⟩), ReadStep.resume, ih huncut]

theorem stable_readForm (stream : TokenStream) :
    StableUnless (·.1 = .error .tooDeep) fun limit => stream.readForm limit :=
  fun _ _ hle huncut => readInside_of_le hle huncut

theorem readForm_of_le {limit more : Nat} (hle : limit ≤ more) {stream rest : TokenStream}
    {result : Except Interrupt (Option Datum)} (hread : stream.readForm limit = (result, rest))
    (huncut : result ≠ .error .tooDeep) : stream.readForm more = (result, rest) :=
  (stream.stable_readForm hle fun hcut => huncut ((congrArg Prod.fst hread).symm.trans hcut)).trans
    hread

theorem stable_readAll (stream : TokenStream) :
    StableUnless (·.2 = some .tooDeep) fun limit => stream.readAll limit := by
  intro limit more hle huncut
  dsimp only at huncut ⊢
  fun_induction readAll limit stream with
  | case1 stream rest hread =>
    exact readAll_of_end (readForm_of_le hle hread (by rintro ⟨⟩))
  | case2 stream interrupt rest hread =>
    refine readAll_of_failure (readForm_of_le hle hread ?_)
    rintro ⟨⟩
    exact huncut rfl
  | case3 stream datum rest hread data failure hrest ih =>
    rw [readAll_of_readForm (readForm_of_le hle hread (by rintro ⟨⟩)), ih (hrest ▸ huncut), hrest]

end TokenStream

theorem stable_readSource (text : String) :
    StableUnless (· = .error .tooDeep) fun limit => readSource limit text := by
  intro limit more hle huncut
  dsimp only at huncut ⊢
  have hread : ((TokenStream.ofText text).readAll limit).2 ≠ some .tooDeep := by
    intro hcut
    rw [readSource] at huncut
    generalize (TokenStream.ofText text).readAll limit = read at hcut huncut
    obtain ⟨data, failure⟩ := read
    subst hcut
    exact huncut rfl
  have hmore := TokenStream.stable_readAll (.ofText text) hle hread
  dsimp only at hmore
  rw [readSource, readSource, hmore]

/-! ### Clauses -/

theorem stable_expandClause (number : Nat) (isLast : Bool) (alternative clause : Datum) :
    StableUnless (· = .error .tooDeep) fun limit =>
      expandClause limit number isLast alternative clause := by
  have hatom : StableUnless (· = .error .tooDeep) fun limit =>
      (if clause.isTooDeepToDiagnose limit then .error .tooDeep
        else .error (.fault (.clauseNotList clause)) : Except Interrupt Datum) :=
    clause.stable_diagnosis _
  cases clause with
  | form label items =>
    match items with
    | [] => exact hatom
    | [test] => exact .const _
    | test :: second :: body => cases test <;> exact .const _
  | _ => exact hatom

theorem stable_expandClauses (number : Nat) (clauses : List Datum) :
    StableUnless (· = .error .tooDeep) fun limit => expandClauses limit number clauses := by
  induction clauses generalizing number with
  | nil => exact .const _
  | cons clause rest ih =>
    intro limit more hle huncut
    simp only [expandClauses] at huncut ⊢
    have hrest : expandClauses more (number + 1) rest = expandClauses limit (number + 1) rest := by
      refine ih (number + 1) hle fun hcut => huncut ?_
      dsimp only at hcut
      rw [hcut]
      rfl
    rw [hrest]
    cases hexpand : expandClauses limit (number + 1) rest with
    | error interrupt => rfl
    | ok alternative =>
      rw [hexpand] at huncut
      exact stable_expandClause number rest.isEmpty alternative clause hle huncut

end SmallScheme
