import SmallScheme.Proofs.Reader.NormalForm
/-!
# Numbers in source text

A finite number is printed as a literal that denotes it, but for the sign of a zero. The names of
the infinities and of what is no number are symbols to the reader, so these do not come back.
-/

namespace SmallScheme

/-- The text of an infinity, or of what is no number, is a symbol. -/
theorem readsAs_sourceChars_of_not_isFinite {number : Double} (hinfinite : ¬ number.IsFinite)
    (limit : Nat) : ReadsAs limit 0 number.sourceChars (.symbol number.text) := by
  cases number with
  | finite => exact absurd trivial hinfinite
  | infinite negative =>
    cases negative <;> exact readsAs_symbol (by decide) (List.all_eq_true.1 (by decide))
  | nan => exact readsAs_symbol (by decide) (List.all_eq_true.1 (by decide))

theorem readSource_source_of_isFinite {number : Double} (hfinite : number.IsFinite) (limit : Nat) :
    readSource limit (Datum.num number).source = .ok [.num number.withoutZeroSign] := by
  have hreads : ReadsAs limit 0 number.sourceChars (.num number.withoutZeroSign) := by
    rw [← ofAtom_sourceChars hfinite]
    exact readsAs_symbol (sourceChars_ne_nil hfinite)
      (Double.isSymbolChar_of_mem_sourceChars number)
  exact readSource_of_readsAs hreads (Nat.zero_le limit)

theorem readSource_source_of_not_isFinite {number : Double} (hinfinite : ¬ number.IsFinite)
    (limit : Nat) : readSource limit (Datum.num number).source = .ok [.symbol number.text] :=
  readSource_of_readsAs (readsAs_sourceChars_of_not_isFinite hinfinite limit) (Nat.zero_le limit)

/-- The text of the number is read as a single number. That one is equal to it or, like it, is no
number. -/
def Double.ReadsBack (limit : Nat) (number : Double) : Prop :=
  ∃ read, readSource limit (Datum.num number).source = .ok [.num read] ∧
    (read.equals number = true ∨ read = .nan ∧ number = .nan)

/-- Exactly the finite numbers come back from their texts, without the sign of a zero. In place of
any other number there comes a symbol. -/
theorem readsBack_iff_isFinite (limit : Nat) (number : Double) :
    (number.ReadsBack limit ↔ number.IsFinite) ∧
      (number.IsFinite →
        readSource limit (Datum.num number).source = .ok [.num number.withoutZeroSign]) ∧
      (¬ number.IsFinite →
        readSource limit (Datum.num number).source = .ok [.symbol number.text]) := by
  refine ⟨⟨?_, ?_⟩, fun hfinite => readSource_source_of_isFinite hfinite limit,
    fun hinfinite => readSource_source_of_not_isFinite hinfinite limit⟩
  · rintro ⟨read, hread, -⟩
    by_contra hinfinite
    rw [readSource_source_of_not_isFinite hinfinite] at hread
    cases hread
  · intro hfinite
    have hnumber : number ≠ .nan := by
      rintro rfl
      exact hfinite
    exact ⟨_, readSource_source_of_isFinite hfinite limit,
      .inl (Double.equals_withoutZeroSign hnumber)⟩

end SmallScheme
