import SmallScheme.Proofs.Datum.Written
import SmallScheme.Proofs.Reader.Spelling
import SmallScheme.Proofs.Soundness.Store
/-!
# The text of every value

Whatever a program computes, its text is lexically clean and balanced: it spells at least one form,
also where it shows a procedure, a promise or a number that is none. So reading the text of a value
fails for its depth only, and two levels more than the value nests are always enough. Printing takes
no more than one.
-/

namespace SmallScheme

/-- The text spells at least one form. -/
def IsLegible (depth : Nat) (text : List Char) : Prop :=
  ∃ form others, Spells depth text (form :: others)

section

variable {depth : Nat} {text next : List Char}

theorem IsLegible.blank (hlegible : IsLegible depth text) (hnext : IsLegible depth next) :
    IsLegible depth (text ++ ' ' :: next) := by
  obtain ⟨form, others, hspells⟩ := hlegible
  obtain ⟨following, more, hmore⟩ := hnext
  exact ⟨form, others ++ following :: more, hspells.blank hmore⟩

theorem IsLegible.list (hlegible : IsLegible depth text) (hnext : IsLegible (depth + 1) next) :
    IsLegible (depth + 1) ('(' :: (text ++ ')' :: next)) := by
  obtain ⟨form, others, hspells⟩ := hlegible
  obtain ⟨following, more, hmore⟩ := hnext
  exact ⟨_, _, hspells.list hmore⟩

theorem IsLegible.parenthesized (hlegible : IsLegible depth text) :
    IsLegible (depth + 1) ('(' :: (text ++ [')'])) := by
  obtain ⟨form, others, hspells⟩ := hlegible
  exact ⟨_, _, hspells.parenthesized⟩

theorem isLegible_symbol (hne : text ≠ []) (hchars : ∀ char ∈ text, Scan.isSymbolChar char) :
    IsLegible depth text :=
  ⟨_, [], .symbol hne hchars⟩

theorem isLegible_emptyList : IsLegible (depth + 1) ['(', ')'] := ⟨_, [], Spells.nil.parenthesized⟩

/-- Texts with blanks between them, in parentheses. -/
theorem isLegible_list {texts : List (List Char)} (htexts : ∀ text ∈ texts, IsLegible depth text) :
    IsLegible (depth + 1) ('(' :: (joinChars [' '] texts ++ [')'])) := by
  cases texts with
  | nil => exact isLegible_emptyList
  | cons first rest =>
    refine IsLegible.parenthesized ?_
    induction rest generalizing first with
    | nil => exact htexts first List.mem_cons_self
    | cons second rest ih =>
      rw [List.forall_mem_cons] at htexts
      have happend : joinChars [' '] (first :: second :: rest) =
          first ++ ' ' :: joinChars [' '] (second :: rest) := List.append_assoc first [' '] _
      rw [happend]
      exact htexts.1.blank (ih second htexts.2)

theorem IsIdentifier.isLegible {name : String} (hname : IsIdentifier name) :
    IsLegible depth name.toList := by
  obtain ⟨hne, hchars⟩ := isSymbolToken_iff.1 hname.1
  exact isLegible_symbol hne hchars

end

namespace Datum

variable {store : Store} {depth : Nat}

theorem isLegible_sourceChars (number : Double) : IsLegible depth number.sourceChars := by
  refine isLegible_symbol ?_ (Double.isSymbolChar_of_mem_sourceChars number)
  obtain ⟨negative, units, hunits⟩ | negative | _ := number
  · exact sourceChars_ne_nil trivial
  · cases negative <;> exact List.cons_ne_nil _ _
  · exact List.cons_ne_nil _ _

theorem isLegible_builtinChars (procedure : Builtin) :
    IsLegible depth (builtinChars procedure) := by
  have hhead : IsLegible depth "#<builtin".toList :=
    isLegible_symbol (by decide) (List.all_eq_true.1 (by decide))
  have hname : IsLegible depth (procedure.name.toList ++ ['>']) := by
    cases procedure <;> exact isLegible_symbol (by decide) (List.all_eq_true.1 (by decide))
  exact hhead.blank hname

theorem isLegible_formals {formals : Formals}
    (hformals : ∀ formal ∈ formals.names, IsIdentifier formal) :
    IsLegible (depth + 1) formals.chars := by
  cases formals with
  | fixed names =>
    refine isLegible_list fun text hmem => ?_
    obtain ⟨name, hname, rfl⟩ := List.mem_map.1 hmem
    exact (hformals name hname).isLegible
  | rest name => exact (hformals name List.mem_cons_self).isLegible

theorem isLegible_lambdaChars {formals : Formals}
    (hformals : ∀ formal ∈ formals.names, IsIdentifier formal) {next : List Char}
    (hnext : IsLegible (depth + 2) next) : IsLegible (depth + 2) (lambdaChars formals ++ next) := by
  have hkeyword : IsLegible (depth + 1) "lambda".toList :=
    isLegible_symbol (by decide) (List.all_eq_true.1 (by decide))
  have hlambda : lambdaChars formals ++ next =
      '(' :: (("lambda".toList ++ ' ' :: formals.chars) ++ ')' :: next) := by
    simp [lambdaChars]
  rw [hlambda]
  exact (hkeyword.blank (isLegible_formals hformals)).list hnext

/-- A procedure shows its name, or else its parameters and right behind them what ends it. -/
theorem isLegible_closureChars {name : Option String} {formals : Formals}
    (hname : ∀ text ∈ name, IsIdentifier text)
    (hformals : ∀ formal ∈ formals.names, IsIdentifier formal) :
    IsLegible (depth + 2) (closureChars name formals) := by
  have hhead : IsLegible (depth + 2) "#<procedure".toList :=
    isLegible_symbol (by decide) (List.all_eq_true.1 (by decide))
  have hend : ∀ char ∈ ['>'], Scan.isSymbolChar char := List.all_eq_true.1 (by decide)
  have hshow : ∀ shown, IsLegible (depth + 2) (shown ++ ['>']) →
      IsLegible (depth + 2) ("#<procedure ".toList ++ shown ++ ['>']) := by
    intro shown hshown
    have hspace : "#<procedure ".toList = "#<procedure".toList ++ [' '] := rfl
    rw [hspace, List.append_assoc, List.append_assoc, List.singleton_append]
    exact hhead.blank hshown
  refine hshow _ ?_
  cases hshown : name.filter (· ≠ "") with
  | none => exact isLegible_lambdaChars hformals (isLegible_symbol (List.cons_ne_nil _ _) hend)
  | some text =>
    have htext : IsIdentifier text := hname text (Option.filter_eq_some_iff.1 hshown).1
    obtain ⟨hne, hchars⟩ := isSymbolToken_iff.1 htext.1
    exact isLegible_symbol (List.append_ne_nil_of_left_ne_nil hne _)
      (List.forall_mem_append.2 ⟨hchars, hend⟩)

/-- What a chain prints behind its heads when it ends in something else than the empty list. -/
theorem isLegible_ending {text : List Char} (htext : IsLegible depth text) {ending : List Char}
    (hending : IsLegible depth ending) : IsLegible depth (text ++ ' ' :: '.' :: ' ' :: ending) := by
  have hdot : IsLegible depth ['.'] :=
    isLegible_symbol (List.cons_ne_nil _ _) (List.all_eq_true.1 (by decide))
  exact htext.blank (hdot.blank hending)

/-- The texts of a value and of the tails of a chain, with two levels to spare for what the texts of
procedures show. -/
theorem IsValue.isLegible {datum : Datum} (hvalue : datum.IsValue store) :
    (∀ bound, datum.nesting ≤ bound → IsLegible (bound + 2) (datum.chars .literal)) ∧
      ∀ bound text, datum.nesting ≤ bound + 1 → IsLegible (bound + 2) text →
        IsLegible (bound + 2) (text ++ datum.tailChars .literal) := by
  -- an atom is spelled by itself, and behind a dot where it ends a chain
  have hatom : ∀ {atom : Datum},
      atom.tailChars .literal = ' ' :: '.' :: ' ' :: atom.chars .literal →
      (∀ depth, IsLegible (depth + 2) (atom.chars .literal)) →
        (∀ bound, atom.nesting ≤ bound → IsLegible (bound + 2) (atom.chars .literal)) ∧
          ∀ bound text, atom.nesting ≤ bound + 1 → IsLegible (bound + 2) text →
            IsLegible (bound + 2) (text ++ atom.tailChars .literal) := by
    intro atom htail hchars
    refine ⟨fun bound _ => hchars bound, fun bound text _ htext => ?_⟩
    rw [htail]
    exact isLegible_ending htext (hchars bound)
  induction hvalue with
  | bool value =>
    refine hatom rfl fun depth => ?_
    cases value <;> exact isLegible_symbol (by decide) (List.all_eq_true.1 (by decide))
  | num number => exact hatom rfl fun depth => isLegible_sourceChars number
  | str text => exact hatom rfl fun depth => ⟨_, [], Spells.string text.toList⟩
  | quoted hname => exact hatom rfl fun depth => hname.isLegible
  | empty =>
    refine ⟨fun bound _ => isLegible_emptyList, fun bound text _ htext => ?_⟩
    exact (List.append_nil text).symm ▸ htext
  | unspecified =>
    exact hatom rfl fun depth =>
      isLegible_symbol (by decide) (List.all_eq_true.1 (by decide))
  | @pair label head tail _ _ _ ihhead ihtail =>
    rw [nesting]
    constructor
    · intro bound hnesting
      obtain ⟨bound, rfl⟩ : ∃ below, bound = below + 1 := ⟨bound - 1, by omega⟩
      rw [chars, ← List.append_assoc]
      exact (ihtail.2 bound _ (by omega) (ihhead.1 bound (by omega))).parenthesized
    · intro bound text hnesting htext
      have happend : text ++ (Datum.pair label head tail).tailChars .literal =
          (text ++ ' ' :: head.chars .literal) ++ tail.tailChars .literal := by
        rw [tailChars, List.append_assoc, List.cons_append]
      rw [happend]
      exact ihtail.2 bound _ (by omega) (htext.blank (ihhead.1 bound (by omega)))
  | builtin procedure => exact hatom rfl fun depth => isLegible_builtinChars procedure
  | closure _ hname hformals _ _ =>
    exact hatom rfl fun depth => isLegible_closureChars hname hformals
  | promise _ =>
    have hpromise : ∀ depth, IsLegible (depth + 2) promiseChars := fun depth =>
      isLegible_symbol (by decide) (List.all_eq_true.1 (by decide))
    exact hatom rfl hpromise

/-- The text of a value is read as some forms, one at least, within every limit that is two levels
above its nesting, and for its depth only it may not be read within a lower one. -/
theorem IsValue.readSource_source {datum : Datum} (hvalue : datum.IsValue store) :
    ∃ forms ≠ [], ∀ limit,
      (datum.nesting + 2 ≤ limit → readSource limit datum.source = .ok forms) ∧
        (readSource limit datum.source = .ok forms ∨
          readSource limit datum.source = .error .tooDeep) := by
  obtain ⟨form, others, hspells⟩ := hvalue.isLegible.1 datum.nesting (Nat.le_refl _)
  refine ⟨(form :: others).map Derivation.datum, List.cons_ne_nil _ _, fun limit => ⟨?_, ?_⟩⟩
  · exact hspells.readSource_eq
  · exact hspells.readSource_eq_or_tooDeep limit

/-- A value can be printed within every limit above its nesting. -/
theorem IsValue.printObstacle?_eq_none {datum : Datum} (hvalue : datum.IsValue store) :
    (∀ limit, datum.nesting < limit → datum.printObstacle? limit = none) ∧
      ∀ limit, 0 < limit → datum.nesting ≤ limit → datum.tailObstacle? limit = none := by
  induction hvalue with
  | @pair label head tail _ _ _ ihhead ihtail =>
    have hrest : ∀ limit, head.nesting + 1 ≤ limit → tail.nesting ≤ limit →
        (head.printObstacle? limit <|> tail.tailObstacle? limit) = none := by
      intro limit hhead htail
      rw [ihhead.1 limit hhead, ihtail.2 limit (Nat.lt_of_lt_of_le (Nat.succ_pos _) hhead) htail]
      rfl
    rw [nesting]
    constructor
    · intro limit hlimit
      rw [printObstacle?, if_neg (by omega)]
      exact hrest (limit - 1) (by omega) (by omega)
    · intro limit _ hlimit
      rw [tailObstacle?]
      exact hrest limit (by omega) (by omega)
  | empty =>
    exact ⟨fun limit hlimit => if_neg (Nat.ne_of_gt (Nat.zero_lt_of_lt hlimit)),
      fun _ _ _ => rfl⟩
  | _ =>
    exact ⟨fun limit hlimit => if_neg (Nat.ne_of_gt (Nat.zero_lt_of_lt hlimit)),
      fun limit hlimit _ => if_neg (Nat.ne_of_gt hlimit)⟩

end Datum

end SmallScheme
