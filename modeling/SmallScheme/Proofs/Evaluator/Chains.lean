import SmallScheme.Proofs.Evaluator.Rejection
import SmallScheme.Proofs.Number.Rounding
/-!
# Chains as lists

A chain is its heads in order and what it ends in, whichever pairs it is made of. So it does not
matter in how many parts a chain is built, what is built is taken apart into the same heads, and a
chain ends in the empty list exactly if it can be built anew from its heads alone. These chains are
the ones that have a length and the ones that a procedure can be applied to.
-/

namespace SmallScheme

open Machine

/-! ### The structure of a chain -/

namespace Datum

variable {datum left right : Datum}

/-- The datum without the labels of the pairs that its chain is made of; its heads keep theirs. Two
chains have the same structure if nothing but these labels tells them apart. -/
def unlabelled : Datum → Datum
  | .pair _ head tail => .pair 0 head tail.unlabelled
  | datum => datum

theorem unlabelled_of_isPair_eq_false (hatom : datum.isPair = false) :
    datum.unlabelled = datum := by
  cases datum with
  | pair => cases hatom
  | _ => rfl

theorem items_unlabelled (datum : Datum) : datum.unlabelled.items = datum.items := by
  induction datum using chain_induction with
  | pair label head tail ih => rw [unlabelled, items, items, ih]
  | atom datum hatom => rw [unlabelled_of_isPair_eq_false hatom]

theorem ending_unlabelled (datum : Datum) : datum.unlabelled.ending = datum.ending := by
  induction datum using chain_induction with
  | pair label head tail ih => rw [unlabelled, ending, ending, ih]
  | atom datum hatom => rw [unlabelled_of_isPair_eq_false hatom]

theorem unlabelled_eq_foldr (datum : Datum) :
    datum.unlabelled = datum.items.foldr (.pair 0) datum.ending := by
  induction datum using chain_induction with
  | pair label head tail ih => rw [unlabelled, items, ending, ih, List.foldr_cons]
  | atom datum hatom =>
    rw [unlabelled_of_isPair_eq_false hatom, items_of_isPair_eq_false hatom,
      ending_of_isPair_eq_false hatom, List.foldr_nil]

/-- The structure of a chain is made of its heads in order and what it ends in. -/
theorem unlabelled_eq_iff :
    left.unlabelled = right.unlabelled ↔ left.items = right.items ∧ left.ending = right.ending := by
  constructor
  · intro heq
    refine ⟨?_, ?_⟩
    · rw [← items_unlabelled left, heq, items_unlabelled]
    · rw [← ending_unlabelled left, heq, ending_unlabelled]
  · rintro ⟨hitems, hending⟩
    rw [unlabelled_eq_foldr, hitems, hending, ← unlabelled_eq_foldr]

/-- A chain in front of a chain is one chain. -/
theorem unlabelled_chain_chain (outer inner joined : Label) (front back : List Datum)
    (ending : Datum) :
    (chain outer front (chain inner back ending)).unlabelled =
      (chain joined (front ++ back) ending).unlabelled := by
  rw [unlabelled_eq_iff]
  constructor
  · simp only [items_chain, List.append_assoc]
  · simp only [ending_chain]

/-- A chain is a list exactly if its heads alone give a chain of the same structure. -/
theorem isList_iff_unlabelled_chain (label : Label) (datum : Datum) :
    datum.isList ↔ (chain label datum.items .empty).unlabelled = datum.unlabelled := by
  have hending : (chain label datum.items .empty).ending = .empty := ending_chain ..
  rw [unlabelled_eq_iff, hending, isList_iff_ending]
  exact ⟨fun hempty => ⟨items_chain_empty label datum.items, hempty.symm⟩,
    fun ⟨_, hempty⟩ => hempty.symm⟩

/-! ### Chains that are equal -/

-- `same` computes as soon as both constructors are known, and the kind of double where there is one
theorem isPair_eq_of_same (hsame : left.same right = true) : left.isPair = right.isPair := by
  cases left <;> cases right <;> first | rfl | cases hsame | cases ‹Double› <;> cases hsame

theorem isEmpty_eq_of_same (hsame : left.same right = true) : left.isEmpty = right.isEmpty := by
  cases left <;> cases right <;> first | rfl | cases hsame | cases ‹Double› <;> cases hsame

/-- Data that are equal by value are both lists or both none. -/
theorem isList_eq_of_same (hsame : left.same right = true) : left.isList = right.isList := by
  induction left using chain_induction generalizing right with
  | pair label head tail ih =>
    have hpair := isPair_eq_of_same hsame
    cases right with
    | pair otherLabel otherHead otherTail =>
      have htail : tail.same otherTail = true := (Bool.and_eq_true_iff.1 hsame).2
      rw [isList, isList, ih htail]
    | _ => cases hpair
  | atom left hatom =>
    have hatom' : right.isPair = false := isPair_eq_of_same hsame ▸ hatom
    rw [isList_eq_isEmpty_ending, isList_eq_isEmpty_ending, ending_of_isPair_eq_false hatom,
      ending_of_isPair_eq_false hatom', isEmpty_eq_of_same hsame]

end Datum

namespace Machine

variable {context : Context} {host : Host} {steps limit : Nat} {frame : FrameId}
  {procedure list callee datum : Datum} {store between after : Store}

/-! ### Building a chain -/

/-- A chain that is built in two parts, the back first, is the chain that is built at once. -/
theorem listOf_append (front back : List Datum) (ending : Datum) (store : Store) :
    ∃ parts whole after, (listOf back ending >>= listOf front) store = .ok parts after ∧
      listOf (front ++ back) ending store = .ok whole after ∧
      parts.unlabelled = whole.unlabelled := by
  refine ⟨_, _, _, bind_of_ok (listOf_eq back ending store), ?_,
    Datum.unlabelled_chain_chain _ _ store.nextLabel front back ending⟩
  rw [listOf_eq, List.length_append, Nat.add_comm front.length, ← Nat.add_assoc]

/-- A chain that is built from heads and something that is no pair gives these heads back, and it is
a list exactly if that is the empty list. -/
theorem listOf_of_isPair_eq_false (heads : List Datum) {ending : Datum}
    (hatom : ending.isPair = false) (store : Store) :
    ∃ built after, listOf heads ending store = .ok built after ∧
      (heads ≠ [] → built.isPair = true) ∧ built.items = heads ∧
      (built.isList ↔ ending = .empty) := by
  refine ⟨_, _, listOf_eq heads ending store, ?_, ?_, ?_⟩
  · intro hne
    cases heads with
    | nil => exact absurd rfl hne
    | cons head heads => rfl
  · rw [Datum.items_chain, Datum.items_of_isPair_eq_false hatom, List.append_nil]
  · rw [Datum.isList_iff_ending, Datum.ending_chain, Datum.ending_of_isPair_eq_false hatom]

/-- A chain is a list exactly if its heads alone are built into a chain of the same structure; what
is built from those of an improper one is not even equal to it. -/
theorem isList_iff_listOf_items (datum : Datum) (store : Store) :
    ∃ copy after, listOf datum.items .empty store = .ok copy after ∧
      (datum.isList ↔ copy.unlabelled = datum.unlabelled) ∧
      (copy.same datum = true → datum.isList) := by
  refine ⟨_, _, listOf_eq datum.items .empty store,
    Datum.isList_iff_unlabelled_chain store.nextLabel datum, fun hsame => ?_⟩
  rw [← Datum.isList_eq_of_same hsame, Datum.isList_chain]
  rfl

/-! ### Lists as arguments -/

theorem callBuiltin_length_of_isList (hlist : datum.isList) :
    callBuiltin context .length [datum] store = .ok (.num (.ofNat datum.items.length)) store := by
  have hcall : callBuiltin context .length [datum] = length context datum := rfl
  rw [hcall, length, if_pos hlist]
  rfl

theorem callBuiltin_length_of_not_isList (hlist : ¬ datum.isList) :
    callBuiltin context .length [datum] store =
      .error (printing context.limit datum (.notList .length datum)) store := by
  have hcall : callBuiltin context .length [datum] = length context datum := rfl
  rw [hcall, length, if_neg hlist, failPrinting_eq]
  rfl

theorem isList_iff_exists_length (context : Context) (datum : Datum) (store : Store) :
    datum.isList ↔ ∃ value after, callBuiltin context .length [datum] store = .ok value after := by
  constructor
  · exact fun hlist => ⟨_, _, callBuiltin_length_of_isList hlist⟩
  · rintro ⟨value, after, hcall⟩
    by_contra hlist
    rw [callBuiltin_length_of_not_isList hlist] at hcall
    cases hcall

/-- Once both operands have values, an application to a list becomes the call of the one with the
elements of the other. -/
theorem evaluate_apply_of_values {label : Option Label}
    (hcallee : evaluate host (steps + 1) limit procedure frame store = .ok callee between)
    (hdatum : evaluate host (steps + 1) limit list frame between = .ok datum after) :
    evaluate host (steps + 1) (limit + 1) (.form label [.keyword .apply, procedure, list]) frame
        store =
      (if datum.isList then
        evaluate host (steps + 1) limit (.form none (callee :: datum.items)) frame
      else failPrinting limit datum (.notArgumentList datum)) after := by
  have happly : evaluate host (steps + 1) (limit + 1)
      (.form label [.keyword .apply, procedure, list]) frame =
      evaluateApply (Interpreter.contextWithin host (steps + 1) limit) frame [procedure, list] :=
    evaluate_of_done rfl
  rw [happly]
  exact (bind_of_ok hcallee).trans (bind_of_ok hdatum)

/-- Where the second operand of an application to a list has the datum as its value, the first one
is called with the elements of the datum. -/
def TakesAsArguments (datum : Datum) : Prop :=
  ∀ {host : Host} {steps limit : Nat} {label : Option Label} {procedure list callee : Datum}
    {frame : FrameId} {store between after : Store},
    evaluate host (steps + 1) limit procedure frame store = .ok callee between →
    evaluate host (steps + 1) limit list frame between = .ok datum after →
    evaluate host (steps + 1) (limit + 1) (.form label [.keyword .apply, procedure, list]) frame
        store =
      evaluate host (steps + 1) limit (.form none (callee :: datum.items)) frame after

/-- Where the second operand of an application to a list has the datum as its value, nothing is
called: the datum is refused once both operands have been evaluated. -/
def RefusesAsArguments (datum : Datum) : Prop :=
  ∀ {host : Host} {steps limit : Nat} {label : Option Label} {procedure list callee : Datum}
    {frame : FrameId} {store between after : Store},
    evaluate host (steps + 1) limit procedure frame store = .ok callee between →
    evaluate host (steps + 1) limit list frame between = .ok datum after →
    evaluate host (steps + 1) (limit + 1) (.form label [.keyword .apply, procedure, list]) frame
        store =
      .error (printing limit datum (.notArgumentList datum)) after

theorem takesAsArguments_of_isList (hlist : datum.isList) : TakesAsArguments datum := by
  intro host steps limit label procedure list callee frame store between after hcallee hdatum
  rw [evaluate_apply_of_values hcallee hdatum, if_pos hlist]

theorem refusesAsArguments_of_not_isList (hlist : ¬ datum.isList) : RefusesAsArguments datum := by
  intro host steps limit label procedure list callee frame store between after hcallee hdatum
  rw [evaluate_apply_of_values hcallee hdatum, if_neg hlist, failPrinting_eq]
  rfl

/-- No datum is both taken and refused: the call of a name that is not bound ends otherwise than a
refusal. -/
theorem not_takesAsArguments_of_refusesAsArguments (hrefuses : RefusesAsArguments datum) :
    ¬ TakesAsArguments datum := by
  intro htakes
  let host : Host := { settings := .ofVariables ⟨none, none, none⟩, files := .catalogue [] }
  let store : Store := { Store.empty with
    frames := #[⟨[("f", .symbol "g"), ("l", datum)], none⟩] }
  have hcallee : evaluate host 1 2 (.symbol "f") 0 store = .ok (.symbol "g") store :=
    Interpreter.evaluate_symbol rfl
  have hdatum : evaluate host 1 2 (.symbol "l") 0 store = .ok datum store :=
    Interpreter.evaluate_symbol rfl
  have hunbound : evaluate host 1 1 (.symbol "g") 0 store =
      .error (.fault (.unbound "g")) store := by
    have hlookup : store.lookup? "g" 0 = none := by
      rw [Store.lookup?, Store.find?]
      rfl
    rw [Interpreter.evaluate_symbol_eq, lookup_eq, hlookup]
  have hcall : evaluate host 1 2 (.form none (.symbol "g" :: datum.items)) 0 store =
      .error (.fault (.unbound "g")) store := by
    rw [evaluate, iterate_succ]
    exact bind_of_error (bind_of_error hunbound)
  have hrefused : evaluate host 1 3 (.form none [.keyword .apply, .symbol "f", .symbol "l"]) 0
      store = .error (printing 2 datum (.notArgumentList datum)) store := hrefuses hcallee hdatum
  have htaken : evaluate host 1 3 (.form none [.keyword .apply, .symbol "f", .symbol "l"]) 0
      store = .error (.fault (.unbound "g")) store := (htakes hcallee hdatum).trans hcall
  have hinterrupt : printing 2 datum (.notArgumentList datum) = .fault (.unbound "g") := by
    rw [hrefused] at htaken
    injection htaken
  rw [printing] at hinterrupt
  split at hinterrupt <;> cases hinterrupt

theorem isList_iff_takesAsArguments : datum.isList ↔ TakesAsArguments datum := by
  refine ⟨takesAsArguments_of_isList, fun htakes => ?_⟩
  by_contra hlist
  exact not_takesAsArguments_of_refusesAsArguments (refusesAsArguments_of_not_isList hlist) htakes

theorem not_isList_iff_refusesAsArguments : ¬ datum.isList ↔ RefusesAsArguments datum := by
  refine ⟨refusesAsArguments_of_not_isList, fun hrefuses hlist => ?_⟩
  exact not_takesAsArguments_of_refusesAsArguments hrefuses (takesAsArguments_of_isList hlist)

/-- A chain that is built in two parts, the back first, has the structure of the one that is built
at once. What is built from heads and something that is no pair gives these heads back, and it is a
list exactly if that is the empty list. Any datum is a list exactly if its heads alone give a chain
of its structure. The lists are the data that have a length, which is the number nearest to the
count of their heads, and the count itself up to `2 ^ 53`; and they are the data that an application
to a list takes as arguments. All other data are refused by both. -/
theorem chains_represent_lists :
    (∀ (front back : List Datum) (ending : Datum) (store : Store), ∃ parts whole after,
      (listOf back ending >>= listOf front) store = .ok parts after ∧
        listOf (front ++ back) ending store = .ok whole after ∧
        parts.unlabelled = whole.unlabelled) ∧
    (∀ (heads : List Datum) (ending : Datum) (store : Store), ending.isPair = false →
      ∃ built after, listOf heads ending store = .ok built after ∧
        (heads ≠ [] → built.isPair = true) ∧ built.items = heads ∧
        built.items.length = heads.length ∧ (built.isList ↔ ending = .empty)) ∧
    (∀ (datum : Datum) (store : Store), ∃ copy after,
      listOf datum.items .empty store = .ok copy after ∧
        (datum.isList ↔ copy.unlabelled = datum.unlabelled) ∧
        (copy.same datum = true → datum.isList)) ∧
    ∀ (datum : Datum) (context : Context) (store : Store),
      callBuiltin context .isList [datum] store = .ok (.bool datum.isList) store ∧
        (datum.isList ↔
          ∃ value after, callBuiltin context .length [datum] store = .ok value after) ∧
        (datum.isList → callBuiltin context .length [datum] store =
          .ok (.num (.ofNat datum.items.length)) store) ∧
        (datum.items.length ≤ 2 ^ 53 →
          (Double.ofNat datum.items.length).integer? = some (datum.items.length : Int)) ∧
        (datum.isList ↔ TakesAsArguments datum) ∧ (¬ datum.isList ↔ RefusesAsArguments datum) := by
  refine ⟨listOf_append, fun heads ending store hatom => ?_, isList_iff_listOf_items,
    fun datum context store => ⟨rfl, isList_iff_exists_length context datum store,
      callBuiltin_length_of_isList, Double.integer?_ofNat, isList_iff_takesAsArguments,
      not_isList_iff_refusesAsArguments⟩⟩
  obtain ⟨built, after, hbuilt, hpair, hitems, hlist⟩ := listOf_of_isPair_eq_false heads hatom store
  exact ⟨built, after, hbuilt, hpair, hitems, congrArg List.length hitems, hlist⟩

/-- What is no number at all and an improper chain make a list of two elements. The same heads
before a boolean make a chain that is no list, and it is refused as one. -/
theorem chains_represent_lists_of_two_heads :
    let heads : List Datum := [.num .nan, .pair 0 (.str "a") (.str "b")]
    let store : Store := { Store.empty with nextLabel := 1 }
    let context : Context := {
      host := { settings := .ofVariables ⟨none, none, none⟩, files := .catalogue [] }
      limit := 1
      evaluate := fun _ _ => pure .unspecified }
    (∃ built after, listOf heads .empty store = .ok built after ∧ built.items = heads ∧
      callBuiltin context .length [built] after = .ok (.num (.ofNat 2)) after ∧
      (Double.ofNat 2).integer? = some 2 ∧ TakesAsArguments built) ∧
    ∃ built after copy later, listOf heads (.bool true) store = .ok built after ∧
      built.items = heads ∧ listOf heads .empty after = .ok copy later ∧
      copy.unlabelled ≠ built.unlabelled ∧ RefusesAsArguments built := by
  intro heads store context
  obtain ⟨-, hbuild, hcopy, harguments⟩ := chains_represent_lists
  constructor
  · obtain ⟨built, after, hbuilt, -, hitems, hcount, hlist⟩ := hbuild heads .empty store rfl
    have hproper : built.isList := hlist.2 rfl
    obtain ⟨-, -, hlength, hexact, htakes, -⟩ := harguments built context after
    rw [hcount] at hlength hexact
    exact ⟨built, after, hbuilt, hitems, hlength hproper, hexact (by decide), htakes.1 hproper⟩
  · obtain ⟨built, after, hbuilt, -, hitems, -, hlist⟩ := hbuild heads (.bool true) store rfl
    have himproper : ¬ built.isList := fun hproper => Datum.noConfusion (hlist.1 hproper)
    obtain ⟨copy, later, hcopied, hstructure, -⟩ := hcopy built after
    rw [hitems] at hcopied
    have hrefuses : RefusesAsArguments built :=
      (harguments built context after).2.2.2.2.2.1 himproper
    exact ⟨built, after, copy, later, hbuilt, hitems, hcopied,
      fun heq => himproper (hstructure.2 heq), hrefuses⟩

end Machine

end SmallScheme
