import SmallScheme.Evaluator.Evaluate
import SmallScheme.Proofs.Soundness.Store
/-!
# What data refer to

Closures and unforced promises refer to the frame that they were made in, and any datum refers to
the promises that occur in it. A datum is in a scope, which is a set of frames and promises, if it
refers to nothing outside. Steps that take data apart or put them together keep them in scope.
-/

namespace SmallScheme

/-- What a datum can refer to in the store. -/
inductive Reference where
  | frame (id : FrameId)
  | promise (id : PromiseId)

namespace Datum

/-- The reference occurs in the datum: through pairs, forms and the bodies of closures. -/
inductive RefersTo : Datum → Reference → Prop where
  | item {label : Option Label} {items : List Datum} {item : Datum} {reference : Reference}
    (hmem : item ∈ items) (hitem : RefersTo item reference) :
    RefersTo (.form label items) reference
  | head {label : Label} {head tail : Datum} {reference : Reference}
    (hhead : RefersTo head reference) : RefersTo (.pair label head tail) reference
  | tail {label : Label} {head tail : Datum} {reference : Reference}
    (htail : RefersTo tail reference) : RefersTo (.pair label head tail) reference
  | body {label : Label} {name : Option String} {formals : Formals} {body : List Datum}
    {frame : FrameId} {form : Datum} {reference : Reference} (hmem : form ∈ body)
    (hform : RefersTo form reference) : RefersTo (.closure label name formals body frame) reference
  | captured {label : Label} {name : Option String} {formals : Formals} {body : List Datum}
    {frame : FrameId} : RefersTo (.closure label name formals body frame) (.frame frame)
  | promise {id : PromiseId} : RefersTo (.promise id) (.promise id)

def InScope (scope : Reference → Prop) (datum : Datum) : Prop :=
  ∀ ⦃reference : Reference⦄, datum.RefersTo reference → scope reference

variable {scope : Reference → Prop}

/-! ### Data with parts -/

@[simp] theorem inScope_form {label : Option Label} {items : List Datum} :
    (form label items).InScope scope ↔ ∀ item ∈ items, item.InScope scope := by
  constructor
  · exact fun hform item hmem reference hitem => hform (.item hmem hitem)
  · rintro hitems reference ⟨⟩
    next item hmem hitem => exact hitems item hmem hitem

@[simp] theorem inScope_pair {label : Label} {head tail : Datum} :
    (pair label head tail).InScope scope ↔ head.InScope scope ∧ tail.InScope scope := by
  constructor
  · exact fun hpair => ⟨fun _ hhead => hpair (.head hhead), fun _ htail => hpair (.tail htail)⟩
  · rintro ⟨hhead, htail⟩ reference (_ | _)
    · next hreference => exact hhead hreference
    · next hreference => exact htail hreference

@[simp] theorem inScope_closure {label : Label} {name : Option String} {formals : Formals}
    {body : List Datum} {frame : FrameId} :
    (closure label name formals body frame).InScope scope ↔
      (∀ form ∈ body, form.InScope scope) ∧ scope (.frame frame) := by
  constructor
  · exact fun hclosure =>
      ⟨fun form hmem _ hform => hclosure (.body hmem hform), hclosure .captured⟩
  · rintro ⟨hbody, hframe⟩ reference (_ | _)
    · next form hmem hform => exact hbody form hmem hform
    · exact hframe

@[simp] theorem inScope_promise {id : PromiseId} :
    (promise id).InScope scope ↔ scope (.promise id) := by
  constructor
  · exact fun hpromise => hpromise .promise
  · rintro hid reference ⟨⟩
    exact hid

/-! ### Data without references -/

theorem inScope_bool (value : Bool) : (bool value).InScope scope := by rintro _ ⟨⟩

theorem inScope_num (number : Double) : (num number).InScope scope := by rintro _ ⟨⟩

theorem inScope_symbol (name : String) : (symbol name).InScope scope := by rintro _ ⟨⟩

theorem inScope_quoted (name : String) : (quoted name).InScope scope := by rintro _ ⟨⟩

theorem inScope_empty : empty.InScope scope := by rintro _ ⟨⟩

theorem inScope_unspecified : unspecified.InScope scope := by rintro _ ⟨⟩

/-- Syntax refers to nothing. -/
theorem IsSyntax.inScope {datum : Datum} (hwritten : datum.IsSyntax) : datum.InScope scope := by
  induction hwritten with
  | form _ ih => exact inScope_form.2 ih
  | _ => rintro _ ⟨⟩

/-! ### Lists and bodies -/

theorem InScope.of_mem_items {datum item : Datum} (hdatum : datum.InScope scope)
    (hmem : item ∈ datum.items) : item.InScope scope := by
  fun_induction items datum with
  | case1 label head tail ih =>
    rw [inScope_pair] at hdatum
    rcases List.mem_cons.1 hmem with rfl | hmem
    · exact hdatum.1
    · exact ih hdatum.2 hmem
  | case2 => exact absurd hmem List.not_mem_nil

theorem inScope_chain {label : Label} {heads : List Datum} {ending : Datum}
    (hheads : ∀ head ∈ heads, head.InScope scope) (hending : ending.InScope scope) :
    (chain label heads ending).InScope scope := by
  induction heads generalizing label with
  | nil => exact hending
  | cons head heads ih =>
    rw [List.forall_mem_cons] at hheads
    exact inScope_pair.2 ⟨hheads.1, ih hheads.2⟩

theorem inScope_ofBody {body : List Datum} (hbody : ∀ form ∈ body, form.InScope scope) :
    (ofBody body).InScope scope := by
  match body with
  | [] => exact inScope_unspecified
  | [expression] => exact hbody expression List.mem_cons_self
  | first :: second :: rest =>
    exact inScope_form.2 (List.forall_mem_cons.2 ⟨inScope_symbol _, hbody⟩)

theorem inScope_branch {test consequent alternative : Datum} (htest : test.InScope scope)
    (hconsequent : consequent.InScope scope) (halternative : alternative.InScope scope) :
    (form none [keyword .branch, test, consequent, alternative]).InScope scope := by
  rw [inScope_form]
  simp only [List.forall_mem_cons]
  exact ⟨inScope_symbol _, htest, hconsequent, halternative,
    fun _ hmem => absurd hmem List.not_mem_nil⟩

theorem inScope_of_operandsOf? {form : SpecialForm} {datum : Datum} {operands : List Datum}
    (hdatum : datum.InScope scope) (hoperands : datum.operandsOf? form = some operands) :
    ∀ operand ∈ operands, operand.InScope scope := by
  rw [operandsOf?.eq_def] at hoperands
  split at hoperands
  · split at hoperands <;> cases hoperands
    exact (List.forall_mem_cons.1 (inScope_form.1 hdatum)).2
  · cases hoperands

end Datum

variable {scope : Reference → Prop}

/-! ### Clauses -/

theorem inScope_of_expandClause {limit number : Nat} {isLast : Bool}
    {clause alternative expansion : Datum} (hclause : clause.InScope scope)
    (halternative : alternative.InScope scope)
    (hexpand : expandClause limit number isLast alternative clause = .ok expansion) :
    expansion.InScope scope := by
  unfold expandClause at hexpand
  split at hexpand
  · cases hexpand
  · obtain ⟨htest, hbody⟩ := List.forall_mem_cons.1 (Datum.inScope_form.1 hclause)
    split at hexpand
    · cases hexpand
      exact Datum.inScope_branch htest (Datum.inScope_ofBody hbody) halternative
    · split at hexpand <;> cases hexpand
      exact Datum.inScope_ofBody hbody
  · obtain ⟨htest, hbody⟩ := List.forall_mem_cons.1 (Datum.inScope_form.1 hclause)
    cases hexpand
    exact Datum.inScope_branch htest (Datum.inScope_ofBody hbody) halternative
  · split at hexpand <;> cases hexpand

theorem inScope_of_expandClauses {limit number : Nat} {clauses : List Datum} {expansion : Datum}
    (hclauses : ∀ clause ∈ clauses, clause.InScope scope)
    (hexpand : expandClauses limit number clauses = .ok expansion) :
    expansion.InScope scope := by
  induction clauses generalizing number expansion with
  | nil =>
    cases hexpand
    exact Datum.inScope_unspecified
  | cons clause rest ih =>
    rw [List.forall_mem_cons] at hclauses
    rw [expandClauses] at hexpand
    cases hrest : expandClauses limit (number + 1) rest with
    | error interrupt =>
      rw [hrest] at hexpand
      cases hexpand
    | ok alternative =>
      rw [hrest] at hexpand
      exact inScope_of_expandClause hclauses.1 (ih hclauses.2 hrest) hexpand

/-! ### What holds data -/

def Step.InScope (scope : Reference → Prop) : Step → Prop
  | .done value => value.InScope scope
  | .proceed expression frame => expression.InScope scope ∧ scope (.frame frame)

def Bindings.InScope (scope : Reference → Prop) (bindings : Bindings) : Prop :=
  ∀ binding ∈ bindings, binding.2.InScope scope

def Promise.InScope (scope : Reference → Prop) : Promise → Prop
  | .pending expression frame => expression.InScope scope ∧ scope (.frame frame)
  | .forced value => value.InScope scope

/-- Everything is in the scope that leaves nothing out. -/
theorem Promise.inScope_everything (promise : Promise) : promise.InScope fun _ => True := by
  cases promise with
  | pending expression frame => exact ⟨fun _ _ => trivial, trivial⟩
  | forced value => exact fun _ _ => trivial

end SmallScheme
