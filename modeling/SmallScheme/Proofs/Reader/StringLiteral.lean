import Mathlib.Algebra.Group.Nat.Even
import Mathlib.Data.List.TakeWhile
import SmallScheme.Reader.Token
/-!
# Where a string literal ends

A double quote closes a string literal if the backslashes before it are even in number. The literal
that is split off the front of a text ends at the first double quote that closes it.
-/

namespace SmallScheme

/-! ### Double quotes behind backslashes -/

/-- How many backslashes a text ends with. -/
def backslashesAtEnd (text : List Char) : Nat := (text.reverse.takeWhile (· = '\\')).length

/-- A double quote behind the text closes the string literal inside of which the text stands. -/
def ClosesBehind (body : List Char) : Prop := Even (backslashesAtEnd body)

/-- No double quote in the text closes the string literal inside of which the text stands. -/
def Unclosed (text : List Char) : Prop :=
  ∀ front back, text = front ++ '"' :: back → ¬ ClosesBehind front

section

variable {char : Char} {text body : List Char}

theorem backslashesAtEnd_cons_of_ne (hchar : char ≠ '\\') (text : List Char) :
    backslashesAtEnd (char :: text) = backslashesAtEnd text := by
  rw [backslashesAtEnd, backslashesAtEnd, List.reverse_cons, List.takeWhile_append]
  split
  · next hall =>
    rw [List.takeWhile_cons_of_neg (by simpa using hchar), List.append_nil, ← hall]
  · rfl

theorem backslashesAtEnd_cons_of_exists (hother : ∃ other ∈ text, other ≠ '\\') (char : Char) :
    backslashesAtEnd (char :: text) = backslashesAtEnd text := by
  rw [backslashesAtEnd, backslashesAtEnd, List.reverse_cons, List.takeWhile_append, if_neg]
  intro hall
  obtain ⟨other, hmem, hne⟩ := hother
  have hprefix := (List.takeWhile_prefix (· = '\\')).eq_of_length hall
  rw [← List.mem_reverse, ← hprefix] at hmem
  exact hne (by simpa using List.mem_takeWhile_imp hmem)

theorem backslashesAtEnd_of_forall (hall : ∀ other ∈ text, other = '\\') :
    backslashesAtEnd text = text.length := by
  rw [backslashesAtEnd, List.takeWhile_eq_self_iff.2, List.length_reverse]
  simpa using hall

theorem closesBehind_nil : ClosesBehind [] := ⟨0, rfl⟩

theorem not_closesBehind_backslash : ¬ ClosesBehind ['\\'] := by
  rw [ClosesBehind, backslashesAtEnd_of_forall (by simp)]
  exact Nat.not_even_one

theorem closesBehind_cons (hchar : char ≠ '\\') :
    ClosesBehind (char :: text) ↔ ClosesBehind text := by
  rw [ClosesBehind, backslashesAtEnd_cons_of_ne hchar, ClosesBehind]

/-- An escaped character does not matter, not even if it is a backslash. -/
theorem closesBehind_escape : ClosesBehind ('\\' :: char :: text) ↔ ClosesBehind text := by
  by_cases hchar : char = '\\'
  · by_cases hall : ∀ other ∈ text, other = '\\'
    · rw [ClosesBehind, ClosesBehind, backslashesAtEnd_of_forall hall,
        backslashesAtEnd_of_forall (by simpa [hchar] using hall), List.length_cons,
        List.length_cons, Nat.even_add_one, Nat.even_add_one, not_not]
    · have hother : ∃ other ∈ text, other ≠ '\\' := by simpa using hall
      rw [ClosesBehind, backslashesAtEnd_cons_of_exists (by simp [hother]),
        backslashesAtEnd_cons_of_exists hother, ClosesBehind]
  · rw [ClosesBehind, backslashesAtEnd_cons_of_exists ⟨char, List.mem_cons_self, hchar⟩,
      backslashesAtEnd_cons_of_ne hchar, ClosesBehind]

theorem unclosed_nil : Unclosed [] := by
  intro front back hsplit
  cases front <;> cases hsplit

theorem unclosed_cons (hescape : char ≠ '\\') (hquote : char ≠ '"') :
    Unclosed (char :: text) ↔ Unclosed text := by
  constructor
  · rintro hunclosed front back rfl hcloses
    exact hunclosed (char :: front) back rfl ((closesBehind_cons hescape).2 hcloses)
  · intro hunclosed front back hsplit hcloses
    cases front with
    | nil =>
      cases hsplit
      exact hquote rfl
    | cons first front =>
      cases hsplit
      exact hunclosed front back rfl ((closesBehind_cons hescape).1 hcloses)

theorem unclosed_escape : Unclosed ('\\' :: char :: text) ↔ Unclosed text := by
  constructor
  · rintro hunclosed front back rfl hcloses
    exact hunclosed ('\\' :: char :: front) back rfl (closesBehind_escape.2 hcloses)
  · intro hunclosed front back hsplit hcloses
    match front with
    | [] => cases hsplit
    | [_] =>
      cases hsplit
      exact not_closesBehind_backslash hcloses
    | _ :: _ :: front =>
      cases hsplit
      exact hunclosed front back rfl (closesBehind_escape.1 hcloses)

theorem unclosed_backslash : Unclosed ['\\'] := by
  intro front back hsplit
  match front with
  | [] => cases hsplit
  | [_] => cases hsplit
  | _ :: _ :: _ => cases hsplit

end

/-! ### Splitting a literal off -/

namespace Scan

/-- The inside of a string literal is all up to the first double quote that closes it. -/
theorem splitString?_spec (text : List Char) :
    match splitString? text with
    | some (inside, after) => ∃ body, text = body ++ '"' :: after ∧ inside = body ++ ['"'] ∧
        Unclosed body ∧ ClosesBehind body
    | none => Unclosed text := by
  fun_induction splitString? text with
  | case1 => exact unclosed_nil
  | case2 rest => exact ⟨[], rfl, rfl, unclosed_nil, closesBehind_nil⟩
  | case3 char rest ih =>
    cases hsplit : splitString? rest with
    | none =>
      rw [hsplit] at ih
      exact unclosed_escape.2 ih
    | some parts =>
      rw [hsplit] at ih
      obtain ⟨body, rfl, hinside, hunclosed, hcloses⟩ := ih
      exact ⟨'\\' :: char :: body, rfl, by rw [hinside]; rfl, unclosed_escape.2 hunclosed,
        closesBehind_escape.2 hcloses⟩
  | case4 char rest hquote hescape ih =>
    cases hsplit : splitString? rest with
    | none =>
      rw [hsplit] at ih
      by_cases hchar : char = '\\'
      · cases rest with
        | nil =>
          rw [hchar]
          exact unclosed_backslash
        | cons next rest => exact absurd rfl (hescape next rest hchar)
      · exact (unclosed_cons hchar hquote).2 ih
    | some parts =>
      rw [hsplit] at ih
      obtain ⟨body, rfl, hinside, hunclosed, hcloses⟩ := ih
      have hchar : char ≠ '\\' := by
        intro hchar
        cases body with
        | nil => exact hescape _ _ hchar rfl
        | cons next body => exact hescape _ _ hchar rfl
      exact ⟨char :: body, rfl, by rw [hinside]; rfl, (unclosed_cons hchar hquote).2 hunclosed,
        (closesBehind_cons hchar).2 hcloses⟩

/-- A string literal closes at one place only. -/
theorem body_unique {body other after remainder : List Char}
    (happend : body ++ '"' :: after = other ++ '"' :: remainder) (hbody : Unclosed body)
    (hcloses : ClosesBehind body) (hother : Unclosed other) (hotherCloses : ClosesBehind other) :
    body = other ∧ after = remainder := by
  rcases List.append_eq_append_iff.1 happend with ⟨middle, rfl, hafter⟩ | ⟨middle, rfl, hafter⟩
  · cases middle with
    | nil => simpa using hafter
    | cons char middle =>
      cases hafter
      exact absurd hcloses (hother _ _ rfl)
  · cases middle with
    | nil => simpa using hafter.symm
    | cons char middle =>
      cases hafter
      exact absurd hotherCloses (hbody _ _ rfl)

theorem splitString?_of_closes {body : List Char} (hunclosed : Unclosed body)
    (hcloses : ClosesBehind body) (after : List Char) :
    splitString? (body ++ '"' :: after) = some (body ++ ['"'], after) := by
  have hspec := splitString?_spec (body ++ '"' :: after)
  cases hsplit : splitString? (body ++ '"' :: after) with
  | none =>
    rw [hsplit] at hspec
    exact absurd hcloses (hspec body after rfl)
  | some parts =>
    rw [hsplit] at hspec
    obtain ⟨other, happend, hinside, hother, hotherCloses⟩ := hspec
    obtain ⟨rfl, hafter⟩ := body_unique happend hunclosed hcloses hother hotherCloses
    rw [hafter, ← hinside]

theorem splitString?_of_unclosed {text : List Char} (hunclosed : Unclosed text) :
    splitString? text = none := by
  have hspec := splitString?_spec text
  cases hsplit : splitString? text with
  | none => rfl
  | some parts =>
    rw [hsplit] at hspec
    obtain ⟨body, rfl, -, -, hcloses⟩ := hspec
    exact absurd hcloses (hunclosed body _ rfl)

end Scan

end SmallScheme
