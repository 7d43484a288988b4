import SmallScheme.Proofs.Reader.Reading
/-!
# How far reading looks

A token, and so a form, is read from the front of a text without a look at what follows it, other
than that a symbol must not go on there. So whatever follows the last token of a form could be
something else, and the form would still be read.
-/

namespace SmallScheme

theorem delimited_append {front back other : List Char}
    (hother : Delimited back → Delimited other) (hdelimited : Delimited (front ++ back)) :
    Delimited (front ++ other) := by
  cases front with
  | nil => exact hother hdelimited
  | cons char front =>
    rintro first ⟨⟩
    exact hdelimited char rfl

namespace Scan

theorem exists_gap_of_skipGap {inComment : Bool} {text rest : List Char} {char : Char}
    {position start : Nat} (hskip : skipGap inComment text position = (char :: rest, start)) :
    ∃ gap, text = gap ++ char :: rest ∧
      ∀ other, skipGap inComment (gap ++ char :: other) position = (char :: other, start) := by
  induction text generalizing inComment position with
  | nil => cases hskip
  | cons head tail ih =>
    have hlonger : ∀ {flag : Bool}, skipGap flag tail (position + 1) = (char :: rest, start) →
        (∀ text, skipGap inComment (head :: text) position = skipGap flag text (position + 1)) →
        ∃ gap, head :: tail = gap ++ char :: rest ∧
          ∀ other, skipGap inComment (gap ++ char :: other) position = (char :: other, start) := by
      intro flag htail hhead
      obtain ⟨gap, hgap, hothers⟩ := ih htail
      refine ⟨head :: gap, by rw [hgap, List.cons_append], fun other => ?_⟩
      rw [List.cons_append, hhead, hothers]
    unfold skipGap at hskip
    split at hskip
    · next hcomment => exact hlonger hskip fun text => by simp only [skipGap, hcomment, if_true]
    · next hcomment =>
      split at hskip
      · next hblank =>
        exact hlonger hskip fun text => by simp only [skipGap, if_neg hcomment, if_pos hblank]
      · next hblank =>
        split at hskip
        · next hsemicolon =>
          exact hlonger hskip fun text => by
            simp only [skipGap, if_neg hcomment, if_neg hblank, if_pos hsemicolon]
        · next hsemicolon =>
          cases hskip
          refine ⟨[], rfl, fun other => ?_⟩
          rw [List.nil_append, skipGap, if_neg hcomment, if_neg hblank, if_neg hsemicolon]

theorem splitString?_append {text inside after : List Char}
    (hsplit : splitString? text = some (inside, after)) (other : List Char) :
    splitString? (inside ++ other) = some (inside, other) := by
  fun_induction splitString? text generalizing inside after with
  | case1 => cases hsplit
  | case2 rest =>
    cases hsplit
    rfl
  | case3 char rest ih =>
    obtain ⟨⟨tail, remainder⟩, hfound, heq⟩ := Option.map_eq_some_iff.1 hsplit
    cases heq
    rw [List.cons_append, List.cons_append, splitString?, ih hfound]
    rfl
  | case4 char rest hquote hescape ih =>
    obtain ⟨⟨tail, remainder⟩, hfound, heq⟩ := Option.map_eq_some_iff.1 hsplit
    cases heq
    have hplain : ∀ next more, char = '\\' → tail ++ other = next :: more → False := by
      intro next more hchar hmore
      cases rest with
      | nil => cases hfound
      | cons following rest => exact hescape following rest hchar rfl
    rw [List.cons_append, splitString?.eq_4 _ _ hquote hplain, ih hfound]
    rfl

theorem exists_body_of_tokenAt {char : Char} {text rest : List Char} {position next : Nat}
    {token : Token} (hscan : tokenAt char text position = .token token rest next) :
    ∃ body, text = body ++ rest ∧ ∀ other, (Delimited rest → Delimited other) →
      tokenAt char (body ++ other) position = .token token other next := by
  unfold tokenAt at hscan
  split at hscan
  · next hquote =>
    cases hscan
    exact ⟨[], rfl, fun other _ => by rw [List.nil_append, tokenAt, if_pos hquote]⟩
  · next hquote =>
    split at hscan
    · next hopen =>
      cases hscan
      exact ⟨[], rfl, fun other _ => by rw [List.nil_append, tokenAt, if_neg hquote, if_pos hopen]⟩
    · next hopen =>
      split at hscan
      · next hclose =>
        cases hscan
        refine ⟨[], rfl, fun other _ => ?_⟩
        rw [List.nil_append, tokenAt, if_neg hquote, if_neg hopen, if_pos hclose]
      · next hclose =>
        split at hscan
        · next hstring =>
          split at hscan
          · next inside after hsplit =>
            cases hscan
            refine ⟨inside, append_of_splitString? hsplit, fun other _ => ?_⟩
            rw [tokenAt, if_neg hquote, if_neg hopen, if_neg hclose, if_pos hstring,
              splitString?_append hsplit]
          · cases hscan
        · next hstring =>
          cases hscan
          refine ⟨text.takeWhile isSymbolChar, List.takeWhile_append_dropWhile.symm, ?_⟩
          intro other hother
          have hname : ∀ char ∈ text.takeWhile isSymbolChar, isSymbolChar char :=
            fun char hmem => List.mem_takeWhile_imp hmem
          have hdelimited : Delimited (text.dropWhile isSymbolChar) := by
            intro char hhead
            have hnot := List.head?_dropWhile_not isSymbolChar text
            rw [Option.mem_def.1 hhead] at hnot
            exact hnot
          simp only [tokenAt, if_neg hquote, if_neg hopen, if_neg hclose, if_neg hstring,
            takeWhile_isSymbolChar_append hname (hother hdelimited),
            dropWhile_isSymbolChar_append hname (hother hdelimited)]

/-- What follows a token could be something else. -/
theorem exists_prefix_of_first {text rest : List Char} {position next : Nat} {token : Token}
    (hfirst : first text position = .token token rest next) :
    ∃ consumed, text = consumed ++ rest ∧ ∀ other, (Delimited rest → Delimited other) →
      first (consumed ++ other) position = .token token other next := by
  unfold first at hfirst
  split at hfirst
  · cases hfirst
  · next char tail start hskip =>
    obtain ⟨gap, rfl, hgap⟩ := exists_gap_of_skipGap hskip
    obtain ⟨body, rfl, hbody⟩ := exists_body_of_tokenAt hfirst
    refine ⟨gap ++ char :: body, by rw [List.append_assoc, List.cons_append], ?_⟩
    intro other hother
    rw [first, List.append_assoc, List.cons_append, hgap]
    exact hbody other hother

end Scan

namespace TokenStream

theorem exists_first_of_advance {text : List Char} {position : Nat} {token : Token}
    {after : TokenStream} (hadvance : (ofRest text position).advance = (.ok (some token), after)) :
    ∃ rest next, Scan.first text position = .token token rest next ∧ after = ofRest rest next := by
  simp only [advance, ofRest, Feed.pull] at hadvance
  split at hadvance <;> cases hadvance
  next hfirst => exact ⟨_, _, hfirst, rfl⟩

/-- What follows a form could be something else. -/
theorem exists_prefix_of_readInside {limit : Nat} {enclosures : List Enclosure} {text : List Char}
    {position : Nat} {datum : Datum} {after : TokenStream}
    (hread : (ofRest text position).readInside limit enclosures = (.ok (some datum), after)) :
    ∃ consumed rest next, text = consumed ++ rest ∧ after = ofRest rest next ∧
      ∀ other, (Delimited rest → Delimited other) →
        (ofRest (consumed ++ other) position).readInside limit enclosures =
          (.ok (some datum), ofRest other next) := by
  generalize hstream : ofRest text position = stream at hread
  fun_induction readInside limit enclosures stream generalizing text position with
  | case1 => cases hread
  | case2 => cases hread
  | case3 => cases hread
  | case4 enclosures stream token after hadvance complete hstep =>
    subst hstream
    obtain ⟨rest, next, hfirst, rfl⟩ := exists_first_of_advance hadvance
    obtain ⟨consumed, rfl, hothers⟩ := Scan.exists_prefix_of_first hfirst
    cases hread
    refine ⟨consumed, rest, next, rfl, rfl, fun other hother => ?_⟩
    rw [readInside_ofRest (hothers other hother), hstep]
    rfl
  | case5 => cases hread
  | case6 enclosures stream token after hadvance inner hstep ih =>
    subst hstream
    obtain ⟨tail, middle, hfirst, rfl⟩ := exists_first_of_advance hadvance
    obtain ⟨token, rfl, htoken⟩ := Scan.exists_prefix_of_first hfirst
    obtain ⟨consumed, rest, next, rfl, hafter, hothers⟩ := ih rfl hread
    refine ⟨token ++ consumed, rest, next, (List.append_assoc ..).symm, hafter, ?_⟩
    intro other hother
    rw [List.append_assoc, readInside_ofRest (htoken _ (delimited_append hother)), hstep]
    exact hothers other hother

theorem exists_readForm_of_readAll {limit : Nat} {stream : TokenStream} {datum : Datum}
    {data : List Datum} (hread : (stream.readAll limit).1 = datum :: data) :
    ∃ after, stream.readForm limit = (.ok (some datum), after) ∧
      (after.readAll limit).1 = data := by
  rw [readAll] at hread
  split at hread
  · cases hread
  · cases hread
  · next first after hform =>
    cases hread
    exact ⟨after, hform, rfl⟩

/-- The forms at the front of a text are read whatever follows them, and what follows is read as if
it stood alone. -/
theorem exists_prefix_of_readAll {limit : Nat} {front back : List Datum} {text : List Char}
    {position : Nat} (hread : ((ofRest text position).readAll limit).1 = front ++ back) :
    ∃ consumed rest next, text = consumed ++ rest ∧
      ∀ other, (Delimited rest → Delimited other) →
        (ofRest (consumed ++ other) position).readAll limit =
          (front ++ ((ofRest other next).readAll limit).1,
            ((ofRest other next).readAll limit).2) := by
  induction front generalizing text position with
  | nil => exact ⟨[], text, position, rfl, fun other _ => rfl⟩
  | cons datum front ih =>
    obtain ⟨after, hform, hrest⟩ := exists_readForm_of_readAll hread
    obtain ⟨form, tail, middle, rfl, rfl, hforms⟩ := exists_prefix_of_readInside hform
    obtain ⟨consumed, rest, next, rfl, hothers⟩ := ih hrest
    refine ⟨form ++ consumed, rest, next, (List.append_assoc ..).symm, fun other hother => ?_⟩
    rw [List.append_assoc, readAll_of_readForm (hforms _ (delimited_append hother)),
      hothers other hother, List.cons_append]

end TokenStream

end SmallScheme
