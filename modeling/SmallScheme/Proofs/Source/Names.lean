import SmallScheme.Evaluator.Loading
/-!
# The names of source files

The name of a source file is completed by an extension that the settings decide. What is completed
can be completed again without a change, provided that the extension is one that a name can have for
its suffix: a dot with something behind it in which there is no dot.
-/

namespace SmallScheme

namespace Path

/-! ### Reading and writing paths -/

theorem pieces_eq_splitOn (separator : Char) (text : List Char) :
    pieces separator text = text.splitOnP (· == separator) := by
  induction text with
  | nil => rfl
  | cons char rest ih =>
    rw [pieces, ih, List.splitOnP_cons_eq_if_modifyHead]
    by_cases hchar : char = separator
    · simp [hchar]
    · cases hrest : rest.splitOnP (· == separator) with
      | nil => exact absurd hrest (List.splitOnP_ne_nil _ _)
      | cons piece more => simp [hchar]

theorem not_mem_of_mem_pieces {separator : Char} {text : List Char} :
    ∀ piece ∈ pieces separator text, separator ∉ piece := by
  induction text with
  | nil => exact List.forall_mem_singleton.2 List.not_mem_nil
  | cons char rest ih =>
    rw [pieces]
    split
    · exact List.forall_mem_cons.2 ⟨List.not_mem_nil, ih⟩
    · next hchar =>
      split
      · simpa using Ne.symm hchar
      · next first more hrest =>
        rw [hrest, List.forall_mem_cons] at ih
        refine List.forall_mem_cons.2 ⟨?_, ih.2⟩
        rw [List.mem_cons, not_or]
        exact ⟨Ne.symm hchar, ih.1⟩

/-- What stands between the slashes of a path. -/
def IsName (name : String) : Prop :=
  name.toList ≠ [] ∧ name.toList ≠ ['.'] ∧ '/' ∉ name.toList

theorem names_append_slash (front back : List Char) :
    names (front ++ '/' :: back) = names front ++ names back := by
  have hpieces := List.splitOnP_append_cons (p := (· == '/')) front back (beq_self_eq_true '/')
  simp only [names, pieces_eq_splitOn, hpieces, List.filter_append, List.map_append]

theorem names_of_isName {name : String} (hname : IsName name) : names name.toList = [name] := by
  obtain ⟨hne, hdot, hslash⟩ := hname
  have hpieces : name.toList.splitOnP (· == '/') = [name.toList] :=
    List.splitOnP_eq_singleton fun char hmem => beq_eq_false_iff_ne.2 fun heq => hslash (heq ▸ hmem)
  rw [names, pieces_eq_splitOn, hpieces]
  simp [hne, hdot]

theorem isName_of_mem_names {text : List Char} {name : String} (hmem : name ∈ names text) :
    IsName name := by
  obtain ⟨piece, hpiece, rfl⟩ := List.mem_map.1 hmem
  obtain ⟨hsplit, hkept⟩ := List.mem_filter.1 hpiece
  rw [IsName, String.toList_ofList]
  exact ⟨by simp_all, by simp_all, not_mem_of_mem_pieces piece hsplit⟩

/-- The names in a text of several that are joined by slashes. -/
theorem names_intercalate (texts : List (List Char)) :
    names (['/'].intercalate texts) = texts.flatMap names := by
  induction texts with
  | nil => rfl
  | cons text rest ih =>
    cases rest with
    | nil => simp
    | cons next rest =>
      rw [List.intercalate_cons_cons, List.flatMap_cons, ← ih, ← names_append_slash]
      simp

theorem names_text (path : Path) :
    names path.text.toList = path.parts.flatMap fun part => names part.toList := by
  rw [text]
  split
  · next hempty =>
    rw [hempty.2]
    rfl
  · have hroot : ∀ rest : List Char, names (path.root.text.toList ++ rest) = names rest := by
      intro rest
      cases path.root with
      | none => rfl
      | slash => exact names_append_slash [] rest
      | doubleSlash =>
        exact (names_append_slash [] ('/' :: rest)).trans (names_append_slash [] rest)
    rw [String.toList_append, hroot, String.toList_intercalate]
    exact (names_intercalate _).trans (List.flatMap_map ..)

theorem rootOf_append (root : Root) {rest : List Char} (hrest : rest.head? ≠ some '/') :
    rootOf (root.text.toList ++ rest) = root := by
  cases rest with
  | nil => cases root <;> rfl
  | cons char rest =>
    have hchar : char ≠ '/' := fun heq => hrest (congrArg some heq)
    cases root <;> simp [rootOf, Root.text, hchar]

theorem head?_intercalate_ne_slash {parts : List String} (hparts : ∀ part ∈ parts, IsName part) :
    (['/'].intercalate (parts.map String.toList)).head? ≠ some '/' := by
  cases parts with
  | nil => rintro ⟨⟩
  | cons part rest =>
    obtain ⟨hne, -, hslash⟩ := hparts part List.mem_cons_self
    obtain ⟨char, more, hpart⟩ := List.exists_cons_of_ne_nil hne
    have hchar : char ≠ '/' := by
      rintro rfl
      exact hslash (hpart ▸ List.mem_cons_self)
    rw [List.map_cons, hpart]
    cases rest <;> simp [hchar]

/-- The text of a path that was read is read as the path again. -/
theorem ofText_text {path : Path} (hparts : ∀ part ∈ path.parts, IsName part) :
    ofText path.text = path := by
  have hnames : names path.text.toList = path.parts := by
    rw [names_text]
    rw [List.flatMap, List.map_congr_left fun part hmem => names_of_isName (hparts part hmem)]
    exact List.flatMap_singleton' _
  have hroot : rootOf path.text.toList = path.root := by
    rw [text]
    split
    · next hempty =>
      rw [hempty.1]
      rfl
    · rw [String.toList_append, String.toList_intercalate]
      exact rootOf_append _ (head?_intercalate_ne_slash hparts)
  rw [ofText, hnames, hroot]

/-! ### Suffixes -/

/-- A dot with something behind it in which there is no dot. -/
def IsSimpleSuffix (suffix : List Char) : Prop :=
  ∃ rest, suffix = '.' :: rest ∧ rest ≠ [] ∧ '.' ∉ rest

theorem suffixOf_append {stem suffix : List Char} (hstem : stem ≠ [])
    (hsuffix : IsSimpleSuffix suffix) : suffixOf (stem ++ suffix) = suffix := by
  obtain ⟨rest, rfl, hrest, hdot⟩ := hsuffix
  have hall : ∀ char ∈ rest.reverse, decide (char ≠ '.') = true := by
    intro char hmem
    rw [decide_eq_true_iff]
    rintro rfl
    exact hdot (List.mem_reverse.1 hmem)
  rw [suffixOf, List.reverse_append, List.reverse_cons, List.append_assoc,
    List.takeWhile_append_of_pos hall, List.dropWhile_append_of_pos hall]
  simp [hstem, hrest]

/-- A name has a suffix only at its end, and only a simple one. -/
theorem suffixOf_cases (name : List Char) :
    suffixOf name = [] ∨ IsSimpleSuffix (suffixOf name) ∧ suffixOf name <:+ name := by
  have happend := List.takeWhile_append_dropWhile (p := (· ≠ '.')) (l := name.reverse)
  have hafter := List.all_eq_true.1 (List.all_takeWhile (p := (· ≠ '.')) (l := name.reverse))
  rw [suffixOf]
  generalize name.reverse.takeWhile (· ≠ '.') = after at happend hafter
  cases hdrop : name.reverse.dropWhile (· ≠ '.') with
  | nil => simp
  | cons char before =>
    have hchar : char = '.' := by
      have hnot := List.head?_dropWhile_not (· ≠ '.') name.reverse
      rw [hdrop] at hnot
      simpa using hnot
    subst hchar
    have hname : name = before.reverse ++ '.' :: after.reverse := by
      rw [← List.reverse_inj, ← happend, hdrop]
      simp
    split
    · exact .inl rfl
    · next hparts =>
      rw [Bool.or_eq_true, not_or, List.isEmpty_iff, List.isEmpty_iff] at hparts
      refine .inr ⟨⟨_, rfl, hparts.1, fun hmem => ?_⟩, before.reverse, hname.symm⟩
      exact absurd rfl (of_decide_eq_true (hafter '.' (List.mem_reverse.1 hmem)))

/-! ### The extension of a path -/

variable {extension : String} {path extended : Path}

theorem isName_of_mem_parts {name : String} : ∀ part ∈ (ofText name).parts, IsName part :=
  fun _ => isName_of_mem_names

theorem name_mem_parts (hname : path.name ≠ "") : path.name ∈ path.parts := by
  rw [name, List.getLastD_eq_getLast?] at hname ⊢
  cases hlast : path.parts.getLast? with
  | none => simp [hlast] at hname
  | some last => exact List.mem_of_getLast? hlast

/-- What it takes to add an extension to the name of a path. -/
theorem withName_eq_ok {name : String} (hwith : path.withName name = .ok extended) :
    path.name ≠ "" ∧ isFileName name = true ∧
      extended = { path with parts := path.parts.dropLast ++ [name] } := by
  rw [withName] at hwith
  split at hwith
  · cases hwith
  · next hempty =>
    split at hwith
    · cases hwith
    · next hvalid =>
      cases hwith
      exact ⟨by simpa using hempty, by simpa using hvalid, rfl⟩

/-- Either the extension was the suffix already, or it was added. -/
theorem withExtension_cases (hwith : path.withExtension extension = .ok extended) :
    path.suffix = extension ∧ extended = path ∨
      path.suffix ≠ extension ∧ path.name ≠ "" ∧ isFileName (path.name ++ extension) = true ∧
        extended = { path with parts := path.parts.dropLast ++ [path.name ++ extension] } := by
  rw [withExtension] at hwith
  split at hwith
  · next hsuffix =>
    cases hwith
    exact .inl ⟨hsuffix, rfl⟩
  · next hsuffix => exact .inr ⟨hsuffix, withName_eq_ok hwith⟩

theorem suffix_eq_iff : path.suffix = extension ↔ suffixOf path.name.toList = extension.toList := by
  rw [suffix, ← String.toList_inj, String.toList_ofList]

/-- A text that ends in a character other than a slash or a dot has a name in it. -/
theorem names_ne_nil {text : List Char} {last : Char} (hlast : text.getLast? = some last)
    (hslash : last ≠ '/') (hdot : last ≠ '.') : names text ≠ [] := by
  by_cases hmem : '/' ∈ text
  · obtain ⟨front, back, rfl, -⟩ := List.eq_append_cons_of_mem hmem
    have hback : back.getLast? = some last := by
      cases back with
      | nil =>
        rw [List.getLast?_concat] at hlast
        exact absurd (Option.some.inj hlast).symm hslash
      | cons char back => simpa using hlast
    rw [names_append_slash]
    exact List.append_ne_nil_of_right_ne_nil _ (names_ne_nil hback hslash hdot)
  · have hname : IsName (String.ofList text) := by
      rw [IsName, String.toList_ofList]
      refine ⟨?_, ?_, hmem⟩
      · rintro rfl
        cases hlast
      · rintro rfl
        exact hdot (Option.some.inj hlast).symm
    have hnames := names_of_isName hname
    rw [String.toList_ofList] at hnames
    rw [hnames]
    exact List.cons_ne_nil _ _
termination_by text.length

theorem isName_append {name : String} {rest : List Char} (hname : IsName name)
    (hslash : '/' ∉ rest) : IsName (String.ofList (name.toList ++ '.' :: rest)) := by
  obtain ⟨hne, -, hclean⟩ := hname
  rw [IsName, String.toList_ofList]
  refine ⟨List.append_ne_nil_of_left_ne_nil hne _, ?_, ?_⟩
  · intro heq
    have hlength := congrArg List.length heq
    have hpos := List.length_pos_iff.2 hne
    simp at hlength
    omega
  · simp [hclean, hslash]

/-- With a dot and a text behind it, a name is read as a longer name, and there may be others. -/
theorem exists_names_append {name : String} (hname : IsName name) (rest : List Char) :
    ∃ first others, names (name.toList ++ '.' :: rest) = first :: others ∧
      name.toList.length < first.toList.length := by
  have hlonger : ∀ front : List Char,
      name.toList.length < (String.ofList (name.toList ++ '.' :: front)).toList.length := by
    intro front
    rw [String.toList_ofList, List.length_append, List.length_cons]
    omega
  by_cases hslash : '/' ∈ rest
  · obtain ⟨front, back, rfl, hfront⟩ := List.eq_append_cons_of_mem hslash
    have hfirst := names_of_isName (isName_append hname hfront)
    rw [String.toList_ofList] at hfirst
    refine ⟨_, names back, ?_, hlonger front⟩
    rw [← List.cons_append, ← List.append_assoc, names_append_slash, hfirst]
    rfl
  · have hfirst := names_of_isName (isName_append hname hslash)
    rw [String.toList_ofList] at hfirst
    exact ⟨_, [], hfirst, hlonger rest⟩

/-- A simple extension that makes a file name of a name has no slash. -/
theorem slash_not_mem_of_isFileName {name : String} (hname : IsName name)
    (hsimple : IsSimpleSuffix extension.toList)
    (hfile : isFileName (name ++ extension) = true) : '/' ∉ extension.toList := by
  obtain ⟨rest, hextension, -, hdot⟩ := hsimple
  simp only [isFileName, String.toList_append, hextension, Bool.and_eq_true, beq_iff_eq,
    bne_iff_ne] at hfile
  obtain ⟨⟨hend, -⟩, hlength⟩ := hfile
  rw [hextension, List.mem_cons, not_or]
  refine ⟨by decide, fun hmem => ?_⟩
  obtain ⟨front, back, rfl, -⟩ := List.eq_append_cons_of_mem hmem
  obtain ⟨first, others, hfirst, -⟩ := exists_names_append hname front
  rw [← List.cons_append, ← List.append_assoc] at hend hlength
  rw [names_append_slash, hfirst, List.length_append, List.length_cons] at hlength
  have hback : names back = [] := List.length_eq_zero_iff.1 (by omega)
  cases hlast : back.getLast? with
  | none =>
    rw [List.getLast?_eq_none_iff.1 hlast, List.getLast?_concat] at hend
    exact hend rfl
  | some last =>
    have hslash : last ≠ '/' := by
      rintro rfl
      rw [List.getLast?_append, List.getLast?_cons, hlast] at hend
      exact hend rfl
    have hother : last ≠ '.' := by
      rintro rfl
      exact hdot (by simp [List.mem_of_getLast? hlast])
    exact names_ne_nil hlast hslash hother hback

theorem name_append_parts (parts : List String) (name : String) (root : Root) :
    Path.name { root := root, parts := parts ++ [name] } = name :=
  List.getLastD_concat

/-- The extended path has names between its slashes, if the extension is simple. -/
theorem isName_of_mem_extended (hparts : ∀ part ∈ path.parts, IsName part)
    (hsimple : IsSimpleSuffix extension.toList)
    (hwith : path.withExtension extension = .ok extended) :
    ∀ part ∈ extended.parts, IsName part := by
  obtain ⟨-, rfl⟩ | ⟨-, hname, hfile, rfl⟩ := withExtension_cases hwith
  · exact hparts
  · have hlast := hparts _ (name_mem_parts hname)
    have hslash := slash_not_mem_of_isFileName hlast hsimple hfile
    obtain ⟨rest, hextension, -, -⟩ := hsimple
    have hothers : ∀ part ∈ path.parts.dropLast, IsName part :=
      fun part hmem => hparts part ((List.dropLast_sublist _).subset hmem)
    refine List.forall_mem_append.2 ⟨hothers, List.forall_mem_singleton.2 ?_⟩
    rw [hextension] at hslash
    have happend : String.ofList (path.name.toList ++ '.' :: rest) = path.name ++ extension := by
      rw [← String.toList_inj, String.toList_ofList, String.toList_append, hextension]
    exact happend ▸ isName_append hlast fun hmem => hslash (List.mem_cons_of_mem _ hmem)

/-- A path with a simple extension has it as its suffix. -/
theorem suffix_of_withExtension (hparts : ∀ part ∈ path.parts, IsName part)
    (hsimple : IsSimpleSuffix extension.toList)
    (hwith : path.withExtension extension = .ok extended) : extended.suffix = extension := by
  obtain ⟨hsuffix, rfl⟩ | ⟨-, hname, -, rfl⟩ := withExtension_cases hwith
  · exact hsuffix
  · rw [suffix_eq_iff, name_append_parts, String.toList_append]
    exact suffixOf_append (hparts _ (name_mem_parts hname)).1 hsimple

theorem withExtension_of_suffix (hsuffix : path.suffix = extension) :
    path.withExtension extension = .ok path := if_pos hsuffix

/-- The name of the path ends in the extension. -/
theorem extension_suffix_name (hwith : path.withExtension extension = .ok extended) :
    extension.toList <:+ extended.name.toList := by
  obtain ⟨hsuffix, rfl⟩ | ⟨-, -, -, rfl⟩ := withExtension_cases hwith
  · rw [suffix_eq_iff] at hsuffix
    rw [← hsuffix]
    obtain hnil | ⟨-, hends⟩ := suffixOf_cases extended.name.toList
    · rw [hnil]
      exact List.nil_suffix
    · exact hends
  · rw [name_append_parts, String.toList_append]
    exact List.suffix_append _ _

/-- An extension that is not simple is the suffix of no path. -/
theorem suffix_ne_of_not_simple (hdot : extension.toList.head? = some '.')
    (hsimple : ¬ IsSimpleSuffix extension.toList) (path : Path) : path.suffix ≠ extension := by
  intro hsuffix
  rw [suffix_eq_iff] at hsuffix
  obtain hnil | ⟨hsuffixOf, -⟩ := suffixOf_cases path.name.toList
  · rw [← hsuffix, hnil] at hdot
    cases hdot
  · exact hsimple (hsuffix ▸ hsuffixOf)

/-- So it is added once more each time. -/
theorem withExtension_text_ne (hparts : ∀ part ∈ path.parts, IsName part)
    (hdot : extension.toList.head? = some '.') (hsimple : ¬ IsSimpleSuffix extension.toList)
    (hwith : path.withExtension extension = .ok extended) :
    extended.name = path.name ++ extension ∧
      (ofText extended.text).withExtension extension ≠ .ok extended := by
  obtain ⟨hsuffix, -⟩ | ⟨-, hname, hfile, rfl⟩ := withExtension_cases hwith
  · exact absurd hsuffix (suffix_ne_of_not_simple hdot hsimple path)
  refine ⟨name_append_parts .., fun hagain => ?_⟩
  obtain ⟨hsuffix, -⟩ | ⟨-, -, -, hextended⟩ := withExtension_cases hagain
  · exact absurd hsuffix (suffix_ne_of_not_simple hdot hsimple _)
  obtain ⟨rest, hextension⟩ : ∃ rest, extension.toList = '.' :: rest := by
    cases hlist : extension.toList with
    | nil => simp [hlist] at hdot
    | cons char rest =>
      rw [hlist] at hdot
      exact ⟨rest, congrArg (· :: rest) (Option.some.inj hdot)⟩
  -- the added name is read as one that is longer than the name before, so it cannot be added again
  obtain ⟨first, others, hnames, hlonger⟩ :=
    exists_names_append (hparts _ (name_mem_parts hname)) rest
  have hothers : others = [] := by
    simp only [isFileName, String.toList_append, hextension, hnames, Bool.and_eq_true, beq_iff_eq,
      List.length_cons, Nat.add_eq_right, List.length_eq_zero_iff] at hfile
    exact hfile.2
  have hread : (ofText (Path.text { path with
      parts := path.parts.dropLast ++ [path.name ++ extension] })).name = first := by
    rw [name, ofText, names_text, List.flatMap_append, List.flatMap_singleton,
      String.toList_append, hextension, hnames, hothers]
    exact List.getLastD_concat
  have hsame := congrArg name hextended
  rw [name_append_parts, name_append_parts, hread] at hsame
  have hlength := congrArg (fun text => text.toList.length) hsame
  simp only [String.toList_append, List.length_append] at hlength
  omega

end Path

/-- A configured extension starts with a dot, whether it was given with one or not. -/
theorem Settings.head?_extension (given : Variables) :
    (Settings.ofVariables given).extension.toList.head? = some '.' := by
  have hdotted : ∀ extension : String, (dotted extension).toList.head? = some '.' := by
    intro extension
    rw [dotted]
    split
    · assumption
    · rw [String.toList_append]
      rfl
  exact hdotted _

/-- What a name is completed to ends in the configured extension. If the extension is a dot and
something without dots, a name that has it stays as it is, and the completed name denotes the same
file as the name, whatever the load path and the files. Any other extension is never found at the
end of a name, and so it is added again to a name that has it. -/
theorem extension_of_withExtension (given : Variables) (files : FileSystem) {name : String}
    {path : Path}
    (hpath : (Path.ofText name).withExtension (Settings.ofVariables given).extension =
      .ok path) :
    let host : Host := { settings := .ofVariables given, files }
    let extension := host.settings.extension
    extension.toList <:+ path.name.toList ∧
      (Path.IsSimpleSuffix extension.toList →
        (∀ stem, stem ≠ "" → (Path.ofText name).name = stem ++ extension →
          path = Path.ofText name) ∧
        (Path.ofText path.text).withExtension extension = .ok path ∧
          host.resolve path.text = host.resolve name) ∧
      (¬ Path.IsSimpleSuffix extension.toList →
        path.name = (Path.ofText name).name ++ extension ∧
          (Path.ofText path.text).withExtension extension ≠ .ok path) := by
  intro host extension
  refine ⟨Path.extension_suffix_name hpath, fun hsimple => ?_, fun hsimple =>
    Path.withExtension_text_ne Path.isName_of_mem_parts (Settings.head?_extension given)
      hsimple hpath⟩
  have hparts := Path.isName_of_mem_extended Path.isName_of_mem_parts hsimple hpath
  have hsuffix := Path.suffix_of_withExtension Path.isName_of_mem_parts hsimple hpath
  have hagain : (Path.ofText path.text).withExtension extension = .ok path := by
    rw [Path.ofText_text hparts]
    exact Path.withExtension_of_suffix hsuffix
  refine ⟨fun stem hstem hname => ?_, hagain, ?_⟩
  · have hkept : (Path.ofText name).suffix = extension := by
      rw [Path.suffix_eq_iff, hname, String.toList_append]
      refine Path.suffixOf_append ?_ hsimple
      rwa [ne_eq, String.toList_eq_nil_iff]
    rw [Path.withExtension_of_suffix hkept] at hpath
    exact (Except.ok.inj hpath).symm
  · rw [Host.resolve, Host.resolve, hagain, hpath]

/-- With the usual extension a name denotes the same file as the completed name. With one of two
parts, a name that has it is completed once more. -/
theorem extension_of_usual_and_double :
    Host.resolve { settings := .ofVariables ⟨none, none, none⟩, files := .catalogue [] } "lib.scm" =
        Host.resolve { settings := .ofVariables ⟨none, none, none⟩, files := .catalogue [] } "lib" ∧
      (Path.ofText "a.tar.gz.tar.gz").withExtension ".tar.gz" ≠
        .ok (Path.ofText "a.tar.gz.tar.gz") := by
  constructor
  · have hpath : (Path.ofText "lib").withExtension
        (Settings.ofVariables ⟨none, none, none⟩).extension = .ok (Path.ofText "lib.scm") := by rfl
    have hsimple : Path.IsSimpleSuffix ".scm".toList := ⟨"scm".toList, rfl, by decide, by decide⟩
    exact ((extension_of_withExtension _ (.catalogue []) hpath).2.1 hsimple).2.2
  · have hpath : (Path.ofText "a.tar.gz").withExtension
        (Settings.ofVariables ⟨none, some ".tar.gz", none⟩).extension =
          .ok (Path.ofText "a.tar.gz.tar.gz") := by rfl
    have hdouble : ¬ Path.IsSimpleSuffix ".tar.gz".toList := by
      rintro ⟨rest, hrest, -, hdot⟩
      cases hrest
      exact hdot (by decide)
    exact ((extension_of_withExtension _ (.catalogue []) hpath).2.2 hdouble).2

end SmallScheme
