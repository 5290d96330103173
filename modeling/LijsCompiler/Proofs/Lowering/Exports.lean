import LijsCompiler.Proofs.Lowering.DottedNames

/-!
# Exported names

An export assigns the chain of members that a name stands for to a property of the object of
exports.  The property is the text after the last dot of the name, and the chain ends with the last
segment that holds a character.  The two are the same exactly if the name does not end in a dot; the
property of a name that ends in a dot is empty (`exported_property_iff`).
-/

namespace LijsCompiler

open ESTree Lowering

/-! ## The text after the last dot -/

namespace Name

/-- The last segment of a name is the text after the last dot. -/
theorem exists_segments_eq_concat_tail (name : String) :
    ∃ others, segments name = others ++ [tail name] := by
  have htail : (tail name).toList = (name.toList.reverse.takeWhile (· != '.')).reverse := by
    rw [tail, String.toList_ofList]
  have hsplit : (tail name).toList.splitOn '.' = [(tail name).toList] :=
    List.splitOn_eq_singleton (isDotted_eq_false_iff.1 (isDotted_tail name))
  have hwhole : name.toList =
      (name.toList.reverse.dropWhile (· != '.')).reverse ++ (tail name).toList := by
    rw [htail, ← List.reverse_append, List.takeWhile_append_dropWhile, List.reverse_reverse]
  unfold segments
  cases hbefore : name.toList.reverse.dropWhile (· != '.') with
  | nil =>
      rw [hbefore, List.reverse_nil, List.nil_append] at hwhole
      exact ⟨[], by rw [hwhole, hsplit, List.map_singleton, String.ofList_toList, List.nil_append]⟩
  | cons dot before =>
      have hdot : dot ∈ (name.toList.reverse.dropWhile (· != '.')).head? := by
        rw [hbefore]
        rfl
      obtain rfl : dot = '.' := by simpa using Token.head?_dropWhile_eq_false hdot
      rw [hbefore, List.reverse_cons, List.append_assoc, List.singleton_append] at hwhole
      rw [hwhole, List.splitOn_append_cons_self, hsplit, List.map_append, List.map_singleton,
        String.ofList_toList]
      exact ⟨_, rfl⟩

/-- The last segment that holds a character is the text after the last dot, if that holds one. -/
theorem getLast?_members {name : String} (h : tail name ≠ "") :
    (members name).getLast? = some (tail name) := by
  obtain ⟨others, hsegments⟩ := exists_segments_eq_concat_tail name
  unfold members
  rw [hsegments, List.filter_append, List.filter_cons_of_pos (by simpa using h), List.filter_nil,
    List.getLast?_concat]

theorem ne_empty_of_mem_members {name segment : String} (h : segment ∈ members name) :
    segment ≠ "" := by
  simpa using (List.mem_filter.1 h).2

/-- Nothing stands after the last dot exactly if the name ends in a dot. -/
theorem tail_eq_empty_iff {name : String} (hne : name ≠ "") :
    tail name = "" ↔ name.toList.getLast? = some '.' := by
  rw [← String.toList_inj, tail, String.toList_ofList, ← List.head?_reverse]
  cases hname : name.toList.reverse with
  | nil =>
      rw [List.reverse_eq_nil_iff, String.toList_eq_nil_iff] at hname
      exact absurd hname hne
  | cons c cs =>
      by_cases hc : c = '.'
      · simp [hc]
      · simp [hc]

end Name

/-! ## The end of a chain of members -/

namespace ESTree

/-- The last segment of a chain of members, or its root where there is no other. -/
def lastSegment? : ESTree → Option String
  | identifier name => some name
  | memberExpression _ (identifier property) false => some property
  | _ => none

theorem lastSegment?_path {name segment : String}
    (h : (Name.members name).getLast? = some segment) :
    (path name).lastSegment? = some segment := by
  unfold path
  cases hmembers : Name.members name with
  | nil =>
      rw [hmembers] at h
      cases h
  | cons root others =>
      rw [hmembers] at h
      dsimp only
      rcases List.eq_nil_or_concat others with rfl | ⟨before, last, rfl⟩
      · exact h
      · rw [List.concat_eq_append, ← List.cons_append, List.getLast?_concat] at h
        rw [List.concat_eq_append, List.foldl_append]
        exact h

end ESTree

theorem Token.IsName.members_ne_nil {name : String} (h : IsName name.toList) :
    Name.members name ≠ [] := by
  have hroot : Name.root name ≠ "" := by
    intro hroot
    obtain rfl := Name.eq_empty_of_root_eq_empty (Name.isRooted_of_isName h) hroot
    obtain ⟨c, rest, hnil, -⟩ := h
    cases hnil
  obtain ⟨others, hmembers⟩ := Name.exists_members_eq_root_cons hroot
  rw [hmembers]
  exact List.cons_ne_nil _ _

/-! ## Sources with one export -/

theorem Token.lexes_export {name : String} (h : IsName name.toList) :
    ∃ s t, Lexes 0 ("export " ++ name).toList
      [⟨.keyword .exportName, s⟩, ⟨.identifier name, t⟩] := by
  have hkeyword : Lexeme.IsCut ⟨.keyword .exportName, Keyword.spelling .exportName, name.toList⟩ :=
    ⟨.keyword .exportName, trivial⟩
  have hidentifier : Lexeme.IsCut ⟨.identifier name, name.toList, []⟩ :=
    ⟨.identifier h, by simp [EndsBefore]⟩
  have hname : Lexes 7 (name.toList ++ []) [⟨.identifier name, .ofPosition 7 _⟩] :=
    .token hidentifier .nil
  rw [List.append_nil] at hname
  rw [String.toList_append]
  exact ⟨_, _, .token hkeyword hname⟩

theorem parseSource_export {name : String} (h : Token.IsName name.toList) :
    parseSource ("export " ++ name) = .ok [.exportName name] := by
  obtain ⟨s, t, hlexes⟩ := Token.lexes_export h
  rw [parseSource_eq_ok_iff]
  exact ⟨_, Token.tokenizeFrom_of_lexes hlexes,
    parse_eq_ok_iff.2 (.item (.exportName rfl rfl) .nil)⟩

theorem compile_export (c : Configuration) (supply : Supply) {name : String}
    (h : Token.IsName name.toList) :
    compile c supply ("export " ++ name) =
      .ok ⟨[expressionStatement (exported c.lowering name)], [], [], []⟩ := by
  rw [compile_eq_ok_iff]
  refine ⟨_, parseSource_export h, ?_⟩
  have hnames := introduced_initialContext c.lowering supply [.exportName name]
  have hdrawn := drawn_initialContext c.lowering supply [.exportName name]
  change some (Lowered.mk [_] _ _ []) = _
  rw [hnames, hdrawn]
  rfl

/-- Let a name be a letter followed by letters, digits and dots.  In every place an export of it
assigns its chain of members to one property of the object of exports, and so does the source that
holds nothing but this export.  The property is the last segment of that chain exactly if the name
does not end in a dot.  If it does, the property is empty, which the last segment never is. -/
theorem exported_property_iff {name : String} (h : Token.IsName name.toList) :
    ∃ property segment,
      (∀ o place c, (lowerNode o place (.exportName name)).run c =
        some (place.embed (assignmentExpression (member (path o.exportsTarget) property)
          (path name)), c)) ∧
      (∀ (c : Configuration) supply, compile c supply ("export " ++ name) =
        .ok ⟨[expressionStatement (assignmentExpression
          (member (path c.lowering.exportsTarget) property) (path name))], [], [], []⟩) ∧
      (path name).lastSegment? = some segment ∧ segment ≠ "" ∧
      (property = segment ↔ name.toList.getLast? ≠ some '.') ∧
      (property = "" ↔ name.toList.getLast? = some '.') := by
  obtain ⟨segment, hsegment⟩ : ∃ segment, (Name.members name).getLast? = some segment :=
    ⟨_, List.getLast?_eq_some_getLast h.members_ne_nil⟩
  have hne : segment ≠ "" := Name.ne_empty_of_mem_members (List.mem_of_getLast? hsegment)
  have hname : name ≠ "" := by
    rintro rfl
    exact h.members_ne_nil rfl
  have hempty := Name.tail_eq_empty_iff hname
  refine ⟨Name.tail name, segment, ?_, ?_, lastSegment?_path hsegment, hne, ?_, hempty⟩
  · intro o place c
    rw [lowerNode]
    rfl
  · intro c supply
    exact compile_export c supply h
  · rw [Ne, ← hempty]
    constructor
    · rintro rfl
      exact hne
    · intro htail
      rw [Name.getLast?_members htail] at hsegment
      exact Option.some.inj hsegment

/-- Dots may be repeated inside of a name. -/
theorem exported_property_iff_repeated_dots :
    Token.IsName "a..b.c9".toList ∧ (path "a..b.c9").lastSegment? = some "c9" ∧
      compile {} (.ofSeed 0) "export a..b.c9" =
        .ok ⟨[expressionStatement (assignmentExpression (member (path "module.exports") "c9")
          (path "a..b.c9"))], [], [], []⟩ := by
  have hname : Token.IsName "a..b.c9".toList :=
    ⟨'a', "..b.c9".toList, rfl, by decide, by simp [Token.isNameChar]⟩
  obtain ⟨property, segment, -, hcompile, hlast, -, hsame, -⟩ := exported_property_iff hname
  have hsegment : (path "a..b.c9").lastSegment? = some "c9" := by decide
  rw [hsegment, Option.some.injEq] at hlast
  obtain rfl : property = "c9" := by
    rw [hlast]
    exact hsame.2 (by decide)
  exact ⟨hname, hsegment, hcompile {} (.ofSeed 0)⟩

/-- The name `a.` stands for `a`, but is exported as a property without a name. -/
theorem exported_property_of_trailing_dot :
    compile {} (.ofSeed 0) "export a." =
        .ok ⟨[expressionStatement (assignmentExpression (member (path "module.exports") "")
          (path "a."))], [], [], []⟩ ∧
      path "a." = identifier "a" := by
  have hname : Token.IsName "a.".toList :=
    ⟨'a', ['.'], rfl, by decide, by simp [Token.isNameChar]⟩
  have hcompile := compile_export {} (.ofSeed 0) hname
  have htail : Name.tail "a." = "" := by decide
  rw [exported, htail] at hcompile
  exact ⟨hcompile, rfl⟩

end LijsCompiler
