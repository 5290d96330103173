import LijsCompiler.Token.Lexer

/-!
# The lexical grammar

`Spells` says which characters each kind of token covers, and `EndsBefore` what must not come next,
so that the token is the longest one.  A scan finds a token exactly when the two hold of it
(`scan_eq_ok_iff`): there is at most one way to cut a token off a text.
-/

namespace LijsCompiler

namespace Text

def joinLines (lines : List String) : List Char := ['\n'].intercalate (lines.map String.toList)

theorem not_mem_of_mem_splitOn {sep : Char} {cs piece : List Char}
    (h : piece ∈ cs.splitOn sep) : sep ∉ piece := by
  induction cs generalizing piece with
  | nil =>
      obtain rfl : piece = [] := by simpa using h
      simp
  | cons c cs ih =>
      rw [List.splitOn_cons_eq_if_modifyHead] at h
      by_cases hc : c = sep
      · rw [if_pos (by simpa using hc)] at h
        rcases List.mem_cons.1 h with rfl | h
        · simp
        · exact ih h
      · rw [if_neg (by simpa using hc)] at h
        obtain ⟨first, others, hsplit⟩ := List.exists_cons_of_ne_nil (List.splitOn_ne_nil sep cs)
        rw [hsplit] at h ih
        rcases List.mem_cons.1 h with rfl | h
        · simpa [Ne.symm hc] using ih (List.mem_cons_self ..)
        · exact ih (List.mem_cons_of_mem _ h)

/-- The lines of a text, as strings. -/
theorem joinLines_splitOn (cs : List Char) :
    joinLines ((cs.splitOn '\n').map String.ofList) = cs := by
  simp [joinLines, Function.comp_def]

theorem splitOn_joinLines {lines : List String} (hne : lines ≠ [])
    (hbreak : ∀ line ∈ lines, '\n' ∉ line.toList) :
    ((joinLines lines).splitOn '\n').map String.ofList = lines := by
  rw [joinLines, List.splitOn_intercalate]
  · simp [Function.comp_def]
  · simpa using hbreak
  · simpa using hne

end Text

namespace Token

/-- A letter, then letters, digits and dots. -/
def IsName (cs : List Char) : Prop :=
  ∃ c rest, cs = c :: rest ∧ c.isAlpha ∧ ∀ d ∈ rest, isNameChar d

/-- A digit, then digits and dots, with no dot at the end. -/
def IsNumber (cs : List Char) : Prop :=
  ∃ c rest, cs = c :: rest ∧ c.isDigit ∧ (∀ d ∈ rest, isNumberChar d) ∧ cs.getLast? ≠ some '.'

inductive Spells : TokenKind → List Char → Prop where
  | lineBreak : Spells .lineBreak ['\n']
  | mark (m : Mark) : Spells (.mark m) [m.char]
  /-- A keyword covers its word and one space. -/
  | keyword (k : Keyword) : Spells (.keyword k) (k.word.toList ++ [' '])
  | identifier {name : String} (hname : IsName name.toList) :
      Spells (.identifier name) name.toList
  | integer {text : String} (hnumber : IsNumber text.toList) (hdot : '.' ∉ text.toList) :
      Spells (.integer text) text.toList
  | float {text : String} (hnumber : IsNumber text.toList) (hdot : '.' ∈ text.toList) :
      Spells (.float text) text.toList
  | string {text : String} (hquote : '\'' ∉ text.toList) :
      Spells (.string text) ('\'' :: (text.toList ++ ['\'']))
  | lineComment {text : String} (hbreak : '\n' ∉ text.toList) :
      Spells (.lineComment text) ('/' :: '/' :: text.toList)
  | blockComment {lines : List String} (hlines : lines ≠ [])
      (hbreak : ∀ line ∈ lines, '\n' ∉ line.toList)
      (hend : ¬ ['*', '/'] <:+: Text.joinLines lines) :
      Spells (.blockComment lines) ('/' :: '*' :: (Text.joinLines lines ++ ['*', '/']))

/-- What may come next: a name or a number has ended, a name that looks like a keyword has no space
after it, and a line comment ends with its line. -/
def EndsBefore : TokenKind → Option Char → Prop
  | .identifier name, next =>
      (∀ c ∈ next, isNameChar c = false) ∧
        (name ∈ Keyword.all.map Keyword.word → next ≠ some ' ')
  | .integer _, next | .float _, next => ∀ c ∈ next, isNumberChar c = false
  | .lineComment _, next => next = none ∨ next = some '\n'
  | _, _ => True

theorem IsName.isAlpha_head {name rest cs : List Char} {c : Char} (hname : IsName name)
    (h : name ++ rest = c :: cs) : c.isAlpha := by
  obtain ⟨d, tail, rfl, hd, -⟩ := hname
  obtain ⟨rfl, -⟩ := List.cons.inj h
  exact hd

theorem IsName.isNameChar {name : List Char} (hname : IsName name) : ∀ c ∈ name, isNameChar c := by
  obtain ⟨d, tail, rfl, hd, htail⟩ := hname
  rw [List.forall_mem_cons]
  exact ⟨by simp [Token.isNameChar, Char.isAlphanum, hd], htail⟩

theorem IsNumber.isDigit_head {digits rest cs : List Char} {c : Char} (hdigits : IsNumber digits)
    (h : digits ++ rest = c :: cs) : c.isDigit := by
  obtain ⟨d, tail, rfl, hd, -⟩ := hdigits
  obtain ⟨rfl, -⟩ := List.cons.inj h
  exact hd

theorem IsNumber.isNumberChar {digits : List Char} (hdigits : IsNumber digits) :
    ∀ c ∈ digits, isNumberChar c := by
  obtain ⟨d, tail, rfl, hd, htail, -⟩ := hdigits
  rw [List.forall_mem_cons]
  exact ⟨by simp [Token.isNumberChar, hd], htail⟩

/-! ## Longest runs of a class -/

theorem takeWhile_append_of_stop {p : Char → Bool} {run rest : List Char}
    (hrun : ∀ c ∈ run, p c) (hrest : ∀ c ∈ rest.head?, p c = false) :
    (run ++ rest).takeWhile p = run := by
  rw [List.takeWhile_append_of_pos hrun]
  cases rest with
  | nil => simp
  | cons c rest => simp [hrest c rfl]

theorem dropWhile_append_of_stop {p : Char → Bool} {run rest : List Char}
    (hrun : ∀ c ∈ run, p c) (hrest : ∀ c ∈ rest.head?, p c = false) :
    (run ++ rest).dropWhile p = rest := by
  rw [List.dropWhile_append_of_pos hrun]
  cases rest with
  | nil => simp
  | cons c rest => simp [hrest c rfl]

theorem of_mem_takeWhile {p : Char → Bool} {cs : List Char} {c : Char}
    (h : c ∈ cs.takeWhile p) : p c :=
  List.all_eq_true.1 List.all_takeWhile c h

theorem head?_dropWhile_eq_false {p : Char → Bool} {cs : List Char} {c : Char}
    (h : c ∈ (cs.dropWhile p).head?) : p c = false := by
  have hnot := List.head?_dropWhile_not p cs
  rw [Option.mem_def.1 h] at hnot
  simpa using hnot

/-! ## Keywords -/

theorem mem_all_keywords (k : Keyword) : k ∈ Keyword.all := by
  cases k with
  | check c => cases c <;> decide
  | _ => decide

theorem isNameChar_of_mem_word (k : Keyword) : ∀ c ∈ k.word.toList, isNameChar c := by
  have hall : Keyword.all.all fun k => k.word.toList.all isNameChar := by decide
  exact List.all_eq_true.1 (List.all_eq_true.1 hall k (mem_all_keywords k))

theorem exists_word_eq_cons (k : Keyword) : ∃ c rest, k.word.toList = c :: rest ∧ c.isAlpha := by
  have hall : Keyword.all.all fun k => k.word.toList.head?.any Char.isAlpha := by decide
  have hany := List.all_eq_true.1 hall k (mem_all_keywords k)
  obtain ⟨c, hc, halpha⟩ := (Option.any_eq_true _ _).1 hany
  obtain ⟨rest, hrest⟩ := List.head?_eq_some_iff.1 hc
  exact ⟨c, rest, hrest, halpha⟩

/-- No keyword begins another, since each ends in its only space. -/
theorem eq_of_prefix_spelling {k k' : Keyword} (h : k.spelling <+: k'.spelling) : k = k' := by
  have hall : ∀ k ∈ Keyword.all, ∀ k' ∈ Keyword.all, k.spelling <+: k'.spelling → k = k' := by
    decide
  exact hall k (mem_all_keywords k) k' (mem_all_keywords k') h

theorem scanKeyword_eq_some_iff {cs : List Char} {lexeme : Lexeme} :
    scanKeyword cs = some lexeme ↔
      ∃ k : Keyword, ∃ rest, cs = k.spelling ++ rest ∧ lexeme = ⟨.keyword k, k.spelling, rest⟩ := by
  constructor
  · intro h
    obtain ⟨_, k, _, _, hk, _⟩ := List.findSome?_eq_some_iff.1 h
    split at hk
    · rename_i hpre
      obtain ⟨rest, rfl⟩ := List.isPrefixOf_iff_prefix.1 hpre
      refine ⟨k, rest, rfl, ?_⟩
      simpa using hk.symm
    · simp at hk
  · rintro ⟨k, rest, rfl, rfl⟩
    cases hscan : scanKeyword (k.spelling ++ rest) with
    | none =>
        have hnone := List.findSome?_eq_none_iff.1 hscan k (mem_all_keywords k)
        simp at hnone
    | some found =>
        obtain ⟨_, k', _, _, hk', _⟩ := List.findSome?_eq_some_iff.1 hscan
        split at hk'
        · rename_i hpre
          have hpre := List.isPrefixOf_iff_prefix.1 hpre
          obtain rfl : k = k' := by
            have hk := List.prefix_append k.spelling rest
            rcases List.prefix_or_prefix_of_prefix hk hpre with h | h
            · exact eq_of_prefix_spelling h
            · exact (eq_of_prefix_spelling h).symm
          simpa using hk'.symm
        · simp at hk'

theorem eq_word_of_append_eq_spelling {k : Keyword} {name rest tail : List Char}
    (hname : ∀ c ∈ name, isNameChar c) (hrest : ∀ c ∈ rest.head?, isNameChar c = false)
    (h : name ++ rest = k.spelling ++ tail) : name = k.word.toList ∧ rest = ' ' :: tail := by
  have hspace : ∀ c ∈ (' ' :: tail).head?, isNameChar c = false := by
    rintro c ⟨⟩
    decide
  have hword : name = k.word.toList := by
    rw [← takeWhile_append_of_stop hname hrest, h, Keyword.spelling, List.append_assoc]
    exact takeWhile_append_of_stop (isNameChar_of_mem_word k) hspace
  subst hword
  refine ⟨rfl, List.append_cancel_left (?_ : k.word.toList ++ rest = k.word.toList ++ _)⟩
  rw [h, Keyword.spelling, List.append_assoc]
  rfl

/-- A run of name characters begins with no keyword exactly if it is spelled like none or no space
follows it. -/
theorem scanKeyword_eq_none_iff {name : String} {rest : List Char}
    (hname : ∀ c ∈ name.toList, isNameChar c) (hrest : ∀ c ∈ rest.head?, isNameChar c = false) :
    scanKeyword (name.toList ++ rest) = none ↔
      (name ∈ Keyword.all.map Keyword.word → rest.head? ≠ some ' ') := by
  constructor
  · rintro hnone hmem hspace
    obtain ⟨k, _, rfl⟩ := List.mem_map.1 hmem
    obtain ⟨tail, rfl⟩ := List.head?_eq_some_iff.1 hspace
    have hsome := scanKeyword_eq_some_iff.2 ⟨k, tail, rfl, rfl⟩
    rw [Keyword.spelling, List.append_assoc, List.singleton_append, hnone] at hsome
    cases hsome
  · intro h
    cases hscan : scanKeyword (name.toList ++ rest) with
    | none => rfl
    | some lexeme =>
        obtain ⟨k, tail, hcs, _⟩ := scanKeyword_eq_some_iff.1 hscan
        obtain ⟨hword, hspace⟩ := eq_word_of_append_eq_spelling hname hrest hcs
        have hmem : name ∈ Keyword.all.map Keyword.word :=
          List.mem_map.2 ⟨k, mem_all_keywords k, (String.toList_inj.1 hword).symm⟩
        exact absurd (by rw [hspace]; rfl) (h hmem)

/-! ## Block comments -/

theorem not_infix_of_cutAtCommentEnd {cs body rest : List Char}
    (h : Text.cutAtCommentEnd cs = some (body, rest)) : ¬ ['*', '/'] <:+: body := by
  fun_induction Text.cutAtCommentEnd cs generalizing body with
  | case1 => cases h
  | case2 after =>
      cases h
      simp
  | case3 c after hne ih =>
      simp only [Option.map_eq_some_iff, Prod.mk.injEq, Prod.exists] at h
      obtain ⟨b, a, hcut, rfl, rfl⟩ := h
      have hcovers := Text.cutAtCommentEnd_covers hcut
      intro hinfix
      rcases List.infix_cons_iff.1 hinfix with hpre | hinfix
      · obtain ⟨tail, htail⟩ := hpre
        obtain ⟨rfl, rfl⟩ : '*' = c ∧ '/' :: tail = b := by simpa using htail
        exact hne (tail ++ '*' :: '/' :: a) rfl (by rw [← hcovers]; rfl)
      · exact ih hcut hinfix

theorem cutAtCommentEnd_append {body : List Char} (rest : List Char)
    (h : ¬ ['*', '/'] <:+: body) :
    Text.cutAtCommentEnd (body ++ '*' :: '/' :: rest) = some (body, rest) := by
  induction body with
  | nil => rfl
  | cons c body ih =>
      have hbody : ¬ ['*', '/'] <:+: body := fun hinfix => h (List.infix_cons hinfix)
      rw [List.cons_append, Text.cutAtCommentEnd, ih hbody]
      · rfl
      · -- a star and a slash at the front would be inside the body, or span its end
        rintro after rfl hslash
        cases body with
        | nil => simp at hslash
        | cons d body =>
            obtain ⟨rfl, -⟩ := List.cons.inj hslash
            exact h ⟨[], body, rfl⟩

/-! ## What a scan finds is spelled -/

/-- What is left of a text after a token must not continue it. -/
def Lexeme.IsCut (lexeme : Lexeme) : Prop :=
  Spells lexeme.kind lexeme.text ∧ EndsBefore lexeme.kind lexeme.rest.head?

theorem isCut_scanWord {c : Char} {cs : List Char} (hc : c.isAlpha) :
    (scanWord (c :: cs)).IsCut := by
  unfold scanWord
  cases hscan : scanKeyword (c :: cs) with
  | some lexeme =>
      obtain ⟨k, rest, -, rfl⟩ := scanKeyword_eq_some_iff.1 hscan
      exact ⟨.keyword k, trivial⟩
  | none =>
      have hchar : isNameChar c := by simp [isNameChar, Char.isAlphanum, hc]
      have hrest : ∀ d ∈ ((c :: cs).dropWhile isNameChar).head?, isNameChar d = false :=
        fun d hd => head?_dropWhile_eq_false hd
      have hname : IsName ((c :: cs).takeWhile isNameChar) := by
        rw [List.takeWhile_cons_of_pos hchar]
        exact ⟨c, _, rfl, hc, fun d hd => of_mem_takeWhile hd⟩
      refine ⟨?_, hrest, ?_⟩
      · rw [← String.toList_ofList (l := List.takeWhile isNameChar (c :: cs))] at hname
        simpa using Spells.identifier hname
      · rw [← scanKeyword_eq_none_iff (by simpa using fun d hd => of_mem_takeWhile hd) hrest]
        simpa using hscan

theorem isCut_of_scanNumber {position : Nat} {c : Char} {cs : List Char} {lexeme : Lexeme}
    (hc : c.isDigit) (h : scanNumber position (c :: cs) = .ok lexeme) : lexeme.IsCut := by
  have hchar : isNumberChar c := by simp [isNumberChar, hc]
  have hrest : ∀ d ∈ ((c :: cs).dropWhile isNumberChar).head?, isNumberChar d = false :=
    fun d hd => head?_dropWhile_eq_false hd
  unfold scanNumber at h
  dsimp only at h
  by_cases hdot : ((c :: cs).takeWhile isNumberChar).getLast? = some '.'
  · simp [hdot] at h
  · have hnumber : IsNumber ((c :: cs).takeWhile isNumberChar) := by
      refine ⟨c, cs.takeWhile isNumberChar, List.takeWhile_cons_of_pos hchar, hc, ?_, hdot⟩
      exact fun d hd => of_mem_takeWhile hd
    rw [if_neg (by simpa using hdot)] at h
    split at h
    · rename_i hmem
      cases h
      refine ⟨?_, hrest⟩
      rw [← String.toList_ofList (l := List.takeWhile isNumberChar (c :: cs))] at hnumber
      simpa using Spells.float hnumber (by simpa using hmem)
    · rename_i hmem
      cases h
      refine ⟨?_, hrest⟩
      rw [← String.toList_ofList (l := List.takeWhile isNumberChar (c :: cs))] at hnumber
      simpa using Spells.integer hnumber (by simpa using hmem)

theorem isCut_of_scanString {position : Nat} {cs : List Char} {lexeme : Lexeme}
    (h : scanString position cs = .ok lexeme) : lexeme.IsCut := by
  unfold scanString at h
  dsimp only at h
  split at h
  · cases h
  · rename_i quote rest hdrop
    cases h
    have hbody : '\'' ∉ cs.takeWhile (· != '\'') := fun hmem => by simpa using of_mem_takeWhile hmem
    have hquote : quote = '\'' := by
      have hhead : quote ∈ (cs.dropWhile (· != '\'')).head? := by simp [hdrop]
      simpa using head?_dropWhile_eq_false hhead
    subst hquote
    rw [← String.toList_ofList (l := cs.takeWhile (· != '\''))] at hbody
    refine ⟨?_, trivial⟩
    simpa using Spells.string hbody

theorem isCut_scanLineComment (cs : List Char) : (scanLineComment cs).IsCut := by
  have hbody : '\n' ∉ cs.takeWhile (· != '\n') := fun hmem => by simpa using of_mem_takeWhile hmem
  rw [← String.toList_ofList (l := cs.takeWhile (· != '\n'))] at hbody
  refine ⟨?_, ?_⟩
  · simpa [scanLineComment] using Spells.lineComment hbody
  · cases hdrop : (cs.dropWhile (· != '\n')).head? with
    | none => exact .inl hdrop
    | some c =>
        have hbreak : c = '\n' := by simpa using head?_dropWhile_eq_false hdrop
        exact .inr (hbreak ▸ hdrop)

theorem isCut_of_scanBlockComment {position : Nat} {cs : List Char} {lexeme : Lexeme}
    (h : scanBlockComment position cs = .ok lexeme) : lexeme.IsCut := by
  unfold scanBlockComment at h
  split at h
  · cases h
  · rename_i body rest hcut
    cases h
    have hjoin := Text.joinLines_splitOn body
    have hspells : Spells (.blockComment ((body.splitOn '\n').map String.ofList))
        ('/' :: '*' :: (Text.joinLines ((body.splitOn '\n').map String.ofList) ++ ['*', '/'])) := by
      refine .blockComment (by simp) ?_ ?_
      · intro line hline
        obtain ⟨piece, hpiece, rfl⟩ := List.mem_map.1 hline
        simpa using Text.not_mem_of_mem_splitOn hpiece
      · rw [hjoin]
        exact not_infix_of_cutAtCommentEnd hcut
    rw [hjoin] at hspells
    exact ⟨hspells, trivial⟩

theorem isCut_of_scan {position : Nat} {c : Char} {cs : List Char} {lexeme : Lexeme}
    (h : scan position c cs = .ok lexeme) : lexeme.IsCut := by
  unfold scan at h
  split at h
  · rename_i hc
    cases h
    exact ⟨hc ▸ .lineBreak, trivial⟩
  split at h
  · exact isCut_of_scanString h
  split at h
  · cases h
    exact isCut_scanWord ‹_›
  split at h
  · exact isCut_of_scanNumber ‹_› h
  split at h
  · split at h
    · cases h
      exact isCut_scanLineComment _
    · exact isCut_of_scanBlockComment h
    · cases h
  split at h
  · rename_i m hm
    cases h
    exact ⟨Mark.char_of_ofChar? hm ▸ .mark m, trivial⟩
  · cases h

/-! ## What is spelled is found -/

theorem scanWord_keyword (k : Keyword) (rest : List Char) :
    scanWord (k.spelling ++ rest) = ⟨.keyword k, k.spelling, rest⟩ := by
  have hscan := scanKeyword_eq_some_iff.2 ⟨k, rest, rfl, rfl⟩
  rw [scanWord, hscan]

theorem scanWord_identifier {name : String} {rest : List Char} (hname : IsName name.toList)
    (hend : EndsBefore (.identifier name) rest.head?) :
    scanWord (name.toList ++ rest) = ⟨.identifier name, name.toList, rest⟩ := by
  have hchars := hname.isNameChar
  rw [scanWord, (scanKeyword_eq_none_iff hchars hend.1).2 hend.2]
  simp only [takeWhile_append_of_stop hchars hend.1, dropWhile_append_of_stop hchars hend.1,
    String.ofList_toList]

theorem scanNumber_append {position : Nat} {digits rest : List Char} (hdigits : IsNumber digits)
    (hrest : ∀ c ∈ rest.head?, isNumberChar c = false) :
    scanNumber position (digits ++ rest) =
      .ok ⟨if '.' ∈ digits then .float (String.ofList digits) else .integer (String.ofList digits),
        digits, rest⟩ := by
  have hchars := hdigits.isNumberChar
  obtain ⟨_, _, _, _, _, hlast⟩ := hdigits
  simp only [scanNumber, takeWhile_append_of_stop hchars hrest,
    dropWhile_append_of_stop hchars hrest]
  rw [if_neg (by simpa using hlast)]
  by_cases hdot : '.' ∈ digits
  · rw [if_pos (by simpa using hdot), if_pos hdot]
  · rw [if_neg (by simpa using hdot), if_neg hdot]

theorem scanString_append {position : Nat} {body rest : List Char} (hbody : '\'' ∉ body) :
    scanString position (body ++ '\'' :: rest) =
      .ok ⟨.string (String.ofList body), '\'' :: (body ++ ['\'']), rest⟩ := by
  have hchars : ∀ c ∈ body, (c != '\'') = true := by
    intro c hc
    simpa using ne_of_mem_of_not_mem hc hbody
  have hquote : ∀ c ∈ ('\'' :: rest).head?, (c != '\'') = false := by
    rintro c ⟨⟩
    rfl
  simp [scanString, takeWhile_append_of_stop hchars hquote,
    dropWhile_append_of_stop hchars hquote]

theorem scanLineComment_append {body rest : List Char} (hbody : '\n' ∉ body)
    (hrest : rest.head? = none ∨ rest.head? = some '\n') :
    scanLineComment (body ++ rest) =
      ⟨.lineComment (String.ofList body), '/' :: '/' :: body, rest⟩ := by
  have hchars : ∀ c ∈ body, (c != '\n') = true := by
    intro c hc
    simpa using ne_of_mem_of_not_mem hc hbody
  have hbreak : ∀ c ∈ rest.head?, (c != '\n') = false := by
    intro c hc
    rcases hrest with hnone | hsome
    · simp [hnone] at hc
    · obtain rfl : '\n' = c := by simpa [hsome] using hc
      rfl
  simp only [scanLineComment, takeWhile_append_of_stop hchars hbreak,
    dropWhile_append_of_stop hchars hbreak]

theorem scanBlockComment_append {position : Nat} {lines : List String} (rest : List Char)
    (hlines : lines ≠ []) (hbreak : ∀ line ∈ lines, '\n' ∉ line.toList)
    (hend : ¬ ['*', '/'] <:+: Text.joinLines lines) :
    scanBlockComment position (Text.joinLines lines ++ '*' :: '/' :: rest) =
      .ok ⟨.blockComment lines, '/' :: '*' :: (Text.joinLines lines ++ ['*', '/']), rest⟩ := by
  simp only [scanBlockComment, cutAtCommentEnd_append rest hend,
    Text.splitOn_joinLines hlines hbreak]
  rfl

theorem scan_eq_scanWord {position : Nat} {c : Char} {cs : List Char} (hc : c.isAlpha) :
    scan position c cs = .ok (scanWord (c :: cs)) := by
  have hbreak : c ≠ '\n' := by rintro rfl; simp at hc
  have hquote : c ≠ '\'' := by rintro rfl; simp at hc
  unfold scan
  rw [if_neg hbreak, if_neg hquote, if_pos hc]

theorem not_isAlpha_of_isDigit {c : Char} (hc : c.isDigit) : ¬ c.isAlpha := by
  change ¬ (decide (c.val ≥ 'A'.val ∧ c.val ≤ 'Z'.val) ||
    (decide (c.val ≥ 'a'.val) && decide (c.val ≤ 'z'.val))) = true
  simp only [Char.isDigit, Bool.and_eq_true, Bool.or_eq_true, decide_eq_true_eq, ge_iff_le,
    UInt32.le_iff_toNat_le] at hc ⊢
  have hnine : ('9'.val.toNat) = 57 := rfl
  have hupper : ('A'.val.toNat) = 65 := rfl
  have hlower : ('a'.val.toNat) = 97 := rfl
  omega

theorem scan_eq_scanNumber {position : Nat} {c : Char} {cs : List Char} (hc : c.isDigit) :
    scan position c cs = scanNumber position (c :: cs) := by
  have hbreak : c ≠ '\n' := by rintro rfl; simp at hc
  have hquote : c ≠ '\'' := by rintro rfl; simp at hc
  unfold scan
  rw [if_neg hbreak, if_neg hquote, if_neg (not_isAlpha_of_isDigit hc), if_pos hc]

theorem scan_mark (position : Nat) (m : Mark) (cs : List Char) :
    scan position m.char cs = .ok ⟨.mark m, [m.char], cs⟩ := by
  cases m <;> rfl

/-- A token that is spelled and not continued is the one that a scan finds. -/
theorem scan_of_isCut {position : Nat} {c : Char} {cs : List Char} {lexeme : Lexeme}
    (hcut : lexeme.IsCut) (h : lexeme.text ++ lexeme.rest = c :: cs) :
    scan position c cs = .ok lexeme := by
  obtain ⟨kind, text, rest⟩ := lexeme
  obtain ⟨hspells, hend⟩ := hcut
  dsimp only at hspells hend h
  cases hspells with
  | lineBreak =>
      obtain ⟨rfl, rfl⟩ := List.cons.inj h
      rfl
  | mark m =>
      obtain ⟨rfl, rfl⟩ := List.cons.inj h
      exact scan_mark position m rest
  | keyword k =>
      obtain ⟨d, tail, hword, hd⟩ := exists_word_eq_cons k
      have hc : c.isAlpha := by
        rw [hword] at h
        obtain ⟨rfl, -⟩ := List.cons.inj h
        exact hd
      rw [scan_eq_scanWord hc, ← h]
      exact congrArg _ (scanWord_keyword k rest)
  | identifier hname =>
      rw [scan_eq_scanWord (hname.isAlpha_head h), ← h, scanWord_identifier hname hend]
  | integer hnumber hdot =>
      rw [scan_eq_scanNumber (hnumber.isDigit_head h), ← h, scanNumber_append hnumber hend,
        if_neg hdot, String.ofList_toList]
  | float hnumber hdot =>
      rw [scan_eq_scanNumber (hnumber.isDigit_head h), ← h, scanNumber_append hnumber hend,
        if_pos hdot, String.ofList_toList]
  | @string text hquote =>
      obtain ⟨rfl, rfl⟩ := List.cons.inj h
      have hscan : scan position '\'' (text.toList ++ '\'' :: rest) =
          .ok ⟨.string (String.ofList text.toList), '\'' :: (text.toList ++ ['\'']), rest⟩ :=
        scanString_append hquote
      simpa using hscan
  | @lineComment text hbreak =>
      obtain ⟨rfl, rfl⟩ := List.cons.inj h
      have hscan : scan position '/' ('/' :: (text.toList ++ rest)) =
          .ok (scanLineComment (text.toList ++ rest)) := rfl
      rw [scanLineComment_append hbreak hend, String.ofList_toList] at hscan
      exact hscan
  | @blockComment lines hlines hbreak hstop =>
      obtain ⟨rfl, rfl⟩ := List.cons.inj h
      have hscan : scan position '/' ('*' :: (Text.joinLines lines ++ '*' :: '/' :: rest)) =
          scanBlockComment position (Text.joinLines lines ++ '*' :: '/' :: rest) := rfl
      rw [scanBlockComment_append rest hlines hbreak hstop] at hscan
      simpa using hscan

/-- A scan finds a token exactly if the text begins with its spelling and does not continue it. -/
theorem scan_eq_ok_iff {position : Nat} {c : Char} {cs : List Char} {lexeme : Lexeme} :
    scan position c cs = .ok lexeme ↔
      lexeme.IsCut ∧ lexeme.text ++ lexeme.rest = c :: cs :=
  ⟨fun h => ⟨isCut_of_scan h, (scan_covers h).1⟩, fun h => scan_of_isCut h.1 h.2⟩

end Token

end LijsCompiler
