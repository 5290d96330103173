import LijsCompiler.Proofs.Lexer.Tokenization

/-!
# What a fault of the text blames

A fault is a character that begins or ends no token, or a string or a comment that is still open
when the text ends.  `LexError.Blames` says where such a fault is and what its span covers, by a
decomposition of the text.  Whatever text has no tokens is blamed in this way
(`blames_of_tokenize`).
-/

namespace LijsCompiler

/-- The error blames a part of the text: one character, or all that follows an opening delimiter. -/
inductive LexError.Blames (source : List Char) : LexError → Prop where
  | character {before after : List Char} {c : Char} (hsource : source = before ++ c :: after) :
      Blames source (.unexpected c (Text.byteLength before))
  | openString {before body : List Char} (hsource : source = before ++ '\'' :: body)
      (hopen : '\'' ∉ body) :
      Blames source (.unterminated .unterminatedString (Text.byteLength before)
        (Text.byteLength ('\'' :: body)))
  | openComment {before body : List Char} (hsource : source = before ++ '/' :: '*' :: body)
      (hopen : ¬ ['*', '/'] <:+: body) :
      Blames source (.unterminated .unterminatedComment (Text.byteLength before)
        (Text.byteLength ('/' :: '*' :: body)))

namespace Token

variable {before cs : List Char} {e : LexError}

/-- The dot to blame is the last character of the number. -/
theorem blames_of_scanNumber (h : scanNumber (Text.byteLength before) cs = .error e) :
    e.Blames (before ++ cs) := by
  unfold scanNumber at h
  dsimp only at h
  split at h
  · rename_i hdot
    obtain ⟨digits, hdigits⟩ := List.getLast?_eq_some_iff.1 (beq_iff_eq.1 hdot)
    have hposition : Text.byteLength before + Text.byteLength (digits ++ ['.']) - 1 =
        Text.byteLength (before ++ digits) := by
      have hone : '.'.utf8Size = 1 := rfl
      rw [Text.byteLength_append, Text.byteLength_append, Text.byteLength_cons, hone,
        Text.byteLength_nil]
      omega
    rw [hdigits, hposition] at h
    cases h
    have hsource : before ++ cs = before ++ digits ++ '.' :: cs.dropWhile isNumberChar := calc
      before ++ cs = before ++ (digits ++ ['.'] ++ cs.dropWhile isNumberChar) := by
        rw [← hdigits, List.takeWhile_append_dropWhile]
      _ = before ++ digits ++ '.' :: cs.dropWhile isNumberChar := by simp
    exact .character hsource
  · split at h <;> cases h

theorem blames_of_scanString (h : scanString (Text.byteLength before) cs = .error e) :
    e.Blames (before ++ '\'' :: cs) := by
  unfold scanString at h
  dsimp only at h
  split at h
  · rename_i hclosed
    cases h
    have hbody : cs.takeWhile (· != '\'') = cs := by
      have hcut := List.takeWhile_append_dropWhile (p := (· != '\'')) (l := cs)
      rwa [hclosed, List.append_nil] at hcut
    refine .openString rfl fun hquote => ?_
    rw [← hbody] at hquote
    simpa using of_mem_takeWhile hquote
  · cases h

theorem not_infix_of_cutAtCommentEnd_eq_none (h : Text.cutAtCommentEnd cs = none) :
    ¬ ['*', '/'] <:+: cs := by
  fun_induction Text.cutAtCommentEnd cs with
  | case1 => simp
  | case2 => cases h
  | case3 c rest hne ih =>
      intro hinfix
      rcases List.infix_cons_iff.1 hinfix with hpre | hinfix
      · obtain ⟨tail, htail⟩ := hpre
        obtain ⟨rfl, rfl⟩ := List.cons.inj htail
        exact hne tail rfl rfl
      · exact ih (Option.map_eq_none_iff.1 h) hinfix

theorem blames_of_scanBlockComment (h : scanBlockComment (Text.byteLength before) cs = .error e) :
    e.Blames (before ++ '/' :: '*' :: cs) := by
  unfold scanBlockComment at h
  split at h
  · rename_i hclosed
    cases h
    exact .openComment rfl (not_infix_of_cutAtCommentEnd_eq_none hclosed)
  · cases h

theorem blames_of_scan {c : Char} (h : scan (Text.byteLength before) c cs = .error e) :
    e.Blames (before ++ c :: cs) := by
  unfold scan at h
  split at h
  · cases h
  · split at h
    · subst c
      exact blames_of_scanString h
    · split at h
      · cases h
      · split at h
        · exact blames_of_scanNumber h
        · split at h
          · subst c
            split at h
            · cases h
            · exact blames_of_scanBlockComment h
            · cases h
              exact .character rfl
          · split at h
            · cases h
            · cases h
              exact .character rfl

theorem blames_of_tokenizeFrom {position : Nat} (hposition : position = Text.byteLength before)
    (h : tokenizeFrom position cs = .error e) : e.Blames (before ++ cs) := by
  fun_induction tokenizeFrom position cs generalizing before with
  | case1 => cases h
  | case2 position cs ih =>
      have hnext : position + 1 = Text.byteLength (before ++ [' ']) := by
        rw [Text.byteLength_append, hposition]
        rfl
      simpa using ih hnext h
  | case3 position c cs hc found hscan =>
      cases h
      rw [hposition] at hscan
      exact blames_of_scan hscan
  | case4 position c cs hc lexeme hscan length =>
      rename_i ih
      have hnext : position + length = Text.byteLength (before ++ lexeme.text) := by
        rw [Text.byteLength_append, hposition]
      cases htail : tokenizeFrom (position + length) lexeme.rest with
      | ok tail =>
          rw [htail] at h
          cases h
      | error found =>
          rw [htail] at h
          cases h
          rw [← (scan_covers hscan).1, ← List.append_assoc]
          exact ih hnext htail

end Token

theorem blames_of_tokenize {source : String} {e : LexError} (h : tokenize source = .error e) :
    e.Blames source.toList :=
  Token.blames_of_tokenizeFrom Text.byteLength_nil.symm h

end LijsCompiler
