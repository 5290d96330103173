import Mathlib.Data.List.Forall2
import LijsCompiler.Proofs.Lexer.Faults
import LijsCompiler.Proofs.Lexer.Lines

/-!
# Texts joined by a line break

A line break stands to the text before it as the end of the text does, also where that text is at
fault: a character that cannot stand in it cannot stand there when a line break and more text
follow.  Only an open string or comment may still be closed.  So the tokens or the error of two
texts joined by a line break are known from those of the two texts (`tokenize_join`).
-/

namespace LijsCompiler

/-- In numbers, the second span is the first one moved `offset` bytes to the right. -/
structure Span.IsMoved (offset : Nat) (s s' : Span) : Prop where
  start : s'.start.toNat = offset + s.start.toNat
  stop : s'.stop.toNat = offset + s.stop.toNat

theorem Span.MovesBy.isMoved {offset : Nat} {s : Span} (h : s.MovesBy offset) :
    s.IsMoved offset (s.shift offset) :=
  ⟨h.toNat_shift.1, h.toNat_shift.2⟩

structure Token.IsMoved (offset : Nat) (t t' : Token) : Prop where
  kind : t'.kind = t.kind
  span : t.span.IsMoved offset t'.span

structure LexError.IsMoved (offset : Nat) (e e' : LexError) : Prop where
  fault : e'.fault = e.fault
  position : e'.position = offset + e.position
  span : e.span.IsMoved offset e'.span

namespace Token

/-! ## Faults before a line break -/

theorem takeWhile_append_newline {p : Char → Bool} (hp : p '\n' = false) (cs ds : List Char) :
    (cs ++ '\n' :: ds).takeWhile p = cs.takeWhile p := by
  induction cs with
  | nil => simp [hp]
  | cons c cs ih =>
      by_cases hc : p c
      · simp [hc, ih]
      · simp [hc]

/-- A number that ends in a dot does so before a line break too. -/
theorem scanNumber_error_append_newline {position : Nat} {cs : List Char} {e : LexError}
    (h : scanNumber position cs = .error e) (ds : List Char) :
    scanNumber position (cs ++ '\n' :: ds) = .error e := by
  have hrun : (cs ++ '\n' :: ds).takeWhile isNumberChar = cs.takeWhile isNumberChar :=
    takeWhile_append_newline (by decide) cs ds
  unfold scanNumber at h ⊢
  dsimp only at h ⊢
  rw [hrun]
  split at h
  · rename_i hdot
    rw [if_pos hdot]
    exact h
  · split at h <;> cases h

theorem fault_of_scanString {position : Nat} {cs : List Char} {e : LexError}
    (h : scanString position cs = .error e) : e.fault = .unterminatedString := by
  unfold scanString at h
  dsimp only at h
  split at h
  · cases h
    rfl
  · cases h

theorem fault_of_scanBlockComment {position : Nat} {cs : List Char} {e : LexError}
    (h : scanBlockComment position cs = .error e) : e.fault = .unterminatedComment := by
  unfold scanBlockComment at h
  split at h
  · cases h
    rfl
  · cases h

theorem scan_error_append_newline {position : Nat} {c bad : Char} {cs : List Char} {e : LexError}
    (h : scan position c cs = .error e) (hfault : e.fault = .unexpectedCharacter bad)
    (ds : List Char) : scan position c (cs ++ '\n' :: ds) = .error e := by
  unfold scan at h ⊢
  split at h
  · cases h
  · rename_i hbreak
    rw [if_neg hbreak]
    split at h
    · -- a string that is still open is another fault
      rw [fault_of_scanString h] at hfault
      cases hfault
    · rename_i hquote
      rw [if_neg hquote]
      split at h
      · cases h
      · rename_i halpha
        rw [if_neg halpha]
        split at h
        · rename_i hdigit
          rw [if_pos hdigit]
          exact scanNumber_error_append_newline h ds
        · rename_i hdigit
          rw [if_neg hdigit]
          split at h
          · rename_i hslash
            rw [if_pos hslash]
            split at h
            · cases h
            · -- so is a comment that is still open
              rw [fault_of_scanBlockComment h] at hfault
              cases hfault
            · rename_i hline hblock
              cases cs with
              | nil => exact h
              | cons d cs =>
                  rw [List.cons_append]
                  split
                  · rename_i heq
                    cases heq
                    exact absurd rfl (hline cs)
                  · rename_i heq
                    cases heq
                    exact absurd rfl (hblock cs)
                  · exact h
          · rename_i hslash
            rw [if_neg hslash]
            split at h
            · cases h
            · exact h

/-- The tokens before the fault are cut off as before, and then the fault is found. -/
theorem tokenizeFrom_error_append_newline {position : Nat} {bad : Char} {cs : List Char}
    {e : LexError} (h : tokenizeFrom position cs = .error e)
    (hfault : e.fault = .unexpectedCharacter bad) (ds : List Char) :
    tokenizeFrom position (cs ++ '\n' :: ds) = .error e := by
  fun_induction tokenizeFrom position cs with
  | case1 => cases h
  | case2 position cs ih =>
      rw [List.cons_append, tokenizeFrom, if_pos rfl]
      exact ih h
  | case3 position c cs hc found hscan =>
      cases h
      exact tokenizeFrom_of_scan_error hc (scan_error_append_newline hscan hfault ds)
  | case4 position c cs hc lexeme hscan length =>
      rename_i ih
      obtain ⟨hcut, hcs⟩ := scan_eq_ok_iff.1 hscan
      have hstep := tokenizeFrom_of_isCut position (isCut_append_newline hcut ds)
      dsimp only at hstep
      rw [← List.append_assoc, hcs] at hstep
      rw [hstep]
      cases htail : tokenizeFrom (position + length) lexeme.rest with
      | ok tail =>
          rw [htail] at h
          cases h
      | error found =>
          rw [htail] at h
          cases h
          rw [ih htail]
          rfl

end Token

/-! ## The place of a fault can be moved -/

theorem Span.movesBy_ofPosition {offset position length : Nat}
    (h : offset + (position + length) < UInt32.size) :
    (Span.ofPosition position length).MovesBy offset := by
  have hlt : position + length < UInt32.size := by omega
  obtain ⟨hstart, hstop⟩ := Token.toNat_ofPosition hlt
  constructor
  · rw [hstart]
    omega
  · rw [hstop]
    omega

theorem LexError.Blames.movesBy {offset : Nat} {cs : List Char} {e : LexError} (h : e.Blames cs)
    (hsize : offset + Text.byteLength cs < UInt32.size) : e.span.MovesBy offset := by
  cases h with
  | character hsource | openString hsource | openComment hsource =>
      rw [hsource, Text.byteLength_append] at hsize
      apply Span.movesBy_ofPosition
      simp only [Text.byteLength_cons] at hsize ⊢
      omega

/-- Two texts joined by a line break, of fewer than `2 ^ 32` bytes in all.  If the first has tokens,
those of the whole are the tokens of the first, the line break right behind it, and the tokens of
the second behind that; where the second has none, its error is the error of the whole, at its place
there.  If the first has no tokens because of a character, the whole has none for the same reason
at the same place. -/
theorem tokenize_join {s t : String} (hsize : (s ++ "\n" ++ t).utf8ByteSize < UInt32.size) :
    (∀ ts, tokenize s = .ok ts →
      (∀ us, tokenize t = .ok us →
        ∃ us', List.Forall₂ (Token.IsMoved (s.utf8ByteSize + 1)) us us' ∧
          tokenize (s ++ "\n" ++ t) =
            .ok (ts ++ ⟨.lineBreak, .ofPosition s.utf8ByteSize 1⟩ :: us')) ∧
      ∀ e, tokenize t = .error e →
        ∃ e', e.IsMoved (s.utf8ByteSize + 1) e' ∧ tokenize (s ++ "\n" ++ t) = .error e') ∧
    ∀ e bad, e.fault = .unexpectedCharacter bad → tokenize s = .error e →
      tokenize (s ++ "\n" ++ t) = .error e := by
  have hfits : s.utf8ByteSize + 1 + Text.byteLength t.toList < UInt32.size := by
    have hone : "\n".utf8ByteSize = 1 := rfl
    rw [String.utf8ByteSize_append, String.utf8ByteSize_append, hone] at hsize
    rw [Text.byteLength_toList]
    exact hsize
  refine ⟨fun ts hs => ⟨fun us ht => ?_, fun e ht => ?_⟩, fun e bad hfault hs => ?_⟩
  · have hjoined := tokenize_append_newline hs t
    rw [ht] at hjoined
    refine ⟨us.map (Token.shift (s.utf8ByteSize + 1)), ?_, hjoined⟩
    have hmoves : ∀ u ∈ us, u.span.MovesBy (s.utf8ByteSize + 1) := by
      apply Token.movesBy_of_lexes (Token.tokenizeFrom_eq_ok_iff.1 ht)
      omega
    rw [List.forall₂_map_right_iff, List.forall₂_same]
    exact fun u hu => ⟨rfl, (hmoves u hu).isMoved⟩
  · have hjoined := tokenize_append_newline hs t
    rw [ht] at hjoined
    have hmoves := (blames_of_tokenize ht).movesBy hfits
    exact ⟨e.shift (s.utf8ByteSize + 1), ⟨rfl, rfl, hmoves.isMoved⟩, hjoined⟩
  · have hchars : (s ++ "\n" ++ t).toList = s.toList ++ '\n' :: t.toList := by simp
    rw [tokenize, hchars]
    exact Token.tokenizeFrom_error_append_newline hs hfault t.toList

/-- A name spelled like a keyword stands before the line break, and behind it first a keyword, then
a fault of two bytes.  A number with a dot at its end is a fault before the line break too. -/
theorem tokenize_join_word_and_dot :
    let first := [⟨.identifier "a", ⟨0, 1⟩⟩, ⟨.identifier "is", ⟨2, 4⟩⟩]
    let second := [⟨.keyword (.check .equal), ⟨0, 3⟩⟩, ⟨.identifier "b", ⟨3, 4⟩⟩]
    tokenize "a is" = .ok first ∧ tokenize "is b" = .ok second ∧
      (∃ us', List.Forall₂ (Token.IsMoved 5) second us' ∧
        tokenize ("a is" ++ "\n" ++ "is b") = .ok (first ++ ⟨.lineBreak, ⟨4, 5⟩⟩ :: us')) ∧
      tokenize "1.5é" = .error (.unexpected 'é' 3) ∧
      (∃ e', (LexError.unexpected 'é' 3).IsMoved 5 e' ∧
        tokenize ("a is" ++ "\n" ++ "1.5é") = .error e') ∧
      tokenize "a 1." = .error (.unexpected '.' 3) ∧
      tokenize ("a 1." ++ "\n" ++ "5") = .error (.unexpected '.' 3) := by
  intro first second
  have hfirst : tokenize "a is" = .ok first := by decide +kernel
  have hsecond : tokenize "is b" = .ok second := by decide +kernel
  have hbad : tokenize "1.5é" = .error (.unexpected 'é' 3) := by decide +kernel
  have hdot : tokenize "a 1." = .error (.unexpected '.' 3) := by decide +kernel
  refine ⟨hfirst, hsecond, ?_, hbad, ?_, hdot, ?_⟩
  · exact ((tokenize_join (by decide)).1 first hfirst).1 second hsecond
  · exact ((tokenize_join (by decide)).1 first hfirst).2 _ hbad
  · exact (tokenize_join (by decide)).2 _ _ rfl hdot

end LijsCompiler
