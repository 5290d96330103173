import LijsCompiler.Proofs.Lexer.Tokenization

/-!
# Tokens after a line break

A line break ends whatever token stands before it, and no token depends on where the text begins.
So if a text has tokens, the tokens of that text, a line break and a second text are those of the
first, the line break, and those of the second, moved to the right (`tokenize_append_newline`).
An error in the second text is moved likewise.
-/

namespace LijsCompiler

namespace Span

/-- Both ends of the span may be moved `offset` bytes to the right. -/
structure MovesBy (offset : Nat) (s : Span) : Prop where
  start : offset + s.start.toNat < UInt32.size
  stop : offset + s.stop.toNat < UInt32.size

theorem MovesBy.toNat_shift {offset : Nat} {s : Span} (h : s.MovesBy offset) :
    (s.shift offset).start.toNat = offset + s.start.toNat ∧
      (s.shift offset).stop.toNat = offset + s.stop.toNat := by
  have hstart := h.start
  have hstop := h.stop
  simp only [UInt32.size] at hstart hstop
  simp only [shift, UInt32.toNat_add, UInt32.toNat_ofNat']
  omega

theorem shift_join {offset : Nat} {a b : Span} (ha : a.MovesBy offset) (hb : b.MovesBy offset) :
    (a.join b).shift offset = (a.shift offset).join (b.shift offset) := by
  -- the moved ends are in the order of the ends
  have hstart : a.start ≤ b.start ↔ (a.shift offset).start ≤ (b.shift offset).start := by
    rw [UInt32.le_iff_toNat_le, UInt32.le_iff_toNat_le, ha.toNat_shift.1, hb.toNat_shift.1]
    omega
  have hstop : a.stop ≤ b.stop ↔ (a.shift offset).stop ≤ (b.shift offset).stop := by
    rw [UInt32.le_iff_toNat_le, UInt32.le_iff_toNat_le, ha.toNat_shift.2, hb.toNat_shift.2]
    omega
  simp only [join, min, max, ← hstart, ← hstop]
  simp only [shift, mk.injEq]
  constructor <;> split <;> rfl

end Span

namespace LexError

theorem shift_unexpected (offset position : Nat) (c : Char) :
    (unexpected c position).shift offset = unexpected c (offset + position) := by
  rw [unexpected, shift, Span.shift_ofPosition]
  rfl

theorem shift_unterminated (offset position length : Nat) (fault : LexFault) :
    (unterminated fault position length).shift offset =
      unterminated fault (offset + position) length := by
  rw [unterminated, shift, Span.shift_ofPosition]
  rfl

end LexError

namespace Token

def shift (offset : Nat) (t : Token) : Token := ⟨t.kind, t.span.shift offset⟩

/-! ## A text that begins elsewhere -/

theorem tokenizeFrom_of_scan_error {position : Nat} {c : Char} {cs : List Char} {e : LexError}
    (hc : c ≠ ' ') (h : scan position c cs = .error e) :
    tokenizeFrom position (c :: cs) = .error e := by
  rw [tokenizeFrom, if_neg hc]
  split
  · rename_i found hfound
    rw [h] at hfound
    cases hfound
    rfl
  · rename_i lexeme hlexeme
    rw [h] at hlexeme
    cases hlexeme

theorem scanNumber_shift (offset position : Nat) {c : Char} (cs : List Char) (hc : c.isDigit) :
    scanNumber (offset + position) (c :: cs) =
      (scanNumber position (c :: cs)).mapError (LexError.shift offset) := by
  have hchar : isNumberChar c := by simp [isNumberChar, hc]
  have hpos : 0 < Text.byteLength ((c :: cs).takeWhile isNumberChar) := by
    rw [List.takeWhile_cons_of_pos hchar, Text.byteLength_cons]
    have := c.utf8Size_pos
    omega
  unfold scanNumber
  dsimp only
  split
  · rw [Nat.add_assoc, Nat.add_sub_assoc (Nat.add_pos_right position hpos)]
    exact congrArg Except.error (LexError.shift_unexpected ..).symm
  · split <;> rfl

theorem scanString_shift (offset position : Nat) (cs : List Char) :
    scanString (offset + position) cs =
      (scanString position cs).mapError (LexError.shift offset) := by
  unfold scanString
  dsimp only
  split
  · exact congrArg Except.error (LexError.shift_unterminated ..).symm
  · rfl

theorem scanBlockComment_shift (offset position : Nat) (cs : List Char) :
    scanBlockComment (offset + position) cs =
      (scanBlockComment position cs).mapError (LexError.shift offset) := by
  unfold scanBlockComment
  split
  · exact congrArg Except.error (LexError.shift_unterminated ..).symm
  · rfl

theorem scan_shift (offset position : Nat) (c : Char) (cs : List Char) :
    scan (offset + position) c cs = (scan position c cs).mapError (LexError.shift offset) := by
  unfold scan
  split
  · rfl
  · split
    · exact scanString_shift offset position cs
    · split
      · rfl
      · split
        · rename_i hdigit
          exact scanNumber_shift offset position cs hdigit
        · split
          · split
            · rfl
            · exact scanBlockComment_shift offset position _
            · exact congrArg Except.error (LexError.shift_unexpected ..).symm
          · split
            · rfl
            · exact congrArg Except.error (LexError.shift_unexpected ..).symm

/-- Where a text begins decides nothing but the places of its tokens or of its error. -/
theorem tokenizeFrom_shift (offset position : Nat) (cs : List Char) :
    tokenizeFrom (offset + position) cs =
      ((tokenizeFrom position cs).map (List.map (shift offset))).mapError
        (LexError.shift offset) := by
  fun_induction tokenizeFrom position cs with
  | case1 => rw [tokenizeFrom]; rfl
  | case2 position cs ih => rw [tokenizeFrom, if_pos rfl, Nat.add_assoc, ih]
  | case3 position c cs hc e hscan =>
      have hmoved := scan_shift offset position c cs
      rw [hscan] at hmoved
      exact tokenizeFrom_of_scan_error hc hmoved
  | case4 position c cs hc lexeme hscan length ih =>
      have hmoved := scan_shift offset position c cs
      rw [hscan] at hmoved
      rw [tokenizeFrom_of_scan hc hmoved, Nat.add_assoc, ih]
      cases tokenizeFrom (position + length) lexeme.rest with
      | error e => rfl
      | ok ts =>
          show Except.ok (_ :: ts.map (shift offset)) = Except.ok (_ :: ts.map (shift offset))
          rw [shift, Span.shift_ofPosition]

/-! ## A line break at the end of a text -/

/-- A line break continues no token. -/
theorem endsBefore_newline (kind : TokenKind) : EndsBefore kind (some '\n') := by
  cases kind with
  | identifier name => exact ⟨by simp [isNameChar], by simp⟩
  | integer text | float text => simp [EndsBefore, isNumberChar]
  | lineComment text => exact .inr rfl
  | _ => trivial

theorem isCut_append_newline {lexeme : Lexeme} (h : lexeme.IsCut) (ds : List Char) :
    (⟨lexeme.kind, lexeme.text, lexeme.rest ++ '\n' :: ds⟩ : Lexeme).IsCut := by
  refine ⟨h.1, ?_⟩
  cases hrest : lexeme.rest with
  | nil => exact endsBefore_newline lexeme.kind
  | cons c cs =>
      have hends := h.2
      rwa [hrest] at hends

theorem tokenizeFrom_append_newline {position : Nat} {cs : List Char} {ts : List Token}
    (h : Lexes position cs ts) (ds : List Char) :
    tokenizeFrom position (cs ++ '\n' :: ds) =
      (tokenizeFrom (position + Text.byteLength cs + 1) ds).map
        (ts ++ ⟨.lineBreak, .ofPosition (position + Text.byteLength cs) 1⟩ :: ·) := by
  induction h with
  | nil =>
      have hc : '\n' ≠ ' ' := by decide
      exact tokenizeFrom_of_scan hc rfl
  | @space position cs ts _ ih =>
      have hone : ' '.utf8Size = 1 := rfl
      rw [List.cons_append, tokenizeFrom, if_pos rfl, ih, Text.byteLength_cons, hone,
        Nat.add_assoc position]
  | @token position lexeme ts hcut _ ih =>
      have hstep := tokenizeFrom_of_isCut position (isCut_append_newline hcut ds)
      dsimp only at hstep
      rw [List.append_assoc, hstep, ih, Text.byteLength_append, Nat.add_assoc position]
      cases tokenizeFrom _ ds <;> rfl

theorem movesBy_of_lexes {position offset : Nat} {cs : List Char} {ts : List Token}
    (h : Lexes position cs ts) (hsize : offset + (position + Text.byteLength cs) < UInt32.size) :
    ∀ t ∈ ts, t.span.MovesBy offset := by
  induction h with
  | nil => simp
  | space _ ih =>
      have hone : ' '.utf8Size = 1 := rfl
      rw [Text.byteLength_cons, hone] at hsize
      exact ih (by omega)
  | @token position lexeme ts _ _ ih =>
      rw [Text.byteLength_append] at hsize
      have hlt : position + Text.byteLength lexeme.text < UInt32.size := by omega
      obtain ⟨hstart, hstop⟩ := toNat_ofPosition hlt
      rw [List.forall_mem_cons]
      refine ⟨⟨?_, ?_⟩, ih (by omega)⟩
      · rw [hstart]
        omega
      · rw [hstop]
        omega

end Token

theorem Text.byteLength_toList (source : String) :
    byteLength source.toList = source.utf8ByteSize := by
  have hsize := (remains_toList source).size_eq
  rw [Nat.zero_add] at hsize
  exact hsize.symm

/-- The tokens of a text, a line break and another text.  Where the first text has tokens, the
second decides whether there are any. -/
theorem tokenize_append_newline {s : String} {ts : List Token} (h : tokenize s = .ok ts)
    (t : String) :
    tokenize (s ++ "\n" ++ t) =
      ((tokenize t).map fun us =>
          ts ++ ⟨.lineBreak, .ofPosition s.utf8ByteSize 1⟩ ::
            us.map (Token.shift (s.utf8ByteSize + 1))).mapError
        (LexError.shift (s.utf8ByteSize + 1)) := by
  have hchars : (s ++ "\n" ++ t).toList = s.toList ++ '\n' :: t.toList := by simp
  have hjoined := Token.tokenizeFrom_append_newline (Token.tokenizeFrom_eq_ok_iff.1 h) t.toList
  have hmoved := Token.tokenizeFrom_shift (s.utf8ByteSize + 1) 0 t.toList
  rw [Text.byteLength_toList, Nat.zero_add] at hjoined
  rw [Nat.add_zero] at hmoved
  rw [tokenize, hchars, hjoined, hmoved, tokenize]
  cases tokenizeFrom 0 t.toList <;> rfl

end LijsCompiler
