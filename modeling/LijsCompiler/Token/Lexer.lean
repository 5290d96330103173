import LijsCompiler.Text
import LijsCompiler.Token

/-!
# From text to tokens

`tokenize` reads a text from left to right.  At each position that is not a space `scan` takes
the longest token that starts there; it cuts the text in two and loses nothing
(`scan_covers`), so the reading ends.
-/

namespace LijsCompiler

inductive LexFault where
  | unexpectedCharacter (c : Char)
  | unterminatedString
  | unterminatedComment
deriving DecidableEq, Repr, Inhabited

/-- A fault, the byte offset where it is, and the bytes to blame. -/
structure LexError where
  fault : LexFault
  position : Nat
  span : Span
deriving DecidableEq, Repr, Inhabited

namespace LexError

def unexpected (c : Char) (position : Nat) : LexError :=
  ⟨.unexpectedCharacter c, position, .ofPosition position c.utf8Size⟩

/-- What starts at `position` is still open when the text ends, `length` bytes later. -/
def unterminated (fault : LexFault) (position length : Nat) : LexError :=
  ⟨fault, position, .ofPosition position length⟩

def shift (offset : Nat) (e : LexError) : LexError :=
  ⟨e.fault, offset + e.position, e.span.shift offset⟩

end LexError

namespace Token

/-- The token a text starts with, the characters it covers, and the characters after it. -/
structure Lexeme where
  kind : TokenKind
  text : List Char
  rest : List Char
deriving DecidableEq, Repr

def isNameChar (c : Char) : Bool := c.isAlphanum || c == '.'

def isNumberChar (c : Char) : Bool := c.isDigit || c == '.'

/-- The keyword a text starts with, its space included. -/
def scanKeyword (cs : List Char) : Option Lexeme :=
  Keyword.all.findSome? fun k =>
    if k.spelling.isPrefixOf cs then
      some ⟨.keyword k, k.spelling, cs.drop k.spelling.length⟩
    else
      none

/-- A keyword, or else the longest name. -/
def scanWord (cs : List Char) : Lexeme :=
  match scanKeyword cs with
  | some lexeme => lexeme
  | none =>
    let name := cs.takeWhile isNameChar
    ⟨.identifier (String.ofList name), name, cs.dropWhile isNameChar⟩

/-- The longest run of digits and dots.  It must not end in a dot. -/
def scanNumber (position : Nat) (cs : List Char) : Except LexError Lexeme :=
  let digits := cs.takeWhile isNumberChar
  let rest := cs.dropWhile isNumberChar
  if digits.getLast? == some '.' then
    .error (.unexpected '.' (position + Text.byteLength digits - 1))
  else if digits.contains '.' then
    .ok ⟨.float (String.ofList digits), digits, rest⟩
  else
    .ok ⟨.integer (String.ofList digits), digits, rest⟩

def scanString (position : Nat) (cs : List Char) : Except LexError Lexeme :=
  let body := cs.takeWhile (· != '\'')
  match cs.dropWhile (· != '\'') with
  | [] => .error (.unterminated .unterminatedString position (Text.byteLength ('\'' :: cs)))
  | quote :: rest => .ok ⟨.string (String.ofList body), '\'' :: body ++ [quote], rest⟩

def scanLineComment (cs : List Char) : Lexeme :=
  let body := cs.takeWhile (· != '\n')
  ⟨.lineComment (String.ofList body), '/' :: '/' :: body, cs.dropWhile (· != '\n')⟩

def scanBlockComment (position : Nat) (cs : List Char) : Except LexError Lexeme :=
  match Text.cutAtCommentEnd cs with
  | none =>
    .error (.unterminated .unterminatedComment position (Text.byteLength ('/' :: '*' :: cs)))
  | some (body, rest) =>
    let lines := (body.splitOn '\n').map String.ofList
    .ok ⟨.blockComment lines, '/' :: '*' :: body ++ ['*', '/'], rest⟩

/-- The token that starts with `c`, at byte `position`, where `cs` follows. -/
def scan (position : Nat) (c : Char) (cs : List Char) : Except LexError Lexeme :=
  if c = '\n' then
    .ok ⟨.lineBreak, [c], cs⟩
  else if c = '\'' then
    scanString position cs
  else if c.isAlpha then
    .ok (scanWord (c :: cs))
  else if c.isDigit then
    scanNumber position (c :: cs)
  else if c = '/' then
    match cs with
    | '/' :: rest => .ok (scanLineComment rest)
    | '*' :: rest => scanBlockComment position rest
    | _ => .error (.unexpected c position)
  else
    match Mark.ofChar? c with
    | some m => .ok ⟨.mark m, [c], cs⟩
    | none => .error (.unexpected c position)

/-! ## A scan cuts the text in two -/

theorem scanKeyword_covers {cs : List Char} {lexeme : Lexeme} (h : scanKeyword cs = some lexeme) :
    lexeme.text ++ lexeme.rest = cs ∧ lexeme.text ≠ [] := by
  obtain ⟨_, k, _, _, hk, _⟩ := List.findSome?_eq_some_iff.1 h
  split at hk
  · rename_i hspelling
    cases hk
    exact ⟨List.prefix_iff_eq_append.1 (List.isPrefixOf_iff_prefix.1 hspelling),
      by simp [Keyword.spelling]⟩
  · simp at hk

theorem scanWord_covers {c : Char} {cs : List Char} (hc : c.isAlpha) :
    (scanWord (c :: cs)).text ++ (scanWord (c :: cs)).rest = c :: cs ∧
      (scanWord (c :: cs)).text ≠ [] := by
  unfold scanWord
  split
  · exact scanKeyword_covers ‹_›
  · have hname : isNameChar c = true := by simp [isNameChar, Char.isAlphanum, hc]
    exact ⟨List.takeWhile_append_dropWhile, by simp [hname]⟩

theorem scanNumber_covers {position : Nat} {c : Char} {cs : List Char} {lexeme : Lexeme}
    (hc : c.isDigit) (h : scanNumber position (c :: cs) = .ok lexeme) :
    lexeme.text ++ lexeme.rest = c :: cs ∧ lexeme.text ≠ [] := by
  have hdigit : isNumberChar c = true := by simp [isNumberChar, hc]
  have hne : (c :: cs).takeWhile isNumberChar ≠ [] := by simp [hdigit]
  unfold scanNumber at h
  dsimp only at h
  split at h
  · simp at h
  · split at h <;>
    · cases h
      exact ⟨List.takeWhile_append_dropWhile, hne⟩

theorem scanString_covers {position : Nat} {cs : List Char} {lexeme : Lexeme}
    (h : scanString position cs = .ok lexeme) :
    lexeme.text ++ lexeme.rest = '\'' :: cs ∧ lexeme.text ≠ [] := by
  unfold scanString at h
  dsimp only at h
  split at h
  · simp at h
  · rename_i quote rest hdrop
    cases h
    have hcut := List.takeWhile_append_dropWhile (p := (· != '\'')) (l := cs)
    rw [hdrop] at hcut
    exact ⟨by simpa using hcut, by simp⟩

theorem scanLineComment_covers (cs : List Char) :
    (scanLineComment cs).text ++ (scanLineComment cs).rest = '/' :: '/' :: cs ∧
      (scanLineComment cs).text ≠ [] := by
  simp [scanLineComment, List.takeWhile_append_dropWhile]

theorem scanBlockComment_covers {position : Nat} {cs : List Char} {lexeme : Lexeme}
    (h : scanBlockComment position cs = .ok lexeme) :
    lexeme.text ++ lexeme.rest = '/' :: '*' :: cs ∧ lexeme.text ≠ [] := by
  unfold scanBlockComment at h
  split at h
  · simp at h
  · rename_i body rest hcut
    cases h
    exact ⟨by simpa using Text.cutAtCommentEnd_covers hcut, by simp⟩

/-- A scanned token and the rest make up the text, and the token covers something. -/
theorem scan_covers {position : Nat} {c : Char} {cs : List Char} {lexeme : Lexeme}
    (h : scan position c cs = .ok lexeme) :
    lexeme.text ++ lexeme.rest = c :: cs ∧ lexeme.text ≠ [] := by
  unfold scan at h
  split at h
  · cases h; simp
  · split at h
    · rename_i hc
      exact hc ▸ scanString_covers h
    · split at h
      · cases h
        exact scanWord_covers ‹_›
      · split at h
        · exact scanNumber_covers ‹_› h
        · split at h
          · subst c
            split at h
            · cases h
              exact scanLineComment_covers _
            · exact scanBlockComment_covers h
            · simp at h
          · split at h
            · cases h; simp
            · simp at h

theorem rest_length_lt_of_scan {position : Nat} {c : Char} {cs : List Char} {lexeme : Lexeme}
    (h : scan position c cs = .ok lexeme) : lexeme.rest.length < (c :: cs).length := by
  obtain ⟨hcut, hne⟩ := scan_covers h
  have := List.length_pos_iff.2 hne
  rw [← hcut, List.length_append]
  omega

end Token

/-- The tokens of a text that begins at byte `position` of the source. -/
def tokenizeFrom (position : Nat) : List Char → Except LexError (List Token)
  | [] => .ok []
  | c :: cs =>
    if c = ' ' then
      tokenizeFrom (position + 1) cs
    else
      match _h : Token.scan position c cs with
      | .error e => .error e
      | .ok lexeme => do
        let length := Text.byteLength lexeme.text
        let tokens ← tokenizeFrom (position + length) lexeme.rest
        return ⟨lexeme.kind, .ofPosition position length⟩ :: tokens
termination_by cs => cs.length
decreasing_by
  · simp
  · exact Token.rest_length_lt_of_scan _h

def tokenize (source : String) : Except LexError (List Token) :=
  tokenizeFrom 0 source.toList

end LijsCompiler
