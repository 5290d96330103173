import LijsCompiler.Span

/-!
# Tokens

The vocabulary of Lijs: fixed marks of one character, keywords, names, literals and comments.
Line breaks are tokens too, because a line break ends a `!` that gives no value.
-/

namespace LijsCompiler

inductive Check where
  /-- `is`: strict equality. -/
  | equal
  /-- `kinda`: loose equality. -/
  | similar
  /-- `contains`: membership. -/
  | contains
  /-- `exists`: the left operand alone decides. -/
  | present
deriving DecidableEq, Repr, Inhabited

def Check.word : Check → String
  | equal => "is"
  | similar => "kinda"
  | contains => "contains"
  | present => "exists"

def Check.takesRight : Check → Bool
  | present => false
  | _ => true

/-- A token of one fixed character. -/
inductive Mark where
  | openBracket
  | closeBracket
  | openBrace
  | closeBrace
  | openParen
  | closeParen
  /-- `$` begins an assignment. -/
  | assign
  /-- `@` begins a loop. -/
  | loop
  /-- `?` begins a condition. -/
  | condition
  /-- `!` gives the result of a function. -/
  | result
deriving DecidableEq, Repr, Inhabited

namespace Mark

def char : Mark → Char
  | openBracket => '['
  | closeBracket => ']'
  | openBrace => '\x7b'
  | closeBrace => '\x7d'
  | openParen => '('
  | closeParen => ')'
  | assign => '$'
  | loop => '@'
  | condition => '?'
  | result => '!'

def all : List Mark :=
  [openBracket, closeBracket, openBrace, closeBrace, openParen, closeParen, assign, loop,
    condition, result]

def ofChar? (c : Char) : Option Mark := all.find? (·.char == c)

theorem char_of_ofChar? {c : Char} {m : Mark} (h : ofChar? c = some m) : m.char = c := by
  simpa using List.find?_some h

end Mark

/-- A word with a meaning of its own when a space follows it. -/
inductive Keyword where
  | useModule
  | asName
  | exportName
  | make
  | set
  | get
  | check (c : Check)
  | define
  | otherwise
deriving DecidableEq, Repr, Inhabited

namespace Keyword

def word : Keyword → String
  | useModule => "use"
  | asName => "as"
  | exportName => "export"
  | make => "make"
  | set => "set"
  | get => "get"
  | check c => c.word
  | define => "def"
  | otherwise => "else"

def all : List Keyword :=
  [useModule, asName, exportName, make, set, get, check .equal, check .similar, check .contains,
    check .present, define, otherwise]

/-- What a keyword covers in the source: its word and one space. -/
def spelling (k : Keyword) : List Char := k.word.toList ++ [' ']

end Keyword

inductive TokenKind where
  | lineBreak
  | mark (m : Mark)
  | keyword (k : Keyword)
  | identifier (name : String)
  | integer (text : String)
  | float (text : String)
  | string (text : String)
  | lineComment (text : String)
  | blockComment (lines : List String)
deriving DecidableEq, Repr, Inhabited

namespace TokenKind

def describe : TokenKind → String
  | lineBreak => "line break"
  | mark m => String.singleton m.char
  | keyword k => k.word
  | identifier name => "identifier `" ++ name ++ "`"
  | integer text | float text => "number `" ++ text ++ "`"
  | string text => "string '" ++ text ++ "'"
  | lineComment _ | blockComment _ => "comment"

def text? : TokenKind → Option String
  | mark .openBrace => some "\x7b"
  | mark .closeBrace => some "\x7d"
  | mark .openParen => some "("
  | mark .closeParen => some ")"
  | identifier text | integer text | float text | string text | lineComment text => some text
  | _ => none

/-- Line breaks and comments stand for nothing in the tree. -/
def isTrivia : TokenKind → Bool
  | lineBreak | lineComment _ | blockComment _ => true
  | _ => false

def check? : TokenKind → Option Check
  | keyword (.check c) => some c
  | _ => none

end TokenKind

structure Token where
  kind : TokenKind
  span : Span
deriving DecidableEq, Repr, Inhabited

end LijsCompiler
