import LijsCompiler.Lowering
import LijsCompiler.Node.Error
import LijsCompiler.Token.Lexer

/-!
# Diagnostics

The wording of errors and warnings: a code, a message, advice, and labels that point into the source.
-/

namespace LijsCompiler

/-- How grave a finding is, where that is said. -/
inductive Severity where
  | warning
deriving DecidableEq, Repr

structure Label where
  text : String
  span : Span
deriving DecidableEq, Repr

/-- A finding in words. -/
structure Diagnostic where
  code : String
  message : String
  help : Option String := none
  severity : Option Severity := none
  labels : List Label := []
deriving DecidableEq, Repr

def LexError.diagnostic (e : LexError) : Diagnostic :=
  match e.fault with
  | .unexpectedCharacter c =>
    { code := "lexer::invalid_character"
      message := "invalid character " ++ String.singleton c
      help := some ("`" ++ String.singleton c ++ "` cannot appear here")
      labels := [⟨"invalid character", e.span⟩] }
  | .unterminatedString =>
    { code := "lexer::unterminated_string"
      message := "unterminated string literal"
      help := some "close the string with `'`"
      labels := [⟨"string starts here", e.span⟩] }
  | .unterminatedComment =>
    { code := "lexer::unterminated_comment"
      message := "unterminated block comment"
      help := some "close the comment with `*/`"
      labels := [⟨"comment starts here", e.span⟩] }

namespace ParseFault

def code : ParseFault → String
  | nameMustBeIdentifier .. => "parser::name_must_be_identifier"
  | assignmentValue => "parser::assignment_value"
  | importPathNotString _ => "parser::import_path"
  | importBindingNotIdentifier _ => "parser::import_binding"
  | exportNotIdentifier _ => "parser::export_name"
  | invalidObjectKey _ => "parser::object_key"
  | missingCheck _ => "parser::missing_check"
  | tooManyOperands .. => "parser::too_many_operands"
  | parameterNotIdentifier _ => "parser::parameter"
  | expectedMark .. => "parser::missing_token"
  | unexpectedToken _ => "parser::unexpected_token"
  | unexpectedEnd _ => "parser::unexpected_end"
  | missingValue _ => "parser::missing_value"

def message : ParseFault → String
  | nameMustBeIdentifier construct found =>
    construct.describe ++ " name must be an identifier, found " ++ found.describe
  | assignmentValue => "value cannot be assignment"
  | importPathNotString found => "use statement must use a string, found " ++ found.describe
  | importBindingNotIdentifier found =>
    "imports must be bound to an identifier, found " ++ found.describe
  | exportNotIdentifier found => "only identifiers can be exported, found " ++ found.describe
  | invalidObjectKey found =>
    "object key must be an identifier or string, found " ++ found.describe
  | missingCheck found => "if statement must contain a check, found " ++ found.describe
  | tooManyOperands op count =>
    op.name ++ " only supports 2 arguments, found " ++ toString count
  | parameterNotIdentifier found =>
    "function parameter must be an identifier, found " ++ found.describe
  | expectedMark expected found =>
    "expected `" ++ String.singleton expected.char ++ "`, found " ++ found.describe
  | unexpectedToken kind => "unexpected token " ++ kind.describe
  | unexpectedEnd expected => "unexpected end of input, expected " ++ expected.describe
  | missingValue construct => construct.describe ++ " is missing a value"

def help : ParseFault → Option String
  | assignmentValue => some "assign the inner variable on its own line first"
  | importPathNotString _ => some "quote the module path: `use 'path'`"
  | missingCheck _ => some "use one of `is`, `kinda`, `contains` or `exists`"
  | tooManyOperands op _ =>
    some ("nest the calls: `(" ++ op.name ++ " a (" ++ op.name ++ " b c))`")
  | expectedMark expected _ =>
    some ("try adding `" ++ String.singleton expected.char ++ "` here")
  | unexpectedToken _ => some "this token is not valid here"
  | _ => none

def label : ParseFault → String
  | nameMustBeIdentifier .. | importBindingNotIdentifier _ | exportNotIdentifier _
  | parameterNotIdentifier _ => "expected an identifier"
  | assignmentValue => "nested assignment"
  | importPathNotString _ => "expected a string"
  | invalidObjectKey _ => "invalid key"
  | missingCheck _ => "expected a check"
  | tooManyOperands .. => "too many operands"
  | expectedMark expected _ => "expected `" ++ String.singleton expected.char ++ "` here"
  | unexpectedToken _ => "unexpected token"
  | unexpectedEnd _ => "input ends here"
  | missingValue _ => "expected a value"

end ParseFault

def ParseError.diagnostic (e : ParseError) : Diagnostic where
  code := e.fault.code
  message := e.fault.message
  help := e.fault.help
  labels := [⟨e.fault.label, e.span⟩]

def Warning.diagnostic : Warning → Diagnostic
  | statementInExpression kind =>
    { code := "lower::statement_in_expression"
      message := kind.describe ++ " used as a value"
      help := some ("move the " ++ kind.describe ++ " onto its own line")
      severity := some .warning }

def Warning.render (w : Warning) : String :=
  let d := w.diagnostic
  let help :=
    match d.help with
    | some text => "  help: " ++ text ++ "\n"
    | none => ""
  d.code ++ "\n\n  ⚠ " ++ d.message ++ "\n" ++ help

/-! ## Places in the source -/

/-- Where a label points: the line, counted from zero, the bytes before it on that line, and the text. -/
structure LabelPlace where
  line : Nat
  column : Nat
  text : String
deriving DecidableEq, Repr

/-- The line and column of the byte `distance` bytes ahead, when `line` and `column` is the place
of the first character.  A line ends with a line feed, a carriage return, or both; it counts as
ended before a byte that follows its last character. -/
def lineAndColumn (distance line column : Nat) : List Char → Nat × Nat
  | [] => (line, column)
  | '\r' :: '\n' :: rest =>
    if 2 ≤ distance then lineAndColumn (distance - 2) (line + 1) 0 rest else (line, column)
  | c :: rest =>
    if c == '\n' || c == '\r' then
      if 1 ≤ distance then lineAndColumn (distance - 1) (line + 1) 0 rest else (line, column)
    else if c.utf8Size ≤ distance then
      lineAndColumn (distance - c.utf8Size) line (column + c.utf8Size) rest
    else
      (line, column + distance)

def dropBytes : Nat → List Char → List Char
  | _, [] => []
  | n, c :: cs => if n == 0 then c :: cs else dropBytes (n - c.utf8Size) cs

/-- The first `n` bytes of a text.  A carriage return and a line feed are not parted: if the first
is taken, so is the second. -/
def takeBytes : Nat → List Char → List Char
  | 0, _ => []
  | _, [] => []
  | n + 1, '\r' :: '\n' :: cs => '\r' :: '\n' :: takeBytes (n - 1) cs
  | n + 1, c :: cs => c :: takeBytes (n + 1 - c.utf8Size) cs

def Span.locate (source : String) (s : Span) : LabelPlace :=
  let chars := source.toList
  let (line, column) := lineAndColumn s.start.toNat 0 0 chars
  let text := takeBytes s.length.toNat (dropBytes s.start.toNat chars)
  ⟨line, column, String.ofList text⟩

end LijsCompiler
