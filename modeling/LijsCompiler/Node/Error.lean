import LijsCompiler.Node

/-!
# Parse errors

Tokens that form no program are refused for one of thirteen causes, each with the place to blame.
-/

namespace LijsCompiler

inductive Construct where
  | binding
  | object
  | functionCall
  | function
  | condition
  | assignment
  | objectSet
  | iterator
deriving DecidableEq, Repr, Inhabited

def Construct.describe : Construct → String
  | binding => "variable"
  | object => "object"
  | functionCall => "function call"
  | function => "function"
  | condition => "if condition"
  | assignment => "assignment"
  | objectSet => "object set"
  | iterator => "iterator"

inductive Expectation where
  | value
  | name
  | body
  | check
  | modulePath
  | importBinding
  | exportedName
  | objectKey
  | mark (m : Mark)
deriving DecidableEq, Repr, Inhabited

def Expectation.describe : Expectation → String
  | value => "a value"
  | name => "a name"
  | body => "a body"
  | check => "a check"
  | modulePath => "a module path"
  | importBinding => "an import binding"
  | exportedName => "an exported name"
  | objectKey => "an object key"
  | mark m => "`" ++ String.singleton m.char ++ "`"

inductive ParseFault where
  /-- A name is needed and something else is found. -/
  | nameMustBeIdentifier (construct : Construct) (found : TokenKind)
  /-- An assignment is assigned. -/
  | assignmentValue
  | importPathNotString (found : TokenKind)
  | importBindingNotIdentifier (found : TokenKind)
  | exportNotIdentifier (found : TokenKind)
  | invalidObjectKey (found : TokenKind)
  /-- A condition has no check after its first operand. -/
  | missingCheck (found : TokenKind)
  /-- An operator is called with more than two arguments. -/
  | tooManyOperands (op : Arithmetic) (count : Nat)
  | parameterNotIdentifier (found : TokenKind)
  /-- One certain mark is needed. -/
  | expectedMark (expected : Mark) (found : TokenKind)
  | unexpectedToken (kind : TokenKind)
  | unexpectedEnd (expected : Expectation)
  /-- A line break or a comment stands where a value is needed. -/
  | missingValue (construct : Construct)
deriving DecidableEq, Repr, Inhabited

structure ParseError where
  fault : ParseFault
  span : Span
deriving DecidableEq, Repr, Inhabited

end LijsCompiler
