import LijsCompiler.ESTree
import LijsCompiler.Value.Json

/-!
# ESTree as data

Every node is an object whose first field is its type.
-/

namespace LijsCompiler

/-- The greatest magnitude up to which every integer is a double. -/
def greatestSafeInteger : Nat := 9007199254740991

/-- A literal's value.  Whole numbers that are safe stay whole. -/
def Literal.toValue : Literal → Value
  | string text => .string text
  | number x =>
    match x.toInt? with
    | some n => if n.natAbs ≤ greatestSafeInteger then .integer n else .float x
    | none => .float x

namespace ESTree

mutual

/-- A node as data, its fields in the order of the format. -/
def toValue : ESTree → Value
  | identifier name => .object [("type", .string "Identifier"), ("name", .string name)]
  | memberExpression object property computed =>
    .object [("type", .string "MemberExpression"), ("object", toValue object),
      ("property", toValue property), ("computed", .boolean computed)]
  | callExpression callee arguments =>
    .object [("type", .string "CallExpression"), ("callee", toValue callee),
      ("arguments", .array (toValues arguments))]
  | variableDeclaration declarations =>
    .object [("type", .string "VariableDeclaration"),
      ("declarations", .array (declaratorValues declarations)), ("kind", .string "var")]
  | functionDeclaration id params defaults body =>
    .object [("type", .string "FunctionDeclaration"), ("id", toValue id),
      ("params", .array (toValues params)), ("defaults", .array (toValues defaults)),
      ("body", toValue body)]
  | blockStatement body =>
    .object [("type", .string "BlockStatement"), ("body", .array (toValues body))]
  | returnStatement argument =>
    .object [("type", .string "ReturnStatement"), ("argument", optionValue argument)]
  | arrayExpression elements =>
    .object [("type", .string "ArrayExpression"), ("elements", .array (toValues elements))]
  | objectExpression properties =>
    .object [("type", .string "ObjectExpression"), ("properties", .array (toValues properties))]
  | assignmentExpression left right =>
    .object [("type", .string "AssignmentExpression"), ("operator", .string "="),
      ("left", toValue left), ("right", toValue right)]
  | ifStatement test consequent alternate =>
    .object [("type", .string "IfStatement"), ("test", toValue test),
      ("consequent", toValue consequent), ("alternate", optionValue alternate)]
  | binaryExpression operator left right =>
    .object [("type", .string "BinaryExpression"), ("operator", .string operator.sign),
      ("left", toValue left), ("right", toValue right)]
  | unaryExpression isBefore argument =>
    .object [("type", .string "UnaryExpression"), ("operator", .string "~"),
      ("prefix", .boolean isBefore), ("argument", toValue argument)]
  | forStatement init test update body =>
    .object [("type", .string "ForStatement"), ("init", toValue init), ("test", toValue test),
      ("update", toValue update), ("body", toValue body)]
  | updateExpression isBefore argument =>
    .object [("type", .string "UpdateExpression"), ("operator", .string "++"),
      ("prefix", .boolean isBefore), ("argument", toValue argument)]
  | expressionStatement expression =>
    .object [("type", .string "ExpressionStatement"), ("expression", toValue expression)]
  | literal value raw =>
    .object [("type", .string "Literal"), ("value", value.toValue), ("raw", .string raw)]

def toValues : List ESTree → List Value
  | [] => []
  | node :: nodes => toValue node :: toValues nodes

def optionValue : Option ESTree → Value
  | none => .null
  | some node => toValue node

def declaratorValues : List Declarator → List Value
  | [] => []
  | .mk id init :: declarators =>
    .object [("type", .string "VariableDeclarator"), ("id", toValue id),
      ("init", toValue init)] :: declaratorValues declarators

end

def programValue (body : List ESTree) : Value :=
  .object [("type", .string "Program"), ("body", .array (toValues body))]

end ESTree

end LijsCompiler
