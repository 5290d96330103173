import LijsCompiler.Name
import LijsCompiler.Number.Binary64

/-!
# ESTree

The tree that generators of JavaScript text read.  Of the ESTree node types it has those that a
Lijs program can give.
-/

namespace LijsCompiler

inductive BinaryOperator where
  | strictEqual
  | looseEqual
  | lessThan
  | add
  | sub
  | mul
  | div
  | mod
deriving DecidableEq, Repr, Inhabited

def BinaryOperator.sign : BinaryOperator → String
  | strictEqual => "==="
  | looseEqual => "=="
  | lessThan => "<"
  | add => "+"
  | sub => "-"
  | mul => "*"
  | div => "/"
  | mod => "%"

inductive Literal where
  | number (x : Binary64)
  | string (text : String)
deriving DecidableEq, Repr, Inhabited

mutual

inductive ESTree where
  | identifier (name : String)
  /-- `object.property`, or `object[property]` where the property is computed. -/
  | memberExpression (object property : ESTree) (computed : Bool)
  | callExpression (callee : ESTree) (arguments : List ESTree)
  | variableDeclaration (declarations : List Declarator)
  | functionDeclaration (id : ESTree) (params defaults : List ESTree) (body : ESTree)
  | blockStatement (body : List ESTree)
  | returnStatement (argument : Option ESTree)
  | arrayExpression (elements : List ESTree)
  | objectExpression (properties : List ESTree)
  | assignmentExpression (left right : ESTree)
  | ifStatement (test consequent : ESTree) (alternate : Option ESTree)
  | binaryExpression (operator : BinaryOperator) (left right : ESTree)
  /-- The bitwise complement, which tells an index from `-1`. -/
  | unaryExpression (isBefore : Bool) (argument : ESTree)
  | forStatement (init test update body : ESTree)
  /-- The increment. -/
  | updateExpression (isBefore : Bool) (argument : ESTree)
  | expressionStatement (expression : ESTree)
  | literal (value : Literal) (raw : String)
deriving Repr, Inhabited

/-- One variable of a declaration, with its first value. -/
inductive Declarator where
  | mk (id init : ESTree)
deriving Repr, Inhabited

end

namespace ESTree

def type : ESTree → String
  | identifier _ => "Identifier"
  | memberExpression .. => "MemberExpression"
  | callExpression .. => "CallExpression"
  | variableDeclaration _ => "VariableDeclaration"
  | functionDeclaration .. => "FunctionDeclaration"
  | blockStatement _ => "BlockStatement"
  | returnStatement _ => "ReturnStatement"
  | arrayExpression _ => "ArrayExpression"
  | objectExpression _ => "ObjectExpression"
  | assignmentExpression .. => "AssignmentExpression"
  | ifStatement .. => "IfStatement"
  | binaryExpression .. => "BinaryExpression"
  | unaryExpression .. => "UnaryExpression"
  | forStatement .. => "ForStatement"
  | updateExpression .. => "UpdateExpression"
  | expressionStatement _ => "ExpressionStatement"
  | literal .. => "Literal"

def isExpression : ESTree → Bool
  | identifier _ | memberExpression .. | callExpression .. | arrayExpression _
  | objectExpression _ | assignmentExpression .. | binaryExpression .. | unaryExpression ..
  | updateExpression .. | literal .. => true
  | _ => false

/-- `object.property` -/
def member (object : ESTree) (property : String) : ESTree :=
  memberExpression object (identifier property) false

/-- `object[property]` -/
def index (object property : ESTree) : ESTree := memberExpression object property true

/-- The chain of members that a name with dots stands for.  A name of dots only stands for
itself. -/
def path (name : String) : ESTree :=
  match Name.members name with
  | [] => identifier name
  | root :: members => members.foldl member (identifier root)

/-- A number literal, with the text that stood for it. -/
def number (x : Binary64) (raw : String) : ESTree := literal (.number x) raw

/-- A string literal, in single quotes. -/
def string (text : String) : ESTree := literal (.string text) ("'" ++ text ++ "'")

/-- `var name = init` -/
def declare (name : String) (init : ESTree) : ESTree :=
  variableDeclaration [.mk (identifier name) init]

mutual

/-- A node and all nodes below it, each before its parts. -/
def walk : ESTree → List ESTree
  | identifier name => [identifier name]
  | memberExpression object property computed =>
    memberExpression object property computed :: (walk object ++ walk property)
  | callExpression callee arguments =>
    callExpression callee arguments :: (walk callee ++ walkAll arguments)
  | variableDeclaration declarations =>
    variableDeclaration declarations :: walkDeclarators declarations
  | functionDeclaration id params defaults body =>
    functionDeclaration id params defaults body ::
      (walk id ++ walkAll params ++ walkAll defaults ++ walk body)
  | blockStatement body => blockStatement body :: walkAll body
  | returnStatement argument => returnStatement argument :: walkOption argument
  | arrayExpression elements => arrayExpression elements :: walkAll elements
  | objectExpression properties => objectExpression properties :: walkAll properties
  | assignmentExpression left right =>
    assignmentExpression left right :: (walk left ++ walk right)
  | ifStatement test consequent alternate =>
    ifStatement test consequent alternate ::
      (walk test ++ walk consequent ++ walkOption alternate)
  | binaryExpression operator left right =>
    binaryExpression operator left right :: (walk left ++ walk right)
  | unaryExpression isBefore argument => unaryExpression isBefore argument :: walk argument
  | forStatement init test update body =>
    forStatement init test update body :: (walk init ++ walk test ++ walk update ++ walk body)
  | updateExpression isBefore argument => updateExpression isBefore argument :: walk argument
  | expressionStatement expression => expressionStatement expression :: walk expression
  | literal value raw => [literal value raw]

def walkAll : List ESTree → List ESTree
  | [] => []
  | node :: nodes => walk node ++ walkAll nodes

def walkOption : Option ESTree → List ESTree
  | none => []
  | some node => walk node

def walkDeclarators : List Declarator → List ESTree
  | [] => []
  | .mk id init :: declarators => walk id ++ walk init ++ walkDeclarators declarators

end

end ESTree

end LijsCompiler
