import LijsCompiler.ESTree
import LijsCompiler.Node
import LijsCompiler.Number.Decimal
import LijsCompiler.Options
import LijsCompiler.Registry

/-!
# From the tree of a program to ESTree

Each node is lowered once, in the place where it stands: as a statement of a list, or as a value
inside another construct.  A construct that declares a name or directs control is lowered in a value
position all the same, and a warning is given.

A loop over an array first declares a temporary for the array.  The declaration is put into
the statement list that holds the loop, through a buffer that each list keeps to itself.
-/

namespace LijsCompiler

/-- A finding that does not stop the compilation. -/
inductive Warning where
  /-- A construct that gives no value stands where a value is needed. -/
  | statementInExpression (kind : NodeKind)
deriving DecidableEq, Repr, Inhabited

namespace Lowering

structure Context where
  registry : Registry
  /-- Declarations that wait for the next statement of the list at hand. -/
  hoisted : List ESTree
  /-- The number of loops around the place at hand. -/
  depth : Nat
  warnings : List Warning
deriving Repr

/-- A step of lowering.  It has no result only if the draw of a temporary is given up. -/
abbrev Lower := StateT Context Option

inductive Place where
  | statement
  | value
deriving DecidableEq, Repr

/-- Warns if a construct that gives no value stands in a value position. -/
def Place.expectStatement (kind : NodeKind) : Place → Lower Unit
  | .statement => return
  | .value => modify fun c =>
    { c with warnings := c.warnings ++ [.statementInExpression kind] }

/-- An expression in its place: on its own it is a statement. -/
def Place.embed (e : ESTree) : Place → ESTree
  | .statement => .expressionStatement e
  | .value => e

def introduce (name : String) : Lower Unit :=
  modify fun c => { c with registry := c.registry.introduce name }

def fresh : Lower String := do
  let c ← get
  match c.registry.fresh? with
  | none => failure
  | some (name, registry) => do
    set { c with registry }
    return name

/-- Leaves a declaration for the next statement of the list at hand. -/
def hoist (declaration : ESTree) : Lower Unit :=
  modify fun c => { c with hoisted := c.hoisted ++ [declaration] }

def takeHoisted : Lower (List ESTree) :=
  modifyGet fun c => (c.hoisted, { c with hoisted := [] })

def deeper {α : Type} (step : Lower α) : Lower α := do
  modify fun c => { c with depth := c.depth + 1 }
  let a ← step
  modify fun c => { c with depth := c.depth - 1 }
  return a

/-- Runs a step with an empty buffer of declarations and brings back the buffer at hand. -/
def withOwnBuffer {α : Type} (step : Lower α) : Lower α := do
  let outer ← takeHoisted
  let a ← step
  modify fun c => { c with hoisted := outer }
  return a

/-- Gives a name its value: a name with dots is assigned, any other is declared. -/
def bindName (name : String) (init : ESTree) : Lower ESTree :=
  if Name.isDotted name then
    return .expressionStatement (.assignmentExpression (.path name) init)
  else do
    introduce name
    return .declare name init

def require (o : Options) (path : String) : ESTree :=
  .callExpression (.path o.requireCallee) [.string path]

def exported (o : Options) (name : String) : ESTree :=
  .assignmentExpression (.member (.path o.exportsTarget) (Name.tail name)) (.path name)

def numberLiteral (text : String) : ESTree := .number (Decimal.literalValue text) text

def operatorOf : Arithmetic → BinaryOperator
  | .add => .add
  | .sub => .sub
  | .mul => .mul
  | .div => .div
  | .mod => .mod

/-- The test that a check makes.  Without a second operand the first one decides. -/
def testOf : Check → ESTree → Option ESTree → ESTree
  | .present, left, _ => left
  | _, left, none => left
  | .equal, left, some right => .binaryExpression .strictEqual left right
  | .similar, left, some right => .binaryExpression .looseEqual left right
  | .contains, left, some right =>
    .unaryExpression true (.callExpression (.member left "indexOf") [right])

/-- A statement that gives its value as the result, if it has one. -/
def resultOf : ESTree → ESTree
  | .expressionStatement e => .returnStatement (some e)
  | statement =>
    if statement.isExpression then .returnStatement (some statement) else statement

/-- The statements of a function of which `body` is the source.  The last one gives the result
unless its construct is exempt. -/
def withResult (body : List Node) (statements : List ESTree) : List ESTree :=
  match body.getLast? with
  | none => statements
  | some last =>
    if last.kind ∈ NodeKind.withoutResult then statements
    else statements.dropLast ++ statements.getLast?.toList.map resultOf

def itemName : String := "item"

def countingLoop (source : ESTree) (i : String) (body : List ESTree) : ESTree :=
  .forStatement
    (.declare i (.number (.zero false) "0"))
    (.binaryExpression .lessThan (.identifier i) (.member source "length"))
    (.updateExpression false (.identifier i))
    (.blockStatement (.declare itemName (.index source (.identifier i)) :: body))

/-- The sequence that a loop runs over: an array is stored in a temporary first. -/
def loopSource : ESTree → Lower ESTree
  | .arrayExpression elements => do
    let name ← fresh
    hoist (.declare name (.arrayExpression elements))
    return .identifier name
  | source => return source

mutual

def lowerNode (o : Options) (place : Place) : Node → Lower ESTree
  | .identifier name => return .path name
  | .integer text | .float text => return numberLiteral text
  | .string text => return .string text
  | .array elements => do
    let elements ← lowerValues o elements
    return place.embed (.arrayExpression elements)
  | .assignment name value => do
    place.expectStatement .assignment
    let init ← lowerNode o .value value
    bindName name init
  | .create name => do
    place.expectStatement .create
    bindName name (.objectExpression [])
  | .get name key => do
    let key ← lowerNode o .value key
    return place.embed (.index (.path name) key)
  | .set name key value => do
    let key ← lowerNode o .value key
    let value ← lowerNode o .value value
    return place.embed (.assignmentExpression (.index (.path name) key) value)
  | .useModule path none => return place.embed (require o path)
  | .useModule path (some binding) => do
    place.expectStatement .useModule
    bindName binding (require o path)
  | .exportName name => return place.embed (exported o name)
  | .function name params body => do
    place.expectStatement .function
    if !Name.isDotted name then introduce name
    params.forM introduce
    let statements ← withOwnBuffer (lowerStatements o body)
    return .functionDeclaration (.identifier name) (params.map .identifier) []
      (.blockStatement (withResult body statements))
  | .call name args => do
    let args ← lowerValues o args
    return place.embed (.callExpression (.path name) args)
  | .iterator source body => do
    place.expectStatement .iterator
    let source ← lowerNode o .value source
    let source ← loopSource source
    let i := loopIndex (← get).depth
    let statements ← deeper (withOwnBuffer (lowerStatements o body))
    return countingLoop source i statements
  | .conditional check left right pass fail => do
    place.expectStatement .conditional
    let left ← lowerNode o .value left
    let right ← lowerOption o right
    let pass ← withOwnBuffer (lowerStatements o pass)
    let fail ← lowerBranch o fail
    return .ifStatement (testOf check left right) (.blockStatement pass) fail
  | .result value => do
    place.expectStatement .result
    let value ← lowerOption o value
    return .returnStatement value
  | .arithmetic op left right => do
    let left ← lowerNode o .value left
    let right ← lowerNode o .value right
    return place.embed (.binaryExpression (operatorOf op) left right)

def lowerValues (o : Options) : List Node → Lower (List ESTree)
  | [] => return []
  | node :: nodes => do
    let value ← lowerNode o .value node
    let values ← lowerValues o nodes
    return value :: values

def lowerOption (o : Options) : Option Node → Lower (Option ESTree)
  | none => return none
  | some node => do
    let value ← lowerNode o .value node
    return some value

def lowerBranch (o : Options) : Option (List Node) → Lower (Option ESTree)
  | none => return none
  | some nodes => do
    let statements ← withOwnBuffer (lowerStatements o nodes)
    return some (.blockStatement statements)

/-- Lowers nodes to statements.  What a node hoists stands before its statement. -/
def lowerStatements (o : Options) : List Node → Lower (List ESTree)
  | [] => return []
  | node :: nodes => do
    let statement ← lowerNode o .statement node
    let declarations ← takeHoisted
    let statements ← lowerStatements o nodes
    return declarations ++ statement :: statements

end

end Lowering

end LijsCompiler
