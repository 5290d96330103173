import LijsCompiler.Name
import LijsCompiler.Token

/-!
# The tree of a program

A program is a list of nodes.  A node keeps names and literals as they were written; it has no
place in the source, so two texts that differ in layout only give the same tree.
-/

namespace LijsCompiler

/-- The operators that are written as calls with two arguments. -/
inductive Arithmetic where
  | add
  | sub
  | mul
  | div
  | mod
deriving DecidableEq, Repr, Inhabited

namespace Arithmetic

def name : Arithmetic → String
  | add => "add"
  | sub => "sub"
  | mul => "mul"
  | div => "div"
  | mod => "mod"

def all : List Arithmetic := [add, sub, mul, div, mod]

def ofName? (name : String) : Option Arithmetic := all.find? (·.name == name)

end Arithmetic

inductive Node where
  /-- A use of a name. -/
  | identifier (name : String)
  /-- A number without a dot, as written. -/
  | integer (text : String)
  /-- A number with a dot, as written. -/
  | float (text : String)
  /-- A quoted text, without its quotes. -/
  | string (text : String)
  /-- `[ elements ]` -/
  | array (elements : List Node)
  /-- `$ name value` -/
  | assignment (name : String) (value : Node)
  /-- `make name` -/
  | create (name : String)
  /-- `get name key` -/
  | get (name : String) (key : Node)
  /-- `set name key value` -/
  | set (name : String) (key value : Node)
  /-- `use 'path'` or `use 'path' as binding` -/
  | useModule (path : String) (binding : Option String)
  /-- `export name` -/
  | exportName (name : String)
  /-- `def name [ params ] body` -/
  | function (name : String) (params : List String) (body : List Node)
  /-- `(name args)` -/
  | call (name : String) (args : List Node)
  /-- `@ source body` -/
  | iterator (source : Node) (body : List Node)
  /-- `? left check right pass else fail` -/
  | conditional (check : Check) (left : Node) (right : Option Node) (pass : List Node)
      (fail : Option (List Node))
  /-- `! value` -/
  | result (value : Option Node)
  /-- `(op left right)` -/
  | arithmetic (op : Arithmetic) (left right : Node)
deriving Repr, Inhabited

inductive NodeKind where
  | identifier
  | integer
  | float
  | string
  | array
  | assignment
  | create
  | get
  | set
  | useModule
  | exportName
  | function
  | call
  | iterator
  | conditional
  | result
  | arithmetic
deriving DecidableEq, Repr, Inhabited

def NodeKind.describe : NodeKind → String
  | identifier => "identifier"
  | integer => "integer literal"
  | float => "float literal"
  | string => "string literal"
  | array => "array literal"
  | assignment => "assignment"
  | create => "object creation"
  | get => "object get"
  | set => "object set"
  | useModule => "import"
  | exportName => "export"
  | function => "function definition"
  | call => "function call"
  | iterator => "iterator"
  | conditional => "if statement"
  | result => "return statement"
  | arithmetic => "arithmetic"

namespace Node

def kind : Node → NodeKind
  | identifier _ => .identifier
  | integer _ => .integer
  | float _ => .float
  | string _ => .string
  | array _ => .array
  | assignment .. => .assignment
  | create _ => .create
  | get .. => .get
  | set .. => .set
  | useModule .. => .useModule
  | exportName _ => .exportName
  | function .. => .function
  | call .. => .call
  | iterator .. => .iterator
  | conditional .. => .conditional
  | result _ => .result
  | arithmetic .. => .arithmetic

/-- The names that a construct itself writes, its parts apart.  A name with dots counts by its
root, except where it names a function or a parameter. -/
def names : Node → List String
  | identifier name | assignment name _ | create name | get name _ | set name _ _
  | exportName name | call name _ => [Name.root name]
  | useModule _ (some binding) => [Name.root binding]
  | function name params _ => name :: params
  | _ => []

/-- The parts of a construct, in the order they are written. -/
def children : Node → List Node
  | array elements => elements
  | assignment _ value => [value]
  | get _ key => [key]
  | set _ key value => [key, value]
  | function _ _ body => body
  | call _ args => args
  | iterator source body => source :: body
  | conditional _ left right pass fail => left :: right.toList ++ pass ++ fail.getD []
  | result value => value.toList
  | arithmetic _ left right => [left, right]
  | _ => []

mutual

/-- A node and all nodes below it, each before its parts. -/
def walk : Node → List Node
  | identifier name => [identifier name]
  | integer text => [integer text]
  | float text => [float text]
  | string text => [string text]
  | array elements => array elements :: walkAll elements
  | assignment name value => assignment name value :: walk value
  | create name => [create name]
  | get name key => get name key :: walk key
  | set name key value => set name key value :: (walk key ++ walk value)
  | useModule path binding => [useModule path binding]
  | exportName name => [exportName name]
  | function name params body => function name params body :: walkAll body
  | call name args => call name args :: walkAll args
  | iterator source body => iterator source body :: (walk source ++ walkAll body)
  | conditional check left right pass fail =>
    conditional check left right pass fail ::
      (walk left ++ walkOption right ++ walkAll pass ++ walkBranch fail)
  | result value => result value :: walkOption value
  | arithmetic op left right => arithmetic op left right :: (walk left ++ walk right)

def walkAll : List Node → List Node
  | [] => []
  | node :: nodes => walk node ++ walkAll nodes

def walkOption : Option Node → List Node
  | none => []
  | some node => walk node

def walkBranch : Option (List Node) → List Node
  | none => []
  | some nodes => walkAll nodes

end

end Node

/-- The kinds that are left alone at the end of a function: every other last construct gives the
function's result. -/
def NodeKind.withoutResult : List NodeKind := [.conditional, .result, .iterator, .function]

end LijsCompiler
