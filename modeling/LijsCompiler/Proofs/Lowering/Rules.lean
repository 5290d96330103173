import LijsCompiler.Lowering

/-!
# The rules of lowering

`Lowers` says, construct by construct, what becomes of a node: the output that stands for it, what
it hoists, what it warns of, and the registry after it.  The buffer of declarations, the list of
warnings and the depth of loops do not occur in the rules as state: a rule gives only what is added.
-/

namespace LijsCompiler

namespace Registry

def bind (r : Registry) (name : String) : Registry :=
  if Name.isDotted name then r else r.introduce name

def define (r : Registry) (name : String) (params : List String) : Registry :=
  params.foldl introduce (r.bind name)

end Registry

namespace Lowering

def Place.warnings (kind : NodeKind) : Place → List Warning
  | .statement => []
  | .value => [.statementInExpression kind]

def bound (name : String) (init : ESTree) : ESTree :=
  if Name.isDotted name then
    .expressionStatement (.assignmentExpression (.path name) init)
  else
    .declare name init

/-- What is lowered: a node in its place, nodes in value positions, or a list of statements with a
buffer of its own. -/
inductive Form where
  | node (place : Place) (node : Node)
  | values (nodes : List Node)
  | block (nodes : List Node)

def Form.place : Form → Place
  | .node place _ => place
  | .values _ => .value
  | .block _ => .statement

def Form.nodes : Form → List Node
  | .node _ n => [n]
  | .values nodes | .block nodes => nodes

/-- `Lowers o form depth r es hs ws r'`: inside `depth` loops and with the registry `r`, the form
becomes `es`, hoists `hs`, warns of `ws` and leaves the registry `r'`. -/
inductive Lowers (o : Options) :
    Form → Nat → Registry → List ESTree → List ESTree → List Warning → Registry → Prop where
  | identifier {place : Place} {name : String} {depth : Nat} {r : Registry} :
      Lowers o (.node place (.identifier name)) depth r [.path name] [] [] r
  | integer {place : Place} {text : String} {depth : Nat} {r : Registry} :
      Lowers o (.node place (.integer text)) depth r [numberLiteral text] [] [] r
  | float {place : Place} {text : String} {depth : Nat} {r : Registry} :
      Lowers o (.node place (.float text)) depth r [numberLiteral text] [] [] r
  | string {place : Place} {text : String} {depth : Nat} {r : Registry} :
      Lowers o (.node place (.string text)) depth r [.string text] [] [] r
  | array {place : Place} {elements : List Node} {depth : Nat} {r r' : Registry}
      {es hs : List ESTree} {ws : List Warning}
      (helements : Lowers o (.values elements) depth r es hs ws r') :
      Lowers o (.node place (.array elements)) depth r
        [place.embed (.arrayExpression es)] hs ws r'
  | assignment {place : Place} {name : String} {value : Node} {depth : Nat} {r r' : Registry}
      {init : ESTree} {hs : List ESTree} {ws : List Warning}
      (hvalue : Lowers o (.values [value]) depth r [init] hs ws r') :
      Lowers o (.node place (.assignment name value)) depth r
        [bound name init] hs (place.warnings .assignment ++ ws) (r'.bind name)
  | create {place : Place} {name : String} {depth : Nat} {r : Registry} :
      Lowers o (.node place (.create name)) depth r
        [bound name (.objectExpression [])] [] (place.warnings .create) (r.bind name)
  | get {place : Place} {name : String} {key : Node} {depth : Nat} {r r' : Registry}
      {k : ESTree} {hs : List ESTree} {ws : List Warning}
      (hkey : Lowers o (.values [key]) depth r [k] hs ws r') :
      Lowers o (.node place (.get name key)) depth r
        [place.embed (.index (.path name) k)] hs ws r'
  | set {place : Place} {name : String} {key value : Node} {depth : Nat} {r r' : Registry}
      {k v : ESTree} {hs : List ESTree} {ws : List Warning}
      (hparts : Lowers o (.values [key, value]) depth r [k, v] hs ws r') :
      Lowers o (.node place (.set name key value)) depth r
        [place.embed (.assignmentExpression (.index (.path name) k) v)] hs ws r'
  | useModule {place : Place} {path : String} {depth : Nat} {r : Registry} :
      Lowers o (.node place (.useModule path none)) depth r [place.embed (require o path)] [] [] r
  | useModuleAs {place : Place} {path binding : String} {depth : Nat} {r : Registry} :
      Lowers o (.node place (.useModule path (some binding))) depth r
        [bound binding (require o path)] [] (place.warnings .useModule) (r.bind binding)
  | exportName {place : Place} {name : String} {depth : Nat} {r : Registry} :
      Lowers o (.node place (.exportName name)) depth r [place.embed (exported o name)] [] [] r
  | function {place : Place} {name : String} {params : List String} {body : List Node}
      {depth : Nat} {r r' : Registry} {ss : List ESTree} {ws : List Warning}
      (hbody : Lowers o (.block body) depth (r.define name params) ss [] ws r') :
      Lowers o (.node place (.function name params body)) depth r
        [.functionDeclaration (.identifier name) (params.map .identifier) []
          (.blockStatement (withResult body ss))]
        [] (place.warnings .function ++ ws) r'
  | call {place : Place} {name : String} {args : List Node} {depth : Nat} {r r' : Registry}
      {es hs : List ESTree} {ws : List Warning}
      (hargs : Lowers o (.values args) depth r es hs ws r') :
      Lowers o (.node place (.call name args)) depth r
        [place.embed (.callExpression (.path name) es)] hs ws r'
  /-- A loop over an array draws a temporary for it. -/
  | iteratorArray {place : Place} {source : Node} {body : List Node} {depth : Nat}
      {r r₁ r₂ r₃ : Registry} {elements hs ss : List ESTree} {ws ws' : List Warning}
      {name : String}
      (hsource : Lowers o (.values [source]) depth r [.arrayExpression elements] hs ws r₁)
      (hfresh : r₁.fresh? = some (name, r₂))
      (hbody : Lowers o (.block body) (depth + 1) r₂ ss [] ws' r₃) :
      Lowers o (.node place (.iterator source body)) depth r
        [countingLoop (.identifier name) (loopIndex depth) ss]
        (hs ++ [.declare name (.arrayExpression elements)])
        (place.warnings .iterator ++ ws ++ ws') r₃
  | iterator {place : Place} {source : Node} {body : List Node} {depth : Nat}
      {r r₁ r₂ : Registry} {s : ESTree} {hs ss : List ESTree} {ws ws' : List Warning}
      (hsource : Lowers o (.values [source]) depth r [s] hs ws r₁)
      (harray : ∀ elements, s ≠ .arrayExpression elements)
      (hbody : Lowers o (.block body) (depth + 1) r₁ ss [] ws' r₂) :
      Lowers o (.node place (.iterator source body)) depth r
        [countingLoop s (loopIndex depth) ss] hs (place.warnings .iterator ++ ws ++ ws') r₂
  | conditional {place : Place} {check : Check} {left : Node} {right : Option Node}
      {pass : List Node} {depth : Nat} {r r₁ r₂ : Registry} {l : ESTree}
      {rs hs ps : List ESTree} {ws ws' : List Warning}
      (hoperands : Lowers o (.values (left :: right.toList)) depth r (l :: rs) hs ws r₁)
      (hpass : Lowers o (.block pass) depth r₁ ps [] ws' r₂) :
      Lowers o (.node place (.conditional check left right pass none)) depth r
        [.ifStatement (testOf check l rs.head?) (.blockStatement ps) none] hs
        (place.warnings .conditional ++ ws ++ ws') r₂
  | conditionalElse {place : Place} {check : Check} {left : Node} {right : Option Node}
      {pass fail : List Node} {depth : Nat} {r r₁ r₂ r₃ : Registry} {l : ESTree}
      {rs hs ps fs : List ESTree} {ws ws' ws'' : List Warning}
      (hoperands : Lowers o (.values (left :: right.toList)) depth r (l :: rs) hs ws r₁)
      (hpass : Lowers o (.block pass) depth r₁ ps [] ws' r₂)
      (hfail : Lowers o (.block fail) depth r₂ fs [] ws'' r₃) :
      Lowers o (.node place (.conditional check left right pass (some fail))) depth r
        [.ifStatement (testOf check l rs.head?) (.blockStatement ps)
          (some (.blockStatement fs))]
        hs (place.warnings .conditional ++ ws ++ ws' ++ ws'') r₃
  | result {place : Place} {value : Option Node} {depth : Nat} {r r' : Registry}
      {es hs : List ESTree} {ws : List Warning}
      (hvalue : Lowers o (.values value.toList) depth r es hs ws r') :
      Lowers o (.node place (.result value)) depth r
        [.returnStatement es.head?] hs (place.warnings .result ++ ws) r'
  | arithmetic {place : Place} {op : Arithmetic} {left right : Node} {depth : Nat}
      {r r' : Registry} {x y : ESTree} {hs : List ESTree} {ws : List Warning}
      (hparts : Lowers o (.values [left, right]) depth r [x, y] hs ws r') :
      Lowers o (.node place (.arithmetic op left right)) depth r
        [place.embed (.binaryExpression (operatorOf op) x y)] hs ws r'
  | noValues {depth : Nat} {r : Registry} : Lowers o (.values []) depth r [] [] [] r
  | values {node : Node} {nodes : List Node} {depth : Nat} {r r₁ r₂ : Registry} {e : ESTree}
      {es hs hs' : List ESTree} {ws ws' : List Warning}
      (hnode : Lowers o (.node .value node) depth r [e] hs ws r₁)
      (hnodes : Lowers o (.values nodes) depth r₁ es hs' ws' r₂) :
      Lowers o (.values (node :: nodes)) depth r (e :: es) (hs ++ hs') (ws ++ ws') r₂
  | emptyBlock {depth : Nat} {r : Registry} : Lowers o (.block []) depth r [] [] [] r
  /-- What a statement hoists stands right before it. -/
  | block {node : Node} {nodes : List Node} {depth : Nat} {r r₁ r₂ : Registry} {e : ESTree}
      {es hs : List ESTree} {ws ws' : List Warning}
      (hnode : Lowers o (.node .statement node) depth r [e] hs ws r₁)
      (hnodes : Lowers o (.block nodes) depth r₁ es [] ws' r₂) :
      Lowers o (.block (node :: nodes)) depth r (hs ++ e :: es) [] (ws ++ ws') r₂

end Lowering

end LijsCompiler
