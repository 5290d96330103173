import LijsCompiler.Node.Parser

/-!
# The grammar of programs

`Reads` is the grammar as a relation: one rule for each construct, with the tokens that are left
made explicit and the one token of lookahead as a side condition.  The readers accept exactly what
it derives, so facts about parsed programs are proved by induction on derivations and never open a
reader.
-/

namespace LijsCompiler.Node

def nextKind? (ts : List Token) : Option TokenKind := ts.head?.map (·.kind)

@[simp] theorem nextKind?_nil : nextKind? [] = none := rfl

@[simp] theorem nextKind?_cons (t : Token) (ts : List Token) :
    nextKind? (t :: ts) = some t.kind := rfl

def keyOf? : TokenKind → Option Node
  | .identifier name => some (.identifier name)
  | .string text => some (.string text)
  | _ => none

theorem eq_of_keyOf? {kind : TokenKind} {key : Node} (h : keyOf? kind = some key) :
    (∃ name, kind = .identifier name ∧ key = .identifier name) ∨
      ∃ text, kind = .string text ∧ key = .string text := by
  unfold keyOf? at h
  split at h
  · cases h
    exact .inl ⟨_, rfl, rfl⟩
  · cases h
    exact .inr ⟨_, rfl, rfl⟩
  · cases h

theorem name_of_ofName? {name : String} {op : Arithmetic} (h : Arithmetic.ofName? name = some op) :
    op.name = name := by
  simpa using List.find?_some h

/-- What can be asked of the front of a token list.  Every answer is a list of nodes. -/
inductive Form where
  /-- One node, or one line break or comment, which gives no node. -/
  | item
  /-- Nodes up to a closing mark, which is taken too. -/
  | upTo (closer : Mark)
  /-- Nodes in braces, or a single item. -/
  | body
  /-- The second operand of a check, if it takes one. -/
  | operand (check : Check)

inductive ReadsParams : List Token → List String → List Token → Prop where
  | close {t : Token} {rest : List Token} (h : t.kind = .mark .closeBracket) :
      ReadsParams (t :: rest) [] rest
  | name {t : Token} {rest after : List Token} {name : String} {names : List String}
      (h : t.kind = .identifier name) (hnames : ReadsParams rest names after) :
      ReadsParams (t :: rest) (name :: names) after
  | trivia {t : Token} {rest after : List Token} {names : List String}
      (h : t.kind.isTrivia) (hnames : ReadsParams rest names after) :
      ReadsParams (t :: rest) names after

/-- From the tokens in front a form gives nodes and leaves the tokens at the end. -/
inductive Reads : Form → List Token → List Node → List Token → Prop where
  | trivia {t : Token} {rest : List Token} (h : t.kind.isTrivia) :
      Reads .item (t :: rest) [] rest
  | identifier {t : Token} {rest : List Token} {name : String}
      (h : t.kind = .identifier name) :
      Reads .item (t :: rest) [.identifier name] rest
  | integer {t : Token} {rest : List Token} {text : String} (h : t.kind = .integer text) :
      Reads .item (t :: rest) [.integer text] rest
  | float {t : Token} {rest : List Token} {text : String} (h : t.kind = .float text) :
      Reads .item (t :: rest) [.float text] rest
  | string {t : Token} {rest : List Token} {text : String} (h : t.kind = .string text) :
      Reads .item (t :: rest) [.string text] rest
  | array {t : Token} {rest after : List Token} {elements : List Node}
      (h : t.kind = .mark .openBracket)
      (helements : Reads (.upTo .closeBracket) rest elements after) :
      Reads .item (t :: rest) [.array elements] after
  | assignment {t n : Token} {rest after : List Token} {name : String} {value : Node}
      (h : t.kind = .mark .assign) (hname : n.kind = .identifier name)
      (hvalue : Reads .item rest [value] after) (hkind : value.kind ≠ .assignment) :
      Reads .item (t :: n :: rest) [.assignment name value] after
  | create {t n : Token} {rest : List Token} {name : String}
      (h : t.kind = .keyword .make) (hname : n.kind = .identifier name) :
      Reads .item (t :: n :: rest) [.create name] rest
  | get {t n k : Token} {rest : List Token} {name : String} {key : Node}
      (h : t.kind = .keyword .get) (hname : n.kind = .identifier name)
      (hkey : keyOf? k.kind = some key) :
      Reads .item (t :: n :: k :: rest) [.get name key] rest
  | set {t n k : Token} {rest after : List Token} {name : String} {key value : Node}
      (h : t.kind = .keyword .set) (hname : n.kind = .identifier name)
      (hkey : keyOf? k.kind = some key) (hvalue : Reads .item rest [value] after) :
      Reads .item (t :: n :: k :: rest) [.set name key value] after
  | useModule {t p : Token} {rest : List Token} {path : String}
      (h : t.kind = .keyword .useModule) (hpath : p.kind = .string path)
      (hnext : nextKind? rest ≠ some (.keyword .asName)) :
      Reads .item (t :: p :: rest) [.useModule path none] rest
  | useModuleAs {t p a b : Token} {rest : List Token} {path binding : String}
      (h : t.kind = .keyword .useModule) (hpath : p.kind = .string path)
      (has : a.kind = .keyword .asName) (hbinding : b.kind = .identifier binding) :
      Reads .item (t :: p :: a :: b :: rest) [.useModule path (some binding)] rest
  | exportName {t n : Token} {rest : List Token} {name : String}
      (h : t.kind = .keyword .exportName) (hname : n.kind = .identifier name) :
      Reads .item (t :: n :: rest) [.exportName name] rest
  | function {t n b : Token} {rest inner after : List Token} {name : String}
      {params : List String} {body : List Node}
      (h : t.kind = .keyword .define) (hname : n.kind = .identifier name)
      (hbracket : b.kind = .mark .openBracket) (hparams : ReadsParams rest params inner)
      (hbody : Reads .body inner body after) :
      Reads .item (t :: n :: b :: rest) [.function name params body] after
  | call {t n : Token} {rest after : List Token} {name : String} {args : List Node}
      (h : t.kind = .mark .openParen) (hname : n.kind = .identifier name)
      (hargs : Reads (.upTo .closeParen) rest args after)
      (hcall : Arithmetic.ofName? name = none ∨ args.length ≤ 1) :
      Reads .item (t :: n :: rest) [.call name args] after
  | arithmetic {t n : Token} {rest after : List Token} {name : String} {op : Arithmetic}
      {left right : Node}
      (h : t.kind = .mark .openParen) (hname : n.kind = .identifier name)
      (hop : Arithmetic.ofName? name = some op)
      (hargs : Reads (.upTo .closeParen) rest [left, right] after) :
      Reads .item (t :: n :: rest) [.arithmetic op left right] after
  | iterator {t : Token} {rest inner after : List Token} {source : Node} {body : List Node}
      (h : t.kind = .mark .loop) (hsource : Reads .item rest [source] inner)
      (hbody : Reads .body inner body after) :
      Reads .item (t :: rest) [.iterator source body] after
  | conditional {t c : Token} {rest ts₁ ts₂ ts₃ : List Token} {check : Check}
      {left : Node} {right pass : List Node}
      (h : t.kind = .mark .condition) (hleft : Reads .item rest [left] (c :: ts₁))
      (hcheck : c.kind = .keyword (.check check))
      (hright : Reads (.operand check) ts₁ right ts₂) (hpass : Reads .body ts₂ pass ts₃)
      (hnext : nextKind? ts₃ ≠ some (.keyword .otherwise)) :
      Reads .item (t :: rest) [.conditional check left right.head? pass none] ts₃
  | conditionalElse {t c e : Token} {rest ts₁ ts₂ ts₃ ts₄ : List Token} {check : Check}
      {left : Node} {right pass fail : List Node}
      (h : t.kind = .mark .condition) (hleft : Reads .item rest [left] (c :: ts₁))
      (hcheck : c.kind = .keyword (.check check))
      (hright : Reads (.operand check) ts₁ right ts₂)
      (hpass : Reads .body ts₂ pass (e :: ts₃)) (helse : e.kind = .keyword .otherwise)
      (hfail : Reads .body ts₃ fail ts₄) :
      Reads .item (t :: rest) [.conditional check left right.head? pass (some fail)] ts₄
  | resultAlone {t : Token} {rest : List Token} (h : t.kind = .mark .result)
      (hnext : rest = [] ∨ nextKind? rest = some .lineBreak) :
      Reads .item (t :: rest) [.result none] rest
  | result {t : Token} {rest after : List Token} {value : List Node}
      (h : t.kind = .mark .result) (hnext : nextKind? rest ≠ some .lineBreak)
      (hvalue : Reads .item rest value after) :
      Reads .item (t :: rest) [.result value.head?] after
  | done {t : Token} {rest : List Token} {closer : Mark} (h : t.kind = .mark closer) :
      Reads (.upTo closer) (t :: rest) [] rest
  | more {ts after final : List Token} {closer : Mark} {first nodes : List Node}
      (hnext : nextKind? ts ≠ some (.mark closer)) (hfirst : Reads .item ts first after)
      (hnodes : Reads (.upTo closer) after nodes final) :
      Reads (.upTo closer) ts (first ++ nodes) final
  | braces {t : Token} {rest after : List Token} {nodes : List Node}
      (h : t.kind = .mark .openBrace) (hnodes : Reads (.upTo .closeBrace) rest nodes after) :
      Reads .body (t :: rest) nodes after
  | single {ts after : List Token} {nodes : List Node}
      (hnext : nextKind? ts ≠ some (.mark .openBrace)) (hnodes : Reads .item ts nodes after) :
      Reads .body ts nodes after
  | operand {ts after : List Token} {check : Check} {right : Node}
      (hcheck : check.takesRight) (hright : Reads .item ts [right] after) :
      Reads (.operand check) ts [right] after
  | noOperand {ts : List Token} {check : Check} (hcheck : check.takesRight = false) :
      Reads (.operand check) ts [] ts

/-- An item is at most one node. -/
theorem head?_toList_of_readsItem {ts rest : List Token} {nodes : List Node}
    (h : Reads .item ts nodes rest) : nodes.head?.toList = nodes := by
  cases h <;> rfl

inductive ReadsProgram : List Token → List Node → Prop where
  | nil : ReadsProgram [] []
  | item {ts after : List Token} {first nodes : List Node}
      (hfirst : Reads .item ts first after) (hnodes : ReadsProgram after nodes) :
      ReadsProgram ts (first ++ nodes)

end LijsCompiler.Node
