import LijsCompiler.Proofs.Node.WellFormed

/-!
# Printing a program as tokens

The canonical tokens of a tree: every body stands in braces, an operator is called by its name, and
a result without a value is followed by a comment, which the reader takes for its missing value.
Spans are left out, since the tree has none.
-/

namespace LijsCompiler

inductive Comment where
  | line (text : String)
  | block (lines : List String)
deriving DecidableEq, Repr

def Comment.kind : Comment → TokenKind
  | line text => .lineComment text
  | block lines => .blockComment lines

namespace Node

def braced (inner : List TokenKind) : List TokenKind :=
  .mark .openBrace :: (inner ++ [.mark .closeBrace])

mutual

/-- The tokens of a node, where `comment` follows each result without a value. -/
def print (comment : Comment) : Node → List TokenKind
  | identifier name => [.identifier name]
  | integer text => [.integer text]
  | float text => [.float text]
  | string text => [.string text]
  | array elements =>
      .mark .openBracket :: (printAll comment elements ++ [.mark .closeBracket])
  | assignment name value => .mark .assign :: .identifier name :: print comment value
  | create name => [.keyword .make, .identifier name]
  | get name key => .keyword .get :: .identifier name :: print comment key
  | set name key value =>
      .keyword .set :: .identifier name :: (print comment key ++ print comment value)
  | useModule path none => [.keyword .useModule, .string path]
  | useModule path (some binding) =>
      [.keyword .useModule, .string path, .keyword .asName, .identifier binding]
  | exportName name => [.keyword .exportName, .identifier name]
  | function name params body =>
      .keyword .define :: .identifier name :: .mark .openBracket ::
        (params.map .identifier ++ .mark .closeBracket :: braced (printAll comment body))
  | call name args =>
      .mark .openParen :: .identifier name :: (printAll comment args ++ [.mark .closeParen])
  | iterator source body =>
      .mark .loop :: (print comment source ++ braced (printAll comment body))
  | conditional check left right pass fail =>
      .mark .condition :: (print comment left ++ .keyword (.check check) ::
        (printOption comment right ++ (braced (printAll comment pass) ++ printElse comment fail)))
  | result none => [.mark .result, comment.kind]
  | result (some value) => .mark .result :: print comment value
  | arithmetic op left right =>
      .mark .openParen :: .identifier op.name ::
        (print comment left ++ (print comment right ++ [.mark .closeParen]))

def printAll (comment : Comment) : List Node → List TokenKind
  | [] => []
  | node :: nodes => print comment node ++ printAll comment nodes

def printOption (comment : Comment) : Option Node → List TokenKind
  | none => []
  | some node => print comment node

def printElse (comment : Comment) : Option (List Node) → List TokenKind
  | none => []
  | some nodes => .keyword .otherwise :: braced (printAll comment nodes)

end

def announces : TokenKind → Bool
  | .identifier _ | .integer _ | .float _ | .string _ => true
  | .mark .openBracket | .mark .openParen | .mark .assign | .mark .loop | .mark .condition
  | .mark .result => true
  | .keyword .useModule | .keyword .exportName | .keyword .make | .keyword .get | .keyword .set
  | .keyword .define => true
  | _ => false

/-- What is printed of a node begins with a token that announces one. -/
theorem exists_print_eq_cons (comment : Comment) (node : Node) :
    ∃ k ks, print comment node = k :: ks ∧ announces k := by
  cases node with
  | useModule path binding => cases binding <;> exact ⟨_, _, rfl, rfl⟩
  | result value => cases value <;> exact ⟨_, _, rfl, rfl⟩
  | _ => exact ⟨_, _, rfl, rfl⟩

end Node

end LijsCompiler
