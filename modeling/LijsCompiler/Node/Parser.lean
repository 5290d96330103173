import LijsCompiler.Node.Error

/-!
# From tokens to a tree

Every reader takes tokens from the front of a list and gives back what is left.  Its result
carries the proof that the rest is shorter, so that `readNode`, which all constructs
call for their parts, ends.  A construct is written over the reader of its parts: `Parts n` reads one
node from any list of at most `n` tokens.
-/

namespace LijsCompiler.Node

/-- A cause and the place to blame, where no place means the end of the tokens. -/
structure Refusal where
  fault : ParseFault
  place : Option Span
deriving DecidableEq, Repr

namespace Refusal

def ended (expected : Expectation) : Refusal := ⟨.unexpectedEnd expected, none⟩

def token (fault : ParseFault) (t : Token) : Refusal := ⟨fault, some t.span⟩

/-- The refused tokens in the whole list `tokens`: its end is the end of its last token. -/
def locate (tokens : List Token) (r : Refusal) : ParseError :=
  let last := (tokens.getLast?.map (·.span)).getD default
  ⟨r.fault, r.place.getD (.emptyAt last.stop)⟩

end Refusal

/-- What is read from the front of a list of `n` tokens, and the tokens that are left. -/
structure Reading (α : Type) (n : Nat) where
  value : α
  rest : List Token
  shorter : rest.length < n

abbrev Read (α : Type) (n : Nat) := Except Refusal (Reading α n)

/-- Reads one node, or skips one line break or comment, from a list of at most `n` tokens. -/
abbrev Parts (n : Nat) := (ts : List Token) → ts.length ≤ n → Read (Option Node) ts.length

def coveredSpan (read : List Token) : Option Span :=
  match read.head?, read.getLast? with
  | some first, some last => some (first.span.join last.span)
  | _, _ => none

def readTokens (ts rest : List Token) : List Token := ts.take (ts.length - rest.length)

/-! ## Names and keys -/

def readName (construct : Construct) : (ts : List Token) → Read String ts.length
  | [] => .error (.ended .name)
  | t :: rest =>
    match t.kind with
    | .identifier name => .ok ⟨name, rest, by simp⟩
    | found => .error (.token (.nameMustBeIdentifier construct found) t)

/-- The key of an object: an identifier or a string. -/
def readKey : (ts : List Token) → Read Node ts.length
  | [] => .error (.ended .objectKey)
  | t :: rest =>
    match t.kind with
    | .identifier name => .ok ⟨.identifier name, rest, by simp⟩
    | .string text => .ok ⟨.string text, rest, by simp⟩
    | found => .error (.token (.invalidObjectKey found) t)

def readParams : (ts : List Token) → Read (List String) ts.length
  | [] => .error (.ended (.mark .closeBracket))
  | t :: rest =>
    match t.kind with
    | .mark .closeBracket => .ok ⟨[], rest, by simp⟩
    | .identifier name => do
      let ⟨names, after, h⟩ ← readParams rest
      return ⟨name :: names, after, by simp only [List.length_cons]; omega⟩
    | found =>
      if found.isTrivia then do
        let ⟨names, after, h⟩ ← readParams rest
        return ⟨names, after, by simp only [List.length_cons]; omega⟩
      else
        .error (.token (.parameterNotIdentifier found) t)

/-! ## Values, lists and bodies -/

section

variable {n : Nat} (parts : Parts n)

/-- A node where a line break or a comment will not do. -/
def readValue (construct : Construct) (ts : List Token) (h : ts.length ≤ n) :
    Read Node ts.length := do
  let ⟨found, rest, hrest⟩ ← parts ts h
  match found with
  | some node => return ⟨node, rest, hrest⟩
  | none => throw ⟨.missingValue construct, ts.head?.map (·.span)⟩

/-- The nodes up to a closing mark, which is taken too. -/
def readUntil (closer : Mark) (ts : List Token) (h : ts.length ≤ n) :
    Read (List Node) ts.length :=
  match ts with
  | [] => .error (.ended (.mark closer))
  | t :: rest =>
    if t.kind = .mark closer then
      .ok ⟨[], rest, by simp⟩
    else do
      let ⟨first, after, hafter⟩ ← parts (t :: rest) h
      let ⟨nodes, final, hfinal⟩ ← readUntil closer after (by omega)
      return ⟨first.toList ++ nodes, final, by omega⟩
termination_by ts.length
decreasing_by simp only [List.length_cons] at *; omega

/-- The body of a construct: nodes in braces, or a single node. -/
def readBody (ts : List Token) (h : ts.length ≤ n) : Read (List Node) ts.length :=
  match ts with
  | [] => .error (.ended .body)
  | t :: rest =>
    if t.kind = .mark .openBrace then do
      let ⟨nodes, after, hafter⟩ ← readUntil parts .closeBrace rest
        (by simp only [List.length_cons] at h; omega)
      return ⟨nodes, after, by simp only [List.length_cons]; omega⟩
    else do
      let ⟨node, after, hafter⟩ ← parts (t :: rest) h
      return ⟨node.toList, after, hafter⟩

/-! ## Constructs

Each reads what follows the token that announces it. -/

/-- `! value`: the value may be missing at the end of a line or of the input. -/
def readResult (ts : List Token) (h : ts.length ≤ n) : Read Node (ts.length + 1) :=
  match ts with
  | [] => .ok ⟨.result none, [], by simp⟩
  | t :: rest =>
    if t.kind = .lineBreak then
      .ok ⟨.result none, t :: rest, by simp⟩
    else do
      let ⟨value, after, hafter⟩ ← parts (t :: rest) h
      return ⟨.result value, after, by omega⟩

/-- `use 'path'`, with a binding if `as` follows. -/
def readUse : (ts : List Token) → Read Node ts.length
  | [] => .error (.ended .modulePath)
  | t :: rest =>
    match t.kind with
    | .string path =>
      match rest with
      | [] => .ok ⟨.useModule path none, [], by simp⟩
      | a :: after =>
        if a.kind = .keyword .asName then
          match after with
          | [] => .error (.ended .importBinding)
          | b :: final =>
            match b.kind with
            | .identifier name =>
              .ok ⟨.useModule path (some name), final, by simp only [List.length_cons]; omega⟩
            | found => .error (.token (.importBindingNotIdentifier found) b)
        else
          .ok ⟨.useModule path none, a :: after, by simp⟩
    | found => .error (.token (.importPathNotString found) t)

/-- `export name` -/
def readExport : (ts : List Token) → Read Node ts.length
  | [] => .error (.ended .exportedName)
  | t :: rest =>
    match t.kind with
    | .identifier name => .ok ⟨.exportName name, rest, by simp⟩
    | found => .error (.token (.exportNotIdentifier found) t)

/-- `$ name value`: the value must not be an assignment itself. -/
def readAssignment (ts : List Token) (h : ts.length ≤ n) : Read Node ts.length := do
  let ⟨name, ts₁, h₁⟩ ← readName .binding ts
  let ⟨value, ts₂, h₂⟩ ← readValue parts .assignment ts₁ (by omega)
  match value with
  | .assignment _ _ => throw ⟨.assignmentValue, coveredSpan (readTokens ts₁ ts₂)⟩
  | value => return ⟨.assignment name value, ts₂, by omega⟩

/-- `get name key` -/
def readGet (ts : List Token) : Read Node ts.length := do
  let ⟨name, ts₁, _⟩ ← readName .object ts
  let ⟨key, ts₂, _⟩ ← readKey ts₁
  return ⟨.get name key, ts₂, by omega⟩

/-- `set name key value` -/
def readSet (ts : List Token) (h : ts.length ≤ n) : Read Node ts.length := do
  let ⟨name, ts₁, h₁⟩ ← readName .object ts
  let ⟨key, ts₂, h₂⟩ ← readKey ts₁
  let ⟨value, ts₃, h₃⟩ ← readValue parts .objectSet ts₂ (by omega)
  return ⟨.set name key value, ts₃, by omega⟩

/-- `(name args)`: an operator takes at most two arguments, and with two it is arithmetic.
The token `opening` is the parenthesis. -/
def readCall (opening : Token) (ts : List Token) (h : ts.length ≤ n) : Read Node ts.length := do
  let ⟨name, ts₁, h₁⟩ ← readName .functionCall ts
  let ⟨args, ts₂, h₂⟩ ← readUntil parts .closeParen ts₁ (by omega)
  match Arithmetic.ofName? name with
  | none => return ⟨.call name args, ts₂, by omega⟩
  | some op =>
    match args with
    | [left, right] => return ⟨.arithmetic op left right, ts₂, by omega⟩
    | _ :: _ :: _ :: _ =>
      throw ⟨.tooManyOperands op args.length, coveredSpan (opening :: readTokens ts ts₂)⟩
    | _ => return ⟨.call name args, ts₂, by omega⟩

/-- `def name [ params ] body` -/
def readFunction (ts : List Token) (h : ts.length ≤ n) : Read Node ts.length := do
  let ⟨name, ts₁, h₁⟩ ← readName .function ts
  match ts₁, h₁ with
  | [], _ => throw (.ended (.mark .openBracket))
  | t :: rest, h₁ =>
    if t.kind = .mark .openBracket then do
      let ⟨params, ts₂, h₂⟩ ← readParams rest
      have hrest : rest.length < ts.length := Nat.lt_of_succ_lt h₁
      let ⟨body, ts₃, h₃⟩ ← readBody parts ts₂ (by omega)
      return ⟨.function name params body, ts₃, by omega⟩
    else
      throw (.token (.expectedMark .openBracket t.kind) t)

/-- `@ source body` -/
def readIterator (ts : List Token) (h : ts.length ≤ n) : Read Node ts.length := do
  let ⟨source, ts₁, h₁⟩ ← readValue parts .iterator ts h
  let ⟨body, ts₂, h₂⟩ ← readBody parts ts₁ (by omega)
  return ⟨.iterator source body, ts₂, by omega⟩

/-- What a condition does when its check fails: `else` and a body, or nothing. -/
def readElse (ts : List Token) (h : ts.length ≤ n) :
    Except Refusal (Reading (Option (List Node)) (ts.length + 1)) :=
  match ts with
  | [] => .ok ⟨none, [], by simp⟩
  | t :: rest =>
    if t.kind = .keyword .otherwise then do
      let ⟨body, after, hafter⟩ ← readBody parts rest (by simp only [List.length_cons] at h; omega)
      return ⟨some body, after, by simp only [List.length_cons]; omega⟩
    else
      .ok ⟨none, t :: rest, by simp⟩

def readOperand (check : Check) (ts : List Token) (h : ts.length ≤ n) :
    Except Refusal (Reading (Option Node) (ts.length + 1)) :=
  if check.takesRight then do
    let ⟨node, rest, hrest⟩ ← readValue parts .condition ts h
    return ⟨some node, rest, by omega⟩
  else
    .ok ⟨none, ts, by simp⟩

/-- `? left check right pass else fail`.  Where no check follows the left operand, what stands
there is read before it is refused, so that an error inside it comes first. -/
def readConditional (ts : List Token) (h : ts.length ≤ n) : Read Node ts.length := do
  let ⟨left, ts₁, h₁⟩ ← readValue parts .condition ts h
  match ts₁, h₁ with
  | [], _ => throw (.ended .check)
  | t :: rest, h₁ =>
    match t.kind.check? with
    | none => do
      let _ ← parts (t :: rest) (by omega)
      throw (.token (.missingCheck t.kind) t)
    | some check => do
      have hrest : rest.length < ts.length := Nat.lt_of_succ_lt h₁
      let ⟨right, ts₂, h₂⟩ ← readOperand parts check rest (by omega)
      let ⟨pass, ts₃, h₃⟩ ← readBody parts ts₂ (by omega)
      let ⟨fail, ts₄, h₄⟩ ← readElse parts ts₃ (by omega)
      return ⟨.conditional check left right pass fail, ts₄, by omega⟩

end

/-! ## Nodes -/

def Reading.node {m n : Nat} (h : m ≤ n) (r : Reading Node m) : Reading (Option Node) n :=
  ⟨some r.value, r.rest, Nat.lt_of_lt_of_le r.shorter h⟩

/-- Reads the node that the token `t` announces.  A line break or a comment is no node. -/
def readConstruct (t : Token) (rest : List Token) (parts : Parts rest.length) :
    Read (Option Node) (rest.length + 1) :=
  let alone (node : Option Node) : Read (Option Node) (rest.length + 1) :=
    .ok ⟨node, rest, by simp⟩
  let wider := Reading.node (Nat.le_succ rest.length)
  match t.kind with
  | .lineBreak | .lineComment _ | .blockComment _ => alone none
  | .identifier name => alone (some (.identifier name))
  | .integer text => alone (some (.integer text))
  | .float text => alone (some (.float text))
  | .string text => alone (some (.string text))
  | .mark .openBracket => do
    let ⟨elements, after, h⟩ ← readUntil parts .closeBracket rest (Nat.le_refl _)
    return ⟨some (.array elements), after, by omega⟩
  | .mark .openParen => wider <$> readCall parts t rest (Nat.le_refl _)
  | .mark .assign => wider <$> readAssignment parts rest (Nat.le_refl _)
  | .mark .loop => wider <$> readIterator parts rest (Nat.le_refl _)
  | .mark .condition => wider <$> readConditional parts rest (Nat.le_refl _)
  | .mark .result => Reading.node (Nat.le_refl _) <$> readResult parts rest (Nat.le_refl _)
  | .keyword .useModule => wider <$> readUse rest
  | .keyword .exportName => wider <$> readExport rest
  | .keyword .make => do
    let ⟨name, after, h⟩ ← readName .object rest
    return ⟨some (.create name), after, by omega⟩
  | .keyword .get => wider <$> readGet rest
  | .keyword .set => wider <$> readSet parts rest (Nat.le_refl _)
  | .keyword .define => wider <$> readFunction parts rest (Nat.le_refl _)
  | .mark .closeBracket | .mark .openBrace | .mark .closeBrace | .mark .closeParen
  | .keyword .asName | .keyword .otherwise | .keyword (.check _) =>
    .error (.token (.unexpectedToken t.kind) t)

def readNode (ts : List Token) : Read (Option Node) ts.length :=
  match ts with
  | [] => .error (.ended .value)
  | t :: rest => readConstruct t rest fun shorter _h => readNode shorter
termination_by ts.length
decreasing_by simp only [List.length_cons]; omega

def readProgram (ts : List Token) : Except Refusal (List Node) :=
  match ts with
  | [] => .ok []
  | t :: rest => do
    let ⟨first, after, _h⟩ ← readNode (t :: rest)
    let nodes ← readProgram after
    return first.toList ++ nodes
termination_by ts.length
decreasing_by simp only [List.length_cons] at *; omega

end LijsCompiler.Node

namespace LijsCompiler

def parse (tokens : List Token) : Except ParseError (List Node) :=
  match Node.readProgram tokens with
  | .ok nodes => .ok nodes
  | .error refusal => .error (refusal.locate tokens)

end LijsCompiler
