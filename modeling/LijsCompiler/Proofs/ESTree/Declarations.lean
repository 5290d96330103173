import LijsCompiler.Proofs.ESTree.Slots

/-!
# The names that the output declares

A tree declares the variables of its declarations, its functions whose name has no dot, and their
parameters, at whatever depth they stand.  A counting loop declares two variables for its own use,
the index in front and the element at the head of its body.  These do not count, so `declared` is
told which part of a loop a node is.
-/

namespace LijsCompiler.ESTree

/-- What a node is to the loop right above it. -/
inductive LoopPart where
  /-- Nothing in particular. -/
  | ordinary
  /-- The declaration of the loop's index or element. -/
  | opening
  /-- The body, which begins with the declaration of the element. -/
  | body
deriving DecidableEq, Repr

def name? : ESTree → Option String
  | identifier name => some name
  | _ => none

mutual

/-- The names that a node and the nodes below it declare. -/
def declared (part : LoopPart) : ESTree → List String
  | identifier _ => []
  | literal _ _ => []
  | memberExpression object property _ => declared .ordinary object ++ declared .ordinary property
  | callExpression callee arguments =>
    declared .ordinary callee ++ declaredAll .ordinary arguments
  | variableDeclaration declarations => declaredDeclarators part declarations
  | functionDeclaration id params defaults body =>
    id.name?.toList.filter (!Name.isDotted ·) ++ params.filterMap name? ++
      (declared .ordinary id ++ declaredAll .ordinary params ++ declaredAll .ordinary defaults ++
        declared .ordinary body)
  | blockStatement body => declaredAll (if part = .body then .opening else .ordinary) body
  | returnStatement argument => declaredOption argument
  | arrayExpression elements => declaredAll .ordinary elements
  | objectExpression properties => declaredAll .ordinary properties
  | assignmentExpression left right => declared .ordinary left ++ declared .ordinary right
  | ifStatement test consequent alternate =>
    declared .ordinary test ++ declared .ordinary consequent ++ declaredOption alternate
  | binaryExpression _ left right => declared .ordinary left ++ declared .ordinary right
  | unaryExpression _ argument => declared .ordinary argument
  | forStatement init test update body =>
    declared .opening init ++ declared .ordinary test ++ declared .ordinary update ++
      declared .body body
  | updateExpression _ argument => declared .ordinary argument
  | expressionStatement expression => declared .ordinary expression

def declaredAll (first : LoopPart) : List ESTree → List String
  | [] => []
  | node :: nodes => declared first node ++ declaredAll .ordinary nodes

def declaredOption : Option ESTree → List String
  | none => []
  | some node => declared .ordinary node

/-- The variables of a declaration, unless it opens a loop, and what their parts declare. -/
def declaredDeclarators (part : LoopPart) : List Declarator → List String
  | [] => []
  | .mk id init :: declarators =>
    (if part = .opening then [] else id.name?.toList) ++ declared .ordinary id ++
      declared .ordinary init ++ declaredDeclarators part declarators

end

abbrev declaredNames (statements : List ESTree) : List String := declaredAll .ordinary statements

@[simp] theorem declaredNames_nil : declaredNames [] = [] := rfl

@[simp] theorem declaredNames_cons (node : ESTree) (nodes : List ESTree) :
    declaredNames (node :: nodes) = node.declared .ordinary ++ declaredNames nodes := rfl

@[simp] theorem declaredNames_append (nodes others : List ESTree) :
    declaredNames (nodes ++ others) = declaredNames nodes ++ declaredNames others := by
  induction nodes with
  | nil => rfl
  | cons node nodes ih =>
      rw [List.cons_append, declaredNames_cons, ih, declaredNames_cons, List.append_assoc]

@[simp] theorem declaredNames_map_identifier (names : List String) :
    declaredNames (names.map identifier) = [] := by
  induction names with
  | nil => rfl
  | cons name names ih => exact ih

@[simp] theorem declared_identifier (part : LoopPart) (name : String) :
    (identifier name).declared part = [] := rfl

@[simp] theorem declared_number (part : LoopPart) (x : Binary64) (raw : String) :
    (number x raw).declared part = [] := rfl

@[simp] theorem declared_string (part : LoopPart) (text : String) :
    (ESTree.string text).declared part = [] := rfl

@[simp] theorem declared_member (part : LoopPart) (object : ESTree) (property : String) :
    (member object property).declared part = object.declared .ordinary := by
  rw [member, declared, declared_identifier, List.append_nil]

@[simp] theorem declared_index (part : LoopPart) (object property : ESTree) :
    (index object property).declared part =
      object.declared .ordinary ++ property.declared .ordinary := by
  rw [index, declared]

@[simp] theorem declared_declare (name : String) (init : ESTree) :
    (declare name init).declared .ordinary = name :: init.declared .ordinary := by
  simp [declare, declared, declaredDeclarators, name?]

@[simp] theorem declared_declare_opening (name : String) (init : ESTree) :
    (declare name init).declared .opening = init.declared .ordinary := by
  simp [declare, declared, declaredDeclarators]

@[simp] theorem declared_path (name : String) : (path name).declared .ordinary = [] := by
  apply path_induction (P := fun e => e.declared .ordinary = [])
  · intro root
    rfl
  · intro object property hobject
    rw [declared_member, hobject]

end LijsCompiler.ESTree
