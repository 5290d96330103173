import LijsCompiler.ESTree

/-!
# The slots of the output

A node of the output has slots that want an expression, slots that want a block, and the slot of a
loop that wants a declaration.  A property that is asked of every node of a tree is asked of the
tree and of its parts (`everywhere_iff`).
-/

namespace LijsCompiler.ESTree

def declaratorParts : Declarator → List ESTree
  | .mk id init => [id, init]

def parts : ESTree → List ESTree
  | identifier _ | literal .. => []
  | memberExpression object property _ => [object, property]
  | callExpression callee arguments => callee :: arguments
  | variableDeclaration declarations => declarations.flatMap declaratorParts
  | functionDeclaration id params defaults body => id :: (params ++ defaults ++ [body])
  | blockStatement body => body
  | returnStatement argument => argument.toList
  | arrayExpression elements => elements
  | objectExpression properties => properties
  | assignmentExpression left right | binaryExpression _ left right => [left, right]
  | ifStatement test consequent alternate => test :: consequent :: alternate.toList
  | unaryExpression _ argument | updateExpression _ argument => [argument]
  | forStatement init test update body => [init, test, update, body]
  | expressionStatement expression => [expression]

def expressionSlots : ESTree → List ESTree
  | memberExpression object property _ => [object, property]
  | callExpression callee arguments => callee :: arguments
  | variableDeclaration declarations => declarations.flatMap declaratorParts
  | returnStatement argument => argument.toList
  | arrayExpression elements => elements
  | assignmentExpression left right | binaryExpression _ left right => [left, right]
  | ifStatement test _ _ => [test]
  | unaryExpression _ argument | updateExpression _ argument => [argument]
  | forStatement _ test update _ => [test, update]
  | expressionStatement expression => [expression]
  | identifier _ | literal .. | functionDeclaration .. | blockStatement _ | objectExpression _ => []

def blockSlots : ESTree → List ESTree
  | functionDeclaration _ _ _ body | forStatement _ _ _ body => [body]
  | ifStatement _ consequent alternate => consequent :: alternate.toList
  | _ => []

def initSlots : ESTree → List ESTree
  | forStatement init _ _ _ => [init]
  | _ => []

def isBlock : ESTree → Bool
  | blockStatement _ => true
  | _ => false

def isDeclaration : ESTree → Bool
  | variableDeclaration _ => true
  | _ => false

/-! ## Properties of every node -/

theorem walkAll_eq_flatMap (nodes : List ESTree) : walkAll nodes = nodes.flatMap walk := by
  induction nodes with
  | nil => rw [walkAll, List.flatMap_nil]
  | cons node nodes ih => rw [walkAll, ih, List.flatMap_cons]

theorem walkOption_eq_flatMap (node : Option ESTree) :
    walkOption node = node.toList.flatMap walk := by
  cases node <;> simp [walkOption]

theorem walkDeclarators_eq_flatMap (declarators : List Declarator) :
    walkDeclarators declarators = (declarators.flatMap declaratorParts).flatMap walk := by
  induction declarators with
  | nil => rfl
  | cons declarator declarators ih =>
      cases declarator with
      | mk id init => simp [walkDeclarators, declaratorParts, ih]

theorem walk_eq (e : ESTree) : walk e = e :: e.parts.flatMap walk := by
  cases e <;>
    simp [walk, parts, walkAll_eq_flatMap, walkOption_eq_flatMap, walkDeclarators_eq_flatMap]

def Everywhere (P : ESTree → Prop) (e : ESTree) : Prop := ∀ node ∈ walk e, P node

theorem everywhere_iff {P : ESTree → Prop} {e : ESTree} :
    Everywhere P e ↔ P e ∧ ∀ part ∈ e.parts, Everywhere P part := by
  unfold Everywhere
  rw [walk_eq, List.forall_mem_cons]
  simp only [List.mem_flatMap]
  grind

section Everywhere

variable {P : ESTree → Prop}

@[simp] theorem everywhere_identifier {name : String} :
    Everywhere P (identifier name) ↔ P (identifier name) := by
  rw [everywhere_iff]
  simp [parts]

@[simp] theorem everywhere_literal {value : Literal} {raw : String} :
    Everywhere P (literal value raw) ↔ P (literal value raw) := by
  rw [everywhere_iff]
  simp [parts]

@[simp] theorem everywhere_memberExpression {object property : ESTree} {computed : Bool} :
    Everywhere P (memberExpression object property computed) ↔
      P (memberExpression object property computed) ∧ Everywhere P object ∧
        Everywhere P property := by
  rw [everywhere_iff]
  simp [parts]

@[simp] theorem everywhere_callExpression {callee : ESTree} {arguments : List ESTree} :
    Everywhere P (callExpression callee arguments) ↔
      P (callExpression callee arguments) ∧ Everywhere P callee ∧
        ∀ e ∈ arguments, Everywhere P e := by
  rw [everywhere_iff]
  simp [parts]

@[simp] theorem everywhere_declare {name : String} {init : ESTree} :
    Everywhere P (declare name init) ↔
      P (declare name init) ∧ P (identifier name) ∧ Everywhere P init := by
  rw [everywhere_iff]
  simp [declare, parts, declaratorParts]

@[simp] theorem everywhere_functionDeclaration {id body : ESTree} {params defaults : List ESTree} :
    Everywhere P (functionDeclaration id params defaults body) ↔
      P (functionDeclaration id params defaults body) ∧ Everywhere P id ∧
        (∀ e ∈ params, Everywhere P e) ∧ (∀ e ∈ defaults, Everywhere P e) ∧
          Everywhere P body := by
  rw [everywhere_iff]
  simp [parts, or_imp, forall_and]

@[simp] theorem everywhere_blockStatement {body : List ESTree} :
    Everywhere P (blockStatement body) ↔
      P (blockStatement body) ∧ ∀ e ∈ body, Everywhere P e := by
  rw [everywhere_iff]
  simp [parts]

@[simp] theorem everywhere_returnStatement {argument : Option ESTree} :
    Everywhere P (returnStatement argument) ↔
      P (returnStatement argument) ∧ ∀ e ∈ argument, Everywhere P e := by
  rw [everywhere_iff]
  simp [parts]

@[simp] theorem everywhere_arrayExpression {elements : List ESTree} :
    Everywhere P (arrayExpression elements) ↔
      P (arrayExpression elements) ∧ ∀ e ∈ elements, Everywhere P e := by
  rw [everywhere_iff]
  simp [parts]

@[simp] theorem everywhere_objectExpression {properties : List ESTree} :
    Everywhere P (objectExpression properties) ↔
      P (objectExpression properties) ∧ ∀ e ∈ properties, Everywhere P e := by
  rw [everywhere_iff]
  simp [parts]

@[simp] theorem everywhere_assignmentExpression {left right : ESTree} :
    Everywhere P (assignmentExpression left right) ↔
      P (assignmentExpression left right) ∧ Everywhere P left ∧ Everywhere P right := by
  rw [everywhere_iff]
  simp [parts]

@[simp] theorem everywhere_ifStatement {test consequent : ESTree} {alternate : Option ESTree} :
    Everywhere P (ifStatement test consequent alternate) ↔
      P (ifStatement test consequent alternate) ∧ Everywhere P test ∧ Everywhere P consequent ∧
        ∀ e ∈ alternate, Everywhere P e := by
  rw [everywhere_iff]
  simp [parts]

@[simp] theorem everywhere_binaryExpression {op : BinaryOperator} {left right : ESTree} :
    Everywhere P (binaryExpression op left right) ↔
      P (binaryExpression op left right) ∧ Everywhere P left ∧ Everywhere P right := by
  rw [everywhere_iff]
  simp [parts]

@[simp] theorem everywhere_unaryExpression {isBefore : Bool} {argument : ESTree} :
    Everywhere P (unaryExpression isBefore argument) ↔
      P (unaryExpression isBefore argument) ∧ Everywhere P argument := by
  rw [everywhere_iff]
  simp [parts]

@[simp] theorem everywhere_updateExpression {isBefore : Bool} {argument : ESTree} :
    Everywhere P (updateExpression isBefore argument) ↔
      P (updateExpression isBefore argument) ∧ Everywhere P argument := by
  rw [everywhere_iff]
  simp [parts]

@[simp] theorem everywhere_forStatement {init test update body : ESTree} :
    Everywhere P (forStatement init test update body) ↔
      P (forStatement init test update body) ∧ Everywhere P init ∧ Everywhere P test ∧
        Everywhere P update ∧ Everywhere P body := by
  rw [everywhere_iff]
  simp [parts]

@[simp] theorem everywhere_expressionStatement {expression : ESTree} :
    Everywhere P (expressionStatement expression) ↔
      P (expressionStatement expression) ∧ Everywhere P expression := by
  rw [everywhere_iff]
  simp [parts]

end Everywhere

theorem forall_mem_walkAll {P : ESTree → Prop} {nodes : List ESTree} :
    (∀ node ∈ walkAll nodes, P node) ↔ ∀ e ∈ nodes, Everywhere P e := by
  unfold Everywhere
  simp only [walkAll_eq_flatMap, List.mem_flatMap]
  grind

theorem foldl_member_induction {P : ESTree → Prop}
    (hmember : ∀ object property, P object → P (member object property)) (members : List String)
    {object : ESTree} (h : P object) : P (members.foldl member object) := by
  induction members generalizing object with
  | nil => exact h
  | cons property members ih => exact ih (hmember object property h)

/-- A property of names that passes to members holds of every chain of members. -/
theorem path_induction {P : ESTree → Prop} (hroot : ∀ name, P (identifier name))
    (hmember : ∀ object property, P object → P (member object property)) (name : String) :
    P (path name) := by
  unfold path
  split
  · exact hroot name
  · exact foldl_member_induction hmember _ (hroot _)

/-! ## What stands in the slots -/

section Clean

variable {Fits : ESTree → Prop}

/-- Every slot that wants an expression holds what fits there. -/
def IsClean (Fits : ESTree → Prop) : ESTree → Prop :=
  Everywhere fun node => ∀ slot ∈ node.expressionSlots, Fits slot

/-- What fits into a slot that wants an expression, as does all that stands in such slots of it. -/
def IsValue (Fits : ESTree → Prop) (e : ESTree) : Prop := Fits e ∧ IsClean Fits e

theorem isClean_iff {e : ESTree} :
    IsClean Fits e ↔
      (∀ slot ∈ e.expressionSlots, Fits slot) ∧ ∀ part ∈ e.parts, IsClean Fits part :=
  everywhere_iff

/-- Where every part stands in a slot that wants an expression, every part must be a value. -/
theorem isClean_iff_of_slots {e : ESTree} (h : e.expressionSlots = e.parts) :
    IsClean Fits e ↔ ∀ part ∈ e.parts, IsValue Fits part := by
  rw [isClean_iff, h]
  unfold IsValue
  grind

theorem isClean_identifier (name : String) : IsClean Fits (identifier name) :=
  (isClean_iff_of_slots rfl).2 (by simp [parts])

theorem isClean_literal (value : Literal) (raw : String) : IsClean Fits (literal value raw) :=
  (isClean_iff_of_slots rfl).2 (by simp [parts])

theorem isExpression_path (name : String) : (path name).isExpression := by
  apply path_induction (P := fun e => e.isExpression)
  · exact fun _ => rfl
  · exact fun _ _ _ => rfl

variable (hfits : ∀ e, e.isExpression → Fits e)
include hfits

theorem isValue_iff_of_slots {e : ESTree} (he : e.isExpression)
    (h : e.expressionSlots = e.parts) : IsValue Fits e ↔ ∀ part ∈ e.parts, IsValue Fits part := by
  rw [IsValue, isClean_iff_of_slots h]
  exact and_iff_right (hfits e he)

theorem isValue_identifier (name : String) : IsValue Fits (identifier name) :=
  ⟨hfits _ rfl, isClean_identifier name⟩

theorem isValue_literal (value : Literal) (raw : String) : IsValue Fits (literal value raw) :=
  ⟨hfits _ rfl, isClean_literal value raw⟩

theorem isValue_member {object : ESTree} (property : String) :
    IsValue Fits (member object property) ↔ IsValue Fits object := by
  rw [member, isValue_iff_of_slots hfits rfl rfl]
  simp [parts, isValue_identifier hfits]

theorem isValue_index {object property : ESTree} :
    IsValue Fits (index object property) ↔ IsValue Fits object ∧ IsValue Fits property := by
  rw [index, isValue_iff_of_slots hfits rfl rfl]
  simp [parts]

theorem isValue_path (name : String) : IsValue Fits (path name) :=
  path_induction (isValue_identifier hfits) (fun _ property => (isValue_member hfits property).2)
    name

end Clean

end LijsCompiler.ESTree
