import LijsCompiler.Proofs.Lowering.Arrangement
import LijsCompiler.Proofs.Lowering.Misplaced

/-!
# Values in the output

In the account of the output (`statementsOf`) a value is a tree of expressions: no statement is
hidden in it (`isPure_valueOf`).  So whatever is asked of statements, of loops or of functions is
asked along the statement lists alone.
-/

namespace LijsCompiler

namespace ESTree

def IsPure : ESTree → Prop := Everywhere fun node => node.isExpression

theorem isPure_iff {e : ESTree} : e.IsPure ↔ e.isExpression ∧ ∀ part ∈ e.parts, part.IsPure :=
  everywhere_iff

@[simp] theorem isPure_identifier (name : String) : (identifier name).IsPure := by
  simp [IsPure, isExpression]

theorem isPure_literal (value : Literal) (raw : String) : (literal value raw).IsPure := by
  simp [IsPure, isExpression]

theorem isPure_member {object : ESTree} (h : object.IsPure) (property : String) :
    (member object property).IsPure := by
  rw [member, isPure_iff]
  simp [isExpression, parts, h]

theorem isPure_index {object key : ESTree} (h : object.IsPure) (hkey : key.IsPure) :
    (index object key).IsPure := by
  rw [index, isPure_iff]
  simp [isExpression, parts, h, hkey]

theorem isPure_path (name : String) : (path name).IsPure :=
  path_induction isPure_identifier (fun _ property hobject => isPure_member hobject property) name

theorem isPure_assignmentExpression {left right : ESTree} (hleft : left.IsPure)
    (hright : right.IsPure) : (assignmentExpression left right).IsPure := by
  rw [isPure_iff]
  simp [isExpression, parts, hleft, hright]

theorem isPure_binaryExpression {left right : ESTree} (op : BinaryOperator) (hleft : left.IsPure)
    (hright : right.IsPure) : (binaryExpression op left right).IsPure := by
  rw [isPure_iff]
  simp [isExpression, parts, hleft, hright]

theorem isPure_updateExpression {argument : ESTree} (isBefore : Bool) (h : argument.IsPure) :
    (updateExpression isBefore argument).IsPure := by
  rw [isPure_iff]
  simp [isExpression, parts, h]

theorem isPure_callExpression {callee : ESTree} {arguments : List ESTree} (hcallee : callee.IsPure)
    (harguments : ∀ e ∈ arguments, e.IsPure) : (callExpression callee arguments).IsPure := by
  rw [isPure_iff]
  simpa [isExpression, parts, hcallee] using harguments

end ESTree

namespace Lowering

open ESTree

variable (o : Options)

@[simp] theorem valuesOf_eq_map (nodes : List Node) : valuesOf o nodes = nodes.map (valueOf o) := by
  induction nodes with
  | nil => rfl
  | cons node nodes ih => rw [valuesOf, ih, List.map_cons]

theorem isPure_require (text : String) : (require o text).IsPure :=
  isPure_callExpression (isPure_path _) (List.forall_mem_singleton.2 (isPure_literal _ _))

theorem isPure_exported (name : String) : (exported o name).IsPure :=
  isPure_assignmentExpression (isPure_member (isPure_path _) _) (isPure_path name)

theorem isPure_valueOf (node : Node) : (valueOf o node).IsPure := by
  induction node using Node.children_induction with
  | step node ih =>
      cases node with
      | identifier name => exact isPure_path name
      | integer text | float text | string text => exact isPure_literal _ _
      | array elements =>
          rw [valueOf, isPure_iff]
          simpa [isExpression, parts, Node.children] using ih
      | call name args =>
          rw [valueOf]
          exact isPure_callExpression (isPure_path name) (by simpa [Node.children] using ih)
      | get name key =>
          rw [valueOf]
          exact isPure_index (isPure_path name) (ih key (by simp [Node.children]))
      | set name key value =>
          have hkey := isPure_index (isPure_path name) (ih key (by simp [Node.children]))
          rw [valueOf]
          exact isPure_assignmentExpression hkey (ih value (by simp [Node.children]))
      | arithmetic op left right =>
          rw [valueOf]
          exact isPure_binaryExpression _ (ih left (by simp [Node.children]))
            (ih right (by simp [Node.children]))
      | exportName name => exact isPure_exported o name
      | useModule text binding =>
          cases binding with
          | none => exact isPure_require o text
          | some name => simp [valueOf, IsPure, isExpression]
      | _ => simp [valueOf, IsPure, isExpression]

theorem isPure_sourceOf (name : String) (source : Node) : (sourceOf o name source).IsPure := by
  unfold sourceOf
  split
  · exact isPure_identifier name
  · exact isPure_valueOf o source

/-- What is hoisted declares a value. -/
theorem exists_eq_declare_of_mem_hoistedBy {name : String} {node : Node} {e : ESTree}
    (h : e ∈ hoistedBy o name node) : ∃ init, init.IsPure ∧ e = declare name init := by
  unfold hoistedBy at h
  split at h
  · rename_i elements _
    exact ⟨_, isPure_valueOf o (.array elements), List.mem_singleton.1 h⟩
  · cases h

variable {o}

theorem isPure_testOf {check : Check} {left : ESTree} {right : Option ESTree}
    (hleft : left.IsPure) (hright : ∀ e ∈ right, e.IsPure) : (testOf check left right).IsPure := by
  cases right with
  | none => cases check <;> exact hleft
  | some e =>
      have he := hright e rfl
      cases check with
      | present => exact hleft
      | equal | similar => exact isPure_binaryExpression _ hleft he
      | contains =>
          have hcall : (callExpression (member left "indexOf") [e]).IsPure :=
            isPure_callExpression (isPure_member hleft _) (by simpa using he)
          rw [testOf, isPure_iff]
          simp [isExpression, parts, hcall]

/-- The statement of a node that gives a value is the value, alone or as a statement. -/
theorem statementOf_of_givesValue {temporary : Nat → String} {depth k : Nat} {node : Node}
    (h : node.givesNoValue = false) :
    statementOf o temporary depth k node = valueOf o node ∨
      statementOf o temporary depth k node = expressionStatement (valueOf o node) := by
  cases node with
  | identifier | integer | float | string =>
      left
      rw [statementOf, valueOf]
  | useModule text binding =>
      cases binding with
      | none =>
          right
          simp [statementOf]
      | some name => cases h
  | array | get | set | call | arithmetic | exportName =>
      right
      rfl
  | _ => cases h

/-- Without a warning the output is the account of the program, with some temporaries. -/
theorem exists_body_eq_statementsOf {supply : Supply} {program : List Node} {lowered : Lowered}
    (h : lowerProgram o supply program = some lowered) (hwarnings : lowered.warnings = []) :
    ∃ temporary, lowered.body = statementsOf o temporary .other 0 0 program := by
  obtain ⟨r, hlowers, -, -⟩ := lowers_of_lowerProgram h
  have hnumbers : Numbers (r.drawn.getD · "") r.drawn := by
    intro i name hi
    simp [hi]
  have hbody := eq_statementsOf_of_lowers hlowers rfl hwarnings hnumbers
  rw [drawn_initialContext] at hbody
  exact ⟨_, hbody⟩

end Lowering

end LijsCompiler
