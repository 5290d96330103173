import Mathlib.Data.List.Forall2
import LijsCompiler.Proofs.Lowering.Values

/-!
# The results of functions

A function ends in a result without a word for it, if its last construct has a value or assigns to a
member.  Lowering takes the choice by the construct and applies it to the last statement, which may
stand behind a hoisted declaration.  Without a warning the two fit: each function of the program has
its declaration in the output, which ends as its last construct asks (`EndsAs`), and no return is
added but these (`returns_of_lowerProgram`).
-/

namespace LijsCompiler

namespace ESTree

def isReturn : ESTree → Bool
  | returnStatement _ => true
  | _ => false

def isFunction : ESTree → Bool
  | functionDeclaration .. => true
  | _ => false

def IsPlain : ESTree → Prop :=
  Everywhere fun node => node.isFunction = false ∧ node.isReturn = false

theorem IsPure.isPlain {e : ESTree} (h : e.IsPure) : e.IsPlain := by
  intro node hnode
  have hexpression := h node hnode
  cases node <;> simp_all [isExpression, isFunction, isReturn]

theorem isPlain_declare {name : String} {init : ESTree} (h : init.IsPure) :
    (declare name init).IsPlain :=
  everywhere_declare.2 ⟨⟨rfl, rfl⟩, ⟨rfl, rfl⟩, h.isPlain⟩

theorem walkAll_append (es fs : List ESTree) : walkAll (es ++ fs) = walkAll es ++ walkAll fs := by
  simp [walkAll_eq_flatMap]

theorem walkAll_singleton (e : ESTree) : walkAll [e] = e :: walkAll e.parts := by
  rw [walkAll_eq_flatMap, walkAll_eq_flatMap, List.flatMap_singleton, walk_eq]

end ESTree

namespace Node

def isResult : Node → Bool
  | result _ => true
  | _ => false

def isFunction : Node → Bool
  | function .. => true
  | _ => false

/-- Whether a node at the end of a function becomes its result, though it is not written as one. -/
def becomesResult : Node → Bool
  | conditional .. | result _ | iterator .. | function .. => false
  | assignment name _ | create name | useModule _ (some name) => Name.isDotted name
  | _ => true

def addsResult : Node → Bool
  | function _ _ body => body.getLast?.any becomesResult
  | _ => false

theorem walkAll_singleton (node : Node) : walkAll [node] = node :: walkAll node.children := by
  rw [walkAll_eq_flatMap, walkAll_eq_flatMap, List.flatMap_singleton, walk_eq]

def hasBody : Node → Bool
  | function .. | iterator .. | conditional .. => true
  | _ => false

/-- The parts of a construct without a body are values. -/
theorem placedParts_of_hasBody_eq_false {node : Node} (h : node.hasBody = false) :
    node.placedParts = node.children.map (.mk .value) := by
  cases node with
  | function | iterator | conditional => cases h
  | _ => rfl

theorem hasBody_of_becomesResult {node : Node} (h : node.becomesResult) : node.hasBody = false := by
  cases node with
  | function | iterator | conditional => cases h
  | _ => rfl

theorem addsResult_of_isFunction_eq_false {node : Node} (h : node.isFunction = false) :
    node.addsResult = false := by
  cases node with
  | function => cases h
  | _ => rfl

theorem becomesResult_of_givesValue {node : Node} (h : node.givesNoValue = false) :
    node.becomesResult := by
  cases node with
  | assignment | create | function | iterator | conditional | result => cases h
  | useModule text binding =>
      cases binding with
      | none => rfl
      | some name => cases h
  | _ => rfl

theorem plain_of_becomesResult {node : Node} (h : node.becomesResult) :
    node.isFunction = false ∧ node.isResult = false := by
  cases node with
  | function | result => cases h
  | _ => exact ⟨rfl, rfl⟩

end Node

namespace Occurrence

/-- A node is not warned of, if it is in its place and its parts are not warned of. -/
theorem unwarned_iff {o : Occurrence} :
    o.warnings = [] ↔ o.isMisplaced = false ∧ ∀ part ∈ o.node.placedParts, part.warnings = [] := by
  obtain ⟨place, node⟩ := o
  rw [warnings_eq, List.append_eq_nil_iff, List.flatMap_eq_nil_iff]
  cases place <;> simp [isMisplaced, Lowering.Place.warnings]

/-- A construct without a body that is not warned of has values for parts. -/
theorem unwarned_children {o : Occurrence} (h : o.warnings = []) (hbody : o.node.hasBody = false) :
    ∀ child ∈ o.node.children, warnings ⟨.value, child⟩ = [] := by
  obtain ⟨-, hparts⟩ := unwarned_iff.1 h
  rwa [Node.placedParts_of_hasBody_eq_false hbody, List.forall_mem_map] at hparts

theorem givesValue_of_unwarned {node : Node} (h : warnings ⟨.value, node⟩ = []) :
    node.givesNoValue = false := by
  simpa [isMisplaced] using (unwarned_iff.1 h).1

theorem hasBody_of_unwarned {node : Node} (h : warnings ⟨.value, node⟩ = []) :
    node.hasBody = false :=
  Node.hasBody_of_becomesResult
    (Node.becomesResult_of_givesValue (givesValue_of_unwarned h))

/-- Without a warning, a value is made of values alone. -/
theorem forall_mem_walk_givesValue {node : Node} (h : warnings ⟨.value, node⟩ = []) :
    ∀ m ∈ node.walk, m.givesNoValue = false := by
  induction node using Node.children_induction with
  | step node ih =>
      have hchildren := unwarned_children h (hasBody_of_unwarned h)
      rw [Node.walk_eq, List.forall_mem_cons]
      refine ⟨givesValue_of_unwarned h, fun m hm => ?_⟩
      obtain ⟨child, hchild, hmem⟩ := List.mem_flatMap.1 hm
      exact ih child hchild (hchildren child hchild) m hmem

end Occurrence

namespace Lowering

open ESTree

/-! ## How a function ends -/

/-- In a value position the node is lowered to `e`, and nothing else comes of it. -/
def IsValueOf (o : Options) (node : Node) (e : ESTree) : Prop :=
  ∀ c, (lowerNode o .value node).run c = some (e, c)

/-- What a node gives as the result of a function: its value, or the assignment to its target. -/
def GivesResult (o : Options) : Node → ESTree → Prop
  | .assignment name value, e => ∃ v, IsValueOf o value v ∧ e = assignmentExpression (path name) v
  | .create name, e => e = assignmentExpression (path name) (objectExpression [])
  | .useModule text (some name), e => e = assignmentExpression (path name) (require o text)
  | node, e => IsValueOf o node e

/-- How the statements of a function end, by the last node of its body. -/
inductive EndsAs (o : Options) : Option Node → Option ESTree → Prop where
  | empty : EndsAs o none none
  | added {last : Node} {e : ESTree} (h : last.becomesResult) (he : GivesResult o last e) :
      EndsAs o (some last) (some (returnStatement (some e)))
  | kept {last : Node} {statement : ESTree} (h : last.becomesResult = false)
      (hreturn : statement.isReturn = last.isResult) (hexpression : statement.isExpression = false)
      (hstatement : ∀ e, statement ≠ expressionStatement e) :
      EndsAs o (some last) (some statement)

/-- The declaration of a function.  It ends as the last node of the body asks, and in the whole of
it there are the returns that are written and those of the functions that get one. -/
inductive Declares (o : Options) : Node → ESTree → Prop where
  | intro {name : String} {params : List String} {body : List Node} {statements : List ESTree}
      (hlast : EndsAs o body.getLast? statements.getLast?)
      (hreturns : (walkAll statements).countP isReturn =
        (Node.walkAll body).countP Node.isResult + (Node.walkAll body).countP Node.addsResult +
          if body.getLast?.any Node.becomesResult then 1 else 0) :
      Declares o (.function name params body)
        (functionDeclaration (identifier name) (params.map identifier) []
          (blockStatement statements))

theorem EndsAs.isExpression_eq_false {o : Options} {node : Option Node} {last : ESTree}
    (h : EndsAs o node (some last)) :
    last.isExpression = false ∧ ∀ e, last ≠ expressionStatement e := by
  cases h with
  | added => exact ⟨rfl, by simp⟩
  | kept _ _ hexpression hstatement => exact ⟨hexpression, hstatement⟩

theorem exists_declares {o : Options} {nodes : List Node} {es : List ESTree} {e : ESTree}
    (h : List.Forall₂ (Declares o) nodes es) (he : e ∈ es) : ∃ node, Declares o node e := by
  induction h with
  | nil => cases he
  | cons hfirst _ ih =>
      rcases List.mem_cons.1 he with rfl | hothers
      · exact ⟨_, hfirst⟩
      · exact ih hothers

/-- The functions of the program have their declarations, in order, and the returns are those of the
program with `added` more. -/
structure Corresponds (o : Options) (nodes : List Node) (es : List ESTree) (added : Nat) :
    Prop where
  functions : List.Forall₂ (Declares o) ((Node.walkAll nodes).filter Node.isFunction)
    ((walkAll es).filter isFunction)
  returns : (walkAll es).countP isReturn =
    (Node.walkAll nodes).countP Node.isResult + (Node.walkAll nodes).countP Node.addsResult + added

section Corresponds

variable {o : Options} {node : Node} {nodes others : List Node} {e : ESTree}
  {es fs : List ESTree} {m n : Nat}

theorem Corresponds.append (h : Corresponds o nodes es m) (h' : Corresponds o others fs n) :
    Corresponds o (nodes ++ others) (es ++ fs) (m + n) := by
  have hwalk : Node.walkAll (nodes ++ others) = Node.walkAll nodes ++ Node.walkAll others := by
    simp
  constructor
  · rw [hwalk, walkAll_append, List.filter_append, List.filter_append]
    exact List.rel_append h.functions h'.functions
  · rw [hwalk, walkAll_append, List.countP_append, List.countP_append, List.countP_append,
      h.returns, h'.returns]
    omega

/-- A node and its statement correspond, if their parts do. -/
theorem corresponds_singleton (hparts : Corresponds o node.children e.parts n)
    (hfunction : (node.isFunction = false ∧ e.isFunction = false) ∨ Declares o node e)
    (hcount : n + (if e.isReturn then 1 else 0) =
      (if node.isResult then 1 else 0) + (if node.addsResult then 1 else 0) + m) :
    Corresponds o [node] [e] m := by
  constructor
  · rw [Node.walkAll_singleton, walkAll_singleton, List.filter_cons, List.filter_cons]
    rcases hfunction with ⟨hnode, he⟩ | hdeclares
    · rw [hnode, he]
      exact hparts.functions
    · cases hdeclares with
      | intro hlast hreturns => exact .cons (.intro hlast hreturns) hparts.functions
  · rw [Node.walkAll_singleton, walkAll_singleton, List.countP_cons, List.countP_cons,
      List.countP_cons, hparts.returns]
    omega

/-- Where there are no functions, no results and no returns, nothing is to be compared. -/
theorem corresponds_of_plain
    (hnodes : ∀ node ∈ Node.walkAll nodes, node.isFunction = false ∧ node.isResult = false)
    (hes : ∀ e ∈ walkAll es, e.isFunction = false ∧ e.isReturn = false) :
    Corresponds o nodes es 0 := by
  constructor
  · rw [List.filter_eq_nil_iff.2 fun node hnode => by simp [hnodes node hnode],
      List.filter_eq_nil_iff.2 fun e he => by simp [hes e he]]
    exact .nil
  · rw [List.countP_eq_zero.2 fun e he => by simp [hes e he],
      List.countP_eq_zero.2 fun node hnode => by simp [hnodes node hnode],
      List.countP_eq_zero.2 fun node hnode => by
        simp [Node.addsResult_of_isFunction_eq_false (hnodes node hnode).1]]

/-- Values correspond to trees without functions and returns. -/
theorem corresponds_of_values (hnodes : ∀ node ∈ nodes, Occurrence.warnings ⟨.value, node⟩ = [])
    (hes : ∀ e ∈ es, e.IsPlain) : Corresponds o nodes es 0 := by
  apply corresponds_of_plain
  · intro m hm
    rw [Node.walkAll_eq_flatMap] at hm
    obtain ⟨node, hnode, hmem⟩ := List.mem_flatMap.1 hm
    have hvalues := Occurrence.forall_mem_walk_givesValue (hnodes node hnode)
    exact Node.plain_of_becomesResult (Node.becomesResult_of_givesValue (hvalues m hmem))
  · exact forall_mem_walkAll.2 hes

end Corresponds

/-! ## The last statement -/

section Values

variable {o : Options} {node : Node}

theorem run_lowerValues {nodes : List Node}
    (h : ∀ node ∈ nodes, IsValueOf o node (valueOf o node)) (c : Context) :
    (lowerValues o nodes).run c = some (valuesOf o nodes, c) := by
  induction nodes with
  | nil => rfl
  | cons node nodes ih =>
      obtain ⟨hnode, hnodes⟩ := List.forall_mem_cons.1 h
      rw [lowerValues, StateT.run_bind, hnode c]
      simp [ih hnodes]

/-- A node that stands for a value without a warning is lowered to its value in every context. -/
theorem isValueOf_valueOf (h : Occurrence.warnings ⟨.value, node⟩ = []) :
    IsValueOf o node (valueOf o node) := by
  induction node using Node.children_induction with
  | step node ih =>
      have hvalue := Occurrence.givesValue_of_unwarned h
      have hplaced := Occurrence.unwarned_children h (Occurrence.hasBody_of_unwarned h)
      have hchildren : ∀ child ∈ node.children, IsValueOf o child (valueOf o child) :=
        fun child hchild => ih child hchild (hplaced child hchild)
      intro c
      cases node with
      | identifier | integer | float | string | exportName => rfl
      | array elements | call name elements =>
          have helements : (lowerValues o elements).run c = _ := run_lowerValues hchildren c
          simp [lowerNode, helements, valueOf, Place.embed, Node.children]
      | get name key =>
          have hkey := hchildren key (by simp [Node.children]) c
          simp [lowerNode, hkey, valueOf, Place.embed]
      | set name first second | arithmetic op first second =>
          have hfirst := hchildren first (by simp [Node.children]) c
          have hsecond := hchildren second (by simp [Node.children]) c
          simp [lowerNode, hfirst, hsecond, valueOf, Place.embed]
      | useModule text binding =>
          cases binding with
          | none => rfl
          | some name => cases hvalue
      | _ => cases hvalue

end Values

theorem resultOf_of_isExpression {e : ESTree} (h : e.isExpression) :
    resultOf e = returnStatement (some e) := by
  unfold resultOf
  split
  · cases h
  · rw [if_pos h]

theorem givesResult_of_givesValue {o : Options} {node : Node} {e : ESTree}
    (h : node.givesNoValue = false) (he : IsValueOf o node e) : GivesResult o node e := by
  cases node with
  | assignment | create => cases h
  | useModule text binding =>
      cases binding with
      | none => exact he
      | some name => cases h
  | _ => exact he

theorem bound_of_isDotted {name : String} (h : Name.isDotted name) (init : ESTree) :
    bound name init = expressionStatement (assignmentExpression (path name) init) :=
  if_pos h

theorem bound_of_not_isDotted {name : String} (h : Name.isDotted name = false) (init : ESTree) :
    bound name init = declare name init := by
  rw [bound, h]
  rfl

section Last

variable (o : Options) (temporary : Nat → String) (depth k : Nat) {node : Node}

/-- A node that becomes the result of a function is lowered to an expression, alone or as a
statement. -/
theorem statementOf_of_becomesResult (h : node.becomesResult)
    (hwarnings : Occurrence.warnings ⟨.statement, node⟩ = []) :
    ∃ e, GivesResult o node e ∧ e.IsPure ∧
      (statementOf o temporary depth k node = e ∨
        statementOf o temporary depth k node = expressionStatement e) := by
  obtain ⟨-, hparts⟩ := Occurrence.unwarned_iff.1 hwarnings
  have hassign {name : String} {v : ESTree} (hv : v.IsPure) :
      (assignmentExpression (path name) v).IsPure :=
    isPure_assignmentExpression (isPure_path name) hv
  cases hvalue : node.givesNoValue with
  | false =>
      have hplaced : Occurrence.warnings ⟨.value, node⟩ = [] :=
        Occurrence.unwarned_iff.2 ⟨by simp [Occurrence.isMisplaced, hvalue], hparts⟩
      exact ⟨valueOf o node, givesResult_of_givesValue hvalue (isValueOf_valueOf hplaced),
        isPure_valueOf o node, statementOf_of_givesValue hvalue⟩
  | true =>
      cases node with
      | assignment name value =>
          have hassigned : IsValueOf o value (valueOf o value) :=
            isValueOf_valueOf (hparts _ (List.mem_singleton.2 rfl))
          exact ⟨_, ⟨_, hassigned, rfl⟩, hassign (isPure_valueOf o value),
            .inr (bound_of_isDotted h _)⟩
      | create name =>
          have hempty : (objectExpression []).IsPure := by simp [IsPure, isExpression]
          exact ⟨_, rfl, hassign hempty, .inr (bound_of_isDotted h _)⟩
      | useModule text binding =>
          cases binding with
          | none => cases hvalue
          | some name =>
              exact ⟨_, rfl, hassign (isPure_require o text), .inr (bound_of_isDotted h _)⟩
      | function | iterator | conditional | result => cases h
      | _ => cases hvalue

theorem lastOf_of_becomesResult (h : node.becomesResult)
    (hwarnings : Occurrence.warnings ⟨.statement, node⟩ = []) :
    ∃ e, GivesResult o node e ∧ e.IsPure ∧
      lastOf node (statementOf o temporary depth k node) = returnStatement (some e) := by
  obtain ⟨e, hresult, hpure, hstatement⟩ :=
    statementOf_of_becomesResult o temporary depth k h hwarnings
  have hkind : node.kind ∉ NodeKind.withoutResult := by
    cases node <;> simp_all [Node.becomesResult, Node.kind, NodeKind.withoutResult]
  refine ⟨e, hresult, hpure, ?_⟩
  rw [lastOf, if_neg hkind]
  rcases hstatement with heq | heq
  · rw [heq, resultOf_of_isExpression (isPure_iff.1 hpure).1]
  · rw [heq, resultOf]

/-- Any other node ends a function as it stands. -/
theorem lastOf_of_not_becomesResult (h : node.becomesResult = false) :
    lastOf node (statementOf o temporary depth k node) = statementOf o temporary depth k node ∧
      EndsAs o (some node) (some (statementOf o temporary depth k node)) := by
  cases node with
  | conditional | result | iterator | function =>
      exact ⟨rfl, .kept h rfl rfl (by simp [statementOf, countingLoop])⟩
  | assignment name _ | create name =>
      rw [statementOf, bound_of_not_isDotted h]
      exact ⟨rfl, .kept h rfl rfl (by simp [declare])⟩
  | useModule text binding =>
      cases binding with
      | none => cases h
      | some name =>
          rw [statementOf, bound_of_not_isDotted h]
          exact ⟨rfl, .kept h rfl rfl (by simp [declare])⟩
  | _ => cases h

theorem endsAs_lastOf (hwarnings : Occurrence.warnings ⟨.statement, node⟩ = []) :
    EndsAs o (some node) (some (lastOf node (statementOf o temporary depth k node))) := by
  cases h : node.becomesResult with
  | true =>
      obtain ⟨e, hresult, -, heq⟩ := lastOf_of_becomesResult o temporary depth k h hwarnings
      rw [heq]
      exact .added h hresult
  | false =>
      obtain ⟨heq, hends⟩ := lastOf_of_not_becomesResult o temporary depth k h
      rw [heq]
      exact hends

theorem corresponds_lastOf (hwarnings : Occurrence.warnings ⟨.statement, node⟩ = [])
    (h : Corresponds o [node] [statementOf o temporary depth k node] 0) :
    Corresponds o [node] [lastOf node (statementOf o temporary depth k node)]
      (if node.becomesResult then 1 else 0) := by
  cases hresult : node.becomesResult with
  | true =>
      obtain ⟨e, -, hpure, heq⟩ := lastOf_of_becomesResult o temporary depth k hresult hwarnings
      have hbody := Node.hasBody_of_becomesResult hresult
      have hplain := Node.plain_of_becomesResult hresult
      have hparts : Corresponds o node.children (returnStatement (some e)).parts 0 :=
        corresponds_of_values (Occurrence.unwarned_children hwarnings hbody)
          (by simpa [parts] using hpure.isPlain)
      rw [heq]
      refine corresponds_singleton hparts (.inl ⟨hplain.1, rfl⟩) ?_
      simp [isReturn, hplain.2, Node.addsResult_of_isFunction_eq_false hplain.1]
  | false =>
      rw [(lastOf_of_not_becomesResult o temporary depth k hresult).1]
      exact h

/-- Hoisted declarations stand in front, so the statements of a function end with that of its last
node. -/
theorem getLast?_statementsOf (body : List Node) :
    ∃ j, (statementsOf o temporary .function depth k body).getLast? =
      body.getLast?.map fun last => lastOf last (statementOf o temporary depth j last) := by
  induction body generalizing k with
  | nil => exact ⟨k, rfl⟩
  | cons node nodes ih =>
      cases nodes with
      | nil => exact ⟨k, by simp [statementsOf]⟩
      | cons next rest =>
          obtain ⟨j, hj⟩ := ih (k + arrayLoops [node])
          refine ⟨j, ?_⟩
          rw [statementsOf, List.getLast?_append, List.getLast?_cons, hj, List.getLast?_cons_cons]
          simp [List.getLast?_cons]

theorem endsAs_statementsOf {body : List Node}
    (hwarnings : ∀ node ∈ body, Occurrence.warnings ⟨.statement, node⟩ = []) :
    EndsAs o body.getLast? (statementsOf o temporary .function depth k body).getLast? := by
  obtain ⟨j, hj⟩ := getLast?_statementsOf o temporary depth k body
  rw [hj]
  cases hlast : body.getLast? with
  | none => exact .empty
  | some last =>
      exact endsAs_lastOf o temporary depth j (hwarnings last (List.mem_of_getLast? hlast))

end Last

/-! ## Statements correspond to their nodes -/

section Statements

variable {o : Options} {temporary : Nat → String}

theorem isPlain_bound {name : String} {init : ESTree} (h : init.IsPure) :
    (bound name init).IsPlain := by
  unfold bound
  split
  · have hassign := isPure_assignmentExpression (isPure_path name) h
    exact everywhere_expressionStatement.2 ⟨⟨rfl, rfl⟩, hassign.isPlain⟩
  · exact isPlain_declare h

/-- A statement list corresponds to its nodes.  That of a function has one return more, if its last
node becomes the result. -/
theorem corresponds_statementsOf {depth : Nat} {nodes : List Node}
    (hwarnings : ∀ node ∈ nodes, Occurrence.warnings ⟨.statement, node⟩ = [])
    (h : ∀ node ∈ nodes, ∀ k, Corresponds o [node] [statementOf o temporary depth k node] 0)
    (owner : Body) (k : Nat) :
    Corresponds o nodes (statementsOf o temporary owner depth k nodes)
      (if owner = .function ∧ nodes.getLast?.any Node.becomesResult then 1 else 0) := by
  induction nodes generalizing k with
  | nil =>
      have hnone : Corresponds o [] [] 0 := corresponds_of_values (by simp) (by simp)
      simpa [statementsOf] using hnone
  | cons node nodes ih =>
      obtain ⟨hnode, hnodes⟩ := List.forall_mem_cons.1 h
      obtain ⟨hwarning, hwarnings⟩ := List.forall_mem_cons.1 hwarnings
      have hhoisted : Corresponds o [] (hoistedBy o (temporary k) node) 0 :=
        corresponds_of_values (by simp) fun e he => by
          obtain ⟨init, hinit, rfl⟩ := exists_eq_declare_of_mem_hoistedBy o he
          exact isPlain_declare hinit
      have hrest := ih hwarnings hnodes (k + arrayLoops [node])
      rw [statementsOf]
      cases nodes with
      | nil =>
          cases owner with
          | function =>
              have hlast := corresponds_lastOf o temporary depth k hwarning (hnode k)
              simpa [statementsOf] using hhoisted.append hlast
          | other => simpa [statementsOf] using hhoisted.append (hnode k)
      | cons next rest =>
          rw [List.getLast?_cons_cons]
          simpa using hhoisted.append ((hnode k).append hrest)

/-- A construct without a body that is no result has a plain statement. -/
theorem isPlain_statementOf {depth k : Nat} {node : Node} (hbody : node.hasBody = false)
    (hresult : node.isResult = false) : (statementOf o temporary depth k node).IsPlain := by
  cases hvalue : node.givesNoValue with
  | false =>
      have hplain := (isPure_valueOf o node).isPlain
      rcases statementOf_of_givesValue hvalue with heq | heq
      · rw [heq]
        exact hplain
      · rw [heq]
        exact everywhere_expressionStatement.2 ⟨⟨rfl, rfl⟩, hplain⟩
  | true =>
      cases node with
      | assignment name value => exact isPlain_bound (isPure_valueOf o value)
      | create name => exact isPlain_bound (by simp [IsPure, isExpression])
      | useModule text binding =>
          cases binding with
          | none => cases hvalue
          | some name => exact isPlain_bound (isPure_require o text)
      | function | iterator | conditional => cases hbody
      | result => cases hresult
      | _ => cases hvalue

theorem Corresponds.blockStatement {nodes : List Node} {es : List ESTree} {n : Nat}
    (h : Corresponds o nodes es n) : Corresponds o nodes [blockStatement es] n := by
  constructor
  · rw [walkAll_singleton]
    exact h.functions
  · rw [walkAll_singleton]
    exact h.returns

/-- Around the statements of a loop there are expressions alone. -/
theorem corresponds_countingLoop {source : Node} {body : List Node} {s : ESTree}
    {ss : List ESTree} {n : Nat} (hsource : Occurrence.warnings ⟨.value, source⟩ = [])
    (hs : s.IsPure) (i : String) (hss : Corresponds o body ss n) :
    Corresponds o (source :: body) (countingLoop s i ss).parts n := by
  have hindex := isPure_identifier i
  have htest := isPure_binaryExpression .lessThan hindex (isPure_member hs "length")
  have hupdate := isPure_updateExpression false hindex
  have hhead : Corresponds o [source] [declare i (number (.zero false) "0"), _, _] 0 :=
    corresponds_of_values (List.forall_mem_singleton.2 hsource) (List.forall_mem_cons.2
      ⟨isPlain_declare (isPure_literal _ _), List.forall_mem_cons.2
        ⟨htest.isPlain, List.forall_mem_singleton.2 hupdate.isPlain⟩⟩)
  have hitem : Corresponds o [] [declare itemName _] 0 :=
    corresponds_of_values (by simp)
      (List.forall_mem_singleton.2 (isPlain_declare (isPure_index hs hindex)))
  have hall := hhead.append (hitem.append hss).blockStatement
  rwa [Nat.zero_add, Nat.zero_add] at hall

theorem corresponds_of_isPlain {node : Node} {e : ESTree}
    (h : Occurrence.warnings ⟨.statement, node⟩ = []) (hbody : node.hasBody = false)
    (hresult : node.isResult = false) (he : e.IsPlain) : Corresponds o [node] [e] 0 := by
  obtain ⟨⟨hfunction, hreturn⟩, hparts⟩ := everywhere_iff.1 he
  have hnode : node.isFunction = false := by
    cases node with
    | function => cases hbody
    | _ => rfl
  refine corresponds_singleton (corresponds_of_values (Occurrence.unwarned_children h hbody) hparts)
    (.inl ⟨hnode, hfunction⟩) ?_
  simp [hreturn, hresult, Node.addsResult_of_isFunction_eq_false hnode]

/-- Without a warning a statement corresponds to its node. -/
theorem corresponds_statementOf {node : Node} (h : Occurrence.warnings ⟨.statement, node⟩ = [])
    (depth k : Nat) : Corresponds o [node] [statementOf o temporary depth k node] 0 := by
  induction node using Node.children_induction generalizing depth k with
  | step node ih =>
      obtain ⟨-, hparts⟩ := Occurrence.unwarned_iff.1 h
      -- the statements of a body correspond to its nodes, by the induction hypothesis
      have hbody (nodes : List Node) (hsub : ∀ n ∈ nodes, n ∈ node.children)
          (hplaced : ∀ n ∈ nodes, Occurrence.warnings ⟨.statement, n⟩ = []) (owner : Body)
          (depth k : Nat) :=
        corresponds_statementsOf hplaced
          (fun n hn k => ih n (hsub n hn) (hplaced n hn) depth k) owner k
      cases node with
      | function name params body =>
          have hplaced : ∀ n ∈ body, Occurrence.warnings ⟨.statement, n⟩ = [] := by
            simpa [Node.placedParts] using hparts
          have hnames : Corresponds o [] (identifier name :: params.map identifier) 0 :=
            corresponds_of_values (by simp) (by simp [(isPure_identifier _).isPlain])
          have hstatements : Corresponds o body (statementsOf o temporary .function depth k body)
              (if body.getLast?.any Node.becomesResult then 1 else 0) := by
            simpa using hbody body (fun _ hn => hn) hplaced .function depth k
          have hall := hnames.append hstatements.blockStatement
          rw [statementOf]
          refine corresponds_singleton (by simpa [Node.children, parts] using hall)
            (.inr (.intro (endsAs_statementsOf o temporary depth k hplaced) hstatements.returns)) ?_
          exact (Nat.zero_add _).symm
      | iterator source body =>
          obtain ⟨hsource, hplaced⟩ : Occurrence.warnings ⟨.value, source⟩ = [] ∧
              ∀ n ∈ body, Occurrence.warnings ⟨.statement, n⟩ = [] := by
            simpa [Node.placedParts] using hparts
          have hstatements := hbody body (fun _ hn => List.mem_cons_of_mem _ hn) hplaced .other
            (depth + 1) (if source.kind = .array then k + 1 else k)
          rw [statementOf]
          exact corresponds_singleton (corresponds_countingLoop hsource
            (isPure_sourceOf o (temporary k) source) (loopIndex depth) hstatements)
            (.inl ⟨rfl, rfl⟩) rfl
      | conditional check left right pass fail =>
          obtain ⟨hoperands, hpass, hfail⟩ :
              (∀ n ∈ left :: right.toList, Occurrence.warnings ⟨.value, n⟩ = []) ∧
              (∀ n ∈ pass, Occurrence.warnings ⟨.statement, n⟩ = []) ∧
              ∀ n ∈ fail.getD [], Occurrence.warnings ⟨.statement, n⟩ = [] := by
            simpa [Node.placedParts, or_imp, forall_and, and_assoc] using hparts
          have htest : (testOf check (valueOf o left) (right.map (valueOf o))).IsPure :=
            isPure_testOf (isPure_valueOf o left) (by simp [isPure_valueOf])
          have hhead : Corresponds o (left :: right.toList) [_] 0 :=
            corresponds_of_values hoperands (List.forall_mem_singleton.2 htest.isPlain)
          have hpass := hbody pass (by simp +contextual [Node.children]) hpass .other depth k
          have hfail : Corresponds o (fail.getD [])
              (branchOf o temporary depth (k + arrayLoops pass) fail).toList 0 := by
            cases fail with
            | none => exact corresponds_of_values (by simp) (by simp [branchOf])
            | some nodes =>
                have hnodes := hbody nodes (by simp +contextual [Node.children]) hfail .other depth
                  (k + arrayLoops pass)
                exact hnodes.blockStatement
          have hall := hhead.append (hpass.blockStatement.append hfail)
          rw [statementOf]
          exact corresponds_singleton (n := 0) (by simpa [Node.children, parts] using hall)
            (.inl ⟨rfl, rfl⟩) rfl
      | result value =>
          have hvalue : ∀ n ∈ value.toList, Occurrence.warnings ⟨.value, n⟩ = [] := by
            simpa [Node.placedParts] using hparts
          have hresult : Corresponds o value.toList (value.map (valueOf o)).toList 0 :=
            corresponds_of_values hvalue (by simp [(isPure_valueOf o _).isPlain])
          rw [statementOf]
          exact corresponds_singleton hresult (.inl ⟨rfl, rfl⟩) rfl
      | _ => exact corresponds_of_isPlain h rfl rfl (isPlain_statementOf rfl rfl)

end Statements

end Lowering

open ESTree Lowering

/-- In a program that is lowered without a warning, each function has its declaration, in the order
of the walk, and there are no other declarations of functions.  None ends in an expression.  One
return is put out for each that is written and for each function whose last node becomes its
result. -/
theorem returns_of_lowerProgram {o : Options} {supply : Supply} {program : List Node}
    {lowered : Lowered} (h : lowerProgram o supply program = some lowered)
    (hwarnings : lowered.warnings = []) :
    (walkAll lowered.body).countP ESTree.isReturn =
        (Node.walkAll program).countP Node.isResult +
          (Node.walkAll program).countP Node.addsResult ∧
      List.Forall₂ (Declares o) ((Node.walkAll program).filter Node.isFunction)
        ((walkAll lowered.body).filter ESTree.isFunction) ∧
      ∀ id params defaults statements,
        functionDeclaration id params defaults (blockStatement statements) ∈
            walkAll lowered.body →
          ∀ last ∈ statements.getLast?, last.isExpression = false ∧
            ∀ e, last ≠ expressionStatement e := by
  obtain ⟨temporary, hbody⟩ := exists_body_eq_statementsOf h hwarnings
  obtain ⟨r, hlowers, -, -⟩ := lowers_of_lowerProgram h
  have hplaced : ∀ node ∈ program, Occurrence.warnings ⟨.statement, node⟩ = [] := by
    rw [warnings_of_lowers hlowers, occurrences_block, List.flatMap_eq_nil_iff,
      List.forall_mem_map] at hwarnings
    exact hwarnings
  have hcorresponds : Corresponds o program lowered.body 0 := by
    rw [hbody]
    exact corresponds_statementsOf hplaced
      (fun node hnode k => corresponds_statementOf (hplaced node hnode) 0 k) .other 0
  refine ⟨hcorresponds.returns, hcorresponds.functions, ?_⟩
  intro id params defaults statements hmem last hlast
  have hfunction : functionDeclaration id params defaults (blockStatement statements) ∈
      (walkAll lowered.body).filter ESTree.isFunction := List.mem_filter.2 ⟨hmem, rfl⟩
  obtain ⟨node, hdeclares⟩ := exists_declares hcorresponds.functions hfunction
  cases hdeclares with
  | intro hends =>
      rw [Option.mem_def.1 hlast] at hends
      exact hends.isExpression_eq_false

/-- Of the functions two get a result: one ends in a call, one in the assignment to a member.  The
return in the branch is written, and the function in the loop has none. -/
def functionsInFunction : List Node :=
  [.function "f" ["x"]
    [.function "g" [] [.assignment "x.y" (.integer "1")],
      .iterator (.array [.identifier "x"]) [.function "h" [] [.create "z"]],
      .conditional .present (.identifier "x") none [.result none] none,
      .call "g" []]]

theorem returns_of_lowerProgram_functionsInFunction :
    ∃ lowered, lowerProgram {} (.ofSeed 0) functionsInFunction = some lowered ∧
      lowered.warnings = [] ∧
      (walkAll lowered.body).countP ESTree.isReturn = 1 + 2 ∧
      List.Forall₂ (Declares {}) ((Node.walkAll functionsInFunction).filter Node.isFunction)
        ((walkAll lowered.body).filter ESTree.isFunction) ∧
      ∀ id params defaults statements,
        functionDeclaration id params defaults (blockStatement statements) ∈
            walkAll lowered.body →
          ∀ last ∈ statements.getLast?, last.isExpression = false ∧
            ∀ e, last ≠ expressionStatement e := by
  have hrun : (lowerProgram {} (.ofSeed 0) functionsInFunction).map (·.warnings) = some [] := by
    decide +kernel
  obtain ⟨lowered, hlowered, hwarnings⟩ := Option.map_eq_some_iff.1 hrun
  obtain ⟨hreturns, hrest⟩ := returns_of_lowerProgram hlowered hwarnings
  have hcount : (Node.walkAll functionsInFunction).countP Node.isResult = 1 ∧
      (Node.walkAll functionsInFunction).countP Node.addsResult = 2 := by
    decide
  rw [hcount.1, hcount.2] at hreturns
  exact ⟨lowered, hlowered, hwarnings, hreturns, hrest⟩

end LijsCompiler
