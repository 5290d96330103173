import LijsCompiler.Proofs.ESTree.Slots

/-!
# Renaming the identifiers of the output

`rename f` puts `f name` in place of every identifier `name`, in whatever position it stands.  The
chain of members that a name becomes stays the same if `f` leaves every part of the name alone
(`rename_path`).
-/

namespace LijsCompiler

namespace ESTree

mutual

def rename (f : String → String) : ESTree → ESTree
  | identifier name => identifier (f name)
  | memberExpression object property computed =>
    memberExpression (rename f object) (rename f property) computed
  | callExpression callee arguments => callExpression (rename f callee) (renameAll f arguments)
  | variableDeclaration declarations => variableDeclaration (renameDeclarators f declarations)
  | functionDeclaration id params defaults body =>
    functionDeclaration (rename f id) (renameAll f params) (renameAll f defaults) (rename f body)
  | blockStatement body => blockStatement (renameAll f body)
  | returnStatement argument => returnStatement (renameOption f argument)
  | arrayExpression elements => arrayExpression (renameAll f elements)
  | objectExpression properties => objectExpression (renameAll f properties)
  | assignmentExpression left right => assignmentExpression (rename f left) (rename f right)
  | ifStatement test consequent alternate =>
    ifStatement (rename f test) (rename f consequent) (renameOption f alternate)
  | binaryExpression operator left right =>
    binaryExpression operator (rename f left) (rename f right)
  | unaryExpression isBefore argument => unaryExpression isBefore (rename f argument)
  | forStatement init test update body =>
    forStatement (rename f init) (rename f test) (rename f update) (rename f body)
  | updateExpression isBefore argument => updateExpression isBefore (rename f argument)
  | expressionStatement expression => expressionStatement (rename f expression)
  | literal value raw => literal value raw

def renameAll (f : String → String) : List ESTree → List ESTree
  | [] => []
  | node :: nodes => rename f node :: renameAll f nodes

def renameOption (f : String → String) : Option ESTree → Option ESTree
  | none => none
  | some node => some (rename f node)

def renameDeclarators (f : String → String) : List Declarator → List Declarator
  | [] => []
  | .mk id init :: declarators =>
    .mk (rename f id) (rename f init) :: renameDeclarators f declarators

end

section

variable (f : String → String)

@[simp] theorem renameAll_eq_map (nodes : List ESTree) :
    renameAll f nodes = nodes.map (rename f) := by
  induction nodes with
  | nil => rfl
  | cons node nodes ih => rw [renameAll, ih, List.map_cons]

@[simp] theorem renameOption_eq_map (node : Option ESTree) :
    renameOption f node = node.map (rename f) := by
  cases node <;> rfl

@[simp] theorem rename_identifier (name : String) :
    (identifier name).rename f = identifier (f name) := rfl

@[simp] theorem rename_member (object : ESTree) (property : String) :
    (member object property).rename f = member (object.rename f) (f property) := rfl

@[simp] theorem rename_index (object property : ESTree) :
    (index object property).rename f = index (object.rename f) (property.rename f) := rfl

@[simp] theorem rename_declare (name : String) (init : ESTree) :
    (declare name init).rename f = declare (f name) (init.rename f) := rfl

@[simp] theorem rename_string (text : String) :
    (ESTree.string text).rename f = ESTree.string text := rfl

@[simp] theorem rename_number (x : Binary64) (raw : String) :
    (number x raw).rename f = number x raw := rfl

end

theorem rename_foldl_member {f : String → String} {members : List String}
    (h : ∀ name ∈ members, f name = name) (object : ESTree) :
    (members.foldl member object).rename f = members.foldl member (object.rename f) := by
  induction members generalizing object with
  | nil => rfl
  | cons property members ih =>
      rw [List.forall_mem_cons] at h
      rw [List.foldl_cons, ih h.2, rename_member, h.1, List.foldl_cons]

theorem rename_path {f : String → String} {name : String} (hname : f name = name)
    (hmembers : ∀ part ∈ Name.members name, f part = part) :
    (path name).rename f = path name := by
  unfold path
  split
  · rw [rename_identifier, hname]
  · rename_i root members hsplit
    rw [hsplit, List.forall_mem_cons] at hmembers
    rw [rename_foldl_member hmembers.2, rename_identifier, hmembers.1]

end ESTree

/-! ## The lengths of the parts of a name -/

namespace Name

theorem length_le_of_mem_splitOn {sep : Char} {cs part : List Char} (h : part ∈ cs.splitOn sep) :
    part.length ≤ cs.length := by
  induction cs generalizing part with
  | nil => simp_all
  | cons c cs ih =>
      rw [List.splitOn_cons_eq_if_modifyHead] at h
      split at h
      · rcases List.mem_cons.1 h with rfl | hpart
        · simp
        · exact Nat.le_succ_of_le (ih hpart)
      · cases hsplit : cs.splitOn sep with
        | nil => simp [hsplit] at h
        | cons first others =>
            rw [hsplit] at ih h
            rcases List.mem_cons.1 h with rfl | hpart
            · have hfirst := ih (List.mem_cons_self ..)
              simpa using hfirst
            · exact Nat.le_succ_of_le (ih (List.mem_cons_of_mem _ hpart))

theorem length_le_of_mem_members {name part : String} (h : part ∈ members name) :
    part.length ≤ name.length := by
  unfold members segments at h
  obtain ⟨cs, hcs, rfl⟩ := List.mem_map.1 (List.mem_filter.1 h).1
  rw [String.length_ofList, ← String.length_toList]
  exact length_le_of_mem_splitOn hcs

theorem length_tail_le (name : String) : (tail name).length ≤ name.length := by
  unfold tail
  have hcut := (List.takeWhile_sublist (· != '.') : List.Sublist _ name.toList.reverse).length_le
  rw [List.length_reverse, String.length_toList] at hcut
  rw [String.length_ofList, List.length_reverse]
  exact hcut

end Name

end LijsCompiler
