import LijsCompiler.Proofs.ESTree.Slots

/-!
# The variables of the output

An identifier stands for a variable everywhere but as the plain property of a member.  The chain of
members that a name with dots becomes has one variable, the root of the name, unless the name begins
with a dot (`vars_path`).
-/

namespace LijsCompiler

namespace ESTree

/-- Whether a node names a property, given whether the property is computed. -/
def isPlainProperty (computed : Bool) : ESTree → Bool
  | identifier _ => !computed
  | _ => false

mutual

/-- The names in variable positions, each as often as it stands there. -/
def vars : ESTree → List String
  | identifier name => [name]
  | memberExpression object property computed =>
    vars object ++ if property.isPlainProperty computed then [] else vars property
  | callExpression callee arguments => vars callee ++ varsAll arguments
  | variableDeclaration declarations => varsDeclarators declarations
  | functionDeclaration id params defaults body =>
    vars id ++ varsAll params ++ varsAll defaults ++ vars body
  | blockStatement body => varsAll body
  | returnStatement argument => varsOption argument
  | arrayExpression elements => varsAll elements
  | objectExpression properties => varsAll properties
  | assignmentExpression left right => vars left ++ vars right
  | ifStatement test consequent alternate =>
    vars test ++ vars consequent ++ varsOption alternate
  | binaryExpression _ left right => vars left ++ vars right
  | unaryExpression _ argument => vars argument
  | forStatement init test update body =>
    vars init ++ vars test ++ vars update ++ vars body
  | updateExpression _ argument => vars argument
  | expressionStatement expression => vars expression
  | literal _ _ => []

def varsAll : List ESTree → List String
  | [] => []
  | node :: nodes => vars node ++ varsAll nodes

def varsOption : Option ESTree → List String
  | none => []
  | some node => vars node

def varsDeclarators : List Declarator → List String
  | [] => []
  | .mk id init :: declarators => vars id ++ vars init ++ varsDeclarators declarators

end

@[simp] theorem varsAll_nil : varsAll [] = [] := rfl

@[simp] theorem varsAll_cons (node : ESTree) (nodes : List ESTree) :
    varsAll (node :: nodes) = node.vars ++ varsAll nodes := rfl

@[simp] theorem varsAll_append (nodes others : List ESTree) :
    varsAll (nodes ++ others) = varsAll nodes ++ varsAll others := by
  induction nodes with
  | nil => rfl
  | cons node nodes ih =>
      rw [List.cons_append, varsAll_cons, ih, varsAll_cons, List.append_assoc]

@[simp] theorem varsAll_map_identifier (names : List String) :
    varsAll (names.map identifier) = names := by
  induction names with
  | nil => rfl
  | cons name names ih =>
      rw [List.map_cons, varsAll_cons, ih, vars, List.singleton_append]

@[simp] theorem vars_identifier (name : String) : (identifier name).vars = [name] := rfl

@[simp] theorem vars_member (object : ESTree) (property : String) :
    (member object property).vars = object.vars := by
  rw [member, vars, isPlainProperty]
  exact List.append_nil _

@[simp] theorem vars_index (object property : ESTree) :
    (index object property).vars = object.vars ++ property.vars := by
  have hcomputed : property.isPlainProperty true = false := by
    cases property <;> rfl
  rw [index, vars, hcomputed]
  rfl

@[simp] theorem vars_declare (name : String) (init : ESTree) :
    (declare name init).vars = name :: init.vars := by
  simp [declare, vars, varsDeclarators]

@[simp] theorem vars_string (text : String) : (ESTree.string text).vars = [] := rfl

@[simp] theorem vars_number (x : Binary64) (raw : String) : (number x raw).vars = [] :=
  rfl

end ESTree

/-! ## Names with dots -/

namespace Name

/-- A name that does not begin with a dot. -/
def IsRooted (name : String) : Prop := name.toList.head? ≠ some '.'

instance (name : String) : Decidable (IsRooted name) :=
  inferInstanceAs (Decidable (name.toList.head? ≠ some '.'))

theorem root_eq_self {name : String} (h : isDotted name = false) : root name = name := by
  unfold isDotted at h
  have hall : ∀ c ∈ name.toList, (c != '.') = true := by
    intro c hc
    rw [bne_iff_ne]
    rintro rfl
    rw [List.contains_iff_mem.2 hc] at h
    cases h
  have hwhole : name.toList.takeWhile (· != '.') = name.toList := by
    simpa using @List.takeWhile_append_of_pos _ (· != '.') name.toList [] hall
  rw [root, hwhole, String.ofList_toList]

theorem exists_splitOn_eq_takeWhile_cons (sep : Char) (cs : List Char) :
    ∃ others, cs.splitOn sep = cs.takeWhile (· != sep) :: others := by
  induction cs with
  | nil => exact ⟨[], by simp⟩
  | cons c cs ih =>
      obtain ⟨others, hsplit⟩ := ih
      rw [List.splitOn_cons_eq_if_modifyHead]
      by_cases hc : c = sep
      · refine ⟨cs.splitOn sep, ?_⟩
        rw [if_pos (by simpa using hc)]
        simp [hc]
      · refine ⟨others, ?_⟩
        rw [if_neg (by simpa using hc), hsplit]
        simp [hc]

/-- The first member of a name is its root, if the name has a root. -/
theorem exists_members_eq_root_cons {name : String} (h : root name ≠ "") :
    ∃ others, members name = root name :: others := by
  obtain ⟨others, hsplit⟩ := exists_splitOn_eq_takeWhile_cons '.' name.toList
  unfold members segments
  rw [hsplit, List.map_cons]
  change ∃ _, List.filter _ (root name :: _) = _
  rw [List.filter_cons_of_pos (by simpa using h)]
  exact ⟨_, rfl⟩

theorem eq_empty_of_root_eq_empty {name : String} (hrooted : IsRooted name)
    (h : root name = "") : name = "" := by
  unfold IsRooted at hrooted
  unfold root at h
  rw [← String.toList_inj] at h ⊢
  rw [String.toList_ofList] at h
  cases hname : name.toList with
  | nil => rfl
  | cons c cs =>
      rw [hname] at h hrooted
      have hc : c ≠ '.' := by simpa using hrooted
      simp [hc] at h

end Name

theorem ESTree.vars_path {name : String} (h : Name.IsRooted name) :
    (path name).vars = [Name.root name] := by
  by_cases hroot : Name.root name = ""
  · obtain rfl := Name.eq_empty_of_root_eq_empty h hroot
    rfl
  · obtain ⟨others, hmembers⟩ := Name.exists_members_eq_root_cons hroot
    unfold path
    rw [hmembers]
    apply foldl_member_induction (P := fun e => e.vars = [Name.root name])
    · intro object property hobject
      rw [vars_member, hobject]
    · rfl

end LijsCompiler
