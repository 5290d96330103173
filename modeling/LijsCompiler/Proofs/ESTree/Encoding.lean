import LijsCompiler.ESTree.Json
import LijsCompiler.Proofs.Value.Readability

/-!
# A program is known by its JSON text

The type that stands first in every object tells the kind of a node, and the other fields tell its
parts, so the data of a tree determines the tree (`zeroed_eq_of_skeleton_eq`).  The text determines
the data up to the numbers: two programs with one text differ in the values of number literals at
most, not in the texts that the literals keep (`zeroedAll_eq_of_toJson_eq`).
-/

namespace LijsCompiler

def Literal.zeroed : Literal → Literal
  | number _ => number (.zero false)
  | string text => string text

theorem Literal.skeleton_number (x : Binary64) : (number x).toValue.skeleton = .null := by
  rw [toValue]
  split
  · split <;> rfl
  · rfl

/-- Whether a literal is a number or a text can be told from its data, and the text can. -/
theorem Literal.zeroed_eq_of_skeleton_eq {value other : Literal}
    (h : value.toValue.skeleton = other.toValue.skeleton) : value.zeroed = other.zeroed := by
  cases value with
  | number x =>
      cases other with
      | number y => rfl
      | string text =>
          rw [skeleton_number] at h
          cases h
  | string text =>
      cases other with
      | number y =>
          rw [skeleton_number] at h
          cases h
      | string text' =>
          obtain rfl := Value.string.inj h
          rfl

theorem BinaryOperator.sign_injective {op other : BinaryOperator} (h : op.sign = other.sign) :
    op = other := by
  cases op <;> cases other <;> first | rfl | simp [sign] at h

namespace ESTree

mutual

/-- The tree with zero in place of the values of its number literals. -/
def zeroed : ESTree → ESTree
  | identifier name => identifier name
  | memberExpression object property computed =>
    memberExpression (zeroed object) (zeroed property) computed
  | callExpression callee arguments => callExpression (zeroed callee) (zeroedAll arguments)
  | variableDeclaration declarations => variableDeclaration (zeroedDeclarators declarations)
  | functionDeclaration id params defaults body =>
    functionDeclaration (zeroed id) (zeroedAll params) (zeroedAll defaults) (zeroed body)
  | blockStatement body => blockStatement (zeroedAll body)
  | returnStatement argument => returnStatement (zeroedOption argument)
  | arrayExpression elements => arrayExpression (zeroedAll elements)
  | objectExpression properties => objectExpression (zeroedAll properties)
  | assignmentExpression left right => assignmentExpression (zeroed left) (zeroed right)
  | ifStatement test consequent alternate =>
    ifStatement (zeroed test) (zeroed consequent) (zeroedOption alternate)
  | binaryExpression operator left right => binaryExpression operator (zeroed left) (zeroed right)
  | unaryExpression isBefore argument => unaryExpression isBefore (zeroed argument)
  | forStatement init test update body =>
    forStatement (zeroed init) (zeroed test) (zeroed update) (zeroed body)
  | updateExpression isBefore argument => updateExpression isBefore (zeroed argument)
  | expressionStatement expression => expressionStatement (zeroed expression)
  | literal value raw => literal value.zeroed raw

def zeroedAll : List ESTree → List ESTree
  | [] => []
  | node :: nodes => zeroed node :: zeroedAll nodes

def zeroedOption : Option ESTree → Option ESTree
  | none => none
  | some node => some (zeroed node)

def zeroedDeclarators : List Declarator → List Declarator
  | [] => []
  | .mk id init :: declarators => .mk (zeroed id) (zeroed init) :: zeroedDeclarators declarators

end

/-! ## The data of a tree determines the tree -/

/-- The type of a node stands first. -/
theorem exists_toValue_eq (e : ESTree) :
    ∃ fields, e.toValue = .object (("type", .string e.type) :: fields) := by
  cases e <;> exact ⟨_, rfl⟩

theorem type_eq_of_skeleton_eq {e other : ESTree}
    (h : e.toValue.skeleton = other.toValue.skeleton) : e.type = other.type := by
  obtain ⟨fields, heq⟩ := exists_toValue_eq e
  obtain ⟨fields', heq'⟩ := exists_toValue_eq other
  simp only [heq, heq', Value.skeleton, Value.skeletonFields, Value.object.injEq, List.cons.injEq,
    Prod.mk.injEq, Value.string.injEq, true_and] at h
  exact h.1

theorem skeleton_toValue_ne_null (e : ESTree) : e.toValue.skeleton ≠ .null := by
  obtain ⟨fields, heq⟩ := exists_toValue_eq e
  rw [heq]
  exact nofun

mutual

/-- Trees with the same data up to numbers are the same up to number literals. -/
theorem zeroed_eq_of_skeleton_eq : ∀ e other : ESTree,
    e.toValue.skeleton = other.toValue.skeleton → e.zeroed = other.zeroed
  | identifier name, other, h => by
      cases other with
      | identifier name' => simpa [toValue, zeroed] using h
      | _ => simpa [type] using type_eq_of_skeleton_eq h
  | literal value raw, other, h => by
      cases other with
      | literal value' raw' =>
          simp [toValue] at h
          rw [zeroed, zeroed, Literal.zeroed_eq_of_skeleton_eq h.1, h.2]
      | _ => simpa [type] using type_eq_of_skeleton_eq h
  | memberExpression object property computed, other, h => by
      cases other with
      | memberExpression object' property' computed' =>
          simp [toValue] at h
          rw [zeroed, zeroed, zeroed_eq_of_skeleton_eq object _ h.1,
            zeroed_eq_of_skeleton_eq property _ h.2.1, h.2.2]
      | _ => simpa [type] using type_eq_of_skeleton_eq h
  | callExpression callee arguments, other, h => by
      cases other with
      | callExpression callee' arguments' =>
          simp [toValue] at h
          rw [zeroed, zeroed, zeroed_eq_of_skeleton_eq callee _ h.1,
            zeroedAll_eq_of_skeleton_eq arguments _ h.2]
      | _ => simpa [type] using type_eq_of_skeleton_eq h
  | variableDeclaration declarations, other, h => by
      cases other with
      | variableDeclaration declarations' =>
          simp [toValue] at h
          rw [zeroed, zeroed, zeroedDeclarators_eq_of_skeleton_eq declarations _ h]
      | _ => simpa [type] using type_eq_of_skeleton_eq h
  | functionDeclaration id params defaults body, other, h => by
      cases other with
      | functionDeclaration id' params' defaults' body' =>
          simp [toValue] at h
          obtain ⟨hid, hparams, hdefaults, hbody⟩ := h
          rw [zeroed, zeroed, zeroed_eq_of_skeleton_eq id _ hid,
            zeroedAll_eq_of_skeleton_eq params _ hparams,
            zeroedAll_eq_of_skeleton_eq defaults _ hdefaults,
            zeroed_eq_of_skeleton_eq body _ hbody]
      | _ => simpa [type] using type_eq_of_skeleton_eq h
  | blockStatement body, other, h => by
      cases other with
      | blockStatement body' =>
          simp [toValue] at h
          rw [zeroed, zeroed, zeroedAll_eq_of_skeleton_eq body _ h]
      | _ => simpa [type] using type_eq_of_skeleton_eq h
  | returnStatement argument, other, h => by
      cases other with
      | returnStatement argument' =>
          simp [toValue] at h
          rw [zeroed, zeroed, zeroedOption_eq_of_skeleton_eq argument _ h]
      | _ => simpa [type] using type_eq_of_skeleton_eq h
  | arrayExpression elements, other, h => by
      cases other with
      | arrayExpression elements' =>
          simp [toValue] at h
          rw [zeroed, zeroed, zeroedAll_eq_of_skeleton_eq elements _ h]
      | _ => simpa [type] using type_eq_of_skeleton_eq h
  | objectExpression properties, other, h => by
      cases other with
      | objectExpression properties' =>
          simp [toValue] at h
          rw [zeroed, zeroed, zeroedAll_eq_of_skeleton_eq properties _ h]
      | _ => simpa [type] using type_eq_of_skeleton_eq h
  | assignmentExpression left right, other, h => by
      cases other with
      | assignmentExpression left' right' =>
          simp [toValue] at h
          rw [zeroed, zeroed, zeroed_eq_of_skeleton_eq left _ h.1,
            zeroed_eq_of_skeleton_eq right _ h.2]
      | _ => simpa [type] using type_eq_of_skeleton_eq h
  | ifStatement test consequent alternate, other, h => by
      cases other with
      | ifStatement test' consequent' alternate' =>
          simp [toValue] at h
          rw [zeroed, zeroed, zeroed_eq_of_skeleton_eq test _ h.1,
            zeroed_eq_of_skeleton_eq consequent _ h.2.1,
            zeroedOption_eq_of_skeleton_eq alternate _ h.2.2]
      | _ => simpa [type] using type_eq_of_skeleton_eq h
  | binaryExpression op left right, other, h => by
      cases other with
      | binaryExpression op' left' right' =>
          simp [toValue] at h
          rw [zeroed, zeroed, BinaryOperator.sign_injective h.1,
            zeroed_eq_of_skeleton_eq left _ h.2.1, zeroed_eq_of_skeleton_eq right _ h.2.2]
      | _ => simpa [type] using type_eq_of_skeleton_eq h
  | unaryExpression isBefore argument, other, h => by
      cases other with
      | unaryExpression isBefore' argument' =>
          simp [toValue] at h
          rw [zeroed, zeroed, h.1, zeroed_eq_of_skeleton_eq argument _ h.2]
      | _ => simpa [type] using type_eq_of_skeleton_eq h
  | updateExpression isBefore argument, other, h => by
      cases other with
      | updateExpression isBefore' argument' =>
          simp [toValue] at h
          rw [zeroed, zeroed, h.1, zeroed_eq_of_skeleton_eq argument _ h.2]
      | _ => simpa [type] using type_eq_of_skeleton_eq h
  | forStatement init test update body, other, h => by
      cases other with
      | forStatement init' test' update' body' =>
          simp [toValue] at h
          obtain ⟨hinit, htest, hupdate, hbody⟩ := h
          rw [zeroed, zeroed, zeroed_eq_of_skeleton_eq init _ hinit,
            zeroed_eq_of_skeleton_eq test _ htest, zeroed_eq_of_skeleton_eq update _ hupdate,
            zeroed_eq_of_skeleton_eq body _ hbody]
      | _ => simpa [type] using type_eq_of_skeleton_eq h
  | expressionStatement expression, other, h => by
      cases other with
      | expressionStatement expression' =>
          simp [toValue] at h
          rw [zeroed, zeroed, zeroed_eq_of_skeleton_eq expression _ h]
      | _ => simpa [type] using type_eq_of_skeleton_eq h

theorem zeroedAll_eq_of_skeleton_eq : ∀ es others : List ESTree,
    Value.skeletons (toValues es) = Value.skeletons (toValues others) →
      zeroedAll es = zeroedAll others
  | [], others, h => by
      cases others with
      | nil => rfl
      | cons => simp [toValues] at h
  | e :: es, others, h => by
      cases others with
      | nil => simp [toValues] at h
      | cons other others =>
          simp [toValues] at h
          rw [zeroedAll, zeroedAll, zeroed_eq_of_skeleton_eq e _ h.1,
            zeroedAll_eq_of_skeleton_eq es _ h.2]

theorem zeroedOption_eq_of_skeleton_eq : ∀ e other : Option ESTree,
    (optionValue e).skeleton = (optionValue other).skeleton → zeroedOption e = zeroedOption other
  | none, other, h => by
      cases other with
      | none => rfl
      | some other => exact absurd h.symm (skeleton_toValue_ne_null other)
  | some e, other, h => by
      cases other with
      | none => exact absurd h (skeleton_toValue_ne_null e)
      | some other => rw [zeroedOption, zeroedOption, zeroed_eq_of_skeleton_eq e other h]

theorem zeroedDeclarators_eq_of_skeleton_eq : ∀ ds others : List Declarator,
    Value.skeletons (declaratorValues ds) = Value.skeletons (declaratorValues others) →
      zeroedDeclarators ds = zeroedDeclarators others
  | [], others, h => by
      cases others with
      | nil => rfl
      | cons other others => cases other; simp [declaratorValues] at h
  | .mk id init :: ds, others, h => by
      cases others with
      | nil => simp [declaratorValues] at h
      | cons other others =>
          obtain ⟨id', init'⟩ := other
          simp [declaratorValues] at h
          rw [zeroedDeclarators, zeroedDeclarators, zeroed_eq_of_skeleton_eq id _ h.1.1,
            zeroed_eq_of_skeleton_eq init _ h.1.2, zeroedDeclarators_eq_of_skeleton_eq ds _ h.2]

end

/-- Two programs whose compact JSON texts are equal have the same nodes in the same places, with the
same names, operators, string values and raw texts.  Only the values of number literals may
differ. -/
theorem zeroedAll_eq_of_toJson_eq {program other : List ESTree}
    (h : (programValue program).toJson = (programValue other).toJson) :
    zeroedAll program = zeroedAll other := by
  have hdata := Value.skeleton_eq_of_toJson_eq h
  simp [programValue] at hdata
  exact zeroedAll_eq_of_skeleton_eq program other hdata

/-- Positive and negative zero have one text, so here the numbers do differ. -/
theorem zeroedAll_eq_of_toJson_eq_signed_zero :
    (programValue [number (.zero false) "0", .string "\"\n"]).toJson =
        (programValue [number (.zero true) "0", .string "\"\n"]).toJson ∧
      zeroedAll [number (.zero false) "0", .string "\"\n"] =
        zeroedAll [number (.zero true) "0", .string "\"\n"] := by
  have htext : (programValue [number (.zero false) "0", .string "\"\n"]).toJson =
      (programValue [number (.zero true) "0", .string "\"\n"]).toJson := by
    decide +kernel
  exact ⟨htext, zeroedAll_eq_of_toJson_eq htext⟩

end ESTree

end LijsCompiler
